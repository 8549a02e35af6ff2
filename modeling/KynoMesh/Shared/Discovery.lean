import KynoMesh.Lib.GoStd

/-!
# Replica discovery

`pkg/shared/discovery`: the hosts of an AgentDeploy's replicas, counted from the addresses that its headless Service
publishes. The resolver is a parameter.
-/

namespace KynoMesh.Discovery

open KynoMesh.Lib

/-- How `LookupHost` ends. -/
inductive Lookup where
  | found (ips : List String)
  /-- A `net.DNSError` with `IsNotFound`. -/
  | notFound
  | failed (msg : String)

/-- The addresses of a host name. -/
abbrev Resolver := String → Lookup

def headlessHost (as ad nspace : String) : String := as ++ "-" ++ ad ++ "-headless." ++ nspace ++ ".svc"

def replicaHost (as ad nspace : String) (i : Nat) : String :=
  as ++ "-" ++ ad ++ "-" ++ itoa i ++ "." ++ headlessHost as ad nspace

def discover (r : Resolver) (as ad nspace : String) : Except String (List String) :=
  match r (headlessHost as ad nspace) with
  | .found ips => .ok ((List.range ips.length).map (replicaHost as ad nspace))
  | .notFound => .ok []
  | .failed msg => .error ("resolve " ++ headlessHost as ad nspace ++ " (agentSet " ++ as ++ "): " ++ msg)

end KynoMesh.Discovery
