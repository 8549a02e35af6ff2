import KynoMesh.Api.Types
import KynoMesh.Lib.Loop

/-!
# The validator of AgentSets

`ValidateAgentSet` of `validator/agentset.go`, with the texts of its errors. What it takes from libraries is `Checks`:
the DNS label check of apimachinery, `url.Parse` and the `%q` verb.

* `validateAgentSet` : the checks in their order;
* `Valid` : what they come to for the names, the entry and the pattern; `valid_of_validateAgentSet`.
-/

namespace KynoMesh.Agentset

open KynoMesh.Lib KynoMesh.Api

structure URL where
  scheme : String
  host : String

/-- The library functions of the validator. -/
structure Checks where
  /-- `validation.IsDNS1035Label`: what is wrong with a name. -/
  isDNS1035Label : String → List String
  /-- `url.Parse`; `none` is its error. -/
  parseURL : String → Option URL
  /-- `%q`. -/
  quote : String → String

/-- The labels of RFC 1035 that `IsDNS1035Label` accepts, with its two messages. -/
def dns1035Label (name : String) : List String :=
  let chars := name.toList
  let inner (ch : Char) : Bool := ch.isLower || ch.isDigit || ch == '-'
  let isLabel : Bool :=
    (chars.head?.any Char.isLower) && chars.all inner && (chars.getLast?.any fun ch => ch != '-')
  (if name.utf8ByteSize > 63 then ["must be no more than 63 bytes"] else []) ++
    if isLabel then []
    else ["a DNS-1035 label must consist of lower case alphanumeric characters or '-', start with an alphabetic " ++
      "character, and end with an alphanumeric character"]

/-- The names that collide with objects of the AgentSet itself, and these objects. -/
def reservedAgentNames : Dict String String :=
  [(entryServiceSuffix, "AgentSet entry service"), (daemonSuffix, "AgentSet daemon service")].foldl
    (fun d kv => d.insert kv.1 kv.2) ∅

def maxChildAgentDeployNameLen : Nat := 50

/-- Go's `if cond return err`. -/
def refuse (cond : Prop) [Decidable cond] (message : String) : Except String Unit :=
  if cond then .error message else .ok ()

section
variable (c : Checks)

def invalidName (what name : String) : String :=
  "invalid " ++ what ++ " name " ++ c.quote name ++ " (must satisfy DNS-1035 for Service-name compatibility): " ++
    "; ".intercalate (c.isDNS1035Label name)

/-- The checks of a name that managed and external agents share: `what` it names, and the `note` on a duplicate. -/
def checkName (what note : String) (seen : List String) (name : String) : Except String Unit := do
  refuse (name = "") (what ++ " name must be non-empty")
  refuse (c.isDNS1035Label name ≠ []) (invalidName c what name)
  match reservedAgentNames.lookup name with
  | some collidesWith =>
    .error (what ++ " name " ++ c.quote name ++ " is reserved; it collides with the " ++ collidesWith)
  | none => refuse (name ∈ seen) ("duplicate agent name " ++ c.quote name ++ note)

def checkSaturation (a : AbstractAgentDeploy) : Except String Unit :=
  match a.scale.targetSaturationPercentage with
  | none => .ok ()
  | some p =>
    refuse (p > 100)
      ("agent " ++ c.quote a.name ++ " scale.targetSaturationPercentage is " ++ itoa p.toNat ++
        "; it must be in [1,100] (it is the fraction of a replica's capacity to run at)")

/-- One turn of the loop over `spec.agents`: the names seen after it. -/
def checkAgent (as : AgentSet) (seen : List String) (a : AbstractAgentDeploy) : Except String (List String) := do
  checkName c "agent" "" seen a.name
  let name := as.childAgentDeployName a.name
  refuse (name.utf8ByteSize > maxChildAgentDeployNameLen)
    ("combined AgentSet+agent name " ++ c.quote name ++ " (" ++ itoa name.utf8ByteSize ++ " chars) exceeds the " ++
      itoa maxChildAgentDeployNameLen ++ "-char limit; shorten the AgentSet name or the agent name")
  checkSaturation c a
  return seen ++ [a.name]

/-- One turn of the loop over `spec.externalAgents`. -/
def checkExternal (seen : List String) (e : ExternalAgentRef) : Except String (List String) := do
  checkName c "external agent" " (external agents share a name namespace with spec.agents)" seen e.name
  refuse (e.url = "") ("external agent " ++ c.quote e.name ++ ": url must be non-empty")
  let absolute : Bool := (c.parseURL e.url).any fun u => u.scheme != "" && u.host != ""
  refuse (absolute = false)
    ("external agent " ++ c.quote e.name ++ ": url " ++ c.quote e.url ++
      " must be an absolute URL (scheme + host)")
  return seen ++ [e.name]

def tooFewAgents (as : AgentSet) : Except String Unit :=
  refuse (as.spec.agents.length < 2)
    ("pattern " ++ c.quote as.spec.pattern.text ++ " requires at least 2 agents; got " ++ itoa as.spec.agents.length)

/-- The checks of `spec.pattern`. -/
def checkPattern (as : AgentSet) : Except String Unit :=
  match as.spec.pattern with
  | .supervisor => .ok ()
  | .handoff => tooFewAgents c as
  | .sequential => do
    tooFewAgents c as
    let first := (as.spec.agents.head?.map AbstractAgentDeploy.name).getD ""
    refuse (as.spec.entry ≠ first)
      ("pattern " ++ c.quote as.spec.pattern.text ++ " requires entry to be the first agent " ++ c.quote first ++
        "; got " ++ c.quote as.spec.entry)
    refuse (as.spec.externalAgents.length > 1)
      ("pattern " ++ c.quote as.spec.pattern.text ++ " supports at most 1 external agent (as the final hop); got " ++
        itoa as.spec.externalAgents.length)
  | .other _ =>
    .error ("unsupported pattern " ++ c.quote as.spec.pattern.text ++ " (allowed: Supervisor, Handoff, Sequential)")

def validateAgentSet (as : AgentSet) : Except String Unit := do
  refuse (c.isDNS1035Label as.metadata.name ≠ []) (invalidName c "AgentSet" as.metadata.name)
  refuse (as.spec.agents.length = 0) "spec.agents must contain at least one agent"
  let seen ← as.spec.agents.foldlM (checkAgent c as) []
  let seen ← as.spec.externalAgents.foldlM (checkExternal c) seen
  refuse (as.spec.externalAgents.any fun e => e.name == as.spec.entry)
    ("entry " ++ c.quote as.spec.entry ++
      " must be a managed agent; external agents can only receive calls, never be Entry")
  refuse (as.spec.entry ∉ seen)
    ("entry " ++ c.quote as.spec.entry ++ " does not name any agent in spec.agents")
  checkPattern c as

end

/-- The validator with the labels of RFC 1035 and a parser for URLs of the form `scheme://host`. -/
def labelChecks : Checks where
  isDNS1035Label := dns1035Label
  parseURL := fun s =>
    let scheme := s.toList.takeWhile (· != ':')
    some { scheme := String.ofList scheme, host := String.ofList (s.toList.drop (scheme.length + 3)) }
  quote := fun s => "\"" ++ s ++ "\""

/-! ## What is accepted -/

/-- The names of the managed agents, in declaration order. -/
def agentNames (as : AgentSet) : List String := as.spec.agents.map AbstractAgentDeploy.name

def externalNames (as : AgentSet) : List String := as.spec.externalAgents.map ExternalAgentRef.name

/-- What the validator promises about names, entry and pattern. -/
structure Valid (as : AgentSet) : Prop where
  nonempty : ∀ name ∈ agentNames as, name ≠ ""
  notReserved : ∀ name ∈ agentNames as, reservedAgentNames.lookup name = none
  nodup : (agentNames as ++ externalNames as).Nodup
  entry_mem : as.spec.entry ∈ agentNames as
  supported : ∀ name, as.spec.pattern ≠ .other name
  sequential : as.spec.pattern = .sequential →
    (agentNames as).head? = some as.spec.entry ∧ as.spec.externalAgents.length ≤ 1

@[simp] theorem refuse_eq_ok {cond : Prop} [Decidable cond] {message : String} {u : Unit} :
    refuse cond message = .ok u ↔ ¬cond := by
  unfold refuse
  split_ifs with h <;> simp [h]

section
variable {c : Checks} {as : AgentSet} {seen seen' : List String}

theorem checkName_ok {what note name : String} {u : Unit} (h : checkName c what note seen name = .ok u) :
    name ≠ "" ∧ reservedAgentNames.lookup name = none ∧ name ∉ seen := by
  unfold checkName at h
  obtain ⟨_, hempty, h⟩ := bind_eq_ok.mp h
  obtain ⟨_, -, h⟩ := bind_eq_ok.mp h
  split at h
  · cases h
  · next hreserved => exact ⟨refuse_eq_ok.mp hempty, hreserved, refuse_eq_ok.mp h⟩

theorem checkAgent_ok {a : AbstractAgentDeploy} (h : checkAgent c as seen a = .ok seen') :
    (a.name ≠ "" ∧ reservedAgentNames.lookup a.name = none ∧ a.name ∉ seen) ∧ seen' = seen ++ [a.name] := by
  unfold checkAgent at h
  obtain ⟨_, hname, h⟩ := bind_eq_ok.mp h
  obtain ⟨_, -, h⟩ := bind_eq_ok.mp h
  obtain ⟨_, -, h⟩ := bind_eq_ok.mp h
  exact ⟨checkName_ok hname, (pure_eq_ok.mp h).symm⟩

theorem checkExternal_ok {e : ExternalAgentRef} (h : checkExternal c seen e = .ok seen') :
    e.name ∉ seen ∧ seen' = seen ++ [e.name] := by
  unfold checkExternal at h
  obtain ⟨_, hname, h⟩ := bind_eq_ok.mp h
  obtain ⟨_, -, h⟩ := bind_eq_ok.mp h
  obtain ⟨_, -, h⟩ := bind_eq_ok.mp h
  exact ⟨(checkName_ok hname).2.2, (pure_eq_ok.mp h).symm⟩

theorem nodup_concat {l : List String} {x : String} (hl : l.Nodup) (hx : x ∉ l) : (l ++ [x]).Nodup := by
  rw [← List.concat_eq_append]
  exact hl.concat hx

theorem checkAgents_ok (h : as.spec.agents.foldlM (checkAgent c as) [] = .ok seen) :
    (∀ name ∈ agentNames as, name ≠ "" ∧ reservedAgentNames.lookup name = none) ∧ (agentNames as).Nodup ∧
      seen = agentNames as := by
  refine foldlM_ok_invariant (I := fun done seen => let names := done.map AbstractAgentDeploy.name
    (∀ name ∈ names, name ≠ "" ∧ reservedAgentNames.lookup name = none) ∧ names.Nodup ∧ seen = names)
    ⟨by simp, by simp, rfl⟩ ?_ h
  rintro done a rest seen seen' - ⟨hnames, hnodup, rfl⟩ hstep
  obtain ⟨⟨hne, hres, hnew⟩, rfl⟩ := checkAgent_ok hstep
  simp only [List.map_append, List.map_cons, List.map_nil]
  refine ⟨fun name hname => ?_, nodup_concat hnodup hnew, trivial⟩
  rcases List.mem_append.mp hname with hold | hlast
  · exact hnames name hold
  · rw [List.mem_singleton.mp hlast]
    exact ⟨hne, hres⟩

/-- The loop over the external agents, which share the names seen. -/
theorem checkExternals_ok (hseen : seen.Nodup) (h : as.spec.externalAgents.foldlM (checkExternal c) seen = .ok seen') :
    (seen ++ externalNames as).Nodup ∧ seen' = seen ++ externalNames as := by
  refine foldlM_ok_invariant (I := fun done seen' => let names := seen ++ done.map ExternalAgentRef.name
    names.Nodup ∧ seen' = names) ⟨by simpa using hseen, by simp⟩ ?_ h
  rintro done e rest seen₁ seen₂ - ⟨hnodup, rfl⟩ hstep
  obtain ⟨hnew, rfl⟩ := checkExternal_ok hstep
  simp only [List.map_append, List.map_cons, List.map_nil, ← List.append_assoc]
  exact ⟨nodup_concat hnodup hnew, trivial⟩

theorem checkPattern_ok {u : Unit} (h : checkPattern c as = .ok u) :
    (∀ name, as.spec.pattern ≠ .other name) ∧ (as.spec.pattern = .sequential → 2 ≤ as.spec.agents.length ∧
      as.spec.entry = (as.spec.agents.head?.map AbstractAgentDeploy.name).getD "" ∧
      as.spec.externalAgents.length ≤ 1) := by
  unfold checkPattern at h
  cases hp : as.spec.pattern with
  | supervisor => exact ⟨nofun, nofun⟩
  | handoff => exact ⟨nofun, nofun⟩
  | sequential =>
    simp only [hp] at h
    obtain ⟨_, hfew, h⟩ := bind_eq_ok.mp h
    obtain ⟨_, hfirst, h⟩ := bind_eq_ok.mp h
    have hone := refuse_eq_ok.mp h
    have htwo := refuse_eq_ok.mp hfew
    exact ⟨nofun, fun _ => ⟨by omega, not_not.mp (refuse_eq_ok.mp hfirst), by omega⟩⟩
  | other name => simp [hp] at h

/-- **What is accepted is well formed.** -/
theorem valid_of_validateAgentSet {u : Unit} (h : validateAgentSet c as = .ok u) : Valid as := by
  unfold validateAgentSet at h
  obtain ⟨_, -, h⟩ := bind_eq_ok.mp h
  obtain ⟨_, -, h⟩ := bind_eq_ok.mp h
  obtain ⟨seen, hagents, h⟩ := bind_eq_ok.mp h
  obtain ⟨seen', hexternals, h⟩ := bind_eq_ok.mp h
  obtain ⟨_, hmanaged, h⟩ := bind_eq_ok.mp h
  obtain ⟨_, hentry, hpattern⟩ := bind_eq_ok.mp h
  obtain ⟨hnames, hnodup, rfl⟩ := checkAgents_ok hagents
  obtain ⟨hall, rfl⟩ := checkExternals_ok hnodup hexternals
  obtain ⟨hsupported, hseq⟩ := checkPattern_ok hpattern
  have hmem : as.spec.entry ∈ agentNames as := by
    rcases List.mem_append.mp (not_not.mp (refuse_eq_ok.mp hentry)) with hm | he
    · exact hm
    · obtain ⟨e, he, heq⟩ := List.mem_map.mp he
      have hany : (as.spec.externalAgents.any fun e => e.name == as.spec.entry) = true :=
        List.any_eq_true.mpr ⟨e, he, beq_iff_eq.mpr heq⟩
      exact absurd hany (refuse_eq_ok.mp hmanaged)
  refine ⟨fun n hn => (hnames n hn).1, fun n hn => (hnames n hn).2, hall, hmem, hsupported, fun hp => ?_⟩
  obtain ⟨htwo, hfirst, hone⟩ := hseq hp
  refine ⟨?_, hone⟩
  obtain ⟨a, rest, hagents⟩ := List.exists_cons_of_length_pos (show 0 < as.spec.agents.length by omega)
  rw [agentNames, hfirst, hagents]
  rfl

end

end KynoMesh.Agentset
