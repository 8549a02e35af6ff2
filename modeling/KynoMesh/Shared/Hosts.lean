import Mathlib.Data.Finset.Card
import KynoMesh.Agentset.Services
import KynoMesh.Pods.PodSpec
import KynoMesh.Shared.Discovery

/-!
# The hosts of the published replicas

`Discover` only counts the addresses of a headless Service, and makes up the indices of the pods. The pods have the
names that `newPod` gives them.

* `podHost`, `replicaHost_eq` : the DNS name of a replica of a child of an AgentSet, and the one that discovery gives it;
* `Publishes` : the answers of a resolver while the pods of some replicas are published;
* `scrapedHosts` : what `scrapeOneAgentDeploy` scrapes;
* `discover_exact_iff` : the sets of replicas that `Discover` names.
-/

namespace KynoMesh.Discovery

open KynoMesh.Lib KynoMesh.Api KynoMesh.Agentset KynoMesh.Pods

/-! ## Names -/

/-- `pod.Spec.Hostname`, as `newPod` sets it. -/
def hostname (ad : AgentDeploy) (replica : Nat) : String := ad.metadata.name ++ "-" ++ itoa replica

/-- `pod.Spec.Subdomain`, as `newPod` sets it. -/
def subdomain (ad : AgentDeploy) (podSpec : PodSpec) : String :=
  if podSpec.subdomain = "" then ad.headlessServiceName else podSpec.subdomain

/-- The DNS name of a pod with a hostname and a subdomain. -/
def podHost (cfg : Settings) (ad : AgentDeploy) (replica : Nat) : String :=
  hostname ad replica ++ "." ++ subdomain ad (cfg.buildPodSpec ad) ++ "." ++ ad.metadata.nspace ++ ".svc"

/-- The name of the headless Service. -/
def serviceHost (ad : AgentDeploy) : String := ad.headlessServiceName ++ "." ++ ad.metadata.nspace ++ ".svc"

theorem subdomain_buildPodSpec (cfg : Settings) (ad : AgentDeploy) :
    subdomain ad (cfg.buildPodSpec ad) = ad.headlessServiceName := by
  have hspec : (cfg.buildPodSpec ad).subdomain = ad.headlessServiceName := rfl
  unfold subdomain
  rw [hspec, ite_self]

section
variable {r : SetReconciler} {as : AgentSet} {agent : AbstractAgentDeploy} {ad : AgentDeploy}

theorem newAgentDeploy_nspace (h : newAgentDeploy r as agent = .ok ad) : ad.metadata.nspace = as.metadata.nspace := by
  obtain ⟨ref, -, h⟩ := bind_eq_ok.mp h
  rw [pure_eq_ok] at h
  rw [← h]

theorem headlessHost_eq (h : newAgentDeploy r as agent = .ok ad) :
    headlessHost as.metadata.name agent.name as.metadata.nspace = serviceHost ad := by
  unfold headlessHost serviceHost AgentDeploy.headlessServiceName
  rw [newAgentDeploy_name h, newAgentDeploy_nspace h, AgentSet.childAgentDeployName]
  simp only [String.append_assoc]
  rfl

theorem replicaHost_eq (h : newAgentDeploy r as agent = .ok ad) (cfg : Settings) (i : Nat) :
    replicaHost as.metadata.name agent.name as.metadata.nspace i = podHost cfg ad i := by
  unfold replicaHost podHost hostname
  rw [headlessHost_eq h, subdomain_buildPodSpec, newAgentDeploy_name h, AgentSet.childAgentDeployName]
  unfold serviceHost
  simp only [String.append_assoc]

end

theorem podHost_injective (cfg : Settings) (ad : AgentDeploy) : Function.Injective (podHost cfg ad) := by
  intro i j h
  unfold podHost hostname at h
  simp only [String.append_assoc, String.append_right_inj] at h
  exact itoa_injective ((String.append_left_inj _).mp h)

/-! ## Discovery -/

/-- While the pods of the replicas `S` are published, the headless Service has one address for each; without any, its
name is not found. -/
def Publishes (res : Resolver) (ad : AgentDeploy) (S : Finset Nat) : Prop :=
  (∃ ips, res (serviceHost ad) = .found ips ∧ ips.length = S.card) ∨ (res (serviceHost ad) = .notFound ∧ S = ∅)

/-- The hosts that a tick of the rater scrapes: none, when discovery fails. -/
def scrapedHosts (res : Resolver) (as ad nspace : String) : List String :=
  match discover res as ad nspace with
  | .ok hosts => hosts
  | .error _ => []

/-- `Discover` names the replicas `S`, and the rater scrapes them. -/
structure Names (res : Resolver) (cfg : Settings) (as : AgentSet) (agent : AbstractAgentDeploy) (ad : AgentDeploy)
    (S : Finset Nat) : Prop where
  discovered : ∃ hosts, discover res as.metadata.name agent.name as.metadata.nspace = .ok hosts ∧
    ∀ host, host ∈ hosts ↔ ∃ i ∈ S, host = podHost cfg ad i
  scraped : ∀ host, host ∈ scrapedHosts res as.metadata.name agent.name as.metadata.nspace ↔
    ∃ i ∈ S, host = podHost cfg ad i

/-- Discovery names as many replicas as are published, from index zero on. -/
theorem discover_eq {r : SetReconciler} {as : AgentSet} {agent : AbstractAgentDeploy} {ad : AgentDeploy}
    (h : newAgentDeploy r as agent = .ok ad) (cfg : Settings) {res : Resolver} {S : Finset Nat}
    (hS : Publishes res ad S) :
    discover res as.metadata.name agent.name as.metadata.nspace = .ok ((List.range S.card).map (podHost cfg ad)) := by
  have hhosts : replicaHost as.metadata.name agent.name as.metadata.nspace = podHost cfg ad :=
    funext (replicaHost_eq h cfg)
  unfold discover
  rw [headlessHost_eq h, hhosts]
  rcases hS with ⟨ips, hfound, hlen⟩ | ⟨hnone, rfl⟩
  · rw [hfound, ← hlen]
  · rw [hnone]
    rfl

/-- **The sets of published replicas that `Discover` names**: those without a gap. -/
theorem discover_exact_iff (r : SetReconciler) (cfg : Settings) (as : AgentSet) (agent : AbstractAgentDeploy)
    (ad : AgentDeploy) (h : newAgentDeploy r as agent = .ok ad) (res : Resolver) (S : Finset Nat)
    (hS : Publishes res ad S) : Names res cfg as agent ad S ↔ S = Finset.range S.card := by
  have hdiscover := discover_eq h cfg hS
  have hscraped : scrapedHosts res as.metadata.name agent.name as.metadata.nspace =
      (List.range S.card).map (podHost cfg ad) := by
    unfold scrapedHosts
    rw [hdiscover]
  have hnamed : ∀ host, host ∈ (List.range S.card).map (podHost cfg ad) ↔
      ∃ i ∈ Finset.range S.card, host = podHost cfg ad i := by
    intro host
    simp only [List.mem_map, List.mem_range, Finset.mem_range, eq_comm]
  constructor
  · rintro ⟨-, hsame⟩
    ext i
    -- the host of `i` is named exactly when `i` is an index
    have hi := hsame (podHost cfg ad i)
    rw [hscraped, hnamed] at hi
    simpa only [(podHost_injective cfg ad).eq_iff, exists_eq_right'] using hi.symm
  · intro hrange
    rw [← hrange] at hnamed
    exact ⟨⟨_, hdiscover, hnamed⟩, by rwa [hscraped]⟩

/-- A resolver that gives every name the same addresses. -/
def publishing (ips : List String) : Resolver := fun _ => .found ips

theorem discover_exact_pair :
    ∃ ad, newAgentDeploy { mustHash := fun _ => "" } (pairSet "planner" "critic") { name := "planner" } = .ok ad ∧
      Names (publishing ["10.0.0.1", "10.0.0.2"]) plainSettings (pairSet "planner" "critic") { name := "planner" } ad
        {0, 1} := by
  refine ⟨_, rfl, (discover_exact_iff { mustHash := fun _ => "" } plainSettings (pairSet "planner" "critic")
    { name := "planner" } _ rfl (publishing ["10.0.0.1", "10.0.0.2"]) {0, 1} ?_).mpr (by decide)⟩
  exact .inl ⟨_, rfl, rfl⟩

/-- Of two replicas only the second has an address: the first is scraped, and the second is not. -/
theorem gap_misnamed :
    ∃ ad, newAgentDeploy { mustHash := fun _ => "" } (pairSet "planner" "critic") { name := "planner" } = .ok ad ∧
      Publishes (publishing ["10.0.0.2"]) ad {1} ∧
      podHost plainSettings ad 1 = "mesh-planner-1.mesh-planner-headless.default.svc" ∧
      discover (publishing ["10.0.0.2"]) "mesh" "planner" "default" =
        .ok ["mesh-planner-0.mesh-planner-headless.default.svc"] ∧
      ¬Names (publishing ["10.0.0.2"]) plainSettings (pairSet "planner" "critic") { name := "planner" } ad {1} := by
  have hdiscover : discover (publishing ["10.0.0.2"]) "mesh" "planner" "default" =
      .ok ["mesh-planner-0.mesh-planner-headless.default.svc"] := by rfl
  refine ⟨_, rfl, .inl ⟨_, rfl, rfl⟩, by decide +kernel, hdiscover, fun hnames => ?_⟩
  obtain ⟨hosts, hhosts, hsame⟩ := hnames.discovered
  obtain rfl : ["mesh-planner-0.mesh-planner-headless.default.svc"] = hosts := Except.ok.inj (hdiscover.symm.trans hhosts)
  have hsecond := (hsame _).mpr ⟨1, Finset.mem_singleton_self 1, rfl⟩
  revert hsecond
  decide +kernel

end KynoMesh.Discovery
