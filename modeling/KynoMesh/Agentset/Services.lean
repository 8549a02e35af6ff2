import Mathlib.Data.List.Nodup
import Mathlib.Data.List.Perm.Basic
import KynoMesh.Agentset.Validator
import KynoMesh.Agentset.Children

/-!
# The Services of an AgentSet

Every agent has a ClusterIP Service and a headless one, named after its AgentDeploy; the AgentSet has an entry Service
and a daemon. All names are the name of the AgentSet, a dash and a suffix.

* `serviceSuffixes` : the suffixes; `serviceNames_eq` reads them off the children that the controller builds;
* `nodup_serviceSuffixes_iff` : when the suffixes of agents with distinct, unreserved names are distinct;
* `nodup_serviceNames_iff` : when the Services of a valid AgentSet are.
-/

namespace KynoMesh.Agentset

open KynoMesh.Lib KynoMesh.Api

/-- The Services derived for an AgentSet with these children. -/
def serviceNames (as : AgentSet) (children : List AgentDeploy) : List String :=
  as.entryServiceName :: as.daemonName ::
    children.flatMap fun ad => [ad.serviceName, ad.headlessServiceName]

/-- What follows the name of the AgentSet in the names of its Services, for agents of these names. -/
def serviceSuffixes (names : List String) : List String :=
  entryServiceSuffix :: daemonSuffix :: names.flatMap fun n => [n, n ++ "-headless"]

theorem newAgentDeploy_name {r : SetReconciler} {as : AgentSet} {a : AbstractAgentDeploy} {ad : AgentDeploy}
    (h : newAgentDeploy r as a = .ok ad) : ad.metadata.name = as.childAgentDeployName a.name := by
  obtain ⟨ref, -, h⟩ := bind_eq_ok.mp h
  rw [pure_eq_ok] at h
  rw [← h]

theorem serviceNames_eq {r : SetReconciler} {as : AgentSet} {children : List AgentDeploy}
    (h : as.spec.agents.mapM (newAgentDeploy r as) = .ok children) :
    serviceNames as children = (serviceSuffixes (agentNames as)).map as.childAgentDeployName := by
  have hnames : children.map (fun ad => ad.metadata.name) =
      as.spec.agents.map fun a => as.childAgentDeployName a.name := map_eq_of_mapM newAgentDeploy_name h
  have hpairs : (children.flatMap fun ad => [ad.serviceName, ad.headlessServiceName]) =
      (children.map fun ad => ad.metadata.name).flatMap fun n => [n, n ++ "-headless"] := by
    rw [List.flatMap_map]
    rfl
  unfold serviceNames serviceSuffixes agentNames
  rw [hpairs, hnames]
  simp only [List.map_cons, List.map_flatMap, List.flatMap_map, List.map_nil, AgentSet.childAgentDeployName,
    AgentSet.entryServiceName, AgentSet.daemonName, String.append_assoc]

theorem childAgentDeployName_injective (as : AgentSet) : Function.Injective as.childAgentDeployName :=
  fun _ _ h => (String.append_right_inj _).mp h

theorem append_headless_injective : Function.Injective fun n : String => n ++ "-headless" :=
  fun _ _ h => (String.append_left_inj _).mp h

/-- A headless name is longer than the reserved ones. -/
theorem append_headless_ne (n : String) {reserved : String} (h : reserved.length < 9) : n ++ "-headless" ≠ reserved := by
  intro heq
  have hlen : (n ++ "-headless").length = n.length + 9 := by rw [String.length_append]; rfl
  rw [heq] at hlen
  omega

/-- The names are distinct exactly when no agent is called after the headless Service of another. -/
theorem nodup_serviceSuffixes_iff {names : List String} (hnodup : names.Nodup)
    (hentry : entryServiceSuffix ∉ names) (hdaemon : daemonSuffix ∉ names) :
    (serviceSuffixes names).Nodup ↔ ∀ a ∈ names, ∀ b ∈ names, b ≠ a ++ "-headless" := by
  have hperm : (names.flatMap fun n => [n, n ++ "-headless"]).Perm (names ++ names.map fun n => n ++ "-headless") := by
    have h := List.flatMap_append_perm names (fun n => [n]) fun n => [n ++ "-headless"]
    simpa [List.flatMap_singleton', ← List.map_eq_flatMap] using h.symm
  have hreserved : ∀ s, s.length < 9 → s ∉ names → s ∉ names.flatMap fun n => [n, n ++ "-headless"] := by
    intro s hlen hs hmem
    rcases List.mem_append.mp (hperm.mem_iff.mp hmem) with hmem | hmem
    · exact hs hmem
    · obtain ⟨n, -, hn⟩ := List.mem_map.mp hmem
      exact append_headless_ne n hlen hn
  have hentry' := hreserved entryServiceSuffix (by decide) hentry
  have hdaemon' := hreserved daemonSuffix (by decide) hdaemon
  have hdiff : entryServiceSuffix ≠ daemonSuffix := by decide
  unfold serviceSuffixes
  rw [List.nodup_cons, List.nodup_cons, List.mem_cons, hperm.nodup_iff, List.nodup_append,
    List.nodup_map_iff append_headless_injective]
  simp only [hdiff, hentry', hdaemon', hnodup, not_false_iff, true_and, or_self, List.forall_mem_map]
  exact ⟨fun h a ha b hb => h b hb a ha, fun h b hb a ha => h a ha b hb⟩

/-- **Services.** The Services of a valid AgentSet have distinct names exactly when no agent is called after the
headless Service of another. -/
theorem nodup_serviceNames_iff (c : Checks) (r : SetReconciler) (as : AgentSet) (children : List AgentDeploy)
    (hvalid : validateAgentSet c as = .ok ())
    (hchildren : as.spec.agents.mapM (newAgentDeploy r as) = .ok children) :
    (serviceNames as children).Nodup ↔
      ∀ a ∈ as.spec.agents, ∀ b ∈ as.spec.agents, b.name ≠ a.name ++ "-headless" := by
  have hv := valid_of_validateAgentSet hvalid
  have hreserved : ∀ name, reservedAgentNames.lookup name ≠ none → name ∉ agentNames as :=
    fun name hname hmem => hname (hv.notReserved name hmem)
  rw [serviceNames_eq hchildren, List.nodup_map_iff (childAgentDeployName_injective as),
    nodup_serviceSuffixes_iff (List.nodup_append.mp hv.nodup).1 (hreserved _ (by decide)) (hreserved _ (by decide))]
  simp only [agentNames, List.forall_mem_map]

/-- A supervised set of two agents. -/
def pairSet (first second : String) : AgentSet where
  metadata := { nspace := "default", name := "mesh" }
  spec := { pattern := .supervisor, entry := first, agents := [{ name := first }, { name := second }] }

/-- The headless Service of `a` and the ClusterIP Service of `a-headless` have one name. -/
theorem headless_collision : validateAgentSet labelChecks (pairSet "a" "a-headless") = .ok () ∧
    ∃ children, (pairSet "a" "a-headless").spec.agents.mapM
        (newAgentDeploy { mustHash := fun _ => "" } (pairSet "a" "a-headless")) = .ok children ∧
      ¬(serviceNames (pairSet "a" "a-headless") children).Nodup := by
  refine ⟨by decide +kernel, _, rfl, ?_⟩
  decide +kernel

theorem nodup_serviceNames_pair : ∃ children, (pairSet "a" "b").spec.agents.mapM
      (newAgentDeploy { mustHash := fun _ => "" } (pairSet "a" "b")) = .ok children ∧
    (serviceNames (pairSet "a" "b") children).Nodup := by
  refine ⟨_, rfl, (nodup_serviceNames_iff labelChecks { mustHash := fun _ => "" } (pairSet "a" "b") _
    (by decide +kernel) rfl).mpr ?_⟩
  decide +kernel

end KynoMesh.Agentset
