import KynoMesh.Agentset.Topology
import KynoMesh.Pods.Containers

/-!
# What rolls a pod out

The controller replaces a pod whose hash is not that of the pod spec it renders now. The pod spec holds the simple copy
of the AgentDeploy, encoded, in the environment of the broker, so it tells apart more than the fields of the pod: a new
topology rolls the pods out although no container reads it from the spec.

* `withUsers`, `buildPodSpec_simpleCopy` : a pod spec is that of the simple copy, with the user's own containers and
  volumes added;
* `SameSpec`, `buildPodSpec_eq_iff` : what two AgentDeploys of one pod spec agree on;
* `podSpecHash_eq_iff` : the edits of an AgentDeploy that replace its pods;
* `insertAgent_rolls_iff` : the agents whose pods are replaced when an AgentSet gets one more agent.
-/

namespace KynoMesh.Pods
open KynoMesh.Lib KynoMesh.Api KynoMesh.Agentset

/-! ## The user's own parts -/

/-- A pod spec with the user's sidecars, init containers and volumes: the init containers run after the first one, which
installs the runtime, and before the agent. -/
def withUsers (ps : PodSpec) (sidecars initContainers : List CoreContainer) (volumes : List Volume) : PodSpec :=
  { ps with
    containers := ps.containers ++ sidecars
    initContainers := ps.initContainers.take 1 ++ (initContainers ++ ps.initContainers.drop 1)
    volumes := ps.volumes ++ volumes }

section
variable (cfg : Settings)

theorem volumes_buildPodSpec (ad : AgentDeploy) :
    (cfg.buildPodSpec ad).volumes = kynomeshRunVolume :: ad.spec.agent.volumes := rfl

/-- The pod spec of an AgentDeploy, from that of its simple copy. -/
theorem buildPodSpec_simpleCopy (ad : AgentDeploy) :
    cfg.buildPodSpec ad = withUsers (cfg.buildPodSpec ad.simpleCopy)
      (ad.spec.agent.sidecars.map (withCommonEnv ad)) (ad.spec.agent.initContainers.map (withCommonEnv ad))
      ad.spec.agent.volumes := by
  have hcontainers : (cfg.buildPodSpec ad).containers = (cfg.buildPodSpec ad.simpleCopy).containers ++
      ad.spec.agent.sidecars.map (withCommonEnv ad) := rfl
  have hinits : (cfg.buildPodSpec ad).initContainers = (cfg.buildPodSpec ad.simpleCopy).initContainers.take 1 ++
      (ad.spec.agent.initContainers.map (withCommonEnv ad) ++
        (cfg.buildPodSpec ad.simpleCopy).initContainers.drop 1) := by
    rw [initContainers_buildPodSpec, initContainers_buildPodSpec]
    rfl
  unfold withUsers
  rw [← hcontainers, ← hinits]
  rfl

theorem head?_mergeEnv {e : EnvVar} {overrides : List EnvVar} (he : ∀ o ∈ overrides, o.name ≠ e.name)
    (existing : List EnvVar) : (mergeEnv (e :: existing) overrides).head? = some e := by
  have hnone : (collect EnvVar.name overrides).lookup e.name = none := by
    rw [lookup_collect, List.find?_eq_none]
    intro o ho
    simpa using he o (List.mem_reverse.mp ho)
  unfold mergeEnv
  dsimp only
  rw [List.map_cons, List.cons_append, List.head?_cons, hnone, Option.getD_none]

/-- The broker's first variable is the encoded copy. -/
theorem encoded_buildPodSpec (ad : AgentDeploy) :
    ((cfg.buildPodSpec ad).containers.head?.bind fun c => c.env.head?) =
      some { name := envAgentDeployObject, value := cfg.encodeAgentDeploy ad } := by
  have hother : ∀ o ∈ commonEnv ad, o.name ≠ envAgentDeployObject := by
    intro o ho
    unfold commonEnv at ho
    simp only [List.mem_cons, List.not_mem_nil, or_false] at ho
    rcases ho with rfl | rfl | rfl | rfl <;> simp only <;> decide
  obtain ⟨c, hc, -, henv⟩ := container_buildPodSpec cfg ad .broker
  change (cfg.buildPodSpec ad).containers.head? = some c at hc
  rw [hc, Option.bind_some, henv]
  exact head?_mergeEnv hother _

/-! ## One pod spec -/

/-- What two AgentDeploys of one pod spec agree on: their copies without policies, and the user's own parts as the pod
gets them. -/
structure SameSpec (ad₁ ad₂ : AgentDeploy) : Prop where
  copy : ad₁.simpleCopy = ad₂.simpleCopy
  sidecars : ad₁.spec.agent.sidecars.map (withCommonEnv ad₁) = ad₂.spec.agent.sidecars.map (withCommonEnv ad₂)
  initContainers : ad₁.spec.agent.initContainers.map (withCommonEnv ad₁) =
    ad₂.spec.agent.initContainers.map (withCommonEnv ad₂)
  volumes : ad₁.spec.agent.volumes = ad₂.spec.agent.volumes

/-- The encoding tells the two copies apart. -/
def EncodedApart (ad₁ ad₂ : AgentDeploy) : Prop :=
  cfg.encodeAgentDeploy ad₁ = cfg.encodeAgentDeploy ad₂ → ad₁.simpleCopy = ad₂.simpleCopy

/-- The hash tells the two pod specs apart. -/
def HashedApart (ad₁ ad₂ : AgentDeploy) : Prop :=
  cfg.mustHash (cfg.buildPodSpec ad₁) = cfg.mustHash (cfg.buildPodSpec ad₂) →
    cfg.buildPodSpec ad₁ = cfg.buildPodSpec ad₂

variable {cfg} {ad₁ ad₂ : AgentDeploy}

theorem SameSpec.buildPodSpec (h : SameSpec ad₁ ad₂) : cfg.buildPodSpec ad₁ = cfg.buildPodSpec ad₂ := by
  rw [buildPodSpec_simpleCopy, h.copy, h.sidecars, h.initContainers, h.volumes, ← buildPodSpec_simpleCopy]

theorem sameSpec_of_buildPodSpec (hencode : EncodedApart cfg ad₁ ad₂)
    (h : cfg.buildPodSpec ad₁ = cfg.buildPodSpec ad₂) : SameSpec ad₁ ad₂ where
  copy := by
    apply hencode
    have hhead := encoded_buildPodSpec cfg ad₁
    rw [h, encoded_buildPodSpec cfg ad₂] at hhead
    exact (congrArg EnvVar.value (Option.some.inj hhead)).symm
  sidecars := by
    have hcontainers := congrArg PodSpec.containers h
    rw [containers_buildPodSpec, containers_buildPodSpec] at hcontainers
    exact (List.cons.inj hcontainers).2
  initContainers := by
    -- the user's init containers end one before the last, which is the agent
    have hinits := congrArg PodSpec.initContainers h
    rw [initContainers_buildPodSpec, initContainers_buildPodSpec] at hinits
    exact (List.append_inj' (List.cons.inj hinits).2 rfl).1
  volumes := by
    have hvolumes := congrArg PodSpec.volumes h
    rw [volumes_buildPodSpec, volumes_buildPodSpec] at hvolumes
    exact (List.cons.inj hvolumes).2

theorem buildPodSpec_eq_iff (hencode : EncodedApart cfg ad₁ ad₂) :
    cfg.buildPodSpec ad₁ = cfg.buildPodSpec ad₂ ↔ SameSpec ad₁ ad₂ :=
  ⟨sameSpec_of_buildPodSpec hencode, SameSpec.buildPodSpec⟩

end

/-! ## Edits of an AgentDeploy -/

/-- Every slot of the window has live pods, all of the hash `h`. -/
def Fleet.OnHash (F : Fleet) (h : String) (n : Nat) : Prop := ∀ i < n, F (i : Nat) ≠ [] ∧ ∀ p ∈ F (i : Nat), p.hash = h

theorem Fleet.OnHash.outdated {F : Fleet} {h₁ : String} {n : Nat} (hF : F.OnHash h₁ n) (h₂ : String) {i : Nat}
    (hi : i < n) : Fleet.outdated h₂ (F (i : Nat)) = true ↔ h₁ ≠ h₂ := by
  obtain ⟨hne, hall⟩ := hF i hi
  rw [Fleet.outdated_iff, Fleet.current_eq_none]
  constructor
  · rintro ⟨-, hother⟩ rfl
    obtain ⟨p, hp⟩ := List.exists_mem_of_ne_nil _ hne
    exact hother p hp (hall p hp)
  · intro hh
    exact ⟨hne, fun p hp heq => hh ((hall p hp).symm.trans heq)⟩

/-- A fleet on one hash is replaced as a whole or not at all. -/
theorem Fleet.OnHash.needsReplace {F : Fleet} {h₁ : String} {n : Nat} (hF : F.OnHash h₁ n) (h₂ : String) :
    F.needsReplace h₂ n = if h₁ = h₂ then [] else List.range n := by
  unfold Fleet.needsReplace
  split_ifs with hh
  · rw [List.filter_eq_nil_iff]
    intro i hi hout
    exact (hF.outdated h₂ (List.mem_range.mp hi)).mp hout hh
  · rw [List.filter_eq_self]
    intro i hi
    exact (hF.outdated h₂ (List.mem_range.mp hi)).mpr hh

section
variable (cfg : Settings) (scaledValue : ScaledValue) (ad₁ ad₂ : AgentDeploy)

/-- What the edit of the first AgentDeploy to the second one does to the pods, if `P` says whether the two have one
hash: a fleet that is on the first one's hash keeps every slot, or has to replace every slot. -/
def RollsUnless (P : Prop) : Prop :=
  ((cfg.reconciler scaledValue).podSpecHash ad₁ = (cfg.reconciler scaledValue).podSpecHash ad₂ ↔ P) ∧
    ∀ (st : PodStore) (n : Nat), (fleet st).OnHash ((cfg.reconciler scaledValue).podSpecHash ad₁) n →
      (P → (fleet st).needsReplace ((cfg.reconciler scaledValue).podSpecHash ad₂) n = []) ∧
      (¬P → (fleet st).needsReplace ((cfg.reconciler scaledValue).podSpecHash ad₂) n = List.range n)

variable {cfg ad₁ ad₂}

theorem rollsUnless_sameSpec (hencode : EncodedApart cfg ad₁ ad₂) (hhash : HashedApart cfg ad₁ ad₂) :
    RollsUnless cfg scaledValue ad₁ ad₂ (SameSpec ad₁ ad₂) := by
  have hiff : (cfg.reconciler scaledValue).podSpecHash ad₁ = (cfg.reconciler scaledValue).podSpecHash ad₂ ↔
      SameSpec ad₁ ad₂ := by
    rw [podSpecHash_eq, podSpecHash_eq, ← buildPodSpec_eq_iff hencode]
    exact ⟨hhash, congrArg cfg.mustHash⟩
  refine ⟨hiff, fun st n hon => ?_⟩
  rw [hon.needsReplace]
  exact ⟨fun hsame => if_pos (hiff.mpr hsame), fun hdiffer => if_neg fun heq => hdiffer (hiff.mp heq)⟩

end

/-- **Exactly these edits roll out.** Two AgentDeploys have one hash exactly when they agree on their copies without
policies and on the user's own containers and volumes as the pod gets them. So of a fleet that is on the hash of the
first one, a pass for the second one has to replace no slot if they agree, and every slot if they do not. -/
theorem podSpecHash_eq_iff (cfg : Settings) (scaledValue : ScaledValue) (ad₁ ad₂ : AgentDeploy)
    (hencode : EncodedApart cfg ad₁ ad₂) (hhash : HashedApart cfg ad₁ ad₂) :
    RollsUnless cfg scaledValue ad₁ ad₂ (SameSpec ad₁ ad₂) :=
  rollsUnless_sameSpec scaledValue hencode hhash

/-- A controller whose hash is the copy that the broker is given. -/
def copySettings (mustJSON : AgentDeploy → String) : Settings where
  image := "kynomesh"
  imagePullPolicy := "IfNotPresent"
  defaultResources := {}
  mustJSON := mustJSON
  encodeToString := fun s => s
  mustHash := fun ps => ((ps.containers.head?.bind fun c => c.env.head?).map EnvVar.value).getD ""

section
variable {mustJSON : AgentDeploy → String} {ad₁ ad₂ : AgentDeploy}

theorem mustHash_copySettings (ad : AgentDeploy) :
    (copySettings mustJSON).mustHash ((copySettings mustJSON).buildPodSpec ad) = mustJSON ad.simpleCopy := by
  change (((((copySettings mustJSON).buildPodSpec ad).containers.head?.bind fun c => c.env.head?).map
    EnvVar.value).getD "") = _
  rw [encoded_buildPodSpec]
  rfl

theorem apart_copySettings (h : mustJSON ad₁.simpleCopy ≠ mustJSON ad₂.simpleCopy) :
    EncodedApart (copySettings mustJSON) ad₁ ad₂ ∧ HashedApart (copySettings mustJSON) ad₁ ad₂ := by
  refine ⟨fun heq => absurd heq h, fun heq => absurd ?_ h⟩
  rwa [mustHash_copySettings, mustHash_copySettings] at heq

end

/-- The text of a copy: the names of the peers. -/
def peerText (ad : AgentDeploy) : String := ",".intercalate (ad.spec.topology.peers.map Peer.name)

def peerReconciler : Reconciler := (copySettings peerText).reconciler getScaledValueFromIntOrPercent

/-- `planner` with these peers. -/
def routedDeploy (peers : List Peer) : AgentDeploy where
  metadata := { nspace := "default", name := "mesh-planner" }
  spec := { agent := { name := "planner" }, agentSetName := "mesh", topology := { peers := peers } }

/-- A new peer alone, which no container reads from the pod spec, rolls the pods out. -/
theorem podSpecHash_eq_iff_newPeer :
    peerReconciler.podSpecHash (routedDeploy []) ≠
      peerReconciler.podSpecHash (routedDeploy [managedPeer { name := "coder" }]) := by
  have hne : peerText (routedDeploy []).simpleCopy ≠
      peerText (routedDeploy [managedPeer { name := "coder" }]).simpleCopy := by decide
  obtain ⟨hencode, hhash⟩ := apart_copySettings hne
  intro heq
  have hsame := (podSpecHash_eq_iff (copySettings peerText) getScaledValueFromIntOrPercent _ _ hencode hhash).1.mp heq
  exact absurd (congrArg (fun ad => ad.spec.topology.peers) hsame.copy) (by decide)

/-! ## Edits of an AgentSet -/

/-- The AgentSet with other agents. -/
def withAgents (as : AgentSet) (agents : List AbstractAgentDeploy) : AgentSet :=
  { as with spec := { as.spec with agents := agents } }

section
variable {r : SetReconciler} {as : AgentSet} {agents₁ agents₂ xs ys : List AbstractAgentDeploy}
  {agent b : AbstractAgentDeploy} {ad₁ ad₂ : AgentDeploy}

/-- The children of an agent in two AgentSets that differ in the agents alone: their pods differ by the topology. -/
theorem sameSpec_withAgents (h₁ : newAgentDeploy r (withAgents as agents₁) agent = .ok ad₁)
    (h₂ : newAgentDeploy r (withAgents as agents₂) agent = .ok ad₂) :
    SameSpec ad₁ ad₂ ↔
      computeTopology (withAgents as agents₁) agent.name = computeTopology (withAgents as agents₂) agent.name := by
  obtain ⟨ref₁, -, hok₁⟩ := bind_eq_ok.mp h₁
  obtain ⟨ref₂, -, hok₂⟩ := bind_eq_ok.mp h₂
  rw [pure_eq_ok] at hok₁ hok₂
  subst hok₁ hok₂
  constructor
  · intro h
    exact congrArg (fun ad => ad.spec.topology) h.copy
  · intro htopology
    refine ⟨?_, rfl, rfl, rfl⟩
    unfold AgentDeploy.simpleCopy
    dsimp only
    rw [htopology]
    rfl

theorem peersExcluding_insert_ne (externalAgents : List ExternalAgentRef) {self : String} (hb : b.name ≠ self) :
    peersExcluding (xs ++ ys) externalAgents self ≠ peersExcluding (xs ++ b :: ys) externalAgents self := by
  intro heq
  have hlength := congrArg List.length heq
  simp [peersExcluding, hb] at hlength

theorem inserted_name_ne {externalAgents : List ExternalAgentRef}
    (hnodup : ((route (xs ++ b :: ys) externalAgents).map Peer.name).Nodup) (hagent : agent ∈ xs ++ ys) :
    b.name ≠ agent.name := by
  rw [map_name_route, List.map_append, List.map_cons] at hnodup
  have hnew := (List.nodup_cons.mp (List.nodup_middle.mp hnodup.of_append_left)).1
  rw [← List.map_append] at hnew
  intro heq
  exact hnew (heq ▸ List.mem_map_of_mem hagent)

theorem nextAgent_cons_self (a : AbstractAgentDeploy) (rest : List AbstractAgentDeploy)
    (externalAgents : List ExternalAgentRef) :
    nextAgent (a :: rest) externalAgents a.name = (route rest externalAgents).head? := by
  cases rest <;> cases externalAgents <;> simp [nextAgent, route, managedPeer, externalPeer]

/-- The next agent changes for the one that the new agent comes right after. -/
theorem nextAgent_insert_eq_iff {externalAgents : List ExternalAgentRef}
    (hnodup : ((route (xs ++ b :: ys) externalAgents).map Peer.name).Nodup) (hagent : agent ∈ xs ++ ys) :
    nextAgent (xs ++ ys) externalAgents agent.name = nextAgent (xs ++ b :: ys) externalAgents agent.name ↔
      xs.getLast? ≠ some agent := by
  induction xs with
  | nil =>
    refine iff_of_true ?_ (Option.some_ne_none agent).symm
    exact (nextAgent_cons_ne (inserted_name_ne hnodup hagent)).symm
  | cons x xs ih =>
    obtain ⟨hx, hrest⟩ := List.nodup_cons.mp hnodup
    -- no agent after `x` has its name
    have hother : ∀ a ∈ xs ++ ys, x.name ≠ a.name := by
      intro a ha heq
      refine hx (List.mem_map.mpr ⟨managedPeer a, List.mem_append_left _ (List.mem_map_of_mem ?_), heq.symm⟩)
      rcases List.mem_append.mp ha with ha | ha
      · exact List.mem_append_left _ ha
      · exact List.mem_append_right _ (List.mem_cons_of_mem b ha)
    rcases List.mem_cons.mp hagent with rfl | hagent
    · rw [List.cons_append, List.cons_append, nextAgent_cons_self, nextAgent_cons_self]
      cases xs with
      | nil =>
        refine iff_of_false (fun heq => ?_) (not_not.mpr rfl)
        have hmem : managedPeer b ∈ route ys externalAgents := List.mem_of_mem_head? heq
        exact (List.nodup_cons.mp hrest).1 (List.mem_map_of_mem hmem)
      | cons x' xs =>
        refine iff_of_true rfl fun hlast => ?_
        rw [List.getLast?_cons_cons] at hlast
        exact hother agent (List.mem_append_left _ (List.mem_of_getLast? hlast)) rfl
    · rw [List.cons_append, List.cons_append, nextAgent_cons_ne (hother agent hagent),
        nextAgent_cons_ne (hother agent hagent), ih hrest hagent]
      cases xs with
      | nil =>
        refine iff_of_true (Option.some_ne_none agent).symm fun hlast => ?_
        exact hother agent hagent (congrArg AbstractAgentDeploy.name (Option.some.inj hlast))
      | cons x' xs => rw [List.getLast?_cons_cons]

theorem peers_next {name : String} (h : as.spec.pattern = .sequential) :
    (computeTopology as name).peers = (nextAgent as.spec.agents as.spec.externalAgents name).toList := by
  simp [computeTopology, h]

/-- The agents that a new agent after `xs` gives another topology. -/
def Touched (as : AgentSet) (xs : List AbstractAgentDeploy) (agent : AbstractAgentDeploy) : Prop :=
  match as.spec.pattern with
  | .handoff => True
  | .supervisor => agent.name = as.spec.entry
  | .sequential => xs.getLast? = some agent
  | .other _ => False

theorem computeTopology_insert_eq_iff
    (hnodup : ((route (xs ++ b :: ys) as.spec.externalAgents).map Peer.name).Nodup) (hagent : agent ∈ xs ++ ys) :
    computeTopology (withAgents as (xs ++ ys)) agent.name = computeTopology (withAgents as (xs ++ b :: ys)) agent.name ↔
      ¬Touched as xs agent := by
  have hb := inserted_name_ne hnodup hagent
  -- the pattern and the entry are the same in both
  have hpeers : computeTopology (withAgents as (xs ++ ys)) agent.name =
        computeTopology (withAgents as (xs ++ b :: ys)) agent.name ↔
      (computeTopology (withAgents as (xs ++ ys)) agent.name).peers =
        (computeTopology (withAgents as (xs ++ b :: ys)) agent.name).peers := by
    refine ⟨congrArg Topology.peers, fun h => ?_⟩
    unfold computeTopology at h ⊢
    dsimp only at h ⊢
    rw [h]
    rfl
  rw [hpeers]
  unfold Touched
  cases hpattern : as.spec.pattern with
  | handoff =>
    have hp : ∀ agents, (withAgents as agents).spec.pattern = .handoff := fun _ => hpattern
    rw [peers_handoff (hp _), peers_handoff (hp _)]
    exact iff_of_false (peersExcluding_insert_ne _ hb) (not_not.mpr trivial)
  | supervisor =>
    have hp : ∀ agents, (withAgents as agents).spec.pattern = .supervisor := fun _ => hpattern
    rw [peers_supervisor (hp _), peers_supervisor (hp _)]
    change ite (agent.name = as.spec.entry) _ _ = ite (agent.name = as.spec.entry) _ _ ↔ _
    by_cases hentry : agent.name = as.spec.entry
    · rw [if_pos hentry, if_pos hentry]
      exact iff_of_false (peersExcluding_insert_ne _ hb) (not_not.mpr hentry)
    · rw [if_neg hentry, if_neg hentry]
      exact iff_of_true rfl hentry
  | sequential =>
    have hp : ∀ agents, (withAgents as agents).spec.pattern = .sequential := fun _ => hpattern
    rw [peers_next (hp _), peers_next (hp _)]
    refine Iff.trans ⟨fun h => ?_, congrArg Option.toList⟩ (nextAgent_insert_eq_iff hnodup hagent)
    simpa only [Option.head?_toList] using congrArg List.head? h
  | other name =>
    refine iff_of_true ?_ not_false
    unfold computeTopology
    dsimp only [withAgents]
    rw [hpattern]

end

/-- **One more agent.** When an AgentSet gets one more agent, between the agents `xs` and `ys`, the pods of an agent it
had are replaced exactly if the pattern gives the agent another topology: all of them in a Handoff set, those of the
entry in a Supervisor set, and those of the agent that the new one comes right after in a Sequential set. -/
theorem insertAgent_rolls_iff (r : SetReconciler) (cfg : Settings) (scaledValue : ScaledValue) (as : AgentSet)
    (xs ys : List AbstractAgentDeploy) (b agent : AbstractAgentDeploy) (ad₁ ad₂ : AgentDeploy)
    (hnodup : ((xs ++ b :: ys).map AbstractAgentDeploy.name ++ externalNames as).Nodup) (hagent : agent ∈ xs ++ ys)
    (h₁ : newAgentDeploy r (withAgents as (xs ++ ys)) agent = .ok ad₁)
    (h₂ : newAgentDeploy r (withAgents as (xs ++ b :: ys)) agent = .ok ad₂)
    (hencode : EncodedApart cfg ad₁ ad₂) (hhash : HashedApart cfg ad₁ ad₂) :
    RollsUnless cfg scaledValue ad₁ ad₂ (¬Touched as xs agent) := by
  have hroute : ((route (xs ++ b :: ys) as.spec.externalAgents).map Peer.name).Nodup := by
    rw [map_name_route]
    exact hnodup
  rw [← computeTopology_insert_eq_iff hroute hagent, ← sameSpec_withAgents h₁ h₂]
  exact rollsUnless_sameSpec scaledValue hencode hhash

/-- The AgentSet of a pipeline, whose agents are given apart. -/
def pipelineSet : AgentSet where
  metadata := { nspace := "default", name := "mesh" }
  spec := { pattern := .sequential, entry := "planner", agents := [] }

/-- The child of `planner`, in a pipeline of these agents. -/
def pipelineChild (agents : List AbstractAgentDeploy) : Except String AgentDeploy :=
  newAgentDeploy { mustHash := fun _ => "" } (withAgents pipelineSet agents) { name := "planner" }

/-- `coder` after `planner` and before `tester`: the pods of `planner` are replaced. -/
theorem insertAgent_rolls_planner :
    ∃ ad₁ ad₂, pipelineChild ([{ name := "planner" }] ++ [{ name := "tester" }]) = .ok ad₁ ∧
      pipelineChild ([{ name := "planner" }] ++ { name := "coder" } :: [{ name := "tester" }]) = .ok ad₂ ∧
      peerReconciler.podSpecHash ad₁ ≠ peerReconciler.podSpecHash ad₂ := by
  have hrolls : ∀ ad₁ ad₂, pipelineChild ([{ name := "planner" }] ++ [{ name := "tester" }]) = .ok ad₁ →
      pipelineChild ([{ name := "planner" }] ++ { name := "coder" } :: [{ name := "tester" }]) = .ok ad₂ →
      peerText ad₁.simpleCopy ≠ peerText ad₂.simpleCopy →
      peerReconciler.podSpecHash ad₁ ≠ peerReconciler.podSpecHash ad₂ := by
    intro ad₁ ad₂ h₁ h₂ hne heq
    obtain ⟨hencode, hhash⟩ := apart_copySettings hne
    exact (insertAgent_rolls_iff _ (copySettings peerText) getScaledValueFromIntOrPercent pipelineSet
      [{ name := "planner" }] [{ name := "tester" }] { name := "coder" } { name := "planner" } ad₁ ad₂ (by decide)
      (List.mem_cons_self ..) h₁ h₂ hencode hhash).1.mp heq rfl
  exact ⟨_, _, rfl, rfl, hrolls _ _ rfl rfl (by decide)⟩

end KynoMesh.Pods
