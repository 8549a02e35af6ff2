import KynoMesh.Agentset.Objects
import KynoMesh.Pods.Trigger
import KynoMesh.Pods.World

/-!
# The pods behind the Services

A Service selects pods by their labels. `newPod` (`agentdeploy/pods.go`) sets the labels when it creates a pod and
nobody changes them later, so an edit of the AgentDeploy reaches the Services with the pods it rolls out. That matters
for the entry Service, whose selector has the entry label: the label follows the topology, and the topology is in the
hash.

* `podLabels` : the labels of a new pod; `selects` : the selector of a Service on them;
* `Lineage` : an AgentDeploy with the specs it is given over time, none of which moves it to another agent;
* `Labelled` : the runs of `World`, with the labels of every pod;
* `Descends`, `descends_step` : every pod has the hash and the labels of one of the specs;
* `services_route` : the pods behind the Services of the agents, the entry Service and the daemon's.
-/

namespace KynoMesh.Pods
open KynoMesh.Lib KynoMesh.Api KynoMesh.Agentset
open KynoMesh.Objects (Object Builder labelsOf keyServing keyEntry newHeadlessService newClusterIPService
  newEntryService newDaemonService newDaemonDeployment daemonLabels)

def keyReplica : String := "kynomesh.kyno.sh/replica"

/-! ## Labels and selectors -/

/-- The labels of every pod of `ad`. -/
def baseLabels (ad : AgentDeploy) (replica : String) : List (String × String) :=
  [(keyAppName, ad.metadata.name), (keyAgentSetName, ad.spec.agentSetName), (keyAgentDeployName, ad.spec.agent.name),
    (keyComponent, componentAgent), (keyPartOf, project), (keyManagedBy, controllerAgentDeploy), (keyReplica, replica),
    (keyServing, "true")]

/-- The labels that `newPod` gives. -/
def podLabels (ad : AgentDeploy) (replica : String) : Dict String String :=
  let labels := labelsOf (baseLabels ad replica)
  if ad.spec.topology.isEntry then labels.insert keyEntry "true" else labels

/-- A selector asks for every one of its entries. -/
def selects (selector labels : Dict String String) : Bool :=
  selector.entries.all fun kv => labels.lookup kv.1 == some kv.2

/-- The selector of a Service, or of a Deployment. -/
def selector (o : Object) : Dict String String :=
  match o.spec with
  | .service s => s.selector
  | .deployment d => d.matchLabels

theorem lookup_labelsOf {kvs : List (String × String)} (hkeys : (kvs.map Prod.fst).Nodup) {k v : String} :
    (labelsOf kvs).lookup k = some v ↔ (k, v) ∈ kvs := by
  rw [← mem_entries_iff]
  unfold labelsOf
  rw [(perm_entries_foldl_insert Prod.snd hkeys).mem_iff]
  simp

theorem selects_labelsOf {kvs : List (String × String)} (hkeys : (kvs.map Prod.fst).Nodup)
    {labels : Dict String String} :
    selects (labelsOf kvs) labels = true ↔ ∀ kv ∈ kvs, labels.lookup kv.1 = some kv.2 := by
  unfold selects
  rw [List.all_eq_true]
  constructor
  · intro h kv hkv
    exact beq_iff_eq.mp (h ⟨kv.1, kv.2⟩ (mem_entries_iff.mpr ((lookup_labelsOf hkeys).mpr hkv)))
  · rintro h ⟨k, v⟩ hkv
    exact beq_iff_eq.mpr (h (k, v) ((lookup_labelsOf hkeys).mp (mem_entries_iff.mp hkv)))

section
variable (ad : AgentDeploy) (replica : String)

theorem nodup_baseLabels : ((baseLabels ad replica).map Prod.fst).Nodup := by
  unfold baseLabels
  simp only [List.map_cons, List.map_nil]
  decide

theorem keyEntry_notMem_baseLabels : keyEntry ∉ (baseLabels ad replica).map Prod.fst := by
  unfold baseLabels
  simp only [List.map_cons, List.map_nil]
  decide

variable {ad replica}

theorem lookup_podLabels {k v : String} (hk : (k, v) ∈ baseLabels ad replica) (v' : String) :
    (podLabels ad replica).lookup k = some v' ↔ v = v' := by
  have hne : k ≠ keyEntry := fun heq => keyEntry_notMem_baseLabels ad replica (heq ▸ List.mem_map_of_mem hk)
  have hlookup : (podLabels ad replica).lookup k = some v := by
    unfold podLabels
    dsimp only
    split_ifs
    · rw [AList.lookup_insert_ne hne]
      exact (lookup_labelsOf (nodup_baseLabels ad replica)).mpr hk
    · exact (lookup_labelsOf (nodup_baseLabels ad replica)).mpr hk
  rw [hlookup, Option.some.injEq]

theorem lookup_keyEntry_podLabels (v : String) :
    (podLabels ad replica).lookup keyEntry = some v ↔ ad.spec.topology.isEntry = true ∧ "true" = v := by
  unfold podLabels
  dsimp only
  split_ifs with hentry
  · rw [AList.lookup_insert, Option.some.injEq]
    exact ⟨fun h => ⟨hentry, h⟩, fun h => h.2⟩
  · rw [lookup_labelsOf (nodup_baseLabels ad replica)]
    refine iff_of_false (fun hmem => ?_) (fun h => hentry h.1)
    exact keyEntry_notMem_baseLabels ad replica (List.mem_map_of_mem hmem)

/-- The two are AgentDeploys of one agent of one AgentSet. -/
def SameAgent (ad₁ ad₂ : AgentDeploy) : Prop :=
  ad₁.spec.agentSetName = ad₂.spec.agentSetName ∧ ad₁.spec.agent.name = ad₂.spec.agent.name

instance (ad₁ ad₂ : AgentDeploy) : Decidable (SameAgent ad₁ ad₂) := inferInstanceAs (Decidable (_ ∧ _))

theorem headless_selects_iff (svc : AgentDeploy) :
    selects (selector (newHeadlessService svc)) (podLabels ad replica) = true ↔ SameAgent svc ad := by
  change selects (labelsOf _) _ = true ↔ _
  rw [selects_labelsOf (by simp only [List.map_cons, List.map_nil]; decide)]
  simp only [List.forall_mem_cons, List.not_mem_nil, false_imp_iff, implies_true, and_true]
  rw [lookup_podLabels (v := ad.spec.agentSetName) (by simp [baseLabels]),
    lookup_podLabels (v := ad.spec.agent.name) (by simp [baseLabels]),
    lookup_podLabels (v := controllerAgentDeploy) (by simp [baseLabels])]
  simp only [SameAgent, and_true]
  exact and_congr eq_comm eq_comm

theorem clusterIP_selects_iff (svc : AgentDeploy) :
    selects (selector (newClusterIPService svc)) (podLabels ad replica) = true ↔ SameAgent svc ad := by
  change selects (labelsOf _) _ = true ↔ _
  rw [selects_labelsOf (by simp only [List.map_cons, List.map_nil]; decide)]
  simp only [List.forall_mem_cons, List.not_mem_nil, false_imp_iff, implies_true, and_true]
  rw [lookup_podLabels (v := ad.spec.agentSetName) (by simp [baseLabels]),
    lookup_podLabels (v := ad.spec.agent.name) (by simp [baseLabels]),
    lookup_podLabels (v := controllerAgentDeploy) (by simp [baseLabels]),
    lookup_podLabels (v := "true") (by simp [baseLabels])]
  simp only [SameAgent, and_true]
  exact and_congr eq_comm eq_comm

theorem entry_selects_iff {b : Builder} {as : AgentSet} {svc : Object} (h : newEntryService b as = .ok svc) :
    selects (selector svc) (podLabels ad replica) = true ↔
      as.metadata.name = ad.spec.agentSetName ∧ ad.spec.topology.isEntry = true := by
  obtain ⟨ref, -, hok⟩ := bind_eq_ok.mp h
  rw [pure_eq_ok] at hok
  subst hok
  change selects (labelsOf _) _ = true ↔ _
  rw [selects_labelsOf (by simp only [List.map_cons, List.map_nil]; decide)]
  simp only [List.forall_mem_cons, List.not_mem_nil, false_imp_iff, implies_true, and_true]
  rw [lookup_podLabels (v := ad.spec.agentSetName) (by simp [baseLabels]),
    lookup_podLabels (v := controllerAgentDeploy) (by simp [baseLabels]), lookup_keyEntry_podLabels,
    lookup_podLabels (v := "true") (by simp [baseLabels])]
  simp only [and_true, true_and]
  exact and_congr_left' eq_comm

theorem daemon_selects_none {b : Builder} {as : AgentSet} {svc : Object} (h : newDaemonService b as = .ok svc) :
    selects (selector svc) (podLabels ad replica) = false := by
  obtain ⟨ref, -, hok⟩ := bind_eq_ok.mp h
  rw [pure_eq_ok] at hok
  subst hok
  rw [Bool.eq_false_iff]
  change selects (labelsOf _) _ ≠ true
  rw [Ne, selects_labelsOf (by simp only [List.map_cons, List.map_nil]; decide)]
  intro hall
  have hcomponent := hall (keyComponent, Objects.componentDaemon) (by simp)
  rw [lookup_podLabels (v := componentAgent) (by simp [baseLabels])] at hcomponent
  exact absurd hcomponent (by decide)

end

/-! ## Runs with labels -/

/-- An AgentDeploy, and the specs that it is given: all of one agent of one AgentSet. -/
structure Lineage where
  metadata : ObjectMeta
  setName : String
  agentName : String
  first : AgentDeploySpec
  later : List AgentDeploySpec
  one_agent : ∀ spec ∈ first :: later, spec.agentSetName = setName ∧ spec.agent.name = agentName

namespace Lineage

def specs (x : Lineage) : List AgentDeploySpec := x.first :: x.later

/-- The AgentDeploy with one of its specs. -/
def deploy (x : Lineage) (spec : AgentDeploySpec) : AgentDeploy := { metadata := x.metadata, spec := spec }

/-- An edit is to one of the specs. -/
def Allows (x : Lineage) (e : Event) : Prop := ∀ spec, e = .edit spec → spec ∈ x.specs

end Lineage

/-- A world with the labels of its pods, by name. -/
structure Labelled where
  world : World
  labels : String → Dict String String

namespace Labelled

def start (x : Lineage) : Labelled where
  world := World.fresh x.metadata x.first
  labels := fun _ => ∅

/-- The labels after the pods `before` have become `after`: a new pod has those that `newPod` gave it. -/
def relabel (ad : AgentDeploy) (before after : PodStore) (labels : String → Dict String String) (name : String) :
    Dict String String :=
  if name ∈ before.pods.map Pod.name then labels name
  else ((after.pods.find? fun p => p.name = name).map fun p => podLabels ad p.replica).getD (labels name)

def step (r : Reconciler) (w : Labelled) (e : Event) : Option Labelled :=
  (w.world.step r e).map fun world' =>
    { world := world', labels := relabel w.world.ad w.world.store world'.store w.labels }

/-- The pods that a Service selects. -/
def selected (svc : Object) (w : Labelled) : List Pod :=
  w.world.store.pods.filter fun p => selects (selector svc) (w.labels p.name)

end Labelled

/-! ## Where a pod comes from -/

/-- A pod as it was before, up to its readiness and its end. -/
structure Carried (q p : Pod) : Prop where
  name : p.name = q.name
  hash : p.hash = q.hash
  replica : p.replica = q.replica

theorem carried_mark (names : List String) (q : Pod) : Carried q (PodStore.mark names q) := by
  unfold PodStore.mark
  split_ifs <;> exact ⟨rfl, rfl, rfl⟩

/-- A pod after a step was there before, or is a new one of the current hash under a name that was free. -/
theorem World.step_pods {r : Reconciler} {w w' : World} {e : Event} (h : w.step r e = some w') {p : Pod}
    (hp : p ∈ w'.store.pods) :
    (∃ q ∈ w.store.pods, Carried q p) ∨ (p.name ∉ w.store.pods.map Pod.name ∧ p.hash = r.podSpecHash w.ad) := by
  cases e with
  | edit spec =>
    rw [World.step_edit h] at hp
    exact .inl ⟨p, hp, rfl, rfl, rfl⟩
  | pass inp =>
    simp only [World.step] at h
    cases hok : reconcile r inp w.ad w.store with
    | error e => simp [hok] at h
    | ok out =>
      obtain ⟨ad, st⟩ := out
      simp only [hok, Option.some.injEq] at h
      subst h
      obtain ⟨s, hpods, -⟩ := reconcilePods_of_reconcile hok
      obtain ⟨created, hsub, hpatched, -⟩ := reconcilePods_drawn hpods
      have hnodup := st.nodup
      rw [hpatched.names, List.nodup_append] at hnodup
      change p ∈ st.pods at hp
      rw [hpatched, List.mem_append] at hp
      rcases hp with hold | hnew
      · obtain ⟨q, hq, rfl⟩ := List.mem_map.mp hold
        exact .inl ⟨q, hq, carried_mark _ q⟩
      · obtain ⟨i, -, rfl⟩ := List.mem_map.mp (hsub.subset hnew)
        exact .inr ⟨fun hmem => hnodup.2.2 _ hmem _ (List.mem_map_of_mem hnew) rfl, rfl⟩
  | kubelet name conditions =>
    simp only [World.step] at h
    split_ifs at h
    cases h
    obtain ⟨q, hq, rfl⟩ := List.mem_map.mp hp
    refine .inl ⟨q, hq, ?_⟩
    split_ifs <;> exact ⟨rfl, rfl, rfl⟩
  | vanish name =>
    cases h
    exact .inl ⟨p, (List.mem_filter.mp hp).1, rfl, rfl, rfl⟩

theorem World.step_metadata {r : Reconciler} {w w' : World} {e : Event} (h : w.step r e = some w') :
    w'.ad.metadata = w.ad.metadata := by
  rcases World.step_cases h with ⟨spec, -, rfl⟩ | ⟨inp, -, hpass⟩ | ⟨-, hquiet⟩
  · rfl
  · exact hpass.metadata
  · rw [hquiet.ad]

/-- Every pod has the hash and the labels of one of the specs. -/
structure Descends (r : Reconciler) (x : Lineage) (w : Labelled) : Prop where
  metadata : w.world.ad.metadata = x.metadata
  spec : w.world.ad.spec ∈ x.specs
  pods : ∀ p ∈ w.world.store.pods, ∃ spec ∈ x.specs,
    p.hash = r.podSpecHash (x.deploy spec) ∧ w.labels p.name = podLabels (x.deploy spec) p.replica

section
variable {r : Reconciler} {x : Lineage} {w w' : Labelled} {e : Event}

theorem descends_start (r : Reconciler) (x : Lineage) : Descends r x (Labelled.start x) where
  metadata := rfl
  spec := List.mem_cons_self
  pods p hp := by cases hp

theorem Descends.podSpecHash_ad (h : Descends r x w) :
    r.podSpecHash w.world.ad = r.podSpecHash (x.deploy w.world.ad.spec) := by
  unfold Reconciler.podSpecHash
  rw [h.metadata]
  rfl

theorem Descends.podLabels_ad (h : Descends r x w) (replica : String) :
    podLabels w.world.ad replica = podLabels (x.deploy w.world.ad.spec) replica := by
  unfold podLabels baseLabels
  rw [h.metadata]
  rfl

theorem find?_name {st : PodStore} {p : Pod} (hp : p ∈ st.pods) :
    (st.pods.find? fun q => q.name = p.name) = some p := by
  cases hfind : st.pods.find? fun q => q.name = p.name with
  | none => exact absurd (decide_eq_true rfl) (List.find?_eq_none.mp hfind p hp)
  | some q =>
    have hname : q.name = p.name := by simpa using List.find?_some hfind
    rw [List.inj_on_of_nodup_map st.nodup (List.mem_of_find?_eq_some hfind) hp hname]

theorem descends_step (h : Descends r x w) (he : x.Allows e) (hs : w.step r e = some w') : Descends r x w' := by
  unfold Labelled.step at hs
  obtain ⟨world', hworld, rfl⟩ := Option.map_eq_some_iff.mp hs
  refine ⟨(World.step_metadata hworld).trans h.metadata, ?_, fun p hp => ?_⟩
  · rcases World.step_cases hworld with ⟨spec, rfl, rfl⟩ | ⟨inp, -, hpass⟩ | ⟨-, hquiet⟩
    · exact he spec rfl
    · exact hpass.spec ▸ h.spec
    · exact hquiet.ad ▸ h.spec
  · change ∃ spec ∈ x.specs, p.hash = _ ∧ Labelled.relabel _ _ _ _ p.name = _
    unfold Labelled.relabel
    rcases World.step_pods hworld hp with ⟨q, hq, hcarried⟩ | ⟨hnew, hhash⟩
    · obtain ⟨spec, hspec, hqhash, hqlabels⟩ := h.pods q hq
      refine ⟨spec, hspec, hcarried.hash.trans hqhash, ?_⟩
      rw [if_pos (hcarried.name ▸ List.mem_map_of_mem hq), hcarried.name, hqlabels, hcarried.replica]
    · refine ⟨w.world.ad.spec, h.spec, hhash.trans h.podSpecHash_ad, ?_⟩
      rw [if_neg hnew, find?_name hp, Option.map_some, Option.getD_some, h.podLabels_ad]

theorem descends_run {es : List Event} (hes : ∀ e ∈ es, x.Allows e)
    (hr : run (Labelled.step r) (Labelled.start x) es = some w) : Descends r x w :=
  run_invariant_of_events (fun _ _ _ h he hs => descends_step h he hs) (descends_start r x) hes hr

theorem Descends.selected_eq (h : Descends r x w) {svc : Object} {P : Prop} [Decidable P]
    (hsvc : ∀ spec ∈ x.specs, ∀ replica, selects (selector svc) (podLabels (x.deploy spec) replica) = true ↔ P) :
    w.selected svc = if P then w.world.store.pods else [] := by
  have hpod : ∀ p ∈ w.world.store.pods, selects (selector svc) (w.labels p.name) = decide P := by
    intro p hp
    obtain ⟨spec, hspec, -, hlabels⟩ := h.pods p hp
    rw [hlabels, Bool.eq_iff_iff, hsvc spec hspec, decide_eq_true_iff]
  unfold Labelled.selected
  rw [List.filter_congr hpod]
  split_ifs with hP <;> simp [hP]

end

/-! ## The daemon's pod -/

/-- The daemon's pod is managed by the other controller, whatever its template adds. -/
theorem managedBy_daemonDeployment {b : Builder} {as : AgentSet} {tmpl : Option Objects.DaemonTemplate} {d : Object}
    (h : newDaemonDeployment b as tmpl = .ok d) : (selector d).lookup keyManagedBy = some controllerAgentSet := by
  have hlabels : (daemonLabels as).lookup keyManagedBy = some controllerAgentSet := by
    unfold daemonLabels
    rw [lookup_labelsOf (by simp only [List.map_cons, List.map_nil]; decide)]
    simp
  obtain ⟨ref, -, hok⟩ := bind_eq_ok.mp h
  rw [pure_eq_ok] at hok
  subst hok
  cases tmpl with
  | none => exact hlabels
  | some t =>
    change (daemonLabels as ∪ _).lookup keyManagedBy = _
    rw [lookup_union, hlabels, Option.some_or]

theorem not_selects_daemon {kvs : List (String × String)} (hkeys : (kvs.map Prod.fst).Nodup)
    (hkvs : (keyManagedBy, controllerAgentDeploy) ∈ kvs) {labels : Dict String String}
    (hlabels : labels.lookup keyManagedBy = some controllerAgentSet) : selects (labelsOf kvs) labels = false := by
  rw [Bool.eq_false_iff, Ne, selects_labelsOf hkeys]
  intro hall
  have hmanaged := hall _ hkvs
  rw [hlabels] at hmanaged
  exact absurd hmanaged (by decide)

/-! ## The Services -/

/-- The encoding and the hash tell the specs apart. -/
def Lineage.Apart (cfg : Settings) (x : Lineage) : Prop :=
  ∀ s₁ ∈ x.specs, ∀ s₂ ∈ x.specs, EncodedApart cfg (x.deploy s₁) (x.deploy s₂) ∧
    HashedApart cfg (x.deploy s₁) (x.deploy s₂)

/-- What the Services select of the pods of one AgentDeploy. -/
structure Routes (r : Reconciler) (x : Lineage) (w : Labelled) (as : AgentSet) (entry daemon : Object) : Prop where
  /-- The headless Service of an agent selects its pods, and no other agent's does. -/
  headless : ∀ svc : AgentDeploy, w.selected (newHeadlessService svc) =
    if SameAgent svc w.world.ad then w.world.store.pods else []
  clusterIP : ∀ svc : AgentDeploy, w.selected (newClusterIPService svc) =
    if SameAgent svc w.world.ad then w.world.store.pods else []
  /-- The entry Service selects the pods that were made from a spec with the entry role. -/
  rolling : ∀ p ∈ w.world.store.pods, p ∈ w.selected entry ↔ as.metadata.name = x.setName ∧
    ∃ spec ∈ x.specs, p.hash = r.podSpecHash (x.deploy spec) ∧ spec.topology.isEntry = true
  /-- Once the live pods are on the desired hash, it selects them if the agent is the entry now. -/
  settled : (∀ p ∈ w.world.store.pods, p.live = true → p.hash = r.podSpecHash w.world.ad) →
    (w.selected entry).filter Pod.live =
      if as.metadata.name = x.setName ∧ w.world.ad.spec.topology.isEntry = true then w.world.store.pods.filter Pod.live
      else []
  noDaemon : w.selected daemon = []

theorem isEntry_of_podSpecHash {cfg : Settings} {scaledValue : ScaledValue} {x : Lineage} (hx : x.Apart cfg)
    {s₁ s₂ : AgentDeploySpec} (h₁ : s₁ ∈ x.specs) (h₂ : s₂ ∈ x.specs)
    (hhash : (cfg.reconciler scaledValue).podSpecHash (x.deploy s₁) =
      (cfg.reconciler scaledValue).podSpecHash (x.deploy s₂)) : s₁.topology.isEntry = s₂.topology.isEntry := by
  obtain ⟨hencode, hhashed⟩ := hx s₁ h₁ s₂ h₂
  have hsame := (rollsUnless_sameSpec scaledValue hencode hhashed).1.mp hhash
  exact congrArg (fun ad => ad.spec.topology.isEntry) hsame.copy

section
variable {cfg : Settings} {scaledValue : ScaledValue} {x : Lineage} {w : Labelled} {b : Builder} {as : AgentSet}
  {entry : Object}

theorem Lineage.sameAgent_iff (x : Lineage) {s₁ s₂ : AgentDeploySpec} (h₁ : s₁ ∈ x.specs) (h₂ : s₂ ∈ x.specs)
    {ad₁ ad₂ : AgentDeploy} (had₁ : ad₁.spec = s₁) (had₂ : ad₂.spec = s₂) (svc : AgentDeploy) :
    SameAgent svc ad₁ ↔ SameAgent svc ad₂ := by
  subst had₁ had₂
  obtain ⟨hset₁, hname₁⟩ := x.one_agent _ h₁
  obtain ⟨hset₂, hname₂⟩ := x.one_agent _ h₂
  unfold SameAgent
  rw [hset₁, hname₁, hset₂, hname₂]

/-- The entry Service reads the role off the hash of the pod. -/
theorem Descends.entry_selects (h : Descends (cfg.reconciler scaledValue) x w) (hx : x.Apart cfg)
    (hentry : newEntryService b as = .ok entry) {p : Pod} (hp : p ∈ w.world.store.pods) {spec : AgentDeploySpec}
    (hspec : spec ∈ x.specs) (hhash : p.hash = (cfg.reconciler scaledValue).podSpecHash (x.deploy spec)) :
    selects (selector entry) (w.labels p.name) = true ↔
      as.metadata.name = x.setName ∧ spec.topology.isEntry = true := by
  obtain ⟨made, hmade, hmadeHash, hlabels⟩ := h.pods p hp
  have hrole := isEntry_of_podSpecHash hx hmade hspec (hmadeHash.symm.trans hhash)
  rw [hlabels, entry_selects_iff hentry]
  change as.metadata.name = made.agentSetName ∧ made.topology.isEntry = true ↔ _
  rw [(x.one_agent made hmade).1, hrole]

theorem Descends.routes (h : Descends (cfg.reconciler scaledValue) x w) (hx : x.Apart cfg)
    (hentry : newEntryService b as = .ok entry) {daemon : Object} (hdaemon : newDaemonService b as = .ok daemon) :
    Routes (cfg.reconciler scaledValue) x w as entry daemon where
  headless svc := h.selected_eq fun _ hspec _ =>
    (headless_selects_iff svc).trans (x.sameAgent_iff hspec h.spec rfl rfl svc)
  clusterIP svc := h.selected_eq fun _ hspec _ =>
    (clusterIP_selects_iff svc).trans (x.sameAgent_iff hspec h.spec rfl rfl svc)
  rolling p hp := by
    unfold Labelled.selected
    rw [List.mem_filter]
    constructor
    · rintro ⟨-, hselected⟩
      obtain ⟨made, hmade, hmadeHash, -⟩ := h.pods p hp
      obtain ⟨hset, hrole⟩ := (h.entry_selects hx hentry hp hmade hmadeHash).mp hselected
      exact ⟨hset, made, hmade, hmadeHash, hrole⟩
    · rintro ⟨hset, spec, hspec, hhash, hrole⟩
      exact ⟨hp, (h.entry_selects hx hentry hp hspec hhash).mpr ⟨hset, hrole⟩⟩
  settled hon := by
    have hpod : ∀ p ∈ w.world.store.pods.filter Pod.live, selects (selector entry) (w.labels p.name) =
        decide (as.metadata.name = x.setName ∧ w.world.ad.spec.topology.isEntry = true) := by
      intro p hp
      obtain ⟨hp, hlive⟩ := List.mem_filter.mp hp
      rw [Bool.eq_iff_iff, decide_eq_true_iff]
      exact h.entry_selects hx hentry hp h.spec ((hon p hp hlive).trans h.podSpecHash_ad)
    unfold Labelled.selected
    rw [List.filter_comm, List.filter_congr hpod]
    split_ifs with hrole <;> simp [hrole]
  noDaemon := by
    have hnone := h.selected_eq (P := False) fun spec _ replica =>
      iff_of_false (Bool.eq_false_iff.mp (daemon_selects_none hdaemon)) id
    rwa [if_neg id] at hnone

end

/-- The text of a copy: the role. -/
def roleText (ad : AgentDeploy) : String := if ad.spec.topology.isEntry then "entry" else "inner"

/-- `planner`, with or without the entry role. -/
def roleSpec (isEntry : Bool) : AgentDeploySpec where
  agent := { name := "planner" }
  agentSetName := "mesh"
  replicas := some 1
  topology := { isEntry := isEntry }

/-- `planner` is the entry first, and later it is not. -/
def demoted : Lineage where
  metadata := plannerMeta
  setName := "mesh"
  agentName := "planner"
  first := roleSpec true
  later := [roleSpec false]
  one_agent := by decide

theorem demoted_apart : demoted.Apart (copySettings roleText) := by
  have hne : roleText (demoted.deploy (roleSpec true)).simpleCopy ≠
      roleText (demoted.deploy (roleSpec false)).simpleCopy := by decide
  intro s₁ h₁ s₂ h₂
  have hspecs : ∀ s ∈ demoted.specs, s = roleSpec true ∨ s = roleSpec false := by
    intro s hs
    simpa [Lineage.specs, demoted] using hs
  rcases hspecs s₁ h₁ with rfl | rfl <;> rcases hspecs s₂ h₂ with rfl | rfl
  · exact ⟨fun _ => rfl, fun _ => rfl⟩
  · exact apart_copySettings hne
  · exact apart_copySettings hne.symm
  · exact ⟨fun _ => rfl, fun _ => rfl⟩

def roleReconciler : Reconciler := (copySettings roleText).reconciler getScaledValueFromIntOrPercent

/-- A pass makes the pod, `planner` loses the role, and a second pass replaces the pod. -/
def demotion : List Event :=
  [.pass { now := 0, suffix := fun _ => "1" }, .edit (roleSpec false), .pass { now := 0, suffix := fun _ => "2" }]

/-- The AgentSet, whose entry is another agent now. -/
def demotedSet : AgentSet where
  metadata := { nspace := "default", name := "mesh" }
  spec := { pattern := .handoff, entry := "router", agents := [] }

def roleBuilder : Builder where
  set := { mustHash := fun _ => "" }
  settings := copySettings roleText
  setJSON := fun as => as.metadata.name
  mustHash := fun _ => ""

theorem demoted_allows : ∀ e ∈ demotion, demoted.Allows e := by
  intro e he spec heq
  subst heq
  unfold demotion at he
  simp only [List.mem_cons, reduceCtorEq, Event.edit.injEq, List.not_mem_nil, or_false, false_or] at he
  subst he
  exact List.mem_cons_of_mem _ List.mem_cons_self

end KynoMesh.Pods
