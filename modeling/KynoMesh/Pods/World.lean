import KynoMesh.Lib.Transition
import KynoMesh.Pods.Refinement

/-!
# Runs of the AgentDeploy controller

The world is an AgentDeploy and its pods. Its events are the edits of the spec, the successful passes of the controller
(each sees every earlier write), the condition updates of the kubelet (a live Ready pod stays Ready) and the end of
terminating pods. A pass may draw a pod name that is taken, and then leaves its slot empty.

* `step_edit`, `step_pass`, `step_kubelet`, `step_vanish` : what each event does to the AgentDeploy and to the fleet;
* `DrawsFree` : the event draws no name that is taken.
-/

namespace KynoMesh.Pods
open KynoMesh.Lib KynoMesh.Api

structure World where
  ad : AgentDeploy
  store : PodStore

inductive Event
  | edit (spec : AgentDeploySpec)
  | pass (inp : PassInput)
  | kubelet (name : String) (conditions : List PodCondition)
  | vanish (name : String)

def Event.isPass : Event → Bool
  | .pass _ => true
  | _ => false

namespace World

def fleet (w : World) : Fleet := Pods.fleet w.store

/-- An AgentDeploy that no pass has seen yet. -/
def fresh (metadata : ObjectMeta) (spec : AgentDeploySpec) : World where
  ad := { metadata := metadata, spec := spec, status := {} }
  store := PodStore.empty

/-- No live Ready pod named `name` stops being Ready. -/
def staysReady (st : PodStore) (name : String) (conditions : List PodCondition) : Bool :=
  st.pods.all fun p => !(p.name == name && p.live && podReady p) || podReady { p with conditions := conditions }

def step (r : Reconciler) (w : World) : Event → Option World
  | .edit spec => some { w with ad := { w.ad with spec := spec } }
  | .pass inp =>
    match reconcile r inp w.ad w.store with
    | .ok (ad, st) => some ⟨ad, st⟩
    | .error _ => none
  | .kubelet name conditions =>
    if staysReady w.store name conditions then some { w with store := w.store.setConditions name conditions }
    else none
  | .vanish name => some { w with store := w.store.vanish name }

end World

/-- The names that an event draws in `w` are free. -/
def DrawsFree (r : Reconciler) (w : World) : Event → Prop
  | .pass inp => FreeNames r inp w.ad w.store
  | _ => True

instance (r : Reconciler) (w : World) : DecidablePred (DrawsFree r w)
  | .pass inp => inferInstanceAs (Decidable (FreeNames r inp w.ad w.store))
  | .edit _ | .kubelet _ _ | .vanish _ => inferInstanceAs (Decidable True)

/-! ## The pass of the controller -/

/-- What a successful pass does. -/
structure PassEffect (r : Reconciler) (inp : PassInput) (w w' : World) : Prop where
  metadata : w'.ad.metadata = w.ad.metadata
  spec : w'.ad.spec = w.ad.spec
  updateHash : w'.ad.status.updateHash = r.podSpecHash w.ad
  currentHash : w'.ad.status.currentHash =
    if w.fleet.needsReplace (r.podSpecHash w.ad) (window w.ad) = [] then r.podSpecHash w.ad
    else w.ad.status.currentHash
  desiredReplicas : w'.ad.status.desiredReplicas = UInt32.ofInt (desiredReplicas w.ad)
  lastScaledAt : w'.ad.status.lastScaledAt =
    truncSecond (if UInt32.ofInt (Pods.desiredReplicas w.ad) ≠ w.ad.status.desiredReplicas then inp.now
      else w.ad.status.lastScaledAt)
  fleet : w'.fleet = w.fleet.pass (r.podSpecHash w.ad) (window w.ad) (budget r w.ad)
    (drawnPod inp w.ad (r.podSpecHash w.ad) w.store)

theorem closeStatus_fields (now : Int) (ad : AgentDeploy) (s : AgentDeployStatus) (pods : List Pod) :
    (closeStatus now ad s pods).updateHash = s.updateHash ∧ (closeStatus now ad s pods).currentHash = s.currentHash ∧
      (closeStatus now ad s pods).desiredReplicas = s.desiredReplicas ∧
      (closeStatus now ad s pods).lastScaledAt = truncSecond s.lastScaledAt := by
  unfold closeStatus settlePhase
  dsimp only
  split_ifs <;> exact ⟨rfl, rfl, rfl, rfl⟩

theorem closeStatus_counts (now : Int) (ad : AgentDeploy) (s : AgentDeployStatus) (pods : List Pod) :
    (closeStatus now ad s pods).replicas = UInt32.ofNat (pods.filter Pod.live).length ∧
      (closeStatus now ad s pods).updatedReplicas =
        UInt32.ofNat ((pods.filter Pod.live).filter fun p => p.hash == s.updateHash).length := by
  unfold closeStatus settlePhase
  dsimp only
  split_ifs <;> exact ⟨rfl, rfl⟩

theorem stampStatus_fields (now desired : Int) (h : String) (s : AgentDeployStatus) :
    (stampStatus now desired h s).updateHash = h ∧ (stampStatus now desired h s).currentHash = s.currentHash ∧
      (stampStatus now desired h s).desiredReplicas = UInt32.ofInt desired ∧
      (stampStatus now desired h s).lastScaledAt =
        if UInt32.ofInt desired ≠ s.desiredReplicas then now else s.lastScaledAt := by
  by_cases hd : UInt32.ofInt desired = s.desiredReplicas <;> by_cases hu : s.updateHash = h <;>
    simp [stampStatus, hd, hu]

theorem statusAfter_fields (r : Reconciler) (inp : PassInput) (ad : AgentDeploy) (F : Fleet) :
    (statusAfter r inp ad F).updateHash = r.podSpecHash ad ∧
      (statusAfter r inp ad F).currentHash =
        (if F.needsReplace (r.podSpecHash ad) (window ad) = [] then r.podSpecHash ad else ad.status.currentHash) ∧
      (statusAfter r inp ad F).desiredReplicas = UInt32.ofInt (desiredReplicas ad) ∧
      (statusAfter r inp ad F).lastScaledAt =
        if UInt32.ofInt (desiredReplicas ad) ≠ ad.status.desiredReplicas then inp.now
        else ad.status.lastScaledAt := by
  obtain ⟨hu, hc, hd, hl⟩ := stampStatus_fields inp.now (desiredReplicas ad) (r.podSpecHash ad) ad.status
  unfold statusAfter
  by_cases h : F.needsReplace (r.podSpecHash ad) (window ad) = []
  · rw [if_pos h, if_pos h]
    exact ⟨hu, rfl, hd, hl⟩
  · rw [if_neg h, if_neg h]
    exact ⟨hu, hc, hd, hl⟩

/-- A pass that meets no error is one of `reconcilePods`, between the writes to the status. -/
theorem reconcilePods_of_reconcile {r : Reconciler} {inp : PassInput} {ad ad' : AgentDeploy} {st st' : PodStore}
    (hok : reconcile r inp ad st = .ok (ad', st')) :
    ∃ s, reconcilePods r inp { ad with status := openStatus inp.now ad } st = .ok (s, st') ∧
      ad' = { ad with status := closeStatus inp.now ad s st'.pods } := by
  unfold reconcile at hok
  obtain ⟨⟨s, st₁⟩, hpods, hok⟩ := bind_eq_ok.mp hok
  rw [pure_eq_ok, Prod.mk.injEq] at hok
  obtain ⟨rfl, rfl⟩ := hok
  exact ⟨s, hpods, rfl⟩

theorem passEffect_of_reconcile {r : Reconciler} {inp : PassInput} {w w' : World}
    (hok : reconcile r inp w.ad w.store = .ok (w'.ad, w'.store)) : PassEffect r inp w w' := by
  obtain ⟨s, hpods, had⟩ := reconcilePods_of_reconcile hok
  obtain ⟨hs, hfleet⟩ := reconcilePods_refines hpods
  obtain ⟨hu, hc, hd, hl⟩ := closeStatus_fields inp.now w.ad s w'.store.pods
  obtain ⟨hu', hc', hd', hl'⟩ :=
    statusAfter_fields r inp { w.ad with status := openStatus inp.now w.ad } (fleet w.store)
  have hstatus : w'.ad.status = closeStatus inp.now w.ad s w'.store.pods := by rw [had]
  rw [hs] at hstatus hu hc hd hl
  refine ⟨by rw [had], by rw [had], ?_, ?_, ?_, ?_, ?_⟩
  · rw [hstatus, hu, hu']
    rfl
  · rw [hstatus, hc, hc']
    rfl
  · rw [hstatus, hd, hd']
    rfl
  · rw [hstatus, hl, hl']
    rfl
  · rw [World.fleet, hfleet]
    rfl

/-! ## Events -/

/-- The same pod later on, Ready if it was. -/
structure SamePod (p q : Pod) : Prop where
  name : q.name = p.name
  hash : q.hash = p.hash
  ready : podReady p = true → podReady q = true

/-- Nothing but the readiness of pods has moved. -/
structure Quiet (w w' : World) : Prop where
  ad : w'.ad = w.ad
  fleet : ∀ k, List.Forall₂ SamePod (w.fleet k) (w'.fleet k)

namespace World

theorem step_edit {r : Reconciler} {w w' : World} {spec : AgentDeploySpec} (h : step r w (.edit spec) = some w') :
    w' = { w with ad := { w.ad with spec := spec } } := by
  simpa [step, eq_comm] using h

theorem step_pass {r : Reconciler} {w w' : World} {inp : PassInput} (h : step r w (.pass inp) = some w') :
    PassEffect r inp w w' := by
  simp only [step] at h
  cases hok : reconcile r inp w.ad w.store with
  | error e => simp [hok] at h
  | ok x =>
    simp only [hok, Option.some.injEq] at h
    subst h
    exact passEffect_of_reconcile hok

theorem fleet_vanish (st : PodStore) (name : String) : Pods.fleet (st.vanish name) = Pods.fleet st := by
  funext k
  unfold Pods.fleet PodStore.vanish
  rw [List.filter_filter]
  refine List.filter_congr fun p _ => ?_
  cases ht : p.terminating <;> simp [Pod.live, ht]

theorem fleet_setConditions (st : PodStore) (name : String) (conditions : List PodCondition) (k : Int) :
    Pods.fleet (st.setConditions name conditions) k =
      (Pods.fleet st k).map fun p => if p.name = name then { p with conditions := conditions } else p := by
  have hkeep : (fun p : Pod => p.live && p.slot == k) ∘
      (fun p : Pod => if p.name = name then { p with conditions := conditions } else p) =
      fun p => p.live && p.slot == k := by
    funext p
    dsimp only [Function.comp]
    split_ifs <;> rfl
  unfold Pods.fleet PodStore.setConditions
  rw [List.filter_map, hkeep]

theorem forall₂_setConditions {st : PodStore} {name : String} {conditions : List PodCondition}
    (h : staysReady st name conditions = true) (k : Int) :
    List.Forall₂ SamePod (Pods.fleet st k) (Pods.fleet (st.setConditions name conditions) k) := by
  rw [fleet_setConditions, List.forall₂_map_right_iff, List.forall₂_same]
  intro p hp
  obtain ⟨hp, hlive⟩ := List.mem_filter.mp hp
  split_ifs with hname
  · refine ⟨rfl, rfl, fun hready => ?_⟩
    have := List.all_eq_true.mp h p hp
    simp only [Bool.and_eq_true] at hlive
    simpa [hname, hlive.1, hready] using this
  · exact ⟨rfl, rfl, id⟩

theorem step_kubelet {r : Reconciler} {w w' : World} {name : String} {conditions : List PodCondition}
    (h : step r w (.kubelet name conditions) = some w') : Quiet w w' := by
  simp only [step] at h
  split_ifs at h with hready
  rw [Option.some.injEq] at h
  subst h
  exact ⟨rfl, forall₂_setConditions hready⟩

theorem step_vanish {r : Reconciler} {w w' : World} {name : String} (h : step r w (.vanish name) = some w') :
    Quiet w w' := by
  simp only [step, Option.some.injEq] at h
  subst h
  refine ⟨rfl, fun k => ?_⟩
  rw [World.fleet, World.fleet, fleet_vanish, List.forall₂_same]
  exact fun p _ => ⟨rfl, rfl, id⟩

/-- Every event is an edit, a pass, or leaves the AgentDeploy and the pods in place. -/
theorem step_cases {r : Reconciler} {w w' : World} {e : Event} (h : step r w e = some w') :
    (∃ spec, e = .edit spec ∧ w' = { w with ad := { w.ad with spec := spec } }) ∨
      (∃ inp, e = .pass inp ∧ PassEffect r inp w w') ∨ (e.isPass = false ∧ Quiet w w') := by
  cases e with
  | edit spec => exact .inl ⟨spec, rfl, step_edit h⟩
  | pass inp => exact .inr (.inl ⟨inp, rfl, step_pass h⟩)
  | kubelet name conditions => exact .inr (.inr ⟨rfl, step_kubelet h⟩)
  | vanish name => exact .inr (.inr ⟨rfl, step_vanish h⟩)

end World

/-! ## A controller to run -/

/-- A controller whose pod specs differ in the agent's image alone. -/
def imageReconciler : Reconciler where
  hashPodSpec := fun _ _ spec => (spec.agent.container.map fun c => c.image).getD ""
  scaledValue := getScaledValueFromIntOrPercent

/-- `n` replicas of an image, replaced one at a time. -/
def imageSpec (image : String) (n : Int32) : AgentDeploySpec where
  agent :=
    { name := "planner"
      container := some { image := image }
      scale := { disabled := true }
      updateStrategy := { rollingUpdate := some { maxUnavailable := some (.int 1) } } }
  agentSetName := "mesh"
  replicas := some n

def plannerMeta : ObjectMeta where
  nspace := "default"
  name := "planner"

end KynoMesh.Pods
