import Mathlib.Algebra.Order.Floor.Div
import KynoMesh.Pods.World

/-!
# Rollouts over whole runs

* `gateSound_iff_not_revertedMidRollout` : `UpdateHash = CurrentHash` says that the window runs one hash, in exactly
  the runs where no pass starts from a revert to the last promoted hash that one batch cannot undo;
* `unavailable_le_iff_not_startingOutsideBatch` : spec edits stay within the budget if no batch opens while a slot
  outside of it is still starting, and only then if the passes draw free names;
* `rollout_converges` : a rollout whose passes draw free names replaces every outdated slot once, within the budget, and
  ends; `rollout_exceeds_on_taken_name` : a taken name costs a slot more.
-/

namespace KynoMesh.Pods
open KynoMesh.Lib KynoMesh.Api

/-! ## One hash in the window -/

namespace Fleet

theorem needsReplace_subset_batch_iff (F : Fleet) (h : String) (n m : Nat) :
    (∀ i ∈ F.needsReplace h n, i ∈ F.batch h n m) ↔
      (F.needsReplace h n = [] ∨ F.waiting h n = false ∧ (F.needsReplace h n).length ≤ m) := by
  have hnd : (F.needsReplace h n).Nodup := List.nodup_range.filter _
  cases hw : F.waiting h n with
  | true =>
    simp [batch, hw, List.eq_nil_iff_forall_not_mem]
  | false =>
    have hb : F.batch h n m = (F.needsReplace h n).take m := by simp [batch, hw]
    rw [hb]
    constructor
    · intro hall
      refine .inr ⟨rfl, ?_⟩
      have := (List.subperm_of_subset hnd hall).length_le
      rw [List.length_take] at this
      omega
    · rintro (hnil | ⟨-, hle⟩)
      · simp [hnil]
      · rw [List.take_of_length_le hle]
        exact fun i hi => hi

/-- Over slots with one pod at most, a pass leaves the window on the desired hash exactly when its batch covers the
outdated slots. -/
theorem pass_hash_iff {F : Fleet} (hF : ∀ k, (F k).length ≤ 1) {h : String} {new : Nat → Option Pod}
    (hnew : ∀ i, ∀ p ∈ new i, p.hash = h) (n m : Nat) :
    (∀ i < n, ∀ p ∈ F.pass h n m new (i : Nat), p.hash = h) ↔ ∀ i ∈ F.needsReplace h n, i ∈ F.batch h n m := by
  have hslot : ∀ i < n, (∀ p ∈ F.pass h n m new (i : Nat), p.hash = h) ↔
      (outdated h (F i) = true → i ∈ F.batch h n m) := by
    intro i hi
    have hfilled : ∀ p ∈ (new i).toList, p.hash = h := fun p hp => hnew i p (Option.mem_toList.mp hp)
    rw [pass_of_lt F h n m new hi]
    match hFi : F i with
    | [] =>
      rw [passSlot_nil hFi]
      exact ⟨fun _ ho => by simp [outdated] at ho, fun _ => hfilled⟩
    | [p] =>
      rw [passSlot_single hFi]
      by_cases hb : i ∈ F.batch h n m
      · rw [if_pos hb]
        exact ⟨fun _ _ => hb, fun _ => hfilled⟩
      · simp [hb, outdated]
    | _ :: _ :: _ =>
      have := hF i
      simp [hFi] at this
  constructor
  · intro hall i hi
    obtain ⟨hin, ho⟩ := List.mem_filter.mp hi
    exact (hslot i (List.mem_range.mp hin)).mp (hall i (List.mem_range.mp hin)) ho
  · intro hall i hi
    exact (hslot i hi).mpr fun ho => hall i (List.mem_filter.mpr ⟨List.mem_range.mpr hi, ho⟩)

end Fleet

/-! ## The rollout gate -/

/-- The gate that the autoscaler and the drift watcher read: a non-empty `UpdateHash` that equals `CurrentHash` is the
hash of every live pod of the window. -/
def GateSound (w : World) : Prop :=
  w.ad.status.updateHash ≠ "" → w.ad.status.updateHash = w.ad.status.currentHash →
    ∀ p ∈ w.store.pods, p.terminating = false → 0 ≤ p.slot ∧ p.slot < desiredReplicas w.ad →
      p.hash = w.ad.status.updateHash

instance (w : World) : Decidable (GateSound w) := by
  unfold GateSound
  infer_instance

/-- The desired hash is back at the last promoted one while slots run another, and one pass cannot replace them all:
an updated pod is not Ready yet, or they exceed the budget. -/
def RevertedMidRollout (r : Reconciler) (w : World) : Prop :=
  r.podSpecHash w.ad ≠ "" ∧ w.ad.status.currentHash = r.podSpecHash w.ad ∧
    w.fleet.needsReplace (r.podSpecHash w.ad) (window w.ad) ≠ [] ∧
    (w.fleet.waiting (r.podSpecHash w.ad) (window w.ad) = true ∨
      budget r w.ad < (w.fleet.needsReplace (r.podSpecHash w.ad) (window w.ad)).length)

instance (r : Reconciler) (w : World) : Decidable (RevertedMidRollout r w) := by
  unfold RevertedMidRollout
  infer_instance

theorem gateSound_iff_fleet (w : World) :
    GateSound w ↔ (w.ad.status.updateHash ≠ "" → w.ad.status.updateHash = w.ad.status.currentHash →
      ∀ i < window w.ad, ∀ p ∈ w.fleet (i : Nat), p.hash = w.ad.status.updateHash) := by
  unfold GateSound
  refine imp_congr_right fun _ => imp_congr_right fun _ => ?_
  have hwin := window_eq w.ad
  constructor
  · intro hall i hi p hp
    obtain ⟨hp, ht, hs⟩ := mem_fleet.mp hp
    exact hall p hp ht (by omega)
  · intro hall p hp ht hs
    obtain ⟨i, hi⟩ := Int.eq_ofNat_of_zero_le hs.1
    exact hall i (by omega) p (mem_fleet.mpr ⟨hp, ht, hi⟩)

theorem PassEffect.window {r : Reconciler} {inp : PassInput} {w w' : World} (h : PassEffect r inp w w') :
    window w'.ad = window w.ad := by
  unfold Pods.window Pods.desiredReplicas
  rw [h.spec]

theorem PassEffect.gateSound_iff {r : Reconciler} {inp : PassInput} {w w' : World} (h : PassEffect r inp w w')
    (hw : ∀ k, (w.fleet k).length ≤ 1) : GateSound w' ↔ ¬RevertedMidRollout r w := by
  rw [gateSound_iff_fleet, h.window, h.updateHash, h.currentHash, h.fleet,
    Fleet.pass_hash_iff hw fun i p => drawnPod_hash,
    Fleet.needsReplace_subset_batch_iff]
  unfold RevertedMidRollout
  by_cases hnil : w.fleet.needsReplace (r.podSpecHash w.ad) (Pods.window w.ad) = []
  · simp [hnil]
  · rw [if_neg hnil]
    simp only [hnil, false_or, ne_eq, not_false_eq_true, true_and, not_and, not_or, Bool.not_eq_true, not_lt]
    rw [eq_comm (b := w.ad.status.currentHash)]

theorem Quiet.length_le {w w' : World} (h : Quiet w w') (hw : ∀ k, (w.fleet k).length ≤ 1) (k : Int) :
    (w'.fleet k).length ≤ 1 := (h.fleet k).length_eq ▸ hw k

theorem step_length_le {r : Reconciler} {w w' : World} {e : Event} (h : w.step r e = some w')
    (hw : ∀ k, (w.fleet k).length ≤ 1) (k : Int) : (w'.fleet k).length ≤ 1 := by
  obtain ⟨spec, rfl, rfl⟩ | ⟨inp, rfl, hp⟩ | ⟨-, hq⟩ := World.step_cases h
  · exact hw k
  · rw [hp.fleet]
    exact Fleet.pass_length_le hw _ _ _ _ k
  · exact hq.length_le hw k

/-- **The rollout gate.** From a fresh AgentDeploy, after every pass of a run the gate is sound exactly when no pass
of the run starts in a revert that it cannot finish. -/
theorem gateSound_iff_not_revertedMidRollout (r : Reconciler) (metadata : ObjectMeta) (spec : AgentDeploySpec)
    (es : List Event) :
    EachStep (World.step r) (fun _ e w' => e.isPass = true → GateSound w') (World.fresh metadata spec) es ↔
      EachStep (World.step r) (fun w e _ => e.isPass = true → ¬RevertedMidRollout r w)
        (World.fresh metadata spec) es := by
  refine (eachStep_iff (I := fun w => ∀ k, (w.fleet k).length ≤ 1) ?_ ?_ ?_).symm
  · intro w e w' hw hs
    obtain ⟨spec, rfl, -⟩ | ⟨inp, rfl, hp⟩ | ⟨he, -⟩ := World.step_cases hs
    · simp [Event.isPass]
    · simp [Event.isPass, hp.gateSound_iff hw]
    · simp [he]
  · exact fun w e w' hw hs _ => step_length_le hs hw
  · intro k
    exact Nat.zero_le 1

def passNamed (suffix : String) : Event := .pass { now := 0, suffix := fun _ => suffix }

def becomesReady (name : String) : Event := .kubelet name [⟨"Ready", .true⟩]

/-- Image `a` is rolled out to three slots, image `b` to two of them, and the edit is reverted: the first pass after
the revert restores slot `0` alone, and the gate is open with slot `1` on `b`. -/
theorem gateSound_fails_on_revert :
    ¬EachStep (World.step imageReconciler) (fun _ e w' => e.isPass = true → GateSound w')
      (World.fresh plannerMeta (imageSpec "a" 3))
      [passNamed "1", becomesReady "planner-0-1", becomesReady "planner-1-1", becomesReady "planner-2-1",
        .edit (imageSpec "b" 3), passNamed "2", becomesReady "planner-0-2", passNamed "3",
        .edit (imageSpec "a" 3), passNamed "4"] := by
  decide +kernel

/-! ## The budget across edits -/

/-- Every slot of the window holds exactly one live pod, and it is Ready. -/
def AllReady (w : World) : Prop := ∀ i < window w.ad, ∃ p, w.fleet (i : Nat) = [p] ∧ podReady p = true

instance (w : World) : Decidable (AllReady w) :=
  decidable_of_iff (∀ i < window w.ad, (w.fleet (i : Nat)).length = 1 ∧ (w.fleet (i : Nat)).all podReady = true) <| by
    refine forall₂_congr fun i _ => ?_
    rw [List.length_eq_one_iff]
    constructor
    · rintro ⟨⟨p, hp⟩, hr⟩
      exact ⟨p, hp, by simpa [hp] using hr⟩
    · rintro ⟨p, hp, hr⟩
      exact ⟨⟨p, hp⟩, by simpa [hp] using hr⟩

/-- A batch is due while a slot outside of it is still starting. -/
def StartingOutsideBatch (r : Reconciler) (w : World) : Prop :=
  w.fleet.waiting (r.podSpecHash w.ad) (window w.ad) = false ∧
    ∃ i < window w.ad, w.fleet.unready i = true ∧
      i ∉ (w.fleet.needsReplace (r.podSpecHash w.ad) (window w.ad)).take (budget r w.ad)

instance (r : Reconciler) (w : World) : Decidable (StartingOutsideBatch r w) := by
  unfold StartingOutsideBatch
  infer_instance

theorem AllReady.unavailable_eq_zero {w : World} (h : AllReady w) : w.fleet.unavailable (window w.ad) = 0 := by
  unfold Fleet.unavailable
  rw [List.countP_eq_zero]
  intro i hi
  obtain ⟨p, hp, hr⟩ := h i (List.mem_range.mp hi)
  simp [Fleet.unready, hp, hr]

theorem AllReady.single {w : World} (h : AllReady w) : w.fleet.Single (window w.ad) := by
  intro i hi
  obtain ⟨p, hp, -⟩ := h i hi
  exact ⟨p, hp⟩

theorem AllReady.not_waiting {w : World} (hw : AllReady w) (h : String) : w.fleet.waiting h (window w.ad) = false := by
  rw [Fleet.waiting, List.any_eq_false]
  intro i hi
  obtain ⟨p, hFi, hr⟩ := hw i (List.mem_range.mp hi)
  rw [hFi]
  cases hc : Fleet.current h [p] with
  | none => simp
  | some q =>
    have hq : q = p := by simpa using List.mem_of_find?_eq_some hc
    simp [hq, hr]

theorem Quiet.single {w w' : World} (h : Quiet w w') {i : Nat} {p : Pod} (hp : w.fleet i = [p]) :
    ∃ q, w'.fleet i = [q] ∧ SamePod p q := by
  have hF := h.fleet i
  rw [hp, List.forall₂_cons_left_iff] at hF
  obtain ⟨q, qs, hq, hqs, he⟩ := hF
  rw [List.forall₂_nil_left_iff] at hqs
  exact ⟨q, by rw [he, hqs], hq⟩

theorem any_podReady_of_forall₂ {ps qs : List Pod} (h : List.Forall₂ SamePod ps qs) (hp : ps.any podReady = true) :
    qs.any podReady = true := by
  induction h with
  | nil => exact hp
  | cons hpq _ ih =>
    rw [List.any_cons, Bool.or_eq_true] at hp ⊢
    exact hp.imp hpq.ready ih

theorem Quiet.unready {w w' : World} (h : Quiet w w') {i : Nat} (hu : w'.fleet.unready i = true) :
    w.fleet.unready i = true := by
  unfold Fleet.unready at hu ⊢
  rw [Bool.not_eq_true'] at hu ⊢
  rw [Bool.eq_false_iff] at hu ⊢
  exact fun hp => hu (any_podReady_of_forall₂ (h.fleet i) hp)

theorem Quiet.unavailable_le {w w' : World} (h : Quiet w w') (n : Nat) :
    w'.fleet.unavailable n ≤ w.fleet.unavailable n :=
  List.countP_mono_left fun _ _ hu => h.unready hu

theorem Quiet.fleet_single {w w' : World} (h : Quiet w w') {n : Nat} (hw : w.fleet.Single n) : w'.fleet.Single n := by
  intro i hi
  obtain ⟨p, hp⟩ := hw i hi
  obtain ⟨q, hq, -⟩ := h.single hp
  exact ⟨q, hq⟩

theorem Quiet.atMostOne {w w' : World} (h : Quiet w w') {n : Nat} (hw : w.fleet.AtMostOne n) :
    w'.fleet.AtMostOne n := fun i hi => (h.fleet i).length_eq ▸ hw i hi

theorem PassEffect.unavailable_le {r : Reconciler} {inp : PassInput} {w w' : World} (h : PassEffect r inp w w')
    (hw : w.fleet.AtMostOne (Pods.window w.ad)) (hm : w.fleet.unavailable (Pods.window w.ad) ≤ budget r w.ad)
    (hstart : ¬StartingOutsideBatch r w) : w'.fleet.unavailable (Pods.window w.ad) ≤ budget r w.ad := by
  rw [h.fleet]
  refine Fleet.unavailable_pass_le hw hm (fun i p => drawnPod_ready) fun hopen i hi hu => ?_
  by_contra hout
  exact hstart ⟨hopen, i, hi, hu, hout⟩

theorem PassEffect.unavailable_le_iff {r : Reconciler} {inp : PassInput} {w w' : World} (h : PassEffect r inp w w')
    (hw : w.fleet.Single (Pods.window w.ad)) (hm : w.fleet.unavailable (Pods.window w.ad) ≤ budget r w.ad) :
    w'.fleet.unavailable (Pods.window w.ad) ≤ budget r w.ad ↔ ¬StartingOutsideBatch r w := by
  rw [h.fleet, Fleet.unavailable_pass_le_iff hw hm fun i p => drawnPod_ready]
  unfold StartingOutsideBatch
  push Not
  rfl

/-- A pass that draws free names fills its batch. -/
theorem PassEffect.fleet_single {r : Reconciler} {inp : PassInput} {w w' : World} (h : PassEffect r inp w w')
    (hfree : DrawsFree r w (.pass inp)) (hw : w.fleet.Single (Pods.window w.ad)) :
    w'.fleet.Single (Pods.window w.ad) := by
  rw [h.fleet]
  refine hw.pass fun i hi => ?_
  rw [hfree.drawnPod (List.mem_append_right _ hi)]
  rfl

/-- The two numbers that stay fixed while the pod spec is edited. -/
def limits (r : Reconciler) (w : World) : Nat × Nat := (window w.ad, budget r w.ad)

/-- Within the limits, with at most one pod in a slot, and within the budget. -/
structure WithinBudget (r : Reconciler) (w u : World) : Prop where
  limits : limits r u = limits r w
  atMostOne : u.fleet.AtMostOne (window w.ad)
  unavailable : u.fleet.unavailable (window w.ad) ≤ budget r w.ad

theorem AllReady.withinBudget {w : World} (h : AllReady w) (r : Reconciler) : WithinBudget r w w where
  limits := rfl
  atMostOne := h.single.atMostOne
  unavailable := by
    rw [h.unavailable_eq_zero]
    exact Nat.zero_le _

theorem WithinBudget.step {r : Reconciler} {w u u' : World} (h : WithinBudget r w u) {e : Event}
    (hs : restrict (World.step r) (fun u => Pods.limits r u = Pods.limits r w) u e = some u')
    (hstart : e.isPass = true → ¬StartingOutsideBatch r u) : WithinBudget r w u' := by
  obtain ⟨hs, hlim⟩ := restrict_eq_some.mp hs
  obtain ⟨hn, hb⟩ := Prod.mk.inj h.limits
  obtain ⟨spec, rfl, rfl⟩ | ⟨inp, rfl, hp⟩ | ⟨-, hq⟩ := World.step_cases hs
  · exact ⟨hlim, h.atMostOne, h.unavailable⟩
  · have hu := h.atMostOne
    have hm := h.unavailable
    rw [← hn] at hu
    rw [← hn, ← hb] at hm
    refine ⟨hlim, ?_, ?_⟩
    · rw [hp.fleet, ← hn]
      exact hu.pass _ _ _
    · rw [← hn, ← hb]
      exact hp.unavailable_le hu hm (hstart rfl)
  · exact ⟨hlim, hq.atMostOne h.atMostOne, (hq.unavailable_le _).trans h.unavailable⟩

/-- From single pods, a step stays within the budget exactly when it does not open a batch too early. -/
theorem WithinBudget.step_iff {r : Reconciler} {w u u' : World} (h : WithinBudget r w u)
    (hu : u.fleet.Single (window w.ad)) {e : Event} (hs : u.step r e = some u') :
    u'.fleet.unavailable (window w.ad) ≤ budget r w.ad ↔ (e.isPass = true → ¬StartingOutsideBatch r u) := by
  obtain ⟨hn, hb⟩ := Prod.mk.inj h.limits
  have hm := h.unavailable
  obtain ⟨spec, rfl, rfl⟩ | ⟨inp, rfl, hp⟩ | ⟨he, hq⟩ := World.step_cases hs
  · exact ⟨fun _ he => absurd he (by simp [Event.isPass]), fun _ => hm⟩
  · rw [← hn] at hu
    rw [← hn, ← hb] at hm ⊢
    simp [Event.isPass, hp.unavailable_le_iff hu hm]
  · exact ⟨fun _ h => absurd h (by simp [he]), fun _ => (hq.unavailable_le _).trans hm⟩

theorem step_fleet_single {r : Reconciler} {u u' : World} {e : Event} (hs : u.step r e = some u')
    (hfree : DrawsFree r u e) (hu : u.fleet.Single (window u.ad)) : u'.fleet.Single (window u.ad) := by
  obtain ⟨spec, rfl, rfl⟩ | ⟨inp, rfl, hp⟩ | ⟨-, hq⟩ := World.step_cases hs
  · exact hu
  · exact hp.fleet_single hfree hu
  · exact hq.fleet_single hu

/-- **The budget across edits.** In the runs from a Ready window that keep the replica count and the budget, at most
`budget` slots lack a live Ready pod after every step if no pass starts a batch while a slot outside of it is still
starting; and only then, where the passes draw free names. -/
theorem unavailable_le_iff_not_startingOutsideBatch (r : Reconciler) (w : World) (hw : AllReady w)
    (es : List Event) :
    (EachStep (restrict (World.step r) fun u => limits r u = limits r w)
          (fun u e _ => e.isPass = true → ¬StartingOutsideBatch r u) w es →
        EachStep (restrict (World.step r) fun u => limits r u = limits r w)
          (fun _ _ u' => u'.fleet.unavailable (window w.ad) ≤ budget r w.ad) w es) ∧
      (EachStep (restrict (World.step r) fun u => limits r u = limits r w) (fun u e _ => DrawsFree r u e) w es →
        (EachStep (restrict (World.step r) fun u => limits r u = limits r w)
            (fun _ _ u' => u'.fleet.unavailable (window w.ad) ≤ budget r w.ad) w es ↔
          EachStep (restrict (World.step r) fun u => limits r u = limits r w)
            (fun u e _ => e.isPass = true → ¬StartingOutsideBatch r u) w es)) := by
  constructor
  · refine eachStep_of_eachStep (I := WithinBudget r w) ?_ (hw.withinBudget r)
    intro u e u' hu hstart hs
    exact ⟨hu.step hs hstart, (hu.step hs hstart).unavailable⟩
  · intro hfree
    refine (eachStep_iff_of_eachStep (I := fun u => WithinBudget r w u ∧ u.fleet.Single (window w.ad)) ?_ ?_
      ⟨hw.withinBudget r, hw.single⟩ hfree).symm
    · rintro u e u' ⟨hu, hone⟩ - hs
      exact (hu.step_iff hone (restrict_eq_some.mp hs).1).symm
    · rintro u e u' ⟨hu, hone⟩ hfree hs hstart
      refine ⟨hu.step hs hstart, ?_⟩
      obtain ⟨hn, -⟩ := Prod.mk.inj hu.limits
      rw [← hn] at hone ⊢
      exact step_fleet_single (restrict_eq_some.mp hs).1 hfree hone

def readyPod (image : String) (i : Nat) : Pod where
  name := "planner-" ++ itoa i ++ "-0"
  hash := image
  replica := itoa i
  conditions := [⟨"Ready", .true⟩]

/-- Two Ready pods on image `a`, and a spec that asks for `image`. -/
def readyPair (image : String) : World where
  ad := { metadata := plannerMeta, spec := imageSpec image 2, status := { currentHash := "a", updateHash := "a" } }
  store := ⟨[readyPod "a" 0, readyPod "a" 1], by decide⟩

/-- One edit at a time, each pass over a Ready window or before the next edit. -/
theorem unavailable_le_readyPair :
    AllReady (readyPair "a") ∧
      EachStep (restrict (World.step imageReconciler) fun u => limits imageReconciler u =
          limits imageReconciler (readyPair "a"))
        (fun _ _ u' => u'.fleet.unavailable (window (readyPair "a").ad) ≤ budget imageReconciler (readyPair "a").ad)
        (readyPair "a") [.edit (imageSpec "b" 2), passNamed "1", .edit (imageSpec "c" 2), passNamed "2"] :=
  ⟨by decide +kernel, (unavailable_le_iff_not_startingOutsideBatch imageReconciler (readyPair "a")
    (by decide +kernel) _).1 (by decide +kernel)⟩

/-- Image `b` is on slot `0` and still starting on slot `1` when the spec moves on to `c`: no pod is on `c`, so the
gate is open, slot `0` is replaced, and both slots are down. -/
theorem unavailable_exceeds_on_second_edit :
    AllReady (readyPair "a") ∧
      ¬EachStep (restrict (World.step imageReconciler) fun u => limits imageReconciler u =
            limits imageReconciler (readyPair "a"))
        (fun _ _ u' => u'.fleet.unavailable (window (readyPair "a").ad) ≤ budget imageReconciler (readyPair "a").ad)
        (readyPair "a")
        [.edit (imageSpec "b" 2), passNamed "1", becomesReady "planner-0-1", passNamed "2", .edit (imageSpec "c" 2),
          passNamed "3"] := by
  decide +kernel

/-! ## One rollout -/

/-- What a rollout drives toward: the hash, the number of slots, the budget. -/
def target (r : Reconciler) (w : World) : String × Nat × Nat := (r.podSpecHash w.ad, window w.ad, budget r w.ad)

/-- The runs that keep the target of `w`. -/
def rolloutStep (r : Reconciler) (w : World) : World → Event → Option World :=
  restrict (World.step r) fun u => target r u = target r w

/-- The names of the live pods of slot `i`. -/
def slotNames (i : Nat) (w : World) : List String := (w.fleet i).map Pod.name

/-- A rollout under way: the slots that are not Ready are on the desired hash already, and within the budget. -/
structure Rolling (r : Reconciler) (w u : World) : Prop where
  target : target r u = target r w
  single : u.fleet.Single (window w.ad)
  starting : ∀ i < window w.ad, u.fleet.unready i = true → Fleet.outdated (r.podSpecHash w.ad) (u.fleet i) = false
  within : u.fleet.unavailable (window w.ad) ≤ budget r w.ad

section Rolling
variable {r : Reconciler} {w u u' : World}

theorem AllReady.rolling (hw : AllReady w) (r : Reconciler) : Rolling r w w where
  target := rfl
  single := hw.single
  starting := fun i hi hu => by
    obtain ⟨p, hp, hr⟩ := hw i hi
    simp [Fleet.unready, hp, hr] at hu
  within := by
    rw [hw.unavailable_eq_zero]
    exact Nat.zero_le _

theorem Rolling.hash_eq (h : Rolling r w u) : r.podSpecHash u.ad = r.podSpecHash w.ad := (Prod.mk.inj h.target).1

theorem Rolling.window_eq (h : Rolling r w u) : window u.ad = window w.ad := (Prod.mk.inj (Prod.mk.inj h.target).2).1

theorem Rolling.budget_eq (h : Rolling r w u) : budget r u.ad = budget r w.ad :=
  (Prod.mk.inj (Prod.mk.inj h.target).2).2

theorem Rolling.slot_pass (h : Rolling r w u) {inp : PassInput} (hp : PassEffect r inp u u')
    (hfree : DrawsFree r u (.pass inp)) {i : Nat} (hi : i < window w.ad) :
    u'.fleet i = if i ∈ u.fleet.batch (r.podSpecHash w.ad) (window w.ad) (budget r w.ad)
      then [freshPod inp u.ad (r.podSpecHash w.ad) i] else u.fleet i := by
  obtain ⟨p, hFi⟩ := h.single i hi
  rw [← h.hash_eq, ← h.budget_eq, ← h.window_eq] at *
  rw [hp.fleet, Fleet.pass_of_lt _ _ _ _ _ hi, Fleet.passSlot_single hFi, hFi]
  split_ifs with hb
  · rw [hfree.drawnPod (List.mem_append_right _ hb)]
    rfl
  · rfl

theorem Quiet.outdated_eq (h : Quiet u u') {i : Nat} {p : Pod} (hp : u.fleet i = [p]) (hash : String) :
    Fleet.outdated hash (u'.fleet i) = Fleet.outdated hash (u.fleet i) ∧ slotNames i u' = slotNames i u := by
  obtain ⟨q, hq, hpq⟩ := h.single hp
  simp [Fleet.outdated, slotNames, hp, hq, hpq.hash, hpq.name]

/-- A step changes a slot of the window only if it is outdated, and then updates it. -/
theorem Rolling.slot_step (h : Rolling r w u) {e : Event} (hs : u.step r e = some u') (hfree : DrawsFree r u e)
    {i : Nat} (hi : i < window w.ad) :
    (Fleet.outdated (r.podSpecHash w.ad) (u'.fleet i) = Fleet.outdated (r.podSpecHash w.ad) (u.fleet i) ∧
        slotNames i u' = slotNames i u) ∨
      (Fleet.outdated (r.podSpecHash w.ad) (u.fleet i) = true ∧
        Fleet.outdated (r.podSpecHash w.ad) (u'.fleet i) = false) := by
  obtain ⟨p, hFi⟩ := h.single i hi
  obtain ⟨spec, rfl, rfl⟩ | ⟨inp, rfl, hp⟩ | ⟨-, hq⟩ := World.step_cases hs
  · exact .inl ⟨rfl, rfl⟩
  · rw [slotNames, slotNames, h.slot_pass hp hfree hi]
    split_ifs with hb
    · exact .inr ⟨(Fleet.batch_subset hb).2, outdated_freshPod inp u.ad _ i⟩
    · exact .inl ⟨rfl, rfl⟩
  · exact .inl (hq.outdated_eq hFi _)

/-- The gate keeps a rollout from starting a batch while a slot is not Ready. -/
theorem Rolling.not_startingOutsideBatch (h : Rolling r w u) : ¬StartingOutsideBatch r u := by
  rintro ⟨hopen, i, hi, hu, -⟩
  rw [h.window_eq] at hi hopen
  have hrep := Fleet.mem_needsReplace_of_unready h.single hopen hi hu
  rw [h.hash_eq] at hrep
  have ho := (List.mem_filter.mp hrep).2
  simp [h.starting i hi hu] at ho

theorem Rolling.step (h : Rolling r w u) {e : Event} (hfree : DrawsFree r u e)
    (hs : rolloutStep r w u e = some u') : Rolling r w u' := by
  obtain ⟨hs, htarget⟩ := restrict_eq_some.mp hs
  have hupdated : ∀ i < window w.ad, u'.fleet.unready i = true → u.fleet.unready i = true ∨
      Fleet.outdated (r.podSpecHash w.ad) (u'.fleet i) = false := by
    intro i hi hu'
    obtain ⟨spec, rfl, rfl⟩ | ⟨inp, rfl, hp⟩ | ⟨-, hq⟩ := World.step_cases hs
    · exact .inl hu'
    · rw [Fleet.unready, h.slot_pass hp hfree hi] at hu'
      rw [h.slot_pass hp hfree hi]
      split_ifs at hu' ⊢ with hb
      · exact .inr (outdated_freshPod inp u.ad _ i)
      · exact .inl hu'
    · exact .inl (hq.unready hu')
  refine ⟨htarget, ?_, ?_, ?_⟩
  · have hone := h.single
    rw [← h.window_eq] at hone ⊢
    exact step_fleet_single hs hfree hone
  · intro i hi hu'
    rcases hupdated i hi hu' with hu | ho
    · have hold := h.starting i hi hu
      rcases h.slot_step hs hfree hi with ⟨heq, -⟩ | ⟨ho, -⟩
      · rw [heq, hold]
      · simp [hold] at ho
    · exact ho
  · obtain ⟨spec, rfl, rfl⟩ | ⟨inp, rfl, hp⟩ | ⟨-, hq⟩ := World.step_cases hs
    · exact h.within
    · have hle := hp.unavailable_le_iff (by rw [h.window_eq]; exact h.single)
        (by rw [h.window_eq, h.budget_eq]; exact h.within)
      rw [h.window_eq, h.budget_eq] at hle
      exact hle.mpr h.not_startingOutsideBatch
    · exact (hq.unavailable_le _).trans h.within

theorem Rolling.changes_le_one (h : Rolling r w u) {i : Nat} (hi : i < window w.ad) {es : List Event}
    (hfree : EachStep (rolloutStep r w) (fun u e _ => DrawsFree r u e) u es) :
    changes (slotNames i) (rolloutStep r w) u es ≤ 1 := by
  have hle : changes (slotNames i) (rolloutStep r w) u es ≤
      if Fleet.outdated (r.podSpecHash w.ad) (u.fleet i) = true then 1 else 0 := by
    refine changes_le (I := Rolling r w)
      (φ := fun u => if Fleet.outdated (r.podSpecHash w.ad) (u.fleet i) = true then 1 else 0) ?_ h hfree
    intro u e u' hu hfree hs
    refine ⟨hu.step hfree hs, ?_⟩
    rcases hu.slot_step (restrict_eq_some.mp hs).1 hfree hi with ⟨ho, hn⟩ | ⟨ho, ho'⟩
    · simp [ho, hn]
    · simp only [ho, ho', Bool.false_eq_true, if_false, if_true, Nat.zero_add]
      split_ifs <;> omega
  split_ifs at hle <;> omega

/-! ### Progress -/

/-- The outdated slots of a state of the rollout. -/
def behind (r : Reconciler) (w u : World) : List Nat := u.fleet.needsReplace (r.podSpecHash w.ad) (window w.ad)

/-- The rollout is over. -/
structure Done (r : Reconciler) (w u : World) : Prop where
  behind : behind r w u = []
  currentHash : u.ad.status.currentHash = r.podSpecHash w.ad
  updateHash : u.ad.status.updateHash = r.podSpecHash w.ad

theorem Rolling.behind_eq_of_not_pass (h : Rolling r w u) {e : Event} (hs : u.step r e = some u')
    (he : e.isPass = false) : Pods.behind r w u' = Pods.behind r w u := by
  refine List.filter_congr fun i hi => ?_
  obtain ⟨p, hFi⟩ := h.single i (List.mem_range.mp hi)
  obtain ⟨spec, rfl, rfl⟩ | ⟨inp, rfl, hp⟩ | ⟨-, hq⟩ := World.step_cases hs
  · rfl
  · simp [Event.isPass] at he
  · exact (hq.outdated_eq hFi _).1

theorem filter_not_mem_take {α : Type} [DecidableEq α] {l : List α} (hl : l.Nodup) (m : Nat) :
    (l.filter fun a => decide (a ∉ l.take m)) = l.drop m := by
  have hdisj := List.disjoint_take_drop hl (le_refl m)
  conv_lhs => rw [← List.take_append_drop m l]
  rw [List.filter_append, List.take_append_drop]
  have h₁ : (l.take m).filter (fun a => decide (a ∉ l.take m)) = [] := by
    rw [List.filter_eq_nil_iff]
    intro a ha
    simp [ha]
  have h₂ : (l.drop m).filter (fun a => decide (a ∉ l.take m)) = l.drop m := by
    rw [List.filter_eq_self]
    intro a ha
    simpa using fun ht => hdisj ht ha
  rw [h₁, h₂, List.nil_append]

/-- A pass over a Ready window updates the next `budget` outdated slots. -/
theorem Rolling.behind_pass (h : Rolling r w u) {inp : PassInput} (hp : PassEffect r inp u u')
    (hfree : DrawsFree r u (.pass inp)) (hu : AllReady u) :
    Pods.behind r w u' = (Pods.behind r w u).drop (budget r w.ad) := by
  have hopen := hu.not_waiting (r.podSpecHash w.ad)
  rw [h.window_eq] at hopen
  have hbatch : u.fleet.batch (r.podSpecHash w.ad) (window w.ad) (budget r w.ad) =
      (Pods.behind r w u).take (budget r w.ad) := by
    simp [Fleet.batch, hopen, Pods.behind]
  have hnd : (Pods.behind r w u).Nodup := List.nodup_range.filter _
  rw [← filter_not_mem_take hnd, Pods.behind, Fleet.needsReplace]
  conv_rhs => rw [Pods.behind, Fleet.needsReplace, List.filter_filter]
  refine List.filter_congr fun i hi => ?_
  rw [h.slot_pass hp hfree (List.mem_range.mp hi), hbatch]
  change _ = (decide (i ∉ (Pods.behind r w u).take (budget r w.ad)) && Fleet.outdated (r.podSpecHash w.ad) (u.fleet i))
  by_cases hb : i ∈ (Pods.behind r w u).take (budget r w.ad)
  · rw [if_pos hb, outdated_freshPod]
    simp [hb]
  · simp [hb]

theorem Rolling.done_of_pass (h : Rolling r w u) {inp : PassInput} (hp : PassEffect r inp u u')
    (hfree : DrawsFree r u (.pass inp)) (hb : Pods.behind r w u = []) : Done r w u' where
  behind := by
    rw [Pods.behind, Fleet.needsReplace, List.filter_eq_nil_iff]
    intro i hi
    have hi' := List.filter_eq_nil_iff.mp hb i hi
    rw [Bool.not_eq_true] at hi' ⊢
    rw [h.slot_pass hp hfree (List.mem_range.mp hi)]
    split_ifs
    · exact outdated_freshPod inp u.ad _ i
    · exact hi'
  currentHash := by
    rw [hp.currentHash, h.hash_eq, h.window_eq]
    exact if_pos hb
  updateHash := by
    rw [hp.updateHash, h.hash_eq]

theorem Rolling.done_step (h : Rolling r w u) {e : Event} (hs : u.step r e = some u') (hfree : DrawsFree r u e)
    (hd : Done r w u) : Done r w u' := by
  cases he : e.isPass with
  | true =>
    obtain ⟨spec, rfl, -⟩ | ⟨inp, rfl, hp⟩ | ⟨he', -⟩ := World.step_cases hs
    · simp [Event.isPass] at he
    · exact h.done_of_pass hp hfree hd.behind
    · simp [he'] at he
  | false =>
    have hb := (h.behind_eq_of_not_pass hs he).trans hd.behind
    obtain ⟨spec, rfl, rfl⟩ | ⟨inp, rfl, -⟩ | ⟨-, hq⟩ := World.step_cases hs
    · exact ⟨hb, hd.currentHash, hd.updateHash⟩
    · simp [Event.isPass] at he
    · exact ⟨hb, by rw [hq.ad]; exact hd.currentHash, by rw [hq.ad]; exact hd.updateHash⟩

theorem Rolling.done_run {t : World} {es : List Event} (h : Rolling r w u) (hd : Done r w u)
    (hfree : EachStep (rolloutStep r w) (fun u e _ => DrawsFree r u e) u es)
    (hrun : run (rolloutStep r w) u es = some t) : Rolling r w t ∧ Done r w t := by
  refine run_invariant_of_eachStep (I := fun u => Rolling r w u ∧ Done r w u) ?_ ⟨h, hd⟩ hfree hrun
  rintro u e u' ⟨hu, hd⟩ hfree hs
  exact ⟨hu.step hfree hs, hu.done_step (restrict_eq_some.mp hs).1 hfree hd⟩

theorem ceilDiv_sub (k : Nat) {m : Nat} (hm : 1 ≤ m) (hk : k ≠ 0) : (k - m) ⌈/⌉ m + 1 = k ⌈/⌉ m := by
  rw [Nat.ceilDiv_eq_add_pred_div, Nat.ceilDiv_eq_add_pred_div]
  by_cases hkm : k ≤ m
  · rw [Nat.sub_eq_zero_of_le hkm, Nat.zero_add, Nat.div_eq_of_lt (by omega),
      Nat.div_eq_of_lt_le (k := 1) (by omega) (by omega)]
  · rw [show k + m - 1 = (k - m + m - 1) + m by omega, Nat.add_div_right _ (by omega)]

theorem Rolling.done_of_passes {t : World} {es : List Event} (h : Rolling r w u)
    (hfree : EachStep (rolloutStep r w) (fun u e _ => DrawsFree r u e) u es)
    (hready : EachStep (rolloutStep r w) (fun u e _ => e.isPass = true → AllReady u) u es)
    (hrun : run (rolloutStep r w) u es = some t)
    (hpasses : (Pods.behind r w u).length ⌈/⌉ budget r w.ad + 1 ≤ es.countP Event.isPass) :
    Rolling r w t ∧ Done r w t := by
  induction es generalizing u with
  | nil => simp at hpasses
  | cons e es ih =>
    obtain ⟨u', hs, hrun'⟩ := run_cons.mp hrun
    obtain ⟨hre, hready'⟩ := (eachStep_cons hs).mp hready
    obtain ⟨hfr, hfree'⟩ := (eachStep_cons hs).mp hfree
    have hs' := (restrict_eq_some.mp hs).1
    rw [List.countP_cons] at hpasses
    cases he : e.isPass with
    | false =>
      rw [he, if_neg (by simp)] at hpasses
      refine ih (h.step hfr hs) hfree' hready' hrun' ?_
      rwa [h.behind_eq_of_not_pass hs' he]
    | true =>
      rw [he, if_pos rfl] at hpasses
      obtain ⟨spec, rfl, -⟩ | ⟨inp, rfl, hp⟩ | ⟨he', -⟩ := World.step_cases hs'
      · simp [Event.isPass] at he
      · by_cases hb : Pods.behind r w u = []
        · exact (h.step hfr hs).done_run (h.done_of_pass hp hfr hb) hfree' hrun'
        · refine ih (h.step hfr hs) hfree' hready' hrun' ?_
          rw [h.behind_pass hp hfr (hre he), List.length_drop]
          have := ceilDiv_sub (Pods.behind r w u).length (one_le_budget r w.ad)
            (fun h0 => hb (List.length_eq_zero_iff.mp h0))
          omega
      · simp [he'] at he

end Rolling

/-- **A rollout.** From a Ready window, in every run that keeps the target and draws free names: no slot is replaced
twice, no slot on the desired hash is touched, at most `budget` slots lack a live Ready pod; and `⌈k / budget⌉ + 1` passes
over Ready windows end it, where `k` slots are outdated at the start. -/
theorem rollout_converges (r : Reconciler) (w t : World) (hw : AllReady w) (es : List Event)
    (hfree : EachStep (rolloutStep r w) (fun u e _ => DrawsFree r u e) w es)
    (hrun : run (rolloutStep r w) w es = some t) :
    (∀ i < window w.ad, changes (slotNames i) (rolloutStep r w) w es ≤ 1) ∧
      EachStep (rolloutStep r w) (fun u _ u' => ∀ i < window w.ad,
        Fleet.outdated (r.podSpecHash w.ad) (u.fleet i) = false → slotNames i u' = slotNames i u) w es ∧
      t.fleet.unavailable (window w.ad) ≤ budget r w.ad ∧
      (EachStep (rolloutStep r w) (fun u e _ => e.isPass = true → AllReady u) w es →
        (w.fleet.needsReplace (r.podSpecHash w.ad) (window w.ad)).length ⌈/⌉ budget r w.ad + 1 ≤
          es.countP Event.isPass →
        (∀ i < window w.ad, ∃ p, t.fleet (i : Nat) = [p] ∧ p.hash = r.podSpecHash w.ad) ∧
          t.ad.status.currentHash = t.ad.status.updateHash) := by
  refine ⟨fun i hi => ?_, ?_, ?_, fun hready hpasses => ?_⟩
  · exact (hw.rolling r).changes_le_one hi hfree
  · refine eachStep_of_eachStep (I := Rolling r w) ?_ (hw.rolling r) hfree
    intro u e u' hu hfree hs
    refine ⟨hu.step hfree hs, fun i hi ho => ?_⟩
    rcases hu.slot_step (restrict_eq_some.mp hs).1 hfree hi with ⟨-, hn⟩ | ⟨ho', -⟩
    · exact hn
    · simp [ho] at ho'
  · have hend : Rolling r w t :=
      run_invariant_of_eachStep (fun u e u' hu hfr hs => hu.step hfr hs) (hw.rolling r) hfree hrun
    exact hend.within
  · obtain ⟨ht, hd⟩ := (hw.rolling r).done_of_passes hfree hready hrun hpasses
    refine ⟨fun i hi => ?_, by rw [hd.currentHash, hd.updateHash]⟩
    obtain ⟨p, hp⟩ := ht.single i hi
    have hnil := List.filter_eq_nil_iff.mp hd.behind i (List.mem_range.mpr hi)
    refine ⟨p, hp, ?_⟩
    simpa [Fleet.outdated, hp] using hnil

/-- Two outdated slots, one at a time: three passes. -/
theorem rollout_converges_readyPair :
    ∃ t, run (rolloutStep imageReconciler (readyPair "b")) (readyPair "b")
        [passNamed "1", becomesReady "planner-0-1", passNamed "2", becomesReady "planner-1-2", passNamed "3"] = some t ∧
      (∀ i < window (readyPair "b").ad, ∃ p, t.fleet (i : Nat) = [p] ∧ p.hash = "b") ∧
      t.ad.status.currentHash = t.ad.status.updateHash := by
  obtain ⟨t, ht⟩ : ∃ t, run (rolloutStep imageReconciler (readyPair "b")) (readyPair "b")
      [passNamed "1", becomesReady "planner-0-1", passNamed "2", becomesReady "planner-1-2", passNamed "3"] = some t :=
    Option.isSome_iff_exists.mp (by decide +kernel)
  exact ⟨t, ht, (rollout_converges imageReconciler (readyPair "b") t (by decide +kernel) _ (by decide +kernel) ht).2.2.2
    (by decide +kernel) (by decide +kernel)⟩

/-- The first pass draws the name of the pod that it has just deleted in slot `0`, and leaves the slot empty. The next
one fills it and replaces slot `1` as well: no pod on `b` is waiting, so the gate is open, and both slots are down. -/
theorem rollout_exceeds_on_taken_name :
    AllReady (readyPair "b") ∧
      ¬EachStep (rolloutStep imageReconciler (readyPair "b"))
        (fun _ _ u' => u'.fleet.unavailable (window (readyPair "b").ad) ≤ budget imageReconciler (readyPair "b").ad)
        (readyPair "b") [passNamed "0", passNamed "1"] := by
  decide +kernel

end KynoMesh.Pods
