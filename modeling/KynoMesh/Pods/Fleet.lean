import KynoMesh.Pods.Reconcile

/-!
# The fleet

`Fleet` forgets everything of the pod store but the live pods of every slot. `Fleet.pass` says what a pass is for, slot
by slot: outside the window nothing stays, a slot on the desired hash keeps one such pod, an empty slot gets a new pod,
and the first `m` outdated slots are replaced unless some updated pod is still waiting to become Ready. A slot whose new
pod is missing stays empty.

* `classes`, `count_classes` : every slot is empty, on the desired hash, or outdated;
* `countP_lt_iff_waiting` : the wait gate, as the source counts it;
* `passSlot_single`, `pass_length_le` : a pass over slots that hold one pod at most;
* `unavailable_pass_le`, `unavailable_pass_le_iff` : when a pass stays within its budget.
-/

namespace KynoMesh.Pods
open KynoMesh.Lib KynoMesh.Api

/-- The live pods of every slot. -/
abbrev Fleet := Int → List Pod

def fleet (st : PodStore) : Fleet := fun i => st.pods.filter fun p => p.live && p.slot == i

namespace Fleet

/-- The pod that a slot keeps: its first one on the desired hash. -/
def current (h : String) (ps : List Pod) : Option Pod := ps.find? fun p => p.hash == h

/-- A slot that has live pods, none of them on the desired hash. -/
def outdated (h : String) (ps : List Pod) : Bool := !ps.isEmpty && ps.all fun p => p.hash != h

theorem current_eq_none {h : String} {ps : List Pod} : current h ps = none ↔ ∀ p ∈ ps, p.hash ≠ h := by
  simp [current]

theorem outdated_iff {h : String} {ps : List Pod} : outdated h ps = true ↔ ps ≠ [] ∧ current h ps = none := by
  simp [outdated, current_eq_none]

theorem classes (h : String) (ps : List Pod) :
    (ps = [] ∧ current h ps = none ∧ outdated h ps = false) ∨
      (ps ≠ [] ∧ (current h ps).isSome ∧ outdated h ps = false) ∨
      (ps ≠ [] ∧ current h ps = none ∧ outdated h ps = true) := by
  cases hc : current h ps with
  | none =>
    by_cases he : ps = []
    · exact .inl ⟨he, rfl, by simp [he, outdated]⟩
    · exact .inr (.inr ⟨he, rfl, outdated_iff.mpr ⟨he, hc⟩⟩)
  | some p =>
    refine .inr (.inl ⟨fun he => by simp [he, current] at hc, rfl, ?_⟩)
    rw [Bool.eq_false_iff]
    intro ho
    simp [outdated_iff, hc] at ho

def needsCreate (F : Fleet) (n : Nat) : List Nat := (List.range n).filter fun (i : Nat) => (F i).isEmpty

def needsReplace (F : Fleet) (h : String) (n : Nat) : List Nat :=
  (List.range n).filter fun (i : Nat) => outdated h (F i)

/-- Some slot's pod on the desired hash is not Ready: the wait gate is closed. -/
def waiting (F : Fleet) (h : String) (n : Nat) : Bool :=
  (List.range n).any fun (i : Nat) => (current h (F i)).any fun p => !podReady p

/-- The slots that a pass replaces. -/
def batch (F : Fleet) (h : String) (n m : Nat) : List Nat :=
  if waiting F h n then [] else (needsReplace F h n).take m

/-- A slot on the desired hash without its duplicates on that hash. -/
def dedup (h : String) (ps : List Pod) : List Pod := ps.filter fun p => p.hash != h || current h ps == some p

/-- One slot of the window after a pass. A slot that is to be filled and gets no pod is empty. -/
def passSlot (F : Fleet) (h : String) (n m : Nat) (new : Nat → Option Pod) (i : Nat) : List Pod :=
  if (current h (F i)).isSome then dedup h (F i)
  else if (F i).isEmpty ∨ i ∈ batch F h n m then (new i).toList
  else F i

/-- The fleet after a pass for `n` replicas with hash `h`, budget `m` and the pods `new`. -/
def pass (F : Fleet) (h : String) (n m : Nat) (new : Nat → Option Pod) : Fleet := fun i =>
  if 0 ≤ i ∧ i < n then passSlot F h n m new i.toNat else []

theorem count_classes (F : Fleet) (h : String) (is : List Nat) :
    is.countP (fun (i : Nat) => (current h (F i)).isSome) + (is.filter fun (i : Nat) => (F i).isEmpty).length +
      (is.filter fun (i : Nat) => outdated h (F i)).length = is.length := by
  induction is with
  | nil => rfl
  | cons i is ih =>
    rw [List.countP_cons, List.filter_cons, List.filter_cons, List.length_cons]
    obtain ⟨he, hcur, ho⟩ | ⟨he, hcur, ho⟩ | ⟨he, hcur, ho⟩ := classes h (F i)
    · rw [hcur, ho, he]
      simp
      omega
    · simp [he, hcur, ho]
      omega
    · simp [he, hcur, ho]
      omega

/-- The gate of the source counts the updated pods and the Ready ones among them. -/
theorem countP_lt_iff_waiting (F : Fleet) (h : String) (is : List Nat) :
    is.countP (fun (i : Nat) => (current h (F i)).any podReady) <
      is.countP (fun (i : Nat) => (current h (F i)).isSome) ↔
      is.any fun (i : Nat) => (current h (F i)).any fun p => !podReady p := by
  have hle : ∀ is : List Nat, is.countP (fun (i : Nat) => (current h (F i)).any podReady) ≤
      is.countP (fun (i : Nat) => (current h (F i)).isSome) := fun is =>
    List.countP_mono_left fun i _ hi => by
      cases hc : current h (F i) with
      | none => simp [hc] at hi
      | some p => rfl
  induction is with
  | nil => simp
  | cons i is ih =>
    have := hle is
    rw [List.countP_cons, List.countP_cons, List.any_cons, Bool.or_eq_true]
    refine Iff.trans ?_ (or_congr_right ih)
    cases hc : current h (F i) with
    | none => simp
    | some p =>
      cases hp : podReady p with
      | true => simp [hp]
      | false =>
        simp [hp]
        omega

theorem batch_subset {F : Fleet} {h : String} {n m i : Nat} (hi : i ∈ F.batch h n m) :
    i < n ∧ outdated h (F i) = true := by
  unfold batch at hi
  split_ifs at hi with hw
  · simp at hi
  · simpa [needsReplace] using List.mem_of_mem_take hi

/-! ## Slots with one pod -/

theorem pass_of_lt (F : Fleet) (h : String) (n m : Nat) (new : Nat → Option Pod) {i : Nat} (hi : i < n) :
    F.pass h n m new i = F.passSlot h n m new i := by
  unfold pass
  rw [if_pos (by omega), Int.toNat_natCast]

theorem pass_outside (F : Fleet) (h : String) (n m : Nat) (new : Nat → Option Pod) {k : Int} (hk : ¬(0 ≤ k ∧ k < n)) :
    F.pass h n m new k = [] := by
  unfold pass
  rw [if_neg hk]

theorem passSlot_nil {F : Fleet} {i : Nat} (hF : F i = []) (h : String) (n m : Nat) (new : Nat → Option Pod) :
    F.passSlot h n m new i = (new i).toList := by
  simp [passSlot, hF, current]

theorem passSlot_single {F : Fleet} {i : Nat} {p : Pod} (hF : F i = [p]) (h : String) (n m : Nat) (new : Nat → Option Pod) :
    F.passSlot h n m new i = if i ∈ F.batch h n m then (new i).toList else [p] := by
  unfold passSlot
  by_cases hp : p.hash = h
  · have hnb : i ∉ F.batch h n m := fun hb => by
      have ho := (batch_subset hb).2
      simp [hF, outdated, hp] at ho
    rw [hF, if_neg hnb, if_pos (by simp [current, hp])]
    simp [dedup, current, hp]
  · simp [hF, current, hp]

theorem passSlot_length_le {F : Fleet} {i : Nat} (hF : (F i).length ≤ 1) (h : String) (n m : Nat)
    (new : Nat → Option Pod) : (F.passSlot h n m new i).length ≤ 1 := by
  match hFi : F i with
  | [] =>
    rw [passSlot_nil hFi]
    exact Option.length_toList_le
  | [p] =>
    rw [passSlot_single hFi]
    split_ifs
    · exact Option.length_toList_le
    · exact Nat.le_refl 1
  | _ :: _ :: _ => simp [hFi] at hF

theorem pass_length_le {F : Fleet} (hF : ∀ k, (F k).length ≤ 1) (h : String) (n m : Nat) (new : Nat → Option Pod)
    (k : Int) : (F.pass h n m new k).length ≤ 1 := by
  by_cases hk : 0 ≤ k ∧ k < n
  · obtain ⟨i, rfl⟩ := Int.eq_ofNat_of_zero_le hk.1
    rw [pass_of_lt F h n m new (by omega)]
    exact passSlot_length_le (hF i) h n m new
  · simp [pass_outside F h n m new hk]

/-! ## Capacity -/

/-- No live Ready pod in slot `i`. -/
def unready (F : Fleet) (i : Nat) : Bool := !(F i).any podReady

/-- The number of slots of the window without a live Ready pod. -/
def unavailable (F : Fleet) (n : Nat) : Nat := (List.range n).countP F.unready

/-- Every slot of the window holds exactly one pod. -/
def Single (F : Fleet) (n : Nat) : Prop := ∀ i < n, ∃ p, F (i : Nat) = [p]

/-- Every slot of the window holds at most one pod. -/
def AtMostOne (F : Fleet) (n : Nat) : Prop := ∀ i < n, (F (i : Nat)).length ≤ 1

theorem Single.atMostOne {F : Fleet} {n : Nat} (hF : F.Single n) : F.AtMostOne n := by
  intro i hi
  obtain ⟨p, hp⟩ := hF i hi
  rw [hp]
  exact Nat.le_refl 1

theorem AtMostOne.cases {F : Fleet} {n : Nat} (hF : F.AtMostOne n) {i : Nat} (hi : i < n) :
    F i = [] ∨ ∃ p, F i = [p] := by
  have hlen := hF i hi
  rcases Nat.le_one_iff_eq_zero_or_eq_one.mp hlen with h0 | h1
  · exact .inl (List.length_eq_zero_iff.mp h0)
  · exact .inr (List.length_eq_one_iff.mp h1)

theorem AtMostOne.eq_singleton {F : Fleet} {n : Nat} (hF : F.AtMostOne n) {i : Nat} (hi : i < n) {p : Pod}
    (hp : p ∈ F (i : Nat)) : F (i : Nat) = [p] := by
  rcases hF.cases hi with hnil | ⟨q, hq⟩
  · simp [hnil] at hp
  · rw [hq, List.mem_singleton] at hp
    rw [hq, hp]

theorem AtMostOne.pass {F : Fleet} {n : Nat} (hF : F.AtMostOne n) (h : String) (m : Nat) (new : Nat → Option Pod) :
    (F.pass h n m new).AtMostOne n := by
  intro i hi
  rw [pass_of_lt F h n m new hi]
  exact passSlot_length_le (hF i hi) h n m new

theorem Single.pass {F : Fleet} {n : Nat} (hF : F.Single n) {h : String} {m : Nat} {new : Nat → Option Pod}
    (hnew : ∀ i ∈ F.batch h n m, (new i).isSome) : (F.pass h n m new).Single n := by
  intro i hi
  obtain ⟨p, hp⟩ := hF i hi
  rw [pass_of_lt F h n m new hi, passSlot_single hp]
  split_ifs with hb
  · obtain ⟨q, hq⟩ := Option.isSome_iff_exists.mp (hnew i hb)
    exact ⟨q, by rw [hq]; rfl⟩
  · exact ⟨p, rfl⟩

/-- The slots that are down after a pass: those of the batch, and those that were down. -/
theorem unready_pass {F : Fleet} {n : Nat} (hF : F.AtMostOne n) {new : Nat → Option Pod}
    (hnew : ∀ i, ∀ p ∈ new i, podReady p = false) (h : String) (m : Nat) {i : Nat} (hi : i < n) :
    (F.pass h n m new).unready i = (decide (i ∈ F.batch h n m) || F.unready i) := by
  have hfilled : ((new i).toList.any podReady) = false := by
    rw [List.any_eq_false]
    intro p hp
    simp [hnew i p (Option.mem_toList.mp hp)]
  unfold unready
  rw [pass_of_lt F h n m new hi]
  rcases hF.cases hi with hnil | ⟨p, hp⟩
  · rw [passSlot_nil hnil, hnil, hfilled]
    simp
  · rw [passSlot_single hp, hp]
    by_cases hb : i ∈ F.batch h n m
    · rw [if_pos hb, hfilled]
      simp [hb]
    · simp [hb]

theorem batch_nodup (F : Fleet) (h : String) (n m : Nat) : (F.batch h n m).Nodup := by
  unfold batch
  split_ifs
  · exact List.nodup_nil
  · exact (List.nodup_range.filter _).sublist (List.take_sublist _ _)

/-- Once the gate is open, a slot that is not Ready is an outdated one. -/
theorem mem_needsReplace_of_unready {F : Fleet} {h : String} {n : Nat} (hF : F.Single n)
    (hopen : F.waiting h n = false) {i : Nat} (hi : i < n) (hu : F.unready i = true) : i ∈ F.needsReplace h n := by
  obtain ⟨p, hp⟩ := hF i hi
  have hready : podReady p = false := by simpa [unready, hp] using hu
  have hne : p.hash ≠ h := fun he => by
    have hgate := List.any_eq_false.mp hopen i (List.mem_range.mpr hi)
    simp [hp, current, he, hready] at hgate
  simp [needsReplace, hi, hp, outdated, hne]

theorem unavailable_pass {F : Fleet} {n : Nat} (hF : F.AtMostOne n) {new : Nat → Option Pod}
    (hnew : ∀ i, ∀ p ∈ new i, podReady p = false) (h : String) (m : Nat) :
    (F.pass h n m new).unavailable n =
      ((List.range n).filter fun i => decide (i ∈ F.batch h n m) || F.unready i).length := by
  rw [unavailable, List.countP_eq_length_filter]
  congr 1
  exact List.filter_congr fun i hi => unready_pass hF hnew h m (List.mem_range.mp hi)

/-- A pass that starts within the budget ends within it if the gate is closed or every slot that is not Ready is among
the first `m` outdated ones, also if slots are left empty. -/
theorem unavailable_pass_le {F : Fleet} {n m : Nat} (hF : F.AtMostOne n) (hm : F.unavailable n ≤ m)
    {new : Nat → Option Pod} (hnew : ∀ i, ∀ p ∈ new i, podReady p = false) {h : String}
    (hall : F.waiting h n = false → ∀ i < n, F.unready i = true → i ∈ (F.needsReplace h n).take m) :
    (F.pass h n m new).unavailable n ≤ m := by
  rw [unavailable_pass hF hnew]
  cases hw : F.waiting h n with
  | true => simpa [batch, hw, unavailable, List.countP_eq_length_filter] using hm
  | false =>
    have hb : F.batch h n m = (F.needsReplace h n).take m := by simp [batch, hw]
    rw [hb]
    have hsub : ((List.range n).filter fun i => decide (i ∈ (F.needsReplace h n).take m) || F.unready i) ⊆
        (F.needsReplace h n).take m := by
      intro j hj
      obtain ⟨hjn, hj⟩ := List.mem_filter.mp hj
      rw [Bool.or_eq_true, decide_eq_true_iff] at hj
      exact hj.elim id (hall hw j (List.mem_range.mp hjn))
    refine (List.subperm_of_subset (List.nodup_range.filter _) hsub).length_le.trans ?_
    exact List.length_take_le _ _

/-- **The budget after a pass.** A pass over single pods that starts within the budget ends within it exactly when the
gate is closed or every slot that is not Ready is among the first `m` outdated ones. -/
theorem unavailable_pass_le_iff {F : Fleet} {n m : Nat} (hF : F.Single n) (hm : F.unavailable n ≤ m)
    {new : Nat → Option Pod} (hnew : ∀ i, ∀ p ∈ new i, podReady p = false) (h : String) :
    (F.pass h n m new).unavailable n ≤ m ↔
      (F.waiting h n = false → ∀ i < n, F.unready i = true → i ∈ (F.needsReplace h n).take m) := by
  refine ⟨fun hle hw i hi hu => ?_, unavailable_pass_le hF.atMostOne hm hnew⟩
  have hb : F.batch h n m = (F.needsReplace h n).take m := by simp [batch, hw]
  rw [unavailable_pass hF.atMostOne hnew, hb] at hle
  by_contra hout
  have hrep := mem_needsReplace_of_unready hF hw hi hu
  have hlen : m < (F.needsReplace h n).length := by
    by_contra hge
    rw [List.take_of_length_le (by omega)] at hout
    exact hout hrep
  -- the batch and the slot `i` are `m + 1` slots that are not Ready afterwards
  have hsub : i :: (F.needsReplace h n).take m ⊆
      (List.range n).filter fun i => decide (i ∈ (F.needsReplace h n).take m) || F.unready i := by
    intro j hj
    rcases List.mem_cons.mp hj with rfl | hj
    · simp [hi, hu]
    · have := (List.mem_filter.mp (List.mem_of_mem_take hj)).1
      simp [hj, List.mem_range.mp this]
  have hnd : (i :: (F.needsReplace h n).take m).Nodup :=
    List.nodup_cons.mpr ⟨hout, hb ▸ batch_nodup F h n m⟩
  have := (List.subperm_of_subset hnd hsub).length_le
  rw [List.length_cons, List.length_take] at this
  omega

end Fleet

end KynoMesh.Pods
