import Mathlib.Algebra.BigOperators.Field
import Mathlib.Algebra.Order.BigOperators.Group.Finset
import Mathlib.Algebra.Order.Field.Basic
import Mathlib.Data.Finset.Max
import Mathlib.Tactic.Linarith
import Mathlib.Tactic.Ring

/-!
# Averages of step functions

A step function is observed over a span of its own and changes only at its marks.

* `StepFn.avg` : the average over the span;
* `InStep f g` : at a mark of `f`, no larger part of the span of `f` has passed than of the span of `g` at any of its
  marks from there on;
* `passed_iff`, `InStep.lt_of_passed` : what has passed at a phase, a part of all spans at once;
* `exists_common` : at every phase, functions that are in step with each other take the values of that phase at one
  common instant;
* `exists_sum_avg_le` : hence at some instant the sum of their values is no less than the sum of their averages.
-/

namespace KynoMesh.Lib

open Finset

/-- A function of time, observed from `start` on over `length` units, that is constant between its marks. -/
structure StepFn (F : Type) where
  start : Int
  length : Nat
  length_pos : 0 < length
  marks : List Int
  start_mem : start ∈ marks
  stop_mem : start + length ∈ marks
  val : Int → F
  const : ∀ {x y}, start ≤ x → x ≤ y → y < start + length → (∀ m ∈ marks, x < m → y < m) → val x = val y

variable {F : Type}

/-- A mark of `f` is passed no later, in parts of the span, than the marks of `g` from there on. -/
def InStep (f g : StepFn F) : Prop :=
  ∀ s ∈ f.marks, ∀ t ∈ g.marks, s ≤ t → (s - f.start) * g.length ≤ (t - g.start) * f.length

/-! ## Phases -/

/-- At the phase `j` of `n`, the part of the span of `f` up to `m` has passed. -/
def Passed (f : StepFn F) (n j : Nat) (m : Int) : Prop := (m - f.start) * n ≤ j * f.length

instance (f : StepFn F) (n j : Nat) (m : Int) : Decidable (Passed f n j m) := inferInstanceAs (Decidable (_ ≤ _))

theorem passed_start (f : StepFn F) (n j : Nat) : Passed f n j f.start := by
  unfold Passed
  rw [sub_self, zero_mul]
  positivity

theorem not_passed_stop (f : StepFn F) {n j : Nat} (hj : j < n) : ¬Passed f n j (f.start + f.length) := by
  have hlt : (j : Int) < n := by exact_mod_cast hj
  have hpos : (0 : Int) < f.length := by exact_mod_cast f.length_pos
  unfold Passed
  rw [add_sub_cancel_left, mul_comm (f.length : Int), not_le]
  gcongr

/-- With a whole number of phases for each unit of time, a part has passed exactly when its end is not after the unit
that the phase is in. -/
theorem passed_iff (f : StepFn F) {n j : Nat} (hj : j < n) (hdvd : f.length ∣ n) (m : Int) :
    Passed f n j m ↔ m ≤ f.start + ((j / (n / f.length) : Nat) : Int) := by
  obtain ⟨c, rfl⟩ := hdvd
  have hpos := f.length_pos
  have hc : 0 < c := Nat.pos_of_mul_pos_left (Nat.zero_lt_of_lt hj)
  have hfpos : (0 : Int) < f.length := by exact_mod_cast hpos
  have hcancel : Passed f (f.length * c) j m ↔ (m - f.start) * c ≤ j := by
    unfold Passed
    rw [Nat.cast_mul, mul_comm (f.length : Int) c, ← mul_assoc, mul_le_mul_iff_left₀ hfpos]
  rw [hcancel, Nat.mul_div_cancel_left c hpos, ← Int.le_ediv_iff_mul_le (by exact_mod_cast hc), Int.natCast_div]
  omega

/-- The marks of functions that are in step are passed in their order. -/
theorem InStep.lt_of_passed {f g : StepFn F} (h : InStep f g) {n j : Nat} {m t : Int} (hm : m ∈ f.marks)
    (ht : t ∈ g.marks) (hpassed : Passed g n j t) (hnot : ¬Passed f n j m) : t < m := by
  have hgpos : (0 : Int) < g.length := by exact_mod_cast g.length_pos
  by_contra hle
  refine hnot (le_of_mul_le_mul_right ?_ hgpos)
  calc (m - f.start) * n * g.length = (m - f.start) * g.length * n := by ring
    _ ≤ (t - g.start) * f.length * n :=
      mul_le_mul_of_nonneg_right (h m hm t ht (not_lt.mp hle)) (Int.natCast_nonneg n)
    _ = (t - g.start) * n * f.length := by ring
    _ ≤ j * g.length * f.length := mul_le_mul_of_nonneg_right hpassed (Int.natCast_nonneg _)
    _ = j * f.length * g.length := by ring

/-- The last mark that is passed at a phase. -/
theorem exists_last_passed {fs : List (StepFn F)} (hne : fs ≠ []) (n j : Nat) :
    ∃ t, (∃ g ∈ fs, t ∈ g.marks ∧ Passed g n j t) ∧ ∀ f ∈ fs, ∀ m ∈ f.marks, Passed f n j m → m ≤ t := by
  let passed : Finset Int := (fs.flatMap fun f => f.marks.filter fun m => Passed f n j m).toFinset
  have hmem : ∀ {m : Int}, m ∈ passed ↔ ∃ f ∈ fs, m ∈ f.marks ∧ Passed f n j m := by
    intro m
    simp [passed, List.mem_flatMap, List.mem_filter]
  obtain ⟨f, hf⟩ := List.exists_mem_of_ne_nil fs hne
  obtain ⟨t, ht, hmax⟩ := exists_max_image passed id ⟨_, hmem.mpr ⟨f, hf, f.start_mem, passed_start f n j⟩⟩
  exact ⟨t, hmem.mp ht, fun f hf m hm hp => hmax m (hmem.mpr ⟨f, hf, hm, hp⟩)⟩

/-- **A common instant.** At the phase `j` of `n`, the functions that are in step with each other take their values at
one instant. -/
theorem exists_common {fs : List (StepFn F)} (hne : fs ≠ []) (hstep : ∀ f ∈ fs, ∀ g ∈ fs, InStep f g) {n j : Nat}
    (hj : j < n) (hdvd : ∀ f ∈ fs, f.length ∣ n) :
    ∃ t, ∀ f ∈ fs, f.start ≤ t ∧ f.val (f.start + ((j / (n / f.length) : Nat) : Int)) = f.val t := by
  obtain ⟨t, ⟨g, hg, htg, htj⟩, hlast⟩ := exists_last_passed hne n j
  refine ⟨t, fun f hf => ?_⟩
  have hstart : f.start ≤ t := hlast f hf _ f.start_mem (passed_start f n j)
  refine ⟨hstart, ?_⟩
  -- no mark of `f` beyond this phase is at or before `t`
  have hbeyond : ∀ m ∈ f.marks, ¬Passed f n j m → t < m :=
    fun m hm hnot => (hstep f hf g hg).lt_of_passed hm htg htj hnot
  have hstop : t < f.start + f.length := hbeyond _ f.stop_mem (not_passed_stop f hj)
  have hpassed := passed_iff f hj (hdvd f hf)
  have hin : f.start + ((j / (n / f.length) : Nat) : Int) < f.start + f.length := by
    rw [← not_le, ← hpassed]
    exact not_passed_stop f hj
  rcases le_total (f.start + ((j / (n / f.length) : Nat) : Int)) t with hxt | htx
  · refine f.const (le_add_of_nonneg_right (Int.natCast_nonneg _)) hxt hstop fun m hm hlt => hbeyond m hm ?_
    rw [hpassed]
    omega
  · refine (f.const hstart htx hin fun m hm hlt => ?_).symm
    by_contra hle
    have := hlast f hf m hm ((hpassed m).mpr (not_lt.mp hle))
    omega

/-! ## Averages -/

variable [Field F] [LinearOrder F] [IsStrictOrderedRing F]

omit [LinearOrder F] [IsStrictOrderedRing F] in
theorem sum_range_mul_div {c : Nat} (hc : 0 < c) (n : Nat) (g : Nat → F) :
    ∑ j ∈ range (n * c), g (j / c) = c * ∑ i ∈ range n, g i := by
  induction n with
  | zero => simp
  | succ n ih =>
    rw [Nat.succ_mul, sum_range_add, ih, sum_range_succ, mul_add]
    congr 1
    have hconst : ∀ i ∈ range c, g ((n * c + i) / c) = g n := by
      intro i hi
      rw [Nat.add_comm, Nat.add_mul_div_right _ _ hc, Nat.div_eq_of_lt (mem_range.mp hi), Nat.zero_add]
    rw [sum_congr rfl hconst, sum_const, card_range, nsmul_eq_mul]

namespace StepFn

/-- The average over the span. -/
def avg (f : StepFn F) : F := (∑ i ∈ range f.length, f.val (f.start + (i : Int))) / (f.length : F)

omit [LinearOrder F] [IsStrictOrderedRing F] in
theorem sum_phases [CharZero F] (f : StepFn F) {n : Nat} (hn : 0 < n) (hdvd : f.length ∣ n) :
    ∑ j ∈ range n, f.val (f.start + ((j / (n / f.length) : Nat) : Int)) = n * f.avg := by
  obtain ⟨c, rfl⟩ := hdvd
  have hpos := f.length_pos
  have hc : 0 < c := Nat.pos_of_mul_pos_left hn
  have hne : (f.length : F) ≠ 0 := Nat.cast_ne_zero.mpr (by omega)
  rw [Nat.mul_div_cancel_left _ hpos, sum_range_mul_div hc f.length fun i => f.val (f.start + (i : Int)), avg]
  rw [Nat.cast_mul, mul_comm (f.length : F) (c : F), mul_assoc, mul_div_cancel₀ _ hne]

end StepFn

/-- **Some instant is no less than average.** -/
theorem exists_sum_avg_le {fs : List (StepFn F)} (hne : fs ≠ []) (hstep : ∀ f ∈ fs, ∀ g ∈ fs, InStep f g) :
    ∃ t, (∀ f ∈ fs, f.start ≤ t) ∧ (fs.map StepFn.avg).sum ≤ (fs.map fun f => f.val t).sum := by
  set n := (fs.map StepFn.length).prod with hn
  have hpos : 0 < n := by
    rw [hn, Nat.pos_iff_ne_zero, Ne, List.prod_eq_zero_iff, List.mem_map]
    rintro ⟨f, -, hf⟩
    exact absurd f.length_pos (by omega)
  have hdvd : ∀ f ∈ fs, f.length ∣ n := fun f hf => List.dvd_prod (List.mem_map_of_mem hf)
  -- at each phase there is a common instant; their loads sum up to the averages
  have hinstant : ∀ j, ∃ t, j ∈ range n → ∀ f ∈ fs, f.start ≤ t ∧
      f.val (f.start + ((j / (n / f.length) : Nat) : Int)) = f.val t := by
    intro j
    by_cases hj : j ∈ range n
    · obtain ⟨t, ht⟩ := exists_common hne hstep (mem_range.mp hj) hdvd
      exact ⟨t, fun _ => ht⟩
    · exact ⟨0, fun h => absurd h hj⟩
  choose instant hcommon using hinstant
  have hsum : ∑ j ∈ range n, (fs.map fun f => f.val (instant j)).sum = n * (fs.map StepFn.avg).sum := by
    have hphase : ∀ j ∈ range n, (fs.map fun f => f.val (instant j)).sum =
        (fs.map fun f => f.val (f.start + ((j / (n / f.length) : Nat) : Int))).sum := by
      intro j hj
      congr 1
      apply List.map_congr_left
      intro f hf
      exact (hcommon j hj f hf).2.symm
    rw [sum_congr rfl hphase]
    clear_value n
    clear hphase hcommon hn hne hstep
    induction fs with
    | nil => simp
    | cons f fs ih =>
      simp only [List.map_cons, List.sum_cons]
      rw [sum_add_distrib, ih fun g hg => hdvd g (List.mem_cons_of_mem _ hg),
        f.sum_phases hpos (hdvd f List.mem_cons_self),
        mul_add]
  have hle : ∑ _j ∈ range n, (fs.map StepFn.avg).sum ≤ ∑ j ∈ range n, (fs.map fun f => f.val (instant j)).sum := by
    rw [hsum, sum_const, card_range, nsmul_eq_mul]
  obtain ⟨j, hj, hle⟩ := exists_le_of_sum_le ⟨0, mem_range.mpr hpos⟩ hle
  exact ⟨instant j, fun f hf => (hcommon j hj f hf).1, hle⟩

end KynoMesh.Lib
