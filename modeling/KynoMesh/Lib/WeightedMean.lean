import Mathlib.Algebra.BigOperators.Ring.List
import Mathlib.Algebra.Order.BigOperators.Group.List
import Mathlib.Algebra.Order.Field.Basic

/-!
# Weighted means

Means of a list with positive weights, in an ordered field.

* `weightedMean_lt`, `lt_weightedMean` : a mean is strictly between strict bounds of its values;
* `exists_weightedMean_le`, `exists_le_weightedMean` : it is between two of them;
* `weightedMean_lt_weightedMean` : if all values of one list are below all values of another, so are their means.
-/

namespace KynoMesh.Lib

variable {α K : Type} [Field K] [LinearOrder K] [IsStrictOrderedRing K]

/-- The mean of `x` over `l`, with the weights `w`. -/
def weightedMean (w x : α → K) (l : List α) : K := (l.map fun a => x a * w a).sum / (l.map w).sum

variable {w x : α → K} {l : List α} {c : K}

theorem sum_weights_pos (hw : ∀ a ∈ l, 0 < w a) (hl : l ≠ []) : 0 < (l.map w).sum := by
  have h := List.sum_lt_sum_of_ne_nil hl (fun _ => (0 : K)) w hw
  simpa using h

theorem weightedMean_lt (hw : ∀ a ∈ l, 0 < w a) (hl : l ≠ []) (hx : ∀ a ∈ l, x a < c) : weightedMean w x l < c := by
  rw [weightedMean, div_lt_iff₀ (sum_weights_pos hw hl), ← List.sum_map_mul_left]
  exact List.sum_lt_sum_of_ne_nil hl _ _ fun a ha => mul_lt_mul_of_pos_right (hx a ha) (hw a ha)

theorem lt_weightedMean (hw : ∀ a ∈ l, 0 < w a) (hl : l ≠ []) (hx : ∀ a ∈ l, c < x a) : c < weightedMean w x l := by
  rw [weightedMean, lt_div_iff₀ (sum_weights_pos hw hl), ← List.sum_map_mul_left]
  exact List.sum_lt_sum_of_ne_nil hl _ _ fun a ha => mul_lt_mul_of_pos_right (hx a ha) (hw a ha)

theorem exists_weightedMean_le (hw : ∀ a ∈ l, 0 < w a) (hl : l ≠ []) : ∃ a ∈ l, weightedMean w x l ≤ x a := by
  by_contra h
  push Not at h
  exact lt_irrefl _ (weightedMean_lt hw hl h)

theorem exists_le_weightedMean (hw : ∀ a ∈ l, 0 < w a) (hl : l ≠ []) : ∃ a ∈ l, x a ≤ weightedMean w x l := by
  by_contra h
  push Not at h
  exact lt_irrefl _ (lt_weightedMean hw hl h)

theorem weightedMean_lt_weightedMean {m : List α} (hw : ∀ a ∈ l, 0 < w a) (hl : l ≠ []) (hwm : ∀ b ∈ m, 0 < w b)
    (hm : m ≠ []) (h : ∀ a ∈ l, ∀ b ∈ m, x a < x b) : weightedMean w x l < weightedMean w x m := by
  obtain ⟨a, ha, hle⟩ := exists_weightedMean_le hw hl
  exact lt_of_le_of_lt hle (lt_weightedMean hwm hm (h a ha))

end KynoMesh.Lib
