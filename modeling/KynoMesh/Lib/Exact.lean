import Mathlib.Algebra.Order.Floor.Ring
import Mathlib.Data.Rat.Floor
import KynoMesh.Lib.GoStd

/-!
# Exact numbers

`GoMath.Exact` : numbers that are computed without rounding, in an ordered field with a floor. No number is NaN; the
conversions to integers are those of Go on amd64, where a number outside the `int32` range becomes the least `int32`; of
the exponential only the sign is known.
-/

namespace KynoMesh.Lib

variable {K : Type} [Field K] [LinearOrder K] [FloorRing K]

structure GoMath.Exact (math : GoMath K) : Prop where
  isNaN_eq : ∀ x, math.isNaN x = false
  ceilInt32_eq : ∀ x, math.ceilInt32 x =
    if -2 ^ 31 ≤ ⌈x⌉ ∧ ⌈x⌉ < 2 ^ 31 then Int32.ofInt ⌈x⌉ else Int32.minValue
  truncInt_eq : ∀ x, math.truncInt x = if 0 ≤ x then ⌊x⌋ else ⌈x⌉
  exp_pos : ∀ x, 0 < math.exp x
  ln2_pos : 0 < math.ln2

namespace GoMath.Exact
variable {math : GoMath K} (h : math.Exact)
include h

theorem toInt_ceilInt32 {x : K} (hlo : -2 ^ 31 ≤ ⌈x⌉) (hhi : ⌈x⌉ < 2 ^ 31) : (math.ceilInt32 x).toInt = ⌈x⌉ := by
  rw [h.ceilInt32_eq, if_pos ⟨hlo, hhi⟩]
  exact Int32.toInt_ofInt_of_le hlo hhi

theorem toInt_ceilInt32_of_le {x : K} (hx : 2 ^ 31 ≤ ⌈x⌉) : (math.ceilInt32 x).toInt = -2 ^ 31 := by
  rw [h.ceilInt32_eq, if_neg fun hin => absurd hin.2 (not_lt.mpr hx)]
  rfl

end GoMath.Exact

end KynoMesh.Lib
