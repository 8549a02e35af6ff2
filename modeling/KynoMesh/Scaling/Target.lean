import Mathlib.Tactic.FieldSimp
import Mathlib.Tactic.Ring
import KynoMesh.Scaling.Knee

/-!
# The target of a decision, in exact arithmetic

`scalingTarget` blends the default knee with the learned one and discounts the product; both depend on the confidence.

* `scalingTarget_eq` : the target of a confidence from 0 to 1;
* `scalingTarget_mono_saturation` : a higher saturation lever never lowers the target;
* `goalOf`, `toInt_desired` : the count that a load asks for, and when the `int32` of `Decide` is this count;
* `Fits` : the count fits `int32` before the bounds are applied;
* `provisions_iff` : when a lower confidence does not lower the count.
-/

namespace KynoMesh.Scaling

open KynoMesh.Lib KynoMesh.Api KynoMesh.History

variable {K : Type} [Field K] [LinearOrder K] [IsStrictOrderedRing K]

/-! ## The target -/

theorem targetSaturation_pos (s : Scale) : (0 : K) < targetSaturation s := by
  have hpos : ∀ p : UInt32, p ≠ 0 → 0 < p.toNat := by
    intro p hp
    rw [Nat.pos_iff_ne_zero, Ne, ← UInt32.toNat_zero, UInt32.toNat_inj]
    exact hp
  unfold targetSaturation ratio
  dsimp only
  refine div_pos (Int.cast_pos.mpr (Nat.cast_pos.mpr (hpos _ ?_))) (by norm_num)
  split_ifs <;> first | decide | assumption

omit [LinearOrder K] [IsStrictOrderedRing K] in
theorem targetSaturation_some {s : Scale} {p : UInt32} (h1 : 1 ≤ p) (h100 : p ≤ 100) :
    (targetSaturation { s with targetSaturationPercentage := some p } : K) = (p.toNat : K) / 100 := by
  have hne : ¬p = 0 := by
    rintro rfl
    exact absurd h1 (by decide)
  have hle : ¬p > 100 := UInt32.not_lt.mpr h100
  unfold targetSaturation ratio getOr
  simp only [Option.getD_some, hne, if_false, hle]
  norm_num

omit [IsStrictOrderedRing K] in
theorem clampF_of_mem {c : K} (h0 : 0 ≤ c) (h1 : c ≤ 1) : clampF c 0 ((1 : Int) : K) = c := by
  unfold clampF
  rw [Int.cast_one, min_eq_right h1, max_eq_right h0]

/-- The target before its floor, of a knee `k` learned with the confidence `c`. -/
def aim (s : Scale) (k c : K) : K := targetSaturation s * ((20 + (k - 20) * c) * (3 / 5 + 2 / 5 * c))

theorem scalingTarget_eq (inp : Inputs K) {est : Estimate K} (h0 : 0 ≤ est.confidence) (h1 : est.confidence ≤ 1) :
    scalingTarget inp est = max (aim inp.spec est.kneePerReplica est.confidence) (1 / 10 ^ 9) := by
  unfold scalingTarget lerp
  rw [clampF_of_mem h0 h1]
  unfold defaultKneePerReplica confFloor ratio aim
  have hdiscount : ((6 : Int) : K) / ((10 : Int) : K) = 3 / 5 := by norm_num
  have hfloor : ((1 : Int) : K) / ((1000000000 : Int) : K) = 1 / 10 ^ 9 := by norm_num
  rw [hdiscount, hfloor]
  refine congrArg₂ max ?_ rfl
  push_cast
  ring

theorem aim_sub_aim (s : Scale) (k c c' : K) :
    aim s k c' - aim s k c = targetSaturation s * ((c' - c) * (8 + (k - 20) * (3 / 5 + 2 / 5 * (c + c')))) := by
  unfold aim
  ring

theorem aim_le_aim_iff (s : Scale) (k : K) {c c' : K} (hle : c ≤ c') :
    aim s k c ≤ aim s k c' ↔ c = c' ∨ 0 ≤ 8 + (k - 20) * (3 / 5 + 2 / 5 * (c + c')) := by
  rw [← sub_nonneg, aim_sub_aim, mul_nonneg_iff_of_pos_left (targetSaturation_pos s)]
  rcases hle.eq_or_lt with rfl | hlt
  · simp
  · rw [mul_nonneg_iff_of_pos_left (sub_pos.mpr hlt)]
    exact ⟨.inr, fun h => h.resolve_left hlt.ne⟩

omit [Field K] [IsStrictOrderedRing K] in
/-- A floor hides a decrease exactly below it. -/
theorem max_le_max_iff {a b m : K} : max a m ≤ max b m ↔ a ≤ b ∨ a ≤ m := by
  rw [max_le_iff, le_max_iff, and_iff_left (le_max_right b m)]

/-- A higher saturation lever never lowers the target. -/
theorem scalingTarget_mono_saturation (inp : Inputs K) {est : Estimate K} (h0 : 0 ≤ est.confidence)
    (h1 : est.confidence ≤ 1) (hk : 0 ≤ est.kneePerReplica) {p q : UInt32} (hp : 1 ≤ p) (hpq : p ≤ q) (hq : q ≤ 100) :
    scalingTarget { inp with spec := { inp.spec with targetSaturationPercentage := some p } } est ≤
      scalingTarget { inp with spec := { inp.spec with targetSaturationPercentage := some q } } est := by
  rw [scalingTarget_eq _ h0 h1, scalingTarget_eq _ h0 h1]
  refine max_le_max_right _ ?_
  unfold aim
  dsimp only
  rw [targetSaturation_some hp (UInt32.le_trans hpq hq), targetSaturation_some (UInt32.le_trans hp hpq) hq]
  have hblend : 0 ≤ 20 + (est.kneePerReplica - 20) * est.confidence := by nlinarith
  have hdiscount : 0 ≤ 3 / 5 + 2 / 5 * est.confidence := by linarith
  have hcast : (p.toNat : K) ≤ q.toNat := Nat.cast_le.mpr (UInt32.le_iff_toNat_le.mp hpq)
  gcongr

/-! ## The count -/

section
variable [FloorRing K]

/-- The count that the load `T` asks for at a target, within the bounds of a scale block. -/
def goalOf (s : Scale) (T target : K) : Int := max (minMax s).1.toInt (min (minMax s).2.toInt ⌈T / target⌉)

omit [IsStrictOrderedRing K] [FloorRing K] in
/-- The `desired` of `Decide`. -/
def desired (math : GoMath K) (s : Scale) (T target : K) : Int32 :=
  clamp (math.ceilInt32 (T / target)) (minMax s).1 (minMax s).2

/-- The estimate that a decision is made with. -/
def Inputs.estimate (l : Learner K) (inp : Inputs K) : Option (Estimate K) :=
  estimateKnee l.math l.byTime l.byInflight inp.history inp.now

/-- The quotient of the load and the target fits `int32`. -/
def Fits (l : Learner K) (inp : Inputs K) : Prop :=
  ∀ est, inp.estimate l = some est → inp.totalInflight / scalingTarget inp est ≤ 2 ^ 31 - 1

omit [IsStrictOrderedRing K] in
theorem goalOf_mem (s : Scale) (T target : K) :
    (minMax s).1.toInt ≤ goalOf s T target ∧ goalOf s T target ≤ (minMax s).2.toInt := by
  have := (minMax_le s).2
  unfold goalOf
  omega

theorem toInt_clamp {v lo hi : Int32} (h : lo.toInt ≤ hi.toInt) :
    (clamp v lo hi).toInt = max lo.toInt (min hi.toInt v.toInt) := by
  unfold clamp
  split_ifs with hlo hhi
  · rw [Int32.lt_iff_toInt_lt] at hlo
    omega
  · rw [gt_iff_lt, Int32.lt_iff_toInt_lt] at hhi
    omega
  · rw [Int32.lt_iff_toInt_lt] at hlo
    rw [gt_iff_lt, Int32.lt_iff_toInt_lt] at hhi
    omega

omit [IsStrictOrderedRing K] in
theorem toInt_desired {math : GoMath K} (hm : math.Exact) (s : Scale) {T target : K} (h0 : 0 ≤ ⌈T / target⌉)
    (hfit : ⌈T / target⌉ < 2 ^ 31) : (desired math s T target).toInt = goalOf s T target := by
  unfold desired goalOf
  rw [toInt_clamp (minMax_le s).2, hm.toInt_ceilInt32 (by omega) hfit]

theorem ceil_div_nonneg {T target : K} (hT : 0 ≤ T) (htarget : 0 < target) : 0 ≤ ⌈T / target⌉ :=
  Int.ceil_nonneg (div_nonneg hT htarget.le)

/-- Of a heavier load, or at a lower target, the count is not lower. -/
theorem ceil_div_mono {T T' target target' : K} (hT : 0 ≤ T) (hTT : T ≤ T') (htarget : 0 < target)
    (hle : target ≤ target') : ⌈T / target'⌉ ≤ ⌈T' / target⌉ :=
  Int.ceil_le_ceil (div_le_div₀ (hT.trans hTT) hTT htarget hle)

theorem goalOf_mono (s : Scale) {T T' target target' : K} (hT : 0 ≤ T) (hTT : T ≤ T') (htarget : 0 < target)
    (hle : target ≤ target') : goalOf s T target' ≤ goalOf s T' target := by
  have := ceil_div_mono hT hTT htarget hle
  unfold goalOf
  omega

/-- A lower confidence, with the estimate `est` for `est'`, lowers neither the count that a load asks for nor the
`desired` of `Decide` while the quotient fits its `int32`. -/
structure Provisions (math : GoMath K) (inp : Inputs K) (est est' : Estimate K) : Prop where
  target_le : scalingTarget inp est ≤ scalingTarget inp est'
  goal_le : ∀ T, 0 ≤ T → goalOf inp.spec T (scalingTarget inp est') ≤ goalOf inp.spec T (scalingTarget inp est)
  desired_le : ∀ T, 0 ≤ T → ⌈T / scalingTarget inp est⌉ < 2 ^ 31 →
    (desired math inp.spec T (scalingTarget inp est')).toInt ≤ (desired math inp.spec T (scalingTarget inp est)).toInt

theorem provisions_of_target_le {math : GoMath K} (hm : math.Exact) {inp : Inputs K} {est est' : Estimate K}
    (h : scalingTarget inp est ≤ scalingTarget inp est') : Provisions math inp est est' where
  target_le := h
  goal_le := fun _ hT => goalOf_mono inp.spec hT le_rfl (scalingTarget_pos inp est) h
  desired_le := by
    intro T hT hfit
    have hpos := scalingTarget_pos inp est
    have hle := ceil_div_mono hT le_rfl hpos h
    rw [toInt_desired hm inp.spec (ceil_div_nonneg hT hpos) hfit,
      toInt_desired hm inp.spec (ceil_div_nonneg hT (scalingTarget_pos inp est')) (by omega)]
    exact goalOf_mono inp.spec hT le_rfl hpos h

/-- **When less confidence does not provision less.** The blend with the default knee lowers the target only towards a
learned knee that is higher than the default, or not much lower; towards a lower one, the discount does not make up for
it. -/
theorem provisions_iff {math : GoMath K} (hm : math.Exact) (inp : Inputs K) {k c c' : K} (h0 : 0 ≤ c) (hle : c ≤ c')
    (h1 : c' ≤ 1) (b b' : Bool) : Provisions math inp ⟨k, b, c⟩ ⟨k, b', c'⟩ ↔
      c = c' ∨ 0 ≤ 8 + (k - 20) * (3 / 5 + 2 / 5 * (c + c')) ∨
        targetSaturation inp.spec * ((20 + (k - 20) * c) * (3 / 5 + 2 / 5 * c)) ≤ 1 / 10 ^ 9 := by
  have htarget : scalingTarget inp ⟨k, b, c⟩ ≤ scalingTarget inp ⟨k, b', c'⟩ ↔
      (c = c' ∨ 0 ≤ 8 + (k - 20) * (3 / 5 + 2 / 5 * (c + c'))) ∨ aim inp.spec k c ≤ 1 / 10 ^ 9 := by
    rw [scalingTarget_eq inp h0 (hle.trans h1), scalingTarget_eq inp (h0.trans hle) h1, max_le_max_iff,
      aim_le_aim_iff inp.spec k hle]
  rw [← or_assoc]
  exact ⟨fun h => htarget.mp h.target_le, fun h => provisions_of_target_le hm (htarget.mpr h)⟩

/-- A knee of 20 was learned with half the confidence, and then with all of it. -/
theorem provisions_twenty : Provisions Loop.ratMath (Inputs.mk 1 1 [] ⟨0, 1, 100, 1⟩ {} 0 0 0) ⟨20, true, 1 / 2⟩
    ⟨20, false, 1⟩ :=
  (provisions_iff ratMath_exact _ (by norm_num) (by norm_num) le_rfl true false).mpr (.inr (.inl (by norm_num)))

/-- A replica that saturates at one request in flight. Without any confidence in it, a load of 21 gets three replicas at
the default saturation; with full confidence, it gets 27. -/
theorem unsure_provisions_less :
    ¬Provisions Loop.ratMath (Inputs.mk 1 1 [] ⟨0, 1, 21, 1⟩ { max := some 100 } 0 0 0) ⟨1, true, 0⟩ ⟨1, true, 1⟩ ∧
    desired Loop.ratMath { max := some 100 } 21
      (scalingTarget (Inputs.mk 1 1 [] ⟨0, 1, 21, 1⟩ { max := some 100 } 0 0 0) ⟨1, true, 0⟩) = 3 ∧
    desired Loop.ratMath { max := some 100 } 21
      (scalingTarget (Inputs.mk 1 1 [] ⟨0, 1, 21, 1⟩ { max := some 100 } 0 0 0) ⟨1, true, 1⟩) = 27 := by
  refine ⟨fun h => absurd h.target_le ?_, ?_, ?_⟩
  · decide +kernel
  · decide +kernel
  · decide +kernel

end

end KynoMesh.Scaling
