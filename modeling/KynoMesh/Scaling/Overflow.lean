import KynoMesh.Scaling.Settle

/-!
# Decisions over the whole range of the API

The step caps are any `uint32`, which `Decide` narrows to `int32`, and the quotient of the load and the target is any
number, which it narrows before it clamps. Both conversions are those of Go on amd64.

* `toInt_sub_cap`, `toInt_add_cap` : a step with a cap that became negative goes the other way;
* `Safe` : what a decision must not do;
* `decide_safe_iff` : for which inputs it does not.
-/

namespace KynoMesh.Scaling

open KynoMesh.Lib KynoMesh.Api KynoMesh.History

/-! ## Caps that do not fit -/

section
variable {cur : Int32} {cap : UInt32}

theorem toInt_toInt32_of_le (h : 2 ^ 31 ≤ cap.toNat) : cap.toInt32.toInt = cap.toNat - 2 ^ 32 := by
  have hlt := cap.toNat_lt
  change cap.toBitVec.toInt = _
  rw [BitVec.toInt_eq_toNat_cond, if_neg (by change ¬2 * cap.toNat < 2 ^ 32; omega)]
  rfl

/-- A step down with a negative cap is a step up, which may wrap around. -/
theorem toInt_sub_cap (hcap : 2 ^ 31 ≤ cap.toNat) (hcur : 0 ≤ cur.toInt) : (cur - cap.toInt32).toInt =
    if cur.toInt + (2 ^ 32 - cap.toNat) < 2 ^ 31 then cur.toInt + (2 ^ 32 - cap.toNat) else cur.toInt - cap.toNat := by
  have hlt := cap.toNat_lt
  have hc := cur.toInt_lt
  rw [Int32.toInt_sub, toInt_toInt32_of_le hcap]
  split_ifs with h
  · rw [Int.bmod_eq_of_le (by omega) (by omega)]
    omega
  · rw [← Int.sub_bmod_right, Int.bmod_eq_of_le (by omega) (by omega)]
    omega

theorem toInt_add_cap (hcap : 2 ^ 31 ≤ cap.toNat) (hcur : 0 ≤ cur.toInt) :
    (cur + cap.toInt32).toInt = cur.toInt + cap.toNat - 2 ^ 32 := by
  have hlt := cap.toNat_lt
  have hc := cur.toInt_lt
  rw [toInt_add_of_mem, toInt_toInt32_of_le hcap]
  · omega
  · rw [toInt_toInt32_of_le hcap]
    omega
  · rw [toInt_toInt32_of_le hcap]
    omega

theorem min_toInt32_of_le {d : Int32} (hcap : 2 ^ 31 ≤ cap.toNat) (hd : 0 ≤ d.toInt) :
    min d cap.toInt32 = cap.toInt32 := by
  have hlt := cap.toNat_lt
  rw [← Int32.toInt_inj, toInt_min, toInt_toInt32_of_le hcap]
  omega

theorem toInt_lower_cap {d : Int32} (hcap : 2 ^ 31 ≤ cap.toNat) (hd : 0 ≤ d.toInt)
    (hlt : d.toInt < cur.toInt) : (cur - min (cur - d) cap.toInt32).toInt =
      if cur.toInt + (2 ^ 32 - cap.toNat) < 2 ^ 31 then cur.toInt + (2 ^ 32 - cap.toNat)
      else cur.toInt - cap.toNat := by
  have hc := cur.toInt_lt
  have hdiff : 0 ≤ (cur - d).toInt := by
    rw [toInt_sub_of_mem (by omega) (by omega)]
    omega
  rw [min_toInt32_of_le hcap hdiff, toInt_sub_cap hcap (by omega)]

end

/-! ## Safe decisions -/

variable {K : Type} [Field K] [LinearOrder K] [IsStrictOrderedRing K] [FloorRing K]

/-- The count `n` is a safe answer: it is within the bounds, not on the wrong side of the current count, and no further
from it than the step cap of its direction. -/
@[mk_iff]
structure Safe (inp : Inputs K) (est : Estimate K) (n : Int32) : Prop where
  ge_min : (minMax inp.spec).1.toInt ≤ n.toInt
  le_max : n.toInt ≤ (minMax inp.spec).2.toInt
  not_above : inp.totalInflight = 0 ∨ inp.goal est ≤ inp.currentReplicas.toInt → n.toInt ≤ inp.currentReplicas.toInt
  not_below : inp.currentReplicas.toInt ≤ inp.goal est → inp.currentReplicas.toInt ≤ n.toInt
  up_le : n.toInt - inp.currentReplicas.toInt ≤ (replicasPerScaleUp inp.spec).toNat
  down_le : inp.currentReplicas.toInt - n.toInt ≤ (replicasPerScaleDown inp.spec).toNat

/-- Without load: the fleet is at its lower bound, or its cooldown runs, or the cap fits; or else the step up that the
negative cap makes of a step down wraps around to the lower bound. -/
def IdleSafe (inp : Inputs K) : Prop :=
  inp.currentReplicas.toInt = (minMax inp.spec).1.toInt ∨ inp.downHeld ∨
    (replicasPerScaleDown inp.spec).toNat < 2 ^ 31 ∨
    2 ^ 31 ≤ inp.currentReplicas.toInt + (2 ^ 32 - (replicasPerScaleDown inp.spec).toNat)

/-- With a quotient that fits: the cap of the direction fits, unless the step is held back. -/
def StepSafe (inp : Inputs K) (est : Estimate K) : Prop :=
  (inp.currentReplicas.toInt < inp.goal est → inp.upHeld ∨ (replicasPerScaleUp inp.spec).toNat < 2 ^ 31) ∧
    (inp.goal est < inp.currentReplicas.toInt → inp.downHeld ∨ (replicasPerScaleDown inp.spec).toNat < 2 ^ 31)

/-- With a quotient that does not fit, `Decide` scales down from the highest load: the fleet is at its lower bound, or
its cooldown runs, or the cap is zero; or else a negative cap makes a step up of it, which stays in the bounds and
within the other cap. -/
def WrapSafe (inp : Inputs K) : Prop :=
  inp.currentReplicas.toInt = (minMax inp.spec).1.toInt ∨ inp.downHeld ∨ (replicasPerScaleDown inp.spec).toNat = 0 ∨
    (2 ^ 31 ≤ (replicasPerScaleDown inp.spec).toNat ∧
      inp.currentReplicas.toInt + (2 ^ 32 - (replicasPerScaleDown inp.spec).toNat) ≤ (minMax inp.spec).2.toInt ∧
      2 ^ 32 - (replicasPerScaleDown inp.spec).toNat ≤ ((replicasPerScaleUp inp.spec).toNat : Int))

/-- The inputs from which a decision is safe. -/
def SafeInputs (inp : Inputs K) (est : Estimate K) : Prop :=
  if inp.totalInflight ≤ 0 then IdleSafe inp
  else if ⌈inp.totalInflight / scalingTarget inp est⌉ < 2 ^ 31 then StepSafe inp est
  else WrapSafe inp

section
variable {math : GoMath K} {inp : Inputs K} {est : Estimate K} {n : Int32}

omit [IsStrictOrderedRing K] in
theorem safe_current (hin : inp.Within) : Safe inp est inp.currentReplicas where
  ge_min := hin.1
  le_max := hin.2
  not_above := fun _ => le_rfl
  not_below := fun _ => le_rfl
  up_le := by omega
  down_le := by omega

omit [IsStrictOrderedRing K] in
/-- A quotient that does not fit asks for the upper bound, and `Decide` takes it for the lower one. -/
theorem goal_of_overflow (hm : math.Exact) (h : 2 ^ 31 ≤ ⌈inp.totalInflight / scalingTarget inp est⌉) :
    inp.goal est = (minMax inp.spec).2.toInt ∧
      (inp.desired math est).toInt = (minMax inp.spec).1.toInt := by
  have hle := minMax_le inp.spec
  have hlt := (minMax inp.spec).2.toInt_lt
  refine ⟨?_, ?_⟩
  · unfold Inputs.goal goalOf
    omega
  · unfold Inputs.desired desired
    rw [toInt_clamp hle.2, hm.toInt_ceilInt32_of_le h]
    omega

theorem safe_drift_iff (hin : inp.Within) (hT : inp.totalInflight = 0)
    (hlow : (minMax inp.spec).1.toInt < inp.currentReplicas.toInt) (hfree : ¬inp.downHeld) :
    Safe inp est (max (inp.currentReplicas - (replicasPerScaleDown inp.spec).toInt32) (minMax inp.spec).1) ↔
      IdleSafe inp := by
  obtain ⟨hmin, hmax⟩ := hin
  have hone := (minMax_le inp.spec).1
  have hc := inp.currentReplicas.toInt_lt
  have hgoal : inp.goal est = (minMax inp.spec).1.toInt := goalOf_of_nonpos inp.spec hT.le (scalingTarget_pos inp est)
  have hlt32 := (replicasPerScaleDown inp.spec).toNat_lt
  unfold IdleSafe
  rw [safe_iff, hgoal, or_iff_right_of_imp fun _ : inp.totalInflight = 0 => hmin, or_iff_right hlow.ne',
    or_iff_right hfree]
  by_cases hcap : (replicasPerScaleDown inp.spec).toNat < 2 ^ 31
  · rw [toInt_drift hcap (by omega)]
    omega
  · rw [toInt_max, toInt_sub_cap (not_lt.mp hcap) (by omega)]
    split_ifs <;> omega

omit [IsStrictOrderedRing K] in
theorem safe_raise_iff (hin : inp.Within) (hT : 0 < inp.totalInflight)
    (hd : (inp.desired math est).toInt = inp.goal est) (hlt : inp.currentReplicas.toInt < inp.goal est)
    (hfree : ¬inp.upHeld) :
    Safe inp est (inp.currentReplicas +
      min (inp.desired math est - inp.currentReplicas) (replicasPerScaleUp inp.spec).toInt32) ↔ StepSafe inp est := by
  obtain ⟨hmin, hmax⟩ := hin
  have hone := (minMax_le inp.spec).1
  have hgoal := (goalOf_mem inp.spec inp.totalInflight (scalingTarget inp est)).2
  change inp.goal est ≤ _ at hgoal
  unfold StepSafe
  rw [safe_iff, or_iff_right hT.ne', or_iff_right hfree]
  by_cases hcap : (replicasPerScaleUp inp.spec).toNat < 2 ^ 31
  · rw [toInt_raise hcap (by omega) (by omega), hd]
    omega
  · have hdiff : 0 ≤ (inp.desired math est - inp.currentReplicas).toInt := by
      have := inp.currentReplicas.toInt_lt
      have := (minMax inp.spec).2.toInt_lt
      rw [toInt_sub_of_mem (by omega) (by omega)]
      omega
    have hlt32 := (replicasPerScaleUp inp.spec).toNat_lt
    rw [min_toInt32_of_le (not_lt.mp hcap) hdiff, toInt_add_cap (not_lt.mp hcap) (by omega)]
    omega

omit [IsStrictOrderedRing K] in
theorem safe_lower_iff (hin : inp.Within) (hT : 0 < inp.totalInflight)
    (hd : (inp.desired math est).toInt = inp.goal est) (hlt : inp.goal est < inp.currentReplicas.toInt)
    (hfree : ¬inp.downHeld) :
    Safe inp est (inp.currentReplicas -
      min (inp.currentReplicas - inp.desired math est) (replicasPerScaleDown inp.spec).toInt32) ↔
        StepSafe inp est := by
  obtain ⟨hmin, hmax⟩ := hin
  have hone := (minMax_le inp.spec).1
  have hgoal := (goalOf_mem inp.spec inp.totalInflight (scalingTarget inp est)).1
  change _ ≤ inp.goal est at hgoal
  have hlt32 := (replicasPerScaleDown inp.spec).toNat_lt
  unfold StepSafe
  rw [safe_iff, or_iff_right hT.ne', or_iff_right hfree]
  by_cases hcap : (replicasPerScaleDown inp.spec).toNat < 2 ^ 31
  · rw [toInt_lower hcap (by omega) (by omega), hd]
    omega
  · have hc := inp.currentReplicas.toInt_lt
    rw [toInt_lower_cap (not_lt.mp hcap) (by omega) (by omega)]
    split_ifs <;> omega

omit [IsStrictOrderedRing K] in
theorem safe_wrap_iff (hin : inp.Within) (hT : 0 < inp.totalInflight)
    (hgoal : inp.goal est = (minMax inp.spec).2.toInt)
    (hd : (inp.desired math est).toInt = (minMax inp.spec).1.toInt)
    (hlt : (minMax inp.spec).1.toInt < inp.currentReplicas.toInt) (hfree : ¬inp.downHeld) :
    Safe inp est (inp.currentReplicas -
      min (inp.currentReplicas - inp.desired math est) (replicasPerScaleDown inp.spec).toInt32) ↔ WrapSafe inp := by
  obtain ⟨hmin, hmax⟩ := hin
  have hone := (minMax_le inp.spec).1
  have hlt32 := (replicasPerScaleDown inp.spec).toNat_lt
  have hhi := (minMax inp.spec).2.toInt_lt
  unfold WrapSafe
  rw [safe_iff, or_iff_right hT.ne', hgoal, or_iff_right hlt.ne', or_iff_right hfree]
  by_cases hcap : (replicasPerScaleDown inp.spec).toNat < 2 ^ 31
  · rw [toInt_lower hcap (by omega) (by omega), hd]
    omega
  · rw [toInt_lower_cap (not_lt.mp hcap) (by omega) (by omega)]
    split_ifs <;> omega

/-- Every branch of `Decide` answers safely from the safe inputs, and from no others. -/
theorem safe_branch_iff (hm : math.Exact) (hin : inp.Within) (hload : 0 ≤ inp.totalInflight)
    (h : Branch math inp est n) : Safe inp est n ↔ SafeInputs inp est := by
  have htarget := scalingTarget_pos inp est
  have hfits : 0 < inp.totalInflight → ⌈inp.totalInflight / scalingTarget inp est⌉ < 2 ^ 31 →
      (inp.desired math est).toInt = inp.goal est :=
    fun hT hfit => toInt_desired hm inp.spec (ceil_div_nonneg hT.le htarget) hfit
  unfold SafeInputs
  cases h with
  | idles hT h =>
    rw [if_pos hT]
    refine iff_of_true (safe_current hin) ?_
    exact h.imp_right .inl
  | drifts hT hlow hfree =>
    rw [if_pos hT]
    exact safe_drift_iff hin (le_antisymm hT hload) hlow hfree
  | stays hT h =>
    rw [if_neg (not_le.mpr hT)]
    refine iff_of_true (safe_current hin) ?_
    split_ifs with hfit
    · have hgoal := hfits hT hfit
      rw [h] at hgoal
      exact ⟨fun hlt => by omega, fun hlt => by omega⟩
    · have hdesired := (goal_of_overflow hm (not_lt.mp hfit)).2
      rw [h] at hdesired
      exact .inl hdesired
  | upHeld hT hlt hheld =>
    rw [if_neg (not_le.mpr hT)]
    refine iff_of_true (safe_current hin) ?_
    split_ifs with hfit
    · rw [hfits hT hfit] at hlt
      exact ⟨fun _ => .inl hheld, fun hgt => by omega⟩
    · rw [(goal_of_overflow hm (not_lt.mp hfit)).2] at hlt
      exact absurd hin.1 (not_le.mpr hlt)
  | raises hT hlt hfree =>
    rw [if_neg (not_le.mpr hT)]
    split_ifs with hfit
    · exact safe_raise_iff hin hT (hfits hT hfit) (hfits hT hfit ▸ hlt) hfree
    · rw [(goal_of_overflow hm (not_lt.mp hfit)).2] at hlt
      exact absurd hin.1 (not_le.mpr hlt)
  | downHeld hT hlt hheld =>
    rw [if_neg (not_le.mpr hT)]
    refine iff_of_true (safe_current hin) ?_
    split_ifs with hfit
    · rw [hfits hT hfit] at hlt
      exact ⟨fun hgt => by omega, fun _ => .inl hheld⟩
    · exact .inr (.inl hheld)
  | lowers hT hlt hfree =>
    rw [if_neg (not_le.mpr hT)]
    split_ifs with hfit
    · exact safe_lower_iff hin hT (hfits hT hfit) (hfits hT hfit ▸ hlt) hfree
    · obtain ⟨hgoal, hd⟩ := goal_of_overflow hm (not_lt.mp hfit)
      exact safe_wrap_iff hin hT hgoal hd (hd ▸ hlt) hfree

end

/-- **When a decision is safe.** For every scale block, load and count within the bounds. -/
theorem decide_safe_iff (l : Learner K) (hm : l.math.Exact) (inp : Inputs K) (hload : 0 ≤ inp.current.inflightPerRep)
    (hin : inp.Within) : ∃ est, inp.estimate l = some est ∧
      ((∃ dec, inp.decide l = some dec ∧ Safe inp est dec.desiredReplicas) ↔ SafeInputs inp est) := by
  obtain ⟨est, hest, -⟩ := exists_estimateKnee l hm inp.history inp.now
  have hT : 0 ≤ inp.totalInflight := mul_nonneg hload (Int.cast_nonneg (inflightBasis_pos hin).le)
  obtain ⟨dec, hdec, hbranch⟩ := exists_branch hin hest
  refine ⟨est, hest, ?_⟩
  rw [← safe_branch_iff hm hin hT hbranch, hdec]
  constructor
  · rintro ⟨dec', hdec', hsafe⟩
    obtain rfl := Option.some.inj hdec'
    exact hsafe
  · exact fun hsafe => ⟨dec, rfl, hsafe⟩

theorem decide_safe_cold : ∃ est, (coldInputs.withLoad 40).estimate ratLearner = some est ∧
    ∃ dec, (coldInputs.withLoad 40).decide ratLearner = some dec ∧
      Safe (coldInputs.withLoad 40) est dec.desiredReplicas := by
  obtain ⟨est, hest, hiff⟩ := decide_safe_iff ratLearner ratMath_exact (coldInputs.withLoad 40) (by decide)
    (by unfold Inputs.Within; decide)
  refine ⟨est, hest, hiff.mpr ?_⟩
  have hfit := fits_cold (coldInputs.withLoad 40) rfl (by decide +kernel) est hest
  have hcaps : CapsFit coldInputs.spec := by
    unfold CapsFit
    decide
  unfold SafeInputs
  rw [if_neg (by decide +kernel), if_pos (ceil_lt_of_le hfit)]
  exact ⟨fun _ => .inr hcaps.1, fun _ => .inr hcaps.2⟩

/-- The fleet of `coldInputs` with a step cap of 2³¹ upwards. -/
def capInputs : Inputs ℚ :=
  { coldInputs.withLoad 40 with spec := { max := some 10, replicasPerScaleUp := some 2147483648 } }

/-- A scale-up with a cap of 2³¹ answers with a negative count. A load that asks for far more than ten replicas takes
one of the two away. -/
theorem decide_unsafe :
    (∃ dec, capInputs.decide ratLearner = some dec ∧ dec.desiredReplicas = -2147483646 ∧
      ¬Safe capInputs ⟨0, false, 0⟩ dec.desiredReplicas) ∧
    ∃ dec, (coldInputs.withLoad 100000000000).decide ratLearner = some dec ∧ dec.desiredReplicas = 1 ∧
      ¬Safe (coldInputs.withLoad 100000000000) ⟨0, false, 0⟩ dec.desiredReplicas := by
  refine ⟨?_, ?_⟩
  · have hcount : (capInputs.decide ratLearner).map Decision.desiredReplicas = some (-2147483646) := by decide +kernel
    obtain ⟨dec, hdec, hd⟩ := Option.map_eq_some_iff.mp hcount
    refine ⟨dec, hdec, hd, fun h => absurd h.ge_min ?_⟩
    rw [hd]
    decide
  · have hcount : ((coldInputs.withLoad 100000000000).decide ratLearner).map Decision.desiredReplicas = some 1 := by
      decide +kernel
    have hbig : 2 ^ 31 ≤ ⌈(coldInputs.withLoad 100000000000).totalInflight /
        scalingTarget (coldInputs.withLoad 100000000000) ⟨0, false, 0⟩⌉ := by
      refine Int.lt_ceil.mpr (show ((2 ^ 31 - 1 : Int) : ℚ) < _ from ?_)
      decide +kernel
    obtain ⟨dec, hdec, hd⟩ := Option.map_eq_some_iff.mp hcount
    refine ⟨dec, hdec, hd, fun h => absurd (h.not_below ?_) ?_⟩
    · rw [(goal_of_overflow ratMath_exact hbig).1]
      decide
    · rw [hd]
      decide

end KynoMesh.Scaling
