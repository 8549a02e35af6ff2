import KynoMesh.Lib.Approach
import KynoMesh.Scaling.Target

/-!
# Decisions under a steady load, in exact arithmetic

* `decide_eq` : `Decide` answers from every count within the bounds, by its branches;
* `decide_approach` : with step caps and a quotient that fit `int32`, it approaches the count that the load asks for;
* `decide_mono` : a heavier load never gets fewer replicas, a higher saturation lever never more;
* `settles` : under a steady load, decisions one after another go to this count and stay there.
-/

namespace KynoMesh.Scaling

open KynoMesh.Lib KynoMesh.Api KynoMesh.History

variable {K : Type} [Field K] [LinearOrder K] [IsStrictOrderedRing K] [FloorRing K]

/-- The rate limit or the cooldown holds a scale-up back. -/
def Inputs.upHeld (inp : Inputs K) : Prop :=
  (inp.maxInFlight > 0 ∧ (inp.maxInFlight.toInt : K) ≤ inp.totalInflight) ∨
    timeSub inp.now inp.lastScaledAt < scaleUpCooldown inp.spec

def Inputs.downHeld (inp : Inputs K) : Prop := timeSub inp.now inp.lastScaledAt < scaleDownCooldown inp.spec

instance (inp : Inputs K) : Decidable inp.upHeld := inferInstanceAs (Decidable (_ ∨ _))

instance (inp : Inputs K) : Decidable inp.downHeld := inferInstanceAs (Decidable (_ < _))

/-- The count is within the bounds of the scale block. -/
def Inputs.Within (inp : Inputs K) : Prop :=
  (minMax inp.spec).1.toInt ≤ inp.currentReplicas.toInt ∧ inp.currentReplicas.toInt ≤ (minMax inp.spec).2.toInt

/-- The `desired` of a decision. -/
def Inputs.desired (math : GoMath K) (inp : Inputs K) (est : Estimate K) : Int32 :=
  Scaling.desired math inp.spec inp.totalInflight (scalingTarget inp est)

/-- The counts that `Decide` can answer with from a count within the bounds, and when. -/
inductive Branch (math : GoMath K) (inp : Inputs K) (est : Estimate K) : Int32 → Prop
  | idles (hT : inp.totalInflight ≤ 0) (h : inp.currentReplicas.toInt = (minMax inp.spec).1.toInt ∨ inp.downHeld) :
    Branch math inp est inp.currentReplicas
  | drifts (hT : inp.totalInflight ≤ 0) (hlow : (minMax inp.spec).1.toInt < inp.currentReplicas.toInt)
      (hfree : ¬inp.downHeld) :
    Branch math inp est (max (inp.currentReplicas - (replicasPerScaleDown inp.spec).toInt32) (minMax inp.spec).1)
  | stays (hT : 0 < inp.totalInflight) (h : inp.desired math est = inp.currentReplicas) :
    Branch math inp est inp.currentReplicas
  | upHeld (hT : 0 < inp.totalInflight)
      (hlt : inp.currentReplicas.toInt < (inp.desired math est).toInt) (hheld : inp.upHeld) :
    Branch math inp est inp.currentReplicas
  | raises (hT : 0 < inp.totalInflight)
      (hlt : inp.currentReplicas.toInt < (inp.desired math est).toInt) (hfree : ¬inp.upHeld) :
    Branch math inp est (inp.currentReplicas +
      min (inp.desired math est - inp.currentReplicas) (replicasPerScaleUp inp.spec).toInt32)
  | downHeld (hT : 0 < inp.totalInflight)
      (hlt : (inp.desired math est).toInt < inp.currentReplicas.toInt) (hheld : inp.downHeld) :
    Branch math inp est inp.currentReplicas
  | lowers (hT : 0 < inp.totalInflight)
      (hlt : (inp.desired math est).toInt < inp.currentReplicas.toInt) (hfree : ¬inp.downHeld) :
    Branch math inp est (inp.currentReplicas -
      min (inp.currentReplicas - inp.desired math est) (replicasPerScaleDown inp.spec).toInt32)

section
variable {l : Learner K} {inp : Inputs K} {est : Estimate K}

omit [IsStrictOrderedRing K] [FloorRing K] in
theorem branch_scaleUp (hT : 0 < inp.totalInflight)
    (hlt : inp.currentReplicas.toInt < (inp.desired l.math est).toInt) :
    Branch l.math inp est (scaleUp inp est (inp.desired l.math est) (scalingTarget inp est) inp.totalInflight
      (replicasPerScaleUp inp.spec).toInt32 (scaleUpCooldown inp.spec)
      (timeSub inp.now inp.lastScaledAt)).desiredReplicas := by
  by_cases hrate : inp.maxInFlight > 0 ∧ (inp.maxInFlight.toInt : K) ≤ inp.totalInflight
  · rw [scaleUp, if_pos hrate]
    exact .upHeld hT hlt (.inl hrate)
  by_cases hcool : timeSub inp.now inp.lastScaledAt < scaleUpCooldown inp.spec
  · rw [scaleUp, if_neg hrate, if_pos hcool]
    exact .upHeld hT hlt (.inr hcool)
  · rw [scaleUp, if_neg hrate, if_neg hcool]
    exact .raises hT hlt (not_or_intro hrate hcool)

omit [IsStrictOrderedRing K] [FloorRing K] in
theorem branch_scaleDown (hT : 0 < inp.totalInflight)
    (hlt : (inp.desired l.math est).toInt < inp.currentReplicas.toInt) :
    Branch l.math inp est (scaleDown inp est (inp.desired l.math est) (replicasPerScaleDown inp.spec).toInt32
      (scaleDownCooldown inp.spec) (timeSub inp.now inp.lastScaledAt)).desiredReplicas := by
  by_cases hcool : timeSub inp.now inp.lastScaledAt < scaleDownCooldown inp.spec
  · rw [scaleDown, if_pos hcool]
    exact .downHeld hT hlt hcool
  · rw [scaleDown, if_neg hcool]
    exact .lowers hT hlt hcool

omit [IsStrictOrderedRing K] [FloorRing K] in
theorem decide_of_within (hin : inp.Within) (hfree : (minMax inp.spec).1 ≠ (minMax inp.spec).2)
    (hest : inp.estimate l = some est) : inp.decide l =
      if inp.totalInflight ≤ 0 then
        if inp.currentReplicas ≤ (minMax inp.spec).1 then some ⟨inp.currentReplicas, .noChange, true, noEstimate⟩
        else if inp.downHeld then some ⟨inp.currentReplicas, .cooldownDown, true, noEstimate⟩
        else some ⟨max (inp.currentReplicas - (replicasPerScaleDown inp.spec).toInt32) (minMax inp.spec).1, .driftToMin,
          false, noEstimate⟩
      else if inp.desired l.math est = inp.currentReplicas then
        some ⟨inp.desired l.math est, .noChange, true, est⟩
      else if inp.desired l.math est > inp.currentReplicas then
        some (scaleUp inp est (inp.desired l.math est) (scalingTarget inp est) inp.totalInflight
          (replicasPerScaleUp inp.spec).toInt32 (scaleUpCooldown inp.spec) (timeSub inp.now inp.lastScaledAt))
      else some (scaleDown inp est (inp.desired l.math est) (replicasPerScaleDown inp.spec).toInt32
        (scaleDownCooldown inp.spec) (timeSub inp.now inp.lastScaledAt)) := by
  have hmanual : ¬(inp.currentReplicas < (minMax inp.spec).1 ∨ inp.currentReplicas > (minMax inp.spec).2) := by
    obtain ⟨hmin, hmax⟩ := hin
    rw [gt_iff_lt, Int32.lt_iff_toInt_lt, Int32.lt_iff_toInt_lt]
    omega
  change estimateKnee l.math l.byTime l.byInflight inp.history inp.now = some est at hest
  unfold Inputs.decide
  dsimp only
  rw [if_neg hfree, if_neg hmanual, hest]
  rfl

omit [IsStrictOrderedRing K] [FloorRing K] in
theorem branch_of_fixed (math : GoMath K) (est : Estimate K) (hin : inp.Within)
    (hfixed : (minMax inp.spec).1 = (minMax inp.spec).2) :
    inp.currentReplicas = (minMax inp.spec).1 ∧ Branch math inp est inp.currentReplicas := by
  obtain ⟨hmin, hmax⟩ := hin
  have hmem : (minMax inp.spec).1.toInt ≤ (inp.desired math est).toInt ∧
      (inp.desired math est).toInt ≤ (minMax inp.spec).2.toInt :=
    clamp_mem (minMax_le inp.spec).2
  rw [← hfixed] at hmax hmem
  refine ⟨Int32.toInt_inj.mp (by omega), ?_⟩
  by_cases hT : inp.totalInflight ≤ 0
  · exact .idles hT (.inl (by omega))
  · exact .stays (not_le.mp hT) (Int32.toInt_inj.mp (by omega))

omit [IsStrictOrderedRing K] [FloorRing K] in
/-- **`Decide` answers by one of its branches.** -/
theorem exists_branch (hin : inp.Within) (hest : inp.estimate l = some est) :
    ∃ dec, inp.decide l = some dec ∧ Branch l.math inp est dec.desiredReplicas := by
  by_cases hfixed : (minMax inp.spec).1 = (minMax inp.spec).2
  · obtain ⟨hcur, hbranch⟩ := branch_of_fixed l.math est hin hfixed
    refine ⟨⟨(minMax inp.spec).1, .minEqualsMax, inp.currentReplicas == (minMax inp.spec).1, noEstimate⟩, ?_, ?_⟩
    · exact if_pos hfixed
    · exact hcur ▸ hbranch
  rw [decide_of_within hin hfixed hest]
  obtain ⟨hmin, hmax⟩ := hin
  by_cases hT : inp.totalInflight ≤ 0
  · rw [if_pos hT]
    split_ifs with hlow hcool
    · rw [Int32.le_iff_toInt_le] at hlow
      exact ⟨_, rfl, .idles hT (.inl (by omega))⟩
    · exact ⟨_, rfl, .idles hT (.inr hcool)⟩
    · rw [Int32.le_iff_toInt_le] at hlow
      exact ⟨_, rfl, .drifts hT (by omega) hcool⟩
  · rw [if_neg hT]
    have hpos := not_le.mp hT
    split_ifs with hsame habove
    · exact ⟨_, rfl, hsame ▸ .stays hpos hsame⟩
    · rw [gt_iff_lt, Int32.lt_iff_toInt_lt] at habove
      exact ⟨_, rfl, branch_scaleUp hpos habove⟩
    · rw [gt_iff_lt, Int32.lt_iff_toInt_lt] at habove
      rw [← Int32.toInt_inj] at hsame
      exact ⟨_, rfl, branch_scaleDown hpos (by omega)⟩

end

/-! ## Approaching the goal -/

/-- The steps that are open to a decision. -/
def Inputs.stepUp (inp : Inputs K) : Nat := if inp.upHeld then 0 else (replicasPerScaleUp inp.spec).toNat

def Inputs.stepDown (inp : Inputs K) : Nat := if inp.downHeld then 0 else (replicasPerScaleDown inp.spec).toNat

/-- The count that the load asks for. -/
def Inputs.goal (inp : Inputs K) (est : Estimate K) : Int := goalOf inp.spec inp.totalInflight (scalingTarget inp est)

/-- The step caps fit `int32`. -/
def CapsFit (s : Scale) : Prop := (replicasPerScaleUp s).toNat < 2 ^ 31 ∧ (replicasPerScaleDown s).toNat < 2 ^ 31

theorem goalOf_of_nonpos (s : Scale) {T target : K} (hT : T ≤ 0) (htarget : 0 < target) :
    goalOf s T target = (minMax s).1.toInt := by
  have hceil : ⌈T / target⌉ ≤ 0 := Int.ceil_nonpos.mpr (div_nonpos_of_nonpos_of_nonneg hT htarget.le)
  obtain ⟨h1, h2⟩ := minMax_le s
  unfold goalOf
  omega

omit [IsStrictOrderedRing K] in
theorem ceil_lt_of_le {x : K} (h : x ≤ 2 ^ 31 - 1) : ⌈x⌉ < 2 ^ 31 := by
  have : ⌈x⌉ ≤ 2 ^ 31 - 1 := Int.ceil_le.mpr (by exact_mod_cast h)
  omega

section
variable {l : Learner K} {inp : Inputs K} {est : Estimate K} {n : Int32}

/-- What every branch does, when nothing overflows. -/
theorem toInt_branch (hm : l.math.Exact) (hcaps : CapsFit inp.spec) (hin : inp.Within)
    (hfit : inp.totalInflight / scalingTarget inp est ≤ 2 ^ 31 - 1) (h : Branch l.math inp est n) :
    n.toInt = approach inp.stepUp inp.stepDown (inp.goal est) inp.currentReplicas.toInt := by
  obtain ⟨hmin, hmax⟩ := hin
  obtain ⟨hup, hdown⟩ := hcaps
  have hone := (minMax_le inp.spec).1
  have htarget := scalingTarget_pos inp est
  have hidle : inp.totalInflight ≤ 0 → inp.goal est = (minMax inp.spec).1.toInt :=
    fun hT => goalOf_of_nonpos inp.spec hT htarget
  have hdesired : 0 < inp.totalInflight → (inp.desired l.math est).toInt = inp.goal est :=
    fun hT => toInt_desired hm inp.spec (ceil_div_nonneg hT.le htarget) (ceil_lt_of_le hfit)
  have hgoal := (goalOf_mem inp.spec inp.totalInflight (scalingTarget inp est)).1
  change _ ≤ inp.goal est at hgoal
  unfold approach Inputs.stepUp Inputs.stepDown
  cases h with
  | idles hT h =>
    rw [hidle hT]
    rcases h with hlow | hheld
    · rw [hlow, if_neg (lt_irrefl _)]
      omega
    · rw [if_pos hheld]
      split_ifs <;> omega
  | drifts hT hlow hfree =>
    rw [toInt_drift hdown (by omega), hidle hT, if_pos hlow, if_neg hfree, max_comm]
  | stays hT h =>
    rw [← hdesired hT, h, if_neg (lt_irrefl _)]
    omega
  | upHeld hT hlt hheld =>
    rw [hdesired hT] at hlt
    rw [if_neg (by omega), if_pos hheld]
    omega
  | raises hT hlt hfree =>
    rw [toInt_raise hup (by omega) hlt, if_neg hfree]
    rw [hdesired hT] at hlt ⊢
    rw [if_neg (by omega)]
    omega
  | downHeld hT hlt hheld =>
    rw [hdesired hT] at hlt
    rw [if_pos hlt, if_pos hheld]
    omega
  | lowers hT hlt hfree =>
    rw [toInt_lower hdown (by rw [hdesired hT]; omega) hlt, if_neg hfree]
    rw [hdesired hT] at hlt ⊢
    rw [if_pos hlt]
    omega

/-- **A decision approaches the count that the load asks for.** -/
theorem decide_approach (hm : l.math.Exact) (inp : Inputs K) (hcaps : CapsFit inp.spec) (hin : inp.Within)
    (hfit : Fits l inp) (hest : inp.estimate l = some est) :
    ∃ dec, inp.decide l = some dec ∧ dec.desiredReplicas.toInt =
      approach inp.stepUp inp.stepDown (inp.goal est) inp.currentReplicas.toInt := by
  obtain ⟨dec, hdec, hbranch⟩ := exists_branch hin hest
  exact ⟨dec, hdec, toInt_branch hm hcaps hin (hfit est hest) hbranch⟩

end

/-! ## Two decisions -/

/-- The inputs with another load per replica. -/
def Inputs.withLoad (inp : Inputs K) (x : K) : Inputs K :=
  { inp with current := { inp.current with inflightPerRep := x } }

/-- The inputs with another saturation lever. -/
def Inputs.withSaturation (inp : Inputs K) (p : UInt32) : Inputs K :=
  { inp with spec := { inp.spec with targetSaturationPercentage := some p } }

section
variable {l : Learner K} {inp : Inputs K}

omit [Field K] [LinearOrder K] [IsStrictOrderedRing K] [FloorRing K] in
theorem inflightBasis_pos (hin : inp.Within) : 0 < (inflightBasis inp).toInt := by
  have hone := (minMax_le inp.spec).1
  obtain ⟨hmin, -⟩ := hin
  unfold inflightBasis
  split_ifs with hcur hready
  · exact Int32.lt_iff_toInt_lt.mp hcur
  · exact Int32.lt_iff_toInt_lt.mp hready
  · omega

omit [IsStrictOrderedRing K] [FloorRing K] in
/-- Without a rate limit, the load does not hold a scale-up back. -/
theorem stepUp_withLoad (hlimit : ¬inp.maxInFlight > 0) (x : K) : (inp.withLoad x).stepUp = inp.stepUp := by
  have hheld : ∀ i : Inputs K, ¬i.maxInFlight > 0 →
      (i.upHeld ↔ timeSub i.now i.lastScaledAt < scaleUpCooldown i.spec) :=
    fun i hi => or_iff_right fun h => hi h.1
  unfold Inputs.stepUp
  rw [if_congr (hheld inp hlimit) rfl rfl, if_congr (hheld (inp.withLoad x) hlimit) rfl rfl]
  rfl

theorem totalInflight_withLoad_mono (hin : inp.Within) {x y : K} (hxy : x ≤ y) :
    (inp.withLoad x).totalInflight ≤ (inp.withLoad y).totalInflight := by
  have hbasis : (0 : K) ≤ (inflightBasis inp).toInt := Int.cast_nonneg (inflightBasis_pos hin).le
  exact mul_le_mul_of_nonneg_right hxy hbasis

/-- **Decisions are monotone in the load and antitone in the saturation lever.** -/
theorem decide_mono (l : Learner K) (hm : l.math.Exact) (inp : Inputs K) (hcaps : CapsFit inp.spec)
    (hlimit : ¬inp.maxInFlight > 0) (hin : inp.Within) :
    (∀ x y, 0 ≤ x → x ≤ y → Fits l (inp.withLoad x) → Fits l (inp.withLoad y) →
      ∃ a b, (inp.withLoad x).decide l = some a ∧ (inp.withLoad y).decide l = some b ∧
        a.desiredReplicas.toInt ≤ b.desiredReplicas.toInt) ∧
    ∀ p q, 1 ≤ p → p ≤ q → q ≤ 100 → Fits l (inp.withSaturation p) → Fits l (inp.withSaturation q) →
      ∃ a b, (inp.withSaturation p).decide l = some a ∧ (inp.withSaturation q).decide l = some b ∧
        b.desiredReplicas.toInt ≤ a.desiredReplicas.toInt := by
  obtain ⟨est, hest, ⟨h0, h1⟩, -⟩ := exists_estimateKnee l hm inp.history inp.now
  refine ⟨?_, ?_⟩
  · intro x y hx hxy hfitx hfity
    obtain ⟨a, ha, hacount⟩ := decide_approach hm (inp.withLoad x) hcaps hin hfitx hest
    obtain ⟨b, hb, hbcount⟩ := decide_approach hm (inp.withLoad y) hcaps hin hfity hest
    refine ⟨a, b, ha, hb, ?_⟩
    have hT : 0 ≤ (inp.withLoad x).totalInflight :=
      mul_nonneg hx (Int.cast_nonneg (inflightBasis_pos hin).le)
    have hgoal : (inp.withLoad x).goal est ≤ (inp.withLoad y).goal est :=
      goalOf_mono inp.spec hT (totalInflight_withLoad_mono hin hxy) (scalingTarget_pos inp est) le_rfl
    rw [hacount, hbcount, stepUp_withLoad hlimit, stepUp_withLoad hlimit]
    exact approach_mono hgoal
  · intro p q hp hpq hq hfitp hfitq
    obtain ⟨a, ha, hacount⟩ := decide_approach hm (inp.withSaturation p) hcaps hin hfitp hest
    obtain ⟨b, hb, hbcount⟩ := decide_approach hm (inp.withSaturation q) hcaps hin hfitq hest
    refine ⟨a, b, ha, hb, ?_⟩
    have htarget := scalingTarget_mono_saturation inp h0 h1 (knee_nonneg l hm hest) hp hpq hq
    have hgoal : (inp.withSaturation q).goal est ≤ (inp.withSaturation p).goal est := by
      by_cases hT : inp.totalInflight ≤ 0
      · -- an idle fleet drifts to the lower bound, whatever the lever
        exact ((goalOf_of_nonpos _ hT (scalingTarget_pos _ est)).trans
          (goalOf_of_nonpos _ hT (scalingTarget_pos _ est)).symm).le
      · exact goalOf_mono inp.spec (not_le.mp hT).le le_rfl (scalingTarget_pos _ est) htarget
    rw [hacount, hbcount]
    exact approach_mono hgoal

end

/-- Two of up to ten replicas, with nothing learned yet. -/
def coldInputs : Inputs ℚ where
  currentReplicas := 2
  readyReplicas := 2
  history := []
  current := { timestamp := 0, replicas := 2, inflightPerRep := 10, ratePerRep := 1 }
  spec := { max := some 10 }
  maxInFlight := 0
  now := 1000 * second
  lastScaledAt := 0

theorem fits_cold (inp : Inputs ℚ) (hhist : inp.history = [])
    (h : inp.totalInflight / scalingTarget inp ⟨0, false, 0⟩ ≤ 2 ^ 31 - 1) : Fits ratLearner inp := by
  intro est hest
  unfold Inputs.estimate at hest
  rw [hhist] at hest
  obtain rfl := Option.some.inj hest
  exact h

/-- Ten times the load, and a lower lever, for the same fleet. -/
theorem decide_mono_cold :
    (∃ a b, (coldInputs.withLoad 10).decide ratLearner = some a ∧ (coldInputs.withLoad 100).decide ratLearner = some b ∧
      a.desiredReplicas.toInt ≤ b.desiredReplicas.toInt) ∧
    ∃ a b, (coldInputs.withSaturation 50).decide ratLearner = some a ∧
      (coldInputs.withSaturation 90).decide ratLearner = some b ∧
      b.desiredReplicas.toInt ≤ a.desiredReplicas.toInt := by
  have h := decide_mono ratLearner ratMath_exact coldInputs (by unfold CapsFit; decide) (by decide)
    (by unfold Inputs.Within; decide)
  refine ⟨h.1 10 100 (by norm_num) (by norm_num) (fits_cold _ rfl ?_) (fits_cold _ rfl ?_),
    h.2 50 90 (by decide) (by decide) (by decide) (fits_cold _ rfl ?_) (fits_cold _ rfl ?_)⟩
  · decide +kernel
  · decide +kernel
  · decide +kernel
  · decide +kernel

/-! ## Decisions one after another -/

/-- The counts of decisions one after another; the inputs of each have the count before. -/
def decisions (l : Learner K) (inputs : Nat → Int32 → Inputs K) (c : Int32) : Nat → Option Int32
  | 0 => some c
  | n + 1 => do
    let c ← decisions l inputs c n
    let dec ← (inputs n c).decide l
    return dec.desiredReplicas

/-- The inputs `i` have the load, the history and the clock of `inp`; nothing holds a decision back. -/
structure Steady (inp i : Inputs K) : Prop where
  spec_eq : i.spec = inp.spec
  history_eq : i.history = inp.history
  now_eq : i.now = inp.now
  load_eq : i.totalInflight = inp.totalInflight
  unlimited : ¬i.maxInFlight > 0
  up_free : scaleUpCooldown i.spec ≤ timeSub i.now i.lastScaledAt
  down_free : scaleDownCooldown i.spec ≤ timeSub i.now i.lastScaledAt

section
variable {l : Learner K} {inp i : Inputs K} {est : Estimate K}

/-- One decision under a steady load. -/
theorem decide_steady (hm : l.math.Exact) (hcaps : CapsFit inp.spec) (hfit : Fits l inp)
    (hest : inp.estimate l = some est) (h : Steady inp i) (hin : i.Within) :
    ∃ dec, i.decide l = some dec ∧ dec.desiredReplicas.toInt =
      approach (replicasPerScaleUp inp.spec).toNat (replicasPerScaleDown inp.spec).toNat (inp.goal est)
        i.currentReplicas.toInt := by
  have htarget : scalingTarget i est = scalingTarget inp est := by
    unfold scalingTarget
    rw [h.spec_eq]
  have hgoal : i.goal est = inp.goal est := by
    unfold Inputs.goal
    rw [h.spec_eq, h.load_eq, htarget]
  have hest' : i.estimate l = inp.estimate l := by
    unfold Inputs.estimate
    rw [h.history_eq, h.now_eq]
  have hupFree : ¬i.upHeld := not_or_intro (fun hl => h.unlimited hl.1) (not_lt.mpr h.up_free)
  have hdownFree : ¬i.downHeld := not_lt.mpr h.down_free
  have hup : i.stepUp = (replicasPerScaleUp inp.spec).toNat := by rw [Inputs.stepUp, if_neg hupFree, h.spec_eq]
  have hdown : i.stepDown = (replicasPerScaleDown inp.spec).toNat := by
    rw [Inputs.stepDown, if_neg hdownFree, h.spec_eq]
  have hfit' : i.totalInflight / scalingTarget i est ≤ 2 ^ 31 - 1 := by
    rw [h.load_eq, htarget]
    exact hfit est hest
  obtain ⟨dec, hdec, hbranch⟩ := exists_branch hin (hest'.trans hest)
  refine ⟨dec, hdec, ?_⟩
  rw [toInt_branch hm (h.spec_eq ▸ hcaps) hin hfit' hbranch, hup, hdown, hgoal]

theorem exists_decisions (hm : l.math.Exact) (hcaps : CapsFit inp.spec) (hfit : Fits l inp)
    (hest : inp.estimate l = some est) (hin : inp.Within) {inputs : Nat → Int32 → Inputs K}
    (hsteady : ∀ n c, (inputs n c).currentReplicas = c ∧ Steady inp (inputs n c)) (n : Nat) :
    ∃ c, decisions l inputs inp.currentReplicas n = some c ∧
      c.toInt = (approach (replicasPerScaleUp inp.spec).toNat (replicasPerScaleDown inp.spec).toNat (inp.goal est))^[n]
        inp.currentReplicas.toInt ∧
      (minMax inp.spec).1.toInt ≤ c.toInt ∧ c.toInt ≤ (minMax inp.spec).2.toInt := by
  induction n with
  | zero => exact ⟨_, rfl, rfl, hin⟩
  | succ n ih =>
    obtain ⟨c, hc, hcount, hmem⟩ := ih
    obtain ⟨hcur, hs⟩ := hsteady n c
    have hwithin : (inputs n c).Within := by
      unfold Inputs.Within
      rw [hcur, hs.spec_eq]
      exact hmem
    obtain ⟨dec, hdec, hdcount⟩ := decide_steady hm hcaps hfit hest hs hwithin
    rw [hcur] at hdcount
    refine ⟨dec.desiredReplicas, ?_, ?_, ?_⟩
    · rw [decisions, hc]
      change ((inputs n c).decide l).bind _ = _
      rw [hdec]
      rfl
    · rw [Function.iterate_succ_apply', ← hcount, hdcount]
    · rw [hdcount]
      exact approach_mem (goalOf_mem _ _ _) hmem

end

/-- From `start`, the counts go to the goal `d` without a step back or past it, and reach it after as many decisions as
the distance has steps, to stay there. -/
structure Settles (s : Scale) (start : Int32) (d : Int) (counts : Nat → Int32) : Prop where
  start_eq : counts 0 = start
  toward : ∀ n, ((counts n).toInt ≤ d → (counts n).toInt ≤ (counts (n + 1)).toInt ∧ (counts (n + 1)).toInt ≤ d) ∧
    (d ≤ (counts n).toInt → d ≤ (counts (n + 1)).toInt ∧ (counts (n + 1)).toInt ≤ (counts n).toInt)
  reached_iff : ∀ n, (counts n).toInt = d ↔
    (d - start.toInt).natAbs ⌈/⌉
      (if start.toInt ≤ d then (replicasPerScaleUp s).toNat else (replicasPerScaleDown s).toNat) ≤ n

/-- **Decisions settle under a steady load.** -/
theorem settles (l : Learner K) (hm : l.math.Exact) (inp : Inputs K)
    (hup : 1 ≤ (replicasPerScaleUp inp.spec).toNat ∧ (replicasPerScaleUp inp.spec).toNat < 2 ^ 31)
    (hdown : 1 ≤ (replicasPerScaleDown inp.spec).toNat ∧ (replicasPerScaleDown inp.spec).toNat < 2 ^ 31)
    (hfit : Fits l inp) (hin : inp.Within) {inputs : Nat → Int32 → Inputs K}
    (hsteady : ∀ n c, (inputs n c).currentReplicas = c ∧ Steady inp (inputs n c)) :
    ∃ est counts, inp.estimate l = some est ∧
      (∀ n, decisions l inputs inp.currentReplicas n = some (counts n)) ∧
      Settles inp.spec inp.currentReplicas
        (if inp.totalInflight = 0 then (minMax inp.spec).1.toInt
          else goalOf inp.spec inp.totalInflight (scalingTarget inp est)) counts := by
  obtain ⟨est, hest, -⟩ := exists_estimateKnee l hm inp.history inp.now
  have hgoal : (if inp.totalInflight = 0 then (minMax inp.spec).1.toInt
      else goalOf inp.spec inp.totalInflight (scalingTarget inp est)) = inp.goal est := by
    split_ifs with hzero
    · exact (goalOf_of_nonpos inp.spec hzero.le (scalingTarget_pos inp est)).symm
    · rfl
  choose counts hcounts htoInt _ using exists_decisions hm ⟨hup.2, hdown.2⟩ hfit hest hin hsteady
  refine ⟨est, counts, hest, hcounts, ?_⟩
  rw [hgoal]
  refine ⟨(Option.some.inj (hcounts 0)).symm, fun n => ?_, fun n => ?_⟩
  · rw [htoInt (n + 1), Function.iterate_succ_apply', ← htoInt n]
    exact approach_between
  · rw [htoInt n]
    exact iterate_approach_eq_iff hup.1 hdown.1 n

/-- Eighty requests in flight ask for nine replicas at the default knee: seven more, in four steps of two. -/
theorem settles_cold :
    decisions ratLearner (fun _ c => { coldInputs.withLoad 40 with currentReplicas := c }) 2 4 = some 9 ∧
    ∃ est counts, (coldInputs.withLoad 40).estimate ratLearner = some est ∧
      (∀ n, decisions ratLearner (fun _ c => { coldInputs.withLoad 40 with currentReplicas := c }) 2 n =
        some (counts n)) ∧
      Settles coldInputs.spec 2
        (if (coldInputs.withLoad 40).totalInflight = 0 then (minMax coldInputs.spec).1.toInt
          else goalOf coldInputs.spec (coldInputs.withLoad 40).totalInflight
            (scalingTarget (coldInputs.withLoad 40) est)) counts := by
  refine ⟨by decide +kernel, ?_⟩
  refine settles ratLearner ratMath_exact (coldInputs.withLoad 40) (by decide) (by decide) (fits_cold _ rfl ?_) ?_ ?_
  · decide +kernel
  · unfold Inputs.Within
    decide
  · have hlimit : ¬coldInputs.maxInFlight > 0 := by decide
    have hup : scaleUpCooldown coldInputs.spec ≤ timeSub coldInputs.now coldInputs.lastScaledAt := by decide
    have hdown : scaleDownCooldown coldInputs.spec ≤ timeSub coldInputs.now coldInputs.lastScaledAt := by decide
    intro n c
    exact ⟨rfl, rfl, rfl, rfl, rfl, hlimit, hup, hdown⟩

end KynoMesh.Scaling
