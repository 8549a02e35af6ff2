import KynoMesh.Scaling.Estimator
import KynoMesh.Pods.Replicas

/-!
# The scaling decision

`Decide` of `decision/decision.go`: from the learned capacity, the live load and the scale block to the next replica
count. Counters are `int32`, with Go's wrap-around.

* `minMax_eq_scaleBounds` : the autoscaler and the pod controller read the same bounds from a scale block;
* `decide_cases` : what `Decide` can answer from a count within the bounds;
* `decide_allowed` : from a count within the bounds, with step caps that fit `int32`, a decision that is not skipped
  leaves the count, or moves it within the bounds, by at most the step cap of its direction, and only when the cooldown
  of that direction has passed;
* `decide_le_of_rateLimited` : under a load that has reached the rate limit, no decision raises the count.
-/

set_option linter.unusedSectionVars false

namespace KynoMesh.Scaling

open KynoMesh.Lib KynoMesh.Api KynoMesh.History

variable {F : Type}

inductive Reason where
  | minEqualsMax
  | cooldownUp
  | cooldownDown
  | manualOutRange
  | scaleUp
  | scaleDown
  | surge
  | noChange
  | driftToMin
  | rateLimited
  deriving DecidableEq

structure Inputs (F : Type) where
  currentReplicas : Int32
  readyReplicas : Int32
  history : List (Sample F)
  current : Sample F
  spec : Scale
  maxInFlight : Int32
  now : Int
  lastScaledAt : Int

structure Decision (F : Type) where
  desiredReplicas : Int32
  reason : Reason
  skip : Bool
  estimate : Estimate F

def clamp (v lo hi : Int32) : Int32 := if v < lo then lo else if v > hi then hi else v

def getOr (p : Option UInt32) (fallback : UInt32) : UInt32 := p.getD fallback

/-- The `[min, max]` bounds of a scale block. -/
def minMax (s : Scale) : Int32 × Int32 :=
  let minR :=
    match s.min with
    | some m => if m > defaultMinReplicas then m else defaultMinReplicas
    | none => defaultMinReplicas
  let maxR := s.max.getD defaultMaxReplicas
  (minR, if maxR < minR then minR else maxR)

/-! ## Cooldowns and steps -/

def scaleUpCooldown (s : Scale) : Int := (getOr s.scaleUpCooldownSeconds defaultScaleUpCooldownSeconds).toNat * second

def scaleDownCooldown (s : Scale) : Int :=
  (getOr s.scaleDownCooldownSeconds defaultScaleDownCooldownSeconds).toNat * second

def replicasPerScaleUp (s : Scale) : UInt32 := getOr s.replicasPerScaleUp defaultReplicasPerScaleUp

def replicasPerScaleDown (s : Scale) : UInt32 := getOr s.replicasPerScaleDown defaultReplicasPerScaleDown

section
variable [Zero F] [Add F] [Sub F] [Mul F] [Div F] [Neg F] [LT F] [LE F] [DecidableLT F] [DecidableLE F] [Max F] [Min F]
  [IntCast F]

def defaultKneePerReplica : F := ((20 : Int) : F)
def confFloor : F := ratio 6 10
def surgeRatio : F := ratio 15 10

def lerp (a b t : F) : F := a + (b - a) * clampF t 0 ((1 : Int) : F)

/-- The saturation lever as a fraction; unset or zero is the default, and more than 100 counts as 100. -/
def targetSaturation (s : Scale) : F :=
  let pct := getOr s.targetSaturationPercentage defaultTargetSaturationPercentage
  let pct := if pct = 0 then defaultTargetSaturationPercentage else pct
  let pct := if pct > 100 then 100 else pct
  ratio pct.toNat 100

/-- The per-replica in-flight level to aim for. -/
def scalingTarget (inp : Inputs F) (est : Estimate F) : F :=
  let knee := lerp defaultKneePerReplica est.kneePerReplica est.confidence
  let s := targetSaturation inp.spec
  let effectiveS := s * (confFloor + (((1 : Int) : F) - confFloor) * clampF est.confidence 0 ((1 : Int) : F))
  max (knee * effectiveS) (ratio 1 1000000000)

/-- The replica count that the per-replica load was measured over. -/
def inflightBasis (inp : Inputs F) : Int32 :=
  if inp.current.replicas > 0 then inp.current.replicas
  else if inp.readyReplicas > 0 then inp.readyReplicas
  else inp.currentReplicas

def isSurge (inp : Inputs F) (target totalInflight : F) : Bool :=
  let capacity := (inp.currentReplicas.toInt : F) * target
  decide (capacity > 0 ∧ surgeRatio ≤ totalInflight / capacity)

def scaleUp (inp : Inputs F) (est : Estimate F) (desired : Int32) (target totalInflight : F) (stepUp : Int32)
    (cooldown sinceLast : Int) : Decision F :=
  if inp.maxInFlight > 0 ∧ (inp.maxInFlight.toInt : F) ≤ totalInflight then
    ⟨inp.currentReplicas, .rateLimited, true, est⟩
  else if sinceLast < cooldown then ⟨inp.currentReplicas, .cooldownUp, true, est⟩
  else
    let reason := if isSurge inp target totalInflight then .surge else .scaleUp
    let diff := min (desired - inp.currentReplicas) stepUp
    ⟨inp.currentReplicas + diff, reason, false, est⟩

def scaleDown (inp : Inputs F) (est : Estimate F) (desired stepDown : Int32) (cooldown sinceLast : Int) : Decision F :=
  if sinceLast < cooldown then ⟨inp.currentReplicas, .cooldownDown, true, est⟩
  else
    let diff := min (inp.currentReplicas - desired) stepDown
    ⟨inp.currentReplicas - diff, .scaleDown, false, est⟩

/-- The estimate of a decision that learned nothing. -/
def noEstimate : Estimate F := ⟨0, false, 0⟩

/-- What the estimator is run with. -/
structure Learner (F : Type) [LT F] [DecidableLT F] where
  math : GoMath F
  byTime : SortSlice (Sample F) earlier
  byInflight : SortSlice (Bucket F) lighter

def Inputs.decide (l : Learner F) (inp : Inputs F) : Option (Decision F) :=
  let (minR, maxR) := minMax inp.spec
  if minR = maxR then some ⟨minR, .minEqualsMax, inp.currentReplicas == minR, noEstimate⟩
  else if inp.currentReplicas < minR ∨ inp.currentReplicas > maxR then
    some ⟨clamp inp.currentReplicas minR maxR, .manualOutRange, false, noEstimate⟩
  else
    let stepUp := (replicasPerScaleUp inp.spec).toInt32
    let stepDown := (replicasPerScaleDown inp.spec).toInt32
    let sinceLast := timeSub inp.now inp.lastScaledAt
    let totalInflight := inp.current.inflightPerRep * ((inflightBasis inp).toInt : F)
    if totalInflight ≤ 0 then
      if inp.currentReplicas ≤ minR then some ⟨inp.currentReplicas, .noChange, true, noEstimate⟩
      else if sinceLast < scaleDownCooldown inp.spec then some ⟨inp.currentReplicas, .cooldownDown, true, noEstimate⟩
      else some ⟨max (inp.currentReplicas - stepDown) minR, .driftToMin, false, noEstimate⟩
    else do
      let est ← estimateKnee l.math l.byTime l.byInflight inp.history inp.now
      let target := scalingTarget inp est
      let desired := clamp (l.math.ceilInt32 (totalInflight / target)) minR maxR
      if desired = inp.currentReplicas then return ⟨desired, .noChange, true, est⟩
      else if desired > inp.currentReplicas then
        return scaleUp inp est desired target totalInflight stepUp (scaleUpCooldown inp.spec) sinceLast
      else return scaleDown inp est desired stepDown (scaleDownCooldown inp.spec) sinceLast

end

/-! ## What a decision can do -/

/-- The autoscaler and the pod controller read the same bounds. -/
theorem minMax_eq_scaleBounds (s : Scale) :
    (minMax s).1.toInt = (Pods.scaleBounds s).1 ∧ (minMax s).2.toInt = (Pods.scaleBounds s).2 := by
  have hmin : (minMax s).1.toInt = (Pods.scaleBounds s).1 := by
    unfold minMax Pods.scaleBounds
    cases s.min with
    | none => rfl
    | some m =>
      dsimp only
      split_ifs <;> rfl
  refine ⟨hmin, ?_⟩
  have hmax : ∀ hi, s.max.getD defaultMaxReplicas = hi → (Pods.scaleBounds s).2 =
      if hi.toInt < (Pods.scaleBounds s).1 then (Pods.scaleBounds s).1 else hi.toInt := by
    rintro hi rfl
    unfold Pods.scaleBounds
    cases s.max <;> rfl
  rw [hmax _ rfl, ← hmin]
  change (if _ < (minMax s).1 then (minMax s).1 else _).toInt = _
  by_cases h : s.max.getD defaultMaxReplicas < (minMax s).1
  · rw [if_pos h, if_pos (Int32.lt_iff_toInt_lt.mp h)]
  · rw [if_neg h, if_neg (h ∘ Int32.lt_iff_toInt_lt.mpr)]

theorem clamp_mem {v lo hi : Int32} (h : lo.toInt ≤ hi.toInt) :
    lo.toInt ≤ (clamp v lo hi).toInt ∧ (clamp v lo hi).toInt ≤ hi.toInt := by
  unfold clamp
  split_ifs with hlo hhi
  · exact ⟨le_rfl, h⟩
  · exact ⟨h, le_rfl⟩
  · rw [Int32.lt_iff_toInt_lt] at hlo
    rw [gt_iff_lt, Int32.lt_iff_toInt_lt] at hhi
    omega

/-- A move of the count from `c` to `d`, `sinceLast` after the last one. -/
def Moves (s : Scale) (sinceLast c d : Int) : Prop :=
  (c < d ∧ d ≤ (minMax s).2.toInt ∧ d - c ≤ (replicasPerScaleUp s).toNat ∧ scaleUpCooldown s ≤ sinceLast) ∨
    (d < c ∧ (minMax s).1.toInt ≤ d ∧ c - d ≤ (replicasPerScaleDown s).toNat ∧ scaleDownCooldown s ≤ sinceLast)

theorem minMax_le (s : Scale) : 1 ≤ (minMax s).1.toInt ∧ (minMax s).1.toInt ≤ (minMax s).2.toInt := by
  obtain ⟨hmin, hmax⟩ := minMax_eq_scaleBounds s
  obtain ⟨h1, h2, -⟩ := Pods.scaleBounds_spec s
  omega

section
variable [Zero F] [Add F] [Sub F] [Mul F] [Div F] [Neg F] [LT F] [LE F] [DecidableLT F] [DecidableLE F] [Max F] [Min F]
  [IntCast F] {inp : Inputs F} {est : Estimate F} {desired : Int32}

/-- A decision is skipped, keeps the count, or moves it. -/
def Decision.Allowed (inp : Inputs F) (sinceLast : Int) (dec : Decision F) : Prop :=
  dec.skip = true ∨ dec.desiredReplicas = inp.currentReplicas ∨
    Moves inp.spec sinceLast inp.currentReplicas.toInt dec.desiredReplicas.toInt

theorem toInt_raise {cur desired : Int32} {step : UInt32} (hstep : step.toNat < 2 ^ 31) (hcur : 0 ≤ cur.toInt)
    (hlt : cur.toInt < desired.toInt) :
    (cur + min (desired - cur) step.toInt32).toInt = cur.toInt + min (desired.toInt - cur.toInt) step.toNat := by
  have hd := desired.toInt_lt
  have hdiff : (min (desired - cur) step.toInt32).toInt = min (desired.toInt - cur.toInt) step.toNat := by
    rw [toInt_min, toInt_sub_of_mem (by omega) (by omega), toInt_toInt32 hstep]
  rw [toInt_add_of_mem (by omega) (by omega), hdiff]

theorem toInt_lower {cur desired : Int32} {step : UInt32} (hstep : step.toNat < 2 ^ 31) (hpos : 0 ≤ desired.toInt)
    (hlt : desired.toInt < cur.toInt) :
    (cur - min (cur - desired) step.toInt32).toInt = cur.toInt - min (cur.toInt - desired.toInt) step.toNat := by
  have hc := cur.toInt_lt
  have hdiff : (min (cur - desired) step.toInt32).toInt = min (cur.toInt - desired.toInt) step.toNat := by
    rw [toInt_min, toInt_sub_of_mem (by omega) (by omega), toInt_toInt32 hstep]
  rw [toInt_sub_of_mem (by omega) (by omega), hdiff]

/-- The count of a scale-up: the rate limit and the cooldown hold it back, the step cap bounds it. -/
theorem toInt_scaleUp {target totalInflight : F} {cooldown sinceLast : Int} {step : UInt32}
    (hstep : step.toNat < 2 ^ 31) (hcur : 0 ≤ inp.currentReplicas.toInt) (hlt : inp.currentReplicas.toInt < desired.toInt) :
    (scaleUp inp est desired target totalInflight step.toInt32 cooldown sinceLast).desiredReplicas.toInt =
      if (inp.maxInFlight > 0 ∧ (inp.maxInFlight.toInt : F) ≤ totalInflight) ∨ sinceLast < cooldown then
        inp.currentReplicas.toInt
      else inp.currentReplicas.toInt + min (desired.toInt - inp.currentReplicas.toInt) step.toNat := by
  by_cases hrate : inp.maxInFlight > 0 ∧ (inp.maxInFlight.toInt : F) ≤ totalInflight
  · simp only [scaleUp, if_pos hrate, if_pos (Or.inl hrate)]
  by_cases hcool : sinceLast < cooldown
  · simp only [scaleUp, if_neg hrate, if_pos hcool, if_pos (Or.inr hcool)]
  · simp only [scaleUp, if_neg hrate, if_neg hcool, if_neg (not_or_intro hrate hcool)]
    exact toInt_raise hstep hcur hlt

theorem toInt_scaleDown {cooldown sinceLast : Int} {step : UInt32} (hstep : step.toNat < 2 ^ 31)
    (hpos : 0 ≤ desired.toInt) (hlt : desired.toInt < inp.currentReplicas.toInt) :
    (scaleDown inp est desired step.toInt32 cooldown sinceLast).desiredReplicas.toInt =
      if sinceLast < cooldown then inp.currentReplicas.toInt
      else inp.currentReplicas.toInt - min (inp.currentReplicas.toInt - desired.toInt) step.toNat := by
  by_cases hcool : sinceLast < cooldown
  · simp only [scaleDown, if_pos hcool]
  · simp only [scaleDown, if_neg hcool]
    exact toInt_lower hstep hpos hlt

/-- The load that a decision acts on. -/
def Inputs.totalInflight (inp : Inputs F) : F := inp.current.inflightPerRep * ((inflightBasis inp).toInt : F)

/-- What `Decide` can answer from a count within the bounds. -/
theorem decide_cases {l : Learner F} {dec : Decision F} (hmin : (minMax inp.spec).1.toInt ≤ inp.currentReplicas.toInt)
    (hmax : inp.currentReplicas.toInt ≤ (minMax inp.spec).2.toInt) (h : inp.decide l = some dec) :
    dec.desiredReplicas = inp.currentReplicas ∨
    ((minMax inp.spec).1.toInt < inp.currentReplicas.toInt ∧
      scaleDownCooldown inp.spec ≤ timeSub inp.now inp.lastScaledAt ∧
      dec.desiredReplicas = max (inp.currentReplicas - (replicasPerScaleDown inp.spec).toInt32) (minMax inp.spec).1) ∨
    (∃ est desired, inp.currentReplicas.toInt < desired.toInt ∧ desired.toInt ≤ (minMax inp.spec).2.toInt ∧
      dec = scaleUp inp est desired (scalingTarget inp est) inp.totalInflight (replicasPerScaleUp inp.spec).toInt32
        (scaleUpCooldown inp.spec) (timeSub inp.now inp.lastScaledAt)) ∨
    ∃ est desired, (minMax inp.spec).1.toInt ≤ desired.toInt ∧ desired.toInt < inp.currentReplicas.toInt ∧
      dec = scaleDown inp est desired (replicasPerScaleDown inp.spec).toInt32 (scaleDownCooldown inp.spec)
        (timeSub inp.now inp.lastScaledAt) := by
  have hle := (minMax_le inp.spec).2
  unfold Inputs.decide at h
  dsimp only at h
  split_ifs at h with hfixed hmanual hidle hlow hcool
  · -- bounds that coincide leave no other count
    obtain rfl := Option.some.inj h
    refine .inl (Int32.toInt_inj.mp ?_)
    have := congrArg Int32.toInt hfixed
    dsimp only
    omega
  · -- the count is not outside the bounds
    rw [gt_iff_lt, Int32.lt_iff_toInt_lt, Int32.lt_iff_toInt_lt] at hmanual
    omega
  · obtain rfl := Option.some.inj h
    exact .inl rfl
  · obtain rfl := Option.some.inj h
    exact .inl rfl
  · obtain rfl := Option.some.inj h
    rw [Int32.le_iff_toInt_le] at hlow
    exact .inr (.inl ⟨not_le.mp hlow, not_lt.mp hcool, rfl⟩)
  · rw [Option.bind_eq_bind, Option.bind_eq_some_iff] at h
    obtain ⟨est, -, h⟩ := h
    have hmem := clamp_mem (v := l.math.ceilInt32
      (inp.current.inflightPerRep * ((inflightBasis inp).toInt : F) / scalingTarget inp est)) hle
    split_ifs at h with hsame habove
    · obtain rfl := Option.some.inj h
      exact .inl hsame
    · rw [gt_iff_lt, Int32.lt_iff_toInt_lt] at habove
      exact .inr (.inr (.inl ⟨est, _, habove, hmem.2, (Option.some.inj h).symm⟩))
    · rw [gt_iff_lt, Int32.lt_iff_toInt_lt] at habove
      rw [← Int32.toInt_inj] at hsame
      exact .inr (.inr (.inr ⟨est, _, hmem.1, by omega, (Option.some.inj h).symm⟩))

theorem toInt_drift (hdown : (replicasPerScaleDown inp.spec).toNat < 2 ^ 31) (hcur : 0 ≤ inp.currentReplicas.toInt) :
    (max (inp.currentReplicas - (replicasPerScaleDown inp.spec).toInt32) (minMax inp.spec).1).toInt =
      max (inp.currentReplicas.toInt - (replicasPerScaleDown inp.spec).toNat) (minMax inp.spec).1.toInt := by
  have hc := inp.currentReplicas.toInt_lt
  have hstep := toInt_toInt32 hdown
  rw [toInt_max, toInt_sub_of_mem (by omega) (by omega), hstep]

/-- **Decisions are paced and bounded.** -/
theorem decide_allowed {l : Learner F} {dec : Decision F} (hup : (replicasPerScaleUp inp.spec).toNat < 2 ^ 31)
    (hdown : (replicasPerScaleDown inp.spec).toNat < 2 ^ 31)
    (hmin : (minMax inp.spec).1.toInt ≤ inp.currentReplicas.toInt)
    (hmax : inp.currentReplicas.toInt ≤ (minMax inp.spec).2.toInt) (h : inp.decide l = some dec) :
    dec.Allowed inp (timeSub inp.now inp.lastScaledAt) := by
  have hone := (minMax_le inp.spec).1
  right
  rw [← Int32.toInt_inj]
  unfold Moves
  rcases decide_cases hmin hmax h with hkeep | ⟨hlow, hcool, hdrift⟩ | ⟨est, desired, hlt, hhi, rfl⟩ |
    ⟨est, desired, hlo, hlt, rfl⟩
  · exact .inl (congrArg Int32.toInt hkeep)
  · rw [hdrift, toInt_drift hdown (by omega)]
    omega
  · rw [toInt_scaleUp hup (by omega) hlt]
    split_ifs with hheld
    · exact .inl rfl
    · rw [not_or, not_lt] at hheld
      omega
  · rw [toInt_scaleDown hdown (by omega) hlt]
    split_ifs with hcool
    · exact .inl rfl
    · omega

/-- Under a load that has reached the rate limit, the count is not raised. -/
theorem decide_le_of_rateLimited {l : Learner F} {dec : Decision F} (hlimit : inp.maxInFlight > 0)
    (hload : (inp.maxInFlight.toInt : F) ≤ inp.totalInflight)
    (hdown : (replicasPerScaleDown inp.spec).toNat < 2 ^ 31)
    (hmin : (minMax inp.spec).1.toInt ≤ inp.currentReplicas.toInt)
    (hmax : inp.currentReplicas.toInt ≤ (minMax inp.spec).2.toInt) (h : inp.decide l = some dec) :
    dec.desiredReplicas.toInt ≤ inp.currentReplicas.toInt := by
  have hone := (minMax_le inp.spec).1
  rcases decide_cases hmin hmax h with hkeep | ⟨hlow, -, hdrift⟩ | ⟨est, desired, hlt, hhi, rfl⟩ |
    ⟨est, desired, hlo, hlt, rfl⟩
  · exact (congrArg Int32.toInt hkeep).le
  · rw [hdrift, toInt_drift hdown (by omega)]
    omega
  · -- the ceiling is checked before the cooldown and the step cap
    simp only [scaleUp, if_pos (And.intro hlimit hload), le_refl]
  · rw [toInt_scaleDown hdown (by omega) hlt]
    split_ifs
    · exact le_rfl
    · omega

end

end KynoMesh.Scaling
