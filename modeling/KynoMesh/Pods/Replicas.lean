import KynoMesh.Api.Types

/-!
# Replica counts and the replacement budget

`DesiredReplicas`, `scaleBounds` and `ResolveMaxUnavailable` of the AgentDeploy controller (`pods.go`).

* `scaleBounds_spec` : the bounds of a scale block are `1 ≤ lo ≤ hi < 2^31`;
* `one_le_desiredReplicas`, `desiredReplicas_lt` : so is every rendered count;
* `one_le_resolveMaxUnavailable` : the budget is never below one, whatever the scaled value is.
-/

namespace KynoMesh.Pods
open KynoMesh.Lib KynoMesh.Api

def clampInt (v lo hi : Int) : Int := if v < lo then lo else if v > hi then hi else v

/-- An AgentDeploy never renders zero replicas. -/
def atLeastOne (v : Int) : Int := if v < 1 then 1 else v

/-- The `[min, max]` bounds of a scale block. -/
def scaleBounds (s : Scale) : Int × Int :=
  let lo : Int :=
    match s.min with
    | some m => if m > defaultMinReplicas then m.toInt else defaultMinReplicas.toInt
    | none => defaultMinReplicas.toInt
  let hi : Int :=
    match s.max with
    | some m => m.toInt
    | none => defaultMaxReplicas.toInt
  (lo, if hi < lo then lo else hi)

/-- `DesiredReplicas`, from the two fields of the spec that it reads. -/
def desiredOf (scale : Scale) (replicas : Option Int32) : Int :=
  if scale.disabled then
    match replicas with
    | none => 1
    | some r => atLeastOne r.toInt
  else
    let (lo, hi) := scaleBounds scale
    match replicas with
    | none => lo
    | some r => clampInt r.toInt lo hi

def desiredReplicas (ad : AgentDeploy) : Int := desiredOf ad.spec.agent.scale ad.spec.replicas

/-- `intstr.GetScaledValueFromIntOrPercent`: the value, the total it is a share of, whether to round up. -/
abbrev ScaledValue := IntOrString → Int → Bool → Option Int

/-- The function itself: an integer as it is, a percentage of the total; anything else is an error. -/
def getScaledValueFromIntOrPercent : ScaledValue := fun v total roundUp =>
  match v with
  | .int n => some n.toInt
  | .str s =>
    if s.endsWith "%" then
      (atoi (s.dropEnd 1).toString).map fun p => if roundUp then -((-(p * total)) / 100) else p * total / 100
    else none

/-- `ResolveMaxUnavailable`: an error or a value below one gives one. -/
def resolveMaxUnavailable (scaledValue : ScaledValue) (ad : AgentDeploy) (desired : Int) : Int :=
  let mu := ad.spec.agent.updateStrategy.getRollingUpdateStrategy.getMaxUnavailable
  match scaledValue mu desired true with
  | none => 1
  | some n => if n < 1 then 1 else n

/-! ## Bounds -/

theorem scaleBounds_spec (s : Scale) :
    1 ≤ (scaleBounds s).1 ∧ (scaleBounds s).1 ≤ (scaleBounds s).2 ∧ (scaleBounds s).2 < 2 ^ 31 := by
  have hone : defaultMinReplicas.toInt = 1 := by decide
  have hfifty : defaultMaxReplicas.toInt = 50 := by decide
  have hlo : 1 ≤ (scaleBounds s).1 ∧ (scaleBounds s).1 < 2 ^ 31 := by
    unfold scaleBounds
    dsimp only
    cases hmin : s.min with
    | none => simp [hone]
    | some m =>
      have hlt := m.toInt_lt
      dsimp only
      split_ifs with hm
      · rw [gt_iff_lt, Int32.lt_iff_toInt_lt, hone] at hm
        omega
      · omega
  have hhi : (scaleBounds s).2 = (scaleBounds s).1 ∨ (scaleBounds s).1 ≤ (scaleBounds s).2 ∧ (scaleBounds s).2 < 2 ^ 31 := by
    unfold scaleBounds
    dsimp only
    cases s.max with
    | none => dsimp only; split_ifs <;> simp_all
    | some m =>
      have hlt := m.toInt_lt
      dsimp only
      split_ifs with h
      · exact Or.inl rfl
      · exact Or.inr ⟨not_lt.mp h, hlt⟩
  omega

theorem clampInt_spec {v lo hi : Int} (h : lo ≤ hi) : lo ≤ clampInt v lo hi ∧ clampInt v lo hi ≤ hi := by
  unfold clampInt
  split_ifs <;> omega

theorem clampInt_of_mem {v lo hi : Int} (hlo : lo ≤ v) (hhi : v ≤ hi) : clampInt v lo hi = v := by
  unfold clampInt
  split_ifs <;> omega

theorem desiredOf_bounds (scale : Scale) (replicas : Option Int32) :
    1 ≤ desiredOf scale replicas ∧ desiredOf scale replicas < 2 ^ 31 := by
  obtain ⟨h1, h2, h3⟩ := scaleBounds_spec scale
  unfold desiredOf
  split_ifs
  · cases replicas with
    | none => simp
    | some r =>
      have := r.toInt_lt
      dsimp only [atLeastOne]
      split_ifs <;> omega
  · cases replicas with
    | none => dsimp only; omega
    | some r =>
      have := clampInt_spec (v := r.toInt) h2
      dsimp only
      omega

theorem one_le_desiredReplicas (ad : AgentDeploy) : 1 ≤ desiredReplicas ad := (desiredOf_bounds _ _).1

theorem desiredReplicas_lt (ad : AgentDeploy) : desiredReplicas ad < 2 ^ 31 := (desiredOf_bounds _ _).2

/-- With autoscaling on, the rendered count lies within the bounds of the scale block. -/
theorem desiredOf_mem_scaleBounds {scale : Scale} (hd : scale.disabled = false) (replicas : Option Int32) :
    (scaleBounds scale).1 ≤ desiredOf scale replicas ∧ desiredOf scale replicas ≤ (scaleBounds scale).2 := by
  obtain ⟨_, h2, _⟩ := scaleBounds_spec scale
  unfold desiredOf
  rw [if_neg (by simp [hd])]
  cases replicas with
  | none => exact ⟨le_refl _, h2⟩
  | some r => exact clampInt_spec h2

theorem desiredOf_some_of_mem {scale : Scale} (hd : scale.disabled = false) {r : Int32}
    (hlo : (scaleBounds scale).1 ≤ r.toInt) (hhi : r.toInt ≤ (scaleBounds scale).2) :
    desiredOf scale (some r) = r.toInt := by
  unfold desiredOf
  rw [if_neg (by simp [hd])]
  exact clampInt_of_mem hlo hhi

theorem one_le_resolveMaxUnavailable (scaledValue : ScaledValue) (ad : AgentDeploy) (desired : Int) :
    1 ≤ resolveMaxUnavailable scaledValue ad desired := by
  unfold resolveMaxUnavailable
  dsimp only
  split
  · exact le_refl _
  · split_ifs <;> omega

end KynoMesh.Pods
