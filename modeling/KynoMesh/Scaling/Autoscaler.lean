import KynoMesh.History.Store
import KynoMesh.Lib.Transition
import KynoMesh.Pods.Rollout
import KynoMesh.Scaling.Decide
import Mathlib.Data.Rat.Floor

/-!
# The autoscaling loop

`scaleKey` of `scaling/autoscaler.go`, and the loop that it closes with the AgentDeploy controller: the autoscaler reads
the status and patches `spec.replicas`; a later pass of the controller renders that count, and stamps the status with
it and with the time.

* `scaleKey_patch` : what the autoscaler may patch;
* `reconcile_stamp` : what a pass writes to the fields that the autoscaler reads;
* `Governed` : the invariant of the loop, established by any pass (`governed_of_pass`) and kept by every event;
* `loop_paced` : after a pass, the rendered count stays within the bounds, moves by at most the step caps, and its
  successive moves are a cooldown apart.
-/

set_option linter.unusedSectionVars false

namespace KynoMesh.Scaling

open KynoMesh.Lib KynoMesh.Api KynoMesh.History KynoMesh.Pods

variable {F : Type} [Zero F] [Add F] [Sub F] [Mul F] [Div F] [Neg F] [LT F] [LE F] [DecidableLT F] [DecidableLE F]
  [Max F] [Min F] [IntCast F]

/-! ## A tick -/

structure Autoscaler (F : Type) [LT F] [DecidableLT F] where
  learner : Learner F
  maxSampleAge : Int

/-- What a tick does: nothing, drop the in-memory history, or patch `spec.replicas`. -/
inductive Verdict where
  | skip
  | forget
  | patch (desired : Int32)
  deriving DecidableEq

/-- `d.Seconds()`. -/
def secondsOf (d : Int) : F := (((wholeSeconds d).1 : Int) : F) + (((wholeSeconds d).2 : Int) : F) / (second : F)

/-- Both cooldowns are running. -/
def coolingDown (ad : AgentDeploy) (wall : Int) : Prop :=
  let since : F := secondsOf (timeSub wall ad.status.lastScaledAt)
  let scale := ad.spec.agent.scale
  since < (((getOr scale.scaleDownCooldownSeconds defaultScaleDownCooldownSeconds).toNat : Int) : F) ∧
    since < (((getOr scale.scaleUpCooldownSeconds defaultScaleUpCooldownSeconds).toNat : Int) : F)

instance (ad : AgentDeploy) (wall : Int) : Decidable (coolingDown (F := F) ad wall) :=
  inferInstanceAs (Decidable (_ ∧ _))

def maxInFlightOf (ad : AgentDeploy) : Int32 := (ad.spec.agent.rateLimit.bind RateLimit.maxInFlight).getD 0

def decisionInputs (ad : AgentDeploy) (hist : List (Sample F)) (latest : Sample F) (now : Int) : Inputs F where
  currentReplicas := ad.status.replicas.toInt32
  readyReplicas := ad.status.readyReplicas.toInt32
  history := hist
  current := latest
  spec := ad.spec.agent.scale
  maxInFlight := maxInFlightOf ad
  now := now
  lastScaledAt := ad.status.lastScaledAt

/-- The part of `scaleKey` behind the gates on the AgentDeploy. -/
def evaluate (a : Autoscaler F) (ad : AgentDeploy) (hist : List (Sample F)) (now : Int) : Option Verdict :=
  match hist.getLast? with
  | none => some .skip
  | some latest =>
    if timeSub now latest.timestamp > a.maxSampleAge then some .skip
    else do
      let dec ← (decisionInputs ad hist latest now).decide a.learner
      if dec.skip = true ∨ dec.desiredReplicas = ad.status.replicas.toInt32 then return .skip
      else return .patch dec.desiredReplicas

/-- The verdict on an AgentDeploy, and its store afterwards; `none` if the decision indexes out of range. `wall` is the
time that the cooldown gate reads, `now` the autoscaler's clock. -/
def scaleKey (a : Autoscaler F) (ad : AgentDeploy) (store : Option (ConfigMapStore F)) (wall now : Int) :
    Option (Verdict × Option (ConfigMapStore F)) :=
  if ad.metadata.deletionTimestamp ≠ zeroTime then some (.forget, none)
  else if ad.spec.agent.scale.disabled then some (.skip, store)
  else if ad.status.phase ≠ .running then some (.skip, store)
  else if ad.status.updateHash ≠ ad.status.currentHash ∧ ad.status.updateHash ≠ "" then some (.skip, store)
  else if ad.status.replicas ≠ ad.status.desiredReplicas then some (.skip, store)
  else if ad.status.readyReplicas = 0 then some (.skip, store)
  else if coolingDown (F := F) ad wall then some (.skip, store)
  else
    match store with
    | none => some (.skip, none)
    | some s =>
      let (hist, s) := s.history now
      (evaluate a ad hist now).map fun verdict => (verdict, some s)

def applyReplicas (ad : AgentDeploy) (desired : Int32) : AgentDeploy :=
  { ad with spec := { ad.spec with replicas := some desired } }

theorem evaluate_patch {a : Autoscaler F} {ad : AgentDeploy} {hist : List (Sample F)} {now : Int} {d : Int32}
    (h : evaluate a ad hist now = some (.patch d)) :
    ∃ latest dec, (decisionInputs ad hist latest now).decide a.learner = some dec ∧ dec.skip ≠ true ∧
      dec.desiredReplicas ≠ ad.status.replicas.toInt32 ∧ d = dec.desiredReplicas := by
  unfold evaluate at h
  split at h
  · cases h
  · next latest _ =>
    split_ifs at h
    · cases h
    · rw [Option.bind_eq_bind, Option.bind_eq_some_iff] at h
      obtain ⟨dec, hdec, h⟩ := h
      split_ifs at h with hskip
      · cases h
      · obtain ⟨hs, hd⟩ := not_or.mp hskip
        cases h
        exact ⟨latest, dec, hdec, hs, hd, rfl⟩

/-- A patch comes from a decision on a fleet that the controller has settled. -/
theorem scaleKey_patch {a : Autoscaler F} {ad : AgentDeploy} {store store' : Option (ConfigMapStore F)}
    {wall now : Int} {d : Int32} (h : scaleKey a ad store wall now = some (.patch d, store')) :
    ad.status.replicas = ad.status.desiredReplicas ∧ ∃ hist, evaluate a ad hist now = some (.patch d) := by
  unfold scaleKey at h
  split_ifs at h with _ _ _ _ hsettled
  any_goals cases h
  split at h
  · cases h
  · next s =>
    obtain ⟨verdict, hverdict, heq⟩ := Option.map_eq_some_iff.mp h
    cases heq
    exact ⟨not_not.mp hsettled, _, hverdict⟩

/-- **What the autoscaler may patch.** -/
theorem patch_moves {a : Autoscaler F} {ad : AgentDeploy} {store store' : Option (ConfigMapStore F)} {wall now : Int}
    {d : Int32} (hup : (replicasPerScaleUp ad.spec.agent.scale).toNat < 2 ^ 31)
    (hdown : (replicasPerScaleDown ad.spec.agent.scale).toNat < 2 ^ 31)
    (hmin : (minMax ad.spec.agent.scale).1.toInt ≤ ad.status.desiredReplicas.toNat)
    (hmax : ad.status.desiredReplicas.toNat ≤ (minMax ad.spec.agent.scale).2.toInt)
    (h : scaleKey a ad store wall now = some (.patch d, store')) :
    Moves ad.spec.agent.scale (timeSub now ad.status.lastScaledAt) ad.status.desiredReplicas.toNat d.toInt := by
  obtain ⟨hsettled, hist, heval⟩ := scaleKey_patch h
  obtain ⟨latest, dec, hdec, hskip, hne, rfl⟩ := evaluate_patch heval
  have hlt := (minMax ad.spec.agent.scale).2.toInt_lt
  have hcur : ad.status.replicas.toInt32.toInt = ad.status.desiredReplicas.toNat := by
    rw [hsettled]
    exact toInt_toInt32 (by omega)
  rcases decide_allowed hup hdown (by rw [← hcur] at hmin; exact hmin) (by rw [← hcur] at hmax; exact hmax) hdec with
    hs | hsame | hmoves
  · exact absurd hs hskip
  · exact absurd hsame hne
  · rw [← hcur]
    exact hmoves

/-! ## The loop -/

/-- The AgentDeploy and its pods, the store of its samples, and the time. -/
structure Loop (F : Type) where
  ad : AgentDeploy
  pods : PodStore
  store : Option (ConfigMapStore F) := none
  clock : Int

inductive LoopEvent (F : Type) where
  /-- A tick of the autoscaler; its patch may fail. -/
  | tick (wall now : Int) (patchFails : Bool)
  /-- A pass of the AgentDeploy controller that succeeds. -/
  | pass (inp : PassInput)
  | record (sample : Sample F) (specHash : Bytes)
  | kubelet (name : String) (conditions : List PodCondition)
  | vanish (name : String)

namespace Loop

/-- The loop after a tick. -/
def ticked (σ : Loop F) (now : Int) (patchFails : Bool) : Option (Verdict × Option (ConfigMapStore F)) → Loop F
  | none => { σ with clock := now }
  | some (.skip, store) => { σ with store := store, clock := now }
  | some (.forget, store) => { σ with store := store, clock := now }
  | some (.patch desired, store) =>
    { σ with ad := if patchFails then σ.ad else applyReplicas σ.ad desired, store := store, clock := now }

def step (a : Autoscaler F) (r : Reconciler) (opts : Bounds) (σ : Loop F) : LoopEvent F → Option (Loop F)
  | .tick wall now patchFails =>
    if σ.clock ≤ now then some (σ.ticked now patchFails (scaleKey a σ.ad σ.store wall now)) else none
  | .pass inp =>
    if σ.clock ≤ inp.now then
      match reconcile r inp σ.ad σ.pods with
      | .ok (ad, pods) => some { σ with ad := ad, pods := pods, clock := inp.now }
      | .error _ => none
    else none
  | .record sample specHash =>
    some { σ with store := some ((σ.store.getD (newConfigMapStore σ.ad opts)).record sample specHash) }
  | .kubelet name conditions => some { σ with pods := σ.pods.setConditions name conditions }
  | .vanish name => some { σ with pods := σ.pods.vanish name }

/-- `Status.DesiredReplicas`. -/
def desired (σ : Loop F) : Int := σ.ad.status.desiredReplicas.toNat

end Loop

/-! ## What a pass stamps -/

theorem reconcilePods_status {r : Reconciler} {inp : PassInput} {ad : AgentDeploy} {st st' : PodStore}
    {s : AgentDeployStatus} (h : reconcilePods r inp ad st = .ok (s, st')) :
    let stamped := stampStatus inp.now (desiredReplicas ad) (r.podSpecHash ad) ad.status
    s.desiredReplicas = stamped.desiredReplicas ∧ s.lastScaledAt = stamped.lastScaledAt := by
  unfold reconcilePods at h
  obtain ⟨existing, -, h⟩ := bind_eq_ok.mp h
  obtain ⟨st₁, -, h⟩ := bind_eq_ok.mp h
  obtain ⟨c, -, h⟩ := bind_eq_ok.mp h
  obtain ⟨st₂, -, h⟩ := bind_eq_ok.mp h
  have hreturn {s₀ : AgentDeployStatus} {st₀ : PodStore}
      (h : (pure (s₀, st₀) : Except String (AgentDeployStatus × PodStore)) = .ok (s, st')) : s = s₀ := by
    rw [pure_eq_ok, Prod.mk.injEq] at h
    exact h.1.symm
  split_ifs at h
  · rw [hreturn h]
    exact ⟨rfl, rfl⟩
  · rw [hreturn h]
    exact ⟨rfl, rfl⟩
  · rw [hreturn h]
    exact ⟨rfl, rfl⟩
  · obtain ⟨st₃, -, h⟩ := bind_eq_ok.mp h
    rw [hreturn h]
    exact ⟨rfl, rfl⟩

theorem toNat_ofInt_desiredReplicas (ad : AgentDeploy) :
    ((UInt32.ofInt (desiredReplicas ad)).toNat : Int) = desiredReplicas ad := by
  have h1 := one_le_desiredReplicas ad
  have h2 := desiredReplicas_lt ad
  rw [UInt32.ofInt, UInt32.toNat_ofNat']
  omega

/-- **What a pass writes to the fields that the autoscaler reads.** -/
theorem reconcile_stamp {r : Reconciler} {inp : PassInput} {ad ad' : AgentDeploy} {st st' : PodStore}
    (h : reconcile r inp ad st = .ok (ad', st')) :
    ad'.spec = ad.spec ∧ (ad'.status.desiredReplicas.toNat : Int) = desiredReplicas ad ∧
      ad'.status.lastScaledAt = truncSecond
        (if (ad.status.desiredReplicas.toNat : Int) = desiredReplicas ad then ad.status.lastScaledAt else inp.now) := by
  obtain ⟨s, hpods, rfl⟩ := reconcilePods_of_reconcile h
  obtain ⟨hd, hl⟩ := reconcilePods_status hpods
  obtain ⟨-, -, hd', hl'⟩ := stampStatus_fields inp.now (desiredReplicas ad) (r.podSpecHash ad) (openStatus inp.now ad)
  obtain ⟨-, -, hcd, hcl⟩ := closeStatus_fields inp.now ad s st'.pods
  have hdesired : s.desiredReplicas = UInt32.ofInt (desiredReplicas ad) := hd.trans hd'
  have hlast : s.lastScaledAt = if UInt32.ofInt (desiredReplicas ad) ≠ ad.status.desiredReplicas then inp.now
      else ad.status.lastScaledAt := hl.trans hl'
  have hto := toNat_ofInt_desiredReplicas ad
  refine ⟨rfl, ?_, ?_⟩
  · change ((closeStatus inp.now ad s st'.pods).desiredReplicas.toNat : Int) = _
    rw [hcd, hdesired, hto]
  · change (closeStatus inp.now ad s st'.pods).lastScaledAt = _
    rw [hcl, hlast]
    by_cases hsame : UInt32.ofInt (desiredReplicas ad) = ad.status.desiredReplicas
    · rw [if_neg (not_not_intro hsame), if_pos (by rw [← hsame, hto])]
    · rw [if_pos hsame, if_neg]
      intro heq
      refine hsame (UInt32.toNat_inj.mp ?_)
      omega

/-! ## The invariant -/

namespace Loop

/-- A loop whose last change of the rendered count, if there was one, was at `last`: the count is within the bounds, and
a count that waits to be rendered was allowed at some tick. -/
structure Governed (scale : Scale) (last : Option Int) (σ : Loop F) : Prop where
  scale_eq : σ.ad.spec.agent.scale = scale
  min_le : (minMax scale).1.toInt ≤ σ.desired
  le_max : σ.desired ≤ (minMax scale).2.toInt
  pending : desiredReplicas σ.ad = σ.desired ∨
    ∃ t ≤ σ.clock, Moves scale (timeSub t σ.ad.status.lastScaledAt) σ.desired (desiredReplicas σ.ad)
  stamp : ∀ t ∈ last, σ.ad.status.lastScaledAt = truncSecond t

section
variable {a : Autoscaler F} {r : Reconciler} {opts : Bounds} {scale : Scale} {last : Option Int} {σ σ' : Loop F}

theorem step_pass {inp : PassInput} (h : step a r opts σ (.pass inp) = some σ') :
    σ.clock ≤ inp.now ∧ σ'.clock = inp.now ∧ reconcile r inp σ.ad σ.pods = .ok (σ'.ad, σ'.pods) := by
  rw [step] at h
  split_ifs at h with hclock
  split at h
  · next ad pods hok =>
    obtain rfl := Option.some.inj h
    exact ⟨hclock, rfl, hok⟩
  · cases h

/-- Any pass brings the loop under control. -/
theorem governed_of_pass {inp : PassInput} (hen : scale.disabled = false) (hscale : σ.ad.spec.agent.scale = scale)
    (hlast : ∀ t ∈ last, σ.ad.status.lastScaledAt = truncSecond t) (h : step a r opts σ (.pass inp) = some σ') :
    Governed scale (if σ'.desired = σ.desired then last else some inp.now) σ' := by
  obtain ⟨-, -, hok⟩ := step_pass h
  obtain ⟨hspec, hdesired, hstamp⟩ := reconcile_stamp hok
  have hsame : desiredReplicas σ'.ad = desiredReplicas σ.ad := by
    rw [desiredReplicas, desiredReplicas, hspec]
  have hmem := desiredOf_mem_scaleBounds hen σ.ad.spec.replicas
  have hrender : desiredReplicas σ.ad = desiredOf scale σ.ad.spec.replicas := by rw [desiredReplicas, hscale]
  obtain ⟨hmin, hmax⟩ := minMax_eq_scaleBounds scale
  have hσ' : σ'.desired = desiredReplicas σ.ad := hdesired
  refine ⟨by rw [hspec, hscale], by omega, by omega, .inl (by rw [hsame, hσ']), fun t ht => ?_⟩
  rw [hstamp]
  change truncSecond (if σ.desired = desiredReplicas σ.ad then _ else _) = _
  by_cases hkept : σ'.desired = σ.desired
  · rw [if_pos hkept] at ht
    rw [if_pos (hkept.symm.trans hσ'), hlast t ht, truncSecond_truncSecond]
  · rw [if_neg hkept, Option.mem_some_iff] at ht
    rw [if_neg (fun hd => hkept (hσ'.trans hd.symm)), ht]

theorem Governed.later (hσ : Governed scale last σ) {now : Int} (hnow : σ.clock ≤ now)
    (store : Option (ConfigMapStore F)) : Governed scale last { σ with store := store, clock := now } := by
  refine ⟨hσ.scale_eq, hσ.min_le, hσ.le_max, ?_, hσ.stamp⟩
  rcases hσ.pending with hp | ⟨t, ht, hm⟩
  · exact .inl hp
  · exact .inr ⟨t, ht.trans hnow, hm⟩

/-- A count that the autoscaler may patch is within the bounds, and is rendered as it is. -/
theorem desiredOf_of_moves {since c : Int} {d : Int32} (hen : scale.disabled = false)
    (hmin : (minMax scale).1.toInt ≤ c) (hmax : c ≤ (minMax scale).2.toInt) (hm : Moves scale since c d.toInt) :
    desiredOf scale (some d) = d.toInt := by
  obtain ⟨hlo, hhi⟩ := minMax_eq_scaleBounds scale
  unfold Moves at hm
  exact desiredOf_some_of_mem hen (by omega) (by omega)

theorem governed_tick (hen : scale.disabled = false) (hup : (replicasPerScaleUp scale).toNat < 2 ^ 31)
    (hdown : (replicasPerScaleDown scale).toNat < 2 ^ 31) (hσ : Governed scale last σ) {wall now : Int}
    (hnow : σ.clock ≤ now) (patchFails : Bool) {result : Option (Verdict × Option (ConfigMapStore F))}
    (hkey : scaleKey a σ.ad σ.store wall now = result) : Governed scale last (σ.ticked now patchFails result) := by
  match result with
  | none => exact hσ.later hnow σ.store
  | some (.skip, store) => exact hσ.later hnow store
  | some (.forget, store) => exact hσ.later hnow store
  | some (.patch d, store) =>
    cases patchFails with
    | true => exact hσ.later hnow store
    | false =>
      obtain ⟨hscale, hmin, hmax, -, hstamp⟩ := hσ
      have hm := patch_moves (by rw [hscale]; exact hup) (by rw [hscale]; exact hdown) (by rw [hscale]; exact hmin)
        (by rw [hscale]; exact hmax) hkey
      rw [hscale] at hm
      have hrender : desiredReplicas (applyReplicas σ.ad d) = d.toInt := by
        rw [desiredReplicas]
        change desiredOf σ.ad.spec.agent.scale (some d) = _
        rw [hscale]
        exact desiredOf_of_moves hen hmin hmax hm
      refine ⟨hscale, hmin, hmax, .inr ⟨now, le_rfl, ?_⟩, hstamp⟩
      change Moves scale (timeSub now σ.ad.status.lastScaledAt) σ.desired (desiredReplicas (applyReplicas σ.ad d))
      rw [hrender]
      exact hm

theorem desired_ticked (now : Int) (patchFails : Bool) (result : Option (Verdict × Option (ConfigMapStore F))) :
    (σ.ticked now patchFails result).desired = σ.desired := by
  match result with
  | none => rfl
  | some (.skip, _) => rfl
  | some (.forget, _) => rfl
  | some (.patch d, _) => cases patchFails <;> rfl

/-! ## Pacing -/

/-- A change of the rendered count from `σ` to `σ'`, after one at `last`: at most a step, and at least a cooldown later,
up to the second that the persisted stamp is truncated to. -/
def Changes (scale : Scale) (last : Option Int) (σ σ' : Loop F) : Prop :=
  (σ.desired < σ'.desired → σ'.desired - σ.desired ≤ (replicasPerScaleUp scale).toNat ∧
    ∀ t ∈ last, scaleUpCooldown scale - second < σ'.clock - t) ∧
  (σ'.desired < σ.desired → σ.desired - σ'.desired ≤ (replicasPerScaleDown scale).toNat ∧
    ∀ t ∈ last, scaleDownCooldown scale - second < σ'.clock - t)

def InBounds (scale : Scale) (σ : Loop F) : Prop :=
  (scaleBounds scale).1 ≤ σ.desired ∧ σ.desired ≤ (scaleBounds scale).2

/-- Along the replay of `es`, the rendered count stays within the bounds and each of its changes is a `Changes`, where
`last` is the time of the last one before. -/
def Paced (a : Autoscaler F) (r : Reconciler) (opts : Bounds) (scale : Scale) :
    Option Int → Loop F → List (LoopEvent F) → Prop
  | _, _, [] => True
  | last, σ, e :: es =>
    match step a r opts σ e with
    | none => True
    | some σ' => InBounds scale σ' ∧
      if σ'.desired = σ.desired then Paced a r opts scale last σ' es
      else Changes scale last σ σ' ∧ Paced a r opts scale (some σ'.clock) σ' es

/-- A pass that renders another count renders one that was allowed, at a tick before it. -/
theorem changes_of_pass (hσ : Governed scale last σ) {inp : PassInput} (h : step a r opts σ (.pass inp) = some σ')
    (hne : σ'.desired ≠ σ.desired) : Changes scale last σ σ' := by
  obtain ⟨hclock, hnow, hok⟩ := step_pass h
  obtain ⟨-, hdesired, -⟩ := reconcile_stamp hok
  have hσ' : σ'.desired = desiredReplicas σ.ad := hdesired
  rcases hσ.pending with hp | ⟨t, ht, hm⟩
  · exact absurd (hσ'.trans hp) hne
  · have hgap : ∀ u ∈ last, ∀ cooldown, 0 ≤ cooldown → cooldown ≤ timeSub t σ.ad.status.lastScaledAt →
        cooldown - second < σ'.clock - u := by
      intro u hu cooldown hpos hc
      have hsub := le_sub_of_le_timeSub hpos hc
      have htrunc := lt_truncSecond_add u
      rw [hσ.stamp u hu] at hsub
      omega
    have hposUp : 0 ≤ scaleUpCooldown scale := Int.mul_nonneg (Int.natCast_nonneg _) (by decide)
    have hposDown : 0 ≤ scaleDownCooldown scale := Int.mul_nonneg (Int.natCast_nonneg _) (by decide)
    rw [← hσ'] at hm
    rcases hm with ⟨hlt, -, hstep, hcool⟩ | ⟨hlt, -, hstep, hcool⟩
    · exact ⟨fun _ => ⟨hstep, fun u hu => hgap u hu _ hposUp hcool⟩, fun hgt => absurd hgt (by omega)⟩
    · exact ⟨fun hgt => absurd hgt (by omega), fun _ => ⟨hstep, fun u hu => hgap u hu _ hposDown hcool⟩⟩

/-- **One event.** Only a pass renders another count. -/
theorem governed_step (hen : scale.disabled = false) (hup : (replicasPerScaleUp scale).toNat < 2 ^ 31)
    (hdown : (replicasPerScaleDown scale).toNat < 2 ^ 31) (hσ : Governed scale last σ) {e : LoopEvent F}
    (h : step a r opts σ e = some σ') :
    (σ'.desired = σ.desired ∧ Governed scale last σ') ∨
      (σ'.desired ≠ σ.desired ∧ Changes scale last σ σ' ∧ Governed scale (some σ'.clock) σ') := by
  cases e with
  | tick wall now patchFails =>
    rw [step] at h
    split_ifs at h with hnow
    obtain rfl := Option.some.inj h
    exact .inl ⟨desired_ticked now patchFails _, governed_tick hen hup hdown hσ hnow patchFails rfl⟩
  | pass inp =>
    have hgov := governed_of_pass hen hσ.scale_eq hσ.stamp h
    obtain ⟨-, hnow, -⟩ := step_pass h
    by_cases hsame : σ'.desired = σ.desired
    · rw [if_pos hsame] at hgov
      exact .inl ⟨hsame, hgov⟩
    · rw [if_neg hsame, ← hnow] at hgov
      exact .inr ⟨hsame, changes_of_pass hσ h hsame, hgov⟩
  | record sample specHash =>
    obtain rfl := Option.some.inj h
    exact .inl ⟨rfl, hσ.later le_rfl _⟩
  | kubelet name conditions =>
    obtain rfl := Option.some.inj h
    exact .inl ⟨rfl, hσ.scale_eq, hσ.min_le, hσ.le_max, hσ.pending, hσ.stamp⟩
  | vanish name =>
    obtain rfl := Option.some.inj h
    exact .inl ⟨rfl, hσ.scale_eq, hσ.min_le, hσ.le_max, hσ.pending, hσ.stamp⟩

theorem Governed.inBounds (hσ : Governed scale last σ) : InBounds scale σ := by
  obtain ⟨hmin, hmax⟩ := minMax_eq_scaleBounds scale
  exact ⟨hmin ▸ hσ.min_le, hmax ▸ hσ.le_max⟩

theorem Governed.paced (hen : scale.disabled = false) (hup : (replicasPerScaleUp scale).toNat < 2 ^ 31)
    (hdown : (replicasPerScaleDown scale).toNat < 2 ^ 31) (es : List (LoopEvent F)) (hσ : Governed scale last σ) :
    Paced a r opts scale last σ es := by
  induction es generalizing last σ with
  | nil => trivial
  | cons e es ih =>
    rw [Paced]
    cases hs : step a r opts σ e with
    | none => trivial
    | some σ' =>
      rcases governed_step hen hup hdown hσ hs with ⟨hsame, hσ'⟩ | ⟨hne, hchange, hσ'⟩
      · refine ⟨hσ'.inBounds, ?_⟩
        rw [if_pos hsame]
        exact ih hσ'
      · refine ⟨hσ'.inBounds, ?_⟩
        rw [if_neg hne]
        exact ⟨hchange, ih hσ'⟩

/-- No event but a patch touches the spec, and a patch leaves the scale block alone. -/
theorem scale_step {e : LoopEvent F} (h : step a r opts σ e = some σ') :
    σ'.ad.spec.agent.scale = σ.ad.spec.agent.scale := by
  cases e with
  | tick wall now patchFails =>
    rw [step] at h
    split_ifs at h
    obtain rfl := Option.some.inj h
    match scaleKey a σ.ad σ.store wall now with
    | none => rfl
    | some (.skip, _) => rfl
    | some (.forget, _) => rfl
    | some (.patch d, _) => cases patchFails <;> rfl
  | pass inp => rw [(reconcile_stamp (step_pass h).2.2).1]
  | record sample specHash =>
    obtain rfl := Option.some.inj h
    rfl
  | kubelet name conditions =>
    obtain rfl := Option.some.inj h
    rfl
  | vanish name =>
    obtain rfl := Option.some.inj h
    rfl

end

/-- **The loop is paced and bounded.** Let the scale block be enabled, with step caps that fit `int32`. In every run of
ticks, passes, recorded samples and pod events, on a clock that does not go back, after a pass: the rendered count stays
within the bounds, each change of it is at most a step, and two successive changes are a cooldown apart. -/
theorem loop_paced (a : Autoscaler F) (r : Reconciler) (opts : Bounds) (σ₀ : Loop F)
    (hen : σ₀.ad.spec.agent.scale.disabled = false)
    (hup : (replicasPerScaleUp σ₀.ad.spec.agent.scale).toNat < 2 ^ 31)
    (hdown : (replicasPerScaleDown σ₀.ad.spec.agent.scale).toNat < 2 ^ 31) {es₀ : List (LoopEvent F)} {inp : PassInput}
    {σ σ₁ : Loop F} (hr : run (step a r opts) σ₀ es₀ = some σ) (hpass : step a r opts σ (.pass inp) = some σ₁)
    (es : List (LoopEvent F)) :
    InBounds σ₀.ad.spec.agent.scale σ₁ ∧
      Paced a r opts σ₀.ad.spec.agent.scale (if σ₁.desired = σ.desired then none else some inp.now) σ₁ es := by
  have hscale : σ.ad.spec.agent.scale = σ₀.ad.spec.agent.scale :=
    run_invariant (I := fun u : Loop F => u.ad.spec.agent.scale = σ₀.ad.spec.agent.scale)
      (fun _ _ _ hu hs => (scale_step hs).trans hu) rfl hr
  have hgov : Governed σ₀.ad.spec.agent.scale (if σ₁.desired = σ.desired then none else some inp.now) σ₁ :=
    governed_of_pass hen hscale (by simp) hpass
  exact ⟨hgov.inBounds, hgov.paced hen hup hdown es⟩

/-! ### A surge -/

/-- Exact arithmetic, with a rational stand-in for the exponential. -/
def ratMath : GoMath ℚ where
  isNaN := fun _ => false
  ceilInt32 := fun q => if -2 ^ 31 ≤ q.ceil ∧ q.ceil < 2 ^ 31 then Int32.ofInt q.ceil else Int32.minValue
  truncInt := fun q => if 0 ≤ q then q.floor else q.ceil
  exp := fun q => 1 / (1 - q + q * q / 2)
  ln2 := 693147 / 1000000

def ratAutoscaler : Autoscaler ℚ where
  learner :=
    { math := ratMath
      byTime := SortSlice.insertion Sample.timestamp
      byInflight := SortSlice.insertion Bucket.inflight }
  maxSampleAge := 300 * second

/-- A new AgentDeploy with one to five replicas, and the default steps and cooldowns. -/
def surgeStart : Loop ℚ where
  ad :=
    { metadata := { nspace := "default", name := "planner" }
      spec :=
        { agent := { name := "planner", container := some { image := "a" }, scale := { max := some 5 } }
          agentSetName := "mesh" } }
  pods := PodStore.empty
  clock := 0

def passAt (t : Int) : PassInput where
  now := t * second
  suffix := fun _ => "x"

def readyAt (i : Nat) : LoopEvent ℚ := .kubelet ("planner-" ++ itoa i ++ "-x") [⟨"Ready", .true⟩]

/-- A hundred requests in flight on one replica, from second `t` on. -/
def loadAt (t : Int) : LoopEvent ℚ :=
  .record { timestamp := t * second, replicas := 1, inflightPerRep := 100, ratePerRep := 1 } [1]

def tickAt (t : Int) : LoopEvent ℚ := .tick (t * second) (t * second) false

/-- The load asks for more than five replicas; the loop gets there in two steps, the second one after a cooldown. -/
def surge : List (LoopEvent ℚ) :=
  [readyAt 0, .pass (passAt 10), loadAt 100, tickAt 100, .pass (passAt 101), readyAt 1, readyAt 2, .pass (passAt 110),
    loadAt 150, tickAt 150, .pass (passAt 151), loadAt 200, tickAt 200, .pass (passAt 201)]

theorem loop_paced_surge :
    ((run (step ratAutoscaler imageReconciler {}) surgeStart (.pass (passAt 0) :: surge)).map desired) = some 5 ∧
      ∃ σ₁, step ratAutoscaler imageReconciler {} surgeStart (.pass (passAt 0)) = some σ₁ ∧
        InBounds { max := some 5 } σ₁ ∧
        Paced ratAutoscaler imageReconciler {} { max := some 5 }
          (if σ₁.desired = surgeStart.desired then none else some 0) σ₁ surge := by
  have hpass : step ratAutoscaler imageReconciler {} surgeStart (.pass (passAt 0)) = some _ := rfl
  exact ⟨by decide +kernel, _, hpass,
    loop_paced ratAutoscaler imageReconciler {} surgeStart rfl (by decide) (by decide) (run_nil _ _) hpass surge⟩

end Loop

end KynoMesh.Scaling
