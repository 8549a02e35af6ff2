import Mathlib.Data.List.Nodup
import KynoMesh.Pods.World

/-!
# The AgentDeploy controller

`Reconcile`, `reconcile` and `persist` of `controller.go` with all of their exits. `Pods.reconcile` is the pass that
meets no error.

* `mem_setCondition_of_not_stands`, `nodup_setCondition` : what `setCondition` does to a list of conditions;
* `Controller.reconcile_of_ok` : the pass without errors is `Pods.reconcile`;
* `Controller.deployed_restamped` : every pass restamps the condition `Deployed`;
* `Controller.invisible_iff` : of the passes that leave all conditions as they were, those that are not seen.
-/

namespace KynoMesh.Api

/-! ## Conditions -/

section
variable {now : Int} {conditions : List Condition} {condition : Condition}

/-- The condition is in the list, up to its transition time. -/
def Stands (conditions : List Condition) (condition : Condition) : Prop :=
  ∃ c ∈ conditions, c = { condition with lastTransitionTime := c.lastTransitionTime }

theorem setCondition_of_stands (h : Stands conditions condition) :
    setCondition now conditions condition = conditions := by
  obtain ⟨c, hc, heq⟩ := h
  refine if_pos (List.any_eq_true.mpr ⟨c, hc, ?_⟩)
  have htype : c.type = condition.type := by rw [heq]
  rw [Bool.and_eq_true, beq_iff_eq, beq_iff_eq]
  exact ⟨htype, heq⟩

theorem setCondition_of_not_stands (h : ¬Stands conditions condition) :
    setCondition now conditions condition =
      (conditions.filter (fun c : Condition => c.type != condition.type) ++
        [{ condition with lastTransitionTime := now }]).mergeSort fun a b => decide (a.type ≤ b.type) := by
  have hany : ¬conditions.any (fun c => c.type == condition.type &&
      c == { condition with lastTransitionTime := c.lastTransitionTime }) = true := by
    intro hany
    obtain ⟨c, hc, hsame⟩ := List.any_eq_true.mp hany
    rw [Bool.and_eq_true, beq_iff_eq, beq_iff_eq] at hsame
    exact h ⟨c, hc, hsame.2⟩
  exact if_neg hany

theorem mem_setCondition_of_not_stands (h : ¬Stands conditions condition) {c : Condition} :
    c ∈ setCondition now conditions condition ↔
      c ∈ conditions ∧ c.type ≠ condition.type ∨ c = { condition with lastTransitionTime := now } := by
  rw [setCondition_of_not_stands h, List.mem_mergeSort, List.mem_append, List.mem_filter, List.mem_singleton, bne_iff_ne]

/-- The list by its contents: it is sorted by type. -/
theorem setCondition_eq (h : ¬Stands conditions condition) {l : List Condition}
    (hperm : (conditions.filter (fun c : Condition => c.type != condition.type) ++
      [{ condition with lastTransitionTime := now }]).Perm l)
    (hsorted : l.Pairwise fun a b : Condition => a.type ≤ b.type) (hdistinct : (l.map Condition.type).Nodup) :
    setCondition now conditions condition = l := by
  have hall := (List.mergeSort_perm (conditions.filter (fun c : Condition => c.type != condition.type) ++
    [{ condition with lastTransitionTime := now }]) fun a b => decide (a.type ≤ b.type)).trans hperm
  rw [setCondition_of_not_stands h]
  refine hall.eq_of_pairwise ?_ (List.pairwise_mergeSort ?_ ?_ _) (hsorted.imp fun hle => decide_eq_true hle)
  · intro a b ha hb hab hba
    rw [decide_eq_true_eq] at hab hba
    exact List.inj_on_of_nodup_map hdistinct (hall.mem_iff.mp ha) hb (String.le_antisymm hab hba)
  · intro a b c hab hbc
    rw [decide_eq_true_eq] at hab hbc ⊢
    exact String.le_trans hab hbc
  · intro a b
    rw [Bool.or_eq_true, decide_eq_true_eq, decide_eq_true_eq]
    exact String.le_total a.type b.type

theorem mem_setCondition_of_type_ne {c : Condition} (htype : c.type ≠ condition.type) :
    c ∈ setCondition now conditions condition ↔ c ∈ conditions := by
  by_cases h : Stands conditions condition
  · rw [setCondition_of_stands h]
  · rw [mem_setCondition_of_not_stands h]
    constructor
    · rintro (⟨hc, -⟩ | rfl)
      · exact hc
      · exact absurd rfl htype
    · exact fun hc => .inl ⟨hc, htype⟩

/-- Afterwards there is one condition of the type, up to its transition time as it was set. -/
theorem eq_of_mem_setCondition (h : (conditions.map Condition.type).Nodup) {c : Condition}
    (hc : c ∈ setCondition now conditions condition) (htype : c.type = condition.type) :
    c = { condition with lastTransitionTime := c.lastTransitionTime } := by
  by_cases hs : Stands conditions condition
  · rw [setCondition_of_stands hs] at hc
    obtain ⟨c', hc', heq⟩ := hs
    have htype' : c'.type = condition.type := by rw [heq]
    obtain rfl := List.inj_on_of_nodup_map h hc hc' (htype.trans htype'.symm)
    exact heq
  · rcases (mem_setCondition_of_not_stands hs).mp hc with ⟨-, hne⟩ | rfl
    · exact absurd htype hne
    · rfl

theorem nodup_setCondition (h : (conditions.map Condition.type).Nodup) :
    ((setCondition now conditions condition).map Condition.type).Nodup := by
  by_cases hs : Stands conditions condition
  · rwa [setCondition_of_stands hs]
  · rw [setCondition_of_not_stands hs, ((List.mergeSort_perm _ _).map Condition.type).nodup_iff, List.map_append,
      List.nodup_append]
    refine ⟨h.sublist (List.filter_sublist.map _), List.nodup_singleton _, ?_⟩
    rintro type htype type' htype' rfl
    obtain ⟨c, hc, rfl⟩ := List.mem_map.mp htype
    have hne := (List.mem_filter.mp hc).2
    simp only [List.map_cons, List.map_nil, List.mem_singleton] at htype'
    simp [htype'] at hne

end

end KynoMesh.Api

namespace KynoMesh.Pods.Controller
open KynoMesh.Lib KynoMesh.Api

/-! ## The pass -/

/-- What a pass of the controller reads: the inputs of `reconcilePods`, the clock at the four calls of `setCondition`,
the errors of `reconcileServices` and of the list in `updatePodStatus`, and the fault of the status patch. -/
structure Input where
  pods : PassInput
  clock : Fin 4 → Int
  servicesFault : Option String := none
  relistFault : Option String := none
  patchFault : Option String := none

/-- `Status.InitializeConditions`, at two readings of the clock. -/
def initializeConditions (clock : Fin 4 → Int) (s : AgentDeployStatus) : AgentDeployStatus :=
  markStatus (clock 1) conditionPodsHealthy .unknown "Unknown" "" (markStatus (clock 0) conditionDeployed .unknown "Unknown" "" s)

/-- The exits of a pass that did not bring up its children. -/
def fail (now : Int) (reason err : String) (s : AgentDeployStatus) : AgentDeployStatus × Option String :=
  ({ markStatus now conditionDeployed .false reason err s with phase := .failed, reason := reason, message := err },
    some err)

/-- The status of the copy at the end of `reconcile`, and its error. -/
def reconcile (r : Reconciler) (inp : Input) (ad : AgentDeploy) (st : PodStore) : AgentDeployStatus × Option String :=
  let s := { initializeConditions inp.clock ad.status with observedGeneration := ad.metadata.generation }
  match inp.servicesFault with
  | some e => fail (inp.clock 2) "ServiceFailed" e s
  | none =>
    match reconcilePods r inp.pods { ad with status := s } st with
    | .error e =>
      -- the writes at the top of `reconcilePods` are done
      fail (inp.clock 2) "PodsFailed" e (stampStatus inp.pods.now (desiredReplicas ad) (r.podSpecHash ad) s)
    | .ok (s, st) =>
      let s := { markStatus (inp.clock 2) conditionDeployed .true "Successful" "Successful" s with
        reason := "", message := "" }
      match inp.relistFault with
      | some e => (s, some ("failed to compute pod status: " ++ e))
      | none => (settlePhase (inp.clock 3) (updatePodStatus ad s st.pods), none)

/-- The status patch, if any, and its error. -/
def persist (patchFault : Option String) (original updated : AgentDeployStatus) :
    Option AgentDeployStatus × Option String :=
  if original = updated then (none, none)
  else (some updated, patchFault.map fun e => "failed to patch status: " ++ e)

inductive GetFault where
  | notFound
  | other (err : String)

/-- A call of `Track` or of `Forget`. -/
inductive WatchCall where
  | track
  | forget
  deriving DecidableEq

/-- What `Reconcile` does: its calls of the autoscaler and of the drift watcher, its status patch and its error. -/
structure Outcome where
  scaler : Option WatchCall := none
  driftWatcher : Option WatchCall := none
  patch : Option AgentDeployStatus := none
  err : Option String := none

/-- `Reconcile`. -/
def reconcileRequest (r : Reconciler) (inp : Input) (got : Except GetFault AgentDeploy) (st : PodStore) : Outcome :=
  match got with
  | .error .notFound => { scaler := some .forget, driftWatcher := some .forget }
  | .error (.other e) => { err := some ("failed to get AgentDeploy: " ++ e) }
  | .ok original =>
    if original.metadata.deletionTimestamp ≠ zeroTime then
      { scaler := some .forget, driftWatcher := some .forget }
    else
      let (updated, reconcileErr) := reconcile r inp original st
      let (patch, persistErr) := persist inp.patchFault original.status updated
      { scaler := some .track
        driftWatcher := some (if driftReloadIsEnabled original.spec.agent.driftReload then .track else .forget)
        patch := patch
        err := reconcileErr.or persistErr }

section
variable {r : Reconciler} {inp : Input} {ad : AgentDeploy} {st : PodStore}

/-- Without errors, and with one reading of the clock, the pass is that of `Pods.reconcile`. -/
theorem reconcile_of_ok (hclock : ∀ k, inp.clock k = inp.pods.now) (hservices : inp.servicesFault = none)
    (hrelist : inp.relistFault = none) {ad' : AgentDeploy} {st' : PodStore}
    (hok : Pods.reconcile r inp.pods ad st = .ok (ad', st')) :
    ∃ s, reconcile r inp ad st = (s, none) ∧ ad' = { ad with status := persistTimes s } := by
  have hopen : { initializeConditions inp.clock ad.status with observedGeneration := ad.metadata.generation } =
      openStatus inp.pods.now ad := by
    unfold initializeConditions
    rw [hclock, hclock]
    rfl
  obtain ⟨s, hpods, rfl⟩ := reconcilePods_of_reconcile hok
  unfold reconcile
  dsimp only
  rw [hopen, hservices, hpods, hrelist]
  dsimp only
  rw [hclock, hclock]
  exact ⟨_, rfl, rfl⟩

/-! ## The condition `Deployed` -/

/-- The stamp that a pass gives to the condition `Deployed`. -/
def Restamped (now : Int) (s : AgentDeployStatus) : Prop :=
  (s.conditions.map Condition.type).Nodup ∧
    ∃ c ∈ s.conditions, c.type = conditionDeployed ∧ c.lastTransitionTime = now

/-- Nothing is known of the deployment. -/
def Opened (s : AgentDeployStatus) : Prop :=
  (s.conditions.map Condition.type).Nodup ∧ ∀ c ∈ s.conditions, c.type = conditionDeployed → c.status = .unknown

theorem opened_initializeConditions (clock : Fin 4 → Int) {s : AgentDeployStatus}
    (h : (s.conditions.map Condition.type).Nodup) : Opened (initializeConditions clock s) := by
  refine ⟨nodup_setCondition (nodup_setCondition h), fun c hc htype => ?_⟩
  -- the condition `PodsHealthy` has another type
  rw [initializeConditions, markStatus, mem_setCondition_of_type_ne (by rw [htype]; decide)] at hc
  rw [eq_of_mem_setCondition h hc htype]

theorem Opened.mark {s : AgentDeployStatus} (h : Opened s) (now : Int) (status : ConditionStatus)
    (hstatus : status ≠ .unknown) (reason message : String) :
    Restamped now (markStatus now conditionDeployed status reason message s) := by
  refine ⟨nodup_setCondition h.1, _, (mem_setCondition_of_not_stands ?_).mpr (.inr rfl), rfl, rfl⟩
  rintro ⟨c, hc, heq⟩
  have hunknown := h.2 c hc (by rw [heq])
  rw [heq] at hunknown
  exact hstatus hunknown

theorem Restamped.settlePhase {now : Int} {s : AgentDeployStatus} (h : Restamped now s) (now' : Int) :
    Restamped now (settlePhase now' s) := by
  obtain ⟨hnodup, c, hc, htype, htime⟩ := h
  have hne : c.type ≠ conditionPodsHealthy := by
    rw [htype]
    decide
  unfold Pods.settlePhase
  split_ifs
  · exact ⟨nodup_setCondition hnodup, c, (mem_setCondition_of_type_ne hne).mpr hc, htype, htime⟩
  · exact ⟨nodup_setCondition hnodup, c, (mem_setCondition_of_type_ne hne).mpr hc, htype, htime⟩

theorem stampStatus_conditions (now desired : Int) (hash : String) (s : AgentDeployStatus) :
    (stampStatus now desired hash s).conditions = s.conditions := by
  unfold stampStatus
  dsimp only
  split_ifs <;> rfl

theorem conditions_of_reconcilePods {inp : PassInput} {s' : AgentDeployStatus} {st' : PodStore}
    (hok : reconcilePods r inp ad st = .ok (s', st')) : s'.conditions = ad.status.conditions := by
  obtain ⟨-, -, -, -, -, -, -, rfl⟩ := reconcilePods_stages hok
  unfold statusAfter
  dsimp only
  split_ifs
  · exact stampStatus_conditions _ _ _ _
  · exact stampStatus_conditions _ _ _ _

/-- **Every pass restamps the condition `Deployed`**: it is `Unknown` at first, and `True` or `False` at the end. -/
theorem deployed_restamped (r : Reconciler) (inp : Input) (ad : AgentDeploy) (st : PodStore)
    (h : (ad.status.conditions.map Condition.type).Nodup) :
    Restamped (inp.clock 2) (reconcile r inp ad st).1 := by
  have hopen : Opened { initializeConditions inp.clock ad.status with observedGeneration := ad.metadata.generation } :=
    opened_initializeConditions inp.clock h
  unfold reconcile
  dsimp only
  cases inp.servicesFault with
  | some e => exact hopen.mark _ .false (by decide) _ _
  | none =>
    dsimp only
    split
    · next e _ =>
      have hstamped : Opened (stampStatus inp.pods.now (desiredReplicas ad) (r.podSpecHash ad)
          { initializeConditions inp.clock ad.status with observedGeneration := ad.metadata.generation }) := by
        unfold Opened
        rw [stampStatus_conditions]
        exact hopen
      exact hstamped.mark _ .false (by decide) _ _
    · next s st' hok =>
      have hpods : Opened s := by
        unfold Opened
        rw [conditions_of_reconcilePods hok]
        exact hopen
      have hdeployed := hpods.mark (inp.clock 2) .true (by decide) "Successful" "Successful"
      cases inp.relistFault with
      | some e => exact hdeployed
      | none =>
        refine Restamped.settlePhase ?_ _
        exact hdeployed

/-! ## Passes that change nothing -/

/-- What a condition says, and of what. -/
def said (c : Condition) : String × ConditionStatus × String × String := (c.type, c.status, c.reason, c.message)

/-- The status of the copy when a request for an AgentDeploy is done. -/
def endStatus (r : Reconciler) (inp : Input) (ad : AgentDeploy) (st : PodStore) : AgentDeployStatus :=
  if ad.metadata.deletionTimestamp ≠ zeroTime then ad.status else (reconcile r inp ad st).1

/-- The AgentDeploy after a status patch. -/
def patched (ad : AgentDeploy) (patch : Option AgentDeployStatus) : AgentDeploy :=
  match patch with
  | some s => { ad with status := persistTimes s }
  | none => ad

/-- The predicate of the watch on AgentDeploys: the generation or the labels have changed. -/
def enqueues (old new : AgentDeploy) : Bool :=
  old.metadata.generation != new.metadata.generation || old.metadata.labels != new.metadata.labels

/-- A request leaves no trace: the conditions keep their times, and where the rest of the status is as it was, nothing is
written and the controller is not called again. -/
structure Invisible (r : Reconciler) (inp : Input) (ad : AgentDeploy) (st : PodStore) : Prop where
  times : ∀ c ∈ ad.status.conditions, ∀ c' ∈ (endStatus r inp ad st).conditions, c'.type = c.type →
    c'.lastTransitionTime = c.lastTransitionTime
  unwritten : { endStatus r inp ad st with conditions := ad.status.conditions } = ad.status →
    (reconcileRequest r inp (.ok ad) st).patch = none ∧
      enqueues ad (patched ad (reconcileRequest r inp (.ok ad) st).patch) = false

/-- A status patch never calls the controller that writes it. -/
theorem enqueues_patched (ad : AgentDeploy) (patch : Option AgentDeployStatus) : enqueues ad (patched ad patch) = false := by
  cases patch <;> simp [enqueues, patched]

/-- **Which requests that leave all conditions as they were leave no trace**, at times later than those of the
conditions: those for an AgentDeploy that is being deleted. -/
theorem invisible_iff (r : Reconciler) (inp : Input) (ad : AgentDeploy) (st : PodStore)
    (hdistinct : (ad.status.conditions.map Condition.type).Nodup)
    (hlater : ∀ k, ∀ c ∈ ad.status.conditions, c.lastTransitionTime < inp.clock k)
    (hsame : ((endStatus r inp ad st).conditions.map said).Perm (ad.status.conditions.map said)) :
    Invisible r inp ad st ↔ ad.metadata.deletionTimestamp ≠ zeroTime := by
  constructor
  · intro hinv
    by_contra hlive
    have hend : endStatus r inp ad st = (reconcile r inp ad st).1 := if_neg (not_not.mpr hlive)
    obtain ⟨-, c, hc, -, htime⟩ := deployed_restamped r inp ad st hdistinct
    rw [← hend] at hc
    -- the same condition before the pass
    obtain ⟨c₀, hc₀, hsaid⟩ := List.mem_map.mp (hsame.mem_iff.mp (List.mem_map_of_mem hc))
    have htype : c.type = c₀.type := (congrArg Prod.fst hsaid).symm
    have hkept := hinv.times c₀ hc₀ c hc htype
    have := hlater 2 c₀ hc₀
    omega
  · intro hdeleted
    have hend : endStatus r inp ad st = ad.status := if_pos hdeleted
    have hpatch : (reconcileRequest r inp (.ok ad) st).patch = none := by
      unfold reconcileRequest
      dsimp only
      rw [if_pos hdeleted]
    refine ⟨fun c hc c' hc' htype => ?_, fun _ => ⟨hpatch, enqueues_patched ad _⟩⟩
    rw [hend] at hc'
    rw [List.inj_on_of_nodup_map hdistinct hc' hc htype]

end

/-- The two conditions of an AgentDeploy, one as good as the other since `t`. -/
def bothConditions (status : ConditionStatus) (reason message : String) (t : Int) : List Condition :=
  [{ type := conditionDeployed, status := status, reason := reason, message := message, lastTransitionTime := t },
    { type := conditionPodsHealthy, status := status, reason := reason, message := message, lastTransitionTime := t }]

/-- One replica on the desired hash, ready. -/
def oneReady (conditions : List Condition) : AgentDeployStatus where
  conditions := conditions
  phase := .running
  replicas := 1
  desiredReplicas := 1
  selector := "kynomesh.kyno.sh/agentset-name=mesh,kynomesh.kyno.sh/agentdeploy-name=planner," ++
    "app.kubernetes.io/managed-by=agentdeploy-controller"
  readyReplicas := 1
  updatedReplicas := 1
  updatedReadyReplicas := 1
  currentHash := "a"
  updateHash := "a"

def healthyDeploy (deletionTimestamp t : Int) : AgentDeploy where
  metadata := { nspace := "default", name := "planner", deletionTimestamp := deletionTimestamp }
  spec := imageSpec "a" 1
  status := oneReady (bothConditions .true "Successful" "Successful" t)

def readyStore : PodStore :=
  PodStore.empty.create { name := "planner-0-x", hash := "a", replica := "0", conditions := [⟨"Ready", .true⟩] }

def inputAt (t : Int) : Input := { pods := { now := t, suffix := fun _ => "x" }, clock := fun _ => t }

section
variable {a b condition : Condition} {now : Int}

theorem setCondition_deployed (ha : a.type = conditionDeployed) (hb : b.type = conditionPodsHealthy)
    (hc : condition.type = conditionDeployed) (hstatus : a.status ≠ condition.status) :
    setCondition now [a, b] condition = [{ condition with lastTransitionTime := now }, b] := by
  refine setCondition_eq ?_ ?_ ?_ ?_
  · rintro ⟨c, hmem, heq⟩
    rcases List.mem_pair.mp hmem with rfl | rfl
    · exact hstatus (by rw [heq])
    · rw [heq, hc] at hb
      exact absurd hb (by decide)
  · rw [List.filter_cons_of_neg (by simp [ha, hc]), List.filter_cons_of_pos (by rw [hb, hc]; decide), List.filter_nil]
    exact List.Perm.swap _ _ _
  · simp only [List.pairwise_pair, hb, hc]
    decide
  · simp only [List.map_cons, List.map_nil, hb, hc]
    decide

theorem setCondition_podsHealthy (ha : a.type = conditionDeployed) (hb : b.type = conditionPodsHealthy)
    (hc : condition.type = conditionPodsHealthy) (hstatus : b.status ≠ condition.status) :
    setCondition now [a, b] condition = [a, { condition with lastTransitionTime := now }] := by
  refine setCondition_eq ?_ ?_ ?_ ?_
  · rintro ⟨c, hmem, heq⟩
    rcases List.mem_pair.mp hmem with rfl | rfl
    · rw [heq, hc] at ha
      exact absurd ha (by decide)
    · exact hstatus (by rw [heq])
  · rw [List.filter_cons_of_pos (by rw [ha, hc]; decide), List.filter_cons_of_neg (by simp [hb, hc]), List.filter_nil]
    rfl
  · simp only [List.pairwise_pair, ha, hc]
    decide
  · simp only [List.map_cons, List.map_nil, ha, hc]
    decide

end

/-- A pass over a healthy AgentDeploy changes nothing but the times of its conditions. -/
theorem reconcile_healthy (deletionTimestamp t t' : Int) :
    reconcile imageReconciler (inputAt t') (healthyDeploy deletionTimestamp t) readyStore =
      ((healthyDeploy deletionTimestamp t').status, none) := by
  have hopen : { initializeConditions (inputAt t').clock (healthyDeploy deletionTimestamp t).status with
      observedGeneration := (healthyDeploy deletionTimestamp t).metadata.generation } =
      oneReady (bothConditions .unknown "Unknown" "" t') := by
    unfold initializeConditions markStatus
    dsimp only [healthyDeploy, oneReady, bothConditions, inputAt]
    rw [setCondition_deployed rfl rfl rfl (by simp), setCondition_podsHealthy rfl rfl rfl (by simp)]
  have hpods : reconcilePods imageReconciler (inputAt t').pods
      { healthyDeploy deletionTimestamp t with status := oneReady (bothConditions .unknown "Unknown" "" t') } readyStore =
        .ok (oneReady (bothConditions .unknown "Unknown" "" t'), readyStore) := rfl
  have hdeployed : markStatus t' conditionDeployed .true "Successful" "Successful"
      (oneReady (bothConditions .unknown "Unknown" "" t')) =
        oneReady [{ type := conditionDeployed, status := .true, reason := "Successful", message := "Successful"
                    lastTransitionTime := t' },
          { type := conditionPodsHealthy, status := .unknown, reason := "Unknown", lastTransitionTime := t' }] := by
    unfold markStatus
    dsimp only [oneReady, bothConditions]
    rw [setCondition_deployed rfl rfl rfl (by simp)]
  have hselector : keyAgentSetName ++ "=" ++ (imageSpec "a" 1).agentSetName ++ "," ++ keyAgentDeployName ++ "=" ++
      (imageSpec "a" 1).agent.name ++ "," ++ keyManagedBy ++ "=" ++ controllerAgentDeploy = (oneReady []).selector := by
    decide +kernel
  have hcounts : ∀ cs, updatePodStatus (healthyDeploy deletionTimestamp t) (oneReady cs) readyStore.pods = oneReady cs := by
    intro cs
    unfold updatePodStatus
    dsimp only [healthyDeploy]
    rw [hselector]
    rfl
  have hcleared : ∀ cs, { oneReady cs with reason := "", message := "" } = oneReady cs := fun _ => rfl
  have hphase : ∀ cs, settlePhase t' (oneReady cs) =
      markStatus t' conditionPodsHealthy .true "Successful" "Successful" (oneReady cs) :=
    fun _ => if_pos ⟨show (0 : UInt32) < 1 by decide, rfl⟩
  unfold reconcile
  dsimp only
  rw [hopen, hpods]
  change (settlePhase t' (updatePodStatus (healthyDeploy deletionTimestamp t)
    { markStatus t' conditionDeployed .true "Successful" "Successful"
        (oneReady (bothConditions .unknown "Unknown" "" t')) with reason := "", message := "" } readyStore.pods), none) =
      (oneReady (bothConditions .true "Successful" "Successful" t'), none)
  rw [hdeployed, hcleared, hcounts, hphase]
  unfold markStatus
  dsimp only [oneReady, bothConditions]
  rw [setCondition_podsHealthy rfl rfl rfl (by simp)]

theorem invisible_deleted :
    Invisible imageReconciler (inputAt (200 * second)) (healthyDeploy (150 * second) (100 * second)) readyStore := by
  refine (invisible_iff imageReconciler (inputAt (200 * second)) (healthyDeploy (150 * second) (100 * second)) readyStore
    ?_ ?_ ?_).mpr (by decide)
  · decide
  · decide
  · exact List.Perm.refl _

/-- A pass over a healthy AgentDeploy writes its status again, only to move the times of its conditions. -/
theorem healthy_restamped :
    ∃ s, reconcile imageReconciler (inputAt (200 * second)) (healthyDeploy zeroTime (100 * second)) readyStore = (s, none) ∧
      s.conditions.map said = (healthyDeploy zeroTime (100 * second)).status.conditions.map said ∧
      { s with conditions := (healthyDeploy zeroTime (100 * second)).status.conditions } =
        (healthyDeploy zeroTime (100 * second)).status ∧
      (healthyDeploy zeroTime (100 * second)).status.conditions.map Condition.lastTransitionTime =
        [100 * second, 100 * second] ∧
      s.conditions.map Condition.lastTransitionTime = [200 * second, 200 * second] ∧
      (reconcileRequest imageReconciler (inputAt (200 * second)) (.ok (healthyDeploy zeroTime (100 * second)))
        readyStore).patch = some s := by
  have hpass := reconcile_healthy zeroTime (100 * second) (200 * second)
  have hpatch : (healthyDeploy zeroTime (100 * second)).status ≠ (healthyDeploy zeroTime (200 * second)).status := by
    decide
  refine ⟨_, hpass, by decide, by decide, by decide, by decide, ?_⟩
  unfold reconcileRequest
  dsimp only
  rw [if_neg (by decide), hpass]
  dsimp only
  rw [persist, if_neg hpatch]

end KynoMesh.Pods.Controller
