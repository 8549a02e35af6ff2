import KynoMesh.Lib.Loop
import KynoMesh.Pods.Replicas

/-!
# `reconcilePods`

The per-replica pod set of an AgentDeploy and the pass that drives it toward the desired spec (`pods.go`):
scale-down, classification of the slots, creation of empty slots, and the batched rolling replacement with its wait
gate. `reconcile` is the whole pass of the controller with the status it persists (`controller.go`).

* `PodStore` : the pods that `ListOwnedPods` returns, with the API server's guarantee that names are unique;
* `PodApi` : the faults of the API calls of one pass; a pass that meets one returns an error;
* `deletePod`, `createPodForReplica` : a missing pod and a name already taken are tolerated;
* `reconcilePods`, `updatePodStatus`, `reconcile`.
-/

namespace KynoMesh.Pods
open KynoMesh.Lib KynoMesh.Api

/-! ## Pods -/

structure PodCondition where
  type : String
  status : ConditionStatus
  deriving DecidableEq

inductive PodPhase where
  | pending
  | running
  | succeeded
  | failed
  | unknown
  deriving DecidableEq

/-- A pod: its name, the hash and replica annotations (empty when absent), whether it has a deletion timestamp, its
conditions and its phase, which the controller does not read. -/
structure Pod where
  name : String
  hash : String := ""
  replica : String := ""
  terminating : Bool := false
  conditions : List PodCondition := []
  phase : PodPhase := .pending
  deriving DecidableEq

def podReady (p : Pod) : Bool := p.conditions.any fun c => c.type == "Ready" && c.status == .true

/-- The bucket of a pod in `groupPodsByReplica`: an invalid replica annotation lands in `-1`. -/
def Pod.slot (p : Pod) : Int := (atoi p.replica).getD (-1)

def Pod.live (p : Pod) : Bool := !p.terminating

/-- The owned pods, in list order. -/
structure PodStore where
  pods : List Pod
  nodup : (pods.map Pod.name).Nodup

namespace PodStore

/-- A pod with a deletion timestamp, if its name is in `names`. -/
def mark (names : List String) (p : Pod) : Pod := if p.name ∈ names then { p with terminating := true } else p

@[simp] theorem mark_name (names : List String) (p : Pod) : (mark names p).name = p.name := by
  unfold mark; split_ifs <;> rfl

theorem map_mark_name (names : List String) (ps : List Pod) :
    (ps.map (mark names)).map Pod.name = ps.map Pod.name := by
  simp [Function.comp_def]

def empty : PodStore := ⟨[], List.nodup_nil⟩

/-- The API server's delete: the pod stays, terminating, until it vanishes. -/
def delete (st : PodStore) (name : String) : PodStore :=
  ⟨st.pods.map (mark [name]), by rw [map_mark_name]; exact st.nodup⟩

/-- The API server's create: a name that is taken changes nothing. -/
def create (st : PodStore) (p : Pod) : PodStore :=
  if h : p.name ∈ st.pods.map Pod.name then st
  else ⟨st.pods ++ [p], by
    rw [List.map_append, List.nodup_append]
    refine ⟨st.nodup, List.nodup_singleton _, fun a ha b hb hab => h ?_⟩
    rw [List.map_singleton, List.mem_singleton] at hb
    rwa [← hb, ← hab]⟩

/-- A terminating pod disappears. -/
def vanish (st : PodStore) (name : String) : PodStore :=
  ⟨st.pods.filter fun p => !(p.name == name && p.terminating),
    st.nodup.sublist (List.filter_sublist.map Pod.name)⟩

/-- A pod's conditions are replaced. -/
def setConditions (st : PodStore) (name : String) (conditions : List PodCondition) : PodStore :=
  ⟨st.pods.map fun p => if p.name = name then { p with conditions := conditions } else p, by
    have h : (st.pods.map fun p => if p.name = name then { p with conditions := conditions } else p).map Pod.name =
        st.pods.map Pod.name := by
      rw [List.map_map]
      refine List.map_congr_left fun p _ => ?_
      dsimp only [Function.comp]
      split_ifs <;> rfl
    rw [h]; exact st.nodup⟩

end PodStore

/-! ## API calls -/

/-- The faults of the API calls of a pass, other than a missing pod on delete and a taken name on create. -/
structure PodApi where
  listFault : Option String := none
  deleteFault : Pod → Option String := fun _ => none
  createFault : Pod → Option String := fun _ => none

/-- What a pass of the controller reads besides the AgentDeploy and its pods: the clock, the random tails of the pod
names it may create, the faults it meets and the order of its map loop. -/
structure PassInput where
  now : Int
  suffix : Nat → String
  api : PodApi := {}
  order : RangeOrder Int := RangeOrder.listed

/-- The controller: the hash of the pod spec that `buildPodSpec` renders from a namespace, a name and a spec, and the
library function that scales `maxUnavailable`. -/
structure Reconciler where
  hashPodSpec : String → String → AgentDeploySpec → String
  scaledValue : ScaledValue

/-- `MustHash(buildPodSpec(ad, ...))`. -/
def Reconciler.podSpecHash (r : Reconciler) (ad : AgentDeploy) : String :=
  r.hashPodSpec ad.metadata.nspace ad.metadata.name ad.spec

def newPod (ad : AgentDeploy) (replica : Nat) (hash : String) (suffix : String) : Pod where
  name := ad.metadata.name ++ "-" ++ itoa replica ++ "-" ++ suffix
  hash := hash
  replica := itoa replica

def deletePod (api : PodApi) (st : PodStore) (p : Pod) : Except String PodStore :=
  if p.terminating then .ok st
  else
    match api.deleteFault p with
    | some e => .error ("failed to delete pod " ++ p.name ++ ": " ++ e)
    | none => .ok (st.delete p.name)

def createPodForReplica (inp : PassInput) (ad : AgentDeploy) (hash : String) (st : PodStore) (replica : Nat) :
    Except String PodStore :=
  let pod := newPod ad replica hash (inp.suffix replica)
  match inp.api.createFault pod with
  | some e => .error ("failed to create pod for replica " ++ itoa replica ++ ": " ++ e)
  | none => .ok (st.create pod)

def listOwnedPods (api : PodApi) (st : PodStore) : Except String (List Pod) :=
  match api.listFault with
  | some e => .error e
  | none => .ok st.pods

def groupPodsByReplica (pods : List Pod) : Dict Int (List Pod) :=
  pods.foldl (fun out p => out.insert p.slot ((out.lookup p.slot).getD [] ++ [p])) ∅

/-- `byReplica[replica]`. -/
def podsAt (byReplica : Dict Int (List Pod)) (replica : Int) : List Pod := (byReplica.lookup replica).getD []

/-! ## The pass -/

/-- Step (1): delete the pods outside `[0, desired)`. -/
def deleteOutside (inp : PassInput) (desired : Int) (byReplica : Dict Int (List Pod)) (st : PodStore) :
    Except String PodStore :=
  (inp.order.visit byReplica.keys).foldlM (fun st replica =>
    if 0 ≤ replica ∧ replica < desired then .ok st
    else (podsAt byReplica replica).foldlM (deletePod inp.api) st) st

/-- The state of the inner loop over the pods of one slot. -/
structure SlotScan where
  store : PodStore
  kept : Option Pod := none
  hasLiveOld : Bool := false

def scanPod (api : PodApi) (desiredHash : String) (c : SlotScan) (p : Pod) : Except String SlotScan :=
  if p.terminating then .ok c
  else if p.hash = desiredHash then
    match c.kept with
    | none => .ok { c with kept := some p }
    | some _ => do
      let st ← deletePod api c.store p
      return { c with store := st }
  else .ok { c with hasLiveOld := true }

/-- The state of the classification loop over the slots. -/
structure Classified where
  store : PodStore
  needsCreate : List Nat := []
  needsReplace : List Nat := []
  updatedOnDesired : Nat := 0
  updatedReadyOnDesired : Nat := 0

def classifySlot (api : PodApi) (desiredHash : String) (byReplica : Dict Int (List Pod)) (c : Classified)
    (replica : Nat) : Except String Classified := do
  let scan ← (podsAt byReplica replica).foldlM (scanPod api desiredHash) { store := c.store }
  match scan.kept with
  | some kept =>
    return { c with
      store := scan.store
      updatedOnDesired := c.updatedOnDesired + 1
      updatedReadyOnDesired := c.updatedReadyOnDesired + if podReady kept then 1 else 0 }
  | none =>
    if scan.hasLiveOld then return { c with store := scan.store, needsReplace := c.needsReplace ++ [replica] }
    else return { c with store := scan.store, needsCreate := c.needsCreate ++ [replica] }

/-- Replace one slot of the batch: delete its live outdated pods, then create. -/
def replaceSlot (inp : PassInput) (ad : AgentDeploy) (desiredHash : String) (byReplica : Dict Int (List Pod))
    (st : PodStore) (replica : Nat) : Except String PodStore := do
  let st ← (podsAt byReplica replica).foldlM (fun st p =>
    if p.terminating || p.hash == desiredHash then .ok st else deletePod inp.api st p) st
  createPodForReplica inp ad desiredHash st replica

/-- The status writes at the top of a pass: the scale stamp and the reset of the rollout cursor. -/
def stampStatus (now : Int) (desired : Int) (desiredHash : String) (s : AgentDeployStatus) : AgentDeployStatus :=
  let s := if UInt32.ofInt desired ≠ s.desiredReplicas then { s with lastScaledAt := now } else s
  let s := { s with desiredReplicas := UInt32.ofInt desired }
  if s.updateHash ≠ desiredHash then
    { s with updateHash := desiredHash, updatedReplicas := 0, updatedReadyReplicas := 0 }
  else s

def reconcilePods (r : Reconciler) (inp : PassInput) (ad : AgentDeploy) (st : PodStore) :
    Except String (AgentDeployStatus × PodStore) := do
  let desired := desiredReplicas ad
  let desiredHash := r.podSpecHash ad
  let status := stampStatus inp.now desired desiredHash ad.status
  let existing ← listOwnedPods inp.api st
  let byReplica := groupPodsByReplica existing
  let st ← deleteOutside inp desired byReplica st
  let c ← (List.range desired.toNat).foldlM (classifySlot inp.api desiredHash byReplica) { store := st }
  let st ← c.needsCreate.foldlM (createPodForReplica inp ad desiredHash) c.store
  if c.needsReplace.length = 0 then
    if ((c.updatedOnDesired + c.needsCreate.length : Nat) : Int) = desired then
      return ({ status with currentHash := desiredHash }, st)
    else return (status, st)
  else
    let maxUnavailable := resolveMaxUnavailable r.scaledValue ad desired
    if c.updatedOnDesired > 0 ∧ c.updatedReadyOnDesired < c.updatedOnDesired then
      return (status, st)
    else
      let batch := min maxUnavailable.toNat c.needsReplace.length
      let st ← (c.needsReplace.take batch).foldlM (replaceSlot inp ad desiredHash byReplica) st
      return (status, st)

/-! ## Status -/

/-- `updatePodStatus`, from the pods listed after the writes. -/
def updatePodStatus (ad : AgentDeploy) (s : AgentDeployStatus) (pods : List Pod) : AgentDeployStatus :=
  let live := pods.filter fun p => !p.terminating
  { s with
    replicas := UInt32.ofNat live.length
    readyReplicas := UInt32.ofNat (live.filter podReady).length
    updatedReplicas := UInt32.ofNat (live.filter fun p => p.hash == s.updateHash).length
    updatedReadyReplicas := UInt32.ofNat (live.filter fun p => p.hash == s.updateHash && podReady p).length
    selector := keyAgentSetName ++ "=" ++ ad.spec.agentSetName ++ "," ++ keyAgentDeployName ++ "=" ++
      ad.spec.agent.name ++ "," ++ keyManagedBy ++ "=" ++ controllerAgentDeploy }

def conditionDeployed : String := "Deployed"
def conditionPodsHealthy : String := "PodsHealthy"

/-- `Status.InitializeConditions` for the two conditions of an AgentDeploy. -/
def initializeConditions (now : Int) (s : AgentDeployStatus) : AgentDeployStatus :=
  { s with
    conditions := [conditionDeployed, conditionPodsHealthy].foldl
      (fun cs t => setCondition now cs { type := t, status := .unknown, reason := "Unknown" }) s.conditions }

def markStatus (now : Int) (type : String) (status : ConditionStatus) (reason message : String)
    (s : AgentDeployStatus) : AgentDeployStatus :=
  { s with
    conditions := setCondition now s.conditions
      { type := type, status := status, reason := reason, message := message } }

/-- The phase and health condition of a pass, from the counted status. -/
def settlePhase (now : Int) (s : AgentDeployStatus) : AgentDeployStatus :=
  if s.desiredReplicas > 0 ∧ s.readyReplicas = s.desiredReplicas then
    markStatus now conditionPodsHealthy .true "Successful" "Successful" { s with phase := .running }
  else
    markStatus now conditionPodsHealthy .false "NotAllReady"
      (itoa s.readyReplicas.toNat ++ "/" ++ itoa s.desiredReplicas.toNat ++ " replicas ready")
      { s with phase := .unknown }

/-- The times of a status as the API server keeps them: whole seconds. -/
def persistTimes (s : AgentDeployStatus) : AgentDeployStatus :=
  { s with
    lastScaledAt := truncSecond s.lastScaledAt
    conditions := s.conditions.map fun c => { c with lastTransitionTime := truncSecond c.lastTransitionTime } }

/-- The status that a pass starts from. -/
def openStatus (now : Int) (ad : AgentDeploy) : AgentDeployStatus :=
  { initializeConditions now ad.status with observedGeneration := ad.metadata.generation }

/-- The status that a pass persists, from the status `s` that `reconcilePods` left and the pods it ended with. -/
def closeStatus (now : Int) (ad : AgentDeploy) (s : AgentDeployStatus) (pods : List Pod) : AgentDeployStatus :=
  let s := { markStatus now conditionDeployed .true "Successful" "Successful" s with reason := "", message := "" }
  persistTimes (settlePhase now (updatePodStatus ad s pods))

/-- A pass of `reconcile` and `persist` whose services are in place: the AgentDeploy and the pods afterwards. -/
def reconcile (r : Reconciler) (inp : PassInput) (ad : AgentDeploy) (st : PodStore) :
    Except String (AgentDeploy × PodStore) := do
  let (s, st) ← reconcilePods r inp { ad with status := openStatus inp.now ad } st
  return ({ ad with status := closeStatus inp.now ad s st.pods }, st)

end KynoMesh.Pods
