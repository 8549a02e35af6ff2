import KynoMesh.Lib.Client
import KynoMesh.Pods.Reconcile

/-!
# `reconcilePods`, call by call

The same pass as in `Reconcile`, as a client of the API server: its list of the pods is one call and each deletion and
creation another, pods change between them, and a pass that fails leaves what it has written so far. A list that is
served has all pods of that moment, so it sees every earlier write.

* `PodCall`, `Reply`, `serve` : the calls, and how they end: served, refused, or with their answer lost;
* `Calls.reconcilePods` : the pass;
* `reconcilePods_agrees` : with the server for itself it is `Pods.reconcilePods`, error for error.
-/

namespace KynoMesh.Pods
open KynoMesh.Lib KynoMesh.Api

/-! ## The server -/

inductive PodCall where
  | list
  | delete (p : Pod)
  /-- `RandomLowerCaseString`, for the pod of a replica. -/
  | random (replica : Nat)
  | create (p : Pod)

/-- An error of a deletion other than NotFound, of a creation other than AlreadyExists. -/
abbrev PodAnswer : PodCall → Type
  | .list => Except String (List Pod)
  | .delete _ => Option String
  | .random _ => String
  | .create _ => Option String

inductive Outcome where
  | served
  /-- Without an effect. -/
  | refused (message : String)
  /-- The effect takes place, and the client gets an error. -/
  | lost (message : String)

/-- How a call ends, and the random string if it asks for one. -/
structure Reply where
  outcome : PodCall → Outcome := fun _ => .served
  suffix : Nat → String

/-- A write with the effect `st'`. -/
def write (st st' : PodStore) : Outcome → Option String × PodStore
  | .served => (none, st')
  | .refused message => (some message, st)
  | .lost message => (some message, st')

def serve (f : Reply) (st : PodStore) : (q : PodCall) → PodAnswer q × PodStore
  | .list =>
    match f.outcome .list with
    | .served => (.ok st.pods, st)
    | .refused message | .lost message => (.error message, st)
  | .delete p => write st (st.delete p.name) (f.outcome (.delete p))
  | .random replica => (f.suffix replica, st)
  | .create p => write st (st.create p) (f.outcome (.create p))

/-! ## The pass -/

namespace Calls

abbrev Prog (α : Type) := Client PodAnswer (Except String α)

def listOwnedPods : Prog (List Pod) := Client.call PodCall.list

/-- The end of a write, with its error wrapped. -/
def answered (message : String → String) : Option String → Prog Unit
  | some e => .done (.error (message e))
  | none => .done (.ok ())

def deletePod (p : Pod) : Prog Unit :=
  if p.terminating then .done (.ok ())
  else (Client.call (PodCall.delete p)).bind (answered fun e => "failed to delete pod " ++ p.name ++ ": " ++ e)

def create (replica : Nat) (pod : Pod) : Prog Unit :=
  (Client.call (PodCall.create pod)).bind
    (answered fun e => "failed to create pod for replica " ++ itoa replica ++ ": " ++ e)

def createPodForReplica (ad : AgentDeploy) (hash : String) (replica : Nat) : Prog Unit :=
  (Client.call (PodCall.random replica)).bind fun suffix => create replica (newPod ad replica hash suffix)

def deleteOutside (order : RangeOrder Int) (desired : Int) (byReplica : Dict Int (List Pod)) : Prog Unit :=
  Client.loop (fun _ replica =>
    if 0 ≤ replica ∧ replica < desired then .done (.ok ())
    else Client.loop (fun _ p => deletePod p) (podsAt byReplica replica) ()) (order.visit byReplica.keys) ()

/-- The state of the inner loop over the pods of one slot: the pod that stays, and whether there is an outdated one. -/
structure Slot where
  kept : Option Pod := none
  hasLiveOld : Bool := false

def scanPod (desiredHash : String) (c : Slot) (p : Pod) : Prog Slot :=
  if p.terminating then .done (.ok c)
  else if p.hash = desiredHash then
    match c.kept with
    | none => .done (.ok { c with kept := some p })
    | some _ => (deletePod p).bindOk fun _ => .done (.ok c)
  else .done (.ok { c with hasLiveOld := true })

/-- The state of the classification loop over the slots. -/
structure Slots where
  needsCreate : List Nat := []
  needsReplace : List Nat := []
  updatedOnDesired : Nat := 0
  updatedReadyOnDesired : Nat := 0

/-- The slot `replica`, as its pods were found, is put in its class. -/
def Slots.sort (c : Slots) (replica : Nat) (scan : Slot) : Slots :=
  match scan.kept with
  | some kept =>
    { c with
      updatedOnDesired := c.updatedOnDesired + 1
      updatedReadyOnDesired := c.updatedReadyOnDesired + if podReady kept then 1 else 0 }
  | none =>
    if scan.hasLiveOld then { c with needsReplace := c.needsReplace ++ [replica] }
    else { c with needsCreate := c.needsCreate ++ [replica] }

def classifySlot (desiredHash : String) (byReplica : Dict Int (List Pod)) (c : Slots) (replica : Nat) : Prog Slots :=
  (Client.loop (scanPod desiredHash) (podsAt byReplica replica) {}).bindOk fun scan => .done (.ok (c.sort replica scan))

def replaceSlot (ad : AgentDeploy) (desiredHash : String) (byReplica : Dict Int (List Pod)) (replica : Nat) : Prog Unit :=
  (Client.loop (fun _ p => if p.terminating || p.hash == desiredHash then .done (.ok ()) else deletePod p)
    (podsAt byReplica replica) ()).bindOk fun _ => createPodForReplica ad desiredHash replica

/-- From the classified slots to the end. -/
def finish (r : Reconciler) (ad : AgentDeploy) (status : AgentDeployStatus) (byReplica : Dict Int (List Pod)) (c : Slots) :
    Prog AgentDeployStatus :=
  let desired := desiredReplicas ad
  let desiredHash := r.podSpecHash ad
  (Client.loop (fun _ => createPodForReplica ad desiredHash) c.needsCreate ()).bindOk fun _ =>
    if c.needsReplace.length = 0 then
      if ((c.updatedOnDesired + c.needsCreate.length : Nat) : Int) = desired then
        .done (.ok { status with currentHash := desiredHash })
      else .done (.ok status)
    else if c.updatedOnDesired > 0 ∧ c.updatedReadyOnDesired < c.updatedOnDesired then .done (.ok status)
    else
      let maxUnavailable := resolveMaxUnavailable r.scaledValue ad desired
      let batch := min maxUnavailable.toNat c.needsReplace.length
      (Client.loop (fun _ => replaceSlot ad desiredHash byReplica) (c.needsReplace.take batch) ()).bindOk fun _ =>
        .done (.ok status)

/-- What follows the list. -/
def drive (r : Reconciler) (now : Int) (order : RangeOrder Int) (ad : AgentDeploy) (existing : List Pod) :
    Prog AgentDeployStatus :=
  let desired := desiredReplicas ad
  let desiredHash := r.podSpecHash ad
  let byReplica := groupPodsByReplica existing
  (deleteOutside order desired byReplica).bindOk fun _ =>
    (Client.loop (classifySlot desiredHash byReplica) (List.range desired.toNat) {}).bindOk fun c =>
      finish r ad (stampStatus now desired desiredHash ad.status) byReplica c

def reconcilePods (r : Reconciler) (now : Int) (order : RangeOrder Int) (ad : AgentDeploy) : Prog AgentDeployStatus :=
  listOwnedPods.bindOk (drive r now order ad)

end Calls

/-! ## The pass on its own -/

/-- The server that a pass with the input `inp` meets. -/
def PassInput.reply (inp : PassInput) : Reply where
  suffix := inp.suffix
  outcome := fun
    | .list => (inp.api.listFault.map Outcome.refused).getD .served
    | .delete p => ((inp.api.deleteFault p).map Outcome.refused).getD .served
    | .random _ => .served
    | .create p => ((inp.api.createFault p).map Outcome.refused).getD .served

section
variable {inp : PassInput} {ad : AgentDeploy} {h : String} {st : PodStore}

theorem write_reply (st st' : PodStore) (fault : Option String) :
    write st st' ((fault.map Outcome.refused).getD .served) = (fault, if fault.isSome then st else st') := by
  cases fault <;> rfl

theorem deletePod_agrees (p : Pod) (st : PodStore) :
    (Calls.deletePod p).Agrees (serve inp.reply) st ((deletePod inp.api st p).map fun st => ((), st)) := by
  unfold Calls.deletePod deletePod
  split_ifs
  · exact .ok () st
  · have hserve : serve inp.reply st (.delete p) = _ := write_reply st (st.delete p.name) (inp.api.deleteFault p)
    refine .call ?_
    rw [hserve]
    cases inp.api.deleteFault p with
    | some e => exact .error _ _
    | none => exact .ok () _

theorem createPodForReplica_agrees (st : PodStore) (replica : Nat) :
    (Calls.createPodForReplica ad h replica).Agrees (serve inp.reply) st
      ((createPodForReplica inp ad h st replica).map fun st => ((), st)) := by
  unfold Calls.createPodForReplica createPodForReplica
  refine .call ?_
  change (Calls.create replica (newPod ad replica h (inp.suffix replica))).Agrees (serve inp.reply) st _
  dsimp only
  generalize newPod ad replica h (inp.suffix replica) = pod
  have hserve : serve inp.reply st (.create pod) = _ := write_reply st (st.create pod) (inp.api.createFault pod)
  refine .call ?_
  rw [hserve]
  cases inp.api.createFault pod with
  | some e => exact .error _ _
  | none => exact .ok () _

theorem listOwnedPods_agrees (st : PodStore) :
    Calls.listOwnedPods.Agrees (serve inp.reply) st ((listOwnedPods inp.api st).map fun pods => (pods, st)) := by
  have hserve : serve inp.reply st .list = (listOwnedPods inp.api st, st) := by
    unfold serve PassInput.reply listOwnedPods
    cases inp.api.listFault <;> rfl
  change (Client.done (serve inp.reply st .list).1).Agrees (serve inp.reply) (serve inp.reply st .list).2 _
  rw [hserve]
  cases listOwnedPods inp.api st with
  | error e => exact .error e st
  | ok pods => exact .ok pods st

theorem loop_agrees {α : Type} {f : α → Calls.Prog Unit} {g : PodStore → α → Except String PodStore}
    (hfg : ∀ st a, (f a).Agrees (serve inp.reply) st ((g st a).map fun st => ((), st))) (l : List α) (st : PodStore) :
    (Client.loop (fun _ => f) l ()).Agrees (serve inp.reply) st ((l.foldlM g st).map fun st => ((), st)) :=
  Client.Agrees.loop (fun st => ((), st)) hfg l st

theorem deleteOutside_agrees (desired : Int) (byReplica : Dict Int (List Pod)) (st : PodStore) :
    (Calls.deleteOutside inp.order desired byReplica).Agrees (serve inp.reply) st
      ((deleteOutside inp desired byReplica st).map fun st => ((), st)) := by
  refine loop_agrees (fun st replica => ?_) _ st
  split_ifs
  · exact .ok () st
  · exact loop_agrees (fun st p => deletePod_agrees p st) _ st

/-- The accumulators of the two loops, without the store and with it. -/
abbrev SlotScan.view (c : SlotScan) : Calls.Slot × PodStore := (⟨c.kept, c.hasLiveOld⟩, c.store)

abbrev Classified.view (c : Classified) : Calls.Slots × PodStore :=
  (⟨c.needsCreate, c.needsReplace, c.updatedOnDesired, c.updatedReadyOnDesired⟩, c.store)

theorem scanPod_agrees (c : SlotScan) (p : Pod) :
    (Calls.scanPod h c.view.1 p).Agrees (serve inp.reply) c.view.2 ((scanPod inp.api h c p).map SlotScan.view) := by
  unfold Calls.scanPod scanPod
  split_ifs
  · exact .ok _ _
  · obtain ⟨st, kept, old⟩ := c
    cases kept with
    | none => exact .ok _ _
    | some k => exact (deletePod_agrees p st).bindOk fun st => .ok _ _
  · exact .ok _ _

theorem classifySlot_agrees (byReplica : Dict Int (List Pod)) (c : Classified) (replica : Nat) :
    (Calls.classifySlot h byReplica c.view.1 replica).Agrees (serve inp.reply) c.view.2
      ((classifySlot inp.api h byReplica c replica).map Classified.view) := by
  refine (Client.Agrees.loop SlotScan.view scanPod_agrees (podsAt byReplica replica) { store := c.store }).bindOk
    fun scan => ?_
  obtain ⟨st, kept, old⟩ := scan
  cases kept with
  | some p => exact .ok _ _
  | none => cases old <;> exact .ok _ _

theorem replaceSlot_agrees (byReplica : Dict Int (List Pod)) (st : PodStore) (replica : Nat) :
    (Calls.replaceSlot ad h byReplica replica).Agrees (serve inp.reply) st
      ((replaceSlot inp ad h byReplica st replica).map fun st => ((), st)) := by
  refine (loop_agrees (fun st p => ?_) _ st).bindOk fun st => createPodForReplica_agrees st replica
  split_ifs
  · exact .ok () st
  · exact deletePod_agrees p st

/-- **Call by call.** A pass that has the server for itself ends as `reconcilePods` does, with the same error or the same
pods. -/
theorem reconcilePods_agrees (r : Reconciler) (inp : PassInput) (ad : AgentDeploy) (st : PodStore) :
    (Calls.reconcilePods r inp.now inp.order ad).Agrees (serve inp.reply) st (reconcilePods r inp ad st) := by
  have hmap : reconcilePods r inp ad st = (reconcilePods r inp ad st).map fun x => (x.1, x.2) := by
    cases reconcilePods r inp ad st <;> rfl
  rw [hmap]
  refine (listOwnedPods_agrees st).bindOk fun existing => ?_
  refine (deleteOutside_agrees _ _ st).bindOk fun st => ?_
  refine (Client.Agrees.loop Classified.view (classifySlot_agrees _) _ { store := st }).bindOk fun c => ?_
  refine (loop_agrees createPodForReplica_agrees c.needsCreate c.store).bindOk fun st => ?_
  dsimp only [Classified.view]
  by_cases hlen : c.needsReplace.length = 0
  · rw [if_pos hlen, if_pos hlen]
    split_ifs
    · exact .ok _ _
    · exact .ok _ _
  · rw [if_neg hlen, if_neg hlen]
    split_ifs
    · exact .ok _ _
    · exact (loop_agrees (replaceSlot_agrees _) _ st).bindOk fun st => .ok _ _

end

end KynoMesh.Pods
