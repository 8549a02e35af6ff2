import Mathlib.Data.List.Sort
import KynoMesh.Pods.Rollout

/-!
# The drift watcher

`reconcileDrift` deletes the live pods that report a stale peer AgentCard hash, first by name, up to `maxUnavailable` in
one tick (`driftwatch/watcher.go`). The controller recreates the emptied slots.

* `reconcileDrift_patched` : the pods that a tick deletes, also when it stops at a fault;
* `mem_reloaded_or` : a tick without a fault leaves a live stale pod only for earlier ones;
* `unavailable_le_iff_not_reloadOverlaps` : from a settled Ready window, the slots without a live Ready pod stay within
  `maxUnavailable` if no tick comes while a slot is down and slots down and stale together exceed it; and only then,
  where the ticks meet no delete fault and the stale pods are Ready pods of the window.
-/

namespace KynoMesh.Driftwatch
open KynoMesh.Lib KynoMesh.Api KynoMesh.Pods

/-! ## The tick -/

/-- The daemon's view of one peer: the latest stable hash of its AgentCard, and the hash that each pod reports. -/
structure PeerCardDrift where
  latestHash : String
  reportedHashes : Dict String String

/-- The pods to blame, as the keys of a map. -/
def stalePodNames (drift : Dict String PeerCardDrift) : Dict String Unit :=
  drift.entries.foldl (fun stale peer =>
    if peer.2.latestHash = "" then stale
    else peer.2.reportedHashes.entries.foldl (fun stale reported =>
      if reported.2 ≠ peer.2.latestHash then stale.insert reported.1 () else stale) stale) ∅

/-- What a tick meets: the faults of its calls, the report of the daemon. -/
structure TickInput where
  getFault : Option String := none
  dialFault : Option String := none
  driftFault : Option String := none
  drift : Dict String PeerCardDrift
  api : PodApi := {}

/-- The deletions, one by one; a fault stops them. -/
def deleteStale (api : PodApi) : PodStore → List Pod → PodStore × Except String Unit
  | st, [] => (st, .ok ())
  | st, p :: ps =>
    match api.deleteFault p with
    | some e => (st, .error ("delete stale pod " ++ p.name ++ ": " ++ e))
    | none => deleteStale api (st.delete p.name) ps

/-- The live stale pods in name order, at most `maxUnavailable` of them. -/
def staleBatch (scaledValue : ScaledValue) (drift : Dict String PeerCardDrift) (ad : AgentDeploy) (pods : List Pod) :
    List Pod :=
  let stale := stalePodNames drift
  let toDelete := (pods.filter fun p => !p.terminating && decide (p.name ∈ stale)).insertionSort
    fun p q => p.name ≤ q.name
  toDelete.take (resolveMaxUnavailable scaledValue ad (desiredReplicas ad)).toNat

/-- The pods after a tick, and its result: whether the AgentDeploy stays tracked. `none` is an AgentDeploy that is
gone. -/
def reconcileDrift (scaledValue : ScaledValue) (inp : TickInput) (ad : Option AgentDeploy) (st : PodStore) :
    PodStore × Except String Bool :=
  match inp.getFault, ad with
  | some e, _ => (st, .error ("get agentdeploy: " ++ e))
  | none, none => (st, .ok false)
  | none, some ad =>
    if ad.metadata.deletionTimestamp ≠ zeroTime then (st, .ok false)
    else if driftReloadIsEnabled ad.spec.agent.driftReload = false then (st, .ok false)
    else if ad.status.updateHash ≠ ad.status.currentHash ∧ ad.status.updateHash ≠ "" then (st, .ok true)
    else
      match inp.dialFault, inp.driftFault with
      | some e, _ => (st, .error ("dial daemon: " ++ e))
      | none, some e => (st, .error ("get peer card drift: " ++ e))
      | none, none =>
        if (stalePodNames inp.drift).keys = [] then (st, .ok true)
        else
          match listOwnedPods inp.api st with
          | .error e => (st, .error ("list owned pods: " ++ e))
          | .ok pods =>
            match deleteStale inp.api st (staleBatch scaledValue inp.drift ad pods) with
            | (st, .error e) => (st, .error e)
            | (st, .ok ()) => (st, .ok true)

/-- The gates of a tick that gets as far as its deletions. -/
def reloads (inp : TickInput) (ad : AgentDeploy) : Bool :=
  inp.getFault.isNone && ad.metadata.deletionTimestamp == zeroTime &&
    driftReloadIsEnabled ad.spec.agent.driftReload &&
    (ad.status.updateHash == ad.status.currentHash || ad.status.updateHash == "") &&
    inp.dialFault.isNone && inp.driftFault.isNone && inp.api.listFault.isNone

/-! ## What a tick deletes -/

theorem deleteStale_patched (api : PodApi) {st s : PodStore} {D : List String} (h : Patched st D [] s) (ps : List Pod) :
    Patched st (D ++ (ps.takeWhile fun p => (api.deleteFault p).isNone).map Pod.name) [] (deleteStale api s ps).1 := by
  induction ps generalizing s D with
  | nil => simpa [deleteStale] using h
  | cons p ps ih =>
    cases hf : api.deleteFault p with
    | some e => simpa [deleteStale, hf] using h
    | none =>
      have hp := ih (h.delete (n := p.name) (by simp))
      simpa [deleteStale, hf] using hp

/-- The pods that a tick deletes: the batch, up to the first fault. -/
def reloaded (scaledValue : ScaledValue) (inp : TickInput) (ad : AgentDeploy) (st : PodStore) : List Pod :=
  if reloads inp ad then
    (staleBatch scaledValue inp.drift ad st.pods).takeWhile fun p => (inp.api.deleteFault p).isNone
  else []

theorem staleBatch_eq_nil {drift : Dict String PeerCardDrift} (h : (stalePodNames drift).keys = [])
    (scaledValue : ScaledValue) (ad : AgentDeploy) (pods : List Pod) : staleBatch scaledValue drift ad pods = [] := by
  have hnone : ∀ name, name ∉ stalePodNames drift := fun name hm => by
    rw [AList.mem_keys, h] at hm
    simp at hm
  simp [staleBatch, hnone]

theorem reconcileDrift_patched (scaledValue : ScaledValue) (inp : TickInput) (ad : AgentDeploy) (st : PodStore) :
    Patched st ((reloaded scaledValue inp ad st).map Pod.name) [] (reconcileDrift scaledValue inp (some ad) st).1 := by
  have hidle : reloads inp ad = false → Patched st ((reloaded scaledValue inp ad st).map Pod.name) [] st := by
    intro h
    simpa [reloaded, h] using Patched.refl st
  unfold reconcileDrift
  cases hget : inp.getFault with
  | some e => exact hidle (by simp [reloads, hget])
  | none =>
    by_cases hdel : ad.metadata.deletionTimestamp = zeroTime
    swap
    · simpa [hdel] using hidle (by simp [reloads, hdel])
    by_cases hen : driftReloadIsEnabled ad.spec.agent.driftReload = false
    · simpa [hdel, hen] using hidle (by simp [reloads, hen])
    by_cases hset : ad.status.updateHash ≠ ad.status.currentHash ∧ ad.status.updateHash ≠ ""
    · simpa [hdel, hen, hset] using hidle (by simp [reloads, hset])
    simp only [hdel, hen, hset, ne_eq, not_true_eq_false, if_false]
    cases hdial : inp.dialFault with
    | some e => exact hidle (by simp [reloads, hdial])
    | none =>
      cases hdrift : inp.driftFault with
      | some e => exact hidle (by simp [reloads, hdrift])
      | none =>
        by_cases hnil : (stalePodNames inp.drift).keys = []
        · simpa [hnil, reloaded, staleBatch_eq_nil hnil] using Patched.refl st
        · simp only [hnil, if_false]
          cases hlist : inp.api.listFault with
          | some e =>
            simp only [listOwnedPods, hlist]
            exact hidle (by simp [reloads, hlist])
          | none =>
            have hgates : reloads inp ad = true := by
              have hset' : ad.status.updateHash = ad.status.currentHash ∨ ad.status.updateHash = "" := by tauto
              simp [reloads, hget, hdel, hen, hset', hdial, hdrift, hlist]
            have hpat := deleteStale_patched inp.api (Patched.refl st)
              (staleBatch scaledValue inp.drift ad st.pods)
            simp only [listOwnedPods, hlist, reloaded, hgates, if_true]
            cases hd : deleteStale inp.api st (staleBatch scaledValue inp.drift ad st.pods) with
            | mk st' res =>
              rw [hd] at hpat
              cases res with
              | error e => exact hpat
              | ok u => exact hpat

section Reloaded
variable {scaledValue : ScaledValue} {inp : TickInput} {ad : AgentDeploy} {st : PodStore} {p : Pod}

theorem reloaded_subset (hp : p ∈ reloaded scaledValue inp ad st) :
    p ∈ st.pods ∧ p.terminating = false ∧ p.name ∈ stalePodNames inp.drift := by
  unfold reloaded at hp
  split_ifs at hp with hr
  · have hmem := List.mem_of_mem_take ((List.takeWhile_sublist _).subset hp)
    rw [(List.perm_insertionSort _ _).mem_iff, List.mem_filter] at hmem
    simpa only [Bool.and_eq_true, Bool.not_eq_true', decide_eq_true_eq] using hmem
  · simp at hp

theorem reloaded_nodup (scaledValue : ScaledValue) (inp : TickInput) (ad : AgentDeploy) (st : PodStore) :
    (reloaded scaledValue inp ad st).Nodup := by
  unfold reloaded
  split_ifs
  · refine List.Nodup.sublist ((List.takeWhile_sublist _).trans (List.take_sublist _ _)) ?_
    exact (List.perm_insertionSort _ _).nodup_iff.mpr (st.nodup.of_map.filter _)
  · exact List.nodup_nil

theorem length_reloaded_le : (reloaded scaledValue inp ad st).length ≤
    (resolveMaxUnavailable scaledValue ad (desiredReplicas ad)).toNat := by
  unfold reloaded
  split_ifs
  · exact (List.takeWhile_sublist _).length_le.trans (List.length_take_le _ _)
  · exact Nat.zero_le _

theorem reloaded_eq_staleBatch (hr : reloads inp ad = true) (hdel : ∀ q, inp.api.deleteFault q = none) :
    reloaded scaledValue inp ad st = staleBatch scaledValue inp.drift ad st.pods := by
  rw [reloaded, if_pos hr, List.takeWhile_eq_self_iff]
  intro q _
  rw [hdel q]
  rfl

theorem mem_take_or_of_pairwise {α : Type} {R : α → α → Prop} {l : List α} (hl : l.Pairwise R) {a : α} (ha : a ∈ l)
    (m : Nat) : a ∈ l.take m ∨ (l.take m).length = m ∧ ∀ b ∈ l.take m, R b a := by
  rw [← List.take_append_drop m l] at hl ha
  rcases List.mem_append.mp ha with htake | hdrop
  · exact .inl htake
  · have hlen := List.length_pos_of_mem hdrop
    rw [List.length_drop] at hlen
    refine .inr ⟨?_, fun b hb => (List.pairwise_append.mp hl).2.2 b hb a hdrop⟩
    rw [List.length_take]
    omega

/-- A tick without a fault leaves a live stale pod only when its budget has gone to others, earlier in name order. -/
theorem mem_reloaded_or (hr : reloads inp ad = true) (hdel : ∀ q, inp.api.deleteFault q = none) (hp : p ∈ st.pods)
    (hlive : p.terminating = false) (hstale : p.name ∈ stalePodNames inp.drift) :
    p ∈ reloaded scaledValue inp ad st ∨
      (reloaded scaledValue inp ad st).length = (resolveMaxUnavailable scaledValue ad (desiredReplicas ad)).toNat ∧
        ∀ q ∈ reloaded scaledValue inp ad st, q.name ≤ p.name := by
  rw [reloaded_eq_staleBatch hr hdel]
  refine mem_take_or_of_pairwise (List.pairwise_insertionSort _ _) ?_ _
  rw [(List.perm_insertionSort _ _).mem_iff, List.mem_filter]
  simp [hp, hlive, hstale]

/-- Among the pods that a tick deletes, the pod of a slot that holds no other is known by the slot or by its name. -/
theorem any_slot_reloaded {i : Nat} (hFi : fleet st i = [p]) :
    (reloaded scaledValue inp ad st).any (fun q => q.slot == i) =
      decide (p.name ∈ (reloaded scaledValue inp ad st).map Pod.name) := by
  have hp : p ∈ fleet st i := by simp [hFi]
  rw [Bool.eq_iff_iff, decide_eq_true_iff, List.any_eq_true, List.mem_map]
  refine exists_congr fun q => and_congr_right fun hq => ?_
  obtain ⟨hqst, hqlive, -⟩ := reloaded_subset hq
  rw [beq_iff_eq]
  constructor
  · intro hslot
    have hmem : q ∈ fleet st i := mem_fleet.mpr ⟨hqst, hqlive, hslot⟩
    rw [hFi, List.mem_singleton] at hmem
    rw [hmem]
  · intro hname
    rw [st.eq_of_name_eq hqst (mem_fleet.mp hp).1 hname]
    exact (mem_fleet.mp hp).2.2

end Reloaded

/-- A tick empties the slots of the pods that it deletes. -/
theorem unready_reconcileDrift (scaledValue : ScaledValue) (inp : TickInput) (ad : AgentDeploy) {st : PodStore}
    {i : Nat} (hi : (fleet st i).length ≤ 1) :
    (fleet (reconcileDrift scaledValue inp (some ad) st).1).unready i =
      ((fleet st).unready i || (reloaded scaledValue inp ad st).any fun p => p.slot == i) := by
  have hfleet := (reconcileDrift_patched scaledValue inp ad st).fleet (by simp) i
  unfold Fleet.unready
  rw [hfleet]
  match hFi : fleet st i with
  | [] => simp
  | [p] =>
    rw [any_slot_reloaded hFi]
    generalize (reloaded scaledValue inp ad st).map Pod.name = D
    by_cases hD : p.name ∈ D <;> simp [hD]
  | _ :: _ :: _ => simp [hFi] at hi

/-! ## Runs -/

inductive Event
  | world (e : Pods.Event)
  | tick (inp : TickInput)

def step (r : Reconciler) (w : World) : Event → Option World
  | .world e => w.step r e
  | .tick inp => some { w with store := (reconcileDrift r.scaledValue inp (some w.ad) w.store).1 }

/-- The runs that keep the target of `w`. -/
def reloadStep (r : Reconciler) (w : World) : World → Event → Option World :=
  restrict (step r) fun u => target r u = target r w

/-- A settled rollout: both hashes of the status are the desired one, and every slot holds one live Ready pod on it. -/
structure Settled (r : Reconciler) (w : World) : Prop where
  updateHash : w.ad.status.updateHash = r.podSpecHash w.ad
  currentHash : w.ad.status.currentHash = r.podSpecHash w.ad
  ready : AllReady w
  hash : ∀ i < window w.ad, ∀ p ∈ w.fleet (i : Nat), p.hash = r.podSpecHash w.ad

/-- The slots of the window that are down after a tick: those that are down already and those it reloads. -/
def downAfter (r : Reconciler) (inp : TickInput) (w : World) : Nat :=
  (List.range (window w.ad)).countP fun (i : Nat) =>
    w.fleet.unready i || (reloaded r.scaledValue inp w.ad w.store).any fun p => p.slot == i

/-- The slots of the window that are down or hold a live pod that the report calls stale. -/
def downOrStale (inp : TickInput) (w : World) : Nat :=
  (List.range (window w.ad)).countP fun (i : Nat) =>
    w.fleet.unready i || (w.fleet i).any fun p => decide (p.name ∈ stalePodNames inp.drift)

/-- A tick gets to its deletions while a slot is down, and the slots that are down or stale exceed the budget. -/
def ReloadOverlaps (r : Reconciler) (w : World) : Event → Prop
  | .tick inp => reloads inp w.ad = true ∧ 0 < w.fleet.unavailable (window w.ad) ∧ budget r w.ad < downOrStale inp w
  | .world _ => False

/-- The deletions of a tick do not fail, and the live pods that its report calls stale are Ready pods of the window. -/
def CleanTick (w : World) : Event → Prop
  | .tick inp => (∀ p, inp.api.deleteFault p = none) ∧
      ∀ p ∈ w.store.pods, p.terminating = false → p.name ∈ stalePodNames inp.drift →
        podReady p = true ∧ ∃ i < window w.ad, p.slot = (i : Nat)
  | .world _ => True

/-- A window under reload: every slot is empty or holds one pod on the desired hash. -/
structure Reloading (r : Reconciler) (w u : World) : Prop where
  target : target r u = target r w
  slots : u.fleet.AtMostOne (window w.ad)
  hash : ∀ i < window w.ad, ∀ p ∈ u.fleet (i : Nat), p.hash = r.podSpecHash w.ad
  within : u.fleet.unavailable (window w.ad) ≤ budget r w.ad

section Reloading
variable {r : Reconciler} {w u u' : World}

theorem Settled.reloading (h : Settled r w) : Reloading r w w where
  target := rfl
  slots := h.ready.single.atMostOne
  hash := h.hash
  within := by
    rw [h.ready.unavailable_eq_zero]
    exact Nat.zero_le _

theorem Reloading.window_eq (h : Reloading r w u) : window u.ad = window w.ad :=
  (Prod.mk.inj (Prod.mk.inj h.target).2).1

theorem Reloading.budget_eq (h : Reloading r w u) : budget r u.ad = budget r w.ad :=
  (Prod.mk.inj (Prod.mk.inj h.target).2).2

/-- A pass fills the empty slots, if their names are free, and leaves the others alone. -/
theorem Reloading.slot_pass (h : Reloading r w u) {inp : PassInput} (hp : PassEffect r inp u u') {i : Nat}
    (hi : i < window w.ad) :
    u'.fleet i =
      if u.fleet i = [] then (drawnPod inp u.ad (r.podSpecHash w.ad) u.store i).toList else u.fleet i := by
  rw [hp.fleet, (Prod.mk.inj h.target).1, h.window_eq, h.budget_eq, Fleet.pass_of_lt _ _ _ _ _ hi]
  rcases h.slots.cases hi with hFi | ⟨p, hFi⟩
  · rw [Fleet.passSlot_nil hFi, if_pos hFi]
  · have hnb : i ∉ u.fleet.batch (r.podSpecHash w.ad) (window w.ad) (budget r w.ad) := fun hb => by
      have ho := (Fleet.batch_subset hb).2
      have hph := h.hash i hi p (by simp [hFi])
      simp [hFi, Fleet.outdated, hph] at ho
    rw [Fleet.passSlot_single hFi, if_neg hnb, hFi, if_neg (by simp)]

theorem Reloading.unavailable_pass (h : Reloading r w u) {inp : PassInput} (hp : PassEffect r inp u u') :
    u'.fleet.unavailable (window w.ad) = u.fleet.unavailable (window w.ad) := by
  refine List.countP_congr fun i hi => ?_
  unfold Fleet.unready
  rw [h.slot_pass hp (List.mem_range.mp hi)]
  split_ifs with hnil
  · have hnone : ((drawnPod inp u.ad (r.podSpecHash w.ad) u.store i).toList.any podReady) = false := by
      rw [List.any_eq_false]
      intro p hp
      simp [drawnPod_ready (Option.mem_toList.mp hp)]
    rw [hnone, hnil]
    rfl
  · rfl

theorem unavailable_tick (h : Reloading r w u) (inp : TickInput) (hs : step r u (.tick inp) = some u') :
    u'.fleet.unavailable (window w.ad) = downAfter r inp u := by
  simp only [step, Option.some.injEq] at hs
  subst hs
  unfold Fleet.unavailable downAfter
  rw [h.window_eq]
  refine List.countP_congr fun i hi => ?_
  rw [World.fleet, unready_reconcileDrift r.scaledValue inp u.ad (h.slots i (List.mem_range.mp hi))]
  rfl

theorem hash_of_forall₂ {ps qs : List Pod} {hash : String} (h : List.Forall₂ SamePod ps qs)
    (hp : ∀ p ∈ ps, p.hash = hash) : ∀ q ∈ qs, q.hash = hash := by
  induction h with
  | nil => exact hp
  | cons hpq _ ih =>
    rw [List.forall_mem_cons] at hp ⊢
    exact ⟨hpq.hash.trans hp.1, ih hp.2⟩

theorem Reloading.slots_step (h : Reloading r w u) {e : Event} (hs : step r u e = some u') {i : Nat}
    (hi : i < window w.ad) :
    (u'.fleet i).length ≤ 1 ∧ ∀ p ∈ u'.fleet i, p.hash = r.podSpecHash w.ad := by
  cases e with
  | tick inp =>
    simp only [step, Option.some.injEq] at hs
    subst hs
    have hfleet := (reconcileDrift_patched r.scaledValue inp u.ad u.store).fleet (by simp) i
    rw [World.fleet, hfleet, List.filter_nil, List.append_nil]
    exact ⟨(List.length_filter_le _ _).trans (h.slots i hi),
      fun p hp => h.hash i hi p (List.mem_filter.mp hp).1⟩
  | world e =>
    obtain ⟨spec, rfl, rfl⟩ | ⟨inp, rfl, hp⟩ | ⟨-, hq⟩ := World.step_cases hs
    · exact ⟨h.slots i hi, h.hash i hi⟩
    · rw [h.slot_pass hp hi]
      split_ifs
      · exact ⟨Option.length_toList_le, fun p hp => drawnPod_hash (Option.mem_toList.mp hp)⟩
      · exact ⟨h.slots i hi, h.hash i hi⟩
    · exact ⟨(hq.fleet i).length_eq ▸ h.slots i hi, hash_of_forall₂ (hq.fleet i) (h.hash i hi)⟩

theorem downAfter_le_downOrStale (r : Reconciler) (inp : TickInput) (u : World) :
    downAfter r inp u ≤ downOrStale inp u := by
  refine List.countP_mono_left fun i _ hi => ?_
  rw [Bool.or_eq_true] at hi ⊢
  refine hi.imp_right fun hany => ?_
  obtain ⟨p, hp, hslot⟩ := List.any_eq_true.mp hany
  obtain ⟨hpod, hlive, hstale⟩ := reloaded_subset hp
  exact List.any_eq_true.mpr ⟨p, mem_fleet.mpr ⟨hpod, hlive, beq_iff_eq.mp hslot⟩, decide_eq_true hstale⟩

/-- A tick over a window that is all up takes down no more slots than it deletes pods. -/
theorem downAfter_le_length (r : Reconciler) (inp : TickInput) {u : World}
    (hup : u.fleet.unavailable (window u.ad) = 0) :
    downAfter r inp u ≤ (reloaded r.scaledValue inp u.ad u.store).length := by
  have hready := List.countP_eq_zero.mp hup
  rw [downAfter, List.countP_eq_length_filter, ← List.length_map (f := fun p : Pod => p.slot.toNat)]
  refine (List.subperm_of_subset (List.nodup_range.filter _) fun i hi => ?_).length_le
  obtain ⟨hin, hi⟩ := List.mem_filter.mp hi
  rw [Bool.or_eq_true] at hi
  obtain ⟨p, hp, hslot⟩ := List.any_eq_true.mp (hi.resolve_left (hready i hin))
  refine List.mem_map.mpr ⟨p, hp, ?_⟩
  rw [beq_iff_eq.mp hslot, Int.toNat_natCast]

/-- What a clean tick deletes: Ready pods that have their slot to themselves. -/
theorem Reloading.alone_of_reloaded (h : Reloading r w u) {inp : TickInput} (hclean : CleanTick u (.tick inp)) {p : Pod}
    (hp : p ∈ reloaded r.scaledValue inp u.ad u.store) :
    podReady p = true ∧ ∃ i < window u.ad, p.slot = (i : Nat) ∧ u.fleet (i : Nat) = [p] := by
  obtain ⟨hpod, hlive, hstale⟩ := reloaded_subset hp
  obtain ⟨hready, i, hi, hslot⟩ := hclean.2 p hpod hlive hstale
  have hmem : p ∈ u.fleet i := mem_fleet.mpr ⟨hpod, hlive, hslot⟩
  exact ⟨hready, i, hi, hslot, h.slots.eq_singleton (h.window_eq ▸ hi) hmem⟩

/-- The slots that are down and the slots of the pods that a clean tick deletes are different slots. -/
theorem Reloading.nodup_down (h : Reloading r w u) {inp : TickInput} (hclean : CleanTick u (.tick inp)) :
    ((List.range (window u.ad)).filter u.fleet.unready ++
      (reloaded r.scaledValue inp u.ad u.store).map fun p => p.slot.toNat).Nodup := by
  refine List.nodup_append.mpr ⟨List.nodup_range.filter _, ?_, ?_⟩
  · refine List.Nodup.map_on (fun p hp q hq hpq => ?_) (reloaded_nodup _ _ _ _)
    obtain ⟨-, i, -, hi, hFi⟩ := h.alone_of_reloaded hclean hp
    obtain ⟨-, j, -, hj, hFj⟩ := h.alone_of_reloaded hclean hq
    rw [hi, hj, Int.toNat_natCast, Int.toNat_natCast] at hpq
    rw [hpq, hFj] at hFi
    exact (List.singleton_inj.mp hFi).symm
  · rintro i hi _ hj rfl
    obtain ⟨p, hp, hpi⟩ := List.mem_map.mp hj
    obtain ⟨hready, j, -, hslot, hFj⟩ := h.alone_of_reloaded hclean hp
    rw [hslot, Int.toNat_natCast] at hpi
    have hdown := (List.mem_filter.mp hi).2
    rw [← hpi, Fleet.unready, hFj] at hdown
    simp [hready] at hdown

/-- A tick that deletes Ready pods of the window takes down a slot with each of them. -/
theorem Reloading.le_downAfter (h : Reloading r w u) {inp : TickInput} (hclean : CleanTick u (.tick inp)) :
    u.fleet.unavailable (window u.ad) + (reloaded r.scaledValue inp u.ad u.store).length ≤ downAfter r inp u := by
  rw [Fleet.unavailable, downAfter, List.countP_eq_length_filter, List.countP_eq_length_filter,
    ← List.length_map (f := fun p : Pod => p.slot.toNat), ← List.length_append]
  refine (List.subperm_of_subset (h.nodup_down hclean) fun i hi => ?_).length_le
  rcases List.mem_append.mp hi with hi | hi
  · obtain ⟨hin, hdown⟩ := List.mem_filter.mp hi
    exact List.mem_filter.mpr ⟨hin, by rw [hdown, Bool.true_or]⟩
  · obtain ⟨p, hp, hpi⟩ := List.mem_map.mp hi
    obtain ⟨-, j, hj, hslot, -⟩ := h.alone_of_reloaded hclean hp
    rw [hslot, Int.toNat_natCast] at hpi
    subst hpi
    refine List.mem_filter.mpr ⟨List.mem_range.mpr hj, ?_⟩
    rw [Bool.or_eq_true]
    exact .inr (List.any_eq_true.mpr ⟨p, hp, beq_iff_eq.mpr hslot⟩)

theorem Reloading.downAfter_le (h : Reloading r w u) {inp : TickInput} (hover : ¬ReloadOverlaps r u (.tick inp)) :
    downAfter r inp u ≤ budget r u.ad := by
  have hwithin := h.within
  rw [← h.window_eq, ← h.budget_eq] at hwithin
  by_contra hlt
  refine hover ⟨?_, ?_, ?_⟩
  · by_contra hidle
    have hnone : reloaded r.scaledValue inp u.ad u.store = [] := if_neg hidle
    exact hlt (by simpa [downAfter, hnone, Fleet.unavailable] using hwithin)
  · by_contra hup
    exact hlt ((downAfter_le_length r inp (by omega)).trans length_reloaded_le)
  · exact (not_le.mp hlt).trans_le (downAfter_le_downOrStale r inp u)

theorem Reloading.lt_downAfter (h : Reloading r w u) {inp : TickInput} (hclean : CleanTick u (.tick inp))
    (hover : ReloadOverlaps r u (.tick inp)) : budget r u.ad < downAfter r inp u := by
  obtain ⟨hreloads, hdown, hstale⟩ := hover
  by_cases hfull : (reloaded r.scaledValue inp u.ad u.store).length = budget r u.ad
  · have := h.le_downAfter hclean
    omega
  · -- the budget is not used up, so every stale pod goes
    refine hstale.trans_le (List.countP_mono_left fun i _ hi => ?_)
    rw [Bool.or_eq_true] at hi ⊢
    refine hi.imp_right fun hany => ?_
    obtain ⟨p, hp, hname⟩ := List.any_eq_true.mp hany
    obtain ⟨hpod, hlive, hslot⟩ := mem_fleet.mp hp
    have hmem : p ∈ reloaded r.scaledValue inp u.ad u.store :=
      (mem_reloaded_or hreloads hclean.1 hpod hlive (of_decide_eq_true hname)).resolve_right fun hlen => hfull hlen.1
    exact List.any_eq_true.mpr ⟨p, hmem, beq_iff_eq.mpr hslot⟩

theorem Reloading.within_world (h : Reloading r w u) {e : Pods.Event} (hs : step r u (.world e) = some u') :
    u'.fleet.unavailable (window w.ad) ≤ budget r w.ad := by
  obtain ⟨spec, rfl, rfl⟩ | ⟨inp, rfl, hp⟩ | ⟨-, hq⟩ := World.step_cases hs
  · exact h.within
  · rw [h.unavailable_pass hp]
    exact h.within
  · exact (hq.unavailable_le _).trans h.within

theorem Reloading.within_of_not_overlaps (h : Reloading r w u) {e : Event} (hs : step r u e = some u')
    (hover : ¬ReloadOverlaps r u e) : u'.fleet.unavailable (window w.ad) ≤ budget r w.ad := by
  cases e with
  | tick inp =>
    rw [unavailable_tick h inp hs, ← h.budget_eq]
    exact h.downAfter_le hover
  | world e => exact h.within_world hs

theorem Reloading.not_overlaps_of_within (h : Reloading r w u) {e : Event} (hs : step r u e = some u')
    (hclean : CleanTick u e) (hle : u'.fleet.unavailable (window w.ad) ≤ budget r w.ad) : ¬ReloadOverlaps r u e := by
  cases e with
  | tick inp =>
    rw [unavailable_tick h inp hs, ← h.budget_eq] at hle
    exact fun hover => absurd (h.lt_downAfter hclean hover) (not_lt.mpr hle)
  | world e => exact fun hf => hf

theorem Reloading.step (h : Reloading r w u) {e : Event} (hs : reloadStep r w u e = some u')
    (hover : ¬ReloadOverlaps r u e) : Reloading r w u' := by
  obtain ⟨hs, htarget⟩ := restrict_eq_some.mp hs
  exact ⟨htarget, fun i hi => (h.slots_step hs hi).1, fun i hi => (h.slots_step hs hi).2,
    h.within_of_not_overlaps hs hover⟩

end Reloading

/-- **Drift reload and the budget.** From a settled Ready window, in the runs that keep its target, at most `budget`
slots lack a live Ready pod after every step if no tick comes while a slot is down and the slots that are down or stale
exceed the budget; and only then, where the ticks are clean. -/
theorem unavailable_le_iff_not_reloadOverlaps (r : Reconciler) (w : World) (hw : Settled r w) (es : List Event) :
    (EachStep (reloadStep r w) (fun u e _ => ¬ReloadOverlaps r u e) w es →
        EachStep (reloadStep r w) (fun _ _ u' => u'.fleet.unavailable (window w.ad) ≤ budget r w.ad) w es) ∧
      (EachStep (reloadStep r w) (fun u e _ => CleanTick u e) w es →
        (EachStep (reloadStep r w) (fun _ _ u' => u'.fleet.unavailable (window w.ad) ≤ budget r w.ad) w es ↔
          EachStep (reloadStep r w) (fun u e _ => ¬ReloadOverlaps r u e) w es)) := by
  constructor
  · refine eachStep_of_eachStep (I := Reloading r w) ?_ hw.reloading
    intro u e u' hu hover hs
    exact ⟨hu.step hs hover, hu.within_of_not_overlaps (restrict_eq_some.mp hs).1 hover⟩
  · intro hclean
    refine (eachStep_iff_of_eachStep (I := Reloading r w) ?_ ?_ hw.reloading hclean).symm
    · intro u e u' hu hclean hs
      have hs' := (restrict_eq_some.mp hs).1
      exact ⟨hu.within_of_not_overlaps hs', hu.not_overlaps_of_within hs' hclean⟩
    · exact fun u e u' hu _ hs hover => hu.step hs hover

instance (r : Reconciler) (w : World) (e : Event) : Decidable (ReloadOverlaps r w e) :=
  match e with
  | .tick _ => inferInstanceAs (Decidable (_ ∧ _ ∧ _))
  | .world _ => inferInstanceAs (Decidable False)

/-- Two Ready pods on the desired image, with drift reload on. -/
def reloadPair : World :=
  let w := readyPair "a"
  { w with
    ad := { w.ad with
      spec := { w.ad.spec with agent := { w.ad.spec.agent with driftReload := some { enabled := some true } } } } }

theorem reloadPair_settled : Settled imageReconciler reloadPair where
  updateHash := by decide
  currentHash := by decide
  ready := by decide +kernel
  hash := by decide +kernel

/-- The peer `tools` has a new AgentCard, and `pod` reports the old one. -/
def staleTick (pod : String) : Event :=
  .tick { drift := AList.insert "tools" ⟨"new", AList.insert pod "old" ∅⟩ ∅ }

/-- One reload at a time: the second tick waits until the first replacement is Ready. -/
theorem unavailable_le_reloadPair :
    EachStep (reloadStep imageReconciler reloadPair)
      (fun _ _ u' => u'.fleet.unavailable (window reloadPair.ad) ≤ budget imageReconciler reloadPair.ad) reloadPair
      [staleTick "planner-0-0", .world (passNamed "1"), .world (becomesReady "planner-0-1"),
        staleTick "planner-1-0"] :=
  (unavailable_le_iff_not_reloadOverlaps imageReconciler reloadPair reloadPair_settled _).1 (by decide +kernel)

/-- The second tick comes while the replacement of slot `0` is still starting: the cap of one pod per tick does not
see it, and both slots are down. -/
theorem unavailable_exceeds_on_second_tick :
    Settled imageReconciler reloadPair ∧
      ¬EachStep (reloadStep imageReconciler reloadPair)
        (fun _ _ u' => u'.fleet.unavailable (window reloadPair.ad) ≤ budget imageReconciler reloadPair.ad) reloadPair
        [staleTick "planner-0-0", .world (passNamed "1"), staleTick "planner-1-0"] :=
  ⟨reloadPair_settled, by decide +kernel⟩

end KynoMesh.Driftwatch
