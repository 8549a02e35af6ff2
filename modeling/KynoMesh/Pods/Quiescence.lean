import KynoMesh.Pods.World

/-!
# What a pass leaves

* `exactFleet_iff_unmixed` : a pass that writes nothing and is not held back by the gate has found exactly the desired
  fleet, in the fleets where no slot runs the desired hash next to another one;
* `slotsAlive_iff` : after a pass that leaves the window on the desired hash, each slot holds a pod that can still run,
  if the pods that the pass kept can and the names that it drew were free.
-/

namespace KynoMesh.Pods
open KynoMesh.Lib KynoMesh.Api

/-! ## Passes that write nothing -/

/-- An API server that refuses every write: a pass that ends well with it has written nothing. -/
def PodApi.refusing : PodApi where
  deleteFault := fun _ => some "refused"
  createFault := fun _ => some "refused"

/-- The pass ended at the wait gate. -/
def heldBack (r : Reconciler) (ad : AgentDeploy) (st : PodStore) : Bool :=
  !((fleet st).needsReplace (r.podSpecHash ad) (window ad)).isEmpty &&
    (fleet st).waiting (r.podSpecHash ad) (window ad)

/-- One pod of the desired hash in each slot, and none outside. -/
structure ExactFleet (h : String) (n : Nat) (F : Fleet) : Prop where
  slot : ∀ i < n, ∃ p, F (i : Nat) = [p] ∧ p.hash = h
  outside : ∀ k, ¬(0 ≤ k ∧ k < (n : Int)) → F k = []

section Refusing
variable {inp : PassInput} {ad : AgentDeploy} {h : String} {st s s' : PodStore}

theorem deletePod_refusing {p : Pod} (hok : deletePod .refusing s p = .ok s') : s' = s := by
  unfold deletePod at hok
  split_ifs at hok with ht
  · cases hok
    rfl
  · cases hok

theorem scanPod_refusing {c c' : SlotScan} {p : Pod} (hok : scanPod .refusing h c p = .ok c') : c'.store = c.store := by
  unfold scanPod at hok
  split_ifs at hok with ht hh
  · cases hok
    rfl
  · cases hk : c.kept with
    | none =>
      rw [hk] at hok
      cases hok
      rfl
    | some q =>
      rw [hk] at hok
      obtain ⟨s, hs, hc'⟩ := bind_eq_ok.mp hok
      rw [pure_eq_ok] at hc'
      rw [← hc', deletePod_refusing hs]
  · cases hok
    rfl

theorem classifySlot_refusing {byReplica : Dict Int (List Pod)} {c c' : Classified} {i : Nat}
    (hok : classifySlot .refusing h byReplica c i = .ok c') : c'.store = c.store := by
  obtain ⟨scan, hscan, hok⟩ := bind_eq_ok.mp hok
  have hstore : scan.store = c.store := foldlM_ok_invariant (I := fun _ (x : SlotScan) => x.store = c.store) rfl
    (fun _ _ _ _ _ _ hb hstep => (scanPod_refusing hstep).trans hb) hscan
  cases hk : scan.kept with
  | some p =>
    simp only [hk, pure_eq_ok] at hok
    rw [← hok, hstore]
  | none =>
    simp only [hk] at hok
    split_ifs at hok <;> rw [pure_eq_ok] at hok <;> rw [← hok, hstore]

theorem createLoop_refusing {is : List Nat}
    (hok : is.foldlM (createPodForReplica { inp with api := .refusing } ad h) s = .ok s') : is = [] ∧ s' = s := by
  cases is with
  | nil => exact ⟨rfl, (pure_eq_ok.mp hok).symm⟩
  | cons i is =>
    obtain ⟨b, hb, -⟩ := foldlM_cons_eq_ok.mp hok
    cases hb

theorem replaceLoop_refusing {byReplica : Dict Int (List Pod)} {is : List Nat}
    (hok : is.foldlM (replaceSlot { inp with api := .refusing } ad h byReplica) s = .ok s') : is = [] ∧ s' = s := by
  cases is with
  | nil => exact ⟨rfl, (pure_eq_ok.mp hok).symm⟩
  | cons i is =>
    obtain ⟨b, hb, -⟩ := foldlM_cons_eq_ok.mp hok
    obtain ⟨b', -, hcreate⟩ := bind_eq_ok.mp hb
    cases hcreate

theorem Patched.not_mem_of_self {D : List String} (hpat : Patched st D [] st) {p : Pod} (hp : p ∈ st.pods)
    (hlive : p.terminating = false) : p.name ∉ D := by
  intro hD
  have hmark : PodStore.mark D p ∈ st.pods := by
    rw [hpat, List.append_nil]
    exact List.mem_map_of_mem hp
  have hsame := st.eq_of_name_eq hmark hp (PodStore.mark_name D p)
  rw [PodStore.mark, if_pos hD] at hsame
  rw [← hsame] at hlive
  cases hlive

end Refusing

theorem idle_spec {r : Reconciler} {inp : PassInput} {ad : AgentDeploy} {st st' : PodStore} {s' : AgentDeployStatus}
    (hidle : reconcilePods r { inp with api := .refusing } ad st = .ok (s', st')) :
    st' = st ∧ (∀ k, ¬(0 ≤ k ∧ k < (window ad : Int)) → fleet st k = []) ∧
      (∀ i < window ad, fleet st (i : Nat) ≠ [] ∧
        ∀ p ∈ fleet st (i : Nat), p.hash = r.podSpecHash ad →
          Fleet.current (r.podSpecHash ad) (fleet st i) = some p) ∧
      (fleet st).batch (r.podSpecHash ad) (window ad) (budget r ad) = [] ∧
      s' = statusAfter r { inp with api := .refusing } ad (fleet st) := by
  obtain ⟨st₁, c, st₂, hout, hclass, hcreate, hrepl, hs⟩ := reconcilePods_stages hidle
  have hst₁ : st₁ = st := by
    refine foldlM_ok_invariant (I := fun _ x => x = st) rfl ?_ hout
    intro done k rest b b' _ hb hstep
    split_ifs at hstep
    · cases hstep
      exact hb
    · exact (foldlM_ok_invariant (I := fun _ x => x = b) rfl
        (fun _ _ _ _ _ _ hx hd => (deletePod_refusing hd).trans hx) hstep).trans hb
  have hstore : c.store = st := hst₁ ▸ foldlM_ok_invariant (I := fun _ (x : Classified) => x.store = st₁) rfl
    (fun _ _ _ _ _ _ hb hstep => (classifySlot_refusing hstep).trans hb) hclass
  obtain ⟨hnone, rfl⟩ := createLoop_refusing hcreate
  obtain ⟨hbatch, rfl⟩ := replaceLoop_refusing hrepl
  have hpat := (classified hout hclass).patched
  rw [hstore] at hpat ⊢
  -- no live pod is named among those outside the window or the duplicates
  have hnot : ∀ {k p}, p ∈ fleet st k →
      p.name ∉ outsideNames st (desiredReplicas ad) (inp.order.visit (groupPodsByReplica st.pods).keys) ∧
        p.name ∉ duplicateNames st (r.podSpecHash ad) (List.range (window ad)) := by
    intro k p hp
    have hm := hpat.not_mem_of_self (mem_fleet.mp hp).1 (mem_fleet.mp hp).2.1
    rw [List.mem_append, not_or] at hm
    exact hm
  refine ⟨rfl, fun k hk => ?_, fun i hi => ⟨fun hempty => ?_, fun p hp hhash => ?_⟩, hbatch, hs⟩
  · rw [window_eq] at hk
    exact List.eq_nil_iff_forall_not_mem.mpr fun p hp => (hnot hp).1 ((mem_outsideNames hp).mpr hk)
  · have : i ∈ (fleet st).needsCreate (window ad) := by simp [Fleet.needsCreate, hi, hempty]
    simp [hnone] at this
  · by_contra hcur
    exact (hnot hp).2 ((mem_duplicateNames hp (List.mem_range.mpr hi)).mpr ⟨hhash, hcur⟩)

theorem eq_singleton_of_forall_eq {ps : List Pod} {p : Pod} (hnodup : ps.Nodup) (hp : p ∈ ps)
    (hall : ∀ q ∈ ps, q = p) : ps = [p] := by
  have hsub : ps ⊆ [p] := fun q hq => List.mem_singleton.mpr (hall q hq)
  have hlen := (List.subperm_of_subset hnodup hsub).length_le
  exact (List.singleton_sublist.mpr hp).eq_of_length_le hlen |>.symm

theorem updatePodStatus_replicas (ad : AgentDeploy) (s : AgentDeployStatus) (pods : List Pod) :
    (updatePodStatus ad s pods).replicas = UInt32.ofNat (pods.filter Pod.live).length := rfl

/-- Where the gate is open or nothing is outdated, an empty batch leaves the latter. -/
theorem needsReplace_eq_nil {r : Reconciler} {ad : AgentDeploy} {st : PodStore} (hgate : heldBack r ad st = false)
    (hbatch : (fleet st).batch (r.podSpecHash ad) (window ad) (budget r ad) = []) :
    (fleet st).needsReplace (r.podSpecHash ad) (window ad) = [] := by
  have hbudget := one_le_budget r ad
  cases hw : (fleet st).waiting (r.podSpecHash ad) (window ad) with
  | true => simpa [heldBack, hw] using hgate
  | false =>
    rw [Fleet.batch, hw, if_neg Bool.false_ne_true, List.take_eq_nil_iff] at hbatch
    exact hbatch.resolve_left (by omega)

theorem ExactFleet.replicas_eq {h : String} {ad : AgentDeploy} {st : PodStore}
    (hexact : ExactFleet h (window ad) (fleet st)) {s : AgentDeployStatus}
    (hdesired : s.desiredReplicas = UInt32.ofInt (desiredReplicas ad)) :
    (updatePodStatus ad s st.pods).replicas = (updatePodStatus ad s st.pods).desiredReplicas := by
  have hlen : (st.pods.filter Pod.live).length = window ad := by
    refine length_live_eq (fun i hi => ?_) hexact.outside
    obtain ⟨p, hp, -⟩ := hexact.slot i hi
    rw [hp]
    rfl
  rw [updatePodStatus_replicas, hlen]
  change UInt32.ofNat (window ad) = s.desiredReplicas
  have hmod : ((window ad : Int) % 2 ^ 32).toNat = window ad := by
    have := window_lt ad
    omega
  rw [hdesired, ← window_eq, UInt32.ofInt, hmod]

/-- **Quiescence.** A pass that writes nothing and is not held back has found the desired fleet, and its status says
so, exactly when no slot runs the desired hash next to another one. -/
theorem exactFleet_iff_unmixed (r : Reconciler) (inp : PassInput) (ad : AgentDeploy) (st st' : PodStore)
    (s' : AgentDeployStatus) (hidle : reconcilePods r { inp with api := .refusing } ad st = .ok (s', st'))
    (hgate : heldBack r ad st = false) :
    (ExactFleet (r.podSpecHash ad) (window ad) (fleet st') ∧
        (updatePodStatus ad s' st'.pods).replicas = (updatePodStatus ad s' st'.pods).desiredReplicas) ↔
      ∀ i < window ad, ∀ p ∈ fleet st (i : Nat), ∀ q ∈ fleet st (i : Nat),
        p.hash = r.podSpecHash ad → q.hash = r.podSpecHash ad := by
  obtain ⟨rfl, houtside, hslot, hbatch, hs⟩ := idle_spec hidle
  constructor
  · rintro ⟨hexact, -⟩ i hi p hp q hq hph
    obtain ⟨x, hx, -⟩ := hexact.slot i hi
    rw [hx, List.mem_singleton] at hp hq
    rwa [hq, ← hp]
  · intro hunmixed
    have hreplace := needsReplace_eq_nil hgate hbatch
    have hone : ∀ i < window ad, ∃ p, fleet st' (i : Nat) = [p] ∧ p.hash = r.podSpecHash ad := by
      intro i hi
      obtain ⟨hne, hcur⟩ := hslot i hi
      -- a slot that is not empty and not outdated has a pod on the hash
      obtain ⟨p, hp, hph⟩ : ∃ p ∈ fleet st' (i : Nat), p.hash = r.podSpecHash ad := by
        by_contra hold
        push Not at hold
        have hin : i ∈ (fleet st').needsReplace (r.podSpecHash ad) (window ad) :=
          List.mem_filter.mpr ⟨List.mem_range.mpr hi,
            Fleet.outdated_iff.mpr ⟨hne, Fleet.current_eq_none.mpr hold⟩⟩
        simp [hreplace] at hin
      refine ⟨p, eq_singleton_of_forall_eq (fleet_nodup st' i) hp fun q hq => ?_, hph⟩
      have hqp := (hcur q hq (hunmixed i hi p hp q hq hph)).symm.trans (hcur p hp hph)
      exact Option.some.inj hqp
    have hexact : ExactFleet (r.podSpecHash ad) (window ad) (fleet st') := ⟨hone, houtside⟩
    exact ⟨hexact, hexact.replicas_eq (hs ▸ (statusAfter_fields r _ ad (fleet st')).2.2.1)⟩

def imageDeploy (image : String) (n : Int32) : AgentDeploy where
  metadata := plannerMeta
  spec := imageSpec image n

/-- A pass that draws the names of its pods with one tail. -/
def tailed (tail : String) : PassInput := { now := 0, suffix := fun _ => tail }

/-- Slot `0` with its pod on image `b` and one left on image `a`. -/
def mixedSlot : PodStore :=
  ⟨[{ name := "planner-0-1", hash := "b", replica := "0" }, { name := "planner-0-0", hash := "a", replica := "0" }],
    by decide⟩

/-- The pod of image `a` stays: the slot counts as satisfied. -/
theorem quiescent_mixedSlot : ∃ s' st',
    reconcilePods imageReconciler { tailed "2" with api := .refusing } (imageDeploy "b" 1) mixedSlot = .ok (s', st') ∧
      heldBack imageReconciler (imageDeploy "b" 1) mixedSlot = false ∧
      ¬ExactFleet "b" (window (imageDeploy "b" 1)) (fleet st') := by
  obtain ⟨⟨s', st'⟩, hok⟩ : ∃ x,
      reconcilePods imageReconciler { tailed "2" with api := .refusing } (imageDeploy "b" 1) mixedSlot = .ok x :=
    exists_eq_ok_of_isOk (by decide +kernel)
  refine ⟨s', st', hok, by decide +kernel, fun hexact => ?_⟩
  obtain ⟨rfl, -⟩ := idle_spec hok
  obtain ⟨p, hp, -⟩ := hexact.slot 0 (by decide +kernel)
  have htwo : (fleet mixedSlot (0 : Nat)).length = 2 := by decide +kernel
  rw [hp] at htwo
  cases htwo

/-- Two slots on image `b`, with the pod that slot `0` had on image `a` on its way out. -/
def twoSlots : PodStore :=
  ⟨[{ name := "planner-0-0", hash := "a", replica := "0", terminating := true },
    { name := "planner-0-1", hash := "b", replica := "0" }, { name := "planner-1-1", hash := "b", replica := "1" }],
    by decide⟩

theorem exactFleet_twoSlots : ∃ s' st',
    reconcilePods imageReconciler { tailed "2" with api := .refusing } (imageDeploy "b" 2) twoSlots = .ok (s', st') ∧
      ExactFleet "b" (window (imageDeploy "b" 2)) (fleet st') ∧
      (updatePodStatus (imageDeploy "b" 2) s' st'.pods).replicas =
        (updatePodStatus (imageDeploy "b" 2) s' st'.pods).desiredReplicas := by
  obtain ⟨⟨s', st'⟩, hok⟩ : ∃ x,
      reconcilePods imageReconciler { tailed "2" with api := .refusing } (imageDeploy "b" 2) twoSlots = .ok x :=
    exists_eq_ok_of_isOk (by decide +kernel)
  exact ⟨s', st', hok, (exactFleet_iff_unmixed imageReconciler (tailed "2") (imageDeploy "b" 2) twoSlots st' s' hok
    (by decide +kernel)).mpr (by decide +kernel)⟩

/-! ## Pods that can still run -/

/-- The phase of a pod that Kubernetes never restarts. -/
def Pod.terminal (p : Pod) : Bool := p.phase == .succeeded || p.phase == .failed

/-- No live pod of the window is on another hash. -/
def OnHash (h : String) (n : Nat) (F : Fleet) : Prop := ∀ i < n, ∀ p ∈ F (i : Nat), p.hash = h

section
variable {r : Reconciler} {inp : PassInput} {ad : AgentDeploy} {st st' : PodStore} {s' : AgentDeployStatus}

theorem fleet_after (hok : reconcilePods r inp ad st = .ok (s', st')) {i : Nat} (hi : i < window ad) :
    fleet st' (i : Nat) = (fleet st).passSlot (r.podSpecHash ad) (window ad) (budget r ad)
      (drawnPod inp ad (r.podSpecHash ad) st) i := by
  rw [(reconcilePods_refines hok).2, Fleet.pass_of_lt _ _ _ _ _ hi]

theorem OnHash.after (hok : reconcilePods r inp ad st = .ok (s', st'))
    (h : OnHash (r.podSpecHash ad) (window ad) (fleet st)) : OnHash (r.podSpecHash ad) (window ad) (fleet st') := by
  intro i hi p hp
  rw [fleet_after hok hi, Fleet.passSlot] at hp
  split_ifs at hp with hcur hnew
  · exact h i hi p (List.mem_filter.mp hp).1
  · exact drawnPod_hash (Option.mem_toList.mp hp)
  · exact h i hi p hp

/-- A slot that a pass leaves on the desired hash: the pod kept, or a pod created in an empty or outdated slot. -/
theorem slot_after (hok : reconcilePods r inp ad st = .ok (s', st')) {i : Nat} (hi : i < window ad)
    (hhash : OnHash (r.podSpecHash ad) (window ad) (fleet st')) :
    (∃ p, Fleet.current (r.podSpecHash ad) (fleet st i) = some p ∧ fleet st' (i : Nat) = [p]) ∨
      (Fleet.current (r.podSpecHash ad) (fleet st i) = none ∧ i ∈ createdSlots r ad (fleet st) ∧
        fleet st' (i : Nat) = (drawnPod inp ad (r.podSpecHash ad) st i).toList) := by
  have hslot := fleet_after hok hi
  rw [Fleet.passSlot] at hslot
  cases hcur : Fleet.current (r.podSpecHash ad) (fleet st i) with
  | some p =>
    rw [hcur, if_pos Option.isSome_some] at hslot
    have hmem : p ∈ fleet st' (i : Nat) := by
      rw [hslot]
      exact List.mem_filter.mpr ⟨List.mem_of_find?_eq_some hcur, by simp [hcur]⟩
    refine .inl ⟨p, rfl, eq_singleton_of_forall_eq (fleet_nodup st' i) hmem fun q hq => ?_⟩
    have hqh := hhash i hi q hq
    rw [hslot] at hq
    have hq' := (List.mem_filter.mp hq).2
    rw [Bool.or_eq_true, bne_iff_ne, beq_iff_eq, hcur, Option.some.injEq] at hq'
    exact (hq'.resolve_left (not_not.mpr hqh)).symm
  | none =>
    rw [hcur, if_neg (by simp)] at hslot
    by_cases hcreated : (fleet st i).isEmpty ∨ i ∈ (fleet st).batch (r.podSpecHash ad) (window ad) (budget r ad)
    · rw [if_pos hcreated] at hslot
      refine .inr ⟨rfl, ?_, hslot⟩
      rcases hcreated with hempty | hbatch
      · exact List.mem_append_left _ (List.mem_filter.mpr ⟨List.mem_range.mpr hi, hempty⟩)
      · exact List.mem_append_right _ hbatch
    · -- an outdated slot that is not replaced keeps its pods, which are not on the desired hash
      exfalso
      rw [if_neg hcreated] at hslot
      rw [not_or, List.isEmpty_iff] at hcreated
      obtain ⟨p, hp⟩ := List.exists_mem_of_ne_nil _ hcreated.1
      exact Fleet.current_eq_none.mp hcur p hp (hhash i hi p (hslot ▸ hp))

theorem current_of_mem_createdSlots {i : Nat} (hi : i ∈ createdSlots r ad (fleet st)) :
    Fleet.current (r.podSpecHash ad) (fleet st i) = none := by
  rcases List.mem_append.mp hi with hi | hi
  · have hempty : fleet st i = [] := by simpa [Fleet.needsCreate] using (List.mem_filter.mp hi).2
    rw [hempty]
    rfl
  · exact (Fleet.outdated_iff.mp (Fleet.batch_subset hi).2).2

theorem freeNames_iff_nodup (r : Reconciler) (inp : PassInput) (ad : AgentDeploy) (st : PodStore) :
    FreeNames r inp ad st ↔
      ((st.pods ++ (createdSlots r ad (fleet st)).map (freshPod inp ad (r.podSpecHash ad))).map Pod.name).Nodup := by
  rw [List.map_append, List.nodup_append, and_iff_right st.nodup, and_iff_right (freshPods_nodup r inp ad st)]
  constructor
  · rintro hfree name hname _ hnew rfl
    obtain ⟨_, hp, rfl⟩ := List.mem_map.mp hnew
    obtain ⟨i, hi, rfl⟩ := List.mem_map.mp hp
    exact hfree i hi hname
  · intro hdisj i hi hname
    exact hdisj _ hname _ (List.mem_map_of_mem (List.mem_map_of_mem hi)) rfl

/-- If every slot holds a pod, all the pods that the pass wanted were created: their names were free. -/
theorem freeNames_of_filled (hok : reconcilePods r inp ad st = .ok (s', st'))
    (hhash : OnHash (r.podSpecHash ad) (window ad) (fleet st')) (hfilled : ∀ i < window ad, fleet st' (i : Nat) ≠ []) :
    FreeNames r inp ad st := by
  intro i hi htaken
  have hlt := Fleet.createdSlots_lt hi
  rcases slot_after hok hlt hhash with ⟨q, hq, -⟩ | ⟨-, -, hslot⟩
  · simp [current_of_mem_createdSlots hi] at hq
  · rw [drawnPod, if_pos htaken] at hslot
    exact hfilled i hlt hslot

theorem not_terminal_after (hok : reconcilePods r inp ad st = .ok (s', st'))
    (hhash : OnHash (r.podSpecHash ad) (window ad) (fleet st'))
    (hterm : ∀ i < window ad, ∀ p, Fleet.current (r.podSpecHash ad) (fleet st i) = some p → p.terminal = false) :
    ∀ p ∈ st'.pods, p.live = true → p.terminal = false := by
  intro p hp hl
  have hmem : p ∈ fleet st' p.slot := mem_fleet.mpr ⟨hp, by simpa [Pod.live] using hl, rfl⟩
  by_cases hin : 0 ≤ p.slot ∧ p.slot < (window ad : Int)
  · obtain ⟨i, hi⟩ := Int.eq_ofNat_of_zero_le hin.1
    rw [hi] at hmem
    rcases slot_after hok (show i < window ad by omega) hhash with ⟨q, hcur, hslot⟩ | ⟨-, -, hslot⟩
    · rw [hslot, List.mem_singleton] at hmem
      rw [hmem]
      exact hterm i (by omega) q hcur
    · rw [hslot] at hmem
      rw [mem_drawnPod (Option.mem_toList.mp hmem)]
      rfl
  · rw [(reconcilePods_refines hok).2, Fleet.pass_outside _ _ _ _ _ hin] at hmem
    cases hmem

end

/-- **Dead pods.** After a pass without a rollout in progress, each slot holds a pod that can still run and
`Status.Replicas` counts such pods only, exactly when no pod that the pass keeps is terminal and the names that it
draws are free. -/
theorem slotsAlive_iff (r : Reconciler) (inp : PassInput) (ad : AgentDeploy) (st st' : PodStore)
    (s' : AgentDeployStatus) (hok : reconcilePods r inp ad st = .ok (s', st'))
    (hroll : OnHash (r.podSpecHash ad) (window ad) (fleet st) ∨ OnHash (r.podSpecHash ad) (window ad) (fleet st')) :
    ((∀ i < window ad, ∃ p ∈ fleet st' (i : Nat), p.terminal = false) ∧
        (updatePodStatus ad s' st'.pods).replicas =
          UInt32.ofNat (st'.pods.countP fun p => p.live && !p.terminal)) ↔
      (∀ i < window ad, ∀ p, Fleet.current (r.podSpecHash ad) (fleet st i) = some p → p.terminal = false) ∧
        ((st.pods ++ (createdSlots r ad (fleet st)).map
          (freshPod inp ad (r.podSpecHash ad))).map Pod.name).Nodup := by
  have hhash : OnHash (r.podSpecHash ad) (window ad) (fleet st') := hroll.elim (OnHash.after hok) id
  rw [← freeNames_iff_nodup]
  constructor
  · rintro ⟨halive, -⟩
    refine ⟨fun i hi p hcur => ?_, freeNames_of_filled hok hhash fun i hi hempty => ?_⟩
    · obtain ⟨q, hq, hterm⟩ := halive i hi
      rcases slot_after hok hi hhash with ⟨p', hcur', hslot⟩ | ⟨hnone, -⟩
      · rw [hslot, List.mem_singleton] at hq
        rw [hcur, Option.some.injEq] at hcur'
        rwa [hcur', ← hq]
      · simp [hcur] at hnone
    · obtain ⟨q, hq, -⟩ := halive i hi
      simp [hempty] at hq
  · rintro ⟨hterm, hfree⟩
    have hlive := not_terminal_after hok hhash hterm
    refine ⟨fun i hi => ?_, ?_⟩
    · rcases slot_after hok hi hhash with ⟨p, hcur, hslot⟩ | ⟨-, hcreated, hslot⟩
      · exact ⟨p, by simp [hslot], hterm i hi p hcur⟩
      · rw [hfree.drawnPod hcreated] at hslot
        exact ⟨freshPod inp ad (r.podSpecHash ad) i, by simp [hslot], rfl⟩
    · rw [updatePodStatus_replicas, List.countP_eq_length_filter]
      congr 2
      refine List.filter_congr fun p hp => ?_
      cases hl : p.live with
      | false => rfl
      | true => simp [hlive p hp hl]

/-- The one pod of slot `0`, after its eviction. -/
def evictedPod : PodStore :=
  ⟨[{ name := "planner-0-1", hash := "b", replica := "0", phase := .failed }], by decide⟩

/-- The evicted pod holds its slot. -/
theorem evictedPod_holds_slot : OnHash "b" (window (imageDeploy "b" 1)) (fleet evictedPod) ∧ ∃ s' st',
    reconcilePods imageReconciler (tailed "2") (imageDeploy "b" 1) evictedPod = .ok (s', st') ∧
      ¬∀ i < window (imageDeploy "b" 1), ∃ p ∈ fleet st' (i : Nat), p.terminal = false := by
  refine ⟨by unfold OnHash; decide +kernel, ?_⟩
  obtain ⟨⟨s', st'⟩, hok⟩ : ∃ x, reconcilePods imageReconciler (tailed "2") (imageDeploy "b" 1) evictedPod = .ok x :=
    exists_eq_ok_of_isOk (by decide +kernel)
  refine ⟨s', st', hok, fun halive => ?_⟩
  obtain ⟨p, hp, hterm⟩ := halive 0 (by decide +kernel)
  have hkept : ∀ p ∈ (fleet evictedPod).pass "b" (window (imageDeploy "b" 1)) (budget imageReconciler (imageDeploy "b" 1))
      (drawnPod (tailed "2") (imageDeploy "b" 1) "b" evictedPod) (0 : Nat), p.terminal = true := by decide +kernel
  rw [(reconcilePods_refines hok).2] at hp
  rw [hkept p hp] at hterm
  cases hterm

def onePod : PodStore := ⟨[{ name := "planner-0-1", hash := "b", replica := "0" }], by decide⟩

theorem slotsAlive_onePod : ∃ s' st',
    reconcilePods imageReconciler (tailed "2") (imageDeploy "b" 2) onePod = .ok (s', st') ∧
      (∀ i < window (imageDeploy "b" 2), ∃ p ∈ fleet st' (i : Nat), p.terminal = false) ∧
      (updatePodStatus (imageDeploy "b" 2) s' st'.pods).replicas =
        UInt32.ofNat (st'.pods.countP fun p => p.live && !p.terminal) := by
  obtain ⟨⟨s', st'⟩, hok⟩ : ∃ x, reconcilePods imageReconciler (tailed "2") (imageDeploy "b" 2) onePod = .ok x :=
    exists_eq_ok_of_isOk (by decide +kernel)
  exact ⟨s', st', hok, (slotsAlive_iff imageReconciler (tailed "2") (imageDeploy "b" 2) onePod st' s' hok
    (.inl (by unfold OnHash; decide +kernel))).mpr (by decide +kernel)⟩

end KynoMesh.Pods
