import KynoMesh.Pods.Fleet

/-!
# A successful pass is the pass of the fleet

The deletions and creations of `reconcilePods` are collected in a patch of the store (`Patched`), loop by loop; the
slots of the patched store are then read off.

* `reconcilePods_stages` : the loops of a successful pass;
* `reconcilePods_drawn` : the names that a pass deletes and the pods that it creates;
* `drawnPod` : the pod that a slot gets, none if its drawn name is taken; `FreeNames` : no drawn name is;
* `reconcilePods_refines` : a successful `reconcilePods` acts on the fleet as `Fleet.pass`, and promotes `currentHash`
  exactly when no slot is outdated.
-/

namespace KynoMesh.Pods
open KynoMesh.Lib KynoMesh.Api

/-! ## Names -/

theorem PodStore.eq_of_name_eq (st : PodStore) {p q : Pod} (hp : p ∈ st.pods) (hq : q ∈ st.pods)
    (h : p.name = q.name) : p = q :=
  List.inj_on_of_nodup_map st.nodup hp hq h

theorem mem_fleet {st : PodStore} {i : Int} {p : Pod} :
    p ∈ fleet st i ↔ p ∈ st.pods ∧ p.terminating = false ∧ p.slot = i := by
  simp [fleet, Pod.live]

theorem newPod_slot (ad : AgentDeploy) {i : Nat} (hi : i < 2 ^ 63) (hash suffix : String) :
    (newPod ad i hash suffix).slot = i := by
  simp only [Pod.slot, newPod]
  rw [atoi_itoa hi]
  rfl

/-! ## Grouping -/

theorem podsAt_insert (d : Dict Int (List Pod)) (k j : Int) (ps : List Pod) :
    podsAt (d.insert k ps) j = if j = k then ps else podsAt d j := by
  unfold podsAt
  split_ifs with h
  · subst h
    rw [AList.lookup_insert]
    rfl
  · rw [AList.lookup_insert_ne h]

theorem podsAt_foldl (pods : List Pod) (d : Dict Int (List Pod)) (i : Int) :
    podsAt (pods.foldl (fun out p => out.insert p.slot ((out.lookup p.slot).getD [] ++ [p])) d) i =
      podsAt d i ++ pods.filter fun p => p.slot == i := by
  induction pods generalizing d with
  | nil => simp
  | cons p ps ih =>
    rw [List.foldl_cons, ih, podsAt_insert, List.filter_cons]
    by_cases h : i = p.slot
    · subst h
      simp [podsAt]
    · rw [if_neg h, if_neg (by simpa using fun h' => h h'.symm)]

theorem podsAt_group (pods : List Pod) (i : Int) :
    podsAt (groupPodsByReplica pods) i = pods.filter fun p => p.slot == i := by
  unfold groupPodsByReplica
  rw [podsAt_foldl]
  simp [podsAt]

theorem mem_keys_of_podsAt {d : Dict Int (List Pod)} {i : Int} {p : Pod} (h : p ∈ podsAt d i) : i ∈ d.keys := by
  unfold podsAt at h
  cases hl : d.lookup i with
  | none => simp [hl] at h
  | some ps =>
    rw [← AList.mem_keys, ← AList.lookup_isSome]
    simp [hl]

theorem podsAt_live (st : PodStore) (i : Int) :
    (podsAt (groupPodsByReplica st.pods) i).filter Pod.live = fleet st i := by
  rw [podsAt_group, List.filter_filter]
  rfl

/-! ## Patches: deletions and creations on top of a store -/

/-- `st'` is `st` with the pods named in `D` terminating and the pods `C` appended. -/
def Patched (st : PodStore) (D : List String) (C : List Pod) (st' : PodStore) : Prop :=
  st'.pods = st.pods.map (PodStore.mark D) ++ C

theorem Patched.refl (st : PodStore) : Patched st [] [] st := by
  have h : PodStore.mark [] = id := by
    funext p
    simp [PodStore.mark]
  simp [Patched, h]

theorem mark_mark (D : List String) (n : String) (p : Pod) :
    PodStore.mark [n] (PodStore.mark D p) = PodStore.mark (D ++ [n]) p := by
  by_cases hn : p.name = n
  · subst hn
    by_cases hD : p.name ∈ D <;> simp [PodStore.mark, hD]
  · by_cases hD : p.name ∈ D <;> simp [PodStore.mark, hD, hn]

theorem Patched.delete {st st' : PodStore} {D : List String} {C : List Pod} (h : Patched st D C st') {n : String}
    (hn : n ∉ C.map Pod.name) : Patched st (D ++ [n]) C (st'.delete n) := by
  have hC : C.map (PodStore.mark [n]) = C := by
    conv_rhs => rw [← List.map_id C]
    refine List.map_congr_left fun p hp => ?_
    have hne : p.name ≠ n := fun he => hn (he ▸ List.mem_map_of_mem hp)
    simp [PodStore.mark, hne]
  change st'.pods.map (PodStore.mark [n]) = _
  rw [h, List.map_append, hC, List.map_map]
  congr 1
  exact List.map_congr_left fun p _ => mark_mark D n p

theorem Patched.names {st st' : PodStore} {D : List String} {C : List Pod} (h : Patched st D C st') :
    st'.pods.map Pod.name = st.pods.map Pod.name ++ C.map Pod.name := by
  rw [h, List.map_append, PodStore.map_mark_name]

theorem Patched.create {st st' : PodStore} {D : List String} {C : List Pod} (h : Patched st D C st') {p : Pod}
    (hfree : p.name ∉ st'.pods.map Pod.name) : Patched st D (C ++ [p]) (st'.create p) := by
  unfold Patched PodStore.create
  rw [dif_neg hfree]
  change st'.pods ++ [p] = _
  rw [h, List.append_assoc]

theorem Patched.fleet {st st' : PodStore} {D : List String} {C : List Pod} (h : Patched st D C st')
    (hC : ∀ p ∈ C, p.terminating = false) (i : Int) :
    fleet st' i = ((fleet st i).filter fun p => p.name ∉ D) ++ C.filter fun p => p.slot == i := by
  have hmark : ∀ p ∈ st.pods, ((fun p => p.live && p.slot == i) ∘ PodStore.mark D) p =
      (decide (p.name ∉ D) && (p.live && p.slot == i)) := by
    intro p _
    by_cases hD : p.name ∈ D <;> simp [PodStore.mark, Pod.live, hD]
  unfold Pods.fleet
  rw [h, List.filter_append, List.filter_map, List.filter_filter, List.filter_congr hmark]
  congr 1
  · conv_rhs => rw [← List.map_id (List.filter _ st.pods)]
    refine List.map_congr_left fun p hp => ?_
    have hD : p.name ∉ D := by
      have hp' := (List.mem_filter.mp hp).2
      simp only [Bool.and_eq_true, decide_eq_true_eq] at hp'
      exact hp'.1
    simp [PodStore.mark, hD]
  · exact List.filter_congr fun p hp => by simp [Pod.live, hC p hp]

/-! ## The loops of a pass -/

theorem Patched.deleteLoop {f : PodStore → Pod → Except String PodStore} {c : Pod → Bool}
    (hf : ∀ s p s', f s p = .ok s' → s' = if c p then s.delete p.name else s) {st s s' : PodStore}
    {D : List String} {C l : List Pod} (h : Patched st D C s) (hC : ∀ p ∈ l, p.name ∉ C.map Pod.name)
    (hok : l.foldlM f s = .ok s') : Patched st (D ++ (l.filter c).map Pod.name) C s' := by
  refine foldlM_ok_invariant
    (I := fun done s => Patched st (D ++ (done.filter c).map Pod.name) C s) (by simpa using h) ?_ hok
  intro done p rest b b' hl hb hstep
  rw [hf b p b' hstep]
  split_ifs with hp
  · simpa [hp] using hb.delete (hC p (by simp [hl]))
  · simpa [hp] using hb

theorem deletePod_eq {api : PodApi} {s s' : PodStore} {p : Pod} (h : deletePod api s p = .ok s') :
    s' = if p.live then s.delete p.name else s := by
  unfold deletePod at h
  cases hp : p.terminating with
  | true => simpa [hp, Pod.live, eq_comm] using h
  | false =>
    cases hd : api.deleteFault p with
    | some e => simp [hp, hd] at h
    | none => simpa [hp, hd, Pod.live, eq_comm] using h

/-- The names that step (1) deletes. -/
def outsideNames (st : PodStore) (n : Int) (keys : List Int) : List String :=
  keys.flatMap fun k => if 0 ≤ k ∧ k < n then [] else (fleet st k).map Pod.name

theorem Patched.deleteOutside {inp : PassInput} {n : Int} {st s' : PodStore}
    (hok : deleteOutside inp n (groupPodsByReplica st.pods) st = .ok s') :
    Patched st (outsideNames st n (inp.order.visit (groupPodsByReplica st.pods).keys)) [] s' := by
  refine foldlM_ok_invariant (I := fun done s => Patched st (outsideNames st n done) [] s) (.refl st) ?_ hok
  intro done k rest b b' _ hb hstep
  simp only [outsideNames, List.flatMap_append, List.flatMap_singleton]
  split_ifs at hstep ⊢ with hk
  · cases hstep
    simpa [outsideNames] using hb
  · rw [← podsAt_live]
    exact hb.deleteLoop (fun s p s' => deletePod_eq) (by simp) hstep

/-- The names that the classification of the slots `is` deletes. -/
def duplicateNames (st : PodStore) (h : String) (is : List Nat) : List String :=
  is.flatMap fun (i : Nat) => ((fleet st i).filter fun p => p.hash == h).tail.map Pod.name

/-- What the inner loop has found after the pods `done` of a slot. -/
structure Scanned (st : PodStore) (D : List String) (h : String) (done : List Pod) (c : SlotScan) : Prop where
  kept : c.kept = Fleet.current h (done.filter Pod.live)
  old : c.hasLiveOld = (done.filter Pod.live).any fun p => p.hash != h
  patched : Patched st (D ++ ((done.filter Pod.live).filter fun p => p.hash == h).tail.map Pod.name) [] c.store

theorem Scanned.step {api : PodApi} {st : PodStore} {D : List String} {h : String} {done : List Pod}
    {c c' : SlotScan} (hc : Scanned st D h done c) {p : Pod} (hok : scanPod api h c p = .ok c') :
    Scanned st D h (done ++ [p]) c' := by
  unfold scanPod at hok
  split_ifs at hok with ht hh
  · cases hok
    exact ⟨by simpa [Pod.live, ht] using hc.kept, by simpa [Pod.live, ht] using hc.old,
      by simpa [Pod.live, ht] using hc.patched⟩
  · have hold : c.hasLiveOld = ((done ++ [p]).filter Pod.live).any fun p => p.hash != h := by
      simpa [Pod.live, ht, hh] using hc.old
    have hkept := hc.kept
    have hpat := hc.patched
    cases hk : c.kept with
    | none =>
      rw [hk] at hok hkept
      cases hok
      -- nothing on the hash so far: `p` becomes the head of the on-hash pods
      have hnil : (done.filter Pod.live).filter (fun p => p.hash == h) = [] := by
        rw [← List.head?_eq_none_iff, List.head?_filter]
        exact hkept.symm
      refine ⟨?_, hold, ?_⟩
      · rw [Fleet.current] at hkept ⊢
        rw [List.filter_append, List.find?_append, ← hkept]
        simp [Pod.live, ht, hh]
      · rw [hnil] at hpat
        rw [List.filter_append, List.filter_append, hnil]
        simpa [Pod.live, ht, hh] using hpat
    | some q =>
      rw [hk] at hok hkept
      obtain ⟨s, hs, hc'⟩ := bind_eq_ok.mp hok
      rw [pure_eq_ok] at hc'
      subst hc'
      have hne : (done.filter Pod.live).filter (fun p => p.hash == h) ≠ [] := by
        intro hnil
        simp [Fleet.current, ← List.head?_filter, hnil] at hkept
      refine ⟨?_, hold, ?_⟩
      · rw [Fleet.current] at hkept ⊢
        rw [List.filter_append, List.find?_append, ← hkept]
        rfl
      · rw [deletePod_eq hs, if_pos (by simp [Pod.live, ht])]
        rw [List.filter_append, List.filter_append, List.tail_append_of_ne_nil hne]
        simpa [Pod.live, ht, hh] using hpat.delete (n := p.name) (by simp)
  · cases hok
    refine ⟨?_, ?_, ?_⟩
    · simpa [Fleet.current, Pod.live, ht, hh, List.find?_append] using hc.kept
    · simp [Pod.live, ht, hh]
    · simpa [Pod.live, ht, hh] using hc.patched

theorem scan_spec {api : PodApi} {st s : PodStore} {D : List String} {h : String} {i : Int} {c : SlotScan}
    (hs : Patched st D [] s)
    (hok : (podsAt (groupPodsByReplica st.pods) i).foldlM (scanPod api h) { store := s } = .ok c) :
    c.kept = Fleet.current h (fleet st i) ∧ (c.hasLiveOld = (fleet st i).any fun p => p.hash != h) ∧
      Patched st (D ++ ((fleet st i).filter fun p => p.hash == h).tail.map Pod.name) [] c.store := by
  have hend := foldlM_ok_invariant (I := Scanned st D h) ⟨rfl, rfl, by simpa using hs⟩
    (fun done p rest b b' _ hb hstep => hb.step hstep) hok
  rw [← podsAt_live]
  exact ⟨hend.kept, hend.old, hend.patched⟩

/-- What the classification loop has found after the slots `done`. -/
structure Sorted (st : PodStore) (D : List String) (h : String) (done : List Nat) (c : Classified) : Prop where
  create : c.needsCreate = done.filter fun (i : Nat) => (fleet st i).isEmpty
  replace : c.needsReplace = done.filter fun (i : Nat) => Fleet.outdated h (fleet st i)
  updated : c.updatedOnDesired = done.countP fun (i : Nat) => (Fleet.current h (fleet st i)).isSome
  ready : c.updatedReadyOnDesired = done.countP fun (i : Nat) => (Fleet.current h (fleet st i)).any podReady
  patched : Patched st (D ++ duplicateNames st h done) [] c.store

theorem Sorted.step {api : PodApi} {st : PodStore} {D : List String} {h : String} {done : List Nat}
    {c c' : Classified} (hc : Sorted st D h done c) {i : Nat}
    (hok : classifySlot api h (groupPodsByReplica st.pods) c i = .ok c') : Sorted st D h (done ++ [i]) c' := by
  unfold classifySlot at hok
  obtain ⟨scan, hscan, hok⟩ := bind_eq_ok.mp hok
  obtain ⟨hkept, hold, hpat⟩ := scan_spec hc.patched hscan
  have hdup : Patched st (D ++ duplicateNames st h (done ++ [i])) [] scan.store := by
    simpa [duplicateNames] using hpat
  rw [hkept] at hok
  obtain ⟨he, hcur, ho⟩ | ⟨he, hcur, ho⟩ | ⟨he, hcur, ho⟩ := Fleet.classes h (fleet st i)
  · have hno : scan.hasLiveOld = false := by simp [hold, he]
    simp only [hcur, hno, Bool.false_eq_true, if_false, pure_eq_ok] at hok
    subst hok
    exact ⟨by simp [hc.create, he], by simp [hc.replace, ho], by simp [hc.updated, hcur],
      by simp [hc.ready, hcur], hdup⟩
  · obtain ⟨p, hp⟩ := Option.isSome_iff_exists.mp hcur
    simp only [hp, pure_eq_ok] at hok
    subst hok
    exact ⟨by simp [hc.create, he], by simp [hc.replace, ho], by simp [hc.updated, hp],
      by simp [hc.ready, hp], hdup⟩
  · have hyes : scan.hasLiveOld = true := by
      obtain ⟨p, hp⟩ := List.exists_mem_of_ne_nil _ he
      rw [hold, List.any_eq_true]
      exact ⟨p, hp, by simpa using Fleet.current_eq_none.mp hcur p hp⟩
    simp only [hcur, hyes, if_true, pure_eq_ok] at hok
    subst hok
    exact ⟨by simp [hc.create, he], by simp [hc.replace, ho], by simp [hc.updated, hcur],
      by simp [hc.ready, hcur], hdup⟩

/-- The first two stages of a pass: what they find and what they delete. -/
theorem classified {inp : PassInput} {h : String} {m : Int} {n : Nat} {st st₁ : PodStore} {c : Classified}
    (hout : deleteOutside inp m (groupPodsByReplica st.pods) st = .ok st₁)
    (hclass : (List.range n).foldlM (classifySlot inp.api h (groupPodsByReplica st.pods)) { store := st₁ } = .ok c) :
    Sorted st (outsideNames st m (inp.order.visit (groupPodsByReplica st.pods).keys)) h (List.range n) c :=
  foldlM_ok_invariant ⟨rfl, rfl, rfl, rfl, by simpa [duplicateNames] using Patched.deleteOutside hout⟩
    (fun _ _ _ _ _ _ hb hstep => hb.step hstep) hclass

section
variable {st : PodStore} {D : List String} {h : String} {n : Nat} {c : Classified}

theorem Sorted.waiting_iff (hc : Sorted st D h (List.range n) c) :
    (c.updatedOnDesired > 0 ∧ c.updatedReadyOnDesired < c.updatedOnDesired) ↔ (fleet st).waiting h n = true := by
  rw [Fleet.waiting, ← Fleet.countP_lt_iff_waiting, hc.ready, hc.updated]
  exact ⟨fun h => h.2, fun h => ⟨Nat.lt_of_le_of_lt (Nat.zero_le _) h, h⟩⟩

theorem Sorted.filled (hc : Sorted st D h (List.range n) c) (hlen : c.needsReplace.length = 0) :
    c.updatedOnDesired + c.needsCreate.length = n := by
  have hcount := Fleet.count_classes (fleet st) h (List.range n)
  rw [hc.replace] at hlen
  rw [hlen, List.length_range] at hcount
  rw [hc.create, hc.updated]
  exact hcount

end

/-! ## Creations -/

/-- The pod that a pass asks for in slot `i`. -/
def freshPod (inp : PassInput) (ad : AgentDeploy) (h : String) (i : Nat) : Pod := newPod ad i h (inp.suffix i)

theorem freshPod_hash (inp : PassInput) (ad : AgentDeploy) (h : String) (i : Nat) : (freshPod inp ad h i).hash = h := rfl

theorem outdated_freshPod (inp : PassInput) (ad : AgentDeploy) (h : String) (i : Nat) :
    Fleet.outdated h [freshPod inp ad h i] = false := by
  simp [Fleet.outdated, freshPod_hash]

theorem freshPod_ready (inp : PassInput) (ad : AgentDeploy) (h : String) (i : Nat) :
    podReady (freshPod inp ad h i) = false := rfl

theorem freshPod_name_injective (inp : PassInput) (ad : AgentDeploy) (h : String) {i j : Nat}
    (hij : (freshPod inp ad h i).name = (freshPod inp ad h j).name) : i = j := by
  have hlist := congrArg String.toList hij
  unfold freshPod newPod at hlist
  simp only [String.toList_append, List.append_assoc, List.append_cancel_left_eq] at hlist
  exact itoa_append_injective (by decide) hlist

/-- The pod that slot `i` gets; none if its name is taken. -/
def drawnPod (inp : PassInput) (ad : AgentDeploy) (h : String) (st : PodStore) (i : Nat) : Option Pod :=
  if (freshPod inp ad h i).name ∈ st.pods.map Pod.name then none else some (freshPod inp ad h i)

theorem mem_drawnPod {inp : PassInput} {ad : AgentDeploy} {h : String} {st : PodStore} {i : Nat} {p : Pod}
    (hp : p ∈ drawnPod inp ad h st i) : p = freshPod inp ad h i := by
  unfold drawnPod at hp
  split_ifs at hp
  · cases hp
  · exact (Option.some.inj hp).symm

theorem filterMap_drawnPod (inp : PassInput) (ad : AgentDeploy) (h : String) (st : PodStore) (is : List Nat) :
    is.filterMap (drawnPod inp ad h st) =
      (is.filter ((fun p : Pod => decide (p.name ∉ st.pods.map Pod.name)) ∘ freshPod inp ad h)).map
        (freshPod inp ad h) := by
  induction is with
  | nil => rfl
  | cons i is ih =>
    rw [List.filterMap_cons, List.filter_cons, drawnPod]
    by_cases htaken : (freshPod inp ad h i).name ∈ st.pods.map Pod.name
    · rw [if_pos htaken, if_neg (by simpa using htaken), ih]
    · rw [if_neg htaken, if_pos (by simpa using htaken), List.map_cons, ih]

theorem drawnPod_hash {inp : PassInput} {ad : AgentDeploy} {h : String} {st : PodStore} {i : Nat} {p : Pod}
    (hp : p ∈ drawnPod inp ad h st i) : p.hash = h := by
  rw [mem_drawnPod hp, freshPod_hash]

theorem drawnPod_ready {inp : PassInput} {ad : AgentDeploy} {h : String} {st : PodStore} {i : Nat} {p : Pod}
    (hp : p ∈ drawnPod inp ad h st i) : podReady p = false := by
  rw [mem_drawnPod hp, freshPod_ready]

section Creations
variable {inp : PassInput} {ad : AgentDeploy} {h : String} {n : Nat} {st : PodStore}

/-- `s` is `st` with the pods named in `D` terminating and those of the pods `cs` whose names were free; now the names
of all are taken. -/
def Drawn (st : PodStore) (D : List String) (cs : List Pod) (s : PodStore) : Prop :=
  ∃ C, C.Sublist cs ∧ Patched st D C s ∧ ∀ p ∈ cs, p.name ∈ s.pods.map Pod.name

theorem Drawn.of_patched {D : List String} {s : PodStore} (hs : Patched st D [] s) : Drawn st D [] s :=
  ⟨[], List.Sublist.refl _, hs, by simp⟩

theorem Drawn.create {D : List String} {cs : List Pod} {s s' : PodStore} (hs : Drawn st D cs s) {i : Nat}
    (hok : createPodForReplica inp ad h s i = .ok s') : Drawn st D (cs ++ [freshPod inp ad h i]) s' := by
  have hcreate : s' = s.create (freshPod inp ad h i) := by
    unfold createPodForReplica at hok
    cases hx : inp.api.createFault (newPod ad i h (inp.suffix i)) with
    | some e => simp [hx] at hok
    | none => simpa [hx, freshPod, eq_comm] using hok
  obtain ⟨C, hsub, hpat, hnames⟩ := hs
  by_cases htaken : (freshPod inp ad h i).name ∈ s.pods.map Pod.name
  · have hsame : s' = s := by rw [hcreate, PodStore.create, dif_pos htaken]
    rw [hsame]
    refine ⟨C, hsub.trans (List.sublist_append_left _ _), hpat, fun p hp => ?_⟩
    rcases List.mem_append.mp hp with hp | hp
    · exact hnames p hp
    · rwa [List.mem_singleton.mp hp]
  · have hpat' := hpat.create htaken
    rw [← hcreate] at hpat'
    refine ⟨C ++ [freshPod inp ad h i], hsub.append (List.Sublist.refl _), hpat', fun p hp => ?_⟩
    rw [hpat'.names, List.map_append, ← List.append_assoc, ← hpat.names, List.mem_append]
    rcases List.mem_append.mp hp with hp | hp
    · exact .inl (hnames p hp)
    · exact .inr (List.mem_map_of_mem hp)

theorem Drawn.createLoop {D : List String} {cs : List Pod} {s s' : PodStore} (hs : Drawn st D cs s) {is : List Nat}
    (hok : is.foldlM (createPodForReplica inp ad h) s = .ok s') :
    Drawn st D (cs ++ is.map (freshPod inp ad h)) s' := by
  refine foldlM_ok_invariant (I := fun done s => Drawn st D (cs ++ done.map (freshPod inp ad h)) s)
    (by simpa using hs) ?_ hok
  intro done i rest b b' _ hb hstep
  simpa using hb.create hstep

/-- The names that the replacement of the slots `is` deletes. -/
def outdatedNames (st : PodStore) (h : String) (is : List Nat) : List String :=
  is.flatMap fun (i : Nat) => ((fleet st i).filter fun p => p.hash != h).map Pod.name

/-- Pods of `st` are deleted by name, and no created pod has the name of one. -/
theorem Drawn.deleteLoop {f : PodStore → Pod → Except String PodStore} {c : Pod → Bool}
    (hf : ∀ s p s', f s p = .ok s' → s' = if c p then s.delete p.name else s) {D : List String} {cs : List Pod}
    {s s' : PodStore} (hs : Drawn st D cs s) {l : List Pod} (hl : ∀ p ∈ l, p ∈ st.pods)
    (hok : l.foldlM f s = .ok s') : Drawn st (D ++ (l.filter c).map Pod.name) cs s' := by
  obtain ⟨C, hsub, hpat, hnames⟩ := hs
  have hdisjoint : ∀ p ∈ l, p.name ∉ C.map Pod.name := by
    intro p hp hm
    have hnd := s.nodup
    rw [hpat.names, List.nodup_append] at hnd
    exact hnd.2.2 _ (List.mem_map_of_mem (hl p hp)) _ hm rfl
  have hpat' := hpat.deleteLoop hf hdisjoint hok
  refine ⟨C, hsub, hpat', ?_⟩
  rwa [hpat'.names, ← hpat.names]

theorem Drawn.replaceLoop {D : List String} {cs : List Pod} {s s' : PodStore} (hs : Drawn st D cs s) {is : List Nat}
    (hok : is.foldlM (replaceSlot inp ad h (groupPodsByReplica st.pods)) s = .ok s') :
    Drawn st (D ++ outdatedNames st h is) (cs ++ is.map (freshPod inp ad h)) s' := by
  refine foldlM_ok_invariant (I := fun done s =>
    Drawn st (D ++ outdatedNames st h done) (cs ++ done.map (freshPod inp ad h)) s)
    (by simpa [outdatedNames] using hs) ?_ hok
  intro done i rest b b' _ hb hstep
  obtain ⟨b₁, hdel, hcreate⟩ := bind_eq_ok.mp hstep
  have hb₁ := hb.deleteLoop (c := fun p => p.hash != h && p.live) (l := podsAt (groupPodsByReplica st.pods) i)
    (fun s p s' hp => by
      cases ht : p.terminating with
      | true => simpa [ht, Pod.live, eq_comm] using hp
      | false =>
        by_cases hh : p.hash = h
        · simpa [ht, hh, Pod.live, eq_comm] using hp
        · simp only [ht, hh, beq_iff_eq, Bool.false_or, if_false] at hp
          simpa [ht, hh, Pod.live] using deletePod_eq hp)
    (fun p hp => by
      rw [podsAt_group] at hp
      exact (List.mem_filter.mp hp).1) hdel
  rw [List.append_assoc, ← List.filter_filter, podsAt_live] at hb₁
  simpa [outdatedNames] using hb₁.create hcreate

theorem eq_filter_of_sublist {α : Type} [DecidableEq α] {l l' : List α} (hl : l.Nodup) (hsub : l'.Sublist l) :
    l' = l.filter fun a => a ∈ l' := by
  refine List.Sublist.eq_of_length_le ?_ ?_
  · have h := hsub.filter fun a => decide (a ∈ l')
    rwa [List.filter_eq_self.mpr fun a ha => decide_eq_true ha] at h
  · refine (List.subperm_of_subset (hl.filter _) fun a ha => ?_).length_le
    exact of_decide_eq_true (List.mem_filter.mp ha).2

/-- Of pods with different names, those with a free name are created. -/
theorem Drawn.patched {D : List String} {cs : List Pod} {s : PodStore} (hs : Drawn st D cs s)
    (hcs : (cs.map Pod.name).Nodup) : Patched st D (cs.filter fun p => p.name ∉ st.pods.map Pod.name) s := by
  obtain ⟨C, hsub, hpat, hnames⟩ := hs
  have hnodup := s.nodup
  rw [hpat.names, List.nodup_append] at hnodup
  have hC : C = cs.filter fun p => p.name ∉ st.pods.map Pod.name := by
    rw [eq_filter_of_sublist hcs.of_map hsub]
    refine List.filter_congr fun p hp => ?_
    rw [decide_eq_decide]
    constructor
    · exact fun hpC hold => hnodup.2.2 _ hold _ (List.mem_map_of_mem hpC) rfl
    · intro hfree
      have hname := hnames p hp
      rw [hpat.names, List.mem_append] at hname
      obtain ⟨q, hq, he⟩ := List.mem_map.mp (hname.resolve_left hfree)
      rwa [← List.inj_on_of_nodup_map hcs (hsub.subset hq) hp he]
  rwa [← hC]

end Creations

/-! ## The pass, as a patch -/

/-- The number of slots. -/
def window (ad : AgentDeploy) : Nat := (desiredReplicas ad).toNat

/-- The slots that one batch may replace. -/
def budget (r : Reconciler) (ad : AgentDeploy) : Nat :=
  (resolveMaxUnavailable r.scaledValue ad (desiredReplicas ad)).toNat

theorem window_eq (ad : AgentDeploy) : (window ad : Int) = desiredReplicas ad :=
  Int.toNat_of_nonneg (by have := one_le_desiredReplicas ad; omega)

theorem window_lt (ad : AgentDeploy) : window ad < 2 ^ 31 := by
  have h := desiredReplicas_lt ad
  have := window_eq ad
  omega

theorem one_le_budget (r : Reconciler) (ad : AgentDeploy) : 1 ≤ budget r ad := by
  have := one_le_resolveMaxUnavailable r.scaledValue ad (desiredReplicas ad)
  unfold budget
  omega

/-- The status after a pass over the fleet `F`: `currentHash` is promoted when no slot is outdated. -/
def statusAfter (r : Reconciler) (inp : PassInput) (ad : AgentDeploy) (F : Fleet) : AgentDeployStatus :=
  let s := stampStatus inp.now (desiredReplicas ad) (r.podSpecHash ad) ad.status
  if F.needsReplace (r.podSpecHash ad) (window ad) = [] then { s with currentHash := r.podSpecHash ad } else s

/-- The names that a pass deletes. -/
def deletedNames (r : Reconciler) (inp : PassInput) (ad : AgentDeploy) (st : PodStore) : List String :=
  outsideNames st (desiredReplicas ad) (inp.order.visit (groupPodsByReplica st.pods).keys) ++
    duplicateNames st (r.podSpecHash ad) (List.range (window ad)) ++
    outdatedNames st (r.podSpecHash ad) ((fleet st).batch (r.podSpecHash ad) (window ad) (budget r ad))

/-- The slots that a pass creates a pod in. -/
def createdSlots (r : Reconciler) (ad : AgentDeploy) (F : Fleet) : List Nat :=
  F.needsCreate (window ad) ++ F.batch (r.podSpecHash ad) (window ad) (budget r ad)

theorem Fleet.createdSlots_lt {r : Reconciler} {ad : AgentDeploy} {F : Fleet} {i : Nat}
    (hi : i ∈ createdSlots r ad F) : i < window ad := by
  rcases List.mem_append.mp hi with hi | hi
  · exact List.mem_range.mp (List.mem_filter.mp hi).1
  · exact (batch_subset hi).1

theorem Fleet.createdSlots_nodup (r : Reconciler) (ad : AgentDeploy) (F : Fleet) : (createdSlots r ad F).Nodup := by
  refine List.nodup_append.mpr ⟨List.nodup_range.filter _, ?_, ?_⟩
  · unfold batch
    split_ifs
    · exact List.nodup_nil
    · exact (List.nodup_range.filter _).sublist (List.take_sublist _ _)
  · rintro i hi _ hj rfl
    have ho := (batch_subset hj).2
    simp [needsCreate] at hi
    simp [outdated, hi.2] at ho

theorem listOwnedPods_ok {api : PodApi} {st : PodStore} {pods : List Pod} (h : listOwnedPods api st = .ok pods) :
    pods = st.pods := by
  unfold listOwnedPods at h
  cases hx : api.listFault with
  | some e => simp [hx] at h
  | none => simpa [hx, eq_comm] using h

/-- The stages of a successful pass; a closed gate is an empty batch. -/
theorem reconcilePods_stages {r : Reconciler} {inp : PassInput} {ad : AgentDeploy} {st st' : PodStore}
    {s' : AgentDeployStatus} (hok : reconcilePods r inp ad st = .ok (s', st')) :
    ∃ st₁ c st₂, deleteOutside inp (desiredReplicas ad) (groupPodsByReplica st.pods) st = .ok st₁ ∧
      (List.range (window ad)).foldlM (classifySlot inp.api (r.podSpecHash ad) (groupPodsByReplica st.pods))
        { store := st₁ } = .ok c ∧
      ((fleet st).needsCreate (window ad)).foldlM (createPodForReplica inp ad (r.podSpecHash ad)) c.store = .ok st₂ ∧
      ((fleet st).batch (r.podSpecHash ad) (window ad) (budget r ad)).foldlM
        (replaceSlot inp ad (r.podSpecHash ad) (groupPodsByReplica st.pods)) st₂ = .ok st' ∧
      s' = statusAfter r inp ad (fleet st) := by
  unfold reconcilePods at hok
  obtain ⟨pods, hlist, hok⟩ := bind_eq_ok.mp hok
  obtain ⟨st₁, hout, hok⟩ := bind_eq_ok.mp hok
  obtain ⟨c, hclass, hok⟩ := bind_eq_ok.mp hok
  obtain ⟨st₂, hcreate, hok⟩ := bind_eq_ok.mp hok
  obtain rfl := listOwnedPods_ok hlist
  have hsorted := classified hout hclass
  have hnc : c.needsCreate = (fleet st).needsCreate (window ad) := hsorted.create
  have hnr : c.needsReplace = (fleet st).needsReplace (r.podSpecHash ad) (window ad) := hsorted.replace
  have hgate : (c.updatedOnDesired > 0 ∧ c.updatedReadyOnDesired < c.updatedOnDesired) ↔
      (fleet st).waiting (r.podSpecHash ad) (window ad) = true := hsorted.waiting_iff
  refine ⟨st₁, c, st₂, hout, hclass, hnc ▸ hcreate, ?_⟩
  split_ifs at hok with hlen hall hwait
  · rw [pure_eq_ok, Prod.mk.injEq] at hok
    obtain ⟨rfl, rfl⟩ := hok
    have hnil : (fleet st).needsReplace (r.podSpecHash ad) (window ad) = [] := by
      rwa [hnr, List.length_eq_zero_iff] at hlen
    exact ⟨by simp [Fleet.batch, hnil, pure, Except.pure], by simp [statusAfter, hnil]⟩
  · -- with nothing outdated, every slot is on the hash or about to be created
    refine absurd ?_ hall
    rw [← window_eq]
    exact congrArg Nat.cast (hsorted.filled hlen)
  · rw [pure_eq_ok, Prod.mk.injEq] at hok
    obtain ⟨rfl, rfl⟩ := hok
    rw [hnr, List.length_eq_zero_iff] at hlen
    exact ⟨by simp [Fleet.batch, hgate.mp hwait, pure, Except.pure], by simp [statusAfter, hlen]⟩
  · obtain ⟨st₃, hrepl, hok⟩ := bind_eq_ok.mp hok
    rw [pure_eq_ok, Prod.mk.injEq] at hok
    obtain ⟨rfl, rfl⟩ := hok
    rw [hnr] at hlen hrepl
    have hne : (fleet st).needsReplace (r.podSpecHash ad) (window ad) ≠ [] :=
      fun h => hlen (List.length_eq_zero_iff.mpr h)
    have hopen : (fleet st).waiting (r.podSpecHash ad) (window ad) = false := by
      rw [Bool.eq_false_iff]
      exact fun h => hwait (hgate.mpr h)
    have hbatch : (fleet st).batch (r.podSpecHash ad) (window ad) (budget r ad) =
        ((fleet st).needsReplace (r.podSpecHash ad) (window ad)).take
          (min (budget r ad) ((fleet st).needsReplace (r.podSpecHash ad) (window ad)).length) := by
      simp [Fleet.batch, hopen]
    exact ⟨hbatch ▸ hrepl, by simp [statusAfter, hne]⟩

/-- A successful pass marks the deleted names and creates pods, those whose names are free. -/
theorem reconcilePods_drawn {r : Reconciler} {inp : PassInput} {ad : AgentDeploy} {st st' : PodStore}
    {s' : AgentDeployStatus} (hok : reconcilePods r inp ad st = .ok (s', st')) :
    Drawn st (deletedNames r inp ad st)
      ((createdSlots r ad (fleet st)).map (freshPod inp ad (r.podSpecHash ad))) st' := by
  obtain ⟨st₁, c, st₂, hout, hclass, hcreate, hrepl, -⟩ := reconcilePods_stages hok
  have hst₂ := (Drawn.of_patched (classified hout hclass).patched).createLoop hcreate
  have hst' := hst₂.replaceLoop hrepl
  rwa [List.nil_append, ← List.map_append] at hst'

/-- The names that a pass draws are free. -/
def FreeNames (r : Reconciler) (inp : PassInput) (ad : AgentDeploy) (st : PodStore) : Prop :=
  ∀ i ∈ createdSlots r ad (fleet st), (freshPod inp ad (r.podSpecHash ad) i).name ∉ st.pods.map Pod.name

instance (r : Reconciler) (inp : PassInput) (ad : AgentDeploy) (st : PodStore) : Decidable (FreeNames r inp ad st) :=
  inferInstanceAs (Decidable (∀ i ∈ _, _))

theorem FreeNames.drawnPod {r : Reconciler} {inp : PassInput} {ad : AgentDeploy} {st : PodStore}
    (h : FreeNames r inp ad st) {i : Nat} (hi : i ∈ createdSlots r ad (fleet st)) :
    drawnPod inp ad (r.podSpecHash ad) st i = some (freshPod inp ad (r.podSpecHash ad) i) := if_neg (h i hi)

theorem freshPods_nodup (r : Reconciler) (inp : PassInput) (ad : AgentDeploy) (st : PodStore) :
    (((createdSlots r ad (fleet st)).map (freshPod inp ad (r.podSpecHash ad))).map Pod.name).Nodup := by
  rw [List.map_map]
  exact List.Nodup.map_on (fun i _ j _ hij => freshPod_name_injective inp ad _ hij)
    (Fleet.createdSlots_nodup r ad (fleet st))

theorem reconcilePods_patched {r : Reconciler} {inp : PassInput} {ad : AgentDeploy} {st st' : PodStore}
    {s' : AgentDeployStatus} (hok : reconcilePods r inp ad st = .ok (s', st')) :
    Patched st (deletedNames r inp ad st)
      ((createdSlots r ad (fleet st)).filterMap (drawnPod inp ad (r.podSpecHash ad) st)) st' := by
  have hpat := (reconcilePods_drawn hok).patched (freshPods_nodup r inp ad st)
  rwa [List.filter_map, ← filterMap_drawnPod] at hpat

/-! ## Refinement -/

theorem fleet_nodup (st : PodStore) (i : Int) : (fleet st i).Nodup :=
  (List.Nodup.of_map _ st.nodup).filter _

theorem count_map_slot (st : PodStore) (k : Int) :
    ((st.pods.filter Pod.live).map Pod.slot).count k = (fleet st k).length := by
  rw [List.count, List.countP_map, List.countP_eq_length_filter, List.filter_filter]
  congr 1
  exact List.filter_congr fun p _ => by simp [Bool.and_comm]

/-- Slots with one live pod at most, none of them outside the window: no more live pods than slots. -/
theorem length_live_le {st : PodStore} {n : Nat} (hone : ∀ k, (fleet st k).length ≤ 1)
    (hout : ∀ k, ¬(0 ≤ k ∧ k < (n : Int)) → fleet st k = []) : (st.pods.filter Pod.live).length ≤ n := by
  have hnodup : ((st.pods.filter Pod.live).map Pod.slot).Nodup :=
    List.nodup_iff_count_le_one.mpr fun k => by
      rw [count_map_slot]
      exact hone k
  have hsub : (st.pods.filter Pod.live).map Pod.slot ⊆ (List.range n).map Nat.cast := by
    intro k hk
    rw [← List.one_le_count_iff, count_map_slot] at hk
    have hin : 0 ≤ k ∧ k < (n : Int) := by
      by_contra hin
      simp [hout k hin] at hk
    exact List.mem_map.mpr ⟨k.toNat, List.mem_range.mpr (by omega), by omega⟩
  simpa using (List.subperm_of_subset hnodup hsub).length_le

theorem length_live_eq {st : PodStore} {n : Nat} (hone : ∀ i < n, (fleet st (i : Nat)).length = 1)
    (hout : ∀ k, ¬(0 ≤ k ∧ k < (n : Int)) → fleet st k = []) : (st.pods.filter Pod.live).length = n := by
  refine Nat.le_antisymm (length_live_le (fun k => ?_) hout) ?_
  · by_cases hk : 0 ≤ k ∧ k < (n : Int)
    · obtain ⟨i, rfl⟩ := Int.eq_ofNat_of_zero_le hk.1
      exact (hone i (by omega)).le
    · simp [hout k hk]
  · have hsub : ((List.range n).map Nat.cast : List Int) ⊆ (st.pods.filter Pod.live).map Pod.slot := by
      intro k hk
      obtain ⟨i, hi, rfl⟩ := List.mem_map.mp hk
      rw [← List.one_le_count_iff, count_map_slot, hone i (List.mem_range.mp hi)]
    have hnodup : ((List.range n).map Nat.cast : List Int).Nodup :=
      List.nodup_range.map Nat.cast_injective
    simpa using (List.subperm_of_subset hnodup hsub).length_le

/-- A name of a live pod occurs among the names of a part of a slot exactly when the pod is there. -/
theorem name_mem_iff {st : PodStore} {i j : Int} {p : Pod} (hp : p ∈ fleet st i) {ps : List Pod}
    (hps : ∀ q ∈ ps, q ∈ fleet st j) : p.name ∈ ps.map Pod.name ↔ j = i ∧ p ∈ ps := by
  constructor
  · intro h
    obtain ⟨q, hq, he⟩ := List.mem_map.mp h
    have hqp := st.eq_of_name_eq (mem_fleet.mp (hps q hq)).1 (mem_fleet.mp hp).1 he
    subst hqp
    exact ⟨(mem_fleet.mp (hps q hq)).2.2.symm.trans (mem_fleet.mp hp).2.2, hq⟩
  · rintro ⟨-, h⟩
    exact List.mem_map_of_mem h

theorem mem_outsideNames {st : PodStore} {inp : PassInput} {n i : Int} {p : Pod} (hp : p ∈ fleet st i) :
    p.name ∈ outsideNames st n (inp.order.visit (groupPodsByReplica st.pods).keys) ↔ ¬(0 ≤ i ∧ i < n) := by
  have hkey : i ∈ inp.order.visit (groupPodsByReplica st.pods).keys := by
    rw [(inp.order.perm _).mem_iff]
    refine mem_keys_of_podsAt (p := p) ?_
    rw [podsAt_group]
    exact List.mem_filter.mpr ⟨(mem_fleet.mp hp).1, by simp [(mem_fleet.mp hp).2.2]⟩
  rw [outsideNames, List.mem_flatMap]
  constructor
  · rintro ⟨k, -, hk⟩
    split_ifs at hk with hin
    · simp at hk
    · rwa [← ((name_mem_iff hp fun _ h => h).mp hk).1]
  · intro hout
    exact ⟨i, hkey, by simpa [hout] using List.mem_map_of_mem hp⟩

theorem mem_duplicateNames {st : PodStore} {h : String} {i : Nat} {is : List Nat} {p : Pod} (hp : p ∈ fleet st i)
    (hi : i ∈ is) :
    p.name ∈ duplicateNames st h is ↔ p.hash = h ∧ Fleet.current h (fleet st i) ≠ some p := by
  have hsub : ∀ j : Int, ∀ q ∈ ((fleet st j).filter fun p => p.hash == h).tail, q ∈ fleet st j :=
    fun j q hq => (List.mem_filter.mp (List.mem_of_mem_tail hq)).1
  have htail : p ∈ ((fleet st i).filter fun p => p.hash == h).tail ↔
      p.hash = h ∧ Fleet.current h (fleet st i) ≠ some p := by
    have hnd := (fleet_nodup st i).filter fun p => p.hash == h
    have hmem : p.hash = h ↔ p ∈ (fleet st i).filter fun p => p.hash == h := by simp [hp]
    rw [Fleet.current, ← List.head?_filter, hmem]
    cases hl : (fleet st i).filter fun p => p.hash == h with
    | nil => simp
    | cons q qs =>
      rw [hl, List.nodup_cons] at hnd
      simp only [List.tail_cons, List.mem_cons, List.head?_cons, ne_eq, Option.some.injEq]
      constructor
      · intro hq
        exact ⟨.inr hq, fun he => hnd.1 (he ▸ hq)⟩
      · rintro ⟨rfl | hq, hne⟩
        · exact absurd rfl hne
        · exact hq
  rw [← htail, duplicateNames, List.mem_flatMap]
  constructor
  · rintro ⟨j, -, hj⟩
    obtain ⟨hij, hpj⟩ := (name_mem_iff hp (hsub j)).mp hj
    rwa [hij] at hpj
  · exact fun hpt => ⟨i, hi, List.mem_map_of_mem hpt⟩

theorem mem_outdatedNames {st : PodStore} {h : String} {i : Nat} {is : List Nat} {p : Pod} (hp : p ∈ fleet st i) :
    p.name ∈ outdatedNames st h is ↔ i ∈ is ∧ p.hash ≠ h := by
  rw [outdatedNames, List.mem_flatMap]
  constructor
  · rintro ⟨j, hj, hpj⟩
    obtain ⟨hij, hmem⟩ := (name_mem_iff hp fun q hq => (List.mem_filter.mp hq).1).mp hpj
    rw [Nat.cast_inj] at hij
    exact ⟨hij ▸ hj, by simpa using (List.mem_filter.mp hmem).2⟩
  · rintro ⟨hi, hne⟩
    exact ⟨i, hi, List.mem_map_of_mem (List.mem_filter.mpr ⟨hp, by simpa using hne⟩)⟩

theorem filter_freshPod {inp : PassInput} {ad : AgentDeploy} {h : String} {is : List Nat} (hnd : is.Nodup)
    (hlt : ∀ i ∈ is, i < 2 ^ 63) (k : Int) :
    ((is.map (freshPod inp ad h)).filter fun p => p.slot == k) =
      if 0 ≤ k ∧ k.toNat ∈ is then [freshPod inp ad h k.toNat] else [] := by
  have hslot : ∀ i ∈ is, (freshPod inp ad h i).slot = i := fun i hi => newPod_slot ad (hlt i hi) h _
  rw [List.filter_map]
  split_ifs with hk
  · have hfilter : is.filter ((fun p : Pod => p.slot == k) ∘ freshPod inp ad h) = is.filter (· == k.toNat) := by
      refine List.filter_congr fun i hi => ?_
      rw [Function.comp_apply, hslot i hi, Bool.eq_iff_iff]
      simp
      omega
    rw [hfilter, List.filter_beq, List.count_eq_one_of_mem hnd hk.2]
    rfl
  · rw [List.map_eq_nil_iff, List.filter_eq_nil_iff]
    intro i hi he
    rw [Function.comp_apply, hslot i hi, beq_iff_eq] at he
    exact hk ⟨by omega, by rwa [← he, Int.toNat_natCast]⟩

theorem filter_drawnPod {inp : PassInput} {ad : AgentDeploy} {h : String} {st : PodStore} {is : List Nat}
    (hnd : is.Nodup) (hlt : ∀ i ∈ is, i < 2 ^ 63) (k : Int) :
    ((is.filterMap (drawnPod inp ad h st)).filter fun p => p.slot == k) =
      if 0 ≤ k ∧ k.toNat ∈ is then (drawnPod inp ad h st k.toNat).toList else [] := by
  rw [filterMap_drawnPod, filter_freshPod (hnd.filter _) fun i hi => hlt i (List.mem_filter.mp hi).1]
  simp only [List.mem_filter, Function.comp_apply, decide_eq_true_eq]
  by_cases htaken : (freshPod inp ad h k.toNat).name ∈ st.pods.map Pod.name
  · rw [drawnPod, if_pos htaken, if_neg fun hk => hk.2.2 htaken, Option.toList_none, ite_self]
  · rw [drawnPod, if_neg htaken, Option.toList_some]
    simp only [htaken, not_false_eq_true, and_true]

theorem mem_deletedNames {r : Reconciler} {inp : PassInput} {ad : AgentDeploy} {st : PodStore} {i : Nat} {p : Pod}
    (hi : i < window ad) (hp : p ∈ fleet st i) :
    p.name ∈ deletedNames r inp ad st ↔
      (p.hash = r.podSpecHash ad ∧ Fleet.current (r.podSpecHash ad) (fleet st i) ≠ some p) ∨
        (i ∈ (fleet st).batch (r.podSpecHash ad) (window ad) (budget r ad) ∧ p.hash ≠ r.podSpecHash ad) := by
  have hin : 0 ≤ (i : Int) ∧ (i : Int) < desiredReplicas ad := by
    rw [← window_eq]
    omega
  rw [deletedNames, List.mem_append, List.mem_append, mem_outsideNames hp, mem_outdatedNames hp,
    mem_duplicateNames hp (List.mem_range.mpr hi)]
  simp [hin]

theorem passSlot_eq {r : Reconciler} (inp : PassInput) {ad : AgentDeploy} {st : PodStore} (new : Nat → Option Pod)
    {i : Nat} (hi : i < window ad) :
    ((fleet st i).filter fun p => p.name ∉ deletedNames r inp ad st) ++
        (if i ∈ createdSlots r ad (fleet st) then (new i).toList else []) =
      (fleet st).passSlot (r.podSpecHash ad) (window ad) (budget r ad) new i := by
  have hcreate : i ∈ createdSlots r ad (fleet st) ↔
      fleet st i = [] ∨ i ∈ (fleet st).batch (r.podSpecHash ad) (window ad) (budget r ad) := by
    simp [createdSlots, Fleet.needsCreate, hi]
  unfold Fleet.passSlot
  obtain ⟨he, hcur, ho⟩ | ⟨he, hcur, ho⟩ | ⟨he, hcur, ho⟩ := Fleet.classes (r.podSpecHash ad) (fleet st i)
  · rw [if_pos (hcreate.mpr (.inl he)), hcur, if_neg (by simp), if_pos (by simp [he]), he]
    rfl
  · have hnb : i ∉ (fleet st).batch (r.podSpecHash ad) (window ad) (budget r ad) := fun hb => by
      simp [(Fleet.batch_subset hb).2] at ho
    rw [if_neg (fun hc => (hcreate.mp hc).elim he hnb), if_pos hcur, List.append_nil, Fleet.dedup]
    refine List.filter_congr fun p hp => ?_
    rw [Bool.eq_iff_iff, decide_eq_true_iff, mem_deletedNames hi hp]
    simp only [hnb, false_and, or_false, Bool.or_eq_true, bne_iff_ne, beq_iff_eq]
    tauto
  · have hold := Fleet.current_eq_none.mp hcur
    rw [if_neg (by simp [hcur] : ¬(Fleet.current (r.podSpecHash ad) (fleet st i)).isSome = true)]
    by_cases hb : i ∈ (fleet st).batch (r.podSpecHash ad) (window ad) (budget r ad)
    · have hnil : (fleet st i).filter (fun p => p.name ∉ deletedNames r inp ad st) = [] := by
        rw [List.filter_eq_nil_iff]
        intro p hp
        rw [decide_eq_true_iff, not_not, mem_deletedNames hi hp]
        exact .inr ⟨hb, hold p hp⟩
      rw [if_pos (hcreate.mpr (.inr hb)), if_pos (.inr hb), hnil]
      rfl
    · have hall : (fleet st i).filter (fun p => p.name ∉ deletedNames r inp ad st) = fleet st i := by
        rw [List.filter_eq_self]
        intro p hp
        rw [decide_eq_true_iff, mem_deletedNames hi hp]
        simp [hold p hp, hb]
      rw [if_neg (fun hc => (hcreate.mp hc).elim he hb), if_neg (by simp [he, hb]), List.append_nil, hall]

/-- The pass of the fleet, as a patch: what is not deleted, and the pods created. -/
theorem pass_eq_patch (r : Reconciler) (inp : PassInput) (ad : AgentDeploy) (st : PodStore) (k : Int) :
    ((fleet st k).filter fun p => p.name ∉ deletedNames r inp ad st) ++
        ((createdSlots r ad (fleet st)).filterMap (drawnPod inp ad (r.podSpecHash ad) st)).filter
          (fun p => p.slot == k) =
      (fleet st).pass (r.podSpecHash ad) (window ad) (budget r ad) (drawnPod inp ad (r.podSpecHash ad) st) k := by
  have hwin := window_lt ad
  have hlt : ∀ i ∈ createdSlots r ad (fleet st), i < 2 ^ 63 := fun i hi => by
    have := Fleet.createdSlots_lt hi
    omega
  rw [filter_drawnPod (Fleet.createdSlots_nodup r ad _) hlt]
  unfold Fleet.pass
  by_cases hin : 0 ≤ k ∧ k < window ad
  · obtain ⟨i, rfl⟩ := Int.eq_ofNat_of_zero_le hin.1
    rw [if_pos hin, Int.toNat_natCast, ← passSlot_eq inp _ (by omega)]
    simp only [hin.1, true_and]
  · have hnot : ¬(0 ≤ k ∧ k.toNat ∈ createdSlots r ad (fleet st)) := by
      rintro ⟨hk, hmem⟩
      have := Fleet.createdSlots_lt hmem
      exact hin ⟨hk, by omega⟩
    rw [if_neg hin, if_neg hnot, List.append_nil, List.filter_eq_nil_iff]
    intro p hp hd
    rw [window_eq] at hin
    have hmem : p.name ∈ deletedNames r inp ad st :=
      List.mem_append_left _ (List.mem_append_left _ ((mem_outsideNames hp).mpr hin))
    simp [hmem] at hd

theorem drawnPod_live {inp : PassInput} {ad : AgentDeploy} {h : String} {st : PodStore} {is : List Nat} {p : Pod}
    (hp : p ∈ is.filterMap (drawnPod inp ad h st)) : p.terminating = false := by
  obtain ⟨i, -, hi⟩ := List.mem_filterMap.mp hp
  rw [mem_drawnPod hi]
  rfl

/-- **A successful pass is the pass of the fleet.** -/
theorem reconcilePods_refines {r : Reconciler} {inp : PassInput} {ad : AgentDeploy} {st st' : PodStore}
    {s' : AgentDeployStatus} (hok : reconcilePods r inp ad st = .ok (s', st')) :
    s' = statusAfter r inp ad (fleet st) ∧
      fleet st' = (fleet st).pass (r.podSpecHash ad) (window ad) (budget r ad)
        (drawnPod inp ad (r.podSpecHash ad) st) := by
  obtain ⟨-, -, -, -, -, -, -, hs⟩ := reconcilePods_stages hok
  refine ⟨hs, funext fun k => ?_⟩
  rw [(reconcilePods_patched hok).fleet fun p hp => drawnPod_live hp]
  exact pass_eq_patch r inp ad st k

end KynoMesh.Pods
