import KynoMesh.Pods.Calls
import KynoMesh.Pods.Rollout

/-!
# Passes that fail midway

A pass of the controller meets errors and is cut off, at any call; pods become Ready and terminating ones go between its
calls. A rollout with a fixed target goes on all the same, from what the earlier passes have left.

* `Sound` : what holds of the slots at every moment; one of them at most is empty, since a pass fills a slot before it
  empties the next one;
* `Follows` : the slots in the course of a pass, against those that its list has shown;
* `reconcilePods_safe` : every call of a pass leaves a sound state;
* `rollout_under_faults` : so do all passes, with one slot at most beyond `maxUnavailable`.
-/

namespace KynoMesh.Pods
open KynoMesh.Lib KynoMesh.Api

/-! ## The slots -/

/-- Pods have become Ready, terminating ones have gone. -/
def Calm (st st' : PodStore) : Prop := ∀ k, List.Forall₂ SamePod (fleet st k) (fleet st' k)

theorem SamePod.refl (p : Pod) : SamePod p p := ⟨rfl, rfl, id⟩

theorem SamePod.trans {p q o : Pod} (h : SamePod p q) (h' : SamePod q o) : SamePod p o :=
  ⟨h'.name.trans h.name, h'.hash.trans h.hash, fun hp => h'.ready (h.ready hp)⟩

theorem forall₂_samePod_trans {ps qs os : List Pod} (h : List.Forall₂ SamePod ps qs) (h' : List.Forall₂ SamePod qs os) :
    List.Forall₂ SamePod ps os := by
  induction h generalizing os with
  | nil => exact h'
  | cons hp _ ih =>
    cases h' with
    | cons hq hrest => exact .cons (hp.trans hq) (ih hrest)

theorem Calm.refl (st : PodStore) : Calm st st := fun _ => List.forall₂_same.mpr fun p _ => .refl p

theorem Calm.trans {st st' st'' : PodStore} (h : Calm st st') (h' : Calm st' st'') : Calm st st'' :=
  fun k => forall₂_samePod_trans (h k) (h' k)

/-- The slots of a rollout to the hash `h`, at any moment: single pods, the outdated ones Ready. -/
structure Sound (F : Fleet) (h : String) (n m : Nat) : Prop where
  single : ∀ i < n, (F (i : Nat)).length ≤ 1
  ready : ∀ i < n, ∀ p ∈ F (i : Nat), p.hash ≠ h → podReady p = true
  empty : (F.needsCreate n).length ≤ 1
  unavailable : F.unavailable n ≤ m + 1

/-- The updated pods of `F` are in `F'` as well. -/
def Kept (F F' : Fleet) (h : String) (n : Nat) : Prop :=
  ∀ i < n, ∀ p ∈ F (i : Nat), p.hash = h → ∃ q ∈ F' (i : Nat), q.name = p.name ∧ q.hash = h

/-- The slots `F` in the course of a pass that has listed `F₁`: the slots `filled` have a pod of the pass, those of `cut`
have lost theirs. -/
structure Follows (F₁ F : Fleet) (h : String) (n : Nat) (filled cut : List Nat) : Prop where
  updated : ∀ i < n, i ∈ filled → ∃ p, F (i : Nat) = [p] ∧ p.hash = h
  gone : ∀ i < n, i ∈ cut → F (i : Nat) = []
  same : ∀ i < n, i ∉ filled → i ∉ cut → List.Forall₂ SamePod (F₁ (i : Nat)) (F (i : Nat))

section
variable {F₁ F F' : Fleet} {h : String} {n m : Nat} {filled cut : List Nat}

theorem singleton_of_forall₂ {p : Pod} {qs : List Pod} (hqs : List.Forall₂ SamePod [p] qs) :
    ∃ q, qs = [q] ∧ SamePod p q := by
  cases hqs with
  | cons hpq hrest =>
    cases hrest
    exact ⟨_, rfl, hpq⟩

theorem Follows.calm (hf : Follows F₁ F h n filled cut) (hF : ∀ i < n, List.Forall₂ SamePod (F (i : Nat)) (F' (i : Nat))) :
    Follows F₁ F' h n filled cut where
  updated := by
    intro i hi hfilled
    obtain ⟨p, hp, hhash⟩ := hf.updated i hi hfilled
    have hFi := hF i hi
    rw [hp] at hFi
    obtain ⟨q, hq, hpq⟩ := singleton_of_forall₂ hFi
    exact ⟨q, hq, hpq.hash.trans hhash⟩
  gone := by
    intro i hi hcut
    have hFi := hF i hi
    rw [hf.gone i hi hcut, List.forall₂_nil_left_iff] at hFi
    exact hFi
  same := fun i hi hfilled hcut => forall₂_samePod_trans (hf.same i hi hfilled hcut) (hF i hi)

/-- What is empty now has been cut, or was empty before and has not been filled. -/
theorem Follows.eq_nil (hf : Follows F₁ F h n filled cut) {i : Nat} (hi : i < n) (hnil : F i = []) :
    i ∈ cut ∨ i ∉ filled ∧ F₁ i = [] := by
  by_cases hcut : i ∈ cut
  · exact .inl hcut
  · have hfilled : i ∉ filled := by
      intro hin
      obtain ⟨p, hp, -⟩ := hf.updated i hi hin
      rw [hnil] at hp
      cases hp
    have hother := hf.same i hi hfilled hcut
    rw [hnil, List.forall₂_nil_right_iff] at hother
    exact .inr ⟨hfilled, hother⟩

theorem unready_of_forall₂ {i : Nat} (hF : List.Forall₂ SamePod (F₁ i) (F i)) (hu : F.unready i = true) :
    F₁.unready i = true := by
  unfold Fleet.unready at hu ⊢
  rw [Bool.not_eq_true', Bool.eq_false_iff] at hu ⊢
  exact fun hready => hu (any_podReady_of_forall₂ hF hready)

theorem Follows.unready (hf : Follows F₁ F h n filled cut) {i : Nat} (hi : i < n) (hu : F.unready i = true) :
    i ∈ filled ∨ i ∈ cut ∨ F₁.unready i = true := by
  by_cases hfilled : i ∈ filled
  · exact .inl hfilled
  · by_cases hcut : i ∈ cut
    · exact .inr (.inl hcut)
    · exact .inr (.inr (unready_of_forall₂ (hf.same i hi hfilled hcut) hu))

theorem Follows.single (hf : Follows F₁ F h n filled cut) (hF₁ : Sound F₁ h n m) (i : Nat) (hi : i < n) :
    (F i).length ≤ 1 := by
  by_cases hfilled : i ∈ filled
  · obtain ⟨p, hp, -⟩ := hf.updated i hi hfilled
    simp [hp]
  · by_cases hcut : i ∈ cut
    · simp [hf.gone i hi hcut]
    · rw [← (hf.same i hi hfilled hcut).length_eq]
      exact hF₁.single i hi

theorem Follows.ready (hf : Follows F₁ F h n filled cut) (hF₁ : Sound F₁ h n m) (i : Nat) (hi : i < n) (q : Pod)
    (hq : q ∈ F i) (hne : q.hash ≠ h) : podReady q = true := by
  by_cases hfilled : i ∈ filled
  · obtain ⟨p, hp, hhash⟩ := hf.updated i hi hfilled
    rw [hp, List.mem_singleton] at hq
    exact absurd (hq ▸ hhash) hne
  · by_cases hcut : i ∈ cut
    · rw [hf.gone i hi hcut] at hq
      cases hq
    · have hother := hf.same i hi hfilled hcut
      obtain ⟨k, hk, rfl⟩ := List.getElem_of_mem hq
      have hk' : k < (F₁ i).length := hother.length_eq ▸ hk
      have hsame : SamePod (F₁ i)[k] (F i)[k] := List.Forall₂.get hother hk' hk
      exact hsame.ready (hF₁.ready i hi _ (List.getElem_mem hk') (hsame.hash ▸ hne))

theorem length_filter_range_le {p : Nat → Bool} {l : List Nat} (hl : ∀ i < n, p i = true → i ∈ l) :
    ((List.range n).filter p).length ≤ l.length := by
  refine (List.subperm_of_subset (List.nodup_range.filter _) fun i hi => ?_).length_le
  obtain ⟨hin, hp⟩ := List.mem_filter.mp hi
  exact hl i (List.mem_range.mp hin) hp

/-- Before its batch, a pass fills empty slots only. -/
theorem Follows.sound_filling (hf : Follows F₁ F h n filled []) (hF₁ : Sound F₁ h n m)
    (hfilled : ∀ i ∈ filled, F₁ (i : Nat) = []) : Sound F h n m where
  single := hf.single hF₁
  ready := hf.ready hF₁
  empty := by
    refine le_trans (length_filter_range_le fun i hi hnil => ?_) hF₁.empty
    rw [List.isEmpty_iff] at hnil
    obtain hcut | ⟨-, hnil₁⟩ := hf.eq_nil hi hnil
    · cases hcut
    · simp [Fleet.needsCreate, hi, hnil₁]
  unavailable := by
    refine le_trans ?_ hF₁.unavailable
    refine List.countP_mono_left fun i hi hu => ?_
    obtain hin | hin | hu₁ := hf.unready (List.mem_range.mp hi) hu
    · simp [Fleet.unready, hfilled i hin]
    · cases hin
    · exact hu₁

/-- In its batch, the slots that are not Ready are those that were empty, and those of the batch so far. -/
theorem Follows.sound_batch {visited : List Nat} (hf : Follows F₁ F h n (F₁.needsCreate n ++ visited) cut)
    (hF₁ : Sound F₁ h n m) (hopen : F₁.waiting h n = false) (hcut : cut.length ≤ 1)
    (hbudget : visited.length + cut.length ≤ m) : Sound F h n m where
  single := hf.single hF₁
  ready := hf.ready hF₁
  empty := by
    refine le_trans (length_filter_range_le fun i hi hnil => ?_) hcut
    rw [List.isEmpty_iff] at hnil
    obtain hin | ⟨hnot, hnil₁⟩ := hf.eq_nil hi hnil
    · exact hin
    · refine absurd (List.mem_append_left _ ?_) hnot
      simp [Fleet.needsCreate, hi, hnil₁]
  unavailable := by
    have hin : ∀ i < n, F.unready i = true → i ∈ F₁.needsCreate n ++ (visited ++ cut) := by
      intro i hi hu
      obtain hin | hin | hu₁ := hf.unready hi hu
      · rw [← List.append_assoc]
        exact List.mem_append_left _ hin
      · exact List.mem_append_right _ (List.mem_append_right _ hin)
      · -- a slot that was not Ready was empty: the gate was open, and outdated pods are Ready
        refine List.mem_append_left _ ?_
        rcases hFi : F₁ i with _ | ⟨p, _ | ⟨q, ps⟩⟩
        · simp [Fleet.needsCreate, hi, hFi]
        · have hp : podReady p = false := by simpa [Fleet.unready, hFi] using hu₁
          have hhash : p.hash = h := by
            by_contra hne
            have hready := hF₁.ready i hi p (by simp [hFi]) hne
            rw [hp] at hready
            cases hready
          have hgate := List.any_eq_false.mp hopen i (List.mem_range.mpr hi)
          simp [hFi, Fleet.current, hhash, hp] at hgate
        · have hsingle := hF₁.single i hi
          simp [hFi] at hsingle
    have hle := length_filter_range_le hin
    have hcreate := hF₁.empty
    rw [List.length_append, List.length_append] at hle
    rw [Fleet.unavailable, List.countP_eq_length_filter]
    omega

end

/-! ## The calls of a pass -/

/-- The pods that a call creates have names that no pod has. -/
def FreeName (_ : Reply) (st : PodStore) : PodCall → Prop
  | .create p => p.name ∉ st.pods.map Pod.name
  | .list | .delete _ | .random _ => True

instance (f : Reply) (st : PodStore) : (q : PodCall) → Decidable (FreeName f st q)
  | .create p => inferInstanceAs (Decidable (p.name ∉ st.pods.map Pod.name))
  | .list | .delete _ | .random _ => inferInstanceAs (Decidable True)

/-- What a call leaves. -/
def Guarded (h : String) (n m : Nat) (st st' : PodStore) : Prop :=
  Sound (fleet st') h n m ∧ Kept (fleet st) (fleet st') h n

theorem fleet_delete (st : PodStore) (name : String) (k : Int) :
    fleet (st.delete name) k = (fleet st k).filter fun p => p.name ≠ name := by
  have hpatch := (Patched.refl st).delete (n := name) (by simp)
  rw [hpatch.fleet (by simp)]
  simp

theorem fleet_create {st : PodStore} {p : Pod} (hfree : p.name ∉ st.pods.map Pod.name) (hlive : p.terminating = false)
    (k : Int) : fleet (st.create p) k = fleet st k ++ [p].filter fun p => p.slot == k := by
  have hpatch := (Patched.refl st).create hfree
  rw [hpatch.fleet (by simpa using hlive)]
  simp

section
variable {h : String} {n m : Nat} {st₁ s : PodStore} {filled cut : List Nat}

theorem Kept.refl (F : Fleet) : Kept F F h n := fun _ _ p hp hh => ⟨p, hp, rfl, hh⟩

theorem Kept.trans {F F' F'' : Fleet} (hF : Kept F F' h n) (hF' : Kept F' F'' h n) : Kept F F'' h n := by
  intro i hi p hp hh
  obtain ⟨q, hq, hname, hhash⟩ := hF i hi p hp hh
  obtain ⟨o, ho, hname', hhash'⟩ := hF' i hi q hq hhash
  exact ⟨o, ho, hname'.trans hname, hhash'⟩

/-- The slots of `s` follow those of the list. -/
abbrev At (st₁ : PodStore) (h : String) (n : Nat) (filled cut : List Nat) (s : PodStore) : Prop :=
  Follows (fleet st₁) (fleet s) h n filled cut

theorem At.calm {s' : PodStore} (hs : At st₁ h n filled cut s) (hcalm : Calm s s') : At st₁ h n filled cut s' :=
  Follows.calm hs fun i _ => hcalm i

/-- What follows a write: with an error the pass ends, whether or not the write has taken place. -/
theorem write_safe {J : PodStore → Prop} (hJ : ∀ s s', J s → Calm s s' → J s') {s' : PodStore} (o : Outcome)
    (message : String → String) (hbefore : Guarded h n m s s) (hafter : Guarded h n m s s') (hs' : J s') :
    Guarded h n m s (write s s' o).2 ∧ (Calls.answered message (write s s' o).1).Safe serve FreeName Calm (Guarded h n m)
      (fun res s => ∀ u, res = .ok u → J s) (write s s' o).2 := by
  cases o with
  | served => exact ⟨hafter, fun t ht u _ => hJ s' t hs' ht⟩
  | refused e => exact ⟨hbefore, Client.Safe.error (message e) s⟩
  | lost e => exact ⟨hafter, Client.Safe.error (message e) s'⟩

theorem deletePod_safe {p : Pod} {filled cut cut' : List Nat} (hp : p.terminating = false)
    (hsound : ∀ F, Follows (fleet st₁) F h n filled cut → Sound F h n m)
    (hsound' : ∀ F, Follows (fleet st₁) F h n filled cut' → Sound F h n m)
    (hdelete : ∀ s, At st₁ h n filled cut s →
      At st₁ h n filled cut' (s.delete p.name) ∧ Kept (fleet s) (fleet (s.delete p.name)) h n)
    (hs : At st₁ h n filled cut s) :
    (Calls.deletePod p).Safe serve FreeName Calm (Guarded h n m)
      (fun res s => ∀ u, res = .ok u → At st₁ h n filled cut' s) s := by
  unfold Calls.deletePod
  rw [if_neg (by simp [hp])]
  intro t f ht _
  have hnow := hs.calm ht
  obtain ⟨hafter, hkept⟩ := hdelete t hnow
  exact write_safe (fun _ _ => At.calm) (f.outcome (.delete p)) _ ⟨hsound _ hnow, .refl _⟩
    ⟨hsound' _ hafter, hkept⟩ hafter

theorem Follows.create {F₁ F F' : Fleet} {p : Pod} {i : Nat} (hf : Follows F₁ F h n filled cut) (hi : F i = [])
    (hcut : ∀ j ∈ cut, j = i) (hself : F' i = F i ++ [p]) (hhash : p.hash = h)
    (hothers : ∀ j < n, j ≠ i → F' (j : Nat) = F j) : Follows F₁ F' h n (filled ++ [i]) [] where
  updated := by
    intro j hj hmem
    by_cases hji : j = i
    · exact ⟨p, by rw [hji, hself, hi]; rfl, hhash⟩
    · rw [hothers j hj hji]
      refine hf.updated j hj ?_
      simpa [hji] using hmem
  gone := by simp
  same := by
    intro j hj hmem _
    rw [List.mem_append, List.mem_singleton, not_or] at hmem
    rw [hothers j hj hmem.2]
    exact hf.same j hj hmem.1 fun hin => hmem.2 (hcut j hin)

theorem createPodForReplica_safe {ad : AgentDeploy} {i : Nat} (hi : i < 2 ^ 63)
    (hsound : ∀ F, Follows (fleet st₁) F h n filled cut → Sound F h n m)
    (hsound' : ∀ F, Follows (fleet st₁) F h n (filled ++ [i]) [] → Sound F h n m)
    (hempty : ∀ s, At st₁ h n filled cut s → fleet s i = []) (hcut : ∀ j ∈ cut, j = i)
    (hs : At st₁ h n filled cut s) :
    (Calls.createPodForReplica ad h i).Safe serve FreeName Calm (Guarded h n m)
      (fun res s => ∀ u, res = .ok u → At st₁ h n (filled ++ [i]) [] s) s := by
  intro t f ht _
  have hnow := hs.calm ht
  refine ⟨⟨hsound _ hnow, .refl _⟩, ?_⟩
  change (Calls.create i (newPod ad i h (f.suffix i))).Safe _ _ _ _ _ t
  intro t' f' ht' hfree
  have hnow' := hnow.calm ht'
  have hslot := newPod_slot ad hi h (f.suffix i)
  have hfleet := fleet_create hfree rfl
  have hafter : At st₁ h n (filled ++ [i]) [] (t'.create (newPod ad i h (f.suffix i))) := by
    refine Follows.create (p := newPod ad i h (f.suffix i)) hnow' (hempty t' hnow') hcut ?_ rfl ?_
    · rw [hfleet]
      simp [hslot]
    · intro j _ hji
      rw [hfleet]
      simp [hslot, Ne.symm hji]
  have hkept : Kept (fleet t') (fleet (t'.create (newPod ad i h (f.suffix i)))) h n := by
    intro j _ p hp hh
    refine ⟨p, ?_, rfl, hh⟩
    rw [hfleet]
    exact List.mem_append_left _ hp
  exact write_safe (fun _ _ => At.calm) (f'.outcome (.create _)) _ ⟨hsound _ hnow', .refl _⟩
    ⟨hsound' _ hafter, hkept⟩ hafter

/-! ## The stages of a pass -/

/-- The pod of a slot outside the window shares its name with no pod of the window. -/
theorem deletePod_outside_safe (hF₁ : Sound (fleet st₁) h n m) {p : Pod} (hp : p ∈ st₁.pods)
    (hslot : ¬(0 ≤ p.slot ∧ p.slot < n)) (hs : At st₁ h n [] [] s) :
    (Calls.deletePod p).Safe serve FreeName Calm (Guarded h n m)
      (fun res s => ∀ u, res = .ok u → At st₁ h n [] [] s) s := by
  cases hlive : p.terminating with
  | true =>
    unfold Calls.deletePod
    rw [if_pos hlive]
    exact fun t ht u _ => hs.calm ht
  | false =>
    have hsound : ∀ F, Follows (fleet st₁) F h n [] [] → Sound F h n m := fun F hf => hf.sound_filling hF₁ (by simp)
    refine deletePod_safe hlive hsound hsound (fun t ht => ?_) hs
    have hsame : ∀ i < n, fleet (t.delete p.name) (i : Nat) = fleet t i := by
      intro i hi
      rw [fleet_delete, List.filter_eq_self]
      intro q hq
      obtain ⟨k, hk, rfl⟩ := List.getElem_of_mem hq
      have hother := ht.same i hi (by simp) (by simp)
      have hk' : k < (fleet st₁ i).length := hother.length_eq ▸ hk
      have hpair : SamePod (fleet st₁ i)[k] (fleet t i)[k] := List.Forall₂.get hother hk' hk
      obtain ⟨hmem, -, hat⟩ := mem_fleet.mp (List.getElem_mem hk')
      rw [decide_eq_true_eq, hpair.name]
      intro hname
      rw [st₁.eq_of_name_eq hmem hp hname] at hat
      omega
    exact ⟨Follows.calm ht fun i hi => by rw [hsame i hi]; exact List.forall₂_same.mpr fun q _ => .refl q,
      fun i hi q hq hh => ⟨q, by rw [hsame i hi]; exact hq, rfl, hh⟩⟩

theorem deleteOutside_safe (hF₁ : Sound (fleet st₁) h n m) (order : RangeOrder Int) (hs : At st₁ h n [] [] s) :
    (Calls.deleteOutside order n (groupPodsByReplica st₁.pods)).Safe serve FreeName Calm (Guarded h n m)
      (fun res s => ∀ u, res = .ok u → At st₁ h n [] [] s) s := by
  refine Client.Safe.loop (I := fun _ _ s => At st₁ h n [] [] s) .refl (fun _ _ _ _ => At.calm) ?_ hs
  intro _ k _ _ t _ ht
  split_ifs with hk
  · exact fun t' ht' u _ => ht.calm ht'
  · refine Client.Safe.loop (I := fun _ _ s => At st₁ h n [] [] s) .refl (fun _ _ _ _ => At.calm) ?_ ht
    intro visited p rest _ t hl ht
    have hp : p ∈ podsAt (groupPodsByReplica st₁.pods) k := by simp [hl]
    rw [podsAt_group, List.mem_filter, beq_iff_eq] at hp
    exact deletePod_outside_safe hF₁ hp.1 (hp.2 ▸ hk) ht

theorem scan_terminating {ps : List Pod} (hps : ps.filter Pod.live = []) (c : Calls.Slot) :
    Client.loop (Calls.scanPod h) ps c = .done (.ok c) := by
  induction ps with
  | nil => rfl
  | cons p ps ih =>
    rw [List.filter_eq_nil_iff] at hps
    have hp : p.terminating = true := by simpa [Pod.live] using hps p (by simp)
    have hscan : Calls.scanPod h c p = .done (.ok c) := by rw [Calls.scanPod, if_pos hp]
    rw [Client.loop, hscan]
    exact ih (List.filter_eq_nil_iff.mpr fun q hq => hps q (by simp [hq]))

/-- A slot with one live pod is classified without a call. -/
theorem scan_single {ps : List Pod} (hps : (ps.filter Pod.live).length ≤ 1) :
    Client.loop (Calls.scanPod h) ps {} =
      .done (.ok ⟨Fleet.current h (ps.filter Pod.live), (ps.filter Pod.live).any fun p => p.hash != h⟩) := by
  induction ps with
  | nil => rfl
  | cons p ps ih =>
    cases hp : p.terminating with
    | true =>
      have hscan : Calls.scanPod h {} p = .done (.ok {}) := by rw [Calls.scanPod, if_pos hp]
      have hfilter : (p :: ps).filter Pod.live = ps.filter Pod.live := by simp [Pod.live, hp]
      rw [Client.loop, hscan, hfilter]
      exact ih (hfilter ▸ hps)
    | false =>
      have hfilter : (p :: ps).filter Pod.live = p :: ps.filter Pod.live := by simp [Pod.live, hp]
      rw [hfilter] at hps ⊢
      have hrest : ps.filter Pod.live = [] := by simpa using hps
      have hscan : Calls.scanPod h {} p = .done (.ok ⟨Fleet.current h [p], p.hash != h⟩) := by
        by_cases hh : p.hash = h <;> simp [Calls.scanPod, hp, hh, Fleet.current]
      have hany : ([p].any fun p => p.hash != h) = (p.hash != h) := by simp
      rw [Client.loop, hscan, hrest, hany]
      exact scan_terminating hrest _

/-- The classes of the slots `is`. -/
def slotsOf (F : Fleet) (h : String) (is : List Nat) : Calls.Slots where
  needsCreate := is.filter fun (i : Nat) => (F i).isEmpty
  needsReplace := is.filter fun (i : Nat) => Fleet.outdated h (F i)
  updatedOnDesired := is.countP fun (i : Nat) => (Fleet.current h (F i)).isSome
  updatedReadyOnDesired := is.countP fun (i : Nat) => (Fleet.current h (F i)).any podReady

theorem sort_slotsOf (F : Fleet) (h : String) (is : List Nat) (i : Nat) :
    (slotsOf F h is).sort i ⟨Fleet.current h (F i), (F i).any fun p => p.hash != h⟩ = slotsOf F h (is ++ [i]) := by
  obtain ⟨he, hcur, ho⟩ | ⟨he, hcur, ho⟩ | ⟨he, hcur, ho⟩ := Fleet.classes h (F i)
  · rw [he] at hcur ho
    simp [Calls.Slots.sort, slotsOf, he, hcur, ho]
  · obtain ⟨p, hp⟩ := Option.isSome_iff_exists.mp hcur
    simp [Calls.Slots.sort, slotsOf, he, hp, ho]
  · have hyes : ((F i).any fun p => p.hash != h) = true := by
      obtain ⟨p, hp⟩ := List.exists_mem_of_ne_nil _ he
      exact List.any_eq_true.mpr ⟨p, hp, by simpa using Fleet.current_eq_none.mp hcur p hp⟩
    simp [Calls.Slots.sort, slotsOf, he, hcur, ho, hyes]

theorem classify_slotsOf (is : List Nat) (his : ∀ i ∈ is, (fleet st₁ (i : Nat)).length ≤ 1) (visited : List Nat) :
    Client.loop (Calls.classifySlot h (groupPodsByReplica st₁.pods)) is (slotsOf (fleet st₁) h visited) =
      .done (.ok (slotsOf (fleet st₁) h (visited ++ is))) := by
  induction is generalizing visited with
  | nil => simp [Client.loop]
  | cons i is ih =>
    have hlen := his i (by simp)
    rw [← podsAt_live] at hlen
    have hclassify : Calls.classifySlot h (groupPodsByReplica st₁.pods) (slotsOf (fleet st₁) h visited) i =
        .done (.ok (slotsOf (fleet st₁) h (visited ++ [i]))) := by
      rw [Calls.classifySlot, scan_single hlen, podsAt_live, ← sort_slotsOf]
      rfl
    rw [Client.loop, hclassify]
    refine (ih (fun j hj => his j (by simp [hj])) (visited ++ [i])).trans ?_
    rw [List.append_assoc]
    rfl

theorem createMissing_safe {ad : AgentDeploy} (hn : n < 2 ^ 63) (hF₁ : Sound (fleet st₁) h n m) (hs : At st₁ h n [] [] s) :
    (Client.loop (fun _ => Calls.createPodForReplica ad h) ((fleet st₁).needsCreate n) ()).Safe serve FreeName Calm
      (Guarded h n m) (fun res s => ∀ u, res = .ok u → At st₁ h n ((fleet st₁).needsCreate n) [] s) s := by
  have hmem : ∀ i ∈ (fleet st₁).needsCreate n, i < n ∧ fleet st₁ (i : Nat) = [] := by simp [Fleet.needsCreate]
  have hnodup : ((fleet st₁).needsCreate n).Nodup := List.nodup_range.filter _
  refine Client.Safe.loop (I := fun visited _ s => At st₁ h n visited [] s) .refl (fun _ _ _ _ => At.calm) ?_ hs
  intro visited i rest _ t hl ht
  rw [hl] at hmem hnodup
  obtain ⟨hi, hnil⟩ := hmem i (by simp)
  have hnew : i ∉ visited := fun hin => (List.nodup_append.mp hnodup).2.2 i hin i (by simp) rfl
  refine createPodForReplica_safe (by omega) (fun F hf => ?_) (fun F hf => ?_) (fun t ht => ?_) (by simp) ht
  · exact hf.sound_filling hF₁ fun j hj => (hmem j (by simp [hj])).2
  · refine hf.sound_filling hF₁ fun j hj => (hmem j ?_).2
    simp only [List.mem_append, List.mem_cons, List.not_mem_nil, or_false] at hj ⊢
    exact hj.imp_right .inl
  · have hsame := ht.same i hi hnew (by simp)
    rw [hnil, List.forall₂_nil_left_iff] at hsame
    exact hsame

theorem At.delete {p : Pod} {i : Nat} (hi : i < n) (hp : fleet st₁ i = [p]) (hnew : i ∉ filled) (hhash : p.hash ≠ h)
    (hs : At st₁ h n filled [] s) :
    At st₁ h n filled [i] (s.delete p.name) ∧ Kept (fleet s) (fleet (s.delete p.name)) h n := by
  have hsame := hs.same i hi hnew (by simp)
  rw [hp] at hsame
  obtain ⟨q, hq, hpq⟩ := singleton_of_forall₂ hsame
  have hqs : q ∈ fleet s i := by simp [hq]
  obtain ⟨hqmem, -, hqslot⟩ := mem_fleet.mp hqs
  have hself : fleet (s.delete p.name) i = [] := by
    rw [fleet_delete, hq]
    simp [hpq.name]
  have hothers : ∀ j : Nat, j ≠ i → fleet (s.delete p.name) j = fleet s j := by
    intro j hj
    rw [fleet_delete, List.filter_eq_self]
    intro o ho
    obtain ⟨homem, -, hoslot⟩ := mem_fleet.mp ho
    rw [decide_eq_true_eq]
    intro hname
    rw [s.eq_of_name_eq homem hqmem (hname.trans hpq.name.symm)] at hoslot
    exact hj (by omega)
  refine ⟨⟨fun j hj hin => ?_, fun j hj hin => ?_, fun j hj hnot hcut => ?_⟩, fun j hj o ho hh => ?_⟩
  · rw [hothers j fun he => hnew (he ▸ hin)]
    exact hs.updated j hj hin
  · rw [List.mem_singleton.mp hin]
    exact hself
  · rw [hothers j (by simpa using hcut)]
    exact hs.same j hj hnot (by simp)
  · by_cases hji : j = i
    · rw [hji, hq, List.mem_singleton] at ho
      rw [ho, hpq.hash] at hh
      exact absurd hh hhash
    · exact ⟨o, by rw [hothers j hji]; exact ho, rfl, hh⟩

theorem replaceSlot_safe {ad : AgentDeploy} {visited : List Nat} {i : Nat} (hn : n < 2 ^ 63)
    (hF₁ : Sound (fleet st₁) h n m) (hopen : (fleet st₁).waiting h n = false) (hi : i ∈ (fleet st₁).needsReplace h n)
    (hnew : i ∉ visited) (hbudget : visited.length + 1 ≤ m)
    (hs : At st₁ h n ((fleet st₁).needsCreate n ++ visited) [] s) :
    (Calls.replaceSlot ad h (groupPodsByReplica st₁.pods) i).Safe serve FreeName Calm (Guarded h n m)
      (fun res s => ∀ u, res = .ok u → At st₁ h n ((fleet st₁).needsCreate n ++ (visited ++ [i])) [] s) s := by
  obtain ⟨hin, hout⟩ := List.mem_filter.mp hi
  have hlt := List.mem_range.mp hin
  obtain ⟨hne, hcur⟩ := Fleet.outdated_iff.mp hout
  obtain ⟨p, hp⟩ : ∃ p, fleet st₁ i = [p] := by
    have hlen := hF₁.single i hlt
    exact List.length_eq_one_iff.mp (by have := List.length_pos_iff.mpr hne; omega)
  have hhash : p.hash ≠ h := Fleet.current_eq_none.mp hcur p (by simp [hp])
  have hfilled : i ∉ (fleet st₁).needsCreate n ++ visited := by
    simp [Fleet.needsCreate, hp, hnew]
  obtain ⟨hpmem, hplive, hpslot⟩ := mem_fleet.mp (show p ∈ fleet st₁ i by simp [hp])
  have hnodup : (podsAt (groupPodsByReplica st₁.pods) i).Nodup := by
    rw [podsAt_group]
    exact (List.Nodup.of_map _ st₁.nodup).filter _
  have hbefore : ∀ F, Follows (fleet st₁) F h n ((fleet st₁).needsCreate n ++ visited) [] → Sound F h n m :=
    fun F hf => hf.sound_batch hF₁ hopen (by simp) (by simp; omega)
  have hcut : ∀ F, Follows (fleet st₁) F h n ((fleet st₁).needsCreate n ++ visited) [i] → Sound F h n m :=
    fun F hf => hf.sound_batch hF₁ hopen (by simp) (by simpa using hbudget)
  refine Client.Safe.bindOk .refl ((Client.Safe.loop (I := fun seen _ s =>
    At st₁ h n ((fleet st₁).needsCreate n ++ visited) (if p ∈ seen then [i] else []) s) .refl (fun _ _ _ _ => At.calm) ?_
      (by simpa using hs)).mono (fun _ _ hg => hg) fun res t hres u hu => ?_)
  · -- of the pods that were listed in the slot, `p` alone is live
    intro seen q rest _ t hl ht
    by_cases hq : (q.terminating || q.hash == h) = true
    · rw [if_pos hq]
      have hqp : p ≠ q := by
        rintro rfl
        simp [hplive, hhash] at hq
      have hseen : p ∈ seen ++ [q] ↔ p ∈ seen := by simp [hqp]
      intro t' ht' u _
      simp only [hseen]
      exact ht.calm ht'
    · rw [if_neg hq]
      simp only [Bool.or_eq_true, beq_iff_eq, not_or, Bool.not_eq_true] at hq
      have hqs : q ∈ fleet st₁ i := by
        rw [← podsAt_live, List.mem_filter, hl]
        simp [Pod.live, hq.1]
      rw [hp, List.mem_singleton] at hqs
      subst hqs
      have hseen : q ∉ seen := fun hin' => (List.nodup_append.mp (hl ▸ hnodup)).2.2 q hin' q (by simp) rfl
      rw [if_neg hseen] at ht
      rw [if_pos (show q ∈ seen ++ [q] by simp)]
      exact deletePod_safe hq.1 hbefore hcut (fun _ => At.delete hlt hp hfilled hhash) ht
  · have hseen : p ∈ podsAt (groupPodsByReplica st₁.pods) i := by
      rw [podsAt_group, List.mem_filter]
      exact ⟨hpmem, by simpa using hpslot⟩
    have ht := hres u hu
    rw [if_pos hseen] at ht
    rw [← List.append_assoc]
    refine createPodForReplica_safe (by omega) hcut (fun F hf => ?_) (fun t ht => ht.gone i hlt (by simp)) (by simp) ht
    rw [List.append_assoc] at hf
    exact hf.sound_batch hF₁ hopen (by simp) (by simpa using hbudget)

variable {r : Reconciler} {ad : AgentDeploy}

theorem finish_safe (hhash : r.podSpecHash ad = h) (hn : window ad = n) (hm : budget r ad = m)
    (hF₁ : Sound (fleet st₁) h n m) (status : AgentDeployStatus) (hs : At st₁ h n [] [] s) :
    (Calls.finish r ad status (groupPodsByReplica st₁.pods) (slotsOf (fleet st₁) h (List.range n))).Safe serve FreeName
      Calm (Guarded h n m) (fun res _ => ∀ st, res = .ok st → True) s := by
  have hlt : n < 2 ^ 63 := by have := window_lt ad; omega
  unfold Calls.finish
  rw [hhash]
  refine Client.Safe.bindOk .refl ((createMissing_safe hlt hF₁ hs).mono (fun _ _ hg => hg) fun res t hres u hu => ?_)
  have ht := hres u hu
  split_ifs with hlen hdone hgate
  · exact fun _ _ _ _ => trivial
  · exact fun _ _ _ _ => trivial
  · exact fun _ _ _ _ => trivial
  · have hopen : (fleet st₁).waiting h n = false := by
      rw [Bool.eq_false_iff]
      intro hwait
      have hcount := (Fleet.countP_lt_iff_waiting (fleet st₁) h (List.range n)).mpr hwait
      exact hgate ⟨Nat.lt_of_le_of_lt (Nat.zero_le _) hcount, hcount⟩
    refine Client.Safe.bindOk .refl ((Client.Safe.loop (I := fun visited _ s =>
      At st₁ h n ((fleet st₁).needsCreate n ++ visited) [] s) .refl (fun _ _ _ _ => At.calm) ?_
        (by simpa using ht)).mono (fun _ _ hg => hg) fun _ _ _ _ _ => ?_)
    · intro visited i rest _ t hl ht
      have htake : (visited ++ i :: rest).length ≤ m := by
        rw [← hl, List.length_take, ← hm, budget]
        omega
      have hsub := List.take_sublist (min (resolveMaxUnavailable r.scaledValue ad (desiredReplicas ad)).toNat
        (slotsOf (fleet st₁) h (List.range n)).needsReplace.length) ((fleet st₁).needsReplace h n)
      have hl' : ((fleet st₁).needsReplace h n).take _ = visited ++ i :: rest := hl
      rw [hl'] at hsub
      have hnodup : (visited ++ i :: rest).Nodup := hsub.nodup (List.nodup_range.filter _)
      rw [List.length_append, List.length_cons] at htake
      exact replaceSlot_safe hlt hF₁ hopen (hsub.subset (by simp))
        (fun hin => (List.nodup_append.mp hnodup).2.2 i hin i (by simp) rfl) (by omega) ht
    · exact fun _ _ _ _ => trivial

theorem Sound.calm (hF : Sound (fleet st₁) h n m) (hcalm : Calm st₁ s) : Sound (fleet s) h n m := by
  have hfollows : At st₁ h n [] [] s := ⟨by simp, by simp, fun i _ _ _ => hcalm i⟩
  exact hfollows.sound_filling hF (by simp)

theorem Calm.kept (hcalm : Calm st₁ s) : Kept (fleet st₁) (fleet s) h n := by
  intro i _ p hp hh
  obtain ⟨k, hk, rfl⟩ := List.getElem_of_mem hp
  have hk' : k < (fleet s i).length := (hcalm i).length_eq ▸ hk
  have hpair : SamePod (fleet st₁ i)[k] (fleet s i)[k] := List.Forall₂.get (hcalm i) hk hk'
  exact ⟨_, List.getElem_mem hk', hpair.name, hpair.hash.trans hh⟩

theorem drive_safe (hhash : r.podSpecHash ad = h) (hn : window ad = n) (hm : budget r ad = m) (now : Int)
    (order : RangeOrder Int) (hF₁ : Sound (fleet st₁) h n m) :
    (Calls.drive r now order ad st₁.pods).Safe serve FreeName Calm (Guarded h n m)
      (fun res _ => ∀ st, res = .ok st → True) st₁ := by
  have hstart : At st₁ h n [] [] st₁ := ⟨by simp, by simp, fun i _ _ _ => Calm.refl st₁ i⟩
  unfold Calls.drive
  rw [← window_eq, hn, hhash]
  refine Client.Safe.bindOk .refl ((deleteOutside_safe hF₁ order hstart).mono (fun _ _ hg => hg) fun res t hres u hu => ?_)
  have hclassify := classify_slotsOf (h := h) (List.range n) (fun i hi => hF₁.single i (List.mem_range.mp hi)) []
  rw [Int.toNat_natCast]
  change ((Client.loop _ _ (slotsOf (fleet st₁) h [])).bindOk _).Safe _ _ _ _ _ _
  rw [hclassify]
  exact finish_safe hhash hn hm hF₁ _ (hres u hu)

theorem serve_list (f : Reply) (st : PodStore) :
    serve f st .list = (.ok st.pods, st) ∨ ∃ e, serve f st .list = (.error e, st) := by
  unfold serve
  cases f.outcome .list with
  | served => exact .inl rfl
  | refused e => exact .inr ⟨e, rfl⟩
  | lost e => exact .inr ⟨e, rfl⟩

/-- **A pass.** Whatever becomes of its calls, each of them leaves a sound state with the updated pods in place. -/
theorem reconcilePods_safe (hhash : r.podSpecHash ad = h) (hn : window ad = n) (hm : budget r ad = m) (now : Int)
    (order : RangeOrder Int) (hs : Sound (fleet s) h n m) :
    (Calls.reconcilePods r now order ad).Safe serve FreeName Calm (Guarded h n m) (fun _ _ => True) s := by
  suffices hok : (Calls.reconcilePods r now order ad).Safe serve FreeName Calm (Guarded h n m)
      (fun res _ => ∀ st, res = .ok st → True) s from hok.mono (fun _ _ hg => hg) fun _ _ _ => trivial
  intro t f ht _
  have hF₁ := hs.calm ht
  change Guarded h n m t (serve f t .list).2 ∧
    ((Client.done (serve f t .list).1).bindOk (Calls.drive r now order ad)).Safe _ _ _ _ _ (serve f t .list).2
  obtain hserve | ⟨e, hserve⟩ := serve_list f t
  · rw [hserve]
    exact ⟨⟨hF₁, .refl _⟩, drive_safe hhash hn hm now order hF₁⟩
  · rw [hserve]
    exact ⟨⟨hF₁, .refl _⟩, Client.Safe.error e t⟩

end

/-! ## Pass after pass -/

/-- The pods, and the pass that is under way, if it has a call left. -/
structure Running where
  store : PodStore
  pass : Calls.Prog AgentDeployStatus

namespace Running

inductive Event where
  /-- A pass begins, on the AgentDeploy as it then is; what the one before it has not done is not done. -/
  | start (now : Int) (order : RangeOrder Int) (ad : AgentDeploy)
  /-- The next call of the pass. -/
  | call (f : Reply)
  | kubelet (name : String) (conditions : List PodCondition)
  | vanish (name : String)

def step (r : Reconciler) (x : Running) : Event → Option Running
  | .start now order ad => some { x with pass := Calls.reconcilePods r now order ad }
  | .call f =>
    match x.pass with
    | .done _ => none
    | .ask q next => some ⟨(serve f x.store q).2, next (serve f x.store q).1⟩
  | .kubelet name conditions =>
    if World.staysReady x.store name conditions then some { x with store := x.store.setConditions name conditions } else none
  | .vanish name => some { x with store := x.store.vanish name }

/-- The passes share a target, and the names that they draw are free. -/
def Steady (r : Reconciler) (h : String) (n m : Nat) (x : Running) (e : Event) (_ : Running) : Prop :=
  match e with
  | .start _ _ ad => r.podSpecHash ad = h ∧ window ad = n ∧ budget r ad = m
  | .call f =>
    match x.pass with
    | .done _ => True
    | .ask q _ => FreeName f x.store q
  | .kubelet _ _ | .vanish _ => True

instance (r : Reconciler) (h : String) (n m : Nat) : (x : Running) → (e : Event) → (x' : Running) →
    Decidable (Steady r h n m x e x')
  | _, .start _ _ ad, _ => inferInstanceAs (Decidable (r.podSpecHash ad = h ∧ window ad = n ∧ budget r ad = m))
  | ⟨_, .done _⟩, .call _, _ => inferInstanceAs (Decidable True)
  | ⟨st, .ask q _⟩, .call f, _ => inferInstanceAs (Decidable (FreeName f st q))
  | _, .kubelet _ _, _ | _, .vanish _, _ => inferInstanceAs (Decidable True)

section
variable {r : Reconciler} {h : String} {n m : Nat} {x x' y : Running} {e : Event} {es : List Event}

theorem step_cases (hstep : step r x e = some x') :
    (∃ now order ad, e = .start now order ad ∧ x' = ⟨x.store, Calls.reconcilePods r now order ad⟩) ∨
      (∃ f q next, e = .call f ∧ x.pass = .ask q next ∧ x' = ⟨(serve f x.store q).2, next (serve f x.store q).1⟩) ∨
      Calm x.store x'.store ∧ x'.pass = x.pass := by
  cases e with
  | start now order ad => exact .inl ⟨now, order, ad, rfl, (Option.some.inj hstep).symm⟩
  | call f =>
    rw [step] at hstep
    cases hpass : x.pass with
    | done a => simp [hpass] at hstep
    | ask q next =>
      simp only [hpass] at hstep
      exact .inr (.inl ⟨f, q, next, rfl, rfl, (Option.some.inj hstep).symm⟩)
  | kubelet name conditions =>
    rw [step] at hstep
    split_ifs at hstep with hready
    obtain rfl := Option.some.inj hstep
    exact .inr (.inr ⟨World.forall₂_setConditions hready, rfl⟩)
  | vanish name =>
    obtain rfl := Option.some.inj hstep
    refine .inr (.inr ⟨fun k => ?_, rfl⟩)
    rw [World.fleet_vanish, List.forall₂_same]
    exact fun p _ => .refl p

/-- At every moment the slots are sound, and the rest of the pass is safe. -/
structure Good (h : String) (n m : Nat) (x : Running) : Prop where
  sound : Sound (fleet x.store) h n m
  safe : x.pass.Safe serve FreeName Calm (Guarded h n m) (fun _ _ => True) x.store

theorem good_step (hx : Good h n m x) (hsteady : Steady r h n m x e x') (hstep : step r x e = some x') :
    Good h n m x' ∧ Kept (fleet x.store) (fleet x'.store) h n := by
  obtain ⟨now, order, ad, rfl, rfl⟩ | ⟨f, q, next, rfl, hpass, rfl⟩ | ⟨hcalm, hpass⟩ := step_cases hstep
  · obtain ⟨hhash, hn, hm⟩ := hsteady
    exact ⟨⟨hx.sound, reconcilePods_safe hhash hn hm now order hx.sound⟩, .refl _⟩
  · have hsafe := hx.safe
    rw [hpass] at hsafe
    have hfree : FreeName f x.store q := by simpa only [Steady, hpass] using hsteady
    obtain ⟨⟨hsound, hkept⟩, hnext⟩ := hsafe x.store f (.refl _) hfree
    exact ⟨⟨hsound, hnext⟩, hkept⟩
  · refine ⟨⟨hx.sound.calm hcalm, ?_⟩, hcalm.kept⟩
    rw [hpass]
    exact hx.safe.of_rely Calm.trans hcalm

theorem good_run (hx : Good h n m x) (hsteady : EachStep (step r) (Steady r h n m) x es)
    (hrun : run (step r) x es = some y) : Good h n m y ∧ Kept (fleet x.store) (fleet y.store) h n := by
  induction es generalizing x with
  | nil =>
    obtain rfl := Option.some.inj hrun
    exact ⟨hx, .refl _⟩
  | cons e es ih =>
    obtain ⟨x₁, hstep, hrest⟩ := run_cons.mp hrun
    obtain ⟨he, hes⟩ := (eachStep_cons hstep).mp hsteady
    obtain ⟨hx₁, hkept⟩ := good_step hx he hstep
    obtain ⟨hy, hkept'⟩ := ih hx₁ hes hrest
    exact ⟨hy, hkept.trans hkept'⟩

theorem exists_run_eval (r : Reconciler) (f : Reply) (x : Running) :
    ∃ k, run (step r) x (List.replicate k (.call f)) =
      some ⟨(x.pass.eval (serve f) x.store).2, .done (x.pass.eval (serve f) x.store).1⟩ := by
  obtain ⟨st, pass⟩ := x
  induction pass generalizing st with
  | done a => exact ⟨0, rfl⟩
  | ask q next ih =>
    obtain ⟨k, hk⟩ := ih (serve f st q).1 (serve f st q).2
    exact ⟨k + 1, run_cons.mpr ⟨_, rfl, hk⟩⟩

end

end Running

section
variable {inp : PassInput} {ad : AgentDeploy} {h : String}

theorem deletePod_isOk (hapi : inp.api = {}) (st : PodStore) (p : Pod) : (deletePod inp.api st p).isOk = true := by
  rw [hapi, deletePod]
  split_ifs <;> rfl

theorem createPodForReplica_isOk (hapi : inp.api = {}) (st : PodStore) (i : Nat) :
    (createPodForReplica inp ad h st i).isOk = true := by
  rw [createPodForReplica, hapi]
  rfl

theorem scanPod_isOk (hapi : inp.api = {}) (c : SlotScan) (p : Pod) : (scanPod inp.api h c p).isOk = true := by
  unfold scanPod
  split_ifs
  · rfl
  · cases c.kept with
    | none => rfl
    | some q => exact isOk_bind (deletePod_isOk hapi c.store p) fun _ => rfl
  · rfl

theorem reconcilePods_isOk (r : Reconciler) (hapi : inp.api = {}) (ad : AgentDeploy) (st : PodStore) :
    (reconcilePods r inp ad st).isOk = true := by
  refine isOk_bind (by rw [hapi]; rfl) fun existing => ?_
  refine isOk_bind (isOk_foldlM (fun st k => ?_) _ _) fun st => ?_
  · split_ifs
    · rfl
    · exact isOk_foldlM (deletePod_isOk hapi) _ _
  refine isOk_bind (isOk_foldlM (fun c i => ?_) _ _) fun c => ?_
  · refine isOk_bind (isOk_foldlM (scanPod_isOk hapi) _ _) fun scan => ?_
    cases scan.kept with
    | some p => rfl
    | none => cases scan.hasLiveOld <;> rfl
  refine isOk_bind (isOk_foldlM (createPodForReplica_isOk hapi) _ _) fun st => ?_
  split_ifs
  · rfl
  · rfl
  · rfl
  · refine isOk_bind (isOk_foldlM (fun st i => ?_) _ _) fun _ => rfl
    refine isOk_bind (isOk_foldlM (fun st p => ?_) _ _) fun st => createPodForReplica_isOk hapi st i
    split_ifs
    · rfl
    · exact deletePod_isOk hapi st p

end

namespace Running

theorem Good.of_ready {h : String} {n : Nat} (m : Nat) {x : Running}
    (hready : ∀ i < n, ∃ p, fleet x.store (i : Nat) = [p] ∧ podReady p = true) (hidle : ∃ res, x.pass = .done res) :
    Good h n m x := by
  have hnone : (fleet x.store).needsCreate n = [] := by
    rw [Fleet.needsCreate, List.filter_eq_nil_iff]
    intro i hi
    obtain ⟨p, hp, -⟩ := hready i (List.mem_range.mp hi)
    simp [hp]
  have hzero : (fleet x.store).unavailable n = 0 := by
    rw [Fleet.unavailable, List.countP_eq_zero]
    intro i hi
    obtain ⟨p, hp, hp'⟩ := hready i (List.mem_range.mp hi)
    simp [Fleet.unready, hp, hp']
  refine ⟨⟨fun i hi => ?_, fun i hi p hp _ => ?_, by simp [hnone], by omega⟩, ?_⟩
  · obtain ⟨p, hp, -⟩ := hready i hi
    simp [hp]
  · obtain ⟨q, hq, hq'⟩ := hready i hi
    rw [hq, List.mem_singleton] at hp
    exact hp ▸ hq'
  · obtain ⟨res, hres⟩ := hidle
    rw [hres]
    exact fun _ _ => trivial

/-- A pass that is let through ends well, with the slots of `Fleet.pass`. -/
theorem exists_run_pass (r : Reconciler) {inp : PassInput} (hapi : inp.api = {}) (ad : AgentDeploy) (x : Running) :
    ∃ k z status, run (step r) x (.start inp.now inp.order ad :: List.replicate k (.call inp.reply)) = some z ∧
      z.pass = .done (.ok status) ∧ fleet z.store = (fleet x.store).pass (r.podSpecHash ad) (window ad) (budget r ad)
        (drawnPod inp ad (r.podSpecHash ad) x.store) := by
  obtain ⟨⟨status, st'⟩, hok⟩ := exists_eq_ok_of_isOk (reconcilePods_isOk r hapi ad x.store)
  obtain ⟨hres, hst⟩ := reconcilePods_agrees r inp ad x.store
  obtain ⟨k, hk⟩ := exists_run_eval r inp.reply ⟨x.store, Calls.reconcilePods r inp.now inp.order ad⟩
  rw [hok] at hres hst
  dsimp only at hk
  rw [hres, hst status st' rfl] at hk
  exact ⟨k, _, status, run_cons.mpr ⟨_, rfl, hk⟩, rfl, (reconcilePods_refines hok).2⟩

end Running

theorem Sound.single_pass {F : Fleet} {h : String} {n m : Nat} (hF : Sound F h n m) {new : Nat → Option Pod}
    (hnew : ∀ i ∈ F.needsCreate n ++ F.batch h n m, (new i).isSome) : (F.pass h n m new).Single n := by
  have hfilled : ∀ i ∈ F.needsCreate n ++ F.batch h n m, ∃ p, (new i).toList = [p] := by
    intro i hi
    obtain ⟨p, hp⟩ := Option.isSome_iff_exists.mp (hnew i hi)
    exact ⟨p, by rw [hp]; rfl⟩
  intro i hi
  rw [Fleet.pass_of_lt _ _ _ _ _ hi]
  rcases Fleet.AtMostOne.cases hF.single hi with hFi | ⟨p, hFi⟩
  · rw [Fleet.passSlot_nil hFi]
    exact hfilled i (List.mem_append_left _ (List.mem_filter.mpr ⟨List.mem_range.mpr hi, by simp [hFi]⟩))
  · rw [Fleet.passSlot_single hFi]
    split_ifs with hb
    · exact hfilled i (List.mem_append_right _ hb)
    · exact ⟨p, rfl⟩

/-- **Rollouts with faults.** From a window of single Ready pods, at every moment of passes that may fail and be begun
anew at any call: no slot has two live pods, one at most has none, `maxUnavailable + 1` slots at most are not Ready, and an
updated pod stays; and one pass that is let through leaves one live pod in each slot, and no other. -/
theorem rollout_under_faults (r : Reconciler) (h : String) (n m : Nat) (x₀ x y : Running) (es es' : List Running.Event)
    (hready : ∀ i < n, ∃ p, fleet x₀.store (i : Nat) = [p] ∧ podReady p = true) (hidle : ∃ res, x₀.pass = .done res)
    (hsteady : EachStep (Running.step r) (Running.Steady r h n m) x₀ es) (hx : run (Running.step r) x₀ es = some x)
    (hsteady' : EachStep (Running.step r) (Running.Steady r h n m) x es') (hy : run (Running.step r) x es' = some y) :
    (∀ i < n, (fleet y.store (i : Nat)).length ≤ 1) ∧ ((fleet y.store).needsCreate n).length ≤ 1 ∧
      (fleet y.store).unavailable n ≤ m + 1 ∧ Kept (fleet x.store) (fleet y.store) h n ∧
      ∀ inp ad, inp.api = {} → r.podSpecHash ad = h → window ad = n → budget r ad = m → FreeNames r inp ad y.store →
        ∃ k z status, run (Running.step r) y (.start inp.now inp.order ad :: List.replicate k (.call inp.reply)) = some z ∧
          z.pass = .done (.ok status) ∧ (fleet z.store).Single n ∧
          ∀ i : Int, ¬(0 ≤ i ∧ i < n) → fleet z.store i = [] := by
  obtain ⟨hgood, -⟩ := Running.good_run (Running.Good.of_ready m hready hidle) hsteady hx
  obtain ⟨⟨hsound, -⟩, hkept⟩ := Running.good_run hgood hsteady' hy
  refine ⟨hsound.single, hsound.empty, hsound.unavailable, hkept, ?_⟩
  intro inp ad hapi hhash hn hm hfree
  subst hhash hn hm
  obtain ⟨k, z, status, hrun, hdone, hfleet⟩ := Running.exists_run_pass r hapi ad y
  refine ⟨k, z, status, hrun, hdone, ?_, fun i hi => ?_⟩
  · rw [hfleet]
    refine hsound.single_pass fun i hi => ?_
    rw [hfree.drawnPod hi]
    rfl
  · rw [hfleet, Fleet.pass_outside _ _ _ _ _ hi]

/-- A call that is served, with the name tail `1`. -/
def servedCall : Running.Event := .call { suffix := fun _ => "1" }

def refusedCall : Running.Event := .call { outcome := fun _ => .refused "timeout", suffix := fun _ => "1" }

def startPair : Running.Event := .start 0 RangeOrder.listed (readyPair "b").ad

/-- The first pass empties slot `0` and fails; the second one fills it, and empties slot `1`. -/
def cutOff : List Running.Event :=
  [startPair, servedCall, servedCall, servedCall, refusedCall, startPair, servedCall, servedCall, servedCall, servedCall]

def nextPass : PassInput where
  now := 0
  suffix := fun _ => "2"

/-- Both slots of a window with `maxUnavailable: 1` are down, and the next pass repairs it. -/
theorem rollout_under_faults_cutOff : ∃ x,
    run (Running.step imageReconciler) ⟨(readyPair "b").store, .done (.error "")⟩ cutOff = some x ∧
      (fleet x.store).unavailable 2 = 1 + 1 ∧
      ∃ k z status, run (Running.step imageReconciler) x
          (.start 0 RangeOrder.listed (readyPair "b").ad :: List.replicate k (.call nextPass.reply)) = some z ∧
        z.pass = .done (.ok status) ∧ (fleet z.store).Single 2 := by
  have hdown : (run (Running.step imageReconciler) ⟨(readyPair "b").store, .done (.error "")⟩ cutOff).any
      (fun x => (fleet x.store).unavailable 2 = 2 ∧
        FreeNames imageReconciler nextPass (readyPair "b").ad x.store) = true := by
    decide +kernel
  obtain ⟨x, hx, hprops⟩ := (Option.any_eq_true _ _).mp hdown
  rw [decide_eq_true_eq] at hprops
  obtain ⟨-, -, -, -, hpass⟩ := rollout_under_faults imageReconciler "b" 2 1 ⟨(readyPair "b").store, .done (.error "")⟩ x x
    cutOff [] (show AllReady (readyPair "b") by decide +kernel) ⟨_, rfl⟩ (by decide +kernel) hx trivial rfl
  obtain ⟨k, z, status, hrun, hdone, hsingle, -⟩ := hpass nextPass (readyPair "b").ad rfl (by decide) (by decide) (by decide)
    hprops.2
  exact ⟨x, hx, hprops.1, k, z, status, hrun, hdone, hsingle⟩

end KynoMesh.Pods
