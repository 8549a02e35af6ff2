import KynoMesh.Agentset.Services

/-!
# Convergence of the child sync

* `SyncInput.Honest` : the API server answers AlreadyExists and NotFound only when they are true;
* `syncChildren_effect` : what a successful sync leaves under any name, whatever the orders of its loops;
* `labelsEqual_of_lookup_eq`, `lookup_eq_of_labelsEqual` : the labels that the controller takes for equal;
* `Converged` : every agent has the child it wants, nothing else has the label, and one more sync writes nothing;
* `converged_iff` : when a successful sync converges.
-/

namespace KynoMesh.Agentset

open KynoMesh.Lib KynoMesh.Api

/-- Without concurrent writers, the API server answers AlreadyExists or NotFound only when they are true. -/
structure SyncInput.Honest (inp : SyncInput) : Prop where
  create : ∀ ad, inp.createFault ad ≠ some .alreadyExists
  delete : ∀ ad, inp.deleteFault ad ≠ some .notFound

/-- An API server that refuses every write. -/
def readOnly (desiredOrder existingOrder : RangeOrder (Σ _ : String, AgentDeploy)) : SyncInput where
  createFault := fun _ => some (.other "write refused")
  updateFault := fun _ => some (.other "write refused")
  deleteFault := fun _ => some (.other "write refused")
  desiredOrder := desiredOrder
  existingOrder := existingOrder

/-- The child is as the controller wants it: labels, owners and hash. -/
structure Matches (child want : AgentDeploy) : Prop where
  labels : ∀ key, child.metadata.labels.lookup key = want.metadata.labels.lookup key
  owners : child.metadata.ownerReferences = want.metadata.ownerReferences
  hash : strAt child.metadata.annotations keyHash = strAt want.metadata.annotations keyHash

/-- Every agent has the child it wants, no other AgentDeploy has the label, and one more sync, in any orders, ends well
even when no write is let through. -/
structure Converged (r : SetReconciler) (as : AgentSet) (st : DeployStore) : Prop where
  children : ∀ a ∈ as.spec.agents, ∃ want child, newAgentDeploy r as a = .ok want ∧
    st.objects.lookup (as.childAgentDeployName a.name) = some child ∧ Matches child want
  others : ∀ name ad, st.objects.lookup name = some ad → owned as ad = true →
    ∃ a ∈ as.spec.agents, name = as.childAgentDeployName a.name
  quiet : ∀ desiredOrder existingOrder, syncChildren r (readOnly desiredOrder existingOrder) as st = .ok st

/-! ## The effect of a sync -/

/-- What a create stores. -/
def created (want : AgentDeploy) : AgentDeploy := { want with spec := defaulted want.spec, status := {} }

/-- What a sync leaves under a name, from the child wanted and the AgentDeploy there. -/
def afterSync (as : AgentSet) : Option AgentDeploy → Option AgentDeploy → Option AgentDeploy
  | some want, none => some (created want)
  | some want, some child => some (synced as child want)
  | none, some ad => if owned as ad then none else some ad
  | none, none => none

section
variable {r : SetReconciler} {inp : SyncInput} {as : AgentSet} {st₀ st st' : DeployStore}
  {existing desired : Dict String AgentDeploy} {name : String} {want : AgentDeploy}

theorem applyWant_absent (hhonest : inp.Honest) (hlist : listOwnedAgentDeploys inp as st₀ = .ok existing)
    (hnone : st₀.objects.lookup name = none) (hst : st.objects.lookup name = none)
    (hwant : want.metadata.name = name) (h : applyWant inp existing st ⟨name, want⟩ = .ok st') :
    st'.objects.lookup name = some (created want) := by
  have hl : existing.lookup name = none := by
    rw [Option.eq_none_iff_forall_ne_some]
    intro ad had
    have hold := ((lookup_listOwnedAgentDeploys hlist).mp had).1
    simp [hnone] at hold
  subst hwant
  have hcreate : st.create want = .ok (st.put (created want)) := by simp [DeployStore.create, hst, created]
  simp only [applyWant, hl] at h
  rcases tolerate_eq_ok h with hc | ⟨-, e, he, hfault | herr⟩
  · rw [hcreate, Except.ok.injEq] at hc
    rw [← hc]
    exact DeployStore.lookup_put st (created want)
  · cases he
    exact absurd hfault (hhonest.create _)
  · rw [hcreate] at herr
    cases herr

theorem deleteOrphan_self (hhonest : inp.Honest) {entry : Σ _ : String, AgentDeploy}
    (hentry : entry.2.metadata.name = entry.1) (h : deleteOrphan inp desired st entry = .ok st') :
    st'.objects.lookup entry.1 = if entry.1 ∈ desired then st.objects.lookup entry.1 else none := by
  unfold deleteOrphan at h
  rw [hentry] at h
  split_ifs at h ⊢ with hin
  · cases h
    rfl
  · unfold DeployStore.delete at h
    cases hl : st.objects.lookup entry.1 with
    | none =>
      rcases tolerate_eq_ok h with hc | ⟨rfl, -⟩
      · simp [hl] at hc
      · exact hl
    | some ad =>
      rcases tolerate_eq_ok h with hc | ⟨-, e, he, hfault | herr⟩
      · simp only [hl, Except.ok.injEq] at hc
        rw [← hc]
        exact AList.lookup_erase entry.1 st.objects
      · cases he
        exact absurd hfault (hhonest.delete _)
      · simp [hl] at herr

theorem applyWants_effect (hhonest : inp.Honest) (hlist : listOwnedAgentDeploys inp as st = .ok existing)
    (hbuild : buildDesired r as = .ok desired)
    (hloop : (inp.desiredOrder.visit desired.entries).foldlM (applyWant inp existing) st = .ok st') (name : String) :
    st'.objects.lookup name = match desired.lookup name with
      | some want => afterSync as (some want) (st.objects.lookup name)
      | none => st.objects.lookup name := by
  have hex : ∀ {k ad}, existing.lookup k = some ad → ad.metadata.name = k := name_of_listOwnedAgentDeploys hlist
  have hturns := foldlM_keyed (k := Sigma.fst) (g := fun s name => s.objects.lookup name)
    (R := fun e old new => old = st.objects.lookup e.1 → new = afterSync as (some e.2) old)
    (nodup_visit inp.desiredOrder desired) ?_ hloop
  · cases hw : desired.lookup name with
    | some want => exact hturns.1 ⟨name, want⟩ (mem_visit_iff.mpr hw) rfl
    | none =>
      refine hturns.2 name fun hmem => ?_
      obtain ⟨e, he, rfl⟩ := List.mem_map.mp hmem
      simp [mem_visit_iff.mp he] at hw
  · intro e he s s' hstep
    have hname := buildDesired_named hbuild (mem_visit_iff.mp he)
    refine ⟨fun hold => ?_, fun k hk => applyWant_other hex hname hk hstep⟩
    cases hc : s.objects.lookup e.1 with
    | none => exact applyWant_absent hhonest hlist (hold.symm.trans hc) hc hname hstep
    | some child => exact applyWant_self hlist (hold.symm.trans hc) hc hname hstep

theorem deleteOrphans_effect (hhonest : inp.Honest) (hlist : listOwnedAgentDeploys inp as st₀ = .ok existing)
    (hloop : (inp.existingOrder.visit existing.entries).foldlM (deleteOrphan inp desired) st = .ok st')
    (name : String) :
    st'.objects.lookup name =
      if name ∈ existing ∧ name ∉ desired then none else st.objects.lookup name := by
  have hex : ∀ {k ad}, existing.lookup k = some ad → ad.metadata.name = k := name_of_listOwnedAgentDeploys hlist
  have hturns := foldlM_keyed (k := Sigma.fst) (g := fun s name => s.objects.lookup name)
    (R := fun e old new => new = if e.1 ∈ desired then old else none)
    (nodup_visit inp.existingOrder existing) ?_ hloop
  · by_cases hmem : name ∈ existing
    · obtain ⟨ad, had⟩ := Option.isSome_iff_exists.mp (AList.lookup_isSome.mpr hmem)
      have h := hturns.1 ⟨name, ad⟩ (mem_visit_iff.mpr had)
      by_cases hd : name ∈ desired <;> simpa [hmem, hd] using h
    · rw [if_neg fun h => hmem h.1]
      refine hturns.2 name fun hvisit => hmem ?_
      obtain ⟨e, he, rfl⟩ := List.mem_map.mp hvisit
      exact AList.lookup_isSome.mp (by simp [mem_visit_iff.mp he])
  · intro e he s s' hstep
    have hname := hex (mem_visit_iff.mp he)
    exact ⟨deleteOrphan_self hhonest hname hstep, fun k hk => deleteOrphan_other hname hk hstep⟩

/-- **The effect of a sync.** Under each name, it depends on the child wanted and the AgentDeploy there alone. -/
theorem syncChildren_effect (hhonest : inp.Honest) (hok : syncChildren r inp as st = .ok st')
    (hbuild : buildDesired r as = .ok desired) (name : String) :
    st'.objects.lookup name = afterSync as (desired.lookup name) (st.objects.lookup name) := by
  obtain ⟨existing, st₁, hlist, hloop₁, hloop₂⟩ := syncChildren_stages hok hbuild
  rw [deleteOrphans_effect hhonest hlist hloop₂, applyWants_effect hhonest hlist hbuild hloop₁]
  cases hw : desired.lookup name with
  | some want =>
    have hin : name ∈ desired := AList.lookup_isSome.mp (by simp [hw])
    rw [if_neg fun h => h.2 hin]
  | none =>
    have hout : name ∉ desired := AList.lookup_eq_none.mp hw
    have hlisted : name ∈ existing ↔ ∃ ad, st.objects.lookup name = some ad ∧ owned as ad = true := by
      rw [← AList.lookup_isSome, Option.isSome_iff_exists]
      exact exists_congr fun ad => lookup_listOwnedAgentDeploys hlist
    simp only [hout, not_false_eq_true, and_true, hlisted]
    cases hs : st.objects.lookup name with
    | none => simp [afterSync]
    | some ad => cases ho : owned as ad <;> simp [afterSync, ho]

end

/-! ## Labels -/

section
variable {a b : Dict String String}

theorem strAt_of_labelsEqual (h : labelsEqual a b = true) {key value : String} (hk : a.lookup key = some value) :
    strAt b key = value := by
  rw [labelsEqual, Bool.and_eq_true, List.all_eq_true] at h
  simpa using h.2 ⟨key, value⟩ (mem_entries_iff.mpr hk)

theorem labelsEqual_of_lookup_eq (h : ∀ key, a.lookup key = b.lookup key) : labelsEqual a b = true := by
  rw [labelsEqual, Bool.and_eq_true, List.all_eq_true]
  constructor
  · have hperm : a.entries.Perm b.entries :=
      List.lookup_ext a.nodupKeys b.nodupKeys fun key value => by
        rw [show a.entries.dlookup key = b.entries.dlookup key from h key]
    simp [hperm.length_eq]
  · rintro ⟨key, value⟩ he
    have := mem_entries_iff.mp he
    simp [strAt, ← h key, this]

/-- Labels that are found equal are equal as maps, unless an empty value stands for an absent key. -/
theorem lookup_eq_of_labelsEqual (h : labelsEqual a b = true)
    (hempty : ∀ key, a.lookup key = some "" → b.lookup key ≠ none) (key : String) : a.lookup key = b.lookup key := by
  have hsome : ∀ {key value}, a.lookup key = some value → b.lookup key = some value := by
    intro key value hk
    have hat := strAt_of_labelsEqual h hk
    cases hb : b.lookup key with
    | some w => simpa [strAt, hb] using hat
    | none =>
      have hnil : value = "" := by simpa [strAt, hb, eq_comm] using hat
      exact absurd hb (hempty key (hnil ▸ hk))
  have hkeys : ∀ {d : Dict String String} {k}, k ∈ d.keys ↔ ∃ v, d.lookup k = some v := by
    intro d k
    rw [← AList.mem_keys, ← AList.lookup_isSome, Option.isSome_iff_exists]
  -- no key of `a` is missing in `b`, and they have as many
  have hsub : a.keys ⊆ b.keys := fun k hk => by
    obtain ⟨v, hv⟩ := hkeys.mp hk
    exact hkeys.mpr ⟨v, hsome hv⟩
  have hlen : b.keys.length ≤ a.keys.length := by
    rw [labelsEqual, Bool.and_eq_true] at h
    have := beq_iff_eq.mp h.1
    simp [AList.keys, List.keys, this]
  have hperm := (List.subperm_of_subset a.keys_nodup hsub).perm_of_length_le hlen
  cases ha : a.lookup key with
  | some value => exact (hsome ha).symm
  | none =>
    have hout : key ∉ b.keys := by
      rw [← hperm.mem_iff, ← AList.mem_keys, ← AList.lookup_eq_none]
      exact ha
    exact (AList.lookup_eq_none.mpr hout).symm

end

/-! ## The wanted children -/

section
variable {r : SetReconciler} {as : AgentSet} {a : AbstractAgentDeploy} {desired : Dict String AgentDeploy}
  {name : String} {want child : AgentDeploy}

theorem newAgentDeploy_label (h : newAgentDeploy r as a = .ok want) :
    want.metadata.labels.lookup keyAgentSetName = some as.metadata.name := by
  obtain ⟨ref, -, h⟩ := bind_eq_ok.mp h
  rw [pure_eq_ok] at h
  rw [← h]
  rfl

theorem lookup_buildDesired (hv : Valid as) (hbuild : buildDesired r as = .ok desired) :
    desired.lookup name = some want ↔
      ∃ a ∈ as.spec.agents, newAgentDeploy r as a = .ok want ∧ as.childAgentDeployName a.name = name := by
  obtain ⟨children, hc, hd⟩ := bind_eq_ok.mp hbuild
  rw [pure_eq_ok] at hd
  rw [← hd, lookup_collect_eq_some]
  · constructor
    · rintro ⟨hmem, rfl⟩
      obtain ⟨a, ha, hnew⟩ := exists_of_mem_mapM hc hmem
      exact ⟨a, ha, hnew, (newAgentDeploy_name hnew).symm⟩
    · rintro ⟨a, ha, hnew, rfl⟩
      obtain ⟨ad, had, hnew'⟩ := exists_of_mem_of_mapM hc ha
      rw [hnew, Except.ok.injEq] at hnew'
      exact ⟨hnew' ▸ had, newAgentDeploy_name hnew⟩
  · -- one name, one agent, one child
    intro ad had bd hbd heq
    obtain ⟨a, ha, hnewa⟩ := exists_of_mem_mapM hc had
    obtain ⟨b, hb, hnewb⟩ := exists_of_mem_mapM hc hbd
    rw [newAgentDeploy_name hnewa, newAgentDeploy_name hnewb] at heq
    have hab : a = b := List.inj_on_of_nodup_map (List.nodup_append.mp hv.nodup).1 ha hb
      (childAgentDeployName_injective as heq)
    rw [hab, hnewb, Except.ok.injEq] at hnewa
    exact hnewa.symm

theorem owned_of_matches (hnew : newAgentDeploy r as a = .ok want) (h : Matches child want) :
    owned as child = true := by
  rw [owned, decide_eq_true_eq, h.labels, newAgentDeploy_label hnew]

theorem needsUpdate_of_matches (h : Matches child want) : needsUpdate child want = false := by
  simp [needsUpdate, h.hash, h.owners, labelsEqual_of_lookup_eq h.labels]

/-- A child that needs no update matches, unless one of its labels has an empty value under a key not wanted. -/
theorem matches_of_needsUpdate (h : needsUpdate child want = false)
    (hempty : ∀ key, child.metadata.labels.lookup key = some "" → want.metadata.labels.lookup key ≠ none) :
    Matches child want := by
  simp only [needsUpdate, Bool.or_eq_false_iff, bne_eq_false_iff_eq, Bool.not_eq_false'] at h
  exact ⟨lookup_eq_of_labelsEqual h.2 hempty, h.1.2, h.1.1⟩

theorem matches_stored : Matches (stored child want) want := ⟨fun _ => rfl, rfl, rfl⟩

theorem matches_created : Matches (created want) want := ⟨fun _ => rfl, rfl, rfl⟩

/-- What the sync makes of a child matches exactly when the child has the label, and is updated or needs no update for
a good reason. -/
theorem matches_synced_iff (hnew : newAgentDeploy r as a = .ok want) : Matches (synced as child want) want ↔
    owned as child = true ∧ (needsUpdate child want = true ∨
      ∀ key, child.metadata.labels.lookup key = some "" → want.metadata.labels.lookup key ≠ none) := by
  unfold synced
  cases ho : owned as child with
  | false =>
    simp only [Bool.false_and, Bool.false_eq_true, if_false, false_and, iff_false]
    exact fun h => by simp [owned_of_matches hnew h] at ho
  | true =>
    cases hu : needsUpdate child want with
    | true => simp [matches_stored]
    | false =>
      simp only [Bool.and_false, Bool.false_eq_true, if_false, true_and, false_or]
      exact ⟨fun h key hk => by simp [← h.labels, hk], matches_of_needsUpdate hu⟩

/-- Where every agent has its child and nothing else has the label, a sync does nothing. -/
theorem syncChildren_quiet {st : DeployStore} (hv : Valid as) (hbuild : buildDesired r as = .ok desired)
    (hchildren : ∀ a ∈ as.spec.agents, ∃ want child, newAgentDeploy r as a = .ok want ∧
      st.objects.lookup (as.childAgentDeployName a.name) = some child ∧ Matches child want)
    (hothers : ∀ name ad, st.objects.lookup name = some ad → owned as ad = true →
      ∃ a ∈ as.spec.agents, name = as.childAgentDeployName a.name)
    (inp : SyncInput) (hlist : inp.listFault = none) : syncChildren r inp as st = .ok st := by
  obtain ⟨existing, hexisting⟩ : ∃ existing, listOwnedAgentDeploys inp as st = .ok existing := by
    unfold listOwnedAgentDeploys
    rw [hlist]
    exact ⟨_, rfl⟩
  refine bind_eq_ok.mpr ⟨existing, hexisting, bind_eq_ok.mpr ⟨desired, hbuild, bind_eq_ok.mpr ⟨st, ?_, ?_⟩⟩⟩
  · refine foldlM_eq_ok_self fun e he => ?_
    obtain ⟨a, ha, hnew, hname⟩ := (lookup_buildDesired hv hbuild).mp (mem_visit_iff.mp he)
    obtain ⟨want, child, hnew', hchild, hmatch⟩ := hchildren a ha
    rw [hnew, Except.ok.injEq] at hnew'
    subst hnew'
    rw [hname] at hchild
    have hgot := (lookup_listOwnedAgentDeploys hexisting).mpr ⟨hchild, owned_of_matches hnew hmatch⟩
    simp [applyWant, hgot, needsUpdate_of_matches hmatch]
  · refine foldlM_eq_ok_self fun e he => ?_
    obtain ⟨hlookup, howned⟩ := (lookup_listOwnedAgentDeploys hexisting).mp (mem_visit_iff.mp he)
    obtain ⟨a, ha, hname⟩ := hothers _ _ hlookup howned
    obtain ⟨want, child, hnew, -⟩ := hchildren a ha
    have hin : e.1 ∈ desired :=
      AList.lookup_isSome.mp (by rw [(lookup_buildDesired hv hbuild).mpr ⟨a, ha, hnew, hname.symm⟩]; rfl)
    rw [deleteOrphan, if_pos hin]

end

theorem desired_of_owned_after {as : AgentSet} {desired existing : Option AgentDeploy} {ad : AgentDeploy}
    (h : afterSync as desired existing = some ad) (howned : owned as ad = true) : ∃ want, desired = some want := by
  cases desired with
  | some want => exact ⟨want, rfl⟩
  | none =>
    cases existing with
    | none => cases h
    | some old =>
      simp only [afterSync, Option.ite_none_left_eq_some, Option.some.injEq] at h
      obtain ⟨hnot, rfl⟩ := h
      exact absurd howned hnot

/-- **Convergence.** A successful sync of a valid AgentSet converges exactly when every AgentDeploy that already stands
under the name of a child has the label of the AgentSet, and needs an update or has no label of empty value under a
key that is not wanted. -/
theorem converged_iff (c : Checks) (r : SetReconciler) (inp : SyncInput) (as : AgentSet) (st st' : DeployStore)
    (hvalid : validateAgentSet c as = .ok ()) (hhonest : inp.Honest) (hok : syncChildren r inp as st = .ok st') :
    Converged r as st' ↔
      ∀ a ∈ as.spec.agents, ∀ want child, newAgentDeploy r as a = .ok want →
        st.objects.lookup (as.childAgentDeployName a.name) = some child →
        owned as child = true ∧ (needsUpdate child want = true ∨
          ∀ key, child.metadata.labels.lookup key = some "" → want.metadata.labels.lookup key ≠ none) := by
  have hv := valid_of_validateAgentSet hvalid
  obtain ⟨_, _, hrest⟩ := bind_eq_ok.mp hok
  obtain ⟨desired, hbuild, -⟩ := bind_eq_ok.mp hrest
  have heffect := syncChildren_effect hhonest hok hbuild
  have hdesired : ∀ {a want}, a ∈ as.spec.agents → newAgentDeploy r as a = .ok want →
      st'.objects.lookup (as.childAgentDeployName a.name) =
        afterSync as (some want) (st.objects.lookup (as.childAgentDeployName a.name)) := by
    intro a want ha hnew
    rw [heffect, (lookup_buildDesired hv hbuild).mpr ⟨a, ha, hnew, rfl⟩]
  constructor
  · intro hconv a ha want child hnew hchild
    obtain ⟨want', child', hnew', hlookup, hmatch⟩ := hconv.children a ha
    rw [hnew, Except.ok.injEq] at hnew'
    subst hnew'
    rw [hdesired ha hnew, hchild, afterSync, Option.some.injEq] at hlookup
    rw [← hlookup] at hmatch
    exact (matches_synced_iff hnew).mp hmatch
  · intro hcond
    have hchildren : ∀ a ∈ as.spec.agents, ∃ want child, newAgentDeploy r as a = .ok want ∧
        st'.objects.lookup (as.childAgentDeployName a.name) = some child ∧ Matches child want := by
      intro a ha
      obtain ⟨children, hc, -⟩ := bind_eq_ok.mp hbuild
      obtain ⟨want, -, hnew⟩ := exists_of_mem_of_mapM hc ha
      rw [hdesired ha hnew]
      cases hs : st.objects.lookup (as.childAgentDeployName a.name) with
      | none => exact ⟨want, created want, hnew, rfl, matches_created⟩
      | some child =>
        exact ⟨want, synced as child want, hnew, rfl, (matches_synced_iff hnew).mpr (hcond a ha want child hnew hs)⟩
    have hothers : ∀ name ad, st'.objects.lookup name = some ad → owned as ad = true →
        ∃ a ∈ as.spec.agents, name = as.childAgentDeployName a.name := by
      intro name ad hlookup howned
      obtain ⟨want, hw⟩ := desired_of_owned_after ((heffect name).symm.trans hlookup) howned
      obtain ⟨a, ha, -, hname⟩ := (lookup_buildDesired hv hbuild).mp hw
      exact ⟨a, ha, hname.symm⟩
    exact ⟨hchildren, hothers, fun _ _ => syncChildren_quiet hv hbuild hchildren hothers _ rfl⟩

/-- A set of one agent. -/
def soloSet (name agent : String) : AgentSet where
  metadata := { nspace := "default", name := name }
  spec := { pattern := .supervisor, entry := agent, agents := [{ name := agent }] }

/-- The child of agent `c` of the set `a-b`. -/
def foreignChild : AgentDeploy where
  metadata := { nspace := "default", name := "a-b-c", labels := AList.insert keyAgentSetName "a-b" ∅ }
  spec := { agent := { name := "c" }, agentSetName := "a-b" }

def foreignStore : DeployStore := DeployStore.empty.put foreignChild

/-- The agent `b-c` of the set `a` never gets its child: its name is taken, and the sync ends well. -/
theorem not_converged_foreignStore : validateAgentSet labelChecks (soloSet "a" "b-c") = .ok () ∧
    ∃ st', syncChildren imageSetReconciler {} (soloSet "a" "b-c") foreignStore = .ok st' ∧
      ¬Converged imageSetReconciler (soloSet "a" "b-c") st' := by
  have hvalid : validateAgentSet labelChecks (soloSet "a" "b-c") = .ok () := by decide +kernel
  obtain ⟨st', hok⟩ : ∃ st', syncChildren imageSetReconciler {} (soloSet "a" "b-c") foreignStore = .ok st' :=
    exists_eq_ok_of_isOk (by decide +kernel)
  refine ⟨hvalid, st', hok, fun h => ?_⟩
  obtain ⟨want, child, hnew, hlookup, hmatch⟩ := h.children _ List.mem_cons_self
  obtain ⟨_, _, hrest⟩ := bind_eq_ok.mp hok
  obtain ⟨desired, hbuild, -⟩ := bind_eq_ok.mp hrest
  have hwant := (lookup_buildDesired (valid_of_validateAgentSet hvalid) hbuild).mpr
    ⟨_, List.mem_cons_self, hnew, rfl⟩
  -- the foreign child is not listed, and stays
  have hforeign : foreignStore.objects.lookup ((soloSet "a" "b-c").childAgentDeployName "b-c") = some foreignChild := by
    rw [show (soloSet "a" "b-c").childAgentDeployName "b-c" = foreignChild.metadata.name by decide +kernel]
    exact DeployStore.lookup_put _ _
  rw [syncChildren_lookup hok hbuild hwant hforeign, Option.some.injEq] at hlookup
  have howned : owned (soloSet "a" "b-c") foreignChild = true := by
    have := owned_of_matches hnew hmatch
    rwa [← hlookup, synced, show owned (soloSet "a" "b-c") foreignChild = false by decide +kernel] at this
  revert howned
  decide +kernel

/-- A child of the set `mesh`, from an older version of the set. -/
def formerChild (agent : String) : AgentDeploy where
  metadata :=
    { nspace := "default"
      name := "mesh-" ++ agent
      labels := AList.insert keyAgentSetName "mesh" ∅
      annotations := AList.insert keyHash "old" ∅ }
  spec := { agent := { name := agent }, agentSetName := "mesh" }

/-- The namespace of the set `mesh` after an edit: its agent `planner` has changed, `writer` is no longer in the set, and
there is the child of another set. -/
def editedStore : DeployStore := (foreignStore.put (formerChild "writer")).put (formerChild "planner")

theorem converged_editedStore : ∃ st',
    syncChildren imageSetReconciler {} (soloSet "mesh" "planner") editedStore = .ok st' ∧
      Converged imageSetReconciler (soloSet "mesh" "planner") st' := by
  obtain ⟨st', hok⟩ : ∃ st', syncChildren imageSetReconciler {} (soloSet "mesh" "planner") editedStore = .ok st' :=
    exists_eq_ok_of_isOk (by decide +kernel)
  refine ⟨st', hok, (converged_iff labelChecks imageSetReconciler {} (soloSet "mesh" "planner") editedStore st'
    (by decide +kernel) ⟨by simp, by simp⟩ hok).mpr ?_⟩
  intro a ha want child hnew hchild
  obtain rfl := List.mem_singleton.mp ha
  obtain rfl : formerChild "planner" = child :=
    Option.some.inj ((DeployStore.lookup_put _ (formerChild "planner")).symm.trans hchild)
  have hstale : (newAgentDeploy imageSetReconciler (soloSet "mesh" "planner") { name := "planner" }).toOption.all
      (needsUpdate (formerChild "planner")) = true := by decide +kernel
  rw [hnew] at hstale
  exact ⟨by decide +kernel, .inl hstale⟩

end KynoMesh.Agentset
