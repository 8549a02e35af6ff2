import KynoMesh.Lib.Loop
import KynoMesh.Pods.Replicas

/-!
# The children of an AgentSet

The AgentSet controller drives the AgentDeploys of its namespace toward one child per agent (`agentdeploys.go`):
`listOwnedAgentDeploys`, `buildDesired`, `applyDesiredState`.

* `DeployStore` : the AgentDeploys of a namespace, under their names;
* `lookup_listOwnedAgentDeploys` : the listed children are those with the label of the AgentSet;
* `syncChildren_lookup` : what a successful sync leaves under the name of an agent;
* `desiredReplicas_kept_iff` : when an existing child keeps its replica count.
-/

namespace KynoMesh.Agentset
open KynoMesh.Lib KynoMesh.Api KynoMesh.Pods

/-! ## The API server -/

/-- The AgentDeploys of a namespace. -/
structure DeployStore where
  objects : Dict String AgentDeploy
  named : ∀ {name ad}, objects.lookup name = some ad → ad.metadata.name = name

inductive ApiError where
  | notFound
  | alreadyExists
  | other (message : String)
  deriving DecidableEq

def ApiError.message : ApiError → String
  | .notFound => "not found"
  | .alreadyExists => "already exists"
  | .other m => m

/-- The defaulting of the CRD: an absent `spec.replicas` is stored as `1`. -/
def defaulted (spec : AgentDeploySpec) : AgentDeploySpec := { spec with replicas := some (spec.replicas.getD 1) }

namespace DeployStore

def empty : DeployStore := ⟨∅, by simp⟩

def put (st : DeployStore) (ad : AgentDeploy) : DeployStore where
  objects := st.objects.insert ad.metadata.name ad
  named := by
    intro name ad' h
    by_cases hn : name = ad.metadata.name
    · subst hn
      rw [AList.lookup_insert, Option.some.injEq] at h
      rw [h]
    · rw [AList.lookup_insert_ne hn] at h
      exact st.named h

/-- A create stores the defaulted object without a status. -/
def create (st : DeployStore) (ad : AgentDeploy) : Except ApiError DeployStore :=
  match st.objects.lookup ad.metadata.name with
  | some _ => .error .alreadyExists
  | none => .ok (st.put { ad with spec := defaulted ad.spec, status := {} })

/-- An update stores the defaulted object and keeps the status. -/
def update (st : DeployStore) (ad : AgentDeploy) : Except ApiError DeployStore :=
  match st.objects.lookup ad.metadata.name with
  | none => .error .notFound
  | some old => .ok (st.put { ad with spec := defaulted ad.spec, status := old.status })

def delete (st : DeployStore) (name : String) : Except ApiError DeployStore :=
  match st.objects.lookup name with
  | none => .error .notFound
  | some _ => .ok
    { objects := st.objects.erase name
      named := by
        intro k ad h
        by_cases hk : k = name
        · subst hk
          simp at h
        · rw [AList.lookup_erase_ne hk] at h
          exact st.named h }

end DeployStore

/-- The faults of the calls of one sync, and the orders of its two map loops. -/
structure SyncInput where
  listFault : Option String := none
  createFault : AgentDeploy → Option ApiError := fun _ => none
  updateFault : AgentDeploy → Option ApiError := fun _ => none
  deleteFault : AgentDeploy → Option ApiError := fun _ => none
  desiredOrder : RangeOrder (Σ _ : String, AgentDeploy) := RangeOrder.listed
  existingOrder : RangeOrder (Σ _ : String, AgentDeploy) := RangeOrder.listed

/-! ## Desired children -/

/-- The controller: the owner reference that its scheme renders, if it has one, and the hash of a spec. -/
structure SetReconciler where
  scheme : Option (AgentSet → Except String OwnerReference) := none
  mustHash : AgentDeploySpec → String

def controllerReference (r : SetReconciler) (as : AgentSet) : Except String OwnerReference :=
  match r.scheme with
  | some setControllerReference =>
    match setControllerReference as with
    | .error e => .error ("failed to set controller reference: " ++ e)
    | .ok ref => .ok ref
  | none => .ok (newControllerRef as.metadata "AgentSet")

def applyTemplate (agent : AbstractAgentDeploy) (tmpl : AgentDeployTemplate) : AbstractAgentDeploy :=
  let fill (own : Option ContainerTemplate) (other : Option ContainerTemplate) : Option ContainerTemplate :=
    match other with
    | none => own
    | some t => some ((own.getD {}).applyDefaultsFrom t)
  { agent with
    podTemplate := agent.podTemplate.applyDefaultsFrom tmpl.podTemplate
    initContainer := fill agent.initContainer tmpl.initContainer
    brokerContainer := fill agent.brokerContainer tmpl.brokerContainer }

def applyDriftReloadDefault (agent : AbstractAgentDeploy) (setDefault : Option DriftReload) : AbstractAgentDeploy :=
  match agent.driftReload, setDefault with
  | none, _ => { agent with driftReload := setDefault }
  | some own, some d =>
    if own.enabled = none then { agent with driftReload := some { own with enabled := d.enabled } } else agent
  | some _, none => agent

def newAgentDeploy (r : SetReconciler) (as : AgentSet) (agent : AbstractAgentDeploy) : Except String AgentDeploy := do
  let abstract :=
    match as.spec.agentDeployTemplate with
    | some tmpl => applyTemplate agent tmpl
    | none => agent
  let abstract := applyDriftReloadDefault abstract as.spec.driftReload
  let spec : AgentDeploySpec :=
    { agent := abstract, agentSetName := as.metadata.name, topology := computeTopology as agent.name }
  let ref ← controllerReference r as
  return {
    metadata :=
      { nspace := as.metadata.nspace
        name := as.childAgentDeployName agent.name
        labels := [(keyAgentSetName, as.metadata.name), (keyComponent, componentAgent), (keyPartOf, project),
          (keyManagedBy, controllerAgentSet), (keyAppName, agent.name)].foldl (fun d kv => d.insert kv.1 kv.2) ∅
        ownerReferences := [ref]
        annotations := AList.insert keyHash (r.mustHash spec) ∅ }
    spec := spec }

def buildDesired (r : SetReconciler) (as : AgentSet) : Except String (Dict String AgentDeploy) := do
  let children ← as.spec.agents.mapM (newAgentDeploy r as)
  return collect (fun ad => ad.metadata.name) children

/-! ## Sync -/

def labelsEqual (a b : Dict String String) : Bool :=
  a.entries.length == b.entries.length && a.entries.all fun kv => strAt b kv.1 == kv.2

def needsUpdate (existing desired : AgentDeploy) : Bool :=
  strAt existing.metadata.annotations keyHash != strAt desired.metadata.annotations keyHash ||
    existing.metadata.ownerReferences != desired.metadata.ownerReferences ||
    !labelsEqual existing.metadata.labels desired.metadata.labels

def listOwnedAgentDeploys (inp : SyncInput) (as : AgentSet) (st : DeployStore) :
    Except String (Dict String AgentDeploy) :=
  match inp.listFault with
  | some e => .error e
  | none =>
    let items := (st.objects.entries.map Sigma.snd).filter fun ad =>
      ad.metadata.labels.lookup keyAgentSetName = some as.metadata.name
    .ok (collect (fun ad => ad.metadata.name) items)

/-- The child with the labels, annotations, owners and spec of `want`. -/
def overwrite (got want : AgentDeploy) : AgentDeploy :=
  { got with
    metadata := { got.metadata with
      labels := want.metadata.labels
      annotations := want.metadata.annotations
      ownerReferences := want.metadata.ownerReferences }
    spec := want.spec }

/-- A call that meets `fault` instead of its own result. -/
def attempt (fault : Option ApiError) (res : Except ApiError DeployStore) : Except ApiError DeployStore :=
  match fault with
  | some e => .error e
  | none => res

/-- The error of a call, unless it is the one that the controller tolerates: then the store is as before. -/
def tolerate (ignored : Option ApiError) (what : String) (st : DeployStore) (res : Except ApiError DeployStore) :
    Except String DeployStore :=
  match res with
  | .ok st' => .ok st'
  | .error e => if ignored = some e then .ok st else .error (what ++ ": " ++ e.message)

/-- One turn of the loop over the desired children. -/
def applyWant (inp : SyncInput) (existing : Dict String AgentDeploy) (st : DeployStore)
    (entry : Σ _ : String, AgentDeploy) : Except String DeployStore :=
  match existing.lookup entry.1 with
  | none =>
    tolerate (some .alreadyExists) ("failed to create AgentDeploy " ++ entry.1) st
      (attempt (inp.createFault entry.2) (st.create entry.2))
  | some got =>
    if needsUpdate got entry.2 then
      tolerate none ("failed to update AgentDeploy " ++ entry.1) st
        (attempt (inp.updateFault (overwrite got entry.2)) (st.update (overwrite got entry.2)))
    else .ok st

/-- One turn of the loop over the existing children. -/
def deleteOrphan (inp : SyncInput) (desired : Dict String AgentDeploy) (st : DeployStore)
    (entry : Σ _ : String, AgentDeploy) : Except String DeployStore :=
  if entry.1 ∈ desired then .ok st
  else
    tolerate (some .notFound) ("failed to delete orphan AgentDeploy " ++ entry.1) st
      (attempt (inp.deleteFault entry.2) (st.delete entry.2.metadata.name))

def applyDesiredState (inp : SyncInput) (existing desired : Dict String AgentDeploy) (st : DeployStore) :
    Except String DeployStore := do
  let st ← (inp.desiredOrder.visit desired.entries).foldlM (applyWant inp existing) st
  (inp.existingOrder.visit existing.entries).foldlM (deleteOrphan inp desired) st

/-- The part of `reconcile` that syncs the children. -/
def syncChildren (r : SetReconciler) (inp : SyncInput) (as : AgentSet) (st : DeployStore) :
    Except String DeployStore := do
  let existing ← listOwnedAgentDeploys inp as st
  let desired ← buildDesired r as
  applyDesiredState inp existing desired st

/-! ## Frames -/

@[simp] theorem DeployStore.lookup_put (st : DeployStore) (ad : AgentDeploy) :
    (st.put ad).objects.lookup ad.metadata.name = some ad := AList.lookup_insert _

theorem DeployStore.lookup_put_ne (st : DeployStore) {ad : AgentDeploy} {name : String}
    (h : name ≠ ad.metadata.name) : (st.put ad).objects.lookup name = st.objects.lookup name :=
  AList.lookup_insert_ne h

theorem tolerate_eq_ok {ignored : Option ApiError} {what : String} {st st' : DeployStore} {fault : Option ApiError}
    {res : Except ApiError DeployStore} (h : tolerate ignored what st (attempt fault res) = .ok st') :
    res = .ok st' ∨ (st' = st ∧ ∃ e, ignored = some e ∧ (fault = some e ∨ res = .error e)) := by
  unfold tolerate attempt at h
  cases hf : fault with
  | some e =>
    simp only [hf] at h
    split_ifs at h with hi
    cases h
    exact .inr ⟨rfl, e, hi, .inl rfl⟩
  | none =>
    simp only [hf] at h
    cases res with
    | ok s => exact .inl (by simpa using h)
    | error e =>
      simp only at h
      split_ifs at h with hi
      cases h
      exact .inr ⟨rfl, e, hi, .inr rfl⟩

theorem DeployStore.create_of_some {st : DeployStore} {ad old : AgentDeploy}
    (h : st.objects.lookup ad.metadata.name = some old) : st.create ad = .error .alreadyExists := by
  simp [create, h]

theorem DeployStore.update_of_some {st : DeployStore} {ad old : AgentDeploy}
    (h : st.objects.lookup ad.metadata.name = some old) :
    st.update ad = .ok (st.put { ad with spec := defaulted ad.spec, status := old.status }) := by
  simp [update, h]

theorem DeployStore.create_frame {st st' : DeployStore} {ad : AgentDeploy} {name : String}
    (h : st.create ad = .ok st') (hn : name ≠ ad.metadata.name) :
    st'.objects.lookup name = st.objects.lookup name := by
  unfold create at h
  cases hl : st.objects.lookup ad.metadata.name with
  | some _ => simp [hl] at h
  | none =>
    simp only [hl, Except.ok.injEq] at h
    rw [← h]
    exact st.lookup_put_ne hn

theorem DeployStore.update_frame {st st' : DeployStore} {ad : AgentDeploy} {name : String}
    (h : st.update ad = .ok st') (hn : name ≠ ad.metadata.name) :
    st'.objects.lookup name = st.objects.lookup name := by
  unfold update at h
  cases hl : st.objects.lookup ad.metadata.name with
  | none => simp [hl] at h
  | some _ =>
    simp only [hl, Except.ok.injEq] at h
    rw [← h]
    exact st.lookup_put_ne hn

theorem DeployStore.delete_frame {st st' : DeployStore} {name other : String} (h : st.delete other = .ok st')
    (hn : name ≠ other) : st'.objects.lookup name = st.objects.lookup name := by
  unfold delete at h
  cases hl : st.objects.lookup other with
  | none => simp [hl] at h
  | some _ =>
    simp only [hl, Except.ok.injEq] at h
    rw [← h]
    exact AList.lookup_erase_ne hn

/-! ## The two maps -/

/-- The AgentDeploy has the label of the AgentSet. -/
def owned (as : AgentSet) (ad : AgentDeploy) : Bool :=
  decide (ad.metadata.labels.lookup keyAgentSetName = some as.metadata.name)

theorem lookup_listOwnedAgentDeploys {inp : SyncInput} {as : AgentSet} {st : DeployStore}
    {existing : Dict String AgentDeploy} (h : listOwnedAgentDeploys inp as st = .ok existing) {name : String}
    {ad : AgentDeploy} :
    existing.lookup name = some ad ↔ st.objects.lookup name = some ad ∧ owned as ad = true := by
  unfold listOwnedAgentDeploys at h
  cases hf : inp.listFault with
  | some e => simp [hf] at h
  | none =>
    simp only [hf, Except.ok.injEq] at h
    have hmem : ∀ {ad : AgentDeploy}, ad ∈ st.objects.entries.map Sigma.snd ↔
        st.objects.lookup ad.metadata.name = some ad := by
      intro ad
      rw [List.mem_map]
      constructor
      · rintro ⟨⟨k, a⟩, he, rfl⟩
        have hl := mem_entries_iff.mp he
        rwa [st.named hl]
      · exact fun hl => ⟨⟨_, ad⟩, mem_entries_iff.mpr hl, rfl⟩
    rw [← h, lookup_collect_eq_some]
    · rw [List.mem_filter, hmem]
      constructor
      · rintro ⟨⟨hl, ho⟩, rfl⟩
        exact ⟨hl, ho⟩
      · rintro ⟨hl, ho⟩
        have hn := st.named hl
        exact ⟨⟨by rwa [hn], ho⟩, hn⟩
    · intro a ha b hb hab
      have hla := hmem.mp (List.mem_filter.mp ha).1
      have hlb := hmem.mp (List.mem_filter.mp hb).1
      rw [hab, hlb, Option.some.injEq] at hla
      exact hla.symm

theorem buildDesired_named {r : SetReconciler} {as : AgentSet} {desired : Dict String AgentDeploy}
    (h : buildDesired r as = .ok desired) {name : String} {want : AgentDeploy}
    (hw : desired.lookup name = some want) : want.metadata.name = name := by
  obtain ⟨children, -, hd⟩ := bind_eq_ok.mp h
  rw [pure_eq_ok] at hd
  rw [← hd, lookup_collect] at hw
  simpa using List.find?_some hw

/-! ## The effect of a sync on one child -/

/-- What the update of a child stores. -/
def stored (child want : AgentDeploy) : AgentDeploy := { overwrite child want with spec := defaulted want.spec }

/-- The child after a sync that wants `want` in its place. -/
def synced (as : AgentSet) (child want : AgentDeploy) : AgentDeploy :=
  if owned as child && needsUpdate child want then stored child want else child

section Sync
variable {inp : SyncInput} {as : AgentSet} {st₀ st st' : DeployStore} {existing desired : Dict String AgentDeploy}
  {name : String} {child want : AgentDeploy}

theorem applyWant_other (hex : ∀ {k ad}, existing.lookup k = some ad → ad.metadata.name = k)
    {entry : Σ _ : String, AgentDeploy} (hentry : entry.2.metadata.name = entry.1) (hne : name ≠ entry.1)
    (h : applyWant inp existing st entry = .ok st') : st'.objects.lookup name = st.objects.lookup name := by
  unfold applyWant at h
  cases hl : existing.lookup entry.1 with
  | none =>
    simp only [hl] at h
    rcases tolerate_eq_ok h with hc | ⟨rfl, -⟩
    · exact DeployStore.create_frame hc (by rwa [hentry])
    · rfl
  | some got =>
    simp only [hl] at h
    split_ifs at h with hu
    · rcases tolerate_eq_ok h with hc | ⟨rfl, -⟩
      · refine DeployStore.update_frame hc ?_
        change name ≠ got.metadata.name
        rwa [hex hl]
      · rfl
    · cases h
      rfl

theorem applyWant_self (hlist : listOwnedAgentDeploys inp as st₀ = .ok existing)
    (hchild : st₀.objects.lookup name = some child) (hst : st.objects.lookup name = some child)
    (hwant : want.metadata.name = name) (h : applyWant inp existing st ⟨name, want⟩ = .ok st') :
    st'.objects.lookup name = some (synced as child want) := by
  unfold applyWant at h
  unfold synced
  cases ho : owned as child with
  | false =>
    have hl : existing.lookup name = none := by
      rw [Option.eq_none_iff_forall_ne_some]
      intro ad had
      obtain ⟨hl, ho'⟩ := (lookup_listOwnedAgentDeploys hlist).mp had
      rw [hchild, Option.some.injEq] at hl
      simp [← hl, ho] at ho'
    simp only [hl] at h
    rcases tolerate_eq_ok h with hc | ⟨rfl, -⟩
    · subst hwant
      simp [DeployStore.create_of_some hst] at hc
    · simpa using hst
  | true =>
    have hl := (lookup_listOwnedAgentDeploys hlist).mpr ⟨hchild, ho⟩
    simp only [hl] at h
    cases hu : needsUpdate child want with
    | false =>
      simp only [hu, Bool.false_eq_true, if_false, Except.ok.injEq] at h
      subst h
      simpa using hst
    | true =>
      simp only [hu, if_true] at h
      rcases tolerate_eq_ok h with hc | ⟨-, e, he, -⟩
      · have hn : child.metadata.name = name := st.named hst
        subst hn
        have hold : st.objects.lookup (overwrite child want).metadata.name = some child := hst
        rw [DeployStore.update_of_some hold, Except.ok.injEq] at hc
        subst hc
        exact DeployStore.lookup_put _ (stored child want)
      · simp at he

theorem deleteOrphan_other {entry : Σ _ : String, AgentDeploy} (hentry : entry.2.metadata.name = entry.1)
    (hne : name ≠ entry.1) (h : deleteOrphan inp desired st entry = .ok st') :
    st'.objects.lookup name = st.objects.lookup name := by
  unfold deleteOrphan at h
  split_ifs at h with hin
  · cases h
    rfl
  · rcases tolerate_eq_ok h with hc | ⟨rfl, -⟩
    · exact DeployStore.delete_frame hc (by rwa [hentry])
    · rfl

theorem deleteOrphan_desired {entry : Σ _ : String, AgentDeploy} (hin : entry.1 ∈ desired)
    (h : deleteOrphan inp desired st entry = .ok st') : st' = st := by
  rw [deleteOrphan, if_pos hin, Except.ok.injEq] at h
  exact h.symm

theorem name_of_listOwnedAgentDeploys {existing : Dict String AgentDeploy}
    (hlist : listOwnedAgentDeploys inp as st = .ok existing) {name : String} {ad : AgentDeploy}
    (h : existing.lookup name = some ad) : ad.metadata.name = name :=
  st.named ((lookup_listOwnedAgentDeploys hlist).mp h).1

theorem syncChildren_stages {r : SetReconciler} (hok : syncChildren r inp as st = .ok st')
    (hbuild : buildDesired r as = .ok desired) :
    ∃ existing st₁, listOwnedAgentDeploys inp as st = .ok existing ∧
      (inp.desiredOrder.visit desired.entries).foldlM (applyWant inp existing) st = .ok st₁ ∧
      (inp.existingOrder.visit existing.entries).foldlM (deleteOrphan inp desired) st₁ = .ok st' := by
  unfold syncChildren at hok
  obtain ⟨existing, hlist, hok⟩ := bind_eq_ok.mp hok
  obtain ⟨desired', hbuild', hok⟩ := bind_eq_ok.mp hok
  rw [hbuild, Except.ok.injEq] at hbuild'
  subst hbuild'
  obtain ⟨st₁, hloop₁, hloop₂⟩ := bind_eq_ok.mp hok
  exact ⟨existing, st₁, hlist, hloop₁, hloop₂⟩

theorem syncChildren_lookup {r : SetReconciler} (hok : syncChildren r inp as st = .ok st')
    (hbuild : buildDesired r as = .ok desired) (hwant : desired.lookup name = some want)
    (hchild : st.objects.lookup name = some child) :
    st'.objects.lookup name = some (synced as child want) := by
  obtain ⟨existing, st₁, hlist, hloop₁, hloop₂⟩ := syncChildren_stages hok hbuild
  have hex : ∀ {k ad}, existing.lookup k = some ad → ad.metadata.name = k := name_of_listOwnedAgentDeploys hlist
  -- the turn of `name` comes once; before it the child is untouched, after it it is synced
  have h₁ := (foldlM_keyed (k := Sigma.fst) (g := fun s name => s.objects.lookup name)
    (R := fun e old new => ∀ child, st.objects.lookup e.1 = some child → old = some child →
      new = some (synced as child e.2)) (nodup_visit inp.desiredOrder desired)
    (fun e he s s' hstep =>
      have hname := buildDesired_named hbuild (mem_visit_iff.mp he)
      ⟨fun child h₀ hold => applyWant_self hlist h₀ hold hname hstep,
        fun k hk => applyWant_other hex hname hk hstep⟩) hloop₁).1
    ⟨name, want⟩ (mem_visit_iff.mpr hwant) child hchild hchild
  have hname : name ∈ desired := AList.lookup_isSome.mp (by simp [hwant])
  have h₂ := foldlM_ok_invariant (I := fun _ (s : DeployStore) => s.objects.lookup name = st₁.objects.lookup name)
    rfl ?_ hloop₂
  · rw [h₂, h₁]
  · intro done e rest b b' hl hb hstep
    have he : existing.lookup e.1 = some e.2 := mem_visit_iff.mp (hl ▸ List.mem_append_right done List.mem_cons_self)
    by_cases hne : name = e.1
    · rw [deleteOrphan_desired (hne ▸ hname) hstep, hb]
    · rw [deleteOrphan_other (hex he) hne hstep, hb]

end Sync

/-! ## Replica counts -/

theorem desiredReplicas_stored {child want : AgentDeploy} (hscale : want.spec.agent.scale = child.spec.agent.scale)
    (hnil : want.spec.replicas = none) :
    desiredReplicas (stored child want) = desiredOf child.spec.agent.scale (some 1) := by
  simp [desiredReplicas, stored, defaulted, hscale, hnil]

theorem buildDesired_replicas {r : SetReconciler} {as : AgentSet} {desired : Dict String AgentDeploy}
    (h : buildDesired r as = .ok desired) {name : String} {want : AgentDeploy}
    (hw : desired.lookup name = some want) : want.spec.replicas = none := by
  obtain ⟨children, hc, hd⟩ := bind_eq_ok.mp h
  rw [pure_eq_ok] at hd
  rw [← hd, lookup_collect] at hw
  obtain ⟨agent, -, hnew⟩ := exists_of_mem_mapM hc (List.mem_reverse.mp (List.mem_of_find?_eq_some hw))
  obtain ⟨ref, -, hnew⟩ := bind_eq_ok.mp hnew
  rw [pure_eq_ok] at hnew
  rw [← hnew]

/-- **The replica count of an existing child.** After a successful sync that leaves the scale block of the child as it
is, the child keeps its replica count exactly when it is not listed, needs no update, or its count is the one that the
default of `spec.replicas` renders. -/
theorem desiredReplicas_kept_iff (r : SetReconciler) (inp : SyncInput) (as : AgentSet) (st st' : DeployStore)
    (hok : syncChildren r inp as st = .ok st') (desired : Dict String AgentDeploy)
    (hbuild : buildDesired r as = .ok desired) (name : String) (child want : AgentDeploy)
    (hchild : st.objects.lookup name = some child) (hwant : desired.lookup name = some want)
    (hscale : want.spec.agent.scale = child.spec.agent.scale) :
    (∃ after, st'.objects.lookup name = some after ∧ desiredReplicas after = desiredReplicas child) ↔
      (owned as child = false ∨ needsUpdate child want = false ∨
        desiredReplicas child = desiredOf child.spec.agent.scale (some 1)) := by
  have hstored := desiredReplicas_stored hscale (buildDesired_replicas hbuild hwant)
  simp only [syncChildren_lookup hok hbuild hwant hchild, Option.some.injEq, exists_eq_left']
  unfold synced
  cases ho : owned as child with
  | false => simp
  | true =>
    cases hu : needsUpdate child want with
    | false => simp
    | true => simp [hstored, eq_comm]

/-- A controller whose specs differ in the agent's image alone. -/
def imageSetReconciler : SetReconciler where
  mustHash := fun spec => (spec.agent.container.map fun c => c.image).getD ""

/-- An agent whose replicas an external scaler owns. -/
def planner (image : String) : AbstractAgentDeploy where
  name := "planner"
  container := some { image := image }
  scale := { disabled := true }

def plannerSet (image : String) : AgentSet where
  metadata := { nspace := "default", name := "mesh" }
  spec := { pattern := .sequential, entry := "planner", agents := [planner image] }

/-- The child that the controller wants for `planner`. -/
def plannerChild (image : String) : AgentDeploy where
  metadata :=
    { nspace := "default"
      name := "mesh-planner"
      labels := [(keyAgentSetName, "mesh"), (keyComponent, componentAgent), (keyPartOf, project),
        (keyManagedBy, controllerAgentSet), (keyAppName, "planner")].foldl (fun d kv => d.insert kv.1 kv.2) ∅
      ownerReferences := [newControllerRef (plannerSet image).metadata "AgentSet"]
      annotations := AList.insert keyHash image ∅ }
  spec :=
    { agent := planner image, agentSetName := "mesh"
      topology := { pattern := .sequential, isEntry := true, peers := [] } }

/-- The child of image `a`, scaled to five. -/
def scaledPlanner : AgentDeploy :=
  { plannerChild "a" with spec := { (plannerChild "a").spec with replicas := some 5 } }

def scaledStore : DeployStore := DeployStore.empty.put scaledPlanner

theorem buildDesired_plannerSet (image : String) : buildDesired imageSetReconciler (plannerSet image) =
    .ok (AList.insert "mesh-planner" (plannerChild image) ∅) := by
  rfl

theorem exists_syncChildren (image : String) (h : image ∈ ["a", "b"]) :
    ∃ st', syncChildren imageSetReconciler {} (plannerSet image) scaledStore = .ok st' := by
  have hok : ∀ image ∈ ["a", "b"],
      (syncChildren imageSetReconciler {} (plannerSet image) scaledStore).isOk = true := by decide +kernel
  exact exists_eq_ok_of_isOk (hok image h)

/-- A sync after no edit keeps the five replicas. -/
theorem desiredReplicas_kept_scaledPlanner :
    ∃ st', syncChildren imageSetReconciler {} (plannerSet "a") scaledStore = .ok st' ∧
      ∃ after, st'.objects.lookup "mesh-planner" = some after ∧
        desiredReplicas after = desiredReplicas scaledPlanner := by
  obtain ⟨st', hs⟩ := exists_syncChildren "a" (by decide)
  exact ⟨st', hs, (desiredReplicas_kept_iff imageSetReconciler {} (plannerSet "a") scaledStore st' hs _
    (buildDesired_plannerSet "a") "mesh-planner" scaledPlanner (plannerChild "a") rfl rfl rfl).mpr
    (by decide +kernel)⟩

/-- A new image for `planner` resets the five replicas to one. -/
theorem desiredReplicas_reset_by_image_edit :
    ∃ st', syncChildren imageSetReconciler {} (plannerSet "b") scaledStore = .ok st' ∧
      scaledStore.objects.lookup "mesh-planner" = some scaledPlanner ∧
      (planner "b").scale = scaledPlanner.spec.agent.scale ∧
      ¬∃ after, st'.objects.lookup "mesh-planner" = some after ∧
        desiredReplicas after = desiredReplicas scaledPlanner := by
  obtain ⟨st', hs⟩ := exists_syncChildren "b" (by decide)
  have hafter : st'.objects.lookup "mesh-planner" = some (synced (plannerSet "b") scaledPlanner (plannerChild "b")) :=
    syncChildren_lookup hs (buildDesired_plannerSet "b") rfl rfl
  refine ⟨st', hs, rfl, rfl, ?_⟩
  rintro ⟨after, hl, hd⟩
  rw [hafter, Option.some.injEq] at hl
  subst hl
  revert hd
  decide +kernel

end KynoMesh.Agentset
