import Mathlib.Data.Finset.Insert
import Mathlib.Data.Finset.Erase
import KynoMesh.History.Registry
import KynoMesh.Sampling.Collector

/-!
# What the sampler keeps of a deleted AgentDeploy

`sampleKey` and `Forget` of `sampler.go`, with the steps that other goroutines can come between: the worker's `Get`,
the locked section of `StoreFor`, its `Load`, the record and the flush, and the two maps that `forgetAll` drops a key
from.

* `SharedRegistry` : the registry as the workers share it, a map to addresses of stores;
* `Sampler.step` : the executions of `sampleKey` under way, the controller, the autoscaler and the API server;
* `Phase` : how far the controller is with a key; `.forgotten` is deleted, then forgotten, and not created since;
* `Sampler.moved_step`, `Sampler.call_step` : what a step can do to a key, and to the registry;
* `Sampler.run_storeFor` : a `StoreFor` that is not interrupted is that of `Registry`;
* `Sampler.timely_iff` : a key has no entry after any step while it is forgotten, exactly when no execution reaches
  `StoreFor` for it then;
* `Sampler.nothing_left` : in such runs, the forgotten key is in neither the registry nor the WorkSet.
-/

namespace KynoMesh.Sampling

open KynoMesh.Lib KynoMesh.Api KynoMesh.Rater KynoMesh.History

variable {F : Type}

/-! ## The shared registry -/

/-- The registry's map, and the stores at their addresses. A worker keeps the address of a store that the map has
dropped. -/
structure SharedRegistry (F : Type) where
  opts : Bounds
  stores : Dict NamespacedName Nat := ∅
  heap : List (ConfigMapStore F) := []

namespace SharedRegistry

/-- The locked section of `StoreFor`: the address, and whether the store is new. -/
def publish (r : SharedRegistry F) (ad : AgentDeploy) : SharedRegistry F × Nat × Bool :=
  match r.stores.lookup (key ad) with
  | some a => (r, a, false)
  | none => ({ r with
      stores := r.stores.insert (key ad) r.heap.length
      heap := r.heap ++ [newConfigMapStore ad r.opts] }, r.heap.length, true)

def forget (r : SharedRegistry F) (k : NamespacedName) : SharedRegistry F := { r with stores := r.stores.erase k }

/-- A call on the store at `a`. -/
def update (r : SharedRegistry F) (a : Nat) (f : ConfigMapStore F → ConfigMapStore F) : SharedRegistry F :=
  { r with heap := r.heap.modify a f }

/-- The store of a key. -/
def view (r : SharedRegistry F) (k : NamespacedName) : Option (ConfigMapStore F) :=
  (r.stores.lookup k).bind fun a => r.heap[a]?

theorem lookup_publish (r : SharedRegistry F) (ad : AgentDeploy) (k : NamespacedName) :
    (r.publish ad).1.stores.lookup k =
      if k = key ad then some (r.publish ad).2.1 else r.stores.lookup k := by
  unfold publish
  split
  · next a ha =>
    split_ifs with hk
    · rw [hk, ha]
    · rfl
  · split_ifs with hk
    · rw [hk, AList.lookup_insert]
    · rw [AList.lookup_insert_ne hk]

theorem lookup_forget (r : SharedRegistry F) (k k' : NamespacedName) :
    (r.forget k).stores.lookup k' = if k' = k then none else r.stores.lookup k' := by
  unfold forget
  split_ifs with hk
  · rw [hk, AList.lookup_erase]
  · rw [AList.lookup_erase_ne hk]

/-- Every entry of the map has its store. -/
def Allocated (r : SharedRegistry F) : Prop := ∀ k a, r.stores.lookup k = some a → a < r.heap.length

theorem Allocated.publish {r : SharedRegistry F} (h : r.Allocated) (ad : AgentDeploy) : (r.publish ad).1.Allocated := by
  intro k a hk
  rw [lookup_publish] at hk
  cases hold : r.stores.lookup (key ad) with
  | some b =>
    simp only [SharedRegistry.publish, hold] at hk ⊢
    split_ifs at hk with heq
    · exact h (key ad) a (hold.trans hk)
    · exact h k a hk
  | none =>
    simp only [SharedRegistry.publish, hold, List.length_append, List.length_singleton] at hk ⊢
    split_ifs at hk with heq
    · obtain rfl := Option.some.inj hk
      exact Nat.lt_succ_self _
    · exact Nat.lt_succ_of_lt (h k a hk)

theorem Allocated.forget {r : SharedRegistry F} (h : r.Allocated) (k : NamespacedName) : (r.forget k).Allocated := by
  intro k' a hk
  rw [lookup_forget] at hk
  split_ifs at hk
  exact h k' a hk

theorem Allocated.update {r : SharedRegistry F} (h : r.Allocated) (a : Nat) (f : ConfigMapStore F → ConfigMapStore F) :
    (r.update a f).Allocated := by
  intro k b hk
  rw [SharedRegistry.update, List.length_modify]
  exact h k b hk

/-- What a call of a worker or the controller does to the registry; `P` holds of the AgentDeploy that it publishes a
store for. -/
inductive Call (r : SharedRegistry F) (P : AgentDeploy → Prop) : SharedRegistry F → Prop where
  | keep : Call r P r
  | update (a : Nat) (f : ConfigMapStore F → ConfigMapStore F) : Call r P (r.update a f)
  | forget (k : NamespacedName) : Call r P (r.forget k)
  | publish (ad : AgentDeploy) (h : P ad) : Call r P (r.publish ad).1

variable {r r' : SharedRegistry F} {P : AgentDeploy → Prop}

theorem Call.mono (h : Call r P r') {Q : AgentDeploy → Prop} (hPQ : ∀ ad, P ad → Q ad) : Call r Q r' := by
  cases h with
  | keep => exact .keep
  | update a f => exact .update a f
  | forget k => exact .forget k
  | publish ad had => exact .publish ad (hPQ ad had)

theorem Call.allocated (h : Call r P r') (halloc : r.Allocated) : r'.Allocated := by
  cases h with
  | keep => exact halloc
  | update a f => exact halloc.update a f
  | forget k => exact halloc.forget k
  | publish ad _ => exact halloc.publish ad

/-- Only a publication adds an entry. -/
theorem Call.lookup (h : Call r P r') {k : NamespacedName} (hother : ∀ ad, P ad → key ad ≠ k)
    (hk : r.stores.lookup k = none) : r'.stores.lookup k = none := by
  cases h with
  | keep => exact hk
  | update a f => exact hk
  | forget k' => rw [lookup_forget, hk, ite_self]
  | publish ad had => rw [lookup_publish, if_neg (hother ad had).symm, hk]

/-- The store after its `Load`; one that could not be loaded is used as it is. -/
def hydrate (float64bits : F ≃ UInt64) (fault : Option ApiError) (configMap : Option ConfigMap) (s : ConfigMapStore F) :
    ConfigMapStore F := (s.load float64bits fault configMap).toOption.getD s

/-- Both sections of `StoreFor`, with nothing in between. -/
def storeFor (float64bits : F ≃ UInt64) (r : SharedRegistry F) (fault : Option ApiError) (configMap : Option ConfigMap)
    (ad : AgentDeploy) : SharedRegistry F :=
  let (r, a, new) := r.publish ad
  if new then r.update a (hydrate float64bits fault configMap) else r

/-- A `StoreFor` that is not interrupted is `Registry.storeFor`. -/
theorem view_storeFor {float64bits : F ≃ UInt64} {r : SharedRegistry F} {reg : Registry F} (h : r.Allocated)
    (hopts : reg.opts = r.opts) (hview : ∀ k, reg.get k = r.view k) (fault : Option ApiError)
    (configMap : Option ConfigMap) (ad : AgentDeploy) (k : NamespacedName) :
    (reg.storeFor float64bits fault configMap ad).1.get k = (r.storeFor float64bits fault configMap ad).view k := by
  cases hk : r.stores.lookup (key ad) with
  | some a =>
    obtain ⟨s, hs⟩ : ∃ s, r.heap[a]? = some s := ⟨_, List.getElem?_eq_getElem (h _ _ hk)⟩
    have hget : reg.get (key ad) = some s := by
      rw [hview, view, hk]
      exact hs
    rw [Registry.storeFor_of_get hget, hview, storeFor, SharedRegistry.publish, hk]
    rfl
  | none =>
    have hget : reg.get (key ad) = none := by
      rw [hview, view, hk]
      rfl
    have hseq : (reg.storeFor float64bits fault configMap ad).1 =
        reg.put (key ad) (hydrate float64bits fault configMap (newConfigMapStore ad reg.opts)) := by
      rw [Registry.get] at hget
      rw [Registry.storeFor, hget, hydrate]
      dsimp only
      cases (newConfigMapStore ad reg.opts : ConfigMapStore F).load float64bits fault configMap <;> rfl
    rw [hseq, hopts, storeFor, SharedRegistry.publish, hk, Registry.put, Registry.get]
    simp only [if_true, view, SharedRegistry.update]
    by_cases heq : k = key ad
    · subst heq
      simp [AList.lookup_insert]
    · rw [AList.lookup_insert_ne heq, AList.lookup_insert_ne heq]
      refine (hview k).trans ?_
      rw [view]
      cases hka : r.stores.lookup k with
      | none => rfl
      | some b =>
        -- the new store has another address
        have hb := h k b hka
        simp [List.getElem?_modify, List.getElem?_append_left hb, Nat.ne_of_gt hb]

end SharedRegistry

/-! ## Executions of `sampleKey` -/

/-- Where an execution of `sampleKey` is. -/
inductive Execution where
  /-- Before the `Get`. -/
  | get (k : NamespacedName)
  /-- The AgentDeploy is read; the daemon is dialled, then `StoreFor` called. -/
  | store (ad : AgentDeploy)
  /-- The store is new, and its `Load` still to come. -/
  | load (ad : AgentDeploy) (a : Nat)
  | collect (ad : AgentDeploy) (a : Nat)
  | flush (ad : AgentDeploy) (a : Nat)
  /-- The AgentDeploy was not found: `forgetAll`, from its first and from its second map on. -/
  | unwatch (k : NamespacedName)
  | unregister (k : NamespacedName)

/-- The AgentDeploy that the execution calls `StoreFor` for next. -/
def Execution.storing : Execution → Option AgentDeploy
  | .store ad => some ad
  | _ => none

/-- How far the controller is with a key. -/
inductive Phase where
  /-- Reconciles may track the key. -/
  | live
  /-- Within `Forget`; `deleted` if the AgentDeploy was gone when it began, and was not created since. -/
  | forgetting (deleted : Bool)
  | forgotten
  deriving DecidableEq

/-- The phase after an AgentDeploy of this key is created. -/
def Phase.reopen : Phase → Phase
  | .live => .live
  | .forgetting _ => .forgetting false
  | .forgotten => .live

/-- The phase after a `Forget` has dropped the key from both maps. -/
def Phase.closed (deleted : Bool) : Phase := if deleted then .forgotten else .live

structure Sampler (F : Type) where
  /-- The AgentDeploys that the client reads. -/
  cluster : Dict NamespacedName AgentDeploy := ∅
  watch : Finset NamespacedName := ∅
  registry : SharedRegistry F
  executions : List Execution := []
  phase : NamespacedName → Phase := fun _ => .live

/-- What an execution meets on its way. -/
structure Encounter (F : Type) where
  fault : Option ApiError := none
  dialed : Bool := true
  configMap : Option ConfigMap := none
  answer : Except Status (AgentDeployMetrics F)
  now : Int := 0
  lookback : Int := 0
  calls : UpsertCalls := {}

inductive Sampler.Event (F : Type) where
  | create (ad : AgentDeploy)
  /-- The deletion timestamp is set. -/
  | terminate (k : NamespacedName) (time : Int)
  | delete (k : NamespacedName)
  /-- A reconcile tracks the key. -/
  | track (k : NamespacedName)
  /-- A reconcile of an AgentDeploy that is gone, or terminating, begins to forget it. -/
  | forget (k : NamespacedName)
  /-- The rest of that `Forget`. -/
  | drop (k : NamespacedName)
  /-- `Autoscaler.Forget`, which drops the key from the same registry. -/
  | autoscalerForget (k : NamespacedName)
  /-- A worker begins `sampleKey`. The key comes from an earlier snapshot of the WorkSet. -/
  | dispatch (k : NamespacedName)
  /-- The next section of the execution `i`. -/
  | resume (i : Nat) (x : Encounter F)

namespace Sampler

/-- The tag of the samples. -/
def specHash (ad : AgentDeploy) : Bytes := ad.status.updateHash.toUTF8.data.toList

def goneOrTerminating (σ : Sampler F) (k : NamespacedName) : Bool :=
  match σ.cluster.lookup k with
  | none => true
  | some ad => decide (ad.metadata.deletionTimestamp ≠ zeroTime)

section
variable [Div F] [IntCast F] (float64bits : F ≃ UInt64) (flushInterval : Int)

/-- The section that the execution at position `i` is at. -/
def resume (σ : Sampler F) (i : Nat) (x : Encounter F) : Execution → Sampler F
  | .get k =>
    match x.fault, σ.cluster.lookup k with
    | none, some ad => { σ with executions := σ.executions.set i (.store ad) }
    | none, none | some .notFound, _ => { σ with executions := σ.executions.set i (.unwatch k) }
    | some _, _ => { σ with executions := σ.executions.eraseIdx i }
  | .store ad =>
    if x.dialed then
      let (registry, a, new) := σ.registry.publish ad
      { σ with
        registry := registry
        executions := σ.executions.set i (if new then .load ad a else .collect ad a) }
    else { σ with executions := σ.executions.eraseIdx i }
  | .load ad a =>
    { σ with
      registry := σ.registry.update a (SharedRegistry.hydrate float64bits x.fault x.configMap)
      executions := σ.executions.set i (.collect ad a) }
  | .collect ad a =>
    match collectSample x.answer ad x.now x.lookback with
    | .ok (some sample) =>
      { σ with
        registry := σ.registry.update a fun s => s.record sample (specHash ad)
        executions := σ.executions.set i (.flush ad a) }
    | _ => { σ with executions := σ.executions.eraseIdx i }
  | .flush _ a =>
    { σ with
      registry := σ.registry.update a fun s =>
        ((s.flushIfDue float64bits x.calls x.configMap x.now flushInterval).toOption.map Prod.fst).getD s
      executions := σ.executions.eraseIdx i }
  | .unwatch k =>
    { σ with
      watch := σ.watch.erase k
      executions := σ.executions.set i (.unregister k) }
  | .unregister k =>
    { σ with
      registry := σ.registry.forget k
      executions := σ.executions.eraseIdx i }

/-- Reconciles of one key come one after another: none tracks a key while another forgets it. The last one of a deleted
AgentDeploy forgets it. -/
def step (σ : Sampler F) : Event F → Option (Sampler F)
  | .create ad =>
    if key ad ∈ σ.cluster then none
    else some { σ with
      cluster := σ.cluster.insert (key ad) ad
      phase := Function.update σ.phase (key ad) (σ.phase (key ad)).reopen }
  | .terminate k time =>
    (σ.cluster.lookup k).map fun ad => { σ with
      cluster := σ.cluster.insert k { ad with metadata := { ad.metadata with deletionTimestamp := time } } }
  | .delete k => some { σ with cluster := σ.cluster.erase k }
  | .track k => if σ.phase k = .live then some { σ with watch := insert k σ.watch } else none
  | .forget k =>
    if σ.goneOrTerminating k ∧ (σ.phase k = .live ∨ σ.phase k = .forgotten) then some { σ with
      watch := σ.watch.erase k
      phase := Function.update σ.phase k (.forgetting (decide (k ∉ σ.cluster))) }
    else none
  | .drop k =>
    match σ.phase k with
    | .forgetting deleted => some { σ with
        registry := σ.registry.forget k
        phase := Function.update σ.phase k (.closed deleted) }
    | _ => none
  | .autoscalerForget k => some { σ with registry := σ.registry.forget k }
  | .dispatch k => some { σ with executions := σ.executions ++ [.get k] }
  | .resume i x => σ.executions[i]?.map (σ.resume float64bits flushInterval i x)

end

/-! ## What a step can do -/

/-- What a section of an execution does. -/
structure Section (σ σ' : Sampler F) (t : Execution) (x : Encounter F) : Prop where
  phase : σ'.phase = σ.phase
  watch : σ'.watch ⊆ σ.watch
  registry : SharedRegistry.Call σ.registry (fun ad => t = .store ad ∧ x.dialed = true) σ'.registry

theorem section_quiet (σ : Sampler F) (t : Execution) (x : Encounter F) (executions : List Execution) :
    Section σ { σ with executions := executions } t x :=
  ⟨rfl, Finset.Subset.refl _, .keep⟩

theorem section_update (σ : Sampler F) (t : Execution) (x : Encounter F) (executions : List Execution) (a : Nat)
    (f : ConfigMapStore F → ConfigMapStore F) :
    Section σ { σ with registry := σ.registry.update a f, executions := executions } t x :=
  ⟨rfl, Finset.Subset.refl _, .update a f⟩

/-- What a step does to the phase of a key, and to the maps that `Forget` drops it from. -/
inductive Moved (σ σ' : Sampler F) (k : NamespacedName) : Prop where
  | keep (phase : σ'.phase k = σ.phase k) (watch : k ∈ σ'.watch → k ∈ σ.watch ∨ σ.phase k = .live)
  | reopen (phase : σ'.phase k = (σ.phase k).reopen) (watch : σ'.watch = σ.watch)
  | forget (deleted : Bool) (phase : σ'.phase k = .forgetting deleted) (watch : k ∉ σ'.watch)
  | close (deleted : Bool) (before : σ.phase k = .forgetting deleted) (watch : σ'.watch = σ.watch)
    (entry : σ'.registry.stores.lookup k = none)

section
variable [Div F] [IntCast F] {float64bits : F ≃ UInt64} {flushInterval : Int} {σ σ' : Sampler F} {e : Event F}

theorem section_resume (i : Nat) (x : Encounter F) (t : Execution) :
    Section σ (σ.resume float64bits flushInterval i x t) t x := by
  cases t with
  | get k =>
    rw [resume]
    split <;> exact section_quiet _ _ _ _
  | store ad =>
    rw [resume]
    split_ifs with hdial
    · exact ⟨rfl, Finset.Subset.refl _, .publish ad ⟨rfl, hdial⟩⟩
    · exact section_quiet _ _ _ _
  | load ad a => exact section_update _ _ _ _ _ _
  | collect ad a =>
    rw [resume]
    split
    · exact section_update _ _ _ _ _ _
    · exact section_quiet _ _ _ _
  | flush ad a => exact section_update _ _ _ _ _ _
  | unwatch k => exact ⟨rfl, Finset.erase_subset k _, .keep⟩
  | unregister k => exact ⟨rfl, Finset.Subset.refl _, .forget k⟩

theorem moved_step (hs : step float64bits flushInterval σ e = some σ') (k : NamespacedName) : Moved σ σ' k := by
  cases e with
  | create ad =>
    simp only [step, Option.ite_none_left_eq_some, Option.some.injEq] at hs
    obtain ⟨-, rfl⟩ := hs
    by_cases heq : k = key ad
    · subst heq
      exact .reopen (Function.update_self ..) rfl
    · exact .keep (Function.update_of_ne heq ..) .inl
  | terminate k' time =>
    obtain ⟨ad, -, rfl⟩ := Option.map_eq_some_iff.mp hs
    exact .keep rfl .inl
  | delete k' =>
    cases hs
    exact .keep rfl .inl
  | track k' =>
    simp only [step, Option.ite_none_right_eq_some, Option.some.injEq] at hs
    obtain ⟨hlive, rfl⟩ := hs
    refine .keep rfl fun hmem => ?_
    rcases Finset.mem_insert.mp hmem with rfl | hmem
    · exact .inr hlive
    · exact .inl hmem
  | forget k' =>
    simp only [step, Option.ite_none_right_eq_some, Option.some.injEq] at hs
    obtain ⟨-, rfl⟩ := hs
    by_cases heq : k = k'
    · subst heq
      exact .forget _ (Function.update_self ..) (Finset.notMem_erase k _)
    · exact .keep (Function.update_of_ne heq ..) fun hmem => .inl (Finset.mem_of_mem_erase hmem)
  | drop k' =>
    rw [step] at hs
    split at hs
    · next deleted hphase =>
      cases hs
      by_cases heq : k = k'
      · subst heq
        exact .close deleted hphase rfl ((SharedRegistry.lookup_forget _ _ _).trans (if_pos rfl))
      · exact .keep (Function.update_of_ne heq ..) .inl
    · cases hs
  | autoscalerForget k' =>
    cases hs
    exact .keep rfl .inl
  | dispatch k' =>
    cases hs
    exact .keep rfl .inl
  | resume i x =>
    obtain ⟨t, -, rfl⟩ := Option.map_eq_some_iff.mp hs
    have hsec : Section σ (σ.resume float64bits flushInterval i x t) t x := section_resume i x t
    exact .keep (congrFun hsec.phase k) fun hmem => .inl (hsec.watch hmem)

theorem call_step (hs : step float64bits flushInterval σ e = some σ') :
    SharedRegistry.Call σ.registry
      (fun ad => ∃ i x, e = .resume i x ∧ σ.executions[i]? = some (.store ad) ∧ x.dialed = true) σ'.registry := by
  cases e with
  | create ad =>
    simp only [step, Option.ite_none_left_eq_some, Option.some.injEq] at hs
    exact hs.2 ▸ .keep
  | terminate k time =>
    obtain ⟨ad, -, rfl⟩ := Option.map_eq_some_iff.mp hs
    exact .keep
  | delete k =>
    cases hs
    exact .keep
  | track k =>
    simp only [step, Option.ite_none_right_eq_some, Option.some.injEq] at hs
    exact hs.2 ▸ .keep
  | forget k =>
    simp only [step, Option.ite_none_right_eq_some, Option.some.injEq] at hs
    exact hs.2 ▸ .keep
  | drop k =>
    rw [step] at hs
    split at hs
    · cases hs
      exact .forget k
    · cases hs
  | autoscalerForget k =>
    cases hs
    exact .forget k
  | dispatch k =>
    cases hs
    exact .keep
  | resume i x =>
    obtain ⟨t, hi, rfl⟩ := Option.map_eq_some_iff.mp hs
    refine (section_resume i x t).registry.mono fun ad had => ⟨i, x, rfl, ?_, had.2⟩
    rw [hi, had.1]

theorem lookup_resume_store {i : Nat} {x : Encounter F} {ad : AgentDeploy} (hdial : x.dialed = true) :
    ((σ.resume float64bits flushInterval i x (.store ad)).registry.stores.lookup (key ad)).isSome := by
  rw [resume, if_pos hdial]
  refine (congrArg Option.isSome (SharedRegistry.lookup_publish _ _ _)).trans ?_
  rw [if_pos rfl, Option.isSome_some]

end

/-! ## Forgotten keys -/

/-- A key that a reconcile forgets, or has forgotten, is not in the WorkSet. -/
def Unwatched (σ : Sampler F) : Prop := ∀ k, σ.phase k ≠ .live → k ∉ σ.watch

/-- If `k` is forgotten, it has no entry in the registry. -/
def NoEntry (k : NamespacedName) (σ : Sampler F) : Prop :=
  σ.phase k = .forgotten → σ.registry.stores.lookup k = none

/-- An execution that reaches `StoreFor` for `k` does so while `k` is not forgotten. -/
def Timely (k : NamespacedName) (σ : Sampler F) : Event F → Sampler F → Prop
  | .resume i x, _ =>
    ∀ t ∈ σ.executions[i]?, ∀ ad ∈ t.storing, x.dialed = true → key ad = k → σ.phase k ≠ .forgotten
  | _, _ => True

instance (k : NamespacedName) (σ : Sampler F) (e : Event F) (σ' : Sampler F) : Decidable (Timely k σ e σ') :=
  match e with
  | .resume i _ => inferInstanceAs (Decidable (∀ t ∈ σ.executions[i]?, _))
  | .create _ | .terminate _ _ | .delete _ | .track _ | .forget _ | .drop _ | .autoscalerForget _ | .dispatch _ =>
    .isTrue trivial

/-- The sampler of a process that has just started. -/
def fresh (opts : Bounds) (cluster : Dict NamespacedName AgentDeploy) : Sampler F where
  cluster := cluster
  registry := { opts := opts }

theorem noEntry_fresh (k : NamespacedName) (opts : Bounds) (cluster : Dict NamespacedName AgentDeploy) :
    NoEntry k (fresh opts cluster : Sampler F) := by
  intro hk
  cases hk

section
variable [Div F] [IntCast F] {float64bits : F ≃ UInt64} {flushInterval : Int} {σ σ' : Sampler F} {e : Event F}
  {k : NamespacedName}

theorem unwatched_step (h : Unwatched σ) (hs : step float64bits flushInterval σ e = some σ') : Unwatched σ' := by
  intro k hk
  cases moved_step hs k with
  | keep hphase hwatch =>
    rw [hphase] at hk
    exact fun hmem => (hwatch hmem).elim (h k hk) hk
  | reopen hphase hwatch =>
    rw [hwatch]
    refine h k fun hlive => hk ?_
    rw [hphase, hlive, Phase.reopen]
  | forget deleted _ hwatch => exact hwatch
  | close deleted hbefore hwatch =>
    rw [hwatch]
    refine h k ?_
    rw [hbefore]
    nofun

theorem noEntry_step (h : NoEntry k σ) (ht : Timely k σ e σ') (hs : step float64bits flushInterval σ e = some σ') :
    NoEntry k σ' := by
  intro hk
  cases moved_step hs k with
  | keep hphase _ =>
    rw [hphase] at hk
    refine (call_step hs).lookup ?_ (h hk)
    rintro ad ⟨i, x, rfl, hi, hdial⟩ hkey
    exact ht _ hi ad rfl hdial hkey hk
  | reopen hphase _ =>
    rw [hphase] at hk
    cases hbefore : σ.phase k <;> simp [hbefore, Phase.reopen] at hk
  | forget deleted hphase _ =>
    rw [hphase] at hk
    cases hk
  | close deleted _ _ hentry => exact hentry

/-- A late `StoreFor` leaves an entry. -/
theorem timely_of_noEntry (hs : step float64bits flushInterval σ e = some σ') (h : NoEntry k σ') : Timely k σ e σ' := by
  cases e with
  | resume i x =>
    rintro t hi ad hstore hdial rfl hphase
    obtain ⟨t', hi', rfl⟩ := Option.map_eq_some_iff.mp hs
    obtain rfl := Option.some.inj (hi.symm.trans hi')
    obtain rfl : t = .store ad := by cases t <;> cases hstore; rfl
    have hsome : ((σ.resume float64bits flushInterval i x (.store ad)).registry.stores.lookup (key ad)).isSome :=
      lookup_resume_store hdial
    rw [h (by rw [(section_resume i x _).phase]; exact hphase)] at hsome
    cases hsome
  | _ => trivial

theorem allocated_run {opts : Bounds} {cluster : Dict NamespacedName AgentDeploy} {es : List (Event F)}
    (hr : run (step float64bits flushInterval) (fresh opts cluster) es = some σ) : σ.registry.Allocated := by
  refine run_invariant (I := fun σ : Sampler F => σ.registry.Allocated) ?_ ?_ hr
  · intro σ e σ' h hs
    exact (call_step hs).allocated h
  · intro k a hk
    cases hk

/-- An execution whose `StoreFor` is not interrupted leaves the registry that `Registry.storeFor` leaves. -/
theorem run_storeFor {opts : Bounds} {cluster : Dict NamespacedName AgentDeploy} {es : List (Event F)}
    (hr : run (step float64bits flushInterval) (fresh opts cluster) es = some σ) {reg : Registry F}
    (hopts : reg.opts = σ.registry.opts) (hview : ∀ k, reg.get k = σ.registry.view k) {i : Nat} {x : Encounter F}
    {ad : AgentDeploy} (hi : σ.executions[i]? = some (.store ad)) (hdial : x.dialed = true) :
    ∃ alone σ', run (step float64bits flushInterval) σ alone = some σ' ∧
      ∀ k, (reg.storeFor float64bits x.fault x.configMap ad).1.get k = σ'.registry.view k := by
  have hseq : ∀ k, (reg.storeFor float64bits x.fault x.configMap ad).1.get k =
      (σ.registry.storeFor float64bits x.fault x.configMap ad).view k :=
    SharedRegistry.view_storeFor (allocated_run hr) hopts hview x.fault x.configMap ad
  obtain ⟨⟨r, a, new⟩, hpub⟩ : ∃ p, σ.registry.publish ad = p := ⟨_, rfl⟩
  have hstore : step float64bits flushInterval σ (.resume i x) = some { σ with
      registry := r
      executions := σ.executions.set i (if new then .load ad a else .collect ad a) } := by
    rw [step, hi, Option.map_some, resume, if_pos hdial, hpub]
  simp only [SharedRegistry.storeFor, hpub] at hseq
  cases new with
  | false => exact ⟨[.resume i x], _, run_cons.mpr ⟨_, hstore, rfl⟩, hseq⟩
  | true =>
    -- the `Load` of the new store follows at once
    have hnext : (σ.executions.set i (.load ad a))[i]? = some (.load ad a) :=
      List.getElem?_set_self (List.getElem?_eq_some_iff.mp hi).1
    refine ⟨[.resume i x, .resume i x], { σ with
        registry := r.update a (SharedRegistry.hydrate float64bits x.fault x.configMap)
        executions := (σ.executions.set i (.load ad a)).set i (.collect ad a) }, ?_, hseq⟩
    refine run_cons.mpr ⟨_, hstore, run_cons.mpr ⟨_, ?_, rfl⟩⟩
    rw [step]
    exact congrArg (Option.map _) hnext

theorem timely_iff (k : NamespacedName) (opts : Bounds) (cluster : Dict NamespacedName AgentDeploy)
    (es : List (Event F)) :
    EachStep (step float64bits flushInterval) (Timely k) (fresh opts cluster) es ↔
      EachStep (step float64bits flushInterval) (fun _ _ σ' => NoEntry k σ') (fresh opts cluster) es := by
  refine eachStep_iff (I := NoEntry k) ?_ ?_ (noEntry_fresh k opts cluster)
  · intro σ e σ' h hs
    exact ⟨fun ht => noEntry_step h ht hs, timely_of_noEntry hs⟩
  · intro σ e σ' h hs ht
    exact noEntry_step h ht hs

/-- **A deleted AgentDeploy leaves nothing behind.** -/
theorem nothing_left (opts : Bounds) (cluster : Dict NamespacedName AgentDeploy) {es : List (Event F)}
    (hr : run (step float64bits flushInterval) (fresh opts cluster) es = some σ)
    (hgone : σ.phase k = .forgotten) :
    k ∉ σ.watch ∧
      (EachStep (step float64bits flushInterval) (Timely k) (fresh opts cluster) es →
        σ.registry.stores.lookup k = none) := by
  constructor
  · have hwatch : Unwatched σ := by
      refine run_invariant ?_ ?_ hr
      · intro σ e σ' h hs
        exact unwatched_step h hs
      · intro k hk
        exact absurd rfl hk
    refine hwatch k ?_
    rw [hgone]
    nofun
  · intro ht
    have hentry : NoEntry k σ := by
      refine run_invariant_of_eachStep ?_ (noEntry_fresh k opts cluster) ht hr
      intro σ e σ' h hc hs
      exact noEntry_step h hc hs
    exact hentry hgone

end

/-! ### A late `StoreFor` -/

/-- Floating-point numbers as their bits. -/
def float64AsBits : BitVec 64 ≃ UInt64 := ⟨UInt64.ofBitVec, UInt64.toBitVec, fun _ => rfl, fun _ => rfl⟩

/-- The daemon is dialled, but does not answer. -/
def unavailable : Encounter (BitVec 64) where
  answer := .error { code := .unavailable, message := "" }

/-- A worker reads the AgentDeploy; it is deleted and forgotten; the worker goes on to its end. -/
def lateStoreFor : List (Event (BitVec 64)) :=
  [.create plannerDeploy, .track (key plannerDeploy), .dispatch (key plannerDeploy), .resume 0 unavailable,
    .delete (key plannerDeploy), .forget (key plannerDeploy), .drop (key plannerDeploy),
    .resume 0 unavailable, .resume 0 unavailable, .resume 0 unavailable]

theorem late_storeFor_leaks :
    ∃ σ, run (step float64AsBits (300 * second)) (fresh {} ∅) lateStoreFor = some σ ∧
      σ.phase (key plannerDeploy) = .forgotten ∧ σ.executions.length = 0 ∧
      σ.registry.stores.lookup (key plannerDeploy) = some 0 := by
  refine ⟨_, (Option.some_get (by decide +kernel)).symm, ?_, ?_, ?_⟩ <;> decide +kernel

/-- The same steps, with the deletion after the worker's end. -/
def orderlyDeletion : List (Event (BitVec 64)) :=
  [.create plannerDeploy, .track (key plannerDeploy), .dispatch (key plannerDeploy), .resume 0 unavailable,
    .resume 0 unavailable, .resume 0 unavailable, .resume 0 unavailable,
    .delete (key plannerDeploy), .forget (key plannerDeploy), .drop (key plannerDeploy)]

theorem nothing_left_orderly :
    ∃ σ, run (step float64AsBits (300 * second)) (fresh {} ∅) orderlyDeletion = some σ ∧
      key plannerDeploy ∉ σ.watch ∧ σ.registry.stores.lookup (key plannerDeploy) = none := by
  have hr : (run (step float64AsBits (300 * second)) (fresh {} ∅) orderlyDeletion).isSome := by decide +kernel
  have hleft := nothing_left {} ∅ (Option.some_get hr).symm (k := key plannerDeploy) (by decide +kernel +revert)
  exact ⟨_, (Option.some_get hr).symm, hleft.1, hleft.2 (by decide +kernel)⟩

end Sampler

end KynoMesh.Sampling
