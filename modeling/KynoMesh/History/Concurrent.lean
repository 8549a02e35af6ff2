import KynoMesh.History.Log

/-!
# Concurrent callers of one store

A sampler worker records while the shutdown path flushes: `Sampler.Start` does not wait for its workers. The hash and the
buffer of a store have a lock each, and `Record` and `Flush` take them in separate sections. Here the sections of any
number of calls interleave freely.

* `Interleaved.step` : the next section of some call;
* `persisted_isolated` : in a run where a new hash comes alone and a snapshot still belongs to the hash that was read,
  the persisted hash is the one that every persisted sample was recorded under;
* `persisted_leak_at_shutdown` : a flush between the new hash and the reset persists the old samples under it.
-/

namespace KynoMesh.History

open KynoMesh.Lib KynoMesh.Api

variable {F : Type}

/-! ## Sections -/

/-- A call that is not finished, by its next section. -/
inductive Task (F : Type) where
  /-- A `Record` that brought a new hash and has to reset the buffer. -/
  | resetting (sample : Sample F) (specHash : Bytes)
  | adding (sample : Sample F) (specHash : Bytes)
  /-- A `Flush` that has read the hash. -/
  | snapshotting (h : Bytes)
  | writing (h : Bytes) (records : List (Record F))

/-- The hash of a `Record` under way. -/
def Task.recordHash : Task F → Option Bytes
  | .resetting _ h => some h
  | .adding _ h => some h
  | .snapshotting _ => none
  | .writing _ _ => none

def Task.isResetting : Task F → Bool
  | .resetting _ _ => true
  | _ => false

/-- The hash that a `Flush` before its snapshot has read. -/
def Task.snapshotHash : Task F → Option Bytes
  | .snapshotting h => some h
  | _ => none

/-- The store and its ConfigMap, the calls under way, and a trace of what `Record` was called with. -/
structure Interleaved (F : Type) where
  store : ConfigMapStore F
  server : Option ConfigMap := none
  tasks : List (Task F) := []
  recorded : List (Sample F × Bytes) := []

inductive Section (F : Type) where
  /-- A `Record` call and its first section. -/
  | record (sample : Sample F) (specHash : Bytes)
  /-- A `Flush` call and its first section. -/
  | flush
  /-- The next section of the call at position `i`; a write meets the API faults `calls`. -/
  | resume (i : Nat) (calls : UpsertCalls)
  | history (now : Int)
  /-- The process ends with its calls; a fresh store loads what is persisted. -/
  | restart (get : Option ApiError)

namespace Interleaved

section
variable (float64bits : F ≃ UInt64) (ad : AgentDeploy) (B : Bounds)

/-- The section that the task at position `i` is at. -/
def resume (σ : Interleaved F) (i : Nat) (calls : UpsertCalls) : Task F → Interleaved F
  | .resetting sample h => { σ with store := σ.store.resetBuf, tasks := σ.tasks.set i (.adding sample h) }
  | .adding sample _ => { σ with store := σ.store.addSample sample, tasks := σ.tasks.eraseIdx i }
  | .snapshotting h => { σ with tasks := σ.tasks.set i (.writing h σ.store.buf.snapshot) }
  | .writing h records =>
    match σ.store.upsert calls σ.server (encodeHistory float64bits h records) with
    | .ok server => { σ with server := server, tasks := σ.tasks.eraseIdx i }
    | .error _ => { σ with tasks := σ.tasks.eraseIdx i }

/-- Callers give times of the clock and hashes that fit their length field. -/
def step (σ : Interleaved F) : Section F → Option (Interleaved F)
  | .record sample h =>
    if Int64Time sample.timestamp ∧ h.length < 2 ^ 16 then
      let (changed, store) := σ.store.setHash h
      some { σ with
        store := store
        tasks := σ.tasks ++ [if changed then .resetting sample h else .adding sample h]
        recorded := σ.recorded ++ [(sample, h)] }
    else none
  | .flush => some { σ with tasks := σ.tasks ++ [.snapshotting σ.store.specHash] }
  | .resume i calls => σ.tasks[i]?.map (σ.resume float64bits i calls)
  | .history now => some { σ with store := (σ.store.history now).2 }
  | .restart get =>
    match (newConfigMapStore ad B).load float64bits get σ.server with
    | .ok store => some { σ with store := store, tasks := [] }
    | .error _ => none

/-- What a `Load` would take over was recorded under the hash that it would take over. -/
def PersistedIsolated (σ : Interleaved F) : Prop :=
  ∀ cm h records, σ.server = some cm → decodeHistory float64bits cm.history = .ok (h, records) →
    ∀ r ∈ records, (r.sample, h) ∈ σ.recorded

end

/-- A new hash comes alone, and is a hash; a snapshot still belongs to the hash that its flush read. -/
def Orderly (σ : Interleaved F) : Section F → Interleaved F → Prop
  | .record _ h, _ => h ≠ [] ∧ (h ≠ σ.store.specHash → ∀ t ∈ σ.tasks, t.recordHash = none)
  | .resume i _, _ => ∀ t ∈ σ.tasks[i]?, ∀ h ∈ t.snapshotHash, h = σ.store.specHash ∧ ∀ t ∈ σ.tasks, ¬t.isResetting
  | _, _ => True

instance (σ : Interleaved F) (e : Section F) (σ' : Interleaved F) : Decidable (Orderly σ e σ') :=
  match e with
  | .record _ _ => inferInstanceAs (Decidable (_ ∧ _))
  | .resume i _ => inferInstanceAs (Decidable (∀ t ∈ σ.tasks[i]?, _))
  | .flush => .isTrue trivial
  | .history _ => .isTrue trivial
  | .restart _ => .isTrue trivial

/-! ## The invariant -/

/-- Every sample was recorded under `h`. -/
def Under (recorded : List (Sample F × Bytes)) (h : Bytes) (records : List (Record F)) : Prop :=
  h.length < 2 ^ 16 ∧ ∀ r ∈ records, (r.sample, h) ∈ recorded

/-- A task in a store with hash `current`. -/
def TaskOk (recorded : List (Sample F × Bytes)) (current : Bytes) : Task F → Prop
  | .resetting sample h => h = current ∧ h ≠ [] ∧ (sample, h) ∈ recorded
  | .adding sample h => h = current ∧ h ≠ [] ∧ (sample, h) ∈ recorded
  | .snapshotting _ => True
  | .writing h records => Under recorded h records

structure Inv (float64bits : F ≃ UInt64) (σ : Interleaved F) : Prop where
  calls : ∀ p ∈ σ.recorded, Int64Time p.1.timestamp ∧ p.2 ≠ []
  hash_lt : σ.store.specHash.length < 2 ^ 16
  tasks : ∀ t ∈ σ.tasks, TaskOk σ.recorded σ.store.specHash t
  -- a reset under way leaves the samples of the previous hash in the buffer
  memory : (∀ t ∈ σ.tasks, ¬t.isResetting) → ∀ r ∈ σ.store.buf.records, (r.sample, σ.store.specHash) ∈ σ.recorded
  empty : σ.store.specHash = [] → σ.store.buf.records = []
  disk : σ.server = none ∨ ∃ h rs, Holds (encodeHistory float64bits h rs) σ.server ∧ Under σ.recorded h rs

theorem Under.mono {recorded recorded' : List (Sample F × Bytes)} {h : Bytes} {rs : List (Record F)}
    (hu : Under recorded h rs) (hsub : recorded ⊆ recorded') : Under recorded' h rs :=
  ⟨hu.1, fun r hr => hsub (hu.2 r hr)⟩

theorem split_tasks {tasks : List (Task F)} {i : Nat} {t : Task F} (h : tasks[i]? = some t) :
    ∃ before after, tasks = before ++ t :: after ∧ (∀ t', tasks.set i t' = before ++ t' :: after) ∧
      tasks.eraseIdx i = before ++ after := by
  obtain ⟨hi, ht⟩ := List.getElem?_eq_some_iff.mp h
  refine ⟨tasks.take i, tasks.drop (i + 1), ?_, fun t' => ?_, List.eraseIdx_eq_take_drop_succ _ _⟩
  · rw [← ht, ← List.drop_eq_getElem_cons hi, List.take_append_drop]
  · rw [List.set_eq_take_append_cons_drop, if_pos hi]

section
variable {float64bits : F ≃ UInt64} {ad : AgentDeploy} {B : Bounds} {σ σ' : Interleaved F}

theorem Inv.taskOk_mono (h : Inv float64bits σ) {recorded : List (Sample F × Bytes)} (hsub : σ.recorded ⊆ recorded) :
    ∀ t ∈ σ.tasks, TaskOk recorded σ.store.specHash t := by
  intro t ht
  have hok := h.tasks t ht
  cases t with
  | resetting sample hash => exact ⟨hok.1, hok.2.1, hsub hok.2.2⟩
  | adding sample hash => exact ⟨hok.1, hok.2.1, hsub hok.2.2⟩
  | snapshotting hash => trivial
  | writing hash records => exact Under.mono hok hsub

theorem taskOk_of_recordHash {recorded : List (Sample F × Bytes)} {c c' : Bytes} {t : Task F}
    (ht : t.recordHash = none) (h : TaskOk recorded c t) : TaskOk recorded c' t := by
  cases t with
  | resetting sample hash => cases ht
  | adding sample hash => cases ht
  | snapshotting hash => trivial
  | writing hash records => exact h

theorem inv_record (h : Inv float64bits σ) {sample : Sample F} {hash : Bytes} (htime : Int64Time sample.timestamp)
    (hlen : hash.length < 2 ^ 16) (hne : hash ≠ [])
    (halone : hash ≠ σ.store.specHash → ∀ t ∈ σ.tasks, t.recordHash = none) :
    Inv float64bits { σ with
      store := (σ.store.setHash hash).2
      tasks := σ.tasks ++ [if (σ.store.setHash hash).1 then .resetting sample hash else .adding sample hash]
      recorded := σ.recorded ++ [(sample, hash)] } := by
  have hsub : σ.recorded ⊆ σ.recorded ++ [(sample, hash)] := List.subset_append_left _ _
  have hnew : (sample, hash) ∈ σ.recorded ++ [(sample, hash)] := by simp
  constructor
  · intro p hp
    rcases List.mem_append.mp hp with hp | hp
    · exact h.calls p hp
    · rw [List.mem_singleton.mp hp]
      exact ⟨htime, hne⟩
  · exact hlen
  · simp only [List.mem_append, List.mem_singleton, or_imp, forall_and, forall_eq]
    constructor
    · intro t ht
      have hok := h.taskOk_mono hsub t ht
      by_cases hsame : hash = σ.store.specHash
      · rw [hsame] at hok ⊢
        exact hok
      · exact taskOk_of_recordHash (halone hsame t ht) hok
    · split_ifs
      · exact ⟨rfl, hne, hnew⟩
      · exact ⟨rfl, hne, hnew⟩
  · simp only [List.mem_append, List.mem_singleton, or_imp, forall_and, forall_eq]
    rintro ⟨hno, hlast⟩ r hr
    -- no reset is due: the hash is the old one, or there was none and the buffer is empty
    have hkept : ¬(σ.store.specHash ≠ [] ∧ σ.store.specHash ≠ hash) := by
      intro hc
      exact hlast (by rw [show (σ.store.setHash hash).1 = true from decide_eq_true hc]; rfl)
    by_cases hsame : σ.store.specHash = hash
    · have := h.memory hno r hr
      rw [hsame] at this
      exact .inl this
    · have hempty := h.empty (by_contra fun hne => hkept ⟨hne, hsame⟩)
      rw [show (σ.store.setHash hash).2.buf.records = [] from hempty] at hr
      cases hr
  · exact fun hempty => absurd hempty hne
  · rcases h.disk with hnone | ⟨h', rs, hholds, hu⟩
    · exact .inl hnone
    · exact .inr ⟨h', rs, hholds, hu.mono hsub⟩

theorem inv_resume (h : Inv float64bits σ) {i : Nat} {calls : UpsertCalls} {t : Task F} (ht : σ.tasks[i]? = some t)
    (hsnap : ∀ h ∈ t.snapshotHash, h = σ.store.specHash ∧ ∀ t ∈ σ.tasks, ¬t.isResetting) :
    Inv float64bits (σ.resume float64bits i calls t) := by
  obtain ⟨before, after, hsplit, hset, herase⟩ := split_tasks ht
  have htasks := h.tasks
  have hmem := h.memory
  simp only [hsplit, List.mem_append, List.mem_cons, or_imp, forall_and, forall_eq] at htasks hmem
  obtain ⟨hbefore, hok, hafter⟩ := htasks
  cases t with
  | resetting sample hash =>
    refine ⟨h.calls, h.hash_lt, ?_, ?_, fun _ => rfl, h.disk⟩
    · simp only [resume, hset, List.mem_append, List.mem_cons, or_imp, forall_and, forall_eq]
      exact ⟨hbefore, hok, hafter⟩
    · intro _ r hr
      cases hr
  | adding sample hash =>
    obtain ⟨rfl, hne, hrec⟩ := hok
    refine ⟨h.calls, h.hash_lt, ?_, ?_, fun hempty => absurd hempty hne, h.disk⟩
    · simp only [resume, herase, List.mem_append, or_imp, forall_and]
      exact ⟨hbefore, hafter⟩
    · simp only [resume, herase, List.mem_append, or_imp, forall_and]
      intro hno r hr
      rcases mem_records_add hr with hold | hnew
      · exact hmem ⟨hno.1, Bool.false_ne_true, hno.2⟩ r hold
      · rw [hnew]
        exact hrec
  | snapshotting hash =>
    obtain ⟨rfl, hno⟩ := hsnap hash rfl
    have hu : Under σ.recorded σ.store.specHash σ.store.buf.records := ⟨h.hash_lt, h.memory hno⟩
    refine ⟨h.calls, h.hash_lt, ?_, fun _ => h.memory hno, h.empty, h.disk⟩
    simp only [resume, hset, List.mem_append, List.mem_cons, or_imp, forall_and, forall_eq]
    exact ⟨hbefore, hu, hafter⟩
  | writing hash records =>
    have hstay : Inv float64bits { σ with tasks := σ.tasks.eraseIdx i } := by
      refine ⟨h.calls, h.hash_lt, ?_, ?_, h.empty, h.disk⟩
      · simp only [herase, List.mem_append, or_imp, forall_and]
        exact ⟨hbefore, hafter⟩
      · simp only [herase, List.mem_append, or_imp, forall_and]
        exact fun hno => hmem ⟨hno.1, Bool.false_ne_true, hno.2⟩
    simp only [resume]
    split
    · next server hwrite =>
      rcases upsert_ok hwrite with hholds | ⟨-, rfl⟩
      · exact { hstay with disk := .inr ⟨hash, records, hholds, hok⟩ }
      · exact hstay
    · exact hstay

/-- **What is persisted belongs to its hash.** -/
theorem Inv.under_of_decode (h : Inv float64bits σ) {cm : ConfigMap} {hash : Bytes} {records : List (Record F)}
    (hcm : σ.server = some cm) (hdecode : decodeHistory float64bits cm.history = .ok (hash, records)) :
    Under σ.recorded hash records := by
  rcases h.disk with hnone | ⟨hash', rs, hholds, hlen, hu⟩
  · cases hnone.symm.trans hcm
  · have htimes : ∀ r ∈ rs, Int64Time r.sample.timestamp := fun r hr => (h.calls _ (hu r hr)).1
    obtain ⟨rfl, rfl⟩ := Prod.mk.inj (hholds.eq_of_decode hlen htimes hcm hdecode)
    exact ⟨hlen, hu⟩

theorem inv_restart (h : Inv float64bits σ) {get : Option ApiError} {store : ConfigMapStore F}
    (hload : (newConfigMapStore ad B).load float64bits get σ.server = .ok store) :
    Inv float64bits { σ with store := store, tasks := [] } := by
  rcases load_ok hload with ⟨-, rfl⟩ | ⟨cm, hash, records, hcm, hdecode, rfl⟩
  · exact ⟨h.calls, Nat.two_pow_pos 16, by simp, by simp [newConfigMapStore], fun _ => rfl, h.disk⟩
  · obtain ⟨hlen, hu⟩ := h.under_of_decode hcm hdecode
    refine ⟨h.calls, hlen, by simp, fun _ => hu, fun hempty => ?_, h.disk⟩
    exact List.eq_nil_iff_forall_not_mem.mpr fun r hr => (h.calls _ (hu r hr)).2 hempty

/-- **One section.** -/
theorem inv_step {e : Section F} (h : Inv float64bits σ) (ho : Orderly σ e σ')
    (hs : step float64bits ad B σ e = some σ') : Inv float64bits σ' := by
  cases e with
  | record sample hash =>
    rw [step] at hs
    split_ifs at hs with hg
    obtain rfl := Option.some.inj hs
    exact inv_record h hg.1 hg.2 ho.1 ho.2
  | flush =>
    obtain rfl := Option.some.inj hs
    refine ⟨h.calls, h.hash_lt, ?_, ?_, h.empty, h.disk⟩
    · simp only [List.mem_append, List.mem_singleton, or_imp, forall_and, forall_eq]
      exact ⟨h.tasks, trivial⟩
    · simp only [List.mem_append, List.mem_singleton, or_imp, forall_and, forall_eq]
      exact fun hno => h.memory hno.1
  | resume i calls =>
    rw [step, Option.map_eq_some_iff] at hs
    obtain ⟨t, ht, rfl⟩ := hs
    exact inv_resume h ht (ho t ht)
  | history now =>
    obtain rfl := Option.some.inj hs
    refine ⟨h.calls, h.hash_lt, h.tasks, fun hno r hr => ?_, fun he => ?_, h.disk⟩
    · exact h.memory hno r (records_evictLocked_subset _ _ hr)
    · exact List.subset_nil.mp (h.empty he ▸ records_evictLocked_subset σ.store.buf now)
  | restart get =>
    rw [step] at hs
    split at hs
    · next store hload =>
      obtain rfl := Option.some.inj hs
      exact inv_restart h hload
    · cases hs

end

/-- A store that was just created, over a server without its ConfigMap. -/
def init (ad : AgentDeploy) (B : Bounds) : Interleaved F where
  store := newConfigMapStore ad B

theorem inv_init (float64bits : F ≃ UInt64) (ad : AgentDeploy) (B : Bounds) :
    Inv float64bits (init (F := F) ad B) where
  calls := by simp [init]
  hash_lt := Nat.two_pow_pos 16
  tasks := by simp [init]
  memory := by simp [init, newConfigMapStore]
  empty := fun _ => rfl
  disk := .inl rfl

/-- **Isolation of orderly runs.** In every run of interleaved sections in which each `Record` has a hash, a `Record`
with another hash than the store's starts while no other is under way, and each `Flush` takes its snapshot while the
store still has the hash it read and no reset is due, what is persisted was recorded under the persisted hash. -/
theorem persisted_isolated (float64bits : F ≃ UInt64) (ad : AgentDeploy) (B : Bounds) {es : List (Section F)}
    {σ : Interleaved F} (hr : run (step float64bits ad B) (init ad B) es = some σ)
    (ho : EachStep (step float64bits ad B) Orderly (init ad B) es) : PersistedIsolated float64bits σ := by
  have hkeep : ∀ (σ : Interleaved F) e σ', Inv float64bits σ → Orderly σ e σ' → step float64bits ad B σ e = some σ' →
      Inv float64bits σ' := fun _ _ _ h ho hs => inv_step h ho hs
  have hinv := run_invariant_of_eachStep hkeep (inv_init float64bits ad B) ho hr
  exact fun cm hash records hcm hdecode => (hinv.under_of_decode hcm hdecode).2

/-! ### A rollout at shutdown -/

/-- A sample under hash `1` is in the buffer when a worker brings one under hash `2`. The worker's reset is due when the
shutdown flush reads the hash, takes its snapshot and writes. -/
def rolloutAtShutdown : List (Section UInt64) :=
  [.record (reading 10) [1], .resume 0 {}, .record (reading 20) [2], .flush, .resume 1 {}, .resume 1 {}]

theorem persisted_leak_at_shutdown :
    ∃ σ, run (step (Equiv.refl UInt64) plannerDeploy {}) (init plannerDeploy {}) rolloutAtShutdown = some σ ∧
      ¬PersistedIsolated (Equiv.refl UInt64) σ := by
  refine ⟨_, rfl, fun h => ?_⟩
  have hleak := h _ [2] [{ sample := reading 10, count := 1 }] rfl (by decide +kernel) _ (List.mem_singleton_self _)
  revert hleak
  decide +kernel

/-- The same calls, with the worker's reset and append before the flush takes its snapshot. -/
def rolloutBeforeShutdown : List (Section UInt64) :=
  [.record (reading 10) [1], .resume 0 {}, .record (reading 20) [2], .resume 0 {}, .flush, .resume 0 {}, .resume 0 {},
    .resume 0 {}]

theorem persisted_isolated_before_shutdown :
    ∃ σ, run (step (Equiv.refl UInt64) plannerDeploy {}) (init plannerDeploy {}) rolloutBeforeShutdown = some σ ∧
      σ.server.isSome ∧ PersistedIsolated (Equiv.refl UInt64) σ := by
  have hr : run (step (Equiv.refl UInt64) plannerDeploy {}) (init plannerDeploy {}) rolloutBeforeShutdown = some _ := rfl
  exact ⟨_, hr, rfl, persisted_isolated _ _ _ hr (by decide +kernel)⟩

end Interleaved

end KynoMesh.History
