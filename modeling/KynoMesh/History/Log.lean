import KynoMesh.History.Store
import KynoMesh.Lib.Transition

/-!
# The store as a log

What the history store is for: a `Log` that forgets nothing until the pod-spec hash changes, and that a restart sets
back to what was last flushed. The store trims lazily, on appends and on queries, and persists what it holds through the
codec.

* `step` : records, queries, successful flushes and restarts of the store, on a clock that does not go back;
* `Refines` : the simulation relation, kept by every step (`refines_step`);
* `history_refines` : the store answers as the log says, and a flushed blob respects the count bound.
-/

namespace KynoMesh.History

open KynoMesh.Lib KynoMesh.Api

variable {F : Type}

/-! ## Runs of a store -/

/-- The store, the API server, and the latest time that a sample or query carried. -/
structure System (F : Type) where
  store : ConfigMapStore F
  server : Option ConfigMap := none
  clock : Int

/-- One operation of a sequential run. A restart is a crash and the `Load` of a fresh store. -/
inductive Op (F : Type) where
  | record (sample : Sample F) (specHash : Bytes)
  | history (now : Int)
  | flush (calls : UpsertCalls)
  | restart (get : Option ApiError)

/-- A pod-spec hash as the callers give it: not empty, and short enough for its length field. -/
def ValidHash (h : Bytes) : Prop := h ≠ [] ∧ h.length < 2 ^ 16

instance (h : Bytes) : Decidable (ValidHash h) := inferInstanceAs (Decidable (_ ∧ _))

section
variable (float64bits : F ≃ UInt64) (ad : AgentDeploy) (B : Bounds)

/-- An operation that succeeds, at a time not before the clock. -/
def step (σ : System F) : Op F → Option (System F)
  | .record sample specHash =>
    if σ.clock ≤ sample.timestamp ∧ Int64Time sample.timestamp ∧ ValidHash specHash then
      some { σ with store := σ.store.record sample specHash, clock := sample.timestamp }
    else none
  | .history now =>
    if σ.clock ≤ now then some { σ with store := (σ.store.history now).2, clock := now } else none
  | .flush calls =>
    if calls.first.Honest ∧ calls.again.Honest then
      match σ.store.flush float64bits calls σ.server with
      | .ok server => some { σ with server := server }
      | .error _ => none
    else none
  | .restart get =>
    if get ≠ some .notFound then
      match (newConfigMapStore ad B).load float64bits get σ.server with
      | .ok store => some { σ with store := store }
      | .error _ => none
    else none

end

/-! ## The log -/

/-- Everything recorded since the last change of hash, that hash, and what of both was last flushed. -/
structure Log (F : Type) where
  samples : List (Sample F) := []
  hash : Bytes := []
  saved : Option (List (Sample F) × Bytes) := none

def Log.step (log : Log F) : Op F → Log F
  | .record sample specHash =>
    let kept := if log.hash ≠ [] ∧ log.hash ≠ specHash then [] else log.samples
    { log with samples := kept ++ [sample], hash := specHash }
  | .history _ => log
  | .flush _ => { log with saved := some (log.samples, log.hash) }
  | .restart _ =>
    match log.saved with
    | none => { log with samples := [], hash := [] }
    | some (samples, hash) => { log with samples := samples, hash := hash }

/-! ## The simulation -/

/-- Records under hash `h` that stand for a log: what they retain of it, and that all of it survives the codec. -/
structure Stands (B : Bounds) (clock : Int) (h : Bytes) (rs : List (Record F)) (log : List (Sample F)) : Prop where
  retains : Retains { toBounds := B, records := rs } clock log
  int64 : ∀ s ∈ log, Int64Time s.timestamp
  hash_lt : h.length < 2 ^ 16

/-- The persisted history stands for the saved one. -/
def Persisted (float64bits : F ≃ UInt64) (B : Bounds) (clock : Int) (server : Option ConfigMap) :
    Option (List (Sample F) × Bytes) → Prop
  | none => server = none
  | some (samples, h) => ∃ rs, Holds (encodeHistory float64bits h rs) server ∧ Stands B clock h rs samples

structure Refines (float64bits : F ≃ UInt64) (B : Bounds) (σ : System F) (log : Log F) : Prop where
  bounds : σ.store.buf.toBounds = B
  hash : σ.store.specHash = log.hash
  memory : Stands B σ.clock log.hash σ.store.buf.records log.samples
  disk : Persisted float64bits B σ.clock σ.server log.saved

theorem stands_nil (B : Bounds) (clock : Int) : Stands (F := F) B clock [] [] [] where
  retains := retains_reset { toBounds := B } clock
  int64 := by simp
  hash_lt := by decide

theorem Stands.mono {B : Bounds} {clock clock' : Int} {h : Bytes} {rs : List (Record F)} {log : List (Sample F)}
    (hs : Stands B clock h rs log) (hle : clock ≤ clock') : Stands B clock' h rs log :=
  { hs with retains := hs.retains.mono hle }

theorem Stands.int64_records {B : Bounds} {clock : Int} {h : Bytes} {rs : List (Record F)} {log : List (Sample F)}
    (hs : Stands B clock h rs log) : ∀ r ∈ rs, Int64Time r.sample.timestamp := by
  intro r hr
  exact hs.int64 _ (hs.retains.suffix.subset (List.mem_map_of_mem hr))

theorem Persisted.mono {float64bits : F ≃ UInt64} {B : Bounds} {clock clock' : Int} {server : Option ConfigMap}
    {saved : Option (List (Sample F) × Bytes)} (h : Persisted float64bits B clock server saved)
    (hle : clock ≤ clock') : Persisted float64bits B clock' server saved := by
  rcases saved with _ | ⟨samples, hash⟩
  · exact h
  · obtain ⟨rs, hholds, hs⟩ := h
    exact ⟨rs, hholds, hs.mono hle⟩

section
variable {float64bits : F ≃ UInt64} {ad : AgentDeploy} {B : Bounds} {σ σ' : System F} {log : Log F}

theorem Refines.retains (h : Refines float64bits B σ log) : Retains σ.store.buf σ.clock log.samples := by
  have hbuf : ({ toBounds := B, records := σ.store.buf.records } : Buffer F) = σ.store.buf := by rw [← h.bounds]
  rw [← hbuf]
  exact h.memory.retains

theorem stands_of_retains {b : Buffer F} {clock : Int} {h : Bytes} {samples : List (Sample F)}
    (hbounds : b.toBounds = B) (hb : Retains b clock samples) (htimes : ∀ s ∈ samples, Int64Time s.timestamp)
    (hh : h.length < 2 ^ 16) : Stands B clock h b.records samples where
  retains := by rw [← hbounds]; exact hb
  int64 := htimes
  hash_lt := hh

theorem refines_record (h : Refines float64bits B σ log) {sample : Sample F} {specHash : Bytes}
    (hclock : σ.clock ≤ sample.timestamp) (htime : Int64Time sample.timestamp) (hhash : ValidHash specHash) :
    Refines float64bits B { σ with store := σ.store.record sample specHash, clock := sample.timestamp }
      (log.step (.record sample specHash)) := by
  rw [record_eq, h.hash]
  have hadd {b : Buffer F} {kept : List (Sample F)} (hb : b.toBounds = B) (hr : Retains b σ.clock kept)
      (ht : ∀ s ∈ kept, Int64Time s.timestamp) :
      Stands B sample.timestamp specHash (b.add sample).records (kept ++ [sample]) := by
    refine stands_of_retains hb (hr.add hclock) ?_ hhash.2
    simpa [or_imp, forall_and] using And.intro ht htime
  simp only [Log.step]
  split_ifs
  · exact ⟨h.bounds, rfl, hadd h.bounds (retains_reset _ _) (by simp), h.disk.mono hclock⟩
  · exact ⟨h.bounds, rfl, hadd h.bounds h.retains h.memory.int64, h.disk.mono hclock⟩

theorem refines_history (h : Refines float64bits B σ log) {now : Int} (hclock : σ.clock ≤ now) :
    Refines float64bits B { σ with store := (σ.store.history now).2, clock := now } log where
  bounds := h.bounds
  hash := h.hash
  memory := stands_of_retains h.bounds (h.retains.evictLocked hclock) h.memory.int64 h.memory.hash_lt
  disk := h.disk.mono hclock

theorem refines_flush (h : Refines float64bits B σ log) {calls : UpsertCalls} {server : Option ConfigMap}
    (hhonest : calls.first.Honest ∧ calls.again.Honest)
    (hflush : σ.store.flush float64bits calls σ.server = .ok server) :
    Refines float64bits B { σ with server := server } (log.step (.flush calls)) where
  bounds := h.bounds
  hash := h.hash
  memory := h.memory
  disk := by
    refine ⟨σ.store.buf.records, ?_, h.memory⟩
    rw [ConfigMapStore.flush, h.hash] at hflush
    rcases upsert_ok hflush with hholds | ⟨hliar, -⟩
    · exact hholds
    · rcases hliar with hfirst | hagain
      · exact absurd hhonest.1 hfirst
      · exact absurd hhonest.2 hagain

theorem refines_restart (h : Refines float64bits B σ log) {get : Option ApiError} {store : ConfigMapStore F}
    (hget : get ≠ some .notFound) (hload : (newConfigMapStore ad B).load float64bits get σ.server = .ok store) :
    Refines float64bits B { σ with store := store } (log.step (.restart get)) := by
  have hdisk := h.disk
  rw [Log.step]
  cases hsaved : log.saved with
  | none =>
    rw [hsaved] at hdisk
    rcases load_ok hload with ⟨-, rfl⟩ | ⟨cm, specHash, records, hcm, -⟩
    · exact ⟨rfl, rfl, stands_nil B σ.clock, hdisk⟩
    · exact absurd (hcm.symm.trans hdisk) (by simp)
  | some saved =>
    obtain ⟨samples, hash⟩ := saved
    rw [hsaved] at hdisk
    obtain ⟨rs, hholds, hstands⟩ := id hdisk
    rcases load_ok hload with ⟨hnone | hnone, -⟩ | ⟨cm, specHash, records, hcm, hdecode, rfl⟩
    · exact absurd hnone hget
    · obtain ⟨cm, hcm, -⟩ := hholds
      exact absurd (hcm.symm.trans hnone) (by simp)
    · -- the codec gives back what the last flush wrote
      obtain ⟨rfl, rfl⟩ := Prod.mk.inj (hholds.eq_of_decode hstands.hash_lt hstands.int64_records hcm hdecode)
      exact ⟨rfl, rfl, hstands, hdisk⟩

/-- **One step.** -/
theorem refines_step {op : Op F} (h : Refines float64bits B σ log) (hs : step float64bits ad B σ op = some σ') :
    Refines float64bits B σ' (log.step op) := by
  cases op with
  | record sample specHash =>
    rw [step] at hs
    split_ifs at hs with hg
    obtain rfl := Option.some.inj hs
    exact refines_record h hg.1 hg.2.1 hg.2.2
  | history now =>
    rw [step] at hs
    split_ifs at hs with hg
    obtain rfl := Option.some.inj hs
    exact refines_history h hg
  | flush calls =>
    rw [step] at hs
    split_ifs at hs with hg
    split at hs
    · next server hflush =>
      obtain rfl := Option.some.inj hs
      exact refines_flush h hg hflush
    · cases hs
  | restart get =>
    rw [step] at hs
    split_ifs at hs with hg
    split at hs
    · next store hload =>
      obtain rfl := Option.some.inj hs
      exact refines_restart h hg hload
    · cases hs

/-- A store that was just created, over a server without its ConfigMap. -/
def System.init (ad : AgentDeploy) (B : Bounds) (clock : Int) : System F where
  store := newConfigMapStore ad B
  clock := clock

theorem refines_init (clock : Int) : Refines float64bits B (System.init (F := F) ad B clock) {} :=
  ⟨rfl, rfl, stands_nil B clock, rfl⟩

/-- **A whole run.** -/
theorem refines_run {ops : List (Op F)} (h : Refines float64bits B σ log)
    (hr : run (step float64bits ad B) σ ops = some σ') : Refines float64bits B σ' (ops.foldl Log.step log) := by
  induction ops generalizing σ log with
  | nil =>
    obtain rfl := Option.some.inj hr
    exact h
  | cons op ops ih =>
    obtain ⟨σ₁, hs, hr⟩ := run_cons.mp hr
    exact ih (refines_step h hs) hr

end

/-- **The store is its log.** Over every run from a fresh store, a query returns the samples of the log that are not
older than `maxAge`, and of these the last `maxRecords`; and what is persisted has at most `maxRecords` records. -/
theorem history_refines (float64bits : F ≃ UInt64) (ad : AgentDeploy) (B : Bounds) {clock now : Int} {ops : List (Op F)}
    {σ : System F} (hr : run (step float64bits ad B) (System.init ad B clock) ops = some σ) (hnow : σ.clock ≤ now) :
    (σ.store.history now).1 =
        (((ops.foldl Log.step {}).samples).filter fun s => decide (now - B.maxAge ≤ s.timestamp)).rtake B.maxRecords ∧
      ∀ cm, σ.server = some cm →
        ∃ h rs, h.length < 2 ^ 16 ∧ cm.history = encodeHistory float64bits h rs ∧ rs.length ≤ B.maxRecords := by
  have h := refines_run (refines_init clock) hr
  constructor
  · rw [← h.bounds]
    exact h.retains.samples_eq hnow
  · intro cm hcm
    have hdisk := h.disk
    cases hsaved : (ops.foldl Log.step {} : Log F).saved with
    | none =>
      rw [hsaved] at hdisk
      exact absurd (hcm.symm.trans hdisk) (by simp)
    | some saved =>
      obtain ⟨samples, hash⟩ := saved
      rw [hsaved] at hdisk
      obtain ⟨rs, ⟨cm', hcm', hblob⟩, hstands⟩ := hdisk
      obtain rfl : cm = cm' := Option.some.inj (hcm.symm.trans hcm')
      exact ⟨hash, rs, hstands.hash_lt, hblob, hstands.retains.length_le⟩

/-! ### A run with a restart -/

/-- A reading of one replica at second `t`. -/
def reading (t : Int) : Sample UInt64 where
  timestamp := t * second
  replicas := 1
  inflightPerRep := 0
  ratePerRep := 0

def plannerDeploy : AgentDeploy where
  metadata := { nspace := "default", name := "mesh-planner" }
  spec := { agent := { name := "planner" }, agentSetName := "mesh" }

/-- Two readings are flushed, a third is lost in a crash, and a fourth follows. -/
def crashRun : List (Op UInt64) :=
  [.record (reading 10) [1], .record (reading 20) [1], .history (25 * second), .flush {}, .record (reading 30) [1],
    .restart none, .record (reading 40) [1]]

theorem history_refines_crashRun :
    ((run (step (Equiv.refl UInt64) plannerDeploy { maxRecords := 2 }) (System.init plannerDeploy { maxRecords := 2 } 0)
        crashRun).map fun σ => (σ.store.history (45 * second)).1) = some [reading 20, reading 40] := by
  obtain ⟨σ, hσ⟩ := Option.isSome_iff_exists.mp (by decide +kernel :
    (run (step (Equiv.refl UInt64) plannerDeploy { maxRecords := 2 }) (System.init plannerDeploy { maxRecords := 2 } 0)
      crashRun).isSome = true)
  have hclock : σ.clock ≤ 45 * second := by
    have h : ((run (step (Equiv.refl UInt64) plannerDeploy { maxRecords := 2 })
        (System.init plannerDeploy { maxRecords := 2 } 0) crashRun).all fun σ => decide (σ.clock ≤ 45 * second)) = true := by
      decide +kernel
    rw [hσ] at h
    simpa using h
  rw [hσ, Option.map_some, (history_refines _ _ _ hσ hclock).1]
  decide +kernel

end KynoMesh.History
