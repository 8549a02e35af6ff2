import KynoMesh.History.Log

/-!
# The registry, and a hydration that failed

`history/registry.go`: the store of an AgentDeploy is created on first sight, published, and then loaded. The sampler
goes on with a store whose `Load` failed: it records, and flushes what it recorded over what is persisted.

* `storeFor` : `Registry.StoreFor`;
* `flush_keeps_iff` : over every run after a failed hydration, the flushes that are written keep the persisted samples
  that are still within the bounds exactly when there are none left;
* `hydration_failure_drops_history` : the first scrape after a failed `Load` replaces the persisted history.
-/

namespace KynoMesh.History

open KynoMesh.Lib KynoMesh.Api

variable {F : Type}

/-! ## The registry -/

structure NamespacedName where
  nspace : String
  name : String
  deriving DecidableEq

structure Registry (F : Type) where
  opts : Bounds
  stores : Dict NamespacedName (ConfigMapStore F) := ∅

def key (ad : AgentDeploy) : NamespacedName := { nspace := ad.metadata.nspace, name := ad.metadata.name }

namespace Registry

/-- The registry and the store that `StoreFor` leaves and returns, and its error. -/
def storeFor (float64bits : F ≃ UInt64) (r : Registry F) (get : Option ApiError) (server : Option ConfigMap)
    (ad : AgentDeploy) : Registry F × ConfigMapStore F × Option String :=
  match r.stores.lookup (key ad) with
  | some s => (r, s, none)
  | none =>
    let s := newConfigMapStore ad r.opts
    match s.load float64bits get server with
    | .ok s => ({ r with stores := r.stores.insert (key ad) s }, s, none)
    | .error e => ({ r with stores := r.stores.insert (key ad) s }, s, some e)

def get (r : Registry F) (k : NamespacedName) : Option (ConfigMapStore F) := r.stores.lookup k

/-- The registry after a call on the store of `k` that leaves it as `s`. -/
def put (r : Registry F) (k : NamespacedName) (s : ConfigMapStore F) : Registry F :=
  { r with stores := r.stores.insert k s }

@[simp] theorem get_put (r : Registry F) (k : NamespacedName) (s : ConfigMapStore F) : (r.put k s).get k = some s := by
  simp [get, put]

theorem storeFor_of_get {float64bits : F ≃ UInt64} {r : Registry F} {s : ConfigMapStore F} {ad : AgentDeploy}
    (h : r.get (key ad) = some s) (fault : Option ApiError) (server : Option ConfigMap) :
    r.storeFor float64bits fault server ad = (r, s, none) := by
  rw [get] at h
  rw [storeFor, h]

/-- A first `StoreFor` that fails leaves an empty store behind. -/
theorem get_storeFor_of_error {float64bits : F ≃ UInt64} {B : Bounds} {fault : Option ApiError}
    {server : Option ConfigMap} {ad : AgentDeploy}
    (h : (storeFor float64bits { opts := B } fault server ad).2.2.isSome) :
    (storeFor float64bits { opts := B } fault server ad).1.get (key ad) = some (newConfigMapStore ad B) := by
  simp only [storeFor, AList.lookup_empty] at h ⊢
  cases hload : (newConfigMapStore ad B : ConfigMapStore F).load float64bits fault server with
  | ok s => simp [hload] at h
  | error e => exact AList.lookup_insert _

end Registry

/-! ## Writes over an existing ConfigMap -/

/-- The API server takes the write: at once, or after one conflict. -/
def UpsertCalls.Accepted (calls : UpsertCalls) : Prop :=
  calls.first.get = none ∧ (calls.first.update = none ∨
    (calls.first.update = some .conflict ∧ calls.again.get = none ∧ calls.again.update = none))

instance (calls : UpsertCalls) : Decidable calls.Accepted := inferInstanceAs (Decidable (_ ∧ (_ ∨ _)))

theorem upsertTurn_of_accepted {s : ConfigMapStore F} {calls : TurnCalls}
    {again : Option (Except String (Option ConfigMap))} {cm : ConfigMap} {blob : Bytes} (hget : calls.get = none)
    (hupdate : calls.update = none) :
    ∃ server, s.upsertTurn calls again (some cm) blob = .ok server ∧ Holds blob server := by
  refine ⟨some { cm with binaryData := cm.binaryData.insert historyKey blob }, ?_, _, rfl, history_insert cm blob⟩
  simp [ConfigMapStore.upsertTurn, clientGet, clientUpdate, hget, hupdate]

theorem upsert_of_accepted {calls : UpsertCalls} (h : calls.Accepted) (s : ConfigMapStore F) (cm : ConfigMap)
    (blob : Bytes) : ∃ server, s.upsert calls (some cm) blob = .ok server ∧ Holds blob server := by
  obtain ⟨hget, hupdate | ⟨hconflict, hget', hupdate'⟩⟩ := h
  · exact upsertTurn_of_accepted hget hupdate
  · have hretry : s.upsert calls (some cm) blob = s.upsertTurn calls.again none (some cm) blob := by
      simp [ConfigMapStore.upsert, ConfigMapStore.upsertTurn, clientGet, clientUpdate, hget, hconflict]
    rw [hretry]
    exact upsertTurn_of_accepted hget' hupdate'

/-- A turn over an existing ConfigMap that wrote met no fault, or took its result from the next one. -/
theorem upsertTurn_some_ok {s : ConfigMapStore F} {calls : TurnCalls}
    {again : Option (Except String (Option ConfigMap))} {cm : ConfigMap} {server : Option ConfigMap} {blob : Bytes}
    (h : s.upsertTurn calls again (some cm) blob = .ok server) :
    server = some cm ∨ (calls.get = none ∧ calls.update = none) ∨
      (calls.get = none ∧ calls.update = some .conflict ∧ again = some (.ok server)) := by
  unfold ConfigMapStore.upsertTurn at h
  cases hget : calls.get with
  | some e =>
    rw [hget] at h
    left
    cases e <;> simp only [clientGet, reduceCtorEq] at h
    split at h
    · next cm' hcreate =>
      cases hfault : calls.create <;> rw [hfault] at hcreate <;> cases hcreate
    · exact (Except.ok.inj h).symm
    · cases h
  | none =>
    rw [hget] at h
    right
    cases hupdate : calls.update with
    | none => exact .inl ⟨rfl, rfl⟩
    | some e =>
      right
      rw [hupdate] at h
      cases e <;> cases again <;> simp_all [clientGet, clientUpdate]

theorem server_of_not_accepted {s : ConfigMapStore F} {calls : UpsertCalls} {cm : ConfigMap}
    {server : Option ConfigMap} {blob : Bytes} (hn : ¬calls.Accepted)
    (h : s.upsert calls (some cm) blob = .ok server) : server = some cm := by
  rcases upsertTurn_some_ok h with hsame | ⟨hget, hupdate⟩ | ⟨hget, hconflict, hagain⟩
  · exact hsame
  · exact absurd ⟨hget, .inl hupdate⟩ hn
  · rcases upsertTurn_some_ok (Option.some.inj hagain) with hsame | ⟨hget', hupdate'⟩ | ⟨-, -, hnone⟩
    · exact hsame
    · exact absurd ⟨hget, .inr ⟨hconflict, hget', hupdate'⟩⟩ hn
    · cases hnone

/-! ## The sampler after a failed hydration -/

/-- The registry, the API server, and the samples recorded since the failure. -/
structure Sampled (F : Type) where
  registry : Registry F
  server : Option ConfigMap
  recorded : List (Sample F) := []

/-- What the sampler does with one AgentDeploy. -/
inductive Scrape (F : Type) where
  | storeFor (get : Option ApiError)
  /-- `lookbackSeconds` reads the history to size the next query. -/
  | history (now : Int)
  | record (sample : Sample F)
  | flushIfDue (now : Int) (calls : UpsertCalls)

section
variable (float64bits : F ≃ UInt64) (ad : AgentDeploy) (interval : Int) (h : Bytes) (persisted : List (Record F))

namespace Sampled

/-- A record is under the persisted hash, and later than what is persisted; a failed flush is logged. -/
def step (σ : Sampled F) : Scrape F → Option (Sampled F)
  | .storeFor get => some { σ with registry := (σ.registry.storeFor float64bits get σ.server ad).1 }
  | .history now => (σ.registry.get (key ad)).map fun s =>
      { σ with registry := σ.registry.put (key ad) (s.history now).2 }
  | .record sample =>
    match σ.registry.get (key ad) with
    | none => none
    | some s =>
      if ∀ r ∈ persisted, r.sample.timestamp < sample.timestamp then
        some { σ with
          registry := σ.registry.put (key ad) (s.record sample h)
          recorded := σ.recorded ++ [sample] }
      else none
  | .flushIfDue now calls =>
    match σ.registry.get (key ad) with
    | none => none
    | some s =>
      match s.flushIfDue float64bits calls σ.server now interval with
      | .ok (s, server) => some { σ with registry := σ.registry.put (key ad) s, server := server }
      | .error _ => some σ

/-- The state after a first `StoreFor` whose `Load` met the fault `get`. -/
def hydrated (B : Bounds) (get : Option ApiError) (cm : ConfigMap) : Sampled F where
  registry := (Registry.storeFor float64bits { opts := B } get (some cm) ad).1
  server := some cm

/-- The flush is due and the API server takes it. -/
def Flushes (σ : Sampled F) (now : Int) (calls : UpsertCalls) : Prop :=
  ∃ s, σ.registry.get (key ad) = some s ∧ interval ≤ timeSub now s.lastFlush ∧ calls.Accepted

/-- A sample of the persisted history is still within the bounds at `now`, among all that was collected. -/
def InBounds (B : Bounds) (σ : Sampled F) (now : Int) (r : Record F) : Prop :=
  r.sample ∈ B.window now (persisted.map Record.sample ++ σ.recorded)

instance [DecidableEq F] (B : Bounds) (σ : Sampled F) (now : Int) (r : Record F) :
    Decidable (InBounds persisted B σ now r) :=
  inferInstanceAs (Decidable (_ ∈ _))

/-- A flush that is written replaces the persisted history by one that has its samples within the bounds; any other
leaves the ConfigMap alone. -/
def FlushKeeps (B : Bounds) (σ : Sampled F) : Scrape F → Sampled F → Prop
  | .flushIfDue now calls, σ' =>
    (¬Flushes ad interval σ now calls → σ'.server = σ.server) ∧
      (Flushes ad interval σ now calls → ∃ s, σ.registry.get (key ad) = some s ∧
        Holds (encodeHistory float64bits s.specHash s.buf.snapshot) σ'.server ∧
        ∀ r ∈ persisted, InBounds persisted B σ now r → r.sample ∈ s.buf.snapshot.map Record.sample)
  | _, _ => True

/-- No flush is written while a persisted sample is within the bounds. -/
def FlushesLate (B : Bounds) (σ : Sampled F) : Scrape F → Sampled F → Prop
  | .flushIfDue now calls, _ => Flushes ad interval σ now calls → ∀ r ∈ persisted, ¬InBounds persisted B σ now r
  | _, _ => True

end Sampled

end

namespace Sampled

/-! ## Exactness -/

/-- The store was never hydrated: all that it holds was recorded since, after everything persisted. -/
structure Unhydrated (ad : AgentDeploy) (persisted : List (Record F)) (σ : Sampled F) : Prop where
  store : ∃ s, σ.registry.get (key ad) = some s ∧ ∀ r ∈ s.buf.records, r.sample ∈ σ.recorded
  server : ∃ cm, σ.server = some cm
  later : ∀ x ∈ σ.recorded, ∀ r ∈ persisted, r.sample.timestamp < x.timestamp

section
variable {float64bits : F ≃ UInt64} {ad : AgentDeploy} {interval : Int} {h : Bytes} {persisted : List (Record F)}
  {B : Bounds} {σ σ' : Sampled F}

theorem mem_records_record {s : ConfigMapStore F} {sample : Sample F} {h : Bytes} {r : Record F}
    (hr : r ∈ (s.record sample h).buf.records) : r ∈ s.buf.records ∨ r.sample = sample := by
  rw [record_eq] at hr
  rcases mem_records_add hr with hold | hnew
  · split_ifs at hold
    · cases hold
    · exact .inl hold
  · exact .inr hnew

/-- What a `FlushIfDue` over an existing ConfigMap does: it writes if it is due and the API server takes it, and leaves
the ConfigMap alone otherwise. -/
theorem flushIfDue_cases (s : ConfigMapStore F) (calls : UpsertCalls) (cm : ConfigMap) (now : Int) :
    (interval ≤ timeSub now s.lastFlush ∧ calls.Accepted ∧
      ∃ server, s.flushIfDue float64bits calls (some cm) now interval = .ok ({ s with lastFlush := now }, server) ∧
        Holds (encodeHistory float64bits s.specHash s.buf.snapshot) server) ∨
    (¬(interval ≤ timeSub now s.lastFlush ∧ calls.Accepted) ∧ ∀ s' server,
      s.flushIfDue float64bits calls (some cm) now interval = .ok (s', server) → s'.buf = s.buf ∧ server = some cm) := by
  unfold ConfigMapStore.flushIfDue ConfigMapStore.flush
  by_cases hdue : timeSub now s.lastFlush < interval
  · right
    refine ⟨fun hd => by omega, fun s' server hf => ?_⟩
    rw [if_pos hdue] at hf
    cases hf
    exact ⟨rfl, rfl⟩
  · rw [if_neg hdue]
    by_cases ha : calls.Accepted
    · left
      obtain ⟨server, hok, hholds⟩ := upsert_of_accepted ha s cm (encodeHistory float64bits s.specHash s.buf.snapshot)
      exact ⟨by omega, ha, server, by rw [hok], hholds⟩
    · right
      refine ⟨fun hd => ha hd.2, fun s' server hf => ?_⟩
      split at hf
      · cases hf
      · next server' hflush =>
        cases hf
        exact ⟨rfl, server_of_not_accepted ha hflush⟩

theorem unhydrated_step {e : Scrape F} (hσ : Unhydrated ad persisted σ)
    (hs : step float64bits ad interval h persisted σ e = some σ') : Unhydrated ad persisted σ' := by
  obtain ⟨⟨s, hget, hrecords⟩, ⟨cm, hcm⟩, hlater⟩ := hσ
  cases e with
  | storeFor get =>
    obtain rfl := Option.some.inj hs
    rw [Registry.storeFor_of_get hget]
    exact ⟨⟨s, hget, hrecords⟩, ⟨cm, hcm⟩, hlater⟩
  | history now =>
    rw [step, hget] at hs
    obtain rfl := Option.some.inj hs
    refine ⟨⟨_, Registry.get_put _ _ _, fun r hr => ?_⟩, ⟨cm, hcm⟩, hlater⟩
    exact hrecords r (records_evictLocked_subset _ _ hr)
  | record sample =>
    simp only [step, hget] at hs
    split_ifs at hs with hg
    obtain rfl := Option.some.inj hs
    refine ⟨⟨_, Registry.get_put _ _ _, fun r hr => ?_⟩, ⟨cm, hcm⟩, fun x hx r hr => ?_⟩
    · rcases mem_records_record hr with hold | rfl
      · exact List.mem_append_left _ (hrecords r hold)
      · exact List.mem_append_right _ (List.mem_singleton_self _)
    · rcases List.mem_append.mp hx with hold | hnew
      · exact hlater x hold r hr
      · rw [List.mem_singleton.mp hnew]
        exact hg r hr
  | flushIfDue now calls =>
    simp only [step, hget, hcm] at hs
    split at hs
    · next s' server hf =>
      obtain rfl := Option.some.inj hs
      rcases flushIfDue_cases s calls cm now with ⟨-, -, server', hok, cm', hcm', -⟩ | ⟨-, hidle⟩
      · rw [hok] at hf
        cases hf
        exact ⟨⟨_, Registry.get_put _ _ _, hrecords⟩, ⟨cm', hcm'⟩, hlater⟩
      · obtain ⟨hbuf, hserver⟩ := hidle _ _ hf
        refine ⟨⟨_, Registry.get_put _ _ _, ?_⟩, ⟨cm, hserver⟩, hlater⟩
        rw [hbuf]
        exact hrecords
    · obtain rfl := Option.some.inj hs
      exact ⟨⟨s, hget, hrecords⟩, ⟨cm, hcm⟩, hlater⟩

/-- No persisted sample is in a store that was never hydrated. -/
theorem Unhydrated.not_mem (hσ : Unhydrated ad persisted σ) {s : ConfigMapStore F}
    (hget : σ.registry.get (key ad) = some s) {r : Record F} (hr : r ∈ persisted) :
    r.sample ∉ s.buf.snapshot.map Record.sample := by
  obtain ⟨s', hget', hrecords⟩ := hσ.store
  obtain rfl : s = s' := Option.some.inj (hget.symm.trans hget')
  intro hmem
  obtain ⟨r', hr', heq⟩ := List.mem_map.mp hmem
  have := hσ.later _ (hrecords r' hr') r hr
  rw [heq] at this
  exact lt_irrefl _ this

theorem flush_step_iff {e : Scrape F} (hσ : Unhydrated ad persisted σ)
    (hs : step float64bits ad interval h persisted σ e = some σ') :
    FlushesLate ad interval persisted B σ e σ' ↔ FlushKeeps float64bits ad interval persisted B σ e σ' := by
  cases e with
  | storeFor get => exact Iff.rfl
  | history now => exact Iff.rfl
  | record sample => exact Iff.rfl
  | flushIfDue now calls =>
    obtain ⟨s, hget, -⟩ := hσ.store
    obtain ⟨cm, hcm⟩ := hσ.server
    constructor
    · intro hlate
      simp only [step, hget, hcm] at hs
      rcases flushIfDue_cases s calls cm now with ⟨hdue, ha, server, hok, hholds⟩ | ⟨hnot, hidle⟩
      · have hflushes : Flushes ad interval σ now calls := ⟨s, hget, hdue, ha⟩
        rw [hok] at hs
        obtain rfl := Option.some.inj hs
        refine ⟨fun hn => absurd hflushes hn, fun _ => ⟨s, hget, hholds, fun r hr hin => ?_⟩⟩
        exact absurd hin (hlate hflushes r hr)
      · refine ⟨fun _ => ?_, fun ⟨s', hget', hflushes⟩ => ?_⟩
        · split at hs
          · next s' server hf =>
            obtain rfl := Option.some.inj hs
            exact (hidle _ _ hf).2.trans hcm.symm
          · obtain rfl := Option.some.inj hs
            rfl
        · obtain rfl : s = s' := Option.some.inj (hget.symm.trans hget')
          exact absurd hflushes hnot
    · rintro ⟨-, hkeeps⟩ hflushes r hr hin
      obtain ⟨s, hget, -, hkept⟩ := hkeeps hflushes
      exact hσ.not_mem hget hr (hkept r hr hin)

theorem unhydrated_hydrated {get : Option ApiError} {cm : ConfigMap}
    (hfail : (Registry.storeFor float64bits { opts := B } get (some cm) ad).2.2.isSome) :
    Unhydrated ad persisted (hydrated float64bits ad B get cm) where
  store := ⟨_, Registry.get_storeFor_of_error hfail, by simp [newConfigMapStore]⟩
  server := ⟨cm, rfl⟩
  later := by simp [hydrated]

end

/-- The hash and the records that the ConfigMap holds. -/
def persistedIn (float64bits : F ≃ UInt64) (cm : ConfigMap) : Bytes × List (Record F) :=
  match decodeHistory float64bits cm.history with
  | .ok persisted => persisted
  | .error _ => ([], [])

/-- **Exact over every run.** A first `StoreFor` fails to load what the ConfigMap holds. Then along every run of records
under the persisted hash, queries, `FlushIfDue` and `StoreFor` calls, with any API faults, every flush that is written
keeps the persisted samples within the bounds exactly when none is written while such a sample is left. -/
theorem flush_keeps_iff (float64bits : F ≃ UInt64) (ad : AgentDeploy) (interval : Int) (B : Bounds) (cm : ConfigMap)
    {get : Option ApiError} (hfail : (Registry.storeFor float64bits { opts := B } get (some cm) ad).2.2.isSome)
    (es : List (Scrape F)) :
    let (h, persisted) := persistedIn float64bits cm
    EachStep (step float64bits ad interval h persisted) (FlushesLate ad interval persisted B)
        (hydrated float64bits ad B get cm) es ↔
      EachStep (step float64bits ad interval h persisted) (FlushKeeps float64bits ad interval persisted B)
        (hydrated float64bits ad B get cm) es :=
  eachStep_iff (I := Unhydrated ad _) (fun _ _ _ hσ hs => flush_step_iff hσ hs)
    (fun _ _ _ hσ hs _ => unhydrated_step hσ hs) (unhydrated_hydrated hfail)

/-! ### The first scrape after a timeout -/

/-- A ConfigMap with one reading, taken at second 10. -/
def oneReading : ConfigMap where
  metadata := { nspace := "default", name := "mesh-planner-scaling" }
  binaryData := AList.insert historyKey
    (encodeHistory (Equiv.refl UInt64) [1] [{ sample := reading 10, count := 1 }]) ∅

theorem persistedIn_oneReading :
    persistedIn (Equiv.refl UInt64) oneReading = ([1], [{ sample := reading 10, count := 1 }]) := by
  decide +kernel

/-- The `Load` times out. At second `t` the next reading is recorded, and the flush is due. -/
def nextScrape (t : Int) : List (Scrape UInt64) :=
  [.storeFor none, .history (t * second), .record (reading t), .flushIfDue (t * second) {}]

/-- A minute later, the reading at second 10 is within the bounds, and is gone. -/
theorem hydration_failure_drops_history :
    let (h, persisted) := persistedIn (Equiv.refl UInt64) oneReading
    ¬EachStep (step (Equiv.refl UInt64) plannerDeploy (300 * second) h persisted)
      (FlushKeeps (Equiv.refl UInt64) plannerDeploy (300 * second) persisted {})
      (hydrated (Equiv.refl UInt64) plannerDeploy {} (some (.other "timeout")) oneReading) (nextScrape 70) := by
  rw [persistedIn_oneReading]
  rintro ⟨-, -, -, ⟨-, hkeeps⟩, -⟩
  obtain ⟨s, hget, -, hkept⟩ := hkeeps ⟨_, rfl, by decide +kernel, by decide⟩
  obtain rfl := Option.some.inj hget
  have := hkept _ (List.mem_singleton_self _) (by decide +kernel)
  revert this
  decide +kernel

/-- Eight days later, the reading at second 10 has aged out, and nothing is lost. -/
theorem flush_keeps_aged_out :
    let (h, persisted) := persistedIn (Equiv.refl UInt64) oneReading
    EachStep (step (Equiv.refl UInt64) plannerDeploy (300 * second) h persisted)
      (FlushKeeps (Equiv.refl UInt64) plannerDeploy (300 * second) persisted {})
      (hydrated (Equiv.refl UInt64) plannerDeploy {} (some (.other "timeout")) oneReading) (nextScrape 691200) := by
  have hfail : (Registry.storeFor (Equiv.refl UInt64) { opts := {} } (some (.other "timeout")) (some oneReading)
      plannerDeploy).2.2.isSome := by decide +kernel
  have hiff := flush_keeps_iff _ _ (300 * second) _ _ hfail (nextScrape 691200)
  rw [persistedIn_oneReading] at hiff ⊢
  refine hiff.mp ⟨trivial, trivial, trivial, fun _ r hr => ?_, trivial⟩
  rw [List.mem_singleton.mp hr]
  decide +kernel

end Sampled

end KynoMesh.History
