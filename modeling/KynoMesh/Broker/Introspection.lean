import KynoMesh.Lib.Dict
import KynoMesh.Lib.GoStd
import KynoMesh.Lib.Transition

/-!
# The peer hashes of `/introspect`

`broker/introspection.go`: `readPeerHashes` answers with the parsed peer-hashes file, and keeps the last parse under the
modification time it saw. `os.Stat` comes before the lock, so the content it caches may be newer than that time.

* `beforeLock`, `locked` : the two atomic parts of a call;
* `State`, `Event`, `step`, `reply` : any number of calls, and an agent that replaces and removes the file;
* `Consistent` : modification times are not used again, and an entry under the time of the present file is its parse;
* `Shows` : what the file says; `readPeerHashes_transparent` : a call answers what the file said while it ran.
-/

namespace KynoMesh.Introspection
open KynoMesh.Lib

structure PeerHashEntry where
  hash : String
  observedAt : String
  deriving DecidableEq

/-- `map[string]PeerHashEntry`; `none` is the nil map, which `null` decodes to. -/
abbrev PeerHashes := Option (Dict String PeerHashEntry)

structure PeerHashesCache where
  modTime : Int := zeroTime
  hashes : PeerHashes := none

/-- The peer-hashes file. -/
structure File where
  modTime : Int
  raw : List UInt8

/-! ## The calls -/

/-- `readPeerHashes` up to the lock: its answer, or the modification time it goes on with. A `fault` is a failure of
`os.Stat` other than for an absent file. -/
def beforeLock (fault : Option String) (file : Option File) : Except String PeerHashes ⊕ Int :=
  match fault, file with
  | some err, _ => .inl (.error err)
  | none, none => .inl (.ok (some ∅))
  | none, some f => .inr f.modTime

/-- `readPeerHashes` under the lock, with `fault` for `os.ReadFile`. -/
def locked (unmarshal : List UInt8 → Except String PeerHashes) (fault : Option String) (file : Option File)
    (modTime : Int) (cache : PeerHashesCache) : Except String PeerHashes × PeerHashesCache :=
  if modTime = cache.modTime ∧ cache.hashes.isSome then (.ok cache.hashes, cache)
  else
    match fault, file with
    | some err, _ => (.error err, cache)
    | none, none => (.ok (some ∅), cache)
    | none, some f =>
      match unmarshal f.raw with
      | .error err => (.error err, cache)
      | .ok hashes => (.ok hashes, { modTime, hashes })

/-- What the file says: nothing while it is absent. -/
def Shows (unmarshal : List UInt8 → Except String PeerHashes) (file : Option File) (hashes : PeerHashes) : Prop :=
  match file with
  | none => hashes = some ∅
  | some f => unmarshal f.raw = .ok hashes

section
variable {unmarshal : List UInt8 → Except String PeerHashes} {fault : Option String} {file : Option File}
  {modTime : Int} {cache : PeerHashesCache} {hashes : PeerHashes}

theorem shows_of_beforeLock (h : beforeLock fault file = .inl (.ok hashes)) : Shows unmarshal file hashes := by
  unfold beforeLock at h
  split at h
  next => cases h
  next =>
    cases h
    rfl
  next => cases h

theorem beforeLock_eq_inr (h : beforeLock fault file = .inr modTime) : ∃ f, file = some f ∧ f.modTime = modTime := by
  unfold beforeLock at h
  split at h
  next => cases h
  next => cases h
  next f => exact ⟨f, rfl, Sum.inr.inj h⟩

/-- The answer under the lock is the entry under the call's time, or what the file says now. -/
theorem answer_of_locked (h : (locked unmarshal fault file modTime cache).1 = .ok hashes) :
    (cache.modTime = modTime ∧ hashes.isSome ∧ cache.hashes = hashes) ∨ Shows unmarshal file hashes := by
  unfold locked at h
  split_ifs at h with hhit
  · obtain rfl := Except.ok.inj h
    exact .inl ⟨hhit.1.symm, hhit.2, rfl⟩
  · right
    split at h
    next => cases h
    next =>
      obtain rfl := Except.ok.inj h
      rfl
    next f =>
      split at h
      next => cases h
      next hashes' hparse =>
        obtain rfl := Except.ok.inj h
        exact hparse

/-- The cache is left alone, or holds what the file says now under the call's time. -/
theorem cache_of_locked {cache' : PeerHashesCache} (h : (locked unmarshal fault file modTime cache).2 = cache') :
    cache' = cache ∨ (cache'.modTime = modTime ∧ Shows unmarshal file cache'.hashes) := by
  subst h
  unfold locked
  split_ifs
  · exact .inl rfl
  · split
    next => exact .inl rfl
    next => exact .inl rfl
    next f =>
      split
      next => exact .inl rfl
      next hashes hparse => exact .inr ⟨rfl, hparse⟩

end

/-! ## The system -/

variable {C : Type} [DecidableEq C]

structure State (C : Type) where
  file : Option File
  cache : PeerHashesCache := {}
  /-- The calls between `os.Stat` and the lock, with the modification time each saw. -/
  calls : Dict C Int := ∅
  /-- The modification times that the file has had. -/
  used : List Int

/-- The broker has started, with the file that is there. -/
def start (file : Option File) : State C := { file, used := file.toList.map File.modTime }

inductive Event (C : Type) where
  /-- The agent replaces the file. -/
  | replace (file : File)
  | remove
  /-- A call comes in and goes up to the lock. -/
  | stat (call : C) (fault : Option String)
  | locked (call : C) (fault : Option String)

/-- The call that an event is a part of. -/
def Event.call? : Event C → Option C
  | .replace _ | .remove => none
  | .stat call _ | .locked call _ => some call

/-- One event; `none` when it is not enabled. A replacement has a modification time of its own. -/
def step (unmarshal : List UInt8 → Except String PeerHashes) (σ : State C) : Event C → Option (State C)
  | .replace file =>
    if file.modTime ∈ σ.used then none else some { σ with file := some file, used := file.modTime :: σ.used }
  | .remove => some { σ with file := none }
  | .stat call fault =>
    if call ∈ σ.calls then none
    else
      match beforeLock fault σ.file with
      | .inl _ => some σ
      | .inr modTime => some { σ with calls := σ.calls.insert call modTime }
  | .locked call fault =>
    (σ.calls.lookup call).map fun modTime =>
      { σ with cache := (locked unmarshal fault σ.file modTime σ.cache).2, calls := σ.calls.erase call }

/-- What a call returns in the event, if it does. -/
def reply (unmarshal : List UInt8 → Except String PeerHashes) (σ : State C) :
    Event C → Option (Except String PeerHashes)
  | .replace _ | .remove => none
  | .stat _ fault => (beforeLock fault σ.file).getLeft?
  | .locked call fault =>
    (σ.calls.lookup call).map fun modTime => (locked unmarshal fault σ.file modTime σ.cache).1

/-- A call that begins at `σ` returns `r` after the events `during`: at `os.Stat`, or under the lock after events of
which none but the first is its own. -/
inductive Returns (unmarshal : List UInt8 → Except String PeerHashes) (σ : State C) (call : C) :
    List (Event C) → Except String PeerHashes → Prop
  | stat {fault : Option String} {r : Except String PeerHashes} (hnew : call ∉ σ.calls)
      (hreply : reply unmarshal σ (.stat call fault) = some r) : Returns unmarshal σ call [] r
  | locked {fault fault' : Option String} {others : List (Event C)} {τ : State C} {r : Except String PeerHashes}
      (hothers : ∀ e ∈ others, e.call? ≠ some call)
      (hrun : run (step unmarshal) σ (.stat call fault :: others) = some τ)
      (hreply : reply unmarshal τ (.locked call fault') = some r) :
      Returns unmarshal σ call (.stat call fault :: others) r

/-! ## Steps -/

section
variable {unmarshal : List UInt8 → Except String PeerHashes} {σ σ' τ : State C} {e : Event C} {call : C}
  {hashes : PeerHashes}

theorem step_replace {file : File} (h : step unmarshal σ (.replace file) = some σ') :
    file.modTime ∉ σ.used ∧ σ' = { σ with file := some file, used := file.modTime :: σ.used } := by
  simp only [step] at h
  split_ifs at h with hused
  exact ⟨hused, (Option.some.inj h).symm⟩

/-- A call returns at `os.Stat`, or holds the time of the file that it found. -/
theorem step_stat {fault : Option String} (h : step unmarshal σ (.stat call fault) = some σ') :
    call ∉ σ.calls ∧
      (σ' = σ ∨ ∃ f, σ.file = some f ∧ σ' = { σ with calls := σ.calls.insert call f.modTime }) := by
  simp only [step] at h
  split_ifs at h with hnew
  refine ⟨hnew, ?_⟩
  split at h
  next => exact .inl (Option.some.inj h).symm
  next modTime hstat =>
    obtain ⟨f, hf, rfl⟩ := beforeLock_eq_inr hstat
    exact .inr ⟨f, hf, (Option.some.inj h).symm⟩

/-- Modification times are not used again: all those in the state are used, and an entry under the time of the present
file is its parse. -/
structure Consistent (unmarshal : List UInt8 → Except String PeerHashes) (σ : State C) : Prop where
  file : ∀ f, σ.file = some f → f.modTime ∈ σ.used
  calls : ∀ call modTime, σ.calls.lookup call = some modTime → modTime ∈ σ.used
  cache : σ.cache.hashes.isSome → σ.cache.modTime ∈ σ.used
  parsed : ∀ f, σ.file = some f → σ.cache.modTime = f.modTime → σ.cache.hashes.isSome →
    unmarshal f.raw = .ok σ.cache.hashes

theorem consistent_start (unmarshal : List UInt8 → Except String PeerHashes) (file : Option File) :
    Consistent unmarshal (start file : State C) := by
  refine ⟨?_, ?_, ?_, ?_⟩
  · rintro f hf
    simp_all [start]
  · intro call modTime h
    simp [start] at h
  · intro h
    simp [start] at h
  · intro f _ _ h
    simp [start] at h

theorem consistent_step (hσ : Consistent unmarshal σ) (h : step unmarshal σ e = some σ') : Consistent unmarshal σ' := by
  cases e with
  | replace file =>
    obtain ⟨hused, rfl⟩ := step_replace h
    refine ⟨?_, fun c m hc => List.mem_cons_of_mem _ (hσ.calls c m hc),
      fun hc => List.mem_cons_of_mem _ (hσ.cache hc), ?_⟩
    · rintro f hf
      obtain rfl := Option.some.inj hf
      exact List.mem_cons_self
    · -- the entry is under an earlier time
      rintro f hf htime hc
      obtain rfl := Option.some.inj hf
      exact absurd (htime ▸ hσ.cache hc) hused
  | remove =>
    obtain rfl := Option.some.inj h
    exact ⟨nofun, hσ.calls, hσ.cache, nofun⟩
  | stat call fault =>
    obtain ⟨-, rfl | ⟨f, hf, rfl⟩⟩ := step_stat h
    · exact hσ
    · refine ⟨hσ.file, fun c m hc => ?_, hσ.cache, hσ.parsed⟩
      by_cases heq : c = call
      · subst heq
        rw [AList.lookup_insert, Option.some.injEq] at hc
        exact hc ▸ hσ.file f hf
      · rw [AList.lookup_insert_ne heq] at hc
        exact hσ.calls c m hc
  | locked call fault =>
    obtain ⟨modTime, hcall, rfl⟩ := Option.map_eq_some_iff.mp h
    have hcalls : ∀ c m, (σ.calls.erase call).lookup c = some m → m ∈ σ.used := by
      intro c m hc
      by_cases heq : c = call
      · subst heq
        rw [AList.lookup_erase] at hc
        cases hc
      · rw [AList.lookup_erase_ne heq] at hc
        exact hσ.calls c m hc
    generalize hcache : (locked unmarshal fault σ.file modTime σ.cache).2 = cache'
    rcases cache_of_locked hcache with rfl | ⟨htime, hshows⟩
    · exact ⟨hσ.file, hcalls, hσ.cache, hσ.parsed⟩
    · refine ⟨hσ.file, hcalls, fun _ => ?_, fun f hf _ _ => ?_⟩
      · exact htime ▸ hσ.calls call modTime hcall
      · have hfile : σ.file = some f := hf
        rwa [hfile] at hshows

theorem lookup_calls_step (h : step unmarshal σ e = some σ') (he : e.call? ≠ some call) :
    σ'.calls.lookup call = σ.calls.lookup call := by
  cases e with
  | replace file =>
    obtain ⟨-, rfl⟩ := step_replace h
    rfl
  | remove => exact Option.some.inj h ▸ rfl
  | stat other fault =>
    have hne : call ≠ other := fun heq => he (heq ▸ rfl)
    obtain ⟨-, rfl | ⟨f, -, rfl⟩⟩ := step_stat h
    · rfl
    · exact AList.lookup_insert_ne hne
  | locked other fault =>
    have hne : call ≠ other := fun heq => he (heq ▸ rfl)
    obtain ⟨modTime, -, rfl⟩ := Option.map_eq_some_iff.mp h
    exact AList.lookup_erase_ne hne

/-- The time that a call holds after `os.Stat` is that of the file it found. -/
theorem exists_file_of_stat {fault : Option String} {modTime : Int} (h : step unmarshal σ (.stat call fault) = some σ')
    (hcall : σ'.calls.lookup call = some modTime) : ∃ f, σ.file = some f ∧ f.modTime = modTime := by
  obtain ⟨hnew, rfl | ⟨f, hf, rfl⟩⟩ := step_stat h
  · exact absurd (AList.lookup_isSome.mp (Option.isSome_of_eq_some hcall)) hnew
  · rw [AList.lookup_insert, Option.some.injEq] at hcall
    exact ⟨f, hf, hcall⟩

/-- The cache holds `hashes` under `modTime`. -/
def Caches (modTime : Int) (hashes : PeerHashes) (σ : State C) : Prop :=
  σ.cache.modTime = modTime ∧ hashes.isSome ∧ σ.cache.hashes = hashes

/-- **What enters the cache is what the file says then**, whatever the time it is put under. -/
theorem caches_step {modTime : Int} (h : step unmarshal σ e = some σ') (hcaches : Caches modTime hashes σ') :
    Caches modTime hashes σ ∨ Shows unmarshal σ.file hashes := by
  cases e with
  | replace file =>
    obtain ⟨-, rfl⟩ := step_replace h
    exact .inl hcaches
  | remove =>
    obtain rfl := Option.some.inj h
    exact .inl hcaches
  | stat other fault =>
    obtain ⟨-, rfl | ⟨f, -, rfl⟩⟩ := step_stat h
    · exact .inl hcaches
    · exact .inl hcaches
  | locked other fault =>
    obtain ⟨m, -, rfl⟩ := Option.map_eq_some_iff.mp h
    obtain ⟨htime, hsome, hhashes⟩ := hcaches
    generalize hcache : (locked unmarshal fault σ.file m σ.cache).2 = cache' at htime hhashes
    rcases cache_of_locked hcache with rfl | ⟨-, hshows⟩
    · exact .inl ⟨htime, hsome, hhashes⟩
    · exact .inr (hhashes ▸ hshows)

/-- **The cache is transparent.** A call that returns without error returns what the file said at some instant from its
start to its end. -/
theorem readPeerHashes_transparent (unmarshal : List UInt8 → Except String PeerHashes) (file : Option File)
    {before during : List (Event C)} (hbefore : run (step unmarshal) (start file) before = some σ)
    (hreturns : Returns unmarshal σ call during (.ok hashes)) :
    Sometime (step unmarshal) (fun τ => Shows unmarshal τ.file hashes) σ during := by
  have hσ : Consistent unmarshal σ :=
    run_invariant (fun _ _ _ hs hse => consistent_step hs hse) (consistent_start unmarshal file) hbefore
  cases hreturns with
  | stat hnew hreply =>
    refine sometime_of_head ?_ []
    exact shows_of_beforeLock (Sum.getLeft?_eq_some_iff.mp hreply)
  | @locked fault fault' others τ r hothers hrun hreply =>
    obtain ⟨modTime, hcall, hanswer⟩ := Option.map_eq_some_iff.mp hreply
    rcases answer_of_locked hanswer with hhit | hshows
    · obtain ⟨σ₁, hstat, hrun'⟩ := run_cons.mp hrun
      have hheld : τ.calls.lookup call = σ₁.calls.lookup call :=
        run_invariant_of_events (I := fun s : State C => s.calls.lookup call = σ₁.calls.lookup call)
          (fun _ _ _ hs he hse => (lookup_calls_step hse he).trans hs) rfl hothers hrun'
      obtain ⟨f, hf, rfl⟩ := exists_file_of_stat hstat (hheld ▸ hcall)
      -- an entry from before the call is under the time of the file that the call found
      rcases sometime_of_arises (fun _ _ _ => caches_step) hrun hhit with ⟨htime, hsome, rfl⟩ | hsometime
      · refine sometime_of_head ?_ _
        rw [hf]
        exact hσ.parsed f hf htime hsome
      · exact hsometime
    · exact sometime_of_run hrun hshows

/-- One peer, with the length of the file for its hash. -/
def lengthHash (raw : List UInt8) : PeerHashes :=
  some ((∅ : Dict String PeerHashEntry).insert "planner" ⟨toString raw.length, ""⟩)

/-- The events of a call `2`, while the file is replaced and a call `1` that began earlier goes on. -/
def overtaken : List (Event Nat) := [.stat 2 none, .replace ⟨2, [0, 0]⟩, .locked 1 none]

/-- Both calls found the first file. Call `1` caches the second one under the time of the first, and call `2` is answered
from that entry. -/
theorem readPeerHashes_transparent_outdated_time :
    ∃ σ : State Nat, run (step (.ok ∘ lengthHash)) (start (some ⟨1, [0]⟩)) [.stat 1 none] = some σ ∧
      Returns (.ok ∘ lengthHash) σ 2 overtaken (.ok (lengthHash [0, 0])) ∧
        Sometime (step (.ok ∘ lengthHash)) (fun τ => Shows (.ok ∘ lengthHash) τ.file (lengthHash [0, 0])) σ
          overtaken := by
  obtain ⟨σ, hσ⟩ : ∃ σ : State Nat, run (step (.ok ∘ lengthHash)) (start (some ⟨1, [0]⟩)) [.stat 1 none] = some σ :=
    ⟨_, rfl⟩
  have hreturns : Returns (.ok ∘ lengthHash) σ 2 overtaken (.ok (lengthHash [0, 0])) := by
    obtain rfl := Option.some.inj hσ
    exact .locked (by decide) rfl (show reply _ _ (.locked 2 none) = _ from rfl)
  exact ⟨σ, hσ, hreturns, readPeerHashes_transparent _ _ hσ hreturns⟩

end

end KynoMesh.Introspection
