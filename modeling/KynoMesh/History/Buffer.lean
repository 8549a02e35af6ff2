import KynoMesh.History.Sample
import KynoMesh.Lib.GoStd
import KynoMesh.Lib.Retention

/-!
# The in-memory history

`buffer` of `history/buffer.go`: records in time order, bounded by age and by count. Eviction is lazy: an append evicts
relative to the sample's own time, a query relative to its clock, and nothing else evicts.

`Retains b clock log` relates a buffer to the full log of the samples given to it: up to `clock`, it has lost nothing
that a query may still ask for. Every operation keeps it (`Retains.add`, `Retains.evictLocked`, `retains_reset`), and
`Retains.samples_eq` reads off what a query returns.
-/

namespace KynoMesh.History

open KynoMesh.Lib

variable {F : Type}

/-- A persisted observation: a sample and the number of raw samples folded into it. -/
structure Record (F : Type) where
  sample : Sample F
  count : UInt16
  deriving DecidableEq

/-- The bounds of a buffer, with their defaults. -/
structure Bounds where
  maxAge : Int := 7 * 24 * 3600 * second
  maxRecords : Nat := 12000
  deriving DecidableEq

structure Buffer (F : Type) extends Bounds where
  records : List (Record F) := []
  deriving DecidableEq

/-- Drop the leading records older than `maxAge`, then the oldest ones beyond `maxRecords`. -/
def Buffer.evictLocked (b : Buffer F) (now : Int) : Buffer F :=
  let cutoff := now - b.maxAge
  let kept := b.records.dropWhile fun r => decide (r.sample.timestamp < cutoff)
  { b with records := kept.drop (kept.length - b.maxRecords) }

def Buffer.add (b : Buffer F) (s : Sample F) : Buffer F :=
  Buffer.evictLocked { b with records := b.records ++ [{ sample := s, count := 1 }] } s.timestamp

def Buffer.reset (b : Buffer F) : Buffer F := { b with records := [] }

/-- The samples that a query at `now` returns, and the buffer that it leaves. -/
def Buffer.samples (b : Buffer F) (now : Int) : List (Sample F) × Buffer F :=
  let b' := b.evictLocked now
  (b'.records.map Record.sample, b')

def Buffer.snapshot (b : Buffer F) : List (Record F) := b.records

def Buffer.load (b : Buffer F) (records : List (Record F)) : Buffer F := { b with records := records }

theorem records_evictLocked_subset (b : Buffer F) (now : Int) : (b.evictLocked now).records ⊆ b.records :=
  List.Subset.trans (List.drop_subset _ _) (List.dropWhile_suffix _).subset

theorem mem_records_add {b : Buffer F} {s : Sample F} {r : Record F} (h : r ∈ (b.add s).records) :
    r ∈ b.records ∨ r.sample = s := by
  rcases List.mem_append.mp (records_evictLocked_subset _ _ h) with hold | hnew
  · exact .inl hold
  · rw [List.mem_singleton.mp hnew]
    exact .inr rfl

/-! ## What a buffer retains -/

/-- The samples of a log that a query at `now` asks for: those not older than `maxAge`, and of these the last
`maxRecords`. -/
def Bounds.window (B : Bounds) (now : Int) (log : List (Sample F)) : List (Sample F) :=
  (log.filter fun s => decide (now - B.maxAge ≤ s.timestamp)).rtake B.maxRecords

/-- The buffer holds the end of the log, and all of it that a query from `clock` on may ask for. -/
structure Retains (b : Buffer F) (clock : Int) (log : List (Sample F)) : Prop where
  ordered : TimeOrdered Sample.timestamp log
  le_clock : ∀ s ∈ log, s.timestamp ≤ clock
  suffix : b.records.map Record.sample <:+ log
  length_le : b.records.length ≤ b.maxRecords
  recent_eq : ∀ cutoff, clock - b.maxAge ≤ cutoff →
    recent Sample.timestamp cutoff b.maxRecords (b.records.map Record.sample) =
      recent Sample.timestamp cutoff b.maxRecords log

theorem retains_reset (b : Buffer F) (clock : Int) : Retains b.reset clock [] where
  ordered := List.Pairwise.nil
  le_clock := by simp
  suffix := List.suffix_rfl
  length_le := Nat.zero_le _
  recent_eq := fun _ _ => rfl

theorem Retains.mono {b : Buffer F} {clock clock' : Int} {log : List (Sample F)} (h : Retains b clock log)
    (hle : clock ≤ clock') : Retains b clock' log where
  ordered := h.ordered
  le_clock := fun s hs => (h.le_clock s hs).trans hle
  suffix := h.suffix
  length_le := h.length_le
  recent_eq := fun cutoff hc => h.recent_eq cutoff (by omega)

theorem records_evictLocked {b : Buffer F} (h : TimeOrdered Sample.timestamp (b.records.map Record.sample))
    (now : Int) :
    (b.evictLocked now).records.map Record.sample =
      recent Sample.timestamp (now - b.maxAge) b.maxRecords (b.records.map Record.sample) := by
  have hord : TimeOrdered (fun r : Record F => r.sample.timestamp) b.records := by
    rwa [TimeOrdered, List.pairwise_map] at h
  rw [recent_map (f := fun r : Record F => r.sample.timestamp) fun _ => rfl, recent_eq_dropWhile hord]
  rfl

/-- Evicting a history that is longer by what was just appended restores the count bound. -/
theorem retains_evictLocked {b : Buffer F} {clock now : Int} {log : List (Sample F)} (hle : clock ≤ now)
    (hord : TimeOrdered Sample.timestamp log) (hclock : ∀ s ∈ log, s.timestamp ≤ clock)
    (hsuf : b.records.map Record.sample <:+ log)
    (heq : ∀ cutoff, clock - b.maxAge ≤ cutoff →
      recent Sample.timestamp cutoff b.maxRecords (b.records.map Record.sample) =
        recent Sample.timestamp cutoff b.maxRecords log) :
    Retains (b.evictLocked now) now log := by
  have hrec := records_evictLocked (hord.sublist hsuf.sublist) now
  constructor
  · exact hord
  · exact fun s hs => (hclock s hs).trans hle
  · rw [hrec]
    exact recent_suffix.trans hsuf
  · have hlen := congrArg List.length hrec
    rw [List.length_map] at hlen
    rw [hlen]
    exact length_recent_le
  · intro cutoff hc
    change now - b.maxAge ≤ cutoff at hc
    rw [hrec]
    exact (recent_recent hc).trans (heq cutoff (by omega))

theorem Retains.evictLocked {b : Buffer F} {clock now : Int} {log : List (Sample F)} (h : Retains b clock log)
    (hle : clock ≤ now) : Retains (b.evictLocked now) now log :=
  retains_evictLocked hle h.ordered h.le_clock h.suffix h.recent_eq

theorem Retains.add {b : Buffer F} {clock : Int} {log : List (Sample F)} (h : Retains b clock log) {s : Sample F}
    (hs : clock ≤ s.timestamp) : Retains (b.add s) s.timestamp (log ++ [s]) := by
  have hold : ∀ r ∈ log, r.timestamp ≤ s.timestamp := fun r hr => (h.le_clock r hr).trans hs
  apply retains_evictLocked le_rfl
  · exact List.pairwise_append.mpr ⟨h.ordered, List.pairwise_singleton _ _, by simpa using hold⟩
  · simpa [or_imp, forall_and] using hold
  · obtain ⟨older, holder⟩ := h.suffix
    exact ⟨older, by rw [List.map_append, ← List.append_assoc, holder]; rfl⟩
  · intro cutoff hc
    change s.timestamp - b.maxAge ≤ cutoff at hc
    rw [List.map_append]
    exact recent_append_congr (h.recent_eq cutoff (by omega)) [s]

/-- **What a query returns.** -/
theorem Retains.samples_eq {b : Buffer F} {clock now : Int} {log : List (Sample F)} (h : Retains b clock log)
    (hle : clock ≤ now) : (b.samples now).1 = b.window now log := by
  have hrec := records_evictLocked (h.ordered.sublist h.suffix.sublist) now
  calc (b.samples now).1
      = recent Sample.timestamp (now - b.maxAge) b.maxRecords (b.records.map Record.sample) := hrec
    _ = recent Sample.timestamp (now - b.maxAge) b.maxRecords log := h.recent_eq _ (by omega)
    _ = b.window now log := recent_eq_filter h.ordered

end KynoMesh.History
