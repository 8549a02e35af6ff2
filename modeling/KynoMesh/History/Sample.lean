import KynoMesh.Lib.GoStd

/-!
# Samples of a replica set

`history/sample.go`: a reading of the per-replica load, at a fleet size, at an instant, and the readings of a history
that are fit to learn from. The numbers of Go's `float64` are an arbitrary type `F` with the operations that the code
uses.
-/

namespace KynoMesh.History

open KynoMesh.Lib

/-- One observation. The timestamp is in nanoseconds since the Unix epoch. -/
structure Sample (F : Type) where
  timestamp : Int
  replicas : Int32
  inflightPerRep : F
  ratePerRep : F
  deriving DecidableEq

variable {F : Type}

def warmupAfterScale : Int := 60 * second

/-- The order that `Sanitize` sorts by. -/
def earlier (a b : Sample F) : Bool := decide (a.timestamp < b.timestamp)

section
variable [Zero F] [LT F] [DecidableLT F]

/-- A usable, positive load signal. -/
def Sample.valid (math : GoMath F) (s : Sample F) : Bool :=
  decide (0 < s.replicas) && decide (0 < s.inflightPerRep) && decide (0 < s.ratePerRep) &&
    !math.isNaN s.inflightPerRep && !math.isNaN s.ratePerRep

/-- Of neighbours with one timestamp, keep the last. -/
def dedupByTimestamp (sorted : List (Sample F)) : List (Sample F) :=
  sorted.foldl (fun out s =>
    match out.getLast? with
    | some last => if s.timestamp = last.timestamp then out.dropLast ++ [s] else out ++ [s]
    | none => out ++ [s]) []

/-- The state of the loop of `Sanitize`. -/
structure WarmupScan (F : Type) where
  lastChange : Int := zeroTime
  prevReplicas : Int32
  clean : List (Sample F) := []

def scanSample (math : GoMath F) (c : WarmupScan F) (s : Sample F) : WarmupScan F :=
  -- the first sample has the count that the scan starts from
  let lastChange := if s.replicas ≠ c.prevReplicas then s.timestamp else c.lastChange
  let warmingUp := lastChange ≠ zeroTime ∧ timeSub s.timestamp lastChange < warmupAfterScale
  { lastChange := lastChange
    prevReplicas := s.replicas
    clean := if s.valid math = true ∧ ¬warmingUp then c.clean ++ [s] else c.clean }

def sanitize (math : GoMath F) (byTime : SortSlice (Sample F) earlier) (history : List (Sample F)) :
    List (Sample F) :=
  match dedupByTimestamp (byTime.run history) with
  | [] => []
  | first :: rest => ((first :: rest).foldl (scanSample math) { prevReplicas := first.replicas }).clean

end

end KynoMesh.History
