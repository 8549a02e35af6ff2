import KynoMesh.History.Sample

/-!
# The capacity estimator

`EstimateKnee` of `decision/estimator.go`: the per-replica concurrency at which throughput stops rising, learned from the
rate-against-concurrency curve of a history, and how far to trust it. Where the Go code would index out of range, the
result is `none`.
-/

namespace KynoMesh.Scaling

open KynoMesh.Lib KynoMesh.History

variable {F : Type}

structure Estimate (F : Type) where
  kneePerReplica : F
  isLowerBound : Bool
  confidence : F
  deriving DecidableEq

/-- Samples of one concurrency band, collapsed to recency-weighted means. -/
structure Bucket (F : Type) where
  inflight : F
  rate : F
  weight : F
  deriving DecidableEq

/-- The order that `bucketize` sorts by. -/
def lighter [LT F] [DecidableLT F] (a b : Bucket F) : Bool := decide (a.inflight < b.inflight)

def decayHalfLife : Int := 6 * 3600 * second
def minSamplesToLearn : Nat := 8
def fullConfidenceWindow : Int := 10 * 60 * second
def numBuckets : Nat := 10

section
variable [Zero F] [Add F] [Sub F] [Mul F] [Div F] [Neg F] [LT F] [LE F] [DecidableLT F] [DecidableLE F] [Max F] [Min F]
  [IntCast F]

/-- The constant `p / q`. -/
def ratio (p q : Int) : F := (p : F) / (q : F)

def plateauFraction : F := ratio 2 10
def lowerBoundPenalty : F := ratio 4 10

def clampF (v lo hi : F) : F := max lo (min hi v)

/-- Exponential decay of a sample's weight with its age; a sample from the future has full weight. -/
def recencyWeight (math : GoMath F) (age : Int) : F :=
  if age < 0 then ((1 : Int) : F)
  else
    let tau : F := (decayHalfLife : F) / math.ln2
    math.exp (-(age : F) / tau)

/-- The weighted sums of one band. -/
structure Acc (F : Type) where
  wInflight : F
  wRate : F
  w : F

/-- `accs[idx]` is updated. -/
def updateAt (accs : List (Acc F)) (idx : Int) (f : Acc F → Acc F) : Option (List (Acc F)) :=
  if 0 ≤ idx ∧ idx < accs.length then some (accs.modify idx.toNat f) else none

/-- The band of a concurrency, in the span from `minI` on. -/
def bucketIndex (math : GoMath F) (minI span inflight : F) : Int :=
  let idx := math.truncInt ((inflight - minI) / span * ((numBuckets : Int) : F))
  if idx ≥ numBuckets then numBuckets - 1 else idx

def accumulate (math : GoMath F) (now : Int) (minI span : F) (accs : List (Acc F)) (s : Sample F) :
    Option (List (Acc F)) :=
  let w := recencyWeight math (timeSub now s.timestamp)
  updateAt accs (bucketIndex math minI span s.inflightPerRep) fun a =>
    { wInflight := a.wInflight + s.inflightPerRep * w, wRate := a.wRate + s.ratePerRep * w, w := a.w + w }

/-- The non-empty bands, lightest first. -/
def bucketize (math : GoMath F) (byInflight : SortSlice (Bucket F) lighter) (clean : List (Sample F)) (now : Int) :
    Option (List (Bucket F)) :=
  match clean with
  | [] => none
  | first :: _ =>
    let minI := clean.foldl (fun m s => min m s.inflightPerRep) first.inflightPerRep
    let maxI := clean.foldl (fun m s => max m s.inflightPerRep) first.inflightPerRep
    if maxI ≤ minI then some [{ inflight := maxI, rate := 0, weight := ((1 : Int) : F) }]
    else do
      let accs ← clean.foldlM (accumulate math now minI (maxI - minI)) (List.replicate numBuckets ⟨0, 0, 0⟩)
      let out := (accs.filter fun a => ¬a.w ≤ 0).map fun a =>
        { inflight := a.wInflight / a.w, rate := a.wRate / a.w, weight := a.w }
      return byInflight.run out

/-- The walk of `findKnee` from the bucket after `prev` on. -/
def findKneeFrom (ref : F) (prev : Bucket F) : List (Bucket F) → F × Bool
  | [] => (prev.inflight, true)
  | b :: rest =>
    let dIn := b.inflight - prev.inflight
    if dIn ≤ 0 then findKneeFrom ref b rest
    else
      let marginal := (b.rate - prev.rate) / dIn
      if marginal < plateauFraction * ref then (prev.inflight, false) else findKneeFrom ref b rest

/-- The knee, and whether it is only a lower bound. -/
def findKnee (first : Bucket F) (rest : List (Bucket F)) : F × Bool :=
  let ref := first.rate / first.inflight
  if ref ≤ 0 then (((first :: rest).getLast (List.cons_ne_nil _ _)).inflight, true) else findKneeFrom ref first rest

def timeSpanFactor (clean : List (Sample F)) : F :=
  match clean with
  | [] => 0
  | [_] => 0
  | first :: second :: rest =>
    let last := (second :: rest).getLast (List.cons_ne_nil _ _)
    let span := timeSub last.timestamp first.timestamp
    clampF ((span : F) / (fullConfidenceWindow : F)) 0 ((1 : Int) : F)

def coverageFactor (first : Bucket F) (rest : List (Bucket F)) : F :=
  let lo := first.inflight
  let hi := ((first :: rest).getLast (List.cons_ne_nil _ _)).inflight
  if hi ≤ 0 then 0 else clampF ((hi - lo) / hi) 0 ((1 : Int) : F)

def confidence (clean : List (Sample F)) (first : Bucket F) (rest : List (Bucket F)) (isLowerBound : Bool) : F :=
  let c := timeSpanFactor clean * coverageFactor first rest
  clampF (if isLowerBound then c * lowerBoundPenalty else c) 0 ((1 : Int) : F)

def estimateKnee (math : GoMath F) (byTime : SortSlice (Sample F) earlier) (byInflight : SortSlice (Bucket F) lighter)
    (hist : List (Sample F)) (now : Int) : Option (Estimate F) :=
  let clean := sanitize math byTime hist
  if clean.length < minSamplesToLearn then some { kneePerReplica := 0, isLowerBound := false, confidence := 0 }
  else do
    match ← bucketize math byInflight clean now with
    | [] => none
    | [b] =>
      return { kneePerReplica := b.inflight, isLowerBound := true,
               confidence := lowerBoundPenalty * timeSpanFactor clean }
    | first :: rest =>
      let (knee, isLowerBound) := findKnee first rest
      return { kneePerReplica := knee, isLowerBound := isLowerBound,
               confidence := confidence clean first rest isLowerBound }

end

end KynoMesh.Scaling
