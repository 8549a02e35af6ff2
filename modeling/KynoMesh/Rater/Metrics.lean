import KynoMesh.Lib.Dict
import Mathlib.Data.Int.Cast.Defs

/-!
# The rater of the daemon

The per-pod sample buffers of an AgentDeploy and the windowed aggregates over them (`rater/helper.go`,
`rater/rater.go`), and the gRPC service that wraps them (`service/service.go`). Timestamps and lookbacks are in seconds.

* `samplesInWindow`, `podRate`, `podInflightAvg` : one pod, one window; `rateWindow` : what a rate is computed from;
* `observedTransports`, `mem_observedTransports` : the transports that have values of their own;
* `getMetrics` : all windows of an AgentDeploy; `getMetrics_eq_ok` says what is reported, `getMetrics_reports` when the
  windows have values;
* `getAgentDeployMetrics` : the response of the daemon.
-/

namespace KynoMesh.Rater
open KynoMesh.Lib

def transportTotal : String := "__total__"

def lookback1m : Int := 60
def lookback5m : Int := 300
def lookback15m : Int := 900

/-- `Retention`, in seconds. -/
def retentionSec : Int := 1800

def windowKey1m : String := "1m"
def windowKey5m : String := "5m"
def windowKey15m : String := "15m"
def windowKeyCustom : String := "custom"

variable {F : Type}

/-- One scrape of one pod: the counters and the gauge, by transport. -/
structure PodSample (F : Type) where
  timestamp : Int
  requestsByTransport : Dict String F
  streamMessagesByTransport : Dict String F
  inflightByTransport : Dict String F

/-- The samples of every pod of an AgentDeploy, in append order. -/
abbrev AgentDeployBuffers (F : Type) := Dict String (List (PodSample F))

/-! ## One pod -/

/-- The samples from the first one at or after `nowUnix - lookbackSeconds` on. -/
def samplesInWindow (samples : List (PodSample F)) (nowUnix lookbackSeconds : Int) : List (PodSample F) :=
  samples.dropWhile fun s => decide (s.timestamp < nowUnix - lookbackSeconds)

section Arithmetic
variable [Zero F] [Add F] [Sub F] [Mul F] [Div F] [LT F] [DecidableLT F] [DecidableEq F] [IntCast F]

/-- The value of a per-transport map, or the sum over the transports. -/
def transportValue (m : Dict String F) (transport : String) : F :=
  if transport = transportTotal then m.entries.foldl (fun v e => v + e.2) 0 else (m.lookup transport).getD 0

def counterValue (s : PodSample F) (transport : String) (counterOf : PodSample F → Dict String F) : F :=
  transportValue (counterOf s) transport

def inflightValue (s : PodSample F) (transport : String) : F := transportValue s.inflightByTransport transport

/-- The state of the loop over the runs between counter resets. -/
structure RunScan (F : Type) where
  delta : F
  runStart : F
  prev : F

def scanCounter (c : RunScan F) (curr : F) : RunScan F :=
  if curr < c.prev then { delta := c.delta + (c.prev - c.runStart), runStart := 0, prev := curr }
  else { c with prev := curr }

/-- The per-second rate of a counter over the window; `none` when it is not computable. -/
def podRate (samples : List (PodSample F)) (nowUnix lookbackSeconds : Int) (transport : String)
    (counterOf : PodSample F → Dict String F) : Option F :=
  match samplesInWindow samples nowUnix lookbackSeconds with
  | [] => none
  | [_] => none
  | first :: second :: rest =>
    let last := (second :: rest).getLast (List.cons_ne_nil _ _)
    let timeDiff := last.timestamp - first.timestamp
    if timeDiff ≤ 0 then none
    else
      let start := counterValue first transport counterOf
      let c := ((second :: rest).map fun s => counterValue s transport counterOf).foldl scanCounter ⟨0, start, start⟩
      some ((c.delta + (c.prev - c.runStart)) / (timeDiff : F))

/-- The first sample of a window, the others, and the time between the first and the last; `none` when no rate can be
computed. -/
def rateWindow (samples : List (PodSample F)) (nowUnix lookbackSeconds : Int) :
    Option (PodSample F × List (PodSample F) × Int) :=
  match samplesInWindow samples nowUnix lookbackSeconds with
  | [] => none
  | [_] => none
  | first :: second :: rest =>
    let timeDiff := ((second :: rest).getLast (List.cons_ne_nil _ _)).timestamp - first.timestamp
    if timeDiff ≤ 0 then none else some (first, second :: rest, timeDiff)

/-- The weighted sum and the total weight of the steps of a gauge. -/
def gaugeSteps (transport : String) : List (PodSample F) → F × F → F × F
  | s :: t :: rest, (weightedSum, totalWeight) =>
    let width : F := ((t.timestamp - s.timestamp : Int) : F)
    gaugeSteps transport (t :: rest)
      (weightedSum + inflightValue s transport * width, totalWeight + width)
  | _, acc => acc

/-- The time-weighted average of the gauge over the window; `none` without a sample. -/
def podInflightAvg (samples : List (PodSample F)) (nowUnix lookbackSeconds : Int) (transport : String) : Option F :=
  match samplesInWindow samples nowUnix lookbackSeconds with
  | [] => none
  | [s] => some (inflightValue s transport)
  | first :: second :: rest =>
    let (weightedSum, totalWeight) := gaugeSteps transport (first :: second :: rest) (0, 0)
    let last := (second :: rest).getLast (List.cons_ne_nil _ _)
    if totalWeight = 0 then some (inflightValue last transport)
    else some (weightedSum / totalWeight)

/-! ## The AgentDeploy -/

/-- The sum over the pods of what is computable. -/
def sumOverPods (b : AgentDeployBuffers F) (f : List (PodSample F) → Option F) : F :=
  b.entries.foldl (fun total e => match f e.2 with | some v => total + v | none => total) 0

def calculateCounterRate (b : AgentDeployBuffers F) (nowUnix lookbackSeconds : Int) (transport : String)
    (counterOf : PodSample F → Dict String F) : F :=
  sumOverPods b fun samples => podRate samples nowUnix lookbackSeconds transport counterOf

def calculateRequestRate (b : AgentDeployBuffers F) (nowUnix lookbackSeconds : Int) (transport : String) : F :=
  calculateCounterRate b nowUnix lookbackSeconds transport PodSample.requestsByTransport

def calculateStreamMessageRate (b : AgentDeployBuffers F) (nowUnix lookbackSeconds : Int) (transport : String) : F :=
  calculateCounterRate b nowUnix lookbackSeconds transport PodSample.streamMessagesByTransport

def calculateInflightAvg (b : AgentDeployBuffers F) (nowUnix lookbackSeconds : Int) (transport : String) : F :=
  sumOverPods b fun samples => podInflightAvg samples nowUnix lookbackSeconds transport

end Arithmetic

/-- Some pod has two samples. -/
def hasUsableHistory (b : AgentDeployBuffers F) : Bool := b.entries.any fun e => 2 ≤ e.2.length

/-- The distinct transports of all samples. -/
def observedTransports (b : AgentDeployBuffers F) : List String :=
  let set : Dict String Unit := b.entries.foldl (fun set e => e.2.foldl (fun set s =>
    (s.requestsByTransport.keys ++ s.streamMessagesByTransport.keys ++ s.inflightByTransport.keys).foldl
      (fun set k => set.insert k ()) set) set) ∅
  set.keys

/-- The sample has a counter or a gauge of the transport. -/
def PodSample.names (s : PodSample F) (transport : String) : Prop :=
  transport ∈ s.requestsByTransport ∨ transport ∈ s.streamMessagesByTransport ∨ transport ∈ s.inflightByTransport

theorem mem_observedTransports {b : AgentDeployBuffers F} {t : String} :
    t ∈ observedTransports b ↔ ∃ e ∈ b.entries, ∃ s ∈ e.2, s.names t := by
  have hsample : ∀ (d : Dict String Unit) (s : PodSample F),
      t ∈ (s.requestsByTransport.keys ++ s.streamMessagesByTransport.keys ++ s.inflightByTransport.keys).foldl
        (fun set k => set.insert k ()) d ↔ s.names t ∨ t ∈ d := by
    intro d s
    rw [mem_foldl_insert (fun k => k) (fun _ => ()), List.map_id'' fun _ => rfl, List.mem_append, List.mem_append]
    exact or_congr_left or_assoc
  unfold observedTransports
  rw [← AList.mem_keys, mem_foldl_iff fun d e => mem_foldl_iff hsample e.2 d]
  exact or_iff_left (AList.notMem_empty t)

/-! ## `GetMetrics` -/

/-- One value per window key. -/
structure PerWindowValues (F : Type) where
  processingRates : Dict String F
  streamMessageRates : Dict String F
  inflights : Dict String F

structure WindowedResult (F : Type) where
  total : PerWindowValues F
  perTransport : Dict String (PerWindowValues F)
  customWindowEffectiveSec : Int

inductive RaterError where
  | unknownAgentDeploy
  | noData
  deriving DecidableEq

def RaterError.message : RaterError → String
  | .unknownAgentDeploy => "unknown AgentDeploy"
  | .noData => "not enough samples to compute metrics"

/-- The custom window, clamped to the retention; `0` when it is not requested. -/
def effectiveCustom (lookbackSeconds : Int) : Int := if lookbackSeconds > 0 then min lookbackSeconds retentionSec else 0

/-- The windows of a request: their keys and effective lookbacks. -/
def windows (lookbackSeconds : Int) : List (String × Int) :=
  [(windowKey1m, lookback1m), (windowKey5m, lookback5m), (windowKey15m, lookback15m)] ++
    if lookbackSeconds > 0 then [(windowKeyCustom, effectiveCustom lookbackSeconds)] else []

section Arithmetic
variable [Zero F] [Add F] [Sub F] [Mul F] [Div F] [LT F] [DecidableLT F] [DecidableEq F] [IntCast F]

def perWindowValues (b : AgentDeployBuffers F) (now : Int) (ws : List (String × Int)) (transport : String) :
    PerWindowValues F where
  processingRates := ws.foldl (fun m w => m.insert w.1 (calculateRequestRate b now w.2 transport)) ∅
  streamMessageRates := ws.foldl (fun m w => m.insert w.1 (calculateStreamMessageRate b now w.2 transport)) ∅
  inflights := ws.foldl (fun m w => m.insert w.1 (calculateInflightAvg b now w.2 transport)) ∅

def getMetrics (buffers : Dict String (AgentDeployBuffers F)) (now : Int) (name : String) (lookbackSeconds : Int) :
    Except RaterError (WindowedResult F) :=
  match buffers.lookup name with
  | none => .error .unknownAgentDeploy
  | some buf =>
    if hasUsableHistory buf then
      let ws := windows lookbackSeconds
      .ok
        { total := perWindowValues buf now ws transportTotal
          perTransport := (observedTransports buf).foldl (fun m t => m.insert t (perWindowValues buf now ws t)) ∅
          customWindowEffectiveSec := effectiveCustom lookbackSeconds }
    else .error .noData

/-- The result has an in-flight value or a processing rate for the window `key`, in total or for a transport. -/
def WindowedResult.reports (res : WindowedResult F) (key : String) : Prop :=
  key ∈ res.total.inflights ∨ key ∈ res.total.processingRates ∨
    ∃ e ∈ res.perTransport.entries, key ∈ e.2.inflights ∨ key ∈ e.2.processingRates

theorem mem_perWindowValues (b : AgentDeployBuffers F) (now : Int) (ws : List (String × Int)) (transport key : String) :
    key ∈ (perWindowValues b now ws transport).inflights ↔ key ∈ ws.map Prod.fst := by
  rw [perWindowValues, mem_foldl_insert]
  simp

theorem getMetrics_eq_ok {buffers : Dict String (AgentDeployBuffers F)} {now : Int} {name : String}
    {lookbackSeconds : Int} {buf : AgentDeployBuffers F} {res : WindowedResult F}
    (hbuf : buffers.lookup name = some buf) (hres : getMetrics buffers now name lookbackSeconds = .ok res) :
    res.total = perWindowValues buf now (windows lookbackSeconds) transportTotal ∧
      res.perTransport.entries.Perm ((observedTransports buf).map fun t =>
        ⟨t, perWindowValues buf now (windows lookbackSeconds) t⟩) := by
  rw [getMetrics, hbuf] at hres
  dsimp only at hres
  split_ifs at hres
  obtain rfl := Except.ok.inj hres
  refine ⟨rfl, perm_entries_foldl_insert (fun t => perWindowValues buf now (windows lookbackSeconds) t) ?_⟩
  rw [List.map_id'' fun _ => rfl]
  exact AList.keys_nodup _

/-- A known AgentDeploy with two samples of some pod reports every window. -/
theorem getMetrics_reports {buffers : Dict String (AgentDeployBuffers F)} {name : String}
    {buf : AgentDeployBuffers F} (hbuf : buffers.lookup name = some buf) (huse : hasUsableHistory buf = true)
    (now lookbackSeconds : Int) {w : String × Int} (hw : w ∈ windows lookbackSeconds) :
    ∃ res, getMetrics buffers now name lookbackSeconds = .ok res ∧ res.reports w.1 := by
  refine ⟨_, by rw [getMetrics, hbuf]; exact if_pos huse, .inl ?_⟩
  rw [mem_perWindowValues]
  exact List.mem_map_of_mem hw

/-! ## The service -/

inductive Code where
  | notFound
  | unavailable
  | internal
  | other (code : UInt32)
  deriving DecidableEq

/-- A gRPC status error. -/
structure Status where
  code : Code
  message : String
  deriving DecidableEq

structure TransportWindowedMetrics (F : Type) where
  processingRates : Dict String (Option F)
  streamMessageRates : Dict String (Option F)
  inflights : Dict String (Option F)

/-- The protobuf message. A value of a map is a pointer to a `DoubleValue`. -/
structure AgentDeployMetrics (F : Type) where
  agentSet : String
  agentDeploy : String
  processingRates : Dict String (Option F)
  streamMessageRates : Dict String (Option F)
  inflights : Dict String (Option F)
  byTransport : Dict String (TransportWindowedMetrics F)
  customWindowEffectiveSeconds : Option Int

def mapFloatToDV (m : Dict String F) : Dict String (Option F) := mapValues some m

/-- `GetAgentDeployMetrics` of the service, in a daemon of `agentSet`. -/
def getAgentDeployMetrics (agentSet : String) (buffers : Dict String (AgentDeployBuffers F)) (now : Int)
    (name : String) (lookbackSeconds : Int) : Except Status (AgentDeployMetrics F) :=
  match getMetrics buffers now name lookbackSeconds with
  | .error .unknownAgentDeploy => .error ⟨.notFound, "unknown AgentDeploy \"" ++ name ++ "\""⟩
  | .error .noData => .error ⟨.unavailable, "no samples yet for \"" ++ name ++ "\""⟩
  | .ok res => .ok
    { agentSet := agentSet
      agentDeploy := name
      processingRates := mapFloatToDV res.total.processingRates
      streamMessageRates := mapFloatToDV res.total.streamMessageRates
      inflights := mapFloatToDV res.total.inflights
      byTransport := mapValues (fun v =>
        { processingRates := mapFloatToDV v.processingRates
          streamMessageRates := mapFloatToDV v.streamMessageRates
          inflights := mapFloatToDV v.inflights }) res.perTransport
      customWindowEffectiveSeconds :=
        if res.customWindowEffectiveSec = 0 then none else some res.customWindowEffectiveSec }

end Arithmetic

end KynoMesh.Rater
