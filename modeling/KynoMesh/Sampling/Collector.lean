import Mathlib.Data.Rat.Defs
import KynoMesh.Api.Types
import KynoMesh.History.Sample
import KynoMesh.Rater.Metrics

/-!
# The sample collector

`collectSample` turns the daemon's fleet totals into a per-replica sample (`sampling/collector.go`).

* `noData_not_reported_iff` : a window without any sample is reported as absent exactly when no pod of the AgentDeploy
  has two samples of any age, or the daemon does not know the AgentDeploy. Otherwise the daemon reports zeros.
-/

namespace KynoMesh.Sampling
open KynoMesh.Lib KynoMesh.Api KynoMesh.Rater KynoMesh.History

variable {F : Type}

/-- The value of a window, if the map has one that is not a nil pointer. -/
def doubleVal (m : Dict String (Option F)) (window : String) : Option F := (m.lookup window).join

/-- The window that a sample is read from. -/
def sampleWindow (lookback : Int) : String := if lookback > 0 then windowKeyCustom else windowKey1m

/-- `collectSample`, from the daemon's answer: `.ok none` is "no usable sample this tick". -/
def collectSample [Div F] [IntCast F] (answer : Except Status (AgentDeployMetrics F)) (ad : AgentDeploy) (now : Int)
    (lookback : Int) : Except String (Option (Sample F)) :=
  match answer with
  | .error status =>
    match status.code with
    | .unavailable => .ok none
    | .notFound => .ok none
    | _ => .error ("get agentdeploy metrics: " ++ status.message)
  | .ok m =>
    match doubleVal m.inflights (sampleWindow lookback), doubleVal m.processingRates (sampleWindow lookback) with
    | some totalInflight, some totalRate =>
      let ready := ad.status.readyReplicas
      if ready = 0 then .ok none
      else
        let divisor : F := ((ready.toNat : Int) : F)
        .ok (some
          { timestamp := now
            replicas := Int32.ofNat ready.toNat
            inflightPerRep := totalInflight / divisor
            ratePerRep := totalRate / divisor })
    | _, _ => .ok none

/-- Some pod has a sample in the window of length `lookback` that ends at `now`. -/
def SampleInWindow (buf : AgentDeployBuffers F) (now lookback : Int) : Prop :=
  ∃ e ∈ buf.entries, ∃ s ∈ e.2, now - lookback ≤ s.timestamp ∧ s.timestamp ≤ now

instance (buf : AgentDeployBuffers F) (now lookback : Int) : Decidable (SampleInWindow buf now lookback) :=
  inferInstanceAs (Decidable (∃ e ∈ buf.entries, ∃ s ∈ e.2, now - lookback ≤ s.timestamp ∧ s.timestamp ≤ now))

section Arithmetic
variable [Zero F] [Add F] [Sub F] [Mul F] [Div F] [LT F] [DecidableLT F] [DecidableEq F] [IntCast F]

/-- Nothing is said of the window `key`: `GetMetrics` has no value for it, and a sample read from it is not usable. -/
def Silent (agentSet : String) (buffers : Dict String (AgentDeployBuffers F)) (ad : AgentDeploy)
    (clock now lookback : Int) (key : String) : Prop :=
  (∀ res, getMetrics buffers clock ad.spec.agent.name lookback = .ok res → ¬res.reports key) ∧
    (key = sampleWindow lookback →
      collectSample (getAgentDeployMetrics agentSet buffers clock ad.spec.agent.name lookback) ad now lookback =
        .ok none)

theorem silent_of_error {agentSet : String} {buffers : Dict String (AgentDeployBuffers F)} {ad : AgentDeploy}
    {clock lookback : Int} {e : RaterError} (h : getMetrics buffers clock ad.spec.agent.name lookback = .error e)
    (now : Int) (key : String) : Silent agentSet buffers ad clock now lookback key := by
  refine ⟨fun res hres => ?_, fun _ => ?_⟩
  · rw [h] at hres
    cases hres
  · unfold getAgentDeployMetrics
    cases e <;> simp [h, collectSample]

/-- **Absence of data.** For every window of a request: that no sample in it implies silence about it is the same as
that it holds a sample, or no pod of the AgentDeploy has two samples, or the daemon does not know the AgentDeploy. -/
theorem noData_not_reported_iff (agentSet : String) (buffers : Dict String (AgentDeployBuffers F)) (ad : AgentDeploy)
    (clock now lookback : Int) (w : String × Int) (hw : w ∈ windows lookback) :
    ((∀ buf, buffers.lookup ad.spec.agent.name = some buf → ¬SampleInWindow buf clock w.2) →
        Silent agentSet buffers ad clock now lookback w.1) ↔
      (∀ buf, buffers.lookup ad.spec.agent.name = some buf →
        SampleInWindow buf clock w.2 ∨ hasUsableHistory buf = false) := by
  cases hbuf : buffers.lookup ad.spec.agent.name with
  | none =>
    have hsilent : Silent agentSet buffers ad clock now lookback w.1 :=
      silent_of_error (e := .unknownAgentDeploy) (by simp [getMetrics, hbuf]) now w.1
    simp [hsilent]
  | some buf =>
    simp only [Option.some.injEq, forall_eq']
    cases huse : hasUsableHistory buf with
    | false =>
      have hsilent : Silent agentSet buffers ad clock now lookback w.1 :=
        silent_of_error (e := .noData) (by simp [getMetrics, hbuf, huse]) now w.1
      simp [hsilent]
    | true =>
      obtain ⟨res, hres, hrep⟩ := getMetrics_reports hbuf huse clock lookback hw
      have hloud : ¬Silent agentSet buffers ad clock now lookback w.1 := fun hs => hs.1 res hres hrep
      simp [hloud]

end Arithmetic

/-- A scrape at `timestamp` with two requests in flight. -/
def busySample (timestamp : Int) : PodSample ℚ where
  timestamp := timestamp
  requestsByTransport := AList.insert "rest" (timestamp : ℚ) ∅
  streamMessagesByTransport := ∅
  inflightByTransport := AList.insert "rest" 2 ∅

/-- The daemon has scraped the one pod of `planner` at the given times. -/
def scrapedAt (timestamps : List Int) : Dict String (AgentDeployBuffers ℚ) :=
  AList.insert "planner" (AList.insert "planner-0" (timestamps.map busySample) ∅) ∅

def plannerDeploy : AgentDeploy where
  metadata := { nspace := "default", name := "mesh-planner" }
  spec := { agent := { name := "planner" }, agentSetName := "mesh" }
  status := { readyReplicas := 1 }

/-- One stale sample: the daemon is silent about the last minute. -/
theorem noData_not_reported_single :
    Silent "mesh" (scrapedAt [0]) plannerDeploy 3600 0 0 windowKey1m :=
  (noData_not_reported_iff "mesh" (scrapedAt [0]) plannerDeploy 3600 0 0 (windowKey1m, lookback1m) (by decide)).mpr
    (by
      intro buf hbuf
      cases hbuf
      decide)
    (by
      intro buf hbuf
      cases hbuf
      decide)

/-- Two stale samples, an hour old, two requests in flight when last seen: no pod has a sample in the last minute, and
the collector records a sample of zero load. -/
theorem stale_samples_recorded_as_zero :
    (∀ buf, (scrapedAt [0, 5]).lookup plannerDeploy.spec.agent.name = some buf →
        ¬SampleInWindow buf 3600 lookback1m) ∧
      collectSample (getAgentDeployMetrics "mesh" (scrapedAt [0, 5]) 3600 "planner" 0) plannerDeploy 0 0 =
        .ok (some { timestamp := 0, replicas := 1, inflightPerRep := 0, ratePerRep := 0 }) := by
  constructor
  · intro buf hbuf
    cases hbuf
    decide
  · decide +kernel

end KynoMesh.Sampling
