import Mathlib.Algebra.BigOperators.Group.Multiset.Basic
import Mathlib.Algebra.BigOperators.Ring.List
import Mathlib.Algebra.Order.BigOperators.Group.List
import Mathlib.Algebra.Order.Ring.Rat
import KynoMesh.Rater.Exact

/-!
# Totals and their transports

`GetMetrics` reports a total beside the values of the single transports. The total of a counter is the rate of the summed
counter, so that a fall of one transport's counter is read from the sum.

* `increment_sum` : between two samples, the summed counter differs from the counters by what `misread` says;
* `calculateCounterRate_total`, `calculateInflightAvg_total` : totals of an AgentDeploy over one window;
* `totals_iff` : every total of `GetMetrics` is the sum over the transports exactly when, in every window, the misread
  parts of the counters cancel out; `misread_eq_zero` is the usual reason.
-/

namespace KynoMesh.Rater
open KynoMesh.Lib

variable {F : Type} [Field F] [LinearOrder F]

theorem sum_map_comm {α β M : Type} [AddCommMonoid M] (l : List α) (m : List β) (f : α → β → M) :
    (l.map fun a => (m.map fun b => f a b).sum).sum = (m.map fun b => (l.map fun a => f a b).sum).sum := by
  simpa using Multiset.sum_map_sum_map (l : Multiset α) (m : Multiset β) (f := f)

/-! ## Two samples -/

/-- What the increment of the summed counter has over the increments of the counters `ts`. When the sum falls, the
counters that did not fall are counted from zero too; when it does not, those that fell are counted from their last
value. -/
def misread (ts : List String) (prev curr : String → F) : F :=
  if (ts.map curr).sum < (ts.map prev).sum then (ts.map fun t => if curr t < prev t then 0 else prev t).sum
  else -(ts.map fun t => if curr t < prev t then prev t else 0).sum

theorem increment_sum (ts : List String) (prev curr : String → F) :
    increment (ts.map prev).sum (ts.map curr).sum =
      (ts.map fun t => increment (prev t) (curr t)).sum + misread ts prev curr := by
  have hparts : (ts.map fun t => increment (prev t) (curr t)).sum =
      (ts.map curr).sum - (ts.map prev).sum + (ts.map fun t => if curr t < prev t then prev t else 0).sum := by
    induction ts with
    | nil => simp
    | cons t ts ih =>
      simp only [List.map_cons, List.sum_cons, ih]
      unfold increment
      split_ifs
      · ring
      · ring
  have hprev : (ts.map prev).sum = (ts.map fun t => if curr t < prev t then prev t else 0).sum +
      (ts.map fun t => if curr t < prev t then 0 else prev t).sum := by
    rw [← List.sum_map_add]
    congr 1
    apply List.map_congr_left
    intro t _
    split_ifs
    · rw [add_zero]
    · rw [zero_add]
  rw [hparts, increment, misread]
  split_ifs
  · rw [hprev]
    ring
  · ring

/-- Nothing is misread when no counter falls, or when the sum falls and every counter that does not fall was at zero. -/
theorem misread_eq_zero {ts : List String} {prev curr : String → F} [IsStrictOrderedRing F]
    (h : (∀ t ∈ ts, prev t ≤ curr t) ∨
      ((ts.map curr).sum < (ts.map prev).sum ∧ ∀ t ∈ ts, curr t < prev t ∨ prev t = 0)) : misread ts prev curr = 0 := by
  unfold misread
  rcases h with hup | ⟨hfall, hdown⟩
  · rw [if_neg (not_lt.mpr (List.sum_le_sum hup)), neg_eq_zero]
    apply List.sum_eq_zero
    intro x hx
    obtain ⟨t, ht, rfl⟩ := List.mem_map.mp hx
    exact if_neg (not_lt.mpr (hup t ht))
  · rw [if_pos hfall]
    apply List.sum_eq_zero
    intro x hx
    obtain ⟨t, ht, rfl⟩ := List.mem_map.mp hx
    rcases hdown t ht with hlt | hzero
    · exact if_pos hlt
    · rw [hzero, ite_self]

/-! ## A window -/

/-- What is misread from sample to sample of a window. -/
def misreads (ts : List String) (read : PodSample F → String → F) : PodSample F → List (PodSample F) → F
  | _, [] => 0
  | prev, curr :: rest => misread ts (read prev) (read curr) + misreads ts read curr rest

theorem increments_sum {ts : List String} (read : PodSample F → String → F) (total : PodSample F → F)
    {first : PodSample F} {rest : List (PodSample F)} (htotal : ∀ s ∈ first :: rest, total s = (ts.map (read s)).sum) :
    increments (total first) (rest.map total) =
      (ts.map fun t => increments (read first t) (rest.map fun s => read s t)).sum + misreads ts read first rest := by
  induction rest generalizing first with
  | nil => simp [increments, misreads]
  | cons second rest ih =>
    rw [List.map_cons, increments, ih fun s hs => htotal s (List.mem_cons_of_mem _ hs), misreads,
      htotal first List.mem_cons_self, htotal second (List.mem_cons_of_mem _ List.mem_cons_self), increment_sum]
    simp only [List.map_cons, increments]
    rw [List.sum_map_add]
    ring

omit [Field F] [LinearOrder F] in
theorem rateWindow_suffix {samples : List (PodSample F)} {nowUnix lookbackSeconds : Int}
    {w : PodSample F × List (PodSample F) × Int} (h : rateWindow samples nowUnix lookbackSeconds = some w) :
    w.1 :: w.2.1 <:+ samples := by
  have hsub : samplesInWindow samples nowUnix lookbackSeconds = w.1 :: w.2.1 := by
    unfold rateWindow at h
    split at h
    · cases h
    · cases h
    · next hw =>
      dsimp only at h
      split_ifs at h
      obtain rfl := Option.some.inj h
      exact hw
  rw [← hsub]
  exact List.dropWhile_suffix _

/-- The misread part of the rate of one pod. -/
def podMisread (samples : List (PodSample F)) (nowUnix lookbackSeconds : Int) (ts : List String)
    (counterOf : PodSample F → Dict String F) : F :=
  ((rateWindow samples nowUnix lookbackSeconds).map fun w =>
    misreads ts (fun s t => counterValue s t counterOf) w.1 w.2.1 / (w.2.2 : F)).getD 0

/-- The misread part of the rate of an AgentDeploy. -/
def misreadRate (b : AgentDeployBuffers F) (nowUnix lookbackSeconds : Int) (counterOf : PodSample F → Dict String F) : F :=
  (b.entries.map fun e => podMisread e.2 nowUnix lookbackSeconds (observedTransports b) counterOf).sum

/-! ## An AgentDeploy -/

omit [LinearOrder F] in
theorem transportValue_total (m : Dict String F) {ts : List String} (hts : ts.Nodup) (hsub : ∀ k ∈ m, k ∈ ts)
    (hlabel : transportTotal ∉ ts) : transportValue m transportTotal = (ts.map fun t => transportValue m t).sum := by
  have hsum : transportValue m transportTotal = (m.entries.map Sigma.snd).sum := by
    rw [transportValue, if_pos rfl, List.sum_eq_foldl, List.foldl_map]
  rw [hsum, ← sum_getD_lookup m hts hsub]
  congr 1
  apply List.map_congr_left
  intro t ht
  have hne : t ≠ transportTotal := by
    rintro rfl
    exact hlabel ht
  rw [transportValue, if_neg hne]

theorem podRate_total {samples : List (PodSample F)} {ts : List String} {counterOf : PodSample F → Dict String F}
    (htotal : ∀ s ∈ samples, counterValue s transportTotal counterOf = (ts.map fun t => counterValue s t counterOf).sum)
    (nowUnix lookbackSeconds : Int) :
    (podRate samples nowUnix lookbackSeconds transportTotal counterOf).getD 0 =
      (ts.map fun t => (podRate samples nowUnix lookbackSeconds t counterOf).getD 0).sum +
        podMisread samples nowUnix lookbackSeconds ts counterOf := by
  simp only [podRate_eq, podMisread]
  cases hw : rateWindow samples nowUnix lookbackSeconds with
  | none => simp
  | some w =>
    simp only [Option.map_some, Option.getD_some, div_eq_mul_inv]
    rw [increments_sum (fun s t => counterValue s t counterOf) (fun s => counterValue s transportTotal counterOf)
        fun s hs => htotal s ((rateWindow_suffix hw).subset hs),
      List.sum_map_mul_right, add_mul]

theorem calculateCounterRate_total {b : AgentDeployBuffers F} {counterOf : PodSample F → Dict String F}
    (hkeys : ∀ e ∈ b.entries, ∀ s ∈ e.2, ∀ k ∈ counterOf s, k ∈ observedTransports b)
    (hlabel : transportTotal ∉ observedTransports b) (nowUnix lookbackSeconds : Int) :
    calculateCounterRate b nowUnix lookbackSeconds transportTotal counterOf =
      ((observedTransports b).map fun t => calculateCounterRate b nowUnix lookbackSeconds t counterOf).sum +
        misreadRate b nowUnix lookbackSeconds counterOf := by
  simp only [calculateCounterRate, sumOverPods_eq, misreadRate]
  rw [sum_map_comm, ← List.sum_map_add]
  congr 1
  apply List.map_congr_left
  intro e he
  exact podRate_total (fun s hs => transportValue_total _ (AList.keys_nodup _) (hkeys e he s hs) hlabel) _ _

omit [LinearOrder F] in
theorem area_sum {ts : List String} (read : PodSample F → String → F) (total : PodSample F → F)
    {w : List (PodSample F)} (htotal : ∀ s ∈ w, total s = (ts.map (read s)).sum) :
    area total w = (ts.map fun t => area (fun s => read s t) w).sum := by
  induction w with
  | nil => simp [area]
  | cons first rest ih =>
    cases rest with
    | nil => simp [area]
    | cons second rest =>
      rw [area, ih fun s hs => htotal s (List.mem_cons_of_mem _ hs), htotal first List.mem_cons_self]
      simp only [area]
      rw [List.sum_map_add, List.sum_map_mul_right]

/-- Averages of gauges add up. -/
theorem calculateInflightAvg_total [CharZero F] {b : AgentDeployBuffers F}
    (hlabel : transportTotal ∉ observedTransports b) (nowUnix lookbackSeconds : Int) :
    calculateInflightAvg b nowUnix lookbackSeconds transportTotal =
      ((observedTransports b).map fun t => calculateInflightAvg b nowUnix lookbackSeconds t).sum := by
  simp only [calculateInflightAvg, sumOverPods_eq]
  rw [sum_map_comm]
  congr 1
  apply List.map_congr_left
  intro e he
  have htotal : ∀ s ∈ samplesInWindow e.2 nowUnix lookbackSeconds, inflightValue s transportTotal =
      ((observedTransports b).map fun t => inflightValue s t).sum := fun s hs =>
    transportValue_total _ (AList.keys_nodup _)
      (fun k hk => mem_observedTransports.mpr ⟨e, he, s, (List.dropWhile_sublist _).subset hs, .inr (.inr hk)⟩) hlabel
  cases hw : samplesInWindow e.2 nowUnix lookbackSeconds with
  | nil => simp [podInflightAvg, hw]
  | cons first rest =>
    rw [hw] at htotal
    simp only [podInflightAvg_eq hw, Option.getD_some]
    split_ifs
    · exact htotal _ (List.getLast_mem _)
    · simp only [div_eq_mul_inv]
      rw [area_sum (fun s t => inflightValue s t) (fun s => inflightValue s transportTotal) htotal, List.sum_map_mul_right]

/-- No two neighbouring samples of a pod are misread. -/
theorem misreadRate_eq_zero {b : AgentDeployBuffers F} {counterOf : PodSample F → Dict String F}
    (h : ∀ e ∈ b.entries, e.2.IsChain fun prev curr =>
      misread (observedTransports b) (fun t => counterValue prev t counterOf) (fun t => counterValue curr t counterOf) = 0)
    (nowUnix lookbackSeconds : Int) : misreadRate b nowUnix lookbackSeconds counterOf = 0 := by
  have hsteps : ∀ (rest : List (PodSample F)) (first : PodSample F), (first :: rest).IsChain (fun prev curr =>
      misread (observedTransports b) (fun t => counterValue prev t counterOf) (fun t => counterValue curr t counterOf) = 0) →
      misreads (observedTransports b) (fun s t => counterValue s t counterOf) first rest = 0 := by
    intro rest
    induction rest with
    | nil => exact fun _ _ => rfl
    | cons second rest ih =>
      intro first hchain
      rw [List.isChain_cons_cons] at hchain
      rw [misreads, hchain.1, ih second hchain.2, add_zero]
  unfold misreadRate podMisread
  apply List.sum_eq_zero
  intro x hx
  obtain ⟨e, he, rfl⟩ := List.mem_map.mp hx
  cases hw : rateWindow e.2 nowUnix lookbackSeconds with
  | none => rfl
  | some w =>
    have hchain := (h e he).suffix (rateWindow_suffix hw)
    rw [Option.map_some, Option.getD_some, hsteps _ _ hchain, zero_div]

/-! ## `GetMetrics` -/

/-- The sum over the transports of their values for a window. -/
def WindowedResult.sumOver (res : WindowedResult F) (values : PerWindowValues F → Dict String F) (key : String) : F :=
  (res.perTransport.entries.map fun e => ((values e.2).lookup key).getD 0).sum

/-- The totals of a window are the sums over the transports. -/
structure WindowedResult.TotalsAt (res : WindowedResult F) (key : String) : Prop where
  processingRates : res.total.processingRates.lookup key = some (res.sumOver PerWindowValues.processingRates key)
  streamMessageRates :
    res.total.streamMessageRates.lookup key = some (res.sumOver PerWindowValues.streamMessageRates key)
  inflights : res.total.inflights.lookup key = some (res.sumOver PerWindowValues.inflights key)

theorem nodup_windows (lookbackSeconds : Int) : ((windows lookbackSeconds).map Prod.fst).Nodup := by
  unfold windows
  split_ifs
  · change [windowKey1m, windowKey5m, windowKey15m, windowKeyCustom].Nodup
    decide
  · decide

theorem lookup_perWindowValues (b : AgentDeployBuffers F) (now lookbackSeconds : Int) {w : String × Int}
    (hw : w ∈ windows lookbackSeconds) (transport : String) :
    (perWindowValues b now (windows lookbackSeconds) transport).processingRates.lookup w.1 =
        some (calculateRequestRate b now w.2 transport) ∧
      (perWindowValues b now (windows lookbackSeconds) transport).streamMessageRates.lookup w.1 =
        some (calculateStreamMessageRate b now w.2 transport) ∧
      (perWindowValues b now (windows lookbackSeconds) transport).inflights.lookup w.1 =
        some (calculateInflightAvg b now w.2 transport) :=
  ⟨lookup_foldl_insert _ (nodup_windows lookbackSeconds) hw, lookup_foldl_insert _ (nodup_windows lookbackSeconds) hw,
    lookup_foldl_insert _ (nodup_windows lookbackSeconds) hw⟩

theorem sumOver_eq {buffers : Dict String (AgentDeployBuffers F)} {now : Int} {name : String}
    {lookbackSeconds : Int} {buf : AgentDeployBuffers F} {res : WindowedResult F}
    (hbuf : buffers.lookup name = some buf) (hres : getMetrics buffers now name lookbackSeconds = .ok res)
    (values : PerWindowValues F → Dict String F) (key : String) :
    res.sumOver values key = ((observedTransports buf).map fun t =>
      ((values (perWindowValues buf now (windows lookbackSeconds) t)).lookup key).getD 0).sum := by
  unfold WindowedResult.sumOver
  rw [((getMetrics_eq_ok hbuf hres).2.map _).sum_eq, List.map_map]
  rfl

/-- **Totals against transports.** The totals of a window are the sums over the transports exactly when the misread
parts of both counters cancel out over the pods. -/
theorem totals_iff [CharZero F] (buffers : Dict String (AgentDeployBuffers F)) (name : String)
    (buf : AgentDeployBuffers F) (now lookbackSeconds : Int) (res : WindowedResult F)
    (hbuf : buffers.lookup name = some buf) (hlabel : transportTotal ∉ observedTransports buf)
    (hres : getMetrics buffers now name lookbackSeconds = .ok res) (w : String × Int)
    (hw : w ∈ windows lookbackSeconds) :
    res.TotalsAt w.1 ↔
      misreadRate buf now w.2 PodSample.requestsByTransport = 0 ∧
        misreadRate buf now w.2 PodSample.streamMessagesByTransport = 0 := by
  have htotal := (getMetrics_eq_ok hbuf hres).1
  have hsum := sumOver_eq hbuf hres
  have hrates : ∀ (counterOf : PodSample F → Dict String F)
      (_ : ∀ e ∈ buf.entries, ∀ s ∈ e.2, ∀ k ∈ counterOf s, k ∈ observedTransports buf),
      calculateCounterRate buf now w.2 transportTotal counterOf =
          ((observedTransports buf).map fun t => calculateCounterRate buf now w.2 t counterOf).sum ↔
        misreadRate buf now w.2 counterOf = 0 := by
    intro counterOf hkeys
    rw [calculateCounterRate_total hkeys hlabel, add_eq_left]
  have hrequests := hrates PodSample.requestsByTransport
    fun e he s hs k hk => mem_observedTransports.mpr ⟨e, he, s, hs, .inl hk⟩
  have hstream := hrates PodSample.streamMessagesByTransport
    fun e he s hs k hk => mem_observedTransports.mpr ⟨e, he, s, hs, .inr (.inl hk)⟩
  have hvalues := lookup_perWindowValues buf now lookbackSeconds hw
  rw [← hrequests, ← hstream]
  constructor
  · rintro ⟨hp, hs, -⟩
    simp only [htotal, hsum, hvalues, Option.getD_some, Option.some.injEq] at hp hs
    exact ⟨hp, hs⟩
  · rintro ⟨hp, hs⟩
    constructor
    · simp only [htotal, hsum, hvalues, Option.getD_some, Option.some.injEq]
      exact hp
    · simp only [htotal, hsum, hvalues, Option.getD_some, Option.some.injEq]
      exact hs
    · simp only [htotal, hsum, hvalues, Option.getD_some, Option.some.injEq]
      exact calculateInflightAvg_total hlabel now w.2

/-- One scrape of a pod with two transports. -/
def scrapeAt (timestamp : Int) (jsonrpc grpc : ℚ) : PodSample ℚ where
  timestamp := timestamp
  requestsByTransport := (AList.singleton "grpc" grpc).insert "jsonrpc" jsonrpc
  streamMessagesByTransport := ∅
  inflightByTransport := ∅

def onePod (samples : List (PodSample ℚ)) : AgentDeployBuffers ℚ := AList.singleton "planner-0" samples

/-- A pod restarts, and both of its counters are below their last values at the next scrape. -/
def bothReset : AgentDeployBuffers ℚ := onePod [scrapeAt 0 100 10, scrapeAt 30 20 5]

theorem totals_bothReset :
    transportTotal ∉ observedTransports bothReset ∧
      ∃ res, getMetrics (AList.singleton "planner" bothReset) 30 "planner" 0 = .ok res ∧ res.TotalsAt windowKey1m := by
  have hlabel : transportTotal ∉ observedTransports bothReset := by decide +kernel
  obtain ⟨res, hres⟩ : ∃ res, getMetrics (AList.singleton "planner" bothReset) 30 "planner" 0 = .ok res := ⟨_, rfl⟩
  refine ⟨hlabel, res, hres, ?_⟩
  exact (totals_iff _ "planner" bothReset 30 0 res rfl hlabel hres (windowKey1m, lookback1m) (by decide)).mpr
    (by decide +kernel)

/-- After a restart the traffic moves to gRPC: its counter passes its last value before the next scrape, so that only the
sum and the other counter are seen to fall. -/
def grpcOvertakes : AgentDeployBuffers ℚ := onePod [scrapeAt 0 100 10, scrapeAt 30 0 15]

theorem total_exceeds_transports :
    transportTotal ∉ observedTransports grpcOvertakes ∧
      ∃ res, getMetrics (AList.singleton "planner" grpcOvertakes) 30 "planner" 0 = .ok res ∧
        ¬res.TotalsAt windowKey1m := by
  obtain ⟨res, hres⟩ : ∃ res, getMetrics (AList.singleton "planner" grpcOvertakes) 30 "planner" 0 = .ok res := ⟨_, rfl⟩
  refine ⟨by decide +kernel, res, hres, fun h => ?_⟩
  have hbuf : (AList.singleton "planner" grpcOvertakes : Dict String (AgentDeployBuffers ℚ)).lookup "planner" =
      some grpcOvertakes := rfl
  have htotal := (getMetrics_eq_ok hbuf hres).1
  have hsum := sumOver_eq hbuf hres
  have hrates := h.processingRates
  rw [htotal, hsum] at hrates
  revert hrates
  decide +kernel

end KynoMesh.Rater
