import KynoMesh.Lib.GoStd
import KynoMesh.Lib.Ticker
import KynoMesh.Rater.Peak
import KynoMesh.Shared.Queue

/-!
# The scrape loop of the rater and its ring buffers

`Start`, `scrapeOneAgentDeploy` of `rater/rater.go` and `AgentDeployBuffers` of `rater/pod_samples.go`: every tick scrapes
the pods of an AgentDeploy side by side, and appends each sample to the bounded queue of its pod when it arrives.

* `appendBounded`, `scrapeOneAgentDeploy` : one sample, one tick; `contents_queue` ties a buffer to the queue it stands
  for;
* `Scraping` : the ticks of a loop that is driven by a ticker, with a clock that does not go back;
* `scraped`, `logged` : the buffers after some ticks, and what they would be without a bound; `scraped_alike` relates
  them;
* `length_window_le` : how many samples of a pod a window can have;
* `getMetrics_complete` : the bound is not noticed by any window that the rater computes.
-/

namespace KynoMesh.Rater
open KynoMesh.Lib

variable {F : Type}

/-! ## One tick -/

/-- `MaxSamplesPerPod`. -/
def maxSamplesPerPod : Nat := (retentionSec.toNat / 5) * 2

/-- `AgentDeployBuffers.Append`, with queues of `size`: the queue of a pod is created with its first sample. -/
def appendBounded (size : Nat) (b : AgentDeployBuffers F) (pod : String) (s : PodSample F) : AgentDeployBuffers F :=
  b.insert pod (((b.lookup pod).getD [] ++ [s]).rtake size)

/-- One goroutine of a tick: a host, when its scrape ended, and what it gave. -/
structure Scrape (F : Type) where
  host : String
  /-- The clock, in nanoseconds. -/
  time : Int
  sample : Option (PodSample F)

/-- `Time.Unix`. -/
def unix (time : Int) : Int := time / second

/-- A sample is stamped when its scrape ends; a failed scrape leaves none. -/
def Scrape.stamped (c : Scrape F) : Option (String × PodSample F) :=
  c.sample.map fun s => (c.host, { s with timestamp := unix c.time })

/-- A tick of the loop. A tick whose discovery fails, or names no host, has no scrapes; one that goes on has those that
have ended. `Discover` makes one host name for each address that the headless Service resolves to, with the indices
from `0` on. -/
structure ScrapeTick (F : Type) where
  fired : Int
  start : Int
  stop : Int
  /-- As they end. -/
  scrapes : List (Scrape F)
  hosts_nodup : (scrapes.map Scrape.host).Nodup
  within : ∀ c ∈ scrapes, start ≤ c.time ∧ c.time ≤ stop

/-- What a tick appends. -/
def ScrapeTick.appended (t : ScrapeTick F) : List (String × PodSample F) := t.scrapes.filterMap Scrape.stamped

def scrapeOneAgentDeploy (b : AgentDeployBuffers F) (t : ScrapeTick F) : AgentDeployBuffers F :=
  t.scrapes.foldl (fun b c => match c.stamped with
    | none => b
    | some (host, s) => appendBounded maxSamplesPerPod b host s) b

/-- The buffers after some ticks. -/
def scraped (ts : List (ScrapeTick F)) : AgentDeployBuffers F := ts.foldl scrapeOneAgentDeploy ∅

/-! ## The buffers without a bound -/

/-- All that some ticks append, in order. -/
def appendedBy (ts : List (ScrapeTick F)) : List (String × PodSample F) := ts.flatMap ScrapeTick.appended

/-- The samples of one pod. -/
def samplesOf (pod : String) (ps : List (String × PodSample F)) : List (PodSample F) :=
  (ps.filter fun p => p.1 = pod).map Prod.snd

def fillBounded (size : Nat) (ps : List (String × PodSample F)) : AgentDeployBuffers F :=
  ps.foldl (fun b p => appendBounded size b p.1 p.2) ∅

/-- The same with queues that do not overflow. -/
def fill (ps : List (String × PodSample F)) : AgentDeployBuffers F :=
  ps.foldl (fun b p => b.insert p.1 ((b.lookup p.1).getD [] ++ [p.2])) ∅

/-- The buffers after some ticks, with everything that was ever scraped. -/
def logged (ts : List (ScrapeTick F)) : AgentDeployBuffers F := fill (appendedBy ts)

theorem scraped_eq (ts : List (ScrapeTick F)) : scraped ts = fillBounded maxSamplesPerPod (appendedBy ts) := by
  unfold scraped fillBounded appendedBy
  rw [List.foldl_flatMap]
  congr 1
  funext b t
  rw [scrapeOneAgentDeploy, ScrapeTick.appended, List.foldl_filterMap]
  congr 1
  funext b c
  cases c.stamped <;> rfl

theorem samplesOf_concat_self (ps : List (String × PodSample F)) (pod : String) (s : PodSample F) :
    samplesOf pod (ps ++ [(pod, s)]) = samplesOf pod ps ++ [s] := by
  simp [samplesOf]

theorem samplesOf_concat_of_ne (ps : List (String × PodSample F)) {pod pod' : String} (h : pod ≠ pod') (s : PodSample F) :
    samplesOf pod (ps ++ [(pod', s)]) = samplesOf pod ps := by
  simp [samplesOf, Ne.symm h]

/-- The bounded buffers have the last samples of every pod. -/
theorem fillBounded_alike (size : Nat) (ps : List (String × PodSample F)) :
    Alike (fun pod xs ys => ys = samplesOf pod ps ∧ xs = ys.rtake size) (fillBounded size ps) (fill ps) ∧
      ∀ pod, ((fill ps).lookup pod).getD [] = samplesOf pod ps := by
  induction ps using List.reverseRecOn with
  | nil => exact ⟨.nil, fun pod => rfl⟩
  | append_singleton ps p ih =>
    obtain ⟨halike, hlog⟩ := ih
    have hb : fillBounded size (ps ++ [p]) = appendBounded size (fillBounded size ps) p.1 p.2 := by
      rw [fillBounded, List.foldl_append]
      rfl
    have hl : fill (ps ++ [p]) = (fill ps).insert p.1 (((fill ps).lookup p.1).getD [] ++ [p.2]) := by
      rw [fill, List.foldl_append]
      rfl
    have hbounded : ((fillBounded size ps).lookup p.1).getD [] = (samplesOf p.1 ps).rtake size := by
      rcases halike.lookup p.1 with ⟨hx, hy⟩ | ⟨xs, ys, hx, hy, hys, hxs⟩
      · have hnil := hlog p.1
        rw [hy] at hnil
        rw [hx, ← hnil, Option.getD_none, List.rtake_nil]
      · rw [hx, Option.getD_some, hxs, hys]
    rw [hb, hl]
    refine ⟨?_, fun pod => ?_⟩
    · refine halike.insert p.1 ⟨?_, ?_⟩ ?_
      · rw [hlog, samplesOf_concat_self]
      · rw [hbounded, rtake_rtake_concat, hlog]
      · rintro pod hne xs ys ⟨hys, hxs⟩
        exact ⟨hys.trans (samplesOf_concat_of_ne ps hne p.2).symm, hxs⟩
    · by_cases hpod : pod = p.1
      · subst hpod
        rw [AList.lookup_insert, Option.getD_some, hlog, samplesOf_concat_self]
      · rw [AList.lookup_insert_ne hpod, hlog, samplesOf_concat_of_ne ps hpod]

/-- The buffer of a pod is what its queue shows, however often the queue has been read in between. -/
theorem contents_queue [Inhabited (PodSample F)] (grow : Nat → Nat) {size : Nat} (hsize : 1 ≤ size)
    {ps : List (String × PodSample F)} {pod : String} {xs : List (PodSample F)}
    (hxs : (fillBounded size ps).lookup pod = some xs) {es : List (Queue.Event (PodSample F))}
    (hes : es.flatMap Queue.Event.appends = samplesOf pod ps) {s : Queue.State (PodSample F)}
    (hs : run (Queue.step grow) (Queue.start size) es = some s) : s.heap.contents s.queue.elements = xs := by
  have hview := Queue.view_run grow size hsize es
  rw [hs, Option.map_some] at hview
  have hitems := Queue.items_run hview.symm
  rw [hes] at hitems
  rcases (fillBounded_alike size ps).1.lookup pod with ⟨hnone, -⟩ | ⟨xs', ys, hlookup, -, hys, hxs'⟩
  · rw [hnone] at hxs
    cases hxs
  · obtain rfl := Option.some.inj (hlookup.symm.trans hxs)
    rw [hxs', hys]
    exact hitems

/-! ## How many samples a window has -/

/-- The ticks of the loop of `Start`, which a ticker drives. -/
abbrev Scraping (interval : Int) (ts : List (ScrapeTick F)) : Prop :=
  Ticking ScrapeTick.fired ScrapeTick.start ScrapeTick.stop interval ts

theorem second_pos : 0 < second := by decide

/-- The samples of a pod, each with its tick. -/
def ticksOf (pod : String) (ts : List (ScrapeTick F)) : List (ScrapeTick F × PodSample F) :=
  ts.flatMap fun t => (samplesOf pod t.appended).map fun s => (t, s)

section
variable {pod : String} {ts : List (ScrapeTick F)} {interval : Int}

theorem map_snd_ticksOf (pod : String) (ts : List (ScrapeTick F)) :
    (ticksOf pod ts).map Prod.snd = samplesOf pod (appendedBy ts) := by
  simp only [ticksOf, samplesOf, appendedBy, List.map_flatMap, List.filter_flatMap, List.map_map]
  rfl

theorem length_samplesOf_le (pod : String) (t : ScrapeTick F) : (samplesOf pod t.appended).length ≤ 1 := by
  rw [samplesOf, List.length_map, ← List.countP_eq_length_filter, ScrapeTick.appended, List.countP_filterMap]
  calc t.scrapes.countP (fun c => (Option.map (fun p => decide (p.1 = pod)) c.stamped).getD false)
      ≤ t.scrapes.countP (fun c => decide (c.host = pod)) := by
        refine List.countP_mono_left fun c _ hc => ?_
        cases hs : c.sample with
        | none => simp [Scrape.stamped, hs] at hc
        | some s => simpa [Scrape.stamped, hs] using hc
    _ = (t.scrapes.map Scrape.host).count pod := by
        rw [List.count, List.countP_map]
        rfl
    _ ≤ 1 := List.nodup_iff_count_le_one.mp t.hosts_nodup pod

theorem map_fst_ticksOf (pod : String) (ts : List (ScrapeTick F)) : ((ticksOf pod ts).map Prod.fst).Sublist ts := by
  induction ts with
  | nil => exact .slnil
  | cons t ts ih =>
    have hone : ((samplesOf pod t.appended).map fun _ => t).Sublist [t] := by
      have hlen := length_samplesOf_le pod t
      rcases hs : samplesOf pod t.appended with _ | ⟨s, _ | ⟨s', rest⟩⟩
      · simp
      · simp
      · rw [hs] at hlen
        simp at hlen
    have hsplit : (ticksOf pod (t :: ts)).map Prod.fst =
        ((samplesOf pod t.appended).map fun _ => t) ++ (ticksOf pod ts).map Prod.fst := by
      simp [ticksOf, Function.comp_def]
    rw [hsplit]
    exact hone.append ih

theorem times_of_mem_ticksOf {x : ScrapeTick F × PodSample F} (hx : x ∈ ticksOf pod ts) :
    x.1 ∈ ts ∧ x.1.start < (x.2.timestamp + 1) * second ∧ x.2.timestamp * second ≤ x.1.stop := by
  obtain ⟨t, ht, hx⟩ := List.mem_flatMap.mp hx
  obtain ⟨s, hs, rfl⟩ := List.mem_map.mp hx
  obtain ⟨p, hp, rfl⟩ := List.mem_map.mp hs
  obtain ⟨c, hc, hstamp⟩ := List.mem_filterMap.mp (List.mem_filter.mp hp).1
  obtain ⟨s, -, rfl⟩ := Option.map_eq_some_iff.mp hstamp
  obtain ⟨hstart, hstop⟩ := t.within c hc
  refine ⟨ht, ?_, ?_⟩
  · exact hstart.trans_lt (Int.lt_ediv_add_one_mul_self c.time second_pos)
  · exact (Int.ediv_mul_le c.time second_pos.ne').trans hstop

theorem ordered_samplesOf (h : Scraping interval ts) (pod : String) : Ordered (samplesOf pod (appendedBy ts)) := by
  have hticks : (ticksOf pod ts).Pairwise fun x y => x.1.stop ≤ y.1.start := by
    have hseq := h.sequential.sublist (map_fst_ticksOf pod ts)
    rwa [List.pairwise_map] at hseq
  rw [← map_snd_ticksOf, Ordered, List.pairwise_map]
  refine hticks.imp_of_mem fun {x y} hx hy hxy => ?_
  obtain ⟨-, -, hstop⟩ := times_of_mem_ticksOf hx
  obtain ⟨-, hstart, -⟩ := times_of_mem_ticksOf hy
  have hlt : x.2.timestamp * second < (y.2.timestamp + 1) * second := by omega
  have := lt_of_mul_lt_mul_right hlt second_pos.le
  omega

/-- The samples of a window are of ticks that share its span of time. -/
theorem length_window_le (hi : 0 ≤ interval) (h : Scraping interval ts) (pod : String) {now lookbackSeconds : Int}
    (hnow : ∀ t ∈ ts, unix t.stop ≤ now) (hlook : 0 ≤ lookbackSeconds) :
    (samplesInWindow (samplesOf pod (appendedBy ts)) now lookbackSeconds).length * interval ≤
      (lookbackSeconds + 1) * second + 3 * interval := by
  let inWindow : PodSample F → Bool := fun s => decide (now - lookbackSeconds ≤ s.timestamp)
  -- the window, and the ticks of its samples
  have hwindow : samplesInWindow (samplesOf pod (appendedBy ts)) now lookbackSeconds =
      ((ticksOf pod ts).filter fun x => inWindow x.2).map Prod.snd := by
    rw [samplesInWindow, dropWhile_eq_filter (ordered_samplesOf h pod), ← map_snd_ticksOf, List.filter_map]
    rfl
  have hsub : (((ticksOf pod ts).filter fun x => inWindow x.2).map Prod.fst).Sublist ts :=
    (List.filter_sublist.map Prod.fst).trans (map_fst_ticksOf pod ts)
  have hmem : ∀ t ∈ ((ticksOf pod ts).filter fun x => inWindow x.2).map Prod.fst,
      (now - lookbackSeconds) * second ≤ t.stop ∧ t.start ≤ (now + 1) * second := by
    intro t ht
    obtain ⟨x, hx, rfl⟩ := List.mem_map.mp ht
    obtain ⟨hx, hin⟩ := List.mem_filter.mp hx
    obtain ⟨hts, hstart, hstop⟩ := times_of_mem_ticksOf hx
    have hle : x.2.timestamp ≤ now := ((Int.le_ediv_iff_mul_le second_pos).mpr hstop).trans (hnow x.1 hts)
    have hge : now - lookbackSeconds ≤ x.2.timestamp := of_decide_eq_true hin
    have hfirst := mul_le_mul_of_nonneg_right hge second_pos.le
    have hlast : (x.2.timestamp + 1) * second ≤ (now + 1) * second :=
      mul_le_mul_of_nonneg_right (by omega) second_pos.le
    exact ⟨by omega, by omega⟩
  have hspan : (now - lookbackSeconds) * second ≤ (now + 1) * second :=
    mul_le_mul_of_nonneg_right (by omega) second_pos.le
  have hcount := h.count_le hi hsub hspan (fun t ht => (hmem t ht).1) fun t ht => (hmem t ht).2
  rw [hwindow, List.length_map]
  rw [List.length_map] at hcount
  calc _ ≤ (now + 1) * second - (now - lookbackSeconds) * second + 3 * interval := hcount
    _ = (lookbackSeconds + 1) * second + 3 * interval := by ring

/-- At a scrape interval of three seconds or more, a window of the rater fits into a queue. -/
theorem length_window_le_max (hi : 3 * second ≤ interval) (h : Scraping interval ts) (pod : String)
    {now lookbackSeconds : Int} (hnow : ∀ t ∈ ts, unix t.stop ≤ now) (hlook : 0 ≤ lookbackSeconds)
    (hmax : lookbackSeconds ≤ retentionSec) :
    (samplesInWindow (samplesOf pod (appendedBy ts)) now lookbackSeconds).length ≤ maxSamplesPerPod := by
  have hpos := second_pos
  have hcount := length_window_le (by omega) h pod hnow hlook
  by_contra hlt
  have hlen : (721 : Int) ≤ (samplesInWindow (samplesOf pod (appendedBy ts)) now lookbackSeconds).length := by
    have : maxSamplesPerPod = 720 := rfl
    omega
  have hmul := mul_le_mul_of_nonneg_right hlen (show 0 ≤ interval by omega)
  unfold retentionSec second at *
  omega

end

/-! ## What the rater reports -/

section
variable {ts : List (ScrapeTick F)} {interval now : Int}

/-- The buffers show every window as if nothing had ever been dropped. -/
theorem scraped_alike (hi : 3 * second ≤ interval) (h : Scraping interval ts) (hnow : ∀ t ∈ ts, unix t.stop ≤ now) :
    Alike (fun _ xs ys => (∀ lookbackSeconds, 0 ≤ lookbackSeconds → lookbackSeconds ≤ retentionSec →
      samplesInWindow xs now lookbackSeconds = samplesInWindow ys now lookbackSeconds) ∧
        decide (2 ≤ xs.length) = decide (2 ≤ ys.length) ∧ Ordered xs) (scraped ts) (logged ts) := by
  rw [scraped_eq, logged]
  refine (fillBounded_alike maxSamplesPerPod (appendedBy ts)).1.imp ?_
  rintro ⟨pod, xs⟩ ⟨pod', ys⟩ ⟨hpod, hys, hxs⟩
  dsimp only at hpod hys hxs
  refine ⟨hpod, fun lookbackSeconds hlook hmax => ?_, ?_, ?_⟩
  · dsimp only
    rw [hxs, hys]
    exact dropWhile_rtake (length_window_le_max hi h pod hnow hlook hmax)
  · dsimp only
    rw [hxs, List.rtake, List.length_drop]
    have : maxSamplesPerPod = 720 := rfl
    simp only [decide_eq_decide]
    omega
  · dsimp only
    rw [hxs, hys]
    exact (ordered_samplesOf h pod).sublist (List.drop_sublist _ _)

theorem orderedBuffers_scraped (hi : 3 * second ≤ interval) (h : Scraping interval ts)
    (hnow : ∀ t ∈ ts, unix t.stop ≤ now) : OrderedBuffers (scraped ts) := by
  intro e he
  have hlookup := mem_entries_iff.mp he
  rcases (scraped_alike hi h hnow).lookup e.1 with ⟨hnone, -⟩ | ⟨xs, ys, hxs, -, hR⟩
  · rw [hnone] at hlookup
    cases hlookup
  · obtain rfl := Option.some.inj (hxs.symm.trans hlookup)
    exact hR.2.2

theorem hasUsableHistory_scraped (hi : 3 * second ≤ interval) (h : Scraping interval ts)
    (hnow : ∀ t ∈ ts, unix t.stop ≤ now) : hasUsableHistory (scraped ts) = hasUsableHistory (logged ts) :=
  (scraped_alike hi h hnow).any_eq fun _ _ _ hR => hR.2.1

theorem sumOverPods_scraped [Zero F] [Add F] (hi : 3 * second ≤ interval) (h : Scraping interval ts)
    (hnow : ∀ t ∈ ts, unix t.stop ≤ now) {f : List (PodSample F) → Option F} {lookbackSeconds : Int}
    (hlook : 0 ≤ lookbackSeconds) (hmax : lookbackSeconds ≤ retentionSec)
    (hf : ∀ xs ys, samplesInWindow xs now lookbackSeconds = samplesInWindow ys now lookbackSeconds → f xs = f ys) :
    sumOverPods (scraped ts) f = sumOverPods (logged ts) f := by
  refine (scraped_alike hi h hnow).foldl_eq (fun total pod xs ys hR => ?_) 0
  rw [hf xs ys (hR.1 lookbackSeconds hlook hmax)]

variable [Zero F] [Add F] [Sub F] [Mul F] [Div F] [LT F] [DecidableLT F] [DecidableEq F] [IntCast F]

theorem perWindowValues_scraped (hi : 3 * second ≤ interval) (h : Scraping interval ts)
    (hnow : ∀ t ∈ ts, unix t.stop ≤ now) (lookbackSeconds : Int) (transport : String) :
    perWindowValues (scraped ts) now (windows lookbackSeconds) transport =
      perWindowValues (logged ts) now (windows lookbackSeconds) transport := by
  have hwindows : ∀ w ∈ windows lookbackSeconds, 0 ≤ w.2 ∧ w.2 ≤ retentionSec := by
    intro w hw
    simp only [windows, effectiveCustom, lookback1m, lookback5m, lookback15m, retentionSec, List.mem_append,
      List.mem_cons, List.not_mem_nil, or_false] at hw ⊢
    split_ifs at hw
    · rcases hw with (rfl | rfl | rfl) | hw
      · decide
      · decide
      · decide
      · obtain rfl := List.mem_singleton.mp hw
        dsimp only
        omega
    · rcases hw with (rfl | rfl | rfl) | hw
      · decide
      · decide
      · decide
      · simp at hw
  have hrate : ∀ w ∈ windows lookbackSeconds, ∀ counterOf : PodSample F → Dict String F,
      calculateCounterRate (scraped ts) now w.2 transport counterOf =
        calculateCounterRate (logged ts) now w.2 transport counterOf := by
    intro w hw counterOf
    refine sumOverPods_scraped hi h hnow (hwindows w hw).1 (hwindows w hw).2 fun xs ys hxy => ?_
    rw [podRate, podRate, hxy]
  have havg : ∀ w ∈ windows lookbackSeconds,
      calculateInflightAvg (scraped ts) now w.2 transport = calculateInflightAvg (logged ts) now w.2 transport := by
    intro w hw
    refine sumOverPods_scraped hi h hnow (hwindows w hw).1 (hwindows w hw).2 fun xs ys hxy => ?_
    rw [podInflightAvg, podInflightAvg, hxy]
  unfold perWindowValues calculateRequestRate calculateStreamMessageRate
  congr 1
  · exact List.foldl_ext _ _ _ fun m w hw => by rw [hrate w hw]
  · exact List.foldl_ext _ _ _ fun m w hw => by rw [hrate w hw]
  · exact List.foldl_ext _ _ _ fun m w hw => by rw [havg w hw]

theorem lookup_perTransport {buffers : Dict String (AgentDeployBuffers F)} {name : String} {buf : AgentDeployBuffers F}
    (hbuf : buffers.lookup name = some buf) {lookbackSeconds : Int} {res : WindowedResult F}
    (hres : getMetrics buffers now name lookbackSeconds = .ok res) (t : String) (v : PerWindowValues F) :
    res.perTransport.lookup t = some v ↔
      t ∈ observedTransports buf ∧ v = perWindowValues buf now (windows lookbackSeconds) t := by
  rw [← mem_entries_iff, (getMetrics_eq_ok hbuf hres).2.mem_iff, List.mem_map]
  constructor
  · rintro ⟨t', ht, heq⟩
    cases heq
    exact ⟨ht, rfl⟩
  · rintro ⟨ht, rfl⟩
    exact ⟨t, ht, rfl⟩

end

theorem mem_observedTransports_scraped {ts : List (ScrapeTick F)} {t : String} :
    t ∈ observedTransports (scraped ts) ↔
      ∃ pod, ∃ s ∈ (samplesOf pod (appendedBy ts)).rtake maxSamplesPerPod, s.names t := by
  obtain ⟨halike, hlog⟩ := fillBounded_alike maxSamplesPerPod (appendedBy ts)
  rw [mem_observedTransports, scraped_eq]
  constructor
  · rintro ⟨⟨pod, xs⟩, he, s, hs, ht⟩
    rcases halike.lookup pod with ⟨hx, -⟩ | ⟨xs', ys, hx, -, hys, hxs⟩
    · cases (mem_entries_iff.mp he).symm.trans hx
    · obtain rfl := Option.some.inj ((mem_entries_iff.mp he).symm.trans hx)
      dsimp only at hs
      rw [hxs, hys] at hs
      exact ⟨pod, s, hs, ht⟩
  · rintro ⟨pod, s, hs, ht⟩
    rcases halike.lookup pod with ⟨-, hy⟩ | ⟨xs, ys, hx, -, hys, hxs⟩
    · rw [← hlog, hy, Option.getD_none, List.rtake_nil] at hs
      cases hs
    · rw [← hys, ← hxs] at hs
      exact ⟨⟨pod, xs⟩, mem_entries_iff.mpr hx, s, hs, ht⟩

/-- A tick with one pod, which has answered `n` requests. -/
def oneScrape (time n : Int) : ScrapeTick Int where
  fired := time
  start := time
  stop := time
  scrapes := [⟨"greeter-0", time, some ⟨0, AList.insert "rest" n ∅, ∅, ∅⟩⟩]
  hosts_nodup := by simp
  within := by simp

end KynoMesh.Rater
