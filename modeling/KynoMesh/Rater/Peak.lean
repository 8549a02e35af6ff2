import Mathlib.Algebra.Order.BigOperators.Group.List
import KynoMesh.Lib.StepFn
import KynoMesh.Rater.Exact

/-!
# The in-flight average against the peak

`CalculateInflightAvg` averages the gauge of each pod over the time in which that pod was observed, and sums the
averages. The load that an AgentDeploy had at an instant is the sum of the gauges in force there.

* `inForce`, `load` : the gauge of a pod, and the load of an AgentDeploy, at an instant;
* `podStep`, `podInflightAvg_eq_avg` : the gauge as a step function, whose average is what the rater computes;
* `PodsInStep` : at every sample time, the pods have been observed for equal parts of their spans;
* `inflight_le_peak_iff` : the average stays below the peak, whatever the gauges read, exactly for sample times that are
  in step.
-/

namespace KynoMesh.Rater
open KynoMesh.Lib Finset

variable {F : Type}

/-! ## Instants -/

/-- The last sample at or before `t`. -/
def lastAt (w : List (PodSample F)) (t : Int) : Option (PodSample F) :=
  (w.filter fun s => decide (s.timestamp ≤ t)).getLast?

/-- The samples are in the order of their timestamps. -/
def Ordered (w : List (PodSample F)) : Prop := w.Pairwise fun s s' => s.timestamp ≤ s'.timestamp

theorem lastAt_cons (s : PodSample F) (w : List (PodSample F)) (t : Int) :
    lastAt (s :: w) t = if s.timestamp ≤ t then some ((lastAt w t).getD s) else lastAt w t := by
  unfold lastAt
  rw [List.filter_cons]
  split_ifs with h h' h'
  · rw [List.getLast?_cons]
  · exact absurd (by simpa using h) h'
  · exact absurd (by simpa using h') h
  · rfl

theorem lastAt_eq_none {w : List (PodSample F)} {t : Int} (h : ∀ s ∈ w, t < s.timestamp) : lastAt w t = none := by
  unfold lastAt
  rw [List.getLast?_eq_none_iff, List.filter_eq_nil_iff]
  intro s hs
  simpa using h s hs

theorem mem_of_lastAt {w : List (PodSample F)} {t : Int} {s : PodSample F} (h : lastAt w t = some s) :
    s ∈ w ∧ s.timestamp ≤ t := by
  have := List.mem_of_getLast? h
  simpa using this

section
variable {first : PodSample F} {rest : List (PodSample F)}

theorem Ordered.head_le (hw : Ordered (first :: rest)) {s : PodSample F} (hs : s ∈ first :: rest) :
    first.timestamp ≤ s.timestamp := by
  rcases List.mem_cons.mp hs with rfl | hs
  · exact le_rfl
  · exact (List.pairwise_cons.mp hw).1 s hs

theorem first_le_last (hw : Ordered (first :: rest)) :
    first.timestamp ≤ ((first :: rest).getLast (List.cons_ne_nil _ _)).timestamp :=
  hw.head_le (List.getLast_mem (List.cons_ne_nil first rest))

theorem le_last (hw : Ordered (first :: rest)) {s : PodSample F} (hs : s ∈ first :: rest) :
    s.timestamp ≤ ((first :: rest).getLast (List.cons_ne_nil _ _)).timestamp := by
  rcases List.mem_iff_append.mp hs with ⟨l, r, hlr⟩
  have hsub : s :: r <:+ first :: rest := ⟨l, hlr.symm⟩
  have hlast : (first :: rest).getLast (List.cons_ne_nil _ _) = (s :: r).getLast (List.cons_ne_nil _ _) := by
    simp only [hlr, List.getLast_append_of_ne_nil _ (List.cons_ne_nil s r)]
  rw [hlast]
  exact first_le_last (hw.sublist hsub.sublist)

theorem lastAt_of_lt (hw : Ordered (first :: rest)) {t : Int} (ht : t < first.timestamp) :
    lastAt (first :: rest) t = none :=
  lastAt_eq_none fun _ hs => lt_of_lt_of_le ht (hw.head_le hs)

theorem le_of_lastAt {w : List (PodSample F)} (hw : Ordered w) {t : Int} {s s' : PodSample F} (h : lastAt w t = some s)
    (hs' : s' ∈ w) (ht : s'.timestamp ≤ t) : s'.timestamp ≤ s.timestamp := by
  have hordered : Ordered (w.filter fun s => decide (s.timestamp ≤ t)) := hw.sublist List.filter_sublist
  have hmem : s' ∈ w.filter fun s => decide (s.timestamp ≤ t) := by simp [hs', ht]
  unfold lastAt at h
  cases hf : w.filter fun s => decide (s.timestamp ≤ t) with
  | nil =>
    rw [hf] at hmem
    cases hmem
  | cons a l =>
    rw [hf] at h hordered hmem
    rw [List.getLast?_eq_getLast_of_ne_nil (List.cons_ne_nil _ _)] at h
    obtain rfl := Option.some.inj h
    exact le_last hordered hmem

end

section
variable [Zero F] [Add F]

/-- The gauge of a pod in force at `t`: that of its last sample at or before `t`, between its first and its last
sample. -/
def inForce (w : List (PodSample F)) (transport : String) (t : Int) : F :=
  match lastAt w t, w.getLast? with
  | some s, some last => if t ≤ last.timestamp then inflightValue s transport else 0
  | _, _ => 0

/-- The load of an AgentDeploy at `t`, from the samples of a window. -/
def load (b : AgentDeployBuffers F) (nowUnix lookbackSeconds : Int) (transport : String) (t : Int) : F :=
  (b.entries.map fun e => inForce (samplesInWindow e.2 nowUnix lookbackSeconds) transport t).sum

end

/-! ## Sample times -/

/-- The end of the span of a pod with these sample times; a span without extent stands for one second. -/
def spanStop (times : List Int) : Int :=
  if times.getLastD 0 = times.headD 0 then times.headD 0 + 1 else times.getLastD 0

/-- The times at which the gauge of a pod may change. -/
def marks (times : List Int) : List Int := times ++ [spanStop times]

/-- The sample times of a pod within the window. -/
def windowTimes (samples : List (PodSample F)) (nowUnix lookbackSeconds : Int) : List Int :=
  (samplesInWindow samples nowUnix lookbackSeconds).map PodSample.timestamp

/-- The pods are in step: at a mark of one pod, no larger part of its span has passed than of the span of another pod at
any of that one's marks from there on. -/
def PodsInStep (b : AgentDeployBuffers F) (nowUnix lookbackSeconds : Int) : Prop :=
  ∀ e ∈ b.entries, ∀ e' ∈ b.entries,
    let times := windowTimes e.2 nowUnix lookbackSeconds
    let times' := windowTimes e'.2 nowUnix lookbackSeconds
    times ≠ [] → times' ≠ [] → ∀ s ∈ marks times, ∀ t ∈ marks times', s ≤ t →
      (s - times.headD 0) * (spanStop times' - times'.headD 0) ≤ (t - times'.headD 0) * (spanStop times - times.headD 0)

/-! ## The gauge of a pod as a step function -/

section
variable {first : PodSample F} {rest : List (PodSample F)}

theorem headD_times (first : PodSample F) (rest : List (PodSample F)) :
    ((first :: rest).map PodSample.timestamp).headD 0 = first.timestamp := rfl

theorem getLastD_times (first : PodSample F) (rest : List (PodSample F)) :
    ((first :: rest).map PodSample.timestamp).getLastD 0 =
      ((first :: rest).getLast (List.cons_ne_nil _ _)).timestamp := by
  rw [List.getLastD_eq_getLast?, List.getLast?_map, List.getLast?_eq_getLast_of_ne_nil (List.cons_ne_nil _ _)]
  rfl

theorem spanStop_eq (first : PodSample F) (rest : List (PodSample F)) :
    spanStop ((first :: rest).map PodSample.timestamp) =
      if ((first :: rest).getLast (List.cons_ne_nil _ _)).timestamp = first.timestamp then first.timestamp + 1
      else ((first :: rest).getLast (List.cons_ne_nil _ _)).timestamp := by
  rw [spanStop, headD_times, getLastD_times]

theorem first_lt_spanStop (hw : Ordered (first :: rest)) :
    first.timestamp < spanStop ((first :: rest).map PodSample.timestamp) := by
  have := first_le_last hw
  rw [spanStop_eq]
  split_ifs
  · omega
  · omega

theorem le_last_of_lt_spanStop {t : Int} (hw : Ordered (first :: rest))
    (ht : t < spanStop ((first :: rest).map PodSample.timestamp)) :
    t ≤ ((first :: rest).getLast (List.cons_ne_nil _ _)).timestamp := by
  have := first_le_last hw
  rw [spanStop_eq] at ht
  split_ifs at ht
  · omega
  · omega

/-- A mark at or before the last sample is a sample time. -/
theorem mem_times_of_mem_marks {t : Int} (ht : t ∈ marks ((first :: rest).map PodSample.timestamp))
    (hle : t ≤ ((first :: rest).getLast (List.cons_ne_nil _ _)).timestamp) :
    ∃ s ∈ first :: rest, s.timestamp = t := by
  rcases List.mem_append.mp ht with h | h
  · exact List.mem_map.mp h
  · rw [List.mem_singleton, spanStop_eq] at h
    split_ifs at h
    · omega
    · exact ⟨_, List.getLast_mem (List.cons_ne_nil _ _), h.symm⟩

theorem mem_span_of_mem_marks {t : Int} (hw : Ordered (first :: rest))
    (ht : t ∈ marks ((first :: rest).map PodSample.timestamp)) :
    first.timestamp ≤ t ∧ t ≤ spanStop ((first :: rest).map PodSample.timestamp) := by
  have hlt := first_lt_spanStop hw
  rcases List.mem_append.mp ht with h | h
  · obtain ⟨s, hs, rfl⟩ := List.mem_map.mp h
    have hle := le_last hw hs
    refine ⟨hw.head_le hs, ?_⟩
    rw [spanStop_eq]
    split_ifs
    · omega
    · exact hle
  · rw [List.mem_singleton] at h
    omega

theorem exists_lastAt {t : Int} (ht : first.timestamp ≤ t) : ∃ s, lastAt (first :: rest) t = some s := by
  rw [lastAt_cons, if_pos ht]
  exact ⟨_, rfl⟩

variable [Zero F] [Add F]

theorem inForce_eq {transport : String} {t : Int} {s : PodSample F} (hs : lastAt (first :: rest) t = some s) :
    inForce (first :: rest) transport t =
      if t ≤ ((first :: rest).getLast (List.cons_ne_nil _ _)).timestamp then inflightValue s transport else 0 := by
  rw [inForce, hs, List.getLast?_eq_getLast_of_ne_nil (List.cons_ne_nil _ _)]

theorem inForce_of_lt {transport : String} {t : Int} (hw : Ordered (first :: rest)) (ht : t < first.timestamp) :
    inForce (first :: rest) transport t = 0 := by
  rw [inForce, lastAt_of_lt hw ht]

/-- A gauge that always reads the same is in force with that value between the first and the last sample. -/
theorem inForce_of_constant {transport : String} {v : F} (hw : Ordered (first :: rest))
    (hv : ∀ s ∈ first :: rest, inflightValue s transport = v) (t : Int) :
    inForce (first :: rest) transport t =
      if first.timestamp ≤ t ∧ t ≤ ((first :: rest).getLast (List.cons_ne_nil _ _)).timestamp then v else 0 := by
  by_cases hfirst : first.timestamp ≤ t
  · obtain ⟨s, hs⟩ : ∃ s, lastAt (first :: rest) t = some s := exists_lastAt hfirst
    rw [inForce_eq hs, hv s (mem_of_lastAt hs).1]
    exact if_congr (by simp [hfirst]) rfl rfl
  · rw [inForce_of_lt hw (not_le.mp hfirst), if_neg fun h => hfirst h.1]

/-- The gauge of a pod as a function of time. -/
def podStep (hw : Ordered (first :: rest)) (transport : String) : StepFn F where
  start := first.timestamp
  length := (spanStop ((first :: rest).map PodSample.timestamp) - first.timestamp).toNat
  length_pos := by
    have := first_lt_spanStop hw
    omega
  marks := marks ((first :: rest).map PodSample.timestamp)
  start_mem := List.mem_append_left _ List.mem_cons_self
  stop_mem := by
    have := first_lt_spanStop hw
    rw [show first.timestamp + ((spanStop ((first :: rest).map PodSample.timestamp) - first.timestamp).toNat : Int) =
      spanStop ((first :: rest).map PodSample.timestamp) by omega]
    exact List.mem_append_right _ List.mem_cons_self
  val := inForce (first :: rest) transport
  const := by
    intro x y hx hxy hy hmarks
    have hlt := first_lt_spanStop hw
    have hylast := le_last_of_lt_spanStop hw (show y < _ by omega)
    -- without a sample in between, the same sample is in force
    have hsame : lastAt (first :: rest) x = lastAt (first :: rest) y := by
      unfold lastAt
      congr 1
      apply List.filter_congr
      intro s hs
      have := hmarks s.timestamp (List.mem_append_left _ (List.mem_map_of_mem hs))
      rw [decide_eq_decide]
      omega
    obtain ⟨s, hs⟩ : ∃ s, lastAt (first :: rest) x = some s := exists_lastAt hx
    rw [inForce_eq hs, inForce_eq (hsame ▸ hs), if_pos (by omega), if_pos hylast]

end

/-! ## Averages -/

section
variable [Field F] {first : PodSample F} {rest : List (PodSample F)}

theorem sum_lastAt (value : PodSample F → F) (hw : Ordered (first :: rest)) :
    ∑ i ∈ range (((first :: rest).getLast (List.cons_ne_nil _ _)).timestamp - first.timestamp).toNat,
        ((lastAt (first :: rest) (first.timestamp + (i : Int))).map value).getD 0 = area value (first :: rest) := by
  induction rest generalizing first with
  | nil => simp [area]
  | cons second rest ih =>
    obtain ⟨hfirst, hrest⟩ := List.pairwise_cons.mp hw
    have hle := hfirst second List.mem_cons_self
    have hlast := first_le_last hrest
    rw [List.getLast_cons (List.cons_ne_nil second rest), area, ← ih hrest,
      show (((second :: rest).getLast (List.cons_ne_nil _ _)).timestamp - first.timestamp).toNat =
        (second.timestamp - first.timestamp).toNat +
          (((second :: rest).getLast (List.cons_ne_nil _ _)).timestamp - second.timestamp).toNat by omega,
      sum_range_add]
    congr 1
    · -- until the second sample, the first one is in force
      have hval : ∀ i ∈ range (second.timestamp - first.timestamp).toNat,
          ((lastAt (first :: second :: rest) (first.timestamp + (i : Int))).map value).getD 0 = value first := by
        intro i hi
        rw [mem_range] at hi
        rw [lastAt_cons, if_pos (by omega), lastAt_of_lt hrest (by omega)]
        rfl
      rw [sum_congr rfl hval, sum_const, card_range, nsmul_eq_mul, mul_comm, ← Int.cast_natCast,
        Int.toNat_of_nonneg (by omega)]
    · refine sum_congr rfl fun i _ => ?_
      have hshift : first.timestamp + (((second.timestamp - first.timestamp).toNat + i : Nat) : Int) =
          second.timestamp + (i : Int) := by omega
      obtain ⟨s, hs⟩ : ∃ s, lastAt (second :: rest) (second.timestamp + (i : Int)) = some s := exists_lastAt (by omega)
      rw [hshift, lastAt_cons, if_pos (by omega), hs]
      rfl

/-- **The rater's average is the average of the step function.** -/
theorem podInflightAvg_eq_avg [LinearOrder F] [CharZero F] {samples : List (PodSample F)}
    {nowUnix lookbackSeconds : Int} (hwin : samplesInWindow samples nowUnix lookbackSeconds = first :: rest)
    (hw : Ordered (first :: rest)) (transport : String) :
    podInflightAvg samples nowUnix lookbackSeconds transport = some (podStep hw transport).avg := by
  have hle := first_le_last hw
  rw [podInflightAvg_eq hwin]
  dsimp only
  congr 1
  unfold StepFn.avg podStep
  dsimp only
  by_cases hlast : ((first :: rest).getLast (List.cons_ne_nil _ _)).timestamp = first.timestamp
  · -- all samples have one timestamp, and the last one is in force there
    have hone : (spanStop ((first :: rest).map PodSample.timestamp) - first.timestamp).toNat = 1 := by
      rw [spanStop_eq, if_pos hlast]
      omega
    have hall : lastAt (first :: rest) first.timestamp = some ((first :: rest).getLast (List.cons_ne_nil _ _)) := by
      have hfilter : (first :: rest).filter (fun s => decide (s.timestamp ≤ first.timestamp)) = first :: rest := by
        rw [List.filter_eq_self]
        intro s hs
        rw [decide_eq_true_eq, ← hlast]
        exact le_last hw hs
      rw [lastAt, hfilter, List.getLast?_eq_getLast_of_ne_nil (List.cons_ne_nil _ _)]
    rw [if_pos hlast, hone, sum_range_one, Nat.cast_zero, add_zero, inForce_eq hall, if_pos hle, Nat.cast_one, div_one]
  · have hstop : spanStop ((first :: rest).map PodSample.timestamp) =
        ((first :: rest).getLast (List.cons_ne_nil _ _)).timestamp := by rw [spanStop_eq, if_neg hlast]
    rw [if_neg hlast, hstop, ← sum_lastAt _ hw]
    congr 1
    · refine sum_congr rfl fun i hi => ?_
      rw [mem_range] at hi
      obtain ⟨s, hs⟩ : ∃ s, lastAt (first :: rest) (first.timestamp + (i : Int)) = some s := exists_lastAt (by omega)
      rw [inForce_eq hs, if_pos (by omega), hs]
      rfl
    · rw [← Int.cast_natCast, Int.toNat_of_nonneg (by omega)]

end

/-! ## The fleet: pods in step -/

/-- The timestamps of every pod are in order. -/
def OrderedBuffers (b : AgentDeployBuffers F) : Prop := ∀ e ∈ b.entries, Ordered e.2

theorem Ordered.window {samples : List (PodSample F)} (h : Ordered samples) (nowUnix lookbackSeconds : Int) :
    Ordered (samplesInWindow samples nowUnix lookbackSeconds) :=
  h.sublist (List.dropWhile_sublist _)

theorem le_first {samples : List (PodSample F)} {nowUnix lookbackSeconds : Int} {first : PodSample F}
    {rest : List (PodSample F)} (hwin : samplesInWindow samples nowUnix lookbackSeconds = first :: rest) :
    nowUnix - lookbackSeconds ≤ first.timestamp := by
  have hhead := List.head?_dropWhile_not (fun s : PodSample F => decide (s.timestamp < nowUnix - lookbackSeconds))
    samples
  rw [samplesInWindow] at hwin
  rw [hwin] at hhead
  simpa using hhead

section
variable [Field F] [LinearOrder F] [IsStrictOrderedRing F] {nowUnix lookbackSeconds : Int} {transport : String}

/-- The step functions of the pods that have samples in the window. -/
theorem exists_stepFns (nowUnix lookbackSeconds : Int) (transport : String)
    {l : List (Σ _ : String, List (PodSample F))} (hl : ∀ e ∈ l, Ordered e.2) :
    ∃ fs : List (StepFn F),
      (∀ f ∈ fs, ∃ e ∈ l, ∃ first rest, samplesInWindow e.2 nowUnix lookbackSeconds = first :: rest ∧
        ∃ hw : Ordered (first :: rest), f = podStep hw transport) ∧
      (l.map fun e => (podInflightAvg e.2 nowUnix lookbackSeconds transport).getD 0).sum = (fs.map StepFn.avg).sum ∧
      ∀ t, (l.map fun e => inForce (samplesInWindow e.2 nowUnix lookbackSeconds) transport t).sum =
        (fs.map fun f => f.val t).sum := by
  induction l with
  | nil => exact ⟨[], by simp, rfl, fun _ => rfl⟩
  | cons e l ih =>
    obtain ⟨fs, hfs, havg, hval⟩ := ih fun x hx => hl x (List.mem_cons_of_mem _ hx)
    have hmem : ∀ f ∈ fs, ∃ x ∈ e :: l, ∃ first rest, samplesInWindow x.2 nowUnix lookbackSeconds = first :: rest ∧
        ∃ hw : Ordered (first :: rest), f = podStep hw transport := by
      intro f hf
      obtain ⟨x, hx, h⟩ := hfs f hf
      exact ⟨x, List.mem_cons_of_mem _ hx, h⟩
    cases hwin : samplesInWindow e.2 nowUnix lookbackSeconds with
    | nil =>
      refine ⟨fs, hmem, ?_, fun t => ?_⟩
      · rw [List.map_cons, List.sum_cons, havg, podInflightAvg, hwin]
        exact zero_add _
      · rw [List.map_cons, List.sum_cons, hval, hwin]
        exact zero_add _
    | cons first rest =>
      have hw : Ordered (first :: rest) := hwin ▸ (hl e List.mem_cons_self).window nowUnix lookbackSeconds
      refine ⟨podStep hw transport :: fs, ?_, ?_, fun t => ?_⟩
      · intro f hf
        rcases List.mem_cons.mp hf with rfl | hf
        · exact ⟨e, List.mem_cons_self, first, rest, hwin, hw, rfl⟩
        · exact hmem f hf
      · rw [List.map_cons, List.sum_cons, havg, podInflightAvg_eq_avg hwin hw]
        rfl
      · rw [List.map_cons, List.sum_cons, hval, hwin]
        rfl

/-- In step, the summed averages are at most the load at some instant of the window. -/
theorem exists_le_load {b : AgentDeployBuffers F} (hb : OrderedBuffers b)
    (hstep : PodsInStep b nowUnix lookbackSeconds) :
    ∃ t, nowUnix - lookbackSeconds ≤ t ∧
      calculateInflightAvg b nowUnix lookbackSeconds transport ≤ load b nowUnix lookbackSeconds transport t := by
  obtain ⟨fs, hfs, havg, hval⟩ := exists_stepFns nowUnix lookbackSeconds transport hb
  rw [calculateInflightAvg, sumOverPods_eq, havg]
  rcases eq_or_ne fs [] with rfl | hne
  · refine ⟨nowUnix - lookbackSeconds, le_rfl, ?_⟩
    rw [load, hval]
    exact le_rfl
  have hin : ∀ f ∈ fs, ∀ g ∈ fs, InStep f g := by
    intro f hf g hg s hs t ht hst
    obtain ⟨e, he, first, rest, hwin, hw, rfl⟩ := hfs f hf
    obtain ⟨e', he', first', rest', hwin', hw', rfl⟩ := hfs g hg
    have h := hstep e he e' he'
    dsimp only [windowTimes] at h
    rw [hwin, hwin'] at h
    have hlt := first_lt_spanStop hw
    have hlt' := first_lt_spanStop hw'
    have := h (by simp) (by simp) s hs t ht hst
    rw [headD_times, headD_times] at this
    dsimp only [podStep]
    rw [Int.toNat_of_nonneg (by omega), Int.toNat_of_nonneg (by omega)]
    exact this
  obtain ⟨t, hstart, hle⟩ := exists_sum_avg_le hne hin
  refine ⟨t, ?_, ?_⟩
  · obtain ⟨f, hf⟩ := List.exists_mem_of_ne_nil fs hne
    obtain ⟨e, he, first, rest, hwin, hw, rfl⟩ := hfs f hf
    exact le_trans (le_first hwin) (hstart _ hf)
  · rw [load, hval]
    exact hle

end

/-! ## The fleet: pods out of step -/

/-- The same pods, sampled at the same times. -/
def SameTimes (b b' : AgentDeployBuffers F) : Prop :=
  b'.entries.map (fun e => (e.1, e.2.map PodSample.timestamp)) =
    b.entries.map (fun e => (e.1, e.2.map PodSample.timestamp))

def NonNegative [Zero F] [LE F] (b : AgentDeployBuffers F) : Prop :=
  ∀ e ∈ b.entries, ∀ s ∈ e.2, ∀ g ∈ s.inflightByTransport.entries, 0 ≤ g.2

/-- A sample with another gauge, all of it on `transport` or, for the total, on some transport. -/
def PodSample.withGauge (s : PodSample F) (transport : String) (v : F) : PodSample F :=
  { s with inflightByTransport := AList.singleton (if transport = transportTotal then "grpc" else transport) v }

/-- The buffers with other gauges. -/
def regauge (b : AgentDeployBuffers F) (transport : String) (g : String → PodSample F → F) : AgentDeployBuffers F where
  entries := b.entries.map fun e => ⟨e.1, e.2.map fun s => s.withGauge transport (g e.1 s)⟩
  nodupKeys := by
    change (List.keys _).Nodup
    rw [List.keys, List.map_map]
    exact b.nodupKeys

section
variable {nowUnix lookbackSeconds : Int} {transport : String}

theorem windowTimes_eq (samples : List (PodSample F)) (nowUnix lookbackSeconds : Int) :
    windowTimes samples nowUnix lookbackSeconds =
      (samples.map PodSample.timestamp).dropWhile fun t => decide (t < nowUnix - lookbackSeconds) := by
  rw [List.dropWhile_map]
  rfl

theorem SameTimes.exists_mem {b b' : AgentDeployBuffers F} (h : SameTimes b b')
    {e : Σ _ : String, List (PodSample F)} (he : e ∈ b'.entries) :
    ∃ x ∈ b.entries, x.2.map PodSample.timestamp = e.2.map PodSample.timestamp := by
  have hin : (e.1, e.2.map PodSample.timestamp) ∈ b.entries.map fun e => (e.1, e.2.map PodSample.timestamp) := by
    rw [← h]
    exact List.mem_map_of_mem he
  obtain ⟨x, hx, heq⟩ := List.mem_map.mp hin
  exact ⟨x, hx, congrArg Prod.snd heq⟩

/-- Whether the pods are in step is a matter of the sample times. -/
theorem PodsInStep.of_sameTimes {b b' : AgentDeployBuffers F} (h : SameTimes b b')
    (hstep : PodsInStep b nowUnix lookbackSeconds) : PodsInStep b' nowUnix lookbackSeconds := by
  intro e he e' he'
  obtain ⟨x, hx, hxe⟩ := h.exists_mem he
  obtain ⟨x', hx', hxe'⟩ := h.exists_mem he'
  rw [windowTimes_eq, windowTimes_eq, ← hxe, ← hxe', ← windowTimes_eq, ← windowTimes_eq]
  exact hstep x hx x' hx'

theorem Ordered.of_times_eq {w w' : List (PodSample F)} (hw : Ordered w)
    (h : w.map PodSample.timestamp = w'.map PodSample.timestamp) : Ordered w' := by
  unfold Ordered at hw ⊢
  rw [← List.pairwise_map (f := PodSample.timestamp) (R := fun s t => s ≤ t)] at hw ⊢
  rw [← h]
  exact hw

theorem OrderedBuffers.of_sameTimes {b b' : AgentDeployBuffers F} (h : SameTimes b b') (hb : OrderedBuffers b) :
    OrderedBuffers b' := by
  intro e he
  obtain ⟨x, hx, heq⟩ := h.exists_mem he
  exact (hb x hx).of_times_eq heq

theorem sameTimes_regauge (b : AgentDeployBuffers F) (transport : String) (g : String → PodSample F → F) :
    SameTimes b (regauge b transport g) := by
  unfold SameTimes regauge
  rw [List.map_map]
  apply List.map_congr_left
  intro e _
  simp [PodSample.withGauge]

theorem samplesInWindow_regauge (samples : List (PodSample F)) (transport : String) (g : PodSample F → F) :
    samplesInWindow (samples.map fun s => s.withGauge transport (g s)) nowUnix lookbackSeconds =
      (samplesInWindow samples nowUnix lookbackSeconds).map fun s => s.withGauge transport (g s) := by
  unfold samplesInWindow
  rw [List.dropWhile_map]
  rfl

theorem inflightValue_withGauge [AddMonoid F] (s : PodSample F) (transport : String) (v : F) :
    inflightValue (s.withGauge transport v) transport = v := by
  unfold inflightValue transportValue PodSample.withGauge
  by_cases h : transport = transportTotal
  · simp [h]
  · simp [h, AList.lookup]

theorem lastAt_map (w : List (PodSample F)) (transport : String) (g : PodSample F → F) (t : Int) :
    lastAt (w.map fun s => s.withGauge transport (g s)) t =
      (lastAt w t).map fun s => s.withGauge transport (g s) := by
  unfold lastAt
  rw [List.filter_map, List.getLast?_map]
  rfl

end

section
variable [Field F] {first : PodSample F} {rest : List (PodSample F)} {cut : Int}

omit [Field F] in
theorem lastAt_lt_iff (hw : Ordered (first :: rest)) (hcut : cut ∈ marks ((first :: rest).map PodSample.timestamp))
    {x : Int} {s : PodSample F} (hs : lastAt (first :: rest) x = some s)
    (hx : x ≤ ((first :: rest).getLast (List.cons_ne_nil _ _)).timestamp) : s.timestamp < cut ↔ x < cut := by
  constructor
  · intro hlt
    by_contra hle
    obtain ⟨s', hs', rfl⟩ := mem_times_of_mem_marks hcut (by omega)
    have := le_of_lastAt hw hs hs' (by omega)
    omega
  · intro hlt
    have := (mem_of_lastAt hs).2
    omega

/-- A gauge that reads `u` in the samples before a mark and `v` from there on. -/
theorem inForce_split (transport : String) (hw : Ordered (first :: rest))
    (hcut : cut ∈ marks ((first :: rest).map PodSample.timestamp)) (u v : F) (x : Int) :
    inForce ((first :: rest).map fun s => s.withGauge transport (if s.timestamp < cut then u else v)) transport x =
      if first.timestamp ≤ x ∧ x ≤ ((first :: rest).getLast (List.cons_ne_nil _ _)).timestamp then
        if x < cut then u else v
      else 0 := by
  have hlast : ((first :: rest).map fun s => s.withGauge transport (if s.timestamp < cut then u else v)).getLast? =
      some (((first :: rest).getLast (List.cons_ne_nil _ _)).withGauge transport
        (if ((first :: rest).getLast (List.cons_ne_nil _ _)).timestamp < cut then u else v)) := by
    rw [List.getLast?_map, List.getLast?_eq_getLast_of_ne_nil (List.cons_ne_nil _ _)]
    rfl
  rw [inForce, lastAt_map, hlast]
  by_cases hfirst : first.timestamp ≤ x
  · obtain ⟨s, hs⟩ : ∃ s, lastAt (first :: rest) x = some s := exists_lastAt hfirst
    rw [hs]
    change (if x ≤ ((first :: rest).getLast (List.cons_ne_nil _ _)).timestamp then _ else _) = _
    by_cases hx : x ≤ ((first :: rest).getLast (List.cons_ne_nil _ _)).timestamp
    · rw [if_pos hx, if_pos ⟨hfirst, hx⟩, inflightValue_withGauge]
      simp only [lastAt_lt_iff hw hcut hs hx]
    · rw [if_neg hx, if_neg (fun h => hx h.2)]
  · rw [lastAt_of_lt hw (not_le.mp hfirst)]
    exact (if_neg fun h => hfirst h.1).symm

theorem sum_range_ite {k n : Nat} (h : k ≤ n) (u v : F) :
    ∑ i ∈ range n, (if i < k then u else v) = k * u + (n - k : Nat) * v := by
  obtain ⟨m, rfl⟩ := Nat.exists_eq_add_of_le h
  have hbefore : ∀ i ∈ range k, (if i < k then u else v) = u := fun i hi => if_pos (mem_range.mp hi)
  have hafter : ∀ i ∈ range m, (if k + i < k then u else v) = v := fun i _ => if_neg (by omega)
  rw [sum_range_add, sum_congr rfl hbefore, sum_congr rfl hafter, sum_const, sum_const, card_range, card_range,
    nsmul_eq_mul, nsmul_eq_mul, Nat.add_sub_cancel_left]

theorem podInflightAvg_split [LinearOrder F] [IsStrictOrderedRing F] (transport : String) {samples : List (PodSample F)}
    {nowUnix lookbackSeconds : Int} (hwin : samplesInWindow samples nowUnix lookbackSeconds = first :: rest)
    (hw : Ordered (first :: rest)) (hcut : cut ∈ marks ((first :: rest).map PodSample.timestamp)) (u v : F) :
    podInflightAvg (samples.map fun s => s.withGauge transport (if s.timestamp < cut then u else v)) nowUnix
        lookbackSeconds transport =
      some (((cut - first.timestamp : Int) * u +
        (spanStop ((first :: rest).map PodSample.timestamp) - cut : Int) * v) /
          (spanStop ((first :: rest).map PodSample.timestamp) - first.timestamp : Int)) := by
  have hwin' : samplesInWindow (samples.map fun s => s.withGauge transport (if s.timestamp < cut then u else v)) nowUnix
      lookbackSeconds =
        first.withGauge transport (if first.timestamp < cut then u else v) ::
          rest.map fun s => s.withGauge transport (if s.timestamp < cut then u else v) := by
    rw [samplesInWindow_regauge samples transport fun s => if s.timestamp < cut then u else v, hwin]
    rfl
  have htimes : (first :: rest).map PodSample.timestamp =
      (first.withGauge transport (if first.timestamp < cut then u else v) ::
        rest.map fun s => s.withGauge transport (if s.timestamp < cut then u else v)).map PodSample.timestamp := by
    simp [PodSample.withGauge]
  obtain ⟨hfirst, hstop⟩ := mem_span_of_mem_marks hw hcut
  rw [podInflightAvg_eq_avg hwin' (hw.of_times_eq htimes)]
  congr 1
  unfold StepFn.avg podStep
  dsimp only
  rw [← htimes]
  -- the seconds of the span, and the value in each of them
  change (∑ i ∈ range (spanStop ((first :: rest).map PodSample.timestamp) - first.timestamp).toNat,
    inForce ((first :: rest).map fun s => s.withGauge transport (if s.timestamp < cut then u else v)) transport
      (first.timestamp + (i : Int))) /
        (((spanStop ((first :: rest).map PodSample.timestamp) - first.timestamp).toNat : Nat) : F) = _
  have hval : ∀ i ∈ range (spanStop ((first :: rest).map PodSample.timestamp) - first.timestamp).toNat,
      inForce ((first :: rest).map fun s => s.withGauge transport (if s.timestamp < cut then u else v)) transport
        (first.timestamp + (i : Int)) = if i < (cut - first.timestamp).toNat then u else v := by
    intro i hi
    rw [mem_range] at hi
    rw [inForce_split transport hw hcut, if_pos ⟨by omega, le_last_of_lt_spanStop hw (by omega)⟩]
    refine if_congr ?_ rfl rfl
    omega
  have hcast : ∀ z : Int, 0 ≤ z → ((z.toNat : Nat) : F) = (z : F) := by
    intro z hz
    rw [← Int.cast_natCast, Int.toNat_of_nonneg hz]
  have hafter : (spanStop ((first :: rest).map PodSample.timestamp) - first.timestamp).toNat -
      (cut - first.timestamp).toNat = (spanStop ((first :: rest).map PodSample.timestamp) - cut).toNat := by omega
  rw [sum_congr rfl hval, sum_range_ite (by omega), hafter, hcast _ (by omega), hcast _ (by omega), hcast _ (by omega)]

end

theorem sum_entries_eq_add {M : Type} [AddCommMonoid M] {b : AgentDeployBuffers F}
    {e e' : Σ _ : String, List (PodSample F)} (he : e ∈ b.entries) (he' : e' ∈ b.entries) (hne : e.1 ≠ e'.1)
    {f : (Σ _ : String, List (PodSample F)) → M} (hf : ∀ x ∈ b.entries, x.1 ≠ e.1 → x.1 ≠ e'.1 → f x = 0) :
    (b.entries.map f).sum = f e + f e' := by
  classical
  have hkey : ∀ {x y : Σ _ : String, List (PodSample F)}, x ∈ b.entries → y ∈ b.entries → x ≠ y → x.1 ≠ y.1 :=
    fun hx hy hxy hk => hxy (b.nodupKeys.eq_of_fst_eq hx hy hk)
  rw [← List.sum_toFinset f b.nodupKeys.nodup]
  refine sum_eq_add e e' (fun h => hne (congrArg Sigma.fst h)) ?_ ?_ ?_
  · intro x hx hxe
    rw [List.mem_toFinset] at hx
    exact hf x hx (hkey hx he hxe.1) (hkey hx he' hxe.2)
  · exact fun h => absurd (List.mem_toFinset.mpr he) h
  · exact fun h => absurd (List.mem_toFinset.mpr he') h

section
variable [Field F] [LinearOrder F] [IsStrictOrderedRing F] {nowUnix lookbackSeconds : Int}

/-- One request on the pod `p` before `s`, and one on the pod `q` from `t` on. -/
def handover (p q : String) (s t : Int) (pod : String) (x : PodSample F) : F :=
  if pod = p then (if x.timestamp < s then 1 else 0)
  else if pod = q then (if x.timestamp < t then 0 else 1)
  else 0

theorem podInflightAvg_zero {samples : List (PodSample F)} (hs : Ordered samples) (transport : String) :
    (podInflightAvg (samples.map fun s => s.withGauge transport 0) nowUnix lookbackSeconds transport).getD 0 = 0 ∧
      ∀ t, inForce (samplesInWindow (samples.map fun s => s.withGauge transport 0) nowUnix lookbackSeconds)
        transport t = 0 := by
  cases hwin : samplesInWindow samples nowUnix lookbackSeconds with
  | nil =>
    rw [podInflightAvg, samplesInWindow_regauge samples transport fun _ => 0, hwin]
    exact ⟨rfl, fun _ => rfl⟩
  | cons first rest =>
    have hw : Ordered (first :: rest) := hwin ▸ hs.window nowUnix lookbackSeconds
    have hcut : first.timestamp ∈ marks ((first :: rest).map PodSample.timestamp) :=
      List.mem_append_left _ List.mem_cons_self
    have havg := podInflightAvg_split transport hwin hw hcut 0 0
    simp only [ite_self, mul_zero, add_zero, zero_div] at havg
    refine ⟨by rw [havg, Option.getD_some], fun t => ?_⟩
    have hin := inForce_split transport hw hcut 0 0 t
    simp only [ite_self] at hin
    rw [samplesInWindow_regauge samples transport fun _ => 0, hwin]
    exact hin

omit [LinearOrder F] [IsStrictOrderedRing F] in
theorem handover_left (p q : String) (s t : Int) :
    handover p q s t p = fun x : PodSample F => if x.timestamp < s then (1 : F) else 0 := by
  funext x
  rw [handover, if_pos rfl]

omit [LinearOrder F] [IsStrictOrderedRing F] in
theorem handover_right {p q : String} (h : p ≠ q) (s t : Int) :
    handover p q s t q = fun x : PodSample F => if x.timestamp < t then (0 : F) else 1 := by
  funext x
  rw [handover, if_neg h.symm, if_pos rfl]

omit [LinearOrder F] [IsStrictOrderedRing F] in
theorem handover_other {p q pod : String} (hp : pod ≠ p) (hq : pod ≠ q) (s t : Int) :
    handover p q s t pod = fun _ : PodSample F => (0 : F) := by
  funext x
  rw [handover, if_neg hp, if_neg hq]

theorem nonNegative_handover (b : AgentDeployBuffers F) (transport : String) (p q : String) (s t : Int) :
    NonNegative (regauge b transport (handover p q s t)) := by
  intro z hz y hy g hg
  obtain ⟨z, -, rfl⟩ := List.mem_map.mp hz
  obtain ⟨y, -, rfl⟩ := List.mem_map.mp hy
  rw [PodSample.withGauge, AList.singleton_entries, List.mem_singleton] at hg
  rw [hg]
  dsimp only [handover]
  split_ifs <;> simp

section
variable {b : AgentDeployBuffers F} {e e' : Σ _ : String, List (PodSample F)} {first first' : PodSample F}
  {rest rest' : List (PodSample F)} {s t : Int}

/-- The reported average of a handover: the parts of the two spans that the request was on. -/
theorem calculateInflightAvg_handover (hb : OrderedBuffers b) (he : e ∈ b.entries) (he' : e' ∈ b.entries)
    (hpods : e.1 ≠ e'.1) (hwin : samplesInWindow e.2 nowUnix lookbackSeconds = first :: rest)
    (hwin' : samplesInWindow e'.2 nowUnix lookbackSeconds = first' :: rest')
    (hs : s ∈ marks ((first :: rest).map PodSample.timestamp))
    (ht : t ∈ marks ((first' :: rest').map PodSample.timestamp)) (transport : String) :
    calculateInflightAvg (regauge b transport (handover e.1 e'.1 s t)) nowUnix lookbackSeconds transport =
      ((s - first.timestamp : Int) : F) / (spanStop ((first :: rest).map PodSample.timestamp) - first.timestamp : Int) +
        ((spanStop ((first' :: rest').map PodSample.timestamp) - t : Int) : F) /
          (spanStop ((first' :: rest').map PodSample.timestamp) - first'.timestamp : Int) := by
  have hw : Ordered (first :: rest) := hwin ▸ (hb e he).window nowUnix lookbackSeconds
  have hw' : Ordered (first' :: rest') := hwin' ▸ (hb e' he').window nowUnix lookbackSeconds
  rw [calculateInflightAvg, sumOverPods_eq, regauge, List.map_map, sum_entries_eq_add he he' hpods]
  · dsimp only [Function.comp_apply]
    rw [handover_left, handover_right hpods, podInflightAvg_split transport hwin hw hs,
      podInflightAvg_split transport hwin' hw' ht]
    simp
  · intro z hz h h'
    dsimp only [Function.comp_apply]
    rw [handover_other h h']
    exact (podInflightAvg_zero (hb z hz) transport).1

/-- At no instant is a handover more than one request. -/
theorem load_handover_le (hb : OrderedBuffers b) (he : e ∈ b.entries) (he' : e' ∈ b.entries)
    (hpods : e.1 ≠ e'.1) (hwin : samplesInWindow e.2 nowUnix lookbackSeconds = first :: rest)
    (hwin' : samplesInWindow e'.2 nowUnix lookbackSeconds = first' :: rest')
    (hs : s ∈ marks ((first :: rest).map PodSample.timestamp))
    (ht : t ∈ marks ((first' :: rest').map PodSample.timestamp)) (hst : s ≤ t) (transport : String) (x : Int) :
    load (regauge b transport (handover e.1 e'.1 s t)) nowUnix lookbackSeconds transport x ≤ (1 : F) := by
  have hw : Ordered (first :: rest) := hwin ▸ (hb e he).window nowUnix lookbackSeconds
  have hw' : Ordered (first' :: rest') := hwin' ▸ (hb e' he').window nowUnix lookbackSeconds
  rw [load, regauge, List.map_map, sum_entries_eq_add he he' hpods]
  · dsimp only [Function.comp_apply]
    rw [handover_left, handover_right hpods,
      samplesInWindow_regauge e.2 transport fun y => if y.timestamp < s then (1 : F) else 0,
      samplesInWindow_regauge e'.2 transport fun y => if y.timestamp < t then (0 : F) else 1, hwin, hwin',
      inForce_split transport hw hs, inForce_split transport hw' ht]
    rcases lt_or_ge x s with hx | hx
    · rw [if_pos hx, if_pos (lt_of_lt_of_le hx hst), ite_self, add_zero]
      split_ifs <;> simp
    · rw [if_neg (not_lt.mpr hx), ite_self, zero_add]
      split_ifs <;> simp
  · intro z hz h h'
    dsimp only [Function.comp_apply]
    rw [handover_other h h']
    exact (podInflightAvg_zero (hb z hz) transport).2 x

end

/-- When a larger part of the first span has passed than of the second one, the first part and the rest of the second
are more than a whole. -/
theorem one_lt_div_add_div {a S c S' : Int} (hS : 0 < S) (hS' : 0 < S') (hlt : c * S < a * S') :
    (1 : F) < (a : F) / (S : F) + ((S' - c : Int) : F) / (S' : F) := by
  have hSF : (0 : F) < (S : F) := Int.cast_pos.mpr hS
  have hSF' : (0 : F) < (S' : F) := Int.cast_pos.mpr hS'
  have hparts : (c : F) / (S' : F) < (a : F) / (S : F) := by
    rw [div_lt_div_iff₀ hSF' hSF]
    exact_mod_cast hlt
  have hrest : ((S' - c : Int) : F) / (S' : F) = 1 - (c : F) / (S' : F) := by
    rw [Int.cast_sub, sub_div, div_self hSF'.ne']
  rw [hrest]
  linarith

/-- Out of step, a handover between two pods is counted with more than one request. -/
theorem exists_exceeds {b : AgentDeployBuffers F} (hb : OrderedBuffers b)
    (hnot : ¬PodsInStep b nowUnix lookbackSeconds) (transport : String) :
    ∃ b', SameTimes b b' ∧ NonNegative b' ∧ ∀ t, load b' nowUnix lookbackSeconds transport t <
      calculateInflightAvg b' nowUnix lookbackSeconds transport := by
  unfold PodsInStep at hnot
  dsimp only at hnot
  push Not at hnot
  obtain ⟨e, he, e', he', hne, hne', s, hs, t, ht, hst, hlt⟩ := hnot
  obtain ⟨first, rest, hwin⟩ : ∃ first rest, samplesInWindow e.2 nowUnix lookbackSeconds = first :: rest :=
    List.exists_cons_of_ne_nil fun h => hne (by rw [windowTimes, h]; rfl)
  obtain ⟨first', rest', hwin'⟩ : ∃ first rest, samplesInWindow e'.2 nowUnix lookbackSeconds = first :: rest :=
    List.exists_cons_of_ne_nil fun h => hne' (by rw [windowTimes, h]; rfl)
  unfold windowTimes at hs ht hlt
  rw [hwin] at hs hlt
  rw [hwin'] at ht hlt
  rw [headD_times, headD_times] at hlt
  have hspan := sub_pos.mpr (first_lt_spanStop (hwin ▸ (hb e he).window nowUnix lookbackSeconds))
  have hspan' := sub_pos.mpr (first_lt_spanStop (hwin' ▸ (hb e' he').window nowUnix lookbackSeconds))
  -- one pod is always in step with itself
  have hpods : e.1 ≠ e'.1 := by
    intro h
    obtain rfl := b.nodupKeys.eq_of_fst_eq he he' h
    rw [hwin] at hwin'
    obtain ⟨rfl, rfl⟩ := List.cons.inj hwin'
    exact absurd (mul_le_mul_of_nonneg_right (sub_le_sub_right hst first.timestamp) hspan.le) (not_le.mpr hlt)
  refine ⟨regauge b transport (handover e.1 e'.1 s t), sameTimes_regauge _ _ _,
    nonNegative_handover b transport _ _ s t, fun x => ?_⟩
  refine lt_of_le_of_lt (load_handover_le hb he he' hpods hwin hwin' hs ht hst transport x) ?_
  rw [calculateInflightAvg_handover hb he he' hpods hwin hwin' hs ht]
  have hmore := one_lt_div_add_div (F := F) hspan hspan' hlt
  rwa [sub_sub_sub_cancel_right] at hmore

/-- **The average stays below the peak exactly for pods in step.** For pods with ordered samples: whatever their gauges
read at these times, the reported average is at most the load at some instant of the window. -/
theorem inflight_le_peak_iff (b : AgentDeployBuffers F) (hb : OrderedBuffers b) (nowUnix lookbackSeconds : Int)
    (transport : String) :
    (∀ b', SameTimes b b' → NonNegative b' → ∃ t, nowUnix - lookbackSeconds ≤ t ∧
      calculateInflightAvg b' nowUnix lookbackSeconds transport ≤ load b' nowUnix lookbackSeconds transport t) ↔
      PodsInStep b nowUnix lookbackSeconds := by
  constructor
  · intro h
    by_contra hnot
    obtain ⟨b', hsame, hnonneg, hlt⟩ := exists_exceeds hb hnot transport
    obtain ⟨t, -, hle⟩ := h b' hsame hnonneg
    exact absurd hle (not_le.mpr (hlt t))
  · intro hstep b' hsame _
    exact exists_le_load (hb.of_sameTimes hsame) (hstep.of_sameTimes hsame)

end

def gaugeAt (timestamp : Int) (grpc : ℚ) : PodSample ℚ where
  timestamp := timestamp
  requestsByTransport := ∅
  streamMessagesByTransport := ∅
  inflightByTransport := AList.singleton "grpc" grpc

/-- Two pods that are scraped together. -/
def scrapedTogether : AgentDeployBuffers ℚ :=
  (AList.singleton "planner-0" [gaugeAt 0 5, gaugeAt 10 3, gaugeAt 30 4]).insert "planner-1"
    [gaugeAt 0 1, gaugeAt 10 6, gaugeAt 30 0]

theorem inflight_le_peak_scrapedTogether :
    OrderedBuffers scrapedTogether ∧ ∀ b', SameTimes scrapedTogether b' → NonNegative b' →
      ∃ t, 30 - lookback1m ≤ t ∧ calculateInflightAvg b' 30 lookback1m "grpc" ≤ load b' 30 lookback1m "grpc" t := by
  have hb : OrderedBuffers scrapedTogether := by
    unfold OrderedBuffers Ordered
    decide +kernel
  refine ⟨hb, (inflight_le_peak_iff scrapedTogether hb 30 lookback1m "grpc").mpr ?_⟩
  unfold PodsInStep
  decide +kernel

/-- A pod with five requests in flight is replaced by another one, which takes them over. -/
def replacedPod : AgentDeployBuffers ℚ :=
  (AList.singleton "planner-0" [gaugeAt 0 5, gaugeAt 10 5]).insert "planner-1" [gaugeAt 20 5, gaugeAt 30 5]

/-- The rater reports ten requests in flight, and there were never more than five. -/
theorem inflight_exceeds_peak :
    OrderedBuffers replacedPod ∧ NonNegative replacedPod ∧ calculateInflightAvg replacedPod 30 lookback1m "grpc" = 10 ∧
      ∀ t, load replacedPod 30 lookback1m "grpc" t ≤ 5 := by
  refine ⟨?_, ?_, by decide +kernel, fun t => ?_⟩
  · unfold OrderedBuffers Ordered
    decide +kernel
  · unfold NonNegative
    decide +kernel
  · have hload : load replacedPod 30 lookback1m "grpc" t =
        inForce [gaugeAt 20 5, gaugeAt 30 5] "grpc" t + (inForce [gaugeAt 0 5, gaugeAt 10 5] "grpc" t + 0) := rfl
    have hpair : ∀ a b : Int, a ≤ b → inForce [gaugeAt a 5, gaugeAt b 5] "grpc" t = if a ≤ t ∧ t ≤ b then 5 else 0 := by
      intro a b hab
      refine inForce_of_constant ?_ ?_ t
      · exact .cons (by simpa [gaugeAt] using hab) (.cons (by simp) .nil)
      · intro s hs
        rcases List.mem_pair.mp hs with rfl | rfl
        · rfl
        · rfl
    rw [hload, hpair 20 30 (by decide), hpair 0 10 (by decide)]
    split_ifs
    · omega
    · norm_num
    · norm_num
    · norm_num

end KynoMesh.Rater
