import Mathlib.Algebra.Order.BigOperators.Group.List
import Mathlib.Algebra.Order.Ring.Rat
import KynoMesh.Rater.Exact

/-!
# The rate of a counter that restarts

`podRate` commits the growth of a run when the next one starts. In exact arithmetic its result is the sum of the
increments from sample to sample, over the observed time.

* `samplesInWindow_eq_filter` : on ordered samples, the window is what its bound says;
* `counted`, `increments_eq_counted` : the increments, pair by pair; `counted_append` : they add up over parts that share
  a sample;
* `podRate_counted` : the rate.
-/

namespace KynoMesh.Rater
open KynoMesh.Lib

/-! ## The window -/

theorem samplesInWindow_eq_filter {F : Type} {samples : List (PodSample F)}
    (h : samples.Pairwise fun s s' => s.timestamp ≤ s'.timestamp) (nowUnix lookbackSeconds : Int) :
    samplesInWindow samples nowUnix lookbackSeconds =
      samples.filter fun s => decide (nowUnix - lookbackSeconds ≤ s.timestamp) := by
  unfold samplesInWindow
  induction samples with
  | nil => rfl
  | cons s samples ih =>
    obtain ⟨hs, hrest⟩ := List.pairwise_cons.mp h
    by_cases hold : s.timestamp < nowUnix - lookbackSeconds
    · rw [List.dropWhile_cons_of_pos (by simpa using hold), ih hrest, List.filter_cons_of_neg]
      rw [decide_eq_true_eq]
      omega
    · -- from the first sample in the window on, all are
      rw [List.dropWhile_cons_of_neg (by simpa using hold), eq_comm, List.filter_eq_self]
      intro s' hs'
      have hle : s.timestamp ≤ s'.timestamp := by
        rcases List.mem_cons.mp hs' with rfl | hs'
        · exact le_rfl
        · exact hs s' hs'
      exact decide_eq_true (by omega)

theorem rateWindow_eq {F : Type} {samples w : List (PodSample F)} {nowUnix lookbackSeconds : Int} {first last : PodSample F}
    (hw : samplesInWindow samples nowUnix lookbackSeconds = w) (hfirst : w.head? = some first)
    (hlast : w.getLast? = some last) (hspan : first.timestamp < last.timestamp) :
    rateWindow samples nowUnix lookbackSeconds = some (first, w.tail, last.timestamp - first.timestamp) := by
  unfold rateWindow
  rw [hw]
  rcases w with _ | ⟨s, _ | ⟨second, rest⟩⟩
  · simp at hfirst
  · -- a single sample is both ends
    obtain rfl : s = first := by simpa using hfirst
    obtain rfl : s = last := by simpa using hlast
    exact absurd hspan (lt_irrefl _)
  · obtain rfl : s = first := by simpa using hfirst
    have hlast' : (second :: rest).getLast (List.cons_ne_nil _ _) = last := by
      rw [List.getLast?_cons_cons, List.getLast?_eq_some_getLast (List.cons_ne_nil _ _)] at hlast
      exact Option.some.inj hlast
    dsimp only
    rw [hlast', if_neg (by omega)]
    rfl

/-! ## Increments -/

section
variable {F : Type} [Field F] [LinearOrder F]

/-- What a counter counted over consecutive values. -/
def counted (values : List F) : F := (List.zipWith increment values values.tail).sum

theorem counted_cons (a b : F) (values : List F) : counted (a :: b :: values) = increment a b + counted (b :: values) := by
  simp [counted]

theorem increments_eq_counted (a : F) (values : List F) : increments a values = counted (a :: values) := by
  induction values generalizing a with
  | nil => simp [increments, counted]
  | cons b values ih => rw [increments, ih, counted_cons]

theorem counted_append (pre post : List F) (a : F) :
    counted (pre ++ [a]) + counted (a :: post) = counted (pre ++ a :: post) := by
  induction pre with
  | nil => simp [counted]
  | cons b pre ih =>
    cases pre with
    | nil =>
      simp only [List.cons_append, List.nil_append, counted_cons]
      simp [counted]
    | cons c pre =>
      simp only [List.cons_append, counted_cons] at ih ⊢
      rw [add_assoc, ih]

variable [IsStrictOrderedRing F]

theorem increment_nonneg {prev curr : F} (h : 0 ≤ curr) : 0 ≤ increment prev curr := by
  unfold increment
  split_ifs with hlt
  · exact h
  · exact sub_nonneg.mpr (not_lt.mp hlt)

theorem counted_nonneg {values : List F} (h : ∀ v ∈ values, 0 ≤ v) : 0 ≤ counted values := by
  induction values with
  | nil => simp [counted]
  | cons a values ih =>
    cases values with
    | nil => simp [counted]
    | cons b values =>
      rw [counted_cons]
      exact add_nonneg (increment_nonneg (h b (by simp))) (ih fun v hv => h v (List.mem_cons_of_mem a hv))

theorem transportValue_nonneg {m : Dict String F} (h : ∀ e ∈ m.entries, 0 ≤ e.2) (transport : String) :
    0 ≤ transportValue m transport := by
  have hsum : ∀ (l : List (Σ _ : String, F)) (v : F), (∀ e ∈ l, 0 ≤ e.2) → 0 ≤ v →
      0 ≤ l.foldl (fun v e => v + e.2) v := by
    intro l
    induction l with
    | nil => exact fun _ _ hv => hv
    | cons e l ih =>
      intro v hl hv
      exact ih _ (fun e' he' => hl e' (List.mem_cons_of_mem e he')) (add_nonneg hv (hl e List.mem_cons_self))
  unfold transportValue
  split_ifs
  · exact hsum _ _ h le_rfl
  · cases hv : m.lookup transport with
    | none => exact le_rfl
    | some v => exact h ⟨transport, v⟩ (mem_entries_iff.mpr hv)

/-- **The rate counts every increment once.** For ordered samples whose counters are not negative and a window that
spans some time: the rate over that time is what the counter counted from sample to sample, it is not negative, and the
parts of the window on both sides of a sample add up. -/
theorem podRate_counted {samples w : List (PodSample F)} {counterOf : PodSample F → Dict String F}
    {first last : PodSample F} (nowUnix lookbackSeconds : Int) (transport : String)
    (hasc : samples.Pairwise fun s s' => s.timestamp ≤ s'.timestamp)
    (hnonneg : ∀ s ∈ samples, ∀ e ∈ (counterOf s).entries, 0 ≤ e.2)
    (hw : samples.filter (fun s => decide (nowUnix - lookbackSeconds ≤ s.timestamp)) = w)
    (hfirst : w.head? = some first) (hlast : w.getLast? = some last) (hspan : first.timestamp < last.timestamp) :
    ∃ rate, podRate samples nowUnix lookbackSeconds transport counterOf = some rate ∧
      rate * ((last.timestamp - first.timestamp : Int) : F) =
        counted (w.map fun s => counterValue s transport counterOf) ∧
      0 ≤ rate ∧
      ∀ pre s post, w = pre ++ s :: post →
        counted ((pre ++ [s]).map fun s => counterValue s transport counterOf) +
            counted ((s :: post).map fun s => counterValue s transport counterOf) =
          counted (w.map fun s => counterValue s transport counterOf) := by
  have hwindow : samplesInWindow samples nowUnix lookbackSeconds = w := by
    rw [samplesInWindow_eq_filter hasc, hw]
  have hpos : (0 : F) < ((last.timestamp - first.timestamp : Int) : F) := by
    rw [Int.cast_pos]
    omega
  have hvalues : ∀ v ∈ w.map (fun s => counterValue s transport counterOf), 0 ≤ v := by
    rw [List.forall_mem_map]
    intro s hs
    rw [← hw] at hs
    exact transportValue_nonneg (hnonneg s (List.mem_filter.mp hs).1) transport
  have hrate : podRate samples nowUnix lookbackSeconds transport counterOf =
      some (counted (w.map fun s => counterValue s transport counterOf) /
        ((last.timestamp - first.timestamp : Int) : F)) := by
    rw [podRate_eq, rateWindow_eq hwindow hfirst hlast hspan, Option.map_some, increments_eq_counted]
    dsimp only
    rw [← List.map_cons (f := fun s => counterValue s transport counterOf), List.cons_head?_tail hfirst]
  refine ⟨_, hrate, div_mul_cancel₀ _ hpos.ne', div_nonneg (counted_nonneg hvalues) hpos.le, ?_⟩
  rintro pre s post rfl
  rw [List.map_append, List.map_cons, List.map_append]
  exact counted_append _ _ _

end

/-- A pod scraped every ten seconds, with its request counter. -/
def scrapedEvery10s : List ℚ → Int → List (PodSample ℚ)
  | [], _ => []
  | count :: counts, timestamp =>
    { timestamp := timestamp, requestsByTransport := AList.singleton "jsonrpc" count,
      streamMessagesByTransport := ∅, inflightByTransport := ∅ } :: scrapedEvery10s counts (timestamp + 10)

/-- The first sample is too old, and the pod restarts within the window. -/
theorem podRate_counted_restart :
    ∃ rate, podRate (scrapedEvery10s [5, 9, 3, 4] 0) 30 20 "jsonrpc" PodSample.requestsByTransport = some rate ∧
      rate * 20 = counted [9, 3, 4] ∧ counted [(9 : ℚ), 3, 4] = 4 := by
  have hasc : (scrapedEvery10s [5, 9, 3, 4] 0).Pairwise fun s s' => s.timestamp ≤ s'.timestamp := by decide
  have hnonneg : ∀ s ∈ scrapedEvery10s [5, 9, 3, 4] 0, ∀ e ∈ s.requestsByTransport.entries, 0 ≤ e.2 := by decide +kernel
  obtain ⟨rate, hrate, hspan, -, -⟩ := podRate_counted 30 20 "jsonrpc" hasc hnonneg rfl rfl rfl (by decide)
  exact ⟨rate, hrate, hspan, by decide +kernel⟩

end KynoMesh.Rater
