import Mathlib.Algebra.Order.Field.Basic
import Mathlib.Tactic.Ring
import KynoMesh.Rater.Metrics

/-!
# The aggregates of the rater in exact arithmetic

* `sumOverPods_eq` : the loop over the pods as a sum;
* `increments`, `podRate_eq` : the rate of a counter is the sum of its increments over the observed time, where a fall
  counts from zero again;
* `area`, `podInflightAvg_eq` : the average of a gauge is the area below it over the observed time.
-/

namespace KynoMesh.Rater
open KynoMesh.Lib

variable {F : Type} [Field F] [LinearOrder F]

omit [LinearOrder F] in
theorem sumOverPods_eq (b : AgentDeployBuffers F) (f : List (PodSample F) → Option F) :
    sumOverPods b f = (b.entries.map fun e => (f e.2).getD 0).sum := by
  have hfold : ∀ turn : F → (Σ _ : String, List (PodSample F)) → F,
      (∀ total e, turn total e = total + (f e.2).getD 0) →
        ∀ (l : List (Σ _ : String, List (PodSample F))) (total : F),
          l.foldl turn total = total + (l.map fun e => (f e.2).getD 0).sum := by
    intro turn hturn l
    induction l with
    | nil => simp
    | cons e l ih =>
      intro total
      rw [List.foldl_cons, ih, hturn, List.map_cons, List.sum_cons, add_assoc]
  refine (hfold _ (fun total e => ?_) b.entries 0).trans (zero_add _)
  cases f e.2 with
  | none => simp
  | some v => simp

/-! ## Counters -/

/-- What a counter counted between two samples; when it fell, it restarted from zero. -/
def increment (prev curr : F) : F := if curr < prev then curr else curr - prev

/-- The sum of the increments of a counter from `prev` on. -/
def increments (prev : F) : List F → F
  | [] => 0
  | curr :: rest => increment prev curr + increments curr rest

/-- The loop over the runs between resets adds up the increments. -/
theorem foldl_scanCounter (xs : List F) (c : RunScan F) :
    (xs.foldl scanCounter c).delta + ((xs.foldl scanCounter c).prev - (xs.foldl scanCounter c).runStart) =
      c.delta + (c.prev - c.runStart) + increments c.prev xs := by
  induction xs generalizing c with
  | nil => simp [increments]
  | cons curr xs ih =>
    rw [List.foldl_cons, ih, increments]
    unfold scanCounter increment
    split_ifs
    · ring
    · ring

theorem podRate_eq (samples : List (PodSample F)) (nowUnix lookbackSeconds : Int) (transport : String)
    (counterOf : PodSample F → Dict String F) :
    podRate samples nowUnix lookbackSeconds transport counterOf =
      (rateWindow samples nowUnix lookbackSeconds).map fun w =>
        increments (counterValue w.1 transport counterOf)
          (w.2.1.map fun s => counterValue s transport counterOf) / (w.2.2 : F) := by
  unfold podRate rateWindow
  rcases samplesInWindow samples nowUnix lookbackSeconds with _ | ⟨first, _ | ⟨second, rest⟩⟩
  · rfl
  · rfl
  · dsimp only
    split_ifs
    · rfl
    · rw [foldl_scanCounter, Option.map_some, sub_self, add_zero, zero_add]

/-! ## Gauges -/

/-- The area below a gauge that keeps each value until the next sample. -/
def area (value : PodSample F → F) : List (PodSample F) → F
  | s :: t :: rest => value s * ((t.timestamp - s.timestamp : Int) : F) + area value (t :: rest)
  | _ => 0

omit [LinearOrder F] in
theorem gaugeSteps_eq (transport : String) (first : PodSample F) (rest : List (PodSample F)) (acc : F × F) :
    gaugeSteps transport (first :: rest) acc =
      (acc.1 + area (fun s => inflightValue s transport) (first :: rest),
        acc.2 + ((((first :: rest).getLast (List.cons_ne_nil _ _)).timestamp - first.timestamp : Int) : F)) := by
  induction rest generalizing first acc with
  | nil => simp [gaugeSteps, area]
  | cons second rest ih =>
    rw [gaugeSteps, ih, area, List.getLast_cons (List.cons_ne_nil _ _)]
    refine Prod.ext ?_ ?_
    · dsimp only
      rw [add_assoc]
    · push_cast
      ring

/-- The average of a window with samples; a window without extent has the last value. -/
theorem podInflightAvg_eq [CharZero F] {samples : List (PodSample F)} {nowUnix lookbackSeconds : Int} {first : PodSample F}
    {rest : List (PodSample F)} (hw : samplesInWindow samples nowUnix lookbackSeconds = first :: rest)
    (transport : String) :
    podInflightAvg samples nowUnix lookbackSeconds transport =
      let last := (first :: rest).getLast (List.cons_ne_nil _ _)
      some (if last.timestamp = first.timestamp then inflightValue last transport
        else area (fun s => inflightValue s transport) (first :: rest) /
          ((last.timestamp - first.timestamp : Int) : F)) := by
  unfold podInflightAvg
  rw [hw]
  cases rest with
  | nil => simp
  | cons second rest =>
    dsimp only
    rw [gaugeSteps_eq]
    dsimp only
    rw [zero_add, zero_add, List.getLast_cons (List.cons_ne_nil _ _)]
    by_cases h : ((second :: rest).getLast (List.cons_ne_nil _ _)).timestamp = first.timestamp
    · rw [if_pos h, if_pos (by rw [h, Int.sub_self, Int.cast_zero])]
    · rw [if_neg h, if_neg (by rw [Int.cast_eq_zero]; omega)]

end KynoMesh.Rater
