import Mathlib.Data.List.Basic
import Mathlib.Logic.Basic

/-!
# Runs of guarded transition systems

A system is a guarded step function `step : S → E → Option S`: `none` when the event is disabled.

* `run step s es` : replay the events `es` from `s`;
* `EachStep step R s es` : every step `s -e→ s'` of the replay meets `R s e s'`;
* `run_invariant`, `run_invariant_of_eachStep`, `run_invariant_of_events` : the induction rules, without and with a
  condition on the steps or on the events; `run_invariant_of_history` : for what depends on the events so far;
* `run_map_eq` : the runs of a system that refines another one step by step;
* `Sometime step P s es` : some state of the replay meets `P`; `sometime_of_arises` finds the state that a property of
  the last one comes from;
* `exists_run_of_progress` : a system that can always take a step that lowers a measure can reach its goal;
* `restrict step P` : the system that stays within `P`;
* `changes f step s es` : how often the observation `f` changes along the replay, bounded by a potential in
  `changes_le`;
* `eachStep_of_eachStep` : a condition on the steps is enough for a property of the steps over whole runs;
* `eachStep_iff`, `eachStep_iff_of_eachStep` : it is *exact* for the property over whole runs (of given steps) as soon
  as it is exact in every single step from an invariant state.
-/

namespace KynoMesh.Lib

variable {S E : Type}

/-- Replay `es` from `s`; `none` if some event along the way is disabled. -/
def run (step : S → E → Option S) : S → List E → Option S
  | s, [] => some s
  | s, e :: es =>
    match step s e with
    | none => none
    | some s' => run step s' es

@[simp] theorem run_nil (step : S → E → Option S) (s : S) : run step s [] = some s := rfl

theorem run_cons {step : S → E → Option S} {s t : S} {e : E} {es : List E} :
    run step s (e :: es) = some t ↔ ∃ s', step s e = some s' ∧ run step s' es = some t := by
  cases hs : step s e with
  | none => simp [run, hs]
  | some s' => simp [run, hs]

theorem run_append {step : S → E → Option S} {s t : S} {es es' : List E} :
    run step s (es ++ es') = some t ↔ ∃ m, run step s es = some m ∧ run step m es' = some t := by
  induction es generalizing s with
  | nil => simp
  | cons e es ih =>
    rw [List.cons_append, run_cons]
    constructor
    · rintro ⟨s', hse, hr⟩
      obtain ⟨m, hm, hr'⟩ := ih.mp hr
      exact ⟨m, run_cons.mpr ⟨s', hse, hm⟩, hr'⟩
    · rintro ⟨m, hm, hr'⟩
      obtain ⟨s', hse, hm'⟩ := run_cons.mp hm
      exact ⟨s', hse, ih.mpr ⟨m, hm', hr'⟩⟩

/-- Every step of the replay of `es` from `s` meets `R`. -/
def EachStep (step : S → E → Option S) (R : S → E → S → Prop) : S → List E → Prop
  | _, [] => True
  | s, e :: es =>
    match step s e with
    | none => True
    | some s' => R s e s' ∧ EachStep step R s' es

theorem eachStep_cons {step : S → E → Option S} {R : S → E → S → Prop} {s s' : S} {e : E} {es : List E}
    (hs : step s e = some s') : EachStep step R s (e :: es) ↔ R s e s' ∧ EachStep step R s' es := by
  simp only [EachStep, hs]

instance decidableEachStep (step : S → E → Option S) (R : S → E → S → Prop) [∀ s e s', Decidable (R s e s')] :
    ∀ (s : S) (es : List E), Decidable (EachStep step R s es)
  | _, [] => .isTrue trivial
  | s, e :: es =>
    match hs : step s e with
    | none => .isTrue (by simp only [EachStep, hs])
    | some s' =>
      have := decidableEachStep step R s' es
      decidable_of_iff (R s e s' ∧ EachStep step R s' es) (eachStep_cons hs).symm

/-- Some state of the replay of `es` from `s` meets `P`, the first and the last included. -/
def Sometime (step : S → E → Option S) (P : S → Prop) (s : S) (es : List E) : Prop :=
  ∃ first rest t, es = first ++ rest ∧ run step s first = some t ∧ P t

/-- The steps of the system that end in `P`. -/
def restrict (step : S → E → Option S) (P : S → Prop) [DecidablePred P] (s : S) (e : E) : Option S :=
  (step s e).filter fun s' => decide (P s')

theorem restrict_eq_some {step : S → E → Option S} {P : S → Prop} [DecidablePred P] {s s' : S} {e : E} :
    restrict step P s e = some s' ↔ step s e = some s' ∧ P s' := by
  simp [restrict, Option.filter_eq_some_iff]

/-- The number of steps of the replay that change the observation `f`. -/
def changes {α : Type} [DecidableEq α] (f : S → α) (step : S → E → Option S) : S → List E → Nat
  | _, [] => 0
  | s, e :: es =>
    match step s e with
    | none => 0
    | some s' => (if f s' = f s then 0 else 1) + changes f step s' es

/-! ## Induction rules -/

theorem run_invariant {step : S → E → Option S} {I : S → Prop}
    (hstep : ∀ s e s', I s → step s e = some s' → I s') {s t : S} {es : List E} (hs : I s)
    (hr : run step s es = some t) : I t := by
  induction es generalizing s with
  | nil =>
    rw [run_nil, Option.some.injEq] at hr
    exact hr ▸ hs
  | cons e es ih =>
    obtain ⟨s', hse, hr'⟩ := run_cons.mp hr
    exact ih (hstep s e s' hs hse) hr'

/-- An invariant kept by the steps that meet `C` holds at the end of a run all of whose steps meet `C`. -/
theorem run_invariant_of_eachStep {step : S → E → Option S} {I : S → Prop} {C : S → E → S → Prop}
    (hstep : ∀ s e s', I s → C s e s' → step s e = some s' → I s') {s t : S} {es : List E} (hs : I s)
    (hC : EachStep step C s es) (hr : run step s es = some t) : I t := by
  induction es generalizing s with
  | nil =>
    rw [run_nil, Option.some.injEq] at hr
    exact hr ▸ hs
  | cons e es ih =>
    obtain ⟨s', hse, hr'⟩ := run_cons.mp hr
    obtain ⟨hc, hC'⟩ := (eachStep_cons hse).mp hC
    exact ih (hstep s e s' hs hc hse) hC' hr'

/-- An invariant kept by the events of `A` holds at the end of a run of such events. -/
theorem run_invariant_of_events {step : S → E → Option S} {I : S → Prop} {A : E → Prop}
    (hstep : ∀ s e s', I s → A e → step s e = some s' → I s') {s t : S} {es : List E} (hs : I s)
    (hA : ∀ e ∈ es, A e) (hr : run step s es = some t) : I t := by
  induction es generalizing s with
  | nil =>
    rw [run_nil, Option.some.injEq] at hr
    exact hr ▸ hs
  | cons e es ih =>
    obtain ⟨s', hse, hr'⟩ := run_cons.mp hr
    exact ih (hstep s e s' hs (hA e List.mem_cons_self) hse) (fun x hx => hA x (List.mem_cons_of_mem _ hx)) hr'

/-- An invariant that also speaks about the events so far. -/
theorem run_invariant_of_history {step : S → E → Option S} {I : List E → S → Prop}
    (hstep : ∀ es s e s', I es s → step s e = some s' → I (es ++ [e]) s') {s t : S} {es : List E} (hs : I [] s)
    (hr : run step s es = some t) : I es t := by
  -- with the events before `s` as a parameter
  suffices hafter : ∀ (past : List E) (s : S), I past s → run step s es = some t → I (past ++ es) t from hafter [] s hs hr
  clear hr hs
  induction es with
  | nil =>
    intro past s hI hr
    rw [run_nil, Option.some.injEq] at hr
    rw [List.append_nil]
    exact hr ▸ hI
  | cons e es ih =>
    intro past s hI hr
    obtain ⟨s', hse, hr'⟩ := run_cons.mp hr
    rw [List.append_cons]
    exact ih (past ++ [e]) s' (hstep past s e s' hI hse) hr'

/-- **Refinement.** If every step shows through `view` as a step of another system, so does every run. -/
theorem run_map_eq {T : Type} {step : S → E → Option S} {abs : T → E → Option T} {view : S → T} {I : S → Prop}
    (hview : ∀ s e, I s → (step s e).map view = abs (view s) e) (hstep : ∀ s e s', I s → step s e = some s' → I s')
    {s : S} (hs : I s) (es : List E) : (run step s es).map view = run abs (view s) es := by
  induction es generalizing s with
  | nil => rfl
  | cons e es ih =>
    have hse := hview s e hs
    cases hcase : step s e with
    | none =>
      rw [hcase, Option.map_none] at hse
      simp only [run, hcase, ← hse, Option.map_none]
    | some s' =>
      rw [hcase, Option.map_some] at hse
      simp only [run, hcase, ← hse]
      exact ih (hstep s e s' hs hcase)

theorem sometime_of_head {step : S → E → Option S} {P : S → Prop} {s : S} (hs : P s) (es : List E) :
    Sometime step P s es := ⟨[], es, s, rfl, rfl, hs⟩

theorem sometime_of_run {step : S → E → Option S} {P : S → Prop} {s t : S} {es : List E}
    (hr : run step s es = some t) (ht : P t) : Sometime step P s es := ⟨es, [], t, (List.append_nil es).symm, hr, ht⟩

/-- **Provenance.** If a step can make `A` true only from a state of `P`, then what ends in `A` began in it or met `P`
on the way. -/
theorem sometime_of_arises {step : S → E → Option S} {A P : S → Prop}
    (hstep : ∀ s e s', step s e = some s' → A s' → A s ∨ P s) {s t : S} {es : List E} (hr : run step s es = some t)
    (ht : A t) : A s ∨ Sometime step P s es := by
  induction es generalizing s with
  | nil =>
    rw [run_nil, Option.some.injEq] at hr
    exact .inl (hr ▸ ht)
  | cons e es ih =>
    obtain ⟨s', hse, hr'⟩ := run_cons.mp hr
    rcases ih hr' with hA | ⟨first, rest, u, rfl, hu, hP⟩
    · exact (hstep s e s' hse hA).imp_right fun hP => sometime_of_head hP _
    · exact .inr ⟨e :: first, rest, u, rfl, run_cons.mpr ⟨s', hse, hu⟩, hP⟩

/-- **Progress.** If outside the goal some event of `A` is enabled that keeps `I` and lowers the measure, then events of
`A` lead to the goal. -/
theorem exists_run_of_progress {step : S → E → Option S} {I G : S → Prop} {A : E → Prop} (φ : S → Nat)
    (hstep : ∀ s, I s → ¬G s → ∃ e s', A e ∧ step s e = some s' ∧ I s' ∧ φ s' < φ s) {s : S} (hs : I s) :
    ∃ es t, (∀ e ∈ es, A e) ∧ run step s es = some t ∧ G t := by
  induction hn : φ s using Nat.strongRecOn generalizing s with
  | ind n ih =>
    by_cases hG : G s
    · exact ⟨[], s, by simp, rfl, hG⟩
    · obtain ⟨e, s', hA, hse, hs', hlt⟩ := hstep s hs hG
      obtain ⟨es, t, hes, hr, ht⟩ := ih (φ s') (hn ▸ hlt) hs' rfl
      refine ⟨e :: es, t, ?_, run_cons.mpr ⟨s', hse, hr⟩, ht⟩
      intro x hx
      rcases List.mem_cons.mp hx with rfl | hx
      · exact hA
      · exact hes x hx

theorem eachStep_true (step : S → E → Option S) (s : S) (es : List E) : EachStep step (fun _ _ _ => True) s es := by
  induction es generalizing s with
  | nil => trivial
  | cons e es ih =>
    cases hse : step s e with
    | none => simp only [EachStep, hse]
    | some s' => exact (eachStep_cons hse).mpr ⟨trivial, ih s'⟩

/-- If from the states of `I` the steps that meet `C` keep `I` and meet `R`, a run that meets `C` meets `R`. -/
theorem eachStep_of_eachStep {step : S → E → Option S} {I : S → Prop} {C R : S → E → S → Prop}
    (hstep : ∀ s e s', I s → C s e s' → step s e = some s' → I s' ∧ R s e s') {s : S} {es : List E} (hs : I s)
    (hC : EachStep step C s es) : EachStep step R s es := by
  induction es generalizing s with
  | nil => trivial
  | cons e es ih =>
    cases hse : step s e with
    | none => simp only [EachStep, hse]
    | some s' =>
      obtain ⟨hc, hC'⟩ := (eachStep_cons hse).mp hC
      obtain ⟨hi, hr⟩ := hstep s e s' hs hc hse
      exact (eachStep_cons hse).mpr ⟨hr, ih hi hC'⟩

theorem eachStep_of_invariant {step : S → E → Option S} {I : S → Prop} {R : S → E → S → Prop}
    (hstep : ∀ s e s', I s → step s e = some s' → I s' ∧ R s e s') {s : S} {es : List E} (hs : I s) :
    EachStep step R s es :=
  eachStep_of_eachStep (fun s e s' hi _ hse => hstep s e s' hi hse) hs (eachStep_true step s es)

/-- A potential that never grows and drops with every change bounds the number of changes. -/
theorem changes_le {α : Type} [DecidableEq α] {f : S → α} {step : S → E → Option S} {I : S → Prop}
    {C : S → E → S → Prop} {φ : S → Nat}
    (hstep : ∀ s e s', I s → C s e s' → step s e = some s' → I s' ∧ φ s' + (if f s' = f s then 0 else 1) ≤ φ s)
    {s : S} {es : List E} (hs : I s) (hC : EachStep step C s es) : changes f step s es ≤ φ s := by
  induction es generalizing s with
  | nil => exact Nat.zero_le _
  | cons e es ih =>
    cases hse : step s e with
    | none => simp [changes, hse]
    | some s' =>
      obtain ⟨hc, hC'⟩ := (eachStep_cons hse).mp hC
      obtain ⟨hi, hφ⟩ := hstep s e s' hs hc hse
      have := ih hi hC'
      simp only [changes, hse]
      omega

/-- **Exactness over runs.** If from every state of `I` a step of `H` meets `C` exactly when it meets `R`, and the steps
of `H` that meet `C` keep `I`, then a run of such steps meets `C` at every step exactly when it meets `R` at every
step. -/
theorem eachStep_iff_of_eachStep {step : S → E → Option S} {I : S → Prop} {H C R : S → E → S → Prop}
    (hiff : ∀ s e s', I s → H s e s' → step s e = some s' → (C s e s' ↔ R s e s'))
    (hkeep : ∀ s e s', I s → H s e s' → step s e = some s' → C s e s' → I s') {s : S} {es : List E} (hs : I s)
    (hH : EachStep step H s es) : EachStep step C s es ↔ EachStep step R s es := by
  induction es generalizing s with
  | nil => exact Iff.rfl
  | cons e es ih =>
    cases hse : step s e with
    | none => simp only [EachStep, hse]
    | some s' =>
      obtain ⟨hh, hH'⟩ := (eachStep_cons hse).mp hH
      rw [eachStep_cons hse, eachStep_cons hse, hiff s e s' hs hh hse]
      refine and_congr_right fun hr => ?_
      exact ih (hkeep s e s' hs hh hse ((hiff s e s' hs hh hse).mpr hr)) hH'

theorem eachStep_iff {step : S → E → Option S} {I : S → Prop} {C R : S → E → S → Prop}
    (hiff : ∀ s e s', I s → step s e = some s' → (C s e s' ↔ R s e s'))
    (hkeep : ∀ s e s', I s → step s e = some s' → C s e s' → I s') {s : S} {es : List E} (hs : I s) :
    EachStep step C s es ↔ EachStep step R s es :=
  eachStep_iff_of_eachStep (fun s e s' hi _ => hiff s e s' hi) (fun s e s' hi _ => hkeep s e s' hi) hs
    (eachStep_true step s es)

end KynoMesh.Lib
