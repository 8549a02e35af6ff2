import Mathlib.Data.List.Chain
import Mathlib.Tactic.Ring

/-!
# A periodic timer with a slow receiver

A timer fires every `period`. What it sends waits in a channel of capacity one, and is dropped when the channel is full. A
receiver takes one tick at a time and may work on it for longer than a period, so that two ticks can begin right one
after another.

* `Ticking` : the ticks that are received: when each was fired, begun and ended;
* `Ticking.paced` : between two ticks with `k` others between them, `k` periods pass;
* `Ticking.count_le` : how many ticks fall into a span of time.
-/

namespace KynoMesh.Lib

open scoped List

variable {α : Type}

/-- The ticks of a receiver. A tick is fired after the one before has been taken from the channel, and a period after it
was fired. -/
structure Ticking (fired start stop : α → Int) (period : Int) (ticks : List α) : Prop where
  times : ∀ t ∈ ticks, fired t ≤ start t ∧ start t ≤ stop t
  next : ticks.IsChain fun t t' => start t ≤ fired t' ∧ fired t + period ≤ fired t' ∧ stop t ≤ start t'

namespace Ticking
variable {fired start stop : α → Int} {period : Int} {ticks : List α} {t t' : α} {mid : List α}

theorem tail (h : Ticking fired start stop period (t :: ticks)) : Ticking fired start stop period ticks :=
  ⟨fun x hx => h.times x (List.mem_cons_of_mem t hx), (List.isChain_cons.mp h.next).2⟩

theorem fired_add_le (hp : 0 ≤ period) (h : Ticking fired start stop period (t :: ticks))
    (hsub : mid ++ [t'] <+ t :: ticks) : fired t + mid.length * period ≤ fired t' := by
  induction ticks generalizing t mid with
  | nil =>
    have hlen := hsub.length_le
    simp only [List.length_append, List.length_cons, List.length_nil] at hlen
    obtain rfl : mid = [] := List.eq_nil_of_length_eq_zero (by omega)
    obtain rfl : t' = t := by simpa using hsub
    simp
  | cons b ticks ih =>
    have hnext := (List.isChain_cons_cons.mp h.next).1.2.1
    cases mid with
    | nil =>
      rcases List.mem_cons.mp (List.singleton_sublist.mp hsub) with rfl | hmem
      · simp
      · have hsingle : [] ++ [t'] <+ b :: ticks := List.singleton_sublist.mpr hmem
        have := ih h.tail hsingle
        simp only [List.length_nil, Nat.cast_zero, Int.zero_mul, Int.add_zero] at this ⊢
        omega
    | cons a mid =>
      -- whether the first of them is the first tick or a later one, the rest is in the tail
      have htail : mid ++ [t'] <+ b :: ticks := by
        cases hsub with
        | cons _ hsub => exact (List.sublist_cons_self a _).trans hsub
        | cons_cons _ hsub => exact hsub
      have := ih h.tail htail
      rw [List.length_cons, Nat.cast_add, Nat.cast_one, Int.add_mul, Int.one_mul]
      omega

theorem paced (hp : 0 ≤ period) (h : Ticking fired start stop period ticks) (hsub : t :: (mid ++ [t']) <+ ticks) :
    start t + mid.length * period ≤ start t' := by
  induction ticks with
  | nil => cases hsub
  | cons a ticks ih =>
    cases hsub with
    | cons _ hsub => exact ih h.tail hsub
    | cons_cons _ hsub =>
      cases ticks with
      | nil => simp at hsub
      | cons b ticks =>
        have hnext := (List.isChain_cons_cons.mp h.next).1.1
        have hfired := h.tail.fired_add_le hp hsub
        have hlast := (h.tail.times t' (hsub.subset (by simp))).1
        omega

/-- One tick ends before a later one begins. -/
theorem sequential (h : Ticking fired start stop period ticks) : ticks.Pairwise fun t t' => stop t ≤ start t' := by
  induction ticks with
  | nil => exact .nil
  | cons a ticks ih =>
    refine List.pairwise_cons.mpr ⟨?_, ih h.tail⟩
    cases ticks with
    | nil => simp
    | cons b ticks =>
      have hnext := (List.isChain_cons_cons.mp h.next).1.2.2
      have hlater := List.pairwise_cons.mp (ih h.tail)
      intro t ht
      rcases List.mem_cons.mp ht with rfl | ht
      · exact hnext
      · have hb := (h.times b (by simp)).2
        have := hlater.1 t ht
        omega

/-- **Ticks in a span of time.** Of the ticks that end after `first` and begin before `last`, all but three have a period
of their own in between. -/
theorem count_le (hp : 0 ≤ period) (h : Ticking fired start stop period ticks) {l : List α} (hl : l <+ ticks)
    {first last : Int} (hspan : first ≤ last) (hfirst : ∀ t ∈ l, first ≤ stop t) (hlast : ∀ t ∈ l, start t ≤ last) :
    l.length * period ≤ last - first + 3 * period := by
  match l with
  | [] => simp; omega
  | [_] => simp; omega
  | a :: b :: rest =>
    rcases List.eq_nil_or_concat' rest with rfl | ⟨mid, c, rfl⟩
    · simp; omega
    · have hpaced := h.paced hp ((List.sublist_cons_self a _).trans hl)
      have hab := (List.pairwise_cons.mp (h.sequential.sublist hl)).1 b (by simp)
      have ha := hfirst a (by simp)
      have hc := hlast c (by simp)
      have hlen : ((a :: b :: (mid ++ [c])).length : Int) * period = mid.length * period + 3 * period := by
        simp only [List.length_cons, List.length_append, List.length_nil]
        push_cast
        ring
      rw [hlen]
      omega

end Ticking

end KynoMesh.Lib
