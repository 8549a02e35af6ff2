import Mathlib.Data.List.DropRight
import Mathlib.Order.Basic

/-!
# Bounded histories

A history is a list, oldest entry first, with times `f a`. What a history bounded by age and by count retains is
`recent`: its longest suffix of at most `k` entries that are all at or after a cutoff.

* `recent_recent` : an earlier trim, at an older cutoff, loses nothing that a later one would keep;
* `recent_append_congr` : histories that retain the same go on to retain the same;
* `recent_eq_filter`, `recent_eq_dropWhile` : over a history in time order, two ways to compute it;
* `rtake_rtake_concat`, `dropWhile_rtake` : a history bounded by count alone.
-/

namespace KynoMesh.Lib

variable {α β : Type}

theorem takeWhile_take (p : α → Bool) (k : Nat) (l : List α) : (l.take k).takeWhile p = (l.takeWhile p).take k := by
  induction l generalizing k with
  | nil => simp
  | cons a l ih =>
    cases k with
    | zero => simp
    | succ k =>
      rw [List.take_succ_cons, List.takeWhile_cons, List.takeWhile_cons]
      split_ifs
      · rw [List.take_succ_cons, ih]
      · rfl

theorem takeWhile_takeWhile_of_imp {p q : α → Bool} (h : ∀ a, q a = true → p a = true) (l : List α) :
    (l.takeWhile p).takeWhile q = l.takeWhile q := by
  induction l with
  | nil => rfl
  | cons a l ih =>
    by_cases hp : p a = true
    · rw [List.takeWhile_cons_of_pos hp, List.takeWhile_cons, List.takeWhile_cons, ih]
    · have hq : ¬q a = true := fun hq => hp (h a hq)
      rw [List.takeWhile_cons_of_neg hp, List.takeWhile_cons_of_neg hq, List.takeWhile_nil]

/-- The longest suffix of at most `k` entries, all at or after `cutoff`. -/
def recent (f : α → Int) (cutoff : Int) (k : Nat) (l : List α) : List α :=
  (l.rtakeWhile fun a => decide (cutoff ≤ f a)).rtake k

section
variable {f : α → Int} {cutoff cutoff' : Int} {k : Nat} {l l' : List α}

theorem reverse_recent :
    (recent f cutoff k l).reverse = (l.reverse.takeWhile fun a => decide (cutoff ≤ f a)).take k := by
  rw [recent, List.rtake_eq_reverse_take_reverse, List.rtakeWhile, List.reverse_reverse, List.reverse_reverse]

theorem length_recent_le : (recent f cutoff k l).length ≤ k := by
  rw [← List.length_reverse, reverse_recent]
  exact List.length_take_le _ _

theorem recent_suffix : recent f cutoff k l <:+ l := by
  have htake : recent f cutoff k l <:+ l.rtakeWhile fun a => decide (cutoff ≤ f a) := List.drop_suffix _ _
  exact htake.trans (List.rtakeWhile_suffix _ _)

/-- A later trim does not see an earlier one. -/
theorem recent_recent (h : cutoff ≤ cutoff') : recent f cutoff' k (recent f cutoff k l) = recent f cutoff' k l := by
  apply List.reverse_injective
  rw [reverse_recent, reverse_recent, reverse_recent, takeWhile_take, takeWhile_takeWhile_of_imp, List.take_take,
    Nat.min_self]
  intro a ha
  rw [decide_eq_true_iff] at ha ⊢
  omega

theorem recent_append_congr (h : recent f cutoff k l = recent f cutoff k l') (m : List α) :
    recent f cutoff k (l ++ m) = recent f cutoff k (l' ++ m) := by
  have h' := congrArg List.reverse h
  apply List.reverse_injective
  simp only [reverse_recent, List.reverse_append, List.takeWhile_append] at h' ⊢
  split_ifs
  -- all of `m` is retained; what is left of the count goes to the older entries
  · rw [List.take_append, List.take_append]
    congr 1
    have hk : k - m.reverse.length ≤ k := Nat.sub_le _ _
    rw [← Nat.min_eq_left hk, ← List.take_take, h', List.take_take]
  · rfl

theorem recent_map {g : β → Int} {φ : α → β} (h : ∀ a, g (φ a) = f a) :
    recent g cutoff k (l.map φ) = (recent f cutoff k l).map φ := by
  apply List.reverse_injective
  rw [reverse_recent, ← List.map_reverse, ← List.map_reverse, reverse_recent, List.takeWhile_map, ← List.map_take]
  simp only [Function.comp_def, h]

/-! ## Histories in time order -/

/-- Times do not decrease along the list. -/
def TimeOrdered (f : α → Int) (l : List α) : Prop := l.Pairwise fun a b => f a ≤ f b

theorem dropWhile_eq_filter (h : TimeOrdered f l) :
    (l.dropWhile fun a => decide (f a < cutoff)) = l.filter fun a => decide (cutoff ≤ f a) := by
  induction l with
  | nil => rfl
  | cons a l ih =>
    obtain ⟨ha, hl⟩ := List.pairwise_cons.mp h
    by_cases hc : f a < cutoff
    · rw [List.dropWhile_cons_of_pos (by simpa using hc), List.filter_cons_of_neg (by simpa using hc), ih hl]
    · rw [List.dropWhile_cons_of_neg (by simpa using hc), List.filter_cons_of_pos (by simpa using hc), eq_comm]
      congr 1
      refine List.filter_eq_self.mpr fun b hb => ?_
      have := ha b hb
      simp only [decide_eq_true_eq]
      omega

theorem rtakeWhile_eq_filter (h : TimeOrdered f l) :
    (l.rtakeWhile fun a => decide (cutoff ≤ f a)) = l.filter fun a => decide (cutoff ≤ f a) := by
  induction l using List.reverseRecOn with
  | nil => rfl
  | append_singleton l a ih =>
    obtain ⟨hl, -, hla⟩ := List.pairwise_append.mp h
    rw [List.rtakeWhile_concat, List.filter_append]
    by_cases hc : cutoff ≤ f a
    · rw [if_pos (by simpa using hc), ih hl, List.filter_cons_of_pos (by simpa using hc), List.filter_nil]
    · have hnone : l.filter (fun b => decide (cutoff ≤ f b)) = [] := by
        refine List.filter_eq_nil_iff.mpr fun b hb => ?_
        have := hla b hb a List.mem_cons_self
        simp only [decide_eq_true_eq]
        omega
      rw [if_neg (by simpa using hc), hnone, List.filter_cons_of_neg (by simpa using hc)]
      rfl

/-- Restrict to the age, then to the last `k`. -/
theorem recent_eq_filter (h : TimeOrdered f l) :
    recent f cutoff k l = (l.filter fun a => decide (cutoff ≤ f a)).rtake k := by
  rw [recent, rtakeWhile_eq_filter h]

/-- Drop from the front what is too old, then what is too much. -/
theorem recent_eq_dropWhile (h : TimeOrdered f l) :
    recent f cutoff k l = (l.dropWhile fun a => decide (f a < cutoff)).rtake k := by
  rw [recent_eq_filter h, dropWhile_eq_filter h]

end

/-! ## The last entries -/

theorem rtake_rtake_concat (n : Nat) (l : List α) (a : α) : (l.rtake n ++ [a]).rtake n = (l ++ [a]).rtake n := by
  cases n with
  | zero => rw [List.rtake_zero, List.rtake_zero]
  | succ n =>
    have hmin : (l.rtake (n + 1)).rtake n = l.rtake n := by
      rw [List.rtake_eq_reverse_take_reverse, List.rtake_eq_reverse_take_reverse, List.reverse_reverse,
        List.take_take, List.rtake_eq_reverse_take_reverse]
      congr 2
      omega
    rw [List.rtake_concat_succ, List.rtake_concat_succ, hmin]

/-- A bounded queue has what follows the first entries, if that is not too much for it. -/
theorem dropWhile_rtake {p : α → Bool} {n : Nat} {l : List α} (h : (l.dropWhile p).length ≤ n) :
    (l.rtake n).dropWhile p = l.dropWhile p := by
  have hsplit : l.takeWhile p ++ l.dropWhile p = l := List.takeWhile_append_dropWhile
  have hlen := congrArg List.length hsplit
  rw [List.length_append] at hlen
  -- only entries of the first part are dropped
  have hdrop : l.rtake n = (l.takeWhile p).drop (l.length - n) ++ l.dropWhile p := by
    rw [List.rtake]
    conv_lhs => rw [← hsplit]
    rw [List.drop_append_of_le_length (by rw [hsplit]; omega), hsplit]
  have hall : ((l.takeWhile p).drop (l.length - n)).dropWhile p = [] := by
    rw [List.dropWhile_eq_nil_iff]
    exact fun x hx => List.mem_takeWhile_imp (List.mem_of_mem_drop hx)
  rw [hdrop, List.dropWhile_append, hall, List.isEmpty_nil, if_pos rfl, List.dropWhile_idempotent]

end KynoMesh.Lib
