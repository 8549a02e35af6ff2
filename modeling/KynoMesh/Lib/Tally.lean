import Mathlib.Data.List.Basic
import Mathlib.Tactic.NormNum.Basic

/-!
# Counts over a changing population

A population is a list whose members change one at a time, in place, and to which new members are added.

* `tally p xs` : how many members meet `p`, as an integer;
* `tally_set`, `tally_concat` : what a change of one member and a new member do to a count;
* `tally_le_tally`, `tally_eq_zero`, `tally_split` : counts of related predicates.
-/

namespace KynoMesh.Lib

variable {α : Type} {p q : α → Bool} {xs : List α}

/-- How many members meet `p`. -/
def tally (p : α → Bool) (xs : List α) : Int := xs.countP p

/-- What one member adds to a count. -/
def mark (b : Bool) : Int := if b then 1 else 0

@[simp] theorem mark_true : mark true = 1 := rfl

@[simp] theorem mark_false : mark false = 0 := rfl

@[simp] theorem tally_nil : tally p [] = 0 := rfl

theorem tally_cons (a : α) : tally p (a :: xs) = mark (p a) + tally p xs := by
  cases h : p a with
  | false => simp [tally, h]
  | true =>
    simp [tally, h]
    omega

theorem tally_append (ys : List α) : tally p (xs ++ ys) = tally p xs + tally p ys := by
  simp [tally, List.countP_append]

theorem tally_concat (a : α) : tally p (xs ++ [a]) = tally p xs + mark (p a) := by
  rw [tally_append, tally_cons, tally_nil, Int.add_zero]

theorem tally_set {i : Nat} {a : α} (h : xs[i]? = some a) (b : α) :
    tally p (xs.set i b) = tally p xs - mark (p a) + mark (p b) := by
  induction xs generalizing i with
  | nil => simp at h
  | cons x xs ih =>
    cases i with
    | zero =>
      obtain rfl : x = a := by simpa using h
      rw [List.set_cons_zero, tally_cons, tally_cons]
      omega
    | succ i =>
      rw [List.set_cons_succ, tally_cons, tally_cons, ih (by simpa using h)]
      omega

theorem tally_pos {a : α} (ha : a ∈ xs) (hp : p a = true) : 0 < tally p xs :=
  Int.natCast_pos.mpr (List.countP_pos_iff.mpr ⟨a, ha, hp⟩)

theorem tally_le_tally (h : ∀ a ∈ xs, p a = true → q a = true) : tally p xs ≤ tally q xs :=
  Int.ofNat_le.mpr (List.countP_mono_left h)

theorem tally_eq_zero (h : ∀ a ∈ xs, p a = false) : tally p xs = 0 := by
  have hzero : xs.countP p = 0 := List.countP_eq_zero.mpr fun a ha => by simp [h a ha]
  rw [tally, hzero]
  rfl

theorem tally_congr (h : ∀ a ∈ xs, p a = q a) : tally p xs = tally q xs := by
  have hcount : xs.countP p = xs.countP q := List.countP_congr fun a ha => by rw [h a ha]
  rw [tally, tally, hcount]

theorem tally_split (q : α → Bool) : tally p xs = tally (fun a => p a && q a) xs + tally (fun a => p a && !q a) xs := by
  induction xs with
  | nil => rfl
  | cons a xs ih =>
    rw [tally_cons, tally_cons, tally_cons, ih]
    cases p a <;> cases q a <;> simp [mark] <;> omega

end KynoMesh.Lib
