import Mathlib.Data.List.DropRight
import Mathlib.Data.List.SplitBy

/-!
# Maximal runs of a list

* `runs key l` : the longest stretches of consecutive elements with one key;
* `runs_concat_of_eq`, `runs_concat_of_ne` : one more element extends the last run or starts one;
* `lastRun`, `lastRun_concat`, `long_concat` : the run that a list ends with, and how the runs of some length or more change
  as it grows;
* `head?_rtakeWhile_concat`, `head?_rtakeWhile_concat_of_not` : the first element of the last stretch that satisfies a
  predicate.
-/

namespace KynoMesh.Lib

variable {α κ : Type} [DecidableEq κ] {key : α → κ} {l r : List α} {rs : List (List α)} {a : α}

def runs (key : α → κ) (l : List α) : List (List α) := l.splitBy fun a b => decide (key a = key b)

theorem ne_nil_of_mem_runs (hr : r ∈ runs key l) : r ≠ [] := List.ne_nil_of_mem_splitBy hr

theorem key_eq_of_mem_runs (hr : r ∈ runs key l) {b : α} (ha : a ∈ r) (hb : b ∈ r) : key a = key b := by
  have hchain : r.IsChain fun a b => key a = key b :=
    (List.isChain_of_mem_splitBy hr).imp fun _ _ h => of_decide_eq_true h
  have hpair : r.Pairwise fun a b => key a = key b :=
    (List.isChain_iff_pairwise (R := fun a b => key a = key b)).mp hchain
  have hsymm : Std.Symm fun a b : α => key a = key b := ⟨fun _ _ h => h.symm⟩
  by_cases hne : a = b
  · rw [hne]
  · exact hpair.forall ha hb hne

theorem runs_concat_of_ne (h : ∀ x ∈ l.getLast?, key x ≠ key a) : runs key (l ++ [a]) = runs key l ++ [[a]] :=
  List.splitBy_append_cons [] fun x hx => decide_eq_false (h x hx)

theorem runs_concat_of_eq (hl : runs key l = rs ++ [r]) (h : ∀ x ∈ r, key x = key a) :
    runs key (l ++ [a]) = rs ++ [r ++ [a]] := by
  obtain ⟨rfl, hnil, hconst, hseams⟩ := List.splitBy_eq_iff.mp hl
  refine List.splitBy_eq_iff.mpr ⟨by simp, ?_, ?_, ?_⟩
  · intro hmem
    rcases List.mem_append.mp hmem with hmem | hmem
    · exact hnil (List.mem_append_left _ hmem)
    · simp at hmem
  · intro m hm
    rcases List.mem_append.mp hm with hm | hm
    · exact hconst m (List.mem_append_left _ hm)
    · rw [List.mem_singleton.mp hm]
      refine List.isChain_append.mpr ⟨hconst r (by simp), List.isChain_singleton _, fun x hx y hy => ?_⟩
      obtain rfl : a = y := by simpa using hy
      exact decide_eq_true (h x (List.mem_of_mem_getLast? hx))
  · -- the last run starts as it did
    obtain ⟨hinit, -, hlast⟩ := List.isChain_append.mp hseams
    refine List.isChain_append.mpr ⟨hinit, List.isChain_singleton _, fun x hx y hy => ?_⟩
    obtain ⟨hx', hr, hseam⟩ := hlast x hx r (by simp)
    obtain rfl : r ++ [a] = y := by simpa using hy
    exact ⟨hx', by simp, by rw [List.head_append_of_ne_nil hr]; exact hseam⟩

/-! ## The last run -/

def lastRun (key : α → κ) (l : List α) : List α := (runs key l).getLast?.getD []

theorem lastRun_of_eq (h : runs key l = rs ++ [r]) : lastRun key l = r := by
  simp [lastRun, h]

/-- A list is empty, or its runs are some runs and a last one, which ends as the list does. -/
theorem runs_cases (key : α → κ) (l : List α) :
    l = [] ∨ ∃ rs r, runs key l = rs ++ [r] ∧ r ≠ [] ∧ l.getLast? = r.getLast? := by
  by_cases hl : l = []
  · exact .inl hl
  · have hne : runs key l ≠ [] := List.splitBy_ne_nil.mpr hl
    obtain ⟨rs, r, hrs⟩ := (List.eq_nil_or_concat' _).resolve_left hne
    have hmem : r ∈ runs key l := by
      rw [hrs]
      simp
    have hr : r ≠ [] := ne_nil_of_mem_runs hmem
    have hflat : l = (rs ++ [r]).flatten := by
      rw [← hrs]
      exact (List.flatten_splitBy _ _).symm
    refine .inr ⟨rs, r, hrs, hr, ?_⟩
    rw [hflat, List.flatten_append, List.flatten_singleton, List.getLast?_append_of_ne_nil _ hr]

theorem runs_concat (key : α → κ) (l : List α) (a : α) :
    ((∀ x ∈ lastRun key l, key x = key a) ∧ lastRun key l ≠ [] ∧
      ∃ rs, runs key l = rs ++ [lastRun key l] ∧ runs key (l ++ [a]) = rs ++ [lastRun key l ++ [a]]) ∨
    ((∀ x ∈ lastRun key l, key x ≠ key a) ∧ runs key (l ++ [a]) = runs key l ++ [[a]]) := by
  rcases runs_cases key l with rfl | ⟨rs, r, hrs, hr, hlast⟩
  · exact .inr ⟨by simp [lastRun, runs], runs_concat_of_ne (by simp)⟩
  · have hconst : ∀ x ∈ r, ∀ y ∈ r, key x = key y := fun x hx y hy =>
      key_eq_of_mem_runs (l := l) (hrs ▸ by simp) hx hy
    rw [lastRun_of_eq hrs]
    by_cases h : key (r.getLast hr) = key a
    · have hall : ∀ x ∈ r, key x = key a := fun x hx => (hconst x hx _ (List.getLast_mem hr)).trans h
      exact .inl ⟨hall, hr, rs, hrs, runs_concat_of_eq hrs hall⟩
    · have hall : ∀ x ∈ r, key x ≠ key a := fun x hx heq => h ((hconst _ (List.getLast_mem hr) x hx).trans heq)
      refine .inr ⟨hall, runs_concat_of_ne fun x hx => hall x ?_⟩
      rw [hlast] at hx
      exact List.mem_of_mem_getLast? hx

theorem lastRun_concat (key : α → κ) (l : List α) (a : α) :
    lastRun key (l ++ [a]) = (if ∀ x ∈ lastRun key l, key x = key a then lastRun key l else []) ++ [a] := by
  rcases runs_concat key l a with ⟨hall, -, rs, -, hrs⟩ | ⟨hall, hrs⟩
  · rw [lastRun_of_eq hrs, if_pos hall]
  · rw [lastRun_of_eq hrs]
    split_ifs with h
    · cases hr : lastRun key l with
      | nil => rfl
      | cons x r => exact absurd (h x (hr ▸ List.mem_cons_self)) (hall x (hr ▸ List.mem_cons_self))
    · rfl

/-- The runs of at least `n` elements. -/
def long (key : α → κ) (n : Nat) (l : List α) : List (List α) := (runs key l).filter fun r => decide (n ≤ r.length)

/-- As the list grows, its last run becomes long, grows on, or stays short. -/
theorem long_concat (key : α → κ) {n : Nat} (hn : 1 ≤ n) (l : List α) (a : α) :
    (lastRun key (l ++ [a])).length < n ∧ long key n (l ++ [a]) = long key n l ∨
    (lastRun key (l ++ [a])).length = n ∧ long key n (l ++ [a]) = long key n l ++ [lastRun key (l ++ [a])] ∨
    n ≤ (lastRun key l).length ∧ lastRun key (l ++ [a]) = lastRun key l ++ [a] ∧
      ∃ rs, long key n l = rs ++ [lastRun key l] ∧ long key n (l ++ [a]) = rs ++ [lastRun key l ++ [a]] := by
  unfold long
  rcases runs_concat key l a with ⟨-, -, rs, hl, hrs⟩ | ⟨-, hrs⟩
  · rw [lastRun_of_eq hrs, hrs, List.filter_append, List.filter_singleton, List.length_append, List.length_singleton]
    by_cases hlong : n ≤ (lastRun key l).length
    · refine .inr (.inr ⟨hlong, rfl, rs.filter fun r => decide (n ≤ r.length), ?_, ?_⟩)
      · rw [hl, List.filter_append, List.filter_singleton, lastRun_of_eq hl, decide_eq_true hlong]
        rfl
      · rw [decide_eq_true (by omega)]
        rfl
    · have hfilter : (runs key l).filter (fun r => decide (n ≤ r.length)) = rs.filter fun r => decide (n ≤ r.length) := by
        rw [hl, List.filter_append, List.filter_singleton, lastRun_of_eq hl, decide_eq_false hlong]
        exact List.append_nil _
      rw [hfilter]
      by_cases hnow : n ≤ (lastRun key l).length + 1
      · refine .inr (.inl ⟨by omega, ?_⟩)
        rw [decide_eq_true hnow]
        rfl
      · refine .inl ⟨by omega, ?_⟩
        rw [decide_eq_false hnow]
        exact List.append_nil _
  · rw [lastRun_of_eq hrs, hrs, List.filter_append, List.filter_singleton, List.length_singleton]
    by_cases hone : n = 1
    · refine .inr (.inl ⟨hone.symm, ?_⟩)
      rw [decide_eq_true (by omega)]
      rfl
    · refine .inl ⟨by omega, ?_⟩
      rw [decide_eq_false (by omega)]
      exact List.append_nil _

/-! ## The last stretch -/

variable {p : α → Bool}

omit [DecidableEq κ] in
theorem head?_rtakeWhile_concat {x : α} (hx : (l.rtakeWhile p).head? = some x) (ha : p a = true) :
    ((l ++ [a]).rtakeWhile p).head? = some x := by
  rw [List.rtakeWhile_concat_pos _ _ _ ha, List.head?_append, hx, Option.some_or]

omit [DecidableEq κ] in
theorem head?_rtakeWhile_concat_of_not (hl : ∀ x ∈ l.getLast?, p x = false) (ha : p a = true) :
    ((l ++ [a]).rtakeWhile p).head? = some a := by
  have hnil : l.rtakeWhile p = [] := by
    rw [List.rtakeWhile_eq_nil_iff]
    intro hne
    rw [hl _ (List.getLast_mem_getLast? hne)]
    exact Bool.false_ne_true
  rw [List.rtakeWhile_concat_pos _ _ _ ha, hnil]
  rfl

end KynoMesh.Lib
