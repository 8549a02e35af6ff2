import KynoMesh.Lib.Dict

/-!
# Lists of keyed entries

Lists in which a later entry of a key takes the place of the earlier ones.

* `latest` : the entry that counts; `latest_append`, `lookup_collect_eq_latest`;
* `fill` : a list, and the entries of another one under keys that it does not have; `mem_fill`, `latest_fill`;
* `overlay` : a list with the entries of another one in the place of its own; `latest_overlay`, and `overlay_filter` for
  the entries under other keys.
-/

namespace KynoMesh.Lib

variable {α κ : Type} [DecidableEq κ] {key : α → κ} {k : κ} {a : α} {l own others overrides : List α}

/-- The last entry of the key `k`. -/
def latest (key : α → κ) (l : List α) (k : κ) : Option α := (l.filter fun a => key a = k).getLast?

/-- `own`, and the entries of `others` under keys that `own` does not have. -/
def fill (key : α → κ) (own others : List α) : List α :=
  own ++ others.filter fun a => !own.any fun o => key o == key a

/-- `l` with the entries of `overrides` in the place of those of the same key, and the other ones at the end. -/
def overlay (key : α → κ) (l overrides : List α) : List α :=
  l.map (fun a => ((collect key overrides).lookup (key a)).getD a) ++
    overrides.filter fun o => !l.any fun a => key a == key o

/-! ## The entry that counts -/

theorem latest_append (key : α → κ) (l l' : List α) (k : κ) :
    latest key (l ++ l') k = (latest key l' k).or (latest key l k) := by
  unfold latest
  rw [List.filter_append, List.getLast?_append]

theorem latest_eq_none : latest key l k = none ↔ ∀ a ∈ l, key a ≠ k := by
  simp [latest]

theorem latest_eq_some (h : latest key l k = some a) : a ∈ l ∧ key a = k := by
  simpa using List.mem_filter.mp (List.mem_of_getLast? h)

theorem lookup_collect_eq_latest (key : α → κ) (l : List α) (k : κ) : (collect key l).lookup k = latest key l k := by
  rw [lookup_collect, latest, ← List.head?_reverse, ← List.filter_reverse, List.head?_filter]

/-! ## Fill -/

/-- Under a key of `own` none of the `others` is taken over, and under another key all are. -/
theorem latest_filter_free (key : α → κ) (own others : List α) (k : κ) :
    latest key (others.filter fun a => !own.any fun o => key o == key a) k =
      if (latest key own k).isSome then none else latest key others k := by
  cases hown : latest key own k with
  | none =>
    have hfree : ∀ o ∈ own, key o ≠ k := latest_eq_none.mp hown
    unfold latest
    rw [List.filter_filter]
    refine congrArg List.getLast? (List.filter_congr fun a _ => ?_)
    by_cases ha : key a = k
    · simpa [ha] using hfree
    · simp [ha]
  | some o =>
    obtain ⟨ho, rfl⟩ := latest_eq_some hown
    refine latest_eq_none.mpr fun a ha hkey => ?_
    have hfree := (List.mem_filter.mp ha).2
    simp only [Bool.not_eq_true', List.any_eq_false, beq_iff_eq] at hfree
    exact hfree o ho hkey.symm

theorem mem_fill : a ∈ fill key own others ↔ a ∈ own ∨ a ∈ others ∧ ∀ o ∈ own, key o ≠ key a := by
  simp [fill]

theorem latest_fill (key : α → κ) (own others : List α) (k : κ) :
    latest key (fill key own others) k = (latest key own k).or (latest key others k) := by
  rw [fill, latest_append, latest_filter_free]
  cases latest key own k with
  | none => rw [Option.or_none, Option.none_or, if_neg (by simp)]
  | some o => rfl

/-! ## Overlay -/

theorem key_getD_lookup (key : α → κ) (overrides : List α) (a : α) :
    key (((collect key overrides).lookup (key a)).getD a) = key a := by
  rw [lookup_collect_eq_latest]
  cases h : latest key overrides (key a) with
  | none => rfl
  | some o => exact (latest_eq_some h).2

theorem filter_map_getD_lookup {p : α → Bool} (hp : ∀ a b, key a = key b → p a = p b) (l overrides : List α) :
    (l.map fun a => ((collect key overrides).lookup (key a)).getD a).filter p =
      (l.filter p).map fun a => ((collect key overrides).lookup (key a)).getD a := by
  rw [List.filter_map]
  congr 1
  exact List.filter_congr fun a _ => hp _ _ (key_getD_lookup key overrides a)

theorem latest_overlay (key : α → κ) (l overrides : List α) (k : κ) :
    latest key (overlay key l overrides) k = (latest key overrides k).or (latest key l k) := by
  -- the entries of the key all are replaced, or none is
  have hplaces : latest key (l.map fun a => ((collect key overrides).lookup (key a)).getD a) k =
      (latest key l k).map fun a => (latest key overrides k).getD a := by
    unfold latest
    rw [filter_map_getD_lookup (fun a b hab => by rw [hab]), ← List.getLast?_map]
    refine congrArg List.getLast? (List.map_congr_left fun a ha => ?_)
    rw [lookup_collect_eq_latest, of_decide_eq_true (List.mem_filter.mp ha).2]
    rfl
  rw [overlay, latest_append, latest_filter_free, hplaces]
  cases latest key l k with
  | none => rfl
  | some a =>
    cases latest key overrides k with
    | none => rfl
    | some o => rfl

/-- The entries under other keys stay, in their order. -/
theorem overlay_filter (key : α → κ) (l overrides : List α) :
    (overlay key l overrides).filter (fun a => !overrides.any fun o => key o == key a) =
      l.filter fun a => !overrides.any fun o => key o == key a := by
  have hkept : ((l.filter fun a => !overrides.any fun o => key o == key a).map
      fun a => ((collect key overrides).lookup (key a)).getD a) =
        l.filter fun a => !overrides.any fun o => key o == key a := by
    refine (List.map_congr_left fun a ha => ?_).trans (List.map_id _)
    have hfree := (List.mem_filter.mp ha).2
    simp only [Bool.not_eq_true', List.any_eq_false, beq_iff_eq] at hfree
    rw [lookup_collect_eq_latest, latest_eq_none.mpr hfree]
    rfl
  have hadded : (overrides.filter fun o => !l.any fun a => key a == key o).filter
      (fun a => !overrides.any fun o => key o == key a) = [] := by
    refine List.filter_eq_nil_iff.mpr fun o ho => ?_
    simpa using ⟨o, (List.mem_filter.mp ho).1, rfl⟩
  rw [overlay, List.filter_append, filter_map_getD_lookup (fun a b hab => by rw [hab]), hkept, hadded, List.append_nil]

end KynoMesh.Lib
