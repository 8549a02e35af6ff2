import Mathlib.Algebra.BigOperators.Group.List.Basic
import Mathlib.Data.List.AList
import Mathlib.Data.List.Forall2
import Mathlib.Data.List.Induction

/-!
# Go maps

A Go map is a `Dict`: unique keys, and an order of the entries. A `range` loop visits the entries in any order
(`RangeOrder`).

* `collect f l` : the map that a loop fills with `m[f(a)] = a`;
* `lookup_collect` : its value at a key is the last element with that key;
* `mem_foldl_insert` : the keys of a map filled by another loop; `perm_entries_foldl_insert`, `lookup_foldl_insert` with
  distinct keys;
* `lookup_foldl_erase` : what a loop that deletes keys leaves;
* `mem_foldl_iff` : the keys that a loop adds, when each turn adds what it adds whatever the map is;
* `sum_getD_lookup` : the sum of a map, read off key by key;
* `lookup_mapValues`, `adjust`, `lookup_adjust` : all values replaced, and one;
* `lookup_union` : what a copy of one map over another leaves;
* `mem_entries_iff` : the entries are the lookups; `entries_eq_nil_iff`, `mem_visit_iff`, `nodup_visit`;
* `Alike` : two maps that are built by the same operations, with related values.
-/

namespace KynoMesh

/-- A Go map. -/
abbrev Dict (κ ν : Type) := AList (fun _ : κ => ν)

namespace Lib

/-- One order in which a `range` loop visits the keys or entries `α` of a map. -/
structure RangeOrder (α : Type) where
  visit : List α → List α
  perm : ∀ l, (visit l).Perm l

def RangeOrder.listed {α : Type} : RangeOrder α := ⟨fun l => l, fun _ => List.Perm.refl _⟩

variable {κ ν : Type} [DecidableEq κ]

/-- The map filled by a loop over `l` with the keys `f`. -/
def collect (f : ν → κ) (l : List ν) : Dict κ ν := l.foldl (fun d a => d.insert (f a) a) ∅

theorem lookup_collect (f : ν → κ) (l : List ν) (k : κ) :
    (collect f l).lookup k = l.reverse.find? fun a => f a = k := by
  induction l using List.reverseRecOn with
  | nil => rfl
  | append_singleton l a ih =>
    unfold collect at ih ⊢
    rw [List.foldl_append, List.foldl_cons, List.foldl_nil, List.reverse_append, List.reverse_singleton,
      List.singleton_append, List.find?_cons]
    by_cases hk : f a = k
    · subst hk
      simp
    · rw [AList.lookup_insert_ne (Ne.symm hk), ih]
      simp [hk]

theorem lookup_collect_eq_some {f : ν → κ} {l : List ν} (hf : ∀ a ∈ l, ∀ b ∈ l, f a = f b → a = b) {k : κ} {a : ν} :
    (collect f l).lookup k = some a ↔ a ∈ l ∧ f a = k := by
  rw [lookup_collect]
  constructor
  · intro h
    exact ⟨List.mem_reverse.mp (List.mem_of_find?_eq_some h), by simpa using List.find?_some h⟩
  · rintro ⟨ha, rfl⟩
    cases hfind : l.reverse.find? (fun b => f b = f a) with
    | none =>
      have := List.find?_eq_none.mp hfind a (List.mem_reverse.mpr ha)
      simp at this
    | some b =>
      have hb := List.mem_reverse.mp (List.mem_of_find?_eq_some hfind)
      have hkey : f b = f a := by simpa using List.find?_some hfind
      rw [hf b hb a ha hkey]

theorem mem_foldl_insert {α : Type} (f : α → κ) (g : α → ν) (l : List α) (d : Dict κ ν) (k : κ) :
    k ∈ l.foldl (fun d a => d.insert (f a) (g a)) d ↔ k ∈ l.map f ∨ k ∈ d := by
  induction l generalizing d with
  | nil => simp
  | cons a l ih =>
    rw [List.foldl_cons, ih, AList.mem_insert, List.map_cons, List.mem_cons]
    tauto

omit [DecidableEq κ] in
theorem mem_foldl_iff {α : Type} {f : Dict κ ν → α → Dict κ ν} {k : κ} {P : α → Prop}
    (hf : ∀ d a, k ∈ f d a ↔ P a ∨ k ∈ d) (l : List α) (d : Dict κ ν) : k ∈ l.foldl f d ↔ (∃ a ∈ l, P a) ∨ k ∈ d := by
  induction l generalizing d with
  | nil => simp
  | cons a l ih =>
    rw [List.foldl_cons, ih, hf, ← or_assoc, or_comm (b := P a)]
    simp only [List.mem_cons, exists_eq_or_imp]

/-- What a loop over `l` leaves of a map that deletes the keys `f`, except where `p` holds. -/
theorem lookup_foldl_erase {α : Type} (p : α → Prop) [DecidablePred p] (f : α → κ) (l : List α) (d : Dict κ ν) (k : κ)
    (v : ν) :
    (l.foldl (fun d a => if p a then d else d.erase (f a)) d).lookup k = some v ↔
      d.lookup k = some v ∧ ∀ a ∈ l, ¬p a → f a ≠ k := by
  induction l generalizing d with
  | nil => simp
  | cons a l ih =>
    rw [List.foldl_cons, ih, List.forall_mem_cons, ← and_assoc]
    refine and_congr_left fun _ => ?_
    by_cases hp : p a
    · simp [hp]
    · rw [if_neg hp]
      by_cases hk : f a = k
      · subst hk
        simp [hp]
      · rw [AList.lookup_erase_ne (Ne.symm hk)]
        simp [hk]

/-- With distinct keys, a loop that fills a map leaves one entry a turn. -/
theorem perm_entries_foldl_insert {α : Type} {f : α → κ} (g : α → ν) {l : List α} (hl : (l.map f).Nodup) :
    ((l.foldl (fun d a => d.insert (f a) (g a)) (∅ : Dict κ ν)).entries).Perm (l.map fun a => ⟨f a, g a⟩) := by
  induction l using List.reverseRecOn with
  | nil => exact .refl _
  | append_singleton l a ih =>
    rw [List.map_append, List.nodup_append] at hl
    have hnew : f a ∉ l.foldl (fun d a => d.insert (f a) (g a)) (∅ : Dict κ ν) := by
      rw [mem_foldl_insert]
      rintro (hmem | hmem)
      · exact hl.2.2 _ hmem _ (by simp) rfl
      · cases hmem
    rw [List.foldl_append, List.foldl_cons, List.foldl_nil, AList.entries_insert_of_notMem hnew, List.map_append]
    exact ((ih hl.1).cons _).trans (List.perm_append_singleton _ _).symm

theorem lookup_foldl_insert {α : Type} {f : α → κ} (g : α → ν) {l : List α} (hl : (l.map f).Nodup) {a : α}
    (ha : a ∈ l) : (l.foldl (fun d a => d.insert (f a) (g a)) (∅ : Dict κ ν)).lookup (f a) = some (g a) :=
  AList.mem_lookup_iff.mpr ((perm_entries_foldl_insert g hl).mem_iff.mpr (List.mem_map_of_mem ha))

theorem sum_getD_lookup {M : Type} [AddCommMonoid M] (d : Dict κ M) {ks : List κ} (hks : ks.Nodup)
    (hsub : ∀ k ∈ d, k ∈ ks) :
    (ks.map fun k => (d.lookup k).getD 0).sum = (d.entries.map Sigma.snd).sum := by
  have hkeys : (ks.filter (· ∈ d)).Perm d.keys := by
    rw [List.perm_ext_iff_of_nodup (hks.filter _) d.keys_nodup]
    intro k
    rw [List.mem_filter, decide_eq_true_eq, ← AList.mem_keys]
    exact ⟨fun h => h.2, fun h => ⟨hsub k h, h⟩⟩
  -- the other keys read zero
  have hzero : ((ks.filter (fun k => !decide (k ∈ d))).map fun k => (d.lookup k).getD 0).sum = 0 := by
    apply List.sum_eq_zero
    intro x hx
    obtain ⟨k, hk, rfl⟩ := List.mem_map.mp hx
    have hk' : k ∉ d := by simpa using (List.mem_filter.mp hk).2
    rw [AList.lookup_eq_none.mpr hk', Option.getD_none]
  have hsplit := ((List.filter_append_perm (fun k => decide (k ∈ d)) ks).map fun k => (d.lookup k).getD 0).sum_eq
  rw [← hsplit, List.map_append, List.sum_append, hzero, add_zero, (hkeys.map _).sum_eq, AList.keys, List.keys,
    List.map_map]
  congr 1
  apply List.map_congr_left
  intro e he
  have hlookup : d.lookup e.1 = some e.2 := AList.mem_lookup_iff.mpr he
  rw [Function.comp_apply, hlookup, Option.getD_some]

/-- The map with every value replaced, as a loop over its entries builds it. -/
def mapValues {μ : Type} (f : ν → μ) (d : Dict κ ν) : Dict κ μ :=
  d.entries.foldl (fun out e => out.insert e.1 (f e.2)) ∅

theorem mem_entries_iff {d : Dict κ ν} {k : κ} {a : ν} : ⟨k, a⟩ ∈ d.entries ↔ d.lookup k = some a :=
  AList.mem_lookup_iff.symm

theorem lookup_mapValues {μ : Type} (f : ν → μ) (d : Dict κ ν) (k : κ) :
    (mapValues f d).lookup k = (d.lookup k).map f := by
  cases hk : d.lookup k with
  | some v => exact lookup_foldl_insert (fun e : Σ _ : κ, ν => f e.2) d.nodupKeys (mem_entries_iff.mpr hk)
  | none =>
    rw [Option.map_none, AList.lookup_eq_none, mapValues, mem_foldl_insert]
    exact not_or.mpr ⟨AList.lookup_eq_none.mp hk, AList.notMem_empty k⟩

/-- The value at a key is changed in place, if there is one. -/
def adjust (f : ν → ν) (k : κ) (d : Dict κ ν) : Dict κ ν :=
  match d.lookup k with
  | none => d
  | some v => d.insert k (f v)

theorem lookup_adjust (f : ν → ν) (k k' : κ) (d : Dict κ ν) :
    (adjust f k d).lookup k' = if k' = k then (d.lookup k').map f else d.lookup k' := by
  unfold adjust
  split_ifs with hk
  · subst hk
    cases hv : d.lookup k' with
    | none => exact hv
    | some v => exact AList.lookup_insert _
  · cases d.lookup k with
    | none => rfl
    | some v => exact AList.lookup_insert_ne hk

theorem lookup_union (d e : Dict κ ν) (k : κ) : (d ∪ e).lookup k = (d.lookup k).or (e.lookup k) := by
  cases hk : d.lookup k with
  | none => rw [AList.lookup_union_right (AList.lookup_eq_none.mp hk), Option.none_or]
  | some v => rw [AList.lookup_union_left (AList.lookup_isSome.mp (by rw [hk]; rfl)), hk, Option.some_or]

theorem entries_eq_nil_iff {d : Dict κ ν} : d.entries = [] ↔ ∀ k, d.lookup k = none := by
  constructor
  · intro h k
    obtain rfl : d = ∅ := AList.ext h
    exact AList.lookup_empty k
  · intro h
    refine List.eq_nil_iff_forall_not_mem.mpr fun e he => ?_
    have hsome := mem_entries_iff.mp he
    rw [h] at hsome
    cases hsome

theorem mem_visit_iff {order : RangeOrder (Σ _ : κ, ν)} {d : Dict κ ν} {e : Σ _ : κ, ν} :
    e ∈ order.visit d.entries ↔ d.lookup e.1 = some e.2 :=
  (order.perm d.entries).mem_iff.trans mem_entries_iff

omit [DecidableEq κ] in
theorem nodup_visit (order : RangeOrder (Σ _ : κ, ν)) (d : Dict κ ν) :
    ((order.visit d.entries).map Sigma.fst).Nodup :=
  ((order.perm d.entries).map Sigma.fst).nodup_iff.mpr d.nodupKeys

/-! ## Maps that are built alike -/

/-- The same keys in the same order, with related values. -/
def Alike {μ : Type} (R : κ → ν → μ → Prop) (d : Dict κ ν) (d' : Dict κ μ) : Prop :=
  List.Forall₂ (fun e e' => e.1 = e'.1 ∧ R e.1 e.2 e'.2) d.entries d'.entries

namespace Alike
variable {μ : Type} {R R' : κ → ν → μ → Prop} {d : Dict κ ν} {d' : Dict κ μ}

theorem lookup (h : Alike R d d') (k : κ) :
    (d.lookup k = none ∧ d'.lookup k = none) ∨ ∃ v v', d.lookup k = some v ∧ d'.lookup k = some v' ∧ R k v v' := by
  unfold AList.lookup
  unfold Alike at h
  generalize d.entries = es at h
  generalize d'.entries = es' at h
  induction h with
  | nil => exact .inl ⟨rfl, rfl⟩
  | @cons e e' es es' hee _ ih =>
    obtain ⟨j, v⟩ := e
    obtain ⟨j', v'⟩ := e'
    obtain ⟨hkey, hR⟩ := hee
    dsimp only at hkey hR
    subst hkey
    by_cases hk : k = j
    · subst hk
      exact .inr ⟨v, v', List.dlookup_cons_eq _ _ _, List.dlookup_cons_eq _ _ _, hR⟩
    · have hskip : ∀ {ρ : Type} (w : ρ) (l : List (Σ _ : κ, ρ)), List.dlookup k (⟨j, w⟩ :: l) = List.dlookup k l :=
        fun w l => List.dlookup_cons_ne l ⟨j, w⟩ hk
      rw [hskip, hskip]
      exact ih

theorem kerase {es : List (Σ _ : κ, ν)} {es' : List (Σ _ : κ, μ)}
    (h : List.Forall₂ (fun e e' => e.1 = e'.1 ∧ R e.1 e.2 e'.2) es es') (k : κ) :
    List.Forall₂ (fun e e' => e.1 = e'.1 ∧ R e.1 e.2 e'.2) (es.kerase k) (es'.kerase k) := by
  induction h with
  | nil => exact .nil
  | @cons e e' es es' hee hrest ih =>
    by_cases hk : k = e.1
    · rw [List.kerase_cons_eq hk, List.kerase_cons_eq (hk.trans hee.1)]
      exact hrest
    · rw [List.kerase_cons_ne hk, List.kerase_cons_ne (hee.1 ▸ hk)]
      exact .cons hee ih

/-- A key is set in both maps; the relation may change with it at the other keys. -/
theorem insert (h : Alike R d d') (k : κ) {v : ν} {v' : μ} (hv : R' k v v')
    (hother : ∀ k', k' ≠ k → ∀ v v', R k' v v' → R' k' v v') : Alike R' (d.insert k v) (d'.insert k v') := by
  have hkeys : ∀ e ∈ d.entries.kerase k, e.1 ≠ k := by
    rintro e he rfl
    exact List.notMem_keys_kerase e.1 d.nodupKeys (List.mem_map_of_mem he)
  unfold Alike
  rw [AList.entries_insert, AList.entries_insert]
  refine .cons ⟨rfl, hv⟩ ?_
  refine ((List.forall₂_and_left _ _).mpr ⟨hkeys, kerase h k⟩).imp ?_
  rintro e e' ⟨hne, hkey, hR⟩
  exact ⟨hkey, hother e.1 hne _ _ hR⟩

omit [DecidableEq κ] in
/-- A loop over both maps that does not tell related values apart. -/
theorem foldl_eq {β : Type} {f : β → (Σ _ : κ, ν) → β} {g : β → (Σ _ : κ, μ) → β} (h : Alike R d d')
    (hfg : ∀ b k v v', R k v v' → f b ⟨k, v⟩ = g b ⟨k, v'⟩) (b : β) : d.entries.foldl f b = d'.entries.foldl g b := by
  unfold Alike at h
  generalize d.entries = es at h
  generalize d'.entries = es' at h
  induction h generalizing b with
  | nil => rfl
  | @cons e e' es es' hee _ ih =>
    obtain ⟨k, v⟩ := e
    obtain ⟨k', v'⟩ := e'
    obtain ⟨hkey, hR⟩ := hee
    dsimp only at hkey hR
    subst hkey
    rw [List.foldl_cons, List.foldl_cons, hfg b k v v' hR, ih]

omit [DecidableEq κ] in
theorem any_eq {p : ν → Bool} {q : μ → Bool} (h : Alike R d d') (hpq : ∀ k v v', R k v v' → p v = q v') :
    (d.entries.any fun e => p e.2) = d'.entries.any fun e => q e.2 := by
  unfold Alike at h
  generalize d.entries = es at h
  generalize d'.entries = es' at h
  induction h with
  | nil => rfl
  | cons hee _ ih => rw [List.any_cons, List.any_cons, hpq _ _ _ hee.2, ih]

end Alike

end Lib

end KynoMesh
