import Mathlib.Data.List.Forall2

/-!
# Loops that may stop with an error

A Go loop whose body may return an error is `List.foldlM` in `Except`; one whose body may panic is in `Option`.

* `bind_eq_ok` : a sequence succeeds when both parts do;
* `foldlM_ok_invariant` : the invariant rule for a loop that ran to its end; the invariant speaks of the elements
  visited so far;
* `foldlM_keyed` : the rule for a loop whose turns each touch their own key;
* `exists_foldlM_range` : the rule for a loop over indices that does not panic;
* `forall₂_of_mapM` : a loop that collects one result a turn; `exists_of_mem_mapM`, `map_eq_of_mapM`.
-/

namespace KynoMesh.Lib

variable {ε α β : Type}

theorem bind_eq_ok {x : Except ε α} {f : α → Except ε β} {b : β} :
    (x >>= f) = .ok b ↔ ∃ a, x = .ok a ∧ f a = .ok b := by
  cases x with
  | error e => simp [bind, Except.bind]
  | ok a => simp [bind, Except.bind]

theorem pure_eq_ok {a b : α} : (pure a : Except ε α) = .ok b ↔ a = b := by
  simp [pure, Except.pure]

theorem exists_eq_ok_of_isOk {x : Except ε α} (h : x.isOk = true) : ∃ a, x = .ok a := by
  cases x with
  | error e => cases h
  | ok a => exact ⟨a, rfl⟩

theorem foldlM_cons_eq_ok {f : β → α → Except ε β} {b c : β} {a : α} {l : List α} :
    (a :: l).foldlM f b = .ok c ↔ ∃ b', f b a = .ok b' ∧ l.foldlM f b' = .ok c := by
  rw [List.foldlM_cons, bind_eq_ok]

theorem foldlM_ok_invariant_from {f : β → α → Except ε β} {I : List α → β → Prop} {l : List α} {c : β}
    (hstep : ∀ done a rest b b', l = done ++ a :: rest → I done b → f b a = .ok b' → I (done ++ [a]) b') :
    ∀ (rest done : List α) (b : β), l = done ++ rest → I done b → rest.foldlM f b = .ok c → I l c := by
  intro rest
  induction rest with
  | nil =>
    intro done b hl hb hc
    rw [List.foldlM_nil, pure_eq_ok] at hc
    rw [hl, List.append_nil, ← hc]
    exact hb
  | cons a rest ih =>
    intro done b hl hb hc
    obtain ⟨b', hb', hc'⟩ := foldlM_cons_eq_ok.mp hc
    exact ih (done ++ [a]) b' (by simp [hl]) (hstep done a rest b b' hl hb hb') hc'

/-- **The loop rule.** An invariant of the visited elements and the accumulator that the body keeps holds at the end
of a loop that met no error. -/
theorem foldlM_ok_invariant {f : β → α → Except ε β} {I : List α → β → Prop} {l : List α} {b c : β} (h0 : I [] b)
    (hstep : ∀ done a rest b b', l = done ++ a :: rest → I done b → f b a = .ok b' → I (done ++ [a]) b')
    (hc : l.foldlM f b = .ok c) : I l c :=
  foldlM_ok_invariant_from hstep l [] b rfl h0 hc

/-- The rule for a loop whose turns each touch one key, each key once: every key ends as its own turn leaves it. -/
theorem foldlM_keyed {κ ν : Type} {f : β → α → Except ε β} {k : α → κ} {g : β → κ → ν} {R : α → ν → ν → Prop}
    {l : List α} (hnodup : (l.map k).Nodup)
    (hturn : ∀ a ∈ l, ∀ b b', f b a = .ok b' →
      R a (g b (k a)) (g b' (k a)) ∧ ∀ x, x ≠ k a → g b' x = g b x)
    {b c : β} (h : l.foldlM f b = .ok c) :
    (∀ a ∈ l, R a (g b (k a)) (g c (k a))) ∧ ∀ x ∉ l.map k, g c x = g b x := by
  induction l generalizing b with
  | nil =>
    rw [List.foldlM_nil, pure_eq_ok] at h
    rw [h]
    exact ⟨by simp, fun _ _ => rfl⟩
  | cons a l ih =>
    obtain ⟨b', hb', h⟩ := foldlM_cons_eq_ok.mp h
    obtain ⟨ha, hnodup⟩ := List.nodup_cons.mp hnodup
    obtain ⟨hself, hframe⟩ := hturn a List.mem_cons_self b b' hb'
    obtain ⟨hrest, hother⟩ := ih hnodup (fun x hx => hturn x (List.mem_cons_of_mem _ hx)) h
    refine ⟨fun x hx => ?_, fun x hx => ?_⟩
    · rcases List.mem_cons.mp hx with rfl | hx
      · rw [hother _ ha]
        exact hself
      · have hne : k x ≠ k a := fun heq => ha (heq ▸ List.mem_map_of_mem hx)
        rw [← hframe _ hne]
        exact hrest x hx
    · rw [List.map_cons, List.mem_cons, not_or] at hx
      rw [hother x hx.2, hframe x hx.1]

theorem foldlM_eq_ok_self {f : β → α → Except ε β} {b : β} {l : List α} (h : ∀ a ∈ l, f b a = .ok b) :
    l.foldlM f b = .ok b := by
  induction l with
  | nil => rfl
  | cons a l ih =>
    rw [foldlM_cons_eq_ok]
    exact ⟨b, h a List.mem_cons_self, ih fun x hx => h x (List.mem_cons_of_mem _ hx)⟩

theorem forall₂_of_mapM {f : α → Except ε β} {l : List α} {bs : List β} (h : l.mapM f = .ok bs) :
    List.Forall₂ (fun a b => f a = .ok b) l bs := by
  induction l generalizing bs with
  | nil =>
    rw [List.mapM_nil, pure_eq_ok] at h
    rw [← h]
    exact .nil
  | cons a l ih =>
    rw [List.mapM_cons] at h
    obtain ⟨c, hc, h⟩ := bind_eq_ok.mp h
    obtain ⟨cs, hcs, h⟩ := bind_eq_ok.mp h
    rw [pure_eq_ok] at h
    rw [← h]
    exact .cons hc (ih hcs)

theorem exists_of_mem_mapM {f : α → Except ε β} {l : List α} {bs : List β} (h : l.mapM f = .ok bs) {b : β}
    (hb : b ∈ bs) : ∃ a ∈ l, f a = .ok b := by
  have hall := forall₂_of_mapM h
  clear h
  induction hall with
  | nil => cases hb
  | @cons a c l cs hc _ ih =>
    rcases List.mem_cons.mp hb with rfl | hb
    · exact ⟨a, List.mem_cons_self, hc⟩
    · obtain ⟨a', ha', hfa⟩ := ih hb
      exact ⟨a', List.mem_cons_of_mem _ ha', hfa⟩

theorem exists_of_mem_of_mapM {f : α → Except ε β} {l : List α} {bs : List β} (h : l.mapM f = .ok bs) {a : α}
    (ha : a ∈ l) : ∃ b ∈ bs, f a = .ok b := by
  have hall := forall₂_of_mapM h
  clear h
  induction hall with
  | nil => cases ha
  | @cons c b l bs hc _ ih =>
    rcases List.mem_cons.mp ha with rfl | ha
    · exact ⟨b, List.mem_cons_self, hc⟩
    · obtain ⟨b', hb', hfb⟩ := ih ha
      exact ⟨b', List.mem_cons_of_mem _ hb', hfb⟩

theorem map_eq_of_mapM {γ : Type} {f : α → Except ε β} {g : β → γ} {g' : α → γ}
    (hturn : ∀ {a b}, f a = .ok b → g b = g' a) {l : List α} {bs : List β} (h : l.mapM f = .ok bs) :
    bs.map g = l.map g' := by
  have hall := forall₂_of_mapM h
  clear h
  induction hall with
  | nil => rfl
  | cons hc _ ih => rw [List.map_cons, List.map_cons, hturn hc, ih]

theorem isOk_bind {x : Except ε α} {f : α → Except ε β} (hx : x.isOk = true) (hf : ∀ a, (f a).isOk = true) :
    (x >>= f).isOk = true := by
  obtain ⟨a, rfl⟩ := exists_eq_ok_of_isOk hx
  exact hf a

theorem isOk_foldlM {f : β → α → Except ε β} (hf : ∀ b a, (f b a).isOk = true) (l : List α) (b : β) :
    (l.foldlM f b).isOk = true := by
  induction l generalizing b with
  | nil => rfl
  | cons a l ih =>
    rw [List.foldlM_cons]
    exact isOk_bind (hf b a) ih

/-- **The loop rule over indices.** A loop whose body does not panic where its invariant holds ends, with the invariant. -/
theorem exists_foldlM_range {f : β → Nat → Option β} {I : Nat → β → Prop} {n : Nat} {b : β} (h0 : I 0 b)
    (hstep : ∀ i < n, ∀ b, I i b → ∃ b', f b i = some b' ∧ I (i + 1) b') :
    ∃ c, (List.range n).foldlM f b = some c ∧ I n c := by
  induction n with
  | zero => exact ⟨b, rfl, h0⟩
  | succ n ih =>
    obtain ⟨c, hc, hI⟩ := ih fun i hi => hstep i (by omega)
    obtain ⟨c', hc', hI'⟩ := hstep n (by omega) c hI
    refine ⟨c', ?_, hI'⟩
    rw [List.range_succ, List.foldlM_append, hc]
    simp [hc']

end KynoMesh.Lib
