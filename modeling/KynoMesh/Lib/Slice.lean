import Mathlib.Data.List.Infix

/-!
# Go slices

Slices over a heap of arrays. An operation that panics in Go has the result `none`.

* `Heap`, `Slice`, `Heap.contents` : arrays by their address, and the part of one that a slice shows;
* `Slice.reslice`, `Slice.since`, `Heap.make`, `Heap.get`, `Heap.set`, `Heap.append`, `Heap.appendAll`, `Heap.copy`,
  `Heap.permute` : the operations. An `append` within the capacity of the slice writes to its array; otherwise it moves to
  a larger one;
* `Heap.Extends` : the arrays of one heap are in another as they are; `Heap.Extends.write`, `Heap.Extends.alloc`,
  `Heap.Extends.contents_eq` : what leaves the arrays of a heap alone, and the slices into it;
* `Heap.write_middle` : a write in the middle of an array;
* `Heap.ChangesAt` : only one array changes; `Heap.Front` : a slice from the start of its array, and what the operations
  do to it.
-/

namespace KynoMesh.Lib

variable {α : Type}

/-- The arrays, by address. -/
structure Heap (α : Type) where
  arrays : List (List α)

/-- The `len` cells from `off` on of the array at `addr`, with room for `cap`. -/
structure Slice where
  addr : Nat
  off : Nat
  len : Nat
  cap : Nat
  deriving DecidableEq

namespace Slice

/-- The `nil` slice. -/
def nil : Slice := ⟨0, 0, 0, 0⟩

/-- `s[:n]`. -/
def reslice (s : Slice) (n : Nat) : Option Slice := if n ≤ s.cap then some { s with len := n } else none

/-- `s[k:]`. -/
def since (s : Slice) (k : Nat) : Option Slice :=
  if k ≤ s.len then some { s with off := s.off + k, len := s.len - k, cap := s.cap - k } else none

end Slice

namespace Heap

/-- The address of the next array. -/
def size (h : Heap α) : Nat := h.arrays.length

def array (h : Heap α) (addr : Nat) : List α := h.arrays.getD addr []

/-- What a slice shows. -/
def contents (h : Heap α) (s : Slice) : List α := ((h.array s.addr).drop s.off).take s.len

/-- A slice into the heap, as the operations make them. -/
def Valid (h : Heap α) (s : Slice) : Prop := s.len ≤ s.cap ∧ s.off + s.cap ≤ (h.array s.addr).length

/-- A new array. -/
def alloc (h : Heap α) (cells : List α) : Heap α := ⟨h.arrays ++ [cells]⟩

/-- Cells of an array are overwritten, from `pos` on. -/
def write (h : Heap α) (addr pos : Nat) (vs : List α) : Heap α :=
  ⟨h.arrays.modify addr fun cells => cells.take pos ++ vs ++ cells.drop (pos + vs.length)⟩

/-- `make([]T, len, cap)`. -/
def make [Inhabited α] (h : Heap α) (len cap : Nat) : Heap α × Slice :=
  (h.alloc (List.replicate cap default), ⟨h.size, 0, len, cap⟩)

/-- `s[i]`. -/
def get (h : Heap α) (s : Slice) (i : Nat) : Option α := (h.contents s)[i]?

/-- `s[i] = v`. -/
def set (h : Heap α) (s : Slice) (i : Nat) (v : α) : Option (Heap α) :=
  if i < s.len then some (h.write s.addr (s.off + i) [v]) else none

/-- `append(s, v)`; a new array has room for `grow s.len` more. -/
def append [Inhabited α] (grow : Nat → Nat) (h : Heap α) (s : Slice) (v : α) : Heap α × Slice :=
  if s.len < s.cap then (h.write s.addr (s.off + s.len) [v], { s with len := s.len + 1 })
  else
    (h.alloc (h.contents s ++ [v] ++ List.replicate (grow s.len) default),
      ⟨h.size, 0, s.len + 1, s.len + 1 + grow s.len⟩)

/-- `append(s, vs...)`. -/
def appendAll [Inhabited α] (grow : Nat → Nat) (h : Heap α) (s : Slice) (vs : List α) : Heap α × Slice :=
  if s.len + vs.length ≤ s.cap then (h.write s.addr (s.off + s.len) vs, { s with len := s.len + vs.length })
  else
    (h.alloc (h.contents s ++ vs ++ List.replicate (grow s.len) default),
      ⟨h.size, 0, s.len + vs.length, s.len + vs.length + grow s.len⟩)

/-- `copy(dst, src)`. -/
def copy (h : Heap α) (dst src : Slice) : Heap α := h.write dst.addr dst.off ((h.contents src).take dst.len)

/-- The elements of a slice are put in another order, in place. -/
def permute (h : Heap α) (s : Slice) (f : List α → List α) : Heap α := h.write s.addr s.off (f (h.contents s))

theorem length_contents {h : Heap α} {s : Slice} (hs : h.Valid s) : (h.contents s).length = s.len := by
  obtain ⟨hcap, hcells⟩ := hs
  simp only [contents, List.length_take, List.length_drop]
  omega

theorem Valid.addr_lt {h : Heap α} {s : Slice} (hs : h.Valid s) (hpos : 0 < s.len) : s.addr < h.size := by
  by_contra hge
  have hnone : h.array s.addr = [] := by
    simp only [array, List.getD_eq_getElem?_getD]
    rw [List.getElem?_eq_none (not_lt.mp hge)]
    rfl
  obtain ⟨hcap, hcells⟩ := hs
  rw [hnone, List.length_nil] at hcells
  omega

theorem contents_of_array {h : Heap α} {addr cap : Nat} {l rest : List α} (harray : h.array addr = l ++ rest) :
    h.contents ⟨addr, 0, l.length, cap⟩ = l := by
  unfold contents
  rw [List.drop_zero, harray, List.take_left]

theorem get_of_contents {h : Heap α} {s : Slice} {l : List α} (hl : h.contents s = l) {i : Nat} (hi : i < l.length) :
    h.get s i = some l[i] := by
  unfold get
  rw [hl, List.getElem?_eq_getElem hi]

theorem append_of_lt [Inhabited α] (grow : Nat → Nat) (h : Heap α) {addr len cap : Nat} (hroom : len < cap) (v : α) :
    h.append grow ⟨addr, 0, len, cap⟩ v = (h.write addr len [v], ⟨addr, 0, len + 1, cap⟩) := by
  unfold append
  rw [if_pos hroom, Nat.zero_add]

/-! ## Reading after writing -/

@[simp] theorem size_alloc (h : Heap α) (cells : List α) : (h.alloc cells).size = h.size + 1 := by simp [size, alloc]

@[simp] theorem size_write (h : Heap α) (addr pos : Nat) (vs : List α) : (h.write addr pos vs).size = h.size := by
  simp [size, write]

@[simp] theorem array_alloc_self (h : Heap α) (cells : List α) : (h.alloc cells).array h.size = cells := by
  simp [array, alloc, size]

theorem array_write_self {h : Heap α} {addr : Nat} (haddr : addr < h.size) (pos : Nat) (vs : List α) :
    (h.write addr pos vs).array addr =
      (h.array addr).take pos ++ vs ++ (h.array addr).drop (pos + vs.length) := by
  simp only [array, write, List.getD_eq_getElem?_getD, List.getElem?_modify_eq]
  rw [List.getElem?_eq_getElem haddr]
  rfl

theorem array_write_of_ne {h : Heap α} {addr addr' : Nat} (hne : addr ≠ addr') (pos : Nat) (vs : List α) :
    (h.write addr pos vs).array addr' = h.array addr' := by
  simp [array, write, hne]

theorem contents_write_of_ne {h : Heap α} {addr : Nat} {s : Slice} (hne : addr ≠ s.addr) (pos : Nat) (vs : List α) :
    (h.write addr pos vs).contents s = h.contents s := by
  unfold contents
  rw [array_write_of_ne hne]

theorem write_middle {h : Heap α} {addr : Nat} (haddr : addr < h.size) {pre old post : List α}
    (harray : h.array addr = pre ++ old ++ post) (vs : List α) (hlen : vs.length = old.length) :
    (h.write addr pre.length vs).array addr = pre ++ vs ++ post := by
  rw [array_write_self haddr, harray, hlen, ← List.length_append, List.drop_left, List.append_assoc pre, List.take_left]

/-! ## Frames -/

/-- The arrays of `h` are in `h'`, at their addresses and with their contents. -/
def Extends (h h' : Heap α) : Prop := h.arrays <+: h'.arrays

namespace Extends
variable {h₀ h : Heap α}

theorem refl (h : Heap α) : h.Extends h := List.prefix_rfl

theorem trans {h₁ h₂ h₃ : Heap α} (h₁₂ : h₁.Extends h₂) (h₂₃ : h₂.Extends h₃) : h₁.Extends h₃ :=
  List.IsPrefix.trans h₁₂ h₂₃

theorem alloc (hext : h₀.Extends h) (cells : List α) : h₀.Extends (h.alloc cells) :=
  List.IsPrefix.trans hext (List.prefix_append h.arrays [cells])

theorem make [Inhabited α] (hext : h₀.Extends h) (len cap : Nat) : h₀.Extends (h.make len cap).1 := hext.alloc _

theorem write (hext : h₀.Extends h) {addr : Nat} (haddr : h₀.size ≤ addr) (pos : Nat) (vs : List α) :
    h₀.Extends (h.write addr pos vs) := by
  obtain ⟨later, hlater⟩ := hext
  refine List.prefix_iff_getElem?.mpr fun i hi => ?_
  have hne : addr ≠ i := by
    have : i < h₀.size := hi
    omega
  simp only [Heap.write, ne_eq, hne, not_false_eq_true, List.getElem?_modify_ne]
  rw [← hlater, List.getElem?_append_left hi, List.getElem?_eq_getElem hi]

theorem size_le (hext : h₀.Extends h) : h₀.size ≤ h.size := hext.length_le

theorem array_eq (hext : h₀.Extends h) {addr : Nat} (haddr : addr < h₀.size) : h.array addr = h₀.array addr := by
  obtain ⟨later, hlater⟩ := hext
  simp only [array, ← hlater, List.getD_eq_getElem?_getD]
  rw [List.getElem?_append_left haddr]

theorem contents_eq (hext : h₀.Extends h) {s : Slice} (hs : s.addr < h₀.size) : h.contents s = h₀.contents s := by
  unfold contents
  rw [hext.array_eq hs]

end Extends

/-- From `h` to `h'`, of the arrays of `h` only the one at `addr` may change. -/
structure ChangesAt (h : Heap α) (addr : Nat) (h' : Heap α) : Prop where
  size_le : h.size ≤ h'.size
  array_eq : ∀ a < h.size, a ≠ addr → h'.array a = h.array a

namespace ChangesAt
variable {h h' h'' : Heap α} {addr : Nat}

theorem alloc (h : Heap α) (addr : Nat) (cells : List α) : h.ChangesAt addr (h.alloc cells) where
  size_le := by simp
  array_eq := fun _ ha _ => ((Extends.refl h).alloc cells).array_eq ha

theorem write (h : Heap α) (addr pos : Nat) (vs : List α) : h.ChangesAt addr (h.write addr pos vs) where
  size_le := by simp
  array_eq := fun _ _ hne => array_write_of_ne (Ne.symm hne) pos vs

/-- The second change is at the same array, or at one that is not in `h`. -/
theorem trans (h₁ : h.ChangesAt addr h') {addr' : Nat} (h₂ : h'.ChangesAt addr' h'') (haddr : addr' = addr ∨ h.size ≤ addr') :
    h.ChangesAt addr h'' where
  size_le := h₁.size_le.trans h₂.size_le
  array_eq := by
    intro a ha hne
    have hne' : a ≠ addr' := by
      rcases haddr with rfl | hle
      · exact hne
      · omega
    rw [h₂.array_eq a (ha.trans_le h₁.size_le) hne', h₁.array_eq a ha hne]

theorem contents_eq (hc : h.ChangesAt addr h') {s : Slice} (hs : s.addr < h.size) (hne : s.addr ≠ addr) :
    h'.contents s = h.contents s := by
  unfold contents
  rw [hc.array_eq s.addr hs hne]

end ChangesAt

/-! ## Slices from the start of an array -/

/-- The slice shows `xs`, from the start of its array to the capacity of the slice. -/
structure Front (h : Heap α) (s : Slice) (xs : List α) : Prop where
  addr_lt : s.addr < h.size
  off : s.off = 0
  len : s.len = xs.length
  array : ∃ spare, h.array s.addr = xs ++ spare ∧ s.cap = xs.length + spare.length

namespace Front
variable {h h' : Heap α} {s : Slice} {xs : List α}

theorem contents (hf : h.Front s xs) : h.contents s = xs := by
  obtain ⟨spare, harray, -⟩ := hf.array
  unfold Heap.contents
  rw [hf.off, hf.len, List.drop_zero, harray, List.take_left]

theorem of_changesAt (hf : h.Front s xs) {addr : Nat} (hc : h.ChangesAt addr h') (hne : s.addr ≠ addr) : h'.Front s xs where
  addr_lt := hf.addr_lt.trans_le hc.size_le
  off := hf.off
  len := hf.len
  array := by
    rw [hc.array_eq s.addr hf.addr_lt hne]
    exact hf.array

theorem alloc (h : Heap α) (xs spare : List α) :
    (h.alloc (xs ++ spare)).Front ⟨h.size, 0, xs.length, xs.length + spare.length⟩ xs where
  addr_lt := by simp
  off := rfl
  len := rfl
  array := ⟨spare, by simp, rfl⟩

theorem set (hf : h.Front s xs) {k : Nat} (hk : k < xs.length) (v : α) :
    h.set s k v = some (h.write s.addr k [v]) ∧ (h.write s.addr k [v]).Front s (xs.set k v) := by
  obtain ⟨spare, harray, hcap⟩ := hf.array
  have hlen := hf.len
  refine ⟨?_, ?_⟩
  · rw [Heap.set, if_pos (by omega), hf.off, Nat.zero_add]
  · refine ⟨by simpa using hf.addr_lt, hf.off, by simpa using hf.len, spare, ?_, by simpa using hcap⟩
    have hsplit : h.array s.addr = xs.take k ++ [xs[k]] ++ (xs.drop (k + 1) ++ spare) := by
      rw [harray, List.take_append_getElem, ← List.append_assoc, List.take_append_drop]
    have hpre : (xs.take k).length = k := by simp; omega
    have hwrite := write_middle hf.addr_lt hsplit [v] rfl
    rw [hpre] at hwrite
    rw [hwrite, List.set_eq_take_append_cons_drop, if_pos hk]
    simp

theorem append [Inhabited α] (grow : Nat → Nat) (hf : h.Front s xs) (v : α) :
    (h.append grow s v).1.Front (h.append grow s v).2 (xs ++ [v]) ∧ h.ChangesAt s.addr (h.append grow s v).1 ∧
      ((h.append grow s v).2.addr = s.addr ∨ (h.append grow s v).2.addr = h.size) := by
  obtain ⟨spare, harray, hcap⟩ := hf.array
  unfold Heap.append
  split_ifs with hroom
  · cases spare with
    | nil =>
      have hlen := hf.len
      simp only [List.length_nil] at hcap
      omega
    | cons x spare =>
      refine ⟨⟨by simpa using hf.addr_lt, hf.off, by simp [hf.len], spare, ?_, ?_⟩, ChangesAt.write .., .inl rfl⟩
      · have hsplit : h.array s.addr = xs ++ [x] ++ spare := by rw [harray]; simp
        have hwrite := write_middle hf.addr_lt hsplit [v] rfl
        rw [hf.off, hf.len, Nat.zero_add]
        exact hwrite
      · simp only [List.length_cons] at hcap
        simp only [List.length_append, List.length_singleton]
        omega
  · refine ⟨?_, ChangesAt.alloc .., .inr rfl⟩
    have hnew := alloc h (xs ++ [v]) (List.replicate (grow s.len) default)
    rw [hf.contents]
    simp only [List.length_append, List.length_singleton, List.length_replicate, ← hf.len] at hnew
    exact hnew

theorem clone [Inhabited α] (hf : h.Front s xs) :
    ((h.make s.len s.len).1.copy (h.make s.len s.len).2 s).Front (h.make s.len s.len).2 xs ∧
      h.ChangesAt h.size ((h.make s.len s.len).1.copy (h.make s.len s.len).2 s) := by
  have hold : (h.make s.len s.len).1.contents s = xs := by
    rw [((Extends.refl h).make s.len s.len).contents_eq hf.addr_lt, hf.contents]
  refine ⟨⟨?_, rfl, hf.len, [], ?_, ?_⟩, (ChangesAt.alloc ..).trans (ChangesAt.write ..) (.inl rfl)⟩
  · simp [Heap.copy, Heap.make]
  · rw [Heap.copy, hold, array_write_self (by simp [Heap.make])]
    simp [Heap.make, hf.len]
  · simp [Heap.make, hf.len]

/-- `append(s[:0], s[1:]...)` moves the elements to the front. -/
theorem shift [Inhabited α] (grow : Nat → Nat) {x : α} (hf : h.Front s (x :: xs)) :
    ∃ rest h', s.since 1 = some rest ∧
      h.appendAll grow { s with len := 0 } (h.contents rest) = (h', { s with len := xs.length }) ∧
      h'.Front { s with len := xs.length } xs ∧ h.ChangesAt s.addr h' := by
  obtain ⟨spare, harray, hcap⟩ := hf.array
  have hlen := hf.len
  have hrest : h.contents { s with off := s.off + 1, len := s.len - 1, cap := s.cap - 1 } = xs := by
    unfold Heap.contents
    dsimp only
    rw [harray, hf.off, hlen]
    simp
  refine ⟨_, h.write s.addr 0 xs, by rw [Slice.since, if_pos (by rw [hlen]; simp)], ?_, ?_, ChangesAt.write ..⟩
  · rw [hrest, Heap.appendAll, if_pos (by dsimp only; rw [hcap]; simp; omega)]
    simp [hf.off]
  · -- the last cell of the old elements becomes spare
    refine ⟨by simpa using hf.addr_lt, hf.off, rfl, (x :: xs).drop xs.length ++ spare, ?_, ?_⟩
    · rw [array_write_self hf.addr_lt, harray, List.take_zero, List.nil_append, Nat.zero_add,
        List.drop_append_of_le_length (by simp)]
    · simp only [List.length_append, List.length_drop, List.length_cons] at hcap ⊢
      omega

end Front

end Heap

end KynoMesh.Lib
