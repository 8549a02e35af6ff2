import KynoMesh.History.Sanitize
import KynoMesh.Lib.Loop
import KynoMesh.Lib.Slice

/-!
# `Sanitize` in place

`Sanitize` and `dedupByTimestamp` as the source writes them, on slices: a private copy of the history is sorted, cut
down and read while it is overwritten. They return what the functions on lists do, and leave every array that was there
before as it is.

* `Deduped`, `Deduped.step` : the copy in the middle of `dedupByTimestamp`, with the part that is written, the part that
  is spare and the part to be read;
* `Collected`, `Collected.step` : the same for the loop of `Sanitize`;
* `sanitize_refines` : the refinement;
* `sanitize_steady` : what `Sanitize` keeps of a history with one sample for each instant.
-/

namespace KynoMesh.History.InPlace

open KynoMesh.Lib

variable {F : Type}

/-- The zero `Sample`. -/
instance [Zero F] : Inhabited (Sample F) := ⟨⟨zeroTime, 0, 0, 0⟩⟩

section
variable [Zero F] (grow : Nat → Nat)

/-- One turn of the loop of `dedupByTimestamp`. -/
def dedupTurn (sorted : Slice) (c : Heap (Sample F) × Slice) (i : Nat) : Option (Heap (Sample F) × Slice) := do
  let (h, out) := c
  let s ← h.get sorted i
  let n := out.len
  let same ← if 0 < n then (h.get out (n - 1)).map fun last => decide (s.timestamp = last.timestamp) else some false
  if same then
    let h ← h.set out (n - 1) s
    return (h, out)
  else return h.append grow out s

def dedupByTimestamp (h : Heap (Sample F)) (sorted : Slice) : Option (Heap (Sample F) × Slice) := do
  let out ← sorted.reslice 0
  (List.range sorted.len).foldlM (dedupTurn grow sorted) (h, out)

/-- The state of the loop of `Sanitize`. -/
structure Scan (F : Type) where
  heap : Heap (Sample F)
  clean : Slice
  lastChange : Int
  prevReplicas : Int32

variable [LT F] [DecidableLT F] (math : GoMath F)

/-- One turn of the loop of `Sanitize`. -/
def scanTurn (sorted : Slice) (c : Scan F) (i : Nat) : Option (Scan F) := do
  let s ← c.heap.get sorted i
  let lastChange := if 0 < i ∧ s.replicas ≠ c.prevReplicas then s.timestamp else c.lastChange
  let c := { c with lastChange := lastChange, prevReplicas := s.replicas }
  if s.valid math = false then return c
  if lastChange ≠ zeroTime ∧ timeSub s.timestamp lastChange < warmupAfterScale then return c
  let (h, clean) := c.heap.append grow c.clean s
  return { c with heap := h, clean := clean }

def sanitize (byTime : SortSlice (Sample F) earlier) (h : Heap (Sample F)) (history : Slice) :
    Option (Heap (Sample F) × Slice) :=
  if history.len = 0 then some (h, .nil)
  else do
    let (h, sorted) := h.make history.len history.len
    let h := h.copy sorted history
    let h := h.permute sorted byTime.run
    let (h, sorted) ← dedupByTimestamp grow h sorted
    let (h, clean) := h.make 0 sorted.len
    let first ← h.get sorted 0
    let c ← (List.range sorted.len).foldlM (scanTurn grow math sorted) ⟨h, clean, zeroTime, first.replicas⟩
    return (c.heap, c.clean)

end

/-! ## Samples of one instant -/

section
variable {h₀ : Heap (Sample F)} {addr : Nat} {orig : List (Sample F)} {i : Nat} {c : Heap (Sample F) × Slice}

/-- The copy of the sorted samples `orig` at `addr`, when `i` of them are read. -/
structure Deduped (h₀ : Heap (Sample F)) (addr : Nat) (orig : List (Sample F)) (i : Nat) (c : Heap (Sample F) × Slice) :
    Prop where
  frame : h₀.Extends c.1
  addr_lt : addr < c.1.size
  out : c.2 = ⟨addr, 0, (History.dedupByTimestamp (orig.take i)).length, orig.length⟩
  /-- Cells that are read and not written again are between the written ones and those to be read. -/
  array : ∃ spare, c.1.array addr = History.dedupByTimestamp (orig.take i) ++ spare ++ orig.drop i ∧
    (History.dedupByTimestamp (orig.take i)).length + spare.length = i

/-- A cell is read before it is overwritten. -/
theorem Deduped.get (h : Deduped h₀ addr orig i c) (hi : i < orig.length) :
    c.1.get ⟨addr, 0, orig.length, orig.length⟩ i = some orig[i] := by
  obtain ⟨spare, harray, hlen⟩ := h.array
  unfold Heap.get Heap.contents
  rw [List.drop_zero, List.getElem?_take_of_lt hi, harray, List.getElem?_append_right (by simp; omega)]
  simp [hlen]

theorem Deduped.contents_out (h : Deduped h₀ addr orig i c) :
    c.1.contents c.2 = History.dedupByTimestamp (orig.take i) := by
  obtain ⟨spare, harray, -⟩ := h.array
  rw [List.append_assoc] at harray
  rw [h.out]
  exact Heap.contents_of_array harray

theorem Deduped.room (h : Deduped h₀ addr orig i c) (hi : i < orig.length) :
    (History.dedupByTimestamp (orig.take i)).length < orig.length := by
  obtain ⟨spare, -, hlen⟩ := h.array
  omega

theorem Deduped.replace (h : Deduped h₀ addr orig i c) (haddr : h₀.size ≤ addr) (hi : i < orig.length)
    {init : List (Sample F)} {last : Sample F} (hlast : History.dedupByTimestamp (orig.take i) = init ++ [last])
    (hput : History.dedupByTimestamp (orig.take (i + 1)) = init ++ [orig[i]]) :
    Deduped h₀ addr orig (i + 1) (c.1.write addr init.length [orig[i]], c.2) := by
  obtain ⟨spare, harray, hlen⟩ := h.array
  rw [hlast, List.append_assoc] at harray
  rw [hlast, List.length_append, List.length_singleton] at hlen
  refine ⟨h.frame.write haddr _ _, by simpa using h.addr_lt, ?_, spare ++ [orig[i]], ?_, ?_⟩
  · rw [h.out, hlast, hput]
    simp
  · rw [Heap.write_middle h.addr_lt harray [orig[i]] rfl, hput, List.drop_eq_getElem_cons hi]
    simp
  · rw [hput]
    simp
    omega

theorem Deduped.extend (h : Deduped h₀ addr orig i c) (haddr : h₀.size ≤ addr) (hi : i < orig.length)
    (hput : History.dedupByTimestamp (orig.take (i + 1)) = History.dedupByTimestamp (orig.take i) ++ [orig[i]]) :
    Deduped h₀ addr orig (i + 1)
      (c.1.write addr (History.dedupByTimestamp (orig.take i)).length [orig[i]],
        ⟨addr, 0, (History.dedupByTimestamp (orig.take i)).length + 1, orig.length⟩) := by
  obtain ⟨spare, harray, hlen⟩ := h.array
  -- the next cell is the first spare one, or the one just read
  obtain ⟨x, spare', hx⟩ : ∃ x spare', spare ++ [orig[i]] = x :: spare' :=
    List.exists_cons_of_ne_nil (List.append_ne_nil_of_right_ne_nil spare (List.cons_ne_nil _ _))
  have hlen' := congrArg List.length hx
  simp only [List.length_append, List.length_cons, List.length_nil] at hlen'
  have hcells : c.1.array addr = History.dedupByTimestamp (orig.take i) ++ [x] ++ (spare' ++ orig.drop (i + 1)) := by
    rw [harray, List.drop_eq_getElem_cons hi]
    simp only [List.append_assoc, List.singleton_append]
    rw [← List.cons_append, ← hx]
    simp
  refine ⟨h.frame.write haddr _ _, by simpa using h.addr_lt, ?_, spare', ?_, ?_⟩
  · rw [hput, List.length_append, List.length_singleton]
  · rw [Heap.write_middle h.addr_lt hcells [orig[i]] rfl, hput]
    simp
  · rw [hput]
    simp
    omega

theorem Deduped.step [Zero F] (grow : Nat → Nat) (h : Deduped h₀ addr orig i c) (haddr : h₀.size ≤ addr)
    (hi : i < orig.length) :
    ∃ c', dedupTurn grow ⟨addr, 0, orig.length, orig.length⟩ c i = some c' ∧ Deduped h₀ addr orig (i + 1) c' := by
  have hput : History.dedupByTimestamp (orig.take (i + 1)) = put (History.dedupByTimestamp (orig.take i)) orig[i] := by
    rw [List.take_add_one, List.getElem?_eq_getElem hi, Option.toList_some, dedupByTimestamp_concat]
  have hout : c.2.len = (History.dedupByTimestamp (orig.take i)).length := by rw [h.out]
  have happend : c.1.append grow c.2 orig[i] =
      (c.1.write addr (History.dedupByTimestamp (orig.take i)).length [orig[i]],
        ⟨addr, 0, (History.dedupByTimestamp (orig.take i)).length + 1, orig.length⟩) := by
    rw [h.out]
    exact Heap.append_of_lt grow c.1 (h.room hi) orig[i]
  unfold dedupTurn
  dsimp only
  rw [h.get hi, Option.bind_eq_bind, Option.bind_some]
  rcases List.eq_nil_or_concat' (History.dedupByTimestamp (orig.take i)) with hnil | ⟨init, last, hlast⟩
  · -- the first sample
    rw [hout, hnil]
    refine ⟨_, ?_, h.extend haddr hi (by rw [hput]; exact put_of_ne (by simp [hnil]))⟩
    rw [← happend]
    rfl
  · have hlen : c.2.len = init.length + 1 := by rw [hout, hlast]; simp
    have hget : c.1.get c.2 (c.2.len - 1) = some last := by
      unfold Heap.get
      rw [h.contents_out, hlast, hlen]
      simp
    rw [if_pos (by omega), hget]
    by_cases hsame : orig[i].timestamp = last.timestamp
    · refine ⟨_, ?_, h.replace haddr hi hlast (by rw [hput, hlast]; exact put_of_eq hsame)⟩
      have hset : c.1.set c.2 (c.2.len - 1) orig[i] = some (c.1.write addr init.length [orig[i]]) := by
        unfold Heap.set
        rw [if_pos (by omega), hlen, h.out]
        simp
      simp [hsame, hset]
    · refine ⟨_, ?_, h.extend haddr hi (by rw [hput]; exact put_of_ne (by simp [hlast, hsame]))⟩
      rw [← happend]
      simp [hsame]

theorem exists_dedupByTimestamp [Zero F] (grow : Nat → Nat) {h : Heap (Sample F)} (hext : h₀.Extends h)
    (haddr : h₀.size ≤ addr) (hlt : addr < h.size) (harray : h.array addr = orig) :
    ∃ c, dedupByTimestamp grow h ⟨addr, 0, orig.length, orig.length⟩ = some c ∧
      h₀.Extends c.1 ∧ addr < c.1.size ∧ c.1.contents c.2 = History.dedupByTimestamp orig ∧
      c.2 = ⟨addr, 0, (History.dedupByTimestamp orig).length, orig.length⟩ := by
  have hstart : Deduped h₀ addr orig 0 (h, ⟨addr, 0, 0, orig.length⟩) := ⟨hext, hlt, rfl, [], harray, rfl⟩
  obtain ⟨c, hc, hfinal⟩ := exists_foldlM_range (n := orig.length) hstart fun i hi c hc => hc.step grow haddr hi
  refine ⟨c, hc, hfinal.frame, hfinal.addr_lt, ?_, ?_⟩
  · rw [hfinal.contents_out, List.take_length]
  · rw [hfinal.out, List.take_length]

end

/-! ## The scan -/

section
variable [Zero F] [LT F] [DecidableLT F] {math : GoMath F} {h₀ : Heap (Sample F)} {addr : Nat} {sorted : Slice}
  {l : List (Sample F)} {first : Sample F} {i : Nat} {c : Scan F}

/-- The scan of the list model, after `i` samples. -/
def scanned (math : GoMath F) (first : Sample F) (l : List (Sample F)) (i : Nat) : WarmupScan F :=
  (l.take i).foldl (scanSample math) { prevReplicas := first.replicas }

theorem scanned_succ (math : GoMath F) (first : Sample F) (hi : i < l.length) :
    scanned math first l (i + 1) = scanSample math (scanned math first l i) l[i] := by
  unfold scanned
  rw [List.take_add_one, List.getElem?_eq_getElem hi, Option.toList_some, List.foldl_append]
  rfl

/-- A sample is kept when it is valid and no change of the replica count is near. -/
theorem clean_scanned_succ (math : GoMath F) (first : Sample F) (hi : i < l.length) :
    (scanned math first l (i + 1)).clean =
      if l[i].valid math = true ∧ ¬((scanned math first l (i + 1)).lastChange ≠ zeroTime ∧
        timeSub l[i].timestamp (scanned math first l (i + 1)).lastChange < warmupAfterScale)
      then (scanned math first l i).clean ++ [l[i]] else (scanned math first l i).clean := by
  rw [scanned_succ math first hi]
  rfl

/-- The slice `clean` at `addr`, when `i` of the samples `l` are read. -/
structure Collected (math : GoMath F) (h₀ : Heap (Sample F)) (addr : Nat) (sorted : Slice) (l : List (Sample F))
    (first : Sample F) (i : Nat) (c : Scan F) : Prop where
  frame : h₀.Extends c.heap
  addr_lt : addr < c.heap.size
  sorted : c.heap.contents sorted = l
  lastChange : c.lastChange = (scanned math first l i).lastChange
  prevReplicas : c.prevReplicas = (scanned math first l i).prevReplicas
  clean : c.clean = ⟨addr, 0, (scanned math first l i).clean.length, l.length⟩
  /-- No more are kept than are read. -/
  array : ∃ room, c.heap.array addr = (scanned math first l i).clean ++ room ∧
    (scanned math first l i).clean.length + room.length = l.length ∧ l.length - i ≤ room.length

theorem Collected.skip (h : Collected math h₀ addr sorted l first i c)
    (hclean : (scanned math first l (i + 1)).clean = (scanned math first l i).clean) :
    Collected math h₀ addr sorted l first (i + 1)
      { c with lastChange := (scanned math first l (i + 1)).lastChange
               prevReplicas := (scanned math first l (i + 1)).prevReplicas } := by
  obtain ⟨room, harray, hlen, hroom⟩ := h.array
  refine ⟨h.frame, h.addr_lt, h.sorted, rfl, rfl, ?_, room, ?_, ?_, by omega⟩
  · rw [hclean]
    exact h.clean
  · rw [hclean]
    exact harray
  · rw [hclean]
    exact hlen

theorem Collected.keep (h : Collected math h₀ addr sorted l first i c) (haddr : h₀.size ≤ addr)
    (hsorted : sorted.addr ≠ addr) (hi : i < l.length)
    (hclean : (scanned math first l (i + 1)).clean = (scanned math first l i).clean ++ [l[i]]) :
    Collected math h₀ addr sorted l first (i + 1)
      { heap := c.heap.write addr (scanned math first l i).clean.length [l[i]]
        clean := ⟨addr, 0, (scanned math first l i).clean.length + 1, l.length⟩
        lastChange := (scanned math first l (i + 1)).lastChange
        prevReplicas := (scanned math first l (i + 1)).prevReplicas } := by
  obtain ⟨room, harray, hlen, hroom⟩ := h.array
  obtain ⟨x, room', rfl⟩ : ∃ x room', room = x :: room' := List.exists_cons_of_length_pos (by omega)
  rw [List.length_cons] at hlen hroom
  refine ⟨h.frame.write haddr _ _, by simpa using h.addr_lt, ?_, rfl, rfl, ?_, room', ?_, ?_, by omega⟩
  · exact (Heap.contents_write_of_ne hsorted.symm _ _).trans h.sorted
  · rw [hclean, List.length_append, List.length_singleton]
  · have hcells : c.heap.array addr = (scanned math first l i).clean ++ [x] ++ room' := by simp [harray]
    rw [Heap.write_middle h.addr_lt hcells [l[i]] rfl, hclean]
  · rw [hclean, List.length_append, List.length_singleton]
    omega

theorem Collected.changed_iff (h : Collected math h₀ addr sorted l first i c) (hfirst : l.head? = some first)
    (hi : i < l.length) :
    (0 < i ∧ l[i].replicas ≠ c.prevReplicas) ↔ l[i].replicas ≠ (scanned math first l i).prevReplicas := by
  rw [h.prevReplicas]
  cases i with
  | zero =>
    obtain ⟨l, rfl⟩ := List.head?_eq_some_iff.mp hfirst
    simp [scanned]
  | succ i => simp

theorem Collected.step (grow : Nat → Nat) (h : Collected math h₀ addr sorted l first i c) (haddr : h₀.size ≤ addr)
    (hsorted : sorted.addr ≠ addr) (hfirst : l.head? = some first) (hi : i < l.length) :
    ∃ c', scanTurn grow math sorted c i = some c' ∧ Collected math h₀ addr sorted l first (i + 1) c' := by
  have hsucc := scanned_succ math first hi
  have hlast : (if 0 < i ∧ l[i].replicas ≠ c.prevReplicas then l[i].timestamp else c.lastChange) =
      (scanned math first l (i + 1)).lastChange := by
    rw [hsucc, h.lastChange]
    unfold scanSample
    simp only [h.changed_iff hfirst hi]
  have hprev : l[i].replicas = (scanned math first l (i + 1)).prevReplicas := by
    rw [hsucc]
    rfl
  have hclean := clean_scanned_succ math first hi
  unfold scanTurn
  rw [Heap.get_of_contents h.sorted hi, Option.bind_eq_bind, Option.bind_some]
  dsimp only
  rw [hlast]
  by_cases hvalid : l[i].valid math = false
  · rw [if_pos hvalid]
    refine ⟨_, rfl, ?_⟩
    rw [hprev]
    exact h.skip (hclean.trans (if_neg (by simp [hvalid])))
  · rw [if_neg hvalid]
    by_cases hwarm : (scanned math first l (i + 1)).lastChange ≠ zeroTime ∧
        timeSub l[i].timestamp (scanned math first l (i + 1)).lastChange < warmupAfterScale
    · rw [if_pos hwarm]
      refine ⟨_, rfl, ?_⟩
      rw [hprev]
      exact h.skip (hclean.trans (if_neg fun hk => hk.2 hwarm))
    · rw [if_neg hwarm]
      have hroom : (scanned math first l i).clean.length < l.length := by
        obtain ⟨room, -, hlen, hroom⟩ := h.array
        omega
      rw [h.clean, Heap.append_of_lt grow c.heap hroom]
      refine ⟨_, rfl, ?_⟩
      dsimp only
      rw [hprev]
      exact h.keep haddr hsorted hi (hclean.trans (if_pos ⟨by simpa using hvalid, hwarm⟩))

/-- The loop of `Sanitize` on the sorted samples, from a new slice on. -/
theorem exists_scan (math : GoMath F) (grow : Nat → Nat) {h : Heap (Sample F)} (hext : h₀.Extends h)
    (hlt : sorted.addr < h.size) (hsorted : h.contents sorted = l) (hfirst : l.head? = some first) :
    ∃ c, (List.range l.length).foldlM (scanTurn grow math sorted)
        ⟨(h.make 0 l.length).1, (h.make 0 l.length).2, zeroTime, first.replicas⟩ = some c ∧
      h₀.Extends c.heap ∧ c.heap.contents c.clean = (scanned math first l l.length).clean := by
  have hmake := (Heap.Extends.refl h).make 0 l.length
  have hstart : Collected math h₀ h.size sorted l first 0
      ⟨(h.make 0 l.length).1, (h.make 0 l.length).2, zeroTime, first.replicas⟩ := by
    refine ⟨hext.trans hmake, by simp [Heap.make], ?_, rfl, rfl, rfl, List.replicate l.length default, ?_, ?_, ?_⟩
    · exact (hmake.contents_eq hlt).trans hsorted
    · exact Heap.array_alloc_self h _
    · simp [scanned]
    · simp
  obtain ⟨c, hc, hfinal⟩ := exists_foldlM_range (n := l.length) hstart fun i hi c hc =>
    hc.step grow hext.size_le hlt.ne hfirst hi
  refine ⟨c, hc, hfinal.frame, ?_⟩
  obtain ⟨room, harray, -, -⟩ := hfinal.array
  rw [hfinal.clean]
  exact Heap.contents_of_array harray

omit [LT F] [DecidableLT F] in
theorem sorted_copy (byTime : SortSlice (Sample F) earlier) {h : Heap (Sample F)} {history : Slice}
    (hvalid : h.Valid history) (hpos : 0 < history.len) {h' : Heap (Sample F)}
    (hh' : h' = ((h.make history.len history.len).1.copy ⟨h.size, 0, history.len, history.len⟩ history).permute
      ⟨h.size, 0, history.len, history.len⟩ byTime.run) :
    h.Extends h' ∧ h.size < h'.size ∧ h'.array h.size = byTime.run (h.contents history) := by
  have hlen := Heap.length_contents hvalid
  have hmake := (Heap.Extends.refl h).make history.len history.len
  have hlt : h.size < (h.make history.len history.len).1.size := by simp [Heap.make]
  -- the copy
  have hcells : (h.make history.len history.len).1.array h.size =
      [] ++ List.replicate history.len (default : Sample F) ++ [] := by
    rw [List.nil_append, List.append_nil]
    exact Heap.array_alloc_self h _
  have hcopy : ((h.make history.len history.len).1.copy ⟨h.size, 0, history.len, history.len⟩ history).array h.size =
      [] ++ h.contents history ++ [] := by
    unfold Heap.copy
    rw [hmake.contents_eq (hvalid.addr_lt hpos), List.take_of_length_le hlen.le]
    exact Heap.write_middle hlt hcells _ (by simp [hlen])
  -- the sort
  have hshown : ((h.make history.len history.len).1.copy ⟨h.size, 0, history.len, history.len⟩ history).contents
      ⟨h.size, 0, history.len, history.len⟩ = h.contents history := by
    unfold Heap.contents
    rw [List.drop_zero, hcopy, List.nil_append, List.append_nil, List.take_of_length_le hlen.le]
    rfl
  have hsort := Heap.write_middle (by simpa [Heap.copy] using hlt) hcopy (byTime.run (h.contents history))
    (byTime.perm _).length_eq
  rw [List.nil_append, List.append_nil] at hsort
  subst hh'
  unfold Heap.permute
  rw [hshown]
  exact ⟨(hmake.write le_rfl _ _).write le_rfl _ _, by simpa [Heap.copy] using hlt, hsort⟩

/-- **The refinement.** `Sanitize` returns a slice with what the function on lists gives, and every array that was there
before is as it was. -/
theorem sanitize_refines (grow : Nat → Nat) (math : GoMath F) (byTime : SortSlice (Sample F) earlier)
    {h : Heap (Sample F)} {history : Slice} (hvalid : h.Valid history) :
    ∃ h' out, sanitize grow math byTime h history = some (h', out) ∧
      h'.contents out = History.sanitize math byTime (h.contents history) ∧ h.Extends h' := by
  have hlen := Heap.length_contents hvalid
  unfold sanitize
  by_cases hzero : history.len = 0
  · have hnil : h.contents history = [] := List.eq_nil_of_length_eq_zero (hlen.trans hzero)
    refine ⟨h, .nil, if_pos hzero, ?_, .refl h⟩
    have hrun : byTime.run [] = [] := (byTime.perm []).eq_nil
    rw [hnil, History.sanitize, hrun]
    rfl
  · rw [if_neg hzero]
    have hpos : 0 < history.len := Nat.pos_of_ne_zero hzero
    obtain ⟨hext, hlt, harray⟩ := sorted_copy byTime hvalid hpos rfl
    have hrunlen : (byTime.run (h.contents history)).length = history.len := (byTime.perm _).length_eq.trans hlen
    obtain ⟨⟨h₂, sorted⟩, hdedup, hext₂, hlt₂, hcontents, hsorted⟩ := exists_dedupByTimestamp grow hext le_rfl hlt harray
    rw [hrunlen] at hdedup
    -- there is a first sample
    obtain ⟨first, rest, hcons⟩ : ∃ first rest,
        History.dedupByTimestamp (byTime.run (h.contents history)) = first :: rest := by
      refine List.exists_cons_of_ne_nil fun hnil => ?_
      have hlast := getLast?_dedupByTimestamp (byTime.run (h.contents history))
      rw [hnil, List.getLast?_nil, eq_comm, List.getLast?_eq_none_iff] at hlast
      rw [hlast, List.length_nil] at hrunlen
      omega
    rw [hcons] at hcontents hsorted
    dsimp only at hext₂ hlt₂ hcontents hsorted
    have haddr : sorted.addr < h₂.size := by
      rw [hsorted]
      exact hlt₂
    have hsortedlen : sorted.len = (first :: rest).length := by rw [hsorted]
    have hmake := (Heap.Extends.refl h₂).make 0 (first :: rest).length
    have hfirst : (h₂.make 0 (first :: rest).length).1.get sorted 0 = some first :=
      Heap.get_of_contents ((hmake.contents_eq haddr).trans hcontents) (Nat.zero_lt_succ _)
    obtain ⟨c, hscan, hext₃, hclean⟩ := exists_scan math grow hext₂ haddr hcontents (List.head?_cons (a := first))
    refine ⟨c.heap, c.clean, ?_, ?_, hext₃⟩
    · refine (congrArg (Option.bind · _) hdedup).trans ?_
      rw [Option.bind_some]
      dsimp only
      rw [hsortedlen, hfirst, Option.bind_eq_bind, Option.bind_some, Option.bind_eq_bind, hscan]
      rfl
    · rw [hclean, scanned, List.take_length, History.sanitize, hcons]

/-- **What `Sanitize` keeps of a history with one sample for each instant**: the valid samples of the times without a
change of the replica count in the minute before, in ascending order. The order of the history does not matter, and its
slice still shows it afterwards. -/
theorem sanitize_steady (grow : Nat → Nat) (math : GoMath F) (byTime : SortSlice (Sample F) earlier)
    {l : List (Sample F)} (hdistinct : l.Pairwise fun a b => a.timestamp ≠ b.timestamp)
    (hzero : ∀ s ∈ l, s.timestamp ≠ zeroTime) :
    ((History.sanitize math byTime l).Pairwise fun a b => a.timestamp < b.timestamp) ∧
    (∀ s, s ∈ History.sanitize math byTime l ↔ s ∈ l ∧ s.valid math = true ∧ Settled l s) ∧
    (∀ (byTime' : SortSlice (Sample F) earlier) (l' : List (Sample F)), l'.Perm l →
      History.sanitize math byTime' l' = History.sanitize math byTime l) ∧
    ∀ (h : Heap (Sample F)) (history : Slice), h.Valid history → h.contents history = l →
      ∃ h' out, sanitize grow math byTime h history = some (h', out) ∧
        h'.contents out = History.sanitize math byTime l ∧ h'.contents history = l ∧ h.Extends h' := by
  refine ⟨sanitize_ascending math byTime hdistinct hzero, mem_sanitize math byTime hdistinct hzero,
    fun byTime' l' hperm => sanitize_perm math byTime byTime' hdistinct hperm, ?_⟩
  rintro h history hvalid rfl
  obtain ⟨h', out, heq, hout, hext⟩ := sanitize_refines grow math byTime hvalid
  refine ⟨h', out, heq, hout, ?_, hext⟩
  rcases Nat.eq_zero_or_pos history.len with hlen | hpos
  · simp [Heap.contents, hlen]
  · exact hext.contents_eq (hvalid.addr_lt hpos)

end

/-- Whole numbers for the loads. -/
def intMath : GoMath Int where
  isNaN _ := false
  ceilInt32 := Int32.ofInt
  truncInt := id
  exp _ := 1
  ln2 := 1

/-- A fleet that grows from one replica to two, as seen at 100, 130 and 200 seconds. -/
def growing : List (Sample Int) := [⟨200 * second, 2, 5, 5⟩, ⟨100 * second, 1, 5, 5⟩, ⟨130 * second, 2, 5, 5⟩]

/-- The reading at 130 seconds is the change itself; at 200 seconds the minute is over. -/
theorem sanitize_steady_growing :
    History.sanitize intMath (SortSlice.insertion Sample.timestamp) growing =
        [⟨100 * second, 1, 5, 5⟩, ⟨200 * second, 2, 5, 5⟩] ∧
      Settled growing ⟨200 * second, 2, 5, 5⟩ ∧ ¬Settled growing ⟨130 * second, 2, 5, 5⟩ := by
  have hclean : History.sanitize intMath (SortSlice.insertion Sample.timestamp) growing =
      [⟨100 * second, 1, 5, 5⟩, ⟨200 * second, 2, 5, 5⟩] := by decide
  obtain ⟨-, hmem, -, -⟩ := sanitize_steady id intMath (SortSlice.insertion Sample.timestamp) (l := growing) (by decide)
    (by decide)
  rw [hclean] at hmem
  refine ⟨hclean, ((hmem _).mp (by decide)).2.2, fun hsettled => ?_⟩
  exact absurd ((hmem ⟨130 * second, 2, 5, 5⟩).mpr ⟨by decide, by decide, hsettled⟩) (by decide)

end KynoMesh.History.InPlace
