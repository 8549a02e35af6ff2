import Mathlib.Data.List.DropRight
import Mathlib.Data.List.Nodup
import KynoMesh.Lib.Retention
import KynoMesh.Lib.Slice
import KynoMesh.Lib.Transition

/-!
# The overflow queue

`shared/queue/overflow_queue.go`: a bounded queue that drops its oldest elements. `Append` shifts the elements within
their array; `Items` hands out copies. The queue is behind a lock, so that its operations do not overlap.

* `append`, `items` : the operations, on slices over a heap;
* `step` : a queue and the copies that callers hold, which they may write to;
* `Bounded` : the abstract queue: the last `n` values, and copies that are values of their own;
* `Apart` : the queue's array has its elements in front, and no copy shares an array;
* `view_run`, `items_run` : the refinement, and the closed form of the abstract queue; `queue_refines` : both, for every
  sequence of operations.
-/

namespace KynoMesh.Queue

open KynoMesh.Lib

variable {α : Type}

/-! ## The queue on slices -/

structure OverflowQueue where
  elements : Slice
  maxSize : Int

def new (h : Heap α) (size : Int) : Heap α × OverflowQueue := (h.alloc [], ⟨⟨h.size, 0, 0, 0⟩, size⟩)

section
variable [Inhabited α] (grow : Nat → Nat)

/-- The oldest element makes room: `append(q.elements[:0], q.elements[1:]...)`. -/
def shift (h : Heap α) (elements : Slice) : Option (Heap α × Slice) := do
  let front ← elements.reslice 0
  let rest ← elements.since 1
  return h.appendAll grow front (h.contents rest)

/-- The first statement of `Append`. -/
def makeRoom (h : Heap α) (q : OverflowQueue) : Option (Heap α × Slice) :=
  if (q.elements.len : Int) ≥ q.maxSize then shift grow h q.elements else some (h, q.elements)

/-- `Append`; `none` when it panics. -/
def append (h : Heap α) (q : OverflowQueue) (value : α) : Option (Heap α × OverflowQueue) := do
  let (h, elements) ← makeRoom grow h q
  let (h, elements) := h.append grow elements value
  return (h, { q with elements := elements })

/-- `Items`: a copy. -/
def items (h : Heap α) (q : OverflowQueue) : Heap α × Slice :=
  let (h, r) := h.make q.elements.len q.elements.len
  (h.copy r q.elements, r)

end

/-! ## The queue and its callers -/

structure State (α : Type) where
  heap : Heap α
  queue : OverflowQueue
  /-- The results of `Items`. -/
  copies : List Slice := []

inductive Event (α : Type) where
  | append (value : α)
  | items
  /-- A caller writes to the copy `i`. -/
  | write (i k : Nat) (value : α)

def start (size : Int) : State α :=
  let (h, q) := new (⟨[]⟩ : Heap α) size
  { heap := h, queue := q }

def step [Inhabited α] (grow : Nat → Nat) (s : State α) : Event α → Option (State α)
  | .append value => do
    let (h, q) ← append grow s.heap s.queue value
    return { s with heap := h, queue := q }
  | .items =>
    let (h, r) := items s.heap s.queue
    some { s with heap := h, copies := s.copies ++ [r] }
  | .write i k value => do
    let r ← s.copies[i]?
    let h ← s.heap.set r k value
    return { s with heap := h }

/-! ## The abstract queue -/

structure Bounded (α : Type) where
  items : List α := []
  copies : List (List α) := []

def Bounded.step (n : Nat) (b : Bounded α) : Event α → Option (Bounded α)
  | .append value => some { b with items := (b.items ++ [value]).rtake n }
  | .items => some { b with copies := b.copies ++ [b.items] }
  | .write i k value => do
    let r ← b.copies[i]?
    if k < r.length then return { b with copies := b.copies.set i (r.set k value) } else none

/-- What a state shows. -/
def view (s : State α) : Bounded α := ⟨s.heap.contents s.queue.elements, s.copies.map s.heap.contents⟩

/-! ## No two slices share an array -/

/-- The queue and the copies are the fronts of arrays of their own. -/
structure Apart (n : Nat) (s : State α) : Prop where
  maxSize : s.queue.maxSize = n
  queue : s.heap.Front s.queue.elements (s.heap.contents s.queue.elements)
  length_le : (s.heap.contents s.queue.elements).length ≤ n
  copies : ∀ r ∈ s.copies, s.heap.Front r (s.heap.contents r)
  nodup : (s.queue.elements.addr :: s.copies.map Slice.addr).Nodup

variable {n : Nat} {s : State α}

/-- The copies survive a change of the queue's array. -/
theorem Apart.of_queue (hs : Apart n s) {h : Heap α} {elements : Slice} {xs : List α}
    (hc : s.heap.ChangesAt s.queue.elements.addr h) (hf : h.Front elements xs) (hlen : xs.length ≤ n)
    (haddr : elements.addr = s.queue.elements.addr ∨ s.heap.size ≤ elements.addr) :
    Apart n { s with heap := h, queue := { s.queue with elements := elements } } ∧
      view { s with heap := h, queue := { s.queue with elements := elements } } = ⟨xs, (view s).copies⟩ := by
  have hnodup := List.nodup_cons.mp hs.nodup
  have hkeep : ∀ r ∈ s.copies, h.contents r = s.heap.contents r ∧ h.Front r (s.heap.contents r) := by
    intro r hr
    have hne : r.addr ≠ s.queue.elements.addr := fun heq => hnodup.1 (heq ▸ List.mem_map_of_mem hr)
    exact ⟨hc.contents_eq (hs.copies r hr).addr_lt hne, (hs.copies r hr).of_changesAt hc hne⟩
  refine ⟨⟨hs.maxSize, hf.contents.symm ▸ hf, hf.contents.symm ▸ hlen, fun r hr => ?_, ?_⟩, ?_⟩
  · rw [(hkeep r hr).1]
    exact (hkeep r hr).2
  · refine List.nodup_cons.mpr ⟨fun hmem => ?_, hnodup.2⟩
    rcases haddr with heq | hle
    · exact hnodup.1 (heq ▸ hmem)
    · obtain ⟨r, hr, hra⟩ := List.mem_map.mp hmem
      have hlt := (hs.copies r hr).addr_lt
      have hle' : s.heap.size ≤ r.addr := hra ▸ hle
      omega
  · rw [view, view, hf.contents]
    congr 1
    exact List.map_congr_left fun r hr => (hkeep r hr).1

theorem Apart.of_copy (hs : Apart n s) {h : Heap α} {r : Slice} {xs : List α} (hc : s.heap.ChangesAt s.heap.size h)
    (hf : h.Front r xs) (haddr : r.addr = s.heap.size) :
    Apart n { s with heap := h, copies := s.copies ++ [r] } ∧
      view { s with heap := h, copies := s.copies ++ [r] } = ⟨(view s).items, (view s).copies ++ [xs]⟩ := by
  have hqueue : s.queue.elements.addr ≠ s.heap.size := hs.queue.addr_lt.ne
  have hcopies : ∀ r ∈ s.copies, r.addr ≠ s.heap.size := fun r hr => (hs.copies r hr).addr_lt.ne
  have hsame : h.contents s.queue.elements = s.heap.contents s.queue.elements :=
    hc.contents_eq hs.queue.addr_lt hqueue
  have hkeep : ∀ r ∈ s.copies, h.contents r = s.heap.contents r := fun r hr =>
    hc.contents_eq (hs.copies r hr).addr_lt (hcopies r hr)
  refine ⟨⟨hs.maxSize, ?_, ?_, ?_, ?_⟩, ?_⟩
  · rw [hsame]
    exact hs.queue.of_changesAt hc hqueue
  · rw [hsame]
    exact hs.length_le
  · intro r' hr'
    rcases List.mem_append.mp hr' with hr' | hr'
    · rw [hkeep r' hr']
      exact (hs.copies r' hr').of_changesAt hc (hcopies r' hr')
    · rw [List.mem_singleton.mp hr', hf.contents]
      exact hf
  · -- no slice had this address
    rw [List.map_append, ← List.cons_append, List.nodup_append]
    refine ⟨hs.nodup, List.nodup_singleton _, ?_⟩
    rintro a ha b hb rfl
    rw [List.map_singleton, List.mem_singleton, haddr] at hb
    rcases List.mem_cons.mp ha with rfl | ha
    · exact hqueue hb
    · obtain ⟨r', hr', hra⟩ := List.mem_map.mp ha
      exact hcopies r' hr' (hra.trans hb)
  · rw [view, view, hsame, List.map_append, List.map_singleton, hf.contents]
    congr 2
    exact List.map_congr_left hkeep

theorem Apart.of_write (hs : Apart n s) {i k : Nat} {r : Slice} (hr : s.copies[i]? = some r)
    (hk : k < (s.heap.contents r).length) (v : α) :
    Apart n { s with heap := s.heap.write r.addr k [v] } ∧
      view { s with heap := s.heap.write r.addr k [v] } =
        ⟨(view s).items, (view s).copies.set i ((s.heap.contents r).set k v)⟩ := by
  have hmem := List.mem_of_getElem? hr
  have hnodup := List.nodup_cons.mp hs.nodup
  have hf := ((hs.copies r hmem).set hk v).2
  have hc : s.heap.ChangesAt r.addr (s.heap.write r.addr k [v]) := Heap.ChangesAt.write ..
  have hqueue : s.queue.elements.addr ≠ r.addr := fun heq => hnodup.1 (heq ▸ List.mem_map_of_mem hmem)
  have hsame : (s.heap.write r.addr k [v]).contents s.queue.elements = s.heap.contents s.queue.elements :=
    hc.contents_eq hs.queue.addr_lt hqueue
  -- copies at other places of the list are in other arrays
  have hother : ∀ j r', s.copies[j]? = some r' → j ≠ i → r'.addr ≠ r.addr := by
    intro j r' hr' hne heq
    have hlt : j < (s.copies.map Slice.addr).length := by
      rw [List.length_map]
      exact (List.getElem?_eq_some_iff.mp hr').1
    refine hne ((List.getElem?_inj hlt hnodup.2).mp ?_)
    rw [List.getElem?_map, List.getElem?_map, hr, hr', Option.map_some, Option.map_some, heq]
  have hkeep : ∀ j r', s.copies[j]? = some r' → (s.heap.write r.addr k [v]).contents r' =
      if j = i then (s.heap.contents r).set k v else s.heap.contents r' := by
    intro j r' hr'
    split_ifs with hji
    · subst hji
      obtain rfl := Option.some.inj (hr.symm.trans hr')
      exact hf.contents
    · exact hc.contents_eq (hs.copies r' (List.mem_of_getElem? hr')).addr_lt (hother j r' hr' hji)
  refine ⟨⟨hs.maxSize, ?_, ?_, ?_, hs.nodup⟩, ?_⟩
  · rw [hsame]
    exact hs.queue.of_changesAt hc hqueue
  · rw [hsame]
    exact hs.length_le
  · intro r' hr'
    obtain ⟨j, hj⟩ := List.mem_iff_getElem?.mp hr'
    rw [hkeep j r' hj]
    split_ifs with hji
    · subst hji
      obtain rfl := Option.some.inj (hr.symm.trans hj)
      exact hf
    · exact (hs.copies r' hr').of_changesAt hc (hother j r' hj hji)
  · rw [view, hsame]
    congr 1
    refine List.ext_getElem? fun j => ?_
    rw [List.getElem?_set, List.getElem?_map]
    cases hj : s.copies[j]? with
    | none =>
      have hne : i ≠ j := by
        rintro rfl
        rw [hr] at hj
        cases hj
      rw [if_neg hne, view, List.getElem?_map, hj]
      rfl
    | some r' =>
      have hlt : i < (view s).copies.length := by
        rw [view, List.length_map]
        exact (List.getElem?_eq_some_iff.mp hr).1
      rw [Option.map_some, hkeep j r' hj, if_pos hlt]
      by_cases hji : j = i
      · rw [if_pos hji, if_pos hji.symm]
      · rw [if_neg hji, if_neg (Ne.symm hji), view, List.getElem?_map, hj]
        rfl

/-! ## The operations -/

section
variable [Inhabited α] (grow : Nat → Nat)

/-- There is room for one more element, after a shift if the queue is full. -/
theorem Apart.makeRoom (hs : Apart n s) (hn : 1 ≤ n) :
    ∃ h elements xs, Queue.makeRoom grow s.heap s.queue = some (h, elements) ∧ h.Front elements xs ∧
      s.heap.ChangesAt s.queue.elements.addr h ∧ elements.addr = s.queue.elements.addr ∧
      ∀ v, xs ++ [v] = (s.heap.contents s.queue.elements ++ [v]).rtake n := by
  have hlen := hs.queue.len
  have hmax := hs.maxSize
  have hle := hs.length_le
  by_cases hfull : (s.queue.elements.len : Int) ≥ s.queue.maxSize
  · obtain ⟨x, xs, hxs⟩ := List.exists_cons_of_length_pos
      (show 0 < (s.heap.contents s.queue.elements).length by omega)
    have hfront := hs.queue
    rw [hxs] at hfront hlen hle
    obtain ⟨rest, h, hrest, happ, hf, hc⟩ := hfront.shift grow
    refine ⟨h, _, xs, ?_, hf, hc, rfl, fun v => ?_⟩
    · rw [Queue.makeRoom, if_pos hfull, shift, Slice.reslice, if_pos (Nat.zero_le _), hrest]
      exact congrArg some happ
    · simp only [List.length_cons] at hlen hle
      rw [hxs, List.rtake, show (x :: xs ++ [v]).length - n = 1 by simp; omega]
      rfl
  · refine ⟨s.heap, s.queue.elements, _, if_neg hfull, hs.queue, ⟨le_rfl, fun _ _ _ => rfl⟩, rfl, fun v => ?_⟩
    rw [List.rtake, show (s.heap.contents s.queue.elements ++ [v]).length - n = 0 by simp; omega, List.drop_zero]

theorem Apart.append (hs : Apart n s) (hn : 1 ≤ n) (v : α) :
    ∃ s', step grow s (.append v) = some s' ∧ Apart n s' ∧ Bounded.step n (view s) (.append v) = some (view s') := by
  obtain ⟨h, elements, xs, hroom, hf, hc, haddr, hitems⟩ := hs.makeRoom grow hn
  obtain ⟨hf', hc', haddr'⟩ := hf.append grow v
  have hlen : (xs ++ [v]).length ≤ n := by
    rw [hitems v, List.rtake, List.length_drop]
    omega
  obtain ⟨hapart, hview⟩ := hs.of_queue (hc.trans hc' (.inl haddr)) hf' hlen (by
    rcases haddr' with heq | heq
    · exact .inl (heq.trans haddr)
    · exact .inr (heq ▸ hc.size_le))
  refine ⟨_, ?_, hapart, ?_⟩
  · rw [step, Queue.append, hroom]
    rfl
  · rw [hview, hitems v]
    rfl

theorem Apart.items (hs : Apart n s) :
    ∃ s', step grow s .items = some s' ∧ Apart n s' ∧ Bounded.step n (view s) .items = some (view s') := by
  obtain ⟨hf, hc⟩ := hs.queue.clone
  obtain ⟨hapart, hview⟩ := hs.of_copy hc hf rfl
  exact ⟨_, rfl, hapart, hview ▸ rfl⟩

theorem Apart.write (hs : Apart n s) (i k : Nat) (v : α) :
    (∃ s', step grow s (.write i k v) = some s' ∧ Apart n s' ∧
        Bounded.step n (view s) (.write i k v) = some (view s')) ∨
      (step grow s (.write i k v) = none ∧ Bounded.step n (view s) (.write i k v) = none) := by
  have hget : (view s).copies[i]? = s.copies[i]?.map s.heap.contents := List.getElem?_map ..
  cases hr : s.copies[i]? with
  | none =>
    rw [hr] at hget
    exact .inr ⟨by simp [step, hr], by simp [Bounded.step, hget]⟩
  | some r =>
    rw [hr] at hget
    have hfront := hs.copies r (List.mem_of_getElem? hr)
    by_cases hk : k < (s.heap.contents r).length
    · obtain ⟨hapart, hview⟩ := hs.of_write hr hk v
      refine .inl ⟨_, ?_, hapart, ?_⟩
      · simp [step, hr, (hfront.set hk v).1]
      · rw [hview]
        simp [Bounded.step, hget, hk]
    · have hlen := hfront.len
      refine .inr ⟨?_, by simp [Bounded.step, hget, hk]⟩
      have hset : s.heap.set r k v = none := if_neg (by omega)
      simp [step, hr, hset]

end

/-! ## Every sequence of operations -/

theorem apart_start (n : Nat) : Apart n (start n : State α) where
  maxSize := rfl
  queue := Heap.Front.alloc _ [] []
  length_le := Nat.zero_le _
  copies := by simp [start, new]
  nodup := by simp [start, new]

/-- The queue and its copies show what the abstract queue has. -/
theorem view_run [Inhabited α] (grow : Nat → Nat) (n : Nat) (hn : 1 ≤ n) (es : List (Event α)) :
    (run (step grow) (start n) es).map view = run (Bounded.step n) {} es := by
  -- one case for every operation
  have hsim : ∀ (s : State α) (e : Event α), Apart n s →
      (∃ s', step grow s e = some s' ∧ Apart n s' ∧ Bounded.step n (view s) e = some (view s')) ∨
        (step grow s e = none ∧ Bounded.step n (view s) e = none) := by
    intro s e hs
    cases e with
    | append v => exact .inl (hs.append grow hn v)
    | items => exact .inl (hs.items grow)
    | write i k v => exact hs.write grow i k v
  refine run_map_eq (I := Apart n) ?_ ?_ (apart_start n) es
  · intro s e hs
    rcases hsim s e hs with ⟨s', hstep, -, habs⟩ | ⟨hstep, habs⟩
    · rw [hstep, habs, Option.map_some]
    · rw [hstep, habs, Option.map_none]
  · intro s e s' hs hstep
    rcases hsim s e hs with ⟨s'', hstep', hapart, -⟩ | ⟨hnone, -⟩
    · rw [hstep] at hstep'
      exact Option.some.inj hstep' ▸ hapart
    · rw [hstep] at hnone
      cases hnone

/-- The value that an event appends. -/
def Event.appends : Event α → List α
  | .append value => [value]
  | .items | .write _ _ _ => []

/-- The abstract queue has the last `n` values, whatever its callers do. -/
theorem items_run {n : Nat} {es : List (Event α)} {b : Bounded α} (hr : run (Bounded.step n) {} es = some b) :
    b.items = (es.flatMap Event.appends).rtake n := by
  refine run_invariant_of_history (I := fun es b => b.items = (es.flatMap Event.appends).rtake n) ?_ ?_ hr
  · intro es b e b' hb hstep
    rw [List.flatMap_append, List.flatMap_singleton]
    cases e with
    | append value =>
      obtain rfl := Option.some.inj hstep
      rw [hb]
      exact rtake_rtake_concat n _ value
    | items =>
      obtain rfl := Option.some.inj hstep
      rw [Event.appends, List.append_nil]
      exact hb
    | write i k value =>
      rw [Event.appends, List.append_nil]
      rw [Bounded.step] at hstep
      cases hr : b.copies[i]? with
      | none => simp [hr] at hstep
      | some r =>
        by_cases hk : k < r.length
        · simp only [hr, Option.bind_eq_bind, Option.bind_some, if_pos hk] at hstep
          obtain rfl := Option.some.inj hstep
          exact hb
        · simp [hr, hk] at hstep
  · simp

/-- **The queue is a bounded list, and its copies are copies.** For every sequence of appends, of copies handed out and
of writes to them, what the queue and every copy show is what the abstract queue has: no `Append` panics or changes a
copy, and no caller changes the queue. What it shows are the last `n` values. -/
theorem queue_refines [Inhabited α] (grow : Nat → Nat) (n : Nat) (hn : 1 ≤ n) (es : List (Event α)) :
    (run (step grow) (start n) es).map view = run (Bounded.step n) {} es ∧
      ∀ s, run (step grow) (start n) es = some s →
        s.heap.contents s.queue.elements = (es.flatMap Event.appends).rtake n := by
  have hview := view_run grow n hn es
  refine ⟨hview, fun s hs => ?_⟩
  rw [hs, Option.map_some] at hview
  exact items_run hview.symm

theorem queue_refines_three :
    (run (step fun _ => 1) (start 2) [.append 1, .append 2, .items, .append 3, .write 0 0 9, .items]).map view =
        some (⟨[2, 3], [[9, 2], [2, 3]]⟩ : Bounded Nat) :=
  (queue_refines (fun _ => 1) 2 (by decide) _).1

/-- A queue of size zero panics on its first element. -/
example : (step (fun _ => 0) (start 0 : State Nat) (.append 1)).isNone := by decide

end KynoMesh.Queue
