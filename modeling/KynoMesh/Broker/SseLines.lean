import Mathlib.Algebra.Order.BigOperators.Group.List
import KynoMesh.Broker.Sse

/-!
# Server-sent events, line by line

The comment of `countEvents` reads a stream as lines that end with LF or with CR LF, and an event as ended by two line
ends in a row. `splitSSEEvents` looks for LF LF and for CR LF CR LF instead.

* `normalize`, `countPairs` : the count of the comment;
* `ends`, `blocks` : the line ends of a stream, and those in a row;
* `greedy`, `fst_splitSSEEvents` : what the scanner counts, block by block; it pairs line ends from the left, and no LF
  with a CR LF after it;
* `greedy_eq_half_iff` : when it finds as many pairs as there are;
* `events_normalized_iff` : the streams on which the two counts agree; `events_normalized_of_isChain` : those without an LF
  right before a CR LF are among them.
-/

namespace KynoMesh.Sse

/-! ## The count of the comment -/

/-- Every CR LF replaced by LF. -/
def normalize : Bytes → Bytes
  | a :: b :: rest => if a = cr ∧ b = lf then lf :: normalize rest else a :: normalize (b :: rest)
  | buf => buf

/-- The pairs LF LF, from the left and without overlap. -/
def countPairs : Bytes → Nat
  | a :: b :: rest => if a = lf ∧ b = lf then countPairs rest + 1 else countPairs (b :: rest)
  | _ => 0

/-! ## Line ends -/

inductive LineEnd where
  | lf
  | crlf
  deriving DecidableEq

/-- The line ends of a stream, with a `none` for every other byte. -/
def ends : Bytes → List (Option LineEnd)
  | a :: b :: rest =>
    if a = cr ∧ b = lf then some .crlf :: ends rest
    else (if a = lf then some .lf else none) :: ends (b :: rest)
  | [a] => [if a = lf then some .lf else none]
  | [] => []

/-- The part of a list before its first `none`, and the parts from one `none` to the next. -/
def splitNone {α : Type} : List (Option α) → List α × List (List α)
  | [] => ([], [])
  | some a :: rest => (a :: (splitNone rest).1, (splitNone rest).2)
  | none :: rest => ([], (splitNone rest).1 :: (splitNone rest).2)

def parts {α : Type} (l : List (Option α)) : List (List α) := (splitNone l).1 :: (splitNone l).2

/-- The line ends in a row, from one other byte to the next. -/
def blocks (stream : Bytes) : List (List LineEnd) := parts (ends stream)

/-- Two line ends that the scanner takes for the end of an event when it meets them. -/
def Matches (a b : LineEnd) : Prop := ¬(a = .lf ∧ b = .crlf)

instance (a b : LineEnd) : Decidable (Matches a b) := inferInstanceAs (Decidable ¬_)

/-- The pairs of a block that the scanner finds. -/
def greedy : List LineEnd → Nat
  | a :: b :: rest => if Matches a b then greedy rest + 1 else greedy (b :: rest)
  | _ => 0

/-- A block that falls into pairs, none of them an LF and a CR LF. -/
def Pairs : List LineEnd → Prop
  | a :: b :: rest => Matches a b ∧ Pairs rest
  | [_] => False
  | [] => True

/-- A block that falls into such pairs up to one line end at most. -/
def Paired (block : List LineEnd) : Prop :=
  ∃ fst mid snd, block = fst ++ mid ++ snd ∧ mid.length ≤ 1 ∧ Pairs fst ∧ Pairs snd

/-! ## Pairs of a block -/

/-- One more line end in front adds a pair at most, and takes none away. -/
theorem greedy_cons (a : LineEnd) (l : List LineEnd) : greedy l ≤ greedy (a :: l) ∧ greedy (a :: l) ≤ greedy l + 1 := by
  induction l generalizing a with
  | nil => simp [greedy]
  | cons b l ih =>
    have := ih b
    rw [greedy]
    split_ifs <;> omega

theorem two_mul_greedy_le (l : List LineEnd) : 2 * greedy l ≤ l.length := by
  fun_induction greedy l with
  | case1 a b rest h ih =>
    rw [List.length_cons, List.length_cons]
    omega
  | case2 a b rest h ih =>
    rw [List.length_cons]
    omega
  | case3 => omega

theorem greedy_append {fst : List LineEnd} (h : Pairs fst) (rest : List LineEnd) :
    2 * greedy (fst ++ rest) = fst.length + 2 * greedy rest := by
  fun_induction Pairs fst with
  | case1 a b l ih =>
    have := ih h.2
    rw [List.cons_append, List.cons_append, greedy, if_pos h.1, List.length_cons, List.length_cons]
    omega
  | case2 => exact h.elim
  | case3 => simp

theorem Pairs.even {l : List LineEnd} (h : Pairs l) : l.length % 2 = 0 := by
  fun_induction Pairs l with
  | case1 a b l ih =>
    have := ih h.2
    rw [List.length_cons, List.length_cons]
    omega
  | case2 => exact h.elim
  | case3 => rfl

theorem Pairs.append {fst snd : List LineEnd} (h : Pairs fst) (h' : Pairs snd) : Pairs (fst ++ snd) := by
  fun_induction Pairs fst with
  | case1 a b l ih => exact ⟨h.1, ih h.2⟩
  | case2 => exact h.elim
  | case3 => exact h'

theorem Paired.of_greedy {l : List LineEnd} (h : greedy l = l.length / 2) : Paired l := by
  fun_induction greedy l with
  | case1 a b rest hm ih =>
    rw [List.length_cons, List.length_cons] at h
    obtain ⟨fst, mid, snd, rfl, hmid, hfst, hsnd⟩ := ih (by omega)
    exact ⟨a :: b :: fst, mid, snd, rfl, hmid, ⟨hm, hfst⟩, hsnd⟩
  | case2 a b rest hm ih =>
    -- the LF in front is left alone, so that the others are even in number and all of them in pairs
    have hle := two_mul_greedy_le (b :: rest)
    rw [List.length_cons] at h hle
    obtain ⟨fst, mid, snd, heq, hmid, hfst, hsnd⟩ := ih (by rw [List.length_cons] at h ⊢; omega)
    have hlen := congrArg List.length heq
    have := hfst.even
    have := hsnd.even
    rw [List.length_append, List.length_append, List.length_cons] at hlen
    rw [List.length_cons] at h
    obtain rfl : mid = [] := List.eq_nil_of_length_eq_zero (by omega)
    rw [List.append_nil] at heq
    exact ⟨[], [a], fst ++ snd, by rw [heq]; rfl, by simp, trivial, hfst.append hsnd⟩
  | case3 l hshort =>
    refine ⟨[], l, [], by simp, ?_, trivial, trivial⟩
    match l with
    | [] => simp
    | [_] => simp
    | a :: b :: rest => exact absurd rfl (hshort a b rest)

/-- **The pairs of a block.** The scanner finds half as many as there are line ends exactly when they are there. -/
theorem greedy_eq_half_iff (l : List LineEnd) : greedy l = l.length / 2 ↔ Paired l := by
  refine ⟨Paired.of_greedy, ?_⟩
  rintro ⟨fst, mid, snd, rfl, hmid, hfst, hsnd⟩
  have hle := two_mul_greedy_le (fst ++ mid ++ snd)
  have hfst' := greedy_append hfst (mid ++ snd)
  have hsnd' := greedy_append hsnd []
  rw [List.append_nil] at hsnd'
  rw [List.append_assoc] at hle ⊢
  rw [List.length_append, List.length_append] at hle ⊢
  have heven := hsnd.even
  have heven' := hfst.even
  match mid with
  | [] =>
    rw [List.nil_append, List.length_nil] at *
    omega
  | [a] =>
    have := greedy_cons a snd
    rw [List.singleton_append, List.length_singleton] at *
    omega

/-! ## Sums over the blocks -/

/-- A count of every block, added up. -/
def blockSum (f : List LineEnd → Nat) (es : List (Option LineEnd)) : Nat := ((parts es).map f).sum

def half (l : List LineEnd) : Nat := l.length / 2

section
variable {f : List LineEnd → Nat} (a b : LineEnd) (es : List (Option LineEnd))

theorem blockSum_none (hf : f [] = 0) : blockSum f (none :: es) = blockSum f es := by
  simp [blockSum, parts, splitNone, hf]

theorem blockSum_some_none (hf : f [a] = 0) : blockSum f (some a :: none :: es) = blockSum f es := by
  simp [blockSum, parts, splitNone, hf]

theorem blockSum_greedy_of_matches (h : Matches a b) :
    blockSum greedy (some a :: some b :: es) = blockSum greedy es + 1 := by
  simp [blockSum, parts, splitNone, greedy, h]
  omega

theorem blockSum_greedy_of_not_matches (h : ¬Matches a b) :
    blockSum greedy (some a :: some b :: es) = blockSum greedy (some b :: es) := by
  simp [blockSum, parts, splitNone, greedy, h]

theorem blockSum_half (e : LineEnd) : blockSum half (some a :: some e :: es) = blockSum half es + 1 := by
  simp [blockSum, parts, splitNone, half]
  omega

end

/-- Sums of counts, one of them never above the other, agree when the counts do. -/
theorem sum_map_eq_iff {α : Type} {f g : α → Nat} {l : List α} (h : ∀ a ∈ l, f a ≤ g a) :
    (l.map f).sum = (l.map g).sum ↔ ∀ a ∈ l, f a = g a := by
  induction l with
  | nil => simp
  | cons a l ih =>
    have hle := List.sum_le_sum fun b hb => h b (List.mem_cons_of_mem a hb)
    have ha := h a List.mem_cons_self
    rw [List.map_cons, List.sum_cons, List.map_cons, List.sum_cons, List.forall_mem_cons,
      ← ih fun b hb => h b (List.mem_cons_of_mem a hb)]
    omega

/-! ## The scanner -/

theorem ends_lf (rest : Bytes) : ends (lf :: rest) = some .lf :: ends rest := by
  cases rest with
  | nil => simp [ends]
  | cons b rest => rw [ends, if_neg fun h => cr_ne_lf h.1.symm, if_pos rfl]

theorem ends_crlf (rest : Bytes) : ends (cr :: lf :: rest) = some .crlf :: ends rest := by
  rw [ends, if_pos ⟨rfl, rfl⟩]

theorem ends_other {a b : UInt8} (h : ¬(a = cr ∧ b = lf)) (ha : a ≠ lf) (rest : Bytes) :
    ends (a :: b :: rest) = none :: ends (b :: rest) := by
  rw [ends, if_neg h, if_neg ha]

theorem head?_ends_ne_crlf {buf : Bytes} (h : ¬[cr, lf] <+: buf) : (ends buf).head? ≠ some (some .crlf) := by
  match buf with
  | [] => simp [ends]
  | [a] => by_cases ha : a = lf <;> simp [ends, ha]
  | a :: b :: rest =>
    have hne : ¬(a = cr ∧ b = lf) := by
      rintro ⟨rfl, rfl⟩
      exact h (List.prefix_append [cr, lf] rest)
    rw [ends, if_neg hne]
    by_cases ha : a = lf <;> simp [ha]

theorem head?_ends_ne_lf {b : UInt8} (hb : b ≠ lf) (rest : Bytes) : (ends (b :: rest)).head? ≠ some (some .lf) := by
  match rest with
  | [] => simp [ends, hb]
  | c :: rest => by_cases h : b = cr ∧ c = lf <;> simp [ends, hb, h]

/-- A CR LF that no other one follows counts like an LF. -/
theorem blockSum_greedy_crlf {es : List (Option LineEnd)} (h : es.head? ≠ some (some .crlf)) :
    blockSum greedy (some .crlf :: es) = blockSum greedy (some .lf :: es) := by
  match es with
  | [] => rfl
  | none :: es => rw [blockSum_some_none _ _ rfl, blockSum_some_none _ _ rfl]
  | some .crlf :: es => exact absurd rfl h
  | some .lf :: es =>
    rw [blockSum_greedy_of_matches _ _ _ (by decide), blockSum_greedy_of_matches _ _ _ (by decide)]

theorem blockSum_greedy_lf {es : List (Option LineEnd)} (h : es.head? ≠ some (some .lf)) :
    blockSum greedy (some .lf :: es) = blockSum greedy es := by
  match es with
  | [] => rfl
  | none :: es => rw [blockSum_some_none _ _ rfl, blockSum_none _ rfl]
  | some .crlf :: es => rw [blockSum_greedy_of_not_matches _ _ _ (by decide)]
  | some .lf :: es => exact absurd rfl h

theorem blockSum_greedy_skip {a b : UInt8} {rest : Bytes} (hlf : ¬(a = lf ∧ b = lf))
    (hcrlf : ¬crlfcrlf <+: a :: b :: rest) :
    blockSum greedy (ends (a :: b :: rest)) = blockSum greedy (ends (b :: rest)) := by
  by_cases h : a = cr ∧ b = lf
  · obtain ⟨rfl, rfl⟩ := h
    have hnext : ¬[cr, lf] <+: rest := fun hpre =>
      hcrlf (List.cons_prefix_cons.mpr ⟨rfl, List.cons_prefix_cons.mpr ⟨rfl, hpre⟩⟩)
    rw [ends_crlf, ends_lf, blockSum_greedy_crlf (head?_ends_ne_crlf hnext)]
  · by_cases ha : a = lf
    · subst ha
      rw [ends_lf, blockSum_greedy_lf (head?_ends_ne_lf (fun hb => hlf ⟨rfl, hb⟩) rest)]
    · rw [ends_other h ha, blockSum_none _ rfl]

/-- What the scanner counts, block by block. -/
theorem fst_scan (buf since : Bytes) (n : Nat) : (scan buf since n).1 = n + blockSum greedy (ends buf) := by
  match buf with
  | [] =>
    rw [scan_open (.inl (by simp))]
    rfl
  | [a] =>
    have hzero : blockSum greedy (ends [a]) = 0 := by by_cases ha : a = lf <;> simp [ends, ha] <;> rfl
    rw [scan_open (.inl (by simp)), hzero, Nat.add_zero]
  | a :: b :: rest =>
    by_cases hcrlf : crlfcrlf <+: a :: b :: rest
    · obtain ⟨rest', hrest⟩ := hcrlf
      have hends : ends (crlfcrlf ++ rest') = some .crlf :: some .crlf :: ends rest' := by
        change ends (cr :: lf :: cr :: lf :: rest') = _
        rw [ends_crlf, ends_crlf]
      have hlen : rest'.length < rest.length + 1 + 1 := by
        have := congrArg List.length hrest
        simp only [List.length_append, List.length_cons] at this
        omega
      rw [← hrest, scan_crlf, hends, blockSum_greedy_of_matches _ _ _ (by decide), fst_scan rest']
      omega
    · by_cases hlf : a = lf ∧ b = lf
      · obtain ⟨rfl, rfl⟩ := hlf
        rw [scan_lf, ends_lf, ends_lf, blockSum_greedy_of_matches _ _ _ (by decide), fst_scan rest]
        omega
      · rw [scan_skip hlf hcrlf, blockSum_greedy_skip hlf hcrlf, fst_scan (b :: rest)]
termination_by buf.length

theorem fst_splitSSEEvents (stream : Bytes) : (splitSSEEvents stream).1 = ((blocks stream).map greedy).sum := by
  rw [splitSSEEvents, fst_scan, Nat.zero_add]
  rfl

/-! ## The comment -/

/-- Normalized, the line ends of a stream are its LFs. -/
theorem forall₂_normalize (buf : Bytes) :
    List.Forall₂ (fun b (e : Option LineEnd) => b = lf ↔ e.isSome) (normalize buf) (ends buf) := by
  fun_induction normalize buf with
  | case1 a b rest h ih =>
    rw [ends, if_pos h]
    exact .cons (by simp) ih
  | case2 a b rest h ih =>
    rw [ends, if_neg h]
    refine .cons ?_ ih
    by_cases ha : a = lf <;> simp [ha]
  | case3 buf hshort =>
    match buf with
    | [] => exact .nil
    | [a] => by_cases ha : a = lf <;> simp [ends, ha]
    | a :: b :: rest => exact absurd rfl (hshort a b rest)

theorem countPairs_eq {buf : Bytes} {es : List (Option LineEnd)}
    (h : List.Forall₂ (fun b (e : Option LineEnd) => b = lf ↔ e.isSome) buf es) : countPairs buf = blockSum half es := by
  fun_induction countPairs buf generalizing es with
  | case1 a b rest hlf ih =>
    obtain ⟨e, es, ha, hes, rfl⟩ := List.forall₂_cons_left_iff.mp h
    obtain ⟨e', es, hb, hes', rfl⟩ := List.forall₂_cons_left_iff.mp hes
    obtain ⟨x, rfl⟩ := Option.isSome_iff_exists.mp (ha.mp hlf.1)
    obtain ⟨y, rfl⟩ := Option.isSome_iff_exists.mp (hb.mp hlf.2)
    rw [blockSum_half, ih hes']
  | case2 a b rest hlf ih =>
    obtain ⟨e, es, ha, hes, rfl⟩ := List.forall₂_cons_left_iff.mp h
    rw [ih hes]
    obtain ⟨e', es, hb, hes, rfl⟩ := List.forall₂_cons_left_iff.mp hes
    match e, e' with
    | none, e' => rw [blockSum_none _ rfl]
    | some x, none => rw [blockSum_some_none _ _ (by simp [half]), blockSum_none _ rfl]
    | some x, some y => exact absurd ⟨ha.mpr rfl, hb.mpr rfl⟩ hlf
  | case3 buf hshort =>
    match buf, es, h with
    | [], _, .nil => rfl
    | [_], [none], .cons _ .nil => rfl
    | [_], [some _], .cons _ .nil => simp [blockSum, parts, splitNone, half]
    | a :: b :: rest, _, _ => exact absurd rfl (hshort a b rest)

theorem countPairs_normalize (stream : Bytes) : countPairs (normalize stream) = ((blocks stream).map half).sum :=
  countPairs_eq (forall₂_normalize stream)

/-- **When the scanner counts as its comment says.** -/
theorem events_normalized_iff (stream : Bytes) :
    (splitSSEEvents stream).1 = countPairs (normalize stream) ↔ ∀ block ∈ blocks stream, Paired block := by
  have hle : ∀ block ∈ blocks stream, greedy block ≤ half block := by
    intro block _
    have := two_mul_greedy_le block
    unfold half
    omega
  rw [fst_splitSSEEvents, countPairs_normalize, sum_map_eq_iff hle]
  exact forall₂_congr fun block _ => greedy_eq_half_iff block

/-- An event whose blank line is a CR LF after an LF is not counted. -/
theorem mixed_blank_line_not_counted :
    (splitSSEEvents [97, lf, cr, lf]).1 = 0 ∧ countPairs (normalize [97, lf, cr, lf]) = 1 := by
  decide

/-- A block without an LF right before a CR LF falls into pairs. -/
theorem paired_of_isChain {block : List LineEnd} (h : block.IsChain Matches) : Paired block := by
  rw [← greedy_eq_half_iff]
  fun_induction greedy block with
  | case1 a b rest hm ih =>
    have htail := (List.isChain_cons_cons.mp h).2
    rw [ih htail.of_cons, List.length_cons, List.length_cons]
    omega
  | case2 a b rest hm ih => exact absurd (List.isChain_cons_cons.mp h).1 hm
  | case3 l hshort =>
    match l with
    | [] => rfl
    | [_] => simp
    | a :: b :: rest => exact absurd rfl (hshort a b rest)

/-- A stream whose line ends are all of one kind, or in which at least no LF stands right before a CR LF, is counted as
the comment says. -/
theorem events_normalized_of_isChain {stream : Bytes} (h : ∀ block ∈ blocks stream, block.IsChain Matches) :
    (splitSSEEvents stream).1 = countPairs (normalize stream) := by
  have hle : ∀ block ∈ blocks stream, greedy block = half block := fun block hb =>
    (greedy_eq_half_iff block).mpr (paired_of_isChain (h block hb))
  rw [fst_splitSSEEvents, countPairs_normalize, List.map_congr_left hle]

end KynoMesh.Sse
