import Mathlib.Data.List.Basic
import KynoMesh.Lib.GoStd

/-!
# Counting server-sent events

`pkg/broker/sse.go`: the response writer of the broker that counts the events of a `text/event-stream` response as they
pass. An event ends with LF LF or with CR LF CR LF; bytes after the last end wait for the next `Write`.

* `splitSSEEvents`, `countEvents`, `StreamRecorder` : the scanner and the writer around it;
* `splitSSEEvents_append` : a cut anywhere in a stream, also inside of an end of an event;
* `countEvents_chunks` : the count and the bytes that wait do not depend on how a stream is written;
* `counts_body` : what a writer has counted is what the forwarded body has.
-/

namespace KynoMesh.Sse

open KynoMesh.Lib

abbrev Bytes := List UInt8

abbrev lf : UInt8 := 10
abbrev cr : UInt8 := 13

theorem cr_ne_lf : cr ≠ lf := by decide

/-! ## The scanner -/

/-- The loop of `splitSSEEvents` with the bytes `buf[i:]` ahead, the bytes `buf[start:]` since the last end of an event,
and the events counted so far. -/
def scan : Bytes → Bytes → Nat → Nat × Bytes
  | a :: b :: c :: d :: rest, since, count =>
    if a = lf ∧ b = lf then scan (c :: d :: rest) (c :: d :: rest) (count + 1)
    else if a = cr ∧ b = lf ∧ c = cr ∧ d = lf then scan rest rest (count + 1)
    else scan (b :: c :: d :: rest) since count
  | a :: b :: rest, since, count =>
    -- too short for CR LF CR LF
    if a = lf ∧ b = lf then scan rest rest (count + 1) else scan (b :: rest) since count
  | _, since, count => (count, since)

/-- The number of events, and the bytes after the last one. -/
def splitSSEEvents (buf : Bytes) : Nat × Bytes := scan buf buf 0

theorem scan_count (buf since : Bytes) (n : Nat) :
    scan buf since n = (n + (scan buf since 0).1, (scan buf since 0).2) := by
  suffices h : ∀ m, scan buf since (m + n) = (n + (scan buf since m).1, (scan buf since m).2) by simpa using h 0
  intro m
  fun_induction scan buf since m with
  | case1 a b c d rest since m h ih =>
    rw [scan, if_pos h, Nat.add_right_comm, ih]
  | case2 a b c d rest since m h h' ih =>
    rw [scan, if_neg h, if_pos h', Nat.add_right_comm, ih]
  | case3 a b c d rest since m h h' ih =>
    rw [scan, if_neg h, if_neg h', ih]
  | case4 a b rest since m hshort h ih =>
    rw [scan, if_pos h, Nat.add_right_comm, ih]
    exact hshort
  | case5 a b rest since m hshort h ih =>
    rw [scan, if_neg h, ih]
    exact hshort
  | case6 buf since m hshort hshort' =>
    rw [scan, Nat.add_comm]
    · exact hshort
    · exact hshort'

/-- The longer one of the two ends of an event. -/
abbrev crlfcrlf : Bytes := [cr, lf, cr, lf]

theorem scan_lf (rest since : Bytes) (n : Nat) : scan (lf :: lf :: rest) since n = scan rest rest (n + 1) := by
  rcases rest with _ | ⟨c, _ | ⟨d, rest⟩⟩
  · simp [scan]
  · simp [scan]
  · rw [scan, if_pos ⟨rfl, rfl⟩]

theorem scan_crlf (rest since : Bytes) (n : Nat) : scan (crlfcrlf ++ rest) since n = scan rest rest (n + 1) := by
  change scan (cr :: lf :: cr :: lf :: rest) since n = _
  rw [scan, if_neg (by decide), if_pos ⟨rfl, rfl, rfl, rfl⟩]

theorem scan_skip {a b : UInt8} {rest : Bytes} (hlf : ¬(a = lf ∧ b = lf)) (hcrlf : ¬crlfcrlf <+: a :: b :: rest)
    (since : Bytes) (n : Nat) : scan (a :: b :: rest) since n = scan (b :: rest) since n := by
  rcases rest with _ | ⟨c, _ | ⟨d, rest⟩⟩
  · rw [scan, if_neg hlf]
    simp
  · rw [scan, if_neg hlf]
    simp
  · rw [scan, if_neg hlf, if_neg]
    rintro ⟨rfl, rfl, rfl, rfl⟩
    exact hcrlf (List.prefix_append crlfcrlf rest)

theorem scan_open {buf : Bytes} (h : buf.length ≤ 1 ∨ buf <+: crlfcrlf ∧ buf ≠ crlfcrlf) (since : Bytes) (n : Nat) :
    scan buf since n = (n, since) := by
  rcases buf with _ | ⟨a, _ | ⟨b, rest⟩⟩
  · rw [scan]
    all_goals simp
  · rw [scan]
    all_goals simp
  · obtain ⟨hpre, hne⟩ := h.resolve_left (by simp)
    obtain ⟨rfl, htail⟩ := List.cons_prefix_cons.mp hpre
    obtain ⟨rfl, hrest⟩ := List.cons_prefix_cons.mp htail
    rcases rest with _ | ⟨c, rest⟩
    · simp [scan, cr_ne_lf]
    · obtain ⟨rfl, hlast⟩ := List.cons_prefix_cons.mp hrest
      rcases rest with _ | ⟨d, rest⟩
      · simp [scan, cr_ne_lf]
      · obtain ⟨rfl, hnil⟩ := List.cons_prefix_cons.mp hlast
        exact absurd (by rw [List.prefix_nil.mp hnil]) hne

/-- The scan of a stream in two parts. The bytes `pre` have been passed over without an event, whatever the second part
adds to the first. -/
theorem scan_append (fst snd pre : Bytes) (n : Nat)
    (hpre : ∀ since n, scan (pre ++ fst ++ snd) since n = scan (fst ++ snd) since n) :
    scan (fst ++ snd) (pre ++ fst ++ snd) n =
      scan ((scan fst (pre ++ fst) n).2 ++ snd) ((scan fst (pre ++ fst) n).2 ++ snd) (scan fst (pre ++ fst) n).1 := by
  by_cases hopen : fst.length ≤ 1 ∨ fst <+: crlfcrlf ∧ fst ≠ crlfcrlf
  · -- the first part ends before an end of an event does; all of it is scanned again
    rw [scan_open hopen, hpre]
  · rw [not_or, not_and_not_right] at hopen
    obtain ⟨hlen, hlong⟩ := hopen
    by_cases hcrlf : crlfcrlf <+: fst
    · obtain ⟨rest, rfl⟩ := hcrlf
      rw [List.append_assoc, scan_crlf, scan_crlf]
      exact scan_append rest snd [] (n + 1) fun _ _ => rfl
    · match fst with
      | [] => simp at hlen
      | [_] => simp at hlen
      | a :: b :: rest =>
        by_cases hlf : a = lf ∧ b = lf
        · obtain ⟨rfl, rfl⟩ := hlf
          rw [List.cons_append, List.cons_append, scan_lf, scan_lf]
          exact scan_append rest snd [] (n + 1) fun _ _ => rfl
        · -- no event ends here, and none does with the second part
          have hcrlf' : ¬crlfcrlf <+: a :: b :: (rest ++ snd) := by
            intro h
            rcases List.prefix_or_prefix_of_prefix h (List.prefix_append (a :: b :: rest) snd) with h | h
            · exact hcrlf h
            · exact hcrlf (hlong h ▸ List.prefix_refl _)
          have hskip : ∀ since n, scan (a :: b :: (rest ++ snd)) since n = scan (b :: (rest ++ snd)) since n :=
            scan_skip hlf hcrlf'
          have ih := scan_append (b :: rest) snd (pre ++ [a]) n (by
            intro since n
            have := (hpre since n).trans (hskip since n)
            simpa using this)
          rw [scan_skip hlf hcrlf, List.cons_append, List.cons_append, hskip]
          simpa using ih
termination_by fst.length

/-- **A cut in a stream.** The second part is scanned together with what the first part left over. -/
theorem splitSSEEvents_append (fst snd : Bytes) :
    splitSSEEvents (fst ++ snd) =
      ((splitSSEEvents fst).1 + (splitSSEEvents ((splitSSEEvents fst).2 ++ snd)).1,
        (splitSSEEvents ((splitSSEEvents fst).2 ++ snd)).2) := by
  have h := scan_append fst snd [] 0 fun _ _ => rfl
  rw [scan_count _ _ (scan fst _ 0).1] at h
  exact h

/-! ## The writer -/

/-- The wrapper of one response. The counter is the one of the transport, from the start of the response; `body` is what
the wrapped writer was given. -/
structure StreamRecorder where
  counter : Nat := 0
  headersSet : Bool := false
  sse : Bool := false
  statusCode : Int := 200
  carry : Bytes := []
  body : Bytes := []

def newStreamRecorder (counter : Nat) : StreamRecorder := { counter := counter }

/-- A content type is that of an event stream: up to its parameters, surrounding spaces and case. -/
def isEventStream (contentType : String) : Bool :=
  equalFoldASCII (trimSpace (contentType.toList.takeWhile fun c => c ≠ ';')) "text/event-stream".toList

namespace StreamRecorder

def detectSSE (r : StreamRecorder) (contentType : String) : StreamRecorder :=
  { r with headersSet := true, sse := isEventStream contentType }

def countEvents (r : StreamRecorder) (p : Bytes) : StreamRecorder :=
  let buf := if r.carry.length > 0 then r.carry ++ p else p
  let (events, remainder) := splitSSEEvents buf
  { r with counter := if events > 0 then r.counter + events else r.counter, carry := remainder }

/-- `WriteHeader`, with the content type that is set at the time. -/
def writeHeader (r : StreamRecorder) (contentType : String) (statusCode : Int) : StreamRecorder :=
  { r with statusCode := statusCode }.detectSSE contentType

def write (r : StreamRecorder) (contentType : String) (p : Bytes) : StreamRecorder :=
  let r := if r.headersSet then r else r.detectSSE contentType
  let r := if r.sse then r.countEvents p else r
  { r with body := r.body ++ p }

/-- A call of the handler, with the content type that is set at the time. `Flush` is forwarded. -/
inductive Call where
  | writeHeader (contentType : String) (statusCode : Int)
  | write (contentType : String) (p : Bytes)
  | flush

def Call.seesEventStream : Call → Bool
  | .writeHeader contentType _ => isEventStream contentType
  | .write contentType _ => isEventStream contentType
  | .flush => true

def call (r : StreamRecorder) : Call → StreamRecorder
  | .writeHeader contentType statusCode => r.writeHeader contentType statusCode
  | .write contentType p => r.write contentType p
  | .flush => r

/-! ## Runs -/

/-- The events of `stream` have been counted, from `counter` on, and the bytes after the last one wait. -/
structure Counted (counter : Nat) (r : StreamRecorder) (stream : Bytes) : Prop where
  counter_eq : r.counter = counter + (splitSSEEvents stream).1
  carry_eq : r.carry = (splitSSEEvents stream).2

theorem countEvents_eq (r : StreamRecorder) (p : Bytes) :
    r.countEvents p =
      { r with
        counter := r.counter + (splitSSEEvents (r.carry ++ p)).1, carry := (splitSSEEvents (r.carry ++ p)).2 } := by
  have hbuf : (if r.carry.length > 0 then r.carry ++ p else p) = r.carry ++ p := by
    cases r.carry with
    | nil => rfl
    | cons b carry => simp
  unfold countEvents
  rw [hbuf]
  dsimp only
  split_ifs with h
  · rfl
  · rw [Nat.eq_zero_of_not_pos h, Nat.add_zero]

theorem counted_newStreamRecorder (counter : Nat) : Counted counter (newStreamRecorder counter) [] where
  counter_eq := rfl
  carry_eq := rfl

theorem Counted.countEvents {counter : Nat} {r : StreamRecorder} {stream : Bytes} (h : Counted counter r stream)
    (p : Bytes) : Counted counter (r.countEvents p) (stream ++ p) := by
  have hcut := splitSSEEvents_append stream p
  rw [countEvents_eq]
  constructor
  · dsimp only
    rw [h.counter_eq, h.carry_eq, hcut, Nat.add_assoc]
  · dsimp only
    rw [h.carry_eq, hcut]

theorem Counted.foldl {counter : Nat} {r : StreamRecorder} {stream : Bytes} (h : Counted counter r stream)
    (chunks : List Bytes) :
    Counted counter (chunks.foldl StreamRecorder.countEvents r) (stream ++ chunks.flatten) := by
  induction chunks generalizing r stream with
  | nil =>
    rw [List.flatten_nil, List.append_nil]
    exact h
  | cons p chunks ih =>
    rw [List.flatten_cons, ← List.append_assoc]
    exact ih (h.countEvents p)

/-- **Counting does not depend on the chunks.** -/
theorem countEvents_chunks (counter : Nat) (chunks : List Bytes) :
    (chunks.foldl StreamRecorder.countEvents (newStreamRecorder counter)).counter =
        counter + (splitSSEEvents chunks.flatten).1 ∧
      (chunks.foldl StreamRecorder.countEvents (newStreamRecorder counter)).carry =
        (splitSSEEvents chunks.flatten).2 := by
  have h := (counted_newStreamRecorder counter).foldl chunks
  exact ⟨h.counter_eq, h.carry_eq⟩

/-- The events of the forwarded body have been counted, and a writer that has looked at the header counts. -/
structure Counts (counter : Nat) (r : StreamRecorder) : Prop where
  counted : Counted counter r r.body
  sse : r.headersSet = true → r.sse = true

theorem Counts.call {counter : Nat} {r : StreamRecorder} (h : Counts counter r) {c : Call}
    (hc : c.seesEventStream = true) : Counts counter (r.call c) := by
  cases c with
  | writeHeader contentType statusCode => exact ⟨⟨h.counted.counter_eq, h.counted.carry_eq⟩, fun _ => hc⟩
  | write contentType p =>
    -- the header has been looked at before, or is now
    have hsse : (if r.headersSet then r else r.detectSSE contentType).sse = true := by
      split_ifs with hset
      · exact h.sse hset
      · exact hc
    have hcounted : Counted counter (if r.headersSet then r else r.detectSSE contentType) r.body := by
      split_ifs
      · exact h.counted
      · exact ⟨h.counted.counter_eq, h.counted.carry_eq⟩
    have hbody : (if r.headersSet then r else r.detectSSE contentType).body = r.body := by
      split_ifs <;> rfl
    have hnext := hcounted.countEvents p
    change Counts counter (r.write contentType p)
    unfold write
    dsimp only
    rw [if_pos hsse]
    rw [countEvents_eq] at hnext ⊢
    refine ⟨⟨?_, ?_⟩, fun _ => hsse⟩
    · dsimp only
      rw [hbody]
      exact hnext.counter_eq
    · dsimp only
      rw [hbody]
      exact hnext.carry_eq
  | flush => exact h

/-- A response that is an event stream whenever its header is looked at: the events of its body are counted. -/
theorem counts_body (counter : Nat) {calls : List Call} (hcalls : ∀ c ∈ calls, c.seesEventStream = true) :
    Counts counter (calls.foldl call (newStreamRecorder counter)) := by
  have hnew : Counts counter (newStreamRecorder counter) :=
    ⟨counted_newStreamRecorder counter, fun h => by cases h⟩
  induction calls using List.reverseRecOn with
  | nil => exact hnew
  | append_singleton calls c ih =>
    rw [List.foldl_append]
    exact (ih fun c hc => hcalls c (by simp [hc])).call (hcalls c (by simp))

end StreamRecorder

end KynoMesh.Sse
