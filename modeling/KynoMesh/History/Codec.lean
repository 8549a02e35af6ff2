import KynoMesh.History.Buffer
import KynoMesh.Lib.BigEndian
import KynoMesh.Lib.Loop
import Mathlib.Logic.Equiv.Defs

/-!
# The persisted form of a history

`history/codec.go`. A blob is `version(1) | specHashLen(2) | specHash | recordCount(4) | records`, big-endian, with
records of 30 bytes. `float64` values are any type with a bijection to 64-bit patterns (`math.Float64bits`).

* `decodeHistory_encodeHistory` : a history is read back as written, if its hash fits the length field, its count fits
  the count field and its times are `int64` nanoseconds;
* `eq_of_decodeHistory_encodeHistory` : without the bound on the count, what is read back is what was written or an
  error;
* `decodeHistory_bijective` : the round trip in both directions, and no read outside the blob.
-/

namespace KynoMesh.History

open KynoMesh.Lib

variable {F : Type} (float64bits : F ≃ UInt64)

/-- How decoding can fail: with an error, or by a read outside the blob. -/
inductive DecodeFault where
  | err (message : String)
  | panic
  deriving DecidableEq

def codecVersion : UInt8 := 2
def recordSize : Nat := 8 + 4 + 8 + 8 + 2
def versionSize : Nat := 1
def hashLenSize : Nat := 2
def countSize : Nat := 4

/-! ## Encoding -/

/-- `uint64(t.UnixNano())`. -/
def unixNanoBits (t : Int) : Nat := (t % 2 ^ 64).toNat

def encodeRecord (r : Record F) : Bytes :=
  putBE 8 (unixNanoBits r.sample.timestamp) ++ (putBE 4 r.sample.replicas.toUInt32.toNat ++
    (putBE 8 (float64bits r.sample.inflightPerRep).toNat ++ (putBE 8 (float64bits r.sample.ratePerRep).toNat ++
      putBE 2 r.count.toNat)))

def encodeHistory (specHash : Bytes) (records : List (Record F)) : Bytes :=
  codecVersion :: (putBE hashLenSize specHash.length ++ (specHash ++
    (putBE countSize records.length ++ records.flatMap (encodeRecord float64bits))))

/-! ## Decoding -/

/-- A read that panics when it is out of range. -/
def inRange {α : Type} : Option α → Except DecodeFault α
  | some a => .ok a
  | none => .error .panic

/-- `time.Unix(0, int64(n))`. -/
def unixTime (n : Nat) : Int := Int.bmod n (2 ^ 64)

def decodeRecord (b : Bytes) (off : Nat) : Except DecodeFault (Record F) := do
  let ts ← inRange (uintAt 8 b off)
  let replicas ← inRange (uintAt 4 b (off + 8))
  let inflight ← inRange (uintAt 8 b (off + 8 + 4))
  let rate ← inRange (uintAt 8 b (off + 8 + 4 + 8))
  let count ← inRange (uintAt 2 b (off + 8 + 4 + 8 + 8))
  pure
    { sample :=
        { timestamp := unixTime ts
          replicas := (UInt32.ofNat replicas).toInt32
          inflightPerRep := float64bits.symm (UInt64.ofNat inflight)
          ratePerRep := float64bits.symm (UInt64.ofNat rate) }
      count := UInt16.ofNat count }

/-- `n` records from `off` on. -/
def decodeRecords (b : Bytes) : Nat → Nat → Except DecodeFault (List (Record F))
  | 0, _ => pure []
  | n + 1, off => do
    let r ← decodeRecord float64bits b off
    let rs ← decodeRecords b n (off + recordSize)
    pure (r :: rs)

def lengthMismatch (len want n : Nat) : DecodeFault :=
  .err ("scaling: history blob length " ++ itoa len ++ ", want " ++ itoa want ++ " for " ++ itoa n ++ " records")

/-- The part of the blob after the version byte. -/
def decodeBody (b : Bytes) : Except DecodeFault (Bytes × List (Record F)) := do
  let hashLen ← inRange (uintAt hashLenSize b versionSize)
  let off := versionSize + hashLenSize
  if b.length < off + hashLen + countSize then
    .error (.err "scaling: history blob truncated in header")
  else
    let specHash ← inRange (sliceAt b off hashLen)
    let n ← inRange (uintAt countSize b (off + hashLen))
    let want := off + hashLen + countSize + n * recordSize
    if b.length ≠ want then
      .error (lengthMismatch b.length want n)
    else
      let records ← decodeRecords float64bits b n (off + hashLen + countSize)
      pure (specHash, records)

def decodeHistory (b : Bytes) : Except DecodeFault (Bytes × List (Record F)) :=
  match b with
  | [] => .ok ([], [])
  | version :: _ =>
    if version ≠ codecVersion then
      .error (.err ("scaling: unknown history codec version " ++ itoa version.toNat))
    else if b.length < versionSize + hashLenSize then
      .error (.err ("scaling: history blob too short: " ++ itoa b.length ++ " bytes"))
    else
      decodeBody float64bits b

/-! ## Round trip -/

/-- A time that `UnixNano` can represent. -/
def Int64Time (t : Int) : Prop := -2 ^ 63 ≤ t ∧ t < 2 ^ 63

instance (t : Int) : Decidable (Int64Time t) := inferInstanceAs (Decidable (_ ∧ _))

theorem unixTime_unixNanoBits {t : Int} (h : Int64Time t) : unixTime (unixNanoBits t) = t := by
  obtain ⟨hlo, hhi⟩ := h
  have hbits : ((unixNanoBits t : Nat) : Int) = t % (2 ^ 64 : Nat) := by
    unfold unixNanoBits
    omega
  have hwrap : unixTime (unixNanoBits t) = Int.bmod t (2 ^ 64) := by
    unfold unixTime
    rw [hbits, Int.emod_bmod]
  exact hwrap.trans (Int.bmod_eq_of_le (by omega) (by omega))

theorem unixNanoBits_lt (t : Int) : unixNanoBits t < 256 ^ 8 := by
  unfold unixNanoBits
  omega

theorem length_encodeRecord (r : Record F) : (encodeRecord float64bits r).length = recordSize := by
  simp [encodeRecord, recordSize]

theorem length_flatMap_encodeRecord (rs : List (Record F)) :
    (rs.flatMap (encodeRecord float64bits)).length = rs.length * recordSize := by
  rw [List.length_flatMap, List.map_congr_left fun r _ => length_encodeRecord float64bits r]
  simp

/-- The size that a header with hash `h` and record count `n` announces. -/
def announced (h : Bytes) (n : Nat) : Nat := versionSize + hashLenSize + h.length + countSize + n * recordSize

theorem length_encodeHistory (h : Bytes) (rs : List (Record F)) :
    (encodeHistory float64bits h rs).length = announced h rs.length := by
  simp only [encodeHistory, announced, List.length_cons, List.length_append, length_putBE, length_flatMap_encodeRecord,
    versionSize]
  omega

theorem drop_encodeHistory (h : Bytes) (rs : List (Record F)) :
    let b := encodeHistory float64bits h rs
    let records := rs.flatMap (encodeRecord float64bits)
    b.drop versionSize = putBE hashLenSize h.length ++ (h ++ (putBE countSize rs.length ++ records)) ∧
      b.drop (versionSize + hashLenSize) = h ++ (putBE countSize rs.length ++ records) ∧
      b.drop (versionSize + hashLenSize + h.length) = putBE countSize rs.length ++ records ∧
      b.drop (announced h 0) = records := by
  intro b records
  have h₀ : b.drop versionSize = putBE hashLenSize h.length ++ (h ++ (putBE countSize rs.length ++ records)) := rfl
  have h₁ := drop_add_of_drop (length_putBE _ _) h₀
  have h₂ := drop_add_of_drop rfl h₁
  have h₃ := drop_add_of_drop (length_putBE _ _) h₂
  refine ⟨h₀, h₁, h₂, ?_⟩
  rw [announced, Nat.zero_mul, Nat.add_zero, h₃]

variable {float64bits}

theorem decodeRecord_of_drop {b rest : Bytes} {off : Nat} {r : Record F} (hr : Int64Time r.sample.timestamp)
    (h : b.drop off = encodeRecord float64bits r ++ rest) : decodeRecord float64bits b off = .ok r := by
  simp only [encodeRecord, List.append_assoc] at h
  have h₁ := drop_add_of_drop (length_putBE _ _) h
  have h₂ := drop_add_of_drop (length_putBE _ _) h₁
  have h₃ := drop_add_of_drop (length_putBE _ _) h₂
  have h₄ := drop_add_of_drop (length_putBE _ _) h₃
  rw [decodeRecord, uintAt_of_drop (by decide) h, uintAt_of_drop (by decide) h₁, uintAt_of_drop (by decide) h₂,
    uintAt_of_drop (by decide) h₃, uintAt_of_drop (by decide) h₄]
  have hrep : r.sample.replicas.toUInt32.toNat < 256 ^ 4 := r.sample.replicas.toUInt32.toNat_lt
  have hinf : (float64bits r.sample.inflightPerRep).toNat < 256 ^ 8 := (float64bits r.sample.inflightPerRep).toNat_lt
  have hrate : (float64bits r.sample.ratePerRep).toNat < 256 ^ 8 := (float64bits r.sample.ratePerRep).toNat_lt
  have hcount : r.count.toNat < 256 ^ 2 := r.count.toNat_lt
  rw [Nat.mod_eq_of_lt (unixNanoBits_lt _), Nat.mod_eq_of_lt hrep, Nat.mod_eq_of_lt hinf, Nat.mod_eq_of_lt hrate,
    Nat.mod_eq_of_lt hcount]
  simp [inRange, bind, Except.bind, pure, Except.pure, unixTime_unixNanoBits hr]

theorem decodeRecords_of_drop {b : Bytes} {off : Nat} {rs : List (Record F)}
    (hrs : ∀ r ∈ rs, Int64Time r.sample.timestamp) (h : b.drop off = rs.flatMap (encodeRecord float64bits)) :
    decodeRecords float64bits b rs.length off = .ok rs := by
  induction rs generalizing off with
  | nil => rfl
  | cons r rs ih =>
    obtain ⟨hr, hrs⟩ := List.forall_mem_cons.mp hrs
    rw [List.flatMap_cons] at h
    have hrest := ih hrs (drop_add_of_drop (length_encodeRecord float64bits r) h)
    rw [List.length_cons, decodeRecords, decodeRecord_of_drop hr h, hrest]
    rfl

theorem decodeHistory_cons {b : Bytes} (h : versionSize + hashLenSize ≤ (codecVersion :: b).length) :
    decodeHistory float64bits (codecVersion :: b) = decodeBody float64bits (codecVersion :: b) := by
  simp only [decodeHistory, ne_eq, not_true_eq_false, if_false, if_neg (Nat.not_lt.mpr h)]

/-- Of an encoded history whose hash fits its length field, everything is read back up to the count field. -/
theorem decodeHistory_encodeHistory_eq {h : Bytes} (hh : h.length < 2 ^ 16) (rs : List (Record F)) :
    decodeHistory float64bits (encodeHistory float64bits h rs) =
      if announced h rs.length ≠ announced h (rs.length % 2 ^ 32) then
        .error (lengthMismatch (announced h rs.length) (announced h (rs.length % 2 ^ 32)) (rs.length % 2 ^ 32))
      else
        Prod.mk h <$>
          decodeRecords float64bits (encodeHistory float64bits h rs) (rs.length % 2 ^ 32) (announced h 0) := by
  have hlen := length_encodeHistory float64bits h rs
  have hhash : h.length % 256 ^ hashLenSize = h.length := Nat.mod_eq_of_lt hh
  obtain ⟨h₀, h₁, h₂, -⟩ := drop_encodeHistory float64bits h rs
  have hheader : ¬(encodeHistory float64bits h rs).length < versionSize + hashLenSize + h.length + countSize := by
    rw [hlen, announced]
    omega
  have hbody : decodeHistory float64bits (encodeHistory float64bits h rs) =
      decodeBody float64bits (encodeHistory float64bits h rs) :=
    decodeHistory_cons (by rw [← encodeHistory, hlen, announced]; omega)
  rw [hbody, decodeBody, uintAt_of_drop (by decide) h₀, hhash]
  simp only [inRange, bind, Except.bind]
  rw [if_neg hheader, sliceAt_of_drop rfl (by omega) h₁, uintAt_of_drop (by decide) h₂, hlen]
  rfl

/-- **Round trip.** -/
theorem decodeHistory_encodeHistory {h : Bytes} {rs : List (Record F)} (hh : h.length < 2 ^ 16)
    (hn : rs.length < 2 ^ 32) (hrs : ∀ r ∈ rs, Int64Time r.sample.timestamp) :
    decodeHistory float64bits (encodeHistory float64bits h rs) = .ok (h, rs) := by
  obtain ⟨-, -, -, hdrop⟩ := drop_encodeHistory float64bits h rs
  rw [decodeHistory_encodeHistory_eq hh, Nat.mod_eq_of_lt hn, if_neg (not_not_intro rfl),
    decodeRecords_of_drop hrs hdrop]
  rfl

/-- Whatever the count, reading back gives what was written, or an error. -/
theorem eq_of_decodeHistory_encodeHistory {h : Bytes} {rs : List (Record F)} {x : Bytes × List (Record F)}
    (hh : h.length < 2 ^ 16) (hrs : ∀ r ∈ rs, Int64Time r.sample.timestamp)
    (hx : decodeHistory float64bits (encodeHistory float64bits h rs) = .ok x) : x = (h, rs) := by
  by_cases hn : rs.length < 2 ^ 32
  · rw [decodeHistory_encodeHistory hh hn hrs] at hx
    exact (Except.ok.inj hx).symm
  · have hmod : rs.length % 2 ^ 32 < rs.length := by omega
    rw [decodeHistory_encodeHistory_eq hh, if_pos (by simp only [announced, recordSize]; omega)] at hx
    cases hx

/-! ## What is accepted -/

variable (float64bits)

theorem unixNanoBits_unixTime {n : Nat} (h : n < 256 ^ 8) : unixNanoBits (unixTime n) = n := by
  have hmod : Int.bmod n (2 ^ 64) % ((2 ^ 64 : Nat) : Int) = (n : Int) % ((2 ^ 64 : Nat) : Int) := Int.bmod_emod
  unfold unixNanoBits unixTime
  omega

/-- A record that lies within the blob is read, and the bytes it was read from are its encoding. -/
theorem exists_decodeRecord (b : Bytes) (off : Nat) (h : off + recordSize ≤ b.length) :
    ∃ r, decodeRecord float64bits b off = .ok r ∧
      b.drop off = encodeRecord float64bits r ++ b.drop (off + recordSize) := by
  unfold recordSize at h
  obtain ⟨ts, hts, hts', h₀⟩ := exists_uintAt b off 8 (by omega)
  obtain ⟨replicas, hrep, hrep', h₁⟩ := exists_uintAt b (off + 8) 4 (by omega)
  obtain ⟨inflight, hinf, hinf', h₂⟩ := exists_uintAt b (off + 8 + 4) 8 (by omega)
  obtain ⟨rate, hrate, hrate', h₃⟩ := exists_uintAt b (off + 8 + 4 + 8) 8 (by omega)
  obtain ⟨count, hcount, hcount', h₄⟩ := exists_uintAt b (off + 8 + 4 + 8 + 8) 2 (by omega)
  rw [decodeRecord, hts, hrep, hinf, hrate, hcount]
  refine ⟨_, rfl, ?_⟩
  have hreplicas : (UInt32.ofNat replicas).toInt32.toUInt32.toNat = replicas := by
    rw [UInt32.toUInt32_toInt32, UInt32.toNat_ofNat']
    exact Nat.mod_eq_of_lt (by omega)
  have hinflight : (UInt64.ofNat inflight).toNat = inflight := by
    rw [UInt64.toNat_ofNat']
    exact Nat.mod_eq_of_lt (by omega)
  have hrates : (UInt64.ofNat rate).toNat = rate := by
    rw [UInt64.toNat_ofNat']
    exact Nat.mod_eq_of_lt (by omega)
  have hcounts : (UInt16.ofNat count).toNat = count := by
    rw [UInt16.toNat_ofNat']
    exact Nat.mod_eq_of_lt (by omega)
  simp only [encodeRecord, unixNanoBits_unixTime hts', hreplicas, Equiv.apply_symm_apply, hinflight, hrates, hcounts,
    List.append_assoc]
  rw [h₀, h₁, h₂, h₃, h₄]
  rfl

theorem exists_decodeRecords (b : Bytes) (n off : Nat) (h : off + n * recordSize ≤ b.length) :
    ∃ rs, decodeRecords float64bits b n off = .ok rs ∧ rs.length = n ∧
      b.drop off = rs.flatMap (encodeRecord float64bits) ++ b.drop (off + n * recordSize) := by
  induction n generalizing off with
  | zero => exact ⟨[], rfl, rfl, by simp⟩
  | succ n ih =>
    rw [Nat.succ_mul] at h
    obtain ⟨r, hr, hbytes⟩ := exists_decodeRecord float64bits b off (by omega)
    obtain ⟨rs, hrs, hlen, hrest⟩ := ih (off + recordSize) (by omega)
    refine ⟨r :: rs, by rw [decodeRecords, hr, hrs]; rfl, by rw [List.length_cons, hlen], ?_⟩
    rw [hbytes, hrest, List.flatMap_cons, List.append_assoc, Nat.succ_mul, Nat.add_assoc, Nat.add_comm recordSize]

theorem decodeBody_cases {b : Bytes} (hlen : versionSize + hashLenSize ≤ b.length) :
    (∃ m, decodeBody float64bits b = .error (.err m)) ∨
      ∃ h rs, decodeBody float64bits b = .ok (h, rs) ∧
        codecVersion :: b.drop versionSize = encodeHistory float64bits h rs := by
  obtain ⟨hashLen, hhl, -, h₀⟩ := exists_uintAt b versionSize hashLenSize hlen
  rw [decodeBody, hhl]
  simp only [inRange, bind, Except.bind]
  split_ifs with hshort
  · exact .inl ⟨_, rfl⟩
  · unfold countSize at hshort
    obtain ⟨h, hslice, hh, h₁⟩ := exists_sliceAt b (versionSize + hashLenSize) hashLen (by omega)
    obtain ⟨n, hn, -, h₂⟩ := exists_uintAt b (versionSize + hashLenSize + hashLen) countSize
      (by unfold countSize; omega)
    rw [hslice, hn]
    simp only
    split_ifs with hwant
    · exact .inl ⟨_, rfl⟩
    · rw [ne_eq, not_not] at hwant
      obtain ⟨rs, hrs, hcount, h₃⟩ := exists_decodeRecords float64bits b n
        (versionSize + hashLenSize + hashLen + countSize) hwant.ge
      refine .inr ⟨h, rs, by rw [hrs]; rfl, ?_⟩
      rw [← hwant, List.drop_length, List.append_nil] at h₃
      rw [encodeHistory, h₀, h₁, h₂, h₃, hh, hcount]

/-- A blob that is not empty is refused with an error, or is the encoding of what it decodes to. -/
theorem decodeHistory_cases {b : Bytes} (hb : b ≠ []) :
    (∃ m, decodeHistory float64bits b = .error (.err m)) ∨
      ∃ h rs, decodeHistory float64bits b = .ok (h, rs) ∧ encodeHistory float64bits h rs = b := by
  obtain ⟨version, rest, rfl⟩ := List.exists_cons_of_ne_nil hb
  rw [decodeHistory]
  split_ifs with hversion hshort
  · exact .inl ⟨_, rfl⟩
  · exact .inl ⟨_, rfl⟩
  · rw [ne_eq, not_not] at hversion
    rcases decodeBody_cases float64bits (Nat.le_of_not_lt hshort) with herr | ⟨h, rs, hok, henc⟩
    · exact .inl herr
    · refine .inr ⟨h, rs, hok, ?_⟩
      rw [← henc, hversion]
      rfl

/-- **The codec is a bijection onto what it accepts.** A history that fits its header is read back exactly; and a blob
that is not empty is refused with an error, or is the encoding of what it decodes to. In neither case is a byte read
outside of the blob. -/
theorem decodeHistory_bijective (float64bits : F ≃ UInt64) :
    (∀ (h : Bytes) (rs : List (Record F)), h.length ≤ 65535 → rs.length < 2 ^ 32 →
        (∀ r ∈ rs, Int64Time r.sample.timestamp) →
        decodeHistory float64bits (encodeHistory float64bits h rs) = .ok (h, rs)) ∧
      ∀ b : Bytes, b ≠ [] →
        (∃ m, decodeHistory float64bits b = .error (.err m)) ∨
          ∃ h rs, decodeHistory float64bits b = .ok (h, rs) ∧ encodeHistory float64bits h rs = b :=
  ⟨fun _ _ hh hn hrs => decodeHistory_encodeHistory (by omega) hn hrs, fun _ hb => decodeHistory_cases float64bits hb⟩

end KynoMesh.History
