import Mathlib.Algebra.Group.Nat.Defs
import Mathlib.Data.List.Basic
import Mathlib.Data.List.Induction

/-!
# Big-endian words in byte strings

`putBE k n` writes the low `8 * k` bits of `n` as `k` bytes, most significant first; `uintAt` and `sliceAt` read a
word or a slice at an offset, `none` standing for an index out of range.

* `getBE_putBE` : reading back gives the number modulo `256 ^ k`;
* `putBE_getBE` : writing back gives the bytes;
* `uintAt_of_drop`, `drop_add_of_drop` : a reader that stands before a word reads it and then stands behind it;
* `exists_uintAt`, `exists_sliceAt` : a read in range succeeds, and the bytes it read are those of its result.
-/

namespace KynoMesh.Lib

/-- A byte string, as Go's `[]byte` and `string` are. -/
abbrev Bytes := List UInt8

def putBE : Nat → Nat → Bytes
  | 0, _ => []
  | k + 1, n => putBE k (n / 256) ++ [UInt8.ofNat n]

def getBE (b : Bytes) : Nat := b.foldl (fun n x => n * 256 + x.toNat) 0

/-- The word of `k` bytes at `b[off:]`. -/
def uintAt (k : Nat) (b : Bytes) (off : Nat) : Option Nat :=
  if off + k ≤ b.length then some (getBE ((b.drop off).take k)) else none

/-- `b[off : off+n]`. -/
def sliceAt (b : Bytes) (off n : Nat) : Option Bytes :=
  if off + n ≤ b.length then some ((b.drop off).take n) else none

@[simp] theorem length_putBE (k n : Nat) : (putBE k n).length = k := by
  induction k generalizing n with
  | zero => rfl
  | succ k ih => rw [putBE, List.length_append, ih, List.length_singleton]

theorem getBE_append_singleton (b : Bytes) (x : UInt8) : getBE (b ++ [x]) = getBE b * 256 + x.toNat := by
  rw [getBE, List.foldl_append]
  rfl

theorem getBE_putBE (k n : Nat) : getBE (putBE k n) = n % 256 ^ k := by
  induction k generalizing n with
  | zero => simp [putBE, getBE, Nat.mod_one]
  | succ k ih =>
    have hdigit : n % 256 ^ (k + 1) = n % 256 + 256 * (n / 256 % 256 ^ k) := by
      rw [Nat.pow_succ', Nat.mod_mul]
    rw [putBE, getBE_append_singleton, ih, UInt8.toNat_ofNat', hdigit]
    omega

theorem putBE_getBE (b : Bytes) : putBE b.length (getBE b) = b := by
  induction b using List.reverseRecOn with
  | nil => rfl
  | append_singleton b x ih =>
    have hx := x.toNat_lt
    have hdiv : (getBE b * 256 + x.toNat) / 256 = getBE b := by omega
    have hlow : UInt8.ofNat (getBE b * 256 + x.toNat) = x := by
      apply UInt8.toNat_inj.mp
      rw [UInt8.toNat_ofNat']
      omega
    rw [List.length_append, List.length_singleton, putBE, getBE_append_singleton, hdiv, hlow, ih]

theorem getBE_lt (b : Bytes) : getBE b < 256 ^ b.length := by
  have h := getBE_putBE b.length (getBE b)
  rw [putBE_getBE] at h
  rw [h]
  exact Nat.mod_lt _ (Nat.pow_pos (by decide))

section
variable {b w rest : Bytes} {off k n : Nat}

theorem le_length_of_drop (hk : w.length = k) (hw : w ≠ []) (h : b.drop off = w ++ rest) : off + k ≤ b.length := by
  have hlen := congrArg List.length h
  rw [List.length_drop, List.length_append] at hlen
  have := List.length_pos_iff.mpr hw
  omega

theorem drop_add_of_drop (hk : w.length = k) (h : b.drop off = w ++ rest) : b.drop (off + k) = rest := by
  rw [← List.drop_drop, h, List.drop_left' hk]

theorem sliceAt_of_drop (hk : w.length = k) (hle : off + k ≤ b.length) (h : b.drop off = w ++ rest) :
    sliceAt b off k = some w := by
  rw [sliceAt, if_pos hle, h, List.take_left' hk]

theorem uintAt_of_drop (hk : 0 < k) (h : b.drop off = putBE k n ++ rest) : uintAt k b off = some (n % 256 ^ k) := by
  have hne : putBE k n ≠ [] := List.ne_nil_of_length_pos (by rwa [length_putBE])
  rw [uintAt, if_pos (le_length_of_drop (length_putBE k n) hne h), h, List.take_left' (length_putBE k n),
    getBE_putBE]

theorem drop_eq_take_append (b : Bytes) (off k : Nat) :
    b.drop off = (b.drop off).take k ++ b.drop (off + k) := by
  rw [← List.drop_drop, List.take_append_drop]

theorem exists_sliceAt (b : Bytes) (off k : Nat) (h : off + k ≤ b.length) :
    ∃ w, sliceAt b off k = some w ∧ w.length = k ∧ b.drop off = w ++ b.drop (off + k) := by
  refine ⟨(b.drop off).take k, by rw [sliceAt, if_pos h], ?_, drop_eq_take_append b off k⟩
  rw [List.length_take, List.length_drop]
  omega

theorem exists_uintAt (b : Bytes) (off k : Nat) (h : off + k ≤ b.length) :
    ∃ n, uintAt k b off = some n ∧ n < 256 ^ k ∧ b.drop off = putBE k n ++ b.drop (off + k) := by
  obtain ⟨w, -, hk, hw⟩ := exists_sliceAt b off k h
  refine ⟨getBE w, ?_, ?_, ?_⟩
  · rw [uintAt, if_pos h, hw, List.take_left' hk]
  · rw [← hk]
    exact getBE_lt w
  · rw [← hk, putBE_getBE, hk]
    exact hw

end

end KynoMesh.Lib
