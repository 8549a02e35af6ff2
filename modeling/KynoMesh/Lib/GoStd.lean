import Mathlib.Data.List.Basic
import Mathlib.Data.List.DropRight
import Mathlib.Data.List.Sort
import Mathlib.Tactic.Ring

/-!
# Pieces of Go's standard library

* `itoa`, `atoi` : `strconv.Itoa` and `strconv.Atoi` (optional sign, decimal digits, `int64` range), and
  `atoi_itoa`, `itoa_injective`, `itoa_append_injective` : a non-negative index is read back as written;
* `zeroTime`, `timeSub`, `truncSecond` : the zero `time.Time`, the saturating `Time.Sub`, and the truncation to whole
  seconds of a time that passes through RFC 3339 text. An instant is an `Int`, in nanoseconds since the Unix epoch;
  so is a duration;
* `toInt_sub_of_mem` and its companions : `int32` arithmetic that does not wrap around;
* `trimSpace`, `equalFoldASCII` : `strings.TrimSpace`, and `strings.EqualFold` with an ASCII string;
* `GoMath` : the parts of `math` and of the `float64` conversions that the field operations do not give;
* `SortSlice` : a function that does what `sort.Slice` is documented to do; `ComparisonSort` : one that sees the elements
  only through its comparisons, as every implementation of `sort.Slice` has to.
-/

namespace KynoMesh.Lib

/-! ## Decimal integers -/

/-- `strconv.Itoa`. -/
def itoa (n : Int) : String := toString n

/-- The value of a non-empty string of decimal digits. -/
def parseDigits (ds : List Char) : Option Nat :=
  if ds.isEmpty || !ds.all Char.isDigit then none else some (Nat.ofDigitChars 10 ds 0)

/-- `strconv.Atoi`; `none` for a syntax or range error. -/
def atoi (s : String) : Option Int :=
  let v : Option Int :=
    match s.toList with
    | '-' :: ds => (parseDigits ds).map fun k => -(k : Int)
    | '+' :: ds => (parseDigits ds).map fun k => (k : Int)
    | ds => (parseDigits ds).map fun k => (k : Int)
  v.filter fun k => decide (-2 ^ 63 ≤ k ∧ k < 2 ^ 63)

theorem parseDigits_toDigits (n : Nat) : parseDigits (Nat.toDigits 10 n) = some n := by
  have hne : (Nat.toDigits 10 n).isEmpty = false := by
    rw [List.isEmpty_eq_false_iff]
    exact Nat.toDigits_ne_nil
  have hall : (Nat.toDigits 10 n).all Char.isDigit = true := by
    rw [List.all_eq_true]
    exact fun c hc => Nat.isDigit_of_mem_toDigits (by decide) (by decide) hc
  simp [parseDigits, hne, hall]

theorem toList_itoa (n : Nat) : (itoa n).toList = Nat.toDigits 10 n := by
  change n.repr.toList = _
  exact Nat.toList_repr

theorem itoa_injective {n m : Nat} (h : itoa n = itoa m) : n = m := by
  have hdigits := congrArg (fun s => parseDigits s.toList) h
  simpa only [toList_itoa, parseDigits_toDigits, Option.some.injEq] using hdigits

/-- An index can be read off what it is followed by, if that starts with no digit. -/
theorem itoa_append_injective {n m : Nat} {c : Char} (hc : c.isDigit = false) {s t : List Char}
    (h : (itoa n).toList ++ c :: s = (itoa m).toList ++ c :: t) : n = m := by
  have hdigits : ∀ (k : Nat) (u : List Char),
      ((itoa k).toList ++ c :: u).takeWhile Char.isDigit = (itoa k).toList := by
    intro k u
    rw [List.takeWhile_append_of_pos fun d hd => ?_, List.takeWhile_cons_of_neg (by simp [hc]), List.append_nil]
    rw [toList_itoa] at hd
    exact Nat.isDigit_of_mem_toDigits (by decide) (by decide) hd
  have hread := congrArg (List.takeWhile Char.isDigit) h
  rw [hdigits, hdigits] at hread
  exact itoa_injective (String.toList_injective hread)

theorem atoi_itoa {n : Nat} (hn : n < 2 ^ 63) : atoi (itoa n) = some (n : Int) := by
  have hl := toList_itoa n
  have hdig : ∀ c ∈ Nat.toDigits 10 n, c.isDigit := fun c hc =>
    Nat.isDigit_of_mem_toDigits (by decide) (by decide) hc
  -- the first character is a digit, hence neither sign
  have hparse : (match Nat.toDigits 10 n with
      | '-' :: ds => (parseDigits ds).map fun k => -(k : Int)
      | '+' :: ds => (parseDigits ds).map fun k => (k : Int)
      | ds => (parseDigits ds).map fun k => (k : Int)) = some (n : Int) := by
    split
    · next ds h => exact absurd (hdig '-' (by rw [h]; simp)) (by decide)
    · next ds h => exact absurd (hdig '+' (by rw [h]; simp)) (by decide)
    · rw [parseDigits_toDigits]; rfl
  unfold atoi
  simp only [hl, hparse, Option.filter]
  rw [if_pos]
  simp only [decide_eq_true_eq]
  omega

/-! ## Text -/

/-- `unicode.IsSpace`. -/
def isSpace (c : Char) : Bool :=
  (9 ≤ c.toNat && c.toNat ≤ 13) || (0x2000 ≤ c.toNat && c.toNat ≤ 0x200a) ||
    c.toNat ∈ [0x20, 0x85, 0xa0, 0x1680, 0x2028, 0x2029, 0x202f, 0x205f, 0x3000]

/-- `strings.TrimSpace`. -/
def trimSpace (s : List Char) : List Char := (s.dropWhile isSpace).rdropWhile isSpace

/-- The ASCII letter that a character folds to; the long s and the kelvin sign fold to ASCII, too. -/
def foldASCII (c : Char) : Char :=
  if c.toNat = 0x17f then 's' else if c.toNat = 0x212a then 'k' else c.toLower

/-- `strings.EqualFold` of any string and an ASCII string. -/
def equalFoldASCII (s ascii : List Char) : Bool := s.map foldASCII == ascii.map foldASCII

/-! ## Time -/

def second : Int := 10 ^ 9

/-- The zero `time.Time`: January 1 of year 1, UTC. -/
def zeroTime : Int := -62135596800 * second

/-- `t.Sub(u)`: the difference, saturated to the `int64` range. -/
def timeSub (t u : Int) : Int := max (-2 ^ 63) (min (t - u) (2 ^ 63 - 1))

theorem le_sub_of_le_timeSub {t u d : Int} (hd : 0 ≤ d) (h : d ≤ timeSub t u) : d ≤ t - u := by
  unfold timeSub at h
  omega

theorem timeSub_lt_iff {t u d : Int} (h : u ≤ t) (hd : d < 2 ^ 63) : timeSub t u < d ↔ t - u < d := by
  unfold timeSub
  omega

/-- The whole-second part of `t`: what survives RFC 3339 text without a fraction. -/
def truncSecond (t : Int) : Int := t - t % second

theorem lt_truncSecond_add (t : Int) : t < truncSecond t + second := by
  have := Int.emod_lt_of_pos t (show 0 < second by decide)
  unfold truncSecond
  omega

@[simp] theorem truncSecond_truncSecond (t : Int) : truncSecond (truncSecond t) = truncSecond t := by
  have h : (t - t % second) % second = 0 := by rw [Int.sub_emod, Int.emod_emod_of_dvd _ (dvd_refl second)]; simp
  rw [truncSecond, truncSecond, h, Int.sub_zero]

/-- `d.Seconds()` splits a duration into its whole seconds and the nanoseconds left, both with its sign. -/
def wholeSeconds (d : Int) : Int × Int := (d.tdiv second, d.tmod second)

/-! ## 32-bit integers -/

theorem toInt_sub_of_mem {a b : Int32} (hlo : -2 ^ 31 ≤ a.toInt - b.toInt) (hhi : a.toInt - b.toInt < 2 ^ 31) :
    (a - b).toInt = a.toInt - b.toInt := by
  rw [Int32.toInt_sub]
  exact Int.bmod_eq_of_le (by omega) (by omega)

theorem toInt_add_of_mem {a b : Int32} (hlo : -2 ^ 31 ≤ a.toInt + b.toInt) (hhi : a.toInt + b.toInt < 2 ^ 31) :
    (a + b).toInt = a.toInt + b.toInt := by
  rw [Int32.toInt_add]
  exact Int.bmod_eq_of_le (by omega) (by omega)

theorem toInt_toInt32 {u : UInt32} (h : u.toNat < 2 ^ 31) : u.toInt32.toInt = u.toNat :=
  BitVec.toInt_eq_toNat_of_lt (by change 2 * u.toNat < 2 ^ 32; omega)

theorem toInt_min (a b : Int32) : (min a b).toInt = min a.toInt b.toInt := by
  change (if a ≤ b then a else b).toInt = _
  by_cases h : a ≤ b
  · rw [if_pos h, min_eq_left (Int32.le_iff_toInt_le.mp h)]
  · rw [if_neg h, min_eq_right (Int.le_of_lt (Int.not_le.mp (h ∘ Int32.le_iff_toInt_le.mpr)))]

theorem toInt_max (a b : Int32) : (max a b).toInt = max a.toInt b.toInt := by
  change (if a ≤ b then b else a).toInt = _
  by_cases h : a ≤ b
  · rw [if_pos h, max_eq_right (Int32.le_iff_toInt_le.mp h)]
  · rw [if_neg h, max_eq_left (Int.le_of_lt (Int.not_le.mp (h ∘ Int32.le_iff_toInt_le.mpr)))]

/-! ## Floating point -/

/-- Of a number type that stands for `float64`: the test for NaN, `int32(math.Ceil(x))`, `int(x)`, `math.Exp` and
`math.Ln2`. -/
structure GoMath (F : Type) where
  isNaN : F → Bool
  ceilInt32 : F → Int32
  truncInt : F → Int
  exp : F → F
  ln2 : F

/-! ## Sorting -/

/-- A function that permutes a slice so that no element is less than an earlier one. Elements that compare equal may
come in any order. -/
structure SortSlice (α : Type) (less : α → α → Bool) where
  run : List α → List α
  perm : ∀ l, (run l).Perm l
  sorted : ∀ l, (run l).Pairwise fun a b => less b a = false

/-- Insertion by a key. -/
def SortSlice.insertion {α κ : Type} [LinearOrder κ] (f : α → κ) : SortSlice α fun a b => decide (f a < f b) where
  run := List.insertionSort fun a b => f a ≤ f b
  perm := List.perm_insertionSort _
  sorted := by
    intro l
    have : Std.Total fun a b : α => f a ≤ f b := ⟨fun a b => le_total _ _⟩
    have : IsTrans α fun a b => f a ≤ f b := ⟨fun _ _ _ => le_trans⟩
    simpa using List.pairwise_insertionSort (fun a b => f a ≤ f b) l

/-- A sort that learns of the elements only how they compare: elements that compare alike are put in the same order. -/
structure ComparisonSort (α : Type) (less : α → α → Bool) extends SortSlice α less where
  run_map : ∀ f : α → α, (∀ a b, less (f a) (f b) = less a b) → ∀ l, run (l.map f) = (run l).map f

def ComparisonSort.insertion {α κ : Type} [LinearOrder κ] (f : α → κ) :
    ComparisonSort α fun a b => decide (f a < f b) where
  toSortSlice := SortSlice.insertion f
  run_map := by
    intro g hg l
    refine (List.map_insertionSort _ _ g l fun a _ b _ => ?_).symm
    have hlt : f (g b) < f (g a) ↔ f b < f a := by simpa using hg b a
    rw [← not_lt, ← not_lt, hlt]

end KynoMesh.Lib
