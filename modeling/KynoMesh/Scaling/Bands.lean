import Mathlib.Algebra.BigOperators.Group.Finset.Piecewise
import Mathlib.Data.List.Induction
import Mathlib.Data.List.Pairwise
import KynoMesh.Lib.Exact
import KynoMesh.Lib.WeightedMean
import KynoMesh.Scaling.Estimator

/-!
# The bands of the estimator, in exact arithmetic

`bucketize` bins the samples of a history by a truncated quotient and collapses each band to its weighted means.

* `sound_of_mem_sanitize` : clean samples have a positive load and a positive rate;
* `bucketIndex_eq`, `bucketIndex_mono` : the index of a band;
* `foldlM_accumulate` : the sums that the loop collects, band by band;
* `occupied`, `bucketize_eq` : the buckets are the means of the bands that have samples, in ascending order;
* `sum_occupied` : every clean sample is in one band.
-/

namespace KynoMesh.Scaling

open KynoMesh.Lib KynoMesh.History

variable {K : Type} [Field K] [LinearOrder K]

/-! ## Clean samples -/

theorem scanSample_clean (math : GoMath K) (c : WarmupScan K) (s : Sample K) :
    (scanSample math c s).clean = c.clean ∨ ((scanSample math c s).clean = c.clean ++ [s] ∧ s.valid math = true) := by
  unfold scanSample
  dsimp only
  by_cases h : s.valid math = true ∧ ¬((if s.replicas ≠ c.prevReplicas then s.timestamp else c.lastChange) ≠ zeroTime ∧
      timeSub s.timestamp (if s.replicas ≠ c.prevReplicas then s.timestamp else c.lastChange) < warmupAfterScale)
  · rw [if_pos h]
    exact .inr ⟨rfl, h.1⟩
  · rw [if_neg h]
    exact .inl rfl

theorem valid_of_mem_sanitize {math : GoMath K} {byTime : SortSlice (Sample K) earlier} {hist : List (Sample K)}
    {s : Sample K} (hs : s ∈ sanitize math byTime hist) : s.valid math = true := by
  have hscan : ∀ (l : List (Sample K)) (c : WarmupScan K), (∀ s ∈ c.clean, s.valid math = true) →
      ∀ s ∈ (l.foldl (scanSample math) c).clean, s.valid math = true := by
    intro l
    induction l with
    | nil => exact fun c hc => hc
    | cons a l ih =>
      intro c hc
      refine ih _ fun s hs => ?_
      rcases scanSample_clean math c a with h | ⟨h, hvalid⟩
      · exact hc s (h ▸ hs)
      · rw [h] at hs
        rcases List.mem_append.mp hs with hs | hs
        · exact hc s hs
        · rw [List.mem_singleton.mp hs]
          exact hvalid
  unfold sanitize at hs
  split at hs
  · cases hs
  · exact hscan _ _ (by simp) s hs

theorem sound_of_mem_sanitize {math : GoMath K} {byTime : SortSlice (Sample K) earlier} {hist : List (Sample K)}
    {s : Sample K} (hs : s ∈ sanitize math byTime hist) : 0 < s.inflightPerRep ∧ 0 < s.ratePerRep := by
  have h := valid_of_mem_sanitize hs
  simp only [Sample.valid, Bool.and_eq_true, decide_eq_true_eq] at h
  exact ⟨h.1.1.1.2, h.1.1.2⟩

/-- The least and the largest load, as the loop of `bucketize` finds them. -/
def minLoad (first : Sample K) (clean : List (Sample K)) : K :=
  clean.foldl (fun m s => min m s.inflightPerRep) first.inflightPerRep

def maxLoad (first : Sample K) (clean : List (Sample K)) : K :=
  clean.foldl (fun m s => max m s.inflightPerRep) first.inflightPerRep

omit [Field K] [LinearOrder K] in
/-- A loop that keeps the better one of two values ends with the best one. -/
theorem foldl_best {r : K → K → Prop} {op : K → K → K} (hrefl : ∀ a, r a a) (htrans : ∀ {a b c}, r a b → r b c → r a c)
    (hop : ∀ a b, r (op a b) a ∧ r (op a b) b ∧ (op a b = a ∨ op a b = b)) (l : List (Sample K)) (m : K) :
    r (l.foldl (fun m s => op m s.inflightPerRep) m) m ∧
      (∀ s ∈ l, r (l.foldl (fun m s => op m s.inflightPerRep) m) s.inflightPerRep) ∧
      (l.foldl (fun m s => op m s.inflightPerRep) m = m ∨
        ∃ s ∈ l, l.foldl (fun m s => op m s.inflightPerRep) m = s.inflightPerRep) := by
  induction l generalizing m with
  | nil => exact ⟨hrefl m, by simp, .inl rfl⟩
  | cons a l ih =>
    obtain ⟨hm, hl, hmem⟩ := ih (op m a.inflightPerRep)
    obtain ⟨hleft, hright, hor⟩ := hop m a.inflightPerRep
    rw [List.foldl_cons]
    refine ⟨htrans hm hleft, ?_, ?_⟩
    · intro s hs
      rcases List.mem_cons.mp hs with rfl | hs
      · exact htrans hm hright
      · exact hl s hs
    · rcases hmem with h | ⟨s, hs, h⟩
      · rcases hor with hop | hop
        · exact .inl (h.trans hop)
        · exact .inr ⟨a, List.mem_cons_self, h.trans hop⟩
      · exact .inr ⟨s, List.mem_cons_of_mem _ hs, h⟩

omit [Field K] [LinearOrder K] in
theorem foldl_best_mem {r : K → K → Prop} {op : K → K → K} (hrefl : ∀ a, r a a)
    (htrans : ∀ {a b c}, r a b → r b c → r a c) (hop : ∀ a b, r (op a b) a ∧ r (op a b) b ∧ (op a b = a ∨ op a b = b))
    {l : List (Sample K)} {first : Sample K} (hfirst : first ∈ l) :
    (∀ s ∈ l, r (l.foldl (fun m s => op m s.inflightPerRep) first.inflightPerRep) s.inflightPerRep) ∧
      ∃ s ∈ l, s.inflightPerRep = l.foldl (fun m s => op m s.inflightPerRep) first.inflightPerRep := by
  obtain ⟨-, hbest, hmem⟩ := foldl_best hrefl htrans hop l first.inflightPerRep
  refine ⟨hbest, ?_⟩
  rcases hmem with h | ⟨s, hs, h⟩
  · exact ⟨first, hfirst, h.symm⟩
  · exact ⟨s, hs, h.symm⟩

omit [Field K] in
theorem minLoad_spec {first : Sample K} {clean : List (Sample K)} (hfirst : first ∈ clean) :
    (∀ s ∈ clean, minLoad first clean ≤ s.inflightPerRep) ∧ ∃ s ∈ clean, s.inflightPerRep = minLoad first clean :=
  foldl_best_mem (r := fun a b => a ≤ b) (fun _ => le_rfl) le_trans
    (fun a b => ⟨min_le_left a b, min_le_right a b, min_choice a b⟩) hfirst

omit [Field K] in
theorem maxLoad_spec {first : Sample K} {clean : List (Sample K)} (hfirst : first ∈ clean) :
    (∀ s ∈ clean, s.inflightPerRep ≤ maxLoad first clean) ∧ ∃ s ∈ clean, s.inflightPerRep = maxLoad first clean :=
  foldl_best_mem (r := fun a b => b ≤ a) (fun _ => le_rfl) (fun h h' => le_trans h' h)
    (fun a b => ⟨le_max_left a b, le_max_right a b, max_choice a b⟩) hfirst

/-! ## Indices -/

section
variable [IsStrictOrderedRing K] [FloorRing K] {math : GoMath K} {minI span : K}

theorem bucketIndex_eq (hm : math.Exact) (hspan : 0 < span) {x : K} (hx : minI ≤ x) :
    bucketIndex math minI span x = min ⌊(x - minI) / span * 10⌋ 9 := by
  have h0 : 0 ≤ (x - minI) / span * 10 := mul_nonneg (div_nonneg (sub_nonneg.mpr hx) hspan.le) (by norm_num)
  unfold bucketIndex numBuckets
  push_cast
  rw [hm.truncInt_eq, if_pos h0]
  split_ifs
  · omega
  · omega

theorem bucketIndex_mem (hm : math.Exact) (hspan : 0 < span) {x : K} (hx : minI ≤ x) :
    0 ≤ bucketIndex math minI span x ∧ bucketIndex math minI span x < 10 := by
  have h0 : 0 ≤ (x - minI) / span * 10 := mul_nonneg (div_nonneg (sub_nonneg.mpr hx) hspan.le) (by norm_num)
  have hfloor := Int.floor_nonneg.mpr h0
  rw [bucketIndex_eq hm hspan hx]
  omega

theorem bucketIndex_mono (hm : math.Exact) (hspan : 0 < span) {x y : K} (hx : minI ≤ x) (hxy : x ≤ y) :
    bucketIndex math minI span x ≤ bucketIndex math minI span y := by
  rw [bucketIndex_eq hm hspan hx, bucketIndex_eq hm hspan (hx.trans hxy)]
  have : ⌊(x - minI) / span * 10⌋ ≤ ⌊(y - minI) / span * 10⌋ := by
    apply Int.floor_le_floor
    gcongr
  omega

theorem bucketIndex_min (hm : math.Exact) (minI : K) (hspan : 0 < span) : bucketIndex math minI span minI = 0 := by
  rw [bucketIndex_eq hm hspan le_rfl, sub_self, zero_div, zero_mul, Int.floor_zero]
  rfl

theorem bucketIndex_max (hm : math.Exact) (minI : K) (hspan : 0 < span) :
    bucketIndex math minI span (minI + span) = 9 := by
  rw [bucketIndex_eq hm hspan (le_add_of_nonneg_right hspan.le), add_sub_cancel_left, div_self hspan.ne', one_mul]
  have : ⌊(10 : K)⌋ = 10 := by exact_mod_cast Int.floor_intCast (10 : Int)
  rw [this]
  rfl

/-! ## The sums of the bands -/

/-- The recency weight of a sample. -/
def weightAt (math : GoMath K) (now : Int) (s : Sample K) : K := recencyWeight math (timeSub now s.timestamp)

theorem weightAt_pos (hm : math.Exact) (now : Int) (s : Sample K) : 0 < weightAt math now s := by
  unfold weightAt recencyWeight
  split_ifs
  · norm_num
  · exact hm.exp_pos _

/-- What the loop of `bucketize` has collected from the samples `l` of a band. -/
def bandAcc (math : GoMath K) (now : Int) (l : List (Sample K)) : Acc K where
  wInflight := (l.map fun s => s.inflightPerRep * weightAt math now s).sum
  wRate := (l.map fun s => s.ratePerRep * weightAt math now s).sum
  w := (l.map (weightAt math now)).sum

/-- The samples of the band `i`. -/
def bandOf (math : GoMath K) (minI span : K) (clean : List (Sample K)) (i : Nat) : List (Sample K) :=
  clean.filter fun s => decide (bucketIndex math minI span s.inflightPerRep = i)

omit [Field K] [LinearOrder K] [IsStrictOrderedRing K] [FloorRing K] in
theorem modify_map_range {A : Nat → Acc K} {f : Acc K → Acc K} (n k : Nat) :
    ((List.range n).map A).modify k f = (List.range n).map fun i => if i = k then f (A i) else A i := by
  apply List.ext_getElem
  · simp
  · intro i h1 h2
    simp only [List.getElem_modify, List.getElem_map, List.getElem_range]
    by_cases h : i = k
    · rw [if_pos h, if_pos h.symm]
    · rw [if_neg h, if_neg (Ne.symm h)]

/-- **The loop of `bucketize`.** Every index is in range, and each band has the sums over its own samples. -/
theorem foldlM_accumulate (hm : math.Exact) (hspan : 0 < span) (now : Int) {clean : List (Sample K)}
    (hmin : ∀ s ∈ clean, minI ≤ s.inflightPerRep) :
    clean.foldlM (accumulate math now minI span) (List.replicate numBuckets ⟨0, 0, 0⟩) =
      some ((List.range 10).map fun i => bandAcc math now (bandOf math minI span clean i)) := by
  induction clean using List.reverseRecOn with
  | nil => rfl
  | append_singleton clean s ih =>
    have hs := bucketIndex_mem hm hspan (hmin s (by simp))
    rw [List.foldlM_append, ih fun x hx => hmin x (by simp [hx])]
    change ((accumulate math now minI span _ s).bind fun accs => some accs) = _
    unfold accumulate updateAt
    dsimp only
    rw [if_pos (by simp; exact hs), modify_map_range, Option.bind_some]
    congr 1
    apply List.map_congr_left
    intro i _
    -- the band of the sample grows by it, the others stay
    by_cases hi : bucketIndex math minI span s.inflightPerRep = i
    · have hband : bandOf math minI span (clean ++ [s]) i = bandOf math minI span clean i ++ [s] := by
        simp [bandOf, List.filter_append, hi]
      rw [if_pos (by omega), hband]
      simp [bandAcc, weightAt]
    · have hband : bandOf math minI span (clean ++ [s]) i = bandOf math minI span clean i := by
        simp [bandOf, List.filter_append, hi]
      rw [if_neg (by omega), hband]

/-! ## The buckets -/

/-- The bands that have samples. -/
def bands (math : GoMath K) (minI span : K) (clean : List (Sample K)) : List (List (Sample K)) :=
  ((List.range 10).map (bandOf math minI span clean)).filter fun l => !l.isEmpty

/-- The weighted means of a band. -/
def bandBucket (math : GoMath K) (now : Int) (l : List (Sample K)) : Bucket K where
  inflight := weightedMean (weightAt math now) Sample.inflightPerRep l
  rate := weightedMean (weightAt math now) Sample.ratePerRep l
  weight := (l.map (weightAt math now)).sum

omit [LinearOrder K] [IsStrictOrderedRing K] [FloorRing K] in
theorem mem_bands {clean l : List (Sample K)} :
    l ∈ bands math minI span clean ↔ l ≠ [] ∧ ∃ i < 10, bandOf math minI span clean i = l := by
  unfold bands
  rw [List.mem_filter, List.mem_map, Bool.not_eq_true', List.isEmpty_eq_false_iff]
  simp only [List.mem_range]
  exact and_comm

omit [LinearOrder K] [IsStrictOrderedRing K] [FloorRing K] in
theorem subset_of_mem_bands {clean l : List (Sample K)} (hl : l ∈ bands math minI span clean) {s : Sample K}
    (hs : s ∈ l) : s ∈ clean := by
  obtain ⟨-, i, -, rfl⟩ := mem_bands.mp hl
  exact (List.mem_filter.mp hs).1

theorem exists_mem_bands (hm : math.Exact) (hspan : 0 < span) {clean : List (Sample K)}
    (hmin : ∀ s ∈ clean, minI ≤ s.inflightPerRep) {s : Sample K} (hs : s ∈ clean) :
    ∃ l ∈ bands math minI span clean, s ∈ l ∧
      ∀ a ∈ l, bucketIndex math minI span a.inflightPerRep = bucketIndex math minI span s.inflightPerRep := by
  obtain ⟨h0, h10⟩ := bucketIndex_mem hm hspan (hmin s hs)
  have hself : s ∈ bandOf math minI span clean (bucketIndex math minI span s.inflightPerRep).toNat := by
    refine List.mem_filter.mpr ⟨hs, ?_⟩
    rw [decide_eq_true_eq]
    omega
  refine ⟨_, mem_bands.mpr ⟨List.ne_nil_of_mem hself, _, by omega, rfl⟩, hself, fun a ha => ?_⟩
  have := (List.mem_filter.mp ha).2
  rw [decide_eq_true_eq] at this
  omega

/-- Every sample of a band is below every sample of a later one. -/
theorem bands_pairwise (hm : math.Exact) (hspan : 0 < span) {clean : List (Sample K)}
    (hmin : ∀ s ∈ clean, minI ≤ s.inflightPerRep) :
    (bands math minI span clean).Pairwise fun l l' => ∀ a ∈ l, ∀ b ∈ l', a.inflightPerRep < b.inflightPerRep := by
  refine List.Pairwise.filter _ (List.pairwise_map.mpr (List.pairwise_lt_range.imp ?_))
  intro i j hij a ha b hb
  obtain ⟨-, hai⟩ := List.mem_filter.mp ha
  obtain ⟨hbc, hbj⟩ := List.mem_filter.mp hb
  rw [decide_eq_true_eq] at hai hbj
  by_contra hle
  have := bucketIndex_mono hm hspan (hmin b hbc) (not_lt.mp hle)
  omega

theorem bandBucket_pairwise (hm : math.Exact) (hspan : 0 < span) (now : Int) {clean : List (Sample K)}
    (hmin : ∀ s ∈ clean, minI ≤ s.inflightPerRep) :
    ((bands math minI span clean).map (bandBucket math now)).Pairwise fun a b => a.inflight < b.inflight := by
  have hne : ∀ l ∈ bands math minI span clean, l ≠ [] := fun l hl => (mem_bands.mp hl).1
  rw [List.pairwise_map]
  refine List.Pairwise.imp_of_mem ?_ (bands_pairwise hm hspan hmin)
  intro l l' hl hl' hlt
  exact weightedMean_lt_weightedMean (fun a _ => weightAt_pos hm now a) (hne l hl) (fun b _ => weightAt_pos hm now b)
    (hne l' hl') hlt

omit [Field K] [IsStrictOrderedRing K] [FloorRing K] in
theorem run_eq_self (byInflight : SortSlice (Bucket K) lighter) {bs : List (Bucket K)}
    (h : bs.Pairwise fun a b => a.inflight < b.inflight) : byInflight.run bs = bs := by
  have hle : bs.Pairwise fun a b => lighter b a = false :=
    h.imp fun hab => by simpa [lighter] using hab.le
  refine (byInflight.perm bs).eq_of_pairwise ?_ (byInflight.sorted bs) hle
  intro a b ha hb hab hba
  -- two buckets with the same load are one
  simp only [lighter, decide_eq_false_iff_not, not_lt] at hab hba
  have hsymm : Std.Symm fun a b : Bucket K => a.inflight ≠ b.inflight := ⟨fun _ _ h => h.symm⟩
  have hdistinct : bs.Pairwise fun a b => a.inflight ≠ b.inflight := h.imp fun hlt => hlt.ne
  by_contra hne
  exact hdistinct.forall ((byInflight.perm bs).mem_iff.mp ha) hb hne (le_antisymm hab hba)

theorem decide_bandAcc_w (hm : math.Exact) (now : Int) (l : List (Sample K)) :
    decide (¬(bandAcc math now l).w ≤ 0) = !l.isEmpty := by
  cases l with
  | nil => simp [bandAcc]
  | cons a l =>
    have hpos : 0 < (bandAcc math now (a :: l)).w :=
      sum_weights_pos (fun s _ => weightAt_pos hm now s) (List.cons_ne_nil a l)
    simpa using hpos

/-- The sums with weight, divided by it, are the buckets of the bands with samples. -/
theorem filter_bandAcc (hm : math.Exact) (now : Int) (clean : List (Sample K)) :
    (((List.range 10).map fun i => bandAcc math now (bandOf math minI span clean i)).filter fun a => ¬a.w ≤ 0).map
        (fun a => ({ inflight := a.wInflight / a.w, rate := a.wRate / a.w, weight := a.w } : Bucket K)) =
      (bands math minI span clean).map (bandBucket math now) := by
  unfold bands
  rw [List.filter_map, List.filter_map, List.map_map, List.map_map]
  have hfilter := List.filter_congr (l := List.range 10) fun i _ =>
    decide_bandAcc_w hm now (bandOf math minI span clean i)
  exact congrArg (List.map fun i => bandBucket math now (bandOf math minI span clean i)) hfilter

/-- The loads of the samples are not all the same. -/
def Varies (clean : List (Sample K)) : Prop := ∃ a ∈ clean, ∃ b ∈ clean, a.inflightPerRep < b.inflightPerRep

/-- The bands of clean samples that have samples, over the span of their loads. -/
def occupied (math : GoMath K) (clean : List (Sample K)) : List (List (Sample K)) :=
  match clean with
  | [] => []
  | first :: _ => bands math (minLoad first clean) (maxLoad first clean - minLoad first clean) clean

omit [Field K] [IsStrictOrderedRing K] [FloorRing K] in
theorem minLoad_lt_maxLoad {first : Sample K} {clean : List (Sample K)} (hfirst : first ∈ clean) (h : Varies clean) :
    minLoad first clean < maxLoad first clean := by
  obtain ⟨a, ha, b, hb, hlt⟩ := h
  exact lt_of_le_of_lt ((minLoad_spec hfirst).1 a ha) (lt_of_lt_of_le hlt ((maxLoad_spec hfirst).1 b hb))

/-- **The buckets of a load that varies.** -/
theorem bucketize_eq (hm : math.Exact) (byInflight : SortSlice (Bucket K) lighter) (now : Int) {clean : List (Sample K)}
    (h : Varies clean) :
    bucketize math byInflight clean now = some ((occupied math clean).map (bandBucket math now)) := by
  cases clean with
  | nil =>
    obtain ⟨a, ha, -⟩ := h
    cases ha
  | cons first rest =>
    have hfirst : first ∈ first :: rest := List.mem_cons_self
    have hlt := minLoad_lt_maxLoad hfirst h
    have hmin := (minLoad_spec hfirst).1
    unfold bucketize
    change (if maxLoad first (first :: rest) ≤ minLoad first (first :: rest) then _ else
      ((first :: rest).foldlM (accumulate math now (minLoad first (first :: rest))
        (maxLoad first (first :: rest) - minLoad first (first :: rest)))
        (List.replicate numBuckets ⟨0, 0, 0⟩)).bind _) = _
    rw [if_neg (not_le.mpr hlt), foldlM_accumulate hm (sub_pos.mpr hlt) now hmin, Option.bind_some]
    refine congrArg some (Eq.trans ?_ (run_eq_self byInflight (bandBucket_pairwise hm (sub_pos.mpr hlt) now hmin)))
    exact congrArg byInflight.run (filter_bandAcc hm now (first :: rest))

omit [IsStrictOrderedRing K] [FloorRing K] in
theorem bucketize_const (math : GoMath K) (byInflight : SortSlice (Bucket K) lighter) (now : Int)
    {clean : List (Sample K)} (hne : clean ≠ []) (h : ¬Varies clean) :
    ∃ s ∈ clean, (∀ a ∈ clean, a.inflightPerRep = s.inflightPerRep) ∧
      bucketize math byInflight clean now = some [⟨s.inflightPerRep, 0, 1⟩] := by
  cases clean with
  | nil => exact absurd rfl hne
  | cons first rest =>
    have hfirst : first ∈ first :: rest := List.mem_cons_self
    obtain ⟨hmin, lo, hlo, hlo'⟩ := minLoad_spec hfirst
    obtain ⟨hmax, hi, hhi, hhi'⟩ := maxLoad_spec hfirst
    have heq : ∀ a ∈ first :: rest, a.inflightPerRep = hi.inflightPerRep := by
      intro a ha
      refine le_antisymm (hhi' ▸ hmax a ha) (not_lt.mp fun hlt => h ⟨a, ha, hi, hhi, hlt⟩)
    have hle : maxLoad first (first :: rest) ≤ minLoad first (first :: rest) := by
      rw [← hhi', ← hlo', heq lo hlo]
    refine ⟨hi, hhi, heq, ?_⟩
    rw [hhi']
    unfold bucketize
    simp only [Int.cast_one]
    exact if_pos hle

/-! ## The occupied bands -/

section
variable {clean : List (Sample K)}

omit [IsStrictOrderedRing K] [FloorRing K] in
theorem ne_nil_of_mem_occupied {l : List (Sample K)} (hl : l ∈ occupied math clean) : l ≠ [] := by
  cases clean with
  | nil => cases hl
  | cons first rest => exact (mem_bands.mp hl).1

omit [IsStrictOrderedRing K] [FloorRing K] in
theorem mem_of_mem_occupied {l : List (Sample K)} (hl : l ∈ occupied math clean) {s : Sample K} (hs : s ∈ l) :
    s ∈ clean := by
  cases clean with
  | nil => cases hl
  | cons first rest => exact subset_of_mem_bands hl hs

theorem occupied_pairwise (hm : math.Exact) (now : Int) (h : Varies clean) :
    ((occupied math clean).map (bandBucket math now)).Pairwise fun a b => a.inflight < b.inflight := by
  cases clean with
  | nil => exact .nil
  | cons first rest =>
    have hfirst : first ∈ first :: rest := List.mem_cons_self
    exact bandBucket_pairwise hm (sub_pos.mpr (minLoad_lt_maxLoad hfirst h)) now (minLoad_spec hfirst).1

/-- The lightest and the heaviest sample are in different bands. -/
theorem two_le_length_occupied (hm : math.Exact) (h : Varies clean) : 2 ≤ (occupied math clean).length := by
  cases clean with
  | nil =>
    obtain ⟨a, ha, -⟩ := h
    cases ha
  | cons first rest =>
    have hfirst : first ∈ first :: rest := List.mem_cons_self
    have hspan := sub_pos.mpr (minLoad_lt_maxLoad hfirst h)
    obtain ⟨hmin, lo, hlo, hlo'⟩ := minLoad_spec hfirst
    obtain ⟨hmax, hi, hhi, hhi'⟩ := maxLoad_spec hfirst
    obtain ⟨l, hl, -, hlidx⟩ := exists_mem_bands hm hspan hmin hlo
    obtain ⟨l', hl', hhil, -⟩ := exists_mem_bands hm hspan hmin hhi
    have hlo0 := bucketIndex_min hm (minLoad first (first :: rest)) hspan
    have hhi9 := bucketIndex_max hm (minLoad first (first :: rest)) hspan
    rw [add_sub_cancel] at hhi9
    have hne : l ≠ l' := by
      rintro rfl
      have := hlidx hi hhil
      rw [hhi', hlo', hlo0, hhi9] at this
      cases this
    change 2 ≤ (bands _ _ _ _).length
    by_contra hlt
    match hb : bands math (minLoad first (first :: rest))
      (maxLoad first (first :: rest) - minLoad first (first :: rest)) (first :: rest), hlt with
    | [], _ =>
      rw [hb] at hl
      cases hl
    | [x], _ =>
      rw [hb, List.mem_singleton] at hl hl'
      exact hne (hl.trans hl'.symm)
    | _ :: _ :: _, hlt => simp at hlt

omit [LinearOrder K] [IsStrictOrderedRing K] [FloorRing K] in
theorem sum_bands_eq_sum_range (f : Sample K → K) (clean : List (Sample K)) :
    ((bands math minI span clean).map fun l => (l.map f).sum).sum =
      ((List.range 10).map fun i => ((bandOf math minI span clean i).map f).sum).sum := by
  unfold bands
  induction List.range 10 with
  | nil => rfl
  | cons i is ih =>
    rw [List.map_cons, List.map_cons, List.sum_cons, ← ih]
    cases bandOf math minI span clean i with
    | nil => simp
    | cons a l => simp

theorem sum_bands (hm : math.Exact) (hspan : 0 < span) (f : Sample K → K)
    (hmin : ∀ s ∈ clean, minI ≤ s.inflightPerRep) :
    ((bands math minI span clean).map fun l => (l.map f).sum).sum = (clean.map f).sum := by
  rw [sum_bands_eq_sum_range]
  induction clean with
  | nil => simp [bandOf]
  | cons s clean ih =>
    obtain ⟨k, hk⟩ := Int.eq_ofNat_of_zero_le (bucketIndex_mem hm hspan (hmin s List.mem_cons_self)).1
    have hk10 : k < 10 := by
      have := (bucketIndex_mem hm hspan (hmin s List.mem_cons_self)).2
      omega
    have hstep : ∀ i : Nat, ((bandOf math minI span (s :: clean) i).map f).sum =
        (if k = i then f s else 0) + ((bandOf math minI span clean i).map f).sum := by
      intro i
      unfold bandOf
      by_cases hi : k = i
      · subst hi
        simp [hk]
      · have : ¬(k : Int) = i := by omega
        simp [hk, hi, this]
    have hone : ((List.range 10).map fun i => if k = i then f s else 0).sum = f s := by
      change Finset.sum (Finset.range 10) (fun i => if k = i then f s else 0) = f s
      rw [Finset.sum_ite_eq, if_pos (Finset.mem_range.mpr hk10)]
    simp only [hstep, List.sum_map_add, hone, List.map_cons, List.sum_cons]
    rw [ih fun a ha => hmin a (List.mem_cons_of_mem s ha)]

theorem sum_occupied (hm : math.Exact) (h : Varies clean) (f : Sample K → K) :
    ((occupied math clean).map fun l => (l.map f).sum).sum = (clean.map f).sum := by
  cases clean with
  | nil => rfl
  | cons first rest =>
    have hfirst : first ∈ first :: rest := List.mem_cons_self
    exact sum_bands hm (sub_pos.mpr (minLoad_lt_maxLoad hfirst h)) f (minLoad_spec hfirst).1

end

end

end KynoMesh.Scaling
