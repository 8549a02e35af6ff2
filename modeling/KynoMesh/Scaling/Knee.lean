import Mathlib.Tactic.Linarith
import Mathlib.Tactic.Positivity
import KynoMesh.Scaling.Autoscaler
import KynoMesh.Scaling.Bands

/-!
# The learned knee, in exact arithmetic

`EstimateKnee` over the bands of `Scaling.Bands`.

* `Curve` : what the buckets of `bucketize` are; `estimateKnee_cases` : the two ways to an estimate;
* `estimateKnee_wellDefined` : the estimator answers on every history, with a confidence from 0 to 1 and a knee within
  the observed loads;
* `findKneeFrom_le_iff` : the walk ends within a load exactly when no bucket is above it, or the curve flattens after a
  bucket that is not;
* `knee_le_iff` : the samples of a replica that saturates at `k`, for which the estimate does not exceed `k`.
-/

namespace KynoMesh.Scaling

open KynoMesh.Lib KynoMesh.History

variable {K : Type} [Field K] [LinearOrder K] [IsStrictOrderedRing K] [FloorRing K]

/-! ## The curve -/

/-- The buckets `bs` of the clean samples. -/
structure Curve (math : GoMath K) (now : Int) (clean : List (Sample K)) (bs : List (Bucket K)) : Prop where
  ne_nil : bs ≠ []
  ascending : bs.Pairwise fun a b => a.inflight < b.inflight
  weight_pos : ∀ b ∈ bs, 0 < b.weight
  /-- Every bucket is between two samples. -/
  between : ∀ b ∈ bs, ∃ s ∈ clean, ∃ s' ∈ clean, s.inflightPerRep ≤ b.inflight ∧ b.inflight ≤ s'.inflightPerRep
  sum_weight : Varies clean → (bs.map Bucket.weight).sum = (clean.map (weightAt math now)).sum

section
variable {math : GoMath K} {now : Int} {clean : List (Sample K)}

theorem exists_le_bandBucket_le (hm : math.Exact) (now : Int) {l : List (Sample K)} (hl : l ≠ []) :
    ∃ s ∈ l, ∃ s' ∈ l, s.inflightPerRep ≤ (bandBucket math now l).inflight ∧
      (bandBucket math now l).inflight ≤ s'.inflightPerRep := by
  obtain ⟨s, hs, hle⟩ := exists_le_weightedMean (x := Sample.inflightPerRep) (fun a _ => weightAt_pos hm now a) hl
  obtain ⟨s', hs', hle'⟩ := exists_weightedMean_le (x := Sample.inflightPerRep) (fun a _ => weightAt_pos hm now a) hl
  exact ⟨s, hs, s', hs', hle, hle'⟩

theorem curve_occupied (hm : math.Exact) (now : Int) (h : Varies clean) :
    Curve math now clean ((occupied math clean).map (bandBucket math now)) where
  ne_nil := by
    intro hnil
    have := two_le_length_occupied hm h
    rw [List.map_eq_nil_iff.mp hnil] at this
    simp at this
  ascending := occupied_pairwise hm now h
  weight_pos := by
    rw [List.forall_mem_map]
    exact fun l hl => sum_weights_pos (fun a _ => weightAt_pos hm now a) (ne_nil_of_mem_occupied hl)
  between := by
    rw [List.forall_mem_map]
    intro l hl
    obtain ⟨s, hs, s', hs', hle⟩ := exists_le_bandBucket_le hm now (ne_nil_of_mem_occupied hl)
    exact ⟨s, mem_of_mem_occupied hl hs, s', mem_of_mem_occupied hl hs', hle⟩
  sum_weight := by
    intro _
    rw [List.map_map, ← sum_occupied hm h]
    rfl

omit [FloorRing K] in
theorem curve_const {s : Sample K} (hs : s ∈ clean) (h : ¬Varies clean) :
    Curve math now clean [⟨s.inflightPerRep, 0, 1⟩] where
  ne_nil := List.cons_ne_nil _ _
  ascending := List.pairwise_singleton _ _
  weight_pos := by simp
  between := by
    intro b hb
    obtain rfl := List.mem_singleton.mp hb
    exact ⟨s, hs, s, hs, le_rfl, le_rfl⟩
  sum_weight := fun hv => absurd hv h

theorem exists_curve (hm : math.Exact) (byInflight : SortSlice (Bucket K) lighter) (now : Int) (hne : clean ≠ []) :
    ∃ bs, bucketize math byInflight clean now = some bs ∧ Curve math now clean bs := by
  by_cases h : Varies clean
  · exact ⟨_, bucketize_eq hm byInflight now h, curve_occupied hm now h⟩
  · obtain ⟨s, hs, -, heq⟩ := bucketize_const math byInflight now hne h
    exact ⟨_, heq, curve_const hs h⟩

end

/-! ## The estimate -/

/-- The two ways to an estimate from enough samples: from one load, and from the curve of two bands or more. -/
theorem estimateKnee_cases (l : Learner K) (hm : l.math.Exact) {hist : List (Sample K)} {clean : List (Sample K)}
    (hclean : sanitize l.math l.byTime hist = clean) (hlen : 8 ≤ clean.length) (now : Int) :
    (¬Varies clean ∧ ∃ s ∈ clean, (∀ a ∈ clean, a.inflightPerRep = s.inflightPerRep) ∧
      estimateKnee l.math l.byTime l.byInflight hist now =
        some ⟨s.inflightPerRep, true, lowerBoundPenalty * timeSpanFactor clean⟩) ∨
    (Varies clean ∧ ∃ first rest, (occupied l.math clean).map (bandBucket l.math now) = first :: rest ∧
      estimateKnee l.math l.byTime l.byInflight hist now =
        some ⟨(findKnee first rest).1, (findKnee first rest).2,
          confidence clean first rest (findKnee first rest).2⟩) := by
  have hlearn : ¬clean.length < minSamplesToLearn := not_lt.mpr hlen
  unfold estimateKnee
  rw [hclean]
  dsimp only
  rw [if_neg hlearn]
  by_cases h : Varies clean
  · right
    have htwo := two_le_length_occupied hm h
    rw [bucketize_eq hm l.byInflight now h]
    match hbs : (occupied l.math clean).map (bandBucket l.math now) with
    | [] => simp_all
    | [_] =>
      have := congrArg List.length hbs
      rw [List.length_map, List.length_singleton] at this
      omega
    | first :: b :: rest => exact ⟨h, first, b :: rest, rfl, rfl⟩
  · left
    have hne : clean ≠ [] := List.ne_nil_of_length_pos (by omega)
    obtain ⟨s, hs, hsame, heq⟩ := bucketize_const l.math l.byInflight now hne h
    rw [heq]
    exact ⟨h, s, hs, hsame, rfl⟩

omit [Field K] [IsStrictOrderedRing K] [FloorRing K] in
theorem clampF_mem {v lo hi : K} (h : lo ≤ hi) : lo ≤ clampF v lo hi ∧ clampF v lo hi ≤ hi :=
  ⟨le_max_left _ _, max_le h (min_le_left _ _)⟩

omit [FloorRing K] in
theorem timeSpanFactor_mem (clean : List (Sample K)) : 0 ≤ timeSpanFactor clean ∧ timeSpanFactor clean ≤ 1 := by
  unfold timeSpanFactor
  split
  · exact ⟨le_rfl, zero_le_one⟩
  · exact ⟨le_rfl, zero_le_one⟩
  · rw [Int.cast_one]
    exact clampF_mem zero_le_one

omit [FloorRing K] in
theorem lowerBoundPenalty_mul_mem {x : K} (h : 0 ≤ x ∧ x ≤ 1) :
    0 ≤ lowerBoundPenalty * x ∧ lowerBoundPenalty * x ≤ 1 := by
  have hp : (lowerBoundPenalty : K) = 2 / 5 := by
    unfold lowerBoundPenalty ratio
    norm_num
  rw [hp]
  constructor <;> linarith

omit [FloorRing K] in
theorem confidence_mem (clean : List (Sample K)) (first : Bucket K) (rest : List (Bucket K)) (isLowerBound : Bool) :
    0 ≤ confidence clean first rest isLowerBound ∧ confidence clean first rest isLowerBound ≤ 1 := by
  unfold confidence
  rw [Int.cast_one]
  exact clampF_mem zero_le_one

omit [IsStrictOrderedRing K] [FloorRing K] in
theorem findKneeFrom_mem (ref : K) (prev : Bucket K) (rest : List (Bucket K)) :
    ∃ b ∈ prev :: rest, (findKneeFrom ref prev rest).1 = b.inflight := by
  induction rest generalizing prev with
  | nil => exact ⟨prev, List.mem_cons_self, rfl⟩
  | cons b rest ih =>
    have hlater : ∃ x ∈ prev :: b :: rest, (findKneeFrom ref b rest).1 = x.inflight := by
      obtain ⟨x, hx, heq⟩ := ih b
      exact ⟨x, List.mem_cons_of_mem prev hx, heq⟩
    rw [findKneeFrom]
    dsimp only
    split_ifs
    · exact hlater
    · exact ⟨prev, List.mem_cons_self, rfl⟩
    · exact hlater

omit [IsStrictOrderedRing K] [FloorRing K] in
theorem findKnee_mem (first : Bucket K) (rest : List (Bucket K)) :
    ∃ b ∈ first :: rest, (findKnee first rest).1 = b.inflight := by
  unfold findKnee
  dsimp only
  split_ifs
  · exact ⟨_, List.getLast_mem _, rfl⟩
  · exact findKneeFrom_mem _ first rest

omit [FloorRing K] in
theorem scalingTarget_pos (inp : Inputs K) (est : Estimate K) : 0 < scalingTarget inp est := by
  refine lt_of_lt_of_le ?_ (le_max_right _ _)
  unfold ratio
  norm_num

/-- The estimator is well defined on a history, and in range. -/
structure WellDefined (l : Learner K) (hist : List (Sample K)) (now : Int) : Prop where
  /-- The divisors of `recencyWeight` and of `timeSpanFactor`. -/
  durations_pos : 0 < l.math.ln2 ∧ 0 < (decayHalfLife : K) / l.math.ln2 ∧ 0 < (fullConfidenceWindow : K)
  /-- The indices of the loop of `bucketize`, and their divisor. -/
  index_mem : ∀ first rest, sanitize l.math l.byTime hist = first :: rest →
    minLoad first (first :: rest) < maxLoad first (first :: rest) →
      0 < maxLoad first (first :: rest) - minLoad first (first :: rest) ∧
      ∀ s ∈ first :: rest,
        0 ≤ bucketIndex l.math (minLoad first (first :: rest))
          (maxLoad first (first :: rest) - minLoad first (first :: rest)) s.inflightPerRep ∧
        bucketIndex l.math (minLoad first (first :: rest))
          (maxLoad first (first :: rest) - minLoad first (first :: rest)) s.inflightPerRep < 10
  /-- The buckets. Their weights divide the sums of `bucketize`, their loads the rates of `findKnee` and the coverage,
  and the differences of their loads the slopes. -/
  curve : sanitize l.math l.byTime hist ≠ [] →
    ∃ bs, bucketize l.math l.byInflight (sanitize l.math l.byTime hist) now = some bs ∧
      Curve l.math now (sanitize l.math l.byTime hist) bs ∧ (∀ b ∈ bs, 0 < b.inflight)
  estimate : ∃ est, estimateKnee l.math l.byTime l.byInflight hist now = some est ∧
    (0 ≤ est.confidence ∧ est.confidence ≤ 1) ∧
    (8 ≤ (sanitize l.math l.byTime hist).length →
      ∃ s ∈ sanitize l.math l.byTime hist, ∃ s' ∈ sanitize l.math l.byTime hist,
        s.inflightPerRep ≤ est.kneePerReplica ∧ est.kneePerReplica ≤ s'.inflightPerRep) ∧
    ∀ inp : Inputs K, 0 < scalingTarget inp est

/-- With enough samples, the knee is between the least and the largest load. -/
theorem estimate_in_range (l : Learner K) (hm : l.math.Exact) {hist : List (Sample K)} {clean : List (Sample K)}
    (hclean : sanitize l.math l.byTime hist = clean) (hlen : 8 ≤ clean.length) (now : Int) :
    ∃ est, estimateKnee l.math l.byTime l.byInflight hist now = some est ∧
      (0 ≤ est.confidence ∧ est.confidence ≤ 1) ∧
      ∃ s ∈ clean, ∃ s' ∈ clean, s.inflightPerRep ≤ est.kneePerReplica ∧ est.kneePerReplica ≤ s'.inflightPerRep := by
  rcases estimateKnee_cases l hm hclean hlen now with ⟨-, s, hs, -, heq⟩ | ⟨hv, first, rest, hbs, heq⟩
  · exact ⟨_, heq, lowerBoundPenalty_mul_mem (timeSpanFactor_mem clean), s, hs, s, hs, le_rfl, le_rfl⟩
  · have hcurve := curve_occupied hm now hv
    rw [hbs] at hcurve
    obtain ⟨b, hb, hknee⟩ := findKnee_mem first rest
    obtain ⟨s, hs, s', hs', hle⟩ := hcurve.between b hb
    refine ⟨_, heq, confidence_mem clean first rest _, s, hs, s', hs', ?_⟩
    rw [hknee]
    exact hle

theorem exists_estimateKnee (l : Learner K) (hm : l.math.Exact) (hist : List (Sample K)) (now : Int) :
    ∃ est, estimateKnee l.math l.byTime l.byInflight hist now = some est ∧
      (0 ≤ est.confidence ∧ est.confidence ≤ 1) ∧
      (8 ≤ (sanitize l.math l.byTime hist).length →
        ∃ s ∈ sanitize l.math l.byTime hist, ∃ s' ∈ sanitize l.math l.byTime hist,
          s.inflightPerRep ≤ est.kneePerReplica ∧ est.kneePerReplica ≤ s'.inflightPerRep) := by
  by_cases hlen : 8 ≤ (sanitize l.math l.byTime hist).length
  · obtain ⟨est, heq, hconf, hrange⟩ := estimate_in_range l hm rfl hlen now
    exact ⟨est, heq, hconf, fun _ => hrange⟩
  · exact ⟨_, if_pos (not_le.mp hlen), ⟨le_rfl, zero_le_one⟩, fun h => absurd h hlen⟩

theorem knee_nonneg (l : Learner K) (hm : l.math.Exact) {hist : List (Sample K)} {now : Int} {est : Estimate K}
    (h : estimateKnee l.math l.byTime l.byInflight hist now = some est) : 0 ≤ est.kneePerReplica := by
  by_cases hlen : 8 ≤ (sanitize l.math l.byTime hist).length
  · obtain ⟨est', heq, -, s, hs, -, -, hle, -⟩ := estimate_in_range l hm rfl hlen now
    obtain rfl := Option.some.inj (h.symm.trans heq)
    exact (sound_of_mem_sanitize hs).1.le.trans hle
  · have heq : estimateKnee l.math l.byTime l.byInflight hist now = some ⟨0, false, 0⟩ := if_pos (not_le.mp hlen)
    obtain rfl := Option.some.inj (h.symm.trans heq)
    exact le_rfl

/-- **The estimator is well defined on every history.** -/
theorem estimateKnee_wellDefined (l : Learner K) (hm : l.math.Exact) (hist : List (Sample K)) (now : Int) :
    WellDefined l hist now where
  durations_pos := by
    have hhalf : (0 : K) < (decayHalfLife : K) := by
      unfold decayHalfLife second
      norm_num
    have hwindow : (0 : K) < (fullConfidenceWindow : K) := by
      unfold fullConfidenceWindow second
      norm_num
    exact ⟨hm.ln2_pos, div_pos hhalf hm.ln2_pos, hwindow⟩
  index_mem := by
    intro first rest hclean hlt
    have hmin := (minLoad_spec (List.mem_cons_self (a := first) (l := rest))).1
    exact ⟨sub_pos.mpr hlt, fun s hs => bucketIndex_mem hm (sub_pos.mpr hlt) (hmin s hs)⟩
  curve := by
    intro hne
    obtain ⟨bs, heq, hcurve⟩ := exists_curve hm l.byInflight now hne
    refine ⟨bs, heq, hcurve, fun b hb => ?_⟩
    obtain ⟨s, hs, -, -, hle, -⟩ := hcurve.between b hb
    exact lt_of_lt_of_le (sound_of_mem_sanitize hs).1 hle
  estimate := by
    obtain ⟨est, heq, hconf, hrange⟩ := exists_estimateKnee l hm hist now
    exact ⟨est, heq, hconf, hrange, fun inp => scalingTarget_pos inp est⟩

theorem ratMath_exact : Loop.ratMath.Exact where
  isNaN_eq := fun _ => rfl
  ceilInt32_eq := by
    intro x
    change (if -2 ^ 31 ≤ x.ceil ∧ x.ceil < 2 ^ 31 then Int32.ofInt x.ceil else Int32.minValue) = _
    rw [Rat.ceil_eq_neg_floor_neg]
    rfl
  truncInt_eq := by
    intro x
    change (if 0 ≤ x then x.floor else x.ceil) = _
    rw [Rat.ceil_eq_neg_floor_neg]
    rfl
  exp_pos := by
    intro x
    change 0 < 1 / (1 - x + x * x / 2)
    have : 0 < 1 - x + x * x / 2 := by nlinarith [sq_nonneg (x - 1)]
    positivity
  ln2_pos := by
    change (0 : ℚ) < 693147 / 1000000
    norm_num

abbrev ratLearner : Learner ℚ := Loop.ratAutoscaler.learner

/-- Eight samples, a minute apart, of the loads `x` and `y`, from a replica that saturates at ten. -/
def twoLoads (x y : ℚ) : List (Sample ℚ) :=
  (List.range 8).map fun i =>
    { timestamp := 60 * i * second, replicas := 1, inflightPerRep := if i < 4 then x else y
      ratePerRep := min (if i < 4 then x else y) 10 }

theorem estimateKnee_wellDefined_twoLoads : WellDefined ratLearner (twoLoads 5 60) (500 * second) :=
  estimateKnee_wellDefined ratLearner ratMath_exact _ _

/-! ## The knee of a replica that saturates -/

/-- Between the buckets `p` and `b`, the curve is flatter than a fifth of its slope at the lowest load. -/
def Flat (ref : K) (p b : Bucket K) : Prop := (b.rate - p.rate) / (b.inflight - p.inflight) < plateauFraction * ref

omit [Field K] [LinearOrder K] [IsStrictOrderedRing K] [FloorRing K] in
theorem exists_adjacent_cons {P : Bucket K → Bucket K → Prop} {a b : Bucket K} {l : List (Bucket K)} :
    (∃ x y, [x, y] <:+: a :: b :: l ∧ P x y) ↔ P a b ∨ ∃ x y, [x, y] <:+: b :: l ∧ P x y := by
  constructor
  · rintro ⟨x, y, hadj, hP⟩
    rcases List.infix_cons_iff.mp hadj with hpre | hadj
    · obtain ⟨rfl, htail⟩ := List.cons_prefix_cons.mp hpre
      obtain ⟨rfl, -⟩ := List.cons_prefix_cons.mp htail
      exact .inl hP
    · exact .inr ⟨x, y, hadj, hP⟩
  · rintro (hP | ⟨x, y, hadj, hP⟩)
    · exact ⟨a, b, (List.prefix_append [a, b] l).isInfix, hP⟩
    · exact ⟨x, y, List.infix_cons hadj, hP⟩

omit [FloorRing K] in
/-- The walk of `findKnee` ends within the load `k` exactly when all buckets are within it, or the curve is flat after a
bucket that is. -/
theorem findKneeFrom_le_iff (ref k : K) (prev : Bucket K) (rest : List (Bucket K))
    (hasc : (prev :: rest).Pairwise fun a b => a.inflight < b.inflight) :
    (findKneeFrom ref prev rest).1 ≤ k ↔
      (∀ b ∈ prev :: rest, b.inflight ≤ k) ∨ ∃ p b, [p, b] <:+: prev :: rest ∧ p.inflight ≤ k ∧ Flat ref p b := by
  induction rest generalizing prev with
  | nil =>
    rw [findKneeFrom, List.forall_mem_singleton]
    refine ⟨.inl, ?_⟩
    rintro (hle | ⟨p, b, hadj, -⟩)
    · exact hle
    · have := hadj.length_le
      simp at this
  | cons b rest ih =>
    obtain ⟨hprev, htail⟩ := List.pairwise_cons.mp hasc
    have hlt := hprev b List.mem_cons_self
    rw [findKneeFrom, exists_adjacent_cons (P := fun p b => p.inflight ≤ k ∧ Flat ref p b)]
    dsimp only
    rw [if_neg (not_le.mpr (sub_pos.mpr hlt))]
    by_cases hflat : (b.rate - prev.rate) / (b.inflight - prev.inflight) < plateauFraction * ref
    · -- the walk stops at the lightest bucket
      rw [if_pos hflat]
      constructor
      · exact fun hle => .inr (.inl ⟨hle, hflat⟩)
      · rintro (hall | ⟨hle, -⟩ | ⟨p, b', hadj, hle, -⟩)
        · exact hall prev List.mem_cons_self
        · exact hle
        · exact (hprev p (hadj.subset List.mem_cons_self)).le.trans hle
    · -- it goes on, and the step from the lightest bucket is not flat
      rw [if_neg hflat, ih b htail]
      refine or_congr ?_ (or_iff_right fun h => hflat h.2).symm
      rw [List.forall_mem_cons (a := prev)]
      exact ⟨fun hall => ⟨hlt.le.trans (hall b List.mem_cons_self), hall⟩, And.right⟩

section
variable (math : GoMath K) (now : Int) (k : K)

/-- The mean load of a band. -/
def meanLoad (l : List (Sample K)) : K := weightedMean (weightAt math now) Sample.inflightPerRep l

/-- The mean of what a replica that saturates at `k` works on, of the loads of a band. -/
def meanServed (l : List (Sample K)) : K := weightedMean (weightAt math now) (fun s => min s.inflightPerRep k) l

/-- From the band `p` to the band `b`, the work done grows by less than a fifth of what it does up to the band `first`,
per request in flight. -/
def Flattens (first p b : List (Sample K)) : Prop :=
  (meanServed math now k b - meanServed math now k p) / (meanLoad math now b - meanLoad math now p) <
    meanServed math now k first / meanLoad math now first / (5 : ℕ)

/-- The loads of the samples show the saturation at `k`. A load that does not vary is within `k`; of a load that varies,
the bands are within `k` in their means, or the curve flattens after a band that is. -/
def ShowsKnee (clean : List (Sample K)) : Prop :=
  (¬Varies clean → ∀ s ∈ clean, s.inflightPerRep ≤ k) ∧
    (Varies clean → (∀ l ∈ occupied math clean, meanLoad math now l ≤ k) ∨
      ∃ first p b, (occupied math clean).head? = some first ∧ [p, b] <:+: occupied math clean ∧
        meanLoad math now p ≤ k ∧ Flattens math now k first p b)

end

section
variable {math : GoMath K} {now : Int} {a k : K} {clean : List (Sample K)}

omit [IsStrictOrderedRing K] [FloorRing K] in
theorem bandBucket_rate {l : List (Sample K)} (h : ∀ s ∈ l, s.ratePerRep = a * min s.inflightPerRep k) :
    (bandBucket math now l).rate = a * meanServed math now k l := by
  have hmul : (l.map fun s => s.ratePerRep * weightAt math now s) =
      l.map fun s => a * (min s.inflightPerRep k * weightAt math now s) := by
    apply List.map_congr_left
    intro s hs
    rw [h s hs, mul_assoc]
  change (l.map fun s => s.ratePerRep * weightAt math now s).sum / _ = _
  rw [hmul, List.sum_map_mul_left, mul_div_assoc]
  rfl

omit [FloorRing K] in
theorem plateauFraction_mul (x : K) : plateauFraction * x = x / (5 : ℕ) := by
  have hfifth : (plateauFraction : K) = 1 / (5 : ℕ) := by norm_num [plateauFraction, ratio]
  rw [hfifth, one_div_mul_eq_div]

omit [FloorRing K] in
theorem flat_iff_flattens (ha : 0 < a) {first p b : List (Sample K)}
    (hfirst : ∀ s ∈ first, s.ratePerRep = a * min s.inflightPerRep k)
    (hp : ∀ s ∈ p, s.ratePerRep = a * min s.inflightPerRep k)
    (hb : ∀ s ∈ b, s.ratePerRep = a * min s.inflightPerRep k) :
    Flat ((bandBucket math now first).rate / (bandBucket math now first).inflight) (bandBucket math now p)
      (bandBucket math now b) ↔ Flattens math now k first p b := by
  unfold Flat Flattens
  rw [bandBucket_rate hfirst, bandBucket_rate hp, bandBucket_rate hb, ← mul_sub, mul_div_assoc, mul_div_assoc,
    mul_left_comm, mul_lt_mul_iff_right₀ ha, plateauFraction_mul]
  rfl

theorem bandBucket_rate_pos (hm : math.Exact) {l : List (Sample K)} (hl : l ≠ []) (hpos : ∀ s ∈ l, 0 < s.ratePerRep) :
    0 < (bandBucket math now l).rate :=
  lt_weightedMean (fun s _ => weightAt_pos hm now s) hl hpos

theorem bandBucket_inflight_pos (hm : math.Exact) {l : List (Sample K)} (hl : l ≠ [])
    (hpos : ∀ s ∈ l, 0 < s.inflightPerRep) : 0 < (bandBucket math now l).inflight :=
  lt_weightedMean (fun s _ => weightAt_pos hm now s) hl hpos

theorem findKnee_le_iff (hm : math.Exact) (ha : 0 < a) (hv : Varies clean)
    (hpos : ∀ s ∈ clean, 0 < s.inflightPerRep ∧ 0 < s.ratePerRep)
    (hfree : ∀ s ∈ clean, s.ratePerRep = a * min s.inflightPerRep k) {first : Bucket K} {rest : List (Bucket K)}
    (hbs : (occupied math clean).map (bandBucket math now) = first :: rest) :
    (findKnee first rest).1 ≤ k ↔ (∀ l ∈ occupied math clean, meanLoad math now l ≤ k) ∨
      ∃ first p b, (occupied math clean).head? = some first ∧ [p, b] <:+: occupied math clean ∧
        meanLoad math now p ≤ k ∧ Flattens math now k first p b := by
  have hasc := occupied_pairwise hm now hv
  -- the lightest band, and the slope there
  obtain ⟨l, ls, hocc, rfl, rfl⟩ := List.map_eq_cons_iff.mp hbs
  have hband : ∀ {m}, m ∈ occupied math clean → ∀ s ∈ m, s.ratePerRep = a * min s.inflightPerRep k :=
    fun hm s hs => hfree s (mem_of_mem_occupied hm hs)
  have hlmem : l ∈ occupied math clean := hocc ▸ List.mem_cons_self
  have hlpos : ∀ s ∈ l, 0 < s.inflightPerRep ∧ 0 < s.ratePerRep := fun s hs => hpos s (mem_of_mem_occupied hlmem hs)
  have href : 0 < (bandBucket math now l).rate / (bandBucket math now l).inflight :=
    div_pos (bandBucket_rate_pos hm (ne_nil_of_mem_occupied hlmem) fun s hs => (hlpos s hs).2)
      (bandBucket_inflight_pos hm (ne_nil_of_mem_occupied hlmem) fun s hs => (hlpos s hs).1)
  unfold findKnee
  dsimp only
  rw [if_neg (not_le.mpr href), findKneeFrom_le_iff _ _ _ _ (hbs ▸ hasc), ← hbs, List.forall_mem_map]
  refine or_congr Iff.rfl ⟨?_, ?_⟩
  · rintro ⟨p, b, hadj, hle, hflat⟩
    obtain ⟨pb, hpair, hpb⟩ := List.infix_map_iff.mp hadj
    obtain ⟨p', b', rfl⟩ : ∃ p' b', pb = [p', b'] :=
      List.length_eq_two.mp (by rw [← List.length_map (f := bandBucket math now), ← hpb]; rfl)
    obtain ⟨rfl, rfl⟩ : p = bandBucket math now p' ∧ b = bandBucket math now b' := by simpa using hpb
    have hp : p' ∈ occupied math clean := hpair.subset (by simp)
    have hb : b' ∈ occupied math clean := hpair.subset (by simp)
    refine ⟨l, p', b', by rw [hocc]; rfl, hpair, hle, ?_⟩
    exact (flat_iff_flattens ha (hband hlmem) (hband hp) (hband hb)).mp hflat
  · rintro ⟨first, p, b, hhead, hadj, hle, hflat⟩
    obtain rfl : l = first := by
      rw [hocc] at hhead
      exact Option.some.inj hhead
    have hp : p ∈ occupied math clean := hadj.subset (by simp)
    have hb : b ∈ occupied math clean := hadj.subset (by simp)
    refine ⟨_, _, hadj.map (bandBucket math now), hle, ?_⟩
    exact (flat_iff_flattens ha (hband hlmem) (hband hp) (hband hb)).mpr hflat

end

/-- **When the learned knee does not exceed the true one.** For samples without noise, of a replica whose throughput is
linear up to `k` and flat above it. -/
theorem knee_le_iff (l : Learner K) (hm : l.math.Exact) {a k : K} (ha : 0 < a) (hist : List (Sample K)) (now : Int)
    (hlen : 8 ≤ (sanitize l.math l.byTime hist).length)
    (hfree : ∀ s ∈ sanitize l.math l.byTime hist, s.ratePerRep = a * min s.inflightPerRep k) :
    (∃ est, estimateKnee l.math l.byTime l.byInflight hist now = some est ∧ est.kneePerReplica ≤ k) ↔
      ShowsKnee l.math now k (sanitize l.math l.byTime hist) := by
  unfold ShowsKnee
  rcases estimateKnee_cases l hm rfl hlen now with ⟨hconst, s, hs, hsame, heq⟩ | ⟨hv, first, rest, hbs, heq⟩
  · rw [heq]
    constructor
    · rintro ⟨est, hest, hle⟩
      obtain rfl := Option.some.inj hest
      exact ⟨fun _ a ha => (hsame a ha).le.trans hle, fun hv => absurd hv hconst⟩
    · rintro ⟨hall, -⟩
      exact ⟨_, rfl, hall hconst s hs⟩
  · have hpos : ∀ s ∈ sanitize l.math l.byTime hist, 0 < s.inflightPerRep ∧ 0 < s.ratePerRep :=
      fun s hs => sound_of_mem_sanitize hs
    have hwalk := findKnee_le_iff hm ha hv hpos hfree hbs
    rw [heq]
    constructor
    · rintro ⟨est, hest, hle⟩
      obtain rfl := Option.some.inj hest
      exact ⟨fun hconst => absurd hv hconst, fun _ => hwalk.mp hle⟩
    · rintro ⟨-, hshow⟩
      exact ⟨_, rfl, hwalk.mpr (hshow hv)⟩

/-- Seen at the loads 5 and 60, the curve is flat between them. -/
theorem knee_le_twoLoads :
    8 ≤ (sanitize ratLearner.math ratLearner.byTime (twoLoads 5 60)).length ∧
      (∀ s ∈ sanitize ratLearner.math ratLearner.byTime (twoLoads 5 60), s.ratePerRep = 1 * min s.inflightPerRep 10) ∧
      ∃ est, estimateKnee ratLearner.math ratLearner.byTime ratLearner.byInflight (twoLoads 5 60) (500 * second) =
        some est ∧ est.kneePerReplica ≤ 10 := by
  have hclean : sanitize ratLearner.math ratLearner.byTime (twoLoads 5 60) = twoLoads 5 60 := by decide +kernel
  have hocc : occupied ratLearner.math (twoLoads 5 60) = [(twoLoads 5 60).take 4, (twoLoads 5 60).drop 4] := by
    decide +kernel
  have hlen : 8 ≤ (sanitize ratLearner.math ratLearner.byTime (twoLoads 5 60)).length := by
    rw [hclean]
    decide
  have hfree : ∀ s ∈ sanitize ratLearner.math ratLearner.byTime (twoLoads 5 60),
      s.ratePerRep = 1 * min s.inflightPerRep 10 := by
    rw [hclean]
    decide +kernel
  refine ⟨hlen, hfree, (knee_le_iff ratLearner ratMath_exact one_pos (twoLoads 5 60) (500 * second) hlen hfree).mpr ?_⟩
  have hvaries : Varies (twoLoads 5 60) :=
    ⟨⟨0, 1, 5, 5⟩, by decide +kernel, ⟨420 * second, 1, 60, 10⟩, by decide +kernel, by decide⟩
  rw [hclean]
  refine ⟨fun hconst => absurd hvaries hconst, fun _ => .inr ?_⟩
  refine ⟨(twoLoads 5 60).take 4, (twoLoads 5 60).take 4, (twoLoads 5 60).drop 4, ?_, ?_, ?_, ?_⟩
  · rw [hocc]
    rfl
  · rw [hocc]
  · decide +kernel
  · unfold Flattens
    decide +kernel

/-- The loads 5 and 29 give a lower bound of 29, almost three times the load that the replica saturates at; and the load
30 alone gives 30. -/
theorem knee_above_saturation :
    (sanitize ratLearner.math ratLearner.byTime (twoLoads 5 29) = twoLoads 5 29 ∧
      (∀ s ∈ twoLoads 5 29, s.ratePerRep = 1 * min s.inflightPerRep 10) ∧
      estimateKnee ratLearner.math ratLearner.byTime ratLearner.byInflight (twoLoads 5 29) (500 * second) =
        some ⟨29, true, 168 / 725⟩) ∧
    sanitize ratLearner.math ratLearner.byTime (twoLoads 30 30) = twoLoads 30 30 ∧
      (∀ s ∈ twoLoads 30 30, s.ratePerRep = 1 * min s.inflightPerRep 10) ∧
      estimateKnee ratLearner.math ratLearner.byTime ratLearner.byInflight (twoLoads 30 30) (500 * second) =
        some ⟨30, true, 7 / 25⟩ := by
  decide +kernel

end KynoMesh.Scaling
