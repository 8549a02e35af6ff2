import KynoMesh.History.Sanitize
import KynoMesh.Scaling.Knee

/-!
# Units of the estimator

In exact arithmetic `EstimateKnee` does not depend on the units of its samples: each stage of it commutes with a change
of the units of the loads and of the rates.

* `scaleSample`, `Bucket.scale` : new units; `sanitize_scale`, `occupied_scale`, `bandBucket_scale`, `findKnee_scale`,
  `confidence_scale` : the stages;
* `estimateKnee_scale` : the estimate in new units;
* `estimateKnee_unitFree` : the two units, one by one.
-/

namespace KynoMesh.Scaling

open KynoMesh.Lib KynoMesh.History

variable {K : Type} [Field K] [LinearOrder K] [IsStrictOrderedRing K]

/-- Loads are multiplied by `a`, rates by `b`. -/
def scaleSample (a b : K) (s : Sample K) : Sample K :=
  { s with inflightPerRep := a * s.inflightPerRep, ratePerRep := b * s.ratePerRep }

def Bucket.scale (a b : K) (x : Bucket K) : Bucket K := { x with inflight := a * x.inflight, rate := b * x.rate }

section
variable {math : GoMath K} {a b : K}

theorem scaled_nonpos_iff (ha : 0 < a) {x : K} : a * x ≤ 0 ↔ x ≤ 0 := by
  rw [← not_lt, ← not_lt, mul_pos_iff_of_pos_left ha]

/-! ## Clean samples -/

theorem valid_scaleSample [FloorRing K] (hm : math.Exact) (ha : 0 < a) (hb : 0 < b) (s : Sample K) :
    (scaleSample a b s).valid math = s.valid math := by
  have hload : decide (0 < a * s.inflightPerRep) = decide (0 < s.inflightPerRep) :=
    decide_eq_decide.mpr (mul_pos_iff_of_pos_left ha)
  have hrate : decide (0 < b * s.ratePerRep) = decide (0 < s.ratePerRep) :=
    decide_eq_decide.mpr (mul_pos_iff_of_pos_left hb)
  unfold Sample.valid scaleSample
  simp only [hm.isNaN_eq, hload, hrate]

theorem sanitize_scale [FloorRing K] (hm : math.Exact) (byTime : ComparisonSort (Sample K) earlier) (ha : 0 < a)
    (hb : 0 < b) (hist : List (Sample K)) :
    sanitize math byTime.toSortSlice (hist.map (scaleSample a b)) =
      (sanitize math byTime.toSortSlice hist).map (scaleSample a b) :=
  sanitize_map (byTime.run_map (scaleSample a b) (fun _ _ => rfl) hist) (fun _ => rfl) (fun _ => rfl)
    (valid_scaleSample hm ha hb)

omit [IsStrictOrderedRing K] in
theorem timeSpanFactor_scale (clean : List (Sample K)) :
    timeSpanFactor (clean.map (scaleSample a b)) = timeSpanFactor clean := by
  rcases clean with _ | ⟨first, _ | ⟨second, rest⟩⟩
  · rfl
  · rfl
  · have hlast : (scaleSample a b second :: rest.map (scaleSample a b)).getLast (List.cons_ne_nil _ _) =
        scaleSample a b ((second :: rest).getLast (List.cons_ne_nil _ _)) :=
      List.getLast_map (f := scaleSample a b) (l := second :: rest) (List.cons_ne_nil _ _)
    change clampF (((timeSub ((scaleSample a b second :: rest.map (scaleSample a b)).getLast _).timestamp _ : Int) : K) /
      (fullConfidenceWindow : K)) 0 _ = _
    rw [hlast]
    rfl

/-! ## Bands -/

theorem varies_scale (ha : 0 < a) (clean : List (Sample K)) :
    Varies (clean.map (scaleSample a b)) ↔ Varies clean := by
  simp [Varies, scaleSample, ha]

omit [LinearOrder K] [IsStrictOrderedRing K] in
theorem foldl_scale {op : K → K → K} (hop : ∀ x y, op (a * x) (a * y) = a * op x y) (clean : List (Sample K)) (m : K) :
    (clean.map (scaleSample a b)).foldl (fun m s => op m s.inflightPerRep) (a * m) =
      a * clean.foldl (fun m s => op m s.inflightPerRep) m := by
  induction clean generalizing m with
  | nil => rfl
  | cons s clean ih =>
    rw [List.map_cons, List.foldl_cons, List.foldl_cons, ← ih, ← hop]
    rfl

theorem minLoad_scale (ha : 0 < a) (first : Sample K) (clean : List (Sample K)) :
    minLoad (scaleSample a b first) (clean.map (scaleSample a b)) = a * minLoad first clean :=
  foldl_scale (fun x y => (mul_min_of_nonneg x y ha.le).symm) clean first.inflightPerRep

theorem maxLoad_scale (ha : 0 < a) (first : Sample K) (clean : List (Sample K)) :
    maxLoad (scaleSample a b first) (clean.map (scaleSample a b)) = a * maxLoad first clean :=
  foldl_scale (fun x y => (mul_max_of_nonneg x y ha.le).symm) clean first.inflightPerRep

omit [IsStrictOrderedRing K] in
/-- The band of a load does not depend on the unit. -/
theorem bucketIndex_scale (ha : 0 < a) (minI span x : K) :
    bucketIndex math (a * minI) (a * span) (a * x) = bucketIndex math minI span x := by
  unfold bucketIndex
  rw [← mul_sub, mul_div_mul_left _ _ ha.ne']

omit [IsStrictOrderedRing K] in
theorem bandOf_scale (ha : 0 < a) (minI span : K) (clean : List (Sample K)) (i : Nat) :
    bandOf math (a * minI) (a * span) (clean.map (scaleSample a b)) i =
      (bandOf math minI span clean i).map (scaleSample a b) := by
  unfold bandOf
  rw [List.filter_map]
  congr 1
  refine List.filter_congr fun s _ => ?_
  simp only [Function.comp_apply, scaleSample, bucketIndex_scale ha]

omit [IsStrictOrderedRing K] in
theorem bands_scale (ha : 0 < a) (minI span : K) (clean : List (Sample K)) :
    bands math (a * minI) (a * span) (clean.map (scaleSample a b)) =
      (bands math minI span clean).map (List.map (scaleSample a b)) := by
  have hband : bandOf math (a * minI) (a * span) (clean.map (scaleSample a b)) =
      List.map (scaleSample a b) ∘ bandOf math minI span clean := funext (bandOf_scale ha minI span clean)
  unfold bands
  rw [hband, ← List.map_map, List.filter_map]
  congr 1
  refine List.filter_congr fun l _ => ?_
  simp

theorem occupied_scale (ha : 0 < a) (clean : List (Sample K)) :
    occupied math (clean.map (scaleSample a b)) = (occupied math clean).map (List.map (scaleSample a b)) := by
  cases clean with
  | nil => rfl
  | cons first rest =>
    change bands math (minLoad (scaleSample a b first) ((first :: rest).map (scaleSample a b)))
      (maxLoad (scaleSample a b first) ((first :: rest).map (scaleSample a b)) -
        minLoad (scaleSample a b first) ((first :: rest).map (scaleSample a b)))
      ((first :: rest).map (scaleSample a b)) = _
    rw [minLoad_scale ha, maxLoad_scale ha, ← mul_sub, bands_scale ha]
    rfl

omit [LinearOrder K] [IsStrictOrderedRing K] in
/-- The means of a band are in the new units, and its weight is as it was. -/
theorem bandBucket_scale (now : Int) (l : List (Sample K)) :
    bandBucket math now (l.map (scaleSample a b)) = (bandBucket math now l).scale a b := by
  have hweight : (l.map (scaleSample a b)).map (weightAt math now) = l.map (weightAt math now) := by
    rw [List.map_map]
    rfl
  have hmean : ∀ (c : K) (x : Sample K → K), (∀ s, x (scaleSample a b s) = c * x s) →
      weightedMean (weightAt math now) x (l.map (scaleSample a b)) = c * weightedMean (weightAt math now) x l := by
    intro c x hx
    unfold weightedMean
    rw [hweight, List.map_map, ← mul_div_assoc, ← List.sum_map_mul_left]
    congr 2
    refine List.map_congr_left fun s _ => ?_
    rw [Function.comp_apply, hx, mul_assoc]
    rfl
  unfold bandBucket Bucket.scale
  rw [hmean a Sample.inflightPerRep fun _ => rfl, hmean b Sample.ratePerRep fun _ => rfl, hweight]

/-! ## The knee -/

omit [LinearOrder K] [IsStrictOrderedRing K] in
@[simp] theorem Bucket.scale_inflight (x : Bucket K) : (x.scale a b).inflight = a * x.inflight := rfl

omit [LinearOrder K] [IsStrictOrderedRing K] in
theorem getLast_scale (first : Bucket K) (rest : List (Bucket K)) :
    (first.scale a b :: rest.map (Bucket.scale a b)).getLast (List.cons_ne_nil _ _) =
      ((first :: rest).getLast (List.cons_ne_nil _ _)).scale a b :=
  List.getLast_map (f := Bucket.scale a b) (l := first :: rest) (List.cons_ne_nil _ _)

theorem findKneeFrom_scale (ha : 0 < a) (hb : 0 < b) (ref : K) (prev : Bucket K) (rest : List (Bucket K)) :
    findKneeFrom (b / a * ref) (prev.scale a b) (rest.map (Bucket.scale a b)) =
      (a * (findKneeFrom ref prev rest).1, (findKneeFrom ref prev rest).2) := by
  induction rest generalizing prev with
  | nil => rfl
  | cons x rest ih =>
    rw [List.map_cons, findKneeFrom, findKneeFrom]
    dsimp only
    have hdIn : (x.scale a b).inflight - (prev.scale a b).inflight = a * (x.inflight - prev.inflight) :=
      (mul_sub a x.inflight prev.inflight).symm
    have hrise : (x.scale a b).rate - (prev.scale a b).rate = b * (x.rate - prev.rate) :=
      (mul_sub b x.rate prev.rate).symm
    -- the slopes and the reference slope are in the same unit
    have hflat : b * (x.rate - prev.rate) / (a * (x.inflight - prev.inflight)) < plateauFraction * (b / a * ref) ↔
        (x.rate - prev.rate) / (x.inflight - prev.inflight) < plateauFraction * ref := by
      rw [mul_div_mul_comm, mul_left_comm, mul_lt_mul_iff_right₀ (div_pos hb ha)]
    simp only [hdIn, hrise, scaled_nonpos_iff ha, hflat, ih]
    split_ifs <;> rfl

theorem findKnee_scale (ha : 0 < a) (hb : 0 < b) (first : Bucket K) (rest : List (Bucket K)) :
    findKnee (first.scale a b) (rest.map (Bucket.scale a b)) =
      (a * (findKnee first rest).1, (findKnee first rest).2) := by
  have href : (first.scale a b).rate / (first.scale a b).inflight = b / a * (first.rate / first.inflight) :=
    mul_div_mul_comm b first.rate a first.inflight
  unfold findKnee
  dsimp only
  simp only [href, scaled_nonpos_iff (div_pos hb ha), getLast_scale, findKneeFrom_scale ha hb]
  split_ifs <;> rfl

theorem coverageFactor_scale (ha : 0 < a) (first : Bucket K) (rest : List (Bucket K)) :
    coverageFactor (first.scale a b) (rest.map (Bucket.scale a b)) = coverageFactor first rest := by
  have hcover : ∀ lo hi : K, (a * hi - a * lo) / (a * hi) = (hi - lo) / hi := by
    intro lo hi
    rw [← mul_sub, mul_div_mul_left _ _ ha.ne']
  unfold coverageFactor
  simp only [getLast_scale, Bucket.scale_inflight, scaled_nonpos_iff ha, hcover]

theorem confidence_scale (ha : 0 < a) (clean : List (Sample K)) (first : Bucket K) (rest : List (Bucket K))
    (isLowerBound : Bool) :
    confidence (clean.map (scaleSample a b)) (first.scale a b) (rest.map (Bucket.scale a b)) isLowerBound =
      confidence clean first rest isLowerBound := by
  unfold confidence
  rw [timeSpanFactor_scale, coverageFactor_scale ha]

end

/-! ## The estimate -/

/-- **The estimate in new units.** -/
theorem estimateKnee_scale [FloorRing K] {math : GoMath K} (hm : math.Exact) (byTime : ComparisonSort (Sample K) earlier)
    (byInflight : SortSlice (Bucket K) lighter) {a b : K} (ha : 0 < a) (hb : 0 < b) (hist : List (Sample K)) (now : Int) :
    ∃ est, estimateKnee math byTime.toSortSlice byInflight hist now = some est ∧
      estimateKnee math byTime.toSortSlice byInflight (hist.map (scaleSample a b)) now =
        some { est with kneePerReplica := a * est.kneePerReplica } := by
  have hclean := sanitize_scale hm byTime ha hb hist
  have hlength := congrArg List.length hclean
  rw [List.length_map] at hlength
  by_cases hlen : 8 ≤ (sanitize math byTime.toSortSlice hist).length
  · have hscaled := estimateKnee_cases ⟨math, byTime.toSortSlice, byInflight⟩ hm hclean (by simpa using hlen) now
    rcases estimateKnee_cases ⟨math, byTime.toSortSlice, byInflight⟩ hm rfl hlen now with
      ⟨hconst, s, hs, hsame, heq⟩ | ⟨hv, first, rest, hbs, heq⟩
    · -- one load
      refine ⟨_, heq, ?_⟩
      rcases hscaled with ⟨-, s', hs', -, hscaled⟩ | ⟨hv, -⟩
      · obtain ⟨s₀, hs₀, rfl⟩ := List.mem_map.mp hs'
        have hload : (scaleSample a b s₀).inflightPerRep = a * s.inflightPerRep := congrArg (a * ·) (hsame s₀ hs₀)
        rw [hload, timeSpanFactor_scale] at hscaled
        exact hscaled
      · exact absurd ((varies_scale ha _).mp hv) hconst
    · -- the curve
      refine ⟨_, heq, ?_⟩
      rcases hscaled with ⟨hconst, -⟩ | ⟨-, first', rest', hbs', hscaled⟩
      · exact absurd ((varies_scale ha _).mpr hv) hconst
      · have hcurve : (occupied math ((sanitize math byTime.toSortSlice hist).map (scaleSample a b))).map
            (bandBucket math now) = first.scale a b :: rest.map (Bucket.scale a b) := by
          rw [occupied_scale ha, List.map_map, ← List.map_cons, ← hbs, List.map_map]
          exact List.map_congr_left fun l _ => bandBucket_scale now l
        obtain ⟨rfl, rfl⟩ := List.cons_eq_cons.mp (hbs'.symm.trans hcurve)
        rw [findKnee_scale ha hb, confidence_scale ha] at hscaled
        exact hscaled
  · refine ⟨_, if_pos (not_le.mp hlen), ?_⟩
    rw [mul_zero]
    exact if_pos (by rw [hlength]; exact not_le.mp hlen)

/-- **The estimator has no units.** A change of the unit of the rates leaves the estimate as it is; a change of the unit
of the loads changes the unit of the knee, and nothing else. -/
theorem estimateKnee_unitFree [FloorRing K] {math : GoMath K} (hm : math.Exact)
    (byTime : ComparisonSort (Sample K) earlier) (byInflight : SortSlice (Bucket K) lighter) (hist : List (Sample K))
    (now : Int) {c : K} (hc : 0 < c) :
    ∃ est, estimateKnee math byTime.toSortSlice byInflight hist now = some est ∧
      estimateKnee math byTime.toSortSlice byInflight (hist.map fun s => { s with ratePerRep := c * s.ratePerRep }) now =
        some est ∧
      estimateKnee math byTime.toSortSlice byInflight
          (hist.map fun s => { s with inflightPerRep := c * s.inflightPerRep }) now =
        some { est with kneePerReplica := c * est.kneePerReplica } := by
  have hrate : (fun s : Sample K => { s with ratePerRep := c * s.ratePerRep }) = scaleSample 1 c := by
    funext s
    rw [scaleSample, one_mul]
  have hload : (fun s : Sample K => { s with inflightPerRep := c * s.inflightPerRep }) = scaleSample c 1 := by
    funext s
    rw [scaleSample, one_mul]
  obtain ⟨est, heq, hrates⟩ := estimateKnee_scale hm byTime byInflight one_pos hc hist now
  obtain ⟨est', heq', hloads⟩ := estimateKnee_scale hm byTime byInflight hc one_pos hist now
  obtain rfl := Option.some.inj (heq.symm.trans heq')
  rw [one_mul] at hrates
  rw [hrate, hload]
  exact ⟨est, heq, hrates, hloads⟩

/-- Loads in thousandths. -/
theorem estimateKnee_unitFree_twoLoads :
    ∃ est, estimateKnee ratLearner.math (SortSlice.insertion Sample.timestamp) ratLearner.byInflight (twoLoads 5 60)
        (500 * second) = some est ∧
      estimateKnee ratLearner.math (SortSlice.insertion Sample.timestamp) ratLearner.byInflight
          ((twoLoads 5 60).map fun s => { s with inflightPerRep := 1000 * s.inflightPerRep }) (500 * second) =
        some { est with kneePerReplica := 1000 * est.kneePerReplica } := by
  obtain ⟨est, heq, -, hloads⟩ := estimateKnee_unitFree ratMath_exact (ComparisonSort.insertion Sample.timestamp)
    ratLearner.byInflight (twoLoads 5 60) (500 * second) (c := 1000) (by norm_num)
  exact ⟨est, heq, hloads⟩

end KynoMesh.Scaling
