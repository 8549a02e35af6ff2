import Mathlib.Data.List.Induction
import Mathlib.Data.List.Pairwise
import Mathlib.Data.Rat.Defs
import KynoMesh.History.Sample

/-!
# What `Sanitize` keeps

* `dedupByTimestamp_concat`, `dedupByTimestamp_filter` : of the samples at an instant, the last one of a sorted list is
  left;
* `Precedes`, `Changes`, `Settled` : a sample that is not within a minute of a change of the replica count;
* `Scanned`, `Scanned.step` : what the loop knows after a part of the samples; `mem_sanitize`, `sanitize_ascending` : the
  steady samples, in ascending order;
* `sanitize_map` : a change of the loads that keeps valid samples valid goes through `sanitize`;
* `lastWriteWins_iff` : the histories for which the last write of an instant wins, whatever order the sort gives to
  samples of one instant.
-/

namespace KynoMesh.History

open KynoMesh.Lib

variable {F : Type}

/-! ## Samples of one instant -/

/-- What the loop of `dedupByTimestamp` does with one more sample. -/
def put (out : List (Sample F)) (s : Sample F) : List (Sample F) :=
  match out.getLast? with
  | some last => if s.timestamp = last.timestamp then out.dropLast ++ [s] else out ++ [s]
  | none => out ++ [s]

theorem dedupByTimestamp_concat (l : List (Sample F)) (s : Sample F) :
    dedupByTimestamp (l ++ [s]) = put (dedupByTimestamp l) s := by
  unfold dedupByTimestamp
  rw [List.foldl_append]
  rfl

theorem put_of_ne {out : List (Sample F)} {s : Sample F} (h : ∀ last ∈ out.getLast?, s.timestamp ≠ last.timestamp) :
    put out s = out ++ [s] := by
  unfold put
  cases hlast : out.getLast? with
  | none => rfl
  | some last => exact if_neg (h last hlast)

theorem put_of_eq {out : List (Sample F)} {s last : Sample F} (h : s.timestamp = last.timestamp) :
    put (out ++ [last]) s = out ++ [s] := by
  unfold put
  rw [List.getLast?_concat, List.dropLast_concat]
  exact if_pos h

theorem getLast?_put (out : List (Sample F)) (s : Sample F) : (put out s).getLast? = some s := by
  unfold put
  split
  · split_ifs
    · exact List.getLast?_concat
    · exact List.getLast?_concat
  · exact List.getLast?_concat

theorem getLast?_dedupByTimestamp (l : List (Sample F)) : (dedupByTimestamp l).getLast? = l.getLast? := by
  cases l using List.reverseRecOn with
  | nil => rfl
  | append_singleton l s => rw [dedupByTimestamp_concat, getLast?_put, List.getLast?_concat]

theorem dedupByTimestamp_eq_self {l : List (Sample F)} (h : l.Pairwise fun a b => a.timestamp < b.timestamp) :
    dedupByTimestamp l = l := by
  induction l using List.reverseRecOn with
  | nil => rfl
  | append_singleton l s ih =>
    obtain ⟨hl, -, hs⟩ := List.pairwise_append.mp h
    rw [dedupByTimestamp_concat, ih hl]
    refine put_of_ne fun last hlast => ?_
    exact (hs last (List.mem_of_getLast? hlast) s (List.mem_singleton.mpr rfl)).ne'

/-- A sample of the instant `t`. -/
def ofInstant (t : Int) (s : Sample F) : Bool := decide (s.timestamp = t)

theorem filter_ofInstant_concat_of_eq {t : Int} {s : Sample F} (h : s.timestamp = t) (l : List (Sample F)) :
    (l ++ [s]).filter (ofInstant t) = l.filter (ofInstant t) ++ [s] := by
  rw [List.filter_append, List.filter_cons_of_pos (by simpa [ofInstant] using h), List.filter_nil]

theorem filter_ofInstant_concat_of_ne {t : Int} {s : Sample F} (h : s.timestamp ≠ t) (l : List (Sample F)) :
    (l ++ [s]).filter (ofInstant t) = l.filter (ofInstant t) := by
  rw [List.filter_append, List.filter_cons_of_neg (by simpa [ofInstant] using h), List.filter_nil, List.append_nil]

theorem le_getLast {l : List (Sample F)} (h : l.Pairwise fun a b => a.timestamp ≤ b.timestamp) {last : Sample F}
    (hlast : last ∈ l.getLast?) {a : Sample F} (ha : a ∈ l) : a.timestamp ≤ last.timestamp := by
  obtain ⟨l, rfl⟩ := List.getLast?_eq_some_iff.mp hlast
  rcases List.mem_append.mp ha with ha | ha
  · exact (List.pairwise_append.mp h).2.2 a ha last (List.mem_singleton.mpr rfl)
  · rw [List.mem_singleton.mp ha]

theorem filter_ofInstant_eq_nil {l : List (Sample F)} (h : l.Pairwise fun a b => a.timestamp ≤ b.timestamp) {t : Int}
    (hlast : ∀ last ∈ l.getLast?, last.timestamp < t) : l.filter (ofInstant t) = [] := by
  rw [List.filter_eq_nil_iff]
  intro a ha hat
  have hmem : l.getLast (List.ne_nil_of_mem ha) ∈ l.getLast? := List.getLast?_eq_some_getLast _
  have hle := le_getLast h hmem ha
  have hlt := hlast _ hmem
  simp only [ofInstant, decide_eq_true_eq] at hat
  omega

theorem filter_put_of_ne {out : List (Sample F)} {s : Sample F} {t : Int} (ht : s.timestamp ≠ t) :
    (put out s).filter (ofInstant t) = out.filter (ofInstant t) := by
  by_cases hsame : ∃ last ∈ out.getLast?, s.timestamp = last.timestamp
  · obtain ⟨last, hlast, heq⟩ := hsame
    obtain ⟨out, rfl⟩ := List.getLast?_eq_some_iff.mp hlast
    rw [put_of_eq heq, filter_ofInstant_concat_of_ne ht, filter_ofInstant_concat_of_ne (heq ▸ ht)]
  · push Not at hsame
    rw [put_of_ne hsame, filter_ofInstant_concat_of_ne ht]

/-- The new sample is the only one of its instant, when at most one was left and that one was the last of all. -/
theorem filter_put_self {out : List (Sample F)} {s : Sample F}
    (hone : (out.filter (ofInstant s.timestamp)).length ≤ 1)
    (hlast : (∀ last ∈ out.getLast?, s.timestamp ≠ last.timestamp) → out.filter (ofInstant s.timestamp) = []) :
    (put out s).filter (ofInstant s.timestamp) = [s] := by
  by_cases hsame : ∃ last ∈ out.getLast?, s.timestamp = last.timestamp
  · -- the sample replaces the last one
    obtain ⟨last, hmem, heq⟩ := hsame
    obtain ⟨out, rfl⟩ := List.getLast?_eq_some_iff.mp hmem
    rw [filter_ofInstant_concat_of_eq heq.symm, List.length_append, List.length_singleton] at hone
    have hnone : out.filter (ofInstant s.timestamp) = [] := List.length_eq_zero_iff.mp (by omega)
    rw [put_of_eq heq, filter_ofInstant_concat_of_eq rfl, hnone, List.nil_append]
  · -- it is the first of its instant
    push Not at hsame
    rw [put_of_ne hsame, filter_ofInstant_concat_of_eq rfl, hlast hsame, List.nil_append]

/-- **One reading per instant.** Of a list in ascending order, the last reading of each instant is left. -/
theorem dedupByTimestamp_filter {l : List (Sample F)} (h : l.Pairwise fun a b => a.timestamp ≤ b.timestamp) (t : Int) :
    (dedupByTimestamp l).filter (ofInstant t) = (l.filter (ofInstant t)).getLast?.toList := by
  induction l using List.reverseRecOn with
  | nil => rfl
  | append_singleton l s ih =>
    obtain ⟨hl, -, hs⟩ := List.pairwise_append.mp h
    replace ih := ih hl
    rw [dedupByTimestamp_concat]
    by_cases ht : s.timestamp = t
    · subst ht
      rw [filter_ofInstant_concat_of_eq rfl, List.getLast?_concat, Option.toList_some]
      refine filter_put_self ?_ fun hne => ?_
      · rw [ih]
        exact Option.length_toList_le
      · rw [getLast?_dedupByTimestamp] at hne
        have hnone : l.filter (ofInstant s.timestamp) = [] := filter_ofInstant_eq_nil hl fun last hlast =>
          lt_of_le_of_ne (hs last (List.mem_of_getLast? hlast) s (List.mem_singleton.mpr rfl)) (hne last hlast).symm
        rw [ih, hnone]
        rfl
    · rw [filter_put_of_ne ht, filter_ofInstant_concat_of_ne ht, ih]

/-! ## Steady samples -/

/-- `p` is the sample immediately before `r` in time. -/
def Precedes (l : List (Sample F)) (p r : Sample F) : Prop :=
  p ∈ l ∧ p.timestamp < r.timestamp ∧ ∀ q ∈ l, q.timestamp < r.timestamp → q.timestamp ≤ p.timestamp

/-- At `r`, the replica count is not what it was at the sample before. -/
def Changes (l : List (Sample F)) (r : Sample F) : Prop := ∃ p, Precedes l p r ∧ r.replicas ≠ p.replicas

/-- The minute up to `s` has no change. -/
def Settled (l : List (Sample F)) (s : Sample F) : Prop :=
  ∀ r ∈ l, s.timestamp - warmupAfterScale < r.timestamp → r.timestamp ≤ s.timestamp → ¬Changes l r

theorem Changes.congr {l l' : List (Sample F)} (h : ∀ s, s ∈ l ↔ s ∈ l') (r : Sample F) : Changes l r ↔ Changes l' r := by
  simp only [Changes, Precedes, h]

theorem Settled.congr {l l' : List (Sample F)} (h : ∀ s, s ∈ l ↔ s ∈ l') (s : Sample F) : Settled l s ↔ Settled l' s := by
  simp only [Settled, h, Changes.congr h]

section
variable {pre post : List (Sample F)} {s : Sample F}

/-- In ascending order, the samples up to `s` are those no later than it. -/
theorem mem_upto_iff (h : (pre ++ s :: post).Pairwise fun a b => a.timestamp < b.timestamp) {r : Sample F} :
    r ∈ pre ++ [s] ↔ r ∈ pre ++ s :: post ∧ r.timestamp ≤ s.timestamp := by
  obtain ⟨-, hpost, hpre⟩ := List.pairwise_append.mp h
  rw [List.mem_append, List.mem_append, List.mem_singleton, List.mem_cons]
  constructor
  · rintro (hr | rfl)
    · exact ⟨.inl hr, (hpre r hr s List.mem_cons_self).le⟩
    · exact ⟨.inr (.inl rfl), le_rfl⟩
  · rintro ⟨hr | rfl | hr, hle⟩
    · exact .inl hr
    · exact .inr rfl
    · exact absurd ((List.pairwise_cons.mp hpost).1 r hr) (not_lt.mpr hle)

/-- In ascending order, the sample before `s` in time is the one before it in the list. -/
theorem precedes_iff (h : (pre ++ s :: post).Pairwise fun a b => a.timestamp < b.timestamp) {p : Sample F} :
    Precedes (pre ++ s :: post) p s ↔ p ∈ pre.getLast? := by
  have hpre := (List.pairwise_append.mp h).1
  have hlt : ∀ a ∈ pre, a.timestamp < s.timestamp :=
    fun a ha => (List.pairwise_append.mp h).2.2 a ha s List.mem_cons_self
  have hmem : ∀ a, a ∈ pre ++ s :: post → a.timestamp < s.timestamp → a ∈ pre := by
    intro a ha halt
    rcases List.mem_append.mp ((mem_upto_iff h).mpr ⟨ha, halt.le⟩) with ha | ha
    · exact ha
    · rw [List.mem_singleton.mp ha] at halt
      exact absurd halt (lt_irrefl _)
  constructor
  · rintro ⟨hp, hps, hmax⟩
    have hp := hmem p hp hps
    obtain ⟨init, last, rfl⟩ := (List.eq_nil_or_concat' pre).resolve_left (List.ne_nil_of_mem hp)
    have hle := hmax last (by simp) (hlt last (by simp))
    rcases List.mem_append.mp hp with hp | hp
    · exact absurd ((List.pairwise_append.mp hpre).2.2 p hp last (by simp)) (not_lt.mpr hle)
    · rw [List.mem_singleton.mp hp]
      exact List.getLast?_concat
  · intro hp
    have hmemp := List.mem_of_getLast? hp
    refine ⟨List.mem_append_left _ hmemp, hlt p hmemp, fun q hq hqs => ?_⟩
    exact le_getLast (hpre.imp le_of_lt) hp (hmem q hq hqs)

end

/-! ## The scan -/

/-- `t` is the time of the last change in a part of the samples, or the zero time when there is none. -/
def LastChange (sorted part : List (Sample F)) (t : Int) : Prop :=
  (t = zeroTime ∧ ∀ r ∈ part, ¬Changes sorted r) ∨
    ∃ r ∈ part, Changes sorted r ∧ t = r.timestamp ∧ ∀ r' ∈ part, Changes sorted r' → r'.timestamp ≤ r.timestamp

section
variable {pre post : List (Sample F)} {s : Sample F} {t : Int}

theorem LastChange.concat_of_changes (h : (pre ++ s :: post).Pairwise fun a b => a.timestamp < b.timestamp)
    (hs : Changes (pre ++ s :: post) s) : LastChange (pre ++ s :: post) (pre ++ [s]) s.timestamp :=
  .inr ⟨s, by simp, hs, rfl, fun _ hr _ => ((mem_upto_iff h).mp hr).2⟩

theorem LastChange.concat_of_not_changes {sorted : List (Sample F)} (ht : LastChange sorted pre t)
    (hs : ¬Changes sorted s) : LastChange sorted (pre ++ [s]) t := by
  have hcase : ∀ {P : Sample F → Prop}, (∀ r ∈ pre, P r) → P s → ∀ r ∈ pre ++ [s], P r := by
    intro P hpre hs r hr
    rcases List.mem_append.mp hr with hr | hr
    · exact hpre r hr
    · exact List.mem_singleton.mp hr ▸ hs
  rcases ht with ⟨hzero, hnone⟩ | ⟨r, hr, hchange, htime, hmax⟩
  · exact .inl ⟨hzero, hcase hnone hs⟩
  · exact .inr ⟨r, List.mem_append_left _ hr, hchange, htime, hcase hmax fun h => absurd h hs⟩

theorem LastChange.warmingUp_iff (h : (pre ++ s :: post).Pairwise fun a b => a.timestamp < b.timestamp)
    (hzero : ∀ r ∈ pre ++ s :: post, r.timestamp ≠ zeroTime)
    (ht : LastChange (pre ++ s :: post) (pre ++ [s]) t) :
    (t ≠ zeroTime ∧ timeSub s.timestamp t < warmupAfterScale) ↔ ¬Settled (pre ++ s :: post) s := by
  rcases ht with ⟨rfl, hnone⟩ | ⟨r, hr, hchange, rfl, hmax⟩
  · have hsettled : Settled (pre ++ s :: post) s := fun r hr _ hle => hnone r ((mem_upto_iff h).mpr ⟨hr, hle⟩)
    exact ⟨fun hw => absurd rfl hw.1, fun hn => absurd hsettled hn⟩
  · obtain ⟨hmem, hle⟩ := (mem_upto_iff h).mp hr
    rw [timeSub_lt_iff hle (by decide)]
    constructor
    · rintro ⟨-, hwarm⟩ hsettled
      exact hsettled r hmem (by omega) hle hchange
    · intro hn
      refine ⟨hzero r hmem, ?_⟩
      by_contra hfar
      -- no change is later than the last one
      refine hn fun r' hr' hnear hle' hchange' => ?_
      have := hmax r' ((mem_upto_iff h).mpr ⟨hr', hle'⟩) hchange'
      omega

end

section
variable [Zero F] [LT F] [DecidableLT F] {math : GoMath F} {sorted pre post : List (Sample F)} {s : Sample F}
  {c : WarmupScan F}

/-- What the loop of `Sanitize` knows after the samples `pre` of `sorted`. -/
structure Scanned (math : GoMath F) (sorted pre : List (Sample F)) (c : WarmupScan F) : Prop where
  /-- Before the first sample, its own count. -/
  prevReplicas : ∀ p ∈ pre.getLast?.or sorted.head?, c.prevReplicas = p.replicas
  lastChange : LastChange sorted pre c.lastChange
  sublist : c.clean.Sublist pre
  mem_clean : ∀ a, a ∈ c.clean ↔ a ∈ pre ∧ a.valid math = true ∧ Settled sorted a

theorem Scanned.changes_iff (h : (pre ++ s :: post).Pairwise fun a b => a.timestamp < b.timestamp)
    (hc : Scanned math (pre ++ s :: post) pre c) : s.replicas ≠ c.prevReplicas ↔ Changes (pre ++ s :: post) s := by
  have hprev := hc.prevReplicas
  simp only [Changes, precedes_iff h]
  cases hlast : pre.getLast? with
  | none =>
    obtain rfl := List.getLast?_eq_none_iff.mp hlast
    have := hprev s (by simp)
    simp [this]
  | some p =>
    rw [hlast] at hprev
    rw [hprev p (by simp)]
    simp

theorem Scanned.lastChange_concat (h : (pre ++ s :: post).Pairwise fun a b => a.timestamp < b.timestamp)
    (hc : Scanned math (pre ++ s :: post) pre c) :
    LastChange (pre ++ s :: post) (pre ++ [s]) (scanSample math c s).lastChange := by
  unfold scanSample
  dsimp only
  by_cases hchange : s.replicas ≠ c.prevReplicas
  · rw [if_pos hchange]
    exact LastChange.concat_of_changes h ((hc.changes_iff h).mp hchange)
  · rw [if_neg hchange]
    exact hc.lastChange.concat_of_not_changes fun hs => hchange ((hc.changes_iff h).mpr hs)

theorem Scanned.step (h : (pre ++ s :: post).Pairwise fun a b => a.timestamp < b.timestamp)
    (hzero : ∀ r ∈ pre ++ s :: post, r.timestamp ≠ zeroTime) (hc : Scanned math (pre ++ s :: post) pre c) :
    Scanned math (pre ++ s :: post) (pre ++ [s]) (scanSample math c s) := by
  have hlast := hc.lastChange_concat h
  have hwarm := hlast.warmingUp_iff h hzero
  have hprev : ∀ p ∈ (pre ++ [s]).getLast?.or (pre ++ s :: post).head?,
      (scanSample math c s).prevReplicas = p.replicas := by
    rw [List.getLast?_concat, Option.some_or]
    intro p hp
    obtain rfl := Option.some.inj hp
    rfl
  by_cases hkeep : s.valid math = true ∧ Settled (pre ++ s :: post) s
  · have hclean : (scanSample math c s).clean = c.clean ++ [s] := if_pos ⟨hkeep.1, fun hw => hwarm.mp hw hkeep.2⟩
    refine ⟨hprev, hlast, ?_, fun a => ?_⟩
    · rw [hclean]
      exact hc.sublist.append (List.Sublist.refl [s])
    · rw [hclean, List.mem_append, List.mem_append, List.mem_singleton, hc.mem_clean]
      constructor
      · rintro (⟨ha, hgood⟩ | rfl)
        · exact ⟨.inl ha, hgood⟩
        · exact ⟨.inr rfl, hkeep⟩
      · rintro ⟨ha | rfl, hgood⟩
        · exact .inl ⟨ha, hgood⟩
        · exact .inr rfl
  · have hclean : (scanSample math c s).clean = c.clean :=
      if_neg fun hk => hkeep ⟨hk.1, by_contra fun hn => hk.2 (hwarm.mpr hn)⟩
    refine ⟨hprev, hlast, ?_, fun a => ?_⟩
    · rw [hclean]
      exact hc.sublist.trans (List.sublist_append_left pre [s])
    · rw [hclean, List.mem_append, List.mem_singleton, hc.mem_clean]
      constructor
      · exact fun ⟨ha, hgood⟩ => ⟨.inl ha, hgood⟩
      · rintro ⟨ha | rfl, hgood⟩
        · exact ⟨ha, hgood⟩
        · exact absurd hgood hkeep

variable (pre post) in
theorem Scanned.foldl (hzero : ∀ r ∈ pre ++ post, r.timestamp ≠ zeroTime)
    (h : (pre ++ post).Pairwise fun a b => a.timestamp < b.timestamp) (hc : Scanned math (pre ++ post) pre c) :
    Scanned math (pre ++ post) (pre ++ post) (post.foldl (scanSample math) c) := by
  induction post generalizing pre c with
  | nil =>
    rw [List.append_nil] at hc ⊢
    exact hc
  | cons s post ih =>
    have hstep := hc.step h hzero
    rw [List.append_cons] at hstep h hzero ⊢
    exact ih _ hzero h hstep

/-! ## Histories with one sample for each instant -/

section
variable {byTime : SortSlice (Sample F) earlier} {l : List (Sample F)}

omit [Zero F] [LT F] [DecidableLT F] in
theorem run_ascending (byTime : SortSlice (Sample F) earlier) (hdistinct : l.Pairwise fun a b => a.timestamp ≠ b.timestamp) :
    (byTime.run l).Pairwise fun a b => a.timestamp < b.timestamp := by
  have hne : (byTime.run l).Pairwise fun a b => a.timestamp ≠ b.timestamp :=
    (byTime.perm l).symm.pairwise hdistinct fun h => h.symm
  refine List.Pairwise.imp₂ (fun a b hle hne => ?_) (byTime.sorted l) hne
  simp only [earlier, decide_eq_false_iff_not] at hle
  omega

theorem exists_scanned (math : GoMath F) (byTime : SortSlice (Sample F) earlier)
    (hdistinct : l.Pairwise fun a b => a.timestamp ≠ b.timestamp) (hzero : ∀ s ∈ l, s.timestamp ≠ zeroTime) :
    ∃ c, Scanned math (byTime.run l) (byTime.run l) c ∧ sanitize math byTime l = c.clean := by
  have hasc := run_ascending byTime hdistinct
  have hzero' : ∀ s ∈ byTime.run l, s.timestamp ≠ zeroTime := fun s hs => hzero s ((byTime.perm l).mem_iff.mp hs)
  unfold sanitize
  rw [dedupByTimestamp_eq_self hasc]
  cases hrun : byTime.run l with
  | nil =>
    refine ⟨{ prevReplicas := 0 }, ⟨by simp, .inl ⟨rfl, by simp⟩, .slnil, by simp⟩, rfl⟩
  | cons first rest =>
    rw [hrun] at hasc hzero'
    have hstart : Scanned math (first :: rest) [] { prevReplicas := first.replicas } :=
      ⟨by simp, .inl ⟨rfl, by simp⟩, .slnil, by simp⟩
    exact ⟨_, Scanned.foldl [] (first :: rest) hzero' hasc hstart, rfl⟩

theorem mem_sanitize (math : GoMath F) (byTime : SortSlice (Sample F) earlier)
    (hdistinct : l.Pairwise fun a b => a.timestamp ≠ b.timestamp) (hzero : ∀ s ∈ l, s.timestamp ≠ zeroTime)
    (s : Sample F) : s ∈ sanitize math byTime l ↔ s ∈ l ∧ s.valid math = true ∧ Settled l s := by
  obtain ⟨c, hc, heq⟩ := exists_scanned math byTime hdistinct hzero
  have hmem : ∀ a, a ∈ byTime.run l ↔ a ∈ l := fun a => (byTime.perm l).mem_iff
  rw [heq, hc.mem_clean, hmem, Settled.congr hmem]

theorem sanitize_ascending (math : GoMath F) (byTime : SortSlice (Sample F) earlier)
    (hdistinct : l.Pairwise fun a b => a.timestamp ≠ b.timestamp) (hzero : ∀ s ∈ l, s.timestamp ≠ zeroTime) :
    (sanitize math byTime l).Pairwise fun a b => a.timestamp < b.timestamp := by
  obtain ⟨c, hc, heq⟩ := exists_scanned math byTime hdistinct hzero
  rw [heq]
  exact (run_ascending byTime hdistinct).sublist hc.sublist

/-- Any two sorts leave the same list, from any order of the samples. -/
theorem sanitize_perm (math : GoMath F) (byTime byTime' : SortSlice (Sample F) earlier)
    (hdistinct : l.Pairwise fun a b => a.timestamp ≠ b.timestamp) {l' : List (Sample F)} (hperm : l'.Perm l) :
    sanitize math byTime' l' = sanitize math byTime l := by
  have hdistinct' : l'.Pairwise fun a b => a.timestamp ≠ b.timestamp := hperm.symm.pairwise hdistinct fun h => h.symm
  have hrun : byTime'.run l' = byTime.run l := by
    refine (((byTime'.perm l').trans hperm).trans (byTime.perm l).symm).eq_of_pairwise ?_
      (run_ascending byTime' hdistinct') (run_ascending byTime hdistinct)
    exact fun a b _ _ hab hba => absurd hab hba.asymm
  unfold sanitize
  rw [hrun]

end

/-! ## Other loads -/

section
variable {f : Sample F → Sample F}

omit [Zero F] [LT F] [DecidableLT F] in
theorem dedupByTimestamp_map (htime : ∀ s, (f s).timestamp = s.timestamp) (l : List (Sample F)) :
    dedupByTimestamp (l.map f) = (dedupByTimestamp l).map f := by
  induction l using List.reverseRecOn with
  | nil => rfl
  | append_singleton l s ih =>
    rw [List.map_append, List.map_singleton, dedupByTimestamp_concat, ih, dedupByTimestamp_concat]
    unfold put
    rw [List.getLast?_map]
    cases (dedupByTimestamp l).getLast? with
    | none => simp
    | some last =>
      simp only [Option.map_some, htime]
      split_ifs
      · simp
      · simp

def WarmupScan.map (f : Sample F → Sample F) (c : WarmupScan F) : WarmupScan F := { c with clean := c.clean.map f }

theorem scanSample_map (htime : ∀ s, (f s).timestamp = s.timestamp) (hreplicas : ∀ s, (f s).replicas = s.replicas)
    (hvalid : ∀ s, (f s).valid math = s.valid math) (c : WarmupScan F) (s : Sample F) :
    scanSample math (c.map f) (f s) = (scanSample math c s).map f := by
  unfold scanSample WarmupScan.map
  dsimp only
  rw [htime, hreplicas, hvalid]
  split_ifs
  all_goals simp

theorem foldl_scanSample_map (htime : ∀ s, (f s).timestamp = s.timestamp) (hreplicas : ∀ s, (f s).replicas = s.replicas)
    (hvalid : ∀ s, (f s).valid math = s.valid math) (l : List (Sample F)) (c : WarmupScan F) :
    (l.map f).foldl (scanSample math) (c.map f) = (l.foldl (scanSample math) c).map f := by
  induction l generalizing c with
  | nil => rfl
  | cons s l ih => rw [List.map_cons, List.foldl_cons, scanSample_map htime hreplicas hvalid, ih, List.foldl_cons]

/-- A change of the loads alone, that keeps valid samples valid and others not. -/
theorem sanitize_map {byTime : SortSlice (Sample F) earlier} {history : List (Sample F)}
    (hrun : byTime.run (history.map f) = (byTime.run history).map f) (htime : ∀ s, (f s).timestamp = s.timestamp)
    (hreplicas : ∀ s, (f s).replicas = s.replicas) (hvalid : ∀ s, (f s).valid math = s.valid math) :
    sanitize math byTime (history.map f) = (sanitize math byTime history).map f := by
  unfold sanitize
  rw [hrun, dedupByTimestamp_map htime]
  cases dedupByTimestamp (byTime.run history) with
  | nil => rfl
  | cons first rest =>
    have hfold := foldl_scanSample_map htime hreplicas hvalid (first :: rest) { prevReplicas := first.replicas }
    rw [List.map_cons]
    dsimp only
    rw [hreplicas]
    exact congrArg WarmupScan.clean hfold

end

end

/-! ## The last write -/

/-- Exactly one reading is left of each instant, the last one of the history. -/
def LastWriteWins (history out : List (Sample F)) : Prop :=
  ∀ t, out.filter (ofInstant t) = (history.filter (ofInstant t)).getLast?.toList

section
variable [DecidableEq F]

/-- Ascending, and of the samples of its instant `y` comes last. -/
def upTo (y a b : Sample F) : Prop := a.timestamp < b.timestamp ∨ a.timestamp = b.timestamp ∧ (a = y → b = y)

instance (y : Sample F) : DecidableRel (upTo y) := fun a b => by
  unfold upTo
  infer_instance

instance (y : Sample F) : Std.Total (upTo y) where
  total a b := by
    unfold upTo
    by_cases ha : a = y
    · by_cases hb : b = y
      · grind
      · grind
    · grind

instance (y : Sample F) : IsTrans (Sample F) (upTo y) where
  trans a b c := by
    unfold upTo
    grind

/-- A sort that prefers the write `y`. -/
def preferring (y : Sample F) : SortSlice (Sample F) earlier where
  run := List.insertionSort (upTo y)
  perm := List.perm_insertionSort _
  sorted := by
    intro l
    refine (List.pairwise_insertionSort (upTo y) l).imp fun {a b} h => ?_
    simp only [earlier, decide_eq_false_iff_not]
    rcases h with hlt | ⟨heq, -⟩ <;> omega

theorem preferring_wins {history : List (Sample F)} {y : Sample F} (hy : y ∈ history) :
    (dedupByTimestamp ((preferring y).run history)).filter (ofInstant y.timestamp) = [y] := by
  have hsorted : ((preferring y).run history).Pairwise (upTo y) := List.pairwise_insertionSort _ _
  have hmem : y ∈ ((preferring y).run history).filter (ofInstant y.timestamp) :=
    List.mem_filter.mpr ⟨((preferring y).perm history).mem_iff.mpr hy, by simp [ofInstant]⟩
  rw [dedupByTimestamp_filter (((preferring y).sorted history).imp fun h => by simpa [earlier] using h)]
  obtain ⟨init, z, hlist⟩ := (List.eq_nil_or_concat' _).resolve_left (List.ne_nil_of_mem hmem)
  have hpair := hsorted.filter (ofInstant y.timestamp)
  have hz : (ofInstant y.timestamp) z = true := by
    have : z ∈ ((preferring y).run history).filter (ofInstant y.timestamp) := by rw [hlist]; simp
    exact (List.mem_filter.mp this).2
  rw [hlist] at hmem hpair ⊢
  rw [List.getLast?_concat]
  simp only [ofInstant, decide_eq_true_eq] at hz
  rcases List.mem_append.mp hmem with hmem | hmem
  · rcases (List.pairwise_append.mp hpair).2.2 y hmem z (by simp) with hlt | ⟨-, heq⟩
    · omega
    · rw [heq rfl]
      rfl
  · rw [List.mem_singleton.mp hmem]
    rfl

/-- **When the last write for an instant wins**, for every sort that does what `sort.Slice` is documented to do: when
there is only one. -/
theorem lastWriteWins_iff (history : List (Sample F)) :
    (∀ byTime : SortSlice (Sample F) earlier, LastWriteWins history (dedupByTimestamp (byTime.run history))) ↔
      ∀ a ∈ history, ∀ b ∈ history, a.timestamp = b.timestamp → a = b := by
  constructor
  · intro h a ha b hb heq
    have hlast := (preferring_wins ha).symm.trans (h (preferring a) a.timestamp)
    have hlast' := (preferring_wins hb).symm.trans (h (preferring b) b.timestamp)
    rw [heq] at hlast
    exact List.singleton_injective (hlast.trans hlast'.symm)
  · intro h byTime t
    have hperm := (byTime.perm history).filter (ofInstant t)
    have heq : (byTime.run history).filter (ofInstant t) = history.filter (ofInstant t) := by
      refine hperm.eq_of_pairwise ?_ (List.pairwise_of_forall (R := fun _ _ => True) fun _ _ => trivial)
        (List.pairwise_of_forall fun _ _ => trivial)
      intro a b ha hb _ _
      have ha' := List.mem_filter.mp (hperm.mem_iff.mp ha)
      have hb' := List.mem_filter.mp hb
      simp only [ofInstant, decide_eq_true_eq] at ha' hb'
      exact h a ha'.1 b hb'.1 (ha'.2.trans hb'.2.symm)
    rw [dedupByTimestamp_filter ((byTime.sorted history).imp fun hle => by simpa [earlier] using hle), heq]

end

/-- Thirteen readings, a minute apart, of which the sixth and the seventh have one timestamp and the last comes late. -/
def twoWrites : List (Sample ℚ) :=
  [(0, 1), (1, 2), (2, 3), (3, 4), (4, 5), (5, 6), (5, 7), (7, 8), (8, 9), (9, 10), (10, 11), (11, 12), (6, 13)].map
    fun (minute, rate) => { timestamp := 60 * minute * second, replicas := 1, inflightPerRep := 1, ratePerRep := rate }

/-- A sort may leave the first write of the two last. -/
theorem first_write_wins :
    ∃ byTime : SortSlice (Sample ℚ) earlier,
      (dedupByTimestamp (byTime.run twoWrites)).filter (ofInstant (300 * second)) = [⟨300 * second, 1, 1, 6⟩] ∧
      (twoWrites.filter (ofInstant (300 * second))).getLast? = some ⟨300 * second, 1, 1, 7⟩ ∧
      ¬LastWriteWins twoWrites (dedupByTimestamp (byTime.run twoWrites)) := by
  have hfirst : (dedupByTimestamp ((preferring ⟨300 * second, 1, 1, 6⟩).run twoWrites)).filter
      (ofInstant (300 * second)) = [⟨300 * second, 1, 1, 6⟩] := by decide +kernel
  have hlast : (twoWrites.filter (ofInstant (300 * second))).getLast? = some ⟨300 * second, 1, 1, 7⟩ := by decide +kernel
  refine ⟨preferring ⟨300 * second, 1, 1, 6⟩, hfirst, hlast, fun h => ?_⟩
  have hboth := h (300 * second)
  rw [hfirst, hlast] at hboth
  revert hboth
  decide

end KynoMesh.History
