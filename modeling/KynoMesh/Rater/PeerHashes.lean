import Mathlib.Logic.Function.Basic
import KynoMesh.Lib.Dict
import KynoMesh.Lib.GoStd

/-!
# The hashes that pods report

`rater/peer_card_drift.go`: what the pods of an AgentDeploy report on `/introspect` about the AgentCards of their peers,
cached by pod name. A scrape of a host replaces what its pod reported; hosts that discovery no longer names are pruned.

* `PeerHashCache`, `set`, `prune`, `reportedByPeer` : the cache, with its three maps;
* `reports` : the abstract cache: the latest report of every host, if no later `prune` dropped the host;
  `reports_eq_some_iff` : read off the operations;
* `Holds`, `Holds.set`, `Holds.prune` : the three maps hold the abstract cache, if a pod name belongs to one host;
* `reported_exact` : so what a drift report names;
* `tick`, `reported_hosts` : after a scrape of the hosts that discovery named, only pods of these are reported.
-/

namespace KynoMesh.Rater
open KynoMesh.Lib

/-! ## The cache -/

structure ReportedHash where
  hash : String
  observedAt : Int
  deriving DecidableEq

structure PeerHashCache where
  /-- Pod name, then peer. -/
  byPod : Dict String (Dict String ReportedHash) := ∅
  /-- When a pod was scraped last. -/
  updated : Dict String Int := ∅
  /-- The pod scraped last at a DNS host. -/
  hostToPod : Dict String String := ∅

namespace PeerHashCache

/-- The entries of a pod are dropped. -/
def dropPod (c : PeerHashCache) (pod : String) : PeerHashCache :=
  { c with byPod := c.byPod.erase pod, updated := c.updated.erase pod }

/-- What `pod` reported replaces what is there, and the pod that was at `host` before is dropped. -/
def set (c : PeerHashCache) (host pod : String) (peerHashes : Dict String ReportedHash) (now : Int) : PeerHashCache :=
  let c :=
    match c.hostToPod.lookup host with
    | some prev => if prev ≠ pod then c.dropPod prev else c
    | none => c
  { byPod := c.byPod.insert pod peerHashes
    updated := c.updated.insert pod now
    hostToPod := c.hostToPod.insert host pod }

/-- One turn of the loop of `prune`. -/
def pruneHost (liveHosts : List String) (c : PeerHashCache) (e : Σ _ : String, String) : PeerHashCache :=
  if e.1 ∈ liveHosts then c else { c.dropPod e.2 with hostToPod := c.hostToPod.erase e.1 }

def prune (order : RangeOrder (Σ _ : String, String)) (c : PeerHashCache) (liveHosts : List String) : PeerHashCache :=
  (order.visit c.hostToPod.entries).foldl (pruneHost liveHosts) c

/-- Every cached pod's hash for `peer`. -/
def reportedByPeer (c : PeerHashCache) (peer : String) : Dict String ReportedHash :=
  c.byPod.entries.foldl (fun out e =>
    match e.2.lookup peer with
    | some rh => out.insert e.1 rh
    | none => out) ∅

end PeerHashCache

/-! ## Operations -/

inductive CacheOp where
  | prune (order : RangeOrder (Σ _ : String, String)) (liveHosts : List String)
  | set (host pod : String) (peerHashes : Dict String ReportedHash) (now : Int)

def PeerHashCache.apply (c : PeerHashCache) : CacheOp → PeerHashCache
  | .prune order liveHosts => c.prune order liveHosts
  | .set host pod peerHashes now => c.set host pod peerHashes now

/-- The cache after a sequence of operations. -/
def cacheAfter (ops : List CacheOp) : PeerHashCache := ops.foldl PeerHashCache.apply {}

/-- Each pod name is only ever reported by one host. -/
def OneHost (ops : List CacheOp) : Prop :=
  ∀ host host' pod peerHashes peerHashes' now now', .set host pod peerHashes now ∈ ops →
    .set host' pod peerHashes' now' ∈ ops → host = host'

/-! ## The abstract cache -/

/-- A successful scrape. -/
structure Report where
  pod : String
  peerHashes : Dict String ReportedHash
  now : Int

def applyReports (f : String → Option Report) : CacheOp → String → Option Report
  | .prune _ liveHosts => fun host => if host ∈ liveHosts then f host else none
  | .set host pod peerHashes now => Function.update f host (some ⟨pod, peerHashes, now⟩)

/-- The latest report of every host that no `prune` has dropped since. -/
def reports (ops : List CacheOp) : String → Option Report := ops.foldl applyReports fun _ => none

/-- The operation does not touch what is known about `host`. -/
def CacheOp.Keeps (host : String) : CacheOp → Prop
  | .prune _ liveHosts => host ∈ liveHosts
  | .set host' _ _ _ => host' ≠ host

theorem applyReports_of_keeps {f : String → Option Report} {op : CacheOp} {host : String} (h : op.Keeps host) :
    applyReports f op host = f host := by
  cases op with
  | prune order liveHosts => exact if_pos h
  | set host' pod peerHashes now => exact Function.update_of_ne (Ne.symm h) _ _

theorem reports_concat (ops : List CacheOp) (op : CacheOp) : reports (ops ++ [op]) = applyReports (reports ops) op := by
  rw [reports, List.foldl_append]
  rfl

/-- The latest `set` of a host, with the host in the live list of every `prune` since. -/
theorem reports_eq_some_iff {ops : List CacheOp} {host : String} {r : Report} :
    reports ops host = some r ↔
      ∃ before since, ops = before ++ .set host r.pod r.peerHashes r.now :: since ∧ ∀ op ∈ since, op.Keeps host := by
  induction ops using List.reverseRecOn with
  | nil => simp [reports]
  | append_singleton ops op ih =>
    rw [reports_concat]
    constructor
    · intro h
      by_cases hk : op.Keeps host
      · rw [applyReports_of_keeps hk] at h
        obtain ⟨before, since, rfl, hsince⟩ := ih.mp h
        refine ⟨before, since ++ [op], by simp, fun o ho => ?_⟩
        rcases List.mem_append.mp ho with ho | ho
        · exact hsince o ho
        · rw [List.mem_singleton.mp ho]
          exact hk
      · cases op with
        | prune order liveHosts =>
          have hnone : applyReports (reports ops) (.prune order liveHosts) host = none := if_neg hk
          rw [hnone] at h
          cases h
        | set host' pod peerHashes now =>
          obtain rfl : host' = host := not_not.mp hk
          rw [applyReports, Function.update_self] at h
          obtain rfl := Option.some.inj h
          exact ⟨ops, [], rfl, by simp⟩
    · rintro ⟨before, since, heq, hsince⟩
      rcases List.eq_nil_or_concat' since with rfl | ⟨since, o, rfl⟩
      · obtain ⟨-, rfl⟩ := List.append_inj' heq rfl |>.imp_right List.singleton_inj.mp
        exact Function.update_self _ _ _
      · rw [← List.cons_append, ← List.append_assoc] at heq
        obtain ⟨rfl, rfl⟩ := List.append_inj' heq rfl |>.imp_right List.singleton_inj.mp
        rw [applyReports_of_keeps (hsince op (by simp))]
        exact ih.mpr ⟨before, since, rfl, fun o ho => hsince o (by simp [ho])⟩

/-! ## The maps hold the abstract cache -/

/-- No two hosts report one pod. -/
def Distinct (f : String → Option Report) : Prop :=
  ∀ host host' r r', f host = some r → f host' = some r' → r.pod = r'.pod → host = host'

/-- A map by pod name has what `get` takes from the reports. -/
def ByPod {ν : Type} (f : String → Option Report) (get : Report → ν) (d : Dict String ν) : Prop :=
  ∀ pod v, d.lookup pod = some v ↔ ∃ host r, f host = some r ∧ r.pod = pod ∧ get r = v

structure Holds (f : String → Option Report) (c : PeerHashCache) : Prop where
  hostToPod : ∀ host, c.hostToPod.lookup host = (f host).map Report.pod
  byPod : ByPod f Report.peerHashes c.byPod
  updated : ByPod f Report.now c.updated

section
variable {f : String → Option Report}

theorem distinct_reports {ops : List CacheOp} (h : OneHost ops) : Distinct (reports ops) := by
  intro host host' r r' hr hr' hpod
  obtain ⟨before, since, hops, -⟩ := reports_eq_some_iff.mp hr
  obtain ⟨before', since', hops', -⟩ := reports_eq_some_iff.mp hr'
  refine h host host' r.pod r.peerHashes r'.peerHashes r.now r'.now ?_ ?_
  · rw [hops]
    simp
  · rw [hops', hpod]
    simp

/-- The pod that was at `host` before, if it is another one, is dropped. -/
def dropPrev {ν : Type} (prev : Option String) (pod : String) (d : Dict String ν) : Dict String ν :=
  match prev with
  | some prev => if prev ≠ pod then d.erase prev else d
  | none => d

theorem set_eq (c : PeerHashCache) (host pod : String) (peerHashes : Dict String ReportedHash) (now : Int) :
    c.set host pod peerHashes now =
      { byPod := (dropPrev (c.hostToPod.lookup host) pod c.byPod).insert pod peerHashes
        updated := (dropPrev (c.hostToPod.lookup host) pod c.updated).insert pod now
        hostToPod := c.hostToPod.insert host pod } := by
  unfold PeerHashCache.set dropPrev
  cases c.hostToPod.lookup host with
  | none => rfl
  | some prev =>
    dsimp only
    split_ifs <;> rfl

theorem lookup_dropPrev {ν : Type} {prev : Option String} {pod pod' : String} (hne : pod' ≠ pod) {d : Dict String ν}
    {v : ν} : (dropPrev prev pod d).lookup pod' = some v ↔ d.lookup pod' = some v ∧ prev ≠ some pod' := by
  cases prev with
  | none => simp [dropPrev]
  | some prev =>
    by_cases hprev : prev = pod
    · simp [dropPrev, hprev, Ne.symm hne]
    · by_cases hsame : prev = pod'
      · subst hsame
        simp [dropPrev, hprev]
      · simp [dropPrev, hprev, hsame, AList.lookup_erase_ne (Ne.symm hsame)]

theorem ByPod.set {ν : Type} {get : Report → ν} {d : Dict String ν} (h : ByPod f get d) (hf : Distinct f) {host : String}
    {r : Report} (hf' : Distinct (Function.update f host (some r))) :
    ByPod (Function.update f host (some r)) get
      ((dropPrev ((f host).map Report.pod) r.pod d).insert r.pod (get r)) := by
  intro pod v
  by_cases hpod : pod = r.pod
  · -- the pod that is set now is at no other host
    subst hpod
    rw [AList.lookup_insert]
    constructor
    · intro hv
      exact ⟨host, r, Function.update_self .., rfl, Option.some.inj hv⟩
    · rintro ⟨host', r', hr', hpod, rfl⟩
      obtain rfl := hf' host' host r' r hr' (Function.update_self ..) hpod
      rw [Function.update_self] at hr'
      rw [Option.some.inj hr']
  · rw [AList.lookup_insert_ne hpod, lookup_dropPrev hpod, h pod v]
    constructor
    · rintro ⟨⟨host', r', hr', hpod', hv⟩, hprev⟩
      have hne : host' ≠ host := by
        rintro rfl
        exact hprev (Option.map_eq_some_iff.mpr ⟨r', hr', hpod'⟩)
      exact ⟨host', r', by rwa [Function.update_of_ne hne], hpod', hv⟩
    · rintro ⟨host', r', hr', hpod', hv⟩
      have hne : host' ≠ host := by
        rintro rfl
        rw [Function.update_self] at hr'
        exact hpod (hpod'.symm.trans (congrArg Report.pod (Option.some.inj hr').symm))
      rw [Function.update_of_ne hne] at hr'
      refine ⟨⟨host', r', hr', hpod', hv⟩, fun hprev => hne ?_⟩
      obtain ⟨r'', hr'', heq⟩ := Option.map_eq_some_iff.mp hprev
      exact hf host' host r' r'' hr' hr'' (hpod'.trans heq.symm)

theorem Holds.set {c : PeerHashCache} (h : Holds f c) (hf : Distinct f) {host : String} {r : Report}
    (hf' : Distinct (Function.update f host (some r))) :
    Holds (Function.update f host (some r)) (c.set host r.pod r.peerHashes r.now) := by
  rw [set_eq, h.hostToPod]
  refine ⟨?_, h.byPod.set hf hf', h.updated.set hf hf'⟩
  intro host'
  by_cases hhost : host' = host
  · subst hhost
    rw [AList.lookup_insert, Function.update_self]
    rfl
  · rw [AList.lookup_insert_ne hhost, Function.update_of_ne hhost, h.hostToPod]

theorem prune_eq (order : RangeOrder (Σ _ : String, String)) (c : PeerHashCache) (liveHosts : List String) :
    c.prune order liveHosts =
      { byPod := (order.visit c.hostToPod.entries).foldl
          (fun d e => if e.1 ∈ liveHosts then d else d.erase e.2) c.byPod
        updated := (order.visit c.hostToPod.entries).foldl
          (fun d e => if e.1 ∈ liveHosts then d else d.erase e.2) c.updated
        hostToPod := (order.visit c.hostToPod.entries).foldl
          (fun d e => if e.1 ∈ liveHosts then d else d.erase e.1) c.hostToPod } := by
  unfold PeerHashCache.prune
  generalize order.visit c.hostToPod.entries = es
  induction es generalizing c with
  | nil => rfl
  | cons e es ih =>
    rw [List.foldl_cons, ih]
    unfold PeerHashCache.pruneHost
    split_ifs with hlive
    · simp only [List.foldl_cons, if_pos hlive]
    · simp only [List.foldl_cons, if_neg hlive]
      rfl

theorem Holds.mem_visit {c : PeerHashCache} (h : Holds f c) {order : RangeOrder (Σ _ : String, String)}
    {e : Σ _ : String, String} : e ∈ order.visit c.hostToPod.entries ↔ ∃ r, f e.1 = some r ∧ r.pod = e.2 := by
  rw [mem_visit_iff, h.hostToPod, Option.map_eq_some_iff]

theorem ByPod.prune {ν : Type} {get : Report → ν} {d : Dict String ν} (h : ByPod f get d) (hf : Distinct f)
    (liveHosts : List String) {es : List (Σ _ : String, String)}
    (hes : ∀ e, e ∈ es ↔ ∃ r, f e.1 = some r ∧ r.pod = e.2) :
    ByPod (fun host => if host ∈ liveHosts then f host else none) get
      (es.foldl (fun d e => if e.1 ∈ liveHosts then d else d.erase e.2) d) := by
  intro pod v
  rw [lookup_foldl_erase (fun e : Σ _ : String, String => e.1 ∈ liveHosts) Sigma.snd, h pod v]
  constructor
  · rintro ⟨⟨host, r, hr, hpod, hv⟩, hdead⟩
    have hlive : host ∈ liveHosts := by
      by_contra hnot
      exact hdead ⟨host, pod⟩ ((hes _).mpr ⟨r, hr, hpod⟩) hnot rfl
    exact ⟨host, r, (if_pos hlive).trans hr, hpod, hv⟩
  · rintro ⟨host, r, hr, hpod, hv⟩
    dsimp only at hr
    split_ifs at hr with hlive
    refine ⟨⟨host, r, hr, hpod, hv⟩, fun e he hdead heq => hdead ?_⟩
    obtain ⟨r', hr', hpod'⟩ := (hes e).mp he
    rw [hf e.1 host r' r hr' hr (hpod'.trans (heq.trans hpod.symm))]
    exact hlive

theorem Holds.prune {c : PeerHashCache} (h : Holds f c) (hf : Distinct f) (order : RangeOrder (Σ _ : String, String))
    (liveHosts : List String) :
    Holds (fun host => if host ∈ liveHosts then f host else none) (c.prune order liveHosts) := by
  have hes : ∀ e, e ∈ order.visit c.hostToPod.entries ↔ ∃ r, f e.1 = some r ∧ r.pod = e.2 := fun e => h.mem_visit
  rw [prune_eq]
  refine ⟨fun host => Option.ext fun pod => ?_, h.byPod.prune hf liveHosts hes, h.updated.prune hf liveHosts hes⟩
  dsimp only
  rw [lookup_foldl_erase (fun e : Σ _ : String, String => e.1 ∈ liveHosts) Sigma.fst, h.hostToPod]
  by_cases hlive : host ∈ liveHosts
  · rw [if_pos hlive]
    refine ⟨And.left, fun hpod => ⟨hpod, fun e _ hdead heq => hdead ?_⟩⟩
    rw [heq]
    exact hlive
  · rw [if_neg hlive]
    refine ⟨fun ⟨hpod, hdead⟩ => ?_, fun hpod => by cases hpod⟩
    obtain ⟨r, hr, hpod⟩ := Option.map_eq_some_iff.mp hpod
    exact absurd rfl (hdead ⟨host, pod⟩ ((hes _).mpr ⟨r, hr, hpod⟩) hlive)

end

/-! ## Every sequence of operations -/

theorem OneHost.of_concat {ops : List CacheOp} {op : CacheOp} (h : OneHost (ops ++ [op])) : OneHost ops :=
  fun host host' pod peerHashes peerHashes' now now' hset hset' =>
    h host host' pod peerHashes peerHashes' now now' (List.mem_append_left _ hset) (List.mem_append_left _ hset')

theorem holds_cacheAfter {ops : List CacheOp} (h : OneHost ops) : Holds (reports ops) (cacheAfter ops) := by
  induction ops using List.reverseRecOn with
  | nil =>
    refine ⟨fun _ => rfl, fun pod v => ?_, fun pod v => ?_⟩
    · simp [reports, cacheAfter]
    · simp [reports, cacheAfter]
  | append_singleton ops op ih =>
    have hholds := ih h.of_concat
    have hdistinct := distinct_reports h.of_concat
    have hdistinct' := distinct_reports h
    have hcache : cacheAfter (ops ++ [op]) = (cacheAfter ops).apply op := by
      rw [cacheAfter, List.foldl_append]
      rfl
    rw [reports_concat] at hdistinct' ⊢
    rw [hcache]
    cases op with
    | prune order liveHosts => exact hholds.prune hdistinct order liveHosts
    | set host pod peerHashes now => exact hholds.set (r := ⟨pod, peerHashes, now⟩) hdistinct hdistinct'

theorem lookup_reportedByPeer {c : PeerHashCache} {peer pod : String} {rh : ReportedHash} :
    (c.reportedByPeer peer).lookup pod = some rh ↔
      ∃ peers, c.byPod.lookup pod = some peers ∧ peers.lookup peer = some rh := by
  -- the entries of the pods that report `peer`
  have hfold : c.reportedByPeer peer = (c.byPod.entries.filterMap fun e =>
      (e.2.lookup peer).map fun rh => (e.1, rh)).foldl (fun out e => out.insert e.1 e.2) ∅ := by
    rw [List.foldl_filterMap, PeerHashCache.reportedByPeer]
    congr 1
    funext out e
    cases e.2.lookup peer <;> rfl
  have hnodup : ((c.byPod.entries.filterMap fun e =>
      (e.2.lookup peer).map fun rh => (e.1, rh)).map Prod.fst).Nodup := by
    have hkeys : c.byPod.entries.Pairwise fun e e' => e.1 ≠ e'.1 := List.pairwise_map.mp c.byPod.nodupKeys
    rw [List.Nodup, List.pairwise_map, List.pairwise_filterMap]
    refine hkeys.imp fun hne a ha b hb => ?_
    obtain ⟨-, -, rfl⟩ := Option.map_eq_some_iff.mp ha
    obtain ⟨-, -, rfl⟩ := Option.map_eq_some_iff.mp hb
    exact hne
  rw [hfold, ← mem_entries_iff, (perm_entries_foldl_insert Prod.snd hnodup).mem_iff]
  simp only [List.mem_map, List.mem_filterMap, Option.map_eq_some_iff]
  constructor
  · rintro ⟨_, ⟨e, he, rh', hrh', rfl⟩, heq⟩
    cases heq
    exact ⟨e.2, mem_entries_iff.mp he, hrh'⟩
  · rintro ⟨peers, hpeers, hrh⟩
    exact ⟨(pod, rh), ⟨⟨pod, peers⟩, mem_entries_iff.mpr hpeers, rh, hrh, rfl⟩, rfl⟩

/-- What `host` reported last is `peerHashes` of `pod`, and the host was in the live list of every `prune` since. -/
def Standing (ops : List CacheOp) (host pod : String) (peerHashes : Dict String ReportedHash) : Prop :=
  ∃ before since now, ops = before ++ .set host pod peerHashes now :: since ∧ ∀ op ∈ since, op.Keeps host

theorem standing_iff {ops : List CacheOp} {host pod : String} {peerHashes : Dict String ReportedHash} :
    Standing ops host pod peerHashes ↔ ∃ now, reports ops host = some ⟨pod, peerHashes, now⟩ := by
  constructor
  · rintro ⟨before, since, now, hops, hsince⟩
    exact ⟨now, reports_eq_some_iff.mpr ⟨before, since, hops, hsince⟩⟩
  · rintro ⟨now, hr⟩
    obtain ⟨before, since, hops, hsince⟩ := reports_eq_some_iff.mp hr
    exact ⟨before, since, now, hops, hsince⟩

/-- The cache is consistent, and its drift reports are those of the pods that stand. -/
structure Exact (ops : List CacheOp) (c : PeerHashCache) : Prop where
  injective : ∀ host host' pod, c.hostToPod.lookup host = some pod → c.hostToPod.lookup host' = some pod → host = host'
  byPod_keys : ∀ pod, pod ∈ c.byPod ↔ ∃ host, c.hostToPod.lookup host = some pod
  updated_keys : ∀ pod, pod ∈ c.updated ↔ ∃ host, c.hostToPod.lookup host = some pod
  reported : ∀ peer pod rh, (c.reportedByPeer peer).lookup pod = some rh ↔
    ∃ host peerHashes, Standing ops host pod peerHashes ∧ peerHashes.lookup peer = some rh

theorem ByPod.mem_iff {ν : Type} {f : String → Option Report} {get : Report → ν} {d : Dict String ν}
    (h : ByPod f get d) (pod : String) : pod ∈ d ↔ ∃ host, (f host).map Report.pod = some pod := by
  rw [← AList.lookup_isSome, Option.isSome_iff_exists]
  constructor
  · rintro ⟨v, hv⟩
    obtain ⟨host, r, hr, hpod, -⟩ := (h pod v).mp hv
    exact ⟨host, Option.map_eq_some_iff.mpr ⟨r, hr, hpod⟩⟩
  · rintro ⟨host, hhost⟩
    obtain ⟨r, hr, hpod⟩ := Option.map_eq_some_iff.mp hhost
    exact ⟨get r, (h pod _).mpr ⟨host, r, hr, hpod, rfl⟩⟩

theorem lookup_reportedByPeer_cacheAfter {ops : List CacheOp} (hone : OneHost ops) (peer pod : String)
    (rh : ReportedHash) :
    ((cacheAfter ops).reportedByPeer peer).lookup pod = some rh ↔
      ∃ host peerHashes, Standing ops host pod peerHashes ∧ peerHashes.lookup peer = some rh := by
  have h := holds_cacheAfter hone
  rw [lookup_reportedByPeer]
  constructor
  · rintro ⟨peers, hpeers, hrh⟩
    obtain ⟨host, ⟨_, _, now⟩, hr, rfl, rfl⟩ := (h.byPod pod peers).mp hpeers
    exact ⟨host, _, standing_iff.mpr ⟨now, hr⟩, hrh⟩
  · rintro ⟨host, peerHashes, hstand, hrh⟩
    obtain ⟨now, hr⟩ := standing_iff.mp hstand
    exact ⟨peerHashes, (h.byPod pod peerHashes).mpr ⟨host, _, hr, rfl, rfl⟩, hrh⟩

/-- **Drift reports name the pods that stand.** -/
theorem reported_exact (ops : List CacheOp) (hone : OneHost ops) : Exact ops (cacheAfter ops) := by
  have h := holds_cacheAfter hone
  have hdistinct := distinct_reports hone
  refine ⟨?_, ?_, ?_, ?_⟩
  · intro host host' pod hhost hhost'
    rw [h.hostToPod] at hhost hhost'
    obtain ⟨r, hr, hpod⟩ := Option.map_eq_some_iff.mp hhost
    obtain ⟨r', hr', hpod'⟩ := Option.map_eq_some_iff.mp hhost'
    exact hdistinct host host' r r' hr hr' (hpod.trans hpod'.symm)
  · intro pod
    rw [h.byPod.mem_iff]
    exact exists_congr fun host => by rw [h.hostToPod]
  · intro pod
    rw [h.updated.mem_iff]
    exact exists_congr fun host => by rw [h.hostToPod]
  · exact lookup_reportedByPeer_cacheAfter hone

/-- A report about the peer `coder`. -/
def coderHash (hash : String) : Dict String ReportedHash := (∅ : Dict String ReportedHash).insert "coder" ⟨hash, 0⟩

/-- The pod at one host is replaced, the other host is dropped. -/
def replacement : List CacheOp :=
  [.set "planner-0" "planner-0-x" (coderHash "a") 1, .set "planner-1" "planner-1-y" (coderHash "a") 1,
    .prune .listed ["planner-0"], .set "planner-0" "planner-0-z" (coderHash "b") 2]

theorem reported_exact_replacement :
    OneHost replacement ∧ Exact replacement (cacheAfter replacement) ∧
      ((cacheAfter replacement).reportedByPeer "coder").entries = [⟨"planner-0-z", ⟨"b", 0⟩⟩] := by
  have hone : OneHost replacement := by
    intro host host' pod peerHashes peerHashes' now now' h h'
    simp only [replacement, List.mem_cons, CacheOp.set.injEq, reduceCtorEq, List.not_mem_nil, or_false, false_or] at h h'
    rcases h with ⟨rfl, rfl, -⟩ | ⟨rfl, rfl, -⟩ | ⟨rfl, rfl, -⟩ <;> simp_all
  exact ⟨hone, reported_exact replacement hone, by decide⟩

/-! ## The scrape of a tick -/

structure IntrospectPeerHash where
  hash : String
  /-- RFC 3339, as the agent wrote it. -/
  observedAt : String

structure IntrospectSample where
  podName : String
  peerHashes : Dict String IntrospectPeerHash

/-- The `set` of a successful scrape of `host`. A time that does not parse is the zero time. -/
def setOf (parse : String → Option Int) (host : String) (sample : IntrospectSample) (now : Int) : CacheOp :=
  .set host (if sample.podName = "" then host else sample.podName)
    (mapValues (fun ph => { hash := ph.hash, observedAt := (parse ph.observedAt).getD zeroTime }) sample.peerHashes) now

/-- `scrapeIntrospectOnce` of the hosts that discovery named: the scrapes that succeed, as they finish. -/
structure Tick where
  hosts : List String
  order : RangeOrder (Σ _ : String, String)
  scraped : List (String × IntrospectSample × Int)
  scraped_mem : ∀ x ∈ scraped, x.1 ∈ hosts

def Tick.ops (parse : String → Option Int) (t : Tick) : List CacheOp :=
  .prune t.order t.hosts :: t.scraped.map fun x => setOf parse x.1 x.2.1 x.2.2

/-- After a tick, what stands is from a host that discovery named in it. -/
theorem Standing.host_mem {parse : String → Option Int} {ops : List CacheOp} {t : Tick} {host pod : String}
    {peerHashes : Dict String ReportedHash} (h : Standing (ops ++ t.ops parse) host pod peerHashes) : host ∈ t.hosts := by
  obtain ⟨before, since, now, heq, hsince⟩ := h
  rcases List.append_eq_append_iff.mp heq with ⟨mid, -, htick⟩ | ⟨mid, -, htick⟩
  · -- the report is of this tick
    have hset : CacheOp.set host pod peerHashes now ∈ t.ops parse := by
      rw [htick]
      simp
    rcases List.mem_cons.mp hset with hprune | hscraped
    · cases hprune
    · obtain ⟨x, hx, hxset⟩ := List.mem_map.mp hscraped
      rw [setOf, CacheOp.set.injEq] at hxset
      rw [← hxset.1]
      exact t.scraped_mem x hx
  · -- it is from before, and the host survived the `prune`
    cases mid with
    | nil =>
      rw [List.nil_append] at htick
      cases htick
    | cons op mid =>
      obtain ⟨rfl, rfl⟩ := List.cons_eq_cons.mp htick
      exact hsince (.prune t.order t.hosts) (by simp [Tick.ops])

/-- After a tick, drift reports name pods of the hosts that discovery named in it, and no others. -/
theorem reported_hosts {parse : String → Option Int} {ops : List CacheOp} {t : Tick} (hone : OneHost (ops ++ t.ops parse))
    {peer pod : String} {rh : ReportedHash}
    (hrh : ((cacheAfter (ops ++ t.ops parse)).reportedByPeer peer).lookup pod = some rh) :
    ∃ host ∈ t.hosts, (cacheAfter (ops ++ t.ops parse)).hostToPod.lookup host = some pod := by
  obtain ⟨host, peerHashes, hstand, -⟩ := (lookup_reportedByPeer_cacheAfter hone peer pod rh).mp hrh
  obtain ⟨now, hr⟩ := standing_iff.mp hstand
  refine ⟨host, hstand.host_mem, ?_⟩
  rw [(holds_cacheAfter hone).hostToPod, hr]
  rfl

end KynoMesh.Rater
