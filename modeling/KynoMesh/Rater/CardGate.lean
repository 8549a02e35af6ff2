import KynoMesh.Lib.Dict
import KynoMesh.Lib.GoStd
import KynoMesh.Lib.Runs

/-!
# The stability gate of the peers' AgentCards

`rater/peer_agentcard_poll.go`: the daemon polls the AgentCard of every peer and takes over a new hash when it has seen it
on a number of consecutive polls.

* `GatedHash.observe`, `PeerCardState` : the gate of one peer, and the gates of an AgentDeploy;
* `Stable` : what the gate reports, read off the maximal runs of equal hashes;
* `Tracks`, `Tracks.observe` : the gate keeps the length of the current run, unless it is one of the accepted hash;
* `snapshot_stable` : the gate reports that after every sequence of polls.
-/

namespace KynoMesh.Rater
open KynoMesh.Lib

/-! ## The gate -/

structure GatedHash where
  accepted : String := ""
  acceptedObservedAt : Int := zeroTime
  pending : String := ""
  pendingCount : Nat := 0

/-- One poll's hash is folded into the gate. -/
def GatedHash.observe (g : GatedHash) (hash : String) (now : Int) (stabilityWindow : Nat) : GatedHash :=
  if hash = g.accepted then { g with pending := "", pendingCount := 0 }
  else
    let g :=
      if hash = g.pending then { g with pendingCount := g.pendingCount + 1 }
      else { g with pending := hash, pendingCount := 1 }
    if g.pendingCount ≥ stabilityWindow then
      { accepted := g.pending, acceptedObservedAt := now, pending := "", pendingCount := 0 }
    else g

/-- The gates of an AgentDeploy's peers. -/
abbrev PeerCardState := Dict String GatedHash

namespace PeerCardState

/-- The gate is created on the first observation. -/
def observe (s : PeerCardState) (peer hash : String) (now : Int) (stabilityWindow : Nat) : PeerCardState :=
  s.insert peer (((s.lookup peer).getD {}).observe hash now stabilityWindow)

/-- The accepted hash of a peer and when it was accepted. -/
def snapshot (s : PeerCardState) (peer : String) : Option (String × Int) :=
  match s.lookup peer with
  | none => none
  | some g => if g.accepted = "" then none else some (g.accepted, g.acceptedObservedAt)

end PeerCardState

/-! ## Polls -/

structure Poll where
  hash : String
  time : Int

/-- The gates after polls of several peers. -/
def observeAll (stabilityWindow : Nat) (polls : List (String × Poll)) : PeerCardState :=
  polls.foldl (fun s p => s.observe p.1 p.2.hash p.2.time stabilityWindow) ∅

def pollsOf (peer : String) (polls : List (String × Poll)) : List Poll :=
  (polls.filter fun p => p.1 = peer).map Prod.snd

/-- The gate of one peer after its polls. -/
def gate (stabilityWindow : Nat) (polls : List Poll) : GatedHash :=
  polls.foldl (fun g p => g.observe p.hash p.time stabilityWindow) {}

theorem gate_concat (w : Nat) (polls : List Poll) (p : Poll) :
    gate w (polls ++ [p]) = (gate w polls).observe p.hash p.time w := by
  rw [gate, List.foldl_append]
  rfl

/-- The gates of the peers do not depend on each other. -/
theorem lookup_observeAll (w : Nat) (polls : List (String × Poll)) (peer : String) :
    ((observeAll w polls).lookup peer).getD {} = gate w (pollsOf peer polls) := by
  induction polls using List.reverseRecOn with
  | nil => rfl
  | append_singleton polls p ih =>
    have hstep : observeAll w (polls ++ [p]) = (observeAll w polls).observe p.1 p.2.hash p.2.time w := by
      rw [observeAll, List.foldl_append]
      rfl
    rw [hstep, PeerCardState.observe]
    by_cases hp : p.1 = peer
    · subst hp
      have hpolls : pollsOf p.1 (polls ++ [p]) = pollsOf p.1 polls ++ [p.2] := by simp [pollsOf, List.filter_append]
      rw [AList.lookup_insert, Option.getD_some, ih, hpolls, gate_concat]
    · have hpolls : pollsOf peer (polls ++ [p]) = pollsOf peer polls := by simp [pollsOf, List.filter_append, hp]
      rw [AList.lookup_insert_ne (Ne.symm hp), ih, hpolls]

/-! ## What the gate reports -/

/-- The runs that are long enough to pass the gate. -/
def qualifying (w : Nat) (polls : List Poll) : List (List Poll) := long Poll.hash w polls

def allHash (hash : String) (r : List Poll) : Bool := r.all fun p => p.hash = hash

/-- The qualifying runs end with some of the hash `hash`, and the `w`-th poll of the first of these was at `time`. -/
def Since (w : Nat) (qs : List (List Poll)) (hash : String) (time : Int) : Prop :=
  ∃ r p, (qs.rtakeWhile (allHash hash)).head? = some r ∧ r[w - 1]? = some p ∧ p.time = time

/-- A report about polls, from the maximal runs of equal hashes. -/
structure Stable (w : Nat) (polls : List Poll) (report : Option (String × Int)) : Prop where
  isSome_iff : report.isSome ↔ ∃ r ∈ runs Poll.hash polls, w ≤ r.length
  latest : ∀ hash time, report = some (hash, time) →
    ∃ r, (qualifying w polls).getLast? = some r ∧ ∀ p ∈ r, p.hash = hash
  since : ∀ hash time, report = some (hash, time) → Since w (qualifying w polls) hash time

/-- The gate and the polls that it has seen. -/
structure Tracks (w : Nat) (polls : List Poll) (g : GatedHash) : Prop where
  empty : g.accepted = "" → qualifying w polls = []
  latest : g.accepted ≠ "" → ∃ r, (qualifying w polls).getLast? = some r ∧ allHash g.accepted r = true
  since : g.accepted ≠ "" → Since w (qualifying w polls) g.accepted g.acceptedObservedAt
  /-- The current run is counted, unless its hash is the accepted one. -/
  pending : ∀ p ∈ lastRun Poll.hash polls,
    if p.hash = g.accepted then g.pending = ""
    else g.pending = p.hash ∧ g.pendingCount = (lastRun Poll.hash polls).length ∧
      (lastRun Poll.hash polls).length < w
  idle : lastRun Poll.hash polls = [] → g.pending = ""

/-! ## One poll -/

section
variable {w : Nat} {qs : List (List Poll)} {r : List Poll} {hash : String} {time : Int} {p : Poll}

theorem Since.concat (h : Since w qs hash time) (hr : allHash hash r = true) : Since w (qs ++ [r]) hash time := by
  obtain ⟨first, p, hfirst, hp⟩ := h
  exact ⟨first, p, head?_rtakeWhile_concat hfirst hr, hp⟩

theorem since_concat_of_not (hqs : ∀ x ∈ qs.getLast?, allHash hash x = false) (hr : allHash hash r = true)
    (hp : r[w - 1]? = some p) : Since w (qs ++ [r]) hash p.time :=
  ⟨r, p, head?_rtakeWhile_concat_of_not hqs hr, hp, rfl⟩

theorem Since.grow (h : Since w (qs ++ [r]) hash time) (hw : 1 ≤ w) (hlen : w ≤ r.length)
    (hr : allHash hash (r ++ [p]) = true) : Since w (qs ++ [r ++ [p]]) hash time := by
  obtain ⟨first, p', hfirst, hp', htime⟩ := h
  have hr' : allHash hash r = true := by
    rw [allHash, List.all_append, Bool.and_eq_true] at hr
    exact hr.1
  rw [List.rtakeWhile_concat_pos _ _ _ hr'] at hfirst
  unfold Since
  rw [List.rtakeWhile_concat_pos _ _ _ hr]
  cases hqs : qs.rtakeWhile (allHash hash) with
  | nil =>
    obtain rfl : r = first := by simpa [hqs] using hfirst
    exact ⟨r ++ [p], p', rfl, by rw [List.getElem?_append_left (by omega)]; exact hp', htime⟩
  | cons x xs =>
    obtain rfl : x = first := by simpa [hqs] using hfirst
    exact ⟨x, p', rfl, hp', htime⟩

end

section
variable {w : Nat} {polls : List Poll} {g : GatedHash}

theorem tracks_nil (w : Nat) : Tracks w [] {} where
  empty := fun _ => rfl
  latest := fun h => absurd rfl h
  since := fun h => absurd rfl h
  pending := by simp [lastRun, runs]
  idle := fun _ => rfl

theorem allHash_lastRun (polls : List Poll) (p : Poll) : allHash p.hash (lastRun Poll.hash (polls ++ [p])) = true := by
  rw [lastRun_concat, allHash, List.all_append, Bool.and_eq_true]
  refine ⟨?_, by simp⟩
  split_ifs with h
  · rw [List.all_eq_true]
    exact fun x hx => decide_eq_true (h x hx)
  · rfl

theorem Tracks.observe_accepted (h : Tracks w polls g) (hw : 1 ≤ w) {p : Poll} (hne : p.hash ≠ "")
    (hp : p.hash = g.accepted) : Tracks w (polls ++ [p]) { g with pending := "", pendingCount := 0 } := by
  have hacc : g.accepted ≠ "" := hp ▸ hne
  have hrun := allHash_lastRun polls p
  have hqs : (∃ r, (qualifying w (polls ++ [p])).getLast? = some r ∧ allHash g.accepted r = true) ∧
      Since w (qualifying w (polls ++ [p])) g.accepted g.acceptedObservedAt := by
    unfold qualifying
    rcases long_concat Poll.hash hw polls p with ⟨-, hlong⟩ | ⟨-, hlong⟩ | ⟨hlen, heq, rs, hold, hlong⟩
    · rw [hlong]
      exact ⟨h.latest hacc, h.since hacc⟩
    · rw [hlong, ← hp]
      exact ⟨⟨_, List.getLast?_concat, hrun⟩, (hp ▸ h.since hacc).concat hrun⟩
    · have hsince := h.since hacc
      rw [qualifying, hold] at hsince
      rw [heq, hp] at hrun
      rw [hlong]
      exact ⟨⟨_, List.getLast?_concat, hrun⟩, hsince.grow hw hlen hrun⟩
  refine ⟨fun h => absurd h hacc, fun _ => hqs.1, fun _ => hqs.2, ?_, fun _ => rfl⟩
  intro x hx
  rw [if_pos ((of_decide_eq_true (List.all_eq_true.mp hrun x hx)).trans hp)]

/-- What the gate counts of a run that is not of the accepted hash. -/
theorem Tracks.count_eq (h : Tracks w polls g) (hw : 1 ≤ w) {p : Poll} (hne : p.hash ≠ "") (hp : p.hash ≠ g.accepted) :
    (if p.hash = g.pending then g.pendingCount + 1 else 1) = (lastRun Poll.hash (polls ++ [p])).length ∧
      (lastRun Poll.hash (polls ++ [p])).length ≤ w := by
  rcases runs_concat Poll.hash polls p with ⟨hall, hsome, rs, -, hrs⟩ | ⟨hall, hrs⟩
  · obtain ⟨x, hx⟩ := List.exists_mem_of_ne_nil _ hsome
    have hpending := h.pending x hx
    rw [hall x hx, if_neg hp] at hpending
    obtain ⟨hhash, hcount, hlt⟩ := hpending
    rw [lastRun_of_eq hrs, if_pos hhash.symm, hcount, List.length_append]
    exact ⟨rfl, hlt⟩
  · have hnew : p.hash ≠ g.pending := by
      cases hr : lastRun Poll.hash polls with
      | nil => rwa [h.idle hr]
      | cons x r =>
        have hx : x ∈ lastRun Poll.hash polls := hr ▸ List.mem_cons_self
        have hpending := h.pending x hx
        split_ifs at hpending with hacc
        · rwa [hpending]
        · rw [hpending.1]
          exact (hall x hx).symm
    rw [lastRun_of_eq hrs, if_neg hnew]
    exact ⟨rfl, hw⟩

/-- A poll of another hash: the gate counts the current run, and accepts it at the length `w`. -/
theorem Tracks.observe_eq (h : Tracks w polls g) (hw : 1 ≤ w) {p : Poll} (hne : p.hash ≠ "") (hp : p.hash ≠ g.accepted) :
    g.observe p.hash p.time w =
      if (lastRun Poll.hash (polls ++ [p])).length ≥ w then
        { accepted := p.hash, acceptedObservedAt := p.time, pending := "", pendingCount := 0 }
      else { g with pending := p.hash, pendingCount := (lastRun Poll.hash (polls ++ [p])).length } := by
  rw [← (h.count_eq hw hne hp).1]
  unfold GatedHash.observe
  rw [if_neg hp]
  by_cases hpend : p.hash = g.pending
  · simp only [if_pos hpend]
    rw [hpend]
  · simp only [if_neg hpend]

/-- The run that passed the gate last is one of the accepted hash, and of no other. -/
theorem Tracks.allHash_latest (h : Tracks w polls g) {hash : String} (hother : hash ≠ g.accepted) :
    ∀ r ∈ (qualifying w polls).getLast?, allHash hash r = false := by
  intro r hr
  by_cases hacc : g.accepted = ""
  · rw [h.empty hacc] at hr
    cases hr
  · obtain ⟨r', hr', hall⟩ := h.latest hacc
    obtain rfl : r' = r := Option.some.inj (hr'.symm.trans hr)
    have hmem := (List.mem_filter.mp (List.mem_of_mem_getLast? hr')).1
    obtain ⟨x, hx⟩ := List.exists_mem_of_ne_nil _ (ne_nil_of_mem_runs hmem)
    have hxacc : x.hash = g.accepted := of_decide_eq_true (List.all_eq_true.mp hall x hx)
    rw [allHash, List.all_eq_false]
    exact ⟨x, hx, by simpa [hxacc] using Ne.symm hother⟩

theorem qualifying_concat_of_length_eq (hw : 1 ≤ w) {p : Poll} (hlen : (lastRun Poll.hash (polls ++ [p])).length = w) :
    qualifying w (polls ++ [p]) = qualifying w polls ++ [lastRun Poll.hash (polls ++ [p])] := by
  rcases long_concat Poll.hash hw polls p with ⟨hlt, -⟩ | ⟨-, hlong⟩ | ⟨hbefore, heq, -⟩
  · omega
  · exact hlong
  · rw [heq, List.length_append, List.length_singleton] at hlen
    omega

theorem qualifying_concat_of_lt (hw : 1 ≤ w) {p : Poll} (hlen : (lastRun Poll.hash (polls ++ [p])).length < w) :
    qualifying w (polls ++ [p]) = qualifying w polls := by
  rcases long_concat Poll.hash hw polls p with ⟨-, hlong⟩ | ⟨heq, -⟩ | ⟨hbefore, heq, -⟩
  · exact hlong
  · omega
  · rw [heq, List.length_append] at hlen
    omega

theorem getElem?_lastRun_concat {p : Poll} (hlen : (lastRun Poll.hash (polls ++ [p])).length = w) :
    (lastRun Poll.hash (polls ++ [p]))[w - 1]? = some p := by
  obtain ⟨init, hinit⟩ : ∃ init, lastRun Poll.hash (polls ++ [p]) = init ++ [p] := ⟨_, lastRun_concat _ _ _⟩
  rw [hinit, List.length_append, List.length_singleton] at hlen
  rw [hinit, ← hlen, Nat.add_sub_cancel, List.getElem?_concat_length]

theorem Tracks.observe_other (h : Tracks w polls g) (hw : 1 ≤ w) {p : Poll} (hne : p.hash ≠ "")
    (hp : p.hash ≠ g.accepted) : Tracks w (polls ++ [p]) (g.observe p.hash p.time w) := by
  have hrun := allHash_lastRun polls p
  have hhash : ∀ x ∈ lastRun Poll.hash (polls ++ [p]), x.hash = p.hash := fun x hx =>
    of_decide_eq_true (List.all_eq_true.mp hrun x hx)
  rw [h.observe_eq hw hne hp]
  split_ifs with hpass
  · have hlen : (lastRun Poll.hash (polls ++ [p])).length = w := le_antisymm (h.count_eq hw hne hp).2 hpass
    refine ⟨fun h => absurd h hne, fun _ => ?_, fun _ => ?_, ?_, fun _ => rfl⟩
    · rw [qualifying_concat_of_length_eq hw hlen]
      exact ⟨_, List.getLast?_concat, hrun⟩
    · rw [qualifying_concat_of_length_eq hw hlen]
      exact since_concat_of_not (h.allHash_latest hp) hrun (getElem?_lastRun_concat hlen)
    · intro x hx
      rw [if_pos (hhash x hx)]
  · have hlong := qualifying_concat_of_lt hw (not_le.mp hpass)
    refine ⟨fun hacc => hlong ▸ h.empty hacc, fun hacc => hlong ▸ h.latest hacc, fun hacc => hlong ▸ h.since hacc, ?_, ?_⟩
    · intro x hx
      rw [hhash x hx, if_neg hp]
      exact ⟨rfl, rfl, not_le.mp hpass⟩
    · intro hnil
      rw [lastRun_concat] at hnil
      simp at hnil

theorem Tracks.observe (h : Tracks w polls g) (hw : 1 ≤ w) {p : Poll} (hne : p.hash ≠ "") :
    Tracks w (polls ++ [p]) (g.observe p.hash p.time w) := by
  by_cases hp : p.hash = g.accepted
  · have := h.observe_accepted hw hne hp
    rwa [GatedHash.observe, if_pos hp]
  · exact h.observe_other hw hne hp

/-! ## Every sequence of polls -/

theorem tracks_gate (hw : 1 ≤ w) (hne : ∀ p ∈ polls, p.hash ≠ "") : Tracks w polls (gate w polls) := by
  induction polls using List.reverseRecOn with
  | nil => exact tracks_nil w
  | append_singleton polls p ih =>
    rw [gate_concat]
    exact (ih fun q hq => hne q (by simp [hq])).observe hw (hne p (by simp))

end

/-- **The gate accepts the stable runs.** -/
theorem snapshot_stable {w : Nat} (hw : 1 ≤ w) (polls : List (String × Poll)) (peer : String)
    (hne : ∀ p ∈ pollsOf peer polls, p.hash ≠ "") :
    Stable w (pollsOf peer polls) ((observeAll w polls).snapshot peer) := by
  have htracks := tracks_gate hw hne
  have hsnap : (observeAll w polls).snapshot peer =
      if (gate w (pollsOf peer polls)).accepted = "" then none
      else some ((gate w (pollsOf peer polls)).accepted, (gate w (pollsOf peer polls)).acceptedObservedAt) := by
    rw [← lookup_observeAll, PeerCardState.snapshot]
    cases (observeAll w polls).lookup peer with
    | none => rfl
    | some g => rfl
  rw [hsnap]
  by_cases hacc : (gate w (pollsOf peer polls)).accepted = ""
  · have hempty := htracks.empty hacc
    rw [if_pos hacc]
    refine ⟨?_, fun _ _ h => (by cases h), fun _ _ h => (by cases h)⟩
    rw [qualifying, long, List.filter_eq_nil_iff] at hempty
    simpa using hempty
  · obtain ⟨r, hr, hall⟩ := htracks.latest hacc
    rw [if_neg hacc]
    refine ⟨iff_of_true rfl ?_, ?_, ?_⟩
    · obtain ⟨hmem, hlen⟩ := List.mem_filter.mp (List.mem_of_mem_getLast? hr)
      exact ⟨r, hmem, of_decide_eq_true hlen⟩
    · intro hash time heq
      obtain ⟨rfl, rfl⟩ := Prod.mk.inj (Option.some.inj heq)
      exact ⟨r, hr, fun p hp => of_decide_eq_true (List.all_eq_true.mp hall p hp)⟩
    · intro hash time heq
      obtain ⟨rfl, rfl⟩ := Prod.mk.inj (Option.some.inj heq)
      exact htracks.since hacc

/-- Two polls of one hash, a single one of another, and polls of another peer in between. -/
def bounce : List (String × Poll) :=
  [("coder", ⟨"a", 10⟩), ("tester", ⟨"c", 10⟩), ("coder", ⟨"a", 20⟩), ("coder", ⟨"b", 30⟩), ("tester", ⟨"d", 30⟩),
    ("coder", ⟨"a", 40⟩)]

theorem snapshot_stable_bounce :
    (observeAll 2 bounce).snapshot "coder" = some ("a", 20) ∧
      Stable 2 (pollsOf "coder" bounce) ((observeAll 2 bounce).snapshot "coder") :=
  ⟨by decide, snapshot_stable (by decide) bounce "coder" (by decide)⟩

end KynoMesh.Rater
