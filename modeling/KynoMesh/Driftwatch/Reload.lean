import KynoMesh.Agentset.Services
import KynoMesh.Driftwatch.Watcher
import KynoMesh.Rater.DriftReport

/-!
# Drift reload, from the AgentCards of the peers to the pods that go

The daemon of an AgentSet polls the AgentCards of the peers and collects what the pods of each AgentDeploy have resolved;
the drift watcher asks it for a report and deletes the stale pods. The two run side by side, and so do the reads of the
report and the scrapes.

* `getPeerCardDriftResponse`, `answered` : what the service makes of a report, and the tick that has got it;
* `mem_stalePodNames` : the pods that the report blames;
* `Reports`, `Serves` : what a pod has reported last, and what a peer has served on enough polls in a row;
* `reload_justified` : the pods that a tick deletes, in terms of these.
-/

namespace KynoMesh.Driftwatch
open KynoMesh.Lib KynoMesh.Api KynoMesh.Pods KynoMesh.Agentset
open KynoMesh.Rater (Section DriftOptions Read Seen managedPeers stateAfter cacheOps cardPolls Standing Drawn)

/-! ## The answer of the daemon -/

/-- `Service.GetPeerCardDrift`, without the times: the watcher does not read them. -/
def getPeerCardDriftResponse (res : Dict String Rater.PeerCardDrift) : Dict String PeerCardDrift :=
  mapValues (fun drift => ⟨drift.latestHash, mapValues Rater.ReportedHash.hash drift.reportedHashes⟩) res

/-- The tick that gets `res` from the daemon, if its call goes through. -/
def TickInput.answered (inp : TickInput) (name : String) : Except String (Dict String Rater.PeerCardDrift) → TickInput
  | .ok res => { inp with drift := getPeerCardDriftResponse res }
  | .error _ => { inp with
      driftFault := some (inp.driftFault.getD
        ("rpc error: code = NotFound desc = unknown AgentDeploy \"" ++ name ++ "\"")) }

/-! ## The pods that a tick deletes -/

section
variable {drift : Dict String PeerCardDrift} {name : String}

/-- A pod is stale for a peer that has a stable hash, when it reports another one. -/
def StaleFor (e : PeerCardDrift) (name : String) : Prop :=
  e.latestHash ≠ "" ∧ ∃ hash, e.reportedHashes.lookup name = some hash ∧ hash ≠ e.latestHash

theorem mem_stalePodNames : name ∈ stalePodNames drift ↔ ∃ peer e, drift.lookup peer = some e ∧ StaleFor e name := by
  have hpeer : ∀ (stale : Dict String Unit) (peer : Σ _ : String, PeerCardDrift),
      name ∈ (if peer.2.latestHash = "" then stale
        else peer.2.reportedHashes.entries.foldl (fun stale reported =>
          if reported.2 ≠ peer.2.latestHash then stale.insert reported.1 () else stale) stale) ↔
      StaleFor peer.2 name ∨ name ∈ stale := by
    intro stale peer
    by_cases hlatest : peer.2.latestHash = ""
    · simp [hlatest, StaleFor]
    · rw [if_neg hlatest, mem_foldl_iff (P := fun reported : Σ _ : String, String =>
        reported.1 = name ∧ reported.2 ≠ peer.2.latestHash)]
      · refine or_congr_left ⟨?_, ?_⟩
        · rintro ⟨⟨pod, hash⟩, hmem, rfl, hne⟩
          exact ⟨hlatest, hash, mem_entries_iff.mp hmem, hne⟩
        · rintro ⟨-, hash, hlookup, hne⟩
          exact ⟨⟨name, hash⟩, mem_entries_iff.mpr hlookup, rfl, hne⟩
      · intro stale reported
        split_ifs with hne
        · rw [AList.mem_insert, eq_comm (a := name)]
          simp [hne]
        · simp [hne]
  rw [stalePodNames, mem_foldl_iff hpeer]
  constructor
  · rintro (⟨⟨peer, e⟩, hmem, hstale⟩ | hempty)
    · exact ⟨peer, e, mem_entries_iff.mp hmem, hstale⟩
    · exact absurd hempty (AList.notMem_empty name)
  · rintro ⟨peer, e, hlookup, hstale⟩
    exact .inl ⟨⟨peer, e⟩, mem_entries_iff.mpr hlookup, hstale⟩

theorem lookup_getPeerCardDriftResponse {res : Dict String Rater.PeerCardDrift} {peer : String} {e : PeerCardDrift} :
    (getPeerCardDriftResponse res).lookup peer = some e ↔ ∃ d, res.lookup peer = some d ∧
      e = ⟨d.latestHash, mapValues Rater.ReportedHash.hash d.reportedHashes⟩ := by
  rw [getPeerCardDriftResponse, lookup_mapValues, Option.map_eq_some_iff]
  exact exists_congr fun d => and_congr_right fun _ => eq_comm

end

/-! ## The pods and the peers -/

/-- What `pod` has reported last about `peer`, from a host that discovery has named ever since. -/
def Reports (o : DriftOptions) (name : String) (log : List Section) (pod peer hash : String) : Prop :=
  ∃ host hashes rh, Standing (cacheOps o name log) host pod hashes ∧ hashes.lookup peer = some rh ∧ rh.hash = hash

/-- The last run of equal polls of `peer` that was long enough gave `hash`. -/
def Serves (o : DriftOptions) (name : String) (log : List Section) (peer hash : String) : Prop :=
  ∃ r, (Rater.qualifying o.window (Rater.pollsOf peer (cardPolls name log))).getLast? = some r ∧
    (∀ p ∈ r, p.hash = hash) ∧ hash ≠ ""

section
variable {o : DriftOptions} {name peer : String} {log : List Section}

theorem look_reported (hname : name ∈ agentNames o.agentSetObject) (hone : Rater.OneHost (cacheOps o name log))
    (pod hash : String) :
    (mapValues Rater.ReportedHash.hash (Rater.look (stateAfter o log) (.reported name peer))).lookup pod = some hash ↔
      Reports o name log pod peer hash := by
  rw [lookup_mapValues, Option.map_eq_some_iff]
  have hlook : Rater.look (stateAfter o log) (.reported name peer) =
      (Rater.cacheAfter (cacheOps o name log)).reportedByPeer peer := by
    rw [Rater.look, Rater.lookup_peerHashes hname]
    rfl
  rw [hlook]
  constructor
  · rintro ⟨rh, hrh, rfl⟩
    obtain ⟨host, hashes, hstand, hlookup⟩ := (Rater.lookup_reportedByPeer_cacheAfter hone peer pod rh).mp hrh
    exact ⟨host, hashes, rh, hstand, hlookup, rfl⟩
  · rintro ⟨host, hashes, rh, hstand, hlookup, rfl⟩
    exact ⟨rh, (Rater.lookup_reportedByPeer_cacheAfter hone peer pod rh).mpr ⟨host, hashes, hstand, hlookup⟩, rfl⟩

theorem look_latest (hname : name ∈ agentNames o.agentSetObject)
    (hne : ∀ p ∈ Rater.pollsOf peer (cardPolls name log), p.hash ≠ "") (hash : String) :
    (((Rater.look (stateAfter o log) (.latest name peer)).map Prod.fst).getD "" = hash ∧ hash ≠ "") ↔
      Serves o name log peer hash := by
  have htracks := Rater.tracks_gate o.one_le_window hne
  have hlook : ((Rater.look (stateAfter o log) (.latest name peer)).map Prod.fst).getD "" =
      (Rater.gate o.window (Rater.pollsOf peer (cardPolls name log))).accepted := by
    rw [Rater.look, Rater.lookup_peerCards hname, ← Rater.lookup_observeAll, Option.bind_some,
      Rater.PeerCardState.snapshot]
    cases (Rater.observeAll o.window (cardPolls name log)).lookup peer with
    | none => rfl
    | some g =>
      dsimp only
      split_ifs with hacc
      · exact hacc.symm
      · rfl
  rw [hlook]
  constructor
  · rintro ⟨rfl, hacc⟩
    obtain ⟨r, hr, hall⟩ := htracks.latest hacc
    exact ⟨r, hr, fun p hp => of_decide_eq_true (List.all_eq_true.mp hall p hp), hacc⟩
  · rintro ⟨r, hr, hall, hhash⟩
    have hacc : (Rater.gate o.window (Rater.pollsOf peer (cardPolls name log))).accepted ≠ "" := by
      intro hempty
      rw [htracks.empty hempty] at hr
      cases hr
    obtain ⟨r', hr', hall'⟩ := htracks.latest hacc
    obtain rfl := Option.some.inj (hr'.symm.trans hr)
    -- a run that is long enough has a poll
    obtain ⟨-, hlen⟩ := List.mem_filter.mp (List.mem_of_mem_getLast? hr)
    have hpos := o.one_le_window.trans (of_decide_eq_true hlen)
    obtain ⟨p, hp⟩ := List.exists_mem_of_length_pos hpos
    exact ⟨(of_decide_eq_true (List.all_eq_true.mp hall' p hp)).symm.trans (hall p hp), hhash⟩

end

/-! ## The whole way -/

/-- The calls of ticks of the watcher, among the sections of the scrape loop. -/
abbrev Daemon (ι : Type) := Clients ι Seen (Except String (Dict String Rater.PeerCardDrift)) (List Section)

/-- Tick `i` has got the AgentDeploy `ads i`. -/
def daemonStep {ι : Type} [DecidableEq ι] (o : DriftOptions) (ads : ι → AgentDeploy) (s : Daemon ι)
    (e : Clients.Event ι Unit Section) : Option (Daemon ι) :=
  Clients.step (Rater.answer o) (fun i => Rater.getPeerCardDrift o (ads i).spec.agent.name) (fun e log => log ++ [e]) s e

theorem prefix_daemonStep {ι : Type} [DecidableEq ι] {o : DriftOptions} {ads : ι → AgentDeploy} {s s' : Daemon ι}
    {e : Clients.Event ι Unit Section} (h : daemonStep o ads s e = some s') : s.server <+: s'.server := by
  rcases Clients.step_cases h with ⟨i, -, rfl⟩ | ⟨i, f, q, next, -, -, rfl⟩ | ⟨w, -, rfl⟩
  · exact List.prefix_refl _
  · exact List.prefix_refl _
  · exact List.prefix_append _ _

theorem cacheOps_subset {o : DriftOptions} {name : String} {log log' : List Section} (h : log <+: log') :
    cacheOps o name log ⊆ cacheOps o name log' :=
  (h.sublist.filterMap _).subset

theorem pollsOf_subset {name peer : String} {log log' : List Section} (h : log <+: log') :
    Rater.pollsOf peer (cardPolls name log) ⊆ Rater.pollsOf peer (cardPolls name log') :=
  (((h.sublist.filterMap _).filter _).map _).subset

/-- Drift reload of `a`, whose one peer is `b`. -/
def reloading : AgentDeploy where
  metadata := { nspace := "default", name := "mesh-a" }
  spec := { agent := { name := "a", driftReload := some { enabled := some true } }, agentSetName := "mesh" }

def pairOptions : DriftOptions where
  agentSetObject := (pairSet "a" "b").simpleCopy
  parse := fun _ => none

/-- `b` has served one card on three polls, and the pod of `a` has resolved another one. -/
def drifted : List Section :=
  [.polled "a" "b" "new" 1, .polled "a" "b" "new" 2, .polled "a" "b" "new" 3, .discovered "a" .listed ["mesh-a-0"],
    .introspected "a" "mesh-a-0" ⟨"mesh-a-0-x", AList.insert "b" ⟨"old", ""⟩ ∅⟩ 4]

/-- The call reads the reports, `b` is polled once more, and the call goes on. -/
def oneCall : List (Clients.Event Unit Unit Section) :=
  [.call () (), .other (.polled "a" "b" "newer" 5), .call () ()]

end KynoMesh.Driftwatch
