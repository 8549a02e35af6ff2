import KynoMesh.Agentset.Topology
import KynoMesh.Lib.Client
import KynoMesh.Rater.CardGate
import KynoMesh.Rater.PeerHashes

/-!
# The drift reports of the daemon

`GetPeerCardDrift` of `rater/peer_card_drift.go`, on top of the caches that `scrapePeerCardsOnce` and
`scrapeIntrospectOnce` fill. The call takes a lock for every peer and cache anew, and the goroutines of the scrape loop
go on between its reads: a report is not a view of one moment.

* `Section`, `stateAfter` : the locked sections of the scrape loop, in the order in which they have happened;
  `lookup_peerHashes`, `lookup_peerCards` : what they make of the two caches of an AgentDeploy;
* `getPeerCardDrift` : the call, read by read;
* `Drawn`, `getPeerCardDrift_safe` : each entry of a report is from two moments within the call.
-/

namespace KynoMesh.Rater
open KynoMesh.Lib KynoMesh.Api KynoMesh.Agentset

/-! ## The scrape loop -/

/-- The options of a rater that its drift reports depend on. -/
structure DriftOptions where
  agentSetObject : AgentSet
  stabilityWindow : Nat := 0
  /-- `time.Parse` for RFC 3339. -/
  parse : String → Option Int

/-- The window that `NewRater` settles on; the default is three polls. -/
def DriftOptions.window (o : DriftOptions) : Nat := if o.stabilityWindow = 0 then 3 else o.stabilityWindow

theorem DriftOptions.one_le_window (o : DriftOptions) : 1 ≤ o.window := by
  unfold window
  split_ifs <;> omega

/-- What a rater knows about the peers of each AgentDeploy. -/
structure DriftState where
  peerHashes : Dict String PeerHashCache
  peerCards : Dict String PeerCardState

/-- `NewRater`: empty caches for all of the AgentDeploys. -/
def newRater (o : DriftOptions) : DriftState where
  peerHashes := o.agentSetObject.spec.agents.foldl (fun d a => d.insert a.name {}) ∅
  peerCards := o.agentSetObject.spec.agents.foldl (fun d a => d.insert a.name ∅) ∅

/-- A locked section of the scrape loop, for one AgentDeploy. A poll or a scrape that fails has none. -/
inductive Section where
  /-- `scrapePeerCardsOnce` has the AgentCard of a peer. -/
  | polled (ad peer hash : String) (now : Int)
  /-- `scrapeIntrospectOnce` begins with the hosts that discovery has named. -/
  | discovered (ad : String) (order : RangeOrder (Σ _ : String, String)) (hosts : List String)
  /-- It has the answer of one of them. -/
  | introspected (ad host : String) (sample : IntrospectSample) (now : Int)

/-- An AgentDeploy that is not configured has no caches. -/
def DriftState.apply (o : DriftOptions) (s : DriftState) : Section → DriftState
  | .polled ad peer hash now =>
    { s with peerCards := adjust (fun c => PeerCardState.observe c peer hash now o.window) ad s.peerCards }
  | .discovered ad order hosts =>
    { s with peerHashes := adjust (fun c => c.apply (.prune order hosts)) ad s.peerHashes }
  | .introspected ad host sample now =>
    { s with peerHashes := adjust (fun c => c.apply (setOf o.parse host sample now)) ad s.peerHashes }

/-- The state after the sections `log`. Those of different AgentDeploys, and of the goroutines of one tick, come in any
order. -/
def stateAfter (o : DriftOptions) (log : List Section) : DriftState := log.foldl (DriftState.apply o) (newRater o)

/-- What a section does to the cache of reported hashes of `ad`. -/
def Section.cacheOp (o : DriftOptions) (ad : String) : Section → Option CacheOp
  | .polled .. => none
  | .discovered ad' order hosts => if ad = ad' then some (.prune order hosts) else none
  | .introspected ad' host sample now => if ad = ad' then some (setOf o.parse host sample now) else none

/-- The peer of `ad` that a section has polled. -/
def Section.cardPoll (ad : String) : Section → Option (String × Poll)
  | .polled ad' peer hash now => if ad = ad' then some (peer, ⟨hash, now⟩) else none
  | .discovered .. | .introspected .. => none

def cacheOps (o : DriftOptions) (ad : String) (log : List Section) : List CacheOp := log.filterMap (Section.cacheOp o ad)

def cardPolls (ad : String) (log : List Section) : List (String × Poll) := log.filterMap (Section.cardPoll ad)

section
variable {o : DriftOptions} {ad : String}

theorem stateAfter_concat (log : List Section) (e : Section) :
    stateAfter o (log ++ [e]) = (stateAfter o log).apply o e := by
  rw [stateAfter, List.foldl_append]
  rfl

theorem cacheOps_concat (log : List Section) (e : Section) :
    cacheOps o ad (log ++ [e]) = cacheOps o ad log ++ (e.cacheOp o ad).toList := by
  rw [cacheOps, List.filterMap_append]
  cases he : e.cacheOp o ad <;> simp [cacheOps, he]

theorem cardPolls_concat (log : List Section) (e : Section) :
    cardPolls ad (log ++ [e]) = cardPolls ad log ++ (e.cardPoll ad).toList := by
  rw [cardPolls, List.filterMap_append]
  cases he : e.cardPoll ad <;> simp [cardPolls, he]

theorem lookup_newRater {ν : Type} (v : ν) (agents : List AbstractAgentDeploy)
    (h : ad ∈ agents.map AbstractAgentDeploy.name) :
    (agents.foldl (fun d a => d.insert a.name v) (∅ : Dict String ν)).lookup ad = some v := by
  induction agents using List.reverseRecOn with
  | nil => cases h
  | append_singleton agents a ih =>
    rw [List.foldl_append, List.foldl_cons, List.foldl_nil]
    by_cases ha : ad = a.name
    · rw [ha, AList.lookup_insert]
    · rw [AList.lookup_insert_ne ha]
      refine ih ?_
      simpa [ha] using h

theorem lookup_peerHashes (had : ad ∈ agentNames o.agentSetObject) (log : List Section) :
    (stateAfter o log).peerHashes.lookup ad = some (cacheAfter (cacheOps o ad log)) := by
  induction log using List.reverseRecOn with
  | nil => exact lookup_newRater _ _ had
  | append_singleton log e ih =>
    rw [stateAfter_concat, cacheOps_concat, cacheAfter, List.foldl_append, ← cacheAfter]
    cases e with
    | polled ad' peer hash now => exact ih
    | discovered ad' order hosts =>
      rw [DriftState.apply, lookup_adjust, ih, Section.cacheOp]
      split_ifs <;> rfl
    | introspected ad' host sample now =>
      rw [DriftState.apply, lookup_adjust, ih, Section.cacheOp]
      split_ifs <;> rfl

theorem lookup_peerCards (had : ad ∈ agentNames o.agentSetObject) (log : List Section) :
    (stateAfter o log).peerCards.lookup ad = some (observeAll o.window (cardPolls ad log)) := by
  induction log using List.reverseRecOn with
  | nil => exact lookup_newRater _ _ had
  | append_singleton log e ih =>
    rw [stateAfter_concat, cardPolls_concat, observeAll, List.foldl_append, ← observeAll]
    cases e with
    | polled ad' peer hash now =>
      rw [DriftState.apply, lookup_adjust, ih, Section.cardPoll]
      split_ifs <;> rfl
    | discovered ad' order hosts => exact ih
    | introspected ad' host sample now => exact ih

end

/-! ## The call -/

/-- One peer of a drift report. -/
structure PeerCardDrift where
  latestHash : String := ""
  latestHashObservedAt : Int := zeroTime
  reportedHashes : Dict String ReportedHash := ∅

/-- The reads of the call: `reportedByPeer` and `snapshot`, each under its own lock. -/
inductive Read where
  | reported (ad peer : String)
  | latest (ad peer : String)

abbrev Seen : Read → Type
  | .reported .. => Dict String ReportedHash
  | .latest .. => Option (String × Int)

def look (s : DriftState) : (q : Read) → Seen q
  | .reported ad peer => ((s.peerHashes.lookup ad).map fun c => c.reportedByPeer peer).getD ∅
  | .latest ad peer => (s.peerCards.lookup ad).bind fun c => PeerCardState.snapshot c peer

/-- A read finds what the sections so far have left. -/
def answer (o : DriftOptions) (_ : Unit) (log : List Section) (q : Read) : Seen q × List Section :=
  (look (stateAfter o log) q, log)

def managedPeers (as : AgentSet) (name : String) : List String :=
  ((computeTopology as name).peers.filter fun p => p.kind = .managed).map Peer.name

/-- The loop over the peers. -/
def readPeers (name : String) : List String → Dict String PeerCardDrift → Client Seen (Dict String PeerCardDrift)
  | [], out => .done out
  | peer :: peers, out =>
    (Client.call (Read.reported name peer)).bind fun reported =>
      (Client.call (Read.latest name peer)).bind fun latest =>
        readPeers name peers (out.insert peer
          { latestHash := (latest.map Prod.fst).getD "", latestHashObservedAt := (latest.map Prod.snd).getD zeroTime,
            reportedHashes := reported })

def getPeerCardDrift (o : DriftOptions) (name : String) : Client Seen (Except String (Dict String PeerCardDrift)) :=
  if name ∈ agentNames o.agentSetObject then
    (readPeers name (managedPeers o.agentSetObject name) ∅).bind fun out => .done (.ok out)
  else .done (.error "unknown AgentDeploy")

/-! ## What a report is drawn from -/

/-- The hashes of `e` were read at `log₁`, and the stable one later on at `log₂`, within a call that began at `start` and
has come to `log`. -/
def Drawn (o : DriftOptions) (name : String) (start log : List Section) (peer : String) (e : PeerCardDrift) : Prop :=
  ∃ log₁ log₂, start <+: log₁ ∧ log₁ <+: log₂ ∧ log₂ <+: log ∧
    e.reportedHashes = look (stateAfter o log₁) (.reported name peer) ∧
    e.latestHash = ((look (stateAfter o log₂) (.latest name peer)).map Prod.fst).getD ""

theorem Drawn.mono {o : DriftOptions} {name peer : String} {start log log' : List Section} {e : PeerCardDrift}
    (h : Drawn o name start log peer e) (hlog : log <+: log') : Drawn o name start log' peer e := by
  obtain ⟨log₁, log₂, h₁, h₂, h₃, hreported, hlatest⟩ := h
  exact ⟨log₁, log₂, h₁, h₂, h₃.trans hlog, hreported, hlatest⟩

/-- The report so far, after the peers `done`. -/
structure SoFar (o : DriftOptions) (name : String) (start : List Section) (done : List String)
    (out : Dict String PeerCardDrift) (log : List Section) : Prop where
  mem_iff : ∀ peer, peer ∈ out ↔ peer ∈ done
  drawn : ∀ peer e, out.lookup peer = some e → Drawn o name start log peer e

section
variable {o : DriftOptions} {name : String} {start log : List Section}

theorem SoFar.mono {done : List String} {out : Dict String PeerCardDrift} {log' : List Section}
    (h : SoFar o name start done out log) (hlog : log <+: log') : SoFar o name start done out log' :=
  ⟨h.mem_iff, fun peer e he => (h.drawn peer e he).mono hlog⟩

theorem SoFar.insert {done : List String} {out : Dict String PeerCardDrift} (h : SoFar o name start done out log)
    {peer : String} {e : PeerCardDrift} (he : Drawn o name start log peer e) :
    SoFar o name start (done ++ [peer]) (out.insert peer e) log := by
  constructor
  · intro peer'
    rw [AList.mem_insert, h.mem_iff, List.mem_append, List.mem_singleton, or_comm]
  · intro peer' e' he'
    by_cases hp : peer' = peer
    · subst hp
      rw [AList.lookup_insert] at he'
      exact Option.some.inj he' ▸ he
    · rw [AList.lookup_insert_ne hp] at he'
      exact h.drawn peer' e' he'

theorem readPeers_safe (peers done : List String) {out : Dict String PeerCardDrift} (hstart : start <+: log)
    (h : SoFar o name start done out log) :
    (readPeers name peers out).Safe (answer o) (fun _ _ _ => True) (· <+: ·) (· = ·)
      (fun res log => SoFar o name start (done ++ peers) res log) log := by
  induction peers generalizing done out log with
  | nil =>
    intro log' hlog
    rw [List.append_nil]
    exact h.mono hlog
  | cons peer peers ih =>
    -- other sections come before each of the two reads
    intro log₁ _ h₁ _
    refine ⟨rfl, fun log₂ _ h₂ _ => ⟨rfl, ?_⟩⟩
    have hpre : log <+: log₂ := h₁.trans h₂
    have hdrawn : Drawn o name start log₂ peer
        { latestHash := ((look (stateAfter o log₂) (.latest name peer)).map Prod.fst).getD ""
          latestHashObservedAt := ((look (stateAfter o log₂) (.latest name peer)).map Prod.snd).getD zeroTime
          reportedHashes := look (stateAfter o log₁) (.reported name peer) } :=
      ⟨log₁, log₂, hstart.trans h₁, h₂, List.prefix_refl _, rfl, rfl⟩
    have hnext := ih _ (hstart.trans hpre) ((h.mono hpre).insert hdrawn)
    rwa [List.append_assoc] at hnext

/-- A report has the managed peers, with entries from within the call. -/
theorem getPeerCardDrift_safe (o : DriftOptions) (name : String) (start : List Section) :
    (getPeerCardDrift o name).Safe (answer o) (fun _ _ _ => True) (· <+: ·) (· = ·)
      (fun res log => ∀ out, res = .ok out → name ∈ agentNames o.agentSetObject ∧
        SoFar o name start (managedPeers o.agentSetObject name) out log) start := by
  unfold getPeerCardDrift
  split_ifs with hname
  · refine Client.Safe.bind (fun log => List.prefix_refl log) ?_
    refine (readPeers_safe _ [] (List.prefix_refl start) ⟨?_, ?_⟩).mono (fun _ _ h => h) ?_
    · intro peer
      simp
    · intro peer e he
      simp at he
    · intro out log hout log' hlog res hres
      obtain rfl := Except.ok.inj hres
      exact ⟨hname, hout.mono hlog⟩
  · intro log hlog out hout
    cases hout

end

end KynoMesh.Rater
