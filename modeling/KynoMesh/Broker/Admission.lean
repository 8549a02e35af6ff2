import KynoMesh.Lib.Tally
import KynoMesh.Broker.RateLimit

/-!
# Admission of requests at a broker

`wrapHTTP` of `broker/metrics.go` and the handler of `GRPCPassthroughOptions`: a request takes a slot of the limiter, is
counted on the in-flight gauge while its proxy runs, and on the way out moves the counters and gives the slot back. One
limiter serves JSON-RPC, REST and gRPC; the passthrough proxy has none.

* `advance` : the next step of one request, up to and after the call of its proxy;
* `step` : any number of requests on any transports, interleaved with the recounts of the limiter;
* `meters` : what the metrics should read, from the phases of the requests; `metrics_run` : they do, at every instant;
* `Limiter.Holds`, `holds_run` : the held slots are the requests that hold one, and never more than the cap;
* `inflight_le_maxInFlight`, `requests_accounted` : the cap and the accounts, over every run.
-/

namespace KynoMesh.Admission

open KynoMesh.Lib KynoMesh.Api KynoMesh.Discovery KynoMesh.RateLimit

/-! ## Transports and outcomes -/

inductive Transport where
  | jsonrpc
  | rest
  | grpc
  | passthrough
  deriving DecidableEq

/-- The passthrough proxy is built without a limiter. -/
def Transport.gated (t : Transport) : Bool := t != .passthrough

/-- The error class of an HTTP status, empty for a success. -/
def httpStatusClass (statusCode : Int) : String :=
  if statusCode ≥ 500 then "5xx" else if statusCode ≥ 400 then "4xx" else ""

/-- How a proxy call ends: the recorded HTTP status, or the name of the gRPC status code. -/
inductive Outcome where
  | http (statusCode : Int)
  | grpc (code : String)
  deriving DecidableEq

/-- The label under which the outcome counts as an error. -/
def Outcome.errorCode : Outcome → Option String
  | .http statusCode => if httpStatusClass statusCode = "" then none else some (httpStatusClass statusCode)
  | .grpc code => if code = "OK" then none else some code

def Outcome.fits (o : Outcome) (t : Transport) : Bool :=
  match o with
  | .http _ => t != .grpc
  | .grpc _ => t == .grpc

/-! ## The limiter -/

inductive Limiter where
  | unlimited
  | semaphore (sem : Semaphore)
  | dnsCount (limiter : DnsCountLimiter)

/-- The cap on this broker alone. -/
def newLimiter (maxInFlight : Int) : Limiter := if maxInFlight ≤ 0 then .unlimited else .semaphore (newSemaphore maxInFlight)

/-- The cap of the injected AgentDeploy, `0` when it has none. -/
def resolveMaxInFlight (ad : Option AgentDeploy) : Int :=
  ((ad.bind fun ad => ad.spec.agent.rateLimit.bind RateLimit.maxInFlight).getD 0).toInt

def buildLimiter (ad : Option AgentDeploy) : Limiter :=
  let maxInFlight := resolveMaxInFlight ad
  if maxInFlight ≤ 0 then newLimiter 0
  else
    match ad with
    | none => newLimiter maxInFlight
    | some ad =>
      if ad.metadata.name = "" ∨ ad.metadata.nspace = "" then newLimiter maxInFlight
      else .dnsCount (newDNSCountLimiter maxInFlight ad.spec.agentSetName ad.spec.agent.name ad.metadata.nspace)

namespace Limiter

/-- The semaphore behind the limiter. -/
def sem : Limiter → Option Semaphore
  | .unlimited => none
  | .semaphore sem => some sem
  | .dnsCount l => some l.sem

def acquire : Limiter → Option Limiter
  | .unlimited => some .unlimited
  | .semaphore sem => sem.acquire.map .semaphore
  | .dnsCount l => l.acquire.map .dnsCount

def release : Limiter → Limiter
  | .unlimited => .unlimited
  | .semaphore sem => .semaphore sem.release
  | .dnsCount l => .dnsCount l.release

/-- A turn of the rebalancing loop, which only the fleet-aware limiter has. -/
def recount (resolver : Resolver) : Limiter → Limiter
  | .unlimited => .unlimited
  | .semaphore sem => .semaphore sem
  | .dnsCount l => .dnsCount (l.recount resolver)

end Limiter

/-! ## The metrics -/

/-- The metrics of a broker, by transport; `errors` also by code. Of the duration histogram, the number of its
observations. -/
@[ext] structure Metrics where
  inflight : Transport → Int := fun _ => 0
  requests : Transport → Int := fun _ => 0
  rejected : Transport → Int := fun _ => 0
  durations : Transport → Int := fun _ => 0
  errors : Transport → String → Int := fun _ _ => 0

/-- The metric of one transport moves by `n`. -/
def bump (f : Transport → Int) (t : Transport) (n : Int) : Transport → Int := fun t' => if t' = t then f t' + n else f t'

def bumpError (f : Transport → String → Int) (t : Transport) : Option String → Transport → String → Int
  | none => f
  | some code => fun t' code' => if t' = t ∧ code' = code then f t' code' + 1 else f t' code'

/-! ## One request -/

/-- Where a request stands in its handler. The deferred function runs before the deferred `release`. -/
inductive Phase where
  | arrived
  /-- `Acquire` said no. -/
  | refused
  /-- Answered with status 429, or `ResourceExhausted`. -/
  | rejected
  /-- Past `Acquire`. -/
  | admitted
  /-- Inside of the proxy. -/
  | serving
  /-- The proxy has returned, or panicked. -/
  | returned (o : Outcome)
  /-- Off the gauge. -/
  | left (o : Outcome)
  /-- Counted as a request. -/
  | counted (o : Outcome)
  /-- Its duration is observed. -/
  | observed (o : Outcome)
  /-- Its error, if it is one, is counted. -/
  | recorded (o : Outcome)
  | done (o : Outcome)
  deriving DecidableEq

/-- The next step of a request on `t`. Inside of its proxy, and at its end, it has none. -/
def advance (l : Limiter) (m : Metrics) (t : Transport) : Phase → Option (Limiter × Metrics × Phase)
  | .arrived =>
    if t.gated then
      match l.acquire with
      | none => some (l, m, .refused)
      | some l => some (l, m, .admitted)
    else some (l, m, .admitted)
  | .refused => some (l, { m with rejected := bump m.rejected t 1 }, .rejected)
  | .admitted => some (l, { m with inflight := bump m.inflight t 1 }, .serving)
  | .returned o => some (l, { m with inflight := bump m.inflight t (-1) }, .left o)
  | .left o => some (l, { m with requests := bump m.requests t 1 }, .counted o)
  | .counted o => some (l, { m with durations := bump m.durations t 1 }, .observed o)
  | .observed o => some (l, { m with errors := bumpError m.errors t o.errorCode }, .recorded o)
  | .recorded o => some (if t.gated then l.release else l, m, .done o)
  | .rejected | .serving | .done _ => none

/-! ## Any number of requests -/

structure Request where
  transport : Transport
  phase : Phase := .arrived
  deriving DecidableEq

/-- A broker with all the requests that have reached it, in the order of their arrival. -/
structure Broker where
  limiter : Limiter
  metrics : Metrics := {}
  requests : List Request := []

inductive Event where
  | arrive (t : Transport)
  /-- The request `i` takes its next step. -/
  | advance (i : Nat)
  /-- The proxy of the request `i` ends. -/
  | finish (i : Nat) (o : Outcome)
  | recount (resolver : Resolver)

def step (b : Broker) : Event → Option Broker
  | .arrive t => some { b with requests := b.requests ++ [{ transport := t }] }
  | .advance i =>
    match b.requests[i]? with
    | none => none
    | some r =>
      match advance b.limiter b.metrics r.transport r.phase with
      | none => none
      | some (limiter, metrics, phase) =>
        some { limiter := limiter, metrics := metrics, requests := b.requests.set i { r with phase := phase } }
  | .finish i o =>
    match b.requests[i]? with
    | none => none
    | some r =>
      if r.phase = .serving ∧ o.fits r.transport then
        some { b with requests := b.requests.set i { r with phase := .returned o } }
      else none
  | .recount resolver => some { b with limiter := b.limiter.recount resolver }

/-- What a step can do. -/
theorem step_cases {b b' : Broker} {e : Event} (h : step b e = some b') :
    (∃ t, b' = { b with requests := b.requests ++ [{ transport := t }] }) ∨
    (∃ i r limiter metrics phase, b.requests[i]? = some r ∧
      advance b.limiter b.metrics r.transport r.phase = some (limiter, metrics, phase) ∧
      b' = { limiter := limiter, metrics := metrics, requests := b.requests.set i { r with phase := phase } }) ∨
    (∃ i r o, b.requests[i]? = some r ∧ r.phase = .serving ∧
      b' = { b with requests := b.requests.set i { r with phase := .returned o } }) ∨
    ∃ resolver, b' = { b with limiter := b.limiter.recount resolver } := by
  cases e with
  | arrive t => exact .inl ⟨t, (Option.some.inj h).symm⟩
  | advance i =>
    rw [step] at h
    split at h
    · cases h
    · next r hr =>
      split at h
      · cases h
      · next limiter metrics phase hadv =>
        exact .inr (.inl ⟨i, r, limiter, metrics, phase, hr, hadv, (Option.some.inj h).symm⟩)
  | finish i o =>
    rw [step] at h
    split at h
    · cases h
    · next r hr =>
      split_ifs at h with hserving
      exact .inr (.inr (.inl ⟨i, r, o, hr, hserving.1, (Option.some.inj h).symm⟩))
  | recount resolver => exact .inr (.inr (.inr ⟨resolver, (Option.some.inj h).symm⟩))

/-! ## What the metrics should read -/

namespace Phase

/-- On the in-flight gauge. -/
def onGauge : Phase → Bool
  | .serving | .returned _ => true
  | _ => false

/-- Between `Acquire` and the release. -/
def holding : Phase → Bool
  | .arrived | .refused | .rejected | .done _ => false
  | _ => true

def isRejected : Phase → Bool
  | .rejected => true
  | _ => false

def isCounted : Phase → Bool
  | .counted _ | .observed _ | .recorded _ | .done _ => true
  | _ => false

def isObserved : Phase → Bool
  | .observed _ | .recorded _ | .done _ => true
  | _ => false

def isError (code : String) : Phase → Bool
  | .recorded o | .done o => o.errorCode == some code
  | _ => false

/-- At its end. -/
def finished : Phase → Bool
  | .rejected | .done _ => true
  | _ => false

end Phase

/-- The requests of a transport in some phases. -/
def countOf (rs : List Request) (t : Transport) (p : Phase → Bool) : Int :=
  tally (fun r => r.transport == t && p r.phase) rs

/-- The metrics, read off the phases of the requests. -/
def meters (rs : List Request) : Metrics where
  inflight t := countOf rs t Phase.onGauge
  requests t := countOf rs t Phase.isCounted
  rejected t := countOf rs t Phase.isRejected
  durations t := countOf rs t Phase.isObserved
  errors t code := countOf rs t (Phase.isError code)

section
variable {rs : List Request} {i : Nat} {r : Request} {p : Phase → Bool} {phase : Phase}

theorem countOf_set (h : rs[i]? = some r) (phase : Phase) (t : Transport) :
    countOf (rs.set i { r with phase := phase }) t p =
      if t = r.transport then countOf rs t p - mark (p r.phase) + mark (p phase) else countOf rs t p := by
  rw [countOf, tally_set h]
  split_ifs with ht
  · simp [ht, countOf]
  · have hne : (r.transport == t) = false := by simpa using Ne.symm ht
    simp [hne, countOf]

theorem countOf_set_eq (h : rs[i]? = some r) (hp : p phase = p r.phase) (t : Transport) :
    countOf (rs.set i { r with phase := phase }) t p = countOf rs t p := by
  rw [countOf_set h, hp]
  split_ifs
  · omega
  · rfl

/-- A step of a request moves the metrics as it moves the request. -/
theorem advance_meters {l l' : Limiter} {m' : Metrics} (h : rs[i]? = some r)
    (hadv : advance l (meters rs) r.transport r.phase = some (l', m', phase)) :
    m' = meters (rs.set i { r with phase := phase }) := by
  cases hphase : r.phase with
  | arrived =>
    -- whatever the limiter says, no metric moves
    have hstay : m' = meters rs ∧ (phase = .refused ∨ phase = .admitted) := by
      rw [hphase, advance] at hadv
      split_ifs at hadv with hgated
      · split at hadv
        · obtain ⟨-, rfl, rfl⟩ := by simpa using hadv
          exact ⟨rfl, .inl rfl⟩
        · obtain ⟨-, rfl, rfl⟩ := by simpa using hadv
          exact ⟨rfl, .inr rfl⟩
      · obtain ⟨-, rfl, rfl⟩ := by simpa using hadv
        exact ⟨rfl, .inr rfl⟩
    obtain ⟨rfl, hto⟩ := hstay
    ext t
    all_goals
      refine (countOf_set_eq h ?_ t).symm
      rcases hto with rfl | rfl <;> rw [hphase] <;> rfl
  | observed o =>
    obtain ⟨-, rfl, rfl⟩ := by simpa [advance, hphase] using hadv
    ext t code
    case errors =>
      cases hcode : o.errorCode with
      | none => simp [meters, bumpError, countOf_set h, hphase, hcode, Phase.isError]
      | some c =>
        by_cases hc : code = c
        · simp [meters, bumpError, countOf_set h, hphase, hcode, hc, Phase.isError]
        · have hne : (c == code) = false := by simpa using Ne.symm hc
          simp [meters, bumpError, countOf_set h, hphase, hcode, hc, hne, Phase.isError]
    all_goals
      refine (countOf_set_eq h ?_ t).symm
      rw [hphase]
      rfl
  | rejected | serving | done o => simp [advance, hphase] at hadv
  | refused | admitted | returned o | left o | counted o | recorded o =>
    obtain ⟨-, rfl, rfl⟩ := by simpa [advance, hphase] using hadv
    ext t
    all_goals
      simp [meters, bump, countOf_set h, hphase, Phase.onGauge, Phase.isCounted, Phase.isRejected, Phase.isObserved,
        Phase.isError, Int.sub_eq_add_neg]

end

theorem meters_step {b b' : Broker} {e : Event} (hb : b.metrics = meters b.requests) (h : step b e = some b') :
    b'.metrics = meters b'.requests := by
  obtain ⟨t, rfl⟩ | ⟨i, r, l, m, phase, hr, hadv, rfl⟩ | ⟨i, r, o, hr, hserving, rfl⟩ | ⟨resolver, rfl⟩ := step_cases h
  · -- a new request is on no metric
    rw [hb]
    ext t'
    all_goals
      dsimp only [meters, countOf]
      rw [tally_concat]
      simp [Phase.onGauge, Phase.isCounted, Phase.isRejected, Phase.isObserved, Phase.isError]
  · rw [hb] at hadv
    exact advance_meters hr hadv
  · rw [hb]
    ext t
    all_goals
      refine (countOf_set_eq hr ?_ t).symm
      rw [hserving]
      rfl
  · exact hb

/-! ## The cap -/

/-- The semaphore holds `n` slots, and neither these nor its limit exceed the cap `M`. -/
structure Held (M n : Int) (s : Semaphore) : Prop where
  held : s.held = n
  held_le : n ≤ M
  limit_le : s.limit ≤ M

/-- The same of a limiter that has a semaphore; a fleet-aware one cuts its slices from `M`. -/
def Limiter.Holds (M n : Int) : Limiter → Prop
  | .unlimited => False
  | .semaphore s => Held M n s
  | .dnsCount l => Held M n l.sem ∧ l.maxInFlight = M

section
variable {M n : Int} {s s' : Semaphore} {l l' : Limiter}

theorem Held.acquire (h : Held M n s) (hs : s.acquire = some s') :
    Held M (n + 1) s' := by
  have hlt : s.held < s.limit := Semaphore.acquire_isSome.mp (hs ▸ rfl)
  have hlimit := h.limit_le
  have hheld := h.held
  rw [Semaphore.acquire, if_neg (by omega)] at hs
  obtain rfl := Option.some.inj hs
  exact ⟨by dsimp only; omega, by omega, hlimit⟩

theorem Held.release (h : Held M n s) (hn : 0 < n) : Held M (n - 1) s.release := by
  have hheld := h.held
  have hle := h.held_le
  rw [Semaphore.release, if_pos (by omega)]
  exact ⟨by dsimp only; omega, by omega, h.limit_le⟩

theorem sliceFor_le (hM : 1 ≤ M) (k : Nat) : sliceFor M k ≤ M := by
  unfold sliceFor
  split_ifs with hone
  · exact le_rfl
  · have hmul : M + k - 1 ≤ k * M := by nlinarith
    calc (M + k - 1).tdiv k ≤ (k * M).tdiv k := Int.tdiv_le_tdiv (by omega) hmul
      _ = M := Int.mul_tdiv_cancel_left M (by omega)

theorem Limiter.Holds.acquire (h : l.Holds M n) (hl : l.acquire = some l') : l'.Holds M (n + 1) := by
  cases l with
  | unlimited => cases h
  | semaphore s =>
    obtain ⟨s', hs, rfl⟩ := Option.map_eq_some_iff.mp hl
    exact Held.acquire h hs
  | dnsCount d =>
    obtain ⟨d', hd, rfl⟩ := Option.map_eq_some_iff.mp hl
    obtain ⟨s', hs, rfl⟩ := Option.map_eq_some_iff.mp hd
    exact ⟨h.1.acquire hs, h.2⟩

theorem Limiter.Holds.release (h : l.Holds M n) (hn : 0 < n) : l.release.Holds M (n - 1) := by
  cases l with
  | unlimited => cases h
  | semaphore s => exact Held.release h hn
  | dnsCount d => exact ⟨h.1.release hn, h.2⟩

theorem Limiter.Holds.recount (h : l.Holds M n) (hM : 1 ≤ M) (resolver : Resolver) : (l.recount resolver).Holds M n := by
  cases l with
  | unlimited => cases h
  | semaphore s => exact h
  | dnsCount d =>
    obtain ⟨hs, hmax⟩ := h
    rw [Limiter.recount, DnsCountLimiter.recount]
    split
    · exact ⟨hs, hmax⟩
    · exact ⟨⟨hs.held, hs.held_le, hmax.symm ▸ sliceFor_le hM _⟩, hmax⟩

end

/-- The requests that hold a slot of the limiter. -/
def slots (rs : List Request) : Int := tally (fun r => r.transport.gated && r.phase.holding) rs

theorem slots_set {rs : List Request} {i : Nat} {r : Request} (h : rs[i]? = some r) (phase : Phase) :
    slots (rs.set i { r with phase := phase }) =
      if r.transport.gated then slots rs - mark r.phase.holding + mark phase.holding else slots rs := by
  rw [slots, tally_set h]
  split_ifs with hg
  · simp [hg, slots]
  · simp [hg, slots]

theorem holds_advance {M : Int} {rs : List Request} {i : Nat} {r : Request} {l l' : Limiter} {m m' : Metrics}
    {phase : Phase} (hl : l.Holds M (slots rs)) (h : rs[i]? = some r)
    (hadv : advance l m r.transport r.phase = some (l', m', phase)) :
    l'.Holds M (slots (rs.set i { r with phase := phase })) := by
  rw [slots_set h]
  cases hphase : r.phase with
  | arrived =>
    rw [hphase, advance] at hadv
    split_ifs at hadv ⊢ with hg
    · split at hadv
      · obtain ⟨rfl, -, rfl⟩ := by simpa using hadv
        simpa [Phase.holding] using hl
      · next l'' hacq =>
        obtain ⟨rfl, -, rfl⟩ := by simpa using hadv
        simpa [Phase.holding] using hl.acquire hacq
    · obtain ⟨rfl, -, rfl⟩ := by simpa using hadv
      exact hl
  | recorded o =>
    obtain ⟨rfl, -, rfl⟩ := by simpa [advance, hphase] using hadv
    split_ifs with hg
    · -- the slot that is given back is one of those that are held
      have hpos : 0 < slots rs := tally_pos (List.mem_of_getElem? h) (by simp [hg, hphase, Phase.holding])
      simpa [Phase.holding] using hl.release hpos
    · exact hl
  | rejected | serving | done o => simp [advance, hphase] at hadv
  | refused | admitted | returned o | left o | counted o | observed o =>
    obtain ⟨rfl, -, rfl⟩ := by simpa [advance, hphase] using hadv
    simpa [Phase.holding] using hl

theorem holds_step {M : Int} (hM : 1 ≤ M) {b b' : Broker} {e : Event} (hb : b.limiter.Holds M (slots b.requests))
    (h : step b e = some b') : b'.limiter.Holds M (slots b'.requests) := by
  obtain ⟨t, rfl⟩ | ⟨i, r, l, m, phase, hr, hadv, rfl⟩ | ⟨i, r, o, hr, hserving, rfl⟩ | ⟨resolver, rfl⟩ := step_cases h
  · have hslots : slots (b.requests ++ [{ transport := t }]) = slots b.requests := by
      rw [slots, tally_concat, slots]
      simp [Phase.holding]
    exact hslots.symm ▸ hb
  · exact holds_advance hb hr hadv
  · rw [slots_set hr, hserving]
    simpa [Phase.holding] using hb
  · exact hb.recount hM resolver

/-! ## Every run -/

/-- A broker at its start. -/
def newBroker (ad : Option AgentDeploy) : Broker := { limiter := buildLimiter ad }

theorem metrics_run {ad : Option AgentDeploy} {es : List Event} {b : Broker} (hr : run step (newBroker ad) es = some b) :
    b.metrics = meters b.requests :=
  run_invariant (I := fun b => b.metrics = meters b.requests) (fun _ _ _ => meters_step) rfl hr

theorem holds_run {ad : Option AgentDeploy} (hM : 0 < resolveMaxInFlight ad) {es : List Event} {b : Broker}
    (hr : run step (newBroker ad) es = some b) : b.limiter.Holds (resolveMaxInFlight ad) (slots b.requests) := by
  have hstart : (buildLimiter ad).Holds (resolveMaxInFlight ad) 0 := by
    have hheld : Held (resolveMaxInFlight ad) 0 (newSemaphore (resolveMaxInFlight ad)) := ⟨rfl, by omega, le_rfl⟩
    have hlocal : (newLimiter (resolveMaxInFlight ad)).Holds (resolveMaxInFlight ad) 0 := by
      rw [newLimiter, if_neg (by omega)]
      exact hheld
    unfold buildLimiter
    rw [if_neg (by omega)]
    cases ad with
    | none => exact hlocal
    | some ad =>
      dsimp only
      split_ifs with hname
      · exact hlocal
      · exact ⟨hheld, rfl⟩
  exact run_invariant (I := fun b => b.limiter.Holds (resolveMaxInFlight ad) (slots b.requests))
    (fun _ _ _ => holds_step hM) hstart hr

theorem tally_gated (rs : List Request) (p : Phase → Bool) :
    tally (fun r => r.transport.gated && p r.phase) rs = countOf rs .jsonrpc p + countOf rs .rest p + countOf rs .grpc p := by
  have hmark : ∀ (t : Transport) (q : Bool),
      mark (t.gated && q) = mark (t == .jsonrpc && q) + mark (t == .rest && q) + mark (t == .grpc && q) := by
    intro t q
    cases t <;> cases q <;> rfl
  induction rs with
  | nil => rfl
  | cons r rs ih =>
    simp only [countOf, tally_cons] at ih ⊢
    rw [ih, hmark]
    omega

/-- **The cap.** Under a cap, whatever the recounts of the limiter read, the A2A requests that a broker proxies at one
time are within the cap, and the slots of its limiter are held by exactly the requests between `Acquire` and their
release. -/
theorem inflight_le_maxInFlight (ad : Option AgentDeploy) (hM : 0 < resolveMaxInFlight ad) (es : List Event) (b : Broker)
    (hr : run step (newBroker ad) es = some b) :
    (b.metrics.inflight .jsonrpc + b.metrics.inflight .rest + b.metrics.inflight .grpc ≤ resolveMaxInFlight ad) ∧
      ∃ sem, b.limiter.sem = some sem ∧ sem.held = slots b.requests ∧ sem.held ≤ resolveMaxInFlight ad := by
  have hholds := holds_run hM hr
  have hsem : ∃ sem, b.limiter.sem = some sem ∧ Held (resolveMaxInFlight ad) (slots b.requests) sem := by
    cases hl : b.limiter with
    | unlimited =>
      rw [hl] at hholds
      cases hholds
    | semaphore sem =>
      rw [hl] at hholds
      exact ⟨sem, rfl, hholds⟩
    | dnsCount l =>
      rw [hl] at hholds
      exact ⟨l.sem, rfl, hholds.1⟩
  obtain ⟨sem, hsome, hheld⟩ := hsem
  refine ⟨?_, sem, hsome, hheld.held, hheld.held.trans_le hheld.held_le⟩
  rw [metrics_run hr]
  calc countOf b.requests .jsonrpc Phase.onGauge + countOf b.requests .rest Phase.onGauge +
        countOf b.requests .grpc Phase.onGauge
      = tally (fun r => r.transport.gated && r.phase.onGauge) b.requests := (tally_gated _ _).symm
    _ ≤ slots b.requests := tally_le_tally fun r _ h => by
        -- the gauge goes up after `Acquire` and down before the release
        rw [Bool.and_eq_true] at h ⊢
        refine ⟨h.1, ?_⟩
        cases hphase : r.phase <;> simp_all [Phase.onGauge, Phase.holding]
    _ ≤ resolveMaxInFlight ad := hheld.held_le

/-- An agent that may serve one request at a time. -/
def oneAtATime : AgentDeploy where
  metadata := { nspace := "default", name := "mesh-planner" }
  spec := { agent := { name := "planner", rateLimit := some { maxInFlight := some 1 } }, agentSetName := "mesh" }

/-- A JSON-RPC request is inside of its proxy when a REST request and one past the A2A routes arrive; then DNS names two
replicas. -/
def threeArrive : List Event :=
  [.arrive .jsonrpc, .advance 0, .advance 0, .arrive .rest, .arrive .passthrough, .advance 1, .advance 1, .advance 2,
    .advance 2, .recount twoReplicas]

theorem inflight_le_maxInFlight_threeArrive :
    ∃ b, run step (newBroker (some oneAtATime)) threeArrive = some b ∧
      (b.metrics.inflight .jsonrpc + b.metrics.inflight .rest + b.metrics.inflight .grpc ≤ 1) ∧
      b.metrics.inflight .jsonrpc = 1 ∧ b.metrics.rejected .rest = 1 ∧ b.metrics.inflight .passthrough = 1 := by
  obtain ⟨b, hb⟩ := Option.isSome_iff_exists.mp
    (show (run step (newBroker (some oneAtATime)) threeArrive).isSome = true by decide +kernel)
  have hread : (run step (newBroker (some oneAtATime)) threeArrive).map (fun b =>
      (b.metrics.inflight .jsonrpc, b.metrics.rejected .rest, b.metrics.inflight .passthrough)) = some (1, 1, 1) := by
    decide +kernel
  rw [hb, Option.map_some, Option.some.injEq, Prod.mk.injEq, Prod.mk.injEq] at hread
  exact ⟨b, hb, (inflight_le_maxInFlight (some oneAtATime) (by decide) threeArrive b hb).1, hread⟩

/-! ## The accounts -/

/-- A request is turned away only on a transport with a limiter. -/
theorem gated_of_rejected {ad : Option AgentDeploy} {es : List Event} {b : Broker}
    (hr : run step (newBroker ad) es = some b) :
    ∀ r ∈ b.requests, r.phase = .refused ∨ r.phase = .rejected → r.transport.gated = true := by
  refine run_invariant (I := fun b : Broker =>
    ∀ r ∈ b.requests, r.phase = .refused ∨ r.phase = .rejected → r.transport.gated = true) ?_ (by simp [newBroker]) hr
  intro b e b' hb h
  obtain ⟨t, rfl⟩ | ⟨i, r, l, m, phase, hr, hadv, rfl⟩ | ⟨i, r, o, hr, hserving, rfl⟩ | ⟨resolver, rfl⟩ := step_cases h
  · intro r hmem hphase
    rcases List.mem_append.mp hmem with hmem | hmem
    · exact hb r hmem hphase
    · obtain rfl := List.mem_singleton.mp hmem
      simp at hphase
  · intro x hmem hphase
    rcases List.mem_or_eq_of_mem_set hmem with hmem | rfl
    · exact hb x hmem hphase
    · -- the request that moved was refused before, or is refused now
      cases hbefore : r.phase with
      | arrived =>
        rw [hbefore, advance] at hadv
        split_ifs at hadv with hg
        · exact hg
        · obtain ⟨-, -, rfl⟩ := by simpa using hadv
          simp at hphase
      | refused => exact hb r (List.mem_of_getElem? hr) (.inl hbefore)
      | rejected | serving | done o => simp [advance, hbefore] at hadv
      | admitted | returned o | left o | counted o | observed o | recorded o =>
        obtain ⟨-, -, rfl⟩ := by simpa [advance, hbefore] using hadv
        simp at hphase
  · intro x hmem hphase
    rcases List.mem_or_eq_of_mem_set hmem with hmem | rfl
    · exact hb x hmem hphase
    · simp at hphase
  · exact hb

/-- Arrived, and so far neither counted as a request nor as rejected. -/
def Phase.pending (phase : Phase) : Bool := !phase.isCounted && !phase.isRejected

/-- The accounts of a broker. -/
structure Accounted (b : Broker) : Prop where
  /-- Every metric is the number of the requests that it is about. -/
  metrics : b.metrics = meters b.requests
  /-- Every request is counted once: as served, as rejected, or not yet. -/
  arrivals : ∀ t, countOf b.requests t (fun _ => true) =
    b.metrics.requests t + b.metrics.rejected t + countOf b.requests t Phase.pending
  errors_le : ∀ t code, b.metrics.errors t code ≤ b.metrics.requests t
  passthrough : b.metrics.rejected .passthrough = 0
  /-- With every request at its end, the gauges read zero and nothing is pending. -/
  idle : (∀ r ∈ b.requests, r.phase.finished = true) → ∀ t, b.metrics.inflight t = 0 ∧
    b.metrics.durations t = b.metrics.requests t ∧ countOf b.requests t Phase.pending = 0

/-- **The accounts hold** at every instant, in whatever order the steps of the requests interleave. -/
theorem requests_accounted (ad : Option AgentDeploy) (es : List Event) (b : Broker)
    (hr : run step (newBroker ad) es = some b) : Accounted b := by
  have hm := metrics_run hr
  refine ⟨hm, ?_, ?_, ?_, ?_⟩
  · intro t
    have hrest : tally (fun r : Request => r.transport == t && !r.phase.isCounted) b.requests =
        countOf b.requests t Phase.isRejected + countOf b.requests t Phase.pending := by
      rw [tally_split fun r => r.phase.isRejected]
      congr 1
      · refine tally_congr fun r _ => ?_
        cases r.phase <;> simp [Phase.isCounted, Phase.isRejected]
      · refine tally_congr fun r _ => ?_
        rw [Phase.pending, Bool.and_assoc]
    rw [hm, countOf, tally_split fun r => r.phase.isCounted]
    simp only [Bool.and_true, hrest]
    exact (Int.add_assoc _ _ _).symm
  · intro t code
    rw [hm]
    refine tally_le_tally fun r _ h => ?_
    rw [Bool.and_eq_true] at h ⊢
    refine ⟨h.1, ?_⟩
    cases hphase : r.phase <;> simp_all [Phase.isError, Phase.isCounted]
  · rw [hm]
    refine tally_eq_zero fun r hmem => ?_
    have hgated := gated_of_rejected hr r hmem
    cases hphase : r.phase <;> simp_all [Phase.isRejected, Transport.gated]
  · intro hend t
    rw [hm]
    refine ⟨tally_eq_zero fun r hmem => ?_, tally_congr fun r hmem => ?_, tally_eq_zero fun r hmem => ?_⟩
    all_goals
      have hfin := hend r hmem
      cases hphase : r.phase <;>
        simp_all [Phase.finished, Phase.onGauge, Phase.isObserved, Phase.isCounted, Phase.pending, Phase.isRejected]

/-- The JSON-RPC request then ends with an error of the agent. -/
def oneFails : List Event :=
  threeArrive ++ [.finish 0 (.http 502), .advance 0, .advance 0, .advance 0, .advance 0, .advance 0]

theorem requests_accounted_oneFails :
    ∃ b, run step (newBroker (some oneAtATime)) oneFails = some b ∧ Accounted b ∧
      b.metrics.requests .jsonrpc = 1 ∧ b.metrics.errors .jsonrpc "5xx" = 1 ∧ b.limiter.sem.map Semaphore.held = some 0 := by
  obtain ⟨b, hb⟩ := Option.isSome_iff_exists.mp
    (show (run step (newBroker (some oneAtATime)) oneFails).isSome = true by decide +kernel)
  have hread : (run step (newBroker (some oneAtATime)) oneFails).map (fun b =>
      (b.metrics.requests .jsonrpc, b.metrics.errors .jsonrpc "5xx", b.limiter.sem.map Semaphore.held)) =
        some (1, 1, some 0) := by
    decide +kernel
  rw [hb, Option.map_some, Option.some.injEq, Prod.mk.injEq, Prod.mk.injEq] at hread
  exact ⟨b, hb, requests_accounted (some oneAtATime) oneFails b hb, hread⟩

end KynoMesh.Admission
