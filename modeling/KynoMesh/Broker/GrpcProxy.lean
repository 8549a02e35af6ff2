import KynoMesh.Lib.Transition
import KynoMesh.Lib.Dict

/-!
# The gRPC pass-through

`forwardGRPCStream` and `copyMessages` of `broker/proxy_grpc.go`: a handler with one goroutine that pumps the frames of
the client to the backend and one for the other direction. The parties are the client, the two pumps, the handler and
the backend. An event of the client or the backend is its arrival at the broker; each direction is FIFO. The streams of
the gRPC library fail at their end or at a cancellation only: no frame is over the message size limit, no deadline runs
out, and no transport breaks.

* `step` : one event of any party;
* `Consistent`, `consistent_run` : what the pumps have handed to the handler, in every reachable state;
* `Woken` : the pump of the client's frames is not left waiting for the client;
* `delivers_iff` : once the backend has ended the stream and its frames are forwarded, the broker can deliver the status
  and the trailers without the client exactly in a state that is `Woken`: the handler waits for both pumps, and the pump
  of the client's frames does not notice the end of the stream while it receives.
-/

namespace KynoMesh.GrpcProxy

open KynoMesh.Lib

/-! ## The parties -/

/-- A frame of the pass-through codec. -/
abbrev Frame := List UInt8

abbrev Metadata := Dict String (List String)

/-- The status of a call. -/
inductive Status where
  | ok
  | error (code : UInt32) (message : String)
  deriving DecidableEq

/-- A non-nil error of `RecvMsg` or `SendMsg`. -/
inductive Err where
  | eof
  | status (code : UInt32) (message : String)
  deriving DecidableEq

/-- The error of `RecvMsg` at the end of a stream with this status. -/
def Status.recvErr : Status → Err
  | .ok => .eof
  | .error code message => .status code message

def cancelledErr : Err := .status 1 "context canceled"

/-- The goroutine that runs `copyMessages(ss, clientStream)`; from `closeSend` on, its error is in the channel. -/
inductive UpPump where
  | recv
  | send (frame : Frame)
  | closeSend (err : Err)
  | done (err : Err)
  deriving DecidableEq

/-- The goroutine that runs `copyMessages(clientStream, ss)`; when it is done, its error is in the channel. -/
inductive DownPump where
  | header
  | recv
  | send (frame : Frame)
  | done (err : Err)
  deriving DecidableEq

/-- What the goroutine sent on `clientToBackendErr`. -/
@[grind] def UpPump.sent : UpPump → Option Err
  | .closeSend err | .done err => some err
  | .recv | .send _ => none

/-- What the goroutine sent on `backendToClientErr`. -/
def DownPump.sent : DownPump → Option Err
  | .done err => some err
  | .header | .recv | .send _ => none

inductive Handler where
  | awaitBackend
  | awaitClient (backendErr : Err)
  | returned (status : Status) (trailer : Metadata)
  deriving DecidableEq

/-- One call through the broker. -/
structure State where
  /-- Frames of the client that `ss.RecvMsg` has not returned yet. -/
  fromClient : List Frame := []
  halfClosed : Bool := false
  cancelled : Bool := false
  /-- Frames of the backend that `clientStream.RecvMsg` has not returned yet. -/
  fromBackend : List Frame := []
  header : Option Metadata := none
  /-- The end of the stream from the backend. -/
  final : Option (Status × Metadata) := none
  /-- All frames of the backend. -/
  backendSent : List Frame := []
  up : UpPump := .recv
  down : DownPump := .header
  handler : Handler := .awaitBackend
  toBackend : List Frame := []
  backendHalfClosed : Bool := false
  clientHeader : Option Metadata := none
  toClient : List Frame := []
  serverMessages : Nat := 0
  deriving DecidableEq

/-- A call whose stream to the backend is open. -/
def State.start : State := {}

@[grind] def State.finished (s : State) : Bool :=
  match s.handler with
  | .returned _ _ => true
  | _ => false

/-- The stream to the backend is over, so that its `SendMsg` returns `io.EOF`. -/
@[grind] def State.backendGone (s : State) : Bool := s.final.isSome || s.cancelled

/-- `clientStream.Trailer()`. -/
@[grind] def State.trailer (s : State) : Metadata := (s.final.map Prod.snd).getD ∅

/-- The status that the handler returns. -/
def result : Err → Err → Status
  | .status code message, _ => .error code message
  | .eof, .status code message => .error code message
  | .eof, .eof => .ok

inductive Event where
  | clientFrame (frame : Frame)
  | clientHalfClose
  | clientCancel
  | backendHeader (header : Metadata)
  | backendFrame (frame : Frame)
  | backendEnd (status : Status) (trailer : Metadata)
  | upRecv
  | upEof
  | upCancelled
  | upSend
  | upClose
  | downHeader
  | downRecv
  | downEnd
  | downSend
  | downSendFails
  | takeBackend
  | takeClient
  deriving DecidableEq

/-- The event is a step of a goroutine of the broker. -/
def Event.ofBroker : Event → Bool
  | .clientFrame _ | .clientHalfClose | .clientCancel | .backendHeader _ | .backendFrame _ | .backendEnd _ _ => false
  | _ => true

/-- One event; `none` when it is not enabled. After the client has cancelled, or the handler has returned, nothing more
of the backend is received. -/
def step (s : State) : Event → Option State
  | .clientFrame frame =>
    if s.halfClosed || s.cancelled || s.finished then none else some { s with fromClient := s.fromClient ++ [frame] }
  | .clientHalfClose => if s.halfClosed || s.cancelled || s.finished then none else some { s with halfClosed := true }
  | .clientCancel => if s.cancelled || s.finished then none else some { s with cancelled := true }
  | .backendHeader header =>
    if s.header.isSome || s.backendGone || s.finished then none else some { s with header := some header }
  | .backendFrame frame =>
    if s.header.isNone || s.backendGone || s.finished then none
    else some { s with fromBackend := s.fromBackend ++ [frame], backendSent := s.backendSent ++ [frame] }
  | .backendEnd status trailer =>
    if s.backendGone || s.finished then none else some { s with final := some (status, trailer) }
  | .upRecv =>
    match s.up, s.fromClient with
    | .recv, frame :: rest => some { s with up := .send frame, fromClient := rest }
    | _, _ => none
  | .upEof =>
    if s.up = .recv ∧ s.fromClient = [] ∧ s.halfClosed = true then some { s with up := .closeSend .eof } else none
  | .upCancelled =>
    if s.up = .recv ∧ s.cancelled = true then some { s with up := .closeSend cancelledErr } else none
  | .upSend =>
    match s.up with
    | .send frame =>
      if s.backendGone then some { s with up := .closeSend .eof }
      else some { s with up := .recv, toBackend := s.toBackend ++ [frame] }
    | _ => none
  | .upClose =>
    match s.up with
    | .closeSend err => some { s with up := .done err, backendHalfClosed := true }
    | _ => none
  | .downHeader =>
    if s.down = .header ∧ (s.header.isSome || s.backendGone) = true then
      some { s with down := .recv, clientHeader := s.header }
    else none
  | .downRecv =>
    match s.down, s.fromBackend with
    | .recv, frame :: rest => some { s with down := .send frame, fromBackend := rest }
    | _, _ => none
  | .downEnd =>
    match s.down, s.fromBackend, s.final with
    | .recv, [], some (status, _) => some { s with down := .done status.recvErr }
    | .recv, [], none => if s.cancelled then some { s with down := .done cancelledErr } else none
    | _, _, _ => none
  | .downSend =>
    match s.down with
    | .send frame =>
      some { s with down := .recv, toClient := s.toClient ++ [frame], serverMessages := s.serverMessages + 1 }
    | _ => none
  | .downSendFails =>
    match s.down with
    | .send _ => if s.cancelled then some { s with down := .done cancelledErr } else none
    | _ => none
  | .takeBackend =>
    match s.handler, s.down.sent with
    | .awaitBackend, some err => some { s with handler := .awaitClient err }
    | _, _ => none
  | .takeClient =>
    match s.handler, s.up.sent with
    | .awaitClient backendErr, some clientErr => some { s with handler := .returned (result backendErr clientErr) s.trailer }
    | _, _ => none

/-! ## Reachable states -/

/-- What the handler has received is what the pumps sent. -/
def HandlerConsistent (s : State) : Prop :=
  match s.handler with
  | .awaitBackend => True
  | .awaitClient backendErr => s.down = .done backendErr
  | .returned status trailer =>
    ∃ backendErr clientErr, s.down = .done backendErr ∧ s.up.sent = some clientErr ∧
      status = result backendErr clientErr ∧ trailer = s.trailer

/-- No frame of the backend is lost, duplicated or reordered. A pump that is done has read the end of the stream, or was
cancelled before the backend ended it, or in the middle of its frames. -/
def DownConsistent (s : State) : Prop :=
  match s.down with
  | .header | .recv => s.toClient ++ s.fromBackend = s.backendSent
  | .send frame => s.toClient ++ frame :: s.fromBackend = s.backendSent
  | .done err =>
    (∃ status trailer, s.final = some (status, trailer) ∧ err = status.recvErr) ∨
      (s.final = none ∧ s.cancelled = true) ∨ s.toClient.length < s.backendSent.length

structure Consistent (s : State) : Prop where
  handler : HandlerConsistent s
  down : DownConsistent s

@[grind =] theorem DownPump.sent_eq_some {p : DownPump} {err : Err} : p.sent = some err ↔ p = .done err := by
  cases p <;> simp [sent]

/-- The event is one in the direction of the backend's frames. -/
def Event.movesDown : Event → Bool
  | .clientCancel | .backendFrame _ | .backendEnd _ _ => true
  | .downHeader | .downRecv | .downEnd | .downSend | .downSendFails => true
  | _ => false

theorem step_frame_down {s s' : State} {e : Event} (he : e.movesDown = false) (h : step s e = some s') :
    s'.down = s.down ∧ s'.toClient = s.toClient ∧ s'.fromBackend = s.fromBackend ∧
      s'.backendSent = s.backendSent ∧ s'.final = s.final ∧ s'.cancelled = s.cancelled := by
  cases e with
  | clientCancel | backendFrame _ | backendEnd _ _ => cases he
  | downHeader | downRecv | downEnd | downSend | downSendFails => cases he
  | clientFrame _ | clientHalfClose | backendHeader _ | upEof | upCancelled =>
    simp only [step] at h
    split_ifs at h
    cases h
    exact ⟨rfl, rfl, rfl, rfl, rfl, rfl⟩
  | upRecv | upClose | takeBackend | takeClient =>
    simp only [step] at h
    split at h
    · cases h
      exact ⟨rfl, rfl, rfl, rfl, rfl, rfl⟩
    · cases h
  | upSend =>
    simp only [step] at h
    split at h
    · split_ifs at h
      · cases h
        exact ⟨rfl, rfl, rfl, rfl, rfl, rfl⟩
      · cases h
        exact ⟨rfl, rfl, rfl, rfl, rfl, rfl⟩
    · cases h

/-- The steps of the broker leave the end of the stream and the record of the backend's frames alone; only a pump that
holds a frame hands one on. -/
theorem broker_step_keeps {s s' : State} {e : Event} (he : e.ofBroker = true) (h : step s e = some s') :
    s'.final = s.final ∧ s'.backendSent = s.backendSent ∧ (s'.toClient = s.toClient ∨ ∃ frame, s.down = .send frame) := by
  cases e with
  | clientFrame _ | clientHalfClose | clientCancel | backendHeader _ | backendFrame _ | backendEnd _ _ => cases he
  | upRecv | upEof | upCancelled | upSend | upClose | downHeader | downRecv | downEnd | downSend | downSendFails
  | takeBackend | takeClient =>
    simp only [step] at h
    grind

/-- The handler stays consistent while it waits: a pump that has sent its error has ended, and the trailers are fixed by
the time it returns. -/
theorem HandlerConsistent.of_frame {s s' : State} (hs : HandlerConsistent s) (hhandler : s'.handler = s.handler)
    (hdown : ∀ err, s.down = .done err → s'.down = .done err)
    (hup : ∀ err, s.up.sent = some err → s'.up.sent = some err)
    (htrailer : s.finished = true → s'.trailer = s.trailer) : HandlerConsistent s' := by
  unfold HandlerConsistent at *
  rw [hhandler]
  cases hstate : s.handler with
  | awaitBackend => trivial
  | awaitClient backendErr =>
    rw [hstate] at hs
    exact hdown backendErr hs
  | returned status trailer =>
    rw [hstate] at hs
    obtain ⟨backendErr, clientErr, hd, hu, hstatus, ht⟩ := hs
    have hfinished : s.finished = true := by simp [State.finished, hstate]
    exact ⟨backendErr, clientErr, hdown _ hd, hup _ hu, hstatus, ht.trans (htrailer hfinished).symm⟩

/-- The error that the pump of the backend's frames sent is the last that it does. -/
theorem down_done_step {s s' : State} {e : Event} {err : Err} (hd : s.down = .done err) (h : step s e = some s') :
    s'.down = .done err := by
  by_cases he : e.movesDown = false
  · exact (step_frame_down he h).1.trans hd
  · cases e with
    | clientFrame _ | clientHalfClose | backendHeader _ => exact absurd rfl he
    | upRecv | upEof | upCancelled | upSend | upClose | takeBackend | takeClient => exact absurd rfl he
    | clientCancel | backendFrame _ | backendEnd _ _ =>
      simp only [step] at h
      split_ifs at h
      cases h
      exact hd
    | downHeader | downRecv | downEnd | downSend | downSendFails => simp [step, hd] at h

/-- After its error the pump of the client's frames only closes the stream. -/
theorem up_sent_step {s s' : State} {e : Event} {err : Err} (hu : s.up.sent = some err) (h : step s e = some s') :
    s'.up.sent = some err := by
  cases e with
  | upRecv | upEof | upCancelled | upSend | upClose =>
    cases hup : s.up with
    | recv | send _ =>
      rw [hup] at hu
      cases hu
    | closeSend err' | done err' =>
      rw [hup] at hu
      simp only [step, hup] at h
      cases h <;> exact hu
  | _ =>
    simp only [step] at h
    grind

theorem trailer_step {s s' : State} {e : Event} (hfinished : s.finished = true) (h : step s e = some s') :
    s'.trailer = s.trailer := by
  by_cases he : e.ofBroker = true
  · rw [State.trailer, (broker_step_keeps he h).1, State.trailer]
  · cases e with
    | clientFrame _ | clientHalfClose | clientCancel | backendHeader _ | backendFrame _ | backendEnd _ _ =>
      simp [step, hfinished] at h
    | _ => exact absurd rfl he

theorem handlerConsistent_step {s s' : State} {e : Event} (hs : HandlerConsistent s) (h : step s e = some s') :
    HandlerConsistent s' := by
  have hframe : s'.handler = s.handler → HandlerConsistent s' := fun hhandler =>
    hs.of_frame hhandler (fun _ hd => down_done_step hd h) (fun _ hu => up_sent_step hu h) fun hf => trailer_step hf h
  cases e with
  | takeBackend =>
    simp only [step] at h
    split at h
    next err _ hsent =>
      cases h
      exact DownPump.sent_eq_some.mp hsent
    next => cases h
  | takeClient =>
    simp only [step] at h
    split at h
    next backendErr clientErr hwait hsent =>
      cases h
      unfold HandlerConsistent at hs
      rw [hwait] at hs
      exact ⟨backendErr, clientErr, hs, hsent, rfl, rfl⟩
    next => cases h
  | _ =>
    refine hframe ?_
    simp only [step] at h
    grind

theorem downConsistent_step {s s' : State} {e : Event} (hs : DownConsistent s) (h : step s e = some s') :
    DownConsistent s' := by
  by_cases he : e.movesDown = false
  · obtain ⟨hdown, htoClient, hfromBackend, hsent, hfinal, hcancelled⟩ := step_frame_down he h
    unfold DownConsistent
    rw [hdown, htoClient, hfromBackend, hsent, hfinal, hcancelled]
    exact hs
  · unfold DownConsistent at *
    cases e with
    | clientFrame _ | clientHalfClose | backendHeader _ => exact absurd rfl he
    | upRecv | upEof | upCancelled | upSend | upClose | takeBackend | takeClient => exact absurd rfl he
    | clientCancel | backendFrame _ | backendEnd _ _ =>
      -- frames join the queue and the record together; a cancelled stream gets neither frames nor an end
      simp only [step] at h
      grind
    | downHeader | downRecv | downEnd | downSend | downSendFails =>
      -- the pump hands on one frame at a time, and reads the end only when the queue is empty
      simp only [step] at h
      grind

theorem consistent_run {es : List Event} {s : State} (h : run step .start es = some s) : Consistent s := by
  have hstart : Consistent .start := ⟨trivial, rfl⟩
  refine run_invariant (I := Consistent) ?_ hstart h
  intro s e s' hs hstep
  exact ⟨handlerConsistent_step hs.handler hstep, downConsistent_step hs.down hstep⟩

/-! ## The end of a stream -/

/-- The pump of the client's frames has ended, or can without the client: it has a frame to send to the ended stream, or
a frame or the half-close to receive. An error that a cancellation leaves in it gives way to an error of the backend
only. -/
def Woken (s : State) (status : Status) : Prop :=
  match s.up with
  | .recv => s.fromClient ≠ [] ∨ s.halfClosed = true ∨ (s.cancelled = true ∧ status ≠ .ok)
  | .send _ => True
  | .closeSend err | .done err => err = .eof ∨ status ≠ .ok

/-- Steps of the broker alone lead to the return of the handler with this status and these trailers. -/
def CanDeliver (s : State) (status : Status) (trailer : Metadata) : Prop :=
  ∃ es t, (∀ e ∈ es, e.ofBroker = true) ∧ run step s es = some t ∧ t.handler = .returned status trailer

theorem result_recvErr {status : Status} {clientErr : Err} :
    result status.recvErr clientErr = status ↔ clientErr = .eof ∨ status ≠ .ok := by
  cases status <;> cases clientErr <;> simp [Status.recvErr, result]

/-- The backend has ended the stream, and the client has all of its frames. -/
structure Ended (status : Status) (trailer : Metadata) (s : State) : Prop where
  consistent : Consistent s
  final : s.final = some (status, trailer)
  forwarded : s.toClient = s.backendSent

namespace Ended
variable {s s' : State} {e : Event} {status : Status} {trailer : Metadata}

/-- The pump of the backend's frames has the end of the stream before it, or behind it. -/
theorem down_cases (h : Ended status trailer s) :
    s.down = .header ∨ (s.down = .recv ∧ s.fromBackend = []) ∨ s.down = .done status.recvErr := by
  have hd := h.consistent.down
  unfold DownConsistent at hd
  have hfinal := h.final
  have hforwarded := h.forwarded
  cases hp : s.down with
  | header => exact .inl rfl
  | recv =>
    rw [hp, hforwarded] at hd
    exact .inr (.inl ⟨rfl, List.append_right_eq_self.mp hd⟩)
  | send frame =>
    rw [hp, hforwarded] at hd
    exact absurd (List.append_right_eq_self.mp hd) (List.cons_ne_nil _ _)
  | done err =>
    rw [hp] at hd
    rcases hd with ⟨st, tr, hst, rfl⟩ | ⟨hnone, -⟩ | hlt
    · rw [hfinal] at hst
      cases hst
      exact .inr (.inr rfl)
    · rw [hfinal] at hnone
      cases hnone
    · rw [hforwarded] at hlt
      exact absurd hlt (lt_irrefl _)

theorem of_step (h : Ended status trailer s) (he : e.ofBroker = true) (hstep : step s e = some s') :
    Ended status trailer s' := by
  have hconsistent : Consistent s' :=
    ⟨handlerConsistent_step h.consistent.handler hstep, downConsistent_step h.consistent.down hstep⟩
  obtain ⟨hfinal, hsent, hclient⟩ := broker_step_keeps he hstep
  refine ⟨hconsistent, hfinal.trans h.final, ?_⟩
  rcases hclient with hclient | ⟨frame, hsend⟩
  · rw [hclient, hsent, h.forwarded]
  · -- the client has all frames, so that the pump holds none
    rcases h.down_cases with hd | ⟨hd, -⟩ | hd
    all_goals
      rw [hd] at hsend
      cases hsend

/-- How far the goroutines of the broker are from their ends. -/
def rank (s : State) : Nat :=
  (match s.down with | .header => 2 | .recv | .send _ => 1 | .done _ => 0) +
    (match s.up with | .recv => 2 | .send _ => 1 | .closeSend _ | .done _ => 0) +
    (match s.handler with | .awaitBackend => 2 | .awaitClient _ => 1 | .returned _ _ => 0)

/-- A broker that is woken and has not delivered the status yet has a step that brings it closer. -/
theorem progress (h : Ended status trailer s) (hw : Woken s status) (hnot : s.handler ≠ .returned status trailer) :
    ∃ e s', e.ofBroker = true ∧ step s e = some s' ∧ (Ended status trailer s' ∧ Woken s' status) ∧ rank s' < rank s := by
  have hgone : s.backendGone = true := by simp [State.backendGone, h.final]
  -- a step that is enabled, wakes no less and lowers the rank is enough
  have hmove : ∀ e s', e.ofBroker = true → step s e = some s' → Woken s' status → rank s' < rank s →
      ∃ e s', e.ofBroker = true ∧ step s e = some s' ∧ (Ended status trailer s' ∧ Woken s' status) ∧ rank s' < rank s :=
    fun e s' he hstep hw' hlt => ⟨e, s', he, hstep, ⟨h.of_step he hstep, hw'⟩, hlt⟩
  rcases h.down_cases with hd | ⟨hd, hq⟩ | hd
  · refine hmove .downHeader { s with down := .recv, clientHeader := s.header } rfl (by simp [step, hd, hgone]) hw ?_
    simp [rank, hd]
  · refine hmove .downEnd { s with down := .done status.recvErr } rfl (by simp [step, hd, hq, h.final]) hw ?_
    simp [rank, hd]
  -- the backend's side is over; now the client's
  cases hu : s.up with
  | recv =>
    rw [Woken, hu] at hw
    cases hc : s.fromClient with
    | cons frame rest =>
      refine hmove .upRecv { s with up := .send frame, fromClient := rest } rfl (by simp [step, hu, hc]) trivial ?_
      simp [rank, hu]
    | nil =>
      rcases hw with hne | hhalf | ⟨hcancel, herr⟩
      · exact absurd hc hne
      · refine hmove .upEof { s with up := .closeSend .eof } rfl (by simp [step, hu, hc, hhalf]) (.inl rfl) ?_
        simp [rank, hu]
      · refine hmove .upCancelled { s with up := .closeSend cancelledErr } rfl (by simp [step, hu, hcancel])
          (.inr herr) ?_
        simp [rank, hu]
  | send frame =>
    refine hmove .upSend { s with up := .closeSend .eof } rfl (by simp [step, hu, hgone]) (.inl rfl) ?_
    simp [rank, hu]
  | closeSend err | done err =>
    -- both errors are sent: only the handler is left
    have hsent : s.up.sent = some err := by rw [hu]; rfl
    have hres : result status.recvErr err = status := by
      rw [Woken, hu] at hw
      exact result_recvErr.mpr hw
    have hh := h.consistent.handler
    cases hp : s.handler with
    | awaitBackend =>
      refine hmove .takeBackend { s with handler := .awaitClient status.recvErr } rfl
        (by simp [step, hp, hd, DownPump.sent]) hw ?_
      simp [rank, hp]
    | awaitClient backendErr =>
      rw [HandlerConsistent, hp] at hh
      refine hmove .takeClient { s with handler := .returned (result backendErr err) s.trailer } rfl
        (by simp [step, hp, hsent]) hw ?_
      simp [rank, hp]
    | returned st tr =>
      -- the handler has returned what the pumps sent, which is the status of the backend
      rw [HandlerConsistent, hp] at hh
      obtain ⟨backendErr, clientErr, hdone, hsent', rfl, rfl⟩ := hh
      rw [hd] at hdone
      cases hdone
      rw [hsent] at hsent'
      cases hsent'
      exact absurd (by rw [hp, hres]; simp [State.trailer, h.final]) hnot

theorem canDeliver (h : Ended status trailer s) (hw : Woken s status) : CanDeliver s status trailer :=
  exists_run_of_progress (I := fun s => Ended status trailer s ∧ Woken s status)
    (G := fun s => s.handler = .returned status trailer) rank (fun _ hs hnot => hs.1.progress hs.2 hnot) ⟨h, hw⟩

/-- The broker cannot wake the pump of the client's frames: it waits for a silent client, or it ended with an error that
takes the place of the status `ok`. -/
theorem not_woken_of_step (h : Ended status trailer s) (he : e.ofBroker = true) (hstep : step s e = some s')
    (hw : ¬Woken s status) : ¬Woken s' status := by
  have hfinal := h.final
  unfold Woken at *
  cases e with
  | clientFrame _ | clientHalfClose | clientCancel | backendHeader _ | backendFrame _ | backendEnd _ _ => cases he
  | upRecv | upEof | upCancelled | upSend | upClose =>
    simp only [step] at hstep
    grind [cancelledErr]
  | downHeader | downRecv | downEnd | downSend | downSendFails | takeBackend | takeClient =>
    -- nothing that `Woken` reads changes
    simp only [step] at hstep
    grind

theorem not_canDeliver (h : Ended status trailer s) (hw : ¬Woken s status) : ¬CanDeliver s status trailer := by
  rintro ⟨es, t, hes, hrun, ht⟩
  have hinv : Ended status trailer t ∧ ¬Woken t status := by
    refine run_invariant_of_events (I := fun s => Ended status trailer s ∧ ¬Woken s status) ?_ ⟨h, hw⟩ hes hrun
    intro s e s' hs he hstep
    exact ⟨hs.1.of_step he hstep, hs.1.not_woken_of_step he hstep hs.2⟩
  obtain ⟨ht', hwt⟩ := hinv
  -- a handler that returned has the error of a pump that `Woken` would accept
  have hh := ht'.consistent.handler
  rw [HandlerConsistent, ht] at hh
  obtain ⟨backendErr, clientErr, hdone, hsent, hres, -⟩ := hh
  have hback : backendErr = status.recvErr := by
    rcases ht'.down_cases with hd | ⟨hd, -⟩ | hd
    · rw [hd] at hdone
      cases hdone
    · rw [hd] at hdone
      cases hdone
    · rw [hd] at hdone
      cases hdone
      rfl
  rw [hback] at hres
  have hok := result_recvErr.mp hres.symm
  apply hwt
  unfold Woken
  cases hu : t.up with
  | recv | send frame =>
    rw [hu] at hsent
    cases hsent
  | closeSend err | done err =>
    rw [hu] at hsent
    cases hsent
    exact hok

end Ended

/-- **The end of a stream reaches the client exactly when the pump of its frames is woken.** In every reachable state in
which the backend has ended the stream and its frames are forwarded. -/
theorem delivers_iff (es : List Event) (s : State) (status : Status) (trailer : Metadata)
    (hreach : run step .start es = some s) (hfinal : s.final = some (status, trailer))
    (hforwarded : s.toClient = s.backendSent) : CanDeliver s status trailer ↔ Woken s status := by
  have hended : Ended status trailer s := ⟨consistent_run hreach, hfinal, hforwarded⟩
  constructor
  · intro h
    by_contra hw
    exact hended.not_canDeliver hw h
  · exact hended.canDeliver

/-- A unary call: the client half-closes right after its request. -/
def unaryCall : List Event :=
  [.clientFrame [1], .clientHalfClose, .upRecv, .upSend, .backendHeader ∅, .backendFrame [2], .backendEnd .ok ∅,
    .downHeader, .downRecv, .downSend]

theorem delivers_unaryCall :
    ∃ s, run step .start unaryCall = some s ∧ s.final = some (.ok, ∅) ∧ s.toClient = s.backendSent ∧
      CanDeliver s .ok ∅ := by
  refine ⟨_, rfl, rfl, rfl, ?_⟩
  exact (delivers_iff unaryCall _ .ok ∅ rfl rfl rfl).mpr (.inr (.inl rfl))

/-- The client keeps its side open, and the backend rejects the first frame. -/
def earlyReject : List Event := [.clientFrame [1], .upRecv, .upSend, .backendEnd (.error 3 "invalid argument") ∅]

theorem early_end_not_delivered :
    ∃ s, run step .start earlyReject = some s ∧ s.final = some (.error 3 "invalid argument", ∅) ∧
      s.toClient = s.backendSent ∧ ¬CanDeliver s (.error 3 "invalid argument") ∅ := by
  refine ⟨_, rfl, rfl, rfl, ?_⟩
  refine Ended.not_canDeliver ⟨@consistent_run earlyReject _ rfl, rfl, rfl⟩ ?_
  rintro (hframe | hhalf | ⟨hcancel, -⟩)
  · exact hframe rfl
  · cases hhalf
  · cases hcancel

end KynoMesh.GrpcProxy
