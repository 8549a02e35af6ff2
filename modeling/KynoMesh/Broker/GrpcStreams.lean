import KynoMesh.Broker.GrpcProxy

/-!
# What a gRPC pass-through forwards

Both directions of a call through the broker, for every order of the events of the client, the backend and the two
pumps, over streams that fail at their end or at a cancellation only.

* `UpForwarded` : where the frames of the client are; `DownForwarded` : where those of the backend are, with its header;
* `upForwarded_step`, `downForwarded_step` : the steps keep them;
* `forwards_transparently` : in every reachable state each side has received a prefix of what the other one sent, a call
  that returns a status of the backend has delivered everything else of the backend before, and any other status is that
  of a cancellation.
-/

namespace KynoMesh.GrpcProxy

open KynoMesh.Lib

/-- The frame that the client sends with an event. -/
@[grind] def Event.clientSends : Event → List Frame
  | .clientFrame frame => [frame]
  | _ => []

/-- The frames that the client sends in a run. -/
def clientFrames (es : List Event) : List Frame := es.flatMap Event.clientSends

theorem clientFrames_concat (es : List Event) (e : Event) :
    clientFrames (es ++ [e]) = clientFrames es ++ e.clientSends := by
  simp [clientFrames]

/-! ## From the client to the backend -/

/-- The pump of the client's frames loses none while the stream to the backend is open. -/
def UpForwarded (sent : List Frame) (s : State) : Prop :=
  match s.up with
  | .recv => s.toBackend ++ s.fromClient = sent
  | .send frame => s.toBackend ++ frame :: s.fromClient = sent
  | .closeSend err | .done err =>
    (err = .eof ∨ err = cancelledErr ∧ s.cancelled = true) ∧
      ((s.toBackend = sent ∧ s.halfClosed = true) ∨ (s.toBackend <+: sent ∧ s.backendGone = true))

theorem upForwarded_step {sent : List Frame} {s s' : State} {e : Event} (hs : UpForwarded sent s)
    (h : step s e = some s') : UpForwarded (sent ++ e.clientSends) s' := by
  unfold UpForwarded at *
  cases e with
  | clientFrame frame =>
    -- a pump that has ended with the half-close gets no more frames, any other one a longer record
    simp only [step] at h
    grind
  | upRecv | upEof | upCancelled | upSend | upClose =>
    simp only [step] at h
    grind
  | _ =>
    -- the queue and the pump stay; a stream that is over stays over
    simp only [step] at h
    grind

theorem closed_step {s s' : State} {e : Event} (hs : s.backendHalfClosed = true → ∃ err, s.up = .done err)
    (h : step s e = some s') : s'.backendHalfClosed = true → ∃ err, s'.up = .done err := by
  simp only [step] at h
  grind

/-! ## From the backend to the client -/

/-- How the pump of the backend's frames ended: at the end of the stream with every frame forwarded, or cancelled. -/
def DownEnded (s : State) (err : Err) : Prop :=
  (∃ status trailer, s.final = some (status, trailer) ∧ err = status.recvErr ∧ s.toClient = s.backendSent) ∨
    (err = cancelledErr ∧ s.cancelled = true ∧ s.toClient <+: s.backendSent)

structure DownForwarded (s : State) : Prop where
  frames : match s.down with
    | .header | .recv => s.toClient ++ s.fromBackend = s.backendSent
    | .send frame => s.toClient ++ frame :: s.fromBackend = s.backendSent
    | .done err => DownEnded s err
  /-- The header goes first. -/
  header : if s.down = .header then s.toClient = [] else s.clientHeader = s.header ∧ (s.header.isSome || s.backendGone) = true
  counted : s.serverMessages = s.toClient.length

theorem downForwarded_step {s s' : State} {e : Event} (hs : DownForwarded s) (h : step s e = some s') :
    DownForwarded s' := by
  obtain ⟨hframes, hheader, hcounted⟩ := hs
  unfold DownEnded at *
  cases e with
  | backendHeader _ | backendFrame _ | backendEnd _ _ | clientCancel =>
    -- a header comes once, and neither a frame nor an end after a cancellation
    simp only [step] at h
    refine ⟨?_, ?_, ?_⟩ <;> grind [DownEnded]
  | downHeader | downRecv | downEnd | downSend | downSendFails =>
    simp only [step] at h
    refine ⟨?_, ?_, ?_⟩ <;> grind [DownEnded]
  | _ =>
    simp only [step] at h
    refine ⟨?_, ?_, ?_⟩ <;> grind [DownEnded]

/-! ## Every run -/

/-- What the two sides of a call see of each other. -/
structure Transparent (sent : List Frame) (s : State) : Prop where
  toBackend : s.toBackend <+: sent
  toClient : s.toClient <+: s.backendSent
  counted : s.serverMessages = s.toClient.length
  header : s.toClient ≠ [] → s.clientHeader = s.header
  /-- While the stream is open, the backend learns that the client is done after all of its frames. -/
  halfClose : s.backendHalfClosed = true → s.backendGone = true ∨ s.halfClosed = true ∧ s.toBackend = sent
  /-- A call returns the status of the backend, with all of its frames, its header and its trailers, or it was
  cancelled. -/
  returned : ∀ status trailer, s.handler = .returned status trailer →
    (s.final = some (status, trailer) ∧ s.toClient = s.backendSent ∧ s.clientHeader = s.header) ∨
      (s.cancelled = true ∧ status = .error 1 "context canceled")

section
variable {sent : List Frame} {s : State}

theorem UpForwarded.isPrefix (h : UpForwarded sent s) : s.toBackend <+: sent := by
  unfold UpForwarded at h
  split at h
  · exact ⟨_, h⟩
  · exact ⟨_, h⟩
  · rcases h.2 with ⟨hall, -⟩ | ⟨hpre, -⟩
    · exact hall ▸ List.prefix_rfl
    · exact hpre
  · rcases h.2 with ⟨hall, -⟩ | ⟨hpre, -⟩
    · exact hall ▸ List.prefix_rfl
    · exact hpre

theorem UpForwarded.sent_cases (h : UpForwarded sent s) {err : Err} (hsent : s.up.sent = some err) :
    err = .eof ∨ err = cancelledErr ∧ s.cancelled = true := by
  unfold UpForwarded at h
  cases hup : s.up with
  | recv | send frame =>
    rw [hup] at hsent
    cases hsent
  | closeSend err' | done err' =>
    rw [hup] at hsent h
    cases hsent
    exact h.1

theorem DownForwarded.isPrefix (h : DownForwarded s) : s.toClient <+: s.backendSent := by
  have hframes := h.frames
  split at hframes
  · exact ⟨_, hframes⟩
  · exact ⟨_, hframes⟩
  · exact ⟨_, hframes⟩
  · rcases hframes with ⟨-, -, -, -, hall⟩ | ⟨-, -, hpre⟩
    · exact hall ▸ List.prefix_rfl
    · exact hpre

/-- What a handler that returned has delivered. -/
theorem returned_cases (hup : UpForwarded sent s) (hdown : DownForwarded s) (hhandler : HandlerConsistent s)
    {status : Status} {trailer : Metadata} (hret : s.handler = .returned status trailer) :
    (s.final = some (status, trailer) ∧ s.toClient = s.backendSent ∧ s.clientHeader = s.header) ∨
      (s.cancelled = true ∧ status = .error 1 "context canceled") := by
  rw [HandlerConsistent, hret] at hhandler
  obtain ⟨backendErr, clientErr, hdone, hsent, rfl, rfl⟩ := hhandler
  have hframes := hdown.frames
  have hheader := hdown.header
  rw [hdone] at hframes
  rw [if_neg (by rw [hdone]; simp)] at hheader
  rcases hframes with ⟨st, tr, hfinal, rfl, hall⟩ | ⟨rfl, hcancel, -⟩
  · have htrailer : s.trailer = tr := by simp [State.trailer, hfinal]
    rcases hup.sent_cases hsent with rfl | ⟨rfl, hcancel⟩
    · left
      rw [result_recvErr.mpr (.inl rfl), htrailer]
      exact ⟨hfinal, hall, hheader.1⟩
    · -- the cancellation only shows when the backend has no error
      cases st with
      | ok => exact .inr ⟨hcancel, rfl⟩
      | error code message => exact .inl ⟨htrailer ▸ hfinal, hall, hheader.1⟩
  · exact .inr ⟨hcancel, rfl⟩

end

/-- **The broker is transparent.** In every reachable state, for every order of the events of the parties. -/
theorem forwards_transparently (es : List Event) (s : State) (hrun : run step .start es = some s) :
    Transparent (clientFrames es) s := by
  have hdown : DownForwarded s := by
    have hstart : DownForwarded .start := ⟨rfl, rfl, rfl⟩
    exact run_invariant (fun _ _ _ => downForwarded_step) hstart hrun
  have hup : UpForwarded (clientFrames es) s := by
    have hstart : UpForwarded (clientFrames []) .start := rfl
    refine run_invariant_of_history (I := fun es s => UpForwarded (clientFrames es) s) ?_ hstart hrun
    intro es s e s' hs hstep
    rw [clientFrames_concat]
    exact upForwarded_step hs hstep
  have hclose : s.backendHalfClosed = true → ∃ err, s.up = .done err := by
    refine run_invariant (I := fun s : State => s.backendHalfClosed = true → ∃ err, s.up = .done err) ?_ ?_ hrun
    · exact fun _ _ _ => closed_step
    · intro h
      cases h
  refine ⟨hup.isPrefix, hdown.isPrefix, hdown.counted, ?_, ?_, ?_⟩
  · intro hne
    have hheader := hdown.header
    split_ifs at hheader with hd
    · exact absurd hheader hne
    · exact hheader.1
  · intro hclosed
    obtain ⟨err, hdone⟩ := hclose hclosed
    rw [UpForwarded, hdone] at hup
    rcases hup.2 with ⟨hall, hhalf⟩ | ⟨-, hgone⟩
    · exact .inr ⟨hhalf, hall⟩
    · exact .inl hgone
  · intro status trailer hret
    exact returned_cases hup hdown (consistent_run hrun).handler hret

/-- A unary call to its end. -/
def wholeCall : List Event := unaryCall ++ [.upEof, .upClose, .downEnd, .takeBackend, .takeClient]

theorem forwards_transparently_wholeCall :
    ∃ s, run step .start wholeCall = some s ∧ s.handler = .returned .ok ∅ ∧ Transparent [[1]] s :=
  ⟨_, rfl, rfl, forwards_transparently wholeCall _ rfl⟩

end KynoMesh.GrpcProxy
