import KynoMesh.Api.Types
import KynoMesh.History.Codec

/-!
# The history store of an AgentDeploy

`ConfigMapStore` of `history/store.go`: an in-memory buffer tagged with the pod-spec hash that its samples were
collected under, persisted to one ConfigMap. The API server is the ConfigMap it holds, if any; every call to it may
fail (`UpsertCalls`), and a call that fails changes nothing.

`history_refines` is the main result: over any run of records, queries, flushes and restarts, the store answers as its
`Log` says, the list of everything recorded since the last change of hash.
-/

namespace KynoMesh.History

open KynoMesh.Lib KynoMesh.Api

variable {F : Type}

/-! ## The API server -/

structure ConfigMap where
  metadata : ObjectMeta
  binaryData : Dict String Bytes := ∅

inductive ApiError where
  | notFound
  | alreadyExists
  | conflict
  | other (message : String)
  deriving DecidableEq

def ApiError.text : ApiError → String
  | .notFound => "not found"
  | .alreadyExists => "already exists"
  | .conflict => "conflict"
  | .other message => message

/-- `client.Get`; a call fails with its `fault`, if it has one. -/
def clientGet (fault : Option ApiError) (server : Option ConfigMap) : Except ApiError ConfigMap :=
  match fault, server with
  | some e, _ => .error e
  | none, none => .error .notFound
  | none, some cm => .ok cm

def clientCreate (fault : Option ApiError) (server : Option ConfigMap) (cm : ConfigMap) : Except ApiError ConfigMap :=
  match fault, server with
  | some e, _ => .error e
  | none, some _ => .error .alreadyExists
  | none, none => .ok cm

def clientUpdate (fault : Option ApiError) (server : Option ConfigMap) (cm : ConfigMap) : Except ApiError ConfigMap :=
  match fault, server with
  | some e, _ => .error e
  | none, none => .error .notFound
  | none, some _ => .ok cm

/-! ## The store -/

def historyKey : String := "history"

def historyConfigMapName (adName : String) : String := adName ++ "-scaling"

structure ConfigMapStore (F : Type) where
  nspace : String
  name : String
  ownerRef : OwnerReference
  labels : Dict String String
  buf : Buffer F
  lastFlush : Int := zeroTime
  specHash : Bytes := []

def newConfigMapStore (ad : AgentDeploy) (opts : Bounds) : ConfigMapStore F where
  nspace := ad.metadata.nspace
  name := historyConfigMapName ad.metadata.name
  ownerRef := newControllerRef ad.metadata "AgentDeploy"
  labels := [(keyManagedBy, controllerAgentDeploy), (keyAgentSetName, ad.spec.agentSetName),
    (keyAgentDeployName, ad.spec.agent.name), (keyComponent, componentAgent)].foldl (fun d kv => d.insert kv.1 kv.2) ∅
  buf := { toBounds := opts }

namespace ConfigMapStore

/-- The first locked section of `Record`: note the hash, and tell whether it is a new one. -/
def setHash (s : ConfigMapStore F) (specHash : Bytes) : Bool × ConfigMapStore F :=
  (decide (s.specHash ≠ [] ∧ s.specHash ≠ specHash), { s with specHash := specHash })

def resetBuf (s : ConfigMapStore F) : ConfigMapStore F := { s with buf := s.buf.reset }

def addSample (s : ConfigMapStore F) (sample : Sample F) : ConfigMapStore F := { s with buf := s.buf.add sample }

def record (s : ConfigMapStore F) (sample : Sample F) (specHash : Bytes) : ConfigMapStore F :=
  let (changed, s) := s.setHash specHash
  let s := if changed then s.resetBuf else s
  s.addSample sample

def history (s : ConfigMapStore F) (now : Int) : List (Sample F) × ConfigMapStore F :=
  let (samples, buf) := s.buf.samples now
  (samples, { s with buf := buf })

/-- The ConfigMap that `upsert` creates. -/
def newConfigMap (s : ConfigMapStore F) (blob : Bytes) : ConfigMap where
  metadata := { nspace := s.nspace, name := s.name, labels := s.labels, ownerReferences := [s.ownerRef] }
  binaryData := AList.insert historyKey blob ∅

end ConfigMapStore

/-- `cm.BinaryData[HistoryKey]`. -/
def ConfigMap.history (cm : ConfigMap) : Bytes := (cm.binaryData.lookup historyKey).getD []

/-- The faults of the API calls of one turn of `upsert`. -/
structure TurnCalls where
  get : Option ApiError := none
  create : Option ApiError := none
  update : Option ApiError := none
  deriving DecidableEq

/-- The faults of the first turn, and of the one after a write conflict. -/
structure UpsertCalls where
  first : TurnCalls := {}
  again : TurnCalls := {}
  deriving DecidableEq

namespace ConfigMapStore

/-- One turn of `upsert`: what the server holds afterwards. `again` is the result of the turn to take after a write
conflict, if there is one to take. -/
def upsertTurn (s : ConfigMapStore F) (calls : TurnCalls) (again : Option (Except String (Option ConfigMap)))
    (server : Option ConfigMap) (blob : Bytes) : Except String (Option ConfigMap) :=
  match clientGet calls.get server with
  | .error .notFound =>
    match clientCreate calls.create server (s.newConfigMap blob) with
    | .ok cm => .ok (some cm)
    | .error .alreadyExists => .ok server
    | .error e => .error ("failed to create history ConfigMap: " ++ e.text)
  | .error e => .error ("failed to get history ConfigMap: " ++ e.text)
  | .ok cm =>
    match clientUpdate calls.update server { cm with binaryData := cm.binaryData.insert historyKey blob }, again with
    | .ok cm, _ => .ok (some cm)
    | .error .conflict, some result => result
    | .error e, _ => .error ("failed to update history ConfigMap: " ++ e.text)

def upsert (s : ConfigMapStore F) (calls : UpsertCalls) (server : Option ConfigMap) (blob : Bytes) :
    Except String (Option ConfigMap) :=
  s.upsertTurn calls.first (some (s.upsertTurn calls.again none server blob)) server blob

end ConfigMapStore

section
variable (float64bits : F ≃ UInt64)

def DecodeFault.text : DecodeFault → String
  | .err message => message
  | .panic => "index out of range"

namespace ConfigMapStore

def load (s : ConfigMapStore F) (get : Option ApiError) (server : Option ConfigMap) :
    Except String (ConfigMapStore F) :=
  match clientGet get server with
  | .error .notFound => .ok s
  | .error e => .error ("failed to get history ConfigMap: " ++ e.text)
  | .ok cm =>
    match decodeHistory float64bits cm.history with
    | .error e => .error ("failed to decode history: " ++ e.text)
    | .ok (specHash, records) => .ok { s with specHash := specHash, buf := s.buf.load records }

/-- What the server holds after a flush. -/
def flush (s : ConfigMapStore F) (calls : UpsertCalls) (server : Option ConfigMap) :
    Except String (Option ConfigMap) :=
  s.upsert calls server (encodeHistory float64bits s.specHash s.buf.snapshot)

/-- The store and the server after `FlushIfDue`; an error leaves both as they were. -/
def flushIfDue (s : ConfigMapStore F) (calls : UpsertCalls) (server : Option ConfigMap) (now interval : Int) :
    Except String (ConfigMapStore F × Option ConfigMap) :=
  if timeSub now s.lastFlush < interval then .ok (s, server)
  else
    match s.flush float64bits calls server with
    | .error e => .error e
    | .ok server' => .ok ({ s with lastFlush := now }, server')

end ConfigMapStore

end

/-! ## What a record leaves -/

theorem record_eq (s : ConfigMapStore F) (sample : Sample F) (specHash : Bytes) :
    s.record sample specHash =
      { s with
        specHash := specHash
        buf := (if s.specHash ≠ [] ∧ s.specHash ≠ specHash then s.buf.reset else s.buf).add sample } := by
  simp only [ConfigMapStore.record, ConfigMapStore.setHash, decide_eq_true_eq]
  by_cases hc : s.specHash ≠ [] ∧ s.specHash ≠ specHash
  · rw [if_pos hc, if_pos hc]
    rfl
  · rw [if_neg hc, if_neg hc]
    rfl

/-! ## What a write leaves -/

@[simp] theorem history_newConfigMap (s : ConfigMapStore F) (blob : Bytes) : (s.newConfigMap blob).history = blob := by
  rw [ConfigMap.history, ConfigMapStore.newConfigMap, AList.lookup_insert]
  rfl

@[simp] theorem history_insert (cm : ConfigMap) (blob : Bytes) :
    ConfigMap.history { cm with binaryData := cm.binaryData.insert historyKey blob } = blob := by
  simp [ConfigMap.history]

theorem eq_of_clientCreate_ok {fault : Option ApiError} {server : Option ConfigMap} {cm cm' : ConfigMap}
    (h : clientCreate fault server cm = .ok cm') : cm' = cm := by
  unfold clientCreate at h
  split at h <;> cases h
  rfl

theorem eq_of_clientUpdate_ok {fault : Option ApiError} {server : Option ConfigMap} {cm cm' : ConfigMap}
    (h : clientUpdate fault server cm = .ok cm') : cm' = cm := by
  unfold clientUpdate at h
  split at h <;> cases h
  rfl

theorem clientGet_notFound {fault : Option ApiError} {server : Option ConfigMap}
    (h : clientGet fault server = .error .notFound) : fault = some .notFound ∨ server = none := by
  unfold clientGet at h
  split at h <;> cases h
  · exact .inl rfl
  · exact .inr rfl

theorem clientGet_ok {fault : Option ApiError} {server : Option ConfigMap} {cm : ConfigMap}
    (h : clientGet fault server = .ok cm) : server = some cm := by
  unfold clientGet at h
  split at h <;> cases h
  rfl

theorem clientCreate_alreadyExists {fault : Option ApiError} {cm : ConfigMap}
    (h : clientCreate fault none cm = .error .alreadyExists) : fault = some .alreadyExists := by
  cases fault with
  | none => cases h
  | some e => rw [Except.error.inj h]

/-- The API server neither denies an object that it holds nor claims one that it does not. -/
def TurnCalls.Honest (calls : TurnCalls) : Prop := calls.get ≠ some .notFound ∧ calls.create ≠ some .alreadyExists

instance (calls : TurnCalls) : Decidable calls.Honest := inferInstanceAs (Decidable (_ ∧ _))

/-- The server holds the blob. -/
def Holds (blob : Bytes) (server : Option ConfigMap) : Prop := ∃ cm, server = some cm ∧ cm.history = blob

theorem upsertTurn_ok {s : ConfigMapStore F} {calls : TurnCalls} {again : Option (Except String (Option ConfigMap))}
    {server server' : Option ConfigMap} {blob : Bytes} (h : s.upsertTurn calls again server blob = .ok server') :
    Holds blob server' ∨ (¬calls.Honest ∧ server' = server) ∨ again = some (.ok server') := by
  unfold ConfigMapStore.upsertTurn at h
  split at h
  · next hget =>
    split at h
    · next cm hcreate =>
      exact .inl ⟨cm, (Except.ok.inj h).symm, by rw [eq_of_clientCreate_ok hcreate, history_newConfigMap]⟩
    · next hcreate =>
      refine .inr (.inl ⟨?_, (Except.ok.inj h).symm⟩)
      -- an honest server would have found the object that stands in the way
      rintro ⟨hg, hc⟩
      rcases clientGet_notFound hget with hfault | rfl
      · exact hg hfault
      · exact hc (clientCreate_alreadyExists hcreate)
    · cases h
  · cases h
  · next cm hget =>
    split at h
    · next cm' hupdate =>
      exact .inl ⟨cm', (Except.ok.inj h).symm, by rw [eq_of_clientUpdate_ok hupdate, history_insert]⟩
    · exact .inr (.inr (by rw [h]))
    · cases h

/-- A flush that reports success wrote its blob, unless the server denied the object and then found it in the way. -/
theorem upsert_ok {s : ConfigMapStore F} {calls : UpsertCalls} {server server' : Option ConfigMap} {blob : Bytes}
    (h : s.upsert calls server blob = .ok server') :
    Holds blob server' ∨ ((¬calls.first.Honest ∨ ¬calls.again.Honest) ∧ server' = server) := by
  rcases upsertTurn_ok h with hw | ⟨hh, he⟩ | ha
  · exact .inl hw
  · exact .inr ⟨.inl hh, he⟩
  · rcases upsertTurn_ok (Option.some.inj ha) with hw | ⟨hh, he⟩ | hn
    · exact .inl hw
    · exact .inr ⟨.inr hh, he⟩
    · cases hn

theorem Holds.eq_of_decode {float64bits : F ≃ UInt64} {h : Bytes} {rs : List (Record F)} {server : Option ConfigMap}
    {cm : ConfigMap} {x : Bytes × List (Record F)} (hs : Holds (encodeHistory float64bits h rs) server)
    (hh : h.length < 2 ^ 16) (hrs : ∀ r ∈ rs, Int64Time r.sample.timestamp) (hcm : server = some cm)
    (hx : decodeHistory float64bits cm.history = .ok x) : x = (h, rs) := by
  obtain ⟨cm', hcm', hblob⟩ := hs
  obtain rfl : cm = cm' := Option.some.inj (hcm.symm.trans hcm')
  rw [hblob] at hx
  exact eq_of_decodeHistory_encodeHistory hh hrs hx

/-- A `Load` that succeeds found nothing, or took over what is persisted. -/
theorem load_ok {float64bits : F ≃ UInt64} {s s' : ConfigMapStore F} {get : Option ApiError}
    {server : Option ConfigMap} (h : s.load float64bits get server = .ok s') :
    ((get = some .notFound ∨ server = none) ∧ s' = s) ∨
      ∃ cm specHash records, server = some cm ∧ decodeHistory float64bits cm.history = .ok (specHash, records) ∧
        s' = { s with specHash := specHash, buf := s.buf.load records } := by
  unfold ConfigMapStore.load at h
  split at h
  · next hmiss => exact .inl ⟨clientGet_notFound hmiss, (Except.ok.inj h).symm⟩
  · cases h
  · next cm hcm =>
    split at h
    · cases h
    · next specHash records hdecode =>
      exact .inr ⟨cm, specHash, records, clientGet_ok hcm, hdecode, (Except.ok.inj h).symm⟩

end KynoMesh.History
