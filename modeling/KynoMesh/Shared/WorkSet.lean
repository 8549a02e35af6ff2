import KynoMesh.Lib.Dict
import KynoMesh.Lib.GoStd
import KynoMesh.Lib.Transition

/-!
# The WorkSet

`shared/workset/workset.go`: a set of keys, an assigner that goes round a snapshot of it, and workers that take the keys.
`Track` and `Forget` may come at any time.

* `State`, `Event`, `step` : the goroutines of `Start` and the calls of others;
* `pending`, `advances_step` : the keys of the current cycle that are still to be handed out. A step that is no refresh
  hands out the first of them or leaves them, unless the assigner stops;
* `Cycle`, `dispatched_of_cycle` : from one refresh to the next, the keys of the snapshot are handed out in its order;
* `assigner_fair` : each key of the snapshot once, and none that is forgotten before it.
-/

namespace KynoMesh.WorkSet
open KynoMesh.Lib

variable {T : Type}

/-! ## The goroutines -/

structure Options where
  workers : Int := 20
  taskInterval : Int := 60 * second

/-- A worker goroutine. -/
inductive Worker (T : Type) where
  | idle
  /-- In `process`, with a key from the channel. -/
  | busy (key : T)
  | stopped
  deriving DecidableEq

/-- Where the loop of `Start` is. -/
inductive Assigner (T : Type) where
  | top
  /-- At the `select`, with a key for the channel. -/
  | send (key : T)
  | sleep (d : Int)
  | stopped
  deriving DecidableEq

structure State (T : Type) where
  keys : Dict T Unit := ∅
  batch : List T := []
  idx : Nat := 0
  assigner : Assigner T := .top
  workers : List (Worker T)
  cancelled : Bool := false
  /-- The keys that workers took from the channel. A worker calls `process` once for each that it takes. -/
  dispatched : List T := []

def newWorkSet (opts : Options) : State T := { workers := List.replicate opts.workers.toNat .idle }

inductive Event (T : Type) where
  | track (key : T)
  | forget (key : T)
  /-- The context is cancelled. -/
  | cancel
  /-- The top of the loop, at the end of the batch. -/
  | refresh (order : RangeOrder (Σ _ : T, Unit))
  /-- The top of the loop, within the batch. -/
  | next
  /-- The assigner hands its key to a worker. -/
  | dispatch (worker : Nat)
  | awake
  | stop
  /-- `process` returns. -/
  | processed (worker : Nat)
  | stopWorker (worker : Nat)

def Event.isRefresh : Event T → Bool
  | .refresh _ => true
  | _ => false

/-- `Snapshot`. -/
def snapshot (order : RangeOrder (Σ _ : T, Unit)) (keys : Dict T Unit) : List T :=
  (order.visit keys.entries).map Sigma.fst

theorem mem_snapshot {order : RangeOrder (Σ _ : T, Unit)} {keys : Dict T Unit} {k : T} :
    k ∈ snapshot order keys ↔ k ∈ keys :=
  ((order.perm keys.entries).map Sigma.fst).mem_iff.trans AList.mem_keys.symm

theorem nodup_snapshot (order : RangeOrder (Σ _ : T, Unit)) (keys : Dict T Unit) : (snapshot order keys).Nodup :=
  nodup_visit order keys

/-- How long `sleep` waits. -/
def sleepTime (d : Int) : Int := if d ≤ 0 then 10 ^ 6 else d

/-- The loop from the refresh on to its first wait; `none` for an index out of range. -/
def pick (opts : Options) (σ : State T) : Option (State T) :=
  if σ.batch.length = 0 then some { σ with assigner := .sleep (sleepTime opts.taskInterval) }
  else (σ.batch[σ.idx]?).map fun k => { σ with assigner := .send k, idx := σ.idx + 1 }

/-- The keys of the cycle that are still to be handed out. -/
def pending (σ : State T) : List T :=
  match σ.assigner with
  | .send key => key :: σ.batch.drop σ.idx
  | .top | .sleep _ => σ.batch.drop σ.idx
  | .stopped => []

/-- The loop goes on to its next wait, and nothing is lost of the batch. -/
theorem pick_eq_some {opts : Options} {σ σ' : State T} (h : pick opts σ = some σ') :
    pending σ' = σ.batch.drop σ.idx ∧ σ'.keys = σ.keys ∧ σ'.dispatched = σ.dispatched := by
  unfold pick at h
  split_ifs at h with hempty
  · obtain rfl := Option.some.inj h
    exact ⟨rfl, rfl, rfl⟩
  · obtain ⟨key, hkey, rfl⟩ := Option.map_eq_some_iff.mp h
    obtain ⟨hlt, rfl⟩ := List.getElem?_eq_some_iff.mp hkey
    exact ⟨(List.drop_eq_getElem_cons hlt).symm, rfl, rfl⟩

variable [DecidableEq T]

/-- One event; `none` when it is not enabled. -/
def step (opts : Options) (σ : State T) : Event T → Option (State T)
  | .track key => some { σ with keys := σ.keys.insert key () }
  | .forget key => some { σ with keys := σ.keys.erase key }
  | .cancel => some { σ with cancelled := true }
  | .refresh order =>
    if σ.assigner = .top ∧ σ.idx ≥ σ.batch.length then pick opts { σ with batch := snapshot order σ.keys, idx := 0 }
    else none
  | .next => if σ.assigner = .top ∧ σ.idx < σ.batch.length then pick opts σ else none
  | .dispatch worker =>
    match σ.assigner, σ.workers[worker]? with
    | .send key, some .idle =>
      some { σ with
        assigner := .sleep (sleepTime (opts.taskInterval.tdiv σ.batch.length))
        workers := σ.workers.set worker (.busy key)
        dispatched := σ.dispatched ++ [key] }
    | _, _ => none
  | .awake =>
    match σ.assigner with
    | .sleep _ => some { σ with assigner := .top }
    | _ => none
  | .stop =>
    match σ.assigner with
    | .send _ | .sleep _ => if σ.cancelled then some { σ with assigner := .stopped } else none
    | _ => none
  | .processed worker =>
    match σ.workers[worker]? with
    | some (.busy _) => some { σ with workers := σ.workers.set worker .idle }
    | _ => none
  | .stopWorker worker =>
    match σ.workers[worker]? with
    | some .idle => if σ.cancelled then some { σ with workers := σ.workers.set worker .stopped } else none
    | _ => none

/-- The top of the loop never indexes past the batch: it refreshes or goes on. -/
theorem exists_step_of_top (opts : Options) {σ : State T} (htop : σ.assigner = .top)
    (order : RangeOrder (Σ _ : T, Unit)) :
    (step opts σ (.refresh order)).isSome ∨ (step opts σ .next).isSome := by
  have hpick : ∀ σ' : State T, σ'.idx < σ'.batch.length ∨ σ'.batch.length = 0 → (pick opts σ').isSome := by
    intro σ' hσ'
    unfold pick
    split_ifs with hempty
    · rfl
    · rw [Option.isSome_map, List.getElem?_eq_getElem (hσ'.resolve_right hempty)]
      rfl
  by_cases hidx : σ.idx < σ.batch.length
  · right
    simp only [step, htop, hidx, and_self, if_true]
    exact hpick σ (.inl hidx)
  · left
    simp only [step, htop, Nat.le_of_not_lt hidx, and_self, if_true]
    exact hpick _ (Nat.eq_zero_or_pos _).symm

/-! ## One step -/

section
variable {opts : Options} {σ σ' τ : State T} {e : Event T} {order : RangeOrder (Σ _ : T, Unit)} {k : T}

/-- A refresh comes when all keys of the cycle are handed out, and starts the next one. -/
theorem step_refresh (h : step opts σ (.refresh order) = some σ') :
    σ.assigner = .top ∧ pending σ = [] ∧
      pending σ' = snapshot order σ.keys ∧ σ'.keys = σ.keys ∧ σ'.dispatched = σ.dispatched := by
  simp only [step] at h
  split_ifs at h with htop
  refine ⟨htop.1, ?_, pick_eq_some h⟩
  simp only [pending, htop.1]
  exact List.drop_eq_nil_iff.mpr htop.2

/-- The assigner stops, or what is handed out comes off the front of the pending keys. -/
def Advances (σ σ' : State T) : Prop :=
  (σ'.assigner = .stopped ∧ σ'.dispatched = σ.dispatched) ∨
    (σ.assigner ≠ .stopped ∧ ∃ handed, σ'.dispatched = σ.dispatched ++ handed ∧ pending σ = handed ++ pending σ')

omit [DecidableEq T] in
theorem advances_of_same (hassigner : σ'.assigner = σ.assigner) (hbatch : σ'.batch = σ.batch)
    (hidx : σ'.idx = σ.idx) (hdispatched : σ'.dispatched = σ.dispatched) : Advances σ σ' := by
  by_cases hstopped : σ.assigner = .stopped
  · exact .inl ⟨hassigner.trans hstopped, hdispatched⟩
  · refine .inr ⟨hstopped, [], by simpa using hdispatched, ?_⟩
    unfold pending
    rw [hassigner, hbatch, hidx, List.nil_append]

/-- **A step within a cycle** hands out the first of the pending keys, or none. -/
theorem advances_step (h : step opts σ e = some σ') (he : e.isRefresh = false) : Advances σ σ' := by
  cases e with
  | track key | forget key | cancel =>
    obtain rfl := Option.some.inj h
    exact advances_of_same rfl rfl rfl rfl
  | refresh order => cases he
  | next =>
    simp only [step] at h
    split_ifs at h with htop
    obtain ⟨hpending, -, hdispatched⟩ := pick_eq_some h
    refine .inr ⟨by simp [htop.1], [], by simpa using hdispatched, ?_⟩
    rw [hpending]
    simp only [pending, htop.1, List.nil_append]
  | dispatch worker =>
    simp only [step] at h
    split at h
    next key hsend hidle =>
      obtain rfl := Option.some.inj h
      refine .inr ⟨by simp [hsend], [key], rfl, ?_⟩
      simp only [pending, hsend, List.singleton_append]
    next => cases h
  | awake =>
    simp only [step] at h
    split at h
    next d hsleep =>
      obtain rfl := Option.some.inj h
      refine .inr ⟨by simp [hsleep], [], (List.append_nil _).symm, ?_⟩
      simp only [pending, hsleep, List.nil_append]
    next => cases h
  | stop =>
    simp only [step] at h
    split at h
    case h_3 => cases h
    all_goals
      split_ifs at h
      obtain rfl := Option.some.inj h
      exact .inl ⟨rfl, rfl⟩
  | processed worker =>
    simp only [step] at h
    split at h
    next =>
      obtain rfl := Option.some.inj h
      exact advances_of_same rfl rfl rfl rfl
    next => cases h
  | stopWorker worker =>
    simp only [step] at h
    split at h
    next =>
      split_ifs at h
      obtain rfl := Option.some.inj h
      exact advances_of_same rfl rfl rfl rfl
    next => cases h

/-- `Track` and `Forget` are all that writes the set. -/
theorem keys_step (h : step opts σ e = some σ') :
    σ'.keys = match e with
      | .track key => σ.keys.insert key ()
      | .forget key => σ.keys.erase key
      | _ => σ.keys := by
  cases e with
  | track key | forget key | cancel => exact Option.some.inj h ▸ rfl
  | refresh order => exact (step_refresh h).2.2.2.1
  | next =>
    simp only [step] at h
    split_ifs at h
    exact (pick_eq_some h).2.1
  | dispatch worker | awake | stop | processed worker | stopWorker worker =>
    simp only [step] at h
    split at h <;> grind

theorem not_mem_keys_step (h : step opts σ e = some σ') (hk : k ∉ σ.keys) (he : e ≠ .track k) : k ∉ σ'.keys := by
  rw [keys_step h]
  cases e with
  | track key =>
    have hne : k ≠ key := fun heq => he (heq ▸ rfl)
    exact fun hmem => ((AList.mem_insert _).mp hmem).elim hne hk
  | forget key => exact fun hmem => hk (AList.mem_erase.mp hmem).2
  | _ => exact hk

theorem mem_keys_step (h : step opts σ e = some σ') (hk : k ∈ σ.keys) (he : e ≠ .forget k) : k ∈ σ'.keys := by
  rw [keys_step h]
  cases e with
  | track key => exact (AList.mem_insert _).mpr (.inr hk)
  | forget key => exact AList.mem_erase.mpr ⟨fun heq => he (heq ▸ rfl), hk⟩
  | _ => exact hk

/-! ## Cycles -/

/-- A run from the refresh at `σ` to the next one, which comes at `τ`. -/
structure Cycle (opts : Options) (σ : State T) (order : RangeOrder (Σ _ : T, Unit)) (during : List (Event T))
    (τ : State T) : Prop where
  replay : run (step opts) σ (.refresh order :: during) = some τ
  within : ∀ e ∈ during, e.isRefresh = false
  next : ∃ order' τ', step opts τ (.refresh order') = some τ'

/-- The keys handed out from `σ` to `τ`. -/
def dispatchedSince (σ τ : State T) : List T := τ.dispatched.drop σ.dispatched.length

/-- `k` is in the set at every moment of the run. -/
def TrackedThroughout (opts : Options) (σ : State T) (es : List (Event T)) (k : T) : Prop :=
  ∀ first rest s, es = first ++ rest → run (step opts) σ first = some s → k ∈ s.keys

variable {during after : List (Event T)}

theorem mem_keys_after_track (hrun : run (step opts) σ (.track k :: after) = some τ)
    (hforget : ∀ e ∈ after, e ≠ .forget k) : k ∈ τ.keys := by
  obtain ⟨σ', htrack, hrun⟩ := run_cons.mp hrun
  obtain rfl := Option.some.inj htrack
  exact run_invariant_of_events (I := fun s => k ∈ s.keys) (fun _ _ _ hk he hse => mem_keys_step hse hk he)
    ((AList.mem_insert _).mpr (.inl rfl)) hforget hrun

/-- The cycle hands out its snapshot, in order. -/
theorem dispatched_of_cycle (h : Cycle opts σ order during τ) :
    τ.dispatched = σ.dispatched ++ snapshot order σ.keys := by
  obtain ⟨σ', hrefresh, hrun⟩ := run_cons.mp h.replay
  obtain ⟨-, -, hpending, -, hdispatched⟩ := step_refresh hrefresh
  -- what is handed out and what is pending stays the snapshot, up to the end of the assigner
  have hinv : τ.assigner = .stopped ∨ τ.dispatched ++ pending τ = σ.dispatched ++ snapshot order σ.keys := by
    refine run_invariant_of_events
      (I := fun s => s.assigner = .stopped ∨ s.dispatched ++ pending s = σ.dispatched ++ snapshot order σ.keys)
      ?_ (.inr ?_) h.within hrun
    · intro s e s' hs he hse
      rcases advances_step hse he with ⟨hstopped, -⟩ | ⟨hlive, handed, hdispatched', hpending'⟩
      · exact .inl hstopped
      · right
        rw [← hs.resolve_left hlive, hdispatched', hpending', List.append_assoc]
    · rw [hpending, hdispatched]
  obtain ⟨order', τ', hnext⟩ := h.next
  obtain ⟨htop, hempty, -⟩ := step_refresh hnext
  have hall := hinv.resolve_left (by simp [htop])
  rwa [hempty, List.append_nil] at hall

/-- A key that is neither in the set nor pending is not handed out before it is tracked. -/
theorem not_mem_dispatchedSince (hkeys : k ∉ σ.keys) (hpending : k ∉ pending σ) (htrack : ∀ e ∈ after, e ≠ .track k)
    (hrun : run (step opts) σ after = some τ) : k ∉ dispatchedSince σ τ := by
  have hinv : k ∉ τ.keys ∧ k ∉ pending τ ∧ k ∉ dispatchedSince σ τ := by
    refine run_invariant_of_events (I := fun s => k ∉ s.keys ∧ k ∉ pending s ∧ k ∉ dispatchedSince σ s)
      ?_ ⟨hkeys, hpending, ?_⟩ htrack hrun
    · rintro s e s' ⟨hk, hp, hd⟩ he hse
      refine ⟨not_mem_keys_step hse hk he, ?_⟩
      cases hrefresh : e.isRefresh with
      | true =>
        cases e with
        | refresh order =>
          obtain ⟨-, -, hpending', -, hdispatched⟩ := step_refresh hse
          rw [hpending', mem_snapshot, dispatchedSince, hdispatched]
          exact ⟨hk, hd⟩
        | _ => cases hrefresh
      | false =>
        rcases advances_step hse hrefresh with ⟨hstopped, hdispatched⟩ | ⟨-, handed, hdispatched, hpending'⟩
        · rw [dispatchedSince, hdispatched]
          exact ⟨by simp [pending, hstopped], hd⟩
        · rw [hpending', List.mem_append, not_or] at hp
          refine ⟨hp.2, ?_⟩
          rw [dispatchedSince, hdispatched, List.drop_append, List.mem_append, not_or]
          exact ⟨hd, fun hmem => hp.1 (List.mem_of_mem_drop hmem)⟩
    · simp [dispatchedSince]
  exact hinv.2.2

/-- **The assigner is fair.** Between two refreshes each key of the snapshot is handed out once and no other is, so a
key that is tracked all along is processed once, and so is a key in the cycle after its `Track`, without a `Forget`
before it. After a forgotten key's next refresh it is not handed out until it is tracked again. -/
theorem assigner_fair (opts : Options) :
    (∀ (σ τ : State T) order during, Cycle opts σ order during τ →
      (∀ k, (dispatchedSince σ τ).count k = if k ∈ σ.keys then 1 else 0) ∧
        ∀ k, TrackedThroughout opts σ (.refresh order :: during) k → (dispatchedSince σ τ).count k = 1) ∧
      (∀ (σ σ' τ : State T) k before order during, run (step opts) σ (.track k :: before) = some σ' →
        (∀ e ∈ before, e ≠ .forget k) → Cycle opts σ' order during τ → (dispatchedSince σ' τ).count k = 1) ∧
      ∀ (σ σ' τ : State T) k before order after,
        run (step opts) σ (.forget k :: before ++ [.refresh order]) = some σ' → run (step opts) σ' after = some τ →
          (∀ e ∈ before ++ after, e ≠ .track k) → k ∉ dispatchedSince σ' τ := by
  have hcount : ∀ {σ τ : State T} {order during}, Cycle opts σ order during τ →
      ∀ k, (dispatchedSince σ τ).count k = if k ∈ σ.keys then 1 else 0 := by
    intro σ τ order during hcycle k
    rw [dispatchedSince, dispatched_of_cycle hcycle, List.drop_left, (nodup_snapshot order σ.keys).count]
    exact if_congr mem_snapshot rfl rfl
  refine ⟨fun σ τ order during hcycle => ⟨hcount hcycle, fun k htracked => ?_⟩,
    fun σ σ' τ k before order during hrun hforget hcycle => ?_,
    fun σ σ' τ k before order after hbefore hafter htrack => ?_⟩
  · rw [hcount hcycle, if_pos (htracked [] _ σ rfl rfl)]
  · rw [hcount hcycle, if_pos (mem_keys_after_track hrun hforget)]
  · rw [List.forall_mem_append] at htrack
    obtain ⟨s, hfirst, hlast⟩ := run_append.mp hbefore
    obtain ⟨σ₁, hforget, hrun⟩ := run_cons.mp hfirst
    obtain ⟨s', hrefresh, hnil⟩ := run_cons.mp hlast
    obtain rfl := Option.some.inj hnil
    have hforgotten : k ∉ σ₁.keys := by
      obtain rfl := Option.some.inj hforget
      exact fun hmem => (AList.mem_erase.mp hmem).1 rfl
    have hk : k ∉ s.keys :=
      run_invariant_of_events (I := fun s => k ∉ s.keys) (fun _ _ _ hk he hse => not_mem_keys_step hse hk he)
        hforgotten htrack.1 hrun
    obtain ⟨-, -, hpending, hkeys, -⟩ := step_refresh hrefresh
    refine not_mem_dispatchedSince (hkeys ▸ hk) ?_ htrack.2 hafter
    rw [hpending, mem_snapshot]
    exact hk

def oneWorker : Options where
  workers := 1

/-- A cycle over two keys, the second of which is forgotten on the way. -/
def forgetSecond : List (Event Nat) :=
  [.dispatch 0, .forget 2, .processed 0, .awake, .next, .dispatch 0, .processed 0, .awake]

theorem assigner_fair_two_keys : ∃ σ, run (step oneWorker) (newWorkSet oneWorker) [.track 1, .track 2] = some σ ∧
    (∃ τ, Cycle oneWorker σ .listed forgetSecond τ ∧
      (dispatchedSince σ τ).count 1 = 1 ∧ (dispatchedSince σ τ).count 2 = 1) ∧
    ∃ σ' τ, run (step oneWorker) σ [.forget 2, .refresh .listed] = some σ' ∧
      run (step oneWorker) σ' [.dispatch 0, .processed 0, .awake, .refresh .listed] = some τ ∧
      2 ∉ dispatchedSince σ' τ := by
  obtain ⟨hcycle, htrack, hforget⟩ := assigner_fair (T := Nat) oneWorker
  obtain ⟨σ, hstart⟩ : ∃ σ : State Nat, run (step oneWorker) (newWorkSet oneWorker) [.track 1, .track 2] = some σ :=
    ⟨_, rfl⟩
  have hσ := Option.some.inj hstart.symm
  have hreplay : ∃ τ, Cycle oneWorker σ .listed forgetSecond τ := by
    rw [hσ]
    exact ⟨_, rfl, by decide, .listed, _, rfl⟩
  obtain ⟨τ₁, hreplay⟩ := hreplay
  obtain ⟨τ, hrun⟩ : ∃ τ, run (step oneWorker) σ
      ([.forget 2, .refresh .listed] ++ [.dispatch 0, .processed 0, .awake, .refresh .listed]) = some τ := by
    rw [hσ]
    exact Option.isSome_iff_exists.mp (by decide)
  obtain ⟨σ', hbefore, hafter⟩ := run_append.mp hrun
  refine ⟨σ, hstart, ⟨τ₁, hreplay, htrack _ σ τ₁ 1 [.track 2] _ _ hstart (by simp) hreplay, ?_⟩,
    σ', τ, hbefore, hafter, hforget σ σ' τ 2 [] .listed _ hbefore hafter (by simp)⟩
  rw [(hcycle σ τ₁ _ _ hreplay).1, if_pos]
  rw [hσ]
  decide

end

end KynoMesh.WorkSet
