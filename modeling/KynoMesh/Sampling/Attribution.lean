import KynoMesh.Pods.World
import KynoMesh.Sampling.Collector

/-!
# Samples and the pod spec they are recorded under

The sampler reads the persisted AgentDeploy, asks the daemon and records the sample under `Status.UpdateHash`
(`sampleKey` in `sampler.go`), between the edits of the spec, the passes of the controller and the changes of the pods.

* `Measured` : the AgentDeploy with its pods, the executions of `sampleKey` under way and the samples recorded;
* `Counted` : what the counters of the status say about the live pods, in every run;
* `attributed_of_settled` : a sample recorded while the status counts all live pods as updated is attributed to the
  hash of every live Ready pod.
-/

namespace KynoMesh.Sampling
open KynoMesh.Lib KynoMesh.Api KynoMesh.Pods KynoMesh.Rater KynoMesh.History

variable {F : Type}

structure Measured (F : Type) where
  world : World
  /-- The executions of `sampleKey` under way, each with the AgentDeploy that it has read. -/
  reads : List AgentDeploy := []
  recorded : List (Sample F × String) := []

inductive Event (F : Type) where
  | edit (spec : AgentDeploySpec)
  | pass (inp : PassInput)
  /-- A pod becomes Ready, or stops being Ready. -/
  | conditions (name : String) (conditions : List PodCondition)
  | terminate (name : String)
  | vanish (name : String)
  /-- An execution of `sampleKey` begins: its `Get`. -/
  | get
  /-- The rest of the execution `i`, with the daemon's answer. -/
  | finish (i : Nat) (answer : Except Status (AgentDeployMetrics F)) (now lookback : Int)

section
variable [Div F] [IntCast F]

/-- What `sampleKey` records: a usable sample, under the `UpdateHash` of the AgentDeploy that it has read. -/
def sampleKey (answer : Except Status (AgentDeployMetrics F)) (ad : AgentDeploy) (now lookback : Int) :
    List (Sample F × String) :=
  match collectSample answer ad now lookback with
  | .ok (some sample) => [(sample, ad.status.updateHash)]
  | _ => []

def step (r : Reconciler) (σ : Measured F) : Event F → Option (Measured F)
  | .edit spec => some { σ with world := { σ.world with ad := { σ.world.ad with spec := spec } } }
  | .pass inp =>
    match reconcile r inp σ.world.ad σ.world.store with
    | .ok (ad, st) => some { σ with world := ⟨ad, st⟩ }
    | .error _ => none
  | .conditions name conditions =>
    some { σ with world := { σ.world with store := σ.world.store.setConditions name conditions } }
  | .terminate name => some { σ with world := { σ.world with store := σ.world.store.delete name } }
  | .vanish name => some { σ with world := { σ.world with store := σ.world.store.vanish name } }
  | .get => some { σ with reads := σ.reads ++ [σ.world.ad] }
  | .finish i answer now lookback =>
    match σ.reads[i]? with
    | none => none
    | some ad => some { σ with
        reads := σ.reads.eraseIdx i
        recorded := σ.recorded ++ sampleKey answer ad now lookback }

end

/-- Every sample that the step records carries the hash of every live Ready pod. -/
def Attributed (σ : Measured F) (_ : Event F) (σ' : Measured F) : Prop :=
  ∀ call ∈ σ'.recorded.drop σ.recorded.length, ∀ p ∈ σ.world.store.pods,
    p.terminating = false → podReady p = true → p.hash = call.2

/-- A step that records does so with the persisted `UpdateHash`, while the persisted status counts every live pod as
updated. -/
def Settled (σ : Measured F) : Event F → Measured F → Prop
  | .finish i _ _ _, σ' => σ'.recorded = σ.recorded ∨
    (∀ ad, σ.reads[i]? = some ad → ad.status.updateHash = σ.world.ad.status.updateHash) ∧
      σ.world.ad.status.updatedReplicas = σ.world.ad.status.replicas
  | _, _ => True

/-! ## The counters -/

/-- A slot has one live pod at most, and where the counters agree, every live pod is on `UpdateHash`. -/
structure Counted (w : World) : Prop where
  one : ∀ k, (w.fleet k).length ≤ 1
  onHash : w.ad.status.updatedReplicas = w.ad.status.replicas → ∀ k, ∀ p ∈ w.fleet k, p.hash = w.ad.status.updateHash

/-- Live pods have gone at most. -/
structure Fewer (F F' : Fleet) : Prop where
  length : ∀ k, (F' k).length ≤ (F k).length
  hash : ∀ k, ∀ p ∈ F' k, ∃ q ∈ F k, q.hash = p.hash

theorem Counted.fewer {w w' : World} (h : Counted w) (hstatus : w'.ad.status = w.ad.status)
    (hf : Fewer w.fleet w'.fleet) : Counted w' where
  one k := (hf.length k).trans (h.one k)
  onHash := by
    rw [hstatus]
    intro heq k p hp
    obtain ⟨q, hq, hqp⟩ := hf.hash k p hp
    rw [← hqp]
    exact h.onHash heq k q hq

theorem fewer_refl (F : Fleet) : Fewer F F := ⟨fun _ => le_refl _, fun _ p hp => ⟨p, hp, rfl⟩⟩

theorem fewer_setConditions (st : PodStore) (name : String) (conditions : List PodCondition) :
    Fewer (fleet st) (fleet (st.setConditions name conditions)) where
  length k := by rw [World.fleet_setConditions, List.length_map]
  hash k p hp := by
    rw [World.fleet_setConditions] at hp
    obtain ⟨q, hq, rfl⟩ := List.mem_map.mp hp
    refine ⟨q, hq, ?_⟩
    split_ifs <;> rfl

theorem fewer_delete (st : PodStore) (name : String) : Fewer (fleet st) (fleet (st.delete name)) := by
  have hfleet := ((Patched.refl st).delete (n := name) (by simp)).fleet (by simp)
  simp only [List.filter_nil, List.append_nil] at hfleet
  refine ⟨fun k => ?_, fun k p hp => ?_⟩
  · rw [hfleet]
    exact List.length_filter_le _ _
  · rw [hfleet] at hp
    exact ⟨p, (List.mem_filter.mp hp).1, rfl⟩

/-- A pass leaves one live pod to a slot at most, and no more live pods than slots. -/
theorem length_live_after {r : Reconciler} {inp : PassInput} {ad : AgentDeploy} {st st' : PodStore}
    {s' : AgentDeployStatus} (hone : ∀ k, (fleet st k).length ≤ 1) (hok : reconcilePods r inp ad st = .ok (s', st')) :
    (∀ k, (fleet st' k).length ≤ 1) ∧ (st'.pods.filter Pod.live).length < 2 ^ 31 := by
  have hfleet := (reconcilePods_refines hok).2
  have hone' : ∀ k, (fleet st' k).length ≤ 1 := fun k => by
    rw [hfleet]
    exact Fleet.pass_length_le hone _ _ _ _ k
  refine ⟨hone', (length_live_le hone' fun k hk => ?_).trans_lt (window_lt ad)⟩
  rw [hfleet, Fleet.pass_outside _ _ _ _ _ hk]

theorem counted_reconcile {r : Reconciler} {inp : PassInput} {w : World} {ad : AgentDeploy} {st : PodStore}
    (h : Counted w) (hok : reconcile r inp w.ad w.store = .ok (ad, st)) : Counted ⟨ad, st⟩ := by
  obtain ⟨s, hpods, rfl⟩ := reconcilePods_of_reconcile hok
  obtain ⟨hone, hlive⟩ := length_live_after h.one hpods
  refine ⟨hone, fun heq k p hp => ?_⟩
  obtain ⟨hrep, hupd⟩ := closeStatus_counts inp.now w.ad s st.pods
  change (closeStatus inp.now w.ad s st.pods).updatedReplicas = (closeStatus inp.now w.ad s st.pods).replicas at heq
  rw [hrep, hupd] at heq
  have hle := List.length_filter_le (fun p : Pod => p.hash == s.updateHash) (st.pods.filter Pod.live)
  have hlen : ((st.pods.filter Pod.live).filter fun p => p.hash == s.updateHash).length =
      (st.pods.filter Pod.live).length := by
    have hnat := congrArg UInt32.toNat heq
    rwa [UInt32.toNat_ofNat_of_lt' (by simp only [UInt32.size]; omega),
      UInt32.toNat_ofNat_of_lt' (by simp only [UInt32.size]; omega)] at hnat
  obtain ⟨hmem, ht, -⟩ := mem_fleet.mp hp
  have hhash := List.length_filter_eq_length_iff.mp hlen p (List.mem_filter.mpr ⟨hmem, by simp [Pod.live, ht]⟩)
  change p.hash = (closeStatus inp.now w.ad s st.pods).updateHash
  rw [(closeStatus_fields inp.now w.ad s st.pods).1]
  exact beq_iff_eq.mp hhash

/-! ## Runs -/

section
variable [Div F] [IntCast F] {r : Reconciler} {σ σ' : Measured F} {e : Event F}

theorem step_pass {inp : PassInput} (hs : step r σ (.pass inp) = some σ') :
    ∃ ad st, reconcile r inp σ.world.ad σ.world.store = .ok (ad, st) ∧ σ' = { σ with world := ⟨ad, st⟩ } := by
  simp only [step] at hs
  cases hok : reconcile r inp σ.world.ad σ.world.store with
  | error e => simp [hok] at hs
  | ok x =>
    simp only [hok, Option.some.injEq] at hs
    exact ⟨x.1, x.2, rfl, hs.symm⟩

theorem step_finish {i : Nat} {answer : Except Status (AgentDeployMetrics F)} {now lookback : Int}
    (hs : step r σ (.finish i answer now lookback) = some σ') :
    ∃ ad, σ.reads[i]? = some ad ∧
      σ' = { σ with reads := σ.reads.eraseIdx i, recorded := σ.recorded ++ sampleKey answer ad now lookback } := by
  simp only [step] at hs
  cases hr : σ.reads[i]? with
  | none => simp [hr] at hs
  | some ad =>
    simp only [hr, Option.some.injEq] at hs
    exact ⟨ad, rfl, hs.symm⟩

theorem counted_step (h : Counted σ.world) (hs : step r σ e = some σ') : Counted σ'.world := by
  cases e with
  | edit spec =>
    cases hs
    exact h.fewer rfl (fewer_refl _)
  | pass inp =>
    obtain ⟨ad, st, hok, rfl⟩ := step_pass hs
    exact counted_reconcile h hok
  | conditions name conditions =>
    cases hs
    exact h.fewer rfl (fewer_setConditions _ _ _)
  | terminate name =>
    cases hs
    exact h.fewer rfl (fewer_delete _ _)
  | vanish name =>
    cases hs
    refine h.fewer rfl ?_
    rw [World.fleet, World.fleet, World.fleet_vanish]
    exact fewer_refl _
  | get =>
    cases hs
    exact h
  | finish i answer now lookback =>
    obtain ⟨ad, -, rfl⟩ := step_finish hs
    exact h

theorem mem_sampleKey {answer : Except Status (AgentDeployMetrics F)} {ad : AgentDeploy} {now lookback : Int}
    {call : Sample F × String} (h : call ∈ sampleKey answer ad now lookback) : call.2 = ad.status.updateHash := by
  unfold sampleKey at h
  split at h
  · rw [List.mem_singleton.mp h]
  · cases h

/-- A step records nothing, or what an execution of `sampleKey` that has read `ad` makes of the answer. -/
theorem recorded_step (hs : step r σ e = some σ') : σ'.recorded = σ.recorded ∨
    ∃ i answer now lookback ad, e = .finish i answer now lookback ∧ σ.reads[i]? = some ad ∧
      σ'.recorded = σ.recorded ++ sampleKey answer ad now lookback := by
  cases e with
  | pass inp =>
    obtain ⟨ad, st, -, rfl⟩ := step_pass hs
    exact .inl rfl
  | finish i answer now lookback =>
    obtain ⟨ad, hr, rfl⟩ := step_finish hs
    exact .inr ⟨i, answer, now, lookback, ad, rfl, hr, rfl⟩
  | _ =>
    cases hs
    exact .inl rfl

theorem attributed_step (h : Counted σ.world) (hs : step r σ e = some σ') (hsettled : Settled σ e σ') :
    Attributed σ e σ' := by
  intro call hcall p hp hlive _
  rcases recorded_step hs with hsame | ⟨i, answer, now, lookback, ad, rfl, hread, hrec⟩
  · simp [hsame] at hcall
  · rcases hsettled with hsame | ⟨hhash, hcounts⟩
    · simp [hsame] at hcall
    · rw [hrec, List.drop_left] at hcall
      rw [mem_sampleKey hcall, hhash ad hread]
      exact h.onHash hcounts p.slot p (mem_fleet.mpr ⟨hp, hlive, rfl⟩)

end

/-- A fresh AgentDeploy, before any sample. -/
def unmeasured (metadata : ObjectMeta) (spec : AgentDeploySpec) : Measured F := { world := World.fresh metadata spec }

/-- **Attribution.** In every run from a fresh AgentDeploy, a sample that is recorded while the persisted status counts
every live pod as updated, under the persisted `UpdateHash`, carries the hash of every live Ready pod. -/
theorem attributed_of_settled [Div F] [IntCast F] (r : Reconciler) (metadata : ObjectMeta) (spec : AgentDeploySpec)
    (es : List (Event F)) :
    EachStep (step r) (fun σ e σ' => Settled σ e σ' → Attributed σ e σ') (unmeasured metadata spec) es := by
  refine eachStep_of_invariant (I := fun σ => Counted σ.world)
    (fun σ e σ' h hs => ⟨counted_step h hs, attributed_step h hs⟩) ?_
  exact ⟨fun k => Nat.zero_le 1, fun _ k p hp => nomatch hp⟩

instance (σ : Measured F) (e : Event F) (σ' : Measured F) : Decidable (Attributed σ e σ') := by
  unfold Attributed
  infer_instance

instance [DecidableEq F] (σ : Measured F) (e : Event F) (σ' : Measured F) : Decidable (Settled σ e σ') := by
  unfold Settled
  split <;> infer_instance

/-- The daemon has two requests in flight, one a second. -/
def busyAnswer : Except Status (AgentDeployMetrics ℚ) :=
  .ok
    { agentSet := "mesh"
      agentDeploy := "planner"
      processingRates := AList.insert windowKey1m (some 1) ∅
      streamMessageRates := ∅
      inflights := AList.insert windowKey1m (some 2) ∅
      byTransport := ∅
      customWindowEffectiveSeconds := none }

def ready (name : String) : Event ℚ := .conditions name [⟨"Ready", .true⟩]

def passTailed (tail : String) : Event ℚ := .pass { now := 0, suffix := fun _ => tail }

/-- Image `b` replaces image `a` on slot `0`; the sample of the pod of image `a` in slot `1` is recorded under `b`. -/
theorem sample_of_old_image_recorded :
    ¬EachStep (step imageReconciler) Attributed (unmeasured plannerMeta (imageSpec "a" 2))
      [passTailed "1", ready "planner-0-1", ready "planner-1-1", passTailed "2", .edit (imageSpec "b" 2),
        passTailed "3", .get, .finish 0 busyAnswer 0 0] := by
  decide +kernel

/-- One image on both slots: the sample is recorded, and attributed to it. -/
theorem attributed_of_settled_oneImage :
    EachStep (step imageReconciler) Settled (unmeasured plannerMeta (imageSpec "a" 2))
        [passTailed "1", ready "planner-0-1", ready "planner-1-1", passTailed "2", .get, .finish 0 busyAnswer 0 0] ∧
      EachStep (step imageReconciler) (fun σ e σ' => Settled σ e σ' → Attributed σ e σ')
        (unmeasured plannerMeta (imageSpec "a" 2))
        [passTailed "1", ready "planner-0-1", ready "planner-1-1", passTailed "2", .get, .finish 0 busyAnswer 0 0] :=
  ⟨by decide +kernel, attributed_of_settled imageReconciler plannerMeta (imageSpec "a" 2) _⟩

end KynoMesh.Sampling
