import Mathlib.Algebra.Order.BigOperators.Group.Finset
import KynoMesh.Lib.Transition
import KynoMesh.Scaling.Autoscaler
import KynoMesh.Shared.Discovery

/-!
# The fleet rate limit

`pkg/broker/ratelimit`: every broker of an AgentDeploy admits requests through a counting semaphore, whose limit is a
slice of the fleet-wide cap, resized as the number of replicas changes. The autoscaler reads the same cap as a ceiling.

* `Semaphore`, `sliceFor`, `DnsCountLimiter` : the limiter of one broker;
* `step` : a fleet of brokers, under any interleaving of `Acquire`, `release` and `recount`;
* `counted_run` : a broker's count of held slots is the number of requests it admitted and that have not completed;
* `total_le`, `le_total` : what a fleet holds when its limits are the slices of one count, at most and when it is
  saturated;
* `ceiling_agrees` : a saturated fleet holds at least the cap, and under that load no decision raises the replica
  count.
-/

set_option linter.unusedSectionVars false

namespace KynoMesh.RateLimit

open KynoMesh.Lib KynoMesh.Discovery KynoMesh.Scaling

/-! ## The semaphore -/

structure Semaphore where
  held : Int := 0
  limit : Int
  deriving DecidableEq

def newSemaphore (limit : Int) : Semaphore := { limit := limit }

namespace Semaphore

/-- The semaphore after an `Acquire` that admits; `none` when it rejects. -/
def acquire (s : Semaphore) : Option Semaphore := if s.held ≥ s.limit then none else some { s with held := s.held + 1 }

def release (s : Semaphore) : Semaphore := if s.held > 0 then { s with held := s.held - 1 } else s

def setLimit (s : Semaphore) (limit : Int) : Semaphore := { s with limit := limit }

theorem acquire_eq_none {s : Semaphore} : s.acquire = none ↔ s.limit ≤ s.held := by
  simp [acquire]

theorem acquire_isSome {s : Semaphore} : s.acquire.isSome ↔ s.held < s.limit := by
  simp [acquire]

theorem held_of_acquire {s s' : Semaphore} (h : s.acquire = some s') : s'.held = s.held + 1 := by
  unfold acquire at h
  split_ifs at h
  exact Option.some.inj h ▸ rfl

theorem held_release {s : Semaphore} (h : 0 < s.held) : s.release.held = s.held - 1 := by
  rw [release, if_pos h]

end Semaphore

/-! ## The fleet-aware limiter -/

/-- The slice of the cap for one of `replicas` brokers, rounded up. -/
def sliceFor (maxInFlight replicas : Int) : Int :=
  if replicas ≤ 1 then maxInFlight else (maxInFlight + replicas - 1).tdiv replicas

structure DnsCountLimiter where
  sem : Semaphore
  maxInFlight : Int
  agentSet : String
  agentDeploy : String
  nspace : String

/-- Before the first recount, the whole cap is enforced locally. -/
def newDNSCountLimiter (maxInFlight : Int) (agentSet agentDeploy nspace : String) : DnsCountLimiter where
  sem := newSemaphore maxInFlight
  maxInFlight := maxInFlight
  agentSet := agentSet
  agentDeploy := agentDeploy
  nspace := nspace

namespace DnsCountLimiter

def acquire (l : DnsCountLimiter) : Option DnsCountLimiter := l.sem.acquire.map fun sem => { l with sem := sem }

def release (l : DnsCountLimiter) : DnsCountLimiter := { l with sem := l.sem.release }

/-- On a DNS error, the current slice is kept. -/
def recount (resolver : Resolver) (l : DnsCountLimiter) : DnsCountLimiter :=
  match discover resolver l.agentSet l.agentDeploy l.nspace with
  | .error _ => l
  | .ok hosts => { l with sem := l.sem.setLimit (sliceFor l.maxInFlight hosts.length) }

@[simp] theorem held_recount (resolver : Resolver) (l : DnsCountLimiter) :
    (l.recount resolver).sem.held = l.sem.held := by
  unfold recount
  split <;> rfl

theorem acquire_eq_none {l : DnsCountLimiter} : l.acquire = none ↔ l.sem.limit ≤ l.sem.held := by
  rw [acquire, Option.map_eq_none_iff, Semaphore.acquire_eq_none]

theorem acquire_isSome {l : DnsCountLimiter} : l.acquire.isSome ↔ l.sem.held < l.sem.limit := by
  rw [acquire, Option.isSome_map, Semaphore.acquire_isSome]

end DnsCountLimiter

/-! ## The fleet -/

/-- A broker's limiter, and the requests that hold one of its slots. -/
structure Broker where
  limiter : DnsCountLimiter
  admitted : List Nat := []

abbrev Fleet (N : Nat) := Fin N → Broker

def start (N : Nat) (maxInFlight : Int) (agentSet agentDeploy nspace : String) : Fleet N :=
  fun _ => { limiter := newDNSCountLimiter maxInFlight agentSet agentDeploy nspace }

/-- The slots held in the whole fleet. -/
def Fleet.total {N : Nat} (f : Fleet N) : Int := ∑ i, (f i).limiter.sem.held

inductive Event (N : Nat) where
  | acquire (i : Fin N) (request : Nat)
  /-- An admitted request completes. -/
  | release (i : Fin N) (request : Nat)
  | recount (i : Fin N) (resolver : Resolver)

variable {N : Nat}

def step (f : Fleet N) : Event N → Option (Fleet N)
  | .acquire i request =>
    match (f i).limiter.acquire with
    | none => some f
    | some limiter => some (Function.update f i { limiter := limiter, admitted := request :: (f i).admitted })
  | .release i request =>
    -- the release func is the result of one `Acquire`, and called once
    if request ∈ (f i).admitted then
      some (Function.update f i
        { limiter := (f i).limiter.release, admitted := (f i).admitted.erase request })
    else none
  | .recount i resolver => some (Function.update f i { f i with limiter := (f i).limiter.recount resolver })

/-- The held slots of the broker are the admissions that are outstanding. -/
def Broker.Counted (b : Broker) : Prop := b.limiter.sem.held = b.admitted.length

theorem Broker.Counted.acquire {b : Broker} (h : b.Counted) {limiter : DnsCountLimiter} (request : Nat)
    (hacq : b.limiter.acquire = some limiter) :
    Counted { limiter := limiter, admitted := request :: b.admitted } := by
  obtain ⟨sem, hsem, rfl⟩ := Option.map_eq_some_iff.mp hacq
  have hheld := Semaphore.held_of_acquire hsem
  unfold Counted at h ⊢
  rw [List.length_cons]
  dsimp only
  omega

theorem Broker.Counted.release {b : Broker} (h : b.Counted) {request : Nat} (hmem : request ∈ b.admitted) :
    Counted { limiter := b.limiter.release, admitted := b.admitted.erase request } := by
  have hpos := List.length_pos_of_mem hmem
  unfold Counted at h ⊢
  have hheld := Semaphore.held_release (s := b.limiter.sem) (by omega)
  rw [List.length_erase_of_mem hmem, DnsCountLimiter.release]
  dsimp only
  omega

theorem Broker.Counted.recount {b : Broker} (h : b.Counted) (resolver : Resolver) :
    Counted { b with limiter := b.limiter.recount resolver } := by
  unfold Counted at h ⊢
  rw [DnsCountLimiter.held_recount, h]

theorem counted_update {f : Fleet N} (h : ∀ j, (f j).Counted) {i : Fin N} {b : Broker} (hb : b.Counted) :
    ∀ j, (Function.update f i b j).Counted := by
  intro j
  by_cases hj : j = i
  · subst hj
    rwa [Function.update_self]
  · rw [Function.update_of_ne hj]
    exact h j

theorem counted_step {f f' : Fleet N} {e : Event N} (h : ∀ j, (f j).Counted) (hs : step f e = some f') :
    ∀ j, (f' j).Counted := by
  cases e with
  | acquire i request =>
    rw [step] at hs
    split at hs
    · exact Option.some.inj hs ▸ h
    · next hacq => exact Option.some.inj hs ▸ counted_update h ((h i).acquire request hacq)
  | release i request =>
    rw [step] at hs
    split_ifs at hs with hmem
    exact Option.some.inj hs ▸ counted_update h ((h i).release hmem)
  | recount i resolver => exact Option.some.inj hs ▸ counted_update h ((h i).recount resolver)

theorem counted_run {maxInFlight : Int} {agentSet agentDeploy nspace : String} {es : List (Event N)} {f : Fleet N}
    (hr : run step (start N maxInFlight agentSet agentDeploy nspace) es = some f) : ∀ i, (f i).Counted := by
  have hstart : ∀ i, (start N maxInFlight agentSet agentDeploy nspace i).Counted := fun _ => rfl
  exact run_invariant (I := fun f : Fleet N => ∀ i, (f i).Counted) (fun _ _ _ => counted_step) hstart hr

/-! ## Slices of the cap -/

theorem mul_sliceFor {M n : Int} (hM : 0 ≤ M) (hn : 1 ≤ n) :
    M ≤ n * sliceFor M n ∧ n * sliceFor M n ≤ M + n - 1 := by
  unfold sliceFor
  split_ifs with hone
  · obtain rfl : n = 1 := by omega
    omega
  · -- rounding up loses less than one replica's share
    have hdiv := Int.mul_tdiv_add_tmod (M + n - 1) n
    have hlt := Int.tmod_lt_of_pos (M + n - 1) (b := n) (by omega)
    have hnonneg := Int.tmod_nonneg n (a := M + n - 1) (by omega)
    omega

theorem total_le {M : Int} {f : Fleet N} (hM : 0 ≤ M) (hN : 1 ≤ N) (hslice : ∀ i, (f i).limiter.sem.limit = sliceFor M N)
    (hheld : ∀ i, (f i).limiter.sem.held ≤ (f i).limiter.sem.limit) : f.total ≤ M + N - 1 := by
  calc f.total ≤ ∑ _i : Fin N, sliceFor M N := Finset.sum_le_sum fun i _ => (hheld i).trans (hslice i).le
    _ = N * sliceFor M N := by simp
    _ ≤ M + N - 1 := (mul_sliceFor hM (by omega)).2

theorem le_total {M : Int} {f : Fleet N} (hM : 0 ≤ M) (hN : 1 ≤ N) (hslice : ∀ i, (f i).limiter.sem.limit = sliceFor M N)
    (hfull : ∀ i, (f i).limiter.acquire = none) : M ≤ f.total := by
  calc M ≤ N * sliceFor M N := (mul_sliceFor hM (by omega)).1
    _ = ∑ _i : Fin N, sliceFor M N := by simp
    _ ≤ f.total := Finset.sum_le_sum fun i _ => (hslice i).ge.trans (DnsCountLimiter.acquire_eq_none.mp (hfull i))

/-! ## The autoscaler's ceiling -/

section
variable {F : Type} [Zero F] [Add F] [Sub F] [Mul F] [Div F] [Neg F] [LT F] [LE F] [DecidableLT F] [DecidableLE F]
  [Max F] [Min F] [IntCast F]

/-- **The fleet's limit and the autoscaler's ceiling agree.** `hcast` is the conversion from `int` to `float64`, which
rounds but keeps the order. -/
theorem ceiling_agrees {M : Int} (hM : 1 ≤ M) (hN : 1 ≤ N) (agentSet agentDeploy nspace : String)
    (hcast : ∀ a b : Int, a ≤ b → (a : F) ≤ (b : F)) :
    (∀ es f, run step (start N M agentSet agentDeploy nspace) es = some f → ∀ i,
      (f i).limiter.sem.held = (f i).admitted.length ∧
        ((f i).limiter.acquire.isSome ↔ (f i).limiter.sem.held < (f i).limiter.sem.limit)) ∧
    ∀ f : Fleet N, (∀ i, (f i).limiter.sem.limit = sliceFor M N) →
      ((∀ i, (f i).limiter.sem.held ≤ (f i).limiter.sem.limit) → f.total ≤ M + N - 1) ∧
      ((∀ i, (f i).limiter.acquire = none) → M ≤ f.total ∧
        ∀ (l : Learner F) (inp : Inputs F) (dec : Decision F), inp.maxInFlight.toInt = M →
          inp.totalInflight = (f.total : F) →
          (replicasPerScaleDown inp.spec).toNat < 2 ^ 31 → (minMax inp.spec).1.toInt ≤ inp.currentReplicas.toInt →
          inp.currentReplicas.toInt ≤ (minMax inp.spec).2.toInt → inp.decide l = some dec →
          dec.desiredReplicas.toInt ≤ inp.currentReplicas.toInt) := by
  refine ⟨fun es f hr i => ⟨counted_run hr i, DnsCountLimiter.acquire_isSome⟩, fun f hslice => ?_⟩
  refine ⟨total_le (by omega) hN hslice, fun hfull => ?_⟩
  have htotal := le_total (by omega) hN hslice hfull
  refine ⟨htotal, fun l inp dec hcap hload hdown hmin hmax hdec => ?_⟩
  have hlimit : inp.maxInFlight > 0 := by
    rw [gt_iff_lt, Int32.lt_iff_toInt_lt, hcap]
    exact hM
  refine decide_le_of_rateLimited hlimit ?_ hdown hmin hmax hdec
  rw [hload, hcap]
  exact hcast M f.total htotal

end

/-- Two addresses for every name. -/
def twoReplicas : Resolver := fun _ => .found ["10.0.0.1", "10.0.0.2"]

/-- Two brokers learn of each other and fill their slices of a cap of three; a fifth request is rejected. -/
def rush : List (Event 2) :=
  [.acquire 0 0, .recount 0 twoReplicas, .recount 1 twoReplicas, .acquire 0 1, .acquire 1 2, .acquire 1 3, .acquire 1 4]

/-- What the autoscaler then reads: two requests in flight on each of two replicas. -/
def rushInputs : Inputs ℚ where
  currentReplicas := 2
  readyReplicas := 2
  history := []
  current := { timestamp := 0, replicas := 2, inflightPerRep := 2, ratePerRep := 1 }
  spec := { max := some 5, targetSaturationPercentage := some 1 }
  maxInFlight := 3
  now := 1000 * second
  lastScaledAt := 0

/-- The fleet after the rush. -/
def rushed : Fleet 2 := (run step (start 2 3 "mesh" "planner" "default") rush).get (by decide +kernel)

theorem ceiling_agrees_rush :
    run step (start 2 3 "mesh" "planner" "default") rush = some rushed ∧ 3 ≤ rushed.total ∧ rushed.total ≤ 4 ∧
      ∃ dec, rushInputs.decide Loop.ratAutoscaler.learner = some dec ∧ dec.desiredReplicas.toInt ≤ 2 := by
  have hdec : (rushInputs.decide Loop.ratAutoscaler.learner).isSome := by decide +kernel
  obtain ⟨-, hstate⟩ := ceiling_agrees (F := ℚ) (M := 3) (N := 2) (by decide) (by decide) "mesh" "planner" "default"
    fun a b hab => Int.cast_le.mpr hab
  obtain ⟨hle, hge⟩ := hstate rushed (by decide +kernel)
  obtain ⟨hcap, hceil⟩ := hge (by decide +kernel)
  refine ⟨(Option.some_get _).symm, hcap, hle (by decide +kernel), _, (Option.some_get hdec).symm, ?_⟩
  exact hceil _ rushInputs _ (by decide +kernel) (by decide +kernel) (by decide +kernel) (by decide +kernel)
    (by decide +kernel) (Option.some_get hdec).symm

end KynoMesh.RateLimit
