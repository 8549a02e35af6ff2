import KynoMesh.Pods.PodSpec

/-!
# Termination of a broker

`deriveBudgets` of `broker/cmd/budgets.go` splits the grace period of a pod into the budgets of the preStop drain and of
the shutdown after `SIGTERM`; `Drain` and `runServeLoop` spend them. Durations are in nanoseconds.

* `deriveBudgets`, `resolveBudgets` : the budgets, and where the grace period comes from;
* `underContext` : the time that waits under one context take, `underContext_eq`;
* `stopGRPCWithin` : the graceful stop has a budget, the hard stop after it has none;
* `terminationTime` : from the start of the preStop hook to the exit of the broker;
* `budgets_fit_iff` : the budgets fit the grace period exactly when no gRPC server is stopped: its wait has a budget of
  its own, on top of the one that the HTTP servers share;
* `grpc_shutdown_overruns` : a broker whose graceful stop does not end in time.
-/

namespace KynoMesh.Termination

open KynoMesh.Lib KynoMesh.Pods

/-! ## Budgets -/

/-- The slices of the grace period; `drain` includes `propagation`. -/
structure TerminationBudgets where
  propagation : Int
  drain : Int
  shutdown : Int
  deriving DecidableEq

def clampDuration (v lo hi : Int) : Int := if v < lo then lo else if v > hi then hi else v

def margin : Int := 2 * second

def deriveBudgets (grace : Int) : TerminationBudgets :=
  let propagation := clampDuration (grace.tdiv 20) (2 * second) (10 * second)
  let shutdown := clampDuration (grace.tdiv 10) (5 * second) (15 * second)
  let drain := grace - shutdown - margin
  { propagation := propagation
    drain := if drain < propagation then propagation else drain
    shutdown := shutdown }

/-- A number of seconds as a `time.Duration`, with the wrap-around of `int64`. -/
def seconds (n : Int) : Int := (n * second).bmod (2 ^ 64)

/-- The budgets of a broker whose injected grace period reads `raw`; the empty string when it is not set. -/
def resolveBudgets (raw : String) : TerminationBudgets :=
  let fallback := seconds defaultTerminationGracePeriodSeconds.toInt
  match if raw = "" then none else atoi raw with
  | some secs => deriveBudgets (if secs > 0 then seconds secs else fallback)
  | none => deriveBudgets fallback

/-- The budgets of the broker container are those of the grace period that was injected into it. -/
theorem resolveBudgets_itoa {n : Nat} (hpos : 0 < n) (hlt : n * 10 ^ 9 < 2 ^ 63) :
    resolveBudgets (itoa n) = deriveBudgets (n * second) := by
  have hne : itoa n ≠ "" := by
    intro h
    have hread := atoi_itoa (show n < 2 ^ 63 by omega)
    rw [h] at hread
    cases hread
  have hsecs : seconds n = n * second := Int.bmod_eq_of_le (by unfold second; omega) (by unfold second; omega)
  rw [resolveBudgets, if_neg hne, atoi_itoa (by omega)]
  dsimp only
  rw [if_pos (by omega), hsecs]

/-! ## Waits -/

/-- The time spent in waits one after another under a context that ends after `budget`; each of them would take as long
as `demands` says, and ends with the context. -/
def underContext (budget : Int) (demands : List Nat) : Int :=
  demands.foldl (fun (t : Int) (d : Nat) => t + min (d : Int) (budget - t)) 0

theorem underContext_eq {budget : Int} (hb : 0 ≤ budget) (demands : List Nat) :
    underContext budget demands = min (demands.sum : Int) budget := by
  -- from time `t` on, the rest of the waits takes its sum or what is left of the context
  have hfold : ∀ (ds : List Nat) (t : Int), 0 ≤ t → t ≤ budget →
      ds.foldl (fun (t : Int) (d : Nat) => t + min (d : Int) (budget - t)) t = min (t + (ds.sum : Int)) budget := by
    intro ds
    induction ds with
    | nil =>
      intro t _ ht
      simp [ht]
    | cons d ds ih =>
      intro t h0 ht
      rw [List.foldl_cons, ih _ (by omega) (by omega), List.sum_cons]
      omega
  rw [underContext, hfold demands 0 le_rfl hb, Int.zero_add]

/-- How long everything that a terminating broker waits for takes, when no budget cuts it short. -/
structure Demand where
  /-- The scrapes of the in-flight gauge and the ticks between them, until nothing is in flight. -/
  polls : List Nat
  proxyShutdown : Nat
  introspectionShutdown : Nat
  /-- `GracefulStop` of the gRPC server, and `Stop`, should it be called. -/
  gracefulStop : Nat
  stop : Nat

/-- The preStop hook: `sleepCtx` for the propagation wait, then the polls, all under the context of `Drain`. -/
def drainTime (b : TerminationBudgets) (d : Demand) : Int := underContext b.drain (b.propagation.toNat :: d.polls)

/-- The time of `stopGRPCWithin`: a timer of its own ends the wait for `GracefulStop`, and then `Stop` is called, which
nothing ends. -/
def stopGRPCWithin (budget : Int) (d : Demand) : Int :=
  if (d.gracefulStop : Int) ≤ budget then d.gracefulStop else budget + d.stop

/-- The shutdown of `runServeLoop`: the two HTTP servers under one context, then the gRPC server. -/
def shutdownTime (b : TerminationBudgets) (grpcServer : Bool) (d : Demand) : Int :=
  underContext b.shutdown [d.proxyShutdown, d.introspectionShutdown] +
    if grpcServer then stopGRPCWithin b.shutdown d else 0

def terminationTime (b : TerminationBudgets) (grpcServer : Bool) (d : Demand) : Int :=
  drainTime b d + shutdownTime b grpcServer d

/-- The budgets of the waits of the shutdown, in their order. -/
def shutdownBounds (b : TerminationBudgets) (grpcServer : Bool) : List Int :=
  b.shutdown :: if grpcServer then [b.shutdown] else []

/-- Every budget is used in full, and the graceful stop does not end in time; `Stop` takes `stop`. -/
def Demand.overdue (b : TerminationBudgets) (stop : Nat) : Demand where
  polls := [b.drain.toNat]
  proxyShutdown := b.shutdown.toNat
  introspectionShutdown := 0
  gracefulStop := b.shutdown.toNat + 1
  stop := stop

theorem terminationTime_eq {b : TerminationBudgets} (hdrain : 0 ≤ b.drain) (hshut : 0 ≤ b.shutdown) (grpcServer : Bool)
    (d : Demand) : terminationTime b grpcServer d =
      min (b.propagation.toNat + d.polls.sum : Int) b.drain +
        (min (d.proxyShutdown + d.introspectionShutdown : Int) b.shutdown +
          if grpcServer then stopGRPCWithin b.shutdown d else 0) := by
  unfold terminationTime drainTime shutdownTime
  rw [underContext_eq hdrain, underContext_eq hshut]
  simp only [List.sum_cons, List.sum_nil, Nat.cast_add, Nat.add_zero]

theorem sum_shutdownBounds (b : TerminationBudgets) (grpcServer : Bool) :
    (shutdownBounds b grpcServer).sum = b.shutdown + if grpcServer then b.shutdown else 0 := by
  cases grpcServer with
  | false => simp [shutdownBounds]
  | true => simp [shutdownBounds]

theorem terminationTime_le {b : TerminationBudgets} (hdrain : 0 ≤ b.drain) (hshut : 0 ≤ b.shutdown) (d : Demand) :
    terminationTime b false d ≤ b.drain + b.shutdown := by
  rw [terminationTime_eq hdrain hshut, if_neg Bool.false_ne_true]
  omega

/-- With one, an overdue graceful stop costs all the budgets, and the time of `Stop`. -/
theorem terminationTime_overdue {b : TerminationBudgets} (hdrain : 0 ≤ b.drain) (hshut : 0 ≤ b.shutdown) (stop : Nat) :
    terminationTime b true (Demand.overdue b stop) = b.drain + (shutdownBounds b true).sum + stop := by
  rw [terminationTime_eq hdrain hshut, sum_shutdownBounds, if_pos rfl, if_pos rfl]
  unfold Demand.overdue stopGRPCWithin
  dsimp only
  rw [List.sum_singleton, if_neg (by omega)]
  omega

/-! ## The budgets against the grace period -/

theorem clampDuration_mem {v lo hi : Int} (h : lo ≤ hi) : lo ≤ clampDuration v lo hi ∧ clampDuration v lo hi ≤ hi := by
  unfold clampDuration
  split_ifs <;> omega

/-- A grace period of nine seconds or more has a drain window: the rest after the shutdown and the margin. -/
theorem deriveBudgets_spec {grace : Int} (hgrace : 9 * second ≤ grace) :
    (deriveBudgets grace).propagation ≤ (deriveBudgets grace).drain ∧ 5 * second ≤ (deriveBudgets grace).shutdown ∧
      (deriveBudgets grace).drain = grace - (deriveBudgets grace).shutdown - 2 * second := by
  have hdiv : grace.tdiv 20 = grace / 20 ∧ grace.tdiv 10 = grace / 10 := by
    unfold second at hgrace
    exact ⟨Int.tdiv_eq_ediv_of_nonneg (by omega), Int.tdiv_eq_ediv_of_nonneg (by omega)⟩
  -- a twentieth and a tenth of the grace period, or their floors, leave the margin
  have hroom : clampDuration (grace / 20) (2 * second) (10 * second) ≤
      grace - clampDuration (grace / 10) (5 * second) (15 * second) - margin := by
    unfold clampDuration margin second at *
    split_ifs <;> omega
  unfold deriveBudgets
  dsimp only
  rw [hdiv.1, hdiv.2, if_neg (not_lt.mpr hroom)]
  exact ⟨hroom, (clampDuration_mem (by decide)).1, rfl⟩

/-- The propagation wait is within the drain; the drain and the budgets of all waits of the shutdown fit the grace
period; and no broker is killed while it terminates. -/
def BudgetsFit (grace : Int) (grpcServer : Bool) : Prop :=
  (deriveBudgets grace).propagation ≤ (deriveBudgets grace).drain ∧
    (deriveBudgets grace).drain + (shutdownBounds (deriveBudgets grace) grpcServer).sum ≤ grace ∧
    ∀ d, terminationTime (deriveBudgets grace) grpcServer d ≤ grace

/-- **The budgets fit exactly without a gRPC server.** With one, the shutdown has two budgets in a row and only one of
them was set aside; and a broker whose graceful stop is overdue is killed, however fast `Stop` is. -/
theorem budgets_fit_iff (grace : Int) (hgrace : 9 * second ≤ grace) (grpcServer : Bool) :
    (BudgetsFit grace grpcServer ↔ grpcServer = false) ∧
      ∀ stop, grace < terminationTime (deriveBudgets grace) true (Demand.overdue (deriveBudgets grace) stop) := by
  obtain ⟨hprop, hshut, hdrain⟩ := deriveBudgets_spec hgrace
  have hprop0 : 2 * second ≤ (deriveBudgets grace).propagation := (clampDuration_mem (by decide)).1
  unfold second at hshut hdrain hprop0
  have hover : grace < (deriveBudgets grace).drain + (shutdownBounds (deriveBudgets grace) true).sum := by
    rw [sum_shutdownBounds, if_pos rfl]
    omega
  refine ⟨⟨?_, ?_⟩, fun stop => ?_⟩
  · rintro ⟨-, hsum, -⟩
    cases grpcServer with
    | false => rfl
    | true => exact absurd hsum (not_le.mpr hover)
  · rintro rfl
    refine ⟨hprop, ?_, fun d => ?_⟩
    · rw [sum_shutdownBounds, if_neg Bool.false_ne_true]
      omega
    · have := terminationTime_le (b := deriveBudgets grace) (by omega) (by omega) d
      omega
  · rw [terminationTime_overdue (by omega) (by omega)]
    omega

theorem budgets_fit_jsonrpc : 9 * second ≤ 30 * second ∧ BudgetsFit (30 * second) false :=
  ⟨by decide, (budgets_fit_iff (30 * second) (by decide) false).1.mpr rfl⟩

/-- At the default grace period of 120 seconds, with a client that does not read: 106 seconds of drain, 12 for the HTTP
servers, 12 for the graceful stop, and then `Stop`, if it returns at once. -/
theorem grpc_shutdown_overruns :
    ¬BudgetsFit (120 * second) true ∧
      terminationTime (deriveBudgets (120 * second)) true (Demand.overdue (deriveBudgets (120 * second)) 0) =
        130 * second := by
  have htime : terminationTime (deriveBudgets (120 * second)) true
      (Demand.overdue (deriveBudgets (120 * second)) 0) = 130 * second := by decide
  refine ⟨fun h => ?_, htime⟩
  have := h.2.2 (Demand.overdue (deriveBudgets (120 * second)) 0)
  rw [htime] at this
  exact absurd this (by decide)

end KynoMesh.Termination
