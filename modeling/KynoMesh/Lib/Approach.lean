import Mathlib.Algebra.Order.Floor.Div
import Mathlib.Logic.Function.Iterate
import Mathlib.Tactic.Ring
import Mathlib.Tactic.SplitIfs

/-!
# Approaching a goal in bounded steps

`approach up down goal c` is the count next to `c` on the way to `goal`, with steps of at most `up` upwards and `down`
downwards. A direction that is held back has the step zero.

* `approach_mono` : a higher goal never leads to a lower count;
* `approach_between` : no step leads away from the goal, or past it;
* `iterate_approach_eq_iff` : the goal is reached after exactly as many steps as the distance has, in steps of its
  direction, and not left again.
-/

namespace KynoMesh.Lib

def approach (up down : Nat) (goal c : Int) : Int := if goal < c then max goal (c - down) else min goal (c + up)

variable {up down : Nat} {goal goal' c : Int}

theorem approach_mono (h : goal ≤ goal') : approach up down goal c ≤ approach up down goal' c := by
  unfold approach
  split_ifs <;> omega

theorem approach_between :
    (c ≤ goal → c ≤ approach up down goal c ∧ approach up down goal c ≤ goal) ∧
      (goal ≤ c → goal ≤ approach up down goal c ∧ approach up down goal c ≤ c) := by
  unfold approach
  split_ifs <;> omega

theorem approach_mem {lo hi : Int} (hgoal : lo ≤ goal ∧ goal ≤ hi) (hc : lo ≤ c ∧ c ≤ hi) :
    lo ≤ approach up down goal c ∧ approach up down goal c ≤ hi := by
  unfold approach
  split_ifs <;> omega

theorem iterate_approach_of_le (h : c ≤ goal) (n : Nat) : (approach up down goal)^[n] c = min goal (c + n * up) := by
  induction n with
  | zero => simp [h]
  | succ n ih =>
    rw [Function.iterate_succ_apply', ih, approach, if_neg (by omega), Nat.cast_succ, Int.add_mul]
    omega

theorem iterate_approach_of_lt (h : goal < c) (n : Nat) :
    (approach up down goal)^[n] c = max goal (c - n * down) := by
  induction n with
  | zero => simp [h.le]
  | succ n ih =>
    rw [Function.iterate_succ_apply', ih, approach, Nat.cast_succ, Int.add_mul]
    split_ifs <;> omega

theorem iterate_approach_eq_iff (hup : 0 < up) (hdown : 0 < down) (n : Nat) :
    (approach up down goal)^[n] c = goal ↔ (goal - c).natAbs ⌈/⌉ (if c ≤ goal then up else down) ≤ n := by
  by_cases h : c ≤ goal
  · rw [iterate_approach_of_le h, if_pos h, ceilDiv_le_iff_le_mul hup, mul_comm up n, ← Nat.cast_mul]
    omega
  · rw [iterate_approach_of_lt (not_le.mp h), if_neg h, ceilDiv_le_iff_le_mul hdown, mul_comm down n,
      ← Nat.cast_mul]
    omega

end KynoMesh.Lib
