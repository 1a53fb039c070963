import Mathlib.Data.Fin.SuccPredOrder
import Mathlib.Algebra.Order.Group.Abs
import Mathlib.Algebra.Order.Ring.Int
import Mathlib.Data.List.Forall2
import Mathlib.Order.SuccPred.Basic
import StackedDram.Library.Machine

/-!
# Saturating walks

A level in an order of steps goes down by one step or up by one step, and stays where it is at the
end of the order. `walk_run_le` compares two such walks: one that is sent down whenever the other
is stays below it, although the two reach the ends of the order at different times.
-/

namespace SaturatingWalk

variable {L : Type*}

section Step

variable [PartialOrder L] [SuccOrder L] [PredOrder L] {down down' : Bool} {l l' : L}

/-- One step of the walk: down, or up. -/
def walkStep (l : L) (down : Bool) : L := if down then Order.pred l else Order.succ l

/-- A step keeps the order of two levels if the lower one goes down whenever the other does. -/
theorem walkStep_le (hl : l' ≤ l) (hdown : down ≤ down') : walkStep l' down' ≤ walkStep l down := by
  cases down' with
  | true =>
    cases down with
    | true => exact Order.pred_le_pred hl
    -- the two go apart
    | false => exact (Order.pred_le l').trans (hl.trans (Order.le_succ l))
  | false =>
    -- the other one goes up as well
    obtain rfl : down = false := Bool.eq_false_of_le_false hdown
    exact Order.succ_le_succ hl

/-- The walk that starts at `start`. -/
def walk (start : L) : Machine L Bool where
  init := start
  step := walkStep

/-- The walk that is sent down more often is the lower one after every number of steps. -/
theorem walk_run_le (start : L) {downs downs' : List Bool}
    (h : List.Forall₂ (· ≤ ·) downs downs') : (walk start).run downs' ≤ (walk start).run downs :=
  List.rel_foldl (P := fun l l' : L => l' ≤ l) (R := fun down down' : Bool => down ≤ down')
    (fun _ _ hl _ _ hdown => walkStep_le hl hdown) (le_refl start) h

end Step

/-! ## Levels that are counted from zero -/

section Fin

variable {n : ℕ} (i : Fin (n + 1))

theorem val_pred : (Order.pred i).val = i.val - 1 := by
  cases i using Fin.cases with
  | zero => simp
  | succ i => simp

theorem val_succ : (Order.succ i).val = min (i.val + 1) n := by
  cases i using Fin.lastCases with
  | last => simp
  | cast i =>
    have hi : i.val + 1 ≤ n := i.isLt
    rw [Fin.orderSucc_castSucc, Fin.val_succ, Fin.val_castSucc, min_eq_left hi]

/-- One step moves the level by at most one. -/
theorem abs_val_walkStep_sub_le (down : Bool) : |((walkStep i down).val : ℤ) - i.val| ≤ 1 := by
  have hi := i.isLt
  rw [abs_le]
  cases down with
  | true =>
    have hval : (walkStep i true).val = i.val - 1 := val_pred i
    omega
  | false =>
    have hval : (walkStep i false).val = min (i.val + 1) n := val_succ i
    omega

end Fin

end SaturatingWalk
