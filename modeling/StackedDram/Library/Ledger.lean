import Mathlib.Algebra.BigOperators.Group.Finset.Basic
import StackedDram.Library.BitCount

/-!
# Ledgers

A `Ledger` measures the states of some type by a balance, and a change from one state to another
by what it adds to the balance and what it takes off. `Ledger.balance_add_along` is the account of
a whole history: the balance at its end and all that was taken off make up the balance at its start
and all that was added.

The set bits of a word are a ledger (`BitVec.ledger`), and a finite family of ledgers adds up to one
(`Ledger.sum`). A change of one member of the family takes off what that member loses
(`Ledger.sum_loss_of_eq`).
-/

/-- Additions to and subtractions from a balance that explain every change of it. -/
structure Ledger (α : Type*) where
  /-- The balance of a state. -/
  balance : α → ℕ
  /-- What the change from one state to another adds. -/
  gain : α → α → ℕ
  /-- What the change from one state to another takes off. -/
  loss : α → α → ℕ
  /-- Additions and subtractions account for the difference of the balances. -/
  balance_add_gain : ∀ a b, balance a + gain a b = balance b + loss a b
  /-- Nothing is taken off when nothing changes. -/
  loss_self : ∀ a, loss a a = 0

/-- The set bits of a word. -/
def BitVec.ledger (w : ℕ) : Ledger (BitVec w) where
  balance := bitCount
  gain x y := raised x y
  loss x y := raised y x
  balance_add_gain := bitCount_add_raised
  loss_self := raised_self

namespace Ledger

variable {α β ι : Type*}

/-- The sum of `f` over the successive changes of the history that starts with `a` and goes on
with the states of the list. -/
def along (f : α → α → ℕ) : α → List α → ℕ
  | _, [] => 0
  | a, b :: l => f a b + along f b l

theorem along_append (f : α → α → ℕ) (a : α) (l l' : List α) :
    along f a (l ++ l') = along f a l + along f (l.getLastD a) l' := by
  induction l generalizing a with
  | nil => simp [along]
  | cons b l ih => rw [List.cons_append, along, along, ih, List.getLastD_cons, Nat.add_assoc]

/-- The end of a history that is continued. -/
theorem getLastD_append (a : α) (l l' : List α) :
    (l ++ l').getLastD a = l'.getLastD (l.getLastD a) := by
  induction l generalizing a with
  | nil => rfl
  | cons b l ih => rw [List.cons_append, List.getLastD_cons, List.getLastD_cons, ih]

/-- The account of a history. -/
theorem balance_add_along (L : Ledger α) (a : α) (l : List α) :
    L.balance a + along L.gain a l = L.balance (l.getLastD a) + along L.loss a l := by
  induction l generalizing a with
  | nil => rfl
  | cons b l ih =>
    have hstep := L.balance_add_gain a b
    have hrest := ih b
    rw [along, along, List.getLastD_cons]
    omega

/-- The ledgers of a finite family of parts of a state, added up. -/
def sum (L : Ledger α) (parts : Finset ι) (part : β → ι → α) : Ledger β where
  balance b := ∑ i ∈ parts, L.balance (part b i)
  gain b b' := ∑ i ∈ parts, L.gain (part b i) (part b' i)
  loss b b' := ∑ i ∈ parts, L.loss (part b i) (part b' i)
  balance_add_gain b b' := by
    rw [← Finset.sum_add_distrib, ← Finset.sum_add_distrib]
    exact Finset.sum_congr rfl fun i _ => L.balance_add_gain _ _
  loss_self b := Finset.sum_eq_zero fun i _ => L.loss_self _

/-- When one part changes, what it loses is what the whole loses. -/
theorem sum_loss_of_eq (L : Ledger α) {parts : Finset ι} {part : β → ι → α} {b b' : β} {i : ι}
    (hi : i ∈ parts) (hother : ∀ j ≠ i, part b' j = part b j) :
    (L.sum parts part).loss b b' = L.loss (part b i) (part b' i) := by
  refine Finset.sum_eq_single_of_mem i hi fun j _ hj => ?_
  rw [hother j hj]
  exact L.loss_self _

end Ledger
