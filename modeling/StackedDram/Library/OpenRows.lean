import Mathlib.Data.List.Induction
import Mathlib.Logic.Function.Basic

/-!
# Open rows

The protocol of banks that have at most one open row each. A row is opened in a bank that has none,
accessed while it is open, and closed again (`OpenRows.Legal`). `OpenRows.after` says which rows are
open after a sequence of commands, and how often they have been accessed since they were opened.
-/

/-- A command to a bank. -/
inductive RowCommand (ι ρ : Type*) where
  | open (bank : ι) (row : ρ)
  | access (bank : ι) (row : ρ)
  | close (bank : ι)

/-- An open row. -/
structure OpenRow (ρ : Type*) where
  row : ρ
  /-- How often the row has been accessed since it was opened. -/
  accesses : ℕ
  deriving DecidableEq

/-- The open rows of the banks. -/
abbrev OpenRows (ι ρ : Type*) := ι → Option (OpenRow ρ)

namespace OpenRows

variable {ι ρ : Type*} [DecidableEq ι]

/-- All banks are closed. -/
def closed : OpenRows ι ρ := fun _ => none

/-- The open rows after a command. -/
def step (s : OpenRows ι ρ) : RowCommand ι ρ → OpenRows ι ρ
  | .open bank row => Function.update s bank (some ⟨row, 0⟩)
  | .access bank _ =>
    Function.update s bank ((s bank).map fun o => { o with accesses := o.accesses + 1 })
  | .close bank => Function.update s bank none

/-- The open rows after a sequence of commands. -/
def after (cs : List (RowCommand ι ρ)) : OpenRows ι ρ := cs.foldl step closed

@[simp]
theorem after_nil : after ([] : List (RowCommand ι ρ)) = closed := rfl

theorem after_concat (cs : List (RowCommand ι ρ)) (c : RowCommand ι ρ) :
    after (cs ++ [c]) = (after cs).step c := by
  simp [after]

omit [DecidableEq ι] in
/-- The command keeps the protocol: a row is opened in a closed bank, the row that is accessed is
the open one, and a bank that is closed has been open. -/
def Legal (s : OpenRows ι ρ) : RowCommand ι ρ → Prop
  | .open bank _ => s bank = none
  | .access bank row => (s bank).map OpenRow.row = some row
  | .close bank => s bank ≠ none

end OpenRows
