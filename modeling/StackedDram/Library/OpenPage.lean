import Mathlib.Data.List.Induction

/-!
# Open-page row buffers

A bank of a memory that follows the open-page policy leaves a row open after an access, until
another row is accessed. Its row buffer therefore remembers the last access. This module says what
an access finds in the buffer (`RowBuffer.find`) and counts accesses and hits, for any types of
rows and kinds of accesses.
-/

/-- A row buffer: the last access, if there has been one, with the numbers of accesses and hits. -/
structure RowBuffer (κ ρ : Type*) where
  /-- The kind of the last access and its row, which is open. -/
  last : Option (κ × ρ)
  accesses : ℕ
  hits : ℕ

namespace RowBuffer

variable {κ ρ : Type*}

/-- What an access finds: no row, its own row, or another row that has been opened for an access of
the given kind. -/
inductive Finding (κ : Type*) where
  | closed
  | hit
  | conflict (last : κ)

/-- The row buffer of a bank that has not been accessed. -/
def empty : RowBuffer κ ρ := ⟨none, 0, 0⟩

variable [DecidableEq ρ]

/-- What an access to a row finds. -/
def find (b : RowBuffer κ ρ) (row : ρ) : Finding κ :=
  match b.last with
  | none => .closed
  | some (kind, opened) => if opened = row then .hit else .conflict kind

/-- The number of hits after an access to a row. -/
def hitsAfter (b : RowBuffer κ ρ) (row : ρ) : ℕ :=
  match b.find row with
  | .hit => b.hits + 1
  | _ => b.hits

/-- The row buffer after an access. -/
def access (b : RowBuffer κ ρ) (a : κ × ρ) : RowBuffer κ ρ where
  last := some a
  accesses := b.accesses + 1
  hits := b.hitsAfter a.2

/-- The row buffer after a sequence of accesses. -/
def after (as : List (κ × ρ)) : RowBuffer κ ρ := as.foldl access empty

@[simp]
theorem after_nil : (after [] : RowBuffer κ ρ) = empty := rfl

/-- The buffer after one more access. -/
theorem after_concat (as : List (κ × ρ)) (a : κ × ρ) :
    after (as ++ [a]) = (after as).access a := by
  simp [after]

/-- All accesses are counted. -/
theorem accesses_after (as : List (κ × ρ)) : (after as).accesses = as.length := by
  induction as using List.reverseRecOn with
  | nil => rfl
  | append_singleton as a ih =>
    rw [after_concat, List.length_append, ← ih]
    rfl

/-- An access is at most one more hit. -/
theorem hitsAfter_le (b : RowBuffer κ ρ) (row : ρ) : b.hitsAfter row ≤ b.hits + 1 := by
  rw [hitsAfter]
  split <;> omega

/-- Every hit is an access. -/
theorem hits_after_le (as : List (κ × ρ)) : (after as).hits ≤ as.length := by
  induction as using List.reverseRecOn with
  | nil => exact Nat.le_refl 0
  | append_singleton as a ih =>
    rw [after_concat, List.length_append, List.length_singleton]
    exact Nat.le_trans (hitsAfter_le _ _) (Nat.add_le_add_right ih 1)

variable {b : RowBuffer κ ρ} {row : ρ}

/-- No row is open. -/
theorem find_of_none (h : b.last = none) : b.find row = .closed := by
  rw [find, h]

/-- The open row is accessed. -/
theorem find_of_same {kind : κ} (h : b.last = some (kind, row)) : b.find row = .hit := by
  rw [find, h]
  exact if_pos rfl

/-- Another row is open. -/
theorem find_of_ne {kind : κ} {opened : ρ} (h : b.last = some (kind, opened))
    (hne : opened ≠ row) : b.find row = .conflict kind := by
  rw [find, h]
  exact if_neg hne

end RowBuffer
