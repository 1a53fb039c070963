import Mathlib.Data.List.GetD
import Mathlib.Data.List.Basic

/-!
# Lists made of blocks

Lists that nested loops write: one block of a fixed length after the other. An element is found by
the number of its block and its index in the block (`getElem?_flatMap_range`), and two such lists
are equal only if their blocks are (`flatMap_range_inj`). A block commutes with a list of blocks of
its length only if all of them are equal to it (`append_flatten_comm_iff`).
-/

namespace Blocks

variable {α : Type*} {m n : ℕ} {f g : ℕ → List α}

theorem length_flatMap_range (n : ℕ) (hg : ∀ j, (g j).length = m) :
    ((List.range n).flatMap g).length = n * m := by
  induction n with
  | zero => simp
  | succ n ih =>
    rw [List.range_succ, List.flatMap_append, List.length_append, ih, List.flatMap_singleton, hg,
      Nat.succ_mul]

/-- Element `i` of block `j`. -/
theorem getElem?_flatMap_range (hg : ∀ j, (g j).length = m) {i j : ℕ} (hj : j < n) (hi : i < m) :
    ((List.range n).flatMap g)[j * m + i]? = (g j)[i]? := by
  induction n with
  | zero => exact absurd hj (Nat.not_lt_zero j)
  | succ n ih =>
    have hlength := length_flatMap_range n hg
    rw [List.range_succ, List.flatMap_append, List.flatMap_singleton]
    rcases Nat.lt_succ_iff_lt_or_eq.mp hj with hlt | rfl
    · have hindex : j * m + i < n * m :=
        calc j * m + i < j * m + m := Nat.add_lt_add_left hi _
          _ = (j + 1) * m := (Nat.succ_mul j m).symm
          _ ≤ n * m := Nat.mul_le_mul_right m hlt
      rw [List.getElem?_append_left (by omega), ih hlt]
    · rw [List.getElem?_append_right (by omega), hlength, Nat.add_sub_cancel_left]

/-- Lists of blocks of one length are equal only if the blocks are. -/
theorem flatMap_range_inj (hf : ∀ j, (f j).length = m) (hg : ∀ j, (g j).length = m) (n : ℕ) :
    (List.range n).flatMap f = (List.range n).flatMap g ↔ ∀ j < n, f j = g j := by
  constructor
  · intro h j hj
    apply List.ext_getElem?
    intro i
    by_cases hi : i < m
    · rw [← getElem?_flatMap_range hf hj hi, h, getElem?_flatMap_range hg hj hi]
    · rw [List.getElem?_eq_none (by rw [hf]; omega), List.getElem?_eq_none (by rw [hg]; omega)]
  · intro h
    exact List.flatMap_congr fun j hj => h j (List.mem_range.mp hj)

/-- A loop over `n * m` indices, as two nested ones. -/
theorem map_range_mul {β : Type*} (h : ℕ → β) (n m : ℕ) :
    (List.range (n * m)).map h =
      (List.range n).flatMap fun j => (List.range m).map fun i => h (j * m + i) := by
  induction n with
  | zero => simp
  | succ n ih =>
    rw [Nat.succ_mul, List.range_add, List.map_append, ih, List.range_succ, List.flatMap_append,
      List.flatMap_singleton, List.map_map]
    rfl

/-- A block can be moved past a list of blocks of its length only if they are all the same. -/
theorem append_flatten_comm_iff {v : List α} {rs : List (List α)}
    (hrs : ∀ r ∈ rs, r.length = v.length) :
    v ++ rs.flatten = rs.flatten ++ v ↔ ∀ r ∈ rs, r = v := by
  induction rs with
  | nil => simp
  | cons r rs ih =>
    have hr : r.length = v.length := hrs r List.mem_cons_self
    have ih' := ih fun r' hr' => hrs r' (List.mem_cons_of_mem r hr')
    rw [List.flatten_cons, List.forall_mem_cons, ← ih']
    constructor
    · intro h
      rw [List.append_assoc] at h
      obtain ⟨rfl, hrest⟩ := List.append_inj h hr.symm
      exact ⟨rfl, hrest⟩
    · rintro ⟨rfl, h⟩
      rw [List.append_assoc, h]

/-- Lists of one length are equal if they agree at every index. -/
theorem ext_getD {l l' : List α} (d : α) (hlength : l.length = l'.length)
    (h : ∀ i < l.length, l.getD i d = l'.getD i d) : l = l' := by
  apply List.ext_getElem hlength
  intro i hi hi'
  have heq := h i hi
  rwa [List.getD_eq_getElem l d hi, List.getD_eq_getElem l' d hi'] at heq

theorem getD_append_eq_ite (l l' : List α) (d : α) (i : ℕ) :
    (l ++ l').getD i d = if i < l.length then l.getD i d else l'.getD (i - l.length) d := by
  split
  · exact List.getD_append l l' d i ‹_›
  · exact List.getD_append_right l l' d i (Nat.le_of_not_lt ‹_›)

/-- A sequence that repeats with period `p` up to some index also repeats with its multiples. -/
theorem apply_add_mul {h : ℕ → α} {p : ℕ} (hp : ∀ i < n, h (i + p) = h i) {i : ℕ} :
    ∀ k, i + k * p < n + p → h (i + k * p) = h i
  | 0, _ => by rw [Nat.zero_mul, Nat.add_zero]
  | k + 1, hk => by
    rw [Nat.succ_mul] at hk ⊢
    rw [← Nat.add_assoc, hp _ (by omega), apply_add_mul hp k (by omega)]

end Blocks
