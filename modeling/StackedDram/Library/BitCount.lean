import Mathlib.Algebra.BigOperators.Group.Finset.Piecewise
import Mathlib.Tactic.Basic

/-!
# Counting the set bits of a word

`bitCount x` is the number of set bits of `x`. `countLoop` is the usual loop that counts them,
one shift at a time, and `countLoop_eq_bitCount` says that as many rounds as the word is wide are
enough. `raised x y` counts the bits that are clear in `x` and set in `y`, so `raised y x` counts
those that are lost on the way from `x` to `y`; `bitCount_add_raised` balances the two. `bits x` is
the set of the positions of the set bits, so inclusions of masks are those of sets.
-/

namespace BitVec

variable {w : ℕ}

/-- The number of set bits of `x`. -/
def bitCount (x : BitVec w) : ℕ := ∑ i ∈ Finset.range w, (x.getLsbD i).toNat

/-- `while (x > 0) { if ((x & 1) == 1) n++; x >>= 1; }`, for at most the given number of
rounds. -/
def countLoop : ℕ → BitVec w → ℕ
  | 0, _ => 0
  | fuel + 1, x => if x = 0 then 0 else (x.getLsbD 0).toNat + countLoop fuel (x >>> 1)

/-- The loop adds up the bits that it looks at. -/
theorem countLoop_eq_sum (fuel : ℕ) (x : BitVec w) :
    countLoop fuel x = ∑ i ∈ Finset.range fuel, (x.getLsbD i).toNat := by
  induction fuel generalizing x with
  | zero => rfl
  | succ fuel ih =>
    rw [countLoop, Finset.sum_range_succ']
    split_ifs with hx
    · subst hx
      simp
    · rw [ih, Nat.add_comm]
      simp [Nat.add_comm]

/-- As many rounds as the word is wide count all its bits. -/
theorem countLoop_eq_bitCount (x : BitVec w) : countLoop w x = bitCount x :=
  countLoop_eq_sum w x

@[simp]
theorem bitCount_zero : bitCount (0#w) = 0 := by
  simp [bitCount]

/-- The positions of the set bits of `x`. -/
def bits (x : BitVec w) : Finset ℕ := (Finset.range w).filter fun k => x.getLsbD k = true

/-- The bits that are set. -/
@[simp]
theorem mem_bits {x : BitVec w} {k : ℕ} : k ∈ bits x ↔ x.getLsbD k = true := by
  rw [bits, Finset.mem_filter, Finset.mem_range]
  exact and_iff_right_of_imp lt_of_getLsbD

@[simp]
theorem bits_zero : bits (0#w) = ∅ := by
  ext k
  simp

theorem bits_zero_subset (s : Finset ℕ) : bits (0#w) ⊆ s := by
  rw [bits_zero]
  exact Finset.empty_subset s

/-- No bit of a word is set exactly if the word is zero. -/
theorem bits_eq_empty_iff {x : BitVec w} : bits x = ∅ ↔ x = 0#w := by
  refine ⟨fun h => ?_, fun h => h ▸ bits_zero⟩
  apply eq_of_getLsbD_eq
  intro k _
  have hk : k ∉ bits x := h ▸ Finset.notMem_empty k
  simpa using hk

/-- The count is the number of the bits that are set. -/
theorem bitCount_eq_card (x : BitVec w) : bitCount x = (bits x).card := by
  rw [bits, Finset.card_filter, bitCount]
  exact Finset.sum_congr rfl fun k _ => by cases x.getLsbD k <;> rfl

/-- A word has no more set bits than bits. -/
theorem bitCount_le (x : BitVec w) : bitCount x ≤ w := by
  rw [bitCount_eq_card]
  exact (Finset.card_filter_le _ _).trans_eq (Finset.card_range w)

/-- Something is counted if a bit is set. -/
theorem bitCount_pos_iff {x : BitVec w} : 0 < bitCount x ↔ x ≠ 0#w := by
  rw [bitCount_eq_card, Finset.card_pos, Finset.nonempty_iff_ne_empty, Ne, bits_eq_empty_iff]

/-- Setting bit `k` sets bit `k` and no other. -/
theorem getLsbD_or_one_shiftLeft (x : BitVec w) {k : ℕ} (hk : k < w) (j : ℕ) :
    (x ||| 1#w <<< k).getLsbD j = true ↔ x.getLsbD j = true ∨ j = k := by
  rw [← twoPow_eq, getLsbD_or, getLsbD_twoPow, Bool.or_eq_true, decide_eq_true hk,
    Bool.true_and, decide_eq_true_iff, eq_comm (a := k)]

/-- Setting bit `k` adds its position. -/
theorem bits_or_one_shiftLeft (x : BitVec w) {k : ℕ} (hk : k < w) :
    bits (x ||| 1#w <<< k) = insert k (bits x) := by
  ext j
  rw [mem_bits, getLsbD_or_one_shiftLeft x hk, Finset.mem_insert, mem_bits]
  exact Or.comm

/-- The number of bits that are clear in `x` and set in `y`. -/
def raised (x y : BitVec w) : ℕ := bitCount (y &&& ~~~x)

/-- Bits gained and bits lost account for the difference of the counts. -/
theorem bitCount_add_raised (x y : BitVec w) :
    bitCount x + raised x y = bitCount y + raised y x := by
  simp only [raised, bitCount, ← Finset.sum_add_distrib]
  refine Finset.sum_congr rfl fun i hi => ?_
  have hi' : i < w := Finset.mem_range.mp hi
  simp only [getLsbD_and, getLsbD_not, hi', decide_true, Bool.true_and]
  cases x.getLsbD i <;> cases y.getLsbD i <;> rfl

@[simp]
theorem raised_self (x : BitVec w) : raised x x = 0 := by
  simp [raised]

/-- Setting bits loses none. -/
@[simp]
theorem raised_or_left (x y : BitVec w) : raised (x ||| y) x = 0 := by
  have h : x &&& ~~~(x ||| y) = 0#w := by
    ext i hi
    simp only [getElem_and, getElem_not, getElem_or, getElem_zero]
    cases x[i] <;> simp
  rw [raised, h, bitCount_zero]

/-- Clearing the word loses every set bit. -/
@[simp]
theorem raised_zero_left (x : BitVec w) : raised 0#w x = bitCount x := by
  simp [raised]

end BitVec
