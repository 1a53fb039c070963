import Mathlib.Algebra.BigOperators.Group.List.Basic
import Mathlib.Algebra.Order.Field.Rat
import Mathlib.Data.Nat.Cast.Order.Field
import Mathlib.Tactic.FieldSimp
import Mathlib.Tactic.Linarith
import StackedDram.Library.Machine

/-!
# Metering

A consumer of a counter that only grows keeps the last reading, and with each new reading takes the
difference and keeps the new reading instead (`Machine.IsMeter`). The differences that such a
machine takes add up to the growth of the counter (`Machine.IsMeter.sum_diff`): in a group, so that
this also holds of counters that wrap around.

The second part is about the rates that are made from differences. A part and the rest of a whole
are natural numbers, and the whole is computed modulo `m`: the quotient of natural numbers is the
true rate only if the part is nothing or everything (`quotient_eq_rate_iff`), and two true quotients
by the computed whole share it out only if it does not wrap (`shares_eq_iff`).
-/

namespace Machine

variable {σ α G : Type*} [AddCommGroup G] {M : Machine σ α} {kept diff : σ → G} {reading : α → G}

/-- Every step keeps its reading and takes the difference to the one that was kept. -/
structure IsMeter (M : Machine σ α) (kept diff : σ → G) (reading : α → G) : Prop where
  kept_step : ∀ s a, kept (M.step s a) = reading a
  diff_step : ∀ s a, diff (M.step s a) = reading a - kept s

/-- The states after the steps of a run from `s`. -/
def statesFrom (M : Machine σ α) : σ → List α → List σ
  | _, [] => []
  | s, a :: as => M.step s a :: statesFrom M (M.step s a) as

/-- Nothing is counted twice and nothing is lost. -/
theorem IsMeter.sum_diff (h : M.IsMeter kept diff reading) (s : σ) (as : List α) :
    ((M.statesFrom s as).map diff).sum = kept (M.runFrom s as) - kept s := by
  induction as generalizing s with
  | nil => rw [statesFrom, List.map_nil, List.sum_nil, runFrom_nil, sub_self]
  | cons a as ih =>
    -- the reading of the first step is added once and subtracted once
    rw [statesFrom, List.map_cons, List.sum_cons, ih, h.diff_step, h.kept_step, runFrom_cons]
    exact sub_add_sub_cancel' _ _ _

end Machine

/-! ## Rates -/

namespace Metering

variable {part rest a b m : ℕ}

/-- The share of `part` in a whole that has the given rest; `0` of nothing. -/
def rate (part rest : ℕ) : ℚ := if part + rest = 0 then 0 else part / (part + rest)

theorem rate_nonneg (part rest : ℕ) : 0 ≤ rate part rest := by
  rw [rate]
  split
  · exact le_rfl
  · positivity

theorem rate_lt_one (hrest : rest ≠ 0) : rate part rest < 1 := by
  have hpos : (0 : ℚ) < part + rest := by exact_mod_cast (by omega : 0 < part + rest)
  have hrest' : (0 : ℚ) < rest := by exact_mod_cast Nat.pos_of_ne_zero hrest
  rw [rate, if_neg (by omega), div_lt_one hpos]
  exact lt_add_of_pos_right _ hrest'

/-- A natural number is a rate only of nothing or of everything. -/
theorem natCast_eq_rate_iff {q : ℕ} (hpart : part ≠ 0) :
    (q : ℚ) = rate part rest ↔ q = 1 ∧ rest = 0 := by
  have hpos : (0 : ℚ) < part + rest := by exact_mod_cast (by omega : 0 < part + rest)
  rw [rate, if_neg (by omega), eq_div_iff hpos.ne']
  constructor
  · intro h
    have hnat : q * (part + rest) = part := by exact_mod_cast h
    rcases q with _ | _ | q
    · omega
    · exact ⟨rfl, by omega⟩
    · -- from 2 on the product is more than the part
      have htwo : 2 * (part + rest) ≤ (q + 1 + 1) * (part + rest) :=
        Nat.mul_le_mul_right _ (by omega)
      omega
  · rintro ⟨rfl, rfl⟩
    simp

/-- The truncating quotient by a whole that is computed modulo `m`. -/
def quotient (m part rest : ℕ) : ℕ :=
  if 0 < (part + rest) % m then part / ((part + rest) % m) else 0

theorem quotient_eq_rate_iff (hpart : part < m) :
    (quotient m part rest : ℚ) = rate part rest ↔ part = 0 ∨ rest = 0 := by
  rcases Nat.eq_zero_or_pos part with rfl | hpos
  · simp [quotient, rate]
  · rw [natCast_eq_rate_iff hpos.ne']
    constructor
    · exact fun h => Or.inr h.2
    · rintro (h | rfl)
      · omega
      · refine ⟨?_, rfl⟩
        rw [quotient, Nat.add_zero, Nat.mod_eq_of_lt hpart, if_pos hpos, Nat.div_self hpos]

/-- Without wrap-around the truncating quotient is `0`, unless the part is everything. -/
theorem quotient_eq_zero (hrest : rest ≠ 0) (hfit : part + rest < m) :
    quotient m part rest = 0 := by
  rw [quotient, Nat.mod_eq_of_lt hfit]
  split
  · exact Nat.div_eq_of_lt (by omega)
  · rfl

/-- What `a` gets of `busy`, when `busy` is shared out among `a` and `b` and the whole is computed
modulo `m`. -/
def share (m a b : ℕ) (busy : ℚ) : ℚ :=
  if 0 < (a + b) % m then (a : ℚ) / ((a + b) % m : ℕ) * busy else 0

theorem share_nonneg {busy : ℚ} (hbusy : 0 ≤ busy) : 0 ≤ share m a b busy := by
  rw [share]
  split
  · positivity
  · exact le_rfl

/-- All of `busy` is shared out. -/
theorem shares_eq_iff (hm : 0 < m) {busy : ℚ} (hab : 0 < a + b) :
    share m a b busy + share m b a busy = busy ↔ a + b < m ∨ busy = 0 := by
  rw [share, share, Nat.add_comm b a]
  by_cases hlt : a + b < m
  · have hne : (a : ℚ) + b ≠ 0 := by exact_mod_cast hab.ne'
    rw [Nat.mod_eq_of_lt hlt, if_pos hab, if_pos hab]
    refine iff_of_true ?_ (Or.inl hlt)
    push_cast
    field_simp
  · rw [or_iff_right hlt]
    -- the computed whole is less than the true one
    have hmod : (a + b) % m < a + b := (Nat.mod_lt _ hm).trans_le (not_lt.mp hlt)
    split
    case isFalse => simp [eq_comm]
    case isTrue hpos =>
      have hpos' : (0 : ℚ) < ((a + b) % m : ℕ) := by exact_mod_cast hpos
      have hmod' : (((a + b) % m : ℕ) : ℚ) < a + b := by exact_mod_cast hmod
      rw [← add_mul, ← add_div, mul_left_eq_self₀, div_eq_one_iff_eq hpos'.ne']
      constructor
      · rintro (h | h)
        · exact absurd h hmod'.ne'
        · exact h
      · exact Or.inr

end Metering
