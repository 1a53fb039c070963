import Mathlib.Data.Nat.Bitwise
import Mathlib.Tactic.Ring
import Mathlib.Tactic.Linarith

/-!
# Numbers made of fields

A number `a * n + c` with `c < n` has the two digits `a` and `c`. The first part gives the
division facts about such numbers in the form in which nested indices (a vault, a bank in it, a
row in that) use them. The second part is the same for fields of bits: `packFields` puts three
fields side by side with shifts and disjunctions, `highField`, `midField` and `lowField` take
them out again with shifts and masks, and in range they are digits to powers of two.
-/

namespace BitFields

/-! ## Digits -/

/-- The higher digit. -/
theorem digits_div {n a c : ℕ} (hc : c < n) : (a * n + c) / n = a := by
  rw [Nat.mul_comm, Nat.mul_add_div (Nat.zero_lt_of_lt hc), Nat.div_eq_of_lt hc, Nat.add_zero]

/-- The lower digit. -/
theorem digits_mod {n a c : ℕ} (hc : c < n) : (a * n + c) % n = c := by
  rw [Nat.mul_comm, Nat.mul_add_mod, Nat.mod_eq_of_lt hc]

/-- A two-digit number is below the product of the bounds of its digits. -/
theorem digits_lt {m n a c : ℕ} (ha : a < m) (hc : c < n) : a * n + c < m * n := by
  calc a * n + c < a * n + n := by omega
    _ = (a + 1) * n := by ring
    _ ≤ m * n := Nat.mul_le_mul_right n ha

/-- Two-digit numbers are equal only if their digits are. -/
theorem digits_inj {n a c a' c' : ℕ} (hc : c < n) (hc' : c' < n)
    (h : a * n + c = a' * n + c') : a = a' ∧ c = c' := by
  constructor
  · rw [← digits_div (a := a) hc, h, digits_div hc']
  · rw [← digits_mod (a := a) hc, h, digits_mod hc']

/-! ## Three fields of bits -/

/-- Three fields side by side: `lo` in the lowest `w₀` bits, `mid` in the next `w₁`, and `hi`
above them. -/
def packFields (w₁ w₀ hi mid lo : ℕ) : ℕ := hi <<< (w₁ + w₀) ||| mid <<< w₀ ||| lo

/-- The bits above the two lower fields. -/
def highField (w₁ w₀ s : ℕ) : ℕ := s >>> w₀ >>> w₁

/-- The `w₁` bits above the lowest `w₀`. -/
def midField (w₁ w₀ s : ℕ) : ℕ := s >>> w₀ &&& (2 ^ w₁ - 1)

/-- The lowest `w₀` bits. -/
def lowField (w₀ s : ℕ) : ℕ := s &&& (2 ^ w₀ - 1)

/-- The high field by division. -/
theorem highField_eq (w₁ w₀ s : ℕ) : highField w₁ w₀ s = s / 2 ^ w₀ / 2 ^ w₁ := by
  rw [highField, Nat.shiftRight_eq_div_pow, Nat.shiftRight_eq_div_pow]

/-- The middle field by division. -/
theorem midField_eq (w₁ w₀ s : ℕ) : midField w₁ w₀ s = s / 2 ^ w₀ % 2 ^ w₁ := by
  rw [midField, Nat.shiftRight_eq_div_pow, Nat.and_two_pow_sub_one_eq_mod]

/-- The low field by division. -/
theorem lowField_eq (w₀ s : ℕ) : lowField w₀ s = s % 2 ^ w₀ := by
  rw [lowField, Nat.and_two_pow_sub_one_eq_mod]

theorem midField_lt (w₁ w₀ s : ℕ) : midField w₁ w₀ s < 2 ^ w₁ := by
  rw [midField_eq]
  exact Nat.mod_lt _ (Nat.two_pow_pos w₁)

theorem lowField_lt (w₀ s : ℕ) : lowField w₀ s < 2 ^ w₀ := by
  rw [lowField_eq]
  exact Nat.mod_lt _ (Nat.two_pow_pos w₀)

/-- The high field of a number of `w₂ + w₁ + w₀` bits fits in `w₂` bits. -/
theorem highField_lt {w₂ w₁ w₀ s : ℕ} (hs : s < 2 ^ (w₂ + w₁ + w₀)) :
    highField w₁ w₀ s < 2 ^ w₂ := by
  rw [highField_eq]
  refine Nat.div_lt_of_lt_mul (Nat.div_lt_of_lt_mul ?_)
  calc s < 2 ^ (w₂ + w₁ + w₀) := hs
    _ = 2 ^ w₀ * (2 ^ w₁ * 2 ^ w₂) := by rw [← pow_add, ← pow_add]; congr 1; omega

/-- Fields within their widths do not overlap: packing them is adding them up. -/
theorem packFields_eq {w₁ w₀ hi mid lo : ℕ} (hmid : mid < 2 ^ w₁) (hlo : lo < 2 ^ w₀) :
    packFields w₁ w₀ hi mid lo = (hi * 2 ^ w₁ + mid) * 2 ^ w₀ + lo := by
  -- the middle field fits below the high one, then the low field below both
  have hor : hi <<< (w₁ + w₀) ||| mid <<< w₀ = (hi * 2 ^ w₁ + mid) <<< w₀ := by
    rw [Nat.shiftLeft_add, ← Nat.shiftLeft_or_distrib, ← Nat.shiftLeft_add_eq_or_of_lt hmid,
      Nat.shiftLeft_eq hi]
  rw [packFields, hor, ← Nat.shiftLeft_add_eq_or_of_lt hlo, Nat.shiftLeft_eq]

/-- Packing the three fields of a number gives the number back. -/
theorem packFields_fields (w₁ w₀ s : ℕ) :
    packFields w₁ w₀ (highField w₁ w₀ s) (midField w₁ w₀ s) (lowField w₀ s) = s := by
  rw [packFields_eq (midField_lt _ _ _) (lowField_lt _ _), highField_eq, midField_eq, lowField_eq,
    Nat.div_add_mod', Nat.div_add_mod']

/-- The fields of a packed number are the fields it was packed from. -/
theorem highField_packFields {w₁ w₀ hi mid lo : ℕ} (hmid : mid < 2 ^ w₁) (hlo : lo < 2 ^ w₀) :
    highField w₁ w₀ (packFields w₁ w₀ hi mid lo) = hi := by
  rw [packFields_eq hmid hlo, highField_eq, digits_div hlo, digits_div hmid]

theorem midField_packFields {w₁ w₀ hi mid lo : ℕ} (hmid : mid < 2 ^ w₁) (hlo : lo < 2 ^ w₀) :
    midField w₁ w₀ (packFields w₁ w₀ hi mid lo) = mid := by
  rw [packFields_eq hmid hlo, midField_eq, digits_div hlo, digits_mod hmid]

theorem lowField_packFields {w₁ w₀ hi mid lo : ℕ} (hmid : mid < 2 ^ w₁) (hlo : lo < 2 ^ w₀) :
    lowField w₀ (packFields w₁ w₀ hi mid lo) = lo := by
  rw [packFields_eq hmid hlo, lowField_eq, digits_mod hlo]

/-- Packed fields within their widths fit in the sum of the widths. -/
theorem packFields_lt {w₂ w₁ w₀ hi mid lo : ℕ} (hhi : hi < 2 ^ w₂) (hmid : mid < 2 ^ w₁)
    (hlo : lo < 2 ^ w₀) : packFields w₁ w₀ hi mid lo < 2 ^ (w₂ + w₁ + w₀) := by
  rw [packFields_eq hmid hlo, pow_add, pow_add]
  exact digits_lt (digits_lt hhi hmid) hlo

end BitFields
