import Mathlib.Algebra.BigOperators.Group.List.Basic
import Mathlib.Data.List.Induction
import Mathlib.Data.Nat.Bitwise

/-!
# Words made of any number of fields

A word holds the values of the fields in a list, the first field in the highest bits. `pack` builds
it from the top, one shift and disjunction for each field; `unpack` takes it apart from the bottom,
one mask and shift for each field. Fields of values within their widths come out as they were put
in (`unpack_pack`), so words are equal only if their fields are (`pack_inj`).

`pushField` is one step of `pack` in a register of a fixed width, where bits can be lost; they are
not as long as the fields fit (`foldl_pushField`).
-/

namespace PackedFields

variable {ι : Type*} (width value : ι → ℕ)

/-- `word <<= width; word |= value & ((1 << width) - 1);` in a register of `w` bits. -/
def pushField (w word width value : ℕ) : ℕ :=
  word <<< width % 2 ^ w ||| value &&& (2 ^ width - 1)

/-- The word of the fields in the list, the first one in the highest bits. -/
def pack (order : List ι) : ℕ :=
  order.foldl (fun word i => word <<< width i ||| value i &&& (2 ^ width i - 1)) 0

/-- The number of bits of the fields. -/
def bitsOf (order : List ι) : ℕ := (order.map width).sum

variable {width value} {order : List ι} {i : ι}

@[simp]
theorem pack_nil : pack width value [] = 0 := rfl

theorem pack_concat (order : List ι) (i : ι) :
    pack width value (order ++ [i]) =
      pack width value order <<< width i ||| value i &&& (2 ^ width i - 1) := by
  rw [pack, List.foldl_append]
  rfl

theorem bitsOf_concat (order : List ι) (i : ι) :
    bitsOf width (order ++ [i]) = bitsOf width order + width i := by
  simp [bitsOf]

/-- Adding a field is arithmetic to the base of its width. -/
theorem pack_concat_eq (order : List ι) (i : ι) :
    pack width value (order ++ [i]) =
      pack width value order * 2 ^ width i + value i % 2 ^ width i := by
  rw [pack_concat, Nat.and_two_pow_sub_one_eq_mod, ← Nat.shiftLeft_add_eq_or_of_lt
    (Nat.mod_lt _ (Nat.two_pow_pos _)), Nat.shiftLeft_eq]

/-- A word fits in the bits of its fields. -/
theorem pack_lt (order : List ι) : pack width value order < 2 ^ bitsOf width order := by
  induction order using List.reverseRecOn with
  | nil => exact Nat.one_pos
  | append_singleton order i ih =>
    have hfield : value i % 2 ^ width i < 2 ^ width i := Nat.mod_lt _ (Nat.two_pow_pos _)
    rw [pack_concat_eq, bitsOf_concat, pow_add]
    calc pack width value order * 2 ^ width i + value i % 2 ^ width i
        < (pack width value order + 1) * 2 ^ width i := by
          rw [Nat.add_mul, Nat.one_mul]
          omega
      _ ≤ 2 ^ bitsOf width order * 2 ^ width i := Nat.mul_le_mul_right _ ih

/-- Nothing is lost in a register that is wide enough for all fields. -/
theorem foldl_pushField {w : ℕ} (order : List ι) (h : bitsOf width order ≤ w) :
    order.foldl (fun word i => pushField w word (width i) (value i)) 0 =
      pack width value order := by
  induction order using List.reverseRecOn with
  | nil => rfl
  | append_singleton order i ih =>
    rw [bitsOf_concat] at h
    have hlt : pack width value order <<< width i < 2 ^ w := by
      rw [Nat.shiftLeft_eq]
      calc pack width value order * 2 ^ width i
          < 2 ^ bitsOf width order * 2 ^ width i :=
            Nat.mul_lt_mul_of_pos_right (pack_lt order) (Nat.two_pow_pos _)
        _ = 2 ^ (bitsOf width order + width i) := (pow_add 2 _ _).symm
        _ ≤ 2 ^ w := Nat.pow_le_pow_right Nat.two_pos h
    rw [List.foldl_append, ih (by omega), List.foldl_cons, List.foldl_nil, pushField,
      Nat.mod_eq_of_lt hlt, pack_concat]

variable [DecidableEq ι]

variable (width) in
/-- `fields[i] = word & ((1 << width) - 1); word >>= width;` -/
def takeField (st : (ι → ℕ) × ℕ) (i : ι) : (ι → ℕ) × ℕ :=
  (Function.update st.1 i (st.2 &&& (2 ^ width i - 1)), st.2 >>> width i)

variable (width) in
/-- The fields of a word, the first of the list in the lowest bits, written over `fields`. -/
def unpack (order : List ι) (fields : ι → ℕ) (word : ℕ) : ι → ℕ :=
  (order.foldl (takeField width) (fields, word)).1

/-- The lowest field of a word, and what is above it. -/
theorem takeField_pack (hvalue : value i < 2 ^ width i) (order : List ι) (fields : ι → ℕ) :
    takeField width (fields, pack width value (order ++ [i])) i =
      (Function.update fields i (value i), pack width value order) := by
  rw [takeField, pack_concat_eq, Nat.mod_eq_of_lt hvalue, Nat.and_two_pow_sub_one_eq_mod,
    Nat.shiftRight_eq_div_pow, Nat.mul_comm, Nat.mul_add_mod, Nat.mod_eq_of_lt hvalue,
    Nat.mul_add_div (Nat.two_pow_pos _), Nat.div_eq_of_lt hvalue, Nat.add_zero]

/-- A field fits in its width once it has been taken out. -/
theorem foldl_takeField_lt {st : (ι → ℕ) × ℕ} (h : i ∈ order ∨ st.1 i < 2 ^ width i) :
    (order.foldl (takeField width) st).1 i < 2 ^ width i := by
  induction order generalizing st with
  | nil =>
    rcases h with hmem | hlt
    · exact absurd hmem List.not_mem_nil
    · exact hlt
  | cons j order ih =>
    refine ih ?_
    rw [takeField]
    dsimp only
    by_cases hji : i = j
    · subst hji
      right
      rw [Function.update_self, Nat.and_two_pow_sub_one_eq_mod]
      exact Nat.mod_lt _ (Nat.two_pow_pos _)
    · rw [Function.update_of_ne hji]
      exact h.imp_left fun hmem => (List.mem_cons.mp hmem).resolve_left hji

theorem unpack_lt (hi : i ∈ order) (fields : ι → ℕ) (word : ℕ) :
    unpack width order fields word i < 2 ^ width i :=
  foldl_takeField_lt (Or.inl hi)

/-- The fields of a word in the order from the bottom are the values it was made of. -/
theorem unpack_pack (hvalue : ∀ i ∈ order, value i < 2 ^ width i) (fields : ι → ℕ) :
    unpack width order.reverse fields (pack width value order) =
      fun i => if i ∈ order then value i else fields i := by
  -- the last field of the list is taken out first
  induction order using List.reverseRecOn generalizing fields with
  | nil =>
    funext i
    rw [if_neg List.not_mem_nil]
    rfl
  | append_singleton order i ih =>
    have ih' := ih (fun j hj => hvalue j (List.mem_append_left _ hj))
      (Function.update fields i (value i))
    rw [unpack, List.reverse_append, List.reverse_singleton, List.singleton_append,
      List.foldl_cons, takeField_pack (hvalue i (by simp)), ← unpack, ih']
    funext j
    by_cases hj : j ∈ order
    · rw [if_pos hj, if_pos (List.mem_append_left _ hj)]
    · by_cases hji : j = i
      · subst hji
        simp
      · rw [if_neg hj, if_neg (by simp [hj, hji]), Function.update_of_ne hji]

/-- Words are equal only if their fields are. -/
theorem pack_inj {value' : ι → ℕ} (hvalue : ∀ i ∈ order, value i < 2 ^ width i)
    (hvalue' : ∀ i ∈ order, value' i < 2 ^ width i)
    (h : pack width value order = pack width value' order) (hi : i ∈ order) :
    value i = value' i := by
  have hunpack := unpack_pack hvalue value
  rw [h, unpack_pack hvalue'] at hunpack
  have hfield := congrFun hunpack i
  rw [if_pos hi, if_pos hi] at hfield
  exact hfield.symm

end PackedFields
