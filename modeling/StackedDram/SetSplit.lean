import Mathlib.Data.Set.Function
import StackedDram.Basic
import StackedDram.Library.BitFields

/-!
# Sets by a mask

`StackDramCacheCntlrAlloy` of `dram_perf_model_alloy.cc` and `StackedDramCacheCntlr` of
`stacked_llc_power_model.cc` have the same `SplitAddress`: an address is divided by the size of a
block, or of a page, and of the quotient the low bits are the number of the set and the others the
tag. The low bits are `floorLog2` of the number of sets, so no address is lost
(`joinAddress_splitAddress`) but the sets above the largest power of two are nobody's home
(`exists_home_iff`). With a power of two of sets `SplitAddress` is a bijection
(`usesEverySet_of_two_pow`).
-/

namespace StackedDram

open BitFields

/-- `StackedDramSize`, in KB. -/
def stackedDramSize : ℕ := 4 * 1024 * 1024

/-- `StackedSetSize`, in KB. -/
def stackedSetSize : ℕ := 8

/-- What `SplitAddress` depends on; 32-bit numbers. -/
structure SetSplit where
  setNum : ℕ
  /-- `m_blocksize` or `m_pagesize`. -/
  size : ℕ
  setNum_pos : 0 < setNum
  setNum_lt : setNum < 2 ^ 32
  size_pos : 0 < size
  size_lt : size < 2 ^ 32

/-- The results of `SplitAddress`: the set, and the tag of the block or page and the offset in
it. -/
@[ext]
structure SplitAddress where
  setN : ℕ
  tag : ℕ
  offset : ℕ
  deriving DecidableEq

namespace SetSplit

variable (P : Platform) (cfg : SetSplit)

/-- The bits of an address that are the number of its set. -/
def setBits : ℕ := P.floorLog2 cfg.setNum

/-- `SplitAddress`. -/
def splitAddress (address : ℕ) : SplitAddress :=
  let addr := address / cfg.size
  { setN := lowField (cfg.setBits P) addr % 2 ^ 32
    tag := addr >>> cfg.setBits P
    offset := address % cfg.size }

/-- The address that has the given parts. -/
def joinAddress (a : SplitAddress) : ℕ := (a.tag * 2 ^ cfg.setBits P + a.setN) * cfg.size + a.offset

/-- The parts of the 64-bit addresses: a tag, one of the allocated sets and an offset. -/
def parts : Set SplitAddress :=
  {a | a.setN < cfg.setNum ∧ a.offset < cfg.size ∧ cfg.joinAddress P a < 2 ^ 64}

/-- `SplitAddress` maps the 64-bit addresses onto the allocated sets, and loses nothing. -/
structure UsesEverySet : Prop where
  inRange : ∀ address < 2 ^ 64, (cfg.splitAddress P address).setN < cfg.setNum
  home : ∀ s < cfg.setNum, ∃ address < 2 ^ 64, (cfg.splitAddress P address).setN = s
  recover : ∀ address < 2 ^ 64, cfg.joinAddress P (cfg.splitAddress P address) = address
  bijOn : Set.BijOn (cfg.splitAddress P) (Set.Iio (2 ^ 64)) (cfg.parts P)

theorem two_pow_setBits_le : 2 ^ cfg.setBits P ≤ cfg.setNum := by
  rw [setBits, P.floorLog2_spec _ cfg.setNum_pos]
  exact Nat.pow_log_le_self 2 cfg.setNum_pos.ne'

theorem setBits_lt : cfg.setBits P < 32 := by
  have hlt : 2 ^ cfg.setBits P < 2 ^ 32 := (cfg.two_pow_setBits_le P).trans_lt cfg.setNum_lt
  exact (Nat.pow_lt_pow_iff_right (by decide)).mp hlt

section Parts

variable (address : ℕ)

/-- The set is a remainder: the mask fits in 32 bits. -/
theorem splitAddress_setN :
    (cfg.splitAddress P address).setN = address / cfg.size % 2 ^ cfg.setBits P := by
  have hlt := lowField_lt (cfg.setBits P) (address / cfg.size)
  have hpow : 2 ^ cfg.setBits P < 2 ^ 32 := Nat.pow_lt_pow_right (by decide) (cfg.setBits_lt P)
  rw [splitAddress, Nat.mod_eq_of_lt (hlt.trans hpow), lowField_eq]

theorem splitAddress_tag :
    (cfg.splitAddress P address).tag = address / cfg.size / 2 ^ cfg.setBits P :=
  Nat.shiftRight_eq_div_pow _ _

theorem splitAddress_setN_lt : (cfg.splitAddress P address).setN < 2 ^ cfg.setBits P := by
  rw [splitAddress_setN]
  exact Nat.mod_lt _ (Nat.two_pow_pos _)

theorem splitAddress_offset_lt : (cfg.splitAddress P address).offset < cfg.size :=
  Nat.mod_lt _ cfg.size_pos

/-- The tag and the set make up the quotient. -/
theorem tag_mul_add_setN :
    (cfg.splitAddress P address).tag * 2 ^ cfg.setBits P + (cfg.splitAddress P address).setN =
      address / cfg.size := by
  rw [splitAddress_setN, splitAddress_tag]
  exact Nat.div_add_mod' _ _

/-- The address can be recovered from its parts. -/
theorem joinAddress_splitAddress : cfg.joinAddress P (cfg.splitAddress P address) = address := by
  rw [joinAddress, tag_mul_add_setN]
  exact Nat.div_add_mod' _ _

end Parts

/-- Parts with a set that the mask can give are those of the address they make up. -/
theorem splitAddress_joinAddress {a : SplitAddress} (hset : a.setN < 2 ^ cfg.setBits P)
    (hoffset : a.offset < cfg.size) : cfg.splitAddress P (cfg.joinAddress P a) = a := by
  have hquotient : cfg.joinAddress P a / cfg.size = a.tag * 2 ^ cfg.setBits P + a.setN :=
    digits_div hoffset
  ext
  · rw [splitAddress_setN, hquotient, digits_mod hset]
  · rw [splitAddress_tag, hquotient, digits_div hset]
  · exact digits_mod hoffset

/-- In one set the tag decides about the quotient. -/
theorem tag_eq_iff {a b : ℕ} (hset : (cfg.splitAddress P a).setN = (cfg.splitAddress P b).setN) :
    (cfg.splitAddress P a).tag = (cfg.splitAddress P b).tag ↔ a / cfg.size = b / cfg.size := by
  constructor
  · intro htag
    rw [← cfg.tag_mul_add_setN P, ← cfg.tag_mul_add_setN P, htag, hset]
  · intro hquotient
    rw [splitAddress_tag, splitAddress_tag, hquotient]

/-- The sets that are used are those below the largest power of two. -/
theorem exists_home_iff (s : ℕ) :
    (∃ address < 2 ^ 64, (cfg.splitAddress P address).setN = s) ↔ s < 2 ^ cfg.setBits P := by
  constructor
  · rintro ⟨address, -, rfl⟩
    exact cfg.splitAddress_setN_lt P address
  · intro hs
    refine ⟨s * cfg.size, ?_, ?_⟩
    · have hs32 : s < 2 ^ 32 := hs.trans_le (Nat.pow_le_pow_right (by decide) (cfg.setBits_lt P).le)
      calc s * cfg.size < 2 ^ 32 * 2 ^ 32 := Nat.mul_lt_mul'' hs32 cfg.size_lt
        _ = 2 ^ 64 := by norm_num
    · rw [splitAddress_setN, Nat.mul_div_cancel _ cfg.size_pos, Nat.mod_eq_of_lt hs]

variable {cfg}

/-- With a power of two of sets every set is used. -/
theorem usesEverySet_of_two_pow {k : ℕ} (hk : cfg.setNum = 2 ^ k) : cfg.UsesEverySet P := by
  have hbits : 2 ^ cfg.setBits P = cfg.setNum := by rw [setBits, hk, P.floorLog2_two_pow]
  have hset : ∀ address, (cfg.splitAddress P address).setN < cfg.setNum := fun a =>
    hbits ▸ cfg.splitAddress_setN_lt P a
  refine ⟨fun a _ => hset a, fun s hs => (cfg.exists_home_iff P s).mpr (hbits ▸ hs),
    fun a _ => cfg.joinAddress_splitAddress P a, fun a ha => ?_, fun a _ b _ hab => ?_,
    fun a ha => ⟨cfg.joinAddress P a, ha.2.2, ?_⟩⟩
  -- the parts of an address are in range, determine it, and every choice of them is taken
  · refine ⟨hset a, cfg.splitAddress_offset_lt P a, ?_⟩
    rw [joinAddress_splitAddress]
    exact ha
  · rw [← cfg.joinAddress_splitAddress P a, hab, joinAddress_splitAddress]
  · exact cfg.splitAddress_joinAddress P (hbits ▸ ha.1) ha.2.1

end SetSplit
end StackedDram
