import StackedDram.Basic
import StackedDram.Library.BitCount

/-!
# Pages of the DRAM cache

`DramCachePageInfo` of `dram_perf_model_normal.h`: the tag of the page that a way holds, one valid
and one dirty bit for each of its 31 blocks, the blocks touched since it was loaded, and its age.

`accessBlock` tests the bit before the one it records: it shifts the masks by `block_num - 1`, but
sets bit `block_num`. `accessBlockShifts` lists the shifts it performs.
-/

namespace StackedDram

/-- `DramCachePageInfo`, without the members that nothing reads. -/
@[ext]
structure DramCachePageInfo where
  tag : ℕ
  vbits0 : BitVec 32
  vbits1 : BitVec 32
  dbits0 : BitVec 32
  dbits1 : BitVec 32
  footprint : BitVec 32
  /-- `m_used`, eight bits wide. -/
  used : ℕ
  deriving DecidableEq, Repr

namespace DramCachePageInfo

/-- The constructor of `DramCachePageInfo`. -/
def new : DramCachePageInfo where
  tag := invalidTag
  vbits0 := BitVec.allOnes 32
  vbits1 := BitVec.allOnes 32
  dbits0 := 0
  dbits1 := 0
  footprint := 0
  used := 0

/-- `DramCachePageInfo::isValid`. -/
def IsValid (page : DramCachePageInfo) : Prop := page.tag ≠ invalidTag

instance (page : DramCachePageInfo) : Decidable page.IsValid := by
  unfold IsValid
  infer_instance

/-- `DramCachePageInfo::invalidate`, with the number of dirty blocks it returns. -/
def invalidate (page : DramCachePageInfo) : DramCachePageInfo × ℕ :=
  ({ tag := invalidTag
     vbits0 := BitVec.allOnes 32
     vbits1 := BitVec.allOnes 32
     dbits0 := 0
     dbits1 := 0
     footprint := 0
     used := 0 }, BitVec.countLoop 32 page.dbits0)

/-- `DramCachePageInfo::accessBlock`, and whether the block was found valid. The code computes the
same bit of the three other masks and does not use it. -/
def accessBlock (P : Platform) (type : MemOp) (blockNum : ℕ) (page : DramCachePageInfo) :
    DramCachePageInfo × Bool :=
  -- `block_num - 1`, which wraps around for block 0
  let v0 := (P.shiftRight page.vbits0 ((blockNum + (2 ^ 32 - 1)) % 2 ^ 32)).getLsbD 0
  ({ page with
      vbits0 := page.vbits0 ||| 1#32 <<< blockNum
      dbits0 := if type = .write then page.dbits0 ||| 1#32 <<< blockNum else page.dbits0
      footprint := page.footprint ||| 1#32 <<< blockNum }, v0)

/-- The shifts that `accessBlock` performs, as pairs of the count and the width of the operand:
four of 32-bit masks to the right, and those of `1UL` to the left. -/
def accessBlockShifts (type : MemOp) (blockNum : ℕ) : List (ℕ × ℕ) :=
  List.replicate 4 ((blockNum + (2 ^ 32 - 1)) % 2 ^ 32, 32) ++ [(blockNum, 64)] ++
    (if type = .write then [(blockNum, 64)] else []) ++ [(blockNum, 64)]

/-- An invalidated page is as good as new. -/
@[simp]
theorem invalidate_fst (page : DramCachePageInfo) : page.invalidate.1 = new := rfl

/-- `invalidate` returns the number of dirty blocks. -/
@[simp]
theorem invalidate_snd (page : DramCachePageInfo) :
    page.invalidate.2 = BitVec.bitCount page.dbits0 :=
  BitVec.countLoop_eq_bitCount page.dbits0

@[simp]
theorem new_tag : new.tag = invalidTag := rfl

@[simp]
theorem new_dbits0 : new.dbits0 = 0#32 := rfl

@[simp]
theorem new_used : new.used = 0 := rfl

theorem not_isValid_new : ¬ new.IsValid := fun h => h rfl

variable {P : Platform} {type : MemOp} {k : ℕ} {page : DramCachePageInfo}

@[simp]
theorem accessBlock_tag : (page.accessBlock P type k).1.tag = page.tag := rfl

@[simp]
theorem accessBlock_used : (page.accessBlock P type k).1.used = page.used := rfl

/-- Accessing a block sets its valid bit. -/
theorem accessBlock_vbits0 (hk : k < 32) (j : ℕ) :
    (page.accessBlock P type k).1.vbits0.getLsbD j = true ↔
      page.vbits0.getLsbD j = true ∨ j = k :=
  BitVec.getLsbD_or_one_shiftLeft _ hk j

/-- Accessing a block clears no dirty bit. -/
theorem raised_accessBlock :
    BitVec.raised (page.accessBlock P type k).1.dbits0 page.dbits0 = 0 := by
  unfold accessBlock
  dsimp only
  split_ifs
  · exact BitVec.raised_or_left _ _
  · exact BitVec.raised_self _

/-- Writing a block sets its dirty bit. -/
theorem accessBlock_dbits0_write (hk : k < 32) :
    (page.accessBlock P .write k).1.dbits0.getLsbD k = true :=
  (BitVec.getLsbD_or_one_shiftLeft _ hk k).mpr (Or.inr rfl)

/-- The count of the shifts to the right, for a block of a page. -/
theorem shiftCount_eq (hk : k < 32) :
    (k + (2 ^ 32 - 1)) % 2 ^ 32 = if k = 0 then 2 ^ 32 - 1 else k - 1 := by
  split_ifs with h0
  · subst h0
    rfl
  · omega

/-- What is tested for a block other than the first is the valid bit of the block before it. -/
theorem accessBlock_snd (h0 : 1 ≤ k) (hk : k < 32) :
    (page.accessBlock P type k).2 = page.vbits0.getLsbD (k - 1) := by
  have hshift := shiftCount_eq hk
  rw [if_neg (by omega)] at hshift
  unfold accessBlock
  dsimp only
  rw [hshift, P.shiftRight_of_lt _ (by omega), BitVec.getLsbD_ushiftRight, Nat.add_zero]

/-- All shifts are by less than the width of the operand, except those for the first block. -/
theorem accessBlockShifts_lt_iff (hk : k < 32) :
    (∀ shift ∈ accessBlockShifts type k, shift.1 < shift.2) ↔ 1 ≤ k := by
  unfold accessBlockShifts
  rw [shiftCount_eq hk]
  constructor
  · intro h
    by_contra h0
    obtain rfl : k = 0 := by omega
    -- the count has wrapped around
    exact absurd (h (2 ^ 32 - 1, 32) (by simp)) (by decide)
  · intro h0 shift hshift
    rw [if_neg (by omega)] at hshift
    have hcases : shift = (k - 1, 32) ∨ shift = (k, 64) := by
      cases type <;> simpa [or_assoc] using hshift
    rcases hcases with rfl | rfl
    · show k - 1 < 32
      omega
    · show k < 64
      omega

end DramCachePageInfo

end StackedDram
