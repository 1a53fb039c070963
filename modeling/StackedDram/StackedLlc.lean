import StackedDram.Cache.CacheSet
import StackedDram.Library.Machine
import StackedDram.SetSplit

/-!
# The stacked last-level cache

`StackedDramCacheCntlr` of `stacked_llc_power_model.cc` with its sets (`cache_set_page_lru.cc`) and
pages (`cache_page_info.cc`). The pages have the members of `DramCachePageInfo`, and the sets choose
and replace pages as `DramCacheSetUnison` does, so they are the same here; only the lookup and
`accessBlock` differ.

On a miss `ProcessRequest` is to keep the footprint of the page that is replaced in the history
table `FHT`. It asks the way for the footprint after the new page has been installed there, which
cleared it, so the table stays zero (`fht_eq_zero`). `Observed` records the accesses to every page
since it was installed, and `storesFootprint_iff` says when zero is the right entry.
-/

namespace StackedDram

/-- The platform, and what it makes of `1UL << n` for a count of 64 or more, which the language
leaves undefined. -/
structure LlcPlatform extends Platform where
  shiftLeftWide : ℕ → BitVec 64

namespace LlcPlatform

/-- `1UL << n`. -/
def oneShiftLeft (P : LlcPlatform) (n : ℕ) : BitVec 64 :=
  if n < 64 then 1#64 <<< n else P.shiftLeftWide n

/-- An x86 machine, which reduces shift counts modulo 64. -/
def x86 : LlcPlatform where
  toPlatform := .x86
  shiftLeftWide n := 1#64 <<< (n % 64)

end LlcPlatform

/-- `Core::mem_op_t`. -/
inductive LlcOp where
  | read
  | readEx
  | write
  | other
  deriving DecidableEq, Repr

/-! ## Pages -/

/-- `CachePageInfo`, without the members that nothing reads. -/
abbrev CachePageInfo := DramCachePageInfo

namespace CachePageInfo

/-- The bit of a block in the masks of a page: `1UL << (block_num - 1)`, stored in 32 bits. -/
def blockMask (P : LlcPlatform) (blockNum : ℕ) : BitVec 32 :=
  -- `block_num - 1` wraps around for block 0
  (P.oneShiftLeft ((blockNum + (2 ^ 32 - 1)) % 2 ^ 32)).setWidth 32

/-- `CachePageInfo::accessBlock`, and whether the block was found valid. The code computes the same
bit of the three other masks and does not use it. -/
def accessBlock (P : LlcPlatform) (type : LlcOp) (blockNum : ℕ) (page : CachePageInfo) :
    CachePageInfo × Bool :=
  let v0 := (P.shiftRight page.vbits0 ((blockNum + (2 ^ 32 - 1)) % 2 ^ 32)).getLsbD 0
  ({ page with
      vbits0 := page.vbits0 ||| blockMask P blockNum
      dbits0 := if type = .write then page.dbits0 ||| blockMask P blockNum else page.dbits0
      footprint := page.footprint ||| blockMask P blockNum }, v0)

/-- The bit of a block other than the first is set. -/
theorem blockMask_eq {P : LlcPlatform} {k : ℕ} (h0 : k ≠ 0) (hk : k < 31) :
    blockMask P k = 1#32 <<< (k - 1) := by
  have hcount : (k + (2 ^ 32 - 1)) % 2 ^ 32 = k - 1 := by omega
  rw [blockMask, hcount, LlcPlatform.oneShiftLeft, if_pos (by omega)]
  ext j hj
  simp [BitVec.getElem_shiftLeft]

theorem blockMask_ne_zero {P : LlcPlatform} {k : ℕ} (h0 : k ≠ 0) (hk : k < 31) :
    blockMask P k ≠ 0#32 := by
  rw [blockMask_eq h0 hk]
  intro h
  have hbit := congrArg (fun x : BitVec 32 => x.getLsbD (k - 1)) h
  simp at hbit
  omega

end CachePageInfo

/-! ## Sets -/

/-- `CacheSetPageLRU`, without the bits that nothing reads. -/
abbrev CacheSetPageLRU (A : ℕ) := DramCacheSetUnison A

namespace CacheSetPageLRU

variable {A : ℕ}

/-- `CacheSetPageLRU::accessAttempt`. The file contains an unresolved merge, of which one side
counts a write for a block that is reloaded and the other does not. -/
def accessAttempt (P : LlcPlatform) (reload : Bool) (S : CacheSetPageLRU A) (type : LlcOp)
    (tag offset : ℕ) : CacheSetPageLRU A × AccessResult :=
  let blockNum := offset / stackedBlockSize
  let S := { S with reads := S.reads + 1 }
  match S.findTag tag with
  | none => (S, .pageMiss)
  | some i =>
    let (page, found) := CachePageInfo.accessBlock P type blockNum (S.ways i)
    let S := S.setWay i page
    if found then (S, .hit)
    else (if reload then { S with writes := S.writes + 1 } else S, .blockMiss)

/-- `CacheSetPageLRU::getReplacementIndex`. -/
def getReplacementIndex [NeZero A] (S : CacheSetPageLRU A) : CacheSetPageLRU A × Fin A :=
  DramCacheSetUnison.getReplacementIndex S

/-- `CacheSetPageLRU::updateReplacementIndexTag`, and what is printed. -/
def updateReplacementIndexTag (S : CacheSetPageLRU A) (index : Fin A) (tag : ℕ)
    (footprint : BitVec 32) : CacheSetPageLRU A × List Message :=
  DramCacheSetUnison.updateReplacementIndexTag S index tag footprint

/-- What `ProcessRequest` does with a set that does not hold the page: the set, the footprint that
it stores in the table, and what is printed. -/
def replacePage [NeZero A] (S : CacheSetPageLRU A) (tag : ℕ) (footprint : BitVec 32) :
    CacheSetPageLRU A × BitVec 32 × List Message :=
  let S := { S with reads := S.reads + 1 }
  let (S, index) := getReplacementIndex S
  let (S, printed) := updateReplacementIndexTag S index tag footprint
  -- by now the way belongs to the new page
  let newFootprint := (S.ways index).footprint
  (S, newFootprint, printed)

/-- The access that `ProcessRequest` counts at its end. -/
def countOp (S : CacheSetPageLRU A) : LlcOp → CacheSetPageLRU A
  | .read | .readEx => { S with reads := S.reads + 1 }
  | .write => { S with writes := S.writes + 1 }
  | .other => S

@[simp]
theorem countOp_ways (S : CacheSetPageLRU A) (type : LlcOp) : (countOp S type).ways = S.ways := by
  cases type <;> rfl

variable (P : LlcPlatform) (reload : Bool) (S : CacheSetPageLRU A) (type : LlcOp) (tag offset : ℕ)

/-- A lookup that does not find the page only counts itself. -/
theorem accessAttempt_of_none (h : S.findTag tag = none) :
    accessAttempt P reload S type tag offset = ({ S with reads := S.reads + 1 }, .pageMiss) := by
  have hfind : DramCacheSetUnison.findTag { S with reads := S.reads + 1 } tag = none := h
  unfold accessAttempt
  dsimp only
  rw [hfind]

/-- A lookup that finds the page accesses the block in its way. -/
theorem accessAttempt_of_some {i : Fin A} (h : S.findTag tag = some i) :
    (accessAttempt P reload S type tag offset).1.ways = Function.update S.ways i
        (CachePageInfo.accessBlock P type (offset / stackedBlockSize) (S.ways i)).1 ∧
      (accessAttempt P reload S type tag offset).2 ≠ .pageMiss := by
  have hfind : DramCacheSetUnison.findTag { S with reads := S.reads + 1 } tag = some i := h
  unfold accessAttempt
  dsimp only
  rw [hfind]
  dsimp only
  split_ifs
  all_goals exact ⟨rfl, nofun⟩

/-- The new page has an empty footprint, and that is what is stored. -/
theorem replacePage_footprint [NeZero A] (footprint : BitVec 32) :
    (∀ i, ((replacePage S tag footprint).1.ways i).footprint =
        if i = S.victim then 0#32 else (S.ways i).footprint) ∧
      (replacePage S tag footprint).2.1 = 0#32 := by
  have hways : ∀ i, ((replacePage S tag footprint).1.ways i).footprint =
      if i = S.victim then 0#32 else (S.ways i).footprint := fun i => by
    obtain ⟨used, hused⟩ := DramCacheSetUnison.updateReplacementIndexTag_way
      { S with reads := S.reads + 1 + 1 } S.victim tag footprint i
    refine (congrArg DramCachePageInfo.footprint hused).trans ?_
    split <;> rfl
  exact ⟨hways, (hways S.victim).trans (if_pos rfl)⟩

end CacheSetPageLRU

/-! ## The controller -/

/-- What `StackedDramCacheCntlr` is constructed from. -/
structure LlcConfig extends SetSplit where
  blocksize : ℕ
  blocksize_eq : blocksize = stackedBlockSize
  /-- `FHT` has an entry for every block of a page. -/
  size_le : size ≤ 31 * stackedBlockSize

theorem stackedSets_pos : 0 < stackedDramSize / stackedSetSize := by decide

theorem stackedSets_lt : stackedDramSize / stackedSetSize < 2 ^ 32 := by decide

theorem stackedPageSize_pos : 0 < stackedPageSize := by decide

theorem stackedPageSize_lt : stackedPageSize < 2 ^ 32 := by decide

theorem stackedPageSize_le : stackedPageSize ≤ 31 * stackedBlockSize := by decide

/-- What `CacheCntlr` constructs its stacked cache from, except for the four ways. -/
def LlcConfig.ofCacheCntlr : LlcConfig where
  setNum := stackedDramSize / stackedSetSize
  size := stackedPageSize
  blocksize := stackedBlockSize
  setNum_pos := stackedSets_pos
  setNum_lt := stackedSets_lt
  size_pos := stackedPageSize_pos
  size_lt := stackedPageSize_lt
  blocksize_eq := rfl
  size_le := stackedPageSize_le

/-- Unlike those of the Alloy cache, all sets of this one are used. -/
theorem LlcConfig.usesEverySet (P : Platform) : LlcConfig.ofCacheCntlr.UsesEverySet P :=
  SetSplit.usesEverySet_of_two_pow P (k := 19) rfl

/-- A request. -/
structure LlcRequest where
  type : LlcOp
  address : ℕ

/-- `StackedDramCacheCntlr` with `A` ways, without the statistics that its destructor prints. -/
structure StackedDramCacheCntlr (A : ℕ) where
  set : ℕ → CacheSetPageLRU A
  /-- `FHT`, the footprint history table. -/
  fht : ℕ → BitVec 32

namespace StackedDramCacheCntlr

variable {A : ℕ}

/-- The constructor of `StackedDramCacheCntlr`. -/
def new : StackedDramCacheCntlr A where
  set i :=
    let offset := i >>> 12
    .new (offset &&& (1 <<< 5 - 1)) ((i >>> 11) &&& 1) ((offset >>> 5) &&& 3)
  fht _ := 0

/-- The set of a request. -/
def setOf (P : LlcPlatform) (cfg : LlcConfig) (q : LlcRequest) : ℕ :=
  (cfg.splitAddress P.toPlatform q.address).setN

/-- The block of the page that is requested. -/
def blockOf (P : LlcPlatform) (cfg : LlcConfig) (q : LlcRequest) : ℕ :=
  (cfg.splitAddress P.toPlatform q.address).offset / stackedBlockSize

/-- The way that holds the page of a request. -/
def find (C : StackedDramCacheCntlr A) (P : LlcPlatform) (cfg : LlcConfig) (q : LlcRequest) :
    Option (Fin A) :=
  (C.set (setOf P cfg q)).findTag (cfg.splitAddress P.toPlatform q.address).tag

variable [NeZero A]

/-- `StackedDramCacheCntlr::ProcessRequest`, and what is printed. -/
def processRequest (C : StackedDramCacheCntlr A) (P : LlcPlatform) (reload : Bool)
    (cfg : LlcConfig) (q : LlcRequest) : StackedDramCacheCntlr A × List Message :=
  let a := cfg.splitAddress P.toPlatform q.address
  let blockNum := a.offset / cfg.blocksize % 2 ^ 8
  let footprint := C.fht blockNum
  let (S, res) := CacheSetPageLRU.accessAttempt P reload (C.set a.setN) q.type a.tag a.offset
  let (S, fht, printed) :=
    if res = .pageMiss then
      let (S, newFootprint, printed) := CacheSetPageLRU.replacePage S a.tag footprint
      (S, Function.update C.fht blockNum newFootprint, printed)
    else (S, C.fht, [])
  ({ set := Function.update C.set a.setN (CacheSetPageLRU.countOp S q.type), fht }, printed)

/-! ## One request -/

section Request

variable (C : StackedDramCacheCntlr A) (P : LlcPlatform) (reload : Bool) (cfg : LlcConfig)
  (q : LlcRequest)

omit [NeZero A] in
theorem blockOf_lt : blockOf P cfg q < 31 :=
  Nat.div_lt_of_lt_mul ((cfg.splitAddress_offset_lt P.toPlatform q.address).trans_le
    (cfg.size_le.trans_eq (Nat.mul_comm _ _)))

omit [NeZero A] in
/-- The entry of the table is that of the requested block. -/
theorem blockNum_eq :
    (cfg.splitAddress P.toPlatform q.address).offset / cfg.blocksize % 2 ^ 8 =
      blockOf P cfg q := by
  rw [cfg.blocksize_eq]
  exact Nat.mod_eq_of_lt ((blockOf_lt P cfg q).trans (by decide))

/-- A request touches the set of its address only. -/
theorem processRequest_set_of_ne {s : ℕ} (hs : s ≠ setOf P cfg q) :
    (C.processRequest P reload cfg q).1.set s = C.set s :=
  Function.update_of_ne hs _ _

/-- A request that finds its page accesses the block there. -/
theorem processRequest_of_some {i : Fin A} (h : C.find P cfg q = some i) :
    ((C.processRequest P reload cfg q).1.set (setOf P cfg q)).ways =
        Function.update (C.set (setOf P cfg q)).ways i
          (CachePageInfo.accessBlock P q.type (blockOf P cfg q)
            ((C.set (setOf P cfg q)).ways i)).1 ∧
      (C.processRequest P reload cfg q).1.fht = C.fht := by
  obtain ⟨hways, hres⟩ := CacheSetPageLRU.accessAttempt_of_some P reload (C.set (setOf P cfg q))
    q.type _ (cfg.splitAddress P.toPlatform q.address).offset h
  unfold processRequest
  dsimp only
  rw [setOf] at hways hres ⊢
  -- no page is replaced, and the counters of the set do not touch its ways
  rw [if_neg hres, Function.update_self, CacheSetPageLRU.countOp_ways]
  exact ⟨hways, rfl⟩

/-- A request that does not find its page installs it in the place of the victim, with an empty
footprint, and an empty footprint is stored in the table. -/
theorem processRequest_of_none (h : C.find P cfg q = none) :
    (∀ i, (((C.processRequest P reload cfg q).1.set (setOf P cfg q)).ways i).footprint =
        if i = (C.set (setOf P cfg q)).victim then 0#32
        else ((C.set (setOf P cfg q)).ways i).footprint) ∧
      (C.processRequest P reload cfg q).1.fht =
        Function.update C.fht (blockOf P cfg q) 0#32 := by
  have hlookup := CacheSetPageLRU.accessAttempt_of_none P reload (C.set (setOf P cfg q)) q.type _
    (cfg.splitAddress P.toPlatform q.address).offset h
  obtain ⟨hways, hstored⟩ := CacheSetPageLRU.replacePage_footprint
    { C.set (setOf P cfg q) with reads := (C.set (setOf P cfg q)).reads + 1 }
    (cfg.splitAddress P.toPlatform q.address).tag (C.fht (blockOf P cfg q))
  unfold processRequest
  dsimp only
  rw [setOf] at hlookup hways hstored ⊢
  -- a lookup that misses leaves the ways as they are, so the victim is that of the state before
  rw [blockNum_eq, hlookup, if_pos rfl, Function.update_self, CacheSetPageLRU.countOp_ways]
  exact ⟨hways, congrArg (Function.update C.fht (blockOf P cfg q)) hstored⟩

end Request

end StackedDramCacheCntlr

/-! ## The accesses to a page -/

/-- The controller, with the blocks of the page in every way of every set that have been accessed
since the page was installed. -/
structure Observed (A : ℕ) where
  cntlr : StackedDramCacheCntlr A
  accessed : ℕ → Fin A → List ℕ

namespace Observed

open StackedDramCacheCntlr

variable {A : ℕ}

/-- The mask of some blocks of a page. -/
def maskOf (P : LlcPlatform) (blocks : List ℕ) : BitVec 32 :=
  blocks.foldl (fun mask b => mask ||| CachePageInfo.blockMask P b) 0#32

/-- Nothing has been installed. -/
def new : Observed A where
  cntlr := .new
  accessed _ _ := []

section

variable [NeZero A] (P : LlcPlatform) (reload : Bool) (cfg : LlcConfig)

/-- A request is an access to the page that it finds. A page that it installs has not been
accessed. -/
def step (O : Observed A) (q : LlcRequest) : Observed A where
  cntlr := (O.cntlr.processRequest P reload cfg q).1
  accessed :=
    let s := setOf P cfg q
    let blocks :=
      match O.cntlr.find P cfg q with
      | some i => Function.update (O.accessed s) i (O.accessed s i ++ [blockOf P cfg q])
      | none => Function.update (O.accessed s) (O.cntlr.set s).victim []
    Function.update O.accessed s blocks

/-- The controller under a sequence of requests. -/
def machine : Machine (Observed A) LlcRequest where
  init := new
  step := step P reload cfg

/-- The blocks that have been accessed of the page that a request would replace. -/
def replaced (P : LlcPlatform) (cfg : LlcConfig) (O : Observed A) (q : LlcRequest) : List ℕ :=
  O.accessed (setOf P cfg q) (O.cntlr.set (setOf P cfg q)).victim

/-- If the request misses its page, the table has the footprint of the page that it replaces in the
entry of the requested block. -/
def StoresFootprint (O : Observed A) (q : LlcRequest) : Prop :=
  O.cntlr.find P cfg q = none →
    (O.step P reload cfg q).cntlr.fht (blockOf P cfg q) = maskOf P (O.replaced P cfg q)

/-- If the request misses its page, then of the page that it replaces no block has been accessed but
the first, and that only if the shift that is undefined for it gives no bit of a mask. -/
def ReplacesUntouched (O : Observed A) (q : LlcRequest) : Prop :=
  O.cntlr.find P cfg q = none →
    ∀ b ∈ O.replaced P cfg q, b = 0 ∧ CachePageInfo.blockMask P 0 = 0#32

end

/-- The footprints are those of the accesses, and the history table is empty. -/
structure Faithful (P : LlcPlatform) (O : Observed A) : Prop where
  footprint_eq : ∀ s i, ((O.cntlr.set s).ways i).footprint = maskOf P (O.accessed s i)
  block_lt : ∀ s i, ∀ b ∈ O.accessed s i, b < 31
  fht_eq : ∀ k, O.cntlr.fht k = 0#32

variable {P : LlcPlatform} {reload : Bool} {cfg : LlcConfig} {O : Observed A} {blocks : List ℕ}

theorem maskOf_concat (blocks : List ℕ) (b : ℕ) :
    maskOf P (blocks ++ [b]) = maskOf P blocks ||| CachePageInfo.blockMask P b := by
  rw [maskOf, List.foldl_append]
  rfl

/-- A mask is empty when every block contributes nothing to it, which only the first can do. -/
theorem maskOf_eq_zero_iff (hblocks : ∀ b ∈ blocks, b < 31) :
    maskOf P blocks = 0#32 ↔ ∀ b ∈ blocks, b = 0 ∧ CachePageInfo.blockMask P 0 = 0#32 := by
  induction blocks using List.reverseRecOn with
  | nil => exact iff_of_true rfl (by simp)
  | append_singleton blocks b ih =>
    -- the blocks from 1 to 30 have a bit of their own
    have hb : CachePageInfo.blockMask P b = 0#32 ↔ b = 0 ∧ CachePageInfo.blockMask P 0 = 0#32 := by
      constructor
      · intro hzero
        have hb0 : b = 0 := by
          by_contra hne
          exact CachePageInfo.blockMask_ne_zero hne (hblocks b (by simp)) hzero
        exact ⟨hb0, hb0 ▸ hzero⟩
      · rintro ⟨rfl, hzero⟩
        exact hzero
    rw [maskOf_concat, BitVec.or_eq_zero_iff, hb,
      ih fun b hb => hblocks b (List.mem_append_left _ hb), List.forall_mem_append,
      List.forall_mem_singleton]

theorem faithful_new : (new : Observed A).Faithful P where
  footprint_eq _ _ := rfl
  block_lt _ _ _ hb := absurd hb List.not_mem_nil
  fht_eq _ := rfl

variable [NeZero A] (q : LlcRequest)

theorem step_accessed_of_ne {s : ℕ} (hs : s ≠ setOf P cfg q) :
    (O.step P reload cfg q).accessed s = O.accessed s :=
  Function.update_of_ne hs _ _

theorem step_accessed_of_some {i : Fin A} (h : O.cntlr.find P cfg q = some i) (j : Fin A) :
    (O.step P reload cfg q).accessed (setOf P cfg q) j =
      if j = i then O.accessed (setOf P cfg q) i ++ [blockOf P cfg q]
      else O.accessed (setOf P cfg q) j := by
  simp only [step, Function.update_self, h]
  exact Function.update_apply _ _ _ _

theorem step_accessed_of_none (h : O.cntlr.find P cfg q = none) (j : Fin A) :
    (O.step P reload cfg q).accessed (setOf P cfg q) j =
      if j = (O.cntlr.set (setOf P cfg q)).victim then []
      else O.accessed (setOf P cfg q) j := by
  simp only [step, Function.update_self, h]
  exact Function.update_apply _ _ _ _

/-- A request concerns one set, so only there the footprints are to be compared again. -/
theorem Faithful.step_of_set (h : O.Faithful P)
    (hset : ∀ j, (((O.step P reload cfg q).cntlr.set (setOf P cfg q)).ways j).footprint =
        maskOf P ((O.step P reload cfg q).accessed (setOf P cfg q) j) ∧
      ∀ b ∈ (O.step P reload cfg q).accessed (setOf P cfg q) j, b < 31)
    (hfht : ∀ k, (O.step P reload cfg q).cntlr.fht k = 0#32) :
    (O.step P reload cfg q).Faithful P where
  footprint_eq s j := by
    by_cases hs : s = setOf P cfg q
    · exact hs ▸ (hset j).1
    · rw [step_accessed_of_ne q hs, ← h.footprint_eq]
      exact congrArg (fun S => (S.ways j).footprint)
        (O.cntlr.processRequest_set_of_ne P reload cfg q hs)
  block_lt s j := by
    by_cases hs : s = setOf P cfg q
    · exact hs ▸ (hset j).2
    · rw [step_accessed_of_ne q hs]
      exact h.block_lt s j
  fht_eq := hfht

/-- A page that is found keeps its history and gets one access more. -/
theorem Faithful.step_of_some (h : O.Faithful P) {i : Fin A}
    (hfind : O.cntlr.find P cfg q = some i) : (O.step P reload cfg q).Faithful P := by
  obtain ⟨hways, hfht⟩ := O.cntlr.processRequest_of_some P reload cfg q hfind
  refine h.step_of_set q (fun j => ?_) fun k => (congrFun hfht k).trans (h.fht_eq k)
  rw [step_accessed_of_some q hfind]
  change (((O.cntlr.processRequest P reload cfg q).1.set (setOf P cfg q)).ways j).footprint = _ ∧ _
  rw [hways, Function.update_apply]
  split_ifs with hj
  · -- the way that is found: the page and its history both get the block
    constructor
    · rw [maskOf_concat, ← h.footprint_eq]
      rfl
    · intro b hb
      rcases List.mem_append.mp hb with hb | hb
      · exact h.block_lt _ i b hb
      · rw [List.mem_singleton.mp hb]
        exact blockOf_lt P cfg q
  · exact ⟨h.footprint_eq _ j, h.block_lt _ j⟩

/-- A page that is installed starts its history. -/
theorem Faithful.step_of_none (h : O.Faithful P) (hfind : O.cntlr.find P cfg q = none) :
    (O.step P reload cfg q).Faithful P := by
  obtain ⟨hways, hfht⟩ := O.cntlr.processRequest_of_none P reload cfg q hfind
  refine h.step_of_set q (fun j => ?_) fun k => ?_
  · rw [step_accessed_of_none q hfind]
    have hway := hways j
    split_ifs at hway ⊢
    -- the footprint of the new page is the one of the table, which has none
    · exact ⟨hway, fun b hb => absurd hb List.not_mem_nil⟩
    · exact ⟨hway.trans (h.footprint_eq _ j), h.block_lt _ j⟩
  · -- what the request writes to the table is the footprint of an empty page
    refine (congrFun hfht k).trans ?_
    rw [Function.update_apply, h.fht_eq]
    exact ite_self _

theorem faithful_of_reachable (hO : (machine P reload cfg).Reachable O) : O.Faithful P := by
  refine hO.invariant faithful_new fun O q _ h => ?_
  cases hfind : O.cntlr.find P cfg q with
  | some i => exact h.step_of_some q hfind
  | none => exact h.step_of_none q hfind

/-- In no run does the history table ever have an entry. -/
theorem fht_eq_zero (hO : (machine P reload cfg).Reachable O) (k : ℕ) : O.cntlr.fht k = 0#32 :=
  (faithful_of_reachable hO).fht_eq k

/-- In every state. -/
theorem storesFootprint_iff_of_reachable (hO : (machine P reload cfg).Reachable O) :
    O.StoresFootprint P reload cfg q ↔ O.ReplacesUntouched P cfg q := by
  have hlt : ∀ b ∈ O.replaced P cfg q, b < 31 := (faithful_of_reachable hO).block_lt _ _
  have hzero : (O.step P reload cfg q).cntlr.fht (blockOf P cfg q) = 0#32 :=
    fht_eq_zero (hO.step q) _
  rw [StoresFootprint, ReplacesUntouched]
  refine forall_congr' fun _ => ?_
  -- the table has `0`, so the mask has to be `0`
  rw [← maskOf_eq_zero_iff hlt, hzero]
  exact eq_comm

/-- For every run and each of its requests: a request that misses stores the footprint of the page
that it replaces, if and only if that page has not been touched, or only in its first block and
without a trace. -/
theorem storesFootprint_iff (P : LlcPlatform) (reload : Bool) (cfg : LlcConfig) (A : ℕ) [NeZero A]
    (reqs : List LlcRequest) :
    let M : Machine (Observed A) LlcRequest := machine P reload cfg
    (∀ q, (M.run reqs).StoresFootprint P reload cfg q ↔
        (M.run reqs).ReplacesUntouched P cfg q) ∧
      (M.AllSteps (StoresFootprint P reload cfg) reqs ↔
        M.AllSteps (ReplacesUntouched P cfg) reqs) := by
  refine ⟨fun q => storesFootprint_iff_of_reachable q (Machine.reachable_run reqs), ?_⟩
  exact forall_congr' fun before => forall_congr' fun q => forall_congr' fun _ =>
    forall_congr' fun _ => storesFootprint_iff_of_reachable q (Machine.reachable_run before)

/-- The first request of a cache replaces an empty way. -/
theorem storesFootprint_iff_first :
    (new : Observed 4).StoresFootprint .x86 false .ofCacheCntlr ⟨.read, 64⟩ :=
  ((storesFootprint_iff .x86 false .ofCacheCntlr 4 []).1 ⟨.read, 64⟩).mpr
    fun _ _ hb => absurd hb List.not_mem_nil

/-- The second page of set 0 replaces the first one, of which block 1 has been accessed, and the
table does not show it. -/
theorem not_storesFootprint :
    ¬ ((machine .x86 false .ofCacheCntlr : Machine (Observed 4) LlcRequest).run
      [⟨.read, 64⟩, ⟨.read, 64⟩]).StoresFootprint .x86 false .ofCacheCntlr
        ⟨.read, 1984 * 2 ^ 19⟩ := by
  intro h
  exact absurd (h (by decide +kernel)) (by decide +kernel)

end Observed
end StackedDram
