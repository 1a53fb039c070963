import Mathlib.Data.List.FinRange
import Mathlib.Data.Fintype.Basic
import StackedDram.Cache.PageInfo

/-!
# Sets of the DRAM cache

`DramCacheSetUnison` of `dram_perf_model_normal.cc`: `A` ways, the lookup of a block
(`accessAttempt`), the choice of a victim (`getReplacementIndex`) and the installation of a page in
its place (`updateReplacementIndexTag`). `replacePage` is what `ProcessRequest` does with the set
when no way holds the requested page.

The lemmas say what each operation does to the ways: a lookup changes the way that holds the page
and no other (`accessAttempt_ways`), and replacing a page of which the set holds no copy overwrites
the victim alone (`replacePage_ways`).
-/

namespace StackedDram

/-- The result of a lookup; in the code `0`, `1` and `2`. -/
inductive AccessResult where
  /-- No way holds the page. -/
  | pageMiss
  /-- The page is held, but the test for the block failed. -/
  | blockMiss
  | hit
  deriving DecidableEq, Repr

/-- `DramCacheSetUnison` with `A` ways. -/
structure DramCacheSetUnison (A : ℕ) where
  ways : Fin A → DramCachePageInfo
  reads : BitVec 32
  writes : BitVec 32
  nVault : ℕ
  nBank : ℕ
  nLevel : ℕ

/-- A request that reaches a set. Page tags come from dividing an address by the page size, so
none is the invalid tag. -/
structure PageRequest where
  type : MemOp
  tag : ℕ
  offset : ℕ
  /-- The blocks that the footprint history table predicts. -/
  footprint : BitVec 32
  tag_ne : tag ≠ invalidTag
  offset_lt : offset < stackedPageSize

/-- The block of the page that is requested. -/
def PageRequest.block (r : PageRequest) : ℕ := r.offset / stackedBlockSize

/-- A page has 31 blocks. -/
theorem PageRequest.block_lt (r : PageRequest) : r.block < 31 :=
  Nat.div_lt_of_lt_mul r.offset_lt

namespace DramCacheSetUnison

open DramCachePageInfo

variable {A : ℕ}

/-- The constructor of `DramCacheSetUnison`, and the three numbers that the controller then
writes. -/
def new (nVault nBank nLevel : ℕ) : DramCacheSetUnison A where
  ways _ := DramCachePageInfo.new
  reads := 0
  writes := 0
  nVault := nVault
  nBank := nBank
  nLevel := nLevel

/-- Write to `*m_cache_page_info_array[i]`. -/
def setWay (S : DramCacheSetUnison A) (i : Fin A) (page : DramCachePageInfo) :
    DramCacheSetUnison A :=
  { S with ways := Function.update S.ways i page }

/-- The first way with the given tag. -/
def findTag (S : DramCacheSetUnison A) (tag : ℕ) : Option (Fin A) :=
  (List.finRange A).find? fun i => (S.ways i).tag = tag

/-- `DramCacheSetUnison::accessAttempt`. -/
def accessAttempt (P : Platform) (S : DramCacheSetUnison A) (type : MemOp) (tag offset : ℕ) :
    DramCacheSetUnison A × AccessResult :=
  let blockNum := offset / stackedBlockSize
  let S := { S with reads := S.reads + 1 }
  match S.findTag tag with
  | none => (S, .pageMiss)
  | some i =>
    -- the page is accessed before the result is known, so a block miss sets the bits as well
    let (page, found) := (S.ways i).accessBlock P type blockNum
    let S := S.setWay i page
    if found then (S, .hit) else ({ S with writes := S.writes + 1 }, .blockMiss)

/-- `DramCacheSetUnison::invalidateContent`, with the number of dirty blocks it returns. -/
def invalidateContent (S : DramCacheSetUnison A) : DramCacheSetUnison A × ℕ :=
  ({ S with ways := fun i => (S.ways i).invalidate.1 },
    ((List.finRange A).map fun i => (S.ways i).invalidate.2).sum)

/-- `DramCacheSetUnison::getDirtyBlocks`. -/
def getDirtyBlocks (S : DramCacheSetUnison A) : ℕ :=
  ((List.finRange A).map fun i => BitVec.countLoop 32 (S.ways i).dbits0).sum

/-- `DramCacheSetUnison::getValidBlocks`. -/
def getValidBlocks (S : DramCacheSetUnison A) : ℕ :=
  ((List.finRange A).map fun i => BitVec.countLoop 32 (S.ways i).vbits0).sum

/-- `DramCacheSetUnison::updateUsedInfo`, and what is printed. -/
def updateUsedInfo (S : DramCacheSetUnison A) (tag : ℕ) : DramCacheSetUnison A × List Message :=
  match S.findTag tag with
  | none => (S, [.updateTag])
  | some index =>
    -- only a page that is not the youngest becomes so and ages the others
    if (S.ways index).used ≠ 0 then
      ({ S with
          ways := fun i =>
            { S.ways i with used := if i = index then 0 else ((S.ways i).used + 1) % 256 } }, [])
    else (S, [])

/-- `DramCacheSetUnison::updateReplacementIndexTag`, and what is printed. -/
def updateReplacementIndexTag (S : DramCacheSetUnison A) (index : Fin A) (tag : ℕ)
    (footprint : BitVec 32) : DramCacheSetUnison A × List Message :=
  -- the block that is requested gets neither its valid bit nor its dirty bit
  let page := { S.ways index with tag, vbits0 := footprint, dbits0 := 0, footprint := 0 }
  { S.setWay index page with writes := S.writes + 1 }.updateUsedInfo tag

/-- The way that `getReplacementIndex` returns: the first of the greatest age, way 0 if all ages
are zero. -/
def victim [NeZero A] (S : DramCacheSetUnison A) : Fin A :=
  ((List.finRange A).foldl
    (fun best i => if best.1 < (S.ways i).used then ((S.ways i).used, i) else best)
    ((0, 0) : ℕ × Fin A)).2

/-- `DramCacheSetUnison::getReplacementIndex`. -/
def getReplacementIndex [NeZero A] (S : DramCacheSetUnison A) : DramCacheSetUnison A × Fin A :=
  ({ S with reads := S.reads + 1 }, S.victim)

/-- How `ProcessRequest` replaces a page by the requested one: the set, the footprint of the page
that was replaced, the number of its dirty blocks, and what is printed. -/
def replacePage [NeZero A] (S : DramCacheSetUnison A) (tag : ℕ) (footprint : BitVec 32) :
    DramCacheSetUnison A × BitVec 32 × ℕ × List Message :=
  let S := { S with reads := S.reads + 1 }
  let (S, index) := S.getReplacementIndex
  -- read before `invalidate` clears it
  let newFootprint := (S.ways index).footprint
  let (page, writebackBlocks) := (S.ways index).invalidate
  let (S, printed) := (S.setWay index page).updateReplacementIndexTag index tag footprint
  (S, newFootprint, writebackBlocks, printed)

/-- The set after a request: a lookup and, if no way holds the page, a replacement. -/
def serve [NeZero A] (P : Platform) (S : DramCacheSetUnison A) (r : PageRequest) :
    DramCacheSetUnison A :=
  let (S, result) := S.accessAttempt P r.type r.tag r.offset
  if result = .pageMiss then (S.replacePage r.tag r.footprint).1 else S

/-! ## Lookups -/

/-- Some way holds the page with the given tag. -/
def Holds (S : DramCacheSetUnison A) (tag : ℕ) : Prop := ∃ i, (S.ways i).tag = tag

instance (S : DramCacheSetUnison A) (tag : ℕ) : Decidable (S.Holds tag) := by
  unfold Holds
  infer_instance

variable {S : DramCacheSetUnison A} {tag offset : ℕ} {i : Fin A} {P : Platform} {type : MemOp}

theorem findTag_eq_none_iff : S.findTag tag = none ↔ ¬ S.Holds tag := by
  simp [findTag, Holds, List.find?_eq_none]

theorem tag_of_findTag_eq_some (h : S.findTag tag = some i) : (S.ways i).tag = tag := by
  simpa using List.find?_some h

/-- A page that is held is found. -/
theorem exists_findTag_eq_some (h : S.Holds tag) : ∃ i, S.findTag tag = some i := by
  rw [← not_not (a := S.Holds tag), ← findTag_eq_none_iff] at h
  exact Option.ne_none_iff_exists'.mp h

/-- A page held by a single way is found there. -/
theorem findTag_eq_of_unique (hi : (S.ways i).tag = tag)
    (hunique : ∀ j, (S.ways j).tag = tag → j = i) : S.findTag tag = some i := by
  obtain ⟨j, hj⟩ := exists_findTag_eq_some ⟨i, hi⟩
  rw [hj, hunique j (tag_of_findTag_eq_some hj)]

/-- A lookup that does not find the page only counts itself. -/
theorem accessAttempt_of_not_holds (h : ¬ S.Holds tag) :
    S.accessAttempt P type tag offset = ({ S with reads := S.reads + 1 }, .pageMiss) := by
  have hfind : findTag { S with reads := S.reads + 1 } tag = none := findTag_eq_none_iff.mpr h
  unfold accessAttempt
  dsimp only
  rw [hfind]

/-- A lookup that finds the page accesses the block in its way and returns what that tells. -/
theorem accessAttempt_of_findTag (P : Platform) (type : MemOp) (offset : ℕ)
    (hfind : S.findTag tag = some i) :
    let access := (S.ways i).accessBlock P type (offset / stackedBlockSize)
    (S.accessAttempt P type tag offset).1.ways = Function.update S.ways i access.1 ∧
      (S.accessAttempt P type tag offset).2 = if access.2 then .hit else .blockMiss := by
  have hfind' : findTag { S with reads := S.reads + 1 } tag = some i := hfind
  unfold accessAttempt
  dsimp only
  rw [hfind']
  dsimp only
  split_ifs <;> exact ⟨rfl, rfl⟩

theorem accessAttempt_ways_of_not_holds (h : ¬ S.Holds tag) :
    (S.accessAttempt P type tag offset).1.ways = S.ways := by
  rw [accessAttempt_of_not_holds h]

theorem accessAttempt_ways (hfind : S.findTag tag = some i) :
    (S.accessAttempt P type tag offset).1.ways =
      Function.update S.ways i ((S.ways i).accessBlock P type (offset / stackedBlockSize)).1 :=
  (accessAttempt_of_findTag P type offset hfind).1

theorem accessAttempt_snd (hfind : S.findTag tag = some i) :
    (S.accessAttempt P type tag offset).2 =
      if ((S.ways i).accessBlock P type (offset / stackedBlockSize)).2 then .hit
      else .blockMiss :=
  (accessAttempt_of_findTag P type offset hfind).2

/-- A lookup misses the page exactly if no way holds it. -/
theorem accessAttempt_eq_pageMiss_iff :
    (S.accessAttempt P type tag offset).2 = .pageMiss ↔ ¬ S.Holds tag := by
  constructor
  · intro hmiss hholds
    obtain ⟨i, hi⟩ := exists_findTag_eq_some hholds
    rw [accessAttempt_snd hi] at hmiss
    split_ifs at hmiss
  · intro h
    rw [accessAttempt_of_not_holds h]

/-- A lookup leaves a way as it is, or accesses the block in it if it has the given tag. -/
theorem accessAttempt_way (P : Platform) (type : MemOp) (tag offset : ℕ) (j : Fin A) :
    (S.accessAttempt P type tag offset).1.ways j = S.ways j ∨
      (S.ways j).tag = tag ∧ (S.accessAttempt P type tag offset).1.ways j =
        ((S.ways j).accessBlock P type (offset / stackedBlockSize)).1 := by
  by_cases h : S.Holds tag
  · obtain ⟨i, hi⟩ := exists_findTag_eq_some h
    rw [accessAttempt_ways hi]
    by_cases hj : j = i
    · subst hj
      exact Or.inr ⟨tag_of_findTag_eq_some hi, Function.update_self ..⟩
    · exact Or.inl (Function.update_of_ne hj ..)
  · rw [accessAttempt_ways_of_not_holds h]
    exact Or.inl rfl

/-- A lookup changes no tag. -/
theorem accessAttempt_tag (j : Fin A) :
    ((S.accessAttempt P type tag offset).1.ways j).tag = (S.ways j).tag := by
  rcases accessAttempt_way P type tag offset j with h | ⟨-, h⟩
  · rw [h]
  · rw [h, DramCachePageInfo.accessBlock_tag]

/-- A lookup changes no age. -/
theorem accessAttempt_used (j : Fin A) :
    ((S.accessAttempt P type tag offset).1.ways j).used = (S.ways j).used := by
  rcases accessAttempt_way P type tag offset j with h | ⟨-, h⟩
  · rw [h]
  · rw [h, DramCachePageInfo.accessBlock_used]

/-! ## Replacements -/

/-- A page as it is installed: only the predicted blocks are valid, no block is dirty. -/
def loaded (tag : ℕ) (footprint : BitVec 32) : DramCachePageInfo :=
  { DramCachePageInfo.new with tag, vbits0 := footprint }

@[simp]
theorem loaded_tag (footprint : BitVec 32) : (loaded tag footprint).tag = tag := rfl

@[simp]
theorem loaded_dbits0 (footprint : BitVec 32) : (loaded tag footprint).dbits0 = 0#32 := rfl

/-- `updateUsedInfo` changes nothing but ages. -/
theorem updateUsedInfo_ways (S : DramCacheSetUnison A) (tag : ℕ) (j : Fin A) :
    ∃ used, (S.updateUsedInfo tag).1.ways j = { S.ways j with used } := by
  unfold updateUsedInfo
  cases S.findTag tag with
  | none => exact ⟨(S.ways j).used, rfl⟩
  | some index =>
    dsimp only
    split_ifs
    · exact ⟨_, rfl⟩
    · exact ⟨(S.ways j).used, rfl⟩

/-- Installing a page changes nothing in the other ways but their ages. -/
theorem updateReplacementIndexTag_way (S : DramCacheSetUnison A) (index : Fin A) (tag : ℕ)
    (footprint : BitVec 32) (j : Fin A) :
    ∃ used, (S.updateReplacementIndexTag index tag footprint).1.ways j =
      if j = index then
        { S.ways index with tag, vbits0 := footprint, dbits0 := 0, footprint := 0, used }
      else { S.ways j with used } := by
  unfold updateReplacementIndexTag
  obtain ⟨used, hused⟩ := updateUsedInfo_ways { S.setWay index
    { S.ways index with tag, vbits0 := footprint, dbits0 := 0, footprint := 0 } with
      writes := S.writes + 1 } tag j
  refine ⟨used, hused.trans ?_⟩
  by_cases hj : j = index
  · simp [setWay, hj]
  · simp [setWay, hj]

/-- The ages change only when the page found has a positive age. -/
theorem updateUsedInfo_eq_self (hfind : S.findTag tag = some i) (hused : (S.ways i).used = 0) :
    S.updateUsedInfo tag = (S, []) := by
  simp [updateUsedInfo, hfind, hused]

/-- Installing a page of which no other way holds a copy, in a way of age zero, changes that way
alone: `updateUsedInfo` leaves all ages as they are. -/
theorem updateReplacementIndexTag_ways (hother : ∀ j ≠ i, (S.ways j).tag ≠ tag)
    (hused : (S.ways i).used = 0) (footprint : BitVec 32) :
    (S.updateReplacementIndexTag i tag footprint).1.ways =
      Function.update S.ways i
        { S.ways i with tag, vbits0 := footprint, dbits0 := 0, footprint := 0 } ∧
    (S.updateReplacementIndexTag i tag footprint).2 = [] := by
  unfold updateReplacementIndexTag
  dsimp only
  rw [updateUsedInfo_eq_self (i := i)]
  · exact ⟨rfl, rfl⟩
  · -- the page just installed is found, as no other way has its tag
    refine findTag_eq_of_unique (by simp [setWay]) fun j hj => ?_
    by_contra hji
    simp only [setWay, Function.update_of_ne hji] at hj
    exact hother j hji hj
  · simp [setWay, hused]

variable [NeZero A]

/-- Replacing a page by one that the set does not hold overwrites the victim. -/
theorem replacePage_ways (hmiss : ¬ S.Holds tag) (footprint : BitVec 32) :
    (S.replacePage tag footprint).1.ways =
      Function.update S.ways S.victim (loaded tag footprint) := by
  -- the set after the two counted accesses and the invalidation of the victim
  let emptied := { S with reads := S.reads + 1 + 1 }.setWay S.victim DramCachePageInfo.new
  have hother : ∀ j ≠ S.victim, (emptied.ways j).tag ≠ tag := by
    intro j hj htag
    simp only [emptied, setWay, Function.update_of_ne hj] at htag
    exact hmiss ⟨j, htag⟩
  have hused : (emptied.ways S.victim).used = 0 := by simp [emptied, setWay]
  have hways := (updateReplacementIndexTag_ways hother hused footprint).1
  calc (S.replacePage tag footprint).1.ways
      = (emptied.updateReplacementIndexTag S.victim tag footprint).1.ways := rfl
    _ = Function.update S.ways S.victim (loaded tag footprint) := by
      rw [hways]
      simp [emptied, setWay, loaded, DramCachePageInfo.new]

/-- The dirty blocks of the victim are counted. -/
theorem replacePage_writebackBlocks (tag : ℕ) (footprint : BitVec 32) :
    (S.replacePage tag footprint).2.2.1 = BitVec.bitCount (S.ways S.victim).dbits0 :=
  invalidate_snd _

/-- With all ages zero, the victim is way 0. -/
theorem victim_eq_zero (h : ∀ i, (S.ways i).used = 0) : S.victim = 0 := by
  unfold victim
  -- no age is greater than the zero with which the search starts
  refine (List.foldlRecOn (motive := fun best : ℕ × Fin A => best.2 = 0) _ _ rfl ?_)
  intro best hbest j _
  rw [if_neg (by rw [h]; omega)]
  exact hbest

/-! ## Requests -/

/-- The number of dirty blocks that a request makes the set write back. -/
def writeback (S : DramCacheSetUnison A) (r : PageRequest) : ℕ :=
  if S.Holds r.tag then 0 else BitVec.bitCount (S.ways S.victim).dbits0

section Requests

variable {r : PageRequest}

/-- A request for a page that is held is a lookup. -/
theorem serve_of_holds (h : S.Holds r.tag) :
    S.serve P r = (S.accessAttempt P r.type r.tag r.offset).1 := by
  have hfound : ¬ (S.accessAttempt P r.type r.tag r.offset).2 = .pageMiss := fun hmiss =>
    accessAttempt_eq_pageMiss_iff.mp hmiss h
  unfold serve
  dsimp only
  rw [if_neg hfound]

/-- The victim is chosen after the lookup, but a lookup of a page that is not held changes no
way. -/
theorem victim_accessAttempt_of_not_holds {type : MemOp} {tag offset : ℕ} (h : ¬ S.Holds tag) :
    (S.accessAttempt P type tag offset).1.victim = S.victim := by
  rw [victim, accessAttempt_ways_of_not_holds h, ← victim]

/-- A request for a page that is not held overwrites the victim. -/
theorem serve_ways_of_not_holds (h : ¬ S.Holds r.tag) :
    (S.serve P r).ways = Function.update S.ways S.victim (loaded r.tag r.footprint) := by
  have hways : (S.accessAttempt P r.type r.tag r.offset).1.ways = S.ways :=
    accessAttempt_ways_of_not_holds h
  have hmiss : ¬ (S.accessAttempt P r.type r.tag r.offset).1.Holds r.tag := by
    unfold Holds
    rwa [hways]
  unfold serve
  dsimp only
  rw [if_pos (accessAttempt_eq_pageMiss_iff.mpr h), replacePage_ways hmiss,
    victim_accessAttempt_of_not_holds h, hways]

/-- A request brings no page into the set but its own. -/
theorem holds_of_holds_serve {t : ℕ} (h : (S.serve P r).Holds t) : t = r.tag ∨ S.Holds t := by
  obtain ⟨i, hi⟩ := h
  by_cases hholds : S.Holds r.tag
  · rw [serve_of_holds hholds, accessAttempt_tag] at hi
    exact Or.inr ⟨i, hi⟩
  · rw [serve_ways_of_not_holds hholds] at hi
    by_cases hiv : i = S.victim
    · rw [hiv, Function.update_self, loaded_tag] at hi
      exact Or.inl hi.symm
    · rw [Function.update_of_ne hiv] at hi
      exact Or.inr ⟨i, hi⟩

/-- A request leaves its page in the set. -/
theorem holds_serve : (S.serve P r).Holds r.tag := by
  by_cases h : S.Holds r.tag
  · obtain ⟨i, hi⟩ := h
    exact ⟨i, by rw [serve_of_holds ⟨i, hi⟩, accessAttempt_tag, hi]⟩
  · exact ⟨S.victim, by rw [serve_ways_of_not_holds h, Function.update_self, loaded_tag]⟩

end Requests

end DramCacheSetUnison

end StackedDram
