import StackedDram.Cache.CacheSet

/-!
# Block-level hits

A page is installed with a predicted footprint, and then blocks of it are accessed. A block is
present when it is in the footprint or has been accessed before. `blockHits_exact_iff` says for
which sequences of accesses every access returns a hit exactly for the blocks present, without a
shift by more than the width of a word: since `accessBlock` tests the bit before the one of the
block, these are the sequences in which, at every access, a block is present exactly if the one
before it is, and block 0 is never accessed.
-/

namespace StackedDram

/-- An access to a page, at an offset inside it. -/
structure BlockAccess where
  type : MemOp
  offset : ℕ
  offset_lt : offset < stackedPageSize

namespace BlockAccess

/-- The block of the page that is accessed. -/
def block (a : BlockAccess) : ℕ := a.offset / stackedBlockSize

/-- A page has 31 blocks. -/
theorem block_lt (a : BlockAccess) : a.block < 31 :=
  Nat.div_lt_of_lt_mul a.offset_lt

end BlockAccess

namespace DramCacheSetUnison

variable {A : ℕ} {P : Platform} {S : DramCacheSetUnison A} {tag : ℕ} {index : Fin A}
  {footprint : BitVec 32}

/-- The set after a sequence of accesses to the page with the given tag. -/
def accessAll (P : Platform) (tag : ℕ) (S : DramCacheSetUnison A) (accesses : List BlockAccess) :
    DramCacheSetUnison A :=
  accesses.foldl (fun S a => (S.accessAttempt P a.type tag a.offset).1) S

/-- A block is in the footprint or has been accessed. -/
def Present (footprint : BitVec 32) (accesses : List BlockAccess) (k : ℕ) : Prop :=
  footprint.getLsbD k = true ∨ k ∈ accesses.map BlockAccess.block

instance (footprint : BitVec 32) (accesses : List BlockAccess) (k : ℕ) :
    Decidable (Present footprint accesses k) := by
  unfold Present
  infer_instance

/-- The access `a`, after the accesses `before` to a page installed in `S` with the given
footprint, is exact: it hits if and only if its block is present, and shifts by less than the width
of a word. -/
def ExactAt (P : Platform) (S : DramCacheSetUnison A) (tag : ℕ) (footprint : BitVec 32)
    (before : List BlockAccess) (a : BlockAccess) : Prop :=
  ((S.accessAll P tag before).accessAttempt P a.type tag a.offset).2 =
      (if Present footprint before a.block then .hit else .blockMiss) ∧
    ∀ shift ∈ DramCachePageInfo.accessBlockShifts a.type a.block, shift.1 < shift.2

/-- The way `index` alone holds the page, with exactly the present blocks valid. -/
def PageAt (S : DramCacheSetUnison A) (tag : ℕ) (index : Fin A) (footprint : BitVec 32)
    (accesses : List BlockAccess) : Prop :=
  S.findTag tag = some index ∧
    ∀ k, (S.ways index).vbits0.getLsbD k = true ↔ Present footprint accesses k

/-- A page just installed has the blocks of its footprint. -/
theorem pageAt_updateReplacementIndexTag (footprint : BitVec 32)
    (hother : ∀ j ≠ index, (S.ways j).tag ≠ tag) :
    (S.updateReplacementIndexTag index tag footprint).1.PageAt tag index footprint [] := by
  have hway := updateReplacementIndexTag_way S index tag footprint
  obtain ⟨used, hindex⟩ := hway index
  rw [if_pos rfl] at hindex
  refine ⟨findTag_eq_of_unique (by rw [hindex]) fun j hj => ?_, fun k => ?_⟩
  · -- the other ways have kept their tags
    by_contra hne
    obtain ⟨used', hused'⟩ := hway j
    rw [hused', if_neg hne] at hj
    exact hother j hne hj
  · simp [hindex, Present]

/-- An access makes its block present. -/
theorem PageAt.accessAttempt {accesses : List BlockAccess}
    (h : S.PageAt tag index footprint accesses) (a : BlockAccess) :
    (S.accessAttempt P a.type tag a.offset).1.PageAt tag index footprint (accesses ++ [a]) := by
  obtain ⟨hfind, hbits⟩ := h
  have hlt := a.block_lt
  refine ⟨?_, fun k => ?_⟩
  · -- the tags are unchanged, and with them the way that is found
    unfold findTag
    simp only [accessAttempt_tag]
    exact hfind
  · rw [accessAttempt_ways hfind, Function.update_self,
      DramCachePageInfo.accessBlock_vbits0 (by rw [← BlockAccess.block]; omega), hbits,
      ← BlockAccess.block]
    simp [Present, or_assoc]

/-- After any accesses the page has its footprint and the blocks accessed. -/
theorem PageAt.accessAll (h : S.PageAt tag index footprint []) (accesses : List BlockAccess) :
    (S.accessAll P tag accesses).PageAt tag index footprint accesses := by
  induction accesses using List.reverseRecOn with
  | nil => exact h
  | append_singleton accesses a ih =>
    rw [DramCacheSetUnison.accessAll, List.foldl_append]
    exact ih.accessAttempt a

/-- An access is exact if and only if its block is not the first of the page, and present exactly
if the block before it is. -/
theorem PageAt.exactAt_iff (h : S.PageAt tag index footprint []) (before : List BlockAccess)
    (a : BlockAccess) :
    ExactAt P S tag footprint before a ↔
      1 ≤ a.block ∧
        (Present footprint before (a.block - 1) ↔ Present footprint before a.block) := by
  obtain ⟨hfind, hbits⟩ := h.accessAll (P := P) before
  have hlt := a.block_lt
  unfold ExactAt
  rw [DramCachePageInfo.accessBlockShifts_lt_iff (by omega), and_comm]
  refine and_congr_right fun h0 => ?_
  rw [accessAttempt_snd hfind, ← BlockAccess.block,
    DramCachePageInfo.accessBlock_snd h0 (by omega)]
  -- the bit that is tested against the bit that should have been
  have htest := hbits (a.block - 1)
  by_cases hprev : Present footprint before (a.block - 1)
  · rw [if_pos (htest.mpr hprev)]
    by_cases hcur : Present footprint before a.block <;> simp [hprev, hcur]
  · rw [if_neg fun ht => hprev (htest.mp ht)]
    by_cases hcur : Present footprint before a.block <;> simp [hprev, hcur]

/-- The accesses to a page that are all exact: those that never concern its first block, and find
each block present exactly if the block before it is. -/
theorem blockHits_exact_iff (P : Platform) (footprint : BitVec 32)
    (hother : ∀ j ≠ index, (S.ways j).tag ≠ tag) (accesses : List BlockAccess) :
    (∀ before a after, accesses = before ++ a :: after →
      ExactAt P (S.updateReplacementIndexTag index tag footprint).1 tag footprint before a) ↔
    ∀ before a after, accesses = before ++ a :: after →
      1 ≤ a.block ∧
        (Present footprint before (a.block - 1) ↔ Present footprint before a.block) := by
  have hpage := pageAt_updateReplacementIndexTag footprint hother
  exact forall₄_congr fun before a _ _ => hpage.exactAt_iff before a

/-- A read of block `k`. -/
def readBlock (k : Fin 31) : BlockAccess where
  type := .read
  offset := k * stackedBlockSize
  offset_lt := Nat.mul_lt_mul_of_pos_right k.isLt (by decide)

/-- Reading blocks 1 and 2 of a page predicted to need the blocks 0, 1 and 2. -/
theorem blockHits_exact_iff_sequential :
    (∀ before a after, [readBlock 1, readBlock 2] = before ++ a :: after →
      ExactAt .x86 ((new 0 0 0 : DramCacheSetUnison 4).updateReplacementIndexTag 0 7 7#32).1 7 7#32
        before a) ↔
    ∀ before a after, [readBlock 1, readBlock 2] = before ++ a :: after →
      1 ≤ a.block ∧ (Present 7#32 before (a.block - 1) ↔ Present 7#32 before a.block) :=
  blockHits_exact_iff .x86 7#32 (fun _ _ => (by decide : invalidTag ≠ 7)) _

/-- A page installed without blocks, of which block 5 is read twice: both accesses miss. -/
theorem not_exactAt_repeated :
    let S := ((new 0 0 0 : DramCacheSetUnison 4).updateReplacementIndexTag 0 7 0#32).1
    (S.accessAttempt .x86 .read 7 (readBlock 5).offset).2 = .blockMiss ∧
      ((S.accessAll .x86 7 [readBlock 5]).accessAttempt .x86 .read 7 (readBlock 5).offset).2 =
        .blockMiss ∧
      ¬ ∀ before a after, [readBlock 5, readBlock 5] = before ++ a :: after →
        ExactAt .x86 S 7 0#32 before a := by
  refine ⟨by decide, by decide, fun hexact => ?_⟩
  have hsecond := (hexact [readBlock 5] (readBlock 5) [] rfl).1
  exact absurd hsecond (by decide)

end DramCacheSetUnison

end StackedDram
