import StackedDram.Tables

/-!
# The pages of the cache

The representation invariant of the sets and of the footprint history table. No two ways of a set
hold the same page; in each way the dirty blocks are among those recorded as touched, and these
among the valid ones; all of them are blocks of a page, of which there are 31. A request preserves
the invariant (`wellFormed_processRequest`), so every reachable state has it
(`wellFormed_of_reachable`, `representation_invariant`).

The history table takes part in it: what is written there is the footprint of a page that is
replaced.
-/

namespace StackedDram

namespace DramCachePageInfo

/-- The masks of a way. -/
structure WellFormed (page : DramCachePageInfo) : Prop where
  dirty_subset : BitVec.bits page.dbits0 ⊆ BitVec.bits page.footprint
  footprint_subset : BitVec.bits page.footprint ⊆ BitVec.bits page.vbits0
  footprint_lt : BitVec.bits page.footprint ⊆ Finset.range 31
  /-- A way that holds no page has been touched nowhere. -/
  footprint_of_not_isValid : ¬ page.IsValid → page.footprint = 0

variable {P : Platform} {type : MemOp} {k : ℕ} {page : DramCachePageInfo}

/-- Dirty bits are bits of blocks. -/
theorem WellFormed.dirty_lt (h : page.WellFormed) : BitVec.bits page.dbits0 ⊆ Finset.range 31 :=
  h.dirty_subset.trans h.footprint_lt

/-- A page that is not valid is not dirty. -/
theorem WellFormed.dirty_of_not_isValid (h : page.WellFormed) (hpage : ¬ page.IsValid) :
    page.dbits0 = 0 := by
  have hsubset := h.dirty_subset
  rw [h.footprint_of_not_isValid hpage] at hsubset
  exact BitVec.bits_eq_empty_iff.mp (Finset.subset_empty.mp (hsubset.trans_eq BitVec.bits_zero))

theorem wellFormed_new : new.WellFormed where
  dirty_subset := Finset.Subset.refl _
  footprint_subset := by decide
  footprint_lt := by decide
  footprint_of_not_isValid _ := rfl

/-- Accessing a block of a page that is held. -/
theorem WellFormed.accessBlock (h : page.WellFormed) (hvalid : page.IsValid) (hk : k < 31) :
    (page.accessBlock P type k).1.WellFormed := by
  have hfootprint : BitVec.bits (page.accessBlock P type k).1.footprint =
      insert k (BitVec.bits page.footprint) := BitVec.bits_or_one_shiftLeft _ (by omega)
  have hvbits : BitVec.bits (page.accessBlock P type k).1.vbits0 =
      insert k (BitVec.bits page.vbits0) := BitVec.bits_or_one_shiftLeft _ (by omega)
  refine ⟨?_, ?_, ?_, fun hnot => absurd hvalid hnot⟩
  · -- only a write makes the block dirty, but every access counts it as touched
    rw [hfootprint]
    cases type with
    | read => exact h.dirty_subset.trans (Finset.subset_insert _ _)
    | write =>
      have hdbits : BitVec.bits (page.accessBlock P .write k).1.dbits0 =
          insert k (BitVec.bits page.dbits0) := BitVec.bits_or_one_shiftLeft _ (by omega)
      rw [hdbits]
      exact Finset.insert_subset_insert k h.dirty_subset
  · rw [hfootprint, hvbits]
    exact Finset.insert_subset_insert k h.footprint_subset
  · rw [hfootprint]
    exact Finset.insert_subset (Finset.mem_range.mpr hk) h.footprint_lt

end DramCachePageInfo

namespace DramCacheSetUnison

open DramCachePageInfo

variable {A : ℕ} {P : Platform} {S : DramCacheSetUnison A} {r : PageRequest}

/-- The representation invariant of a set. -/
structure WellFormed (S : DramCacheSetUnison A) : Prop where
  way (i : Fin A) : (S.ways i).WellFormed
  /-- A page is held by one way at most. -/
  unique (i j : Fin A) : (S.ways i).IsValid → (S.ways i).tag = (S.ways j).tag → i = j

/-- An empty set. -/
theorem Empty.wellFormed (h : S.Empty) : S.WellFormed where
  way i := by
    rw [h i]
    exact wellFormed_new
  unique i _ hi _ := by
    rw [h i] at hi
    exact absurd hi not_isValid_new

/-- A page as it is installed has not been touched. -/
theorem wellFormed_loaded {tag : ℕ} (htag : tag ≠ invalidTag) (footprint : BitVec 32) :
    (loaded tag footprint).WellFormed where
  dirty_subset := Finset.Subset.refl _
  footprint_subset := BitVec.bits_zero_subset _
  footprint_lt := BitVec.bits_zero_subset _
  footprint_of_not_isValid hnot := absurd htag hnot

variable [NeZero A]

/-- A lookup of a page that is held. -/
theorem WellFormed.serve_of_holds (h : S.WellFormed) (hholds : S.Holds r.tag) :
    (S.serve P r).WellFormed := by
  rw [DramCacheSetUnison.serve_of_holds hholds]
  refine ⟨fun j => ?_, fun j k hj hjk => ?_⟩
  · rcases accessAttempt_way P r.type r.tag r.offset j with hway | ⟨htag, hway⟩
    · rw [hway]
      exact h.way j
    · rw [hway]
      exact (h.way j).accessBlock (fun hinvalid => r.tag_ne (htag.symm.trans hinvalid)) r.block_lt
  · -- a lookup changes no tag
    rw [IsValid, accessAttempt_tag] at hj
    rw [accessAttempt_tag, accessAttempt_tag] at hjk
    exact h.unique j k hj hjk

/-- The page that is installed has a tag that no way had. -/
theorem WellFormed.serve_of_not_holds (h : S.WellFormed) (hholds : ¬ S.Holds r.tag) :
    (S.serve P r).WellFormed := by
  have hways := serve_ways_of_not_holds (P := P) hholds
  refine ⟨fun j => ?_, fun j k hj hjk => ?_⟩
  · rw [hways]
    by_cases hj : j = S.victim
    · rw [hj, Function.update_self]
      exact wellFormed_loaded r.tag_ne r.footprint
    · rw [Function.update_of_ne hj]
      exact h.way j
  · rw [hways] at hj hjk
    -- two ways with one tag: both old, both new, or one of each, which would hold the tag before
    by_cases hjv : j = S.victim <;> by_cases hkv : k = S.victim
    · rw [hjv, hkv]
    · rw [hjv, Function.update_self, Function.update_of_ne hkv] at hjk
      exact absurd ⟨k, hjk.symm⟩ hholds
    · rw [hkv, Function.update_self, Function.update_of_ne hjv] at hjk
      exact absurd ⟨j, hjk⟩ hholds
    · rw [Function.update_of_ne hjv] at hj hjk
      rw [Function.update_of_ne hkv] at hjk
      exact h.unique j k hj hjk

/-- A request keeps a set well formed. -/
theorem WellFormed.serve (h : S.WellFormed) : (S.serve P r).WellFormed := by
  by_cases hholds : S.Holds r.tag
  · exact h.serve_of_holds hholds
  · exact h.serve_of_not_holds hholds

end DramCacheSetUnison

namespace StackDramCacheCntlrUnison

variable {T δ : Type} {A : ℕ} {P : Platform} {M : DramModel δ} {cfg : CntlrConfig T} {d : δ}
  {q : Request} {c : StackDramCacheCntlrUnison T δ A}

/-- The representation invariant of the cache. -/
structure WellFormed (c : StackDramCacheCntlrUnison T δ A) : Prop where
  set (s : ℕ) : (c.sets s).WellFormed
  /-- The history table predicts blocks of a page. -/
  fht_lt (block : ℕ) : BitVec.bits (c.fht block) ⊆ Finset.range 31
  /-- No tag has been reported as unknown. -/
  quiet : .updateTag ∉ c.perfModel.printed

theorem wellFormed_new (P : Platform) (cfg : CntlrConfig T) (d : δ) :
    (new P cfg d : StackDramCacheCntlrUnison T δ A).WellFormed where
  set _ := (DramCacheSetUnison.empty_new _ _ _).wellFormed
  fht_lt _ := BitVec.bits_zero_subset _
  quiet := List.not_mem_nil

variable [LinearOrder T] [NeZero A]

omit [NeZero A] in
/-- `checkRemapping` empties sets and leaves the others alone. -/
theorem WellFormed.afterCheck (h : c.WellFormed) (P : Platform) (M : DramModel δ)
    (cfg : CntlrConfig T) (q : Request) (s : ℕ) :
    ((c.afterCheck P M cfg q).sets s).WellFormed := by
  have hchecked := checked_afterCheck P M cfg q c
  by_cases hs : c.ToEmpty P cfg s
  · exact (hchecked.emptied s hs).wellFormed
  · rw [hchecked.kept s hs]
    exact h.set s

omit [LinearOrder T] in
/-- What is recorded is the footprint of a way. -/
theorem recordedFht_lt {fht : ℕ → BitVec 32} {S : DramCacheSetUnison A}
    (hfht : ∀ block, BitVec.bits (fht block) ⊆ Finset.range 31) (hS : S.WellFormed)
    (r : PageRequest) (block : ℕ) :
    BitVec.bits (recordedFht fht S r block) ⊆ Finset.range 31 := by
  rw [recordedFht]
  by_cases hholds : S.Holds r.tag
  · rw [if_pos hholds]
    exact hfht block
  · rw [if_neg hholds]
    by_cases hblock : block = r.block
    · rw [hblock, Function.update_self]
      exact (hS.way S.victim).footprint_lt
    · rw [Function.update_of_ne hblock]
      exact hfht block

/-- A request keeps all sets well formed. -/
theorem wellFormed_processRequest (P : Platform) (M : DramModel δ) (cfg : CntlrConfig T)
    (q : Request) (h : c.WellFormed) : (c.processRequest P M cfg q).1.WellFormed := by
  have htables := tables_processRequest P M cfg q c
  refine ⟨fun s => ?_, fun block => ?_, fun hmem => ?_⟩
  · -- the sets, the history table, and the message of a tag update
    by_cases hs : c.Bypassed P cfg q ∨ s ≠ c.targetSet P cfg q
    · rw [processRequest_sets M hs]
      exact h.afterCheck P M cfg q s
    · push Not at hs
      rw [hs.2, processRequest_targetSet M hs.1]
      exact (h.afterCheck P M cfg q _).serve
  · rw [htables.fht_eq, fhtAfter]
    by_cases hq : c.Bypassed P cfg q
    · rw [if_pos hq]
      exact h.fht_lt block
    · rw [if_neg hq]
      exact recordedFht_lt h.fht_lt (h.afterCheck P M cfg q _) _ block
  · obtain ⟨pageTable, availPhyPageTag, heq, -⟩ := translateAddress_eq c q.address
    have hbefore := htables.quiet hmem
    rw [heq] at hbefore
    exact h.quiet hbefore

/-- An action keeps all sets well formed. -/
theorem wellFormed_step (h : c.WellFormed) (a : Action cfg) : (c.step P M cfg a).WellFormed := by
  rcases a.isManagement_or with ha | ⟨q, rfl⟩
  · have htables := tables_of_isManagement (c := c) P M ha
    have hsets := (step_of_isManagement (P := P) (M := M) (c := c) ha).1
    refine ⟨fun s => ?_, fun block => ?_, fun hmem => h.quiet (htables.quiet hmem)⟩
    · rw [hsets]
      exact h.set s
    · rw [htables.fht_eq]
      exact h.fht_lt block
  · exact wellFormed_processRequest P M cfg q h

/-- All sets are well formed in every run. -/
theorem wellFormed_of_reachable (hc : (machine P M cfg d).Reachable c) : c.WellFormed :=
  hc.invariant (P := WellFormed) (wellFormed_new P cfg d) fun _ a _ h => wellFormed_step h a

/-- In every reachable state, for every set: no two ways hold the same page; in every way the dirty
blocks are among those in the footprint, and these among the valid ones and among the 31 blocks of
a page, as are those of every entry of the history table; a way that holds no page has no dirty
block and no footprint. And no tag has ever been reported as unknown. -/
theorem representation_invariant (hc : (machine P M cfg d).Reachable c) :
    (∀ s i j, ((c.sets s).ways i).tag ≠ invalidTag →
      ((c.sets s).ways i).tag = ((c.sets s).ways j).tag → i = j) ∧
    (∀ s i, let page := (c.sets s).ways i
      (∀ k, page.dbits0.getLsbD k = true → page.footprint.getLsbD k = true) ∧
      (∀ k, page.footprint.getLsbD k = true → page.vbits0.getLsbD k = true) ∧
      (∀ k, page.dbits0.getLsbD k = true ∨ page.footprint.getLsbD k = true → k ≤ 30) ∧
      (page.tag = invalidTag → page.dbits0 = 0 ∧ page.footprint = 0)) ∧
    (∀ block k, (c.fht block).getLsbD k = true → k ≤ 30) ∧
    .updateTag ∉ c.perfModel.printed := by
  have h := wellFormed_of_reachable hc
  -- a mask of 31 bits, bit by bit
  have hbits : ∀ {x : BitVec 32}, BitVec.bits x ⊆ Finset.range 31 →
      ∀ k, x.getLsbD k = true → k ≤ 30 := fun hx k hk =>
    Nat.lt_succ_iff.mp (Finset.mem_range.mp (hx (BitVec.mem_bits.mpr hk)))
  refine ⟨fun s => (h.set s).unique, fun s i => ?_, fun block => hbits (h.fht_lt block), h.quiet⟩
  have hway := (h.set s).way i
  refine ⟨fun k hk => ?_, fun k hk => ?_, fun k hk => ?_, fun htag => ⟨?_, ?_⟩⟩
  · exact BitVec.mem_bits.mp (hway.dirty_subset (BitVec.mem_bits.mpr hk))
  · exact BitVec.mem_bits.mp (hway.footprint_subset (BitVec.mem_bits.mpr hk))
  · exact hk.elim (hbits hway.dirty_lt k) (hbits hway.footprint_lt k)
  · exact hway.dirty_of_not_isValid (not_not_intro htag)
  · exact hway.footprint_of_not_isValid (not_not_intro htag)

/-- A page is loaded, one of its blocks is written, temperatures change, and another block is read.
The block that was written is the only dirty one, and is in the footprint. -/
theorem representation_invariant_small :
    let as : List (Action CntlrConfig.small) :=
      [.processRequest (.block .read 64), .processRequest (.block .write 128),
        .updateTemperature ⟨0, by decide⟩ ⟨0, by decide⟩ 50 true, .tryRemapping,
        .processRequest (.block .read 192)]
    let K : Machine (StackDramCacheCntlrUnison ℕ Unit 2) (Action CntlrConfig.small) :=
      machine .x86 .tenCycles .small ()
    let c := K.run as
    ((c.sets 0).ways 0).dbits0 = 1#32 <<< 2 ∧
      ((c.sets 0).ways 0).footprint.getLsbD 2 = true ∧ .updateTag ∉ c.perfModel.printed := by
  intro as K c
  have hc : K.Reachable c := Machine.reachable_run as
  have hinv := representation_invariant hc
  have hdirty : ((c.sets 0).ways 0).dbits0 = 1#32 <<< 2 := by decide
  exact ⟨hdirty, (hinv.2.1 0 0).1 2 (by rw [hdirty]; decide), hinv.2.2.2⟩

end StackDramCacheCntlrUnison

end StackedDram
