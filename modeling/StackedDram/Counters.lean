import StackedDram.OffChip

/-!
# What a request counts

The counters of the controller that the reports in its destructor are made of. Every request counts
as an access, and as a miss unless its block is found; a request that goes past the cache is counted
with the block misses. `checkRemapping` leaves these counters alone, but before anything is counted
it copies some of them until the region of interest is entered (`counters_processRequest`).
-/

namespace StackedDram.StackDramCacheCntlrUnison

open StackedDramPerfUnison

variable {T δ : Type} {A : ℕ} {P : Platform} {M : DramModel δ} {cfg : CntlrConfig T}
  {q : Request} {c : StackDramCacheCntlrUnison T δ A}

/-- The counters of accesses, misses and loaded blocks. -/
structure Counters where
  cacheAccess : BitVec 32
  pageMisses : BitVec 32
  blockMisses : BitVec 32
  ldBlocks : BitVec 32
  loadOnPageMiss : BitVec 32
  noRoi : RoiSnapshot

/-- The counters of a controller. -/
def counters (c : StackDramCacheCntlrUnison T δ A) : Counters where
  cacheAccess := c.cacheAccess
  pageMisses := c.pageMisses
  blockMisses := c.blockMisses
  ldBlocks := c.ldBlocks
  loadOnPageMiss := c.loadOnPageMiss
  noRoi := c.noRoi

/-- What a request counts after its access: `none` stands for a request that goes past the cache,
and `loadBlocks` is the number of blocks that a page miss loads. -/
def Counters.count (k : Counters) (loadBlocks : ℕ) : Option AccessResult → Counters
  | none | some .blockMiss => { k with blockMisses := k.blockMisses + 1 }
  | some .pageMiss =>
    { k with
      pageMisses := k.pageMisses + 1
      ldBlocks := k.ldBlocks + BitVec.ofNat 32 loadBlocks
      loadOnPageMiss := k.loadOnPageMiss + BitVec.ofNat 32 loadBlocks }
  | some .hit => k

theorem Counters.ldBlocks_count (k : Counters) (loadBlocks : ℕ) (outcome : Option AccessResult) :
    (k.count loadBlocks outcome).ldBlocks =
      k.ldBlocks + .ofNat 32 (if outcome = some .pageMiss then loadBlocks else 0) := by
  rcases outcome with _ | _ | _ | _ <;> simp [count]

theorem Counters.loadOnPageMiss_count (k : Counters) (loadBlocks : ℕ)
    (outcome : Option AccessResult) :
    (k.count loadBlocks outcome).loadOnPageMiss =
      k.loadOnPageMiss + .ofNat 32 (if outcome = some .pageMiss then loadBlocks else 0) := by
  rcases outcome with _ | _ | _ | _ <;> simp [count]

/-! ## What does not count -/

variable [LinearOrder T]

@[simp]
theorem counters_handleDramAccess (P : Platform) (M : DramModel δ) (cfg : CntlrConfig T)
    (q : Request) (c : StackDramCacheCntlrUnison T δ A) (pktSize s : ℕ) (accessType : AccessType) :
    (c.handleDramAccess P M cfg q pktSize s accessType).1.counters = c.counters := by
  obtain ⟨pm, -, heq⟩ := handleDramAccess_eq P M cfg q c pktSize s accessType
  rw [heq]
  rfl

omit [LinearOrder T] in
/-- The statistics of the access are others. -/
@[simp]
theorem counters_countAccess (s : ℕ) (result : AccessResult) :
    (c.countAccess P cfg q s result).counters = c.counters := by
  unfold countAccess
  dsimp only
  split_ifs <;> rfl

/-- The end of a request counts nothing. -/
@[simp]
theorem counters_finish (s : ℕ) (result : AccessResult) (loadBlocks dramDelay remapDelay : ℕ) :
    (c.finish P M cfg q s result loadBlocks dramDelay remapDelay).1.counters = c.counters := by
  unfold finish
  dsimp only
  split_ifs <;> simp

/-- Invalidating a row counts nothing. -/
theorem counters_invalidateRow (st : Sweep T δ A) (v s setWbBlocks : ℕ) :
    (st.invalidateRow P M cfg q v s setWbBlocks).cntlr.counters = st.cntlr.counters :=
  counters_handleDramAccess P M cfg q st.cntlr (8 * setWbBlocks * 64) s .read

/-- The loops of `checkRemapping` have counters of their own. -/
theorem counters_sweepRow (st : Sweep T δ A) (row : ℕ × ℕ × ℕ) :
    (sweepRow P M cfg q st row).cntlr.counters = st.cntlr.counters := by
  by_cases hrow : RowInvalid cfg st.cntlr row
  · -- the row is invalidated, with one access to the DRAM for what is written back
    rw [RowInvalid] at hrow
    unfold sweepRow
    dsimp only [checkRowValid, RemappingManager.checkValid]
    simp only [hrow, Bool.false_eq_true, false_and, if_false, if_true]
    exact counters_invalidateRow ..
  · rw [sweepRow_of_valid hrow]

/-- A sweep counts nothing. -/
theorem counters_sweep (rows : List (ℕ × ℕ × ℕ)) :
    (c.sweep P M cfg q rows).cntlr.counters = c.counters := by
  induction rows using List.reverseRecOn with
  | nil => rfl
  | append_singleton rows row ih =>
    rw [sweep, List.foldl_append, List.foldl_cons, List.foldl_nil, ← sweep, counters_sweepRow, ih]

/-- The check for a remapping at most takes a snapshot. -/
theorem counters_checkRemapping :
    (c.checkRemapping P M cfg q).1.counters = c.snapshotRoi.counters := by
  unfold checkRemapping
  dsimp only
  split_ifs
  · rfl
  · exact counters_sweep _

/-! ## Requests -/

variable [NeZero A]

/-- The result of a request, unless it goes past the cache. -/
def outcome (P : Platform) (M : DramModel δ) (cfg : CntlrConfig T)
    (c : StackDramCacheCntlrUnison T δ A) (q : Request) : Option AccessResult :=
  if c.Bypassed P cfg q then none
  else some ((c.servingSet P M cfg q).accessResult P (c.pageRequest P cfg q))

/-- The footprint of the page that is replaced if the request misses its page. -/
def replacedFootprint (P : Platform) (M : DramModel δ) (cfg : CntlrConfig T)
    (c : StackDramCacheCntlrUnison T δ A) (q : Request) : BitVec 32 :=
  ((c.servingSet P M cfg q).ways (c.servingSet P M cfg q).victim).footprint

theorem counters_missPage (s tag blockNum : ℕ) (footprint : BitVec 32) :
    (c.missPage P M cfg q s tag blockNum footprint).1.counters =
      c.counters.count (BitVec.bitCount ((c.sets s).ways (c.sets s).victim).footprint)
        (some .pageMiss) := by
  rw [← BitVec.countLoop_eq_bitCount]
  unfold missPage
  dsimp only
  rw [counters_handleDramAccess]
  rfl

/-- What is done about the result of a lookup is what counts. -/
theorem counters_resolve (P : Platform) (M : DramModel δ) (cfg : CntlrConfig T) (q : Request)
    {S : DramCacheSetUnison A} {s : ℕ} {r : PageRequest}
    (hs : c.sets s = (S.accessAttempt P r.type r.tag r.offset).1) :
    (c.resolve P M cfg q s r.tag r.block r.footprint (S.accessResult P r)).1.counters =
      c.counters.count (BitVec.bitCount (S.ways S.victim).footprint)
        (some (S.accessResult P r)) := by
  cases hresult : S.accessResult P r with
  | pageMiss =>
    have hholds := DramCacheSetUnison.accessResult_eq_pageMiss_iff.mp hresult
    rw [resolve, counters_missPage, hs,
      DramCacheSetUnison.victim_accessAttempt_of_not_holds hholds,
      DramCacheSetUnison.accessAttempt_ways_of_not_holds hholds]
  | blockMiss | hit => rfl

theorem counters_serve (P : Platform) (M : DramModel δ) (cfg : CntlrConfig T) (q : Request)
    (c : StackDramCacheCntlrUnison T δ A) (s dramDelay remapDelay : ℕ) {r : PageRequest}
    (hr : r.type = q.memOp) :
    (c.serve P M cfg q s r.tag r.offset r.footprint dramDelay remapDelay).1.counters =
      c.counters.count (BitVec.bitCount ((c.sets s).ways (c.sets s).victim).footprint)
        (some ((c.sets s).accessResult P r)) := by
  -- the controller after the access to the tags
  let lookup := (c.sets s).accessAttempt P r.type r.tag r.offset
  let tags := (c.setSet s lookup.1).handleDramAccess P M cfg q 64 s .read
  have hset : tags.1.sets s = lookup.1 := by
    show Function.update c.sets s lookup.1 s = _
    rw [Function.update_self]
  have htags : tags.1.counters = c.counters := counters_handleDramAccess ..
  have hresolve := counters_resolve P M cfg q hset
  rw [htags] at hresolve
  unfold serve
  rw [← hr]
  exact (counters_finish ..).trans hresolve

theorem counters_lookup (setN remapDelay : ℕ) {r : PageRequest} (hr : r.type = q.memOp) :
    let S := c.sets (cfg.getRemapSet P c.perfModel.manager setN).1
    (c.lookup P M cfg q setN r.tag r.offset r.footprint remapDelay).1.counters =
      { c.counters with cacheAccess := c.cacheAccess + 1 }.count
        (BitVec.bitCount (S.ways S.victim).footprint)
        (if (c.perfModel.checkSetDisabled P cfg setN).1 ∨ cfg.dramDisabled then none
          else some (S.accessResult P r)) := by
  -- the controller in which the set is served differs from `c` in one counter and in messages
  let accessed : StackDramCacheCntlrUnison T δ A :=
    { c with cacheAccess := c.cacheAccess + 1 }.print (c.perfModel.checkSetDisabled P cfg setN).2
  intro S
  unfold lookup
  by_cases h : (c.perfModel.checkSetDisabled P cfg setN).1 ∨ cfg.dramDisabled
  · simp only [if_pos h]
    rfl
  · simp only [if_neg h]
    exact counters_serve P M cfg q
      (accessed.print (cfg.getRemapSet P accessed.perfModel.manager setN).2) _ _ _ hr

/-- What a request counts. -/
theorem counters_processRequest (P : Platform) (M : DramModel δ) (cfg : CntlrConfig T)
    (c : StackDramCacheCntlrUnison T δ A) (q : Request) :
    (c.processRequest P M cfg q).1.counters =
      { c.snapshotRoi.counters with cacheAccess := c.cacheAccess + 1 }.count
        (BitVec.bitCount (c.replacedFootprint P M cfg q)) (c.outcome P M cfg q) := by
  obtain ⟨pageTable, availPhyPageTag, heq⟩ := splitAddress_eq P cfg c q.address
  have hcheck : (c.afterCheck P M cfg q).counters = c.snapshotRoi.counters := by
    rw [afterCheck, heq, counters_checkRemapping]
    unfold snapshotRoi
    dsimp only
    split_ifs <;> rfl
  -- copying the counters changes the copies only
  have haccess : (c.afterCheck P M cfg q).cacheAccess = c.cacheAccess := by
    refine (congrArg Counters.cacheAccess hcheck).trans ?_
    unfold snapshotRoi
    split_ifs <;> rfl
  have hset : (cfg.getRemapSet P (c.afterCheck P M cfg q).perfModel.manager
      (c.homeOf P cfg q)).1 = c.targetSet P cfg q := by
    rw [getRemapSet_congr (checked_afterCheck P M cfg q c).sameRouting]
    rfl
  rw [processRequest_eq, counters_lookup _ _ rfl]
  dsimp only
  rw [hset, hcheck, haccess, outcome]
  simp only [bypassed_afterCheck_iff]
  rfl

/-- A request neither enters the region of interest nor leaves it. -/
theorem enterRoi_processRequest (P : Platform) (M : DramModel δ) (cfg : CntlrConfig T)
    (c : StackDramCacheCntlrUnison T δ A) (q : Request) :
    (c.processRequest P M cfg q).1.perfModel.enterRoi = c.perfModel.enterRoi := by
  obtain ⟨pageTable, availPhyPageTag, heq⟩ := splitAddress_eq P cfg c q.address
  rw [(undisturbed_processRequest P M cfg q c).enterRoi, afterCheck, heq]
  dsimp only
  by_cases hre : c.perfModel.remapped = true
  · -- the sweep over the rows leaves the flags of the model alone
    obtain ⟨noRoi, hcheck⟩ := checkRemapping_of_remapped (A := A) P M cfg q
      (c := { c with pageTable, availPhyPageTag }) hre
    have hswept := swept_sweep P M cfg q { c with pageTable, availPhyPageTag, noRoi }
      (rowsInOrder P cfg)
    dsimp only at hcheck
    rw [hcheck]
    exact hswept.undisturbed.enterRoi
  · rw [Bool.not_eq_true] at hre
    obtain ⟨noRoi, hcheck⟩ := checkRemapping_of_not_remapped P M cfg q
      (c := { c with pageTable, availPhyPageTag }) hre
    rw [hcheck]

/-- No action but a request counts anything. -/
theorem counters_of_isManagement {a : Action cfg} (ha : a.IsManagement) :
    (c.step P M cfg a).counters = c.counters := by
  cases a with
  | processRequest q => exact ha.elim
  | storeTemperature | updateTemperature | tryRemapping => rfl

end StackedDram.StackDramCacheCntlrUnison
