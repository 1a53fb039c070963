import StackedDram.Runs

/-!
# The page table and the history table

Which operations of the controller write to the page table and to the footprint history table, and
what they report. Apart from the translation of the address, a request leaves the page table alone;
it writes to the history table only when it replaces a page, and then one entry (`tables_serve`,
`tables_processRequest`). The message that a tag could not be found is never printed
(`updateReplacementIndexTag_printed`).
-/

namespace StackedDram

namespace DramCacheSetUnison

variable {A : ℕ}

/-- A page that has just been installed is found. -/
theorem updateReplacementIndexTag_printed (S : DramCacheSetUnison A) (index : Fin A) (tag : ℕ)
    (footprint : BitVec 32) : (S.updateReplacementIndexTag index tag footprint).2 = [] := by
  have hholds : ({ S.setWay index
      { S.ways index with tag, vbits0 := footprint, dbits0 := 0, footprint := 0 } with
        writes := S.writes + 1 } : DramCacheSetUnison A).Holds tag := ⟨index, by simp [setWay]⟩
  obtain ⟨i, hi⟩ := exists_findTag_eq_some hholds
  unfold updateReplacementIndexTag updateUsedInfo
  dsimp only
  rw [hi]
  dsimp only
  split_ifs <;> rfl

/-- Replacing a page prints nothing. -/
theorem replacePage_printed [NeZero A] (S : DramCacheSetUnison A) (tag : ℕ)
    (footprint : BitVec 32) : (S.replacePage tag footprint).2.2.2 = [] :=
  updateReplacementIndexTag_printed _ _ _ _

end DramCacheSetUnison

namespace StackDramCacheCntlrUnison

open StackedDramPerfUnison

variable {T δ : Type} {A : ℕ} {P : Platform} {M : DramModel δ} {cfg : CntlrConfig T}
  {q : Request} {c c₁ c₂ : StackDramCacheCntlrUnison T δ A} {fht : ℕ → BitVec 32}

/-- The controller `c'` has the page table of `c` and the history table `fht`, and since `c` no tag
has been reported as unknown. -/
structure Tables (c : StackDramCacheCntlrUnison T δ A) (fht : ℕ → BitVec 32)
    (c' : StackDramCacheCntlrUnison T δ A) : Prop where
  pageTable : c'.pageTable = c.pageTable
  availPhyPageTag : c'.availPhyPageTag = c.availPhyPageTag
  fht_eq : c'.fht = fht
  quiet : .updateTag ∈ c'.perfModel.printed → .updateTag ∈ c.perfModel.printed

/-- Nothing is changed. -/
theorem Tables.refl (c : StackDramCacheCntlrUnison T δ A) : Tables c c.fht c := ⟨rfl, rfl, rfl, id⟩

/-- Two operations, one after the other. -/
theorem Tables.append {fht' : ℕ → BitVec 32} (h : Tables c fht c₁) (h' : Tables c₁ fht' c₂) :
    Tables c fht' c₂ where
  pageTable := h'.pageTable.trans h.pageTable
  availPhyPageTag := h'.availPhyPageTag.trans h.availPhyPageTag
  fht_eq := h'.fht_eq
  quiet := h.quiet ∘ h'.quiet

/-- An operation that does not write to the history table, after one that may have. -/
theorem Tables.trans (h : Tables c fht c₁) (h' : Tables c₁ c₁.fht c₂) : Tables c fht c₂ :=
  h.fht_eq ▸ h.append h'

/-! ## Messages -/

/-- The messages of the address functions are not about tags. -/
theorem updateTag_notMem_splitSetNum (P : Platform) (cfg : StackConfig T) (s : ℕ) :
    .updateTag ∉ (cfg.splitSetNum P s).2 := by
  unfold StackConfig.splitSetNum
  dsimp only
  split_ifs <;> simp

theorem updateTag_notMem_getSetNum (P : Platform) (cfg : StackConfig T) (v b r : ℕ) :
    .updateTag ∉ (cfg.getSetNum P v b r).2 := by
  unfold StackConfig.getSetNum
  dsimp only
  split_ifs <;> simp

theorem updateTag_notMem_getRemapSet (P : Platform) (cfg : StackConfig T) (m : RemappingManager T)
    (s : ℕ) : .updateTag ∉ (cfg.getRemapSet P m s).2 := by
  have hsplit := updateTag_notMem_splitSetNum P cfg s
  have hget := updateTag_notMem_getSetNum P cfg
  unfold StackConfig.getRemapSet
  dsimp only
  split_ifs <;> simp [hsplit, hget]

/-- Printing other messages. -/
theorem Tables.print (h : Tables c fht c₁) {msgs : List Message} (hmsgs : .updateTag ∉ msgs) :
    Tables c fht (c₁.print msgs) where
  pageTable := h.pageTable
  availPhyPageTag := h.availPhyPageTag
  fht_eq := h.fht_eq
  quiet hmem := h.quiet ((List.mem_append.mp hmem).resolve_right hmsgs)

/-! ## The parts of a request -/

variable [LinearOrder T]

theorem updateTag_getAccessLatency (P : Platform) (M : DramModel δ) (cfg : CntlrConfig T)
    (nsOfClks : ℕ → ℕ) (pm : StackedDramPerfUnison T δ) (pktTime pktSize s : ℕ)
    (accessType : AccessType) :
    .updateTag ∈ (pm.getAccessLatency P M cfg nsOfClks pktTime pktSize s accessType).1.printed →
      .updateTag ∈ pm.printed := by
  have hsplit := updateTag_notMem_splitSetNum P cfg.toStackConfig s
  have hget := updateTag_notMem_getSetNum P cfg.toStackConfig
  unfold getAccessLatency
  dsimp only
  split_ifs <;> simp [hsplit, hget]

/-- An access to the memory leaves the tables alone. -/
theorem tables_handleDramAccess (P : Platform) (M : DramModel δ) (cfg : CntlrConfig T)
    (q : Request) (c : StackDramCacheCntlrUnison T δ A) (pktSize s : ℕ) (accessType : AccessType) :
    Tables c c.fht (c.handleDramAccess P M cfg q pktSize s accessType).1 where
  pageTable := rfl
  availPhyPageTag := rfl
  fht_eq := rfl
  quiet := by
    unfold handleDramAccess
    dsimp only
    -- induction on the transfers
    refine List.foldlRecOn (motive := fun acc : StackedDramPerfUnison T δ × ℕ =>
      .updateTag ∈ acc.1.printed → .updateTag ∈ c.perfModel.printed) _ _ ?_ ?_
    · exact id
    · intro acc ih _ _ hmem
      exact ih (updateTag_getAccessLatency P M cfg _ acc.1 _ _ s accessType hmem)

theorem Tables.handleDramAccess (h : Tables c fht c₁) (P : Platform) (M : DramModel δ)
    (cfg : CntlrConfig T) (q : Request) (pktSize s : ℕ) (accessType : AccessType) :
    Tables c fht (c₁.handleDramAccess P M cfg q pktSize s accessType).1 :=
  h.trans (tables_handleDramAccess P M cfg q c₁ pktSize s accessType)

/-- Invalidating a row leaves the tables alone. -/
theorem tables_invalidateRow (P : Platform) (M : DramModel δ) (cfg : CntlrConfig T) (q : Request)
    (st : Sweep T δ A) (v s setWbBlocks : ℕ) :
    Tables st.cntlr st.cntlr.fht (st.invalidateRow P M cfg q v s setWbBlocks).cntlr := by
  have haccess := tables_handleDramAccess P M cfg q st.cntlr (8 * setWbBlocks * 64) s .read
  exact ⟨haccess.pageTable, haccess.availPhyPageTag, haccess.fht_eq, haccess.quiet⟩

/-- Migrating a row leaves the tables alone. -/
theorem tables_migrateRow (P : Platform) (M : DramModel δ) (cfg : CntlrConfig T) (q : Request)
    (st : Sweep T δ A) (v s setValidBlocks : ℕ) :
    Tables st.cntlr st.cntlr.fht (st.migrateRow P M cfg q v s setValidBlocks).cntlr := by
  have haccess := (tables_handleDramAccess P M cfg q st.cntlr (setValidBlocks * 64) s
    .read).handleDramAccess P M cfg q (setValidBlocks * 64) s .write
  exact ⟨haccess.pageTable, haccess.availPhyPageTag, haccess.fht_eq, haccess.quiet⟩

/-- An iteration of the loops of `checkRemapping`. -/
theorem tables_sweepRow (P : Platform) (M : DramModel δ) (cfg : CntlrConfig T) (q : Request)
    (st : Sweep T δ A) (row : ℕ × ℕ × ℕ) :
    Tables st.cntlr st.cntlr.fht (sweepRow P M cfg q st row).cntlr := by
  have hprint := (Tables.refl st.cntlr).print
    (updateTag_notMem_getSetNum P cfg.toStackConfig row.1 row.2.1 row.2.2)
  -- the state of the loops after the messages of `getSetNum`
  let st₁ : Sweep T δ A :=
    { st with cntlr := st.cntlr.print (cfg.getSetNum P row.1 row.2.1 row.2.2).2 }
  unfold sweepRow
  dsimp only
  split_ifs
  · exact Tables.refl _
  · exact hprint.trans (tables_invalidateRow P M cfg q st₁ _ _ _)
  · exact hprint.trans (tables_migrateRow P M cfg q st₁ _ _ _)
  · exact hprint

/-- A sweep leaves the tables alone. -/
theorem tables_sweep (P : Platform) (M : DramModel δ) (cfg : CntlrConfig T) (q : Request)
    (c : StackDramCacheCntlrUnison T δ A) (rows : List (ℕ × ℕ × ℕ)) :
    Tables c c.fht (c.sweep P M cfg q rows).cntlr := by
  unfold sweep
  refine List.foldlRecOn (motive := fun st : Sweep T δ A => Tables c c.fht st.cntlr) _ _
    (Tables.refl c) ?_
  intro st ih row _
  exact ih.trans (tables_sweepRow P M cfg q st row)

/-- The check for a remapping leaves the tables alone. -/
theorem tables_checkRemapping (P : Platform) (M : DramModel δ) (cfg : CntlrConfig T) (q : Request)
    (c : StackDramCacheCntlrUnison T δ A) :
    Tables c c.fht (c.checkRemapping P M cfg q).1 := by
  cases hre : c.perfModel.remapped with
  | true =>
    obtain ⟨noRoi, heq⟩ := checkRemapping_of_remapped P M cfg q hre
    rw [heq]
    have hsweep := tables_sweep P M cfg q { c with noRoi } (rowsInOrder P cfg)
    exact ⟨hsweep.pageTable, hsweep.availPhyPageTag, hsweep.fht_eq, hsweep.quiet⟩
  | false =>
    obtain ⟨noRoi, heq⟩ := checkRemapping_of_not_remapped P M cfg q hre
    rw [heq]
    exact ⟨rfl, rfl, rfl, id⟩

omit [LinearOrder T] in
/-- The statistics of an access are no tables. -/
theorem tables_countAccess (P : Platform) (cfg : CntlrConfig T) (q : Request) (s : ℕ)
    (result : AccessResult) (c : StackDramCacheCntlrUnison T δ A) :
    Tables c c.fht (c.countAccess P cfg q s result) := by
  unfold countAccess
  dsimp only
  split_ifs <;> exact ⟨rfl, rfl, rfl, id⟩

/-- The end of a request leaves the tables alone. -/
theorem tables_finish (P : Platform) (M : DramModel δ) (cfg : CntlrConfig T) (q : Request) (s : ℕ)
    (result : AccessResult) (loadBlocks dramDelay remapDelay : ℕ)
    (c : StackDramCacheCntlrUnison T δ A) :
    Tables c c.fht (c.finish P M cfg q s result loadBlocks dramDelay remapDelay).1 := by
  unfold finish
  by_cases hload : 0 < loadBlocks
  · rw [if_pos hload]
    exact tables_countAccess P cfg q s result c
  · rw [if_neg hload]
    exact (tables_handleDramAccess P M cfg q c 64 s q.accessType).trans
      (tables_countAccess P cfg q s result _)

variable [NeZero A]

/-- Replacing a page records the footprint of the victim for the block that is requested. -/
theorem tables_missPage (P : Platform) (M : DramModel δ) (cfg : CntlrConfig T) (q : Request)
    (s tag blockNum : ℕ) (footprint : BitVec 32) (c : StackDramCacheCntlrUnison T δ A) :
    Tables c (Function.update c.fht blockNum ((c.sets s).ways (c.sets s).victim).footprint)
      (c.missPage P M cfg q s tag blockNum footprint).1 := by
  unfold missPage
  dsimp only
  refine Tables.trans ?_ (tables_handleDramAccess P M cfg q _ 64 s .read)
  refine ⟨rfl, rfl, rfl, fun hmem => ?_⟩
  have hprinted := DramCacheSetUnison.replacePage_printed (c.sets s) tag footprint
  simpa [print, setSet, StackedDramPerfUnison.print, hprinted] using hmem

/-- What is done about the result of a lookup. -/
theorem tables_resolve (P : Platform) (M : DramModel δ) (cfg : CntlrConfig T) (q : Request)
    (s tag blockNum : ℕ) (footprint : BitVec 32) (result : AccessResult)
    (c : StackDramCacheCntlrUnison T δ A) :
    Tables c
      (if result = .pageMiss then
        Function.update c.fht blockNum ((c.sets s).ways (c.sets s).victim).footprint
      else c.fht)
      (c.resolve P M cfg q s tag blockNum footprint result).1 := by
  cases result with
  | pageMiss => exact tables_missPage P M cfg q s tag blockNum footprint c
  | blockMiss => exact ⟨rfl, rfl, rfl, id⟩
  | hit => exact Tables.refl c

/-- The history table after a request for a page in the set `S`. -/
def recordedFht (fht : ℕ → BitVec 32) (S : DramCacheSetUnison A) (r : PageRequest) :
    ℕ → BitVec 32 :=
  if S.Holds r.tag then fht else Function.update fht r.block (S.ways S.victim).footprint

/-- Serving a request in the set `s` writes to the history table only when the page is missing. -/
theorem tables_serve (P : Platform) (M : DramModel δ) (cfg : CntlrConfig T) (q : Request)
    (c : StackDramCacheCntlrUnison T δ A) (s dramDelay remapDelay : ℕ) (r : PageRequest)
    (hr : r.type = q.memOp) :
    Tables c (recordedFht c.fht (c.sets s) r)
      (c.serve P M cfg q s r.tag r.offset r.footprint dramDelay remapDelay).1 := by
  -- the controller after the lookup, and after the access to the tags
  let c₀ := c.setSet s ((c.sets s).accessAttempt P r.type r.tag r.offset).1
  let c₁ := (c₀.handleDramAccess P M cfg q 64 s .read).1
  have hset : Tables c c.fht c₀ := ⟨rfl, rfl, rfl, id⟩
  have hlookup : Tables c c.fht c₁ := hset.trans (tables_handleDramAccess P M cfg q c₀ 64 s .read)
  have hresolve := hlookup.append (tables_resolve P M cfg q s r.tag r.block r.footprint
    ((c.sets s).accessAttempt P r.type r.tag r.offset).2 c₁)
  have hfht : (if ((c.sets s).accessAttempt P r.type r.tag r.offset).2 = .pageMiss then
      Function.update c₁.fht r.block ((c₁.sets s).ways (c₁.sets s).victim).footprint
      else c₁.fht) = recordedFht c.fht (c.sets s) r := by
    rw [recordedFht, hlookup.fht_eq]
    by_cases hholds : (c.sets s).Holds r.tag
    · rw [if_pos hholds, if_neg fun hmiss =>
        DramCacheSetUnison.accessAttempt_eq_pageMiss_iff.mp hmiss hholds]
    · have hset : c₁.sets s = ((c.sets s).accessAttempt P r.type r.tag r.offset).1 :=
        Function.update_self ..
      rw [if_neg hholds, if_pos (DramCacheSetUnison.accessAttempt_eq_pageMiss_iff.mpr hholds), hset,
        DramCacheSetUnison.victim_accessAttempt_of_not_holds hholds,
        DramCacheSetUnison.accessAttempt_ways_of_not_holds hholds]
  rw [hfht] at hresolve
  unfold serve
  simp only [← hr]
  exact hresolve.trans (tables_finish P M cfg q s _ _ _ _ _)

/-! ## The whole request -/

/-- The history table after a request: one entry is written when the page is missing in the set
that serves the request. -/
def fhtAfter (P : Platform) (M : DramModel δ) (cfg : CntlrConfig T) (q : Request)
    (c : StackDramCacheCntlrUnison T δ A) : ℕ → BitVec 32 :=
  if c.Bypassed P cfg q then c.fht
  else recordedFht c.fht ((c.afterCheck P M cfg q).sets (c.targetSet P cfg q))
    (c.pageRequest P cfg q)

omit [NeZero A] in
/-- `checkRemapping`, after the address has been translated. -/
theorem tables_afterCheck (P : Platform) (M : DramModel δ) (cfg : CntlrConfig T) (q : Request)
    (c : StackDramCacheCntlrUnison T δ A) :
    Tables (c.translateAddress q.address).1 c.fht (c.afterCheck P M cfg q) := by
  have hcheck := tables_checkRemapping P M cfg q (c.translateAddress q.address).1
  obtain ⟨pageTable, availPhyPageTag, heq, -⟩ := translateAddress_eq c q.address
  have hfht : (c.translateAddress q.address).1.fht = c.fht := by rw [heq]
  rw [hfht] at hcheck
  exact hcheck

/-- `lookup` for a set that is disabled. -/
theorem tables_lookup_of_disabled {setN : ℕ}
    (h : (c.perfModel.checkSetDisabled P cfg setN).1 = true ∨ cfg.dramDisabled = true)
    (tag offset : ℕ) (footprint : BitVec 32) (remapDelay : ℕ) :
    Tables c c.fht (lookup P M cfg q setN tag offset footprint remapDelay c).1 := by
  have hprint := (Tables.refl c).print (updateTag_notMem_splitSetNum P cfg.toStackConfig setN)
  unfold lookup
  simp only [if_pos h]
  exact ⟨rfl, rfl, rfl, hprint.quiet⟩

/-- `lookup` for a set that is not disabled. -/
theorem tables_lookup {setN : ℕ}
    (h : ¬ ((c.perfModel.checkSetDisabled P cfg setN).1 = true ∨ cfg.dramDisabled = true))
    (remapDelay : ℕ) (r : PageRequest) (hr : r.type = q.memOp) :
    Tables c (recordedFht c.fht (c.sets (cfg.getRemapSet P c.perfModel.manager setN).1) r)
      (lookup P M cfg q setN r.tag r.offset r.footprint remapDelay c).1 := by
  have hprint := ((Tables.refl c).print
    (updateTag_notMem_splitSetNum P cfg.toStackConfig setN)).print
    (updateTag_notMem_getRemapSet P cfg.toStackConfig c.perfModel.manager setN)
  have hmanager : ∀ (c' : StackDramCacheCntlrUnison T δ A) (msgs : List Message),
      (c'.print msgs).perfModel.manager = c'.perfModel.manager := fun _ _ => rfl
  unfold lookup
  simp only [if_neg h, hmanager]
  -- the controller in which the set is served differs from `c` in counters and messages
  generalize hc₂ : StackDramCacheCntlrUnison.print (StackDramCacheCntlrUnison.print _ _) _ = c₂
  have hbefore : Tables c c.fht c₂ := by
    rw [← hc₂]
    exact ⟨rfl, rfl, rfl, hprint.quiet⟩
  have hsets : c₂.sets = c.sets := by rw [← hc₂]; rfl
  rw [← hsets, ← hbefore.fht_eq]
  exact hbefore.append (tables_serve P M cfg q c₂ _ _ remapDelay r hr)

/-- A request translates its address, and then leaves the page table alone. -/
theorem tables_processRequest (P : Platform) (M : DramModel δ) (cfg : CntlrConfig T) (q : Request)
    (c : StackDramCacheCntlrUnison T δ A) :
    Tables (c.translateAddress q.address).1 (c.fhtAfter P M cfg q)
      (c.processRequest P M cfg q).1 := by
  have hcheck := tables_afterCheck P M cfg q c
  rw [processRequest_eq, fhtAfter]
  by_cases hq : c.Bypassed P cfg q
  · rw [if_pos hq]
    rw [← bypassed_afterCheck_iff P M cfg q c] at hq
    exact hcheck.trans (tables_lookup_of_disabled hq _ _ _ _)
  · rw [if_neg hq]
    rw [← bypassed_afterCheck_iff P M cfg q c] at hq
    have hlookup := hcheck.append (tables_lookup (P := P) (M := M) hq (c.remapDelay P M cfg q)
      (c.pageRequest P cfg q) rfl)
    rw [hcheck.fht_eq, getRemapSet_congr (checked_afterCheck P M cfg q c).sameRouting] at hlookup
    exact hlookup

omit [LinearOrder T] [NeZero A] in
/-- An action is a request or one of the others. -/
theorem Action.isManagement_or (a : Action cfg) : a.IsManagement ∨ ∃ q, a = .processRequest q := by
  cases a with
  | processRequest q => exact Or.inr ⟨q, rfl⟩
  | storeTemperature | updateTemperature | tryRemapping => exact Or.inl trivial

/-- No action but a request touches the tables or reports a tag. -/
theorem tables_of_isManagement (P : Platform) (M : DramModel δ) {a : Action cfg}
    (ha : a.IsManagement) : Tables c c.fht (c.step P M cfg a) := by
  cases a with
  | processRequest q => exact ha.elim
  | storeTemperature | updateTemperature => exact ⟨rfl, rfl, rfl, id⟩
  | tryRemapping =>
    refine ⟨rfl, rfl, rfl, ?_⟩
    -- what the manager prints goes to a log of its own
    unfold step tryRemapping
    dsimp only
    split_ifs <;> exact id

end StackDramCacheCntlrUnison

end StackedDram
