import Mathlib.Algebra.BigOperators.Fin
import StackedDram.Controller

/-!
# What a request changes

One lemma for each operation of the controller. `checkRemapping` leaves the controller alone
unless temperatures have changed; then it empties the sets of the rows of invalid banks, marks all
banks valid and counts the dirty blocks that were in those sets (`checked_checkRemapping`). The
rest of `ProcessRequest` either leaves all sets alone or lets the set of the request serve it
(`served_processRequest`). No part of it changes where requests go.

None of this depends on the geometry. In a known layout the sets of the rows of a bank are the sets
of the bank (`toEmpty_iff`).
-/

namespace StackedDram

namespace DramCacheSetUnison

variable {A : ℕ}

/-- No way holds a page. -/
def Empty (S : DramCacheSetUnison A) : Prop := ∀ i, S.ways i = DramCachePageInfo.new

/-- The number of dirty bits of the set. -/
def dirtyBits (S : DramCacheSetUnison A) : ℕ := ∑ i, BitVec.bitCount (S.ways i).dbits0

theorem empty_new (nVault nBank nLevel : ℕ) :
    (new nVault nBank nLevel : DramCacheSetUnison A).Empty := fun _ => rfl

theorem empty_invalidateContent (S : DramCacheSetUnison A) : S.invalidateContent.1.Empty :=
  fun _ => rfl

theorem getDirtyBlocks_eq (S : DramCacheSetUnison A) : S.getDirtyBlocks = S.dirtyBits := by
  rw [getDirtyBlocks, dirtyBits, Fin.sum_univ_def]
  simp only [BitVec.countLoop_eq_bitCount]

variable {S : DramCacheSetUnison A}

/-- An empty set holds no page. -/
theorem Empty.not_holds (h : S.Empty) {tag : ℕ} (htag : tag ≠ invalidTag) : ¬ S.Holds tag := by
  rintro ⟨i, hi⟩
  rw [h i] at hi
  exact htag hi.symm

theorem Empty.dirtyBits_eq_zero (h : S.Empty) : S.dirtyBits = 0 := by
  simp [dirtyBits, h _]

end DramCacheSetUnison

namespace StackDramCacheCntlrUnison

open StackedDramPerfUnison

variable {T δ : Type} {A : ℕ} {P : Platform} {M : DramModel δ} {cfg : CntlrConfig T}
  {q : Request} {c : StackDramCacheCntlrUnison T δ A}

/-! ## Addresses -/

/-- The page tag of an address, in the current page table. -/
def pageTag (P : Platform) (cfg : CntlrConfig T) (c : StackDramCacheCntlrUnison T δ A)
    (address : ℕ) : ℕ := (c.splitAddress P cfg address).2.2.1

/-- The offset of an address in its page. -/
def pageOffset (P : Platform) (cfg : CntlrConfig T) (c : StackDramCacheCntlrUnison T δ A)
    (address : ℕ) : ℕ := (c.splitAddress P cfg address).2.2.2

/-- Translating an address changes nothing but the page table. -/
theorem translateAddress_eq (c : StackDramCacheCntlrUnison T δ A) (address : ℕ) :
    ∃ pageTable availPhyPageTag,
      (c.translateAddress address).1 = { c with pageTable, availPhyPageTag } ∧
        (c.translateAddress address).2 < 2 ^ 64 := by
  unfold translateAddress
  dsimp only
  have hpos : 0 < 2 ^ 64 := Nat.two_pow_pos 64
  cases c.pageTable (address >>> 12) with
  | none => exact ⟨_, _, rfl, Nat.mod_lt _ hpos⟩
  | some pTag => exact ⟨_, _, rfl, Nat.mod_lt _ hpos⟩

theorem splitAddress_eq (P : Platform) (cfg : CntlrConfig T)
    (c : StackDramCacheCntlrUnison T δ A) (address : ℕ) :
    ∃ pageTable availPhyPageTag,
      c.splitAddress P cfg address = ({ c with pageTable, availPhyPageTag },
        homeSet P cfg (c.pageTag P cfg address), c.pageTag P cfg address,
        c.pageOffset P cfg address) := by
  obtain ⟨pageTable, availPhyPageTag, heq, -⟩ := translateAddress_eq c address
  refine ⟨pageTable, availPhyPageTag, ?_⟩
  rw [← heq]
  rfl

/-- Division by the page size keeps page tags away from the invalid tag. -/
theorem pageTag_ne (P : Platform) (cfg : CntlrConfig T) (c : StackDramCacheCntlrUnison T δ A)
    (address : ℕ) : c.pageTag P cfg address ≠ invalidTag := by
  obtain ⟨-, -, -, hlt⟩ := translateAddress_eq c address
  have heq : c.pageTag P cfg address = (c.translateAddress address).2 / 1984 := rfl
  have hinvalid : invalidTag = 2 ^ 64 - 1 := rfl
  omega

theorem pageOffset_lt (P : Platform) (cfg : CntlrConfig T) (c : StackDramCacheCntlrUnison T δ A)
    (address : ℕ) : c.pageOffset P cfg address < stackedPageSize :=
  Nat.mod_lt _ (by decide)

/-- What a request asks of the set it is sent to. -/
def pageRequest (P : Platform) (cfg : CntlrConfig T) (c : StackDramCacheCntlrUnison T δ A)
    (q : Request) : PageRequest where
  type := q.memOp
  tag := c.pageTag P cfg q.address
  offset := c.pageOffset P cfg q.address
  footprint := c.fht (c.pageOffset P cfg q.address / stackedBlockSize)
  tag_ne := pageTag_ne P cfg c q.address
  offset_lt := pageOffset_lt P cfg c q.address

variable [LinearOrder T]

/-! ## Accesses to the DRAM -/

/-- An access to the DRAM changes nothing but the performance model, and not the routing there. -/
theorem handleDramAccess_eq (P : Platform) (M : DramModel δ) (cfg : CntlrConfig T) (q : Request)
    (c : StackDramCacheCntlrUnison T δ A) (pktSize s : ℕ) (accessType : AccessType) :
    ∃ perfModel, c.perfModel.Undisturbed perfModel ∧
      (c.handleDramAccess P M cfg q pktSize s accessType).1 = { c with perfModel } := by
  unfold handleDramAccess
  dsimp only
  refine ⟨_, ?_, rfl⟩
  -- induction on the transfers
  refine List.foldlRecOn
    (motive := fun acc : StackedDramPerfUnison T δ × ℕ => c.perfModel.Undisturbed acc.1) _ _
    (Undisturbed.refl _) ?_
  intro acc hacc _ _
  exact hacc.trans (undisturbed_getAccessLatency ..)

/-! ## Emptying the sets of invalid banks -/

/-- The bank of the row is marked invalid. -/
def RowInvalid (cfg : CntlrConfig T) (c : StackDramCacheCntlrUnison T δ A) (row : ℕ × ℕ × ℕ) :
    Prop := (c.perfModel.manager.bankStat (cfg.remap.getBankId row.1 row.2.1)).valid = false

/-- The set of the row. -/
def rowSet (P : Platform) (cfg : CntlrConfig T) (row : ℕ × ℕ × ℕ) : ℕ :=
  (cfg.getSetNum P row.1 row.2.1 row.2.2).1

/-- The iteration for a row of a valid bank does nothing. A row of such a bank is never counted as
migrated, so the branch for migrated rows is not taken either. -/
theorem sweepRow_of_valid {st : Sweep T δ A} {row : ℕ × ℕ × ℕ}
    (h : ¬ RowInvalid cfg st.cntlr row) : sweepRow P M cfg q st row = st := by
  rw [RowInvalid, Bool.not_eq_false] at h
  unfold sweepRow
  dsimp only [checkRowValid, checkRowMigrated, RemappingManager.checkValid,
    RemappingManager.checkMigrated]
  simp [h]

/-- Emptying a set in the loops of `checkRemapping`. -/
theorem invalidateRow_eq (P : Platform) (M : DramModel δ) (cfg : CntlrConfig T) (q : Request)
    (st : Sweep T δ A) (v s setWbBlocks : ℕ) :
    let st' := st.invalidateRow P M cfg q v s setWbBlocks
    st.cntlr.perfModel.Undisturbed st'.cntlr.perfModel ∧
      st'.cntlr.sets =
        Function.update st.cntlr.sets s (st.cntlr.sets s).invalidateContent.1 ∧
      st'.cntlr.pageTable = st.cntlr.pageTable ∧ st'.cntlr.wbBlocks = st.cntlr.wbBlocks ∧
      st'.writebackBlocks = st.writebackBlocks := by
  obtain ⟨pm, hpm, heq⟩ :=
    handleDramAccess_eq P M cfg q st.cntlr (8 * setWbBlocks * 64) s .read
  simp only [Sweep.invalidateRow, Sweep.handleDramAccess, Sweep.addDelay, heq, and_true]
  exact ⟨hpm, rfl, rfl, rfl⟩

/-- The iteration for a row of an invalid bank empties its set and counts the dirty blocks. -/
theorem sweepRow_of_invalid {st : Sweep T δ A} {row : ℕ × ℕ × ℕ}
    (h : RowInvalid cfg st.cntlr row) :
    let s := rowSet P cfg row
    let st' := sweepRow P M cfg q st row
    st.cntlr.perfModel.Undisturbed st'.cntlr.perfModel ∧
      st'.cntlr.sets =
        Function.update st.cntlr.sets s (st.cntlr.sets s).invalidateContent.1 ∧
      st'.cntlr.pageTable = st.cntlr.pageTable ∧ st'.cntlr.wbBlocks = st.cntlr.wbBlocks ∧
      st'.writebackBlocks = st.writebackBlocks + .ofNat 32 (st.cntlr.sets s).dirtyBits := by
  rw [RowInvalid] at h
  unfold sweepRow
  dsimp only [checkRowValid, RemappingManager.checkValid]
  simp only [h, Bool.false_eq_true, false_and, if_false, if_true]
  obtain ⟨hund, hsets, htable, hwb, hcount⟩ := invalidateRow_eq P M cfg q
    { st with cntlr := st.cntlr.print (cfg.getSetNum P row.1 row.2.1 row.2.2).2 } row.1
    (rowSet P cfg row) (st.cntlr.sets (rowSet P cfg row)).getDirtyBlocks
  refine ⟨(undisturbed_print _ _).trans hund, hsets, htable, hwb, ?_⟩
  -- `getDirtyBlocks` has counted the dirty bits before the set was emptied
  rw [← DramCacheSetUnison.getDirtyBlocks_eq]
  exact congrArg (· + _) hcount

/-- What the loops have done for the rows `rows`. -/
structure Swept (P : Platform) (cfg : CntlrConfig T) (c : StackDramCacheCntlrUnison T δ A)
    (rows : List (ℕ × ℕ × ℕ)) (st : Sweep T δ A) : Prop where
  undisturbed : c.perfModel.Undisturbed st.cntlr.perfModel
  pageTable : st.cntlr.pageTable = c.pageTable
  wbBlocks : st.cntlr.wbBlocks = c.wbBlocks
  /-- The sets of invalid rows are empty. -/
  emptied : ∀ row ∈ rows, RowInvalid cfg c row → (st.cntlr.sets (rowSet P cfg row)).Empty
  /-- The other sets are as they were. -/
  kept : ∀ s, (∀ row ∈ rows, RowInvalid cfg c row → rowSet P cfg row ≠ s) →
    st.cntlr.sets s = c.sets s

omit [LinearOrder T] in
theorem rowInvalid_congr (cfg : CntlrConfig T) {c' : StackDramCacheCntlrUnison T δ A}
    (h : c.perfModel.Undisturbed c'.perfModel) (row : ℕ × ℕ × ℕ) :
    RowInvalid cfg c' row ↔ RowInvalid cfg c row := by
  rw [RowInvalid, RowInvalid, h.valid]

section Rows

variable {rows : List (ℕ × ℕ × ℕ)} {st : Sweep T δ A} {row : ℕ × ℕ × ℕ}

/-- The iteration for the row of an invalid bank empties one more set. -/
theorem Swept.append_invalid (h : Swept P cfg c rows st) (hrow : RowInvalid cfg c row) :
    Swept P cfg c (rows ++ [row]) (sweepRow P M cfg q st row) := by
  obtain ⟨hund, hsets, htable, hwb, -⟩ := sweepRow_of_invalid (P := P) (M := M) (q := q)
    ((rowInvalid_congr cfg h.undisturbed row).mpr hrow)
  refine ⟨h.undisturbed.trans hund, htable.trans h.pageTable, hwb.trans h.wbBlocks,
    fun row' hrow' hinvalid => ?_, fun s hs => ?_⟩
  · -- another row may share the set, and then finds it empty
    rw [hsets]
    by_cases hsame : rowSet P cfg row' = rowSet P cfg row
    · rw [hsame, Function.update_self]
      exact DramCacheSetUnison.empty_invalidateContent _
    · rw [Function.update_of_ne hsame]
      rcases List.mem_append.mp hrow' with hmem | hmem
      · exact h.emptied row' hmem hinvalid
      · rw [List.mem_singleton.mp hmem] at hsame
        exact absurd rfl hsame
  · rw [hsets, Function.update_of_ne (hs row (by simp) hrow).symm]
    exact h.kept s fun row' hmem => hs row' (List.mem_append_left _ hmem)

/-- The iteration for the row of a valid bank does nothing. -/
theorem Swept.append_valid (h : Swept P cfg c rows st) (hrow : ¬ RowInvalid cfg c row) :
    Swept P cfg c (rows ++ [row]) (sweepRow P M cfg q st row) := by
  have hskip := sweepRow_of_valid (P := P) (M := M) (q := q)
    (mt (rowInvalid_congr cfg h.undisturbed row).mp hrow)
  rw [hskip]
  refine ⟨h.undisturbed, h.pageTable, h.wbBlocks, fun row' hrow' hinvalid => ?_, fun s hs => ?_⟩
  · rcases List.mem_append.mp hrow' with hmem | hmem
    · exact h.emptied row' hmem hinvalid
    · rw [List.mem_singleton.mp hmem] at hinvalid
      exact absurd hinvalid hrow
  · exact h.kept s fun row' hmem => hs row' (List.mem_append_left _ hmem)

end Rows

/-- The loops over any rows empty the sets of the invalid ones, and no others. -/
theorem swept_sweep (P : Platform) (M : DramModel δ) (cfg : CntlrConfig T) (q : Request)
    (c : StackDramCacheCntlrUnison T δ A) (rows : List (ℕ × ℕ × ℕ)) :
    Swept P cfg c rows (c.sweep P M cfg q rows) := by
  -- induction on the rows, the last one first, as the loops append it to what is done
  induction rows using List.reverseRecOn with
  | nil => exact ⟨Undisturbed.refl _, rfl, rfl, fun row hrow => absurd hrow List.not_mem_nil,
      fun _ _ => rfl⟩
  | append_singleton rows row ih =>
    rw [sweep, List.foldl_append, List.foldl_cons, List.foldl_nil, ← sweep]
    by_cases hrow : RowInvalid cfg c row
    · exact ih.append_invalid hrow
    · exact ih.append_valid hrow

/-- `s` is the set of a row of a bank that is marked invalid, and the controller is going to
notice. -/
def ToEmpty (P : Platform) (cfg : CntlrConfig T) (c : StackDramCacheCntlrUnison T δ A) (s : ℕ) :
    Prop :=
  c.perfModel.remapped = true ∧
    ∃ row ∈ rowsInOrder P cfg, RowInvalid cfg c row ∧ rowSet P cfg row = s

instance (P : Platform) (cfg : CntlrConfig T) (c : StackDramCacheCntlrUnison T δ A) (s : ℕ) :
    Decidable (c.ToEmpty P cfg s) := by
  unfold ToEmpty RowInvalid
  infer_instance

variable {x y z : ℕ}

omit [LinearOrder T] in
/-- The loops of `checkRemapping` visit the rows of the geometry. -/
theorem mem_rowsInOrder_iff_of_layout (h : cfg.Layout x y z) {row : ℕ × ℕ × ℕ} :
    row ∈ rowsInOrder P cfg ↔ row.1 < 2 ^ x ∧ row.2.1 < 2 ^ y ∧ row.2.2 < 2 ^ z := by
  obtain ⟨v, b, r⟩ := row
  rw [rowsInOrder, h.floorLog2_nRows, h.floorLog2_nBanks, h.nVaults, Nat.one_shiftLeft,
    Nat.one_shiftLeft]
  simp

omit [LinearOrder T] in
theorem mem_rowsInOrder_iff (h : cfg.WellFormed x y z) {row : ℕ × ℕ × ℕ} :
    row ∈ rowsInOrder P cfg ↔ row.1 < 2 ^ x ∧ row.2.1 < 2 ^ y ∧ row.2.2 < 2 ^ z :=
  mem_rowsInOrder_iff_of_layout h.layout

omit [LinearOrder T] in
/-- Every set is the set of a row that the loops visit. -/
theorem exists_row (h : cfg.WellFormed x y z) {s : ℕ} (hs : s < 2 ^ (x + y + z)) :
    ∃ row ∈ rowsInOrder P cfg, rowSet P cfg row = s ∧
      cfg.remap.getBankId row.1 row.2.1 = cfg.bankOf P s := by
  refine ⟨(cfg.splitSetNum P s).1, (mem_rowsInOrder_iff h).mpr (h.layout.splitSetNum_lt hs), ?_,
    rfl⟩
  rw [rowSet, h.layout.getSetNum_splitSetNum hs]

omit [LinearOrder T] in
/-- The bank of the set of a row is the bank of the row. -/
theorem bankOf_rowSet (h : cfg.WellFormed x y z) {row : ℕ × ℕ × ℕ}
    (hrow : row ∈ rowsInOrder P cfg) :
    cfg.bankOf P (rowSet P cfg row) = cfg.remap.getBankId row.1 row.2.1 := by
  obtain ⟨hv, hb, hr⟩ := (mem_rowsInOrder_iff h).mp hrow
  rw [StackConfig.bankOf, rowSet, h.layout.splitSetNum_getSetNum hv hb hr]

omit [LinearOrder T] in
/-- In a known layout, the sets of the rows of a bank are the sets of the bank. -/
theorem toEmpty_iff (h : cfg.WellFormed x y z) {s : ℕ} (hs : s < 2 ^ (x + y + z)) :
    c.ToEmpty P cfg s ↔ c.perfModel.remapped = true ∧
      (c.perfModel.manager.bankStat (cfg.bankOf P s)).valid = false := by
  refine and_congr_right fun _ => ⟨?_, fun hinvalid => ?_⟩
  · rintro ⟨row, hmem, hrow, rfl⟩
    rw [bankOf_rowSet h hmem]
    exact hrow
  · obtain ⟨row, hmem, hset, hbank⟩ := exists_row (P := P) h hs
    refine ⟨row, hmem, ?_, hset⟩
    rw [RowInvalid, hbank]
    exact hinvalid

/-- What `checkRemapping` has made of the controller `c`. -/
structure Checked (P : Platform) (cfg : CntlrConfig T)
    (c c' : StackDramCacheCntlrUnison T δ A) : Prop where
  remapped : c'.perfModel.remapped = false
  sameRouting : c.perfModel.manager.SameRouting c'.perfModel.manager
  consistent : c.perfModel.manager.Consistent cfg.remap →
    c'.perfModel.manager.Consistent cfg.remap
  valid : ∀ b < cfg.remap.totBanks, c.perfModel.remapped = true ∨
    (c.perfModel.manager.bankStat b).valid = true →
      (c'.perfModel.manager.bankStat b).valid = true
  emptied : ∀ s, c.ToEmpty P cfg s → (c'.sets s).Empty
  kept : ∀ s, ¬ c.ToEmpty P cfg s → c'.sets s = c.sets s

omit [LinearOrder T] in
/-- Taking the snapshot of the counters changes nothing else. -/
theorem snapshotRoi_eq (c : StackDramCacheCntlrUnison T δ A) :
    ∃ noRoi, c.snapshotRoi = { c with noRoi } := by
  unfold snapshotRoi
  split_ifs
  · exact ⟨_, rfl⟩
  · exact ⟨c.noRoi, rfl⟩

/-- Without news about temperatures, `checkRemapping` changes nothing but the snapshot. -/
theorem checkRemapping_of_not_remapped (P : Platform) (M : DramModel δ) (cfg : CntlrConfig T)
    (q : Request) (h : c.perfModel.remapped = false) :
    ∃ noRoi, c.checkRemapping P M cfg q = ({ c with noRoi }, 0) := by
  obtain ⟨noRoi, hroi⟩ := snapshotRoi_eq c
  refine ⟨noRoi, ?_⟩
  unfold checkRemapping
  simp [hroi, h]

/-- With news, it is the loops over all rows, after which all banks count as valid. -/
theorem checkRemapping_of_remapped (P : Platform) (M : DramModel δ) (cfg : CntlrConfig T)
    (q : Request) (h : c.perfModel.remapped = true) :
    ∃ noRoi,
      let st := ({ c with noRoi } : StackDramCacheCntlrUnison T δ A).sweep P M cfg q
        (rowsInOrder P cfg)
      (c.checkRemapping P M cfg q).1 =
        { st.cntlr with
          perfModel := { st.cntlr.perfModel.clearRemappingStat cfg with remapped := false }
          wbBlocks := st.cntlr.wbBlocks + st.writebackBlocks } := by
  obtain ⟨noRoi, hroi⟩ := snapshotRoi_eq c
  refine ⟨noRoi, ?_⟩
  unfold checkRemapping
  simp [hroi, h]

/-- `checkRemapping` empties exactly the sets of the rows of banks marked invalid. -/
theorem checked_checkRemapping (P : Platform) (M : DramModel δ) (cfg : CntlrConfig T) (q : Request)
    (c : StackDramCacheCntlrUnison T δ A) : Checked P cfg c (c.checkRemapping P M cfg q).1 := by
  by_cases hre : c.perfModel.remapped = true
  · obtain ⟨noRoi, heq⟩ := checkRemapping_of_remapped P M cfg q hre
    have hswept := swept_sweep P M cfg q { c with noRoi } (rowsInOrder P cfg)
    -- the sweep empties sets and leaves the manager alone; the reset leaves the routing alone
    have hund := hswept.undisturbed
    have hreset := RemappingManager.sameRouting_resetStats_false cfg.remap
      (StackDramCacheCntlrUnison.sweep P M cfg q { c with noRoi }
        (rowsInOrder P cfg)).cntlr.perfModel.manager
    dsimp only at heq
    rw [heq]
    refine ⟨rfl, ⟨fun b => ?_, fun b => ?_, fun b => ?_⟩, fun hcons => ?_, fun b hb _ => ?_,
      fun s hempty => ?_, fun s hkeep => ?_⟩
    · exact (hreset.logicalId b).trans (hund.logicalId b)
    · exact (hreset.disabled b).trans (hund.disabled b)
    · exact (hreset.temperature b).trans (hund.temperature b)
    · exact RemappingManager.consistent_resetStats (hund.consistent hcons) false
    · show ((RemappingManager.resetStats cfg.remap _ false).bankStat b).valid = true
      rw [RemappingManager.resetStats_false_bankStat, if_pos hb]
      rfl
    · obtain ⟨-, row, hmem, hinvalid, rfl⟩ := hempty
      exact hswept.emptied row hmem hinvalid
    · exact hswept.kept s fun row hmem hinvalid hset => hkeep ⟨hre, row, hmem, hinvalid, hset⟩
  · rw [Bool.not_eq_true] at hre
    obtain ⟨noRoi, heq⟩ := checkRemapping_of_not_remapped P M cfg q hre
    -- nothing has been remapped, so nothing is done
    rw [heq]
    refine ⟨hre, ⟨fun _ => rfl, fun _ => rfl, fun _ => rfl⟩, id, fun b _ hvalid => ?_,
      fun s hempty => ?_, fun _ _ => rfl⟩
    · rw [hre] at hvalid
      exact hvalid.resolve_left Bool.false_ne_true
    · rw [ToEmpty, hre] at hempty
      exact absurd hempty.1 Bool.false_ne_true

/-- `checkRemapping` leaves the page table alone. -/
theorem checkRemapping_pageTable (P : Platform) (M : DramModel δ) (cfg : CntlrConfig T)
    (q : Request) (c : StackDramCacheCntlrUnison T δ A) :
    (c.checkRemapping P M cfg q).1.pageTable = c.pageTable := by
  cases hre : c.perfModel.remapped with
  | true =>
    obtain ⟨noRoi, heq⟩ := checkRemapping_of_remapped P M cfg q hre
    rw [heq]
    exact (swept_sweep P M cfg q { c with noRoi } (rowsInOrder P cfg)).pageTable
  | false =>
    obtain ⟨noRoi, heq⟩ := checkRemapping_of_not_remapped P M cfg q hre
    rw [heq]

/-! ## Requests -/

omit [LinearOrder T] in
/-- The statistics change neither the sets nor the routing. -/
theorem countAccess_frame (P : Platform) (cfg : CntlrConfig T) (q : Request) (s : ℕ)
    (result : AccessResult) (c : StackDramCacheCntlrUnison T δ A) :
    c.perfModel.Undisturbed (c.countAccess P cfg q s result).perfModel ∧
      (c.countAccess P cfg q s result).sets = c.sets ∧
      (c.countAccess P cfg q s result).pageTable = c.pageTable ∧
      (c.countAccess P cfg q s result).wbBlocks = c.wbBlocks := by
  unfold countAccess
  by_cases hwrite : q.accessType = .write
  · rw [if_pos hwrite]
    exact ⟨⟨fun _ => rfl, fun _ => rfl, fun _ => rfl, rfl, rfl⟩, rfl, rfl, rfl⟩
  · rw [if_neg hwrite]
    exact ⟨⟨fun _ => rfl, fun _ => rfl, fun _ => rfl, rfl, rfl⟩, rfl, rfl, rfl⟩

/-- The controller `c'` is `c` after the set `s` has become `S` and `wb` blocks have been counted
as written back. -/
structure Served (c : StackDramCacheCntlrUnison T δ A) (s : ℕ) (S : DramCacheSetUnison A) (wb : ℕ)
    (c' : StackDramCacheCntlrUnison T δ A) : Prop where
  undisturbed : c.perfModel.Undisturbed c'.perfModel
  sets : c'.sets = Function.update c.sets s S
  pageTable : c'.pageTable = c.pageTable
  wbBlocks : c'.wbBlocks = c.wbBlocks + .ofNat 32 wb

/-- An access to the DRAM adds nothing. -/
theorem Served.handleDramAccess {s wb : ℕ} {S : DramCacheSetUnison A}
    {c' : StackDramCacheCntlrUnison T δ A} (h : Served c s S wb c') (P : Platform)
    (M : DramModel δ) (cfg : CntlrConfig T) (q : Request) (pktSize t : ℕ)
    (accessType : AccessType) :
    Served c s S wb (c'.handleDramAccess P M cfg q pktSize t accessType).1 := by
  obtain ⟨pm, hpm, heq⟩ := handleDramAccess_eq P M cfg q c' pktSize t accessType
  rw [heq]
  exact ⟨h.undisturbed.trans hpm, h.sets, h.pageTable, h.wbBlocks⟩

omit [LinearOrder T] in
theorem Served.countAccess {s wb : ℕ} {S : DramCacheSetUnison A}
    {c' : StackDramCacheCntlrUnison T δ A} (h : Served c s S wb c') (t : ℕ)
    (result : AccessResult) : Served c s S wb (c'.countAccess P cfg q t result) := by
  obtain ⟨hpm, hsets, htable, hwb⟩ := countAccess_frame P cfg q t result c'
  exact ⟨h.undisturbed.trans hpm, hsets.trans h.sets, htable.trans h.pageTable,
    hwb.trans h.wbBlocks⟩

theorem Served.finish {s wb : ℕ} {S : DramCacheSetUnison A}
    {c' : StackDramCacheCntlrUnison T δ A} (h : Served c s S wb c') (t : ℕ)
    (result : AccessResult) (loadBlocks dramDelay remapDelay : ℕ) :
    Served c s S wb (c'.finish P M cfg q t result loadBlocks dramDelay remapDelay).1 := by
  unfold StackDramCacheCntlrUnison.finish
  by_cases hload : 0 < loadBlocks
  · rw [if_pos hload]
    exact h.countAccess t result
  · rw [if_neg hload]
    exact (h.handleDramAccess P M cfg q 64 t q.accessType).countAccess t result

variable [NeZero A]

/-- Replacing a page in the set `s`, after a lookup has already changed it to `S`. -/
theorem Served.missPage {s : ℕ} {S : DramCacheSetUnison A} {c' : StackDramCacheCntlrUnison T δ A}
    (h : Served c s S 0 c') (P : Platform) (M : DramModel δ) (cfg : CntlrConfig T) (q : Request)
    (tag blockNum : ℕ) (footprint : BitVec 32) :
    Served c s (S.replacePage tag footprint).1 (BitVec.bitCount (S.ways S.victim).dbits0)
      (c'.missPage P M cfg q s tag blockNum footprint).1 := by
  have hset : c'.sets s = S := by rw [h.sets, Function.update_self]
  have hwb := DramCacheSetUnison.replacePage_writebackBlocks (S := S) tag footprint
  unfold StackDramCacheCntlrUnison.missPage
  simp only [hset]
  refine Served.handleDramAccess ⟨?_, ?_, ?_, ?_⟩ P M cfg q _ _ _
  · exact h.undisturbed.trans (undisturbed_print _ _)
  · show Function.update c'.sets s (S.replacePage tag footprint).1 = _
    rw [h.sets, Function.update_idem]
  · exact h.pageTable
  · -- the dirty blocks are those of the victim that the lookup has left
    show c'.wbBlocks + _ = _
    rw [hwb, h.wbBlocks, BitVec.add_zero]

/-- What is done about the result of a lookup completes the request. -/
theorem Served.resolve {s : ℕ} {S : DramCacheSetUnison A} {r : PageRequest}
    {c' : StackDramCacheCntlrUnison T δ A}
    (h : Served c s (S.accessAttempt P r.type r.tag r.offset).1 0 c') (M : DramModel δ)
    (cfg : CntlrConfig T) (q : Request) :
    Served c s (S.serve P r) (S.writeback r)
      (c'.resolve P M cfg q s r.tag (r.offset / stackedBlockSize) r.footprint
        (S.accessAttempt P r.type r.tag r.offset).2).1 := by
  by_cases hholds : S.Holds r.tag
  · -- a page hit or a block miss: the lookup has done everything
    rw [DramCacheSetUnison.serve_of_holds hholds, DramCacheSetUnison.writeback, if_pos hholds]
    cases hresult : (S.accessAttempt P r.type r.tag r.offset).2 with
    | pageMiss =>
      exact absurd hholds (DramCacheSetUnison.accessAttempt_eq_pageMiss_iff.mp hresult)
    | blockMiss => exact ⟨h.undisturbed, h.sets, h.pageTable, h.wbBlocks⟩
    | hit => exact h
  · have hresult : (S.accessAttempt P r.type r.tag r.offset).2 = .pageMiss :=
      DramCacheSetUnison.accessAttempt_eq_pageMiss_iff.mpr hholds
    have hmiss := h.missPage P M cfg q r.tag (r.offset / stackedBlockSize) r.footprint
    rw [DramCacheSetUnison.writeback, if_neg hholds, DramCacheSetUnison.serve]
    simp only [hresult, if_true]
    rw [DramCacheSetUnison.victim_accessAttempt_of_not_holds hholds,
      DramCacheSetUnison.accessAttempt_ways_of_not_holds hholds] at hmiss
    exact hmiss

/-- The set of a request serves it, and the dirty blocks of the page replaced are counted. -/
theorem served_serve (P : Platform) (M : DramModel δ) (cfg : CntlrConfig T) (q : Request)
    (c : StackDramCacheCntlrUnison T δ A) (s dramDelay remapDelay : ℕ) (r : PageRequest)
    (hr : r.type = q.memOp) :
    Served c s ((c.sets s).serve P r) ((c.sets s).writeback r)
      (c.serve P M cfg q s r.tag r.offset r.footprint dramDelay remapDelay).1 := by
  have hlookup : Served c s ((c.sets s).accessAttempt P r.type r.tag r.offset).1 0
      (c.setSet s ((c.sets s).accessAttempt P r.type r.tag r.offset).1) :=
    ⟨Undisturbed.refl _, rfl, rfl, (BitVec.add_zero _).symm⟩
  have hresolved := (hlookup.handleDramAccess P M cfg q 64 s .read).resolve M cfg q
  unfold StackDramCacheCntlrUnison.serve
  simp only [← hr]
  exact hresolved.finish _ _ _ _ _

/-! ## The whole request -/

/-- The set number that a request's address has before redirection. -/
def homeOf (P : Platform) (cfg : CntlrConfig T) (c : StackDramCacheCntlrUnison T δ A)
    (q : Request) : ℕ := homeSet P cfg (c.pageTag P cfg q.address)

/-- The request goes past the cache: the bank of its home set is disabled, or the whole cache
is. -/
def Bypassed (P : Platform) (cfg : CntlrConfig T) (c : StackDramCacheCntlrUnison T δ A)
    (q : Request) : Prop :=
  (c.perfModel.manager.bankStat (cfg.bankOf P (c.homeOf P cfg q))).disabled = true ∨
    cfg.dramDisabled = true

instance (P : Platform) (cfg : CntlrConfig T) (c : StackDramCacheCntlrUnison T δ A) (q : Request) :
    Decidable (c.Bypassed P cfg q) := by
  unfold Bypassed
  infer_instance

/-- The set to which the page with the given tag belongs: its home set, redirected. -/
def placeOf (P : Platform) (cfg : CntlrConfig T) (c : StackDramCacheCntlrUnison T δ A)
    (tag : ℕ) : ℕ := (cfg.getRemapSet P c.perfModel.manager (homeSet P cfg tag)).1

/-- The set to which a request is redirected. -/
def targetSet (P : Platform) (cfg : CntlrConfig T) (c : StackDramCacheCntlrUnison T δ A)
    (q : Request) : ℕ := c.placeOf P cfg (c.pageTag P cfg q.address)

/-- The controller in a request, after `checkRemapping`. -/
def afterCheck (P : Platform) (M : DramModel δ) (cfg : CntlrConfig T)
    (c : StackDramCacheCntlrUnison T δ A) (q : Request) : StackDramCacheCntlrUnison T δ A :=
  ((c.splitAddress P cfg q.address).1.checkRemapping P M cfg q).1

/-- The time that a request waits for `checkRemapping`. -/
def remapDelay (P : Platform) (M : DramModel δ) (cfg : CntlrConfig T)
    (c : StackDramCacheCntlrUnison T δ A) (q : Request) : ℕ :=
  ((c.splitAddress P cfg q.address).1.checkRemapping P M cfg q).2

omit [NeZero A] in
/-- The page table does not matter to `checkRemapping`. -/
theorem checked_afterCheck (P : Platform) (M : DramModel δ) (cfg : CntlrConfig T) (q : Request)
    (c : StackDramCacheCntlrUnison T δ A) : Checked P cfg c (c.afterCheck P M cfg q) := by
  obtain ⟨pageTable, availPhyPageTag, heq⟩ := splitAddress_eq P cfg c q.address
  rw [afterCheck, heq]
  have hchecked := checked_checkRemapping P M cfg q { c with pageTable, availPhyPageTag }
  exact ⟨hchecked.remapped, hchecked.sameRouting, hchecked.consistent, hchecked.valid,
    hchecked.emptied, hchecked.kept⟩

omit [LinearOrder T] [NeZero A] in
/-- Where a set is redirected depends on the logical ids only. -/
theorem getRemapSet_congr {m m' : RemappingManager T} (h : m.SameRouting m') (s : ℕ) :
    cfg.getRemapSet P m' s = cfg.getRemapSet P m s := by
  unfold StackConfig.getRemapSet RemappingManager.getLogicalIndex
  simp only [h.logicalId]

omit [LinearOrder T] [NeZero A] in
/-- The same change, seen from a controller that differs in counters only. -/
theorem Served.of_undisturbed {c₀ c' : StackDramCacheCntlrUnison T δ A} {s wb : ℕ}
    {S : DramCacheSetUnison A} (h : Served c₀ s S wb c')
    (hund : c.perfModel.Undisturbed c₀.perfModel) (hsets : c₀.sets = c.sets)
    (htable : c₀.pageTable = c.pageTable) (hwb : c₀.wbBlocks = c.wbBlocks) :
    Served c s S wb c' :=
  ⟨hund.trans h.undisturbed, hsets ▸ h.sets, htable ▸ h.pageTable, hwb ▸ h.wbBlocks⟩

/-- `lookup` for a set that is disabled. -/
theorem lookup_of_disabled {setN : ℕ}
    (h : (c.perfModel.checkSetDisabled P cfg setN).1 = true ∨ cfg.dramDisabled = true)
    (tag offset : ℕ) (footprint : BitVec 32) (remapDelay : ℕ) :
    let c' := (lookup P M cfg q setN tag offset footprint remapDelay c).1
    c.perfModel.Undisturbed c'.perfModel ∧ c'.sets = c.sets ∧ c'.pageTable = c.pageTable ∧
      c'.wbBlocks = c.wbBlocks := by
  unfold lookup
  simp only [if_pos h]
  exact ⟨undisturbed_print _ _, rfl, rfl, rfl⟩

/-- `lookup` for a set that is not disabled. -/
theorem served_lookup {setN : ℕ}
    (h : ¬ ((c.perfModel.checkSetDisabled P cfg setN).1 = true ∨ cfg.dramDisabled = true))
    (remapDelay : ℕ) (r : PageRequest) (hr : r.type = q.memOp) :
    let s := (cfg.getRemapSet P c.perfModel.manager setN).1
    Served c s ((c.sets s).serve P r) ((c.sets s).writeback r)
      (lookup P M cfg q setN r.tag r.offset r.footprint remapDelay c).1 := by
  have hprint : ∀ (c' : StackDramCacheCntlrUnison T δ A) (msgs : List Message),
      (c'.print msgs).perfModel.manager = c'.perfModel.manager := fun _ _ => rfl
  unfold lookup
  simp only [if_neg h, hprint]
  -- the controller in which the set is served differs from `c` in counters and messages
  generalize hc₂ : StackDramCacheCntlrUnison.print (StackDramCacheCntlrUnison.print _ _) _ = c₂
  have hund : c.perfModel.Undisturbed c₂.perfModel := by
    rw [← hc₂]
    exact (undisturbed_print _ _).trans (undisturbed_print _ _)
  have hsets : c₂.sets = c.sets := by rw [← hc₂]; rfl
  have htable : c₂.pageTable = c.pageTable := by rw [← hc₂]; rfl
  have hwb : c₂.wbBlocks = c.wbBlocks := by rw [← hc₂]; rfl
  rw [← hsets]
  exact (served_serve P M cfg q c₂ _ _ remapDelay r hr).of_undisturbed hund hsets htable hwb

omit [NeZero A] in
/-- `checkRemapping` does not change which requests go past the cache. -/
theorem bypassed_afterCheck_iff (P : Platform) (M : DramModel δ) (cfg : CntlrConfig T)
    (q : Request) (c : StackDramCacheCntlrUnison T δ A) :
    (((c.afterCheck P M cfg q).perfModel.checkSetDisabled P cfg (c.homeOf P cfg q)).1 = true ∨
        cfg.dramDisabled = true) ↔ c.Bypassed P cfg q := by
  dsimp only [Bypassed, checkSetDisabled, RemappingManager.checkDisabled]
  rw [(checked_afterCheck P M cfg q c).sameRouting.disabled]
  rfl

/-- A request is looked up after `checkRemapping`. -/
theorem processRequest_eq (P : Platform) (M : DramModel δ) (cfg : CntlrConfig T)
    (c : StackDramCacheCntlrUnison T δ A) (q : Request) :
    c.processRequest P M cfg q =
      (c.afterCheck P M cfg q).lookup P M cfg q (c.homeOf P cfg q) (c.pageRequest P cfg q).tag
        (c.pageRequest P cfg q).offset (c.pageRequest P cfg q).footprint
        (c.remapDelay P M cfg q) := by
  obtain ⟨pageTable, availPhyPageTag, heq⟩ := splitAddress_eq P cfg c q.address
  unfold processRequest afterCheck homeOf remapDelay
  rw [heq]
  rfl

/-- A request that goes past the cache changes no set after `checkRemapping`. -/
theorem processRequest_of_bypassed (M : DramModel δ) (hq : c.Bypassed P cfg q) :
    let c' := (c.processRequest P M cfg q).1
    (c.afterCheck P M cfg q).perfModel.Undisturbed c'.perfModel ∧
      c'.sets = (c.afterCheck P M cfg q).sets ∧
      c'.pageTable = (c.afterCheck P M cfg q).pageTable ∧
      c'.wbBlocks = (c.afterCheck P M cfg q).wbBlocks := by
  rw [← bypassed_afterCheck_iff P M cfg q c] at hq
  rw [processRequest_eq]
  exact lookup_of_disabled hq _ _ _ _

/-- Any other request is served by the set to which it is redirected. -/
theorem served_processRequest (M : DramModel δ) (hq : ¬ c.Bypassed P cfg q) :
    let S := (c.afterCheck P M cfg q).sets (c.targetSet P cfg q)
    Served (c.afterCheck P M cfg q) (c.targetSet P cfg q) (S.serve P (c.pageRequest P cfg q))
      (S.writeback (c.pageRequest P cfg q)) (c.processRequest P M cfg q).1 := by
  rw [← bypassed_afterCheck_iff P M cfg q c] at hq
  rw [processRequest_eq, targetSet, placeOf,
    ← getRemapSet_congr (checked_afterCheck P M cfg q c).sameRouting]
  exact served_lookup hq _ _ rfl

end StackDramCacheCntlrUnison

end StackedDram
