import StackedDram.Library.Ledger
import StackedDram.Runs

/-!
# Blocks written back

Dirty bits are set by writes that find their page, and cleared in two places: when a page is
replaced, and when `checkRemapping` empties a set. Both count the dirty blocks, with loops of their
own, before they clear them.

`tablesOf` lists the contents of all sets at the moments of an action, so that every change of a
dirty bit is one from an entry to the next. `writeback_conservation`: over a whole run, the dirty
bits that were set are those that were cleared and those that are still set, and the counter of the
blocks written back is the word of those that were cleared.
-/

namespace StackedDram

namespace DramCacheSetUnison

variable {A : ℕ} {P : Platform} {S : DramCacheSetUnison A} {r : PageRequest}

/-- The dirty bits of the ways of a set. -/
def dirtyLedger : Ledger (DramCacheSetUnison A) :=
  (BitVec.ledger 32).sum Finset.univ fun S i => (S.ways i).dbits0

theorem dirtyLedger_loss (S S' : DramCacheSetUnison A) :
    dirtyLedger.loss S S' = ∑ i, BitVec.raised (S'.ways i).dbits0 (S.ways i).dbits0 := rfl

/-- Emptying a set clears all its dirty bits. -/
theorem loss_invalidateContent : dirtyLedger.loss S S.invalidateContent.1 = S.dirtyBits := by
  rw [dirtyLedger_loss]
  exact Finset.sum_congr rfl fun i _ => BitVec.raised_zero_left _

/-- A lookup clears no dirty bit. -/
theorem loss_accessAttempt :
    dirtyLedger.loss S (S.accessAttempt P r.type r.tag r.offset).1 = 0 := by
  rw [dirtyLedger_loss]
  refine Finset.sum_eq_zero fun j _ => ?_
  rcases accessAttempt_way P r.type r.tag r.offset j with h | ⟨-, h⟩
  · rw [h]
    exact BitVec.raised_self _
  · rw [h]
    exact DramCachePageInfo.raised_accessBlock

/-- After its lookup, a request clears the dirty bits that it counts as written back. -/
theorem loss_serve [NeZero A] :
    dirtyLedger.loss (S.accessAttempt P r.type r.tag r.offset).1 (S.serve P r) = S.writeback r := by
  by_cases h : S.Holds r.tag
  · rw [serve_of_holds h, writeback, if_pos h]
    exact dirtyLedger.loss_self _
  · -- the victim loses all its dirty bits, and the other ways none
    rw [writeback, if_neg h, dirtyLedger,
      (BitVec.ledger 32).sum_loss_of_eq (Finset.mem_univ S.victim)]
    · rw [serve_ways_of_not_holds h, accessAttempt_ways_of_not_holds h, Function.update_self]
      exact BitVec.raised_zero_left _
    · intro j hj
      rw [serve_ways_of_not_holds h, accessAttempt_ways_of_not_holds h, Function.update_of_ne hj]

end DramCacheSetUnison

namespace StackDramCacheCntlrUnison

open DramCacheSetUnison

variable {T δ : Type} {A : ℕ} {P : Platform} {M : DramModel δ} {cfg : CntlrConfig T} {d : δ}
  {q : Request} {c : StackDramCacheCntlrUnison T δ A} {x y z : ℕ}

/-- The dirty bits of all sets. -/
def dirtyLedger (cfg : CntlrConfig T) : Ledger (ℕ → DramCacheSetUnison A) :=
  DramCacheSetUnison.dirtyLedger.sum (Finset.range cfg.setNum) fun sets s => sets s

theorem dirtyLedger_balance (cfg : CntlrConfig T) (sets : ℕ → DramCacheSetUnison A) :
    (dirtyLedger cfg).balance sets = ∑ s ∈ Finset.range cfg.setNum, (sets s).dirtyBits := rfl

/-- Writing to one set clears the dirty bits that it loses. -/
theorem loss_update (cfg : CntlrConfig T) (sets : ℕ → DramCacheSetUnison A) {s : ℕ}
    (hs : s < cfg.setNum) (S : DramCacheSetUnison A) :
    (dirtyLedger cfg).loss sets (Function.update sets s S) =
      DramCacheSetUnison.dirtyLedger.loss (sets s) S := by
  rw [dirtyLedger, Ledger.sum_loss_of_eq _ (Finset.mem_range.mpr hs), Function.update_self]
  exact fun t ht => Function.update_of_ne ht _ _

variable [LinearOrder T]

/-! ## The moments of an action -/

/-- The contents of the sets after each row that the loops of `checkRemapping` visit. -/
def sweepTables (P : Platform) (M : DramModel δ) (cfg : CntlrConfig T) (q : Request) :
    Sweep T δ A → List (ℕ × ℕ × ℕ) → List (ℕ → DramCacheSetUnison A)
  | _, [] => []
  | st, row :: rows =>
    (sweepRow P M cfg q st row).cntlr.sets ::
      sweepTables P M cfg q (sweepRow P M cfg q st row) rows

/-- The contents of the sets during `checkRemapping`. -/
def checkTables (P : Platform) (M : DramModel δ) (cfg : CntlrConfig T) (q : Request)
    (c : StackDramCacheCntlrUnison T δ A) : List (ℕ → DramCacheSetUnison A) :=
  if c.perfModel.remapped = false then []
  else sweepTables P M cfg q ⟨c.snapshotRoi, fun _ => 0, 0#32⟩ (rowsInOrder P cfg)

/-- The contents of the sets after the lookup of a request, if there is one. -/
def lookupTables (P : Platform) (M : DramModel δ) (cfg : CntlrConfig T)
    (c : StackDramCacheCntlrUnison T δ A) (q : Request) : List (ℕ → DramCacheSetUnison A) :=
  if c.Bypassed P cfg q then []
  else
    let sets := (c.afterCheck P M cfg q).sets
    let s := c.targetSet P cfg q
    let r := c.pageRequest P cfg q
    [Function.update sets s ((sets s).accessAttempt P r.type r.tag r.offset).1]

variable [NeZero A]

/-- The contents of the sets at the moments of an action, up to its end. -/
def tablesOf (P : Platform) (M : DramModel δ) (cfg : CntlrConfig T)
    (c : StackDramCacheCntlrUnison T δ A) (a : Action cfg) : List (ℕ → DramCacheSetUnison A) :=
  match a with
  | .processRequest q =>
    checkTables P M cfg q (c.splitAddress P cfg q.address).1 ++ c.lookupTables P M cfg q ++
      [(c.processRequest P M cfg q).1.sets]
  | a => [(c.step P M cfg a).sets]

/-- The contents of the sets at all moments of a run. -/
def tablesOfRun (P : Platform) (M : DramModel δ) (cfg : CntlrConfig T) :
    StackDramCacheCntlrUnison T δ A → List (Action cfg) → List (ℕ → DramCacheSetUnison A)
  | _, [] => []
  | c, a :: as => c.tablesOf P M cfg a ++ tablesOfRun P M cfg (c.step P M cfg a) as

/-- The number of times that a dirty bit is set in a run. -/
def timesDirtied (P : Platform) (M : DramModel δ) (cfg : CntlrConfig T)
    (c : StackDramCacheCntlrUnison T δ A) (as : List (Action cfg)) : ℕ :=
  Ledger.along (dirtyLedger cfg).gain c.sets (tablesOfRun P M cfg c as)

/-- The number of times that a dirty bit is cleared in a run. -/
def timesCleaned (P : Platform) (M : DramModel δ) (cfg : CntlrConfig T)
    (c : StackDramCacheCntlrUnison T δ A) (as : List (Action cfg)) : ℕ :=
  Ledger.along (dirtyLedger cfg).loss c.sets (tablesOfRun P M cfg c as)

/-! ## `checkRemapping` -/

omit [LinearOrder T] [NeZero A] in
/-- The set of a row that the loops visit exists. -/
theorem rowSet_lt_setNum (h : cfg.Sized x y z) {row : ℕ × ℕ × ℕ}
    (hrow : row ∈ rowsInOrder P cfg) : rowSet P cfg row < cfg.setNum := by
  by_cases hmap : cfg.UnknownMap
  · rw [rowSet, StackConfig.getSetNum_of_unknown hmap]
    exact h.setNum_pos
  · have hlayout : cfg.WellFormed x y z := ⟨h, not_not.mp hmap⟩
    obtain ⟨hv, hb, hr⟩ := (mem_rowsInOrder_iff hlayout).mp hrow
    exact (hlayout.layout.getSetNum_lt hv hb hr).trans_le h.two_pow_le_setNum

omit [LinearOrder T] [NeZero A] in
/-- The set of a request exists. -/
theorem targetSet_lt_setNum (h : cfg.Sized x y z)
    (hc : c.perfModel.manager.Consistent cfg.remap) : c.targetSet P cfg q < cfg.setNum := by
  by_cases hmap : cfg.UnknownMap
  · rw [targetSet, placeOf, StackConfig.getRemapSet_of_unknown hmap]
    exact h.setNum_pos
  · have hlayout : cfg.WellFormed x y z := ⟨h, not_not.mp hmap⟩
    exact (hlayout.layout.getRemapSet_lt hc (homeSet_lt h _)).trans_le h.two_pow_le_setNum

omit [NeZero A] in
/-- The iteration for a row counts the dirty bits that it clears. -/
theorem loss_sweepRow (M : DramModel δ) (q : Request) (st : Sweep T δ A) {row : ℕ × ℕ × ℕ}
    (hrow : rowSet P cfg row < cfg.setNum) :
    let st' := sweepRow P M cfg q st row
    st.writebackBlocks + .ofNat 32 ((dirtyLedger cfg).loss st.cntlr.sets st'.cntlr.sets) =
      st'.writebackBlocks := by
  intro st'
  by_cases hinvalid : RowInvalid cfg st.cntlr row
  · obtain ⟨-, hsets, -, -, hcount⟩ := sweepRow_of_invalid (P := P) (M := M) (q := q) hinvalid
    rw [hcount, hsets, loss_update cfg _ hrow, loss_invalidateContent]
  · have hskip : st' = st := sweepRow_of_valid hinvalid
    rw [hskip, Ledger.loss_self, BitVec.add_zero]

omit [NeZero A] in
/-- The loops end with the last of the tables, and count the dirty bits that they clear. -/
theorem sweepTables_spec (rows : List (ℕ × ℕ × ℕ)) (st : Sweep T δ A)
    (hrows : ∀ row ∈ rows, rowSet P cfg row < cfg.setNum) :
    let st' := rows.foldl (sweepRow P M cfg q) st
    let tables := sweepTables P M cfg q st rows
    tables.getLastD st.cntlr.sets = st'.cntlr.sets ∧
      st.writebackBlocks + .ofNat 32 (Ledger.along (dirtyLedger cfg).loss st.cntlr.sets tables) =
        st'.writebackBlocks := by
  -- induction on the rows still to be visited
  induction rows generalizing st with
  | nil => exact ⟨rfl, BitVec.add_zero _⟩
  | cons row rows ih =>
    obtain ⟨hlast, hcount⟩ := ih (sweepRow P M cfg q st row) fun row' hrow' =>
      hrows row' (List.mem_cons_of_mem row hrow')
    have hstep := loss_sweepRow M q st (hrows row List.mem_cons_self)
    refine ⟨by rw [sweepTables, List.getLastD_cons]; exact hlast, ?_⟩
    rw [sweepTables, Ledger.along, BitVec.ofNat_add, ← BitVec.add_assoc, hstep]
    exact hcount

omit [NeZero A] in
/-- `checkRemapping` ends with the last of its tables, and counts the dirty bits that it clears. -/
theorem checkTables_spec (h : cfg.Sized x y z) (M : DramModel δ) (q : Request)
    (c : StackDramCacheCntlrUnison T δ A) :
    let c' := (c.checkRemapping P M cfg q).1
    let tables := checkTables P M cfg q c
    tables.getLastD c.sets = c'.sets ∧
      c.wbBlocks + .ofNat 32 (Ledger.along (dirtyLedger cfg).loss c.sets tables) =
        c'.wbBlocks := by
  obtain ⟨noRoi, hroi⟩ := snapshotRoi_eq c
  unfold checkRemapping checkTables
  cases hre : c.perfModel.remapped with
  | false => simp [hroi, hre, Ledger.along]
  | true =>
    obtain ⟨hlast, hcount⟩ := sweepTables_spec (M := M) (q := q) (rowsInOrder P cfg)
      (⟨{ c with noRoi }, fun _ => 0, 0#32⟩ : Sweep T δ A) fun row hrow => rowSet_lt_setNum h hrow
    -- the loops count in a variable of their own, which is added to `wb_blocks` afterwards
    have hwb := (swept_sweep P M cfg q { c with noRoi } (rowsInOrder P cfg)).wbBlocks
    rw [BitVec.zero_add] at hcount
    simp only [hroi, hre, Bool.true_eq_false, if_false]
    exact ⟨hlast, by rw [hwb]; exact congrArg (c.wbBlocks + ·) hcount⟩

/-! ## Runs -/

/-- The rest of a request counts the dirty bits that it clears. -/
theorem lookupTables_spec (h : cfg.Sized x y z) (hreach : (machine P M cfg d).Reachable c)
    (q : Request) :
    let c₁ := c.afterCheck P M cfg q
    let c' := (c.processRequest P M cfg q).1
    c₁.wbBlocks + .ofNat 32 (Ledger.along (dirtyLedger cfg).loss c₁.sets
      (c.lookupTables P M cfg q ++ [c'.sets])) = c'.wbBlocks := by
  dsimp only
  unfold lookupTables
  by_cases hq : c.Bypassed P cfg q
  · obtain ⟨-, hsets, -, hwb⟩ := processRequest_of_bypassed M hq
    rw [if_pos hq, List.nil_append, Ledger.along, Ledger.along, hsets, Ledger.loss_self, hwb,
      BitVec.add_zero]
  · have hserved := served_processRequest M hq
    have hs := targetSet_lt_setNum (P := P) (q := q) h (consistent_of_reachable hreach)
    have hlookup := loss_accessAttempt (P := P)
      (S := (c.afterCheck P M cfg q).sets (c.targetSet P cfg q)) (r := c.pageRequest P cfg q)
    -- the set is written twice, by the lookup and by the replacement
    have hsets := hserved.sets
    rw [← Function.update_idem] at hsets
    rw [if_neg hq, List.singleton_append, Ledger.along, Ledger.along, Ledger.along, hsets,
      loss_update cfg _ hs, hlookup, loss_update cfg _ hs, Function.update_self, loss_serve,
      hserved.wbBlocks, Nat.zero_add, Nat.add_zero]

/-- An action ends with the last of its tables, and counts the dirty bits that it clears. -/
theorem tablesOf_spec (h : cfg.Sized x y z) (hreach : (machine P M cfg d).Reachable c)
    (a : Action cfg) :
    let c' := c.step P M cfg a
    (c.tablesOf P M cfg a).getLastD c.sets = c'.sets ∧
      c.wbBlocks + .ofNat 32 (Ledger.along (dirtyLedger cfg).loss c.sets (c.tablesOf P M cfg a)) =
        c'.wbBlocks := by
  cases a with
  | storeTemperature | updateTemperature | tryRemapping =>
    refine ⟨rfl, ?_⟩
    show c.wbBlocks + .ofNat 32 ((dirtyLedger cfg).loss c.sets c.sets + 0) = c.wbBlocks
    rw [Ledger.loss_self, BitVec.add_zero]
  | processRequest q =>
    obtain ⟨pageTable, availPhyPageTag, heq⟩ := splitAddress_eq P cfg c q.address
    obtain ⟨hlast, hcount⟩ := checkTables_spec (P := P) h M q (c.splitAddress P cfg q.address).1
    have hsets : (c.splitAddress P cfg q.address).1.sets = c.sets := by rw [heq]
    have hwb : (c.splitAddress P cfg q.address).1.wbBlocks = c.wbBlocks := by rw [heq]
    rw [hsets] at hlast hcount
    rw [hwb] at hcount
    -- first what `checkRemapping` clears, then what the rest of the request does
    refine ⟨by simp [tablesOf, step], ?_⟩
    rw [tablesOf, List.append_assoc, Ledger.along_append, hlast, BitVec.ofNat_add,
      ← BitVec.add_assoc, hcount]
    exact lookupTables_spec h hreach q

/-- A run ends with the last of its tables, and counts the dirty bits that it clears. -/
theorem tablesOfRun_spec (h : cfg.Sized x y z) (hreach : (machine P M cfg d).Reachable c)
    (as : List (Action cfg)) :
    let c' := (machine P M cfg d).runFrom c as
    (tablesOfRun P M cfg c as).getLastD c.sets = c'.sets ∧
      c.wbBlocks + .ofNat 32 (timesCleaned P M cfg c as) = c'.wbBlocks := by
  rw [timesCleaned]
  induction as generalizing c with
  | nil => exact ⟨rfl, BitVec.add_zero _⟩
  | cons a as ih =>
    obtain ⟨hlast, hcount⟩ := ih (hreach.step a)
    obtain ⟨hlast₁, hcount₁⟩ := tablesOf_spec h hreach a
    rw [tablesOfRun, Ledger.along_append, hlast₁, BitVec.ofNat_add, ← BitVec.add_assoc, hcount₁]
    refine ⟨?_, hcount⟩
    rw [Ledger.getLastD_append, hlast₁]
    exact hlast

/-- In every run, each dirty bit that is set is counted as written back once, when it is cleared, or
is still set. The counter is the number of those that were cleared, modulo `2 ^ 32`, and as long as
it has not wrapped around, it makes up the number of dirty bits set with those that are still
set. -/
theorem writeback_conservation (h : cfg.Sized x y z) (as : List (Action cfg)) :
    let c₀ : StackDramCacheCntlrUnison T δ A := new P cfg d
    let c : StackDramCacheCntlrUnison T δ A := (machine P M cfg d).run as
    let dirty := ∑ s ∈ Finset.range cfg.setNum, (c.sets s).dirtyBits
    c.wbBlocks = .ofNat 32 (timesCleaned P M cfg c₀ as) ∧
      timesDirtied P M cfg c₀ as = timesCleaned P M cfg c₀ as + dirty ∧
      (timesDirtied P M cfg c₀ as < 2 ^ 32 →
        timesDirtied P M cfg c₀ as = c.wbBlocks.toNat + dirty) := by
  intro c₀ c dirty
  -- the account of the history: what is dirty at its end and what was lost on the way
  obtain ⟨hlast, hcount⟩ := tablesOfRun_spec (c := c₀) (M := M) (d := d) h .init as
  have haccount := (dirtyLedger cfg).balance_add_along c₀.sets (tablesOfRun P M cfg c₀ as)
  have hclean : (dirtyLedger cfg).balance c₀.sets = 0 := by
    rw [dirtyLedger_balance]
    exact Finset.sum_eq_zero fun s _ => (empty_new _ _ _).dirtyBits_eq_zero
  have hzero : c₀.wbBlocks = 0#32 := rfl
  rw [hclean, hlast, Nat.zero_add, ← timesDirtied, ← timesCleaned, Nat.add_comm,
    dirtyLedger_balance] at haccount
  rw [hzero, BitVec.zero_add] at hcount
  have hwb : c.wbBlocks = .ofNat 32 (timesCleaned P M cfg c₀ as) := hcount.symm
  refine ⟨hwb, haccount, fun hlt => ?_⟩
  have hle : timesCleaned P M cfg c₀ as < 2 ^ 32 :=
    (Nat.le_add_right _ _).trans_lt (haccount ▸ hlt)
  rw [hwb, BitVec.toNat_ofNat, Nat.mod_eq_of_lt hle]
  exact haccount

/-- The second write to a block sets its dirty bit, and redirecting its bank clears it. -/
theorem writeback_conservation_small :
    let q := Request.block .write 0
    let as : List (Action .small) := [.processRequest q, .processRequest q,
      .updateTemperature (0 : Fin 2) (0 : Fin 2) 90 true, .tryRemapping, .processRequest q]
    let c₀ : StackDramCacheCntlrUnison ℕ Unit 4 := new .x86 .small ()
    let c : StackDramCacheCntlrUnison ℕ Unit 4 := (machine .x86 .tenCycles .small ()).run as
    c.wbBlocks = 1#32 ∧ c.wbBlocks = .ofNat 32 (timesCleaned .x86 .tenCycles .small c₀ as) ∧
      timesDirtied .x86 .tenCycles .small c₀ as = timesCleaned .x86 .tenCycles .small c₀ as +
        ∑ s ∈ Finset.range CntlrConfig.small.setNum, (c.sets s).dirtyBits := by
  intro q as c₀ c
  have h := writeback_conservation (P := .x86) (M := .tenCycles) (d := ()) (A := 4)
    CntlrConfig.small_wellFormed.toSized as
  exact ⟨by decide +kernel, h.1, h.2.1⟩

end StackDramCacheCntlrUnison

end StackedDram
