import StackedDram.Counters

/-!
# Loaded blocks

When a page is missed, the blocks that become valid in its place are those of the footprint history
table, which is read at the beginning of the request. The blocks that are counted as loaded are
those of the page that is replaced. So a page miss counts what it installs if and only if the
footprint of the page that is replaced has as many blocks as the entry of the table has, whatever
has been counted before, and a run in which all of them do counts what it installs
(`loadedBlocks_iff`).
-/

namespace StackedDram.StackDramCacheCntlrUnison

variable {T δ : Type} {A : ℕ} {P : Platform} {M : DramModel δ} {cfg : CntlrConfig T} {d : δ}
  {q : Request} {c : StackDramCacheCntlrUnison T δ A} [LinearOrder T] [NeZero A]

/-! ## Page misses -/

/-- The request is not bypassed and misses its page. -/
def MissesPage (P : Platform) (M : DramModel δ) (cfg : CntlrConfig T)
    (c : StackDramCacheCntlrUnison T δ A) (q : Request) : Prop :=
  c.outcome P M cfg q = some .pageMiss

instance (P : Platform) (M : DramModel δ) (cfg : CntlrConfig T)
    (c : StackDramCacheCntlrUnison T δ A) (q : Request) : Decidable (c.MissesPage P M cfg q) := by
  unfold MissesPage
  infer_instance

/-- The page that a request has installed in place of the victim. -/
def installedPage (P : Platform) (M : DramModel δ) (cfg : CntlrConfig T)
    (c : StackDramCacheCntlrUnison T δ A) (q : Request) : DramCachePageInfo :=
  ((c.processRequest P M cfg q).1.sets (c.targetSet P cfg q)).ways (c.servingSet P M cfg q).victim

/-- The blocks that are valid in it. -/
def installedBlocks (P : Platform) (M : DramModel δ) (cfg : CntlrConfig T)
    (c : StackDramCacheCntlrUnison T δ A) (q : Request) : ℕ :=
  BitVec.bitCount (c.installedPage P M cfg q).vbits0

/-- The page installed is the page requested, with the blocks of the history table. -/
theorem installedPage_eq (hmiss : c.MissesPage P M cfg q) :
    c.installedPage P M cfg q =
      DramCacheSetUnison.loaded (c.pageTag P cfg q.address)
        (c.fht (c.pageOffset P cfg q.address / stackedBlockSize)) := by
  have hq : ¬ c.Bypassed P cfg q := by
    intro hq
    rw [MissesPage, outcome, if_pos hq] at hmiss
    exact absurd hmiss.symm (Option.some_ne_none _)
  rw [MissesPage, outcome, if_neg hq, Option.some_inj,
    DramCacheSetUnison.accessResult_eq_pageMiss_iff] at hmiss
  rw [installedPage, processRequest_targetSet M hq, ← servingSet,
    DramCacheSetUnison.serve_ways_of_not_holds hmiss, Function.update_self]
  rfl

/-- The footprint of the page that is replaced, before the request: a set that is about to be
emptied has no page to replace. -/
theorem replacedFootprint_eq (P : Platform) (M : DramModel δ) (cfg : CntlrConfig T)
    (c : StackDramCacheCntlrUnison T δ A) (q : Request) :
    let S := c.sets (c.targetSet P cfg q)
    c.replacedFootprint P M cfg q =
      if c.ToEmpty P cfg (c.targetSet P cfg q) then 0 else (S.ways S.victim).footprint := by
  intro S
  have hchecked := checked_afterCheck P M cfg q c
  rw [replacedFootprint, servingSet]
  by_cases hempty : c.ToEmpty P cfg (c.targetSet P cfg q)
  · rw [if_pos hempty, hchecked.emptied _ hempty]
    rfl
  · rw [if_neg hempty, hchecked.kept _ hempty]

/-- What a request adds to the counters. -/
theorem ldBlocks_processRequest (P : Platform) (M : DramModel δ) (cfg : CntlrConfig T)
    (c : StackDramCacheCntlrUnison T δ A) (q : Request) :
    let loaded :=
      if c.MissesPage P M cfg q then BitVec.bitCount (c.replacedFootprint P M cfg q) else 0
    (c.processRequest P M cfg q).1.ldBlocks = c.ldBlocks + .ofNat 32 loaded ∧
      (c.processRequest P M cfg q).1.loadOnPageMiss = c.loadOnPageMiss + .ofNat 32 loaded := by
  intro loaded
  have hcounters := counters_processRequest P M cfg c q
  -- the copies that may be made first do not change these counters
  have hcopy : c.snapshotRoi.ldBlocks = c.ldBlocks ∧
      c.snapshotRoi.loadOnPageMiss = c.loadOnPageMiss := by
    rw [snapshotRoi]
    split_ifs <;> exact ⟨rfl, rfl⟩
  have hld := (congrArg Counters.ldBlocks hcounters).trans (Counters.ldBlocks_count ..)
  have hload := (congrArg Counters.loadOnPageMiss hcounters).trans
    (Counters.loadOnPageMiss_count ..)
  exact ⟨hld.trans (congrArg (· + _) hcopy.1), hload.trans (congrArg (· + _) hcopy.2)⟩

/-- A request that misses its page counts the blocks that it installs. -/
def CountsInstalled (P : Platform) (M : DramModel δ) (cfg : CntlrConfig T)
    (c : StackDramCacheCntlrUnison T δ A) (q : Request) : Prop :=
  (c.processRequest P M cfg q).1.ldBlocks =
      c.ldBlocks + .ofNat 32 (c.installedBlocks P M cfg q) ∧
    (c.processRequest P M cfg q).1.loadOnPageMiss =
      c.loadOnPageMiss + .ofNat 32 (c.installedBlocks P M cfg q)

/-- The entry of the history table has as many blocks as have been touched of the page that the
request is going to replace, which are none if the set is about to be emptied. -/
def PredictsReplaced (P : Platform) (cfg : CntlrConfig T) (c : StackDramCacheCntlrUnison T δ A)
    (q : Request) : Prop :=
  let S := c.sets (c.targetSet P cfg q)
  BitVec.bitCount (c.fht (c.pageOffset P cfg q.address / stackedBlockSize)) =
    if c.ToEmpty P cfg (c.targetSet P cfg q) then 0 else BitVec.bitCount (S.ways S.victim).footprint

/-- Installed are the blocks of the history table. -/
theorem installedBlocks_eq (hmiss : c.MissesPage P M cfg q) :
    c.installedBlocks P M cfg q =
      BitVec.bitCount (c.fht (c.pageOffset P cfg q.address / stackedBlockSize)) := by
  rw [installedBlocks, installedPage_eq hmiss]
  rfl

/-- Counted are the blocks of the page replaced. -/
theorem predictsReplaced_iff (hmiss : c.MissesPage P M cfg q) :
    c.PredictsReplaced P cfg q ↔
      BitVec.bitCount (c.replacedFootprint P M cfg q) = c.installedBlocks P M cfg q := by
  have hreplaced : BitVec.bitCount (c.replacedFootprint P M cfg q) =
      if c.ToEmpty P cfg (c.targetSet P cfg q) then 0
      else BitVec.bitCount ((c.sets (c.targetSet P cfg q)).ways
        (c.sets (c.targetSet P cfg q)).victim).footprint := by
    rw [replacedFootprint_eq]
    split_ifs
    · exact BitVec.bitCount_zero
    · rfl
  rw [PredictsReplaced, installedBlocks_eq hmiss, hreplaced]
  exact eq_comm

/-- Adding different numbers below `2 ^ w` to a word makes different words. -/
theorem add_ofNat_inj {w a b : ℕ} (ha : a < 2 ^ w) (hb : b < 2 ^ w) (x : BitVec w) :
    x + .ofNat w a = x + .ofNat w b ↔ a = b := by
  rw [BitVec.add_right_inj, ← BitVec.toNat_inj, BitVec.toNat_ofNat, BitVec.toNat_ofNat,
    Nat.mod_eq_of_lt ha, Nat.mod_eq_of_lt hb]

/-- In every state. -/
theorem countsInstalled_iff (hmiss : c.MissesPage P M cfg q) :
    c.CountsInstalled P M cfg q ↔ c.PredictsReplaced P cfg q := by
  have hfit : ∀ x : BitVec 32, BitVec.bitCount x < 2 ^ 32 := fun x =>
    (BitVec.bitCount_le x).trans_lt (by decide)
  obtain ⟨hld, hload⟩ := ldBlocks_processRequest P M cfg c q
  rw [CountsInstalled, hld, hload, if_pos hmiss, predictsReplaced_iff hmiss, installedBlocks,
    add_ofNat_inj (hfit _) (hfit (c.installedPage P M cfg q).vbits0),
    add_ofNat_inj (hfit _) (hfit (c.installedPage P M cfg q).vbits0), and_self]

/-! ## Runs -/

/-- The blocks that an action installs with a new page. -/
def installs (P : Platform) (M : DramModel δ) (cfg : CntlrConfig T)
    (c : StackDramCacheCntlrUnison T δ A) : Action cfg → ℕ
  | .processRequest q => if c.MissesPage P M cfg q then c.installedBlocks P M cfg q else 0
  | _ => 0

/-- If the action is a request that misses its page, the history table predicts as many blocks as
have been touched of the page that is replaced. -/
def PredictsWell (P : Platform) (M : DramModel δ) (cfg : CntlrConfig T)
    (c : StackDramCacheCntlrUnison T δ A) (a : Action cfg) : Prop :=
  ∀ q, a = .processRequest q → c.MissesPage P M cfg q → c.PredictsReplaced P cfg q

/-- A step that predicts well counts what it installs. -/
theorem totals_step {a : Action cfg} (h : c.PredictsWell P M cfg a) :
    (c.step P M cfg a).ldBlocks = c.ldBlocks + .ofNat 32 (c.installs P M cfg a) ∧
      (c.step P M cfg a).loadOnPageMiss = c.loadOnPageMiss + .ofNat 32 (c.installs P M cfg a) := by
  cases a with
  | processRequest q =>
    by_cases hmiss : c.MissesPage P M cfg q
    · rw [installs, if_pos hmiss]
      exact (countsInstalled_iff hmiss).mpr (h q rfl hmiss)
    · have hcounts := ldBlocks_processRequest P M cfg c q
      simp only [if_neg hmiss] at hcounts
      rw [installs, if_neg hmiss]
      exact hcounts
  | storeTemperature | updateTemperature | tryRemapping =>
    exact ⟨(BitVec.add_zero _).symm, (BitVec.add_zero _).symm⟩

/-- The totals of a run whose page misses are all predicted well. -/
theorem totals_run (P : Platform) (M : DramModel δ) (cfg : CntlrConfig T) (d : δ)
    {as : List (Action cfg)} :
    let m : Machine (StackDramCacheCntlrUnison T δ A) (Action cfg) := machine P M cfg d
    m.AllSteps (PredictsWell P M cfg) as →
      (m.run as).ldBlocks = .ofNat 32 (m.tally (installs P M cfg) as) ∧
        (m.run as).loadOnPageMiss = .ofNat 32 (m.tally (installs P M cfg) as) := by
  intro m h
  -- every step adds what it installs
  induction as using List.reverseRecOn with
  | nil => exact ⟨rfl, rfl⟩
  | append_singleton as a ih =>
    obtain ⟨hld, hload⟩ := ih h.of_append
    obtain ⟨hld', hload'⟩ := totals_step (h as a [] rfl)
    rw [Machine.run_concat, Machine.tally_concat, BitVec.ofNat_add, ← hld]
    exact ⟨hld', by rw [hld, ← hload]; exact hload'⟩

/-- After every run, whatever it has counted: a request that misses its page adds the blocks that it
installs to the counters, if and only if the history table predicts as many blocks as have been
touched of the page that is replaced. And if all page misses of the run are predicted so, then the
counters are the numbers of all blocks installed in the run, modulo `2 ^ 32`. -/
theorem loadedBlocks_iff (P : Platform) (M : DramModel δ) (cfg : CntlrConfig T) (d : δ) (A : ℕ)
    [NeZero A] (as : List (Action cfg)) :
    let m : Machine (StackDramCacheCntlrUnison T δ A) (Action cfg) := machine P M cfg d
    (∀ q, (m.run as).MissesPage P M cfg q →
        ((m.run as).CountsInstalled P M cfg q ↔ (m.run as).PredictsReplaced P cfg q)) ∧
      (m.AllSteps (PredictsWell P M cfg) as →
        (m.run as).ldBlocks = .ofNat 32 (m.tally (installs P M cfg) as) ∧
          (m.run as).loadOnPageMiss = .ofNat 32 (m.tally (installs P M cfg) as)) :=
  ⟨fun _ hmiss => countsInstalled_iff hmiss, totals_run P M cfg d⟩

/-- Reads of one page twice, and of two pages that are not in its set. -/
def readsBeforeReplacing : List (Action .small) :=
  [.processRequest (.block .read 64), .processRequest (.block .read 64),
    .processRequest (.block .read 4096), .processRequest (.block .read 8192)]

/-- The first page of a cache is predicted to have no blocks, and replaces a page without any. After
it and three more reads, the next page of the set is predicted to have no blocks as well, but
replaces a page with one, which is counted. -/
theorem loadedBlocks_iff_first :
    let K : Machine (StackDramCacheCntlrUnison ℕ Unit 4) (Action .small) :=
      machine .x86 .tenCycles .small ()
    let as : List (Action .small) := [.processRequest (.block .read 64)]
    K.init.CountsInstalled .x86 .tenCycles .small (.block .read 64) ∧
      (K.run as).ldBlocks = .ofNat 32 (K.tally (installs .x86 .tenCycles .small) as) ∧
      ¬ (K.run readsBeforeReplacing).CountsInstalled .x86 .tenCycles .small
        (.block .read 15872) := by
  intro K as
  have hpredicts : K.AllSteps (PredictsWell .x86 .tenCycles .small) as := by
    refine (Machine.allSteps_nil _).concat ?_
    rintro q hq -
    obtain rfl := Action.processRequest.inj hq
    unfold PredictsReplaced
    decide +kernel
  refine ⟨?_, ?_, ?_⟩
  · refine ((loadedBlocks_iff .x86 .tenCycles .small () 4 []).1 _ (by decide +kernel)).mpr ?_
    unfold PredictsReplaced
    decide +kernel
  · exact ((loadedBlocks_iff .x86 .tenCycles .small () 4 as).2 hpredicts).1
  · rw [(loadedBlocks_iff .x86 .tenCycles .small () 4 readsBeforeReplacing).1 _
      (by decide +kernel)]
    unfold PredictsReplaced
    decide +kernel

/-- A page with one block that has been touched is replaced by a page without valid blocks, and one
block is counted as loaded. -/
theorem not_countsInstalled :
    ¬ ∀ (as : List (Action .small)) (q : Request),
      let c : StackDramCacheCntlrUnison ℕ Unit 4 := (machine .x86 .tenCycles .small ()).run as
      c.MissesPage .x86 .tenCycles .small q → c.CountsInstalled .x86 .tenCycles .small q := by
  intro h
  have hcounts := h readsBeforeReplacing (.block .read 15872) (by decide +kernel)
  exact absurd hcounts.1 (by decide +kernel)

end StackedDram.StackDramCacheCntlrUnison
