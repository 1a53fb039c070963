import StackedDram.Runs

/-!
# The cost of misses

The costs outside the stack are the random cost of an access to the memory, the queueing latency
and the transfer times of the memory bandwidth (`Costs`). None of them affects what a request does
(`afterCheck_withCosts`), so its delay is a function of them. The delay of a request that is not
bypassed is the time for emptying sets, a time spent in the stack, and, if there are blocks to load,
the cost of one access to the memory (`delay_eq`).

On a page miss the blocks to load are counted from the footprint of the page that is replaced, so
that a miss is free if that page has none. `includesOffChip_iff_miss` says when the cost is charged
as it should be.
-/

namespace StackedDram

/-- The costs of what happens outside the stack. -/
structure Costs where
  /-- The value that `m_dram_access_cost->next()` returns. -/
  dramAccessCost : ℕ
  /-- `perf_model/dram/avg_queue_latency`, in nanoseconds. -/
  avgQueueLatency : ℕ
  /-- `m_dram_bandwidth.getRoundedLatency`. -/
  getRoundedLatency : ℕ → ℕ

namespace Costs

variable {T : Type}

def platform (k : Costs) (P : Platform) : Platform :=
  { P with getRoundedLatency := k.getRoundedLatency }

def config (k : Costs) (cfg : CntlrConfig T) : CntlrConfig T :=
  { cfg with avgQueueLatency := k.avgQueueLatency }

def request (k : Costs) (q : Request) : Request := { q with dramAccessCost := k.dramAccessCost }

/-- The cost of an access to the memory, with the transfer of one block. -/
def offChip (k : Costs) (P : Platform) (onTop : Bool) : ℕ :=
  k.dramAccessCost + (if onTop then 0 else P.ofNS k.avgQueueLatency / 4) +
    k.getRoundedLatency (8 * 64)

end Costs

namespace DramCacheSetUnison

variable {A : ℕ} [NeZero A]

/-- The result of the lookup for a request. -/
def accessResult (P : Platform) (S : DramCacheSetUnison A) (r : PageRequest) : AccessResult :=
  (S.accessAttempt P r.type r.tag r.offset).2

/-- The number of blocks that `ProcessRequest` loads after the lookup. -/
def loadBlocks (P : Platform) (S : DramCacheSetUnison A) (r : PageRequest) : ℕ :=
  match S.accessResult P r with
  | .pageMiss => BitVec.bitCount (S.ways S.victim).footprint
  | .blockMiss => 1
  | .hit => 0

variable {P : Platform} {S : DramCacheSetUnison A} {r : PageRequest}

omit [NeZero A] in
theorem accessResult_eq_pageMiss_iff : S.accessResult P r = .pageMiss ↔ ¬ S.Holds r.tag :=
  accessAttempt_eq_pageMiss_iff

/-- Blocks are loaded on every miss, except when the page that is replaced has no footprint. -/
theorem loadBlocks_pos_iff :
    0 < S.loadBlocks P r ↔
      S.accessResult P r ≠ .hit ∧ (S.Holds r.tag ∨ (S.ways S.victim).footprint ≠ 0) := by
  have hmiss := accessResult_eq_pageMiss_iff (P := P) (S := S) (r := r)
  rw [loadBlocks]
  cases hresult : S.accessResult P r with
  | pageMiss =>
    rw [hresult] at hmiss
    have hholds : ¬ S.Holds r.tag := hmiss.mp rfl
    show 0 < BitVec.bitCount (S.ways S.victim).footprint ↔ _
    -- a page miss loads the footprint of the page that is replaced
    rw [BitVec.bitCount_pos_iff]
    simp [hholds]
  | blockMiss =>
    rw [hresult] at hmiss
    have hholds : S.Holds r.tag := by simpa using hmiss
    simp [hholds]
  | hit => simp

end DramCacheSetUnison

namespace StackDramCacheCntlrUnison

variable {T δ : Type} {A : ℕ} {P : Platform} {M : DramModel δ} {cfg : CntlrConfig T} {d : δ}
  {q : Request} {c : StackDramCacheCntlrUnison T δ A} [LinearOrder T]

/-! ## What a request does is independent of the costs -/

theorem handleDramAccess_withCosts (P : Platform) (M : DramModel δ) (cfg : CntlrConfig T)
    (q : Request) (k : Costs) (c : StackDramCacheCntlrUnison T δ A) (pktSize s : ℕ)
    (accessType : AccessType) :
    c.handleDramAccess (k.platform P) M (k.config cfg) (k.request q) pktSize s accessType =
      c.handleDramAccess P M cfg q pktSize s accessType := rfl

/-- An iteration of the loops of `checkRemapping`: only the delays depend on the costs. -/
theorem sweepRow_withCosts (k : Costs) {st st' : Sweep T δ A} (hcntlr : st'.cntlr = st.cntlr)
    (hwb : st'.writebackBlocks = st.writebackBlocks) (row : ℕ × ℕ × ℕ) :
    let after := sweepRow P M cfg q st row
    let after' := sweepRow (k.platform P) M (k.config cfg) (k.request q) st' row
    after'.cntlr = after.cntlr ∧ after'.writebackBlocks = after.writebackBlocks := by
  obtain ⟨c, cntlrDelay, writebackBlocks⟩ := st
  obtain ⟨c', cntlrDelay', writebackBlocks'⟩ := st'
  obtain rfl : c' = c := hcntlr
  obtain rfl : writebackBlocks' = writebackBlocks := hwb
  -- the costs are read by none of the three
  have hvalid : c'.perfModel.checkRowValid (k.config cfg) = c'.perfModel.checkRowValid cfg := rfl
  have hmigrated : c'.perfModel.checkRowMigrated (k.config cfg) =
      c'.perfModel.checkRowMigrated cfg := rfl
  have hset : (k.config cfg).getSetNum (k.platform P) = cfg.getSetNum P := rfl
  unfold sweepRow
  dsimp only [StackDramCacheCntlrUnison.print, StackedDramPerfUnison.print]
  rw [hvalid, hmigrated, hset]
  split_ifs <;> exact ⟨rfl, rfl⟩

theorem sweep_withCosts (P : Platform) (M : DramModel δ) (cfg : CntlrConfig T) (q : Request)
    (k : Costs) (c : StackDramCacheCntlrUnison T δ A) (rows : List (ℕ × ℕ × ℕ)) :
    let st := c.sweep P M cfg q rows
    let st' := c.sweep (k.platform P) M (k.config cfg) (k.request q) rows
    st'.cntlr = st.cntlr ∧ st'.writebackBlocks = st.writebackBlocks := by
  -- induction on the rows, the last one first, as in the loops
  induction rows using List.reverseRecOn with
  | nil =>
    dsimp only [sweep, List.foldl_nil]
    exact ⟨rfl, rfl⟩
  | append_singleton rows row ih =>
    dsimp only [sweep] at ih ⊢
    rw [List.foldl_append, List.foldl_append]
    exact sweepRow_withCosts k ih.1 ih.2 row

theorem checkRemapping_withCosts (k : Costs) (c : StackDramCacheCntlrUnison T δ A) :
    (c.checkRemapping (k.platform P) M (k.config cfg) (k.request q)).1 =
      (c.checkRemapping P M cfg q).1 := by
  have hrows : rowsInOrder (k.platform P) (k.config cfg) = rowsInOrder P cfg := rfl
  obtain ⟨hcntlr, hwb⟩ := sweep_withCosts P M cfg q k c.snapshotRoi (rowsInOrder P cfg)
  unfold checkRemapping
  dsimp only
  rw [hrows, hcntlr, hwb]
  split_ifs <;> rfl

/-- A request finds the cache in the same state whatever the costs are. -/
theorem afterCheck_withCosts (k : Costs) (c : StackDramCacheCntlrUnison T δ A) :
    c.afterCheck (k.platform P) M (k.config cfg) (k.request q) = c.afterCheck P M cfg q :=
  checkRemapping_withCosts k _

/-! ## Delays -/

variable [NeZero A]

/-- The delay of a request at the given costs. -/
def delay (P : Platform) (M : DramModel δ) (cfg : CntlrConfig T)
    (c : StackDramCacheCntlrUnison T δ A) (q : Request) (k : Costs) : ℕ :=
  (c.processRequest (k.platform P) M (k.config cfg) (k.request q)).2

/-- The part of the delay after `checkRemapping` is a time in the stack, which is independent of
the costs outside it, and the given cost. -/
def Charges (P : Platform) (M : DramModel δ) (cfg : CntlrConfig T)
    (c : StackDramCacheCntlrUnison T δ A) (q : Request) (cost : Costs → ℕ) : Prop :=
  ∃ stackDelay, ∀ k : Costs, c.delay P M cfg q k =
    c.remapDelay (k.platform P) M (k.config cfg) (k.request q) + stackDelay + cost k

/-- The delay includes the cost of an access to the memory, whatever that is. -/
def IncludesOffChip (P : Platform) (M : DramModel δ) (cfg : CntlrConfig T)
    (c : StackDramCacheCntlrUnison T δ A) (q : Request) : Prop :=
  c.Charges P M cfg q fun k => k.offChip P cfg.onTop

/-- The set that serves a request, when the lookup begins. -/
def servingSet (P : Platform) (M : DramModel δ) (cfg : CntlrConfig T)
    (c : StackDramCacheCntlrUnison T δ A) (q : Request) : DramCacheSetUnison A :=
  (c.afterCheck P M cfg q).sets (c.targetSet P cfg q)

omit [NeZero A] in
theorem finish_delay (P : Platform) (M : DramModel δ) (cfg : CntlrConfig T) (q : Request)
    (c : StackDramCacheCntlrUnison T δ A) (s : ℕ) (result : AccessResult)
    (loadBlocks dramDelay : ℕ) :
    ∃ stackDelay, ∀ (k : Costs) (remapDelay : ℕ),
      (c.finish (k.platform P) M (k.config cfg) (k.request q) s result loadBlocks dramDelay
        remapDelay).2 =
      remapDelay + stackDelay + if 0 < loadBlocks then k.offChip P cfg.onTop else 0 := by
  by_cases hload : 0 < loadBlocks
  · refine ⟨dramDelay, fun k remapDelay => ?_⟩
    unfold finish
    simp only [if_pos hload]
    show k.dramAccessCost + (if cfg.onTop then 0 else P.ofNS k.avgQueueLatency / 4) + dramDelay +
      remapDelay + k.getRoundedLatency (8 * 64) = _
    rw [Costs.offChip]
    omega
  · -- the block comes from the stack
    refine ⟨dramDelay + (c.handleDramAccess P M cfg q 64 s q.accessType).2, fun k remapDelay => ?_⟩
    unfold finish
    simp only [if_neg hload]
    show dramDelay + (c.handleDramAccess P M cfg q 64 s q.accessType).2 + remapDelay = _
    omega

theorem resolve_withCosts (P : Platform) (M : DramModel δ) (cfg : CntlrConfig T) (q : Request)
    (k : Costs) (c : StackDramCacheCntlrUnison T δ A) (s tag blockNum : ℕ)
    (footprint : BitVec 32) (result : AccessResult) :
    c.resolve (k.platform P) M (k.config cfg) (k.request q) s tag blockNum footprint result =
      c.resolve P M cfg q s tag blockNum footprint result := by
  cases result <;> rfl

/-- The number of blocks that are loaded for a request. -/
theorem resolve_loadBlocks (P : Platform) (M : DramModel δ) (cfg : CntlrConfig T) (q : Request)
    {S : DramCacheSetUnison A} {s : ℕ} {r : PageRequest}
    (hs : c.sets s = (S.accessAttempt P r.type r.tag r.offset).1) :
    (c.resolve P M cfg q s r.tag r.block r.footprint (S.accessResult P r)).2.1 =
      S.loadBlocks P r := by
  rw [DramCacheSetUnison.loadBlocks]
  cases hresult : S.accessResult P r with
  | pageMiss =>
    have hholds := DramCacheSetUnison.accessResult_eq_pageMiss_iff.mp hresult
    show BitVec.countLoop 32 ((c.sets s).ways (c.sets s).victim).footprint = _
    rw [BitVec.countLoop_eq_bitCount, hs,
      DramCacheSetUnison.victim_accessAttempt_of_not_holds hholds,
      DramCacheSetUnison.accessAttempt_ways_of_not_holds hholds]
  | blockMiss | hit => rfl

theorem serve_delay (P : Platform) (M : DramModel δ) (cfg : CntlrConfig T)
    (c : StackDramCacheCntlrUnison T δ A) (s dramDelay : ℕ) (r : PageRequest)
    (hr : r.type = q.memOp) :
    ∃ stackDelay, ∀ (k : Costs) (remapDelay : ℕ),
      (c.serve (k.platform P) M (k.config cfg) (k.request q) s r.tag r.offset r.footprint dramDelay
        remapDelay).2 =
      remapDelay + stackDelay +
        if 0 < (c.sets s).loadBlocks P r then k.offChip P cfg.onTop else 0 := by
  -- the controller after the access to the tags, and what is done about the result
  let lookup := (c.sets s).accessAttempt P r.type r.tag r.offset
  let tags := (c.setSet s lookup.1).handleDramAccess P M cfg q 64 s .read
  let resolved := tags.1.resolve P M cfg q s r.tag r.block r.footprint lookup.2
  have hset : tags.1.sets s = lookup.1 := by
    show Function.update c.sets s lookup.1 s = _
    rw [Function.update_self]
  have hload : resolved.2.1 = (c.sets s).loadBlocks P r := resolve_loadBlocks P M cfg q hset
  obtain ⟨stackDelay, hfinish⟩ := finish_delay P M cfg q resolved.1 s lookup.2 resolved.2.1
    (dramDelay + tags.2 + resolved.2.2)
  refine ⟨stackDelay, fun k remapDelay => ?_⟩
  rw [← hload, ← hfinish k remapDelay]
  have hop : (k.request q).memOp = r.type := hr.symm
  unfold serve
  dsimp only
  rw [hop, handleDramAccess_withCosts, resolve_withCosts]
  rfl

theorem lookup_delay {setN : ℕ}
    (h : ¬ ((c.perfModel.checkSetDisabled P cfg setN).1 = true ∨ cfg.dramDisabled = true))
    (r : PageRequest) (hr : r.type = q.memOp) :
    ∃ stackDelay, ∀ (k : Costs) (remapDelay : ℕ),
      (c.lookup (k.platform P) M (k.config cfg) (k.request q) setN r.tag r.offset r.footprint
        remapDelay).2 =
      remapDelay + stackDelay +
        if 0 < (c.sets (cfg.getRemapSet P c.perfModel.manager setN).1).loadBlocks P r then
          k.offChip P cfg.onTop else 0 := by
  -- the controller in which the set is served differs from `c` in counters and messages
  let counted := ({ c with cacheAccess := c.cacheAccess + 1 }.print
    (c.perfModel.checkSetDisabled P cfg setN).2).print
      (cfg.getRemapSet P c.perfModel.manager setN).2
  let tableDelay :=
    if cfg.enableRemap then (if cfg.nRemap = 1 ∧ cfg.interVault then P.ofPS 200 else P.ofPS 10)
    else 0
  obtain ⟨stackDelay, hserve⟩ := serve_delay P M cfg counted
    (cfg.getRemapSet P c.perfModel.manager setN).1 tableDelay r hr
  refine ⟨stackDelay, fun k remapDelay => ?_⟩
  refine Eq.trans ?_ (hserve k remapDelay)
  have hdisabled : c.perfModel.checkSetDisabled (k.platform P) (k.config cfg) setN =
      c.perfModel.checkSetDisabled P cfg setN := rfl
  have hoff : (k.config cfg).dramDisabled = cfg.dramDisabled := rfl
  unfold lookup
  simp only [hdisabled, hoff, if_neg h]
  rfl

/-- The delay of a request that is not bypassed. -/
theorem delay_eq (M : DramModel δ) (hq : ¬ c.Bypassed P cfg q) :
    c.Charges P M cfg q fun k =>
      if 0 < (c.servingSet P M cfg q).loadBlocks P (c.pageRequest P cfg q) then
        k.offChip P cfg.onTop else 0 := by
  rw [← bypassed_afterCheck_iff P M cfg q c] at hq
  obtain ⟨stackDelay, hlookup⟩ := lookup_delay (M := M) hq (c.pageRequest P cfg q) rfl
  refine ⟨stackDelay, fun k => ?_⟩
  have hlookup' := hlookup k (c.remapDelay (k.platform P) M (k.config cfg) (k.request q))
  rw [getRemapSet_congr (checked_afterCheck P M cfg q c).sameRouting] at hlookup'
  have hhome : c.homeOf (k.platform P) (k.config cfg) (k.request q) = c.homeOf P cfg q := rfl
  have hpage : c.pageRequest (k.platform P) (k.config cfg) (k.request q) = c.pageRequest P cfg q :=
    rfl
  rw [delay, processRequest_eq, afterCheck_withCosts, hhome, hpage]
  exact hlookup'

/-- The cost is charged for the requests that load blocks, and for no others. -/
theorem includesOffChip_iff (M : DramModel δ) (hq : ¬ c.Bypassed P cfg q) :
    c.IncludesOffChip P M cfg q ↔
      0 < (c.servingSet P M cfg q).loadBlocks P (c.pageRequest P cfg q) := by
  have hdelay := delay_eq M hq
  constructor
  · rintro ⟨included, hincluded⟩
    by_contra hload
    simp only [if_neg hload] at hdelay
    obtain ⟨stackDelay, hfree⟩ := hdelay
    -- the delay would depend on the draw, and not depend on it
    have hzero := (hincluded ⟨0, 0, fun _ => 0⟩).symm.trans (hfree _)
    have hone := (hincluded ⟨1, 0, fun _ => 0⟩).symm.trans (hfree _)
    simp only [Costs.offChip, Nat.zero_div, P.ofNS_zero, ite_self, Nat.add_zero]
      at hzero hone
    omega
  · intro hload
    simp only [if_pos hload] at hdelay
    exact hdelay

/-- The blocks that are loaded for a request in terms of the state before it. -/
theorem loadBlocks_servingSet_pos_iff (P : Platform) (M : DramModel δ) (cfg : CntlrConfig T)
    (c : StackDramCacheCntlrUnison T δ A) (q : Request) :
    let S := c.servingSet P M cfg q
    let S₀ := c.sets (c.targetSet P cfg q)
    let r := c.pageRequest P cfg q
    ((0 < S.loadBlocks P r ↔ S.accessResult P r ≠ .hit) ↔
      ¬ c.ToEmpty P cfg (c.targetSet P cfg q) ∧
        (S₀.Holds r.tag ∨ (S₀.ways S₀.victim).footprint ≠ 0)) := by
  intro S S₀ r
  have hchecked := checked_afterCheck P M cfg q c
  have hresult : S.Holds r.tag ∨ S.accessResult P r ≠ .hit := by
    by_contra h
    push Not at h
    rw [DramCacheSetUnison.accessResult_eq_pageMiss_iff.mpr h.1] at h
    exact absurd h.2 (by decide)
  rw [DramCacheSetUnison.loadBlocks_pos_iff, and_iff_left_iff_imp]
  constructor
  · intro h
    have hvictim : S.Holds r.tag ∨ (S.ways S.victim).footprint ≠ 0 := hresult.elim Or.inl h
    have hkeep : ¬ c.ToEmpty P cfg (c.targetSet P cfg q) := by
      intro hempty
      -- the page is missing from an empty set, and there is no page to replace
      have hS : S.Empty := hchecked.emptied _ hempty
      rcases hvictim with hholds | hfootprint
      · exact hS.not_holds r.tag_ne hholds
      · rw [hS] at hfootprint
        exact hfootprint rfl
    have hS : S = S₀ := hchecked.kept _ hkeep
    rw [hS] at hvictim
    exact ⟨hkeep, hvictim⟩
  · rintro ⟨hkeep, hvictim⟩ -
    have hS : S = S₀ := hchecked.kept _ hkeep
    rw [hS]
    exact hvictim

/-- For every request that is not bypassed, its delay includes the cost of an access to the memory
exactly if the lookup has missed the page or the block, if and only if the set that serves it is not
about to be emptied and, unless it holds the page, some block of the page that is replaced has been
touched. -/
theorem includesOffChip_iff_miss (M : DramModel δ) (hq : ¬ c.Bypassed P cfg q) :
    let r := c.pageRequest P cfg q
    let S := c.sets (c.targetSet P cfg q)
    ((c.IncludesOffChip P M cfg q ↔
        (c.servingSet P M cfg q).accessResult P r = .pageMiss ∨
          (c.servingSet P M cfg q).accessResult P r = .blockMiss) ↔
      ¬ c.ToEmpty P cfg (c.targetSet P cfg q) ∧
        (S.Holds r.tag ∨ (S.ways S.victim).footprint ≠ 0)) := by
  intro r S
  have hmiss : ∀ result : AccessResult,
      result = .pageMiss ∨ result = .blockMiss ↔ result ≠ .hit := by
    rintro (_ | _ | _) <;> decide
  rw [includesOffChip_iff M hq, hmiss]
  exact loadBlocks_servingSet_pos_iff P M cfg c q

/-- The second request finds its page, but not its block, and is charged. -/
theorem includesOffChip_iff_miss_small :
    let c : StackDramCacheCntlrUnison ℕ Unit 2 :=
      (machine .x86 .tenCycles .small ()).run [.processRequest (.block .read 64)]
    c.IncludesOffChip .x86 .tenCycles .small (.block .write 128) := by
  intro c
  have hq : ¬ c.Bypassed .x86 .small (.block .write 128) := by decide
  exact ((includesOffChip_iff_miss .tenCycles hq).mpr (by decide)).mpr (Or.inr (by decide))

/-- The first request of a run misses its page and replaces none, so it is not charged. -/
theorem not_includesOffChip_iff_miss :
    ¬ ∀ (c : StackDramCacheCntlrUnison ℕ Unit 2) (q : Request),
      (machine .x86 .tenCycles .small ()).Reachable c → ¬ c.Bypassed .x86 .small q →
        (c.IncludesOffChip .x86 .tenCycles .small q ↔
          (c.servingSet .x86 .tenCycles .small q).accessResult .x86
              (c.pageRequest .x86 .small q) = .pageMiss ∨
            (c.servingSet .x86 .tenCycles .small q).accessResult .x86
              (c.pageRequest .x86 .small q) = .blockMiss) := by
  intro h
  have hq : ¬ (new .x86 .small () : StackDramCacheCntlrUnison ℕ Unit 2).Bypassed .x86 .small
      (.block .read 0) := by decide
  have hfirst := (h _ (.block .read 0) .init hq).mpr (Or.inl (by decide))
  exact absurd ((includesOffChip_iff .tenCycles hq).mp hfirst) (by decide)

end StackDramCacheCntlrUnison

end StackedDram
