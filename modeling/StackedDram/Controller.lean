import StackedDram.Cache.CacheSet
import StackedDram.PerfModel

/-!
# The cache controller

`StackDramCacheCntlrUnison` of `dram_perf_model_normal.cc`. `ProcessRequest` translates the
address, lets `checkRemapping` empty the sets of the banks that are marked invalid, looks the page
up in the set that `getRemapSet` gives, and replaces a page when it misses. The nested loops of
`checkRemapping` run over the list `rowsInOrder` of their indices.

The delays are the natural numbers of femtoseconds that the code adds up. What the objects print
goes to the log of the performance model.
-/

namespace StackedDram

/-- `StackDramCacheCntlrUnison::DramStats`, of a vault. -/
structure DramStats where
  reads : BitVec 32
  writes : BitVec 32
  misses : BitVec 32

/-- A call of `ProcessRequest`, with the values that it takes from outside: the random cost of a
DRAM access and the current conversion of clock cycles into nanoseconds. -/
structure Request where
  pktTime : ℕ
  pktSize : ℕ
  accessType : AccessType
  address : ℕ
  /-- The value that `m_dram_access_cost->next()` returns. -/
  dramAccessCost : ℕ
  nsOfClks : ℕ → ℕ

/-- The memory operation of a request. -/
def Request.memOp (q : Request) : MemOp := if q.accessType = .write then .write else .read

/-- A request for one block at time 0 that costs nothing outside the stack. -/
def Request.block (accessType : AccessType) (address : ℕ) : Request :=
  ⟨0, 64, accessType, address, 0, id⟩

/-- `StackDramCacheCntlrUnison` with sets of `A` ways. -/
structure StackDramCacheCntlrUnison (T δ : Type) (A : ℕ) where
  perfModel : StackedDramPerfUnison T δ
  sets : ℕ → DramCacheSetUnison A
  /-- The footprint history table. -/
  fht : ℕ → BitVec 32
  pageTable : ℕ → Option ℕ
  availPhyPageTag : ℕ
  dramStats : ℕ → DramStats
  cacheAccess : BitVec 32
  pageMisses : BitVec 32
  blockMisses : BitVec 32
  pageDisabled : BitVec 32
  loadOnPageMiss : BitVec 32
  writeOnPageMiss : BitVec 32
  /-- The counters before the region of interest. -/
  noRoi : RoiSnapshot
  wbBlocks : BitVec 32
  ldBlocks : BitVec 32
  invalidTimes : BitVec 32
  invalidBlocks : BitVec 32
  migrateTimes : BitVec 32
  migrateBlocks : BitVec 32

namespace StackDramCacheCntlrUnison

open BitFields

variable {T δ : Type} {A : ℕ}

/-- The constructor of `StackDramCacheCntlrUnison`. -/
def new (P : Platform) (cfg : CntlrConfig T) (dramModel : δ) :
    StackDramCacheCntlrUnison T δ A where
  perfModel := StackedDramPerfUnison.new cfg dramModel
  sets i :=
    let offset := i >>> 12
    DramCacheSetUnison.new (offset &&& (2 ^ 5 - 1)) (i >>> 11 &&& 1) (offset >>> 5 &&& 3)
  fht _ := 0
  pageTable _ := none
  availPhyPageTag := 0
  dramStats _ := ⟨0, 0, 0⟩
  cacheAccess := 0
  pageMisses := 0
  blockMisses := 0
  pageDisabled := 0
  loadOnPageMiss := 0
  writeOnPageMiss := 0
  noRoi := P.uninitialized
  wbBlocks := 0
  ldBlocks := 0
  invalidTimes := 0
  invalidBlocks := 0
  migrateTimes := 0
  migrateBlocks := 0

/-- Write to `*m_set[s]`. -/
def setSet (c : StackDramCacheCntlrUnison T δ A) (s : ℕ) (S : DramCacheSetUnison A) :
    StackDramCacheCntlrUnison T δ A :=
  { c with sets := Function.update c.sets s S }

/-- Write messages to the standard output. -/
def print (c : StackDramCacheCntlrUnison T δ A) (msgs : List Message) :
    StackDramCacheCntlrUnison T δ A :=
  { c with perfModel := c.perfModel.print msgs }

/-! ## Addresses -/

/-- `StackDramCacheCntlrUnison::translateAddress`: the physical address, 64 bits wide. -/
def translateAddress (c : StackDramCacheCntlrUnison T δ A) (address : ℕ) :
    StackDramCacheCntlrUnison T δ A × ℕ :=
  let offset := address &&& (2 ^ 12 - 1)
  let vTag := address >>> 12
  match c.pageTable vTag with
  | some pTag => (c, (pTag <<< 12 ||| offset) % 2 ^ 64)
  | none =>
    -- the first access to a virtual page takes the next physical one
    ({ c with
        pageTable := Function.update c.pageTable vTag (some c.availPhyPageTag)
        availPhyPageTag := (c.availPhyPageTag + 1) % 2 ^ 32 },
      (c.availPhyPageTag <<< 12 ||| offset) % 2 ^ 64)

/-- The set that `SplitAddress` gives the page with the given tag. -/
def homeSet (P : Platform) (cfg : CntlrConfig T) (tag : ℕ) : ℕ :=
  tag &&& (2 ^ P.floorLog2 cfg.setNum - 1)

/-- `StackDramCacheCntlrUnison::SplitAddress`: set number, page tag and offset in the page. -/
def splitAddress (P : Platform) (cfg : CntlrConfig T) (c : StackDramCacheCntlrUnison T δ A)
    (vAddress : ℕ) : StackDramCacheCntlrUnison T δ A × ℕ × ℕ × ℕ :=
  let (c, address) := c.translateAddress vAddress
  let addr := address / stackedPageSize
  (c, homeSet P cfg addr, addr, address % stackedPageSize)

variable [LinearOrder T]

/-! ## Accesses to the DRAM -/

/-- `StackDramCacheCntlrUnison::handleDramAccess`, with the delay it returns. -/
def handleDramAccess (P : Platform) (M : DramModel δ) (cfg : CntlrConfig T) (q : Request)
    (c : StackDramCacheCntlrUnison T δ A) (pktSize s : ℕ) (accessType : AccessType) :
    StackDramCacheCntlrUnison T δ A × ℕ :=
  let reqTimes := if pktSize / cfg.bandwidth < 1 then 1 else pktSize / cfg.bandwidth
  -- each transfer starts when the one before it has ended
  let (perfModel, delay) := (List.range reqTimes).foldl
    (fun acc _ =>
      let (pm, latency) := acc.1.getAccessLatency P M cfg q.nsOfClks
        (q.pktTime + acc.2) 128 s accessType
      (pm, acc.2 + latency)) (c.perfModel, 0)
  ({ c with perfModel }, if cfg.onTop then delay else delay + P.ofNS cfg.obusDelay)

/-! ## Emptying the sets of invalid banks -/

/-- The variables of the loops of `checkRemapping`: the controller, the delay of each vault
controller and the number of dirty blocks so far. -/
structure Sweep (T δ : Type) (A : ℕ) where
  cntlr : StackDramCacheCntlrUnison T δ A
  cntlrDelay : ℕ → ℕ
  writebackBlocks : BitVec 32

/-- `cntlr_delay[v] += delay`. -/
def Sweep.addDelay (st : Sweep T δ A) (v delay : ℕ) : Sweep T δ A :=
  { st with cntlrDelay := Function.update st.cntlrDelay v (st.cntlrDelay v + delay) }

/-- `cntlr_delay[v] += handleDramAccess(...)`. -/
def Sweep.handleDramAccess (P : Platform) (M : DramModel δ) (cfg : CntlrConfig T) (q : Request)
    (st : Sweep T δ A) (v pktSize s : ℕ) (accessType : AccessType) : Sweep T δ A :=
  let (c, delay) := st.cntlr.handleDramAccess P M cfg q pktSize s accessType
  { st with cntlr := c }.addDelay v delay

/-- The branch of the body of the loops for a row that is not valid. -/
def Sweep.invalidateRow (P : Platform) (M : DramModel δ) (cfg : CntlrConfig T) (q : Request)
    (st : Sweep T δ A) (v s setWbBlocks : ℕ) : Sweep T δ A :=
  -- the blocks go to the memory and are read from the stack, one after the other
  let st := st.addDelay v (P.getRoundedLatency (8 * 64 * setWbBlocks))
  let st := st.handleDramAccess P M cfg q v (8 * setWbBlocks * 64) s .read
  let c := st.cntlr
  { st with
    cntlr := { c.setSet s (c.sets s).invalidateContent.1 with
      invalidTimes := c.invalidTimes + 1
      invalidBlocks := c.invalidBlocks + BitVec.ofNat 32 setWbBlocks } }

/-- The branch of the body of the loops for a row that has been migrated. -/
def Sweep.migrateRow (P : Platform) (M : DramModel δ) (cfg : CntlrConfig T) (q : Request)
    (st : Sweep T δ A) (v s setValidBlocks : ℕ) : Sweep T δ A :=
  let st := st.handleDramAccess P M cfg q v (setValidBlocks * 64) s .read
  let st := st.handleDramAccess P M cfg q v (setValidBlocks * 64) s .write
  { st with
    cntlr := { st.cntlr with
      migrateTimes := st.cntlr.migrateTimes + 1
      migrateBlocks := st.cntlr.migrateBlocks + BitVec.ofNat 32 setValidBlocks } }

/-- The body of the loops of `checkRemapping`, for row `r` of bank `b` of vault `v`. -/
def sweepRow (P : Platform) (M : DramModel δ) (cfg : CntlrConfig T) (q : Request)
    (st : Sweep T δ A) (row : ℕ × ℕ × ℕ) : Sweep T δ A :=
  let (v, b, r) := row
  let valid := st.cntlr.perfModel.checkRowValid cfg v b
  let migrated := st.cntlr.perfModel.checkRowMigrated cfg v b r
  if valid ∧ ¬ migrated then st
  else
    -- the set is that of the bank itself, not the one its requests are redirected to
    let (s, printed) := cfg.getSetNum P v b r
    let st := { st with cntlr := st.cntlr.print printed }
    let setWbBlocks := (st.cntlr.sets s).getDirtyBlocks
    let setValidBlocks := (st.cntlr.sets s).getValidBlocks
    -- the dirty blocks are counted below, in both branches
    let st :=
      if valid = false then st.invalidateRow P M cfg q v s setWbBlocks
      else if migrated then st.migrateRow P M cfg q v s setValidBlocks
      else st
    { st with writebackBlocks := st.writebackBlocks + BitVec.ofNat 32 setWbBlocks }

/-- The rows of all banks in the order of the loops of `checkRemapping`. -/
def rowsInOrder (P : Platform) (cfg : CntlrConfig T) : List (ℕ × ℕ × ℕ) :=
  let rowNum := 1 <<< P.floorLog2 (cfg.bankSize / cfg.rowSize)
  let bankNum := 1 <<< P.floorLog2 (cfg.vaultSize / cfg.bankSize)
  (List.range cfg.nVaults).flatMap fun v =>
    (List.range bankNum).flatMap fun b => (List.range rowNum).map fun r => (v, b, r)

/-- The loops of `checkRemapping` over the given rows. -/
def sweep (P : Platform) (M : DramModel δ) (cfg : CntlrConfig T) (q : Request)
    (c : StackDramCacheCntlrUnison T δ A) (rows : List (ℕ × ℕ × ℕ)) : Sweep T δ A :=
  rows.foldl (sweepRow P M cfg q) ⟨c, fun _ => 0, 0#32⟩

/-- The counters before the region of interest follow the others until it is entered. -/
def snapshotRoi (c : StackDramCacheCntlrUnison T δ A) : StackDramCacheCntlrUnison T δ A :=
  if c.perfModel.enterRoi = false then
    { c with noRoi := ⟨c.cacheAccess, c.pageMisses, c.blockMisses⟩ }
  else c

/-- `StackDramCacheCntlrUnison::checkRemapping`, with the delay it returns. -/
def checkRemapping (P : Platform) (M : DramModel δ) (cfg : CntlrConfig T) (q : Request)
    (c : StackDramCacheCntlrUnison T δ A) : StackDramCacheCntlrUnison T δ A × ℕ :=
  let c := c.snapshotRoi
  if c.perfModel.remapped = false then (c, 0)
  else
    let st := c.sweep P M cfg q (rowsInOrder P cfg)
    let c := st.cntlr
    let perfModel := c.perfModel.clearRemappingStat cfg
    -- the vault controllers work in parallel, so the delay is the greatest of theirs
    ({ c with
        perfModel := { perfModel with remapped := false }
        wbBlocks := c.wbBlocks + st.writebackBlocks },
      (List.range cfg.nVaults).foldl
        (fun delay i => if delay < st.cntlrDelay i then st.cntlrDelay i else delay) 0)

/-! ## Requests -/

/-- `ProcessRequest` for a set that is disabled: the request goes past the cache. -/
def bypass (P : Platform) (cfg : CntlrConfig T) (q : Request) (dramDelay remapDelay : ℕ)
    (c : StackDramCacheCntlrUnison T δ A) : StackDramCacheCntlrUnison T δ A × ℕ :=
  ({ c with
      blockMisses := c.blockMisses + 1
      pageDisabled := c.pageDisabled + 1 },
    P.getRoundedLatency (8 * q.pktSize) + q.dramAccessCost + remapDelay + dramDelay +
      P.ofNS cfg.avgQueueLatency)

/-- The statistics of `ProcessRequest` about the set `s`. -/
def countAccess (P : Platform) (cfg : CntlrConfig T) (q : Request) (s : ℕ) (result : AccessResult)
    (c : StackDramCacheCntlrUnison T δ A) : StackDramCacheCntlrUnison T δ A :=
  let vaultBit := P.floorLog2 cfg.nVaults
  let rowBit := P.floorLog2 (cfg.bankSize / cfg.rowSize)
  -- the vault of the layout `b_v_r`, whatever the layout is
  let vault := midField vaultBit rowBit s
  let stats := c.dramStats vault
  let pm := c.perfModel
  let miss := if result = .hit then 0#32 else 1#32
  if q.accessType = .write then
    { c with
      perfModel := { pm with totWrites := pm.totWrites + 1, totMisses := pm.totMisses + miss }
      dramStats := Function.update c.dramStats vault
        { stats with writes := stats.writes + 1, misses := stats.misses + miss } }
  else
    { c with
      perfModel := { pm with totReads := pm.totReads + 1, totMisses := pm.totMisses + miss }
      dramStats := Function.update c.dramStats vault
        { stats with reads := stats.reads + 1, misses := stats.misses + miss } }

/-- The end of `ProcessRequest`: the blocks to load come from the memory, or else the block
requested from the DRAM; then the statistics. -/
def finish (P : Platform) (M : DramModel δ) (cfg : CntlrConfig T) (q : Request) (s : ℕ)
    (result : AccessResult) (loadBlocks dramDelay remapDelay : ℕ)
    (c : StackDramCacheCntlrUnison T δ A) : StackDramCacheCntlrUnison T δ A × ℕ :=
  let avgQueueLatency := if cfg.onTop then 0 else P.ofNS cfg.avgQueueLatency / 4
  if 0 < loadBlocks then
    -- the transfer from the memory is that of a single block
    (c.countAccess P cfg q s result,
      q.dramAccessCost + avgQueueLatency + dramDelay + remapDelay +
        P.getRoundedLatency (8 * 64))
  else
    let (c, dataDelay) := c.handleDramAccess P M cfg q 64 s q.accessType
    (c.countAccess P cfg q s result, dramDelay + dataDelay + remapDelay)

variable [NeZero A]

/-- The branch of `ProcessRequest` for a page that is not in the set `s`, with the number of
blocks to load and the delay. -/
def missPage (P : Platform) (M : DramModel δ) (cfg : CntlrConfig T) (q : Request)
    (s tag blockNum : ℕ) (footprint : BitVec 32) (c : StackDramCacheCntlrUnison T δ A) :
    StackDramCacheCntlrUnison T δ A × ℕ × ℕ :=
  let (S, newFootprint, writebackBlocks, printed) := (c.sets s).replacePage tag footprint
  -- the blocks counted as loaded are those of the page replaced, not of the page requested
  let loadBlocks := BitVec.countLoop 32 newFootprint
  let c :=
    { (c.setSet s S).print printed with
      pageMisses := c.pageMisses + 1
      fht := Function.update c.fht blockNum newFootprint
      wbBlocks := c.wbBlocks + BitVec.ofNat 32 writebackBlocks
      ldBlocks := c.ldBlocks + BitVec.ofNat 32 loadBlocks
      loadOnPageMiss := c.loadOnPageMiss + BitVec.ofNat 32 loadBlocks
      writeOnPageMiss := c.writeOnPageMiss + BitVec.ofNat 32 writebackBlocks }
  let (c, delay) := c.handleDramAccess P M cfg q 64 s .read
  (c, loadBlocks, delay)

/-- What `ProcessRequest` does about the result of the lookup in the set `s`, with the number of
blocks to load and the delay. -/
def resolve (P : Platform) (M : DramModel δ) (cfg : CntlrConfig T) (q : Request)
    (s tag blockNum : ℕ) (footprint : BitVec 32) (result : AccessResult)
    (c : StackDramCacheCntlrUnison T δ A) : StackDramCacheCntlrUnison T δ A × ℕ × ℕ :=
  match result with
  | .pageMiss => c.missPage P M cfg q s tag blockNum footprint
  | .blockMiss => ({ c with blockMisses := c.blockMisses + 1 }, 1, 0)
  | .hit => (c, 0, 0)

/-- The part of `ProcessRequest` after the set `s` of the request is known. -/
def serve (P : Platform) (M : DramModel δ) (cfg : CntlrConfig T) (q : Request)
    (s tag offset : ℕ) (footprint : BitVec 32) (dramDelay remapDelay : ℕ)
    (c : StackDramCacheCntlrUnison T δ A) : StackDramCacheCntlrUnison T δ A × ℕ :=
  let (S, result) := (c.sets s).accessAttempt P q.memOp tag offset
  -- the tags are in the DRAM too
  let (c, tagDelay) := (c.setSet s S).handleDramAccess P M cfg q 64 s .read
  let (c, loadBlocks, missDelay) :=
    c.resolve P M cfg q s tag (offset / stackedBlockSize) footprint result
  c.finish P M cfg q s result loadBlocks (dramDelay + tagDelay + missDelay) remapDelay

/-- The part of `ProcessRequest` after `checkRemapping`. -/
def lookup (P : Platform) (M : DramModel δ) (cfg : CntlrConfig T) (q : Request)
    (setN tag offset : ℕ) (footprint : BitVec 32) (remapDelay : ℕ)
    (c : StackDramCacheCntlrUnison T δ A) : StackDramCacheCntlrUnison T δ A × ℕ :=
  let c := { c with cacheAccess := c.cacheAccess + 1 }
  let dramDelay :=
    if cfg.enableRemap then (if cfg.nRemap = 1 ∧ cfg.interVault then P.ofPS 200 else P.ofPS 10)
    else 0
  -- it is the home set that is checked; the set it is redirected to is not
  let (setDisabled, printed) := c.perfModel.checkSetDisabled P cfg setN
  let c := c.print printed
  if setDisabled ∨ cfg.dramDisabled then c.bypass P cfg q dramDelay remapDelay
  else
    let (remapSet, printed) := cfg.getRemapSet P c.perfModel.manager setN
    (c.print printed).serve P M cfg q remapSet tag offset footprint dramDelay remapDelay

/-- `StackDramCacheCntlrUnison::ProcessRequest`, with the delay it returns. -/
def processRequest (P : Platform) (M : DramModel δ) (cfg : CntlrConfig T)
    (c : StackDramCacheCntlrUnison T δ A) (q : Request) : StackDramCacheCntlrUnison T δ A × ℕ :=
  let (c, setN, pageTag, pageOffset) := c.splitAddress P cfg q.address
  -- the prediction is read before `checkRemapping`, and only the block number selects it
  let footprint := c.fht (pageOffset / stackedBlockSize)
  let (c, remapDelay) := c.checkRemapping P M cfg q
  c.lookup P M cfg q setN pageTag pageOffset footprint remapDelay

end StackDramCacheCntlrUnison

end StackedDram
