import StackedDram.Translation

/-!
# The performance model of the stacked DRAM

`StackedDramPerfUnison` of `stacked_dram_cntlr.cc`: it holds the remapping manager, tells the cache
controller about the state of banks and sets, and computes the latency of accesses with the DRAM
simulator. The simulator itself is a parameter (`DramModel`), and so is the conversion of its clock
cycles into time, which the code computes in floating point from the current frequency.

`Undisturbed` is what an access leaves alone: the flags and ids of all banks, the temperatures and
the two flags of the model (`undisturbed_getAccessLatency`).
-/

namespace StackedDram

/-- The functions of the DRAM simulator that the model calls, on a state of type `δ`. The numbers
are those of a vault, a bank, a row and a column, and a time in nanoseconds. -/
structure DramModel (δ : Type) where
  tickOnce : δ → δ
  getReadLatency : δ → ℕ → ℕ → ℕ → ℕ → ℕ → ℕ × δ
  getWriteLatency : δ → ℕ → ℕ → ℕ → ℕ → ℕ → ℕ × δ
  setBankRef : δ → ℕ → ℕ → Bool → δ

/-- A simulator without a state, which answers after ten cycles. -/
def DramModel.tenCycles : DramModel Unit where
  tickOnce s := s
  getReadLatency s _ _ _ _ _ := (10, s)
  getWriteLatency s _ _ _ _ _ := (10, s)
  setBankRef s _ _ _ := s

/-- What the controller and its performance model read from the configuration file. -/
structure CntlrConfig (T : Type) extends StackConfig T where
  /-- `perf_model/remap_config/remap`. -/
  enableRemap : Bool
  /-- `perf_model/thermal/bank_level_refresh`. -/
  bankLevelRefresh : Bool
  /-- `perf_model/stacked_dram/max_block`, in bytes. -/
  maxBlock : ℕ
  /-- `perf_model/stacked_dram/bandwidth`, in bytes. -/
  bandwidth : ℕ
  /-- `perf_model/stacked_dram/obus_delay`, in nanoseconds. -/
  obusDelay : ℕ
  /-- `perf_model/stacked_dram/on_top`. -/
  onTop : Bool
  /-- `perf_model/stacked_dram/disabled`. -/
  dramDisabled : Bool
  /-- `perf_model/dram/avg_queue_latency`, in nanoseconds. -/
  avgQueueLatency : ℕ
  /-- `m_set_num`, the number of sets. -/
  setNum : ℕ

namespace CntlrConfig

variable {T : Type}

/-- A geometry whose set numbers are as many as the sets the controller uses: it takes the home set
of a page from the lowest bits of the tag, as many as fit below the number of sets. -/
structure Sized (cfg : CntlrConfig T) (x y z : ℕ) : Prop where
  geometry : cfg.Geometry x y z
  setNum_pos : 0 < cfg.setNum
  log_setNum : Nat.log 2 cfg.setNum = x + y + z

/-- Such a geometry with a known address map. -/
structure WellFormed (cfg : CntlrConfig T) (x y z : ℕ) : Prop extends Sized cfg x y z where
  addrMap : cfg.addrMap = 1 ∨ cfg.addrMap = 2 ∨ cfg.addrMap = 3

theorem WellFormed.layout {cfg : CntlrConfig T} {x y z : ℕ} (h : cfg.WellFormed x y z) :
    cfg.Layout x y z :=
  ⟨h.geometry, h.addrMap⟩

/-- Powers of two everywhere, and one set for each row. -/
theorem WellFormed.of_two_pow {cfg : CntlrConfig T} {x y z : ℕ} (hv : cfg.nVaults = 2 ^ x)
    (hb : cfg.nBanks = 2 ^ y) (hr : cfg.nRows = 2 ^ z) (hsets : cfg.setNum = 2 ^ (x + y + z))
    (hbits : x + y + z ≤ 31) (hmap : cfg.addrMap = 1 ∨ cfg.addrMap = 2 ∨ cfg.addrMap = 3) :
    cfg.WellFormed x y z where
  geometry := (StackConfig.Layout.of_two_pow hv hb hr hbits hmap).toGeometry
  setNum_pos := hsets ▸ Nat.two_pow_pos _
  log_setNum := by rw [hsets, Nat.log_pow (by decide)]
  addrMap := hmap

theorem log_mul_two_pow {n : ℕ} (hn : n ≠ 0) (k : ℕ) :
    Nat.log 2 (n * 2 ^ k) = Nat.log 2 n + k := by
  induction k with
  | zero => simp
  | succ k ih =>
    have hne : n * 2 ^ k ≠ 0 := Nat.mul_ne_zero hn (Nat.two_pow_pos k).ne'
    rw [pow_succ, ← Nat.mul_assoc, Nat.log_mul_base (by decide) hne, ih]
    omega

/-- The geometry that the constructors derive from `perf_model/dram_cache/cache_size`, in MB. -/
structure FromCacheSize (cfg : CntlrConfig T) (size : ℕ) : Prop where
  nVaults : cfg.nVaults = 32
  vaultSize : cfg.vaultSize = size * 1024 / 32
  bankSize : cfg.bankSize = cfg.vaultSize / 8
  rowSize : cfg.rowSize = 8
  setNum : cfg.setNum = size * 1024 / 8

/-- From 2 MB on, and as long as the size in KB fits in 32 bits, the constructors derive a
geometry with the right number of sets. -/
theorem FromCacheSize.sized {cfg : CntlrConfig T} {size : ℕ} (h : cfg.FromCacheSize size)
    (hsize : 2 ≤ size) (hword : size * 1024 < 2 ^ 32) : cfg.Sized 5 3 (Nat.log 2 (size / 2)) := by
  -- 8 banks to a vault whatever the size is, and half as many rows to a bank as megabytes
  have hvault : cfg.vaultSize = size * 32 := by
    rw [h.vaultSize]
    omega
  have hbank : cfg.bankSize = size * 4 := by
    rw [h.bankSize, hvault]
    omega
  have hbanks : cfg.nBanks = 8 := by
    rw [StackConfig.nBanks, hvault, hbank, Nat.mul_div_mul_left _ _ (by omega)]
  have hrows : cfg.nRows = size / 2 := by
    rw [StackConfig.nRows, hbank, h.rowSize]
    omega
  have hsets : cfg.setNum = size * 2 ^ 7 := by
    rw [h.setNum]
    omega
  -- up to rounding, there is a set for each row of each of the 32 * 8 banks
  have hlog : Nat.log 2 (size / 2) + 1 = Nat.log 2 size := by
    rw [Nat.log_div_base]
    have := Nat.log_pos (by decide : 1 < 2) hsize
    omega
  have hlog_lt : Nat.log 2 size < 22 := Nat.log_lt_of_lt_pow (by omega) (by omega)
  refine ⟨⟨h.nVaults, hbanks, by omega, by rw [hrows], by omega⟩, by omega, ?_⟩
  rw [hsets, log_mul_two_pow (by omega)]
  omega

/-- A cache of 2 MB, otherwise as in `config/gainestown_cache.cfg`. -/
def twoMegabytes : CntlrConfig ℕ where
  nVaults := 32
  vaultSize := 64
  bankSize := 8
  rowSize := 8
  addrMap := 3
  nRemap := 1
  interVault := false
  highThres := 85
  remapThres := 83
  zeroTemp := 0
  maxTemp := 1000
  enableRemap := true
  bankLevelRefresh := true
  maxBlock := 256
  bandwidth := 256
  obusDelay := 0
  onTop := true
  dramDisabled := false
  avgQueueLatency := 0
  setNum := 256

theorem twoMegabytes_wellFormed : twoMegabytes.WellFormed 5 3 0 := by
  have hsize : twoMegabytes.FromCacheSize 2 := ⟨rfl, rfl, rfl, rfl, rfl⟩
  exact ⟨hsize.sized le_rfl (by decide), Or.inr (Or.inr rfl)⟩

/-- A controller for the small stack, with eight sets. -/
def small : CntlrConfig ℕ where
  toStackConfig := .small
  enableRemap := true
  bankLevelRefresh := true
  maxBlock := 256
  bandwidth := 256
  obusDelay := 0
  onTop := true
  dramDisabled := false
  avgQueueLatency := 0
  setNum := 8

theorem small_wellFormed : small.WellFormed 1 1 1 :=
  .of_two_pow rfl rfl rfl rfl (by decide) (Or.inr (Or.inl rfl))

section Sized

variable {P : Platform} {cfg : CntlrConfig T} {x y z : ℕ} (h : cfg.Sized x y z)

include h

theorem Sized.floorLog2_setNum : P.floorLog2 cfg.setNum = x + y + z :=
  (P.floorLog2_spec _ h.setNum_pos).trans h.log_setNum

theorem Sized.two_pow_le_setNum : 2 ^ (x + y + z) ≤ cfg.setNum := by
  rw [← h.log_setNum]
  exact Nat.pow_log_le_self 2 (Nat.ne_zero_of_lt h.setNum_pos)

end Sized

end CntlrConfig

/-- `StackedDramPerfUnison`, with what it has printed. -/
structure StackedDramPerfUnison (T δ : Type) where
  manager : RemappingManager T
  /-- The temperatures have changed since the controller last looked at the banks. -/
  remapped : Bool
  /-- The program has entered its region of interest. -/
  enterRoi : Bool
  dramModel : δ
  /-- `stats.hot` of the banks, by vault and bank. -/
  hot : ℕ → ℕ → Bool
  totReads : BitVec 32
  totWrites : BitVec 32
  totMisses : BitVec 32
  lastReq : ℕ
  printed : List Message

namespace StackedDramPerfUnison

variable {T δ : Type}

/-- The constructor of `StackedDramPerfUnison`. -/
def new (cfg : CntlrConfig T) (dramModel : δ) : StackedDramPerfUnison T δ where
  manager := RemappingManager.new cfg.remap
  remapped := false
  enterRoi := false
  dramModel := dramModel
  hot _ _ := false
  totReads := 0
  totWrites := 0
  totMisses := 0
  lastReq := 0
  printed := []

/-- Write messages to the standard output. -/
def print (pm : StackedDramPerfUnison T δ) (msgs : List Message) : StackedDramPerfUnison T δ :=
  { pm with printed := pm.printed ++ msgs }

/-- `StackedDramPerfUnison::checkRowValid`. -/
def checkRowValid (cfg : CntlrConfig T) (pm : StackedDramPerfUnison T δ) (v b : ℕ) : Bool :=
  pm.manager.checkValid cfg.remap v b

/-- `StackedDramPerfUnison::checkRowMigrated`. -/
def checkRowMigrated (cfg : CntlrConfig T) (pm : StackedDramPerfUnison T δ) (v b r : ℕ) : Bool :=
  pm.manager.checkMigrated cfg.remap v b r

/-- `StackedDramPerfUnison::checkSetDisabled`, and what is printed. -/
def checkSetDisabled (P : Platform) (cfg : CntlrConfig T) (pm : StackedDramPerfUnison T δ)
    (s : ℕ) : Bool × List Message :=
  let ((v, b, _), printed) := cfg.splitSetNum P s
  (pm.manager.checkDisabled cfg.remap v b, printed)

/-- One request to the simulator, with the number of cycles it takes. -/
def issue (M : DramModel δ) (accessType : AccessType) (v b r now : ℕ) (d : δ) : ℕ × δ :=
  match accessType with
  | .read => M.getReadLatency (M.tickOnce d) v b r 0 now
  | .write => M.getWriteLatency (M.tickOnce d) v b r 0 now
  -- neither a read nor a write: two ticks and no access to a bank
  | .other => (2, M.tickOnce (M.tickOnce d))

variable [LinearOrder T]

/-- `StackedDramPerfUnison::getAccessLatency`. `nsOfClks` converts cycles into nanoseconds. -/
def getAccessLatency (P : Platform) (M : DramModel δ) (cfg : CntlrConfig T) (nsOfClks : ℕ → ℕ)
    (pm : StackedDramPerfUnison T δ) (pktTime pktSize s : ℕ) (accessType : AccessType) :
    StackedDramPerfUnison T δ × ℕ :=
  let reqTimes := if pktSize / cfg.maxBlock < 1 then 1 else pktSize / cfg.maxBlock
  let ((v, b, r), split) := cfg.splitSetNum P s
  -- the parts are put together again only to check them
  let (ss, check) := cfg.getSetNum P v b r
  let problem := if ss ≠ s then [.setNumber] else []
  -- the simulator gets the physical bank; the row access is counted for the bank of the set
  let (v', b', r') := pm.manager.getPhysicalIndex cfg.remap v b
  let (dramModel, latency) := (List.range reqTimes).foldl
    (fun acc _ =>
      let (clks, d) := issue M accessType v' b' r' (P.getNS pktTime) acc.1
      (d, acc.2 + P.ofNS (nsOfClks clks))) (pm.dramModel, 0)
  ({ pm with
      manager := pm.manager.accessRow cfg.remap pm.remapped v b r
      dramModel
      totReads := if accessType = .read then pm.totReads + 1 else pm.totReads
      totWrites := if accessType = .read then pm.totWrites else pm.totWrites + 1
      lastReq := if pm.lastReq < pktTime then pktTime else pm.lastReq
      printed := pm.printed ++ split ++ check ++ problem }, latency)

/-- `StackedDramPerfUnison::tryRemapping`. -/
def tryRemapping (cfg : CntlrConfig T) (pm : StackedDramPerfUnison T δ) :
    StackedDramPerfUnison T δ :=
  if pm.remapped ∧ cfg.enableRemap then { pm with manager := pm.manager.runMechanism cfg.remap }
  else pm

/-- `StackedDramPerfUnison::clearRemappingStat`. -/
def clearRemappingStat (cfg : CntlrConfig T) (pm : StackedDramPerfUnison T δ) :
    StackedDramPerfUnison T δ :=
  { pm with manager := pm.manager.resetStats cfg.remap false }

/-- `StackedDramPerfUnison::updateTemperature`; `inROI` is the answer of the magic server. -/
def updateTemperature (M : DramModel δ) (cfg : CntlrConfig T) (pm : StackedDramPerfUnison T δ)
    (v b : ℕ) (temperature : T) (inROI : Bool) : StackedDramPerfUnison T δ :=
  let isHot := decide (cfg.highThres ≤ temperature)
  { pm with
    -- once entered, the region is never left
    enterRoi := if inROI then true else pm.enterRoi
    manager := pm.manager.updateTemperature cfg.remap v b temperature
    remapped := true
    hot := Function.update pm.hot v (Function.update (pm.hot v) b isHot)
    dramModel := if cfg.bankLevelRefresh then M.setBankRef pm.dramModel v b isHot
      else pm.dramModel }

/-! ## What accesses leave alone -/

/-- Nothing that decides where requests go has changed. -/
structure Undisturbed (pm pm' : StackedDramPerfUnison T δ) : Prop where
  mapping : ∀ c, (pm'.manager.bankStat c).toBankMapping = (pm.manager.bankStat c).toBankMapping
  temperature : ∀ c,
    (pm'.manager.phyBanks c).temperature = (pm.manager.phyBanks c).temperature
  logicalBank : ∀ c,
    (pm'.manager.phyBanks c).logicalBank = (pm.manager.phyBanks c).logicalBank
  remapped : pm'.remapped = pm.remapped
  enterRoi : pm'.enterRoi = pm.enterRoi

variable {pm pm' pm'' : StackedDramPerfUnison T δ} {cfg : CntlrConfig T}

omit [LinearOrder T] in
theorem Undisturbed.refl (pm : StackedDramPerfUnison T δ) : pm.Undisturbed pm :=
  ⟨fun _ => rfl, fun _ => rfl, fun _ => rfl, rfl, rfl⟩

omit [LinearOrder T] in
theorem Undisturbed.trans (h : pm.Undisturbed pm') (h' : pm'.Undisturbed pm'') :
    pm.Undisturbed pm'' where
  mapping c := (h'.mapping c).trans (h.mapping c)
  temperature c := (h'.temperature c).trans (h.temperature c)
  logicalBank c := (h'.logicalBank c).trans (h.logicalBank c)
  remapped := h'.remapped.trans h.remapped
  enterRoi := h'.enterRoi.trans h.enterRoi

omit [LinearOrder T] in
theorem Undisturbed.logicalId (h : pm.Undisturbed pm') (c : ℕ) :
    (pm'.manager.bankStat c).logicalId = (pm.manager.bankStat c).logicalId :=
  congrArg (·.logicalId) (h.mapping c)

omit [LinearOrder T] in
theorem Undisturbed.disabled (h : pm.Undisturbed pm') (c : ℕ) :
    (pm'.manager.bankStat c).disabled = (pm.manager.bankStat c).disabled :=
  congrArg (·.disabled) (h.mapping c)

omit [LinearOrder T] in
theorem Undisturbed.valid (h : pm.Undisturbed pm') (c : ℕ) :
    (pm'.manager.bankStat c).valid = (pm.manager.bankStat c).valid :=
  congrArg (·.valid) (h.mapping c)

omit [LinearOrder T] in
theorem Undisturbed.sameRouting (h : pm.Undisturbed pm') : pm.manager.SameRouting pm'.manager :=
  ⟨h.logicalId, h.disabled, h.temperature⟩

omit [LinearOrder T] in
theorem Undisturbed.consistent (h : pm.Undisturbed pm')
    (hcons : pm.manager.Consistent cfg.remap) : pm'.manager.Consistent cfg.remap :=
  hcons.of_represents fun _ hp =>
    hp.congr (fun c => congrArg (·.physicalId) (h.mapping c)) h.logicalId
      (fun c => congrArg (·.remapId) (h.mapping c))
      (fun c => congrArg (·.combined) (h.mapping c))
      (fun c => by rw [h.disabled, h.disabled, hp.disabled]) h.logicalBank

omit [LinearOrder T] in
theorem undisturbed_print (pm : StackedDramPerfUnison T δ) (msgs : List Message) :
    pm.Undisturbed (pm.print msgs) := ⟨fun _ => rfl, fun _ => rfl, fun _ => rfl, rfl, rfl⟩

/-- An access to a set leaves the routing of requests alone. -/
theorem undisturbed_getAccessLatency (P : Platform) (M : DramModel δ) (cfg : CntlrConfig T)
    (nsOfClks : ℕ → ℕ) (pm : StackedDramPerfUnison T δ) (pktTime pktSize s : ℕ)
    (accessType : AccessType) :
    pm.Undisturbed (pm.getAccessLatency P M cfg nsOfClks pktTime pktSize s accessType).1 where
  mapping := RemappingManager.accessRow_toBankMapping _ _ _ _ _
  temperature := RemappingManager.accessRow_temperature _ _ _ _ _
  logicalBank c := by
    -- only the access counters of the physical bank are written
    simp only [getAccessLatency, RemappingManager.accessRow,
      RemappingManager.updBank_phyBanks, RemappingManager.updPhy_phyBanks]
    split_ifs with hc <;> first | rfl | rw [hc]
  remapped := rfl
  enterRoi := rfl

end StackedDramPerfUnison

end StackedDram
