import StackedDram.Library.Metering
import StackedDram.RunTotals

/-!
# The power of the stack

`StatsManager::updatePower` takes the difference of the statistics of every bank to those that it
has kept from its last call, makes rates from it, and hands them to `computeBankPower`. The counters
are metered (`isMeter_counter`): the differences of a run add up to the growth of the counter.

Voltages, currents and powers are exact.
-/

namespace StackedDram

/-! ## The snapshots -/

/-- `BankPerfModel::stats`. -/
structure BankStats extends BankStatEntry where
  hot : Bool

/-- The 32-bit counters of a bank of which `updatePower` takes differences. -/
inductive BankCounter
  | reads | writes | rowHits | rowConflicts | rowMisses

namespace BankStats

/-- The value of a counter. -/
def counter (bank : BankStats) : BankCounter → BitVec 32
  | .reads => bank.reads
  | .writes => bank.writes
  | .rowHits => bank.rowHits
  | .rowConflicts => bank.rowConflicts
  | .rowMisses => bank.rowMisses

/-- `bank_stats_interval[i][j]` for the kept statistics `prev`. -/
def interval (bank prev : BankStats) : BankStats where
  tACT := bank.tACT - prev.tACT
  tPRE := bank.tPRE - prev.tPRE
  tRD := 0
  tWR := 0
  reads := bank.reads - prev.reads
  writes := bank.writes - prev.writes
  rowHits := bank.rowHits - prev.rowHits
  rowConflicts := bank.rowConflicts - prev.rowConflicts
  rowMisses := bank.rowMisses - prev.rowMisses
  hot := prev.hot

@[simp]
theorem counter_interval (bank prev : BankStats) (k : BankCounter) :
    (bank.interval prev).counter k = bank.counter k - prev.counter k := by
  cases k <;> rfl

/-- No counter and no time of which a difference is taken has gone down. -/
structure Grows (prev cur : BankStats) : Prop where
  tACT : prev.tACT ≤ cur.tACT
  tPRE : prev.tPRE ≤ cur.tPRE
  counter : ∀ k, prev.counter k ≤ cur.counter k

/-- The statistics of a bank without accesses. -/
def zero : BankStats := ⟨⟨0, 0, 0, 0, 0#32, 0#32, 0#32, 0#32, 0#32⟩, false⟩

theorem zero_grows (bank : BankStats) : zero.Grows bank where
  tACT := Nat.zero_le _
  tPRE := Nat.zero_le _
  counter k := by
    cases k <;> exact BitVec.le_def.mpr (Nat.zero_le _)

/-- What a counter has counted between two snapshots. -/
def count (prev cur : BankStats) (k : BankCounter) : ℕ :=
  (cur.counter k).toNat - (prev.counter k).toNat

theorem count_lt (prev cur : BankStats) (k : BankCounter) : count prev cur k < 2 ^ 32 :=
  (Nat.sub_le _ _).trans_lt (cur.counter k).isLt

/-- The subtraction of 32-bit numbers is exact. -/
theorem Grows.toNat_counter_interval {prev cur : BankStats} (h : prev.Grows cur) (k : BankCounter) :
    ((cur.interval prev).counter k).toNat = count prev cur k := by
  rw [counter_interval, BitVec.toNat_sub_of_le (h.counter k), count]

end BankStats

/-- What `updatePower` reads. -/
structure PowerCall where
  /-- `m_record_interval`. -/
  recordInterval : ℕ
  /-- `power_mc`, from the metric of the memory controller. -/
  powerMc : ℚ
  vaultStats : ℕ → VaultStatEntry
  bankStats : ℕ × ℕ → BankStats

/-- The sizes the loops run over, and the units of the times. -/
structure PowerConfig extends TimeUnits where
  /-- `n_vaults`. -/
  nVaults : ℕ
  /-- `n_banks` of each vault. -/
  nBanks : ℕ → ℕ

/-- The banks in the order in which the loops visit them. -/
def PowerConfig.banks (P : PowerConfig) : List (ℕ × ℕ) :=
  (List.range P.nVaults).flatMap fun i => (List.range (P.nBanks i)).map (Prod.mk i)

/-! ## The power of a bank -/

/-- `DramTable`, without the entries that `computeBankPower` does not use. -/
structure DramTable where
  freq : ℚ
  Vdd : ℚ
  Idd2P : ℚ
  Idd2N : ℚ
  Idd3P : ℚ
  Idd3N : ℚ
  Idd5 : ℚ
  Idd4W : ℚ
  Idd4R : ℚ
  Idd0 : ℚ
  RFCMin : ℚ
  REFI : ℚ
  tRAS : ℚ
  tRC : ℚ
  burstLen : ℚ

/-- `dram_table`. -/
def dramTable : DramTable where
  freq := 500
  Vdd := 3 / 2
  Idd2P := 20
  Idd2N := 40
  Idd3P := 45
  Idd3N := 42
  Idd5 := 200
  Idd4W := 160
  Idd4R := 200
  Idd0 := 70
  RFCMin := 340
  REFI := 7800
  tRAS := 75 / 2
  tRC := 105 / 2
  burstLen := 8

/-- The arguments of `computeBankPower`. -/
structure BankPowerArgs where
  bnkPre : ℚ
  ckeLoPre : ℚ
  pageHit : ℚ
  wrSch : ℚ
  rdSch : ℚ
  hot : Bool
  vddUse : ℚ

namespace DramTable

/-- `tRRDsch` of `computeBankPower`. -/
def tRRDsch (t : DramTable) (a : BankPowerArgs) : ℚ :=
  let rdWrPre := a.wrSch + a.rdSch
  let revPageHit := 1 - a.pageHit
  let tRRDsch :=
    if rdWrPre ≠ 0 ∧ revPageHit ≠ 0 then t.burstLen / 2 / (a.wrSch + a.rdSch) / (1 - a.pageHit)
    else t.tRC
  tRRDsch * 1000 / t.freq

/-- `pds_act`, the power of an activation. -/
def pdsAct (t : DramTable) : ℚ :=
  (t.Idd0 - (t.Idd3N * t.tRAS + t.Idd2N * (t.tRC - t.tRAS)) / t.tRC) * t.Vdd

/-- `StatsManager::computeBankPower`. -/
def computeBankPower (t : DramTable) (a : BankPowerArgs) : ℚ :=
  let pschPrePdn := t.Idd2P * t.Vdd * a.bnkPre * a.ckeLoPre
  let pschPreStby := t.Idd2N * t.Vdd * a.bnkPre * (1 - a.ckeLoPre)
  let pschActPdn := t.Idd3P * t.Vdd * (1 - a.bnkPre) * a.ckeLoPre
  let pschActStby := t.Idd3N * t.Vdd * (1 - a.bnkPre) * (1 - a.ckeLoPre)
  let pschAct := t.pdsAct * t.tRC / t.tRRDsch a
  let pschWR := (t.Idd4W - t.Idd3N) * t.Vdd * a.wrSch
  let pschRD := (t.Idd4R - t.Idd3N) * t.Vdd * a.rdSch
  let pschREF := (t.Idd5 - t.Idd3N) * t.Vdd * t.RFCMin / t.REFI
  let pschREF := if a.hot then pschREF * 2 else pschREF
  let psys := pschPrePdn + pschPreStby + pschActPdn + pschActStby + pschAct + pschWR + pschRD +
    pschREF
  psys * (a.vddUse / t.Vdd) * (a.vddUse / t.Vdd) / 1000

end DramTable

/-- `bnk_pre` of `updatePower`, from `tmp->tACT` and `tot_time`. -/
def bnkPre (U : TimeUnits) (tACT totTime : ℕ) : ℚ :=
  if U.getNS totTime ≠ 0 then
    let bnkPre : ℚ := 1 - (U.getNS tACT : ℚ) / U.getNS totTime
    if bnkPre < 0 then 0 else bnkPre
  else 0

/-- What `updatePower` passes to `computeBankPower` for the statistics `tmp` of an interval. -/
def bankPowerArgs (U : TimeUnits) (totTime : ℕ) (tmp : BankStats) : BankPowerArgs :=
  let pageHitRate : ℚ :=
    if 0 < tmp.rowHits + tmp.rowMisses + tmp.rowConflicts then
      -- a quotient of `UInt32`
      ((tmp.rowHits / (tmp.rowHits + tmp.rowMisses + tmp.rowConflicts)).toNat : ℚ)
    else 0
  let bnkPre := bnkPre U tmp.tACT totTime
  let sch : ℚ × ℚ :=
    if 0 < tmp.reads + tmp.writes then
      ((tmp.writes.toNat : ℚ) / (tmp.reads + tmp.writes).toNat * (1 - bnkPre),
        (tmp.reads.toNat : ℚ) / (tmp.reads + tmp.writes).toNat * (1 - bnkPre))
    else (0, 0)
  { bnkPre
    ckeLoPre := 3 / 10
    pageHit := pageHitRate
    wrSch := sch.1
    rdSch := sch.2
    hot := tmp.hot
    vddUse := 3 / 2 }

/-- `StatsManager::computeDramCntlrPower`. The power `raw_power`, which depends on the length of the
interval, is not returned. -/
def computeDramCntlrPower (reads writes totAccess : BitVec 32) (powerMc : ℚ) : ℚ :=
  let ratio : ℚ := if totAccess ≠ 0 then ((reads + writes).toNat : ℚ) / totAccess.toNat else 0
  let ratio := if 1 < ratio then 1 else ratio
  powerMc * ratio

/-! ## `updatePower` -/

/-- What `StatsManager` keeps for each bank. -/
structure BankPowers where
  bankStats : ℕ × ℕ → BankStats
  bankStatsInterval : ℕ × ℕ → BankStats
  bankPower : ℕ × ℕ → ℚ
  /-- The calls of `computeBankPower` by the last call of `updatePower`. -/
  computed : List ((ℕ × ℕ) × BankPowerArgs)

/-- What `StatsManager` keeps for each vault, with the local variables of the last call. -/
structure VaultPowers where
  vaultReads : ℕ → BitVec 64
  vaultWrites : ℕ → BitVec 64
  vaultRowHits : ℕ → BitVec 64
  vaultAccess : ℕ → BitVec 32
  vaultPower : ℕ → ℚ
  /-- `v_r`. -/
  vR : ℕ → BitVec 32
  /-- `v_w`. -/
  vW : ℕ → BitVec 32
  totAccess : BitVec 32

/-- The part of `StatsManager` that `updatePower` works on. -/
structure DramPowers where
  banks : BankPowers
  vaults : VaultPowers

/-- `StatsManager::updateBankStat`. -/
def BankPowers.updateBankStat (s : BankPowers) (ij : ℕ × ℕ) (bank : BankStats) : BankPowers :=
  { s with bankStats := Function.update s.bankStats ij bank }

/-- The body of the loop over the banks. -/
def BankPowers.updateBank (U : TimeUnits) (c : PowerCall) (s : BankPowers) (ij : ℕ × ℕ) :
    BankPowers :=
  let bank := c.bankStats ij
  let tmp := bank.interval (s.bankStats ij)
  let s := { s with bankStatsInterval := Function.update s.bankStatsInterval ij tmp }
  let s := s.updateBankStat ij bank
  let args := bankPowerArgs U c.recordInterval tmp
  { s with
    bankPower := Function.update s.bankPower ij (dramTable.computeBankPower args)
    computed := s.computed ++ [(ij, args)] }

/-- The statements about vault `i` itself. -/
def VaultPowers.updateVault (c : PowerCall) (s : VaultPowers) (i : ℕ) : VaultPowers :=
  let vault := c.vaultStats i
  -- the difference has 64 bits, and `tot_reads` and `tot_writes` have 32
  let totReads : BitVec 32 := (vault.reads.setWidth 64 - s.vaultReads i).setWidth 32
  let totWrites : BitVec 32 := (vault.writes.setWidth 64 - s.vaultWrites i).setWidth 32
  { s with
    vR := Function.update s.vR i totReads
    vW := Function.update s.vW i totWrites
    vaultReads := Function.update s.vaultReads i (vault.reads.setWidth 64)
    vaultWrites := Function.update s.vaultWrites i (vault.writes.setWidth 64)
    vaultRowHits := Function.update s.vaultRowHits i (vault.rowHits.setWidth 64)
    vaultAccess := Function.update s.vaultAccess i (totReads + totWrites)
    totAccess := s.totAccess + (totReads + totWrites) }

/-- The loop over the vaults after that. -/
def VaultPowers.setVaultPower (c : PowerCall) (s : VaultPowers) (i : ℕ) : VaultPowers :=
  { s with
    vaultPower := Function.update s.vaultPower i
      (computeDramCntlrPower (s.vR i) (s.vW i) s.totAccess c.powerMc) }

namespace DramPowers

/-- `StatsManager::init`. Of the statistics of the banks it sets only some, and the others are as
they are in `memory`; what it does not set of the vaults is written before it is read. -/
def init (memory : ℕ × ℕ → BankStats) : DramPowers where
  banks :=
    { bankStats ij :=
        { memory ij with
          tACT := 0, tPRE := 0, tRD := 0, tWR := 0, reads := 0, writes := 0, rowHits := 0 }
      bankStatsInterval := memory
      bankPower _ := 0
      computed := [] }
  vaults :=
    { vaultReads _ := 0
      vaultWrites _ := 0
      vaultRowHits _ := 0
      vaultAccess _ := 0
      vaultPower _ := 0
      vR _ := 0
      vW _ := 0
      totAccess := 0 }

/-- The body of the loop over the vaults. -/
def updateVault (P : PowerConfig) (c : PowerCall) (s : DramPowers) (i : ℕ) : DramPowers where
  banks := (List.range (P.nBanks i)).foldl (fun b j => b.updateBank P.toTimeUnits c (i, j)) s.banks
  vaults := s.vaults.updateVault c i

/-- `StatsManager::updatePower`, as far as the stack is concerned. -/
def updatePower (P : PowerConfig) (s : DramPowers) (c : PowerCall) : DramPowers :=
  let s : DramPowers :=
    { banks := { s.banks with computed := [] }
      vaults := { s.vaults with totAccess := 0#32 } }
  let s := (List.range P.nVaults).foldl (updateVault P c) s
  { s with vaults := (List.range P.nVaults).foldl (VaultPowers.setVaultPower c) s.vaults }

/-- The calls of `updatePower`, from any statistics that are kept. -/
def powerMachine (P : PowerConfig) (s : DramPowers) : Machine DramPowers PowerCall where
  init := s
  step := updatePower P

end DramPowers

/-! ## The loop over the banks -/

theorem PowerConfig.mem_banks {P : PowerConfig} {ij : ℕ × ℕ} :
    ij ∈ P.banks ↔ ij.1 < P.nVaults ∧ ij.2 < P.nBanks ij.1 := by
  obtain ⟨i, j⟩ := ij
  simp [PowerConfig.banks]

theorem PowerConfig.nodup_banks (P : PowerConfig) : P.banks.Nodup := by
  refine List.nodup_flatMap.mpr ⟨fun i _ => ?_, ?_⟩
  · exact List.nodup_range.map (Prod.mk_right_injective i)
  · refine List.nodup_range.imp fun {i i'} hne => ?_
    simp only [Function.onFun, List.disjoint_left, List.mem_map]
    rintro _ ⟨j, -, rfl⟩ ⟨j', -, h⟩
    exact hne (congrArg Prod.fst h).symm

namespace BankPowers

variable {U : TimeUnits} {c : PowerCall} {s : BankPowers} {l : List (ℕ × ℕ)}

/-- A loop over distinct banks: the statistics of each are replaced once, and `computeBankPower` is
called with what has been kept from before the loop. -/
theorem foldl_updateBank (hl : l.Nodup) :
    (∀ ij, (l.foldl (updateBank U c) s).bankStats ij =
      if ij ∈ l then c.bankStats ij else s.bankStats ij) ∧
    (∀ ij, (l.foldl (updateBank U c) s).bankStatsInterval ij =
      if ij ∈ l then (c.bankStats ij).interval (s.bankStats ij) else s.bankStatsInterval ij) ∧
    (∀ ij, (l.foldl (updateBank U c) s).bankPower ij =
      if ij ∈ l then dramTable.computeBankPower
        (bankPowerArgs U c.recordInterval ((c.bankStats ij).interval (s.bankStats ij)))
      else s.bankPower ij) ∧
    (l.foldl (updateBank U c) s).computed = s.computed ++ l.map fun ij =>
      (ij, bankPowerArgs U c.recordInterval ((c.bankStats ij).interval (s.bankStats ij))) := by
  induction l using List.reverseRecOn with
  | nil => simp
  | append_singleton l x ih =>
    obtain ⟨hlnodup, -, hx⟩ := List.nodup_append.mp hl
    have hnotin : x ∉ l := fun hmem => hx x hmem x (List.mem_singleton_self x) rfl
    obtain ⟨hstats, hinterval, hpower, hcomputed⟩ := ih hlnodup
    -- the loop has not come to `x` before
    have hprev : (l.foldl (updateBank U c) s).bankStats x = s.bankStats x := by
      rw [hstats, if_neg hnotin]
    rw [List.foldl_append, List.foldl_cons, List.foldl_nil]
    refine ⟨fun ij => ?_, fun ij => ?_, fun ij => ?_, ?_⟩
    · rcases eq_or_ne ij x with rfl | hne
      · simp [updateBank, updateBankStat]
      · simp [updateBank, updateBankStat, hne, hstats]
    · rcases eq_or_ne ij x with rfl | hne
      · simp [updateBank, updateBankStat, hprev]
      · simp [updateBank, updateBankStat, hne, hinterval]
    · rcases eq_or_ne ij x with rfl | hne
      · simp [updateBank, updateBankStat, hprev]
      · simp [updateBank, updateBankStat, hne, hpower]
    · simp [updateBank, updateBankStat, hprev, hcomputed]

end BankPowers

namespace DramPowers

variable {P : PowerConfig} {c : PowerCall} {s : DramPowers} {ij : ℕ × ℕ}

theorem banks_foldl_updateVault (n : ℕ) (s : DramPowers) :
    ((List.range n).foldl (updateVault P c) s).banks =
      ((List.range n).flatMap fun i => (List.range (P.nBanks i)).map (Prod.mk i)).foldl
        (BankPowers.updateBank P.toTimeUnits c) s.banks := by
  induction n with
  | zero => rfl
  | succ n ih =>
    rw [List.range_succ, List.foldl_append, List.flatMap_append, List.foldl_append, ← ih]
    simp [updateVault, List.foldl_map]

/-- The loops visit the banks one after the other. -/
theorem banks_updatePower (P : PowerConfig) (s : DramPowers) (c : PowerCall) :
    (s.updatePower P c).banks =
      P.banks.foldl (BankPowers.updateBank P.toTimeUnits c) { s.banks with computed := [] } := by
  simp only [updatePower, banks_foldl_updateVault]
  rfl

theorem bankStats_updatePower (hij : ij ∈ P.banks) :
    (s.updatePower P c).banks.bankStats ij = c.bankStats ij := by
  rw [banks_updatePower, (BankPowers.foldl_updateBank P.nodup_banks).1, if_pos hij]

theorem bankStatsInterval_updatePower (hij : ij ∈ P.banks) :
    (s.updatePower P c).banks.bankStatsInterval ij =
      (c.bankStats ij).interval (s.banks.bankStats ij) := by
  rw [banks_updatePower, (BankPowers.foldl_updateBank P.nodup_banks).2.1, if_pos hij]

theorem bankPower_updatePower (hij : ij ∈ P.banks) :
    (s.updatePower P c).banks.bankPower ij = dramTable.computeBankPower
      (bankPowerArgs P.toTimeUnits c.recordInterval
        ((c.bankStats ij).interval (s.banks.bankStats ij))) := by
  rw [banks_updatePower, (BankPowers.foldl_updateBank P.nodup_banks).2.2.1, if_pos hij]

theorem computed_updatePower (P : PowerConfig) (s : DramPowers) (c : PowerCall) :
    (s.updatePower P c).banks.computed = P.banks.map fun ij => (ij,
      bankPowerArgs P.toTimeUnits c.recordInterval
        ((c.bankStats ij).interval (s.banks.bankStats ij))) := by
  rw [banks_updatePower, (BankPowers.foldl_updateBank P.nodup_banks).2.2.2, List.nil_append]

/-- Every counter of every bank is metered: the difference is the one to the last call. -/
theorem isMeter_counter (s : DramPowers) (hij : ij ∈ P.banks) (k : BankCounter) :
    (powerMachine P s).IsMeter (fun s => (s.banks.bankStats ij).counter k)
      (fun s => (s.banks.bankStatsInterval ij).counter k)
      (fun c => (c.bankStats ij).counter k) where
  kept_step _ _ := congrArg (fun b => BankStats.counter b k) (bankStats_updatePower hij)
  diff_step s c := by
    have h := bankStatsInterval_updatePower (s := s) (c := c) hij
    exact (congrArg (fun b => BankStats.counter b k) h).trans (BankStats.counter_interval _ _ k)

/-- Over a whole run no access to a bank is counted twice and none is lost. -/
theorem sum_interval (s : DramPowers) (hij : ij ∈ P.banks) (k : BankCounter)
    (calls : List PowerCall) :
    (((powerMachine P s).statesFrom s calls).map fun s =>
        (s.banks.bankStatsInterval ij).counter k).sum =
      (((powerMachine P s).run calls).banks.bankStats ij).counter k -
        (s.banks.bankStats ij).counter k :=
  (isMeter_counter s hij k).sum_diff s calls

end DramPowers

end StackedDram
