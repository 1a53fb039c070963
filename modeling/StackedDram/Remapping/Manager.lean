import Mathlib.Logic.Function.Basic
import Mathlib.Order.Defs.LinearOrder
import Mathlib.Data.Finset.Basic
import StackedDram.Basic

/-!
# The remapping manager

A translation of `remapping.h` and `remapping.cc`: `BankStat`, the records of the physical banks,
and `RemappingManager` with its thermal management step `runMechanism`.

The vectors `_bank_stat` and `_phy_banks` are functions of the bank number. The `std::map` of a
bank's hot rows is an association list. What the functions print is appended to `printed`.

Temperatures are the elements of an arbitrary linear order: the code only compares them, with one
another, with the thresholds and with the two constants that `RemapConfig` names.
-/

namespace StackedDram

/-! ## Banks -/

/-- The members of `BankStat` that decide where the requests for a bank go. -/
@[ext]
structure BankMapping where
  /-- The number of the bank in the original mapping. -/
  bankId : ℕ
  /-- The bank in whose sets the requests are looked up. -/
  logicalId : ℕ
  /-- The bank whose temperature is that of this bank. -/
  physicalId : ℕ
  /-- The bank redirected to this one, or the bank itself. -/
  remapId : ℕ
  /-- The content of the bank's cache sets is still valid. -/
  valid : Bool
  /-- The bank is switched off because of its temperature. -/
  disabled : Bool
  /-- The bank is the source or the target of a redirection. -/
  combined : Bool
  deriving DecidableEq, Repr

/-- `BankStat`. -/
structure BankStat extends BankMapping where
  /-- Rows whose content survives an invalidation of the bank. -/
  validRows : Finset ℕ
  /-- The hottest rows with their access counts. -/
  meaMap : List (ℕ × ℕ)
  /-- The capacity of `meaMap`. -/
  nMigrateRow : ℕ
  invalidateTimes : ℕ

namespace BankStat

/-- The constructor of `BankStat`. -/
def new (id : ℕ) : BankStat where
  bankId := id
  logicalId := id
  physicalId := id
  remapId := id
  valid := true
  disabled := false
  combined := false
  validRows := ∅
  meaMap := []
  nMigrateRow := 10
  invalidateTimes := 0

/-- `BankStat::accessRow`. -/
def accessRow (bank : BankStat) (rowId : ℕ) : BankStat :=
  if rowId ∈ bank.meaMap.map Prod.fst then
    { bank with
      meaMap := bank.meaMap.map fun e => if e.1 = rowId then (e.1, (e.2 + 1) % 2 ^ 32) else e }
  else if bank.meaMap.length < bank.nMigrateRow then
    { bank with meaMap := (rowId, 1) :: bank.meaMap }
  else
    -- no room for the row: all counts go down by one, and rows with count zero are dropped
    { bank with
      meaMap := (bank.meaMap.map fun e => (e.1, (e.2 + (2 ^ 32 - 1)) % 2 ^ 32)).filter
        fun e => e.2 ≠ 0 }

/-- `BankStat::setValid`. -/
def setValid (valid : Bool) (bank : BankStat) : BankStat := { bank with valid }

/-- `BankStat::setDisabled`. -/
def setDisabled (disabled : Bool) (bank : BankStat) : BankStat := { bank with disabled }

/-- `BankStat::setId`. -/
def setId (logicalId physicalId : ℕ) (bank : BankStat) : BankStat :=
  { bank with logicalId, physicalId }

/-- `BankStat::finishRemapping`. -/
def finishRemapping (bank : BankStat) : BankStat := { bank with validRows := ∅ }

/-- Writing the ids that a bank already has changes nothing. -/
theorem setId_eq_self {bank : BankStat} {logicalId physicalId : ℕ}
    (hlogical : bank.logicalId = logicalId) (hphysical : bank.physicalId = physicalId) :
    bank.setId logicalId physicalId = bank := by
  subst hlogical hphysical
  rfl

/-- Counting row accesses leaves the mapping of the bank alone. -/
@[simp]
theorem accessRow_toBankMapping (bank : BankStat) (rowId : ℕ) :
    (bank.accessRow rowId).toBankMapping = bank.toBankMapping := by
  unfold accessRow
  split_ifs <;> rfl

end BankStat

/-- `RemappingManager::PhyBank`. -/
structure PhyBank (T : Type) where
  logicalBank : ℕ
  temperature : T
  valid : Bool
  hotAccess : ℕ
  coolAccess : ℕ
  remapAccess : ℕ

/-- The memory information and the experiment configuration of the manager. -/
structure RemapConfig (T : Type) where
  nVaults : ℕ
  nBanks : ℕ
  nRows : ℕ
  /-- How many banks take part in a redirection; `0`: hot banks are only disabled, `1`: a hot bank
  is combined with a cool one. -/
  nRemap : ℕ
  /-- Look for a target in all vaults. -/
  interVault : Bool
  /-- The temperature from which on a bank is hot. -/
  highThres : T
  /-- The temperature below which a bank is cool. -/
  remapThres : T
  /-- The constant `0`, the temperature of every bank at the start. -/
  zeroTemp : T
  /-- The constant `1000.0`, with which the search for the coolest bank starts. -/
  maxTemp : T

namespace RemapConfig

variable {T : Type} (cfg : RemapConfig T)

/-- `_tot_banks`. There is one object for each bank, so the product is one of small numbers. -/
def totBanks : ℕ := cfg.nVaults * cfg.nBanks

/-- `RemappingManager::getBankId`. -/
def getBankId (v b : ℕ) : ℕ := v * cfg.nBanks + b

/-- `RemappingManager::splitId`: a row-granular index as vault, bank and row. -/
def splitId (idx : ℕ) : ℕ × ℕ × ℕ :=
  (idx / cfg.nRows / cfg.nBanks, idx / cfg.nRows % cfg.nBanks, idx % cfg.nRows)

end RemapConfig

/-! ## The manager -/

/-- `RemappingManager`. -/
@[ext]
structure RemappingManager (T : Type) where
  bankStat : ℕ → BankStat
  phyBanks : ℕ → PhyBank T
  remapTimes : BitVec 32
  disableTimes : BitVec 32
  doubleDisableTimes : BitVec 32
  recoveryTimes : BitVec 32
  printed : List Message

namespace RemappingManager

variable {T : Type}

/-- The constructor of `RemappingManager`. -/
def new (cfg : RemapConfig T) : RemappingManager T where
  bankStat := BankStat.new
  phyBanks i := ⟨i, cfg.zeroTemp, true, 0, 0, 0⟩
  remapTimes := 0
  disableTimes := 0
  doubleDisableTimes := 0
  recoveryTimes := 0
  printed := []

/-- Write to `*_bank_stat[b]`. -/
def updBank (m : RemappingManager T) (b : ℕ) (f : BankStat → BankStat) : RemappingManager T :=
  { m with bankStat := Function.update m.bankStat b (f (m.bankStat b)) }

/-- Write to `_phy_banks[b]`. -/
def updPhy (m : RemappingManager T) (b : ℕ) (f : PhyBank T → PhyBank T) : RemappingManager T :=
  { m with phyBanks := Function.update m.phyBanks b (f (m.phyBanks b)) }

/-- Write a message to the standard output. -/
def print (m : RemappingManager T) (msg : Message) : RemappingManager T :=
  { m with printed := m.printed ++ [msg] }

@[simp]
theorem updBank_bankStat (m : RemappingManager T) (b c : ℕ) (f : BankStat → BankStat) :
    (m.updBank b f).bankStat c = if c = b then f (m.bankStat b) else m.bankStat c :=
  Function.update_apply ..

@[simp]
theorem updBank_phyBanks (m : RemappingManager T) (b : ℕ) (f : BankStat → BankStat) :
    (m.updBank b f).phyBanks = m.phyBanks := rfl

@[simp]
theorem updBank_printed (m : RemappingManager T) (b : ℕ) (f : BankStat → BankStat) :
    (m.updBank b f).printed = m.printed := rfl

/-- Two writes to the same bank are one. -/
theorem updBank_updBank (m : RemappingManager T) (b : ℕ) (f g : BankStat → BankStat) :
    (m.updBank b f).updBank b g = m.updBank b fun bank => g (f bank) := by
  simp [updBank]

/-- Writes to different banks commute. -/
theorem updBank_comm (m : RemappingManager T) {b c : ℕ} (hbc : b ≠ c) (f g : BankStat → BankStat) :
    (m.updBank b f).updBank c g = (m.updBank c g).updBank b f := by
  simp [updBank, hbc, hbc.symm, Function.update_comm hbc]

@[simp]
theorem updPhy_phyBanks (m : RemappingManager T) (b c : ℕ) (f : PhyBank T → PhyBank T) :
    (m.updPhy b f).phyBanks c = if c = b then f (m.phyBanks b) else m.phyBanks c :=
  Function.update_apply ..

@[simp]
theorem updPhy_bankStat (m : RemappingManager T) (b : ℕ) (f : PhyBank T → PhyBank T) :
    (m.updPhy b f).bankStat = m.bankStat := rfl

@[simp]
theorem updPhy_printed (m : RemappingManager T) (b : ℕ) (f : PhyBank T → PhyBank T) :
    (m.updPhy b f).printed = m.printed := rfl

@[simp]
theorem print_bankStat (m : RemappingManager T) (msg : Message) :
    (m.print msg).bankStat = m.bankStat := rfl

@[simp]
theorem print_phyBanks (m : RemappingManager T) (msg : Message) :
    (m.print msg).phyBanks = m.phyBanks := rfl

/-- `RemappingManager::updateTemperature`. -/
def updateTemperature (cfg : RemapConfig T) (m : RemappingManager T) (v b : ℕ) (temp : T) :
    RemappingManager T :=
  m.updPhy (cfg.getBankId v b) fun p => { p with temperature := temp }

/-- `BankStat::combineWith`, called on bank `b` with the bank `t`. -/
def combineWith (m : RemappingManager T) (b t : ℕ) : RemappingManager T :=
  let m := m.updBank b fun bank =>
    { bank with
      logicalId := (m.bankStat t).logicalId
      valid := false
      disabled := false
      combined := true }
  -- the two messages do not keep the redirection from being entered
  let m := if (m.bankStat t).combined then m.print .combineWithCombined else m
  let m := if (m.bankStat t).remapId ≠ (m.bankStat t).physicalId then m.print .remapIdSet else m
  let m := m.updBank t fun bank =>
    { bank with combined := true, remapId := (m.bankStat b).physicalId }
  m.updBank b fun bank => { bank with invalidateTimes := bank.invalidateTimes + 1 }

/-- `RemappingManager::resetBank`. -/
def resetBank (cfg : RemapConfig T) (m : RemappingManager T) (b : ℕ) : RemappingManager T :=
  let logBank := (m.bankStat b).logicalId
  let remapBank := (m.bankStat b).remapId
  -- only the record of the physical bank; the valid flags of `BankStat` are not written
  let m := m.updPhy (m.bankStat b).physicalId fun p => { p with valid := true }
  if cfg.nRemap = 0 then
    m.updBank b (.setDisabled false)
  else if cfg.nRemap = 1 then
    let m := m.updBank b fun bank => (bank.setId b b).setDisabled false
    if b ≠ logBank then
      -- `b` is redirected: it is separated from its target
      let m := m.updBank b fun bank => { bank with combined := false }
      let m := m.updBank logBank fun bank => { bank with combined := false }
      let m := if (m.bankStat logBank).remapId ≠ b then m.print .notCombined else m
      m.updBank logBank fun bank => { bank with remapId := bank.physicalId }
    else if remapBank ≠ b then
      -- `b` is a target: the redirection stays, and its source is switched on with it
      m.updBank remapBank (.setDisabled false)
    else m
  else if cfg.nRemap = 2 then
    m.updBank b (.setDisabled false)
  else m.print .unrecognizedRemapPolicy

/-- `RemappingManager::checkValid`. -/
def checkValid (cfg : RemapConfig T) (m : RemappingManager T) (v b : ℕ) : Bool :=
  (m.bankStat (cfg.getBankId v b)).valid

/-- `RemappingManager::checkMigrated`. -/
def checkMigrated (cfg : RemapConfig T) (m : RemappingManager T) (v b r : ℕ) : Bool :=
  let bank := m.bankStat (cfg.getBankId v b)
  if bank.valid then false else decide (r ∈ bank.validRows)

/-- `RemappingManager::checkDisabled`. -/
def checkDisabled (cfg : RemapConfig T) (m : RemappingManager T) (v b : ℕ) : Bool :=
  (m.bankStat (cfg.getBankId v b)).disabled

/-- `RemappingManager::getPhysicalIndex`. -/
def getPhysicalIndex (cfg : RemapConfig T) (m : RemappingManager T) (v b : ℕ) : ℕ × ℕ × ℕ :=
  cfg.splitId (m.bankStat (cfg.getBankId v b)).physicalId

/-- `RemappingManager::getLogicalIndex`. -/
def getLogicalIndex (cfg : RemapConfig T) (m : RemappingManager T) (v b r : ℕ) : ℕ × ℕ × ℕ :=
  cfg.splitId (((m.bankStat (cfg.getBankId v b)).logicalId * cfg.nRows + r) % 2 ^ 32)

variable [LinearOrder T]

/-- One iteration of `RemappingManager::resetStats`. -/
def resetStatsBank (cfg : RemapConfig T) (reset : Bool) (m : RemappingManager T) (b : ℕ) :
    RemappingManager T :=
  let phyId := (m.bankStat b).physicalId
  let m := m.updBank b fun bank => (bank.setValid true).finishRemapping
  if reset ∧ (m.phyBanks phyId).temperature < cfg.highThres then m.resetBank cfg b else m

/-- `RemappingManager::resetStats`. -/
def resetStats (cfg : RemapConfig T) (m : RemappingManager T) (reset : Bool) :
    RemappingManager T :=
  (List.range cfg.totBanks).foldl (resetStatsBank cfg reset) m

/-- `RemappingManager::accessRow`; `remapped` is the flag of the DRAM model. -/
def accessRow (cfg : RemapConfig T) (remapped : Bool) (m : RemappingManager T) (v b r : ℕ) :
    RemappingManager T :=
  let bankId := cfg.getBankId v b
  let m := m.updPhy (m.bankStat bankId).physicalId fun p =>
    -- an access to a hot bank counts as one during a remapping while the flag is set
    if remapped = false then
      if cfg.highThres ≤ p.temperature then { p with hotAccess := p.hotAccess + 1 }
      else { p with coolAccess := p.coolAccess + 1 }
    else if cfg.highThres ≤ p.temperature then { p with remapAccess := p.remapAccess + 1 }
    else { p with coolAccess := p.coolAccess + 1 }
  m.updBank bankId (·.accessRow r)

/-! ## The thermal management step -/

/-- The banks `j` that the search for a target visits for bank `b`, in its order. -/
def candidates (cfg : RemapConfig T) (b : ℕ) : List ℕ :=
  -- within a vault, the window starts at the number of the vault, not at its first bank
  if cfg.interVault then List.range cfg.totBanks else List.range' (b / cfg.nBanks) cfg.nBanks

/-- One iteration of the search for a target: the target so far and its temperature. -/
def searchBank (cfg : RemapConfig T) (m : RemappingManager T) (best : ℕ × T) (j : ℕ) : ℕ × T :=
  let logBank := (m.phyBanks j).logicalBank
  if (m.bankStat logBank).combined ∨ (m.bankStat logBank).disabled then best
  else if (m.phyBanks j).temperature < cfg.remapThres then
    -- strictly cooler: of several coolest banks the first is taken
    if (m.phyBanks j).temperature < best.2 then (logBank, (m.phyBanks j).temperature) else best
  else best

/-- The search for the bank with which the hot bank `b` is combined; `b` itself if there is
none. -/
def searchTarget (cfg : RemapConfig T) (m : RemappingManager T) (b : ℕ) : ℕ :=
  ((candidates cfg b).foldl (searchBank cfg m) (b, cfg.maxTemp)).1

/-- Switch off bank `b` and give up its content. -/
def disableBank (m : RemappingManager T) (b physicalBank : ℕ) : RemappingManager T :=
  (m.updBank b fun bank => (bank.setDisabled true).setValid false).updPhy physicalBank
    fun p => { p with valid := false }

/-- The body of the loop of `runMechanism` for `_n_remap == 0`. -/
def disableHotBank (cfg : RemapConfig T) (m : RemappingManager T) (b : ℕ) : RemappingManager T :=
  let physicalBank := (m.bankStat b).physicalId
  let bankTemp := (m.phyBanks physicalBank).temperature
  let m :=
    if bankTemp < cfg.remapThres ∧ (m.bankStat b).disabled then
      { m with recoveryTimes := m.recoveryTimes + 1 }.resetBank cfg b
    else m
  -- a bank that has just been enabled is looked at again
  if cfg.highThres ≤ bankTemp ∧ (m.bankStat b).disabled = false then
    { m with disableTimes := m.disableTimes + 1 }.disableBank b physicalBank
  else m

/-- The first part of the body for `_n_remap == 1`: a cool bank is mapped back to itself. -/
def recoverBank (cfg : RemapConfig T) (m : RemappingManager T) (b : ℕ) : RemappingManager T :=
  let bank := m.bankStat b
  if (m.phyBanks bank.physicalId).temperature < cfg.remapThres ∧
      (bank.logicalId ≠ b ∨ bank.disabled) then
    { m with recoveryTimes := m.recoveryTimes + 1 }.resetBank cfg b
  else m

/-- The second part of the body for `_n_remap == 1`: a hot bank that is not yet combined is
combined with the coolest bank found. The flag tells whether there was one. -/
def remapBank (cfg : RemapConfig T) (m : RemappingManager T) (b : ℕ) (bankTemp : T) :
    RemappingManager T × Bool :=
  if cfg.highThres ≤ bankTemp ∧ (m.bankStat b).combined = false ∧
      (m.bankStat b).disabled = false then
    let target := m.searchTarget cfg b
    if target = b then (m, false)
    else
      ({ m with remapTimes := m.remapTimes + 1 }.combineWith b target |>.updPhy target
        fun p => { p with valid := false }, true)
  else (m, false)

/-- The third part of the body for `_n_remap == 1`: a hot bank that could not be combined is
disabled, and so is the bank redirected to it. -/
def disableRemapBank (cfg : RemapConfig T) (m : RemappingManager T) (b logicalBank physicalBank : ℕ)
    (bankTemp : T) (flag : Bool) : RemappingManager T :=
  if cfg.highThres ≤ bankTemp ∧ flag = false then
    if (m.bankStat b).disabled = false then
      if (m.bankStat b).combined then
        if logicalBank = physicalBank then
          let m := { m with doubleDisableTimes := m.doubleDisableTimes + 1 }
          (m.updBank (m.bankStat b).remapId (.setDisabled true)).disableBank b physicalBank
        else m -- redirected already; its requests go to another bank
      else { m with disableTimes := m.disableTimes + 1 }.disableBank b physicalBank
    else m
  else m

/-- The body of the loop of `runMechanism` for `_n_remap == 1`. The bank numbers and the
temperature are those read before any of the three parts. -/
def combineHotBank (cfg : RemapConfig T) (m : RemappingManager T) (b : ℕ) : RemappingManager T :=
  let physicalBank := (m.bankStat b).physicalId
  let logicalBank := (m.bankStat b).logicalId
  let bankTemp := (m.phyBanks physicalBank).temperature
  let m := m.recoverBank cfg b
  let (m, flag) := m.remapBank cfg b bankTemp
  m.disableRemapBank cfg b logicalBank physicalBank bankTemp flag

/-- The body of the loop of `RemappingManager::runMechanism`. -/
def mechanismStep (cfg : RemapConfig T) (m : RemappingManager T) (b : ℕ) : RemappingManager T :=
  if cfg.nRemap = 0 then m.disableHotBank cfg b
  else if cfg.nRemap = 1 then m.combineHotBank cfg b
  else if cfg.nRemap = 2 then m -- the branch is empty in the source
  else m.print .unrecognizedPolicy

/-- The first `k` iterations of the loop of `RemappingManager::runMechanism`. -/
def mechanismLoop (cfg : RemapConfig T) (m : RemappingManager T) (k : ℕ) : RemappingManager T :=
  (List.range k).foldl (mechanismStep cfg) m

/-- `RemappingManager::runMechanism`. -/
def runMechanism (cfg : RemapConfig T) (m : RemappingManager T) : RemappingManager T :=
  m.mechanismLoop cfg cfg.totBanks

end RemappingManager

end StackedDram
