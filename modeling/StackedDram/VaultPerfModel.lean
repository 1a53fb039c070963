import Mathlib.Logic.Function.Basic
import StackedDram.PerfModel
import StackedDram.Ramulator.Hbm

/-!
# Row buffers of a vault

`VaultPerfModel` of `dram_vault.cc` and `BankPerfModel` of `dram_bank.cc`: the timing model of a
vault whose banks leave their rows open. A bank keeps its open row twice, as a state of each row and
as `cur_open_row`; the vault looks for it in the former (`getOpennedRow`) and a bank compares with
the latter.

The commands and their names are those of the HBM standard, but the table of transitions is
another one. Numbers of rows and banks are 32-bit words, and so are the counts of accesses.
-/

namespace StackedDram

open Ramulator (Command)

/-! ## Banks -/

/-- `BankPerfModel::RowState`. -/
inductive RowState where
  | opened | closed | max
  deriving DecidableEq, Repr

/-- `BankPerfModel::TimingEntry`, without its distance. -/
structure BankTimingEntry where
  cmd : Command
  val : ℕ

namespace BankPerfModel

/-- The entries of `speed_table` that are in use. -/
structure SpeedEntry where
  freq : ℕ
  nBL : ℕ
  nRCDR : ℕ
  nRCDW : ℕ
  nRP : ℕ
  nCWL : ℕ
  nRAS : ℕ
  nRC : ℕ
  nRTP : ℕ
  nWR : ℕ
  nRFC : ℕ

/-- `speed_table`. -/
def speedTable : SpeedEntry where
  freq := 500
  nBL := 2
  nRCDR := 7
  nRCDW := 6
  nRP := 7
  nCWL := 4
  nRAS := 17
  nRC := 24
  nRTP := 7
  nWR := 8
  nRFC := 0

/-- `timing`, as `init_timing` fills it. -/
def timing : Command → List BankTimingEntry :=
  let s := speedTable
  fun
  | .act =>
    [⟨.rd, s.nRCDR⟩, ⟨.rda, s.nRCDR⟩, ⟨.wr, s.nRCDW⟩, ⟨.wra, s.nRCDW⟩, ⟨.act, s.nRC⟩,
      ⟨.pre, s.nRAS⟩]
  | .rd => [⟨.pre, s.nRTP⟩]
  | .wr => [⟨.pre, s.nCWL + s.nBL + s.nWR⟩]
  | .rda => [⟨.act, s.nRTP + s.nRP⟩]
  | .wra => [⟨.act, s.nCWL + s.nBL + s.nWR + s.nRP⟩]
  | .pre => [⟨.act, s.nRP⟩, ⟨.refsb, s.nRP⟩]
  | .refsb => [⟨.refsb, s.nRFC⟩, ⟨.act, s.nRFC⟩]
  | _ => []

/-- `BankPerfModel::getTransitionLatency`, with the illegal transition that it reports, if it is
one. The frequency divides the products exactly. -/
def getTransitionLatency (U : TimeUnits) (pCmd aCmd : Command) :
    ℕ × List (Command × Command) :=
  match (timing pCmd).find? (·.cmd = aCmd) with
  | some entry => (U.ofNS (entry.val * 1000 / speedTable.freq), [])
  | none => (0, [(pCmd, aCmd)])

end BankPerfModel

/-- `BankPerfModel`, with the illegal transitions that it has reported. -/
structure BankPerfModel where
  nRows : BitVec 32
  curOpenRow : BitVec 32
  curCmd : Command
  curTime : ℕ
  totTime : ℕ
  rowState : BitVec 32 → RowState
  tACT : ℕ
  tPRE : ℕ
  tRD : ℕ
  tWR : ℕ
  reads : BitVec 32
  writes : BitVec 32
  rowHits : BitVec 32
  illegal : List (Command × Command)

namespace BankPerfModel

/-- The constructor of `BankPerfModel`. -/
def new (bankSize rowSize : BitVec 32) : BankPerfModel where
  nRows := bankSize / rowSize
  curOpenRow := -1
  curCmd := .pre
  curTime := 0
  totTime := 0
  rowState _ := .closed
  tACT := 0
  tPRE := 0
  tRD := 0
  tWR := 0
  reads := 0
  writes := 0
  rowHits := 0
  illegal := []

/-- `BankPerfModel::processCommand`, with the latency it returns. -/
def processCommand (U : TimeUnits) (b : BankPerfModel) (cmd : Command) (row : BitVec 32)
    (cmdTime : ℕ) : BankPerfModel × ℕ :=
  -- an access to the open row has the latency of one after an activation
  let rowHit : Bool := (cmd = .wr ∨ cmd = .rd) ∧ b.curOpenRow = row
  let (latency, illegal) := getTransitionLatency U (if rowHit then .act else b.curCmd) cmd
  let after :=
    { b with
      rowHits := if rowHit ∧ b.curCmd ≠ .act then b.rowHits + 1 else b.rowHits
      -- the difference of two 64-bit times
      totTime :=
        if b.curTime ≠ 0 then (b.totTime + (2 ^ 64 + cmdTime - b.curTime)) % 2 ^ 64 else b.totTime
      curTime := cmdTime
      curCmd := cmd
      illegal := b.illegal ++ illegal }
  (match cmd with
    | .act =>
      { after with
        tACT := b.tACT + latency
        rowState := Function.update b.rowState row .opened
        curOpenRow := row }
    | .pre =>
      { after with
        tPRE := b.tPRE + latency
        rowState := Function.update b.rowState row .closed
        curOpenRow := -1 }
    | .rd => { after with tRD := b.tRD + latency, reads := b.reads + 1 }
    | .wr => { after with tWR := b.tWR + latency, writes := b.writes + 1 }
    | _ => after, latency)

/-- `BankPerfModel::getOpennedRow`, an `int`. So is the bound of the loop. -/
def getOpennedRow (b : BankPerfModel) : BitVec 32 :=
  match (List.range b.nRows.toInt.toNat).find? fun i => b.rowState (.ofNat 32 i) = .opened with
  | some i => .ofNat 32 i
  | none => -1

end BankPerfModel

/-! ## Vaults -/

/-- A call of `VaultPerfModel::processRequest`. -/
structure VaultRequest where
  curTime : ℕ
  accessType : AccessType
  bank : BitVec 32
  row : BitVec 32

/-- The command that accesses the row. -/
def VaultRequest.command (q : VaultRequest) : Command :=
  if q.accessType = .write then .wr else .rd

/-- `VaultPerfModel`, without its statistics, which are those of another simulator. -/
structure VaultPerfModel where
  nBanks : BitVec 32
  autoRef : Bool
  banks : BitVec 32 → BankPerfModel

namespace VaultPerfModel

/-- The constructor of `VaultPerfModel`. -/
def new (size bankSize rowSize : BitVec 32) : VaultPerfModel where
  nBanks := size / bankSize
  autoRef := false
  banks _ := .new bankSize rowSize

/-- The branches of `processRequest` before the access: the row is open afterwards. -/
def openRow (U : TimeUnits) (autoRef : Bool) (bank : BankPerfModel) (row : BitVec 32)
    (curTime : ℕ) : BankPerfModel × ℕ :=
  let openedRow := bank.getOpennedRow
  if openedRow = -1 then bank.processCommand U .act row curTime
  else if openedRow = row then (bank, 0)
  else
    let (bank, latency) :=
      if autoRef = false then bank.processCommand U .pre openedRow curTime else (bank, 0)
    let (bank, actLatency) := bank.processCommand U .act row (curTime + latency)
    (bank, latency + actLatency)

/-- `VaultPerfModel::processRequest`, with the latency it returns. -/
def processRequest (U : TimeUnits) (v : VaultPerfModel) (q : VaultRequest) : VaultPerfModel × ℕ :=
  let openedRow := (v.banks q.bank).getOpennedRow
  let (bank, latency) := openRow U v.autoRef (v.banks q.bank) q.row q.curTime
  -- a row that has been opened for a closed bank is looked up
  let openedRow := if openedRow = -1 then bank.getOpennedRow else openedRow
  let (bank, accessLatency) := bank.processCommand U q.command q.row (q.curTime + latency)
  let (bank, preLatency) :=
    -- with automatic refreshes the row is closed after the access
    if v.autoRef then bank.processCommand U .pre openedRow q.curTime else (bank, 0)
  ({ v with banks := Function.update v.banks q.bank bank },
    latency + accessLatency + preLatency)

end VaultPerfModel

/-! ## Commands -/

namespace BankPerfModel

/-- The latency of a transition. -/
def latency (U : TimeUnits) (pCmd aCmd : Command) : ℕ := (getTransitionLatency U pCmd aCmd).1

variable {b : BankPerfModel} {row : BitVec 32}

section Fields

variable (U : TimeUnits) (b : BankPerfModel) (cmd : Command) (row : BitVec 32) (cmdTime : ℕ)

@[simp]
theorem nRows_processCommand : (b.processCommand U cmd row cmdTime).1.nRows = b.nRows := by
  cases cmd <;> rfl

@[simp]
theorem curCmd_processCommand : (b.processCommand U cmd row cmdTime).1.curCmd = cmd := by
  cases cmd <;> rfl

/-- An activation opens its row, -/
theorem processCommand_act :
    let b' := (b.processCommand U .act row cmdTime).1
    b'.rowState = Function.update b.rowState row .opened ∧ b'.curOpenRow = row ∧
      b'.reads + b'.writes = b.reads + b.writes ∧ b'.rowHits = b.rowHits ∧
      b'.illegal = b.illegal ++ (getTransitionLatency U b.curCmd .act).2 :=
  ⟨rfl, rfl, rfl, rfl, rfl⟩

/-- a precharge closes its row, -/
theorem processCommand_pre :
    let b' := (b.processCommand U .pre row cmdTime).1
    b'.rowState = Function.update b.rowState row .closed ∧ b'.curOpenRow = -1 ∧
      b'.reads + b'.writes = b.reads + b.writes ∧ b'.rowHits = b.rowHits ∧
      b'.illegal = b.illegal ++ (getTransitionLatency U b.curCmd .pre).2 :=
  ⟨rfl, rfl, rfl, rfl, rfl⟩

variable {b cmd row}

/-- and an access to the open row is a hit unless the row has just been opened. -/
theorem processCommand_access (hcmd : cmd = .rd ∨ cmd = .wr) (hrow : b.curOpenRow = row) :
    let b' := (b.processCommand U cmd row cmdTime).1
    b'.rowState = b.rowState ∧ b'.curOpenRow = row ∧
      b'.reads + b'.writes = b.reads + b.writes + 1 ∧
      (b'.rowHits = if b.curCmd ≠ .act then b.rowHits + 1 else b.rowHits) ∧
      b'.illegal = b.illegal ∧ (b.processCommand U cmd row cmdTime).2 = latency U .act cmd := by
  have hlegal : (getTransitionLatency U .act cmd).2 = [] := by
    rcases hcmd with rfl | rfl <;> rfl
  rcases hcmd with rfl | rfl
  · refine ⟨rfl, hrow, ?_, ?_, ?_, ?_⟩
    · show b.reads + 1 + b.writes = _
      ac_rfl
    all_goals simp [processCommand, latency, hlegal, hrow]
  · refine ⟨rfl, hrow, ?_, ?_, ?_, ?_⟩
    · show b.reads + (b.writes + 1) = _
      ac_rfl
    all_goals simp [processCommand, latency, hlegal, hrow]

end Fields

/-! ## The open row -/

theorem getOpennedRow_of_closed (h : ∀ row, b.rowState row ≠ .opened) :
    b.getOpennedRow = -1 := by
  have hnone : ((List.range b.nRows.toInt.toNat).find? fun i =>
      b.rowState (.ofNat 32 i) = .opened) = none := by
    rw [List.find?_eq_none]
    intro i _
    simpa using h (.ofNat 32 i)
  rw [getOpennedRow, hnone]

/-- The loop finds the row that is open, if the number of rows is not too large for an `int`. -/
theorem getOpennedRow_of_opened (h : ∀ row', b.rowState row' = .opened ↔ row' = row)
    (hrow : row < b.nRows) (hn : b.nRows.toNat < 2 ^ 31) : b.getOpennedRow = row := by
  have hlt : row.toNat < b.nRows.toNat := BitVec.lt_def.mp hrow
  have hbound : b.nRows.toInt.toNat = b.nRows.toNat := by
    rw [BitVec.toInt_eq_toNat_of_lt (by omega)]
    rfl
  have hfind : ((List.range b.nRows.toNat).find? fun i =>
      b.rowState (.ofNat 32 i) = .opened) = some row.toNat := by
    rw [List.find?_range_eq_some]
    refine ⟨by simpa using (h row).mpr rfl, List.mem_range.mpr hlt, fun i hi => ?_⟩
    -- no row before it is open
    have hne : BitVec.ofNat 32 i ≠ row := by
      rintro rfl
      rw [BitVec.toNat_ofNat] at hi
      exact absurd (Nat.mod_le i (2 ^ 32)) (Nat.not_le.mpr hi)
    simpa [h] using hne
  rw [getOpennedRow, hbound, hfind]
  exact (BitVec.ofNat_toNat 32 row).trans (BitVec.setWidth_eq row)

/-- The number of a row is never the one that stands for no row. -/
theorem ne_neg_one_of_lt (hrow : row < b.nRows) : row ≠ -1 := by
  rintro rfl
  have hlt := BitVec.lt_def.mp hrow
  have hn := b.nRows.isLt
  have hones : (-1 : BitVec 32).toNat = 2 ^ 32 - 1 := rfl
  omega

end BankPerfModel

/-! ## Requests -/

theorem VaultRequest.command_eq (q : VaultRequest) : q.command = .rd ∨ q.command = .wr := by
  rw [command]
  split
  · exact Or.inr rfl
  · exact Or.inl rfl

end StackedDram
