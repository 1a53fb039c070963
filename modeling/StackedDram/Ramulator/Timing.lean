import Mathlib.Data.List.Basic
import StackedDram.Ramulator.Hbm

/-!
# Timing

The timing of commands: the table of `HBM::init_timing`, which says how long after a command another
one may follow on the same node, and what the nodes of `RamDRAM` remember of it. No function reads
both this and the state of a node, so a channel has a second tree for it here.
-/

namespace StackedDram.Ramulator

/-- `HBM::SpeedEntry`, in clocks. -/
structure SpeedEntry where
  nBL : ℤ
  nCCDS : ℤ
  nCL : ℤ
  nRCDR : ℤ
  nRCDW : ℤ
  nRP : ℤ
  nCWL : ℤ
  nRAS : ℤ
  nRC : ℤ
  nRTP : ℤ
  nWTRS : ℤ
  nWR : ℤ
  nRRDS : ℤ
  nRRDL : ℤ
  nFAW : ℤ
  nRFC : ℤ
  nREFI : ℤ
  nPD : ℤ
  nXP : ℤ
  nCKESR : ℤ
  nXS : ℤ

/-- `HBM_1Gbps` for the organization `HBM_1Gb`. -/
def SpeedEntry.hbm1Gbps : SpeedEntry where
  nBL := 2
  nCCDS := 2
  nCL := 7
  nRCDR := 7
  nRCDW := 6
  nRP := 7
  nCWL := 4
  nRAS := 17
  nRC := 24
  nRTP := 7
  nWTRS := 2
  nWR := 8
  nRRDS := 4
  nRRDL := 5
  nFAW := 20
  nRFC := 55
  nREFI := 3900
  nPD := 5
  nXP := 5
  nCKESR := 5
  nXS := 60

/-- `HBM::read_latency`. -/
def SpeedEntry.readLatency (s : SpeedEntry) : ℤ := s.nCL + s.nBL

/-- `TimingEntry`: the command `cmd` may follow `val` clocks after the `dist`-th last one of the
commands that the entry is for. The standard has no entries for siblings. -/
structure TimingEntry where
  cmd : Command
  dist : ℕ
  val : ℤ

/-- `HBM::init_timing`. -/
def timing (s : SpeedEntry) : Level → Command → List TimingEntry
  | .channel, .rd | .channel, .rda => [⟨.rd, 1, s.nBL⟩, ⟨.rda, 1, s.nBL⟩]
  | .channel, .wr | .channel, .wra => [⟨.wr, 1, s.nBL⟩, ⟨.wra, 1, s.nBL⟩]
  | .rank, .rd =>
    [⟨.rd, 1, s.nCCDS⟩, ⟨.rda, 1, s.nCCDS⟩, ⟨.wr, 1, s.nCL + s.nCCDS + 2 - s.nCWL⟩,
      ⟨.wra, 1, s.nCL + s.nCCDS + 2 - s.nCWL⟩, ⟨.prea, 1, s.nRTP⟩, ⟨.pde, 1, s.nCL + s.nBL + 1⟩]
  | .rank, .rda =>
    [⟨.rd, 1, s.nCCDS⟩, ⟨.rda, 1, s.nCCDS⟩, ⟨.wr, 1, s.nCL + s.nCCDS + 2 - s.nCWL⟩,
      ⟨.wra, 1, s.nCL + s.nCCDS + 2 - s.nCWL⟩, ⟨.pde, 1, s.nCL + s.nBL + 1⟩]
  | .rank, .wr =>
    [⟨.wr, 1, s.nCCDS⟩, ⟨.wra, 1, s.nCCDS⟩, ⟨.rd, 1, s.nCWL + s.nBL + s.nWTRS⟩,
      ⟨.rda, 1, s.nCWL + s.nBL + s.nWTRS⟩, ⟨.prea, 1, s.nCWL + s.nBL + s.nWR⟩,
      ⟨.pde, 1, s.nCWL + s.nBL + s.nWR⟩]
  | .rank, .wra =>
    [⟨.wr, 1, s.nCCDS⟩, ⟨.wra, 1, s.nCCDS⟩, ⟨.rd, 1, s.nCWL + s.nBL + s.nWTRS⟩,
      ⟨.rda, 1, s.nCWL + s.nBL + s.nWTRS⟩, ⟨.pde, 1, s.nCWL + s.nBL + s.nWR + 1⟩]
  | .rank, .pdx =>
    [⟨.rd, 1, s.nXP⟩, ⟨.rda, 1, s.nXP⟩, ⟨.wr, 1, s.nXP⟩, ⟨.wra, 1, s.nXP⟩, ⟨.act, 1, s.nXP⟩,
      ⟨.pre, 1, s.nXP⟩, ⟨.prea, 1, s.nXP⟩, ⟨.ref, 1, s.nXP⟩, ⟨.pde, 1, s.nXP⟩, ⟨.sre, 1, s.nXP⟩]
  | .rank, .act =>
    [⟨.act, 1, s.nRRDS⟩, ⟨.act, 4, s.nFAW⟩, ⟨.prea, 1, s.nRAS⟩, ⟨.pde, 1, 1⟩,
      -- for the bank groups, which this hierarchy does not have
      ⟨.act, 1, s.nRRDL⟩]
  | .rank, .prea => [⟨.act, 1, s.nRP⟩, ⟨.ref, 1, s.nRP⟩, ⟨.sre, 1, s.nRP⟩]
  | .rank, .pre => [⟨.ref, 1, s.nRP⟩, ⟨.sre, 1, s.nRP⟩]
  | .rank, .ref => [⟨.act, 1, s.nRFC⟩, ⟨.ref, 1, s.nRFC⟩, ⟨.pde, 1, 1⟩]
  | .rank, .srx => [⟨.act, 1, s.nXS⟩, ⟨.ref, 1, s.nXS⟩, ⟨.pde, 1, s.nXS⟩, ⟨.sre, 1, s.nXS⟩]
  | .rank, .pde => [⟨.pdx, 1, s.nPD⟩]
  | .rank, .sre => [⟨.srx, 1, s.nCKESR⟩]
  | .bank, .act =>
    [⟨.rd, 1, s.nRCDR⟩, ⟨.rda, 1, s.nRCDR⟩, ⟨.wr, 1, s.nRCDW⟩, ⟨.wra, 1, s.nRCDW⟩,
      ⟨.act, 1, s.nRC⟩, ⟨.pre, 1, s.nRAS⟩]
  | .bank, .rd => [⟨.pre, 1, s.nRTP⟩]
  | .bank, .wr => [⟨.pre, 1, s.nCWL + s.nBL + s.nWR⟩]
  | .bank, .rda => [⟨.act, 1, s.nRTP + s.nRP⟩]
  | .bank, .wra => [⟨.act, 1, s.nCWL + s.nBL + s.nWR + s.nRP⟩]
  | .bank, .pre => [⟨.act, 1, s.nRP⟩, ⟨.refsb, 1, s.nRP⟩]
  | .bank, .refsb => [⟨.refsb, 1, s.nRFC⟩, ⟨.act, 1, s.nRFC⟩]
  | _, _ => []

/-- The timing of a node of `RamDRAM`. -/
structure RamTiming where
  level : Level
  id : ℕ
  /-- The clock from which a command may be issued; -1 if there is no restriction. -/
  next : Command → ℤ
  /-- The clocks of the last commands, the last one first; -1 if there have been fewer. -/
  prev : Command → List ℤ
  children : List RamTiming

namespace RamTiming

/-- The constructor of `RamDRAM`, with at most `depth` levels of nodes. -/
def newFrom (s : SpeedEntry) (count : Level → ℕ) : ℕ → Level → ℕ → RamTiming
  | 0, level, id => ⟨level, id, fun _ => -1, fun _ => [], []⟩
  | depth + 1, level, id =>
    let dist (cmd : Command) := ((timing s level cmd).map TimingEntry.dist).foldl max 0
    let childMax := if level.below = .row then 0 else count level.below
    ⟨level, id, fun _ => -1, fun cmd => List.replicate (dist cmd) (-1),
      (List.range childMax).map (newFrom s count depth level.below)⟩

/-- The timing of a new channel. -/
def new (s : SpeedEntry) (count : Level → ℕ) (id : ℕ) : RamTiming := newFrom s count 3 .channel id

/-- `RamDRAM::check`; not where the code reads past the vector of the children. -/
def checkFrom : ℕ → RamTiming → Command → (Level → ℤ) → ℤ → Bool
  | 0, _, _, _, _ => true
  | depth + 1, t, cmd, addr, clk =>
    let childId := addr t.level.below
    if t.next cmd ≠ -1 ∧ clk < t.next cmd then false
    -- the command does not go further down
    else if childId < 0 ∨ t.level = scope cmd ∨ t.children = [] then true
    else
      match t.children[childId.toNat]? with
      | some child => checkFrom depth child cmd addr clk
      | none => false

def check (t : RamTiming) (cmd : Command) (addr : Level → ℤ) (clk : ℤ) : Bool :=
  checkFrom 3 t cmd addr clk

/-- The node after a command has been issued to it or to a node below it. -/
def updateNode (s : SpeedEntry) (t : RamTiming) (cmd : Command) (clk : ℤ) : RamTiming :=
  -- the history is as long as the largest distance of an entry
  let history := if t.prev cmd = [] then [] else clk :: (t.prev cmd).dropLast
  let next := (timing s t.level cmd).foldl (fun next entry =>
    match history[entry.dist - 1]? with
    | some past =>
      if past < 0 then next
      else Function.update next entry.cmd (max (next entry.cmd) (past + entry.val))
    | none => next) t.next
  { t with next, prev := Function.update t.prev cmd history }

/-- `RamDRAM::update_timing`. -/
def updateTimingFrom (s : SpeedEntry) :
    ℕ → RamTiming → Command → (Level → ℤ) → ℤ → RamTiming
  | 0, t, _, _, _ => t
  | depth + 1, t, cmd, addr, clk =>
    -- a node that is not on the way to the target is a sibling
    if (t.id : ℤ) ≠ addr t.level then t
    else
      let t := t.updateNode s cmd clk
      { t with children := t.children.map fun child => updateTimingFrom s depth child cmd addr clk }

def updateTiming (s : SpeedEntry) (t : RamTiming) (cmd : Command) (addr : Level → ℤ) (clk : ℤ) :
    RamTiming :=
  updateTimingFrom s 3 t cmd addr clk

end RamTiming

end StackedDram.Ramulator
