import StackedDram.Library.Machine
import Mathlib.Data.Int.Notation

/-!
# The HBM standard

The levels, commands and states of `HBM.h` and the tree of nodes of `RamDRAM.h`, with the tables of
`HBM.cc` that say what must come before a command (`prereq`) and what a command does to a node
(`lambda`). Nodes are made for channels, ranks and banks; a bank keeps track of its rows. In this
hierarchy a rank has banks as its children, and the loops of `prereq` and `lambda` over the
grandchildren of a rank find nothing (`grandchildren_eq_nil`).
-/

namespace StackedDram.Ramulator

/-- `Level`, without its number of elements. -/
inductive Level where
  | channel | rank | bank | row | column
  deriving DecidableEq, Repr

/-- `int(level) + 1`, as a level; there is none below the last. -/
def Level.below : Level → Level
  | .channel => .rank
  | .rank => .bank
  | .bank => .row
  | .row | .column => .column

/-- `Command`. `max` stands for no command. -/
inductive Command where
  | act | pre | prea | rd | wr | rda | wra | ref | refsb | pde | pdx | sre | srx | max
  deriving DecidableEq, Repr

/-- `State`. `max` is the state of the nodes that have none. -/
inductive State where
  | opened | closed | powerUp | actPowerDown | prePowerDown | selfRefresh | max
  deriving DecidableEq, Repr

/-- `HBM::scope`: the level of the nodes that a command is for. -/
def scope : Command → Level
  | .act => .row
  | .pre | .refsb => .bank
  | .rd | .wr | .rda | .wra | .max => .column
  | .prea | .ref | .pde | .pdx | .sre | .srx => .rank

/-- `HBM::start`. -/
def start : Level → State
  | .rank => .powerUp
  | .bank | .row => .closed
  | .channel | .column => .max

/-- `RamDRAM`, without timing and statistics. -/
structure RamDRAM where
  level : Level
  id : ℕ
  state : State
  /-- The rows that a bank has a state for. -/
  rowState : ℤ → Option State
  children : List RamDRAM

namespace RamDRAM

/-- `row_state` is empty. -/
def NoRows (t : RamDRAM) : Prop := ∀ row, t.rowState row = none

/-- `state = State::Closed; row_state.clear();` -/
def close (t : RamDRAM) : RamDRAM := { t with state := .closed, rowState := fun _ => none }

/-- `for (auto bg : node->children) for (auto bank : bg->children)` -/
def grandchildren (t : RamDRAM) : List RamDRAM := t.children.flatMap children

end RamDRAM

open RamDRAM

/-- `HBM::prereq`: what a node of the level says about a command, if it has a say; no answer where
the code asserts that it does not get there. -/
def prereq : Level → Command → Option (RamDRAM → ℤ → Option Command)
  | .rank, .rd | .rank, .wr => some fun node _ =>
    match node.state with
    | .powerUp => some .max
    | .actPowerDown | .prePowerDown => some .pdx
    | .selfRefresh => some .srx
    | .opened | .closed | .max => none
  | .bank, .rd => some (accessPrereq .rd)
  | .bank, .wr => some (accessPrereq .wr)
  | .rank, .ref => some fun node _ =>
    -- the loops stop at the first bank that is not closed
    some (if node.grandchildren.all (·.state = .closed) then .ref else .prea)
  | .bank, .refsb => some fun node _ => some (if node.state = .closed then .refsb else .pre)
  | .rank, .pde => some fun node _ =>
    match node.state with
    | .powerUp | .actPowerDown | .prePowerDown => some .pde
    | .selfRefresh => some .srx
    | .opened | .closed | .max => none
  | .rank, .sre => some fun node _ =>
    match node.state with
    | .powerUp | .selfRefresh => some .sre
    | .actPowerDown | .prePowerDown => some .pdx
    | .opened | .closed | .max => none
  | _, _ => none
where
  /-- The function for reads and writes: the row has to be open. -/
  accessPrereq (cmd : Command) (node : RamDRAM) (id : ℤ) : Option Command :=
    match node.state with
    | .closed => some .act
    | .opened => some (if (node.rowState id).isSome then cmd else .pre)
    | .powerUp | .actPowerDown | .prePowerDown | .selfRefresh | .max => none

/-- `HBM::lambda`: what a command does to a node of the level, if anything is said about that. -/
def lambda : Level → Command → Option (RamDRAM → ℤ → RamDRAM)
  | .bank, .act => some fun node id =>
    { node with state := .opened, rowState := Function.update node.rowState id (some .opened) }
  | .bank, .pre | .bank, .rda | .bank, .wra => some fun node _ => node.close
  | .rank, .prea => some fun node _ =>
    { node with
      children := node.children.map fun bg => { bg with children := bg.children.map close } }
  | .rank, .ref | .bank, .rd | .bank, .wr => some fun node _ => node
  | .rank, .pde => some fun node _ =>
    { node with
      state :=
        if node.grandchildren.any (·.state ≠ .closed) then .actPowerDown else .prePowerDown }
  | .rank, .pdx | .rank, .srx => some fun node _ => { node with state := .powerUp }
  | .rank, .sre => some fun node _ => { node with state := .selfRefresh }
  | _, _ => none

end StackedDram.Ramulator
