import StackedDram.Ramulator.RamDRAM
import StackedDram.Ramulator.Refresh
import StackedDram.Ramulator.Timing

/-!
# The controller of a channel

`RamController::tick`, with what it calls: the row hits of `HBM.cc`, the scheduler
`FRFCFS_PriorHit` and the row policy `Opened` of `RamScheduler.cc`, which never precharges on its
own. The number of requests that are being served and the table of open rows are left out, as they
decide nothing here.
-/

namespace StackedDram.Ramulator

/-! ## Rows -/

/-- `HBM::rowhit`. -/
def rowhit : Level → Command → Option (RamDRAM → ℤ → Bool)
  | .bank, .rd | .bank, .wr => some fun node id =>
    node.state = .opened ∧ (node.rowState id).isSome
  | _, _ => none

/-- `HBM::rowopen`. -/
def rowopen : Level → Command → Option (RamDRAM → ℤ → Bool)
  | .bank, .rd | .bank, .wr => some fun node _ => node.state = .opened
  | _, _ => none

namespace RamDRAM

/-- The recursion of `check_row_hit` and `check_row_open`. -/
def checkRowFrom (table : Level → Command → Option (RamDRAM → ℤ → Bool)) :
    ℕ → RamDRAM → Command → (Level → ℤ) → Bool
  | 0, _, _, _ => false
  | depth + 1, t, cmd, addr =>
    let childId := addr t.level.below
    match table t.level cmd with
    | some f => f t childId
    | none =>
      match t.child? childId with
      | some child => checkRowFrom table depth child cmd addr
      | none => false

/-- `RamDRAM::check_row_hit`. -/
def checkRowHit (t : RamDRAM) (cmd : Command) (addr : Level → ℤ) : Bool :=
  checkRowFrom rowhit levels t cmd addr

/-- `RamDRAM::check_row_open`. -/
def checkRowOpen (t : RamDRAM) (cmd : Command) (addr : Level → ℤ) : Bool :=
  checkRowFrom rowopen levels t cmd addr

end RamDRAM

/-! ## Counters -/

/-- The counters of a `RamController` for the banks, by the index of the bank, and for all rows. -/
structure RowStats where
  bankReads : ℤ → ℕ
  bankWrites : ℤ → ℕ
  bankReadRowHits : ℤ → ℕ
  bankReadRowMisses : ℤ → ℕ
  bankReadRowConflicts : ℤ → ℕ
  bankWriteRowHits : ℤ → ℕ
  bankWriteRowMisses : ℤ → ℕ
  bankWriteRowConflicts : ℤ → ℕ
  rowHits : ℕ
  rowMisses : ℕ
  rowConflicts : ℕ

namespace RowStats

def zero : RowStats where
  bankReads _ := 0
  bankWrites _ := 0
  bankReadRowHits _ := 0
  bankReadRowMisses _ := 0
  bankReadRowConflicts _ := 0
  bankWriteRowHits _ := 0
  bankWriteRowMisses _ := 0
  bankWriteRowConflicts _ := 0
  rowHits := 0
  rowMisses := 0
  rowConflicts := 0

/-- `++counter[bank_i];` -/
def bump (counter : ℤ → ℕ) (bank : ℤ) : ℤ → ℕ := Function.update counter bank (counter bank + 1)

/-- The counters that go up with every command on behalf of a request. -/
def countCommand (s : RowStats) (type : RequestType) (bank : ℤ) : RowStats :=
  match type with
  | .read => { s with bankReads := bump s.bankReads bank }
  | .write => { s with bankWrites := bump s.bankWrites bank }
  | _ => s

/-- The counters that go up with the first command on behalf of a request. -/
def countFirst (s : RowStats) (type : RequestType) (bank : ℤ) (hit rowOpen : Bool) : RowStats :=
  match type with
  | .read =>
    -- a row that is open but not hit is a conflict
    if hit then
      { s with
        bankReadRowHits := bump s.bankReadRowHits bank
        rowHits := s.rowHits + 1 }
    else if rowOpen then
      { s with
        bankReadRowConflicts := bump s.bankReadRowConflicts bank
        rowConflicts := s.rowConflicts + 1 }
    else
      { s with
        bankReadRowMisses := bump s.bankReadRowMisses bank
        rowMisses := s.rowMisses + 1 }
  | .write =>
    if hit then
      { s with
        bankWriteRowHits := bump s.bankWriteRowHits bank
        rowHits := s.rowHits + 1 }
    else if rowOpen then
      { s with
        bankWriteRowConflicts := bump s.bankWriteRowConflicts bank
        rowConflicts := s.rowConflicts + 1 }
    else
      { s with
        bankWriteRowMisses := bump s.bankWriteRowMisses bank
        rowMisses := s.rowMisses + 1 }
  | _ => s

end RowStats

/-! ## The controller -/

/-- `HBM`: the speed of a standard and the numbers of its nodes. -/
structure HBM where
  speed : SpeedEntry
  /-- `org_entry.count`. -/
  count : Level → ℕ

/-- What the refresh scheduler of a channel reads. -/
def HBM.refreshConfig (hbm : HBM) (channelId : ℕ) : RefreshConfig where
  channelId := channelId
  maxRankCount := hbm.count .rank
  maxBankCount := hbm.count .bank
  nREFI := hbm.speed.nREFI

/-- `HBM::translate`. There is no entry for the last type, so it has the first command. -/
def translate : RequestType → Command
  | .read => .rd
  | .write => .wr
  | .refresh => .ref
  | .powerdown => .pde
  | .selfrefresh => .sre
  | .extension => .act

/-- `RamController`, with its channel, its refresh scheduler and its counters. -/
structure ChannelController extends RamController where
  channel : RamDRAM
  timing : RamTiming
  refresh : Refresh
  writeMode : Bool
  stats : RowStats

namespace ChannelController

variable (hbm : HBM) (channelId : ℕ)

/-- The constructor of `RamController`. -/
def new : ChannelController where
  clk := 0
  readq := []
  writeq := []
  otherq := []
  pending := []
  channel := .new hbm.count .channel
  timing := .new hbm.speed hbm.count channelId
  refresh := .new (hbm.refreshConfig channelId)
  writeMode := false
  stats := .zero

/-- `RamController::enqueue`, as a change of the state. -/
def enqueue (c : ChannelController) (req : RamRequest) : ChannelController :=
  { c with toRamController := (c.toRamController.enqueue req).1 }

/-- `RamController::setBankRef`. -/
def setBankRef (c : ChannelController) (bank : ℕ) (hot : Bool) : ChannelController :=
  { c with refresh := c.refresh.setRefInterval (hbm.refreshConfig channelId) bank hot }

/-- `RamController::get_first_cmd`. -/
def firstCmd (c : ChannelController) (req : RamRequest) : Option Command :=
  c.channel.decode (translate req.type) req.addrVec

/-- `RamController::is_ready`. -/
def isReady (c : ChannelController) (req : RamRequest) : Bool :=
  match c.firstCmd req with
  | some cmd => c.timing.check cmd req.addrVec c.clk
  | none => false

/-- `RamController::is_row_hit`. -/
def isRowHit (c : ChannelController) (req : RamRequest) : Bool :=
  c.channel.checkRowHit (translate req.type) req.addrVec

/-- `RamController::is_row_open`. -/
def isRowOpen (c : ChannelController) (req : RamRequest) : Bool :=
  c.channel.checkRowOpen (translate req.type) req.addrVec

/-! ## The scheduler -/

/-- The comparison of `RamScheduler`, for a property that goes before the time of arrival: whether
it returns the first request. -/
def compare (ready : RamRequest → Bool) (req₁ req₂ : RamRequest) : Bool :=
  if ready req₁ ≠ ready req₂ then ready req₁ else req₁.arrive ≤ req₂.arrive

/-- The loop of `get_head`, over requests with their positions in the queue. -/
def best (ready : RamRequest → Bool) : List (RamRequest × ℕ) → Option (RamRequest × ℕ)
  | [] => none
  | head :: rest => some (rest.foldl
      (fun head itr => if compare ready head.1 itr.1 then head else itr) head)

/-- The bank of a request. -/
def rowgroup (req : RamRequest) : ℤ × ℤ × ℤ :=
  (req.addrVec .channel, req.addrVec .rank, req.addrVec .bank)

/-- `RamScheduler::get_head` for `FRFCFS_PriorHit`: a request and its position in the queue. -/
def getHead (c : ChannelController) (q : List RamRequest) : Option (RamRequest × ℕ) :=
  let readyHit (req : RamRequest) := c.isReady req && c.isRowHit req
  (best readyHit q.zipIdx).bind fun head =>
    if readyHit head.1 then some head
    else
      let hitReqs := (q.filter c.isRowHit).map rowgroup
      -- a request that would close a row that another one hits has to wait
      let violateHit (req : RamRequest) :=
        !c.isRowHit req && c.isRowOpen req && hitReqs.contains (rowgroup req)
      best c.isReady (q.zipIdx.filter fun itr => !violateHit itr.1)

/-! ## A tick -/

/-- The first steps of `RamController::tick`: reads that have been completed leave, banks are
refreshed, and writes have to wait until there are many of them. -/
def prepare (c : ChannelController) : ChannelController :=
  let c := { c with clk := c.clk + 1 }
  let c :=
    match c.pending with
    | req :: pending => if req.depart ≤ c.clk then { c with pending } else c
    | [] => c
  let (refresh, reqs) := c.refresh.tickRef (hbm.refreshConfig channelId)
  -- the requests of the refresh scheduler wait in `otherq`
  let c := reqs.foldl enqueue { c with refresh }
  { c with
    writeMode :=
      if c.writeMode = false then
        RamController.queueMax * 8 / 10 ≤ c.writeq.length ∨ c.readq.length = 0
      else ¬ (c.writeq.length ≤ RamController.queueMax * 2 / 10 ∧ c.readq.length ≠ 0) }

/-- The queue from which the next request is taken, by a type of requests that wait there. -/
def selectedQueue (c : ChannelController) : RequestType :=
  if c.otherq ≠ [] then .refresh else if c.writeMode then .write else .read

/-- The request that is scheduled, and its position in its queue. -/
def scheduled (c : ChannelController) : Option (RamRequest × ℕ) :=
  (c.getHead (c.getQueue c.selectedQueue)).filter fun head => c.isReady head.1

/-- Replace a queue. -/
def setQueue (c : ChannelController) (type : RequestType) (q : List RamRequest) :
    ChannelController :=
  match type with
  | .read => { c with readq := q }
  | .write => { c with writeq := q }
  | _ => { c with otherq := q }

/-- The last steps of `RamController::tick`, for the request `req` at position `i`. -/
def schedule (c : ChannelController) (req : RamRequest) (i : ℕ) : ChannelController :=
  let bank := RamController.bankIndex req.addrVec
  let stats := c.stats.countCommand req.type bank
  let stats :=
    if req.isFirstCommand then
      stats.countFirst req.type bank (c.isRowHit req) (c.isRowOpen req)
    else stats
  let req := { req with isFirstCommand := false }
  let queue := c.getQueue c.selectedQueue
  match c.firstCmd req with
  | none => { c with stats }
  | some cmd =>
    -- the command opens or closes a row, or serves the request
    let after :=
      { c with
        stats
        channel := c.channel.updateState cmd req.addrVec
        timing := c.timing.updateTiming hbm.speed cmd req.addrVec c.clk }
    if cmd ≠ translate req.type then after.setQueue c.selectedQueue (queue.set i req)
    else
      -- the request is finished, but a read waits for its data
      let pending :=
        if req.type = .read then
          after.pending ++ [{ req with depart := c.clk + hbm.speed.readLatency }]
        else after.pending
      { after with pending }.setQueue c.selectedQueue (queue.eraseIdx i)

/-- `RamController::tick`. -/
def tick (c : ChannelController) : ChannelController :=
  let c := c.prepare hbm channelId
  match c.scheduled with
  | some (req, i) => c.schedule hbm req i
  | none => c

end ChannelController

end StackedDram.Ramulator
