import StackedDram.Ramulator.LatencyClock
import StackedDram.Ramulator.Memory

/-!
# The simulator

`DramModel` of `dram_sim.cc` with the controllers of all channels, as the performance model of the
stack uses it: ticks and the temperatures of the banks are passed on to the memory, and the writes
that have been collected are sent to it when the latencies are updated.

The latencies are those of `DramModel` for the queues alone, whatever else the memory does
(`toDramModel_getLatency`).
-/

namespace StackedDram.Ramulator

/-- The answer of `RamMemory::send`. -/
def ChannelMemory.accepts (cfg : MemoryConfig) (m : ChannelMemory) (req : RamRequest) : Bool :=
  ((m.ctrls (cfg.route req.addr)).toRamController.enqueue (cfg.routed req)).2

/-- `DramModel` with the controllers of its channels. The sums are exact here. -/
structure Simulator where
  reqQueue : List DramModel.Request
  recentReadLatency : ℕ
  recentWriteLatency : ℕ
  lastReqTime : BitVec 64
  nUpdates : BitVec 32
  avgReqNum : ℚ
  avgUpdateTime : ℚ
  avgMemLatency : ℚ
  intervalTicks : ℤ
  totTicks : ℕ
  memory : ChannelMemory

namespace Simulator

variable (cfg : MemoryConfig)

/-- `memory->spec->read_latency`. -/
def readLatency : ℕ := cfg.hbm.speed.readLatency.toNat

/-- The constructor of `DramModel`, which leaves `avg_update_time` as it is. -/
def new (avgUpdateTime : ℚ) : Simulator where
  reqQueue := []
  recentReadLatency := readLatency cfg
  recentWriteLatency := readLatency cfg
  lastReqTime := 0
  nUpdates := 0
  avgReqNum := 0
  avgUpdateTime := avgUpdateTime
  avgMemLatency := 0
  intervalTicks := 500000
  totTicks := 0
  memory := .new cfg

/-- The call of `readRow` or `writeRow` for the request, as the memory sees it. -/
def rowAction (r : DramModel.Request) : ChannelMemory.Action :=
  if r.type = 0 then .readRow r.vault r.bank r.row r.col
  else .writeRow r.vault r.bank r.row r.col

/-- The request that is built for it. -/
def rowRequest (r : DramModel.Request) : RamRequest :=
  cfg.rowRequest r.requestType r.vault r.bank r.row r.col

/-- The channel of the request. -/
def channel (r : DramModel.Request) : ℕ := cfg.route (rowRequest cfg r).addr

/-- The call, with the answer of the memory. -/
def sendRow (r : DramModel.Request) (m : ChannelMemory) : ChannelMemory × Bool :=
  (m.step cfg (rowAction r), m.accepts cfg (rowRequest cfg r))

/-- The variables of the loop of `updateLatency`. -/
structure Sending where
  memory : ChannelMemory
  readClks : ℕ
  writeClks : ℕ
  nReads : ℕ
  nWrites : ℕ

/-- An iteration of the loop of `updateLatency`, with a bound on the number of attempts. -/
def Sending.sendRequest (fuel : ℕ) (st : Sending) (r : DramModel.Request) : Option Sending :=
  -- the loop goes on as long as the request is accepted
  (Retry.loop (sendRow cfg r) fuel st.memory).map fun (memory, attempts) =>
    { memory
      readClks := if r.type = 0 then st.readClks + attempts else st.readClks
      writeClks := if r.type = 0 then st.writeClks else st.writeClks + attempts
      nReads := if r.type = 0 then st.nReads + 1 else st.nReads
      nWrites := if r.type = 1 then st.nWrites + 1 else st.nWrites }

/-- The loop of `updateLatency` over `req_queue`. -/
def sendAll (fuel : ℕ) (m : ChannelMemory) (reqs : List DramModel.Request) : Option Sending :=
  reqs.foldlM (Sending.sendRequest cfg fuel) ⟨m, 0, 0, 0, 0⟩

/-- The part of `updateLatency` around the loop. -/
def finishUpdate (d : Simulator) (pktTime : BitVec 64) (st : Sending) : Simulator :=
  let elapseTime := pktTime - d.lastReqTime
  let recentReadLatency :=
    (if st.nReads = 0 then 0 else st.readClks / st.nReads) + readLatency cfg
  let recentWriteLatency :=
    (if st.nWrites = 0 then 0 else st.writeClks / st.nWrites) + readLatency cfg
  { d with
    nUpdates := d.nUpdates + 1
    avgUpdateTime := d.avgUpdateTime + elapseTime.toNat
    avgReqNum := d.avgReqNum + d.reqQueue.length
    lastReqTime := pktTime
    memory := st.memory
    reqQueue := []
    recentReadLatency := recentReadLatency
    recentWriteLatency := recentWriteLatency
    avgMemLatency := d.avgMemLatency + (recentReadLatency + recentWriteLatency : ℕ) }

/-- `DramModel::updateLatency`, with a bound on the number of attempts for each request. -/
def updateLatency (fuel : ℕ) (d : Simulator) (pktTime : BitVec 64) : Option Simulator :=
  if pktTime - d.lastReqTime < 200 then some d
  else (sendAll cfg fuel d.memory d.reqQueue).map (d.finishUpdate cfg pktTime)

/-- The end of `getReadLatency` and `getWriteLatency`. -/
def checkTime (fuel : ℕ) (d : Simulator) (pktTime : BitVec 64) : Option Simulator :=
  if 200 < pktTime - d.lastReqTime then d.updateLatency cfg fuel pktTime else some d

/-- `DramModel::tickOnce`. -/
def tickOnce (d : Simulator) : Simulator :=
  { d with
    memory := d.memory.tick cfg
    intervalTicks := d.intervalTicks - 1
    totTicks := d.totTicks + 1 }

/-- `DramModel::setBankRef`. -/
def setBankRef (d : Simulator) (vault bank : ℕ) (hot : Bool) : Simulator :=
  { d with memory := d.memory.setBankRef cfg vault bank hot }

/-- `DramModel::getReadLatency`, with the latency it returns. -/
def getReadLatency (fuel : ℕ) (d : Simulator) (_vault _bank _row _col : ℕ) (pktTime : BitVec 64) :
    Option (Simulator × ℕ) :=
  -- reads are not put in the queue
  (d.checkTime cfg fuel pktTime).map fun d => (d, d.recentReadLatency)

/-- `DramModel::getWriteLatency`, with the latency it returns. -/
def getWriteLatency (fuel : ℕ) (d : Simulator) (vault bank row col : ℕ) (pktTime : BitVec 64) :
    Option (Simulator × ℕ) :=
  let d : Simulator := { d with reqQueue := d.reqQueue ++ [⟨1, vault, bank, row, col⟩] }
  (d.checkTime cfg fuel pktTime).map fun d => (d, d.recentWriteLatency)

/-! ## Calls -/

/-- A call of the simulator. -/
inductive Call where
  | tickOnce
  | setBankRef (vault bank : ℕ) (hot : Bool)
  | getReadLatency (vault bank row col : ℕ) (pktTime : BitVec 64)
  | getWriteLatency (vault bank row col : ℕ) (pktTime : BitVec 64)

/-- The state after a call, if every request is refused after at most `fuel` attempts. -/
def call (fuel : ℕ) (d : Simulator) : Call → Option Simulator
  | .tickOnce => some (d.tickOnce cfg)
  | .setBankRef vault bank hot => some (d.setBankRef cfg vault bank hot)
  | .getReadLatency vault bank row col pktTime =>
    (d.getReadLatency cfg fuel vault bank row col pktTime).map Prod.fst
  | .getWriteLatency vault bank row col pktTime =>
    (d.getWriteLatency cfg fuel vault bank row col pktTime).map Prod.fst

/-- The runs of a simulator. After a call that does not end there is no state. -/
def machine (fuel : ℕ) (avgUpdateTime : ℚ) : Machine (Option Simulator) Call where
  init := some (new cfg avgUpdateTime)
  step s c := s.bind (·.call cfg fuel c)

/-! ## The queues alone -/

variable {cfg} {m : ChannelMemory} {r : DramModel.Request} {reqs : List DramModel.Request}

/-- A call of `readRow` or `writeRow` sends the request that is built. -/
theorem step_rowAction (m : ChannelMemory) (r : DramModel.Request) :
    m.step cfg (rowAction r) = m.send cfg (rowRequest cfg r) := by
  rw [rowAction, rowRequest, DramModel.Request.requestType]
  split <;> rfl

/-- The simulator with nothing of the memory but its queues and the counters of `send`. -/
def toDramModel (cfg : MemoryConfig) (d : Simulator) : DramModel where
  reqQueue := d.reqQueue
  recentReadLatency := d.recentReadLatency
  recentWriteLatency := d.recentWriteLatency
  lastReqTime := d.lastReqTime
  nUpdates := d.nUpdates
  avgReqNum := d.avgReqNum
  avgUpdateTime := d.avgUpdateTime
  avgMemLatency := d.avgMemLatency
  memory := d.memory.toRamMemory cfg
  readLatency := readLatency cfg

/-- The queues give the same answer as the memory. -/
theorem send_toRamMemory (cfg : MemoryConfig) (r : DramModel.Request) (m : ChannelMemory) :
    r.send (m.toRamMemory cfg) =
      ((sendRow cfg r m).1.toRamMemory cfg, (sendRow cfg r m).2) := by
  rw [DramModel.Request.send_eq_accessRow]
  refine Prod.ext ?_ ?_
  · show _ = (m.step cfg (rowAction r)).toRamMemory cfg
    rw [step_rowAction, ChannelMemory.toRamMemory_send]
    rfl
  · exact ((m.toRamMemory cfg).send_eq (rowRequest cfg r)).2

/-- The variables of the loop, with the queues alone. -/
structure Sending.Matches (cfg : MemoryConfig) (st : Sending) (st' : DramModel.Sending) :
    Prop where
  memory : st'.memory = st.memory.toRamMemory cfg
  readClks : st'.readClks = st.readClks
  writeClks : st'.writeClks = st.writeClks
  nReads : st'.nReads = st.nReads
  nWrites : st'.nWrites = st.nWrites

theorem Sending.Matches.foldlM {st : Sending} {st' : DramModel.Sending} (h : st.Matches cfg st')
    (fuel : ℕ) (reqs : List DramModel.Request) :
    Option.Rel (Sending.Matches cfg) (reqs.foldlM (Sending.sendRequest cfg fuel) st)
      (reqs.foldlM (DramModel.Sending.sendRequest fuel) st') := by
  induction reqs generalizing st st' with
  | nil => exact .some h
  | cons r reqs ih =>
    have hloop := Retry.loop_map (send_toRamMemory cfg r) fuel st.memory
    rw [List.foldlM_cons, List.foldlM_cons, Sending.sendRequest, DramModel.Sending.sendRequest,
      h.memory, hloop]
    -- both loops end after the same number of attempts, or none of them does
    cases Retry.loop (sendRow cfg r) fuel st.memory with
    | none => exact .none
    | some after =>
      apply ih
      exact ⟨rfl, by simp only [h.readClks], by simp only [h.writeClks], by simp only [h.nReads],
        by simp only [h.nWrites]⟩

/-- What is left of an update when the requests have been sent. -/
theorem Sending.Matches.finishUpdate {x : Option Sending} {y : Option DramModel.Sending}
    (h : Option.Rel (Sending.Matches cfg) x y) (d : Simulator) (t : BitVec 64) :
    (x.map (d.finishUpdate cfg t)).map (toDramModel cfg) =
      y.map ((d.toDramModel cfg).beginUpdate t).finishUpdate := by
  cases h with
  | none => rfl
  | some hst =>
    obtain ⟨hmemory, hreadClks, hwriteClks, hnReads, hnWrites⟩ := hst
    simp only [Option.map_some, toDramModel, Simulator.finishUpdate, DramModel.finishUpdate,
      DramModel.beginUpdate, hmemory, hreadClks, hwriteClks, hnReads, hnWrites]

/-- An update goes by the queues alone. -/
theorem toDramModel_updateLatency (cfg : MemoryConfig) (fuel : ℕ) (d : Simulator)
    (t : BitVec 64) :
    (d.updateLatency cfg fuel t).map (toDramModel cfg) =
      (d.toDramModel cfg).updateLatency fuel t := by
  rw [updateLatency, DramModel.updateLatency]
  by_cases hearly : t - d.lastReqTime < 200
  · rw [if_pos hearly]
    exact (if_pos hearly).symm
  · rw [if_neg hearly]
    refine Eq.trans ?_ (if_neg hearly).symm
    have hstart : Sending.Matches cfg ⟨d.memory, 0, 0, 0, 0⟩
        ⟨d.memory.toRamMemory cfg, 0, 0, 0, 0, []⟩ := ⟨rfl, rfl, rfl, rfl, rfl⟩
    exact Sending.Matches.finishUpdate (hstart.foldlM fuel d.reqQueue) d t

/-- The latencies are those that the queues alone would give. -/
theorem toDramModel_getLatency (cfg : MemoryConfig) (fuel : ℕ) (d : Simulator)
    (vault bank row col : ℕ) (t : BitVec 64) :
    (d.getReadLatency cfg fuel vault bank row col t).map (Prod.map (toDramModel cfg) id) =
        (d.toDramModel cfg).getReadLatency fuel vault bank row col t ∧
      (d.getWriteLatency cfg fuel vault bank row col t).map (Prod.map (toDramModel cfg) id) =
        (d.toDramModel cfg).getWriteLatency fuel vault bank row col t := by
  have hcheck (d : Simulator) : (d.checkTime cfg fuel t).map (toDramModel cfg) =
      if 200 < t - d.lastReqTime then (d.toDramModel cfg).updateLatency fuel t
      else some (d.toDramModel cfg) := by
    rw [checkTime]
    split
    · exact toDramModel_updateLatency cfg fuel d t
    · rfl
  constructor
  · refine Eq.trans ?_ (congrArg (Option.map fun d => (d, d.recentReadLatency)) (hcheck d))
    rw [getReadLatency, Option.map_map, Option.map_map]
    rfl
  · refine Eq.trans ?_ (congrArg (Option.map fun d => (d, d.recentWriteLatency))
      (hcheck { d with reqQueue := d.reqQueue ++ [⟨1, vault, bank, row, col⟩] }))
    rw [getWriteLatency, Option.map_map, Option.map_map]
    rfl

end Simulator

end StackedDram.Ramulator
