import StackedDram.Library.Traces
import StackedDram.Ramulator.BankCounters

/-!
# Issued commands

The commands that a channel issues in a run: a tick issues the command that comes first for the
request it schedules, if it schedules one. It is this command that changes the states and the timing
of the nodes (`sameNodes_step`), and it is ready when it is issued (`issued_eq_some`).
-/

namespace StackedDram.Ramulator

/-- The arguments of `RamController::issue_cmd`, with the clock. -/
structure Issued where
  cmd : Command
  addrVec : Level → ℤ
  clk : ℤ

/-! ## Nodes -/

/-- A node of a channel, by its numbers. -/
inductive Node where
  | channel
  | rank (r : ℕ)
  | bank (r b : ℕ)
  deriving DecidableEq

namespace Node

/-- The level of a node. -/
def level : Node → Level
  | channel => .channel
  | rank _ => .rank
  | bank _ _ => .bank

/-- The channel has the node. -/
def InTree (count : Level → ℕ) : Node → Prop
  | channel => True
  | rank r => r < count .rank
  | bank r b => r < count .rank ∧ b < count .bank

instance (count : Level → ℕ) (node : Node) : Decidable (node.InTree count) := by
  unfold InTree
  cases node <;> infer_instance

/-- The address is in the node. -/
def On (channelId : ℕ) (node : Node) (addr : Level → ℤ) : Prop :=
  addr .channel = channelId ∧
    match node with
    | channel => True
    | rank r => addr .rank = r
    | bank r b => addr .rank = r ∧ addr .bank = b

instance (channelId : ℕ) (node : Node) (addr : Level → ℤ) : Decidable (node.On channelId addr) := by
  unfold On
  cases node <;> infer_instance

end Node

namespace ChannelController

variable (hbm : HBM) (channelId : ℕ) {c : ChannelController}

/-! ## The steps before scheduling -/

/-- What a change of the queues leaves alone. -/
structure SameNodes (c c' : ChannelController) : Prop where
  clk : c'.clk = c.clk
  channel : c'.channel = c.channel
  timing : c'.timing = c.timing

/-- Nothing is changed. -/
theorem SameNodes.refl (c : ChannelController) : c.SameNodes c := ⟨rfl, rfl, rfl⟩

/-- Two changes of the queues after one another. -/
theorem SameNodes.trans {c c' c'' : ChannelController} (h : c.SameNodes c')
    (h' : c'.SameNodes c'') : c.SameNodes c'' :=
  ⟨h'.clk.trans h.clk, h'.channel.trans h.channel, h'.timing.trans h.timing⟩

/-- A queue is replaced. -/
theorem sameNodes_setQueue (type : RequestType) (q : List RamRequest) :
    c.SameNodes (c.setQueue type q) := by
  cases type <;> exact ⟨rfl, rfl, rfl⟩

/-- A request comes in. -/
theorem sameNodes_enqueue (c : ChannelController) (req : RamRequest) :
    c.SameNodes (c.enqueue req) := by
  refine ⟨?_, rfl, rfl⟩
  show (c.toRamController.enqueue req).1.clk = _
  rw [RamController.enqueue]
  split
  · -- the queue is full
    rfl
  · -- a read that is forwarded waits for its data, any other request in its queue
    dsimp only
    split
    · rfl
    · exact RamController.clk_pushBack

/-- Requests come in, one after another. -/
theorem sameNodes_foldl_enqueue (reqs : List RamRequest) (c : ChannelController) :
    c.SameNodes (reqs.foldl enqueue c) := by
  induction reqs generalizing c with
  | nil => exact .refl c
  | cons req reqs ih => exact (sameNodes_enqueue c req).trans (ih (c.enqueue req))

/-- The read that the next tick completes. -/
def completed (c : ChannelController) : Option RamRequest :=
  c.pending.head?.filter fun req => req.depart ≤ c.clk + 1

/-- The first steps of a tick: the clock advances, and a read that has been completed leaves. -/
def completeRead (c : ChannelController) : ChannelController :=
  { c with
    clk := c.clk + 1
    pending := if c.completed.isSome then c.pending.tail else c.pending }

/-- The completed read has waited in front of the others. -/
theorem pending_eq (c : ChannelController) :
    c.pending = c.completed.toList ++ c.completeRead.pending := by
  rw [completeRead]
  dsimp only
  cases hcompleted : c.completed with
  | none => rfl
  | some req =>
    obtain ⟨hhead, -⟩ := Option.filter_eq_some_iff.mp hcompleted
    obtain ⟨tail, htail⟩ := List.head?_eq_some_iff.mp hhead
    rw [htail]
    rfl

/-- The requests that the refresh scheduler injects in the next tick. -/
def injected (c : ChannelController) : List RamRequest :=
  (c.refresh.tickRef (hbm.refreshConfig channelId)).2

/-- The requests of the refresh scheduler, as they come in. -/
def injectRefreshes (c : ChannelController) : ChannelController :=
  (c.injected hbm channelId).foldl enqueue
    { c.completeRead with refresh := (c.refresh.tickRef (hbm.refreshConfig channelId)).1 }

/-- Whether writes go first from now on. -/
def nextWriteMode (c : ChannelController) : Bool :=
  if c.writeMode = false then
    RamController.queueMax * 8 / 10 ≤ c.writeq.length ∨ c.readq.length = 0
  else ¬ (c.writeq.length ≤ RamController.queueMax * 2 / 10 ∧ c.readq.length ≠ 0)

/-- The steps before scheduling: a read completes, refreshes come in, and the mode is set. -/
theorem prepare_eq (c : ChannelController) :
    c.prepare hbm channelId = { c.injectRefreshes hbm channelId with
      writeMode := (c.injectRefreshes hbm channelId).nextWriteMode } := by
  rw [prepare, injectRefreshes, injected, completeRead, completed]
  cases c.pending with
  | nil => rfl
  | cons req pending =>
    -- the read in front has its data, or not yet
    by_cases hdepart : req.depart ≤ c.clk + 1 <;> simp [Option.filter, hdepart, nextWriteMode]

/-- The clock advances when a read is completed. -/
theorem sameNodes_completeRead (c : ChannelController) :
    SameNodes { c with clk := c.clk + 1 } c.completeRead :=
  ⟨rfl, rfl, rfl⟩

/-- The refreshes that come in issue no command. -/
theorem sameNodes_injectRefreshes (c : ChannelController) :
    SameNodes { c with clk := c.clk + 1 } (c.injectRefreshes hbm channelId) := by
  refine SameNodes.trans ?_ (sameNodes_foldl_enqueue _ _)
  exact (sameNodes_completeRead c).trans ⟨rfl, rfl, rfl⟩

/-- Before a request is scheduled, the clock advances and no command is issued. -/
theorem sameNodes_prepare (c : ChannelController) :
    SameNodes { c with clk := c.clk + 1 } (c.prepare hbm channelId) := by
  rw [prepare_eq]
  exact (sameNodes_injectRefreshes hbm channelId c).trans ⟨rfl, rfl, rfl⟩

/-- The clock after the steps before scheduling. -/
@[simp]
theorem clk_prepare : (c.prepare hbm channelId).clk = c.clk + 1 :=
  (sameNodes_prepare hbm channelId c).clk

/-- The states of the nodes after the steps before scheduling. -/
@[simp]
theorem channel_prepare : (c.prepare hbm channelId).channel = c.channel :=
  (sameNodes_prepare hbm channelId c).channel

/-- The timing of the nodes after the steps before scheduling. -/
@[simp]
theorem timing_prepare : (c.prepare hbm channelId).timing = c.timing :=
  (sameNodes_prepare hbm channelId c).timing

/-! ## The command of a tick -/

/-- The command that the next tick issues. -/
def issued (c : ChannelController) : Option Issued :=
  (c.prepare hbm channelId).scheduled.bind fun head =>
    ((c.prepare hbm channelId).firstCmd head.1).map fun cmd =>
      ⟨cmd, head.1.addrVec, (c.prepare hbm channelId).clk⟩

/-- The commands that an action issues. -/
def commandsOf (c : ChannelController) : Action → List Issued
  | .tick => (c.issued hbm channelId).toList
  | .enqueue _ | .setBankRef _ _ => []

/-- The commands that a run issues. -/
def commands (as : List Action) : List Issued :=
  (machine hbm channelId).outputs (commandsOf hbm channelId) as

variable {hbm channelId} {req : RamRequest} {i : ℕ} {e : Issued}

/-- The scheduled request waits in the selected queue, and its first command is ready. -/
theorem scheduled_eq_some (h : c.scheduled = some (req, i)) :
    c.getHead (c.getQueue c.selectedQueue) = some (req, i) ∧
      ∃ cmd, c.firstCmd req = some cmd ∧ c.timing.check cmd req.addrVec c.clk = true := by
  obtain ⟨hhead, hready⟩ := Option.filter_eq_some_iff.mp h
  refine ⟨hhead, ?_⟩
  rw [isReady] at hready
  split at hready
  · exact ⟨_, ‹_›, hready⟩
  · exact absurd hready Bool.false_ne_true

/-- An issued command comes first for a scheduled request, and is ready. -/
theorem issued_eq_some (h : c.issued hbm channelId = some e) :
    ∃ req i, (c.prepare hbm channelId).scheduled = some (req, i) ∧ e.addrVec = req.addrVec ∧
      e.clk = c.clk + 1 ∧ c.channel.decode (translate req.type) e.addrVec = some e.cmd ∧
      c.timing.check e.cmd e.addrVec e.clk = true := by
  obtain ⟨⟨req, i⟩, hscheduled, hcmd⟩ := Option.bind_eq_some_iff.mp h
  obtain ⟨cmd, hfirst, rfl⟩ := Option.map_eq_some_iff.mp hcmd
  obtain ⟨-, cmd', hfirst', hcheck⟩ := scheduled_eq_some hscheduled
  obtain rfl : cmd = cmd' := Option.some.inj (hfirst.symm.trans hfirst')
  -- the command has been checked against the timing before the tick
  rw [timing_prepare] at hcheck
  refine ⟨req, i, hscheduled, rfl, clk_prepare hbm channelId, ?_, hcheck⟩
  rwa [firstCmd, channel_prepare] at hfirst

/-- A request that is scheduled has a command issued for it. -/
theorem issued_of_scheduled (h : (c.prepare hbm channelId).scheduled = some (req, i)) :
    ∃ cmd, (c.prepare hbm channelId).firstCmd req = some cmd ∧
      c.issued hbm channelId = some ⟨cmd, req.addrVec, c.clk + 1⟩ := by
  obtain ⟨-, cmd, hfirst, -⟩ := scheduled_eq_some h
  refine ⟨cmd, hfirst, ?_⟩
  rw [issued, h]
  simp [hfirst]

/-- The counters after a request has been scheduled. -/
def countScheduled (c : ChannelController) (req : RamRequest) : RowStats :=
  let bank := RamController.bankIndex req.addrVec
  let stats := c.stats.countCommand req.type bank
  if req.isFirstCommand then
    stats.countFirst req.type bank (c.isRowHit req) (c.isRowOpen req)
  else stats

/-- The queue from which a request has been scheduled, after its command `cmd`: the command that
serves the request takes it out. -/
def queueAfter (c : ChannelController) (req : RamRequest) (i : ℕ) (cmd : Command) :
    List RamRequest :=
  let queue := c.getQueue c.selectedQueue
  if cmd ≠ translate req.type then queue.set i { req with isFirstCommand := false }
  else queue.eraseIdx i

/-- The reads that wait for their data after the command `cmd` for a request. -/
def pendingAfter (hbm : HBM) (c : ChannelController) (req : RamRequest) (cmd : Command) :
    List RamRequest :=
  if cmd = translate req.type ∧ req.type = .read then
    c.pending ++ [{ req with isFirstCommand := false, depart := c.clk + hbm.speed.readLatency }]
  else c.pending

/-- The state after the last steps of a tick. -/
theorem schedule_eq {cmd : Command} (hfirst : c.firstCmd req = some cmd) :
    c.schedule hbm req i = { c with
      stats := c.countScheduled req
      channel := c.channel.updateState cmd req.addrVec
      timing := c.timing.updateTiming hbm.speed cmd req.addrVec c.clk
      pending := pendingAfter hbm c req cmd }.setQueue c.selectedQueue
        (c.queueAfter req i cmd) := by
  -- the mark of the first command does not matter for the command
  have hfirst' : c.firstCmd { req with isFirstCommand := false } = some cmd := hfirst
  rw [schedule]
  dsimp only
  rw [hfirst']
  dsimp only
  -- the command serves the request, or opens or closes a row for it
  by_cases hlast : cmd = translate req.type
  · by_cases hread : req.type = .read
    · simp [pendingAfter, queueAfter, countScheduled, hlast, hread]
    · simp [pendingAfter, queueAfter, countScheduled, hlast, hread]
  · simp [pendingAfter, queueAfter, countScheduled, hlast]

/-- A tick that issues no command only prepares. -/
theorem sameNodes_tick_of_none (h : c.issued hbm channelId = none) :
    SameNodes { c with clk := c.clk + 1 } (c.tick hbm channelId) := by
  rw [tick]
  cases hscheduled : (c.prepare hbm channelId).scheduled with
  | none => exact sameNodes_prepare hbm channelId c
  | some head =>
    -- a request that is scheduled has a command issued
    obtain ⟨cmd, -, hissued⟩ := issued_of_scheduled hscheduled
    exact absurd (h.symm.trans hissued) (by simp)

/-- A tick that issues a command updates the nodes with it. -/
theorem sameNodes_tick_of_some (h : c.issued hbm channelId = some e) :
    SameNodes { c with
      clk := c.clk + 1
      channel := c.channel.updateState e.cmd e.addrVec
      timing := c.timing.updateTiming hbm.speed e.cmd e.addrVec e.clk } (c.tick hbm channelId) := by
  obtain ⟨⟨req, i⟩, hscheduled, hcmd⟩ := Option.bind_eq_some_iff.mp h
  obtain ⟨cmd, hfirst, rfl⟩ := Option.map_eq_some_iff.mp hcmd
  have htick : c.tick hbm channelId = (c.prepare hbm channelId).schedule hbm req i := by
    rw [tick, hscheduled]
  rw [htick, schedule_eq hfirst]
  refine SameNodes.trans ?_ (sameNodes_setQueue _ _)
  exact ⟨clk_prepare hbm channelId, by simp, by simp⟩

/-- A tick advances the clock by one. -/
theorem clk_tick : (c.tick hbm channelId).clk = c.clk + 1 := by
  cases hissued : c.issued hbm channelId with
  | none => exact (sameNodes_tick_of_none hissued).clk
  | some e => exact (sameNodes_tick_of_some hissued).clk

/-! ## Runs -/

/-- The commands of a run with one more action. -/
theorem commands_concat (as : List Action) (a : Action) :
    commands hbm channelId (as ++ [a]) =
      commands hbm channelId as ++ commandsOf hbm channelId ((machine hbm channelId).run as) a :=
  Machine.outputs_concat as a

/-- How far an action advances the clock. -/
def Action.elapsed : Action → ℤ
  | .tick => 1
  | .enqueue _ | .setBankRef _ _ => 0

variable (hbm channelId) in
/-- What an action does to the clock and the nodes, by the command that it issues. -/
theorem sameNodes_step (c : ChannelController) (a : Action) :
    (commandsOf hbm channelId c a = [] ∧
      SameNodes { c with clk := c.clk + a.elapsed } (step hbm channelId c a)) ∨
      ∃ e, a = .tick ∧ c.issued hbm channelId = some e ∧ commandsOf hbm channelId c a = [e] ∧
        SameNodes { c with
          clk := e.clk
          channel := c.channel.updateState e.cmd e.addrVec
          timing := c.timing.updateTiming hbm.speed e.cmd e.addrVec e.clk }
          (step hbm channelId c a) := by
  cases a with
  | enqueue req =>
    refine Or.inl ⟨rfl, SameNodes.trans ?_ (sameNodes_enqueue c req)⟩
    exact ⟨(add_zero c.clk).symm, rfl, rfl⟩
  | setBankRef bank hot => exact Or.inl ⟨rfl, (add_zero c.clk).symm, rfl, rfl⟩
  | tick =>
    cases hissued : c.issued hbm channelId with
    | none => exact Or.inl ⟨by simp [commandsOf, hissued], sameNodes_tick_of_none hissued⟩
    | some e =>
      obtain ⟨-, -, -, -, hclk, -⟩ := issued_eq_some hissued
      refine Or.inr ⟨e, rfl, rfl, by simp [commandsOf, hissued], ?_⟩
      have htick := sameNodes_tick_of_some hissued
      rw [← hclk] at htick
      exact htick

end ChannelController

end StackedDram.Ramulator
