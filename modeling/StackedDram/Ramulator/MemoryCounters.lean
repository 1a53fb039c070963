import Mathlib.Algebra.BigOperators.Group.Finset.Piecewise
import Mathlib.Algebra.BigOperators.Ring.Finset
import Mathlib.Algebra.Order.BigOperators.Group.Finset
import StackedDram.Ramulator.Memory

/-!
# The counters of the memory

The counters of `RamMemory` for all channels, against those of the channels: requests that have come
in are counted once, in their channel, and are still in it or finished (`incoming_run`); the lengths
of the queues add up to the times that requests have spent in the memory (`inQueue_run`); and the
memory is active when one of its channels is (`ramulatorActiveCycles_run`).
-/

namespace StackedDram.Ramulator

open Finset

/-- One of the summands grows. -/
theorem sum_update_add {n i : ℕ} (hi : i < n) (f : ℕ → ℕ) (d : ℕ) :
    ∑ j ∈ range n, Function.update f i (f i + d) j = ∑ j ∈ range n, f j + d := by
  have hmem : i ∈ range n := mem_range.mpr hi
  have hsplit := add_sum_erase (range n) f hmem
  rw [sum_update_of_mem hmem, sdiff_singleton_eq_erase]
  omega

namespace ChannelController

variable {c : ChannelController} {req : RamRequest}

/-- A request that is accepted is one more. -/
theorem card_accepted_enqueue (c : ChannelController) (req : RamRequest) (type : RequestType) :
    (acceptedOf type (c.enqueueEvents req)).card =
      if (c.toRamController.enqueue req).2 = true ∧ req.type = type then 1 else 0 := by
  rw [enqueueEvents]
  -- a full queue refuses, and both other cases accept
  by_cases hfull : (c.getQueue req.type).length = RamController.queueMax
  · rw [if_pos hfull, RamController.enqueue_of_full hfull, if_neg (by simp)]
    rfl
  have haccepted : (c.toRamController.enqueue req).2 = true := by
    rw [RamController.enqueue, if_neg (Ne.symm hfull)]
    dsimp only
    split <;> rfl
  rw [if_neg hfull, haccepted]
  split <;>
  · rw [acceptedOf_singleton, RequestEvent.accepted]
    by_cases htype : req.type = type <;> simp [htype]

/-- A tick accepts nothing. -/
theorem acceptedOf_tickEvents (hbm : HBM) (channelId : ℕ) (c : ChannelController)
    (type : RequestType) : acceptedOf type (c.tickEvents hbm channelId) = 0 := by
  have hcompleted : acceptedOf type
      (c.completed.toList.map fun req => .completed req (c.clk + 1)) = 0 := by
    cases c.completed <;> rfl
  have hserved : acceptedOf type (c.servedEvents hbm channelId) = 0 := by
    rw [servedEvents]
    split
    · rfl
    · split <;> rfl
  rw [tickEvents, acceptedOf_append, hcompleted, hserved, add_zero]

end ChannelController

namespace ChannelMemory

variable {cfg : MemoryConfig} {channel : ℕ} {m : ChannelMemory}

/-- The loop over the channels as a sum. -/
theorem sumChannels_eq (cfg : MemoryConfig) (m : ChannelMemory) (f : ChannelController → ℕ) :
    m.sumChannels cfg f = ∑ channel ∈ range cfg.channels, f (m.ctrls channel) := by
  rw [sumChannels]
  induction cfg.channels with
  | zero => rfl
  | succ n ih => rw [List.range_succ, List.map_append, List.sum_append, ih, sum_range_succ]; simp

/-! ## Requests -/

/-- What happens in a channel in a run of the memory. -/
def channelEvents (cfg : MemoryConfig) (as : List Action) (channel : ℕ) : List RequestEvent :=
  ChannelController.events cfg.hbm channel (as.flatMap (share cfg channel))

/-- The events of a channel in a run with one more action. -/
theorem channelEvents_concat (hchannel : channel < cfg.channels) (as : List Action) (a : Action) :
    channelEvents cfg (as ++ [a]) channel = channelEvents cfg as channel ++
      (ChannelController.machine cfg.hbm channel).outputsFrom
        (ChannelController.eventsOf cfg.hbm channel) (((machine cfg).run as).ctrls channel)
          (share cfg channel a) := by
  rw [channelEvents, List.flatMap_append, List.flatMap_singleton, ChannelController.events,
    Machine.outputs_append, (component hchannel).view_run]
  rfl

/-- How many requests of the type the channel has accepted. -/
def accepted (cfg : MemoryConfig) (as : List Action) (type : RequestType) (channel : ℕ) : ℕ :=
  (acceptedOf type (channelEvents cfg as channel)).card

/-- The memory accepts the request. -/
def Accepts (cfg : MemoryConfig) (m : ChannelMemory) (req : RamRequest) : Prop :=
  ((m.ctrls (cfg.route req.addr)).toRamController.enqueue (cfg.routed req)).2 = true

instance (cfg : MemoryConfig) (m : ChannelMemory) (req : RamRequest) :
    Decidable (Accepts cfg m req) := by
  unfold Accepts
  infer_instance

/-- A request that is sent is one more in its channel, if it is accepted. -/
theorem accepted_send {req : RamRequest} (hchannel : channel < cfg.channels) (as : List Action)
    {a : Action} (hshare : share cfg channel a = shareOfSend cfg channel req)
    (type : RequestType) :
    accepted cfg (as ++ [a]) type channel = accepted cfg as type channel +
      if cfg.route req.addr = channel ∧ Accepts cfg ((machine cfg).run as) req ∧
        req.type = type then 1 else 0 := by
  rw [accepted, channelEvents_concat hchannel, hshare, acceptedOf_append, Multiset.card_add,
    shareOfSend]
  congr 1
  -- the channel of the address, or another one
  by_cases hroute : cfg.route req.addr = channel
  · rw [if_pos hroute, Machine.outputsFrom_singleton, ChannelController.eventsOf,
      ChannelController.card_accepted_enqueue, ← hroute]
    simp only [true_and]
    rfl
  · rw [if_neg hroute, if_neg fun h => hroute h.1]
    rfl

/-- Other calls accept nothing. -/
theorem accepted_other (hchannel : channel < cfg.channels) (as : List Action) {a : Action}
    (ha : a = .tickOnce ∨ ∃ vault bank hot, a = .setBankRef vault bank hot) (type : RequestType) :
    accepted cfg (as ++ [a]) type channel = accepted cfg as type channel := by
  have hnone : acceptedOf type ((ChannelController.machine cfg.hbm channel).outputsFrom
      (ChannelController.eventsOf cfg.hbm channel) (((machine cfg).run as).ctrls channel)
        (share cfg channel a)) = 0 := by
    rcases ha with rfl | ⟨vault, bank, hot, rfl⟩
    · rw [share, Machine.outputsFrom_singleton, ChannelController.eventsOf,
        ChannelController.acceptedOf_tickEvents]
    · rw [share]
      split <;> rfl
  rw [accepted, channelEvents_concat hchannel, acceptedOf_append, hnone, add_zero]
  rfl

/-- The counters of `send` count the requests that the channels have accepted. -/
structure Counted (cfg : MemoryConfig) (as : List Action) (s : MemoryStats) : Prop where
  reads : ∀ channel < cfg.channels,
    s.incomingReadReqsPerChannel channel = accepted cfg as .read channel
  requests : ∀ channel < cfg.channels, s.incomingRequestsPerChannel channel =
    accepted cfg as .read channel + accepted cfg as .write channel
  total : s.numIncomingRequests =
    ∑ channel ∈ range cfg.channels, s.incomingRequestsPerChannel channel
  coreReads : s.numReadRequests 0 =
    ∑ channel ∈ range cfg.channels, s.incomingReadReqsPerChannel channel
  coreRequests : s.numReadRequests 0 + s.numWriteRequests 0 = s.numIncomingRequests

/-- A request that is sent is counted once if it is accepted, and not at all otherwise. -/
theorem Counted.send {as : List Action} {a : Action} {req : RamRequest}
    (h : Counted cfg as ((machine cfg).run as).stats)
    (hstep : step cfg ((machine cfg).run as) a = ((machine cfg).run as).send cfg req)
    (hshare : ∀ channel, share cfg channel a = shareOfSend cfg channel req)
    (htype : req.type = .read ∨ req.type = .write) (hcore : req.coreid = 0) :
    Counted cfg (as ++ [a]) (step cfg ((machine cfg).run as) a).stats := by
  have haccepted (channel : ℕ) (hchannel : channel < cfg.channels) (type : RequestType) :=
    accepted_send hchannel as (hshare channel) type
  have hroute := cfg.route_lt req.addr
  rw [hstep]
  by_cases haccepts : Accepts cfg ((machine cfg).run as) req
  · -- accepted: one more in the channel, in the total and for the core
    have hstats : (((machine cfg).run as).send cfg req).stats =
        ((machine cfg).run as).stats.countIncoming (cfg.routed req) (cfg.route req.addr) :=
      if_pos haccepts
    have htype' : (cfg.routed req).type = req.type := rfl
    have hcore' : (cfg.routed req).coreid = 0 := hcore
    rw [hstats, MemoryStats.countIncoming, htype', hcore']
    generalize ((machine cfg).run as).stats = s at h ⊢
    constructor
    · intro channel hchannel
      dsimp only
      rw [haccepted channel hchannel]
      by_cases heq : channel = cfg.route req.addr
      · subst heq
        rw [Function.update_self, h.reads _ hchannel]
        simp [haccepts]
      · rw [Function.update_of_ne heq, h.reads _ hchannel, if_neg fun h => heq h.1.symm, add_zero]
    · intro channel hchannel
      dsimp only
      rw [haccepted channel hchannel, haccepted channel hchannel]
      by_cases heq : channel = cfg.route req.addr
      · subst heq
        rw [Function.update_self, h.requests _ hchannel]
        rcases htype with htype | htype <;> simp [haccepts, htype] <;> omega
      · rw [Function.update_of_ne heq, h.requests _ hchannel, if_neg fun h => heq h.1.symm,
          if_neg fun h => heq h.1.symm, add_zero, add_zero]
    · dsimp only
      rw [sum_update_add hroute, h.total]
    · dsimp only
      rw [sum_update_add hroute, Function.update_self, h.coreReads]
    · dsimp only
      rw [Function.update_self, Function.update_self, ← h.coreRequests]
      rcases htype with htype | htype <;> rw [htype] <;> simp <;> omega
  · have hstats : (((machine cfg).run as).send cfg req).stats = ((machine cfg).run as).stats :=
      if_neg haccepts
    -- refused: no channel has accepted more
    have hsame (channel : ℕ) (hchannel : channel < cfg.channels) (type : RequestType) :
        accepted cfg (as ++ [a]) type channel = accepted cfg as type channel := by
      rw [haccepted channel hchannel, if_neg fun h => haccepts h.2.1, add_zero]
    rw [hstats]
    refine ⟨fun channel hchannel => ?_, fun channel hchannel => ?_, h.total, h.coreReads,
      h.coreRequests⟩
    · rw [hsame channel hchannel]
      exact h.reads channel hchannel
    · rw [hsame channel hchannel, hsame channel hchannel]
      exact h.requests channel hchannel

/-- A call that accepts nothing leaves the counters of `send` as they are. -/
theorem Counted.other {as : List Action} {a : Action} {s s' : MemoryStats} (h : Counted cfg as s)
    (ha : a = .tickOnce ∨ ∃ vault bank hot, a = .setBankRef vault bank hot)
    (hreads : s'.incomingReadReqsPerChannel = s.incomingReadReqsPerChannel)
    (hrequests : s'.incomingRequestsPerChannel = s.incomingRequestsPerChannel)
    (htotal : s'.numIncomingRequests = s.numIncomingRequests)
    (hcoreReads : s'.numReadRequests = s.numReadRequests)
    (hcoreWrites : s'.numWriteRequests = s.numWriteRequests) : Counted cfg (as ++ [a]) s' := by
  refine ⟨fun channel hchannel => ?_, fun channel hchannel => ?_, ?_, ?_, ?_⟩
  · rw [accepted_other hchannel as ha, hreads]
    exact h.reads channel hchannel
  · rw [accepted_other hchannel as ha, accepted_other hchannel as ha, hrequests]
    exact h.requests channel hchannel
  · rw [htotal, hrequests]
    exact h.total
  · rw [hcoreReads, hreads]
    exact h.coreReads
  · rw [hcoreReads, hcoreWrites, htotal]
    exact h.coreRequests

/-- The counters of `send` after a run. -/
theorem counted_run (cfg : MemoryConfig) (as : List Action) :
    Counted cfg as ((machine cfg).run as).stats := by
  induction as using List.reverseRecOn with
  | nil => exact ⟨fun _ _ => rfl, fun _ _ => rfl, by simp [machine, new, MemoryStats.zero],
      by simp [machine, new, MemoryStats.zero], rfl⟩
  | append_singleton as a ih =>
    rw [Machine.run_concat]
    cases a with
    | readRow vault bank row col => exact ih.send rfl (fun _ => rfl) (Or.inl rfl) rfl
    | writeRow vault bank row col => exact ih.send rfl (fun _ => rfl) (Or.inr rfl) rfl
    | setBankRef vault bank hot =>
      exact ih.other (Or.inr ⟨vault, bank, hot, rfl⟩) rfl rfl rfl rfl rfl
    | tickOnce =>
      have hstats : ((machine cfg).step ((machine cfg).run as) .tickOnce).stats = _ :=
        (tick_eq cfg ((machine cfg).run as)).2.2
      refine ih.other (Or.inl rfl) ?_ ?_ ?_ ?_ ?_ <;> rw [hstats] <;> rfl

/-- How many reads and writes the channel has finished. -/
def finished (cfg : MemoryConfig) (as : List Action) (channel : ℕ) : ℕ :=
  (finishedOf .read (channelEvents cfg as channel)).card +
    (finishedOf .write (channelEvents cfg as channel)).card

/-- No channel of the memory loses a request. -/
theorem conserved_channel (hchannel : channel < cfg.channels) (as : List Action) :
    (((machine cfg).run as).ctrls channel).Conserved (channelEvents cfg as channel) := by
  have hsends : ∀ a ∈ as.flatMap (share cfg channel), a.Sends fun _ => True := fun a ha =>
    (sends_share as a ha).1.mono fun _ _ => trivial
  rw [ctrls_run hchannel]
  exact (ChannelController.conserved_run cfg.hbm channel _ hsends).2

/-- The reads and writes that a channel has accepted are in it or finished. -/
theorem accepted_eq (hchannel : channel < cfg.channels) (as : List Action) :
    let c := ((machine cfg).run as).ctrls channel
    accepted cfg as .read channel + accepted cfg as .write channel =
      c.readq.length + c.pending.length + c.writeq.length + finished cfg as channel := by
  intro c
  obtain ⟨hreads, hwrites⟩ : c.Conserved (channelEvents cfg as channel) :=
    conserved_channel hchannel as
  -- the multisets of the conservation law, by their sizes
  have hcards := congrArg Multiset.card hreads
  have hcards' := congrArg Multiset.card hwrites
  rw [Multiset.card_add, Multiset.card_add] at hcards
  rw [Multiset.card_add] at hcards'
  have hlength (q : List RamRequest) : (ChannelController.contents q).card = q.length := by
    simp [ChannelController.contents]
  rw [hlength, hlength] at hcards
  rw [hlength] at hcards'
  rw [accepted, accepted, finished]
  omega

/-- In every run of the memory, a request that is accepted is counted once, in its channel and for
its core, and is then in the memory until it is finished: what has come in, with the refreshes that
wait, is what is pending and what has been finished. -/
theorem incoming_run (cfg : MemoryConfig) (as : List Action) :
    let m := (machine cfg).run as
    (∀ channel < cfg.channels,
      m.stats.incomingReadReqsPerChannel channel = accepted cfg as .read channel ∧
        m.stats.incomingRequestsPerChannel channel =
          accepted cfg as .read channel + accepted cfg as .write channel) ∧
      m.stats.numIncomingRequests =
        ∑ channel ∈ range cfg.channels, m.stats.incomingRequestsPerChannel channel ∧
      m.stats.numReadRequests 0 =
        ∑ channel ∈ range cfg.channels, m.stats.incomingReadReqsPerChannel channel ∧
      m.stats.numReadRequests 0 + m.stats.numWriteRequests 0 = m.stats.numIncomingRequests ∧
      m.stats.numIncomingRequests + m.sumChannels cfg (fun ctrl => ctrl.otherq.length) =
        m.pendingRequests cfg + ∑ channel ∈ range cfg.channels, finished cfg as channel := by
  intro m
  have h := counted_run cfg as
  refine ⟨fun channel hchannel => ⟨h.reads channel hchannel, h.requests channel hchannel⟩,
    h.total, h.coreReads, h.coreRequests, ?_⟩
  -- channel by channel, what has come in is there or finished
  have htotal : m.stats.numIncomingRequests = ∑ channel ∈ range cfg.channels,
      ((m.ctrls channel).readq.length + (m.ctrls channel).pending.length +
        (m.ctrls channel).writeq.length + finished cfg as channel) := by
    rw [h.total]
    refine sum_congr rfl fun channel hchannel => ?_
    have hlt := mem_range.mp hchannel
    rw [h.requests channel hlt]
    exact accepted_eq hlt as
  rw [htotal, sumChannels_eq, pendingRequests, sumChannels_eq, ← sum_add_distrib, ← sum_add_distrib]
  exact sum_congr rfl fun channel _ => by omega

/-! ## Ticks -/

/-- A quantity that is added up over the ticks. -/
def perTick (f : ChannelMemory → ℕ) (m : ChannelMemory) : Action → ℕ
  | .tickOnce => f m
  | .readRow _ _ _ _ | .writeRow _ _ _ _ | .setBankRef _ _ _ => 0

/-- A quantity of a channel is added up over the ticks of the memory as over those of the
channel. -/
theorem tally_perTick (hchannel : channel < cfg.channels) (f : ChannelController → ℕ)
    (as : List Action) :
    (machine cfg).tally (perTick fun m => f (m.ctrls channel)) as =
      (ChannelController.machine cfg.hbm channel).tally (fun c a =>
        match a with
        | .tick => f c
        | .enqueue _ | .setBankRef _ _ => 0) (as.flatMap (share cfg channel)) := by
  refine (component hchannel).tally_run (fun m a => ?_) as
  -- sending adds nothing to a sum over ticks
  have hsend (req : RamRequest) : 0 = (ChannelController.machine cfg.hbm channel).tallyFrom
      (fun c a =>
        match a with
        | .tick => f c
        | .enqueue _ | .setBankRef _ _ => 0) (m.ctrls channel) (shareOfSend cfg channel req) := by
    rw [shareOfSend]
    split <;> rfl
  cases a with
  | readRow vault bank row col => exact hsend _
  | writeRow vault bank row col => exact hsend _
  | setBankRef vault bank hot =>
    rw [share]
    split <;> rfl
  | tickOnce => rfl

/-- A quantity of all channels is added up channel by channel. -/
theorem tally_sumChannels (f : ChannelController → ℕ) (as : List Action) :
    (machine cfg).tally (perTick fun m => m.sumChannels cfg f) as =
      ∑ channel ∈ range cfg.channels,
        (machine cfg).tally (perTick fun m => f (m.ctrls channel)) as := by
  have hsum : (perTick fun m => m.sumChannels cfg f) = fun m a =>
      ∑ channel ∈ range cfg.channels, perTick (fun m => f (m.ctrls channel)) m a := by
    funext m a
    cases a with
    | tickOnce => exact sumChannels_eq cfg m f
    | _ => exact (sum_eq_zero fun _ _ => rfl).symm
  rw [hsum, Machine.tally_sum]

/-- A counter that goes up with every tick adds up a quantity. -/
theorem counter_run (counter : MemoryStats → ℕ) (f : ChannelMemory → ℕ)
    (hzero : counter .zero = 0)
    (htick : ∀ m : ChannelMemory, counter (m.tick cfg).stats = counter m.stats + f m)
    (hsend : ∀ s req channel, counter (s.countIncoming req channel) = counter s)
    (as : List Action) :
    counter ((machine cfg).run as).stats = (machine cfg).tally (perTick f) as := by
  -- sending changes other counters only
  have hsent (m : ChannelMemory) (req : RamRequest) :
      counter (m.send cfg req).stats = counter m.stats := by
    show counter (if _ then _ else _) = _
    split
    · exact hsend _ _ _
    · rfl
  induction as using List.reverseRecOn with
  | nil => exact hzero
  | append_singleton as a ih =>
    rw [Machine.run_concat, Machine.tally_concat, ← ih]
    cases a with
    | readRow vault bank row col => exact hsent _ _
    | writeRow vault bank row col => exact hsent _ _
    | setBankRef vault bank hot => rfl
    | tickOnce => exact htick _

/-- In every run of the memory, the sums of the lengths of the queues are those of the channels, and
all in all the times that the requests have spent in the memory, those that have left and those that
are in it. -/
theorem inQueue_run (cfg : MemoryConfig) (as : List Action) :
    let m := (machine cfg).run as
    let bs channel := as.flatMap (share cfg channel)
    m.stats.inQueueReadReqNumSum = ∑ channel ∈ range cfg.channels,
        ChannelController.readReqQueueLengthSum cfg.hbm channel (bs channel) ∧
      m.stats.inQueueWriteReqNumSum = ∑ channel ∈ range cfg.channels,
        ChannelController.writeReqQueueLengthSum cfg.hbm channel (bs channel) ∧
      m.stats.inQueueReqNumSum = m.stats.inQueueReadReqNumSum + m.stats.inQueueWriteReqNumSum ∧
      (m.stats.inQueueReqNumSum : ℤ) = ∑ channel ∈ range cfg.channels,
        (((channelEvents cfg as channel).map ChannelController.completedWait).sum +
          ((channelEvents cfg as channel).map ChannelController.writtenWait).sum +
          ChannelController.waits (m.ctrls channel).clk (m.ctrls channel).readq +
          ChannelController.waits (m.ctrls channel).clk (m.ctrls channel).pending +
          ChannelController.waits (m.ctrls channel).clk (m.ctrls channel).writeq) := by
  intro m bs
  have hstats (m : ChannelMemory) := (tick_eq cfg m).2.2
  -- each sum goes up with the ticks, as those of the channels do
  have hread : m.stats.inQueueReadReqNumSum = ∑ channel ∈ range cfg.channels,
      ChannelController.readReqQueueLengthSum cfg.hbm channel (bs channel) := by
    rw [counter_run MemoryStats.inQueueReadReqNumSum _ rfl (fun m => by rw [hstats]; rfl)
      (fun _ _ _ => rfl) as, tally_sumChannels]
    exact sum_congr rfl fun channel hchannel => tally_perTick (mem_range.mp hchannel)
      (fun c => c.readq.length + c.pending.length) as
  have hwrite : m.stats.inQueueWriteReqNumSum = ∑ channel ∈ range cfg.channels,
      ChannelController.writeReqQueueLengthSum cfg.hbm channel (bs channel) := by
    rw [counter_run MemoryStats.inQueueWriteReqNumSum _ rfl (fun m => by rw [hstats]; rfl)
      (fun _ _ _ => rfl) as, tally_sumChannels]
    exact sum_congr rfl fun channel hchannel => tally_perTick (mem_range.mp hchannel)
      (fun c => c.writeq.length) as
  -- in each tick, the requests are reads or writes
  have hboth : m.stats.inQueueReqNumSum =
      m.stats.inQueueReadReqNumSum + m.stats.inQueueWriteReqNumSum := by
    rw [counter_run MemoryStats.inQueueReqNumSum _ rfl (fun m => by rw [hstats]; rfl)
      (fun _ _ _ => rfl) as,
      counter_run MemoryStats.inQueueReadReqNumSum _ rfl (fun m => by rw [hstats]; rfl)
        (fun _ _ _ => rfl) as,
      counter_run MemoryStats.inQueueWriteReqNumSum _ rfl (fun m => by rw [hstats]; rfl)
        (fun _ _ _ => rfl) as, tally_sumChannels, tally_sumChannels, tally_sumChannels,
      ← sum_add_distrib]
    refine sum_congr rfl fun channel _ => ?_
    rw [← Machine.tally_add]
    refine congrArg (fun f => (machine cfg).tally f as) (funext fun m => funext fun a => ?_)
    cases a with
    | tickOnce => exact Nat.add_right_comm _ _ _
    | _ => rfl
  refine ⟨hread, hwrite, hboth, ?_⟩
  rw [hboth, hread, hwrite]
  push_cast
  rw [← sum_add_distrib]
  refine sum_congr rfl fun channel hchannel => ?_
  have hsends : ∀ a ∈ bs channel, a.Sends fun _ => True := fun a ha =>
    (sends_share as a ha).1.mono fun _ _ => trivial
  -- for each channel, the lengths are the times in it
  have hwaited := (ChannelController.lengths_run cfg.hbm channel (bs channel) hsends).waited
  have hctrl : m.ctrls channel = (ChannelController.machine cfg.hbm channel).run (bs channel) :=
    ctrls_run (mem_range.mp hchannel) as
  rw [hwaited.reads, hwaited.writes, ← hctrl]
  simp only [channelEvents, bs]
  ring

/-- A channel is active when it has a request in service. -/
theorem isActive_iff (hlat : 1 < cfg.hbm.speed.readLatency) (as : List Action)
    (hchannel : channel < cfg.channels) :
    ((machine cfg).run as).isActive channel = true ↔
      0 < ChannelController.inService channel (((machine cfg).run as).ctrls channel) .channel := by
  obtain ⟨-, -, -, s, hs, hcounts⟩ := ChannelController.servingCounts_run hlat
    (as.flatMap (share cfg channel)) (sends_share as)
  -- the counts of the nodes are right in every run
  have hcur := (hcounts .channel).cur
  rw [isActive, (servingAfter_run hchannel as).trans hs, ctrls_run hchannel]
  show decide _ = true ↔ _
  rw [decide_eq_true_eq, hcur, Int.natCast_pos]

/-- In every run of the memory, the active cycles are the ticks that begin with a request in service
in one of the channels. So they are no more than the ticks, no less than the active cycles of any
channel, and no more than those of all channels together. -/
theorem ramulatorActiveCycles_run (cfg : MemoryConfig) (hlat : 1 < cfg.hbm.speed.readLatency)
    (as : List Action) :
    let s := ((machine cfg).run as).stats
    let active channel := ChannelController.activeTicks cfg.hbm channel .channel
      (as.flatMap (share cfg channel))
    s.ramulatorActiveCycles = (machine cfg).tally (perTick fun m =>
        if ∃ channel ∈ range cfg.channels,
          0 < ChannelController.inService channel (m.ctrls channel) .channel then 1 else 0) as ∧
      s.ramulatorActiveCycles ≤ s.numDramCycles ∧
      (∀ channel < cfg.channels, active channel ≤ s.ramulatorActiveCycles) ∧
      s.ramulatorActiveCycles ≤ ∑ channel ∈ range cfg.channels, active channel := by
  intro s active
  have hstats (m : ChannelMemory) := (tick_eq cfg m).2.2
  -- both counters go up with the ticks
  have hcycles : s.numDramCycles = (machine cfg).tally (perTick fun _ => 1) as :=
    counter_run MemoryStats.numDramCycles _ rfl (fun m => by rw [hstats]; rfl) (fun _ _ _ => rfl) as
  have hactive : s.ramulatorActiveCycles = (machine cfg).tally (perTick fun m =>
      if ∃ channel ∈ range cfg.channels,
        0 < ChannelController.inService channel (m.ctrls channel) .channel then 1 else 0) as := by
    rw [counter_run MemoryStats.ramulatorActiveCycles _ rfl (fun m => by rw [hstats])
      (fun _ _ _ => rfl) as]
    refine Machine.tally_congr (fun bs a => ?_) as
    cases a with
    | tickOnce =>
      have hany : (List.range cfg.channels).any ((machine cfg).run bs).isActive = true ↔
          ∃ channel ∈ range cfg.channels, 0 < ChannelController.inService channel
            (((machine cfg).run bs).ctrls channel) .channel := by
        simp only [List.any_eq_true, List.mem_range, mem_range]
        refine exists_congr fun channel => and_congr_right fun hchannel => ?_
        exact isActive_iff hlat bs hchannel
      simp only [perTick, hany]
    | _ => rfl
  -- the active cycles of a channel as a sum over the same ticks
  have hchannel (channel : ℕ) (hlt : channel < cfg.channels) : active channel =
      (machine cfg).tally (perTick fun m =>
        if 0 < ChannelController.inService channel (m.ctrls channel) .channel then 1 else 0) as :=
    (tally_perTick hlt (fun c =>
      if 0 < ChannelController.inService channel c .channel then 1 else 0) as).symm
  refine ⟨hactive, ?_, fun channel hlt => ?_, ?_⟩
  · rw [hactive, hcycles]
    refine Machine.tally_le_tally (fun m a => ?_) as
    cases a with
    | tickOnce =>
      dsimp only [perTick]
      split <;> omega
    | _ => exact le_rfl
  · rw [hactive, hchannel channel hlt]
    refine Machine.tally_le_tally (fun m a => ?_) as
    cases a with
    | tickOnce =>
      dsimp only [perTick]
      split
      · rename_i hpos
        rw [if_pos ⟨channel, mem_range.mpr hlt, hpos⟩]
      · exact Nat.zero_le _
    | _ => exact le_rfl
  · rw [hactive, sum_congr rfl fun channel hmem => hchannel channel (mem_range.mp hmem),
      ← Machine.tally_sum]
    refine Machine.tally_le_tally (fun m a => ?_) as
    cases a with
    | tickOnce =>
      dsimp only [perTick]
      split
      · rename_i hsome
        obtain ⟨channel, hmem, hpos⟩ := hsome
        refine le_trans (by rw [if_pos hpos]) (single_le_sum (fun _ _ => Nat.zero_le _) hmem)
      · exact Nat.zero_le _
    | _ => exact Nat.zero_le _

/-- The active cycles of two channels. -/
theorem ramulatorActiveCycles_run_writeBoth :
    let s := ((machine twoChannels).run writeBoth).stats
    let active channel := ChannelController.activeTicks twoChannels.hbm channel .channel
      (writeBoth.flatMap (share twoChannels channel))
    s.ramulatorActiveCycles = (machine twoChannels).tally (perTick fun m =>
        if ∃ channel ∈ range twoChannels.channels,
          0 < ChannelController.inService channel (m.ctrls channel) .channel then 1 else 0)
            writeBoth ∧
      s.ramulatorActiveCycles ≤ s.numDramCycles ∧
      (∀ channel < twoChannels.channels, active channel ≤ s.ramulatorActiveCycles) ∧
      s.ramulatorActiveCycles ≤ ∑ channel ∈ range twoChannels.channels, active channel :=
  ramulatorActiveCycles_run twoChannels (by decide) writeBoth

end ChannelMemory

end StackedDram.Ramulator
