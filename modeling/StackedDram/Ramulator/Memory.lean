import StackedDram.Library.Components
import StackedDram.Ramulator.QueueLengths
import StackedDram.Ramulator.Serving

/-!
# The memory and its channels

`RamMemory` with the controllers of its channels, as `DramModel` uses it: reads and writes are sent
to the channels of their addresses, a tick is a tick of all channels, and the temperatures of the
banks are set. Every channel is a component of the memory (`component`), which is sent fresh
requests for its own banks only (`sends_share`), so that what holds of the runs of such a channel
holds in all runs of the memory.
-/

namespace StackedDram.Ramulator

/-! ## Configurations -/

/-- `RamMemory::calc_log2`. -/
def calcLog2 (val : ℕ) : ℕ := if val / 2 = 0 then 0 else calcLog2 (val / 2) + 1

/-- The logarithm is rounded down. -/
theorem two_pow_calcLog2_le {val : ℕ} (hval : 0 < val) : 2 ^ calcLog2 val ≤ val := by
  induction val using calcLog2.induct with
  | case1 val hhalf =>
    rw [calcLog2, if_pos hhalf]
    exact hval
  | case2 val hhalf ih =>
    -- half of the value is at least half of the power
    have hle := ih (Nat.pos_of_ne_zero hhalf)
    rw [calcLog2, if_neg hhalf, pow_succ]
    omega

/-- The logarithm of a power of two. -/
theorem calcLog2_two_pow (k : ℕ) : calcLog2 (2 ^ k) = k := by
  induction k with
  | zero => rw [calcLog2, if_pos (by decide)]
  | succ k ih =>
    have hhalf : 2 ^ (k + 1) / 2 = 2 ^ k := by omega
    rw [calcLog2, hhalf, if_neg (Nat.two_pow_pos k).ne', ih]

/-- `HBM::prefetch_size`. -/
def prefetchSize : ℕ := 4

/-- What a `RamMemory` is made for, with the widths of the levels that its constructor works out. -/
structure MemoryConfig where
  hbm : HBM
  type : Layout
  addrBits : AddrBits
  count_pos : ∀ level, 0 < hbm.count level
  width_eq : ∀ level, addrBits.width level = calcLog2 (hbm.count level) -
    if level = .column then calcLog2 prefetchSize else 0

namespace MemoryConfig

variable (cfg : MemoryConfig)

/-- The memory before the first request, with the queues of its channels. -/
def memory : RamMemory where
  type := cfg.type
  addrBits := cfg.addrBits
  ctrls _ := ⟨0, [], [], [], []⟩
  numIncomingRequests := 0
  numReadRequests _ := 0
  numWriteRequests _ := 0
  incomingRequestsPerChannel _ := 0
  incomingReadReqsPerChannel _ := 0

/-- The number of channels. -/
def channels : ℕ := cfg.hbm.count .channel

/-- The channel that an address is sent to. -/
def route (addr : ℕ) : ℕ := (cfg.memory.decode addr .channel).toNat

/-- The request of `DramModel::readRow` or `writeRow`. -/
def rowRequest (type : RequestType) (vault bank row col : ℕ) : RamRequest :=
  .new (cfg.memory.encode vault bank row col) type

/-- The request as `RamMemory::send` passes it on. -/
def routed (req : RamRequest) : RamRequest := { req with addrVec := cfg.memory.decode req.addr }

/-- An address names nodes that the memory has. -/
theorem decode_lt (addr : ℕ) (level : Level) :
    ∃ i : ℕ, cfg.memory.decode addr level = i ∧ i < cfg.hbm.count level := by
  refine ⟨_, rfl, ?_⟩
  -- every level has a field in the address, as wide as the constructor has made it
  have hmem : level ∈ cfg.type.sliceOrder := by
    rw [← Layout.reverse_fieldOrder, List.mem_reverse]
    exact cfg.type.mem_fieldOrder level
  have hlt : PackedFields.unpack cfg.addrBits.width cfg.type.sliceOrder (fun _ => 0) addr level <
      2 ^ cfg.addrBits.width level := PackedFields.unpack_lt hmem _ _
  have hle : cfg.addrBits.width level ≤ calcLog2 (cfg.hbm.count level) := by
    rw [cfg.width_eq]
    exact Nat.sub_le _ _
  calc _ < 2 ^ cfg.addrBits.width level := hlt
    _ ≤ 2 ^ calcLog2 (cfg.hbm.count level) := Nat.pow_le_pow_right Nat.two_pos hle
    _ ≤ cfg.hbm.count level := two_pow_calcLog2_le (cfg.count_pos level)

/-- An address is sent to a channel that the memory has. -/
theorem route_lt (addr : ℕ) : cfg.route addr < cfg.channels := by
  obtain ⟨i, hi, hlt⟩ := cfg.decode_lt addr .channel
  rw [route, hi]
  exact hlt

/-- A request is passed on to the channel of its address, for one of the banks there. -/
theorem inBank_routed (req : RamRequest) :
    InBank cfg.hbm (cfg.route req.addr) (cfg.routed req).content := by
  obtain ⟨ch, hch, -⟩ := cfg.decode_lt req.addr .channel
  obtain ⟨r, hr, hrlt⟩ := cfg.decode_lt req.addr .rank
  obtain ⟨b, hb, hblt⟩ := cfg.decode_lt req.addr .bank
  refine ⟨r, b, ⟨hrlt, hblt⟩, ?_, hr, hb⟩
  show cfg.memory.decode req.addr .channel = (cfg.route req.addr : ℤ)
  rw [route, hch, Int.toNat_natCast]

end MemoryConfig

/-! ## The memory -/

/-- The counters of `RamMemory`. -/
structure MemoryStats where
  numDramCycles : ℕ
  numIncomingRequests : ℕ
  numReadRequests : ℕ → ℕ
  numWriteRequests : ℕ → ℕ
  ramulatorActiveCycles : ℕ
  incomingRequestsPerChannel : ℕ → ℕ
  incomingReadReqsPerChannel : ℕ → ℕ
  inQueueReqNumSum : ℕ
  inQueueReadReqNumSum : ℕ
  inQueueWriteReqNumSum : ℕ

namespace MemoryStats

/-- The counters at the start. -/
def zero : MemoryStats where
  numDramCycles := 0
  numIncomingRequests := 0
  numReadRequests _ := 0
  numWriteRequests _ := 0
  ramulatorActiveCycles := 0
  incomingRequestsPerChannel _ := 0
  incomingReadReqsPerChannel _ := 0
  inQueueReqNumSum := 0
  inQueueReadReqNumSum := 0
  inQueueWriteReqNumSum := 0

/-- The counters of `RamMemory::send` for a request that has been accepted. -/
def countIncoming (s : MemoryStats) (req : RamRequest) (channel : ℕ) : MemoryStats :=
  let read := if req.type = .read then 1 else 0
  let write := if req.type = .write then 1 else 0
  { s with
    numIncomingRequests := s.numIncomingRequests + 1
    numReadRequests := Function.update s.numReadRequests req.coreid
      (s.numReadRequests req.coreid + read)
    numWriteRequests := Function.update s.numWriteRequests req.coreid
      (s.numWriteRequests req.coreid + write)
    incomingRequestsPerChannel := Function.update s.incomingRequestsPerChannel channel
      (s.incomingRequestsPerChannel channel + 1)
    incomingReadReqsPerChannel := Function.update s.incomingReadReqsPerChannel channel
      (s.incomingReadReqsPerChannel channel + read) }

end MemoryStats

/-- `RamMemory` with the controllers of its channels, and what their nodes count about requests in
service, as long as no assertion fails. -/
structure ChannelMemory where
  ctrls : ℕ → ChannelController
  serving : ℕ → Option (Node → Serving)
  stats : MemoryStats

namespace ChannelMemory

variable (cfg : MemoryConfig)

/-- The constructor of `RamMemory`. -/
def new : ChannelMemory where
  ctrls := ChannelController.new cfg.hbm
  serving _ := some fun _ => .new
  stats := .zero

/-- The memory with nothing but the queues of its channels and the counters of `send`. -/
def toRamMemory (m : ChannelMemory) : RamMemory :=
  { cfg.memory with
    ctrls := fun channel => (m.ctrls channel).toRamController
    numIncomingRequests := m.stats.numIncomingRequests
    numReadRequests := m.stats.numReadRequests
    numWriteRequests := m.stats.numWriteRequests
    incomingRequestsPerChannel := m.stats.incomingRequestsPerChannel
    incomingReadReqsPerChannel := m.stats.incomingReadReqsPerChannel }

/-- `RamMemory::send`, as a change of the state. -/
def send (m : ChannelMemory) (req : RamRequest) : ChannelMemory :=
  let req := cfg.routed req
  let channel := (req.addrVec .channel).toNat
  let accepted := ((m.ctrls channel).toRamController.enqueue req).2
  { m with
    ctrls := Function.update m.ctrls channel ((m.ctrls channel).enqueue req)
    stats := if accepted then m.stats.countIncoming req channel else m.stats }

/-- `DramModel::setBankRef`. -/
def setBankRef (m : ChannelMemory) (vault bank : ℕ) (hot : Bool) : ChannelMemory :=
  let ctrl := (m.ctrls vault).setBankRef cfg.hbm vault bank hot
  { m with ctrls := Function.update m.ctrls vault ctrl }

/-- `RamController::is_active`. -/
def isActive (m : ChannelMemory) (channel : ℕ) : Bool :=
  (m.serving channel).any fun s => 0 < (s .channel).curServingRequests

/-- A number for every channel, added up over the channels. -/
def sumChannels (m : ChannelMemory) (f : ChannelController → ℕ) : ℕ :=
  ((List.range cfg.channels).map fun channel => f (m.ctrls channel)).sum

/-- An iteration of the second loop of `RamMemory::tick`, with `is_active`. -/
def tickChannel (st : ChannelMemory × Bool) (channel : ℕ) : ChannelMemory × Bool :=
  let (m, active) := st
  let ctrl := m.ctrls channel
  ({ m with
      ctrls := Function.update m.ctrls channel (ctrl.tick cfg.hbm channel)
      serving := Function.update m.serving channel ((m.serving channel).bind fun s =>
        servingAfter cfg.hbm channel s (ctrl.servingOf cfg.hbm channel .tick)) },
    active || m.isActive channel)

/-- The first steps of `RamMemory::tick`, which add up the lengths of the queues. -/
def countQueues (m : ChannelMemory) : MemoryStats :=
  { m.stats with
    numDramCycles := m.stats.numDramCycles + 1
    inQueueReqNumSum := m.stats.inQueueReqNumSum + m.sumChannels cfg fun ctrl =>
      ctrl.readq.length + ctrl.writeq.length + ctrl.pending.length
    inQueueReadReqNumSum := m.stats.inQueueReadReqNumSum + m.sumChannels cfg fun ctrl =>
      ctrl.readq.length + ctrl.pending.length
    inQueueWriteReqNumSum := m.stats.inQueueWriteReqNumSum + m.sumChannels cfg fun ctrl =>
      ctrl.writeq.length }

/-- `RamMemory::tick`. -/
def tick (m : ChannelMemory) : ChannelMemory :=
  let (m, active) := (List.range cfg.channels).foldl (tickChannel cfg)
    ({ m with stats := m.countQueues cfg }, false)
  if active then
    { m with stats := { m.stats with ramulatorActiveCycles := m.stats.ramulatorActiveCycles + 1 } }
  else m

/-- `RamMemory::pending_requests`. -/
def pendingRequests (m : ChannelMemory) : ℕ :=
  m.sumChannels cfg fun ctrl =>
    ctrl.readq.length + ctrl.writeq.length + ctrl.otherq.length + ctrl.pending.length

/-! ## Runs -/

/-- The calls of `DramModel`. -/
inductive Action where
  | readRow (vault bank row col : ℕ)
  | writeRow (vault bank row col : ℕ)
  | setBankRef (vault bank : ℕ) (hot : Bool)
  | tickOnce

/-- The state after a call. -/
def step (m : ChannelMemory) : Action → ChannelMemory
  | .readRow vault bank row col => m.send cfg (cfg.rowRequest .read vault bank row col)
  | .writeRow vault bank row col => m.send cfg (cfg.rowRequest .write vault bank row col)
  | .setBankRef vault bank hot => m.setBankRef cfg vault bank hot
  | .tickOnce => m.tick cfg

/-- The runs of a memory. -/
def machine : Machine ChannelMemory Action where
  init := new cfg
  step := step cfg

/-- What a channel has to do with the sending of a request. -/
def shareOfSend (channel : ℕ) (req : RamRequest) : List ChannelController.Action :=
  if cfg.route req.addr = channel then [.enqueue (cfg.routed req)] else []

/-- What a channel has to do with an action of the memory. -/
def share (channel : ℕ) : Action → List ChannelController.Action
  | .readRow vault bank row col =>
    shareOfSend cfg channel (cfg.rowRequest .read vault bank row col)
  | .writeRow vault bank row col =>
    shareOfSend cfg channel (cfg.rowRequest .write vault bank row col)
  | .setBankRef vault bank hot => if vault = channel then [.setBankRef bank hot] else []
  | .tickOnce => [.tick]

/-! ## A tick -/

variable {cfg} {m : ChannelMemory} {channel : ℕ}

/-- What the second loop of a tick has done for the channels below `k`. -/
structure TickedTo (cfg : MemoryConfig) (m : ChannelMemory) (k : ℕ) (st : ChannelMemory × Bool) :
    Prop where
  ctrls : st.1.ctrls = fun channel =>
    if channel < k then (m.ctrls channel).tick cfg.hbm channel else m.ctrls channel
  serving : st.1.serving = fun channel =>
    if channel < k then (m.serving channel).bind fun s =>
      servingAfter cfg.hbm channel s ((m.ctrls channel).servingOf cfg.hbm channel .tick)
    else m.serving channel
  stats : st.1.stats = m.stats
  active : st.2 = (List.range k).any m.isActive

/-- One more iteration of the loop. -/
theorem TickedTo.tickChannel {k : ℕ} {st : ChannelMemory × Bool} (h : TickedTo cfg m k st) :
    TickedTo cfg m (k + 1) (tickChannel cfg st k) := by
  -- the loop has not come to this channel yet
  have hctrl : st.1.ctrls k = m.ctrls k := by rw [h.ctrls]; exact if_neg (Nat.lt_irrefl k)
  have hserving : st.1.serving k = m.serving k := by
    rw [h.serving]
    exact if_neg (Nat.lt_irrefl k)
  -- ticking one channel more moves the limit
  have hupdate {γ : Type} (f g : ℕ → γ) :
      Function.update (fun channel => if channel < k then f channel else g channel) k (f k) =
        fun channel => if channel < k + 1 then f channel else g channel := by
    funext channel
    by_cases hchannel : channel = k
    · subst hchannel
      simp
    · have hlt : channel < k ↔ channel < k + 1 := by omega
      simp [Function.update_of_ne hchannel, hlt]
  refine ⟨?_, ?_, h.stats, ?_⟩
  · show Function.update st.1.ctrls k ((st.1.ctrls k).tick cfg.hbm k) = _
    rw [hctrl, h.ctrls]
    exact hupdate _ _
  · show Function.update st.1.serving k ((st.1.serving k).bind fun s =>
      servingAfter cfg.hbm k s ((st.1.ctrls k).servingOf cfg.hbm k .tick)) = _
    rw [hctrl, hserving, h.serving]
    exact hupdate (fun channel => (m.serving channel).bind fun s =>
      servingAfter cfg.hbm channel s ((m.ctrls channel).servingOf cfg.hbm channel .tick)) _
  · have hactive : st.1.isActive k = m.isActive k := by rw [isActive, hserving, isActive]
    show (st.2 || st.1.isActive k) = _
    rw [hactive, h.active, List.range_succ, List.any_append]
    simp

/-- What the whole loop has done. -/
theorem tickedTo_channels (cfg : MemoryConfig) (m : ChannelMemory) :
    TickedTo cfg m cfg.channels
      ((List.range cfg.channels).foldl (ChannelMemory.tickChannel cfg) (m, false)) :=
  foldl_range_invariant (P := TickedTo cfg m) ⟨by simp, by simp, rfl, rfl⟩
    (fun _ _ _ h => h.tickChannel) _ le_rfl

/-- A tick is a tick of every channel, and counts as active if a channel has been active before. -/
theorem tick_eq (cfg : MemoryConfig) (m : ChannelMemory) :
    (m.tick cfg).ctrls = (fun channel =>
        if channel < cfg.channels then (m.ctrls channel).tick cfg.hbm channel
        else m.ctrls channel) ∧
      (m.tick cfg).serving = (fun channel =>
        if channel < cfg.channels then (m.serving channel).bind fun s =>
          servingAfter cfg.hbm channel s ((m.ctrls channel).servingOf cfg.hbm channel .tick)
        else m.serving channel) ∧
      (m.tick cfg).stats = { m.countQueues cfg with
        ramulatorActiveCycles := m.stats.ramulatorActiveCycles +
          if (List.range cfg.channels).any m.isActive then 1 else 0 } := by
  obtain ⟨hctrls, hserving, hstats, hactive⟩ :=
    tickedTo_channels cfg { m with stats := m.countQueues cfg }
  have hactive : _ = (List.range cfg.channels).any m.isActive := hactive
  rw [tick]
  dsimp only
  -- the tick is counted as active, or not
  split
  · rename_i hany
    refine ⟨hctrls, hserving, ?_⟩
    rw [hactive] at hany
    rw [hstats, if_pos hany]
    rfl
  · rename_i hany
    refine ⟨hctrls, hserving, ?_⟩
    rw [hactive] at hany
    rw [hstats, if_neg hany]
    rfl

/-! ## Channels -/

/-- A channel takes its share of the sending of a request. -/
theorem ctrls_send (cfg : MemoryConfig) (m : ChannelMemory) (req : RamRequest) (channel : ℕ) :
    (m.send cfg req).ctrls channel = (ChannelController.machine cfg.hbm channel).runFrom
      (m.ctrls channel) (shareOfSend cfg channel req) := by
  show Function.update m.ctrls (cfg.route req.addr) ((m.ctrls (cfg.route req.addr)).enqueue
    (cfg.routed req)) channel = _
  rw [shareOfSend]
  by_cases hroute : cfg.route req.addr = channel
  · rw [if_pos hroute, hroute, Function.update_self]
    rfl
  · rw [if_neg hroute, Function.update_of_ne (Ne.symm hroute)]
    rfl

/-- Every channel is a component of the memory. -/
theorem component (hchannel : channel < cfg.channels) :
    Machine.Component (machine cfg) (ChannelController.machine cfg.hbm channel)
      (fun m => m.ctrls channel) (share cfg channel) where
  init := rfl
  step m a := by
    cases a with
    | readRow vault bank row col => exact ctrls_send cfg m _ channel
    | writeRow vault bank row col => exact ctrls_send cfg m _ channel
    | setBankRef vault bank hot =>
      -- the bank is in this channel, or the channel is left alone
      show Function.update m.ctrls vault ((m.ctrls vault).setBankRef cfg.hbm vault bank hot)
        channel = _
      rw [share]
      by_cases hvault : vault = channel
      · rw [if_pos hvault, hvault, Function.update_self]
        rfl
      · rw [if_neg hvault, Function.update_of_ne (Ne.symm hvault)]
        rfl
    | tickOnce =>
      show (m.tick cfg).ctrls channel = _
      -- every channel ticks
      rw [(tick_eq cfg m).1]
      exact if_pos hchannel

/-- A channel after a run of the memory. -/
theorem ctrls_run (hchannel : channel < cfg.channels) (as : List Action) :
    ((machine cfg).run as).ctrls channel =
      (ChannelController.machine cfg.hbm channel).run (as.flatMap (share cfg channel)) :=
  (component hchannel).view_run as

/-- A channel is sent fresh requests for its own banks. -/
theorem sends_shareOfSend {req : RamRequest} (htype : req.type = .read ∨ req.type = .write)
    (hfirst : req.isFirstCommand = true) :
    ∀ a ∈ shareOfSend cfg channel req, a.Sends (InBank cfg.hbm channel) ∧ a.Fresh := by
  intro a ha
  rw [shareOfSend] at ha
  split at ha
  · rename_i hroute
    rw [List.mem_singleton.mp ha]
    exact ⟨⟨htype, hroute ▸ cfg.inBank_routed req⟩, hfirst⟩
  · cases ha

/-- The share of a run has fresh requests for banks of the channel only. -/
theorem sends_share (as : List Action) :
    ∀ a ∈ as.flatMap (share cfg channel), a.Sends (InBank cfg.hbm channel) ∧ a.Fresh := by
  apply Machine.forall_mem_flatMap
  intro a
  cases a with
  | readRow vault bank row col => exact sends_shareOfSend (Or.inl rfl) rfl
  | writeRow vault bank row col => exact sends_shareOfSend (Or.inr rfl) rfl
  | setBankRef vault bank hot =>
    intro b hb
    -- setting a bank sends nothing
    rw [share] at hb
    split at hb
    · rw [List.mem_singleton.mp hb]
      exact ⟨trivial, trivial⟩
    · cases hb
  | tickOnce =>
    intro b hb
    rw [List.mem_singleton.mp hb]
    exact ⟨trivial, trivial⟩

/-- The queues of the channels go by `RamMemory::send` on the queues alone. -/
theorem toRamMemory_send (cfg : MemoryConfig) (m : ChannelMemory) (req : RamRequest) :
    (m.send cfg req).toRamMemory cfg = ((m.toRamMemory cfg).send req).1 := by
  -- only the queues of one channel change
  have hctrls : (fun channel => ((m.send cfg req).ctrls channel).toRamController) =
      Function.update (fun channel => (m.ctrls channel).toRamController) (cfg.route req.addr)
        ((m.ctrls (cfg.route req.addr)).toRamController.enqueue (cfg.routed req)).1 := by
    funext channel
    show (Function.update m.ctrls (cfg.route req.addr) _ channel).toRamController = _
    by_cases hroute : channel = cfg.route req.addr
    · rw [hroute, Function.update_self, Function.update_self]
      rfl
    · rw [Function.update_of_ne hroute, Function.update_of_ne hroute]
  by_cases haccepted :
      ((m.ctrls (cfg.route req.addr)).toRamController.enqueue (cfg.routed req)).2 = true
  · -- a request that is accepted is counted
    have hstats : (m.send cfg req).stats =
        m.stats.countIncoming (cfg.routed req) (cfg.route req.addr) := if_pos haccepted
    have hsend : ((m.toRamMemory cfg).send req).1 = _ := congrArg Prod.fst (if_pos haccepted)
    rw [hsend, toRamMemory, hctrls, hstats]
    rfl
  · have hstats : (m.send cfg req).stats = m.stats := if_neg haccepted
    have hsend : ((m.toRamMemory cfg).send req).1 = _ := congrArg Prod.fst (if_neg haccepted)
    rw [hsend, toRamMemory, hctrls, hstats]
    rfl

/-- What the nodes of a channel count goes by its share, too. -/
theorem serving_step (hchannel : channel < cfg.channels) (m : ChannelMemory) (a : Action) :
    (step cfg m a).serving channel = (m.serving channel).bind fun s =>
      servingAfter cfg.hbm channel s ((ChannelController.machine cfg.hbm channel).outputsFrom
        (ChannelController.servingOf cfg.hbm channel) (m.ctrls channel)
          (share cfg channel a)) := by
  have hnone : m.serving channel = (m.serving channel).bind fun s =>
      servingAfter cfg.hbm channel s [] := by
    cases m.serving channel <;> rfl
  -- only a tick serves requests
  have hsend (req : RamRequest) : (ChannelController.machine cfg.hbm channel).outputsFrom
      (ChannelController.servingOf cfg.hbm channel) (m.ctrls channel)
        (shareOfSend cfg channel req) = [] := by
    rw [shareOfSend]
    split <;> rfl
  cases a with
  | readRow vault bank row col =>
    rw [share, hsend]
    exact hnone
  | writeRow vault bank row col =>
    rw [share, hsend]
    exact hnone
  | setBankRef vault bank hot =>
    have hset : (ChannelController.machine cfg.hbm channel).outputsFrom
        (ChannelController.servingOf cfg.hbm channel) (m.ctrls channel)
          (share cfg channel (.setBankRef vault bank hot)) = [] := by
      rw [share]
      split <;> rfl
    rw [hset]
    exact hnone
  | tickOnce =>
    show (m.tick cfg).serving channel = _
    rw [(tick_eq cfg m).2.1]
    have hshare : (ChannelController.machine cfg.hbm channel).outputsFrom
        (ChannelController.servingOf cfg.hbm channel) (m.ctrls channel)
          (share cfg channel .tickOnce) =
        (m.ctrls channel).servingOf cfg.hbm channel .tick := List.append_nil _
    rw [hshare]
    exact if_pos hchannel

/-- What the nodes of a channel count after a run of the memory. -/
theorem servingAfter_run (hchannel : channel < cfg.channels) (as : List Action) :
    ((machine cfg).run as).serving channel = servingAfter cfg.hbm channel (fun _ => .new)
      (ChannelController.servingCalls cfg.hbm channel (as.flatMap (share cfg channel))) := by
  induction as using List.reverseRecOn with
  | nil => rfl
  | append_singleton as a ih =>
    rw [Machine.run_concat]
    -- one more action, by its share
    show (step cfg _ a).serving channel = _
    rw [serving_step hchannel, ih, (component hchannel).view_run, List.flatMap_append,
      List.flatMap_singleton, ChannelController.servingCalls, ChannelController.servingCalls,
      Machine.outputs_append, servingAfter_append]

/-- In every run of the memory, every channel behaves as a channel on its own that is sent its share
of the calls: fresh reads and writes for banks of this channel, whatever rows are read and written.
No assertion about its requests in service fails, and its nodes count them right. -/
theorem channel_run (cfg : MemoryConfig) (hlat : 1 < cfg.hbm.speed.readLatency) (as : List Action)
    {channel : ℕ} (hchannel : channel < cfg.channels) :
    let m := (machine cfg).run as
    let bs := as.flatMap (share cfg channel)
    m.ctrls channel = (ChannelController.machine cfg.hbm channel).run bs ∧
      (∀ b ∈ bs, b.Sends (InBank cfg.hbm channel) ∧ b.Fresh) ∧
      ∃ s, m.serving channel = some s ∧ ∀ node, (s node).curServingRequests =
        ChannelController.inService channel (m.ctrls channel) node := by
  intro m bs
  have hctrl : m.ctrls channel = (ChannelController.machine cfg.hbm channel).run bs :=
    ctrls_run hchannel as
  obtain ⟨-, -, -, s, hs, hcounts⟩ :=
    ChannelController.servingCounts_run hlat bs (sends_share as)
  refine ⟨hctrl, sends_share as, s, (servingAfter_run hchannel as).trans hs, fun node => ?_⟩
  rw [hctrl]
  exact (hcounts node).cur

/-- Two channels of one rank with two banks, for rows of four columns. -/
def twoChannels : MemoryConfig where
  hbm :=
    { speed := .hbm1Gbps
      count := fun
        | .channel => 2 ^ 1
        | .rank => 2 ^ 0
        | .bank => 2 ^ 1
        | .row => 2 ^ 13
        | .column => 2 ^ 4 }
  type := .roBaRaCoCh
  addrBits :=
    { width := fun
        | .channel => 1
        | .rank => 0
        | .bank => 1
        | .row => 13
        | .column => 2
      width_le := fun level => by cases level <;> decide
      sum_le := by decide }
  count_pos level := by cases level <;> decide
  width_eq level := by
    cases level with
    | channel => exact (calcLog2_two_pow 1).symm
    | rank => exact (calcLog2_two_pow 0).symm
    | bank => exact (calcLog2_two_pow 1).symm
    | row => exact (calcLog2_two_pow 13).symm
    | column =>
      have hprefetch : calcLog2 prefetchSize = 2 := calcLog2_two_pow 2
      rw [if_pos rfl, hprefetch]
      show 2 = calcLog2 (2 ^ 4) - 2
      rw [calcLog2_two_pow]

/-- A write to each of the two channels and a read of one of the rows. -/
def writeBoth : List Action :=
  [.writeRow 0 1 7 3, .writeRow 1 0 9 2, .tickOnce, .readRow 1 0 9 2, .tickOnce, .tickOnce]

/-- The second of two channels. -/
theorem channel_run_writeBoth :
    let m := (machine twoChannels).run writeBoth
    let bs := writeBoth.flatMap (share twoChannels 1)
    m.ctrls 1 = (ChannelController.machine twoChannels.hbm 1).run bs ∧
      (∀ b ∈ bs, b.Sends (InBank twoChannels.hbm 1) ∧ b.Fresh) ∧
      ∃ s, m.serving 1 = some s ∧ ∀ node, (s node).curServingRequests =
        ChannelController.inService 1 (m.ctrls 1) node :=
  channel_run twoChannels (by decide) writeBoth (by decide)

end ChannelMemory

end StackedDram.Ramulator
