import Mathlib.Algebra.BigOperators.Group.Finset.Basic
import StackedDram.Ramulator.MemoryCoherence
import StackedDram.Ramulator.Simulator

/-!
# Runs of the simulator

Only writes wait to be sent (`Sound`), so every call ends, and the memory does what it does in a run
of its own: it is told the ticks and the temperatures of the banks when the simulator is, and sent
only writes that a call has asked for (`memory_run`). So what holds in every run of the memory holds
of the simulator's, such as its assertions (`memory_assertions`).

An update sends a write again and again until its queue is full, so it fills the queues of all
channels that have a write waiting, each with copies of the first one (`filled`,
`updateLatency_run`).
-/

namespace StackedDram.Ramulator

open RamController (queueMax)

namespace Simulator

variable {cfg : MemoryConfig} {m : ChannelMemory} {r : DramModel.Request}
  {reqs : List DramModel.Request}

/-! ## Sending a write -/

/-- An access to a row changes one channel. -/
theorem ctrls_step_rowAction (m : ChannelMemory) (r : DramModel.Request) :
    (m.step cfg (rowAction r)).ctrls = Function.update m.ctrls (channel cfg r)
      ((m.ctrls (channel cfg r)).enqueue (cfg.routed (rowRequest cfg r))) := by
  rw [step_rowAction]
  rfl

variable (cfg) in
/-- A write of the simulator is a write of the memory. -/
theorem type_rowRequest (hr : r.type = 1) : (rowRequest cfg r).type = .write := by
  show r.requestType = .write
  rw [DramModel.Request.requestType, hr]
  rfl

/-- No channel has more writes waiting than its queue can hold. -/
def Capacity (m : ChannelMemory) : Prop := ∀ c, (m.ctrls c).writeq.length ≤ queueMax

/-- The free places in the write queue of a channel. -/
def free (m : ChannelMemory) (c : ℕ) : ℕ := queueMax - (m.ctrls c).writeq.length

/-- A write that comes in waits, unless the queue is full. -/
theorem enqueue_write (c : ChannelController) {req : RamRequest} (hreq : req.type = .write) :
    c.enqueue req = if c.writeq.length = queueMax then c
      else { c with writeq := c.writeq ++ [{ req with arrive := c.clk }] } := by
  have hqueue : c.getQueue req.type = c.writeq := by rw [hreq]; rfl
  rcases c.enqueue_cases req with ⟨hfull, heq⟩ | ⟨-, hforward, -⟩ | ⟨hroom, -, heq⟩
  · rw [hqueue] at hfull
    rw [heq, if_pos hfull]
  · rw [hreq] at hforward
    exact absurd hforward.1 (by decide)
  · rw [hqueue] at hroom heq
    rw [heq, if_neg hroom, hreq]
    rfl

/-- A write is accepted if there is a place for it. -/
theorem accepts_iff (hr : r.type = 1) :
    m.accepts cfg (rowRequest cfg r) = true ↔
      (m.ctrls (channel cfg r)).writeq.length ≠ queueMax := by
  have htype : (cfg.routed (rowRequest cfg r)).type = .write := type_rowRequest cfg hr
  have hqueue : (m.ctrls (channel cfg r)).toRamController.getQueue
      (cfg.routed (rowRequest cfg r)).type = (m.ctrls (channel cfg r)).writeq := by
    rw [htype]
    rfl
  rw [ChannelMemory.accepts]
  -- a full queue refuses the write, any other accepts it
  by_cases hfull : (m.ctrls (channel cfg r)).writeq.length = queueMax
  · have hrefused := RamController.enqueue_of_full (hqueue ▸ hfull)
    rw [channel] at hrefused
    rw [hrefused]
    exact iff_of_false Bool.false_ne_true fun h => h hfull
  · have haccepted := RamController.enqueue_of_not_forward (hqueue ▸ hfull) fun h => by
      rw [htype] at h
      exact absurd h.1 (by decide)
    rw [channel] at haccepted
    rw [haccepted]
    exact iff_of_true rfl hfull

/-- A channel after the same write has been sent to it until its queue is full. -/
def fill (c : ChannelController) (req : RamRequest) : ChannelController :=
  { c with writeq :=
      c.writeq ++ List.replicate (queueMax - c.writeq.length) { req with arrive := c.clk } }

/-- A full queue stays as it is. -/
theorem fill_of_full {c : ChannelController} (h : c.writeq.length = queueMax) (req : RamRequest) :
    fill c req = c := by
  rw [fill, h, Nat.sub_self, List.replicate_zero, List.append_nil]

/-- A queue that has been filled is full. -/
theorem length_writeq_fill {c : ChannelController} (h : c.writeq.length ≤ queueMax)
    (req : RamRequest) : (fill c req).writeq.length = queueMax := by
  show (c.writeq ++ List.replicate _ _).length = queueMax
  rw [List.length_append, List.length_replicate, Nat.add_sub_cancel' h]

/-- Sending the write once more fills the same queue. -/
theorem fill_enqueue {c : ChannelController} {req : RamRequest} (hreq : req.type = .write)
    (hle : c.writeq.length ≤ queueMax) : fill (c.enqueue req) req = fill c req := by
  rw [enqueue_write c hreq]
  split
  · rfl
  · rename_i hroom
    have hlength : queueMax - c.writeq.length =
        queueMax - (c.writeq ++ [{ req with arrive := c.clk }]).length + 1 := by
      rw [List.length_append, List.length_singleton]
      omega
    rw [fill, fill, hlength, List.replicate_succ]
    simp only [List.append_assoc, List.singleton_append]

/-- Attempt after attempt fills the queue. -/
theorem iterate_enqueue {req : RamRequest} (hreq : req.type = .write) (n : ℕ)
    {c : ChannelController} (hn : c.writeq.length + n = queueMax) :
    (fun c : ChannelController => c.enqueue req)^[n] c = fill c req := by
  induction n generalizing c with
  | zero => exact (fill_of_full hn req).symm
  | succ n ih =>
    have hroom : c.writeq.length ≠ queueMax := by omega
    have hlength : (c.enqueue req).writeq.length = c.writeq.length + 1 := by
      rw [enqueue_write c hreq, if_neg hroom]
      exact List.length_append
    -- one write is added, and the others by induction
    rw [Function.iterate_succ_apply, ih (by omega), fill_enqueue hreq (by omega)]

theorem ctrls_iterate (m : ChannelMemory) (r : DramModel.Request) (k : ℕ) :
    ((fun m => ChannelMemory.step cfg m (rowAction r))^[k] m).ctrls =
      Function.update m.ctrls (channel cfg r)
        ((fun c : ChannelController => c.enqueue (cfg.routed (rowRequest cfg r)))^[k]
          (m.ctrls (channel cfg r))) := by
  induction k generalizing m with
  | zero => exact (Function.update_eq_self _ _).symm
  | succ k ih =>
    rw [Function.iterate_succ_apply, ih, ctrls_step_rowAction, Function.update_self,
      Function.update_idem, Function.iterate_succ_apply]

variable (cfg) in
/-- A write to a channel whose queue is not too long is sent until the queue is full. -/
theorem loop_sendRow (hm : Capacity m) (hr : r.type = 1) :
    ∃ m', Retry.loop (sendRow cfg r) 33 m = some (m', free m (channel cfg r) + 1) ∧
      m'.ctrls = Function.update m.ctrls (channel cfg r)
        (fill (m.ctrls (channel cfg r)) (cfg.routed (rowRequest cfg r))) ∧
      ∃ n, m' = (ChannelMemory.machine cfg).runFrom m (List.replicate n (rowAction r)) := by
  have htype : (cfg.routed (rowRequest cfg r)).type = .write := type_rowRequest cfg hr
  set c := channel cfg r with hc
  -- no attempt concerns any other channel
  have hother (m₁ : ChannelMemory) : (m₁.step cfg (rowAction r)).ctrls =
      Function.update m₁.ctrls c ((m₁.ctrls c).enqueue (cfg.routed (rowRequest cfg r))) :=
    ctrls_step_rowAction m₁ r
  have hkeep (m₁ : ChannelMemory) (h₁ : (m₁.ctrls c).writeq.length ≤ queueMax) :
      ((m₁.step cfg (rowAction r)).ctrls c).writeq.length ≤ queueMax ∧
        (0 < free m₁ c → free (m₁.step cfg (rowAction r)) c + 1 = free m₁ c) := by
    rw [free, free, hother, Function.update_self, enqueue_write _ htype]
    split
    · exact ⟨h₁, by omega⟩
    · rw [List.length_append, List.length_singleton]
      omega
  have hyes (m₁ : ChannelMemory) (h₁ : (m₁.ctrls c).writeq.length ≤ queueMax) :
      (sendRow cfg r m₁).2 = true ↔ 0 < free m₁ c := by
    show m₁.accepts cfg (rowRequest cfg r) = true ↔ _
    rw [accepts_iff hr, free, ← hc]
    omega
  have hfuel : free m c < 33 := by
    have hmax : queueMax = 32 := rfl
    rw [free]
    omega
  have hloop := Retry.loop_of_countdown (free · c) (fun m₁ h₁ => (hkeep m₁ h₁).1) hyes
    (fun m₁ h₁ => (hkeep m₁ h₁).2) (hm c) hfuel
  refine ⟨_, hloop, ?_, free m c + 1, ?_⟩
  · show ((fun m => ChannelMemory.step cfg m (rowAction r))^[free m c + 1] m).ctrls = _
    have hfull : (fill (m.ctrls c) (cfg.routed (rowRequest cfg r))).writeq.length = queueMax :=
      length_writeq_fill (hm c) _
    -- the last attempt finds the queue full
    have hiter := iterate_enqueue htype (free m c) (Nat.add_sub_cancel' (hm c))
    rw [ctrls_iterate, ← hc, Function.iterate_succ_apply', hiter, enqueue_write _ htype,
      if_pos hfull]
  · exact ((ChannelMemory.machine cfg).runFrom_replicate m (rowAction r) _).symm

/-! ## An update -/

/-- A channel after an update: its queue is full if one of the requests is for it, and the first of
these takes all free places. -/
def filled (cfg : MemoryConfig) (m : ChannelMemory) (reqs : List DramModel.Request) (c : ℕ) :
    ChannelController :=
  match reqs.find? fun r => channel cfg r = c with
  | some r => fill (m.ctrls c) (cfg.routed (rowRequest cfg r))
  | none => m.ctrls c

/-- The number of attempts of an update: one for each request that is refused in the end, and one
for each place that is filled. -/
def attempts (cfg : MemoryConfig) (m : ChannelMemory) (reqs : List DramModel.Request) : ℕ :=
  reqs.length + ∑ c ∈ Finset.range cfg.channels,
    if ∃ r ∈ reqs, channel cfg r = c then free m c else 0

/-- The first request fills its channel. -/
theorem filled_cons {m' : ChannelMemory} (hm : Capacity m)
    (hctrls : m'.ctrls = Function.update m.ctrls (channel cfg r)
      (fill (m.ctrls (channel cfg r)) (cfg.routed (rowRequest cfg r)))) :
    filled cfg m' reqs = filled cfg m (r :: reqs) := by
  funext c
  rw [filled, filled]
  by_cases hc : channel cfg r = c
  · subst hc
    have hfull := length_writeq_fill (hm (channel cfg r)) (cfg.routed (rowRequest cfg r))
    rw [List.find?_cons_of_pos (by simp), hctrls, Function.update_self]
    cases reqs.find? fun r' => channel cfg r' = channel cfg r with
    | none => rfl
    | some r' => exact fill_of_full hfull _
  · rw [List.find?_cons_of_neg (by simpa using hc), hctrls, Function.update_of_ne (Ne.symm hc)]

/-- The first request takes as many attempts as its channel has free places, and one more. -/
theorem attempts_cons {m' : ChannelMemory} (hm : Capacity m)
    (hctrls : m'.ctrls = Function.update m.ctrls (channel cfg r)
      (fill (m.ctrls (channel cfg r)) (cfg.routed (rowRequest cfg r)))) :
    attempts cfg m (r :: reqs) = free m (channel cfg r) + 1 + attempts cfg m' reqs := by
  have hmem : channel cfg r ∈ Finset.range cfg.channels := Finset.mem_range.mpr (cfg.route_lt _)
  have hfull : free m' (channel cfg r) = 0 := by
    rw [free, hctrls, Function.update_self, length_writeq_fill (hm _), Nat.sub_self]
  have hother : ∀ c ∈ (Finset.range cfg.channels).erase (channel cfg r),
      (if ∃ r' ∈ r :: reqs, channel cfg r' = c then free m c else 0) =
        if ∃ r' ∈ reqs, channel cfg r' = c then free m' c else 0 := by
    intro c hc
    have hne : channel cfg r ≠ c := (Finset.ne_of_mem_erase hc).symm
    have hfree : free m' c = free m c := by
      rw [free, hctrls, Function.update_of_ne (Ne.symm hne), free]
    simp [hne, hfree]
  rw [attempts, attempts, ← Finset.add_sum_erase _ _ hmem, ← Finset.add_sum_erase _ _ hmem,
    Finset.sum_congr rfl hother, hfull, if_pos ⟨r, List.mem_cons_self, rfl⟩, List.length_cons,
    ite_self]
  omega

/-- What the loop of an update does with writes. -/
structure Sent (cfg : MemoryConfig) (st : Sending) (reqs : List DramModel.Request)
    (st' : Sending) : Prop where
  ctrls : st'.memory.ctrls = filled cfg st.memory reqs
  readClks : st'.readClks = st.readClks
  nReads : st'.nReads = st.nReads
  writeClks : st'.writeClks = st.writeClks + attempts cfg st.memory reqs
  nWrites : st'.nWrites = st.nWrites + reqs.length
  memory : ∃ as, st'.memory = (ChannelMemory.machine cfg).runFrom st.memory as ∧
    ∀ a ∈ as, ∃ r ∈ reqs, a = rowAction r

variable (cfg) in
/-- The loop of an update ends when only writes wait. -/
theorem sent_of_writes {st : Sending} (hm : Capacity st.memory) (hreqs : ∀ r ∈ reqs, r.type = 1) :
    ∃ st', reqs.foldlM (Sending.sendRequest cfg 33) st = some st' ∧ Sent cfg st reqs st' := by
  induction reqs generalizing st with
  | nil =>
    refine ⟨st, rfl, ⟨rfl, rfl, rfl, ?_, rfl, [], rfl, by simp⟩⟩
    simp [attempts]
  | cons r reqs ih =>
    obtain ⟨hr, hreqs⟩ := List.forall_mem_cons.mp hreqs
    obtain ⟨m', hloop, hctrls, n, hmemory⟩ := loop_sendRow cfg hm hr
    -- the state after the first request
    let st₁ : Sending :=
      { memory := m'
        readClks := st.readClks
        writeClks := st.writeClks + (free st.memory (channel cfg r) + 1)
        nReads := st.nReads
        nWrites := st.nWrites + 1 }
    -- its channel is full, and the others are as before
    have hcapacity : Capacity st₁.memory := by
      intro c
      show (m'.ctrls c).writeq.length ≤ queueMax
      rw [hctrls]
      by_cases hc : c = channel cfg r
      · rw [hc, Function.update_self, length_writeq_fill (hm _)]
      · rw [Function.update_of_ne hc]
        exact hm c
    obtain ⟨st', hrest, hsent⟩ := ih hcapacity hreqs
    obtain ⟨as, has, hrows⟩ := hsent.memory
    refine ⟨st', ?_, ⟨?_, hsent.readClks, hsent.nReads, ?_, ?_,
      List.replicate n (rowAction r) ++ as, ?_, ?_⟩⟩
    · refine Option.bind_eq_some_iff.mpr ⟨st₁, ?_, hrest⟩
      rw [Sending.sendRequest, hloop]
      simp [hr, st₁]
    · rw [hsent.ctrls]
      exact filled_cons hm hctrls
    · rw [hsent.writeClks, attempts_cons hm hctrls]
      exact Nat.add_assoc _ _ _
    · rw [hsent.nWrites, List.length_cons]
      exact Nat.add_right_comm _ 1 _
    · rw [has, Machine.runFrom_append, ← hmemory]
    · intro a ha
      rcases List.mem_append.mp ha with ha | ha
      · exact ⟨r, List.mem_cons_self, List.eq_of_mem_replicate ha⟩
      · obtain ⟨r', hr', heq⟩ := hrows a ha
        exact ⟨r', List.mem_cons_of_mem r hr', heq⟩

/-- What holds between calls: only writes wait to be sent, and no channel has too many writes. -/
structure Sound (d : Simulator) : Prop where
  writes : ∀ r ∈ d.reqQueue, r.type = 1
  capacity : Capacity d.memory

/-- The latencies have been updated with the requests `reqs`; the latency of writes is known if an
`int` counts the attempts. -/
structure Updated (cfg : MemoryConfig) (d : Simulator) (reqs : List DramModel.Request)
    (pktTime : BitVec 64) (d' : Simulator) : Prop where
  lastReqTime : d'.lastReqTime = pktTime
  nUpdates : d'.nUpdates = d.nUpdates + 1
  reqQueue : d'.reqQueue = []
  ctrls : d'.memory.ctrls = filled cfg d.memory reqs
  recentReadLatency : d'.recentReadLatency = readLatency cfg
  recentWriteLatency : 33 * reqs.length < 2 ^ 31 → d'.recentWriteLatency =
    (if reqs.length = 0 then 0 else attempts cfg d.memory reqs / reqs.length) + readLatency cfg

variable {d d' : Simulator} {t : BitVec 64}

/-- An update leaves no room in the channel of a request. -/
theorem Updated.length_writeq (h : Updated cfg d reqs t d') (hd : Capacity d.memory)
    (hr : r ∈ reqs) : (d'.memory.ctrls (channel cfg r)).writeq.length = queueMax := by
  rw [h.ctrls, filled]
  have hsome : (reqs.find? fun r' => channel cfg r' = channel cfg r).isSome = true :=
    List.find?_isSome.mpr ⟨r, hr, decide_eq_true rfl⟩
  obtain ⟨r', hr'⟩ := Option.isSome_iff_exists.mp hsome
  rw [hr']
  exact length_writeq_fill (hd _) _

variable (cfg) in
/-- An update ends, and the memory is sent nothing but the requests. -/
theorem Sound.updateLatency (h : d.Sound) (hlate : 200 < t - d.lastReqTime) :
    ∃ d', d.updateLatency cfg 33 t = some d' ∧ Updated cfg d d.reqQueue t d' ∧
      ∃ as, d'.memory = (ChannelMemory.machine cfg).runFrom d.memory as ∧
        ∀ a ∈ as, ∃ r ∈ d.reqQueue, a = rowAction r := by
  -- `updateLatency` makes the test once more, the other way round
  have hlate' : ¬ t - d.lastReqTime < 200 := by
    intro hearly
    exact absurd (BitVec.lt_trans hlate hearly) (BitVec.lt_irrefl _)
  have hcapacity : Capacity (⟨d.memory, 0, 0, 0, 0⟩ : Sending).memory := h.capacity
  obtain ⟨st, hst, hsent⟩ := sent_of_writes cfg hcapacity h.writes
  refine ⟨d.finishUpdate cfg t st, ?_, ⟨rfl, rfl, rfl, hsent.ctrls, ?_, ?_⟩, hsent.memory⟩
  · rw [Simulator.updateLatency, if_neg hlate', sendAll, hst]
    rfl
  · show (if st.nReads = 0 then 0 else _) + _ = _
    rw [hsent.nReads, if_pos rfl, Nat.zero_add]
  · intro _
    show (if st.nWrites = 0 then 0 else st.writeClks / st.nWrites) + _ = _
    rw [hsent.nWrites, hsent.writeClks]
    simp only [Nat.zero_add]

/-! ## Calls -/

/-- The requests that a call puts in the queue. -/
def Call.queued : Call → List DramModel.Request
  | .getWriteLatency vault bank row col _ => [⟨1, vault, bank, row, col⟩]
  | _ => []

/-- The time of the packet of a call. -/
def Call.pktTime : Call → Option (BitVec 64)
  | .getReadLatency _ _ _ _ pktTime => some pktTime
  | .getWriteLatency _ _ _ _ pktTime => some pktTime
  | _ => none

/-- What a call tells the memory at once. -/
def Call.told : Call → Option ChannelMemory.Action
  | .tickOnce => some .tickOnce
  | .setBankRef vault bank hot => some (.setBankRef vault bank hot)
  | _ => none

/-- A row is read or written. -/
def isRow : ChannelMemory.Action → Bool
  | .readRow _ _ _ _ => true
  | .writeRow _ _ _ _ => true
  | _ => false

/-- A request of the simulator accesses a row. -/
theorem isRow_rowAction (r : DramModel.Request) : isRow (rowAction r) = true := by
  rw [rowAction]
  split <;> rfl

/-- A tick adds no writes. -/
theorem length_writeq_tick (hbm : HBM) (channelId : ℕ) (c : ChannelController) :
    (c.tick hbm channelId).writeq.length ≤ c.writeq.length := by
  obtain ⟨-, hwriteq, -⟩ := ChannelController.prepare_queues hbm channelId c
  rcases c.tick_cases hbm channelId with ⟨-, htick⟩ | ⟨req, i, cmd, -, -, -, -, htick⟩
  · rw [htick, hwriteq]
  · rw [htick, ← hwriteq]
    -- only a tick that schedules a write changes the queue of the writes
    cases hselected : (c.prepare hbm channelId).selectedQueue with
    | write =>
      show ((c.prepare hbm channelId).queueAfter req i cmd).length ≤ _
      rw [ChannelController.queueAfter, hselected]
      split
      · exact List.length_set.le
      · exact List.length_eraseIdx_le _ i
    | _ => exact le_rfl

/-- No channel has too many writes after a tick. -/
theorem Capacity.tick (h : Capacity m) : Capacity (m.tick cfg) := by
  intro c
  rw [(ChannelMemory.tick_eq cfg m).1]
  dsimp only
  split
  · exact (length_writeq_tick _ _ _).trans (h c)
  · exact h c

/-- No channel has too many writes after a bank has become hot or cool. -/
theorem Capacity.setBankRef (h : Capacity m) (vault bank : ℕ) (hot : Bool) :
    Capacity (m.setBankRef cfg vault bank hot) := by
  intro c
  show (Function.update m.ctrls vault _ c).writeq.length ≤ queueMax
  by_cases hc : c = vault
  · rw [hc, Function.update_self]
    exact h vault
  · rw [Function.update_of_ne hc]
    exact h c

/-- What a call does. -/
structure Called (cfg : MemoryConfig) (d : Simulator) (c : Call) (d' : Simulator) : Prop where
  sound : d'.Sound
  reqQueue : ∀ r ∈ d'.reqQueue, r ∈ d.reqQueue ++ c.queued
  memory : ∃ as, d'.memory = (ChannelMemory.machine cfg).runFrom d.memory as ∧
    as.filter (fun a => !isRow a) = c.told.toList ∧
    ∀ a ∈ as, isRow a = true → ∃ r ∈ d.reqQueue ++ c.queued, a = rowAction r
  latency : ∀ t, c.pktTime = some t →
    200 < t - d.lastReqTime ∧ Updated cfg d (d.reqQueue ++ c.queued) t d' ∨
      ¬ 200 < t - d.lastReqTime ∧ d' = { d with reqQueue := d.reqQueue ++ c.queued }

/-- The queue after a call, before the latencies are looked at. -/
theorem Sound.queue (h : d.Sound) (c : Call) :
    Sound { d with reqQueue := d.reqQueue ++ c.queued } := by
  refine ⟨fun r hr => ?_, h.capacity⟩
  rcases List.mem_append.mp hr with hr | hr
  · exact h.writes r hr
  · cases c with
    | getWriteLatency vault bank row col t =>
      rw [List.mem_singleton.mp hr]
    | _ => exact absurd hr List.not_mem_nil

variable (cfg) in
/-- A call that looks at the latencies, once its request is in the queue. -/
theorem Sound.checkTime (h : d.Sound) {c : Call} (hc : c.pktTime = some t) :
    ∃ d', checkTime cfg 33 { d with reqQueue := d.reqQueue ++ c.queued } t = some d' ∧
      Called cfg d c d' := by
  have hqueue := h.queue c
  have htold : c.told = none := by
    cases c with
    | tickOnce => cases hc
    | setBankRef vault bank hot => cases hc
    | _ => rfl
  by_cases hlate : 200 < t - d.lastReqTime
  · obtain ⟨d', hd', hupdated, as, hmemory, hrows⟩ := hqueue.updateLatency cfg hlate
    have hupdated : Updated cfg d (d.reqQueue ++ c.queued) t d' :=
      ⟨hupdated.1, hupdated.2, hupdated.3, hupdated.4, hupdated.5, hupdated.6⟩
    have hnone : as.filter (fun a => !isRow a) = [] := by
      rw [List.filter_eq_nil_iff]
      intro a ha
      obtain ⟨r, -, rfl⟩ := hrows a ha
      rw [isRow_rowAction]
      exact Bool.false_ne_true
    refine ⟨d', (if_pos hlate).trans hd', ⟨?_, ?_⟩, ?_, ⟨as, hmemory, ?_, ?_⟩, ?_⟩
    · rw [hupdated.reqQueue]
      exact fun r hr => absurd hr List.not_mem_nil
    · intro k
      rw [hupdated.ctrls, filled]
      split
      · exact (length_writeq_fill (h.capacity k) _).le
      · exact h.capacity k
    · rw [hupdated.reqQueue]
      exact fun r hr => absurd hr List.not_mem_nil
    · rw [hnone, htold]
      rfl
    · exact fun a ha _ => hrows a ha
    · intro t' ht'
      obtain rfl := Option.some.inj (hc.symm.trans ht')
      exact Or.inl ⟨hlate, hupdated⟩
  · refine ⟨_, if_neg hlate, hqueue, fun r hr => hr, ⟨[], rfl, ?_, by simp⟩, ?_⟩
    · rw [htold]
      rfl
    · intro t' ht'
      obtain rfl := Option.some.inj (hc.symm.trans ht')
      exact Or.inr ⟨hlate, rfl⟩

variable (cfg) in
/-- Every call ends. -/
theorem Sound.call_spec (h : d.Sound) (c : Call) :
    ∃ d', d.call cfg 33 c = some d' ∧ Called cfg d c d' := by
  cases c with
  | tickOnce =>
    exact ⟨_, rfl, ⟨h.writes, h.capacity.tick⟩, fun r hr => List.mem_append_left _ hr,
      ⟨[.tickOnce], rfl, rfl, by simp [isRow]⟩, by simp [Call.pktTime]⟩
  | setBankRef vault bank hot =>
    exact ⟨_, rfl, ⟨h.writes, h.capacity.setBankRef vault bank hot⟩,
      fun r hr => List.mem_append_left _ hr,
      ⟨[.setBankRef vault bank hot], rfl, rfl, by simp [isRow]⟩, by simp [Call.pktTime]⟩
  | getReadLatency vault bank row col t =>
    obtain ⟨d', hd', hcalled⟩ := h.checkTime cfg
      (c := .getReadLatency vault bank row col t) rfl
    refine ⟨d', ?_, hcalled⟩
    -- a read is not put in the queue
    have hsame : ({ d with reqQueue := d.reqQueue ++ [] } : Simulator) = d := by
      rw [List.append_nil]
    have hd' : ({ d with reqQueue := d.reqQueue ++ [] } : Simulator).checkTime cfg 33 t =
      some d' := hd'
    rw [hsame] at hd'
    rw [call, getReadLatency, hd']
    rfl
  | getWriteLatency vault bank row col t =>
    obtain ⟨d', hd', hcalled⟩ := h.checkTime cfg
      (c := .getWriteLatency vault bank row col t) rfl
    refine ⟨d', ?_, hcalled⟩
    rw [Call.queued] at hd'
    rw [call, getWriteLatency, hd']
    rfl

/-! ## Runs -/

/-- The memory has done what it does in a run of its own, with the writes of the calls `cs`. -/
structure Drives (cfg : MemoryConfig) (cs : List Call) (d : Simulator) : Prop where
  sound : d.Sound
  reqQueue : ∀ r ∈ d.reqQueue, r ∈ cs.flatMap Call.queued
  memory : ∃ as, d.memory = (ChannelMemory.machine cfg).run as ∧
    as.filter (fun a => !isRow a) = cs.filterMap Call.told ∧
    ∀ a ∈ as, isRow a = true → ∃ r ∈ cs.flatMap Call.queued, a = rowAction r

/-- What holds of a run holds with one more call. -/
theorem Drives.call {cs : List Call} {c : Call} (h : Drives cfg cs d) (hc : Called cfg d c d') :
    Drives cfg (cs ++ [c]) d' := by
  have hmem : ∀ r ∈ d.reqQueue ++ c.queued, r ∈ (cs ++ [c]).flatMap Call.queued := by
    intro r hr
    rw [List.flatMap_append, List.flatMap_singleton]
    exact List.mem_append.mpr ((List.mem_append.mp hr).imp_left (h.reqQueue r))
  refine ⟨hc.sound, fun r hr => hmem r (hc.reqQueue r hr), ?_⟩
  obtain ⟨as, has, htold, hrows⟩ := h.memory
  obtain ⟨bs, hbs, htold', hrows'⟩ := hc.memory
  -- the calls before and this one, one after the other
  refine ⟨as ++ bs, ?_, ?_, fun a ha hrow => ?_⟩
  · rw [hbs, has, Machine.run_append]
  · rw [List.filter_append, htold, htold', List.filterMap_append]
    cases hc : c.told <;> simp [hc]
  · rcases List.mem_append.mp ha with ha | ha
    · obtain ⟨r, hr, heq⟩ := hrows a ha hrow
      refine ⟨r, ?_, heq⟩
      rw [List.flatMap_append]
      exact List.mem_append_left _ hr
    · obtain ⟨r, hr, heq⟩ := hrows' a ha hrow
      exact ⟨r, hmem r hr, heq⟩

/-- Every call of a run ends, and the memory does what it does in a run of its own. -/
theorem drives_run (cfg : MemoryConfig) (avgUpdateTime : ℚ) (cs : List Call) :
    ∃ d, (machine cfg 33 avgUpdateTime).run cs = some d ∧ Drives cfg cs d := by
  induction cs using List.reverseRecOn with
  | nil =>
    refine ⟨_, rfl, ⟨fun r hr => absurd hr List.not_mem_nil, fun _ => Nat.zero_le _⟩,
      fun r hr => absurd hr List.not_mem_nil, [], rfl, rfl, ?_⟩
    exact fun a ha => absurd ha List.not_mem_nil
  | append_singleton cs c ih =>
    obtain ⟨d, hd, hdrives⟩ := ih
    obtain ⟨d', hd', hcalled⟩ := hdrives.sound.call_spec cfg c
    refine ⟨d', ?_, hdrives.call hcalled⟩
    rw [Machine.run_concat, hd]
    exact hd'

/-- In every run, every call ends. The memory has then done what it does in a run of its own: its
clock has ticked and its banks have become hot and cool as the simulator was told, in the same
order, and every row that was accessed in between is one that a call asked to write. -/
theorem memory_run (cfg : MemoryConfig) (avgUpdateTime : ℚ) (cs : List Call) :
    ∃ d as, (machine cfg 33 avgUpdateTime).run cs = some d ∧
      d.memory = (ChannelMemory.machine cfg).run as ∧
      as.filter (fun a => !isRow a) = cs.filterMap Call.told ∧
      ∀ a ∈ as, isRow a = true → ∃ r ∈ cs.flatMap Call.queued, a = rowAction r := by
  obtain ⟨d, hd, hdrives⟩ := drives_run cfg avgUpdateTime cs
  obtain ⟨as, has, htold, hrows⟩ := hdrives.memory
  exact ⟨d, as, hd, has, htold, hrows⟩

/-- In every run, the assertions about the requests in service hold, and in a channel with a light
load the one that a refresh is accepted. -/
theorem memory_assertions (cfg : MemoryConfig) (hlat : 1 < cfg.hbm.speed.readLatency)
    (avgUpdateTime : ℚ) (cs : List Call) {channel : ℕ} (hchannel : channel < cfg.channels)
    (hload : ChannelController.LightLoad cfg.hbm channel) :
    ∃ d, (machine cfg 33 avgUpdateTime).run cs = some d ∧
      (∃ s, d.memory.serving channel = some s) ∧
      ∀ before req after,
        (d.memory.ctrls channel).injected cfg.hbm channel = before ++ req :: after →
        ((before.foldl ChannelController.enqueue
          ((d.memory.ctrls channel).beforeInjections cfg.hbm channel)).toRamController.enqueue
            req).2 = true := by
  obtain ⟨d, hd, hdrives⟩ := drives_run cfg avgUpdateTime cs
  obtain ⟨as, has, -⟩ := hdrives.memory
  obtain ⟨since, slack, hrefreshing⟩ := ChannelController.refreshing_run hload
    (as.flatMap (ChannelMemory.share cfg channel)) fun b hb =>
      (ChannelMemory.sends_share as b hb).1
  obtain ⟨-, -, s, hs, -⟩ := ChannelMemory.channel_run cfg hlat as hchannel
  rw [← ChannelMemory.ctrls_run hchannel, ← has] at hrefreshing
  exact ⟨d, hd, ⟨s, has ▸ hs⟩, fun before req after => hrefreshing.accepted hload⟩

/-- After every run, a call that comes more than 200 ns after the last update, in 64 bits, updates
the latencies: it fills the queues of all channels that have a write waiting, each with copies of
the first one, and the latency of writes is the mean number of attempts that this takes, as far as
an `int` counts them. An earlier call only puts its request in the queue. -/
theorem updateLatency_run (cfg : MemoryConfig) (avgUpdateTime : ℚ) (cs : List Call) {c : Call}
    {t : BitVec 64} (hc : c.pktTime = some t) :
    ∃ d d', (machine cfg 33 avgUpdateTime).run cs = some d ∧
      (machine cfg 33 avgUpdateTime).run (cs ++ [c]) = some d' ∧
      let reqs := d.reqQueue ++ c.queued
      200 < t - d.lastReqTime ∧ Updated cfg d reqs t d' ∧
          (∀ r ∈ reqs, (d'.memory.ctrls (channel cfg r)).writeq.length = queueMax) ∨
        ¬ 200 < t - d.lastReqTime ∧ d' = { d with reqQueue := reqs } := by
  obtain ⟨d, hd, hdrives⟩ := drives_run cfg avgUpdateTime cs
  obtain ⟨d', hd', hcalled⟩ := hdrives.sound.call_spec cfg c
  refine ⟨d, d', hd, ?_, ?_⟩
  · rw [Machine.run_concat, hd]
    exact hd'
  · rcases hcalled.latency t hc with ⟨hlate, hupdated⟩ | hearly
    · exact Or.inl ⟨hlate, hupdated, fun r hr => hupdated.length_writeq hdrives.sound.capacity hr⟩
    · exact Or.inr hearly

/-- A write to each of two channels. The second call comes late, and both queues are full. -/
theorem updateLatency_run_writes :
    ∃ d, (machine ChannelMemory.twoChannels 33 0).run
        [.getWriteLatency 0 1 7 3 100, .getWriteLatency 1 0 9 2 1000] = some d ∧
      (d.memory.ctrls 0).writeq.length = queueMax ∧
      (d.memory.ctrls 1).writeq.length = queueMax ∧ d.recentWriteLatency = 33 + 9 := by
  obtain ⟨d, d', hd, hd', hcases⟩ := updateLatency_run ChannelMemory.twoChannels 0
    [.getWriteLatency 0 1 7 3 100] (c := .getWriteLatency 1 0 9 2 1000) rfl
  obtain rfl := Option.some.inj hd
  rcases hcases with ⟨-, hupdated, hfull⟩ | ⟨hearly, -⟩
  · exact ⟨d', hd', hfull _ List.mem_cons_self, hfull ⟨1, 1, 0, 9, 2⟩ (by simp [Call.queued]),
      (hupdated.recentWriteLatency (by decide)).trans (by decide +kernel)⟩
  · exact absurd (by decide) hearly

end Simulator

end StackedDram.Ramulator
