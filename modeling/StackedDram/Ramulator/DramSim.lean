import Mathlib.Data.Rat.Defs
import StackedDram.Library.Retry
import StackedDram.Ramulator.AddressMap

/-!
# Estimated latencies

`DramModel` of `dram_sim.cc` collects requests and from time to time sends them to the controllers,
in order to estimate the latencies of reads and writes from the number of attempts that this takes.

`updateLatency` takes the answer of a controller the wrong way round: it tries again as long as a
request is accepted, and stops when the queue is full. A request is added at most once if its queue
is full or has a single free place that the request takes (`Request.Fits`); a read that finds its
data in a waiting write takes no place and is accepted forever. `addsEachOnce_iff` says for which
queues this goes well for all requests.
-/

namespace StackedDram.Ramulator

/-- `DramModel::Request`. -/
structure DramModel.Request where
  /-- 0 is a read. -/
  type : ℤ
  vault : ℕ
  bank : ℕ
  row : ℕ
  col : ℕ

/-- `DramModel`. The sums are exact here. -/
structure DramModel where
  reqQueue : List DramModel.Request
  recentReadLatency : ℕ
  recentWriteLatency : ℕ
  lastReqTime : BitVec 64
  nUpdates : BitVec 32
  avgReqNum : ℚ
  avgUpdateTime : ℚ
  avgMemLatency : ℚ
  memory : RamMemory
  /-- `memory->spec->read_latency`. -/
  readLatency : ℕ

namespace DramModel

/-- The constructor of `DramModel`, which leaves `avg_update_time` as it is. -/
def new (memory : RamMemory) (readLatency : ℕ) (avgUpdateTime : ℚ) : DramModel where
  reqQueue := []
  recentReadLatency := readLatency
  recentWriteLatency := readLatency
  lastReqTime := 0
  nUpdates := 0
  avgReqNum := 0
  avgUpdateTime := avgUpdateTime
  avgMemLatency := 0
  memory := memory
  readLatency := readLatency

/-- The call of `readRow` or `writeRow` for the request. -/
def Request.send (r : Request) (m : RamMemory) : RamMemory × Bool :=
  if r.type = 0 then m.readRow r.vault r.bank r.row r.col
  else m.writeRow r.vault r.bank r.row r.col

/-- The variables of the loop of `updateLatency`. -/
structure Sending where
  memory : RamMemory
  readClks : ℕ
  writeClks : ℕ
  nReads : ℕ
  nWrites : ℕ
  /-- The requests so far, each with the number of times it has been added to a queue. The code
  does not record them. -/
  sent : List (Request × ℕ)

/-- An iteration of the loop of `updateLatency`, with a bound on the number of attempts. -/
def Sending.sendRequest (fuel : ℕ) (st : Sending) (r : Request) : Option Sending :=
  -- the loop goes on as long as the request is accepted
  (Retry.loop r.send fuel st.memory).map fun (memory, attempts) =>
    { memory
      readClks := if r.type = 0 then st.readClks + attempts else st.readClks
      writeClks := if r.type = 0 then st.writeClks else st.writeClks + attempts
      nReads := if r.type = 0 then st.nReads + 1 else st.nReads
      nWrites := if r.type = 1 then st.nWrites + 1 else st.nWrites
      sent := st.sent ++ [(r, attempts - 1)] }

/-- The loop of `updateLatency` over `req_queue`. -/
def sendAll (fuel : ℕ) (m : RamMemory) (reqs : List Request) : Option Sending :=
  reqs.foldlM (Sending.sendRequest fuel) ⟨m, 0, 0, 0, 0, []⟩

/-- The part of `updateLatency` before the loop. -/
def beginUpdate (d : DramModel) (pktTime : BitVec 64) : DramModel :=
  let elapseTime := pktTime - d.lastReqTime
  { d with
    nUpdates := d.nUpdates + 1
    avgUpdateTime := d.avgUpdateTime + elapseTime.toNat
    avgReqNum := d.avgReqNum + d.reqQueue.length
    lastReqTime := pktTime }

/-- The part of `updateLatency` after the loop. -/
def finishUpdate (d : DramModel) (st : Sending) : DramModel :=
  let recentReadLatency := (if st.nReads = 0 then 0 else st.readClks / st.nReads) + d.readLatency
  let recentWriteLatency :=
    (if st.nWrites = 0 then 0 else st.writeClks / st.nWrites) + d.readLatency
  { d with
    memory := st.memory
    reqQueue := []
    recentReadLatency := recentReadLatency
    recentWriteLatency := recentWriteLatency
    avgMemLatency := d.avgMemLatency + (recentReadLatency + recentWriteLatency : ℕ) }

/-- `DramModel::updateLatency`, with a bound on the number of attempts for each request. -/
def updateLatency (fuel : ℕ) (d : DramModel) (pktTime : BitVec 64) : Option DramModel :=
  if pktTime - d.lastReqTime < 200 then some d
  else
    let d := d.beginUpdate pktTime
    (sendAll fuel d.memory d.reqQueue).map d.finishUpdate

/-- `DramModel::getReadLatency`, with the latency it returns. -/
def getReadLatency (fuel : ℕ) (d : DramModel) (_vault _bank _row _col : ℕ) (pktTime : BitVec 64) :
    Option (DramModel × ℕ) :=
  -- reads are not put in the queue
  (if 200 < pktTime - d.lastReqTime then d.updateLatency fuel pktTime else some d).map
    fun d => (d, d.recentReadLatency)

/-- `DramModel::getWriteLatency`, with the latency it returns. -/
def getWriteLatency (fuel : ℕ) (d : DramModel) (vault bank row col : ℕ) (pktTime : BitVec 64) :
    Option (DramModel × ℕ) :=
  let d := { d with reqQueue := d.reqQueue ++ [⟨1, vault, bank, row, col⟩] }
  (if 200 < pktTime - d.lastReqTime then d.updateLatency fuel pktTime else some d).map
    fun d => (d, d.recentWriteLatency)

/-! ## A single request -/

namespace Request

variable (r : Request) (m : RamMemory)

def requestType : RequestType := if r.type = 0 then .read else .write

/-- The address that is built for the request. -/
def addr : ℕ := m.encode r.vault r.bank r.row r.col

/-- The number of the controller that the address leads to. -/
def channel : ℕ := (m.decode (r.addr m) .channel).toNat

/-- The queue in which the request would have to wait. -/
def queue : List RamRequest := (m.ctrls (r.channel m)).getQueue r.requestType

/-- The request as it gets to the controller. -/
def ramRequest : RamRequest :=
  { RamRequest.new (r.addr m) r.requestType with addrVec := m.decode (r.addr m) }

/-- The request as it waits in the queue. -/
def arrival : RamRequest := { r.ramRequest m with arrive := (m.ctrls (r.channel m)).clk }

/-- The request is a read, and a write to its address is waiting. -/
def Forwarded : Prop :=
  r.requestType = .read ∧ (m.ctrls (r.channel m)).writeq.any (·.addr = r.addr m) = true

variable {r m}

theorem requestType_eq (r : Request) : r.requestType = .read ∨ r.requestType = .write := by
  rw [requestType]
  split
  · exact Or.inl rfl
  · exact Or.inr rfl

theorem send_eq_accessRow (r : Request) (m : RamMemory) :
    r.send m = m.accessRow r.requestType r.vault r.bank r.row r.col := by
  rw [send, requestType]
  split <;> rfl

theorem send_layout (r : Request) (m : RamMemory) :
    (r.send m).1.type = m.type ∧ (r.send m).1.addrBits = m.addrBits := by
  rw [send_eq_accessRow]
  exact RamMemory.send_layout m _

/-- A request whose queue is full is refused. -/
theorem send_of_full (h : (r.queue m).length = RamController.queueMax) :
    r.send m = (m, false) := by
  rw [send_eq_accessRow]
  exact RamMemory.send_of_full h

/-- A request that is sent gets to its controller. -/
theorem send_ctrls (r : Request) (m : RamMemory) :
    let after := (m.ctrls (r.channel m)).enqueue (r.ramRequest m)
    (r.send m).1.ctrls = Function.update m.ctrls (r.channel m) after.1 ∧
      (r.send m).2 = after.2 := by
  rw [send_eq_accessRow]
  exact RamMemory.send_eq m _

/-- A read whose data is in a waiting write is accepted and waits in no queue. -/
theorem send_of_forwarded (hroom : (r.queue m).length ≠ RamController.queueMax)
    (hforward : r.Forwarded m) :
    (r.send m).2 = true ∧ ∀ c type,
      ((r.send m).1.ctrls c).getQueue type = (m.ctrls c).getQueue type := by
  have henqueue : (m.ctrls (r.channel m)).enqueue (r.ramRequest m) = _ :=
    RamController.enqueue_of_forward hroom hforward.1 hforward.2
  obtain ⟨hctrls, haccepted⟩ := send_ctrls r m
  rw [henqueue] at hctrls haccepted
  refine ⟨haccepted, fun c type => ?_⟩
  rw [hctrls]
  by_cases hc : c = r.channel m
  · subst hc
    rw [Function.update_self]
    cases type <;> rfl
  · rw [Function.update_of_ne hc]

/-- Any other request is accepted if there is room, and waits in its queue. -/
theorem send_of_not_forwarded (hroom : (r.queue m).length ≠ RamController.queueMax)
    (hforward : ¬ r.Forwarded m) :
    (r.send m).2 = true ∧ ∀ c type,
      ((r.send m).1.ctrls c).clk = (m.ctrls c).clk ∧
      ((r.send m).1.ctrls c).pending = (m.ctrls c).pending ∧
      ((r.send m).1.ctrls c).getQueue type = (m.ctrls c).getQueue type ++
        if r.channel m = c ∧ r.requestType = type then [r.arrival m] else [] := by
  have henqueue : (m.ctrls (r.channel m)).enqueue (r.ramRequest m) = _ :=
    RamController.enqueue_of_not_forward hroom hforward
  obtain ⟨hctrls, haccepted⟩ := send_ctrls r m
  rw [henqueue] at hctrls haccepted
  refine ⟨haccepted, fun c type => ?_⟩
  rw [hctrls]
  -- only the controller of the channel gets the request
  by_cases hc : c = r.channel m
  · subst hc
    rw [Function.update_self]
    refine ⟨RamController.clk_pushBack, RamController.pending_pushBack, ?_⟩
    rw [RamController.getQueue_pushBack r.requestType_eq]
    simp only [true_and]
    rfl
  · rw [Function.update_of_ne hc]
    simp [Ne.symm hc]

/-- Requests are refused by full queues only. -/
theorem send_snd_eq_false_iff :
    (r.send m).2 = false ↔ (r.queue m).length = RamController.queueMax := by
  refine ⟨fun hrefused => ?_, fun hfull => by rw [send_of_full hfull]⟩
  by_contra hroom
  -- with room for the request, it is accepted whether it has to wait or not
  have haccepted : (r.send m).2 = true := by
    by_cases hforward : r.Forwarded m
    · exact (send_of_forwarded hroom hforward).1
    · exact (send_of_not_forwarded hroom hforward).1
  exact absurd hrefused (by rw [haccepted]; decide)

theorem addr_send (r r' : Request) (m : RamMemory) : r'.addr (r.send m).1 = r'.addr m := by
  rw [addr, addr, RamMemory.encode, RamMemory.encode, (send_layout r m).1, (send_layout r m).2]

theorem decode_send (r : Request) (m : RamMemory) (a : ℕ) :
    (r.send m).1.decode a = m.decode a := by
  funext level
  rw [RamMemory.decode, RamMemory.decode, (send_layout r m).1, (send_layout r m).2]

theorem channel_send (r r' : Request) (m : RamMemory) :
    r'.channel (r.send m).1 = r'.channel m := by
  rw [channel, channel, addr_send, decode_send]

/-- The queue of the request is full, or has a single free place and the request takes it. -/
def Fits (r : Request) (m : RamMemory) : Prop :=
  (r.queue m).length = RamController.queueMax ∨
    ((r.queue m).length + 1 = RamController.queueMax ∧ ¬ r.Forwarded m)

/-- How often a request that fits is added to its queue. -/
def times (r : Request) (m : RamMemory) : ℕ :=
  if (r.queue m).length = RamController.queueMax then 0 else 1

/-- If the loop adds the request at most once, it fits. -/
theorem fits_of_loop {fuel : ℕ} {after : RamMemory × ℕ}
    (h : Retry.loop r.send fuel m = some after) (hle : after.2 ≤ 2) :
    r.Fits m ∧ after = ((r.send m).1, r.times m + 1) := by
  rcases Retry.loop_eq_of_le_two h hle with ⟨hrefused, rfl⟩ | ⟨haccepted, hrefused, rfl⟩
  · have hfull := send_snd_eq_false_iff.mp hrefused
    exact ⟨Or.inl hfull, by rw [times, if_pos hfull]⟩
  · -- the second attempt finds the queue full, so the first one has filled it
    have hroom : (r.queue m).length ≠ RamController.queueMax := fun hfull => by
      rw [send_of_full hfull] at haccepted
      exact Bool.false_ne_true haccepted
    have hfull := send_snd_eq_false_iff.mp hrefused
    have hafter : r.send (r.send m).1 = ((r.send m).1, false) := send_of_full hfull
    rw [queue, channel_send] at hfull
    by_cases hforward : r.Forwarded m
    · rw [(send_of_forwarded hroom hforward).2] at hfull
      exact absurd hfull hroom
    · rw [((send_of_not_forwarded hroom hforward).2 _ _).2.2, List.length_append,
        if_pos ⟨rfl, rfl⟩] at hfull
      exact ⟨Or.inr ⟨hfull, hforward⟩, by rw [hafter, times, if_neg hroom]⟩

/-- A request that fits is added at most once. -/
theorem Fits.loop_eq (h : r.Fits m) {fuel : ℕ} (hfuel : 2 ≤ fuel) :
    Retry.loop r.send fuel m = some ((r.send m).1, r.times m + 1) := by
  refine Retry.loop_mono ?_ hfuel
  rcases h with hfull | ⟨hlast, hforward⟩
  · rw [Retry.loop_succ_of_no (send_snd_eq_false_iff.mpr hfull), times, if_pos hfull]
  · have hroom : (r.queue m).length ≠ RamController.queueMax := by omega
    obtain ⟨haccepted, hqueue⟩ := send_of_not_forwarded hroom hforward
    have hfull : (r.queue (r.send m).1).length = RamController.queueMax := by
      rw [queue, channel_send, (hqueue _ _).2.2, List.length_append, if_pos ⟨rfl, rfl⟩]
      exact hlast
    rw [Retry.loop_succ_of_yes haccepted,
      Retry.loop_succ_of_no (send_snd_eq_false_iff.mpr hfull), send_of_full hfull, times,
      if_neg hroom]
    rfl

/-- Adding a request that fits. -/
theorem Fits.send_eq (h : r.Fits m) (c : ℕ) (type : RequestType) :
    ((r.send m).1.ctrls c).clk = (m.ctrls c).clk ∧
      ((r.send m).1.ctrls c).pending = (m.ctrls c).pending ∧
      ((r.send m).1.ctrls c).getQueue type = (m.ctrls c).getQueue type ++
        if r.times m = 1 ∧ r.channel m = c ∧ r.requestType = type then [r.arrival m] else [] := by
  rcases h with hfull | ⟨hlast, hforward⟩
  · rw [send_of_full hfull, times, if_pos hfull]
    simp
  · have hroom : (r.queue m).length ≠ RamController.queueMax := by omega
    rw [times, if_neg hroom]
    simpa using (send_of_not_forwarded hroom hforward).2 c type

/-- Later requests wait in the same form. -/
theorem Fits.arrival_send (h : r.Fits m) (r' : Request) :
    r'.arrival (r.send m).1 = r'.arrival m := by
  rw [arrival, arrival, ramRequest, ramRequest, addr_send, channel_send, decode_send,
    (h.send_eq _ .read).1]

end Request

/-! ## All requests -/

/-- Every request fits when its turn comes. -/
def AllFit : RamMemory → List Request → Prop
  | _, [] => True
  | m, r :: reqs => r.Fits m ∧ AllFit (r.send m).1 reqs

/-- How often each of the requests is added if all fit. -/
def outcome : RamMemory → List Request → List (Request × ℕ)
  | _, [] => []
  | m, r :: reqs => (r, r.times m) :: outcome (r.send m).1 reqs

/-- The memory after every request has been sent once. -/
def sendOnce (m : RamMemory) (reqs : List Request) : RamMemory :=
  reqs.foldl (fun m r => (r.send m).1) m

section Sending

variable {fuel : ℕ} {m : RamMemory} {st st' : Sending} {r : Request} {reqs : List Request}

theorem Sending.sendRequest_eq_some (h : st.sendRequest fuel r = some st') :
    ∃ after, Retry.loop r.send fuel st.memory = some after ∧ st'.memory = after.1 ∧
      st'.sent = st.sent ++ [(r, after.2 - 1)] := by
  rw [sendRequest, Option.map_eq_some_iff] at h
  obtain ⟨after, hloop, rfl⟩ := h
  exact ⟨after, hloop, rfl, rfl⟩

/-- The loop only adds to its record. -/
theorem sent_subset (h : reqs.foldlM (Sending.sendRequest fuel) st = some st') :
    st.sent ⊆ st'.sent := by
  induction reqs generalizing st with
  | nil =>
    obtain rfl := Option.some.inj h
    exact List.Subset.refl _
  | cons r reqs ih =>
    obtain ⟨st₁, hfirst, hrest⟩ := Option.bind_eq_some_iff.mp h
    obtain ⟨after, -, -, hsent⟩ := Sending.sendRequest_eq_some hfirst
    have hfirst' : st.sent ⊆ st₁.sent := hsent ▸ List.subset_append_left _ _
    exact List.Subset.trans hfirst' (ih hrest)

/-- If the loop adds no request twice, then every request fits when its turn comes. -/
theorem allFit_of_sendAll (h : reqs.foldlM (Sending.sendRequest fuel) st = some st')
    (hsent : ∀ x ∈ st'.sent, x.2 ≤ 1) :
    AllFit st.memory reqs ∧ st'.memory = sendOnce st.memory reqs ∧
      st'.sent = st.sent ++ outcome st.memory reqs := by
  induction reqs generalizing st with
  | nil =>
    obtain rfl := Option.some.inj h
    exact ⟨trivial, rfl, (List.append_nil _).symm⟩
  | cons r reqs ih =>
    obtain ⟨st₁, hfirst, hrest⟩ := Option.bind_eq_some_iff.mp h
    obtain ⟨after, hloop, hmemory, hst₁⟩ := Sending.sendRequest_eq_some hfirst
    -- what is recorded for the first request is still there at the end
    have hmem : (r, after.2 - 1) ∈ st₁.sent := by
      rw [hst₁]
      exact List.mem_append_right _ (List.mem_singleton_self _)
    have hle : after.2 - 1 ≤ 1 := hsent _ (sent_subset hrest hmem)
    obtain ⟨hfits, rfl⟩ := Request.fits_of_loop hloop (by omega)
    obtain ⟨hall, hend, hrecord⟩ := ih hrest
    rw [hmemory] at hall hend hrecord
    refine ⟨⟨hfits, hall⟩, hend, ?_⟩
    rw [hrecord, hst₁, List.append_assoc]
    rfl

/-- If every request fits, the loop ends. -/
theorem AllFit.sendAll (h : AllFit st.memory reqs) (hfuel : 2 ≤ fuel) :
    ∃ st', reqs.foldlM (Sending.sendRequest fuel) st = some st' ∧
      st'.memory = sendOnce st.memory reqs ∧
      st'.sent = st.sent ++ outcome st.memory reqs := by
  induction reqs generalizing st with
  | nil => exact ⟨st, rfl, rfl, (List.append_nil _).symm⟩
  | cons r reqs ih =>
    have hloop := h.1.loop_eq hfuel
    -- the first request is accepted at once, so the loop ends
    obtain ⟨st₁, hfirst⟩ : ∃ st₁, st.sendRequest fuel r = some st₁ := by
      rw [Sending.sendRequest, hloop]
      exact ⟨_, rfl⟩
    obtain ⟨after, hloop', hmemory, hst₁⟩ := Sending.sendRequest_eq_some hfirst
    obtain rfl := Option.some.inj (hloop'.symm.trans hloop)
    have hrest : AllFit st₁.memory reqs := hmemory ▸ h.2
    obtain ⟨st', hst', hend, hrecord⟩ := ih hrest
    refine ⟨st', Option.bind_eq_some_iff.mpr ⟨st₁, hfirst, hst'⟩, ?_, ?_⟩
    · rw [hend, hmemory]
      rfl
    · rw [hrecord, hst₁, hmemory, List.append_assoc]
      rfl

/-- The queues have grown by the requests that have been added, in order. -/
theorem AllFit.queues (h : AllFit m reqs) (c : ℕ) (type : RequestType) :
    ((sendOnce m reqs).ctrls c).pending = (m.ctrls c).pending ∧
      ((sendOnce m reqs).ctrls c).getQueue type = (m.ctrls c).getQueue type ++
        ((outcome m reqs).filter fun x =>
          x.2 = 1 ∧ x.1.channel m = c ∧ x.1.requestType = type).map fun x => x.1.arrival m := by
  induction reqs generalizing m with
  | nil => exact ⟨rfl, (List.append_nil _).symm⟩
  | cons r reqs ih =>
    obtain ⟨hpending, hqueue⟩ := ih h.2
    obtain ⟨-, hpending', hqueue'⟩ := h.1.send_eq c type
    -- the first request changes neither where the others go nor how they wait there
    refine ⟨hpending.trans hpending', hqueue.trans ?_⟩
    simp only [Request.channel_send, h.1.arrival_send]
    rw [hqueue', outcome, List.append_assoc, List.filter_cons]
    split_ifs <;> simp_all

end Sending

/-! ## The condition in terms of the memory before the call -/

/-- The queue of controller `c` for the type has one free place, and none of the requests is for
it. -/
def LastPlace (m : RamMemory) (before : List Request) (c : ℕ) (type : RequestType) : Prop :=
  ((m.ctrls c).getQueue type).length + 1 = RamController.queueMax ∧
    ∀ r ∈ before, ¬ (r.channel m = c ∧ r.requestType = type)

/-- The addresses of the writes that wait in controller `c` after the given requests: those that
have been waiting before, and the first of the new ones if there is one free place. -/
def waitingWrites (m : RamMemory) (before : List Request) (c : ℕ) : List ℕ :=
  (m.ctrls c).writeq.map (·.addr) ++
    if (m.ctrls c).writeq.length + 1 = RamController.queueMax then
      ((before.find? fun r => r.channel m = c ∧ r.requestType = .write).map (·.addr m)).toList
    else []

/-- No queue that is needed has more than one free place, and no read that takes a last place is
to the address of a write that waits then. -/
def AtMostOnePlace (m : RamMemory) (reqs : List Request) : Prop :=
  ∀ before r after, reqs = before ++ r :: after →
    ((r.queue m).length = RamController.queueMax ∨
      (r.queue m).length + 1 = RamController.queueMax) ∧
    (r.requestType = .read → LastPlace m before (r.channel m) .read →
      r.addr m ∉ waitingWrites m before (r.channel m))

section Condition

variable {m : RamMemory} {r : Request} {reqs before : List Request}

/-- A queue that a request goes to has no free place afterwards. -/
theorem Request.Fits.length_eq (h : r.Fits m) {c : ℕ} {type : RequestType}
    (hr : r.channel m = c ∧ r.requestType = type) :
    (((r.send m).1.ctrls c).getQueue type).length = RamController.queueMax := by
  rw [(h.send_eq c type).2.2, List.length_append]
  obtain ⟨rfl, rfl⟩ := hr
  rcases h with hfull | ⟨hlast, -⟩
  · have htimes : r.times m = 0 := if_pos hfull
    rw [htimes, if_neg (by simp)]
    exact hfull
  · have htimes : r.times m = 1 := if_neg (by omega)
    rw [htimes, if_pos ⟨rfl, rfl, rfl⟩]
    exact hlast

/-- The other queues stay as they are. -/
theorem Request.Fits.getQueue_eq (h : r.Fits m) {c : ℕ} {type : RequestType}
    (hr : ¬ (r.channel m = c ∧ r.requestType = type)) :
    ((r.send m).1.ctrls c).getQueue type = (m.ctrls c).getQueue type := by
  rw [(h.send_eq c type).2.2, if_neg fun hboth => hr hboth.2, List.append_nil]

theorem lastPlace_cons (h : r.Fits m) (c : ℕ) (type : RequestType) :
    LastPlace m (r :: before) c type ↔ LastPlace (r.send m).1 before c type := by
  simp only [LastPlace, List.forall_mem_cons, Request.channel_send]
  by_cases hr : r.channel m = c ∧ r.requestType = type
  · -- the first request has taken the last place
    rw [h.length_eq hr]
    exact iff_of_false (fun hplace => hplace.2.1 hr) fun hplace => absurd hplace.1 (by decide)
  · rw [h.getQueue_eq hr]
    simp [hr]

theorem waitingWrites_cons (h : r.Fits m) (c : ℕ) :
    waitingWrites m (r :: before) c = waitingWrites (r.send m).1 before c := by
  simp only [waitingWrites, Request.channel_send, Request.addr_send]
  by_cases hr : r.channel m = c ∧ r.requestType = .write
  · have hfull : ((r.send m).1.ctrls c).writeq.length = RamController.queueMax := h.length_eq hr
    have hnone : ¬ ((r.send m).1.ctrls c).writeq.length + 1 = RamController.queueMax := by omega
    have hqueue : ((r.send m).1.ctrls c).writeq = _ := (h.send_eq c .write).2.2
    rw [if_neg hnone, List.append_nil, hqueue, List.find?_cons_of_pos (by simpa using hr)]
    -- the write takes the last place, if there is one
    obtain ⟨rfl, htype⟩ := hr
    have hown : r.queue m = (m.ctrls (r.channel m)).writeq := by
      rw [Request.queue, htype]
      rfl
    rcases h with hfull | ⟨hlast, -⟩
    · have htimes : r.times m = 0 := if_pos hfull
      rw [hown] at hfull
      rw [if_neg (by omega), htimes, if_neg (by simp), List.append_nil, List.append_nil]
      rfl
    · have htimes : r.times m = 1 := if_neg (by omega)
      rw [hown] at hlast
      rw [if_pos hlast, htimes, if_pos ⟨rfl, rfl, htype⟩, List.map_append]
      rfl
  · have hsame : ((r.send m).1.ctrls c).writeq = (m.ctrls c).writeq := h.getQueue_eq hr
    rw [hsame, List.find?_cons_of_neg (by simpa using hr)]

/-- What the condition says about one of the requests. -/
def FitsAfter (m : RamMemory) (before : List Request) (r : Request) : Prop :=
  ((r.queue m).length = RamController.queueMax ∨
      (r.queue m).length + 1 = RamController.queueMax) ∧
    (r.requestType = .read → LastPlace m before (r.channel m) .read →
      r.addr m ∉ waitingWrites m before (r.channel m))

theorem fitsAfter_nil : FitsAfter m [] r ↔ r.Fits m := by
  have hwaiting : waitingWrites m [] (r.channel m) =
      (m.ctrls (r.channel m)).writeq.map (·.addr) := by
    simp [waitingWrites]
  rw [FitsAfter, Request.Fits, hwaiting]
  constructor
  · rintro ⟨hfull | hlast, hread⟩
    · exact Or.inl hfull
    · -- a read that is forwarded would be to the address of a waiting write
      refine Or.inr ⟨hlast, fun ⟨htype, hwrite⟩ => hread htype ⟨?_, by simp⟩ ?_⟩
      · rwa [Request.queue, htype] at hlast
      · simpa using hwrite
  · rintro (hfull | ⟨hlast, hforward⟩)
    · refine ⟨Or.inl hfull, fun htype hplace => ?_⟩
      rw [Request.queue, htype] at hfull
      exact absurd hplace.1 (by omega)
    · refine ⟨Or.inr hlast, fun htype _ hmem => hforward ⟨htype, ?_⟩⟩
      simpa using hmem

theorem fitsAfter_cons (h : r.Fits m) (r' : Request) :
    FitsAfter m (r :: before) r' ↔ FitsAfter (r.send m).1 before r' := by
  rw [FitsAfter, FitsAfter, lastPlace_cons h, waitingWrites_cons h, Request.queue, Request.queue,
    Request.channel_send, Request.addr_send]
  refine and_congr_left fun _ => ?_
  by_cases hr : r.channel m = r'.channel m ∧ r.requestType = r'.requestType
  · -- both requests are for the same queue, so the first one has filled it
    have hfull := h.length_eq hr
    refine iff_of_true ?_ (Or.inl hfull)
    obtain ⟨hchannel, htype⟩ := hr
    rw [← hchannel, ← htype]
    exact h.imp id And.left
  · rw [h.getQueue_eq hr]

theorem allFit_iff (m : RamMemory) (reqs : List Request) :
    AllFit m reqs ↔ AtMostOnePlace m reqs := by
  induction reqs generalizing m with
  | nil => exact iff_of_true trivial fun before r after h => absurd h (by simp)
  | cons r reqs ih =>
    rw [AllFit, ih]
    -- a request fits after the others if it fits in the state that they leave
    constructor
    · rintro ⟨hfits, hrest⟩ before r' after heq
      cases before with
      | nil =>
        obtain ⟨rfl, -⟩ := List.cons.inj heq
        exact fitsAfter_nil.mpr hfits
      | cons r₁ before =>
        obtain ⟨rfl, htail⟩ := List.cons.inj heq
        exact (fitsAfter_cons hfits r').mpr (hrest before r' after htail)
    · intro h
      have hfits : r.Fits m := fitsAfter_nil.mp (h [] r reqs rfl)
      refine ⟨hfits, fun before r' after heq => ?_⟩
      exact (fitsAfter_cons hfits r').mp (h (r :: before) r' after (congrArg (r :: ·) heq))

end Condition

/-! ## The update -/

/-- The call of `updateLatency` ends, and adds to the queues of the controllers, in the order of
`req_queue`, those of its requests that are accepted, each of them once. -/
def AddsEachOnce (d : DramModel) (pktTime : BitVec 64) : Prop :=
  ∃ fuel after st, d.updateLatency fuel pktTime = some after ∧
    sendAll fuel d.memory d.reqQueue = some st ∧
    st.sent.map Prod.fst = d.reqQueue ∧ (∀ x ∈ st.sent, x.2 ≤ 1) ∧
    ∀ c type, (after.memory.ctrls c).pending = (d.memory.ctrls c).pending ∧
      (after.memory.ctrls c).getQueue type = (d.memory.ctrls c).getQueue type ++
        (st.sent.filter fun x => x.2 = 1 ∧ x.1.channel d.memory = c ∧ x.1.requestType = type).map
          fun x => x.1.arrival d.memory

theorem updateLatency_of_late {d : DramModel} {pktTime : BitVec 64}
    (hlate : ¬ pktTime - d.lastReqTime < 200) (fuel : ℕ) :
    d.updateLatency fuel pktTime =
      (sendAll fuel d.memory d.reqQueue).map (d.beginUpdate pktTime).finishUpdate :=
  if_neg hlate

theorem map_fst_outcome (m : RamMemory) (reqs : List Request) :
    (outcome m reqs).map Prod.fst = reqs := by
  induction reqs generalizing m with
  | nil => rfl
  | cons r reqs ih => rw [outcome, List.map_cons, ih]

theorem le_one_of_mem_outcome {m : RamMemory} {reqs : List Request} {x : Request × ℕ}
    (hx : x ∈ outcome m reqs) : x.2 ≤ 1 := by
  induction reqs generalizing m with
  | nil => exact absurd hx (by simp [outcome])
  | cons r reqs ih =>
    rcases List.mem_cons.mp hx with rfl | hx
    · show r.times m ≤ 1
      rw [Request.times]
      split <;> omega
    · exact ih hx

/-- Only requests that fit are added once. -/
theorem AddsEachOnce.allFit {d : DramModel} {pktTime : BitVec 64} (h : d.AddsEachOnce pktTime) :
    AllFit d.memory d.reqQueue := by
  obtain ⟨fuel, after, st, -, hst, -, hsent, -⟩ := h
  exact (allFit_of_sendAll hst hsent).1

/-- A call of `updateLatency` that does not return early adds every request at most once if and only
if no queue that `req_queue` has a request for has more than one free place, and no read that takes
a last place is to the address of a write that is waiting in its controller. -/
theorem addsEachOnce_iff (d : DramModel) (pktTime : BitVec 64)
    (hlate : ¬ pktTime - d.lastReqTime < 200) :
    d.AddsEachOnce pktTime ↔ AtMostOnePlace d.memory d.reqQueue := by
  rw [← allFit_iff]
  constructor
  · exact AddsEachOnce.allFit
  · intro hfit
    -- two attempts are enough, the second of which is refused
    have hstart : AllFit (⟨d.memory, 0, 0, 0, 0, []⟩ : Sending).memory d.reqQueue := hfit
    obtain ⟨st, hst, hmemory, hsent⟩ := hstart.sendAll le_rfl
    rw [List.nil_append] at hsent
    have hupdate : d.updateLatency 2 pktTime = some ((d.beginUpdate pktTime).finishUpdate st) := by
      rw [updateLatency_of_late hlate]
      exact congrArg _ hst
    refine ⟨2, _, st, hupdate, hst, ?_, fun x hx => ?_, fun c type => ?_⟩
    · rw [hsent, map_fst_outcome]
    · rw [hsent] at hx
      exact le_one_of_mem_outcome hx
    · rw [hsent]
      show (st.memory.ctrls c).pending = _ ∧ (st.memory.ctrls c).getQueue type = _
      rw [hmemory]
      exact hfit.queues c type

/-- Memory with `n` waiting writes in the controller of vault 17. -/
def hbm1GbWaiting (n : ℕ) : RamMemory :=
  let m := RamMemory.hbm1Gb .roBaRaCoCh
  { m with
    ctrls := Function.update m.ctrls 17
      { m.ctrls 17 with writeq := List.replicate n (.new 17 .write) } }

/-- A single write to vault 17, with `n` other ones waiting there. -/
def oneWrite (n : ℕ) : DramModel :=
  { new (hbm1GbWaiting n) 10 0 with reqQueue := [⟨1, 17, 5, 4711, 9⟩] }

/-- The last place of a queue is taken once. -/
theorem addsEachOnce_iff_oneWrite : (oneWrite 31).AddsEachOnce 1000 := by
  have hfit : AllFit (oneWrite 31).memory (oneWrite 31).reqQueue :=
    ⟨Or.inr ⟨by decide, fun hforward => absurd hforward.1 (by decide)⟩, trivial⟩
  exact (addsEachOnce_iff (oneWrite 31) 1000 (by decide)).mpr ((allFit_iff _ _).mp hfit)

/-- With two free places, a write is added twice. -/
theorem not_addsEachOnce :
    ((oneWrite 30).updateLatency 3 1000).map (fun after => (after.memory.ctrls 17).writeq.length) =
        some 32 ∧
      ¬ ∀ (d : DramModel) (pktTime : BitVec 64),
        (∀ c type, ((d.memory.ctrls c).getQueue type).length ≤ RamController.queueMax) →
          ¬ pktTime - d.lastReqTime < 200 → d.AddsEachOnce pktTime := by
  refine ⟨by decide, fun h => ?_⟩
  have hcapacity : ∀ c type,
      (((oneWrite 30).memory.ctrls c).getQueue type).length ≤ RamController.queueMax := by
    intro c type
    by_cases hc : c = 17
    · subst hc
      cases type <;> decide
    · have hctrl : (oneWrite 30).memory.ctrls c = ⟨0, [], [], [], []⟩ :=
        Function.update_of_ne hc _ _
      rw [hctrl]
      cases type <;> decide
  -- the queue of channel 17 has two free places
  have hfit := (h (oneWrite 30) 1000 hcapacity (by decide)).allFit
  have hplace : AtMostOnePlace (oneWrite 30).memory (oneWrite 30).reqQueue :=
    (allFit_iff _ _).mp hfit
  exact absurd (hplace [] _ [] rfl).1 (by decide)

end DramModel

end StackedDram.Ramulator
