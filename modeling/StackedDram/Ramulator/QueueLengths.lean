import Mathlib.Algebra.Order.BigOperators.Group.List
import Mathlib.Tactic.Ring
import StackedDram.Ramulator.Completions

/-!
# Lengths of the queues

A channel adds up the lengths of its queues over all ticks, and the latencies of its reads. The sums
of the lengths are the times that requests have spent in the channel, and the latencies, which leave
out the time that a read waits behind others for its turn to complete, are never more than that
(`queueLengths_eq_waits`).
-/

namespace StackedDram.Ramulator

namespace ChannelController

variable {hbm : HBM} {channelId : ℕ} {c : ChannelController} {req : RamRequest}
  {h : List RequestEvent}

/-! ## Lengths of the queues -/

/-- How long the requests of a queue have waited. -/
def waits (clk : ℤ) (q : List RamRequest) : ℤ := (q.map fun req => clk - req.arrive).sum

/-- How long the reads that have completed were in the channel. -/
def completedWait : RequestEvent → ℤ
  | .completed req clk => clk - req.arrive
  | .queued _ | .forwarded _ | .fetched _ | .written _ _ => 0

/-- How long the writes that have been carried out were in the channel. -/
def writtenWait : RequestEvent → ℤ
  | .written req clk => clk - req.arrive
  | .queued _ | .forwarded _ | .fetched _ | .completed _ _ => 0

/-- What a read adds to `read_latency_sum` when it completes. -/
def latency : RequestEvent → ℤ
  | .completed req _ => if 1 < req.depart - req.arrive then req.depart - req.arrive else 0
  | .queued _ | .forwarded _ | .fetched _ | .written _ _ => 0

variable (hbm channelId)

/-- `read_req_queue_length_sum` -/
def readReqQueueLengthSum (as : List Action) : ℕ :=
  (machine hbm channelId).tally (fun c a =>
    match a with
    | .tick => c.readq.length + c.pending.length
    | .enqueue _ | .setBankRef _ _ => 0) as

/-- `write_req_queue_length_sum` -/
def writeReqQueueLengthSum (as : List Action) : ℕ :=
  (machine hbm channelId).tally (fun c a =>
    match a with
    | .tick => c.writeq.length
    | .enqueue _ | .setBankRef _ _ => 0) as

/-- `read_latency_sum` -/
def readLatencySum (as : List Action) : ℤ := ((events hbm channelId as).map latency).sum

variable {hbm channelId}

/-- Two queues wait as long as both. -/
theorem waits_append (clk : ℤ) (q q' : List RamRequest) :
    waits clk (q ++ q') = waits clk q + waits clk q' := by
  rw [waits, List.map_append, List.sum_append]
  rfl

/-- A clock later, every request has waited a clock longer. -/
theorem waits_succ (clk : ℤ) (q : List RamRequest) :
    waits (clk + 1) q = waits clk q + q.length := by
  induction q with
  | nil => rfl
  | cons req q ih =>
    -- one more for this request, and the rest by induction
    simp only [waits, List.map_cons, List.sum_cons, List.length_cons, Nat.cast_add, Nat.cast_one]
      at ih ⊢
    omega

/-- How long requests have waited does not depend on whether they have begun. -/
theorem waits_map_begun (clk : ℤ) (q : List RamRequest) :
    waits clk (q.map RamRequest.begun) = waits clk q := by
  rw [waits, List.map_map]
  rfl

/-- Queues with the same requests have waited as long. -/
theorem waits_eq {clk : ℤ} {q q' : List RamRequest}
    (heq : q'.map RamRequest.begun = q.map RamRequest.begun) : waits clk q' = waits clk q := by
  rw [← waits_map_begun, heq, waits_map_begun]

/-- A queue that a request has left. -/
theorem waits_of_perm (clk : ℤ) {q q' : List RamRequest}
    (hperm : (q.map RamRequest.begun).Perm (req.begun :: q'.map RamRequest.begun)) :
    waits clk q = clk - req.arrive + waits clk q' := by
  rw [← waits_map_begun clk q, ← waits_map_begun clk q']
  exact (hperm.map fun req : RamRequest => clk - req.arrive).sum_eq

/-- The times that requests spend in the channel add up to the lengths of the queues. -/
structure Waited (c : ChannelController) (h : List RequestEvent) (reads writes : ℤ) : Prop where
  reads : reads = (h.map completedWait).sum + waits c.clk c.readq + waits c.clk c.pending
  writes : writes = (h.map writtenWait).sum + waits c.clk c.writeq

variable {reads writes : ℤ}

/-- How long one request has waited. -/
theorem waits_singleton (req : RamRequest) (clk : ℤ) : waits clk [req] = clk - req.arrive := by
  simp [waits]

/-- A request that comes in has not waited yet. -/
theorem Waited.enqueue (hc : c.Waited h reads writes)
    (htype : req.type = .read ∨ req.type = .write) :
    (c.enqueue req).Waited (h ++ c.enqueueEvents req) reads writes := by
  have hevents : ((c.enqueueEvents req).map completedWait).sum = 0 ∧
      ((c.enqueueEvents req).map writtenWait).sum = 0 := by
    rw [enqueueEvents]
    split
    · exact ⟨rfl, rfl⟩
    · split <;> exact ⟨rfl, rfl⟩
  obtain ⟨hreads, hwrites⟩ := hc
  constructor
  · rw [List.map_append, List.sum_append, hevents.1, clk_enqueue, hreads]
    rcases enqueue_cases c req with ⟨-, heq⟩ | ⟨-, -, heq⟩ | ⟨-, -, heq⟩
    · rw [heq, add_zero]
    · -- forwarded: it waits for its data from now on
      rw [heq, waits_append, waits_singleton]
      ring
    · rw [heq]
      -- queued: it waits in one of the two queues from now on
      rcases htype with htype | htype
      · rw [htype]
        show _ = _ + waits c.clk (c.readq ++ _) + waits c.clk c.pending
        rw [waits_append, waits_singleton]
        ring
      · rw [htype, add_zero]
        rfl
  · rw [List.map_append, List.sum_append, hevents.2, clk_enqueue, hwrites]
    rcases enqueue_cases c req with ⟨-, heq⟩ | ⟨-, -, heq⟩ | ⟨-, -, heq⟩
    · rw [heq, add_zero]
    · rw [heq, add_zero]
    · rw [heq]
      rcases htype with htype | htype
      · rw [htype, add_zero]
        rfl
      · rw [htype]
        show _ = _ + waits c.clk (c.writeq ++ _)
        rw [waits_append, waits_singleton]
        ring

/-- The reads that complete in a tick have waited until then. -/
theorem sum_completedWait_completed (c : ChannelController) :
    ((c.completed.toList.map fun req => .completed req (c.clk + 1)).map completedWait).sum =
        waits (c.clk + 1) c.completed.toList ∧
      ((c.completed.toList.map fun req => .completed req (c.clk + 1)).map writtenWait).sum = 0 := by
  rw [List.map_map, List.map_map]
  refine ⟨rfl, ?_⟩
  cases c.completed <;> rfl

/-- A tick adds one clock for each request that waits, which is the length of the queues; a request
that leaves takes the time that it has waited into the events. -/
theorem Waited.tick (hc : c.Waited h reads writes) (hq : c.QueuesHold fun _ => True) :
    (c.tick hbm channelId).Waited (h ++ c.tickEvents hbm channelId)
      (reads + (c.readq.length + c.pending.length : ℕ)) (writes + c.writeq.length) := by
  obtain ⟨hread, hwrite, hpending⟩ := prepare_queues hbm channelId c
  obtain ⟨hcompleted, hwritten⟩ := sum_completedWait_completed c
  obtain ⟨hreads, hwrites⟩ := hc
  -- all requests grow one clock older, also the read that completes
  have hreadq : waits (c.clk + 1) (c.prepare hbm channelId).readq =
      waits c.clk c.readq + c.readq.length := by rw [hread, waits_succ]
  have hwriteq : waits (c.clk + 1) (c.prepare hbm channelId).writeq =
      waits c.clk c.writeq + c.writeq.length := by rw [hwrite, waits_succ]
  have hpendingq := waits_succ c.clk c.pending
  have hsplit := congrArg (waits (c.clk + 1)) hpending
  rw [waits_append] at hsplit
  -- the sums split into before, the completion and what is served
  have hsum (f : RequestEvent → ℤ) : ((h ++ c.tickEvents hbm channelId).map f).sum =
      (h.map f).sum +
        (((c.completed.toList.map fun req => .completed req (c.clk + 1)).map f).sum +
          ((c.servedEvents hbm channelId).map f).sum) := by
    rw [tickEvents, List.map_append, List.sum_append, List.map_append, List.sum_append]
  rcases tick_requests hbm channelId hq with
    ⟨hserved, hread', hwrite', hpending'⟩ | ⟨req, hserved, ⟨htype, hread', hwrite', hpending'⟩ |
      ⟨htype, hread', hwrite', hpending'⟩ | ⟨htype, hread', hwrite', hpending'⟩⟩
  · -- nothing is served
    have hevents := servedEvents_of_none hserved
    constructor
    · rw [hsum, hcompleted, hevents, clk_tick, waits_eq hread', hpending', hreads]
      simp only [List.map_nil, List.sum_nil, Nat.cast_add]
      omega
    · rw [hsum, hwritten, hevents, clk_tick, waits_eq hwrite', hwrites]
      simp only [List.map_nil, List.sum_nil]
      omega
  · -- a read moves on to the reads that wait for their data
    have hevents := servedEvents_of_read hserved htype
    constructor
    · have hleft := waits_of_perm (c.clk + 1) hread'
      rw [hsum, hcompleted, hevents, clk_tick, hpending', waits_append, waits_singleton, hreads]
      simp only [List.map_cons, List.map_nil, List.sum_cons, List.sum_nil, completedWait,
        Nat.cast_add]
      have harrive : req.begun.arrive = req.arrive := rfl
      omega
    · rw [hsum, hwritten, hevents, clk_tick, waits_eq hwrite', hwrites]
      simp only [List.map_cons, List.map_nil, List.sum_cons, List.sum_nil, writtenWait]
      omega
  · -- a write leaves with the time that it has waited
    have hevents := servedEvents_of_write hserved htype
    constructor
    · rw [hsum, hcompleted, hevents, clk_tick, waits_eq hread', hpending', hreads]
      simp only [List.map_cons, List.map_nil, List.sum_cons, List.sum_nil, completedWait,
        Nat.cast_add]
      omega
    · have hleft := waits_of_perm (c.clk + 1) hwrite'
      rw [hsum, hwritten, hevents, clk_tick, hwrites]
      simp only [List.map_cons, List.map_nil, List.sum_cons, List.sum_nil, writtenWait]
      omega
  · -- a refresh is in neither queue
    have hevents := servedEvents_of_refresh hserved htype
    constructor
    · rw [hsum, hcompleted, hevents, clk_tick, waits_eq hread', hpending', hreads]
      simp only [List.map_nil, List.sum_nil, Nat.cast_add]
      omega
    · rw [hsum, hwritten, hevents, clk_tick, waits_eq hwrite', hwrites]
      simp only [List.map_nil, List.sum_nil]
      omega

/-! ## Latencies -/

/-- Requests have arrived by now, and the latency of a read is at most the time that it was in the
channel. -/
structure Arrived (c : ChannelController) (h : List RequestEvent) : Prop where
  inOrder : c.QueuesInOrder
  pending : ∀ req ∈ c.pending, req.arrive ≤ c.clk
  latency : ∀ e ∈ h, latency e ≤ completedWait e

/-- A request that comes in arrives now. -/
theorem Arrived.enqueue (hc : c.Arrived h) (req : RamRequest) :
    (c.enqueue req).Arrived (h ++ c.enqueueEvents req) := by
  refine ⟨hc.inOrder.enqueue req, ?_, ?_⟩
  · rw [clk_enqueue]
    rcases enqueue_cases c req with ⟨-, heq⟩ | ⟨-, -, heq⟩ | ⟨-, -, heq⟩
    · rw [heq]
      exact hc.pending
    · rw [heq]
      exact forall_mem_concat hc.pending le_rfl
    · rw [heq, pending_setQueue]
      exact hc.pending
  · intro e he
    rcases List.mem_append.mp he with he | he
    · exact hc.latency e he
    · -- a request that comes in has no latency yet
      rw [enqueueEvents] at he
      split at he
      · cases he
      · split at he <;>
        · rw [List.mem_singleton.mp he]
          exact le_rfl

/-- A read that begins to wait for its data has arrived. -/
theorem arrive_le_of_served (hc : c.QueuesInOrder) (hq : c.QueuesHold fun _ => True)
    (hreq : req ∈ (c.servedEvents hbm channelId).filterMap RequestEvent.departing?) :
    req.arrive ≤ c.clk + 1 := by
  have hprepare : (c.prepare hbm channelId).QueuesInOrder := hc.prepare
  have harrived := hprepare.readq.arrived
  rw [clk_prepare] at harrived
  rcases tick_requests hbm channelId hq with
    ⟨hserved, -⟩ | ⟨r, hserved, ⟨htype, hread, -⟩ | ⟨htype, -⟩ | ⟨htype, -⟩⟩
  · rw [servedEvents_of_none hserved] at hreq
    cases hreq
  · rw [servedEvents_of_read hserved htype] at hreq
    obtain rfl := List.mem_singleton.mp hreq
    -- the read has been in its queue, up to whether it has begun
    obtain ⟨r', hr', hbegun⟩ := List.mem_map.mp (hread.mem_iff.mpr List.mem_cons_self)
    have harrive : r'.begun.arrive = r.begun.arrive := congrArg RamRequest.arrive hbegun
    exact harrive ▸ harrived r' hr'
  · rw [servedEvents_of_write hserved htype] at hreq
    simp [RequestEvent.departing?] at hreq
  · rw [servedEvents_of_refresh hserved htype] at hreq
    cases hreq

/-- A tick comes after the arrivals, and completes a read after its data has arrived. -/
theorem Arrived.tick (hc : c.Arrived h) (hq : c.QueuesHold fun _ => True) :
    (c.tick hbm channelId).Arrived (h ++ c.tickEvents hbm channelId) := by
  obtain ⟨-, -, hpending⟩ := prepare_queues hbm channelId c
  refine ⟨hc.inOrder.step .tick, ?_, ?_⟩
  · rw [clk_tick, pending_tick hbm channelId hq]
    intro req hreq
    rcases List.mem_append.mp hreq with hreq | hreq
    · -- a read that was waiting for its data
      have hle := hc.pending req (by rw [hpending]; exact List.mem_append_right _ hreq)
      omega
    · -- a read that is served in this tick
      exact arrive_le_of_served hc.inOrder hq hreq
  · intro e he
    rcases List.mem_append.mp he with he | he
    · exact hc.latency e he
    rcases List.mem_append.mp he with he | he
    · -- a read completes when its data has arrived
      obtain ⟨req, hreq, rfl⟩ := List.mem_map.mp he
      have hcompleted := Option.mem_toList.mp hreq
      obtain ⟨hhead, hdepart⟩ := Option.filter_eq_some_iff.mp hcompleted
      have hle : req.depart ≤ c.clk + 1 := of_decide_eq_true hdepart
      have harrive := hc.pending req (List.mem_of_mem_head? hhead)
      show (if 1 < req.depart - req.arrive then req.depart - req.arrive else 0) ≤
        c.clk + 1 - req.arrive
      split <;> omega
    · rw [servedEvents] at he
      split at he
      · cases he
      · split at he
        · rw [List.mem_singleton.mp he]
          exact le_rfl
        · rw [List.mem_singleton.mp he]
          exact le_rfl
        · cases he

/-! ## Runs -/

/-- What holds of the queues and of the sums in every run. -/
structure Lengths (hbm : HBM) (channelId : ℕ) (as : List Action) : Prop where
  queues : ((machine hbm channelId).run as).QueuesHold fun _ => True
  waited : ((machine hbm channelId).run as).Waited (events hbm channelId as)
    (readReqQueueLengthSum hbm channelId as) (writeReqQueueLengthSum hbm channelId as)
  arrived : ((machine hbm channelId).run as).Arrived (events hbm channelId as)

variable (hbm channelId) in
/-- The queues and the sums after a run. -/
theorem lengths_run (as : List Action) (has : ∀ a ∈ as, a.Sends fun _ => True) :
    Lengths hbm channelId as := by
  induction as using List.reverseRecOn with
  | nil =>
    -- a new channel
    refine ⟨queuesHold_new, ⟨rfl, rfl⟩, ⟨⟨inOrder_nil, inOrder_nil, inOrder_nil⟩, ?_, ?_⟩⟩
    · exact fun req hreq => by cases hreq
    · exact fun e he => by cases he
  | append_singleton as a ih =>
    obtain ⟨hq, hwaited, harrived⟩ := ih fun b hb => has b (by simp [hb])
    have ha := has a (by simp)
    constructor
    · rw [Machine.run_concat]
      exact hq.step (fun _ _ => trivial) ha
    · rw [Machine.run_concat, events_concat, readReqQueueLengthSum, writeReqQueueLengthSum,
        Machine.tally_concat, Machine.tally_concat]
      cases a with
      | enqueue req => exact hwaited.enqueue ha.1
      | setBankRef bank hot =>
        rw [eventsOf, List.append_nil]
        exact ⟨hwaited.reads, hwaited.writes⟩
      | tick => exact hwaited.tick hq
    · rw [Machine.run_concat, events_concat]
      cases a with
      | enqueue req => exact harrived.enqueue req
      | setBankRef bank hot =>
        rw [eventsOf, List.append_nil]
        exact ⟨harrived.inOrder.step (.setBankRef bank hot), harrived.pending, harrived.latency⟩
      | tick => exact harrived.tick hq

/-- Requests that have arrived have not waited for a negative time. -/
theorem waits_nonneg {clk : ℤ} {q : List RamRequest} (hq : ∀ req ∈ q, req.arrive ≤ clk) :
    0 ≤ waits clk q := by
  refine List.sum_nonneg fun wait hwait => ?_
  obtain ⟨req, hreq, rfl⟩ := List.mem_map.mp hwait
  exact sub_nonneg.mpr (hq req hreq)

/-- In every run in which the memory sends reads and writes, the lengths of the queues add up to the
times that the requests have spent in the channel, those that have left and those that are in it,
and the latencies of the reads add up to no more than that. -/
theorem queueLengths_eq_waits (as : List Action) (has : ∀ a ∈ as, a.Sends fun _ => True) :
    let c := (machine hbm channelId).run as
    let h := events hbm channelId as
    (readReqQueueLengthSum hbm channelId as : ℤ) =
        (h.map completedWait).sum + waits c.clk c.readq + waits c.clk c.pending ∧
      (writeReqQueueLengthSum hbm channelId as : ℤ) =
        (h.map writtenWait).sum + waits c.clk c.writeq ∧
      readLatencySum hbm channelId as ≤ readReqQueueLengthSum hbm channelId as := by
  intro c h
  obtain ⟨-, hwaited, harrived⟩ := lengths_run hbm channelId as has
  refine ⟨hwaited.reads, hwaited.writes, ?_⟩
  have hlatency : (h.map latency).sum ≤ (h.map completedWait).sum :=
    List.sum_le_sum harrived.latency
  have hreads : 0 ≤ waits c.clk c.readq := waits_nonneg harrived.inOrder.readq.arrived
  have hpending : 0 ≤ waits c.clk c.pending := waits_nonneg harrived.pending
  calc (h.map latency).sum ≤ (h.map completedWait).sum := hlatency
    _ ≤ (h.map completedWait).sum + waits c.clk c.readq + waits c.clk c.pending := by omega
    _ = readReqQueueLengthSum hbm channelId as := hwaited.reads.symm

/-- The lengths of the queues while a write and a read wait. -/
theorem queueLengths_eq_waits_oneRank :
    let as : List Action := [.enqueue (.new 0 .write), .enqueue (.new 1 .read), .tick, .tick]
    let c := (machine oneRank 0).run as
    let h := events oneRank 0 as
    (readReqQueueLengthSum oneRank 0 as : ℤ) =
        (h.map completedWait).sum + waits c.clk c.readq + waits c.clk c.pending ∧
      (writeReqQueueLengthSum oneRank 0 as : ℤ) =
        (h.map writtenWait).sum + waits c.clk c.writeq ∧
      readLatencySum oneRank 0 as ≤ readReqQueueLengthSum oneRank 0 as :=
  queueLengths_eq_waits _ (by simp [Action.Sends, RamRequest.new])

end ChannelController

end StackedDram.Ramulator
