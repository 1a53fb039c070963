import Mathlib.Algebra.Order.Group.Multiset
import Mathlib.Tactic.Abel
import StackedDram.Ramulator.Queues

/-!
# Requests

What becomes of the reads and writes that a channel accepts. A read waits in its queue, or finds its
data in a write that waits; it completes when its data has arrived. A write waits until its last
command is issued. No request is lost or served twice (`requests_conserved`), and a read is answered
from the queue of the writes exactly if a write to its address has been accepted but not carried out
(`read_coherent`).
-/

namespace StackedDram.Ramulator

/-- What happens to reads and writes. -/
inductive RequestEvent where
  /-- The request has been accepted, and waits in its queue. -/
  | queued (req : RamRequest)
  /-- The read has been accepted, and finds its data in a write that waits. -/
  | forwarded (req : RamRequest)
  /-- The last command for the read has been issued, and it waits for its data. -/
  | fetched (req : RamRequest)
  /-- The data of the read has arrived: `callback` is called. -/
  | completed (req : RamRequest) (clk : ℤ)
  /-- The last command for the write has been issued. -/
  | written (req : RamRequest) (clk : ℤ)

namespace RequestEvent

/-- The content of a request of the type that is accepted. -/
def accepted (type : RequestType) : RequestEvent → Multiset RamRequest.Content
  | queued req | forwarded req => if req.type = type then {req.content} else 0
  | fetched _ | completed _ _ | written _ _ => 0

/-- The content of a request of the type that is finished. -/
def finished (type : RequestType) : RequestEvent → Multiset RamRequest.Content
  | queued _ | forwarded _ | fetched _ => 0
  | completed req _ | written req _ => if req.type = type then {req.content} else 0

end RequestEvent

/-- The requests of the type that have been accepted. -/
def acceptedOf (type : RequestType) (h : List RequestEvent) : Multiset RamRequest.Content :=
  (h.map (RequestEvent.accepted type)).sum

/-- The requests of the type that have been finished. -/
def finishedOf (type : RequestType) (h : List RequestEvent) : Multiset RamRequest.Content :=
  (h.map (RequestEvent.finished type)).sum

section Requests

variable (type : RequestType) (h h' : List RequestEvent) (e : RequestEvent)

/-- What has been accepted in two parts of a history. -/
theorem acceptedOf_append : acceptedOf type (h ++ h') = acceptedOf type h + acceptedOf type h' := by
  rw [acceptedOf, List.map_append, List.sum_append]
  rfl

/-- What has been finished in two parts of a history. -/
theorem finishedOf_append : finishedOf type (h ++ h') = finishedOf type h + finishedOf type h' := by
  rw [finishedOf, List.map_append, List.sum_append]
  rfl

/-- What one event accepts. -/
@[simp]
theorem acceptedOf_singleton : acceptedOf type [e] = e.accepted type := by simp [acceptedOf]

/-- What one event finishes. -/
@[simp]
theorem finishedOf_singleton : finishedOf type [e] = e.finished type := by simp [finishedOf]

end Requests

/-- The request after its first command. -/
def RamRequest.begun (req : RamRequest) : RamRequest := { req with isFirstCommand := false }

namespace ChannelController

variable (hbm : HBM) (channelId : ℕ)

/-! ## Events -/

/-- The request whose last command the next tick issues. -/
def served (c : ChannelController) : Option RamRequest :=
  ((c.prepare hbm channelId).scheduled.filter fun head =>
    (c.prepare hbm channelId).firstCmd head.1 = some (translate head.1.type)).map Prod.fst

/-- What happens when a request comes in. -/
def enqueueEvents (c : ChannelController) (req : RamRequest) : List RequestEvent :=
  if (c.getQueue req.type).length = RamController.queueMax then []
  else if req.type = .read ∧ c.writeq.any (·.addr = req.addr) then
    [.forwarded { req with arrive := c.clk, depart := c.clk + 1 }]
  else [.queued { req with arrive := c.clk }]

/-- What happens to the request that is served in a tick. -/
def servedEvents (c : ChannelController) : List RequestEvent :=
  match c.served hbm channelId with
  | none => []
  | some req =>
    match req.type with
    | .read => [.fetched { req.begun with depart := c.clk + 1 + hbm.speed.readLatency }]
    | .write => [.written req (c.clk + 1)]
    | _ => []

/-- What happens in a tick. -/
def tickEvents (c : ChannelController) : List RequestEvent :=
  (c.completed.toList.map fun req => .completed req (c.clk + 1)) ++ c.servedEvents hbm channelId

/-- What happens in an action. -/
def eventsOf (c : ChannelController) : Action → List RequestEvent
  | .enqueue req => c.enqueueEvents req
  | .setBankRef _ _ => []
  | .tick => c.tickEvents hbm channelId

/-- What happens in a run. -/
def events (as : List Action) : List RequestEvent :=
  (machine hbm channelId).outputs (eventsOf hbm channelId) as

variable {hbm channelId} {c : ChannelController} {req : RamRequest}

/-- The events of a run with one more action. -/
theorem events_concat (as : List Action) (a : Action) :
    events hbm channelId (as ++ [a]) =
      events hbm channelId as ++ eventsOf hbm channelId ((machine hbm channelId).run as) a :=
  Machine.outputs_concat as a

/-! ## A tick -/

/-- The requests of the refresh scheduler are not in the queues of reads and writes. -/
theorem foldl_enqueue_refresh {reqs : List RamRequest} (hreqs : ∀ req ∈ reqs, req.type = .refresh)
    (c : ChannelController) :
    (reqs.foldl enqueue c).readq = c.readq ∧ (reqs.foldl enqueue c).writeq = c.writeq ∧
      (reqs.foldl enqueue c).pending = c.pending := by
  induction reqs generalizing c with
  | nil => exact ⟨rfl, rfl, rfl⟩
  | cons req reqs ih =>
    have htype : req.type = .refresh := hreqs req List.mem_cons_self
    have hsame : (c.enqueue req).readq = c.readq ∧ (c.enqueue req).writeq = c.writeq ∧
        (c.enqueue req).pending = c.pending := by
      -- a refresh is refused, or it goes to the queue of the others
      rcases enqueue_cases c req with ⟨-, heq⟩ | ⟨-, hforward, -⟩ | ⟨-, -, heq⟩
      · rw [heq]
        exact ⟨rfl, rfl, rfl⟩
      · rw [htype] at hforward
        exact absurd hforward.1 (by decide)
      · rw [heq, htype]
        exact ⟨rfl, rfl, rfl⟩
    obtain ⟨hread, hwrite, hpending⟩ := ih (fun r hr => hreqs r (List.mem_cons_of_mem req hr))
      (c.enqueue req)
    rw [List.foldl_cons, hread, hwrite, hpending]
    exact hsame

variable (hbm channelId) in
/-- The first steps of a tick change the reads and writes that wait by the read that completes. -/
theorem prepare_queues (c : ChannelController) :
    (c.prepare hbm channelId).readq = c.readq ∧ (c.prepare hbm channelId).writeq = c.writeq ∧
      c.pending = c.completed.toList ++ (c.prepare hbm channelId).pending := by
  have hreqs : ∀ req ∈ c.injected hbm channelId, req.type = .refresh := by
    intro req hreq
    obtain ⟨bank, -, rfl⟩ := mem_injected hreq
    rfl
  obtain ⟨hread, hwrite, hpending⟩ := foldl_enqueue_refresh hreqs
    { c.completeRead with refresh := (c.refresh.tickRef (hbm.refreshConfig channelId)).1 }
  rw [prepare_eq]
  exact ⟨hread, hwrite, hpending.symm ▸ pending_eq c⟩

/-- The request that is served, by the scheduled request and its first command. -/
theorem served_eq_some {i : ℕ} {cmd : Command}
    (hscheduled : (c.prepare hbm channelId).scheduled = some (req, i))
    (hfirst : (c.prepare hbm channelId).firstCmd req = some cmd) :
    c.served hbm channelId = if cmd = translate req.type then some req else none := by
  rw [served, hscheduled]
  by_cases hlast : cmd = translate req.type
  · rw [if_pos hlast]
    simp [Option.filter, hfirst, hlast]
  · rw [if_neg hlast]
    simp [Option.filter, hfirst, hlast]

/-- A queue from which no request is taken. -/
theorem map_begun_queueAfter {q : List RamRequest} {i : ℕ} (hget : q[i]? = some req) :
    (q.set i req.begun).map RamRequest.begun = q.map RamRequest.begun :=
  map_set_of_eq hget rfl

/-- A queue from which the request is taken. -/
theorem perm_begun_eraseIdx {q : List RamRequest} {i : ℕ} (hget : q[i]? = some req) :
    (q.map RamRequest.begun).Perm (req.begun :: (q.eraseIdx i).map RamRequest.begun) := by
  obtain ⟨hlt, rfl⟩ := List.getElem?_eq_some_iff.mp hget
  exact ((List.getElem_cons_eraseIdx_perm hlt).map RamRequest.begun).symm

/-- A tick that schedules a request takes it from the queue of its type. -/
theorem tick_of_scheduled {i : ℕ} {cmd : Command} (hq : c.QueuesHold fun _ => True)
    (hscheduled : (c.prepare hbm channelId).scheduled = some (req, i))
    (hfirst : (c.prepare hbm channelId).firstCmd req = some cmd) :
    let p := c.prepare hbm channelId
    (p.getQueue req.type)[i]? = some req ∧
      (req.type = .read ∨ req.type = .write ∨ req.type = .refresh) ∧
      c.tick hbm channelId = { p with
        stats := p.countScheduled req
        channel := p.channel.updateState cmd req.addrVec
        timing := p.timing.updateTiming hbm.speed cmd req.addrVec p.clk
        pending := pendingAfter hbm p req cmd }.setQueue req.type
          (if cmd ≠ translate req.type then (p.getQueue req.type).set i req.begun
          else (p.getQueue req.type).eraseIdx i) := by
  intro p
  -- the requests in a queue have its type, so the selected queue is that of the request
  have hp : p.QueuesHold fun _ => True := hq.prepare fun _ _ => trivial
  have hget := getElem?_of_getHead (scheduled_eq_some hscheduled).1
  have htype := (hp.getQueue _ req (List.mem_of_getElem? hget)).1
  rw [queueType_selectedQueue] at htype
  refine ⟨?_, ?_, ?_⟩
  · rw [htype]
    exact hget
  · rw [htype, selectedQueue]
    split
    · exact Or.inr (Or.inr rfl)
    · split
      · exact Or.inr (Or.inl rfl)
      · exact Or.inl rfl
  · have htick : c.tick hbm channelId = p.schedule hbm req i := by
      rw [tick, hscheduled]
    rw [htick, schedule_eq hfirst, queueAfter, ← htype]
    rfl

variable (hbm channelId) in
/-- The reads and writes after a tick, up to whether they have begun: those before, as the first
steps leave them, without the request that is served. -/
theorem tick_requests (hq : c.QueuesHold fun _ => True) :
    let p := c.prepare hbm channelId
    let c' := c.tick hbm channelId
    let reads := fun c : ChannelController => c.readq.map RamRequest.begun
    let writes := fun c : ChannelController => c.writeq.map RamRequest.begun
    (c.served hbm channelId = none ∧ reads c' = reads p ∧ writes c' = writes p ∧
        c'.pending = p.pending) ∨
      ∃ req, c.served hbm channelId = some req ∧
        ((req.type = .read ∧ (reads p).Perm (req.begun :: reads c') ∧ writes c' = writes p ∧
            c'.pending = p.pending ++
              [{ req.begun with depart := c.clk + 1 + hbm.speed.readLatency }]) ∨
          (req.type = .write ∧ reads c' = reads p ∧ (writes p).Perm (req.begun :: writes c') ∧
            c'.pending = p.pending) ∨
          (req.type = .refresh ∧ reads c' = reads p ∧ writes c' = writes p ∧
            c'.pending = p.pending)) := by
  intro p c' reads writes
  cases hscheduled : p.scheduled with
  | none =>
    -- nothing is scheduled
    refine Or.inl ?_
    have htick : c' = p := by
      show c.tick hbm channelId = p
      rw [tick, hscheduled]
    rw [htick, served, hscheduled]
    exact ⟨rfl, rfl, rfl, rfl⟩
  | some head =>
    obtain ⟨req, i⟩ := head
    obtain ⟨-, cmd, hfirst, -⟩ := scheduled_eq_some hscheduled
    obtain ⟨hget, hcases, htick⟩ := tick_of_scheduled hq hscheduled hfirst
    have htick : c' = _ := htick
    have hserved := served_eq_some hscheduled hfirst
    rw [pendingAfter] at htick
    by_cases hlast : cmd = translate req.type
    · -- the request is served
      rw [if_neg (not_not.mpr hlast)] at htick
      refine Or.inr ⟨req, hserved.trans (if_pos hlast), ?_⟩
      -- its queue loses it, and a read goes on to those that wait for their data
      rcases hcases with hreq | hreq | hreq
      · refine Or.inl ⟨hreq, ?_⟩
        rw [hreq] at htick hget
        rw [if_pos ⟨hreq ▸ hlast, rfl⟩] at htick
        rw [htick]
        refine ⟨perm_begun_eraseIdx hget, rfl, ?_⟩
        rw [← clk_prepare hbm channelId, RamRequest.begun, hreq]
        rfl
      · refine Or.inr (Or.inl ⟨hreq, ?_⟩)
        rw [hreq] at htick hget
        rw [if_neg fun h => absurd h.2 (by decide)] at htick
        rw [htick]
        exact ⟨rfl, perm_begun_eraseIdx hget, rfl⟩
      · refine Or.inr (Or.inr ⟨hreq, ?_⟩)
        rw [hreq, if_neg fun h => absurd h.2 (by decide)] at htick
        rw [htick]
        exact ⟨rfl, rfl, rfl⟩
    · -- a row is opened or closed for the request
      rw [if_pos hlast, if_neg fun h => hlast h.1] at htick
      refine Or.inl ⟨hserved.trans (if_neg hlast), ?_⟩
      rw [htick]
      rcases hcases with hreq | hreq | hreq
      · rw [hreq] at hget ⊢
        -- its queue only marks it as begun
        exact ⟨map_begun_queueAfter hget, rfl, rfl⟩
      · rw [hreq] at hget ⊢
        exact ⟨rfl, map_begun_queueAfter hget, rfl⟩
      · rw [hreq]
        exact ⟨rfl, rfl, rfl⟩

/-! ## Contents of the queues -/

/-- The contents of requests. -/
def contents (q : List RamRequest) : Multiset RamRequest.Content := q.map RamRequest.content

/-- No requests. -/
@[simp]
theorem contents_nil : contents [] = 0 := rfl

/-- The contents of two queues. -/
theorem contents_append (q q' : List RamRequest) :
    contents (q ++ q') = contents q + contents q' := by
  rw [contents, List.map_append, ← Multiset.coe_add]
  rfl

/-- The content of one request. -/
@[simp]
theorem contents_singleton (req : RamRequest) : contents [req] = {req.content} := rfl

/-- The reads that have been accepted wait in their queue, wait for their data or are completed, and
the writes wait in their queue or have been carried out. -/
structure Conserved (c : ChannelController) (h : List RequestEvent) : Prop where
  reads : acceptedOf .read h = contents c.readq + contents c.pending + finishedOf .read h
  writes : acceptedOf .write h = contents c.writeq + finishedOf .write h

variable {h : List RequestEvent}

/-- What a request asks for does not depend on whether it has begun. -/
theorem contents_map_begun (q : List RamRequest) :
    contents (q.map RamRequest.begun) = contents q := by
  rw [contents, List.map_map]
  rfl

/-- Queues with the same requests, up to whether they have begun. -/
theorem contents_eq {q q' : List RamRequest}
    (heq : q'.map RamRequest.begun = q.map RamRequest.begun) : contents q' = contents q := by
  rw [← contents_map_begun, heq, contents_map_begun]

/-- A queue that a request has left. -/
theorem contents_of_perm {q q' : List RamRequest}
    (hperm : (q.map RamRequest.begun).Perm (req.begun :: q'.map RamRequest.begun)) :
    contents q = {req.content} + contents q' := by
  have hcontents := hperm.map RamRequest.content
  rw [← contents_map_begun q, ← contents_map_begun q']
  exact Multiset.coe_eq_coe.mpr hcontents

/-- A new channel has accepted nothing. -/
theorem conserved_new : (new hbm channelId).Conserved [] := ⟨rfl, rfl⟩

/-- A request that comes in waits, or is refused. -/
theorem Conserved.enqueue (hc : c.Conserved h) (hreq : req.type = .read ∨ req.type = .write) :
    (c.enqueue req).Conserved (h ++ c.enqueueEvents req) := by
  rw [enqueueEvents]
  rcases enqueue_cases c req with ⟨hfull, heq⟩ | ⟨hroom, hforward, heq⟩ | ⟨hroom, hforward, heq⟩
  · -- refused
    rwa [heq, if_pos hfull, List.append_nil]
  · -- forwarded: it waits for its data
    rw [heq, if_neg hroom, if_pos hforward]
    constructor
    · rw [acceptedOf_append, finishedOf_append, hc.reads]
      simp [RequestEvent.accepted, RequestEvent.finished, hforward.1, contents_append,
        RamRequest.content]
      abel
    · rw [acceptedOf_append, finishedOf_append, hc.writes]
      simp [RequestEvent.accepted, RequestEvent.finished, hforward.1]
  · -- queued: it waits with the reads, or with the writes
    rw [heq, if_neg hroom, if_neg hforward]
    rcases hreq with hreq | hreq
    · rw [hreq]
      constructor
      · rw [acceptedOf_append, finishedOf_append, hc.reads]
        simp [RequestEvent.accepted, RequestEvent.finished,
          contents_append, RamRequest.content, setQueue, RamController.getQueue]
        abel
      · rw [acceptedOf_append, finishedOf_append, hc.writes]
        simp [RequestEvent.accepted, RequestEvent.finished, setQueue]
    · rw [hreq]
      constructor
      · rw [acceptedOf_append, finishedOf_append, hc.reads]
        simp [RequestEvent.accepted, RequestEvent.finished, setQueue]
      · rw [acceptedOf_append, finishedOf_append, hc.writes]
        simp [RequestEvent.accepted, RequestEvent.finished,
          contents_append, RamRequest.content, setQueue, RamController.getQueue]
        abel

/-- The events of a request that is served, by its type. -/
theorem servedEvents_of_none (h : c.served hbm channelId = none) :
    c.servedEvents hbm channelId = [] := by
  rw [servedEvents, h]

/-- A read that is served waits for its data. -/
theorem servedEvents_of_read (h : c.served hbm channelId = some req) (htype : req.type = .read) :
    c.servedEvents hbm channelId =
      [.fetched { req.begun with depart := c.clk + 1 + hbm.speed.readLatency }] := by
  rw [servedEvents, h]
  dsimp only
  rw [htype]

/-- A write that is served is carried out. -/
theorem servedEvents_of_write (h : c.served hbm channelId = some req) (htype : req.type = .write) :
    c.servedEvents hbm channelId = [.written req (c.clk + 1)] := by
  rw [servedEvents, h]
  dsimp only
  rw [htype]

/-- A refresh that is served is no event of reads and writes. -/
theorem servedEvents_of_refresh (h : c.served hbm channelId = some req)
    (htype : req.type = .refresh) : c.servedEvents hbm channelId = [] := by
  rw [servedEvents, h]
  dsimp only
  rw [htype]

/-- The completed read is a read. -/
theorem type_of_completed (hq : c.QueuesHold fun _ => True) (h : c.completed = some req) :
    req.type = .read := by
  refine (hq.pending req ?_).1
  rw [pending_eq c, h]
  exact List.mem_cons_self

/-- The read that completes is finished, and nothing is accepted. -/
theorem finishedOf_completed (hq : c.QueuesHold fun _ => True) :
    let es := c.completed.toList.map fun req => RequestEvent.completed req (c.clk + 1)
    finishedOf .read es = contents c.completed.toList ∧ finishedOf .write es = 0 ∧
      acceptedOf .read es = 0 ∧ acceptedOf .write es = 0 := by
  cases hcompleted : c.completed with
  | none => exact ⟨rfl, rfl, rfl, rfl⟩
  | some req =>
    have htype := type_of_completed hq hcompleted
    simp [RequestEvent.finished, RequestEvent.accepted, htype]

/-- A tick takes away what it finishes, and reads that are served wait for their data. -/
theorem Conserved.tick (hc : c.Conserved h) (hq : c.QueuesHold fun _ => True) :
    (c.tick hbm channelId).Conserved (h ++ c.tickEvents hbm channelId) := by
  obtain ⟨hread, hwrite, hpending⟩ := prepare_queues hbm channelId c
  obtain ⟨hfinRead, hfinWrite, haccRead, haccWrite⟩ := finishedOf_completed hq
  -- the read that completes leaves those that wait for their data
  have hreads := hc.reads
  have hwrites := hc.writes
  rw [hpending, contents_append, ← hread] at hreads
  rw [← hwrite] at hwrites
  rw [tickEvents]
  rcases tick_requests hbm channelId hq with
    ⟨hserved, hread', hwrite', hpending'⟩ | ⟨req, hserved, ⟨htype, hread', hwrite', hpending'⟩ |
      ⟨htype, hread', hwrite', hpending'⟩ | ⟨htype, hread', hwrite', hpending'⟩⟩
  · -- nothing is served
    rw [servedEvents_of_none hserved, List.append_nil]
    constructor
    · rw [acceptedOf_append, finishedOf_append, haccRead, hfinRead, hreads, contents_eq hread',
        hpending']
      abel
    · rw [acceptedOf_append, finishedOf_append, haccWrite, hfinWrite, hwrites, contents_eq hwrite']
      abel
  · -- a read leaves its queue and waits for its data
    rw [servedEvents_of_read hserved htype, ← List.append_assoc]
    constructor
    · rw [acceptedOf_append, acceptedOf_append, finishedOf_append, finishedOf_append, haccRead,
        hfinRead, hreads, contents_of_perm hread', hpending', contents_append, contents_singleton,
        acceptedOf_singleton, finishedOf_singleton]
      show _ + 0 + 0 = _ + (_ + ({req.content} : Multiset RamRequest.Content)) + (_ + _ + 0)
      abel
    · rw [acceptedOf_append, acceptedOf_append, finishedOf_append, finishedOf_append, haccWrite,
        hfinWrite, hwrites, contents_eq hwrite', acceptedOf_singleton, finishedOf_singleton]
      show _ + 0 + 0 = _ + (_ + 0 + 0)
      abel
  · -- a write leaves its queue and is finished
    rw [servedEvents_of_write hserved htype, ← List.append_assoc]
    have hfinished (type : RequestType) : (RequestEvent.written req (c.clk + 1)).finished type =
        if RequestType.write = type then {req.content} else 0 := by
      rw [RequestEvent.finished, htype]
    constructor
    · rw [acceptedOf_append, acceptedOf_append, finishedOf_append, finishedOf_append, haccRead,
        hfinRead, hreads, contents_eq hread', hpending', acceptedOf_singleton,
        finishedOf_singleton, hfinished]
      show _ + 0 + 0 = _ + (_ + _ + 0)
      abel
    · rw [acceptedOf_append, acceptedOf_append, finishedOf_append, finishedOf_append, haccWrite,
        hfinWrite, hwrites, contents_of_perm hwrite', acceptedOf_singleton, finishedOf_singleton,
        hfinished, if_pos rfl]
      show _ + 0 + 0 = _
      abel
  · -- a refresh is neither a read nor a write
    rw [servedEvents_of_refresh hserved htype, List.append_nil]
    constructor
    · rw [acceptedOf_append, finishedOf_append, haccRead, hfinRead, hreads, contents_eq hread',
        hpending']
      abel
    · rw [acceptedOf_append, finishedOf_append, haccWrite, hfinWrite, hwrites, contents_eq hwrite']
      abel

/-! ## Runs -/

/-- No action loses a request or serves it twice. -/
theorem Conserved.step (hc : c.Conserved h) (hq : c.QueuesHold fun _ => True) {a : Action}
    (ha : a.Sends fun _ => True) :
    (step hbm channelId c a).Conserved (h ++ eventsOf hbm channelId c a) := by
  cases a with
  | enqueue req => exact hc.enqueue ha.1
  | setBankRef bank hot =>
    rw [eventsOf, List.append_nil]
    exact ⟨hc.reads, hc.writes⟩
  | tick => exact hc.tick hq

variable (hbm channelId) in
/-- No run loses a request or serves it twice. -/
theorem conserved_run (as : List Action) (has : ∀ a ∈ as, a.Sends fun _ => True) :
    ((machine hbm channelId).run as).QueuesHold (fun _ => True) ∧
      ((machine hbm channelId).run as).Conserved (events hbm channelId as) := by
  refine Machine.run_outputs_invariant
    (P := fun (c : ChannelController) h => c.QueuesHold (fun _ => True) ∧ c.Conserved h)
    ?_ ?_ as has
  · exact ⟨queuesHold_new, conserved_new⟩
  · rintro c h a ha ⟨hq, hc⟩
    exact ⟨hq.step (fun _ _ => trivial) ha, hc.step hq ha⟩

/-- No request is lost and none is served twice: in every run in which the memory sends reads and
writes, the accepted reads are those that wait in their queue, those that wait for their data and
those that have completed, each as often as it has been accepted; and the accepted writes are those
that wait and those that have been carried out. -/
theorem requests_conserved (as : List Action) (has : ∀ a ∈ as, a.Sends fun _ => True) :
    let c := (machine hbm channelId).run as
    let h := events hbm channelId as
    acceptedOf .read h = contents c.readq + contents c.pending + finishedOf .read h ∧
      acceptedOf .write h = contents c.writeq + finishedOf .write h := by
  intro c h
  have hrun := (conserved_run hbm channelId as has).2
  exact ⟨hrun.reads, hrun.writes⟩

/-- A write, and a read that finds its data in it. -/
theorem requests_conserved_forward :
    let as : List Action := [.enqueue (.new 0 .write), .enqueue (.new 0 .read), .tick, .tick]
    let c := (machine oneRank 0).run as
    let h := events oneRank 0 as
    acceptedOf .read h = contents c.readq + contents c.pending + finishedOf .read h ∧
      acceptedOf .write h = contents c.writeq + finishedOf .write h :=
  requests_conserved _ (by simp [Action.Sends, RamRequest.new])

/-- A step of a run. -/
theorem events_each {Q : List RequestEvent → RequestEvent → Prop}
    (hstep : ∀ c h a, c.QueuesHold (fun _ => True) → c.Conserved h → a.Sends (fun _ => True) →
      (eventsOf hbm channelId c a).Each fun before e => Q (h ++ before) e)
    (as : List Action) (has : ∀ a ∈ as, a.Sends fun _ => True) :
    (events hbm channelId as).Each Q := by
  induction as using List.reverseRecOn with
  | nil => exact List.each_nil
  | append_singleton as a ih =>
    have has' : ∀ b ∈ as, b.Sends fun _ => True := fun b hb => has b (by simp [hb])
    obtain ⟨hq, hc⟩ := conserved_run hbm channelId as has'
    rw [events_concat]
    exact (ih has').append (hstep _ _ a hq hc (has a (by simp)))

/-! ## Reads and the writes before them -/

/-- How many of the requests are for the address. -/
def countTo (addr : ℕ) (s : Multiset RamRequest.Content) : ℕ :=
  s.countP fun content => content.addr = addr

/-- The requests for an address in two parts. -/
theorem countTo_add (addr : ℕ) (s t : Multiset RamRequest.Content) :
    countTo addr (s + t) = countTo addr s + countTo addr t :=
  Multiset.countP_add _ s t

/-- A queue has a request for the address. -/
theorem countTo_contents_pos (addr : ℕ) (q : List RamRequest) :
    0 < countTo addr (contents q) ↔ q.any (·.addr = addr) = true := by
  rw [countTo, contents, Multiset.coe_countP, List.countP_pos_iff, List.any_eq_true]
  simp [RamRequest.content]

/-- A read is answered from the queue of the writes if a write to its address has been accepted that
has not been carried out, and goes to the banks if all of them have been. -/
def ReadCoherent (before : List RequestEvent) : RequestEvent → Prop
  | .forwarded req =>
    countTo req.addr (finishedOf .write before) < countTo req.addr (acceptedOf .write before)
  | .queued req => req.type = .read →
    countTo req.addr (finishedOf .write before) = countTo req.addr (acceptedOf .write before)
  | .fetched _ | .completed _ _ | .written _ _ => True

/-- A read that comes in is forwarded exactly if a write to its address waits. -/
theorem Conserved.readCoherent (hc : c.Conserved h) (req : RamRequest) :
    (c.enqueueEvents req).Each fun before e => ReadCoherent (h ++ before) e := by
  -- the writes that wait are those accepted but not carried out
  have hcount := countTo_add req.addr (contents c.writeq) (finishedOf .write h)
  rw [← hc.writes] at hcount
  have hpos := countTo_contents_pos req.addr c.writeq
  rw [enqueueEvents]
  split
  · exact List.each_nil
  split
  · -- a read that is forwarded
    rename_i hforward
    have hwaits := hpos.mpr hforward.2
    refine List.each_nil.concat ?_
    rw [List.append_nil]
    show countTo req.addr _ < countTo req.addr _
    omega
  · rename_i hforward
    refine List.each_nil.concat ?_
    rw [List.append_nil]
    intro hread
    -- a request that is queued: if it is a read, no write to its address waits
    have hwaits : ¬ 0 < countTo req.addr (contents c.writeq) :=
      fun h => hforward ⟨hread, hpos.mp h⟩
    show countTo req.addr _ = countTo req.addr _
    omega

/-- What a tick does is not about the writes that are waiting. -/
theorem readCoherent_tickEvents (c : ChannelController) {e : RequestEvent}
    (he : e ∈ c.tickEvents hbm channelId) (before : List RequestEvent) :
    ReadCoherent before e := by
  rcases List.mem_append.mp he with he | he
  · obtain ⟨req, -, rfl⟩ := List.mem_map.mp he
    trivial
  · rw [servedEvents] at he
    split at he
    · cases he
    · split at he
      · rw [List.mem_singleton.mp he]
        trivial
      · rw [List.mem_singleton.mp he]
        trivial
      · cases he

/-- Reads see the writes that have been accepted before them: in every run in which the memory sends
reads and writes, a read takes its data from a write that waits if some write to its address has
been accepted and not carried out, and otherwise goes to the banks after all of these writes. -/
theorem read_coherent (as : List Action) (has : ∀ a ∈ as, a.Sends fun _ => True) :
    (events hbm channelId as).Each ReadCoherent := by
  refine events_each (fun c h a _ hc _ => ?_) as has
  cases a with
  | enqueue req => exact hc.readCoherent req
  | setBankRef bank hot => exact List.each_nil
  | tick =>
    exact List.each_of_forall_mem fun e he before => readCoherent_tickEvents c he (h ++ before)

/-- A write, a read that finds its data in it, and a read that does not. -/
theorem read_coherent_forward :
    (events oneRank 0 [.enqueue (.new 0 .write), .enqueue (.new 0 .read),
      .enqueue (.new 1 .read), .tick]).Each ReadCoherent :=
  read_coherent _ (by simp [Action.Sends, RamRequest.new])

end ChannelController

end StackedDram.Ramulator
