import Mathlib.Data.List.Perm.Basic
import StackedDram.Ramulator.Commands

/-!
# The queues of a channel

What the calls of a channel do to its queues. A tick schedules at most one request
(`tick_cases`), which stays in its place until its last command is issued, and nothing changes what
a request asks for (`RamRequest.Content`). So what holds of the contents of all requests that come
in holds of all requests in the queues (`queuesHold_run`).
-/

namespace StackedDram.Ramulator

/-! ## Requests -/

/-- What a request asks for: the part of it that the controller does not write. -/
structure RamRequest.Content where
  addr : ℕ
  addrVec : Level → ℤ
  coreid : ℕ
  type : RequestType

/-- What a request asks for. -/
def RamRequest.content (req : RamRequest) : RamRequest.Content :=
  ⟨req.addr, req.addrVec, req.coreid, req.type⟩

namespace ChannelController

variable {hbm : HBM} {channelId : ℕ} {c : ChannelController} {req : RamRequest} {i : ℕ}
  {cmd : Command}

/-! ## The scheduled request -/

/-- The loop of the scheduler ends at an entry that it has seen. -/
theorem mem_foldl_compare (ready : RamRequest → Bool) (l : List (RamRequest × ℕ))
    (head : RamRequest × ℕ) :
    l.foldl (fun head itr => if compare ready head.1 itr.1 then head else itr) head ∈
      head :: l := by
  induction l generalizing head with
  | nil => exact List.mem_cons_self
  | cons itr l ih =>
    rw [List.foldl_cons]
    split
    · -- the entry before is kept
      rcases List.mem_cons.mp (ih head) with heq | hmem
      · exact List.mem_cons.mpr (Or.inl heq)
      · exact List.mem_cons_of_mem head (List.mem_cons_of_mem itr hmem)
    · -- the entry is taken instead
      exact List.mem_cons_of_mem head (ih itr)

/-- The best of the entries is one of them. -/
theorem mem_of_best {ready : RamRequest → Bool} {l : List (RamRequest × ℕ)}
    {head : RamRequest × ℕ} (h : best ready l = some head) : head ∈ l := by
  cases l with
  | nil => cases h
  | cons first rest =>
    obtain rfl := Option.some.inj h
    exact mem_foldl_compare ready rest first

/-- The scheduler picks a request of the queue, with its position. -/
theorem getElem?_of_getHead {q : List RamRequest} (h : c.getHead q = some (req, i)) :
    q[i]? = some req := by
  obtain ⟨head, hhead, hpick⟩ := Option.bind_eq_some_iff.mp h
  refine List.mk_mem_zipIdx_iff_getElem?.mp ?_
  split at hpick
  · -- the best of all entries is picked
    obtain rfl := Option.some.inj hpick
    exact mem_of_best hhead
  · -- the best of those that do not have to wait for a hit is picked
    exact (List.mem_filter.mp (mem_of_best hpick)).1

/-- A tick issues no command and only prepares, or it issues the first command of a request that
waits in the selected queue. -/
theorem tick_cases (hbm : HBM) (channelId : ℕ) (c : ChannelController) :
    let p := c.prepare hbm channelId
    (c.issued hbm channelId = none ∧ c.tick hbm channelId = p) ∨
      ∃ req i cmd, (p.getQueue p.selectedQueue)[i]? = some req ∧
        p.getHead (p.getQueue p.selectedQueue) = some (req, i) ∧
        c.channel.decode (translate req.type) req.addrVec = some cmd ∧
        c.issued hbm channelId = some ⟨cmd, req.addrVec, c.clk + 1⟩ ∧
        c.tick hbm channelId = { p with
          stats := p.countScheduled req
          channel := c.channel.updateState cmd req.addrVec
          timing := c.timing.updateTiming hbm.speed cmd req.addrVec (c.clk + 1)
          pending := pendingAfter hbm p req cmd }.setQueue p.selectedQueue
            (p.queueAfter req i cmd) := by
  intro p
  cases hscheduled : p.scheduled with
  | none =>
    refine Or.inl ⟨?_, ?_⟩
    · rw [issued, hscheduled]
      rfl
    · rw [tick, hscheduled]
  | some head =>
    obtain ⟨req, i⟩ := head
    obtain ⟨hhead, -⟩ := scheduled_eq_some hscheduled
    obtain ⟨cmd, hfirst, hissued⟩ := issued_of_scheduled hscheduled
    -- preparing a tick changes neither the states nor the timing of the nodes
    have hdecode : c.channel.decode (translate req.type) req.addrVec = some cmd := by
      rwa [firstCmd, channel_prepare] at hfirst
    refine Or.inr ⟨req, i, cmd, getElem?_of_getHead hhead, hhead, hdecode, hissued, ?_⟩
    have htick : c.tick hbm channelId = p.schedule hbm req i := by
      rw [tick, hscheduled]
    rw [htick, schedule_eq hfirst, channel_prepare, timing_prepare, clk_prepare]

/-! ## Contents of the queues -/

/-- A queue that has been set. -/
@[simp]
theorem getQueue_setQueue_self (type : RequestType) (q : List RamRequest) :
    (c.setQueue type q).getQueue type = q := by
  cases type <;> rfl

/-- Setting a queue leaves the reads alone that wait for their data. -/
theorem pending_setQueue (type : RequestType) (q : List RamRequest) :
    (c.setQueue type q).pending = c.pending := by
  cases type <;> rfl

/-- Every request waits in the queue of its type, and what it asks for satisfies `P`. -/
structure QueuesHold (P : RamRequest.Content → Prop) (c : ChannelController) : Prop where
  readq : ∀ req ∈ c.readq, req.type = .read ∧ P req.content
  writeq : ∀ req ∈ c.writeq, req.type = .write ∧ P req.content
  otherq : ∀ req ∈ c.otherq, req.type = .refresh ∧ P req.content
  pending : ∀ req ∈ c.pending, req.type = .read ∧ P req.content

/-- The type of the requests in a queue of the controller. -/
def queueType : RequestType → RequestType
  | .read => .read
  | .write => .write
  | _ => .refresh

variable {P : RamRequest.Content → Prop}

/-- The selected queue is one of the three. -/
theorem queueType_selectedQueue (c : ChannelController) :
    queueType c.selectedQueue = c.selectedQueue := by
  rw [selectedQueue]
  split
  · rfl
  · split <;> rfl

/-- What follows from `P` holds of the requests, too. -/
theorem QueuesHold.mono (h : c.QueuesHold P) {Q : RamRequest.Content → Prop}
    (hPQ : ∀ content, P content → Q content) : c.QueuesHold Q where
  readq req hreq := (h.readq req hreq).imp_right (hPQ _)
  writeq req hreq := (h.writeq req hreq).imp_right (hPQ _)
  otherq req hreq := (h.otherq req hreq).imp_right (hPQ _)
  pending req hreq := (h.pending req hreq).imp_right (hPQ _)

/-- The requests of a queue, by its type. -/
theorem QueuesHold.getQueue (h : c.QueuesHold P) (type : RequestType) :
    ∀ req ∈ c.getQueue type, req.type = queueType type ∧ P req.content := by
  cases type with
  | read => exact h.readq
  | write => exact h.writeq
  | _ => exact h.otherq

/-- A queue is replaced by one of requests of its type. -/
theorem QueuesHold.setQueue (h : c.QueuesHold P) {type : RequestType} {q : List RamRequest}
    (hq : ∀ req ∈ q, req.type = queueType type ∧ P req.content) :
    (c.setQueue type q).QueuesHold P := by
  cases type with
  | read => exact ⟨hq, h.writeq, h.otherq, h.pending⟩
  | write => exact ⟨h.readq, hq, h.otherq, h.pending⟩
  | _ => exact ⟨h.readq, h.writeq, hq, h.pending⟩

/-- An entry of a list is replaced by one with the same image. -/
theorem map_set_of_eq {β : Type*} {f : RamRequest → β} {q : List RamRequest}
    (hget : q[i]? = some req)
    {req' : RamRequest} (heq : f req' = f req) : (q.set i req').map f = q.map f := by
  apply List.ext_getElem?
  intro j
  rw [List.map_set, List.getElem?_set, List.getElem?_map]
  split
  · rename_i hij
    subst hij
    obtain ⟨hlt, rfl⟩ := List.getElem?_eq_some_iff.mp hget
    simp [heq, hlt]
  · rfl

/-- What holds of the requests of a queue and of one more. -/
theorem forall_mem_concat {p : RamRequest → Prop} {q : List RamRequest} (hq : ∀ r ∈ q, p r)
    (hreq : p req) : ∀ r ∈ q ++ [req], p r := by
  intro r hr
  rcases List.mem_append.mp hr with hr | hr
  · exact hq r hr
  · rwa [List.mem_singleton.mp hr]

/-- A request that comes in is refused by a full queue, finds its data in a write that waits, or
waits itself. -/
theorem enqueue_cases (c : ChannelController) (req : RamRequest) :
    ((c.getQueue req.type).length = RamController.queueMax ∧ c.enqueue req = c) ∨
      ((c.getQueue req.type).length ≠ RamController.queueMax ∧
        (req.type = .read ∧ c.writeq.any (·.addr = req.addr) = true) ∧
        c.enqueue req = { c with
          pending := c.pending ++ [{ req with arrive := c.clk, depart := c.clk + 1 }] }) ∨
      ((c.getQueue req.type).length ≠ RamController.queueMax ∧
        ¬ (req.type = .read ∧ c.writeq.any (·.addr = req.addr) = true) ∧
        c.enqueue req =
          c.setQueue req.type (c.getQueue req.type ++ [{ req with arrive := c.clk }])) := by
  by_cases hfull : (c.toRamController.getQueue req.type).length = RamController.queueMax
  · -- the queue is full
    refine Or.inl ⟨hfull, ?_⟩
    rw [enqueue, RamController.enqueue_of_full hfull]
  by_cases hforward : req.type = .read ∧ c.writeq.any (·.addr = req.addr) = true
  · -- the data is that of a write
    refine Or.inr (Or.inl ⟨hfull, hforward, ?_⟩)
    rw [enqueue, RamController.enqueue_of_forward hfull hforward.1 hforward.2]
  refine Or.inr (Or.inr ⟨hfull, hforward, ?_⟩)
  rw [enqueue, RamController.enqueue_of_not_forward hfull hforward, RamController.pushBack]
  cases req.type <;> rfl

/-- A request that comes in waits in its queue, or for the data of a write. -/
theorem QueuesHold.enqueue (h : c.QueuesHold P)
    (htype : req.type = .read ∨ req.type = .write ∨ req.type = .refresh) (hreq : P req.content) :
    (c.enqueue req).QueuesHold P := by
  rcases enqueue_cases c req with ⟨-, heq⟩ | ⟨-, hforward, heq⟩ | ⟨-, -, heq⟩
  · rwa [heq]
  · rw [heq]
    -- the read waits for the data of a write
    exact ⟨h.readq, h.writeq, h.otherq, forall_mem_concat h.pending ⟨hforward.1, hreq⟩⟩
  · rw [heq]
    -- the request waits in its own queue
    refine h.setQueue (forall_mem_concat (h.getQueue _) ⟨?_, hreq⟩)
    show req.type = queueType req.type
    rcases htype with htype | htype | htype <;> rw [htype] <;> rfl

/-- The refresh scheduler injects requests for banks of the channel. -/
theorem mem_injected {req : RamRequest} (h : req ∈ c.injected hbm channelId) :
    ∃ bank < (hbm.refreshConfig channelId).nBanks,
      req = Refresh.bankRequest (hbm.refreshConfig channelId) bank := by
  rw [injected, Refresh.tickRef_eq, Refresh.tickedTo] at h
  obtain ⟨bank, hbank, rfl⟩ := List.mem_map.mp h
  exact ⟨bank, List.mem_range.mp (List.mem_filter.mp hbank).1, rfl⟩

/-- `P` holds of what the refresh scheduler asks for. -/
def HoldsOfRefreshes (hbm : HBM) (channelId : ℕ) (P : RamRequest.Content → Prop) : Prop :=
  ∀ bank < (hbm.refreshConfig channelId).nBanks,
    P (Refresh.bankRequest (hbm.refreshConfig channelId) bank).content

/-- A read that completes only leaves. -/
theorem QueuesHold.completeRead (h : c.QueuesHold P) : c.completeRead.QueuesHold P := by
  refine ⟨h.readq, h.writeq, h.otherq, fun req hreq => h.pending req ?_⟩
  rw [pending_eq]
  exact List.mem_append_right _ hreq

/-- Refreshes come in. -/
theorem QueuesHold.foldl_enqueue {reqs : List RamRequest} (h : c.QueuesHold P)
    (hreqs : ∀ req ∈ reqs, req.type = .refresh ∧ P req.content) :
    (reqs.foldl ChannelController.enqueue c).QueuesHold P := by
  induction reqs generalizing c with
  | nil => exact h
  | cons req reqs ih =>
    obtain ⟨htype, hreq⟩ := hreqs req List.mem_cons_self
    exact ih (h.enqueue (Or.inr (Or.inr htype)) hreq)
      fun r hr => hreqs r (List.mem_cons_of_mem req hr)

/-- The steps of a tick before a request is scheduled. -/
theorem QueuesHold.prepare (h : c.QueuesHold P) (hrefresh : HoldsOfRefreshes hbm channelId P) :
    (c.prepare hbm channelId).QueuesHold P := by
  have hcompleted := h.completeRead
  have hinjected : (c.injectRefreshes hbm channelId).QueuesHold P := by
    -- the completed read has left, and the refreshes come in
    refine foldl_enqueue
      ⟨hcompleted.readq, hcompleted.writeq, hcompleted.otherq, hcompleted.pending⟩ ?_
    intro req hreq
    obtain ⟨bank, hbank, rfl⟩ := mem_injected hreq
    exact ⟨rfl, hrefresh bank hbank⟩
  rw [prepare_eq]
  exact ⟨hinjected.readq, hinjected.writeq, hinjected.otherq, hinjected.pending⟩

/-- A tick changes no request but for the marks that the controller writes. -/
theorem QueuesHold.tick (h : c.QueuesHold P) (hrefresh : HoldsOfRefreshes hbm channelId P) :
    (c.tick hbm channelId).QueuesHold P := by
  have hprepare := h.prepare hrefresh
  rcases tick_cases hbm channelId c with ⟨-, htick⟩ | ⟨req, i, cmd, hget, -, -, -, htick⟩
  · rw [htick]
    exact hprepare
  rw [htick]
  have hreq := hprepare.getQueue _ req (List.mem_of_getElem? hget)
  apply QueuesHold.setQueue
  · -- a read that is served waits for its data
    refine ⟨hprepare.readq, hprepare.writeq, hprepare.otherq, ?_⟩
    show ∀ r ∈ pendingAfter hbm _ req cmd, _
    rw [pendingAfter]
    split
    · rename_i hlast
      exact forall_mem_concat hprepare.pending ⟨hlast.2, hreq.2⟩
    · exact hprepare.pending
  · -- a request that stays in its queue asks for the same
    rw [queueAfter]
    split
    · intro r hr
      rcases List.mem_or_eq_of_mem_set hr with hr | rfl
      · exact hprepare.getQueue _ r hr
      · exact hreq
    · exact fun r hr => hprepare.getQueue _ r (List.mem_of_mem_eraseIdx hr)

/-! ## Runs -/

/-- The calls of the memory, which sends reads and writes only, for requests that satisfy `P`. -/
def Action.Sends (P : RamRequest.Content → Prop) : Action → Prop
  | .enqueue req => (req.type = .read ∨ req.type = .write) ∧ P req.content
  | .setBankRef _ _ | .tick => True

/-- What follows from `P` holds of the requests that are sent, too. -/
theorem Action.Sends.mono {a : Action} (h : a.Sends P) {Q : RamRequest.Content → Prop}
    (hPQ : ∀ content, P content → Q content) : a.Sends Q := by
  cases a with
  | enqueue req => exact ⟨h.1, hPQ _ h.2⟩
  | setBankRef bank hot => trivial
  | tick => trivial

/-- No action brings in anything but what is sent and the refreshes. -/
theorem QueuesHold.step (h : c.QueuesHold P) (hrefresh : HoldsOfRefreshes hbm channelId P)
    {a : Action} (ha : a.Sends P) : (step hbm channelId c a).QueuesHold P := by
  cases a with
  | enqueue req => exact h.enqueue (ha.1.imp_right Or.inl) ha.2
  | setBankRef bank hot => exact ⟨h.readq, h.writeq, h.otherq, h.pending⟩
  | tick => exact h.tick hrefresh

/-- The queues of a new channel are empty. -/
theorem queuesHold_new : (new hbm channelId).QueuesHold P :=
  ⟨by simp [new], by simp [new], by simp [new], by simp [new]⟩

/-- What holds of all requests that come in holds of all requests in the queues. -/
theorem queuesHold_run (hrefresh : HoldsOfRefreshes hbm channelId P) (as : List Action)
    (has : ∀ a ∈ as, a.Sends P) : ((machine hbm channelId).run as).QueuesHold P :=
  Machine.run_invariant queuesHold_new (fun _ _ ha h => h.step hrefresh ha) as has

/-! ## Order of arrival -/

/-- The requests of the queue have arrived one after the other, and by now. -/
structure InOrder (clk : ℤ) (q : List RamRequest) : Prop where
  sorted : q.Pairwise fun req req' => req.arrive ≤ req'.arrive
  arrived : ∀ req ∈ q, req.arrive ≤ clk

section InOrder

variable {clk : ℤ} {q : List RamRequest}

/-- An empty queue is in order. -/
theorem inOrder_nil : InOrder clk [] := ⟨List.Pairwise.nil, by simp⟩

/-- A queue stays in order as time goes on. -/
theorem InOrder.mono (h : InOrder clk q) {clk' : ℤ} (hle : clk ≤ clk') : InOrder clk' q :=
  ⟨h.sorted, fun req hreq => Int.le_trans (h.arrived req hreq) hle⟩

/-- A request that arrives now goes to the end. -/
theorem InOrder.concat (h : InOrder clk q) (hreq : req.arrive = clk) :
    InOrder clk (q ++ [req]) := by
  refine ⟨?_, forall_mem_concat h.arrived (Int.le_of_eq hreq)⟩
  rw [List.pairwise_append]
  refine ⟨h.sorted, List.pairwise_singleton _ _, fun r hr r' hr' => ?_⟩
  rw [List.mem_singleton.mp hr', hreq]
  exact h.arrived r hr

/-- A request may leave from anywhere. -/
theorem InOrder.sublist (h : InOrder clk q) {q' : List RamRequest} (hsub : q'.Sublist q) :
    InOrder clk q' :=
  ⟨h.sorted.sublist hsub, fun req hreq => h.arrived req (hsub.subset hreq)⟩

/-- A request that is changed keeps its time of arrival. -/
theorem InOrder.set (h : InOrder clk q) (hget : q[i]? = some req) {req' : RamRequest}
    (heq : req'.arrive = req.arrive) : InOrder clk (q.set i req') := by
  -- order and arrival are properties of the times alone
  have hmap : (q.set i req').map RamRequest.arrive = q.map RamRequest.arrive :=
    map_set_of_eq hget heq
  constructor
  · have hsorted := List.pairwise_map.mpr h.sorted
    rw [← hmap] at hsorted
    exact List.pairwise_map.mp hsorted
  · intro r hr
    have hmem : r.arrive ∈ q.map RamRequest.arrive := hmap ▸ List.mem_map_of_mem hr
    obtain ⟨r', hr', hr''⟩ := List.mem_map.mp hmem
    exact hr'' ▸ h.arrived r' hr'

end InOrder

/-- The requests of all queues have arrived one after the other. -/
structure QueuesInOrder (c : ChannelController) : Prop where
  readq : InOrder c.clk c.readq
  writeq : InOrder c.clk c.writeq
  otherq : InOrder c.clk c.otherq

/-- A queue, by its type. -/
theorem QueuesInOrder.getQueue (h : c.QueuesInOrder) (type : RequestType) :
    InOrder c.clk (c.getQueue type) := by
  cases type with
  | read => exact h.readq
  | write => exact h.writeq
  | _ => exact h.otherq

/-- A queue is replaced by one that is in order. -/
theorem QueuesInOrder.setQueue (h : c.QueuesInOrder) {type : RequestType} {q : List RamRequest}
    (hq : InOrder c.clk q) : (c.setQueue type q).QueuesInOrder := by
  cases type with
  | read => exact ⟨hq, h.writeq, h.otherq⟩
  | write => exact ⟨h.readq, hq, h.otherq⟩
  | _ => exact ⟨h.readq, h.writeq, hq⟩

/-- A request that comes in goes to the end of its queue, if to any. -/
theorem QueuesInOrder.enqueue (h : c.QueuesInOrder) (req : RamRequest) :
    (c.enqueue req).QueuesInOrder := by
  rcases enqueue_cases c req with ⟨-, heq⟩ | ⟨-, -, heq⟩ | ⟨-, -, heq⟩
  · rwa [heq]
  · rw [heq]
    exact ⟨h.readq, h.writeq, h.otherq⟩
  · rw [heq]
    exact h.setQueue ((h.getQueue req.type).concat rfl)

/-- Requests come in one after the other. -/
theorem QueuesInOrder.foldl_enqueue (h : c.QueuesInOrder) (reqs : List RamRequest) :
    (reqs.foldl ChannelController.enqueue c).QueuesInOrder := by
  induction reqs generalizing c with
  | nil => exact h
  | cons req reqs ih => exact ih (h.enqueue req)

/-- The steps of a tick before a request is scheduled keep the order. -/
theorem QueuesInOrder.prepare (h : c.QueuesInOrder) :
    (c.prepare hbm channelId).QueuesInOrder := by
  have hle : c.clk ≤ c.clk + 1 := by omega
  -- the clock has advanced
  have hstart : QueuesInOrder { c.completeRead with
      refresh := (c.refresh.tickRef (hbm.refreshConfig channelId)).1 } :=
    ⟨h.readq.mono hle, h.writeq.mono hle, h.otherq.mono hle⟩
  have hinjected := hstart.foldl_enqueue (c.injected hbm channelId)
  rw [prepare_eq]
  exact ⟨hinjected.readq, hinjected.writeq, hinjected.otherq⟩

/-- Every action keeps the order. -/
theorem QueuesInOrder.step (h : c.QueuesInOrder) (a : Action) :
    (step hbm channelId c a).QueuesInOrder := by
  cases a with
  | enqueue req => exact h.enqueue req
  | setBankRef bank hot => exact ⟨h.readq, h.writeq, h.otherq⟩
  | tick =>
    show (c.tick hbm channelId).QueuesInOrder
    have hprepare : (c.prepare hbm channelId).QueuesInOrder := h.prepare
    rcases tick_cases hbm channelId c with ⟨-, htick⟩ | ⟨req, i, cmd, hget, -, -, -, htick⟩
    · rwa [htick]
    rw [htick]
    apply QueuesInOrder.setQueue
    · exact ⟨hprepare.readq, hprepare.writeq, hprepare.otherq⟩
    · -- the scheduled request stays in its place, or leaves
      rw [queueAfter]
      split
      · exact (hprepare.getQueue _).set hget rfl
      · exact (hprepare.getQueue _).sublist (List.eraseIdx_sublist _ i)

/-- In every queue, requests have arrived in the order in which they wait. -/
theorem queuesInOrder_of_reachable (hc : (machine hbm channelId).Reachable c) :
    c.QueuesInOrder :=
  hc.invariant ⟨inOrder_nil, inOrder_nil, inOrder_nil⟩ fun _ a _ h => h.step a

end ChannelController

end StackedDram.Ramulator
