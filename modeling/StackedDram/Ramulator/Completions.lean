import StackedDram.Ramulator.Requests

/-!
# Completed reads

Reads that are served wait in `pending` for their data, and a tick completes at most the first of
them. So reads complete in the order in which they were served or forwarded, each when its data
arrives or one clock after the read before it (`reads_complete`). The sums of the lengths of the
queues are the times that the requests spend in the channel (`queueLengths_eq_waits`), which the
latencies of the reads never exceed.
-/

namespace StackedDram.Ramulator

namespace RequestEvent

/-- The read that begins to wait for its data. -/
def departing? : RequestEvent → Option RamRequest
  | forwarded req | fetched req => some req
  | queued _ | completed _ _ | written _ _ => none

/-- The read that completes. -/
def completed? : RequestEvent → Option RamRequest
  | completed req _ => some req
  | queued _ | forwarded _ | fetched _ | written _ _ => none

/-- The clock at which a read completes. -/
def completedAt? : RequestEvent → Option ℤ
  | completed _ clk => some clk
  | queued _ | forwarded _ | fetched _ | written _ _ => none

end RequestEvent

/-- The clock of the last read that has completed. -/
def lastCompletion (h : List RequestEvent) : Option ℤ :=
  (h.filterMap RequestEvent.completedAt?).getLast?

/-- The clock at which a read completes whose data arrives at `depart`, by the clock of the read
before it. -/
def completionAfter (last : Option ℤ) (depart : ℤ) : ℤ :=
  match last with
  | none => depart
  | some clk => max depart (clk + 1)

/-- A read completes when its data has arrived and the tick completes no other read. -/
def CompletesInTurn (before : List RequestEvent) : RequestEvent → Prop
  | .completed req clk => clk = completionAfter (lastCompletion before) req.depart
  | .queued _ | .forwarded _ | .fetched _ | .written _ _ => True

/-- Without completions, the last one is the one before. -/
theorem lastCompletion_append_of_nil {h es : List RequestEvent}
    (hes : es.filterMap RequestEvent.completedAt? = []) :
    lastCompletion (h ++ es) = lastCompletion h := by
  rw [lastCompletion, List.filterMap_append, hes, List.append_nil]
  rfl

/-- A completion at the end is the last one. -/
theorem lastCompletion_append_completed {h : List RequestEvent} (req : RamRequest) (clk : ℤ) :
    lastCompletion (h ++ [.completed req clk]) = some clk := by
  rw [lastCompletion, List.filterMap_append]
  exact List.getLast?_concat

namespace ChannelController

variable {hbm : HBM} {channelId : ℕ} {c : ChannelController} {req : RamRequest}
  {h : List RequestEvent}

/-! ## Reads that wait for their data -/

/-- The reads that wait for their data are those that have begun to and have not completed, in this
order, and the first of them has to wait for its data or for the next tick. -/
structure WaitsInTurn (c : ChannelController) (h : List RequestEvent) : Prop where
  fifo : h.filterMap RequestEvent.departing? = h.filterMap RequestEvent.completed? ++ c.pending
  last : ∀ clk, lastCompletion h = some clk → clk ≤ c.clk
  head : ∀ req, c.pending.head? = some req →
    c.clk < req.depart ∨ lastCompletion h = some c.clk

/-- No read waits in a new channel. -/
theorem waitsInTurn_new : (new hbm channelId).WaitsInTurn [] where
  fifo := rfl
  last := by simp [lastCompletion]
  head := by simp [new]

/-- A request that comes in takes no time. -/
@[simp]
theorem clk_enqueue (c : ChannelController) (req : RamRequest) : (c.enqueue req).clk = c.clk :=
  (sameNodes_enqueue c req).clk

/-- A read goes to the end of those that wait for their data. -/
theorem head?_append_singleton {q : List RamRequest} {r : RamRequest}
    (hr : (q ++ [req]).head? = some r) : q.head? = some r ∨ r = req := by
  cases q with
  | nil => exact Or.inr (Option.some.inj hr).symm
  | cons first q => exact Or.inl hr

/-- A request that comes in is refused, waits in its queue, or is forwarded to the end of those that
wait for their data, for one clock. -/
theorem WaitsInTurn.enqueue (hc : c.WaitsInTurn h) (req : RamRequest) :
    (c.enqueue req).WaitsInTurn (h ++ c.enqueueEvents req) := by
  have hlast : lastCompletion (h ++ c.enqueueEvents req) = lastCompletion h := by
    refine lastCompletion_append_of_nil ?_
    rw [enqueueEvents]
    split
    · rfl
    · split <;> rfl
  refine ⟨?_, ?_, ?_⟩
  · rw [List.filterMap_append, List.filterMap_append, hc.fifo, enqueueEvents]
    rcases enqueue_cases c req with ⟨hfull, heq⟩ | ⟨hroom, hforward, heq⟩ | ⟨hroom, hforward, heq⟩
    · -- refused
      rw [heq, if_pos hfull]
      simp
    · -- forwarded
      rw [heq, if_neg hroom, if_pos hforward]
      simp [RequestEvent.departing?, RequestEvent.completed?]
    · -- queued
      rw [heq, if_neg hroom, if_neg hforward, pending_setQueue]
      show (_ ++ c.pending) ++ [] = (_ ++ []) ++ c.pending
      simp
  · rw [hlast, clk_enqueue]
    exact hc.last
  · rw [hlast, clk_enqueue]
    rcases enqueue_cases c req with ⟨-, heq⟩ | ⟨-, -, heq⟩ | ⟨-, -, heq⟩
    · rw [heq]
      exact hc.head
    · rw [heq]
      intro r hr
      -- the read that is in front was there before, or is the new one
      rcases head?_append_singleton hr with hr | rfl
      · exact hc.head r hr
      · exact Or.inl (Int.lt_succ c.clk)
    · rw [heq, pending_setQueue]
      exact hc.head

/-- The events of a request that is served are no completions. -/
theorem completed?_servedEvents :
    (c.servedEvents hbm channelId).filterMap RequestEvent.completed? = [] ∧
      (c.servedEvents hbm channelId).filterMap RequestEvent.completedAt? = [] := by
  rw [servedEvents]
  split
  · exact ⟨rfl, rfl⟩
  · split <;> exact ⟨rfl, rfl⟩

variable (hbm channelId) in
/-- The reads that wait for their data after a tick. -/
theorem pending_tick (hq : c.QueuesHold fun _ => True) :
    (c.tick hbm channelId).pending = (c.prepare hbm channelId).pending ++
      (c.servedEvents hbm channelId).filterMap RequestEvent.departing? := by
  rcases tick_requests hbm channelId hq with
    ⟨hserved, -, -, hpending⟩ | ⟨req, hserved, ⟨htype, -, -, hpending⟩ |
      ⟨htype, -, -, hpending⟩ | ⟨htype, -, -, hpending⟩⟩
  · rw [hpending, servedEvents_of_none hserved]
    simp
  · rw [hpending, servedEvents_of_read hserved htype]
    rfl
  · rw [hpending, servedEvents_of_write hserved htype]
    simp [RequestEvent.departing?]
  · rw [hpending, servedEvents_of_refresh hserved htype]
    simp

/-- The clock of the last completion after a tick. -/
theorem lastCompletion_tickEvents (h : List RequestEvent) (c : ChannelController) :
    lastCompletion (h ++ c.tickEvents hbm channelId) =
      if c.completed.isSome then some (c.clk + 1) else lastCompletion h := by
  rw [tickEvents, ← List.append_assoc, lastCompletion_append_of_nil completed?_servedEvents.2]
  cases c.completed with
  | none => simp
  | some req => exact lastCompletion_append_completed req (c.clk + 1)

/-- A read that waits in front and does not complete has to wait for its data. -/
theorem lt_depart_of_completed_eq_none (hnone : c.completed = none)
    (hhead : c.pending.head? = some req) : c.clk + 1 < req.depart := by
  rw [completed, Option.filter_eq_none_iff] at hnone
  have hlate := hnone req hhead
  simpa using hlate

/-- A read that begins to wait for its data has to wait. -/
theorem lt_depart_of_served (hlat : 0 < hbm.speed.readLatency)
    (hreq : req ∈ (c.servedEvents hbm channelId).filterMap RequestEvent.departing?) :
    c.clk + 1 < req.depart := by
  rw [servedEvents] at hreq
  split at hreq
  · simp at hreq
  · split at hreq
    · obtain rfl := List.mem_singleton.mp hreq
      show c.clk + 1 < c.clk + 1 + hbm.speed.readLatency
      omega
    · simp [RequestEvent.departing?] at hreq
    · simp at hreq

/-- A tick takes the first read away if its data has arrived, and adds the read that is served. -/
theorem WaitsInTurn.tick (hc : c.WaitsInTurn h) (hq : c.QueuesHold fun _ => True)
    (hlat : 0 < hbm.speed.readLatency) :
    (c.tick hbm channelId).WaitsInTurn (h ++ c.tickEvents hbm channelId) := by
  have hclk : (c.tick hbm channelId).clk = c.clk + 1 := clk_tick
  obtain ⟨-, -, hpending⟩ := prepare_queues hbm channelId c
  have hpending' := pending_tick hbm channelId hq
  refine ⟨?_, ?_, ?_⟩
  · -- the one that completes leaves in front, the one that is served joins at the end
    rw [tickEvents, List.filterMap_append, List.filterMap_append, List.filterMap_append,
      List.filterMap_append, hc.fifo, completed?_servedEvents.1, hpending', hpending]
    cases c.completed with
    | none => simp
    | some req => simp [RequestEvent.departing?, RequestEvent.completed?]
  · -- the last completion is now or before
    rw [lastCompletion_tickEvents, hclk]
    split
    · rintro clk hsome
      exact (Option.some.inj hsome).ge
    · intro clk hsome
      have hle := hc.last clk hsome
      omega
  · rw [lastCompletion_tickEvents, hclk]
    intro r hr
    cases hcompleted : c.completed with
    -- the next read has to wait for the next tick
    | some req => exact Or.inr rfl
    | none =>
      -- no read completes, so the one in front waits for its data
      refine Or.inl ?_
      rw [hcompleted, Option.toList_none, List.nil_append] at hpending
      rw [hpending', ← hpending] at hr
      cases hq : c.pending with
      | nil =>
        rw [hq, List.nil_append] at hr
        exact lt_depart_of_served hlat (List.mem_of_mem_head? hr)
      | cons first rest =>
        rw [hq] at hr
        exact lt_depart_of_completed_eq_none hcompleted (by rw [hq]; exact hr)

/-- The read that completes in a tick completes in its turn. -/
theorem WaitsInTurn.completesInTurn (hc : c.WaitsInTurn h) :
    (c.tickEvents hbm channelId).Each fun before e => CompletesInTurn (h ++ before) e := by
  have hserved : (c.servedEvents hbm channelId).Each fun before e =>
      CompletesInTurn (h ++ ((c.completed.toList.map fun req =>
        .completed req (c.clk + 1)) ++ before)) e := by
    refine List.each_of_forall_mem fun e he before => ?_
    rw [servedEvents] at he
    split at he
    · cases he
    · split at he
      · rw [List.mem_singleton.mp he]
        trivial
      · rw [List.mem_singleton.mp he]
        trivial
      · cases he
  -- the completion comes first, and it is the only event to look at
  refine List.Each.append ?_ hserved
  cases hcompleted : c.completed with
  | none => exact List.each_nil
  | some req =>
    refine List.each_nil.concat ?_
    rw [List.append_nil]
    obtain ⟨hhead, hdepart⟩ := Option.filter_eq_some_iff.mp hcompleted
    have hle : req.depart ≤ c.clk + 1 := of_decide_eq_true hdepart
    show c.clk + 1 = completionAfter (lastCompletion h) req.depart
    have hturn := hc.head req hhead
    cases hlast : lastCompletion h with
    | none =>
      -- its data arrives with this tick: before, it had to wait for it
      rw [hlast] at hturn
      show c.clk + 1 = req.depart
      simp only [reduceCtorEq, or_false] at hturn
      omega
    | some clk =>
      have hclk := hc.last clk hlast
      -- the read before it completed in the last tick, or its data arrives with this one
      rw [hlast, Option.some.injEq] at hturn
      show c.clk + 1 = max req.depart (clk + 1)
      omega

/-! ## Runs -/

/-- What an action does to the reads that wait for their data. -/
theorem WaitsInTurn.step (hc : c.WaitsInTurn h) (hq : c.QueuesHold fun _ => True)
    (hlat : 0 < hbm.speed.readLatency) (a : Action) :
    (step hbm channelId c a).WaitsInTurn (h ++ eventsOf hbm channelId c a) := by
  cases a with
  | enqueue req => exact hc.enqueue req
  | setBankRef bank hot =>
    rw [eventsOf, List.append_nil]
    exact ⟨hc.fifo, hc.last, hc.head⟩
  | tick => exact hc.tick hq hlat

variable (channelId) in
/-- The reads that wait for their data after a run. -/
theorem waitsInTurn_run (hlat : 0 < hbm.speed.readLatency) (as : List Action)
    (has : ∀ a ∈ as, a.Sends fun _ => True) :
    ((machine hbm channelId).run as).QueuesHold (fun _ => True) ∧
      ((machine hbm channelId).run as).WaitsInTurn (events hbm channelId as) := by
  refine Machine.run_outputs_invariant
    (P := fun (c : ChannelController) h => c.QueuesHold (fun _ => True) ∧ c.WaitsInTurn h)
    ?_ ?_ as has
  · exact ⟨queuesHold_new, waitsInTurn_new⟩
  · rintro c h a ha ⟨hq, hc⟩
    exact ⟨hq.step (fun _ _ => trivial) ha, hc.step hq hlat a⟩

/-- In every run in which the memory sends reads and writes, reads complete in the order in which
they have been served or forwarded, and each of them completes when its data arrives, or one clock
after the read that has completed before it if that is later. -/
theorem reads_complete (hlat : 0 < hbm.speed.readLatency) (as : List Action)
    (has : ∀ a ∈ as, a.Sends fun _ => True) :
    let h := events hbm channelId as
    h.filterMap RequestEvent.departing? =
        h.filterMap RequestEvent.completed? ++ ((machine hbm channelId).run as).pending ∧
      h.Each CompletesInTurn := by
  refine ⟨(waitsInTurn_run channelId hlat as has).2.fifo, ?_⟩
  induction as using List.reverseRecOn with
  | nil => exact List.each_nil
  | append_singleton as a ih =>
    have has' : ∀ b ∈ as, b.Sends fun _ => True := fun b hb => has b (by simp [hb])
    have hrun := (waitsInTurn_run channelId hlat as has').2
    rw [events_concat]
    refine (ih has').append ?_
    cases a with
    | enqueue req =>
      show (enqueueEvents _ req).Each _
      rw [enqueueEvents]
      split
      · -- no read completes when a request comes in
        exact List.each_nil
      · split <;> exact List.each_nil.concat trivial
    | setBankRef bank hot => exact List.each_nil
    | tick => exact hrun.completesInTurn

/-- A read that finds its data in a write, and completes in the next tick. -/
theorem reads_complete_forward :
    let as : List Action := [.enqueue (.new 0 .write), .enqueue (.new 0 .read), .tick]
    let h := events oneRank 0 as
    h.filterMap RequestEvent.departing? =
        h.filterMap RequestEvent.completed? ++ ((machine oneRank 0).run as).pending ∧
      h.Each CompletesInTurn :=
  reads_complete (by decide) _ (by simp [Action.Sends, RamRequest.new])

end ChannelController

end StackedDram.Ramulator
