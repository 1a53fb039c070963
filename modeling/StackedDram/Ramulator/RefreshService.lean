import StackedDram.Library.BusyPeriod
import StackedDram.Ramulator.RowHitFirst
import StackedDram.Ramulator.TimingSafety

/-!
# Service of refreshes

A channel serves the requests of its refresh scheduler before all others, each with one command. If
the banks are not too many for the interval of a hot bank (`LightLoad`), then the channel is a
server that is never busy for long (`refreshing_run`). So no refresh is ever refused, as
`Refresh::refresh_target` asserts, and at most one waits for each bank (`refreshes_accepted`).
-/

namespace StackedDram.Ramulator

/-- For how long a refresh of a rank may have to wait after the command before it. -/
def SpeedEntry.refreshWait (s : SpeedEntry) : ℤ := max 1 (max s.nRP s.nRFC)

/-- The only waits before a refresh are those after the closing of a row and after another
refresh. -/
theorem val_le_refreshWait (s : SpeedEntry) (level : Level) {cmd : Command}
    (hcmd : RamDRAM.KeepsRanks cmd) :
    ∀ w ∈ waits s level cmd, w.key = .ref → w.val ≤ s.refreshWait := by
  have hle : s.nRP ≤ s.refreshWait ∧ s.nRFC ≤ s.refreshWait := by
    rw [SpeedEntry.refreshWait]
    omega
  cases level <;> cases cmd <;> first | exact hcmd.elim | skip
  all_goals simp [waits, timing, TimingEntry.toWait, hle]

namespace RamDRAM

/-- No table says anything about rows for a refresh. -/
theorem checkRowFrom_eq_false {table : Level → Command → Option (RamDRAM → ℤ → Bool)}
    {cmd : Command} (htable : ∀ level, table level cmd = none) (depth : ℕ) (t : RamDRAM)
    (addr : Level → ℤ) : checkRowFrom table depth t cmd addr = false := by
  induction depth generalizing t with
  | zero => rfl
  | succ depth ih =>
    rw [checkRowFrom, htable]
    dsimp only
    split
    · exact ih _
    · rfl

end RamDRAM

namespace ChannelController

open RamTiming

variable {hbm : HBM} {channelId : ℕ} {c : ChannelController} {req : RamRequest} {h : List Issued}

/-! ## Injected requests -/

/-- A request as it waits in its queue from now on. -/
def arrived (clk : ℤ) (req : RamRequest) : RamRequest := { req with arrive := clk }

/-- The queue of refreshes is replaced. -/
theorem otherq_setQueue {type : RequestType} (htype : type = .refresh) (q : List RamRequest) :
    (c.setQueue type q).otherq = q := by
  rw [htype]
  rfl

/-- Refreshes are accepted while there is room for them. -/
theorem foldl_enqueue_otherq {reqs : List RamRequest} (hreqs : ∀ req ∈ reqs, req.type = .refresh)
    (c : ChannelController) (hroom : c.otherq.length + reqs.length ≤ RamController.queueMax) :
    (reqs.foldl enqueue c).otherq = c.otherq ++ reqs.map (arrived c.clk) := by
  induction reqs generalizing c with
  | nil => simp
  | cons req reqs ih =>
    have htype : req.type = .refresh := hreqs req List.mem_cons_self
    rw [List.length_cons] at hroom
    rcases enqueue_cases c req with ⟨hfull, -⟩ | ⟨-, hforward, -⟩ | ⟨-, -, heq⟩
    · rw [htype, RamController.getQueue] at hfull
      · omega
      all_goals exact fun h => by cases h
    · rw [htype] at hforward
      exact absurd hforward.1 (by decide)
    · -- a refresh that comes in goes to the end of its queue
      have hafter : (c.enqueue req).otherq = c.otherq ++ [arrived c.clk req] := by
        have hqueue : c.getQueue req.type = c.otherq := by rw [htype]; rfl
        rw [heq, hqueue, otherq_setQueue htype]
        rfl
      rw [List.foldl_cons, ih (fun r hr => hreqs r (List.mem_cons_of_mem req hr)), hafter,
        (sameNodes_enqueue c req).clk, List.append_assoc]
      · rfl
      · rw [hafter, List.length_append, List.length_singleton]
        omega

/-- Only refreshes are injected. -/
theorem type_of_mem_injected (hreq : req ∈ c.injected hbm channelId) : req.type = .refresh := by
  obtain ⟨bank, -, rfl⟩ := mem_injected hreq
  rfl

/-- The queue of refreshes when the request of a tick is scheduled. -/
theorem otherq_prepare
    (hroom : c.otherq.length + (c.injected hbm channelId).length ≤ RamController.queueMax) :
    (c.prepare hbm channelId).otherq =
      c.otherq ++ (c.injected hbm channelId).map (arrived (c.clk + 1)) := by
  rw [prepare_eq]
  exact foldl_enqueue_otherq (fun _ => type_of_mem_injected) _ hroom

/-- A refresh is injected for each bank that is due. -/
theorem injected_eq (c : ChannelController) : c.injected hbm channelId =
    ((List.range (hbm.refreshConfig channelId).nBanks).filter (c.refresh.Due ·)).map
      (Refresh.bankRequest (hbm.refreshConfig channelId)) := by
  rw [injected, Refresh.tickRef_eq]
  rfl

/-- As many refreshes are injected as banks are due. -/
theorem length_injected (c : ChannelController) : (c.injected hbm channelId).length =
    (List.range (hbm.refreshConfig channelId).nBanks).countP (c.refresh.Due ·) := by
  rw [injected_eq, List.length_map, List.countP_eq_length_filter]

/-- What a tick does to the refresh scheduler. -/
theorem refresh_tick (hbm : HBM) (channelId : ℕ) (c : ChannelController) :
    (c.tick hbm channelId).refresh = (c.refresh.tickRef (hbm.refreshConfig channelId)).1 := by
  have hfold (reqs : List RamRequest) (c : ChannelController) :
      (reqs.foldl enqueue c).refresh = c.refresh := by
    induction reqs generalizing c with
    | nil => rfl
    | cons req reqs ih => exact ih (c.enqueue req)
  have hprepare : (c.prepare hbm channelId).refresh =
      (c.refresh.tickRef (hbm.refreshConfig channelId)).1 := by
    rw [prepare_eq]
    exact hfold _ _
  rcases tick_cases hbm channelId c with ⟨-, htick⟩ | ⟨req, i, cmd, -, -, -, -, htick⟩
  · rw [htick, hprepare]
  · rw [htick]
    cases (c.prepare hbm channelId).selectedQueue <;> exact hprepare

/-! ## Service -/

/-- Refreshes do not close rows that others hit, as they hit none. -/
theorem violatesHit_of_refresh (hreq : req.type = .refresh) (q : List RamRequest) :
    c.violatesHit q req = false := by
  have hrowopen : ∀ level, rowopen level .ref = none := by
    intro level
    cases level <;> rfl
  have hopen : c.isRowOpen req = false := by
    rw [isRowOpen, hreq]
    exact RamDRAM.checkRowFrom_eq_false hrowopen _ _ _
  rw [violatesHit, hopen, Bool.and_false, Bool.false_and]

/-- While refreshes wait, a tick serves one of them, unless none is ready. -/
theorem otherq_tick (hc : c.OpensRows hbm channelId h) (hin : c.QueuesInOrder)
    (hsome : (c.prepare hbm channelId).otherq ≠ []) :
    (∃ req i, (c.prepare hbm channelId).otherq[i]? = some req ∧
        c.issued hbm channelId = some ⟨.ref, req.addrVec, c.clk + 1⟩ ∧
        (c.tick hbm channelId).otherq = (c.prepare hbm channelId).otherq.eraseIdx i) ∨
      (c.issued hbm channelId = none ∧
        (c.tick hbm channelId).otherq = (c.prepare hbm channelId).otherq ∧
        ∀ req ∈ (c.prepare hbm channelId).otherq,
          c.timing.check .ref req.addrVec (c.clk + 1) = false) := by
  have hprepare := hc.queues.prepare (holdsOfRefreshes_inBank hbm channelId)
  have hselected : (c.prepare hbm channelId).selectedQueue = .refresh := by
    rw [selectedQueue, if_pos hsome]
  rcases tick_cases hbm channelId c with ⟨hnone, htick⟩ | ⟨req, i, cmd, hget, -, hdecode, hissued,
    htick⟩
  · refine Or.inr ⟨hnone, by rw [htick], fun req hreq => ?_⟩
    obtain ⟨htype, hbank⟩ := hprepare.otherq req hreq
    -- no request is scheduled, so no refresh is ready
    have hscheduled : (c.prepare hbm channelId).scheduled = none := by
      cases hscheduled : (c.prepare hbm channelId).scheduled with
      | none => rfl
      | some head =>
        obtain ⟨cmd, -, hissued⟩ := issued_of_scheduled hscheduled
        exact absurd (hnone.symm.trans hissued) (by simp)
    -- otherwise the request would have been scheduled
    rw [scheduled_of_inOrder hin.prepare, Option.or_eq_none_iff, hselected] at hscheduled
    obtain ⟨i, hget⟩ := List.mem_iff_getElem?.mp hreq
    have hmem : (req, i) ∈ (c.prepare hbm channelId).otherq.zipIdx :=
      List.mk_mem_zipIdx_iff_getElem?.mpr hget
    have hnot := List.find?_eq_none.mp hscheduled.2 (req, i) hmem
    rw [violatesHit_of_refresh htype, Bool.not_false, Bool.true_and, isReady, firstCmd,
      channel_prepare, htype] at hnot
    have hfirst : c.channel.decode (translate .refresh) req.addrVec = some .ref :=
      hc.decode_refresh hbank
    rw [hfirst, timing_prepare, clk_prepare] at hnot
    exact Bool.eq_false_iff.mpr hnot
  · rw [hselected] at hget
    -- a refresh is scheduled, and the command for it is the refresh itself
    obtain ⟨htype, hbank⟩ := hprepare.otherq req (List.mem_of_getElem? hget)
    rw [htype] at hdecode
    obtain rfl : cmd = .ref := Option.some.inj (hdecode.symm.trans (hc.decode_refresh hbank))
    refine Or.inl ⟨req, i, hget, hissued, ?_⟩
    rw [htick, hselected, queueAfter, hselected, htype, if_neg (by decide)]
    rfl

/-- Without refreshes, a tick leaves none. -/
theorem otherq_tick_of_nil (hnone : (c.prepare hbm channelId).otherq = []) :
    (c.tick hbm channelId).otherq = [] := by
  rcases tick_cases hbm channelId c with ⟨-, htick⟩ | ⟨req, i, cmd, -, -, -, -, htick⟩
  · rw [htick, hnone]
  · have hselected : (c.prepare hbm channelId).selectedQueue = .write ∨
        (c.prepare hbm channelId).selectedQueue = .read := by
      rw [selectedQueue, if_neg (not_not.mpr hnone)]
      split
      · exact Or.inl rfl
      · exact Or.inr rfl
    rw [htick]
    rcases hselected with hselected | hselected <;>
    · rw [hselected]
      exact hnone

/-- A command that has waited for long enough after all commands is ready. -/
theorem TimedBy.check_of_late (hc : c.TimedBy hbm channelId h)
    (hreq : InBank hbm channelId req.content) {cmd : Command} {clk : ℤ} (hclk : 0 ≤ clk)
    (hlate : ∀ e ∈ h, ∀ level, ∀ w ∈ Ramulator.waits hbm.speed level e.cmd, w.key = cmd →
      e.clk + w.val ≤ clk) : c.timing.check cmd req.addrVec clk = true := by
  obtain ⟨r, b, htree, -, hrank, hbank⟩ := hreq
  have hrank : req.addrVec .rank = r := hrank
  have hbank : req.addrVec .bank = b := hbank
  -- every node on the way has waited for every command
  have hwaited (node : Node) : WaitedAt hbm.speed channelId h cmd clk node := by
    intro cmd' w hw hkey past hpast
    have hmem := List.mem_of_mem_drop hpast
    rw [Wait.timesOf, List.mem_reverse] at hmem
    obtain ⟨use, huse, rfl⟩ := List.mem_map.mp hmem
    obtain ⟨hmem, hcmd⟩ := List.mem_filter.mp huse
    obtain ⟨e, he, rfl⟩ := List.mem_map.mp hmem
    have hcmd : e.cmd = cmd' := of_decide_eq_true hcmd
    exact hlate e (List.mem_filter.mp he).1 node.level w (hcmd ▸ hw) hkey
  rw [hc.timing, check_iff_waitedAt hc.nonneg hclk htree hrank hbank]
  exact ⟨hwaited _, hwaited _, hwaited _⟩

/-- A refresh has waited for long enough after `refreshWait` clocks. -/
theorem TimedBy.check_refresh (hc : c.TimedBy hbm channelId h)
    (hkeeps : ∀ e ∈ h, RamDRAM.KeepsRanks e.cmd)
    (hreq : InBank hbm channelId req.content) (clk : ℤ) (hclk : 0 ≤ clk)
    (hlong : ∀ e ∈ h, e.clk + hbm.speed.refreshWait ≤ clk) :
    c.timing.check .ref req.addrVec clk = true := by
  apply hc.check_of_late hreq hclk
  intro e he level w hw hkey
  have hval := val_le_refreshWait hbm.speed level (hkeeps e he) w hw hkey
  have hlate := hlong e he
  omega

/-! ## Load -/

/-- The channel can refresh every bank, and one more, within the interval of a hot bank, and there
is a place for every bank in the queue. -/
structure LightLoad (hbm : HBM) (channelId : ℕ) : Prop where
  room : (hbm.refreshConfig channelId).nBanks ≤ RamController.queueMax
  load : hbm.speed.refreshWait * ((hbm.refreshConfig channelId).nBanks + 1) ≤ hbm.speed.nREFI / 2

/-- The channel as a server of refreshes, which has to wait for `slack` ticks. -/
def backlog (c : ChannelController) (slack : ℤ) : Backlog where
  clk := c.clk
  last := c.refresh.bankRefreshed
  waiting := c.otherq.length
  slack := slack

/-- What holds of a channel besides its queue of refreshes. -/
structure KeepsTime (hbm : HBM) (channelId : ℕ) (c : ChannelController) (h : List Issued) :
    Prop where
  opens : c.OpensRows hbm channelId h
  timed : c.TimedBy hbm channelId h
  inOrder : c.QueuesInOrder
  keeps : ∀ e ∈ h, RamDRAM.KeepsRanks e.cmd ∧ e.clk ≤ c.clk
  clk : c.refresh.clk = c.clk
  interval : ∀ bank, hbm.speed.nREFI / 2 ≤ c.refresh.bankRefInterval bank ∧
    c.refresh.bankRefInterval bank ≤ hbm.speed.nREFI

/-- A new channel. -/
theorem keepsTime_new (hREFI : 0 ≤ hbm.speed.nREFI) :
    (new hbm channelId).KeepsTime hbm channelId [] where
  opens := opensRows_new hbm channelId
  timed := ⟨newFrom_eq_recorded _ _ _ _ _, le_rfl, by simp⟩
  inOrder := ⟨inOrder_nil, inOrder_nil, inOrder_nil⟩
  keeps := by simp
  clk := rfl
  interval bank := by
    show hbm.speed.nREFI / 2 ≤ hbm.speed.nREFI ∧ _
    exact ⟨by omega, le_rfl⟩

/-- What an action does to the clocks, the commands and the intervals. -/
theorem KeepsTime.step (hc : c.KeepsTime hbm channelId h) (hREFI : 0 ≤ hbm.speed.nREFI)
    {a : Action} (ha : a.Sends (InBank hbm channelId)) :
    (step hbm channelId c a).KeepsTime hbm channelId (h ++ commandsOf hbm channelId c a) := by
  refine ⟨hc.opens.step ha, hc.timed.step a, hc.inOrder.step a, ?_, ?_, ?_⟩
  · -- the commands are in the past
    rcases sameNodes_step hbm channelId c a with ⟨hnone, hsame⟩ | ⟨e, -, hissued, hsome, hsame⟩
    · rw [hnone, List.append_nil, hsame.clk]
      intro e he
      obtain ⟨hkeeps, hpast⟩ := hc.keeps e he
      refine ⟨hkeeps, hpast.trans ?_⟩
      show c.clk ≤ c.clk + a.elapsed
      cases a <;> simp [Action.elapsed]
    · obtain ⟨-, -, -, -, hclk, -⟩ := issued_eq_some hissued
      rw [hsome, hsame.clk]
      intro e' he'
      rcases List.mem_append.mp he' with he' | he'
      · obtain ⟨hkeeps, hpast⟩ := hc.keeps e' he'
        refine ⟨hkeeps, ?_⟩
        show e'.clk ≤ e.clk
        omega
      · rw [List.mem_singleton.mp he']
        exact ⟨(hc.opens.rowLegal hissued).1.1, le_rfl⟩
  · cases a with
    | enqueue req => exact hc.clk.trans (sameNodes_enqueue c req).clk.symm
    | setBankRef bank hot => exact hc.clk
    | tick =>
      show (c.tick hbm channelId).refresh.clk = (c.tick hbm channelId).clk
      rw [refresh_tick, clk_tick, ← hc.clk, Refresh.tickRef_eq]
      rfl
  · intro bank
    cases a with
    | enqueue req => exact hc.interval bank
    | setBankRef bank' hot =>
      have hset : (ChannelController.step hbm channelId c
          (.setBankRef bank' hot)).refresh.bankRefInterval =
            Function.update c.refresh.bankRefInterval bank'
              (if hot then hbm.speed.nREFI / 2 else hbm.speed.nREFI) := rfl
      rw [hset]
      -- the interval of this bank is set, the others stay
      by_cases hbank : bank = bank'
      · rw [hbank, Function.update_self]
        split <;> omega
      · rw [Function.update_of_ne hbank]
        exact hc.interval bank
    | tick =>
      show _ ≤ (c.tick hbm channelId).refresh.bankRefInterval bank ∧
        (c.tick hbm channelId).refresh.bankRefInterval bank ≤ _
      rw [refresh_tick, Refresh.tickRef_eq]
      exact hc.interval bank

/-- The channel is busy with refreshes since then, and can serve the next one after `slack`
ticks. -/
structure Refreshing (hbm : HBM) (channelId : ℕ) (c : ChannelController) (h : List Issued)
    (since slack : ℤ) : Prop where
  time : c.KeepsTime hbm channelId h
  busy : (c.backlog slack).BusySince hbm.speed.refreshWait (hbm.refreshConfig channelId).nBanks
    since
  ready : ∀ e ∈ h, e.clk + hbm.speed.refreshWait ≤ c.clk + 1 + slack
  arrived : ∀ req ∈ c.otherq, since < req.arrive

/-- A refresh takes time. -/
theorem refreshWait_pos (s : SpeedEntry) : 0 < s.refreshWait := by
  rw [SpeedEntry.refreshWait]
  omega

variable {since slack : ℤ}

/-- A bank that is due has waited for the interval of a hot bank. -/
theorem KeepsTime.due (hc : c.KeepsTime hbm channelId h) (slack : ℤ) (bank : ℕ)
    (hdue : decide (c.refresh.Due bank) = true) :
    hbm.speed.nREFI / 2 ≤ (c.backlog slack).clk + 1 - (c.backlog slack).last bank := by
  have hinterval := (hc.interval bank).1
  have hdue : c.refresh.bankRefInterval bank ≤ c.refresh.clk + 1 - c.refresh.bankRefreshed bank :=
    of_decide_eq_true hdue
  rw [hc.clk] at hdue
  show _ ≤ c.clk + 1 - c.refresh.bankRefreshed bank
  omega

/-- A bank whose last refresh still waits is not due. -/
theorem Refreshing.not_due (hload : LightLoad hbm channelId)
    (hc : c.Refreshing hbm channelId h since slack) (hreq : req ∈ c.otherq) {bank : ℕ}
    (harrive : req.arrive = c.refresh.bankRefreshed bank) : ¬ c.refresh.Due bank := by
  intro hdue
  have hsince := hc.arrived req hreq
  -- a bank that is due has been refreshed before the channel was busy
  have hold := hc.busy.last_le_since (refreshWait_pos hbm.speed).le hload.load
    (hc.time.due slack bank (decide_eq_true hdue))
  have hlast : (c.backlog slack).last bank = c.refresh.bankRefreshed bank := rfl
  omega

/-- No more refreshes wait than there are banks, with those that a tick injects. -/
theorem Refreshing.waiting_le (hload : LightLoad hbm channelId)
    (hc : c.Refreshing hbm channelId h since slack) :
    c.otherq.length + (c.injected hbm channelId).length ≤
      (hbm.refreshConfig channelId).nBanks := by
  -- all that wait have come in since the channel is busy, at most one for each bank
  have harrivals := hc.busy.arrivals_arrive (refreshWait_pos hbm.speed).le hload.load
    fun bank _ => hc.time.due slack bank
  have hwaiting : c.otherq.length ≤ Backlog.arrivals (hbm.refreshConfig channelId).nBanks
      (c.backlog slack).last since := hc.busy.waiting_le
  have hle := Backlog.arrivals_le (hbm.refreshConfig channelId).nBanks
    ((c.backlog slack).arrive (hbm.refreshConfig channelId).nBanks
      fun bank => decide (c.refresh.Due bank)).last since
  rw [length_injected]
  omega

/-- A refresh waits for no longer than it takes to serve one for every bank. -/
theorem Refreshing.wait_lt (hc : c.Refreshing hbm channelId h since slack) :
    ∀ req ∈ c.otherq, c.clk - req.arrive <
      hbm.speed.refreshWait * (hbm.refreshConfig channelId).nBanks := by
  intro req hreq
  have harrived := hc.arrived req hreq
  -- the channel has been busy for no longer than it takes to serve all
  have hbusy := hc.busy.clk_sub_le (refreshWait_pos hbm.speed).le
  have hone : (1 : ℤ) ≤ c.otherq.length := by
    have hpos := List.length_pos_of_mem hreq
    omega
  have hwork := mul_le_mul_of_nonneg_left hone (refreshWait_pos hbm.speed).le
  have hclk : (c.backlog slack).clk = c.clk := rfl
  have hlength : (c.backlog slack).waiting = c.otherq.length := rfl
  rw [hclk, hlength] at hbusy
  omega

/-- A tick marks the banks that are due as refreshed. -/
theorem KeepsTime.bankRefreshed_tick (hc : c.KeepsTime hbm channelId h) (bank : ℕ) :
    (c.tick hbm channelId).refresh.bankRefreshed bank =
      if bank < (hbm.refreshConfig channelId).nBanks ∧ c.refresh.Due bank then c.clk + 1
      else c.refresh.bankRefreshed bank := by
  rw [refresh_tick, Refresh.tickRef_eq, ← hc.clk]
  rfl

/-- The channel as a server, after a tick. -/
theorem KeepsTime.backlog_tick (hc : c.KeepsTime hbm channelId h) (slack slack' : ℤ) :
    (c.tick hbm channelId).backlog slack' =
      { (c.backlog slack).arrive (hbm.refreshConfig channelId).nBanks
          fun bank => decide (c.refresh.Due bank) with
        waiting := (c.tick hbm channelId).otherq.length
        slack := slack' } := by
  rw [backlog, funext hc.bankRefreshed_tick, clk_tick]
  simp [Backlog.arrive, backlog]

/-- The refreshes that wait in a tick have come in since the channel was idle. -/
theorem Refreshing.arrived_prepare (hload : LightLoad hbm channelId)
    (hc : c.Refreshing hbm channelId h since slack) :
    (c.prepare hbm channelId).otherq.length = ((c.backlog slack).arrive
        (hbm.refreshConfig channelId).nBanks fun bank => decide (c.refresh.Due bank)).waiting ∧
      ∀ req ∈ (c.prepare hbm channelId).otherq, since < req.arrive := by
  have hotherq := otherq_prepare ((hc.waiting_le hload).trans hload.room)
  have hsince : since ≤ c.clk := hc.busy.since_le
  rw [hotherq]
  constructor
  · rw [List.length_append, List.length_map, length_injected]
    rfl
  · intro req hreq
    rcases List.mem_append.mp hreq with hreq | hreq
    · exact hc.arrived req hreq
    · obtain ⟨req, -, rfl⟩ := List.mem_map.mp hreq
      show since < c.clk + 1
      omega

/-- A tick serves a refresh that waits, or waits until it can. -/
theorem Refreshing.tick_busy (hload : LightLoad hbm channelId) (hREFI : 0 ≤ hbm.speed.nREFI)
    (hc : c.Refreshing hbm channelId h since slack)
    (hsome : (c.prepare hbm channelId).otherq ≠ []) :
    (∀ e, c.issued hbm channelId = some e → e.cmd = .ref) ∧
      ∃ slack', (c.tick hbm channelId).Refreshing hbm channelId
        (h ++ (c.issued hbm channelId).toList) since slack' := by
  have hpos := refreshWait_pos hbm.speed
  have htime : (c.tick hbm channelId).KeepsTime hbm channelId
      (h ++ (c.issued hbm channelId).toList) := hc.time.step hREFI trivial (a := .tick)
  have hdue : ∀ bank < (hbm.refreshConfig channelId).nBanks,
      decide (c.refresh.Due bank) = true → _ := fun bank _ => hc.time.due slack bank
  obtain ⟨hlength, harrived⟩ := hc.arrived_prepare hload
  rcases otherq_tick hc.time.opens hc.time.inOrder hsome with
    ⟨req, i, hget, hissued, htick⟩ | ⟨hissued, htick, hnot⟩
  · -- a refresh is served
    refine ⟨fun e he => ?_, hbm.speed.refreshWait - 1, htime, ?_, ?_, ?_⟩
    · rw [← Option.some.inj (hissued.symm.trans he)]
    · have hbusy := hc.busy.serve hpos hload.load hdue
        (hlength ▸ List.length_pos_of_ne_nil hsome)
      obtain ⟨hlt, -⟩ := List.getElem?_eq_some_iff.mp hget
      rw [hc.time.backlog_tick slack, htick, List.length_eraseIdx_of_lt hlt, hlength]
      exact hbusy
    · intro e he
      have hpast := (htime.keeps e he).2
      omega
    · rw [htick]
      exact fun req hreq => harrived req (List.mem_of_mem_eraseIdx hreq)
  · -- none is ready
    have hslack : 0 < slack := by
      -- otherwise the refresh has waited for long enough, and is ready
      by_contra hslack
      obtain ⟨req, hreq⟩ := List.exists_mem_of_ne_nil _ hsome
      have hprepare := hc.time.opens.queues.prepare (holdsOfRefreshes_inBank hbm channelId)
      have hclk := hc.time.timed.clk
      have hcheck := hc.time.timed.check_refresh (fun e he => (hc.time.keeps e he).1)
        (hprepare.otherq req hreq).2 (c.clk + 1) (by omega) fun e he => by
          have hready := hc.ready e he
          omega
      exact absurd hcheck (by rw [hnot req hreq]; exact Bool.false_ne_true)
    refine ⟨fun e he => absurd (hissued.symm.trans he) (by simp), slack - 1, htime, ?_, ?_, ?_⟩
    · rw [hc.time.backlog_tick slack, htick, hlength]
      exact hc.busy.wait hpos hload.load hdue hslack
    · rw [hissued, Option.toList_none, List.append_nil, clk_tick]
      intro e he
      have hready := hc.ready e he
      omega
    · rw [htick]
      exact harrived

/-- A tick without refreshes leaves the channel idle. -/
theorem Refreshing.tick_idle (hREFI : 0 ≤ hbm.speed.nREFI)
    (hc : c.Refreshing hbm channelId h since slack)
    (hnone : (c.prepare hbm channelId).otherq = []) {slack' : ℤ} (hslack : 0 ≤ slack')
    (hle : slack' ≤ hbm.speed.refreshWait - 1)
    (hready : ∀ e ∈ h ++ (c.issued hbm channelId).toList,
      e.clk + hbm.speed.refreshWait ≤ c.clk + 2 + slack') :
    (c.tick hbm channelId).Refreshing hbm channelId (h ++ (c.issued hbm channelId).toList)
      (c.clk + 1) slack' := by
  have htime : (c.tick hbm channelId).KeepsTime hbm channelId
      (h ++ (c.issued hbm channelId).toList) := hc.time.step hREFI trivial (a := .tick)
  have hnone' := otherq_tick_of_nil hnone
  refine ⟨htime, ?_, ?_, ?_⟩
  · have hclk : (c.tick hbm channelId).clk = c.clk + 1 := clk_tick
    rw [← hclk]
    refine Backlog.busySince_idle (b := (c.tick hbm channelId).backlog _) ?_ hslack hle ?_
    · show (c.tick hbm channelId).otherq.length = 0
      rw [hnone']
      rfl
    · rw [hc.time.backlog_tick slack]
      exact hc.busy.last_le_arrive _
  · rw [clk_tick]
    intro e he
    have hlate := hready e he
    omega
  · rw [hnone']
    exact fun req hreq => absurd hreq List.not_mem_nil

/-- A tick in which nothing is issued brings the next refresh closer. -/
theorem Refreshing.tick_wait (hload : LightLoad hbm channelId) (hREFI : 0 ≤ hbm.speed.nREFI)
    (hc : c.Refreshing hbm channelId h since slack)
    (hnone : (c.prepare hbm channelId).otherq = []) (hissued : c.issued hbm channelId = none)
    (hslack : 0 < slack) : (c.tick hbm channelId).Refreshing hbm channelId h since (slack - 1) := by
  have htime : (c.tick hbm channelId).KeepsTime hbm channelId
      (h ++ (c.issued hbm channelId).toList) := hc.time.step hREFI trivial (a := .tick)
  rw [hissued, Option.toList_none, List.append_nil] at htime
  have hdue : ∀ bank < (hbm.refreshConfig channelId).nBanks,
      decide (c.refresh.Due bank) = true → _ := fun bank _ => hc.time.due slack bank
  have hnone' := otherq_tick_of_nil hnone
  obtain ⟨hlength, -⟩ := hc.arrived_prepare hload
  refine ⟨htime, ?_, ?_, ?_⟩
  · have hwait := hc.busy.wait (refreshWait_pos hbm.speed) hload.load hdue hslack
    rw [hc.time.backlog_tick slack, hnone', ← hnone, hlength]
    exact hwait
  · rw [clk_tick]
    intro e he
    have hready := hc.ready e he
    omega
  · rw [hnone']
    exact fun req hreq => absurd hreq List.not_mem_nil

/-- A tick leaves the channel busy with refreshes, or idle. -/
theorem Refreshing.tick (hload : LightLoad hbm channelId) (hREFI : 0 ≤ hbm.speed.nREFI)
    (hc : c.Refreshing hbm channelId h since slack) :
    ∃ since' slack', (c.tick hbm channelId).Refreshing hbm channelId
      (h ++ (c.issued hbm channelId).toList) since' slack' := by
  by_cases hnone : (c.prepare hbm channelId).otherq = []
  · have hpos := refreshWait_pos hbm.speed
    have htime : (c.tick hbm channelId).KeepsTime hbm channelId
        (h ++ (c.issued hbm channelId).toList) := hc.time.step hREFI trivial (a := .tick)
    refine ⟨_, hbm.speed.refreshWait - 1, hc.tick_idle hREFI hnone (by omega) le_rfl ?_⟩
    intro e he
    have hpast := (htime.keeps e he).2
    rw [clk_tick] at hpast
    omega
  · obtain ⟨-, slack', htick⟩ := hc.tick_busy hload hREFI hnone
    exact ⟨since, slack', htick⟩

/-! ## Runs -/

/-- With a light load, the interval of a cool bank is no less than two clocks. -/
theorem LightLoad.le_nREFI (hload : LightLoad hbm channelId) : 2 ≤ hbm.speed.nREFI := by
  have hload := hload.load
  have hpos := refreshWait_pos hbm.speed
  have hbanks : (1 : ℤ) ≤ (hbm.refreshConfig channelId).nBanks + 1 := by omega
  have hle := mul_le_mul_of_nonneg_left hbanks hpos.le
  omega

/-- The queue of refreshes only changes in ticks. -/
theorem otherq_enqueue (htype : req.type = .read ∨ req.type = .write) (c : ChannelController) :
    (c.enqueue req).otherq = c.otherq := by
  rcases enqueue_cases c req with ⟨-, heq⟩ | ⟨-, -, heq⟩ | ⟨-, -, heq⟩
  · rw [heq]
  · rw [heq]
  · rw [heq]
    rcases htype with htype | htype <;> rw [htype] <;> rfl

/-- How hot a bank is makes no difference to the refreshes that wait. -/
theorem Refreshing.setBankRef (hREFI : 0 ≤ hbm.speed.nREFI)
    (hc : c.Refreshing hbm channelId h since slack) (bank : ℕ) (hot : Bool) :
    (c.setBankRef hbm channelId bank hot).Refreshing hbm channelId h since slack := by
  have htime := hc.time.step hREFI trivial (a := .setBankRef bank hot)
  rw [commandsOf, List.append_nil] at htime
  exact ⟨htime, hc.busy, hc.ready, hc.arrived⟩

/-- An action leaves the channel busy with refreshes, or idle. -/
theorem Refreshing.step (hload : LightLoad hbm channelId)
    (hc : c.Refreshing hbm channelId h since slack) {a : Action}
    (ha : a.Sends (InBank hbm channelId)) :
    ∃ since' slack', (step hbm channelId c a).Refreshing hbm channelId
      (h ++ commandsOf hbm channelId c a) since' slack' := by
  have hREFI := hload.le_nREFI
  have htime := hc.time.step (by omega) ha
  cases a with
  | enqueue req =>
    have hotherq := otherq_enqueue ha.1 c
    have hclk := (sameNodes_enqueue c req).clk
    have hsame : (c.enqueue req).backlog slack = c.backlog slack := by
      rw [backlog, hotherq, hclk]
      rfl
    refine ⟨since, slack, htime, ?_, ?_, ?_⟩
    · show ((c.enqueue req).backlog slack).BusySince _ _ since
      rw [hsame]
      exact hc.busy
    · show ∀ e ∈ h ++ [], e.clk + hbm.speed.refreshWait ≤ (c.enqueue req).clk + 1 + slack
      rw [hclk, List.append_nil]
      exact hc.ready
    · show ∀ r ∈ (c.enqueue req).otherq, since < r.arrive
      rw [hotherq]
      exact hc.arrived
  | setBankRef bank hot =>
    refine ⟨since, slack, ?_⟩
    rw [commandsOf, List.append_nil]
    exact hc.setBankRef (by omega) bank hot
  | tick => exact hc.tick hload (by omega)

/-- A new channel is idle. -/
theorem refreshing_new (hREFI : 0 ≤ hbm.speed.nREFI) :
    (new hbm channelId).Refreshing hbm channelId [] 0 (hbm.speed.refreshWait - 1) := by
  have hpos := refreshWait_pos hbm.speed
  refine ⟨keepsTime_new hREFI, ?_, by simp, ?_⟩
  · refine Backlog.busySince_idle (b := (new hbm channelId).backlog _) rfl ?_ le_rfl ?_
    · show 0 ≤ hbm.speed.refreshWait - 1
      omega
    · exact fun _ => le_rfl
  · exact fun req hreq => absurd hreq List.not_mem_nil

/-- What a channel keeps while it serves its refreshes holds after every run. -/
theorem refreshing_invariant (hload : LightLoad hbm channelId)
    {P : ChannelController → List Issued → Prop} (hnew : P (new hbm channelId) [])
    (hstep : ∀ c h since slack a, Refreshing hbm channelId c h since slack → P c h →
      a.Sends (InBank hbm channelId) →
      P (step hbm channelId c a) (h ++ commandsOf hbm channelId c a))
    (as : List Action) (has : ∀ a ∈ as, a.Sends (InBank hbm channelId)) :
    (∃ since slack, ((machine hbm channelId).run as).Refreshing hbm channelId
      (commands hbm channelId as) since slack) ∧
      P ((machine hbm channelId).run as) (commands hbm channelId as) := by
  have hREFI := hload.le_nREFI
  refine Machine.run_outputs_invariant
    (P := fun (c : ChannelController) h =>
      (∃ since slack, c.Refreshing hbm channelId h since slack) ∧ P c h) ?_ ?_ as has
  · exact ⟨⟨_, _, refreshing_new (by omega)⟩, hnew⟩
  · rintro c h a ha ⟨⟨since, slack, hc⟩, hP⟩
    exact ⟨hc.step hload ha, hstep c h since slack a hc hP ha⟩

theorem refreshing_run (hload : LightLoad hbm channelId) (as : List Action)
    (has : ∀ a ∈ as, a.Sends (InBank hbm channelId)) :
    ∃ since slack, ((machine hbm channelId).run as).Refreshing hbm channelId
      (commands hbm channelId as) since slack :=
  (refreshing_invariant hload (P := fun _ _ => True) trivial
    (fun _ _ _ _ _ _ _ _ => trivial) as has).1

/-! ## One refresh for each bank -/

/-- The refreshes that wait are the last ones of their banks, and no two are for the same bank. -/
structure OneEach (cfg : RefreshConfig) (q : List RamRequest) (last : ℕ → ℤ) : Prop where
  last : ∀ req ∈ q, ∃ bank < cfg.nBanks,
    req.addrVec = (Refresh.bankRequest cfg bank).addrVec ∧ req.arrive = last bank
  count : ∀ bank < cfg.nBanks, q.countP (Refresh.isFor cfg bank) ≤ 1

/-- A refresh is for the bank of its address. -/
theorem isFor_of_addrVec {cfg : RefreshConfig} {bank bank' : ℕ}
    (haddr : req.addrVec = (Refresh.bankRequest cfg bank').addrVec) :
    Refresh.isFor cfg bank req = true ↔ bank' = bank := by
  have hsame : Refresh.isFor cfg bank req = true ↔
      Refresh.isFor cfg bank (Refresh.bankRequest cfg bank') = true := by
    simp only [Refresh.isFor, haddr]
  exact hsame.trans Refresh.isFor_bankRequest

/-- A refresh has been taken out of the queue. -/
theorem OneEach.eraseIdx {cfg : RefreshConfig} {q : List RamRequest} {last : ℕ → ℤ}
    (hq : OneEach cfg q last) (i : ℕ) : OneEach cfg (q.eraseIdx i) last where
  last req hreq := hq.last req (List.mem_of_mem_eraseIdx hreq)
  count bank hbank := ((q.eraseIdx_sublist i).countP_le).trans (hq.count bank hbank)

/-- A tick injects no refresh for a bank that has one waiting. -/
theorem OneEach.injected (hload : LightLoad hbm channelId)
    (hc : c.Refreshing hbm channelId h since slack)
    (hq : OneEach (hbm.refreshConfig channelId) c.otherq c.refresh.bankRefreshed) {bank : ℕ}
    (hbank : bank < (hbm.refreshConfig channelId).nBanks) :
    (c.otherq ++ c.injected hbm channelId).countP
      (Refresh.isFor (hbm.refreshConfig channelId) bank) ≤ 1 := by
  show (c.otherq ++ (c.refresh.tickRef _).2).countP _ ≤ 1
  rw [List.countP_append, Refresh.countP_tickRef hbank]
  split
  · rename_i hdue
    have hnone : c.otherq.countP (Refresh.isFor (hbm.refreshConfig channelId) bank) = 0 := by
      rw [List.countP_eq_zero]
      intro req hreq hfor
      obtain ⟨bank', -, haddr, harrive⟩ := hq.last req hreq
      obtain rfl := (isFor_of_addrVec haddr).mp hfor
      exact hc.not_due hload hreq harrive hdue
    omega
  · exact hq.count bank hbank

/-- The refreshes with those that a tick injects. -/
theorem OneEach.prepare (hload : LightLoad hbm channelId)
    (hc : c.Refreshing hbm channelId h since slack)
    (hq : OneEach (hbm.refreshConfig channelId) c.otherq c.refresh.bankRefreshed) :
    OneEach (hbm.refreshConfig channelId) (c.prepare hbm channelId).otherq
      (c.tick hbm channelId).refresh.bankRefreshed := by
  rw [otherq_prepare ((hc.waiting_le hload).trans hload.room)]
  constructor
  · intro req hreq
    rcases List.mem_append.mp hreq with hreq | hreq
    · obtain ⟨bank, hbank, haddr, harrive⟩ := hq.last req hreq
      refine ⟨bank, hbank, haddr, ?_⟩
      rw [hc.time.bankRefreshed_tick, if_neg fun h => hc.not_due hload hreq harrive h.2]
      exact harrive
    · -- a new request is for a bank that is due
      obtain ⟨req, hmem, rfl⟩ := List.mem_map.mp hreq
      rw [injected_eq] at hmem
      obtain ⟨bank, hbank, rfl⟩ := List.mem_map.mp hmem
      obtain ⟨hlt, hdue⟩ := List.mem_filter.mp hbank
      refine ⟨bank, List.mem_range.mp hlt, rfl, ?_⟩
      rw [hc.time.bankRefreshed_tick, if_pos ⟨List.mem_range.mp hlt, of_decide_eq_true hdue⟩]
      rfl
  · intro bank hbank
    have hone := hq.injected hload hc hbank
    rw [List.countP_append] at hone ⊢
    rwa [List.countP_map]

/-- No action makes two refreshes wait for one bank. -/
theorem OneEach.step (hload : LightLoad hbm channelId)
    (hc : c.Refreshing hbm channelId h since slack)
    (hq : OneEach (hbm.refreshConfig channelId) c.otherq c.refresh.bankRefreshed) {a : Action}
    (ha : a.Sends (InBank hbm channelId)) :
    OneEach (hbm.refreshConfig channelId) (ChannelController.step hbm channelId c a).otherq
      (ChannelController.step hbm channelId c a).refresh.bankRefreshed := by
  cases a with
  | enqueue req =>
    show OneEach _ (c.enqueue req).otherq c.refresh.bankRefreshed
    rwa [otherq_enqueue ha.1]
  | setBankRef bank hot => exact hq
  | tick =>
    have hprepare := hq.prepare hload hc
    show OneEach _ (c.tick hbm channelId).otherq (c.tick hbm channelId).refresh.bankRefreshed
    by_cases hsome : (c.prepare hbm channelId).otherq = []
    · rw [otherq_tick_of_nil hsome]
      rwa [hsome] at hprepare
    rcases otherq_tick hc.time.opens hc.time.inOrder hsome with
      ⟨req, i, -, -, htick⟩ | ⟨-, htick, -⟩
    · rw [htick]
      exact hprepare.eraseIdx i
    · rwa [htick]

/-- The channel, ready to take the requests that its refresh scheduler injects in a tick. -/
def beforeInjections (hbm : HBM) (channelId : ℕ) (c : ChannelController) : ChannelController :=
  { c.completeRead with refresh := (c.refresh.tickRef (hbm.refreshConfig channelId)).1 }

/-- The refreshes that are injected find a place in the queue. -/
theorem Refreshing.accepted (hload : LightLoad hbm channelId)
    (hc : c.Refreshing hbm channelId h since slack) {before after : List RamRequest}
    (heq : c.injected hbm channelId = before ++ req :: after) :
    ((before.foldl enqueue (c.beforeInjections hbm channelId)).toRamController.enqueue req).2 =
      true := by
  have hwaiting := (hc.waiting_le hload).trans hload.room
  have hall : ∀ r ∈ before ++ req :: after, r.type = .refresh := by
    rw [← heq]
    exact fun _ => type_of_mem_injected
  have htype := hall req (by simp)
  rw [heq, List.length_append, List.length_cons] at hwaiting
  have hlength : (c.beforeInjections hbm channelId).otherq.length + before.length ≤
      RamController.queueMax := by
    show c.otherq.length + before.length ≤ _
    omega
  have hotherq := foldl_enqueue_otherq (fun r hr => hall r (List.mem_append_left _ hr)) _ hlength
  let c' := before.foldl enqueue (c.beforeInjections hbm channelId)
  have hqueue : (c'.toRamController.getQueue req.type).length ≠ RamController.queueMax := by
    rw [htype]
    show c'.otherq.length ≠ _
    rw [hotherq, List.length_append, List.length_map]
    show c.otherq.length + before.length ≠ _
    omega
  rw [RamController.enqueue_of_not_forward hqueue]
  rw [htype]
  exact fun hforward => absurd hforward.1 (by decide)

/-- In every run of a channel with a light load in which the memory sends reads and writes for banks
of the channel, the assertion of `refresh_target` holds: every refresh that is injected is accepted.
The refreshes that wait are for banks of the channel. At most one waits for each bank, even with
those that the next tick injects, and none waits for longer than it takes to refresh every bank
once. -/
theorem refreshes_accepted (hload : LightLoad hbm channelId) (as : List Action)
    (has : ∀ a ∈ as, a.Sends (InBank hbm channelId)) :
    let c := (machine hbm channelId).run as
    let cfg := hbm.refreshConfig channelId
    (∀ before req after, c.injected hbm channelId = before ++ req :: after →
        ((before.foldl enqueue
          (c.beforeInjections hbm channelId)).toRamController.enqueue req).2 = true) ∧
      (∀ req ∈ c.otherq, ∃ bank < cfg.nBanks, Refresh.isFor cfg bank req = true) ∧
      (∀ bank < cfg.nBanks,
        (c.otherq ++ c.injected hbm channelId).countP (Refresh.isFor cfg bank) ≤ 1) ∧
      c.otherq.length ≤ cfg.nBanks ∧
      ∀ req ∈ c.otherq, c.clk - req.arrive < hbm.speed.refreshWait * cfg.nBanks := by
  intro c cfg
  obtain ⟨⟨since, slack, hc⟩, hq⟩ := refreshing_invariant hload
    (P := fun c _ => OneEach cfg c.otherq c.refresh.bankRefreshed)
    ⟨fun req hreq => absurd hreq List.not_mem_nil, fun _ _ => Nat.zero_le 1⟩
    (fun c h since slack a hc hq ha => hq.step hload hc ha) as has
  have hwaiting : c.otherq.length + (c.injected hbm channelId).length ≤ cfg.nBanks :=
    hc.waiting_le hload
  refine ⟨fun before req after => hc.accepted hload, fun req hreq => ?_,
    fun bank hbank => hq.injected hload hc hbank, by omega, fun req hreq => hc.wait_lt req hreq⟩
  obtain ⟨bank, hbank, haddr, -⟩ := hq.last req hreq
  exact ⟨bank, hbank, (isFor_of_addrVec haddr).mpr rfl⟩

/-- A channel of one rank, whose banks are refreshed every twelve clocks. -/
def oftenRefreshed : HBM :=
  { oneRank with speed := { SpeedEntry.hbm1Gbps with nRP := 1, nRFC := 2, nREFI := 12 } }

/-- The first of two banks is hot. -/
def firstBankHot (n : ℕ) : List Action := .setBankRef 0 true :: List.replicate n .tick

/-- These actions send no requests. -/
theorem sends_firstBankHot (P : RamRequest.Content → Prop) (n : ℕ) :
    ∀ a ∈ firstBankHot n, a.Sends P := by
  intro a ha
  rcases List.mem_cons.mp ha with rfl | ha
  · trivial
  · obtain rfl := List.eq_of_mem_replicate ha
    trivial

/-- The refreshes of both banks are injected in the twelfth tick, and then one of them waits. -/
theorem refreshes_accepted_hot :
    let c := (machine oftenRefreshed 0).run (firstBankHot 11)
    let c' := (machine oftenRefreshed 0).run (firstBankHot 12)
    let cfg := oftenRefreshed.refreshConfig 0
    ((c.injected oftenRefreshed 0).length = 2 ∧
      (∀ before req after, c.injected oftenRefreshed 0 = before ++ req :: after →
        ((before.foldl enqueue
          (c.beforeInjections oftenRefreshed 0)).toRamController.enqueue req).2 = true) ∧
      ∀ bank < cfg.nBanks,
        (c.otherq ++ c.injected oftenRefreshed 0).countP (Refresh.isFor cfg bank) ≤ 1) ∧
    c'.otherq.length = 1 ∧
      (∀ req ∈ c'.otherq, ∃ bank < cfg.nBanks, Refresh.isFor cfg bank req = true) ∧
      ∀ req ∈ c'.otherq, c'.clk - req.arrive < 4 := by
  have hload : LightLoad oftenRefreshed 0 := ⟨by decide, by decide⟩
  obtain ⟨haccepted, -, hone, -, -⟩ := refreshes_accepted hload _ (sends_firstBankHot _ 11)
  obtain ⟨-, hbanks, -, -, hwait⟩ := refreshes_accepted hload _ (sends_firstBankHot _ 12)
  exact ⟨⟨by decide +kernel, haccepted, hone⟩, by decide +kernel, hbanks, hwait⟩

end ChannelController

end StackedDram.Ramulator
