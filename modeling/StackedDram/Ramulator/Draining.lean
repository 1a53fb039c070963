import StackedDram.Ramulator.CommandsLeft
import StackedDram.Ramulator.Completions
import StackedDram.Ramulator.RefreshService

/-!
# Draining of the queues

Once no more requests are sent, a channel finishes all reads and writes that it has accepted, within
a time that only depends on its standard and on how many there are (`requests_finish`). Refreshes go
first, but they leave the channel idle again and again, so that the next command for a read or a
write is never far (`KeepsTime.issued_of_late`, `Draining.clk_lt`). When all of them have been
served, the reads only wait for their data.
-/

namespace StackedDram.Ramulator

/-- The longest time for which a command may have to wait after one for a read or a write. -/
def SpeedEntry.accessWait (s : SpeedEntry) : ℤ :=
  ([.channel, .rank, .bank].flatMap fun level : Level =>
    [.act, .pre, .rd, .wr].flatMap fun cmd => (timing s level cmd).map TimingEntry.val).foldr max 1

/-- A maximum is no less than what it is taken of. -/
theorem le_foldr_max {a b : ℤ} {l : List ℤ} (ha : a ∈ l ∨ a = b) : a ≤ l.foldr max b := by
  induction l with
  | nil => exact (ha.resolve_left List.not_mem_nil).le
  | cons x l ih =>
    rw [List.foldr_cons, le_max_iff]
    rcases ha with ha | ha
    · rcases List.mem_cons.mp ha with rfl | ha
      · exact Or.inl le_rfl
      · exact Or.inr (ih (Or.inl ha))
    · exact Or.inr (ih (Or.inr ha))

/-- `accessWait` is no less than the waits after commands for reads and writes. -/
theorem val_le_accessWait (s : SpeedEntry) (level : Level) {cmd : Command}
    (hcmd : RamDRAM.KeepsRanks cmd) (href : cmd ≠ .ref) :
    ∀ w ∈ waits s level cmd, w.val ≤ s.accessWait := by
  intro w hw
  obtain ⟨entry, hentry, rfl⟩ := List.mem_map.mp hw
  -- only these levels and commands have waits
  have hlevel : level ∈ [Level.channel, .rank, .bank] := by
    cases level with
    | row | column => cases hentry
    | _ => decide
  have hmem : cmd ∈ [Command.act, .pre, .rd, .wr] := by
    cases cmd <;> first | exact hcmd.elim | exact absurd rfl href | decide
  apply le_foldr_max
  left
  refine List.mem_flatMap.mpr ⟨level, hlevel, List.mem_flatMap.mpr ⟨cmd, hmem, ?_⟩⟩
  exact List.mem_map_of_mem hentry

/-- `accessWait` is positive. -/
theorem one_le_accessWait (s : SpeedEntry) : 1 ≤ s.accessWait := le_foldr_max (Or.inr rfl)

/-- A refresh makes the accesses that follow wait for no longer than the next refresh. -/
theorem val_ref_le_refreshWait (s : SpeedEntry) (level : Level) :
    ∀ w ∈ waits s level .ref, w.key ≠ .pde → w.val ≤ s.refreshWait := by
  have hle : s.nRFC ≤ s.refreshWait := by
    rw [SpeedEntry.refreshWait]
    omega
  cases level <;> simp [waits, timing, TimingEntry.toWait, hle]

namespace ChannelController

variable {hbm : HBM} {channelId : ℕ} {c c' : ChannelController} {h : List Issued}

/-! ## Progress -/

/-- The requests whose turn it is are ready when all commands have been issued long ago. -/
theorem KeepsTime.isReady_of_late (hc : c.KeepsTime hbm channelId h)
    (hlate : ∀ e ∈ h, e.clk + (if e.cmd = .ref then hbm.speed.refreshWait
      else hbm.speed.accessWait) ≤ c.clk + 1) {req : RamRequest}
    (hmem : req ∈ c.accesses c.nextWriteMode) :
    (c.prepare hbm channelId).isReady req = true := by
  obtain ⟨haccess, hbank⟩ := hc.opens.access_of_mem hmem
  have hclk := hc.timed.clk
  -- no command that may come first for the request has to wait any longer
  have hcheck (cmd : Command) (hcmd : cmd ≠ .pde) :
      c.timing.check cmd req.addrVec (c.clk + 1) = true := by
    apply hc.timed.check_of_late hbank (by omega)
    intro e he level w hw hkey
    have hlate := hlate e he
    have hval : w.val ≤ if e.cmd = .ref then hbm.speed.refreshWait else hbm.speed.accessWait := by
      split
      · rename_i href
        rw [href] at hw
        exact val_ref_le_refreshWait _ _ w hw (hkey ▸ hcmd)
      · rename_i href
        exact val_le_accessWait _ _ (hc.keeps e he).1 href w hw
    omega
  have hlast : translate req.type ≠ .pde := by
    rcases haccess with htype | htype <;> rw [htype] <;> decide
  rw [isReady, timing_prepare, clk_prepare]
  rcases hc.opens.prepare.first_cases hbank haccess with
    ⟨-, hfirst, -⟩ | ⟨o, -, ⟨-, hfirst, -⟩ | ⟨-, hfirst, -⟩⟩
  · rw [hfirst]
    exact hcheck .act (by decide)
  · rw [hfirst]
    exact hcheck _ hlast
  · rw [hfirst]
    exact hcheck .pre (by decide)

/-- A request that is ready is not kept waiting by requests that would be ready as well. -/
theorem KeepsTime.issued_of_late (hc : c.KeepsTime hbm channelId h)
    (hlate : ∀ e ∈ h, e.clk + (if e.cmd = .ref then hbm.speed.refreshWait
      else hbm.speed.accessWait) ≤ c.clk + 1)
    (hnone : (c.prepare hbm channelId).otherq = []) (hsome : c.readq ≠ [] ∨ c.writeq ≠ []) :
    c.issued hbm channelId ≠ none := by
  have hqueue : (c.prepare hbm channelId).getQueue (c.prepare hbm channelId).selectedQueue =
      c.accesses c.nextWriteMode := by rw [selectedQueue_prepare hnone, getQueue_prepare]
  have hready (req : RamRequest) (hmem : req ∈ c.accesses c.nextWriteMode) :=
    hc.isReady_of_late hlate hmem
  intro hissued
  -- if nothing is issued, then nothing is scheduled
  have hscheduled : (c.prepare hbm channelId).scheduled = none := by
    cases hscheduled : (c.prepare hbm channelId).scheduled with
    | none => rfl
    | some head =>
      obtain ⟨cmd, -, hsome⟩ := issued_of_scheduled hscheduled
      exact absurd (hissued.symm.trans hsome) (by simp)
  rw [scheduled_of_inOrder hc.inOrder.prepare, Option.or_eq_none_iff, hqueue] at hscheduled
  obtain ⟨hnohit, hnofirst⟩ := hscheduled
  have hitem {req : RamRequest} (hmem : req ∈ c.accesses c.nextWriteMode) :
      ∃ i, (req, i) ∈ (c.accesses c.nextWriteMode).zipIdx := by
    obtain ⟨i, hget⟩ := List.mem_iff_getElem?.mp hmem
    exact ⟨i, List.mk_mem_zipIdx_iff_getElem?.mpr hget⟩
  -- some request waits, and it is ready
  obtain ⟨req, hreq⟩ := List.exists_mem_of_ne_nil _ (accesses_ne_nil hsome)
  obtain ⟨i, hreqItem⟩ := hitem hreq
  have hviolates := List.find?_eq_none.mp hnofirst (req, i) hreqItem
  rw [hready req hreq, Bool.and_true, Bool.not_eq_true, Bool.not_eq_false'] at hviolates
  -- the request only waits for one that hits the row, which is ready itself
  rw [violatesHit, Bool.and_eq_true_iff, List.contains_iff_mem] at hviolates
  obtain ⟨hit, hhit, -⟩ := List.mem_map.mp hviolates.2
  obtain ⟨hhit, hrowHit⟩ := List.mem_filter.mp hhit
  obtain ⟨j, hhitItem⟩ := hitem hhit
  have hnot := List.find?_eq_none.mp hnohit (hit, j) hhitItem
  rw [hready hit hhit, hrowHit] at hnot
  exact hnot rfl

/-! ## Runs -/

/-- How long it takes at most until the next command for a read or a write. -/
def patience (hbm : HBM) (channelId : ℕ) : ℤ :=
  hbm.speed.accessWait + hbm.speed.refreshWait * ((hbm.refreshConfig channelId).nBanks + 1)

/-- `patience` is not negative. -/
theorem patience_nonneg (hbm : HBM) (channelId : ℕ) : 0 ≤ patience hbm channelId := by
  have hpos := refreshWait_pos hbm.speed
  have hone := one_le_accessWait hbm.speed
  exact add_nonneg (by omega) (mul_nonneg hpos.le (by omega))

/-- The last command for a read or a write has been issued at the time `last`, and with `patience`
for each command that is left, there will be none left at the time `limit`. -/
structure Draining (hbm : HBM) (channelId : ℕ) (c : ChannelController) (h : List Issued)
    (last since slack limit : ℤ) : Prop where
  refreshing : c.Refreshing hbm channelId h since slack
  last_le : ∀ e ∈ h, e.cmd ≠ .ref → e.clk ≤ last
  since_le : since ≤ last + hbm.speed.accessWait
  limit_le : last + patience hbm channelId * c.commandsLeft hbm channelId h ≤ limit

variable {last since slack limit : ℤ}

/-- The next command for a read or a write is not far. -/
theorem Draining.clk_lt (hc : c.Draining hbm channelId h last since slack limit) :
    c.clk < last + patience hbm channelId := by
  have hpos := refreshWait_pos hbm.speed
  -- since the last access the channel has been busy with refreshes only
  have hbusy : c.clk - since ≤ hbm.speed.refreshWait * (hbm.refreshConfig channelId).nBanks +
      (hbm.speed.refreshWait - 1) - hbm.speed.refreshWait * c.otherq.length :=
    hc.refreshing.busy.clk_sub_le hpos.le
  have hwaiting : 0 ≤ hbm.speed.refreshWait * (c.otherq.length : ℤ) :=
    mul_nonneg hpos.le (Int.natCast_nonneg _)
  have hsince := hc.since_le
  rw [patience, mul_add, mul_one]
  omega

/-- While there are reads or writes, the limit has not been reached. -/
theorem Draining.clk_lt_limit (hc : c.Draining hbm channelId h last since slack limit)
    (hsome : c.readq ≠ [] ∨ c.writeq ≠ []) : c.clk < limit := by
  have hclk := hc.clk_lt
  have hlimit := hc.limit_le
  have hnonneg := patience_nonneg hbm channelId
  -- each of them needs a command
  have hleft : 1 ≤ c.commandsLeft hbm channelId h := by
    rw [← List.length_pos_iff, ← List.length_pos_iff] at hsome
    have hle := le_commandsLeft hbm channelId c h
    omega
  have hmul := mul_le_mul_of_nonneg_left (Int.ofNat_le.mpr hleft) hnonneg
  rw [Nat.cast_one, mul_one] at hmul
  omega

/-- Refreshes and ticks without a command change no queue of reads or writes, and no row. -/
theorem queues_tick (hquiet : c.issued hbm channelId = none ∨
    (c.prepare hbm channelId).otherq ≠ []) :
    (c.tick hbm channelId).readq = c.readq ∧ (c.tick hbm channelId).writeq = c.writeq := by
  obtain ⟨hread, hwrite, -⟩ := prepare_queues hbm channelId c
  rcases tick_cases hbm channelId c with ⟨-, htick⟩ | ⟨req, i, cmd, -, -, -, hissued, htick⟩
  · rw [htick]
    exact ⟨hread, hwrite⟩
  · have hsome := hquiet.resolve_left fun hnone => absurd (hnone.symm.trans hissued) (by simp)
    have hselected : (c.prepare hbm channelId).selectedQueue = .refresh := by
      rw [selectedQueue, if_pos hsome]
    rw [htick, hselected]
    exact ⟨hread, hwrite⟩

/-- Refreshes leave the rows as they are. -/
theorem rowsAfter_append_issued (hquiet : ∀ e, c.issued hbm channelId = some e → e.cmd = .ref) :
    rowsAfter (h ++ (c.issued hbm channelId).toList) = rowsAfter h := by
  cases hissued : c.issued hbm channelId with
  | none => rw [Option.toList_none, List.append_nil]
  | some e =>
    rw [Option.toList_some, rowsAfter_concat, stepRows, Issued.rowCommand, hquiet e hissued]

/-- A tick brings the end closer, or at least the next command. -/
theorem Draining.tick (hload : LightLoad hbm channelId)
    (hc : c.Draining hbm channelId h last since slack limit)
    (hsome : c.readq ≠ [] ∨ c.writeq ≠ []) :
    ∃ last' since' slack', (c.tick hbm channelId).Draining hbm channelId
      (h ++ (c.issued hbm channelId).toList) last' since' slack' limit := by
  have hREFI := hload.le_nREFI
  have hpos := refreshWait_pos hbm.speed
  have hone := one_le_accessWait hbm.speed
  have hmode : (c.tick hbm channelId).writeMode = c.nextWriteMode := writeMode_tick c
  have htime := hc.refreshing.time
  -- what follows when no command for a read or a write is issued
  have hquiet (hissued : ∀ e, c.issued hbm channelId = some e → e.cmd = .ref)
      (hqueues : c.issued hbm channelId = none ∨ (c.prepare hbm channelId).otherq ≠ [])
      {since' slack' : ℤ} (hsince : since' ≤ last + hbm.speed.accessWait)
      (hrefreshing : (c.tick hbm channelId).Refreshing hbm channelId
        (h ++ (c.issued hbm channelId).toList) since' slack') :
      (c.tick hbm channelId).Draining hbm channelId (h ++ (c.issued hbm channelId).toList)
        last since' slack' limit := by
    obtain ⟨hread, hwrite⟩ := queues_tick hqueues
    refine ⟨hrefreshing, fun e he href => ?_, hsince, ?_⟩
    · rcases List.mem_append.mp he with he | he
      · exact hc.last_le e he href
      · exact absurd (hissued e (Option.mem_toList.mp he)) href
    · rw [commandsLeft_eq hmode hread hwrite (rowsAfter_append_issued hissued)]
      exact hc.limit_le
  by_cases hnone : (c.prepare hbm channelId).otherq = []
  · by_cases hissued : c.issued hbm channelId = none
    · -- nothing is issued, so a refresh or an access has to wait
      have hnothing : ∀ e, c.issued hbm channelId = some e → e.cmd = .ref :=
        fun e he => absurd (hissued.symm.trans he) (by simp)
      have hlist : h ++ (c.issued hbm channelId).toList = h := by
        rw [hissued, Option.toList_none, List.append_nil]
      by_cases hslack : 0 < slack
      · -- the next refresh comes closer
        refine ⟨last, since, slack - 1, hquiet hnothing (Or.inl hissued) hc.since_le ?_⟩
        rw [hlist]
        exact hc.refreshing.tick_wait hload (by omega) hnone hissued hslack
      · -- no refresh has to wait, so an access has to, and not for long
        have hzero : slack = 0 := le_antisymm (by omega) hc.refreshing.busy.slack_nonneg
        have hready := hc.refreshing.ready
        have hsoon : c.clk + 1 < last + hbm.speed.accessWait := by
          by_contra hlate
          refine htime.issued_of_late (fun e he => ?_) hnone hsome hissued
          split
          · have hready := hready e he
            omega
          · rename_i href
            have hlast := hc.last_le e he href
            omega
        refine ⟨last, c.clk + 1, 0, hquiet hnothing (Or.inl hissued) hsoon.le ?_⟩
        refine hc.refreshing.tick_idle (by omega) hnone le_rfl (by omega) fun e he => ?_
        rw [hlist] at he
        have hready := hready e he
        omega
    · -- a command for an access is issued, and there is one less to do
      obtain ⟨e, he⟩ := Option.ne_none_iff_exists'.mp hissued
      obtain ⟨-, -, -, -, hclk, -⟩ := issued_eq_some he
      have hpast : ∀ e' ∈ h ++ (c.issued hbm channelId).toList, e'.clk ≤ c.clk + 1 := by
        rw [he]
        intro e' he'
        rcases List.mem_append.mp he' with he' | he'
        · have hpast := (htime.keeps e' he').2
          omega
        · rw [List.mem_singleton.mp he', hclk]
      have hslack : 0 ≤ hbm.speed.refreshWait - 1 := by omega
      refine ⟨c.clk + 1, c.clk + 1, hbm.speed.refreshWait - 1, ?_, fun e' he' _ => hpast e' he',
        by omega, ?_⟩
      · refine hc.refreshing.tick_idle (by omega) hnone hslack le_rfl fun e' he' => ?_
        have hpast := hpast e' he'
        omega
      · have hless := commandsLeft_tick htime.opens htime.inOrder hnone he
        have hlimit := hc.limit_le
        have hclk := hc.clk_lt
        have hnonneg := patience_nonneg hbm channelId
        have hmul := mul_le_mul_of_nonneg_left (Int.ofNat_le.mpr hless) hnonneg
        rw [Nat.cast_add, Nat.cast_one, mul_add, mul_one] at hmul
        rw [he, Option.toList_some]
        omega
  · -- a refresh is served
    obtain ⟨href, slack', hbusy⟩ := hc.refreshing.tick_busy hload (by omega) hnone
    exact ⟨last, since, slack', hquiet href (Or.inr hnone) hc.since_le hbusy⟩

/-- How hot a bank is makes no difference to what is left to be done. -/
theorem Draining.setBankRef (hREFI : 0 ≤ hbm.speed.nREFI)
    (hc : c.Draining hbm channelId h last since slack limit) (bank : ℕ) (hot : Bool) :
    (c.setBankRef hbm channelId bank hot).Draining hbm channelId h last since slack limit :=
  ⟨hc.refreshing.setBankRef hREFI bank hot, hc.last_le, hc.since_le, hc.limit_le⟩

/-! ## Reads that wait for their data -/

/-- The data of the reads that have begun come within the read latency. -/
def DepartsSoon (hbm : HBM) (c : ChannelController) : Prop :=
  ∀ req ∈ c.pending, req.depart ≤ c.clk + hbm.speed.readLatency

/-- The reads that wait for their data when a request is scheduled waited for it before. -/
theorem mem_pending_of_prepare {req : RamRequest}
    (hreq : req ∈ (c.prepare hbm channelId).pending) : req ∈ c.pending := by
  obtain ⟨-, -, hpending⟩ := prepare_queues hbm channelId c
  rw [hpending]
  exact List.mem_append_right _ hreq

/-- A read that begins in a tick departs after the read latency. -/
theorem DepartsSoon.tick (hc : c.DepartsSoon hbm) (hq : c.QueuesHold fun _ => True) :
    (c.tick hbm channelId).DepartsSoon hbm := by
  have hold : ∀ req ∈ (c.prepare hbm channelId).pending,
      req.depart ≤ c.clk + 1 + hbm.speed.readLatency := fun req hreq => by
    have hsoon := hc req (mem_pending_of_prepare hreq)
    omega
  rw [DepartsSoon, clk_tick]
  rcases tick_requests hbm channelId hq with ⟨-, -, -, hpending⟩ |
    ⟨req, -, ⟨-, -, -, hpending⟩ | ⟨-, -, -, hpending⟩ | ⟨-, -, -, hpending⟩⟩
  · rw [hpending]
    exact hold
  · rw [hpending]
    exact forall_mem_concat hold le_rfl
  · rw [hpending]
    exact hold
  · rw [hpending]
    exact hold

/-- The data of a write that waits come at once. -/
theorem DepartsSoon.step (hlat : 0 < hbm.speed.readLatency) (hc : c.DepartsSoon hbm)
    (hq : c.QueuesHold fun _ => True) (a : Action) :
    (step hbm channelId c a).DepartsSoon hbm := by
  cases a with
  | enqueue req =>
    show (c.enqueue req).DepartsSoon hbm
    rw [DepartsSoon, clk_enqueue]
    rcases enqueue_cases c req with ⟨-, heq⟩ | ⟨-, -, heq⟩ | ⟨-, -, heq⟩
    · rw [heq]
      exact hc
    · rw [heq]
      refine forall_mem_concat hc ?_
      show c.clk + 1 ≤ c.clk + hbm.speed.readLatency
      omega
    · rw [heq, pending_setQueue]
      exact hc
  | setBankRef bank hot => exact hc
  | tick => exact hc.tick hq

variable (hbm channelId) in
/-- A read that begins waits for its data instead of its turn. -/
theorem length_pending_tick (hq : c.QueuesHold fun _ => True) :
    (c.tick hbm channelId).pending.length + (c.tick hbm channelId).readq.length ≤
      c.pending.length + c.readq.length := by
  obtain ⟨hread, -, hpending⟩ := prepare_queues hbm channelId c
  have hcompleted := congrArg List.length hpending
  rw [List.length_append] at hcompleted
  -- no read begins
  have hsame (hreads : (c.tick hbm channelId).readq.map RamRequest.begun =
      (c.prepare hbm channelId).readq.map RamRequest.begun)
      (hpending' : (c.tick hbm channelId).pending = (c.prepare hbm channelId).pending) :
      (c.tick hbm channelId).pending.length + (c.tick hbm channelId).readq.length ≤
        c.pending.length + c.readq.length := by
    have hlength := congrArg List.length hreads
    rw [List.length_map, List.length_map, hread] at hlength
    rw [hpending']
    omega
  rcases tick_requests hbm channelId hq with ⟨-, hreads, -, hpending'⟩ |
    ⟨req, -, ⟨-, hreads, -, hpending'⟩ | ⟨-, hreads, -, hpending'⟩ | ⟨-, hreads, -, hpending'⟩⟩
  · exact hsame hreads hpending'
  · -- a read begins
    have hlength := hreads.length_eq
    rw [List.length_cons, List.length_map, List.length_map, hread] at hlength
    rw [hpending', List.length_append, List.length_singleton]
    omega
  · exact hsame hreads hpending'
  · exact hsame hreads hpending'

variable (hbm channelId) in
/-- Without reads and writes that wait for their turn, a tick only completes a read. -/
theorem queues_tick_of_nil (hq : c.QueuesHold fun _ => True) (hread : c.readq = [])
    (hwrite : c.writeq = []) :
    (c.tick hbm channelId).readq = [] ∧ (c.tick hbm channelId).writeq = [] ∧
      c.pending = c.completed.toList ++ (c.tick hbm channelId).pending := by
  obtain ⟨hread', hwrite', hpending⟩ := prepare_queues hbm channelId c
  rw [hread] at hread'
  rw [hwrite] at hwrite'
  have hsame (hreads : (c.tick hbm channelId).readq.map RamRequest.begun =
      (c.prepare hbm channelId).readq.map RamRequest.begun)
      (hwrites : (c.tick hbm channelId).writeq.map RamRequest.begun =
        (c.prepare hbm channelId).writeq.map RamRequest.begun)
      (hpending' : (c.tick hbm channelId).pending = (c.prepare hbm channelId).pending) :
      (c.tick hbm channelId).readq = [] ∧ (c.tick hbm channelId).writeq = [] ∧
        c.pending = c.completed.toList ++ (c.tick hbm channelId).pending := by
    rw [hread'] at hreads
    rw [hwrite'] at hwrites
    rw [hpending']
    exact ⟨List.map_eq_nil_iff.mp hreads, List.map_eq_nil_iff.mp hwrites, hpending⟩
  rcases tick_requests hbm channelId hq with ⟨-, hreads, hwrites, hpending'⟩ |
    ⟨req, -, ⟨-, hreads, -, -⟩ | ⟨-, -, hwrites, -⟩ | ⟨-, hreads, hwrites, hpending'⟩⟩
  · exact hsame hreads hwrites hpending'
  · -- there is no read that could begin
    have hlength := hreads.length_eq
    rw [List.length_cons, List.length_map, List.length_map, hread'] at hlength
    cases hlength
  · -- nor a write
    have hlength := hwrites.length_eq
    rw [List.length_cons, List.length_map, List.length_map, hwrite'] at hlength
    cases hlength
  · exact hsame hreads hwrites hpending'

/-- A read whose data have come completes. -/
theorem length_completed_of_late (hsome : c.pending ≠ [])
    (hlate : ∀ req ∈ c.pending, req.depart ≤ c.clk + 1) : c.completed.toList.length = 1 := by
  obtain ⟨req, rest, hpending⟩ := List.exists_cons_of_ne_nil hsome
  have hdepart := hlate req (by rw [hpending]; exact List.mem_cons_self)
  rw [completed, hpending, List.head?_cons, Option.filter_some, decide_eq_true hdepart]
  rfl

/-- What is left to be done of what the channel has accepted, and until when: first all reads and
writes get their turn, and then reads only wait for their data. -/
inductive Finishing (hbm : HBM) (channelId : ℕ) (c : ChannelController) (h : List Issued)
    (limit reads : ℤ) : Prop where
  | draining (hsome : c.readq ≠ [] ∨ c.writeq ≠ [])
      (hreads : (c.pending.length : ℤ) + c.readq.length ≤ reads) (last since slack : ℤ)
      (hdraining : c.Draining hbm channelId h last since slack limit)
  | completing (hread : c.readq = []) (hwrite : c.writeq = [])
      (due : ℤ) (hdue : ∀ req ∈ c.pending, req.depart ≤ due)
      (hlimit : c.pending ≠ [] →
        max c.clk due + c.pending.length ≤ limit + hbm.speed.readLatency + reads)

variable {reads : ℤ}

/-- The reads that wait for their data complete one after the other. -/
theorem Finishing.tick (hload : LightLoad hbm channelId) (hlat : 0 < hbm.speed.readLatency)
    (hq : c.QueuesHold fun _ => True)
    (hsoon : c.DepartsSoon hbm)
    (hc : c.Finishing hbm channelId h limit reads) :
    (c.tick hbm channelId).Finishing hbm channelId (h ++ (c.issued hbm channelId).toList)
      limit reads := by
  cases hc with
  | draining hsome hreads last since slack hdraining =>
    have hlength := length_pending_tick hbm channelId hq
    obtain ⟨last', since', slack', htick⟩ := hdraining.tick hload hsome
    by_cases hsome' : (c.tick hbm channelId).readq ≠ [] ∨ (c.tick hbm channelId).writeq ≠ []
    · exact .draining hsome' (by omega) last' since' slack' htick
    · -- the last read or write has been served
      rw [not_or, not_not, not_not] at hsome'
      refine .completing hsome'.1 hsome'.2 _ (hsoon.tick hq) fun _ => ?_
      have hclk := hdraining.clk_lt_limit hsome
      rw [clk_tick]
      omega
  | completing hread hwrite due hdue hlimit =>
    obtain ⟨hread', hwrite', hpending⟩ := queues_tick_of_nil hbm channelId hq hread hwrite
    refine .completing hread' hwrite' due (fun req hreq => hdue req ?_) fun hne => ?_
    · rw [hpending]
      exact List.mem_append_right _ hreq
    · have hne' : c.pending ≠ [] := by
        rw [hpending]
        exact List.append_ne_nil_of_right_ne_nil _ hne
      have hlimit := hlimit hne'
      have hlength := congrArg List.length hpending
      rw [List.length_append] at hlength
      rw [clk_tick]
      by_cases hlate : due ≤ c.clk + 1
      · have hcompleted := length_completed_of_late hne' fun req hreq => (hdue req hreq).trans hlate
        omega
      · omega

/-- No more requests are sent. -/
def Action.Quiet : Action → Prop
  | .enqueue _ => False
  | .setBankRef _ _ | .tick => True

/-- No action but the sending of a request takes the channel farther from its end. -/
theorem Finishing.step (hload : LightLoad hbm channelId) (hlat : 0 < hbm.speed.readLatency)
    (hq : c.QueuesHold fun _ => True) (hsoon : c.DepartsSoon hbm)
    (hc : c.Finishing hbm channelId h limit reads) {a : Action} (ha : a.Quiet) :
    (step hbm channelId c a).Finishing hbm channelId
      (h ++ commandsOf hbm channelId c a) limit reads := by
  have hREFI := hload.le_nREFI
  cases a with
  | enqueue req => exact ha.elim
  | setBankRef bank hot =>
    rw [commandsOf, List.append_nil]
    cases hc with
    | draining hsome hreads last since slack hdraining =>
      exact .draining hsome hreads last since slack (hdraining.setBankRef (by omega) bank hot)
    | completing hread hwrite due hdue hlimit => exact .completing hread hwrite due hdue hlimit
  | tick => exact hc.tick hload hlat hq hsoon

/-- In every run, the data of the reads that have begun come within the read latency. -/
theorem departsSoon_run (hlat : 0 < hbm.speed.readLatency) (as : List Action)
    (has : ∀ a ∈ as, a.Sends fun _ => True) :
    ((machine hbm channelId).run as).QueuesHold (fun _ => True) ∧
      ((machine hbm channelId).run as).DepartsSoon hbm := by
  refine Machine.run_invariant
    (P := fun c : ChannelController => c.QueuesHold (fun _ => True) ∧ c.DepartsSoon hbm) ?_ ?_ as
    has
  · exact ⟨queuesHold_new, fun req hreq => absurd hreq List.not_mem_nil⟩
  · rintro c a ha ⟨hq, hsoon⟩
    exact ⟨hq.step (fun _ _ => trivial) ha, hsoon.step hlat hq a⟩

/-- A time at which all reads and writes that wait have been served. -/
def servingTime (hbm : HBM) (channelId : ℕ) (c : ChannelController) : ℤ :=
  c.clk + patience hbm channelId *
    (3 * (c.readq.length + c.writeq.length) + 6 * (hbm.refreshConfig channelId).nBanks)

/-- A time at which all data have come as well. -/
def finishingTime (hbm : HBM) (channelId : ℕ) (c : ChannelController) : ℤ :=
  servingTime hbm channelId c + hbm.speed.readLatency + (c.pending.length + c.readq.length)

/-- Whatever the state of a channel is, it can begin to finish. -/
theorem finishing_of_refreshing (hlat : 0 < hbm.speed.readLatency) (hsoon : c.DepartsSoon hbm)
    (hc : c.Refreshing hbm channelId h since slack) :
    c.Finishing hbm channelId h (servingTime hbm channelId c)
      (c.pending.length + c.readq.length) := by
  have hnonneg := patience_nonneg hbm channelId
  by_cases hsome : c.readq ≠ [] ∨ c.writeq ≠ []
  · -- the last command for an access was issued by now, at the latest
    have hone := one_le_accessWait hbm.speed
    have hsince : since ≤ c.clk := hc.busy.since_le
    refine .draining hsome le_rfl c.clk since slack ⟨hc, ?_, by omega, ?_⟩
    · exact fun e he _ => (hc.time.keeps e he).2
    · have hle := commandsLeft_le hbm channelId c h
      have hmul := mul_le_mul_of_nonneg_left (Int.ofNat_le.mpr hle) hnonneg
      push_cast at hmul
      rw [servingTime]
      omega
  · -- nothing waits for its turn
    rw [not_or, not_not, not_not] at hsome
    refine .completing hsome.1 hsome.2 _ hsoon fun _ => ?_
    have hmul : 0 ≤ patience hbm channelId * (3 * ((c.readq.length : ℤ) + c.writeq.length) +
        6 * (hbm.refreshConfig channelId).nBanks) := mul_nonneg hnonneg (by omega)
    rw [servingTime]
    omega

/-- What sends no request sends none that would have to satisfy `P`. -/
theorem Action.Quiet.sends {a : Action} (ha : a.Quiet) (P : RamRequest.Content → Prop) :
    a.Sends P := by
  cases a with
  | enqueue req => exact ha.elim
  | setBankRef bank hot => trivial
  | tick => trivial

/-- A channel that has begun to finish goes on, while no more requests are sent. -/
theorem finishing_run (hload : LightLoad hbm channelId) (hlat : 0 < hbm.speed.readLatency)
    (as bs : List Action) (has : ∀ a ∈ as, a.Sends (InBank hbm channelId))
    (hbs : ∀ b ∈ bs, b.Quiet) :
    let c := (machine hbm channelId).run as
    ((machine hbm channelId).run (as ++ bs)).Finishing hbm channelId
      (commands hbm channelId (as ++ bs)) (servingTime hbm channelId c)
        (c.pending.length + c.readq.length) := by
  intro c
  have has' : ∀ a ∈ as, a.Sends fun _ => True := fun a ha => (has a ha).mono fun _ _ => trivial
  induction bs using List.reverseRecOn with
  | nil =>
    rw [List.append_nil]
    obtain ⟨since, slack, hrefreshing⟩ := refreshing_run hload as has
    exact finishing_of_refreshing hlat (departsSoon_run hlat as has').2 hrefreshing
  | append_singleton bs b ih =>
    have hbs' : ∀ b ∈ bs, b.Quiet := fun b hb => hbs b (by simp [hb])
    have hsends : ∀ a ∈ as ++ bs, a.Sends fun _ => True := by
      intro a ha
      rcases List.mem_append.mp ha with ha | ha
      · exact has' a ha
      · exact (hbs' a ha).sends _
    obtain ⟨hq, hsoon⟩ := departsSoon_run hlat (as ++ bs) hsends
    rw [← List.append_assoc, Machine.run_concat, commands_concat]
    exact (ih hbs').step hload hlat hq hsoon (hbs b (by simp))

/-- Once no more requests are sent, a channel with a light load finishes all reads and writes that
it has accepted, however hot its banks are, within a time that depends on its standard and on how
many there are: refreshes do not starve them, and neither do they starve each other. -/
theorem requests_finish (hload : LightLoad hbm channelId) (hlat : 0 < hbm.speed.readLatency)
    (as bs : List Action) (has : ∀ a ∈ as, a.Sends (InBank hbm channelId))
    (hbs : ∀ b ∈ bs, b.Quiet)
    (hlate : finishingTime hbm channelId ((machine hbm channelId).run as) ≤
      ((machine hbm channelId).run (as ++ bs)).clk) :
    let h := events hbm channelId (as ++ bs)
    acceptedOf .read h = finishedOf .read h ∧ acceptedOf .write h = finishedOf .write h := by
  intro h
  have hsends : ∀ a ∈ as ++ bs, a.Sends fun _ => True := by
    intro a ha
    rcases List.mem_append.mp ha with ha | ha
    · exact (has a ha).mono fun _ _ => trivial
    · exact (hbs a ha).sends _
  have hconserved := (conserved_run hbm channelId (as ++ bs) hsends).2
  -- the time at which the channel still has something to do is over
  have hempty : ((machine hbm channelId).run (as ++ bs)).readq = [] ∧
      ((machine hbm channelId).run (as ++ bs)).writeq = [] ∧
        ((machine hbm channelId).run (as ++ bs)).pending = [] := by
    rw [finishingTime] at hlate
    cases finishing_run hload hlat as bs has hbs with
    | draining hsome hreads last since slack hdraining =>
      have hclk := hdraining.clk_lt_limit hsome
      omega
    | completing hread hwrite due hdue hlimit =>
      refine ⟨hread, hwrite, ?_⟩
      by_contra hne
      have hlimit := hlimit hne
      have hlength := List.length_pos_of_ne_nil hne
      omega
  obtain ⟨hread, hwrite, hpending⟩ := hempty
  constructor
  · rw [hconserved.reads, hread, hpending, contents_nil, zero_add, zero_add]
  · rw [hconserved.writes, hwrite, contents_nil, zero_add]

/-- Ticks advance the clock. -/
theorem clk_runFrom_ticks (c : ChannelController) (n : ℕ) :
    ((machine hbm channelId).runFrom c (List.replicate n .tick)).clk = c.clk + n := by
  induction n generalizing c with
  | zero => exact (add_zero c.clk).symm
  | succ n ih =>
    have hclk : ((machine hbm channelId).step c .tick).clk = c.clk + 1 := clk_tick
    rw [List.replicate_succ, Machine.runFrom_cons, ih, hclk]
    push_cast
    ring

/-- A read of the first bank is finished within 3000 ticks. -/
theorem requests_finish_read :
    let h := events oneRank 0 (readFirstBank 5 0 ++ List.replicate 3000 .tick)
    acceptedOf .read h = finishedOf .read h ∧ acceptedOf .write h = finishedOf .write h := by
  refine requests_finish ⟨by decide, by decide⟩ (by decide) _ _ (sends_readFirstBank 5 0) ?_ ?_
  · intro b hb
    obtain rfl := List.eq_of_mem_replicate hb
    trivial
  · rw [Machine.run_append, clk_runFrom_ticks]
    decide +kernel

end ChannelController

end StackedDram.Ramulator
