import StackedDram.Library.RowWork
import StackedDram.Ramulator.Requests
import StackedDram.Ramulator.RowHitFirst

/-!
# Commands that are left

How many commands a channel has still to issue for the reads and writes that are in it. Rows are
closed for some requests and opened again for others, and writes take turns with reads, but as no
row is closed while a request whose turn it is hits it, every command for a read or a write leaves
less to do (`commandsLeft_tick`).
-/

namespace StackedDram.Ramulator

namespace ChannelController

variable {hbm : HBM} {channelId : ℕ} {c c' : ChannelController} {h : List Issued}

/-! ## Turns -/

/-- The writes, or the reads. -/
def accesses (c : ChannelController) (writes : Bool) : List RamRequest :=
  if writes then c.writeq else c.readq

/-- How often the turn has still to pass from writes to reads or from reads to writes. -/
def turnsLeft (c : ChannelController) : ℕ :=
  if c.readq.length = 0 then 0 else if c.nextWriteMode then 2 else 1

/-- It is the turn of the writes when there are no reads, or when there are enough writes. -/
theorem nextWriteMode_iff : c.nextWriteMode = true ↔ c.readq.length = 0 ∨
    if c.writeMode = true then 6 < c.writeq.length else 25 ≤ c.writeq.length := by
  have hhigh : RamController.queueMax * 8 / 10 = 25 := rfl
  have hlow : RamController.queueMax * 2 / 10 = 6 := rfl
  rw [nextWriteMode, hhigh, hlow]
  cases c.writeMode with
  | true =>
    rw [if_neg (by decide), if_pos rfl, decide_eq_true_eq]
    omega
  | false =>
    rw [if_pos rfl, if_neg (by decide), decide_eq_true_eq]
    exact or_comm

/-- The turn does not pass while the queues stay as long as they are. -/
theorem nextWriteMode_eq (hmode : c'.writeMode = c.nextWriteMode)
    (hread : c'.readq.length = c.readq.length) (hwrite : c'.writeq.length = c.writeq.length) :
    c'.nextWriteMode = c.nextWriteMode := by
  have hiff := nextWriteMode_iff (c := c)
  have hiff' := nextWriteMode_iff (c := c')
  rw [hmode, hread, hwrite] at hiff'
  cases hturn : c.nextWriteMode with
  | true =>
    -- the writes have had the turn, and keep it
    have hwrites := hiff.mp hturn
    rw [hiff', if_pos hturn]
    split at hwrites <;> omega
  | false =>
    -- the reads have had the turn, and keep it
    have hreads := (not_congr hiff).mp (Bool.eq_false_iff.mp hturn)
    rw [Bool.eq_false_iff, Ne, hiff', if_neg (Bool.eq_false_iff.mp hturn)]
    split at hreads <;> omega

/-- If one of the queues has requests, then the queue whose turn it is has some. -/
theorem accesses_ne_nil (hsome : c.readq ≠ [] ∨ c.writeq ≠ []) :
    c.accesses c.nextWriteMode ≠ [] := by
  have hiff := nextWriteMode_iff (c := c)
  rw [← List.length_pos_iff, ← List.length_pos_iff] at hsome
  rw [← List.length_pos_iff, accesses]
  split
  · rename_i hturn
    have hwrites := hiff.mp hturn
    split at hwrites <;> omega
  · rename_i hturn
    have hreads := (not_congr hiff).mp hturn
    omega

/-! ## Commands that are left -/

/-- The access that a request waits for. -/
def job (req : RamRequest) : (ℤ × ℤ) × ℤ := (bankOf req, req.addrVec .row)

/-- The banks of a channel. -/
def banks (hbm : HBM) : Finset (ℤ × ℤ) :=
  (Finset.range (hbm.count .rank) ×ˢ Finset.range (hbm.count .bank)).image fun b => (b.1, b.2)

/-- There are as many banks as the refresh scheduler counts. -/
theorem card_banks_le (hbm : HBM) (channelId : ℕ) :
    (banks hbm).card ≤ (hbm.refreshConfig channelId).nBanks := by
  refine Finset.card_image_le.trans ?_
  rw [Finset.card_product, Finset.card_range, Finset.card_range]
  exact le_rfl

/-- The bank of a request is one of the channel. -/
theorem bankOf_mem_banks {req : RamRequest} (hreq : InBank hbm channelId req.content) :
    bankOf req ∈ banks hbm := by
  obtain ⟨r, b, ⟨hr, hb⟩, -, hrank, hbank⟩ := hreq
  refine Finset.mem_image.mpr ⟨(r, b), ?_, Prod.ext hrank.symm hbank.symm⟩
  exact Finset.mem_product.mpr ⟨Finset.mem_range.mpr hr, Finset.mem_range.mpr hb⟩

/-- A bound on the number of commands until no reads and writes are left. The rows that are open are
of use to the requests whose turn it is, but maybe not to those that come after them. -/
def commandsLeft (hbm : HBM) (channelId : ℕ) (c : ChannelController) (h : List Issued) : ℕ :=
  (rowsAfter h).work ((c.accesses c.nextWriteMode).map job) (banks hbm) +
    3 * (c.accesses !c.nextWriteMode).length +
      2 * (hbm.refreshConfig channelId).nBanks * c.turnsLeft

/-! ## A tick -/

/-- Requests that come in do not change whose turn it is. -/
theorem writeMode_foldl_enqueue (reqs : List RamRequest) (c : ChannelController) :
    (reqs.foldl enqueue c).writeMode = c.writeMode := by
  induction reqs generalizing c with
  | nil => rfl
  | cons req reqs ih => exact ih (c.enqueue req)

/-- Whose turn it is, is decided before a request is scheduled. -/
theorem writeMode_prepare (c : ChannelController) :
    (c.prepare hbm channelId).writeMode = c.nextWriteMode := by
  have hmode : (c.injectRefreshes hbm channelId).writeMode = c.writeMode :=
    writeMode_foldl_enqueue _ _
  obtain ⟨hread, hwrite, -⟩ := prepare_queues hbm channelId c
  rw [prepare_eq] at hread hwrite ⊢
  have hread : (c.injectRefreshes hbm channelId).readq = c.readq := hread
  have hwrite : (c.injectRefreshes hbm channelId).writeq = c.writeq := hwrite
  show (c.injectRefreshes hbm channelId).nextWriteMode = _
  rw [nextWriteMode, hmode, hread, hwrite, nextWriteMode]

/-- The type of the requests whose turn it is. -/
def turnType (writes : Bool) : RequestType := if writes then .write else .read

/-- Without refreshes, the queue is selected whose turn it is. -/
theorem selectedQueue_prepare (hnone : (c.prepare hbm channelId).otherq = []) :
    (c.prepare hbm channelId).selectedQueue = turnType c.nextWriteMode := by
  rw [selectedQueue, if_neg (not_not.mpr hnone), writeMode_prepare]
  rfl

/-- The queue that is selected then is as it was before the tick. -/
theorem getQueue_prepare (writes : Bool) :
    (c.prepare hbm channelId).getQueue (turnType writes) = c.accesses writes := by
  obtain ⟨hread, hwrite, -⟩ := prepare_queues hbm channelId c
  cases writes with
  | true => exact hwrite
  | false => exact hread

/-- No read or write comes or goes before a request is scheduled. -/
theorem accesses_prepare (writes : Bool) :
    (c.prepare hbm channelId).accesses writes = c.accesses writes := by
  obtain ⟨hread, hwrite, -⟩ := prepare_queues hbm channelId c
  rw [accesses, hread, hwrite]
  rfl

/-- Setting one of the two queues leaves the other alone. -/
theorem accesses_setQueue (writes : Bool) (q : List RamRequest) :
    (c.setQueue (turnType writes) q).accesses writes = q ∧
      (c.setQueue (turnType writes) q).accesses (!writes) = c.accesses !writes := by
  cases writes <;> exact ⟨rfl, rfl⟩

/-- Setting a queue does not change whose turn it is. -/
theorem writeMode_setQueue (type : RequestType) (q : List RamRequest) :
    (c.setQueue type q).writeMode = c.writeMode := by
  cases type <;> rfl

/-- After a tick it is still the turn of those who had it in the tick. -/
theorem writeMode_tick (c : ChannelController) :
    (c.tick hbm channelId).writeMode = c.nextWriteMode := by
  rcases tick_cases hbm channelId c with ⟨-, htick⟩ | ⟨req, i, cmd, -, -, -, -, htick⟩
  · rw [htick, writeMode_prepare]
  · rw [htick, writeMode_setQueue]
    exact writeMode_prepare c

/-- The requests whose turn it is are reads and writes for banks of the channel. -/
theorem OpensRows.access_of_mem (hc : c.OpensRows hbm channelId h) {req : RamRequest}
    (hmem : req ∈ c.accesses c.nextWriteMode) :
    (req.type = .read ∨ req.type = .write) ∧ InBank hbm channelId req.content := by
  have hwaits : req ∈ (c.prepare hbm channelId).getQueue (turnType c.nextWriteMode) := by
    rwa [getQueue_prepare]
  obtain ⟨htype, hbank⟩ := hc.prepare.queues.getQueue _ req hwaits
  refine ⟨?_, hbank⟩
  rw [htype]
  cases c.nextWriteMode
  · exact Or.inl rfl
  · exact Or.inr rfl

/-- A row is only closed when no request whose turn it is waits for it. -/
theorem OpensRows.notMem_jobs_of_pre (hc : c.OpensRows hbm channelId h) (hin : c.QueuesInOrder)
    (hnone : (c.prepare hbm channelId).otherq = []) {e : Issued}
    (he : c.issued hbm channelId = some e) (hpre : e.cmd = .pre)
    (hchannel : e.addrVec .channel = channelId) {o : OpenRow ℤ}
    (hopen : rowsAfter h (e.addrVec .rank, e.addrVec .bank) = some o) :
    ((e.addrVec .rank, e.addrVec .bank), o.row) ∉ (c.accesses c.nextWriteMode).map job := by
  intro hmem
  obtain ⟨hit, hhit, heq⟩ := List.mem_map.mp hmem
  obtain ⟨hbankOf, hrow⟩ := Prod.mk.inj heq
  obtain ⟨haccess, hbank⟩ := hc.access_of_mem hhit
  obtain ⟨hrank', hbank'⟩ := Prod.mk.inj hbankOf
  have hwaits : hit ∈ (c.prepare hbm channelId).getQueue
      (c.prepare hbm channelId).selectedQueue := by
    rwa [selectedQueue_prepare hnone, getQueue_prepare]
  -- such a request hits the open row, so the scheduler would not close it
  refine hc.not_hit_of_pre hin he hpre hit hwaits ?_ ?_
  · rcases hc.prepare.first_cases hbank haccess with
      ⟨hclosed, -, -⟩ | ⟨o', hopen', ⟨-, -, hhit⟩ | ⟨hne, -, -, -⟩⟩
    · rw [hbankOf] at hclosed
      exact absurd (hclosed.symm.trans hopen) (by simp)
    · exact hhit
    · rw [hbankOf] at hopen'
      obtain rfl := Option.some.inj (hopen'.symm.trans hopen)
      exact absurd hrow hne
  · obtain ⟨-, -, -, hchannel', -⟩ := hbank
    have hchannel' : hit.addrVec .channel = channelId := hchannel'
    rw [rowgroup, hchannel', hrank', hbank', hchannel]

/-- A command for a read or a write leaves less to do for those whose turn it is. -/
theorem work_tick (hc : c.OpensRows hbm channelId h) (hin : c.QueuesInOrder)
    (hnone : (c.prepare hbm channelId).otherq = []) {e : Issued}
    (he : c.issued hbm channelId = some e) :
    let turn := c.nextWriteMode
    let c' := c.tick hbm channelId
    e.cmd ≠ .ref ∧ c'.accesses (!turn) = c.accesses (!turn) ∧
      ((c'.accesses turn).length = (c.accesses turn).length ∨
        (c'.accesses turn).length + 1 = (c.accesses turn).length) ∧
      (rowsAfter (h ++ [e])).work ((c'.accesses turn).map job) (banks hbm) <
        (rowsAfter h).work ((c.accesses turn).map job) (banks hbm) := by
  intro turn c'
  have hselected := selectedQueue_prepare hnone
  rcases tick_cases hbm channelId c with ⟨hissued, -⟩ | ⟨req, i, cmd, hget, -, hdecode, hissued,
    htick⟩
  · exact absurd (hissued.symm.trans he) (by simp)
  -- the scheduled request is one of those whose turn it is
  obtain rfl := Option.some.inj (hissued.symm.trans he)
  have hfirst : (c.prepare hbm channelId).firstCmd req = some cmd := by
    rwa [firstCmd, channel_prepare]
  rw [hselected, getQueue_prepare] at hget
  rw [hselected, queueAfter, hselected, getQueue_prepare] at htick
  obtain ⟨haccess, hbank⟩ := hc.access_of_mem (List.mem_of_getElem? hget)
  have hmem := bankOf_mem_banks hbank
  obtain ⟨hself, hother⟩ := accesses_setQueue (c := { c.prepare hbm channelId with
    stats := (c.prepare hbm channelId).countScheduled req
    channel := c.channel.updateState cmd req.addrVec
    timing := c.timing.updateTiming hbm.speed cmd req.addrVec (c.clk + 1)
    pending := pendingAfter hbm (c.prepare hbm channelId) req cmd }) turn
      (if cmd ≠ translate req.type then
        (c.accesses turn).set i { req with isFirstCommand := false }
      else (c.accesses turn).eraseIdx i)
  rw [← htick] at hself hother
  have hself : c'.accesses turn = _ := hself
  have hrest : c'.accesses (!turn) = c.accesses (!turn) := hother.trans (accesses_prepare _)
  have hjob : ((c.accesses turn).map job)[i]? = some (bankOf req, req.addrVec .row) := by
    rw [List.getElem?_map, hget]
    rfl
  -- a request for which a row is opened or closed goes on waiting
  have hset : ((c.accesses turn).set i { req with isFirstCommand := false }).map job =
      (c.accesses turn).map job := map_set_of_eq hget rfl
  have hlast : translate req.type ≠ .act ∧ translate req.type ≠ .pre ∧
      translate req.type ≠ .ref := by
    rcases haccess with htype | htype <;> rw [htype] <;> decide
  rw [rowsAfter_concat, stepRows, Issued.rowCommand, hself]
  rcases hc.prepare.first_cases hbank haccess with
    ⟨hclosed, hact, -⟩ | ⟨o, hopen, ⟨hrow, hdone, -⟩ | ⟨-, hpre, -, -⟩⟩
  · -- the bank is closed, and its row is opened
    obtain rfl : cmd = .act := Option.some.inj (hfirst.symm.trans hact)
    rw [if_pos hlast.1.symm, hset, List.length_set]
    refine ⟨Command.noConfusion, hrest, Or.inl rfl, ?_⟩
    exact OpenRows.work_open hmem hclosed (List.mem_of_getElem? hjob)
  · -- the row of the request is open, and the request is served
    obtain rfl : cmd = translate req.type := Option.some.inj (hfirst.symm.trans hdone)
    obtain ⟨hlt, -⟩ := List.getElem?_eq_some_iff.mp hget
    rw [if_neg (not_not.mpr rfl), ← List.eraseIdx_map]
    rw [hrow] at hjob
    have hwork := OpenRows.work_access hmem hopen hjob
    rw [← hrow] at hwork
    refine ⟨hlast.2.2, hrest, Or.inr (List.length_eraseIdx_add_one hlt), ?_⟩
    rcases haccess with htype | htype <;> rw [htype] <;> exact hwork
  · -- another row is open, and is closed
    obtain rfl : cmd = .pre := Option.some.inj (hfirst.symm.trans hpre)
    rw [if_pos hlast.2.1.symm, hset, List.length_set]
    refine ⟨Command.noConfusion, hrest, Or.inl rfl, OpenRows.work_close hmem hopen ?_⟩
    obtain ⟨-, -, -, hchannel, -⟩ := hbank
    exact hc.notMem_jobs_of_pre hin hnone hissued rfl hchannel hopen

/-- All reads and writes that wait, by turn. -/
theorem length_accesses_add (c : ChannelController) (writes : Bool) :
    (c.accesses writes).length + (c.accesses !writes).length =
      c.readq.length + c.writeq.length := by
  cases writes with
  | true => exact Nat.add_comm _ _
  | false => rfl

/-- The turn passes at most twice. -/
theorem turnsLeft_le (c : ChannelController) : c.turnsLeft ≤ 2 := by
  rw [turnsLeft]
  split
  · exact Nat.zero_le 2
  · split
    · exact le_rfl
    · exact Nat.le_succ 1

variable (hbm channelId) in
/-- There are at most three commands for each request, and those for rows no longer of use. -/
theorem commandsLeft_le (c : ChannelController) (h : List Issued) :
    c.commandsLeft hbm channelId h ≤
      3 * (c.readq.length + c.writeq.length) + 6 * (hbm.refreshConfig channelId).nBanks := by
  have hwork := (rowsAfter h).work_le ((c.accesses c.nextWriteMode).map job) (banks hbm)
  have hcard := card_banks_le hbm channelId
  have hturns := Nat.mul_le_mul_left (2 * (hbm.refreshConfig channelId).nBanks) c.turnsLeft_le
  have hlength := c.length_accesses_add c.nextWriteMode
  rw [List.length_map] at hwork
  rw [commandsLeft]
  omega

variable (hbm channelId) in
/-- Three commands are counted for every request that waits. -/
theorem le_commandsLeft (c : ChannelController) (h : List Issued) :
    3 * (c.readq.length + c.writeq.length) ≤ c.commandsLeft hbm channelId h := by
  have hlength := c.length_accesses_add c.nextWriteMode
  rw [commandsLeft, OpenRows.work, List.length_map]
  omega

/-- As long as no command for a read or a write is issued, there is as much to do as before. -/
theorem commandsLeft_eq (hmode : c'.writeMode = c.nextWriteMode) (hread : c'.readq = c.readq)
    (hwrite : c'.writeq = c.writeq) {h' : List Issued} (hrows : rowsAfter h' = rowsAfter h) :
    c'.commandsLeft hbm channelId h' = c.commandsLeft hbm channelId h := by
  have hturn := nextWriteMode_eq hmode (congrArg List.length hread) (congrArg List.length hwrite)
  rw [commandsLeft, hturn, hrows, turnsLeft, hturn, accesses, accesses, hread, hwrite]
  rfl

section Turns

variable (hmode : c'.writeMode = c.nextWriteMode)
  (hrest : c'.accesses (!c.nextWriteMode) = c.accesses (!c.nextWriteMode))
  (hlength : (c'.accesses c.nextWriteMode).length ≤ (c.accesses c.nextWriteMode).length)

include hrest hlength in
/-- The turn does not pass more often than before, -/
theorem turnsLeft_le_of_eq (hturn : c'.nextWriteMode = c.nextWriteMode) :
    c'.turnsLeft ≤ c.turnsLeft := by
  have hread : c'.readq.length ≤ c.readq.length := by
    cases hnow : c.nextWriteMode with
    | true =>
      rw [hnow] at hrest
      exact (congrArg List.length hrest).le
    | false =>
      rw [hnow] at hlength
      exact hlength
  rw [turnsLeft, turnsLeft, hturn]
  split
  · exact Nat.zero_le _
  · have hsome : ¬ c.readq.length = 0 := by omega
    rw [if_neg hsome]

include hmode hrest in
/-- and one time less after it has passed. -/
theorem turnsLeft_succ_le (hturn : c'.nextWriteMode ≠ c.nextWriteMode) :
    c'.turnsLeft + 1 ≤ c.turnsLeft := by
  have hiff := nextWriteMode_iff (c := c)
  have hiff' := nextWriteMode_iff (c := c')
  rw [hmode] at hiff'
  rw [turnsLeft, turnsLeft]
  cases hnow : c.nextWriteMode with
  | true =>
    rw [hnow] at hrest hturn
    have hread : c'.readq = c.readq := hrest
    -- there are reads, and few writes
    have hreads := (not_congr hiff').mp hturn
    rw [hread] at hreads ⊢
    rw [if_neg (by omega), if_neg hturn, if_neg (by omega), if_pos rfl]
  | false =>
    rw [hnow] at hrest hturn
    have hwrite : c'.writeq = c.writeq := hrest
    have hnext : c'.nextWriteMode = true := by simpa using hturn
    have hwrites := hiff'.mp hnext
    have hreads := (not_congr hiff).mp (Bool.eq_false_iff.mp hnow)
    rw [if_neg (Bool.eq_false_iff.mp hnow), hwrite] at hwrites
    -- there are no reads any more
    have hnone : c'.readq.length = 0 := by split at hreads <;> omega
    rw [if_pos hnone, if_neg (by omega), if_neg Bool.false_ne_true]

end Turns

/-- A command for a read or a write leaves less to do. -/
theorem commandsLeft_tick (hc : c.OpensRows hbm channelId h) (hin : c.QueuesInOrder)
    (hnone : (c.prepare hbm channelId).otherq = []) {e : Issued}
    (he : c.issued hbm channelId = some e) :
    (c.tick hbm channelId).commandsLeft hbm channelId (h ++ [e]) + 1 ≤
      c.commandsLeft hbm channelId h := by
  obtain ⟨-, hrest, hlength, hwork⟩ := work_tick hc hin hnone he
  have hmode : (c.tick hbm channelId).writeMode = c.nextWriteMode := writeMode_tick c
  by_cases hturn : (c.tick hbm channelId).nextWriteMode = c.nextWriteMode
  · -- the turn has not passed, so the work done is what counts
    have hturns := turnsLeft_le_of_eq hrest (by omega) hturn
    have hmul := Nat.mul_le_mul_left (2 * (hbm.refreshConfig channelId).nBanks) hturns
    rw [commandsLeft, commandsLeft, hturn, hrest]
    omega
  · -- the rows that are open may have to be closed for the requests whose turn it is now
    have hturns := turnsLeft_succ_le hmode hrest hturn
    have hmul := Nat.mul_le_mul_left (2 * (hbm.refreshConfig channelId).nBanks) hturns
    have hflip : (c.tick hbm channelId).nextWriteMode = !c.nextWriteMode :=
      Bool.eq_not_of_ne hturn
    -- the turn only passes when a request has been served
    have hshorter : ((c.tick hbm channelId).accesses c.nextWriteMode).length + 1 ≤
        (c.accesses c.nextWriteMode).length := by
      refine (hlength.resolve_left fun hsame => hturn ?_).le
      have hrest := congrArg List.length hrest
      apply nextWriteMode_eq hmode
      · cases hnow : c.nextWriteMode <;> rw [hnow] at hrest hsame <;> assumption
      · cases hnow : c.nextWriteMode <;> rw [hnow] at hrest hsame <;> assumption
    have hcard := card_banks_le hbm channelId
    have hle := (rowsAfter (h ++ [e])).work_le
      ((c.accesses !c.nextWriteMode).map job) (banks hbm)
    rw [List.length_map] at hle
    rw [commandsLeft, commandsLeft, hflip, Bool.not_not, hrest]
    rw [Nat.mul_succ] at hmul
    have hwork : 3 * (c.accesses c.nextWriteMode).length ≤
        (rowsAfter h).work ((c.accesses c.nextWriteMode).map job) (banks hbm) := by
      rw [OpenRows.work, List.length_map]
      exact Nat.le_add_right _ _
    omega

end ChannelController

end StackedDram.Ramulator
