import StackedDram.Ramulator.Scheduling

/-!
# Counters of the banks

`RamController::tick` counts a read or write of a bank with every command that it issues on behalf
of the request, but counts a hit, a miss or a conflict with the first of these commands only. So the
hits, misses and conflicts of a bank never exceed its reads and writes (`outcomes_le_requests`), and
they add up to them as long as no request gets a second command (`bank_counters_iff`).
-/

namespace StackedDram.Ramulator

namespace RowStats

/-! ## Reads, writes and their outcomes -/

/-- The counter of a bank for the requests of a type. -/
def requests (s : RowStats) : RequestType → ℤ → ℕ
  | .read => s.bankReads
  | .write => s.bankWrites
  | _ => fun _ => 0

/-- The hits, misses and conflicts of a bank with requests of a type. -/
def outcomes (s : RowStats) (type : RequestType) (bank : ℤ) : ℕ :=
  match type with
  | .read =>
    s.bankReadRowHits bank + s.bankReadRowMisses bank + s.bankReadRowConflicts bank
  | .write =>
    s.bankWriteRowHits bank + s.bankWriteRowMisses bank + s.bankWriteRowConflicts bank
  | _ => 0

/-- Every read and every write of a bank is a hit, a miss or a conflict. -/
structure Consistent (s : RowStats) : Prop where
  reads : ∀ bank, s.bankReads bank =
    s.bankReadRowHits bank + s.bankReadRowMisses bank + s.bankReadRowConflicts bank
  writes : ∀ bank, s.bankWrites bank =
    s.bankWriteRowHits bank + s.bankWriteRowMisses bank + s.bankWriteRowConflicts bank

theorem consistent_iff (s : RowStats) :
    s.Consistent ↔ ∀ type bank, s.requests type bank = s.outcomes type bank := by
  constructor
  · intro h type
    cases type with
    | read => exact h.reads
    | write => exact h.writes
    | _ => exact fun _ => rfl
  · intro h
    exact ⟨h .read, h .write⟩

/-- What a request for `bank` adds to the counters of `bank'` for the requests of `type'`. -/
def share (type : RequestType) (bank : ℤ) (type' : RequestType) (bank' : ℤ) : ℕ :=
  if (type = .read ∨ type = .write) ∧ type = type' ∧ bank = bank' then 1 else 0

theorem share_self {type : RequestType} (htype : type = .read ∨ type = .write) (bank : ℤ) :
    share type bank type bank = 1 :=
  if_pos ⟨htype, rfl, rfl⟩

theorem share_of_other {type : RequestType} (htype : ¬ (type = .read ∨ type = .write)) (bank : ℤ)
    (type' : RequestType) (bank' : ℤ) : share type bank type' bank' = 0 :=
  if_neg fun h => htype h.1

theorem bump_apply (counter : ℤ → ℕ) (bank bank' : ℤ) :
    bump counter bank bank' = counter bank' + if bank = bank' then 1 else 0 := by
  by_cases hbank : bank' = bank
  · rw [hbank, bump, Function.update_self, if_pos rfl]
  · rw [bump, Function.update_of_ne hbank, if_neg (Ne.symm hbank), Nat.add_zero]

variable (s : RowStats) (type : RequestType) (bank : ℤ) (type' : RequestType) (bank' : ℤ)

/-- A command is counted with the requests of its bank, -/
theorem requests_countCommand :
    (s.countCommand type bank).requests type' bank' =
      s.requests type' bank' + share type bank type' bank' := by
  cases type <;> cases type' <;> simp [countCommand, requests, share, bump_apply]

/-- and not with their outcomes. -/
theorem outcomes_countCommand :
    (s.countCommand type bank).outcomes type' bank' = s.outcomes type' bank' := by
  cases type <;> rfl

variable (hit rowOpen : Bool)

/-- A first command is counted with the outcomes as well. -/
theorem requests_countFirst :
    (s.countFirst type bank hit rowOpen).requests type' bank' = s.requests type' bank' := by
  cases type <;> cases hit <;> cases rowOpen <;> rfl

theorem outcomes_countFirst :
    (s.countFirst type bank hit rowOpen).outcomes type' bank' =
      s.outcomes type' bank' + share type bank type' bank' := by
  cases type with
  | read => cases type' <;> cases hit <;> cases rowOpen <;>
      simp [countFirst, outcomes, share, bump_apply] <;> omega
  | write => cases type' <;> cases hit <;> cases rowOpen <;>
      simp [countFirst, outcomes, share, bump_apply] <;> omega
  | _ => rw [share_of_other (by decide)]; rfl

end RowStats

namespace ChannelController

variable (hbm : HBM) (channelId : ℕ) {c : ChannelController}

/-! ## What does not count -/

@[simp]
theorem stats_setQueue (type : RequestType) (q : List RamRequest) :
    (c.setQueue type q).stats = c.stats := by
  cases type <;> rfl

theorem stats_foldl_enqueue (reqs : List RamRequest) (c : ChannelController) :
    (reqs.foldl enqueue c).stats = c.stats := by
  induction reqs generalizing c with
  | nil => rfl
  | cons req reqs ih => exact ih (c.enqueue req)

@[simp]
theorem stats_prepare (c : ChannelController) : (c.prepare hbm channelId).stats = c.stats := by
  rw [prepare]
  dsimp only
  rw [stats_foldl_enqueue]
  dsimp only
  split
  · split <;> rfl
  · rfl

/-- The request and its command are counted for its bank. -/
theorem stats_schedule (req : RamRequest) (i : ℕ) :
    (c.schedule hbm req i).stats =
      let stats := c.stats.countCommand req.type (RamController.bankIndex req.addrVec)
      if req.isFirstCommand then
        stats.countFirst req.type (RamController.bankIndex req.addrVec) (c.isRowHit req)
          (c.isRowOpen req)
      else stats := by
  rw [schedule]
  dsimp only
  -- the counters are changed before the command is issued, and not by it
  split
  · rfl
  · split <;> simp

/-! ## A tick -/

theorem stats_tick_of_none (h : (c.prepare hbm channelId).scheduled = none) :
    (c.tick hbm channelId).stats = c.stats := by
  rw [tick, h]
  exact stats_prepare hbm channelId c

variable {hbm channelId} {req : RamRequest} {i : ℕ}

/-- A scheduled request is counted with the requests of its bank, -/
theorem requests_tick (h : (c.prepare hbm channelId).scheduled = some (req, i))
    (type : RequestType) (bank : ℤ) :
    (c.tick hbm channelId).stats.requests type bank = c.stats.requests type bank +
      RowStats.share req.type (RamController.bankIndex req.addrVec) type bank := by
  rw [tick, h]
  dsimp only
  rw [stats_schedule]
  dsimp only
  split
  · rw [RowStats.requests_countFirst, RowStats.requests_countCommand, stats_prepare]
  · rw [RowStats.requests_countCommand, stats_prepare]

/-- but has an outcome only when it gets its first command. -/
theorem outcomes_tick (h : (c.prepare hbm channelId).scheduled = some (req, i))
    (type : RequestType) (bank : ℤ) :
    (c.tick hbm channelId).stats.outcomes type bank = c.stats.outcomes type bank +
      if req.isFirstCommand then
        RowStats.share req.type (RamController.bankIndex req.addrVec) type bank
      else 0 := by
  rw [tick, h]
  dsimp only
  rw [stats_schedule]
  dsimp only
  split
  · rw [RowStats.outcomes_countFirst, RowStats.outcomes_countCommand, stats_prepare]
  · rw [RowStats.outcomes_countCommand, stats_prepare, Nat.add_zero]

variable (hbm channelId) in
/-- The next tick issues another command on behalf of a read or write that has had one. -/
def Repeats (c : ChannelController) : Prop :=
  ∃ req i, (c.prepare hbm channelId).scheduled = some (req, i) ∧
    (req.type = .read ∨ req.type = .write) ∧ req.isFirstCommand = false

/-! ## Runs -/

/-- The calls of a controller. -/
inductive Action where
  | enqueue (req : RamRequest)
  | setBankRef (bank : ℕ) (hot : Bool)
  | tick

variable (hbm channelId)

/-- The state after a call. -/
def step (c : ChannelController) : Action → ChannelController
  | .enqueue req => c.enqueue req
  | .setBankRef bank hot => c.setBankRef hbm channelId bank hot
  | .tick => c.tick hbm channelId

/-- The runs of a controller from its construction. -/
def machine : Machine ChannelController Action where
  init := new hbm channelId
  step := step hbm channelId

/-- The action issues no second command on behalf of a read or write. -/
def FirstCommands (c : ChannelController) (a : Action) : Prop :=
  a = .tick → ¬ c.Repeats hbm channelId

/-- A step adds to the requests whose outcome is not counted, -/
theorem requests_sub_outcomes_mono (c : ChannelController) (a : Action) (type : RequestType)
    (bank : ℤ) :
    c.stats.requests type bank + (step hbm channelId c a).stats.outcomes type bank ≤
      (step hbm channelId c a).stats.requests type bank + c.stats.outcomes type bank := by
  cases a with
  | enqueue req => exact le_rfl
  | setBankRef bank hot => exact le_rfl
  | tick =>
    -- at most one request is scheduled, and at most one outcome is counted for it
    show _ + (c.tick hbm channelId).stats.outcomes type bank ≤ _
    cases h : (c.prepare hbm channelId).scheduled with
    | none => rw [step, stats_tick_of_none hbm channelId h]
    | some head =>
      rw [step, requests_tick h, outcomes_tick h]
      split <;> omega

variable {hbm channelId}

/-- and none if it issues no second command. -/
theorem consistent_step (hc : c.stats.Consistent) {a : Action}
    (ha : FirstCommands hbm channelId c a) : (step hbm channelId c a).stats.Consistent := by
  cases a with
  | enqueue req => exact hc
  | setBankRef bank hot => exact hc
  | tick =>
    show (c.tick hbm channelId).stats.Consistent
    cases h : (c.prepare hbm channelId).scheduled with
    | none =>
      rw [stats_tick_of_none hbm channelId h]
      exact hc
    | some head =>
      rw [RowStats.consistent_iff] at hc ⊢
      intro type bank
      rw [requests_tick h, outcomes_tick h, hc type bank]
      by_cases hfirst : head.1.isFirstCommand = true
      · rw [if_pos hfirst]
      · -- a second command is not on behalf of a read or write
        have hother : ¬ (head.1.type = .read ∨ head.1.type = .write) := fun htype =>
          ha rfl ⟨head.1, head.2, h, htype, Bool.eq_false_iff.mpr hfirst⟩
        rw [if_neg hfirst, RowStats.share_of_other hother]

/-- The outcomes of a bank are never more than its requests. -/
theorem outcomes_le_requests (hc : (machine hbm channelId).Reachable c) :
    ∀ type bank, c.stats.outcomes type bank ≤ c.stats.requests type bank := by
  refine hc.invariant (P := fun c => ∀ type bank, c.stats.outcomes type bank ≤
    c.stats.requests type bank) ?_ ?_
  · intro type bank
    cases type <;> exact le_rfl
  · intro c a _ ih type bank
    have hmono := requests_sub_outcomes_mono hbm channelId c a type bank
    have hle := ih type bank
    show (step hbm channelId c a).stats.outcomes type bank ≤
      (step hbm channelId c a).stats.requests type bank
    omega

variable (hbm channelId) in
/-- A request without an outcome is never made up for. -/
theorem outcomes_lt_runFrom {type : RequestType} {bank : ℤ}
    (hlt : c.stats.outcomes type bank < c.stats.requests type bank) (as : List Action) :
    ((machine hbm channelId).runFrom c as).stats.outcomes type bank <
      ((machine hbm channelId).runFrom c as).stats.requests type bank := by
  induction as generalizing c with
  | nil => exact hlt
  | cons a as ih =>
    have hmono := requests_sub_outcomes_mono hbm channelId c a type bank
    rw [Machine.runFrom_cons]
    refine ih ?_
    show (step hbm channelId c a).stats.outcomes type bank <
      (step hbm channelId c a).stats.requests type bank
    omega

/-- A second command leaves a request without an outcome. -/
theorem outcomes_lt_tick (hc : (machine hbm channelId).Reachable c)
    (h : c.Repeats hbm channelId) :
    ∃ type bank, (c.tick hbm channelId).stats.outcomes type bank <
      (c.tick hbm channelId).stats.requests type bank := by
  obtain ⟨req, i, hscheduled, htype, hfirst⟩ := h
  have hle := outcomes_le_requests hc req.type (RamController.bankIndex req.addrVec)
  refine ⟨req.type, RamController.bankIndex req.addrVec, ?_⟩
  rw [requests_tick hscheduled, outcomes_tick hscheduled, hfirst, RowStats.share_self htype]
  exact Nat.lt_succ_of_le hle

/-- For every run of a controller: for every bank the reads are the hits, misses and conflicts of
reads, and the writes are those of writes, if and only if no tick of the run issues another command
on behalf of a read or write that has had one. -/
theorem bank_counters_iff (hbm : HBM) (channelId : ℕ) (as : List Action) :
    ((machine hbm channelId).run as).stats.Consistent ↔
      (machine hbm channelId).AllSteps (FirstCommands hbm channelId) as := by
  constructor
  · rintro hconsistent before a after rfl rfl hrepeats
    rw [Machine.run_append, Machine.runFrom_cons, RowStats.consistent_iff] at hconsistent
    obtain ⟨type, bank, hlt⟩ := outcomes_lt_tick (Machine.reachable_run before) hrepeats
    -- the difference of the tick stays until the end of the run
    have hend := outcomes_lt_runFrom hbm channelId hlt after
    exact absurd (hconsistent type bank) (Nat.ne_of_gt hend)
  · refine Machine.invariant_of_allSteps (P := fun c : ChannelController => c.stats.Consistent)
        ?_ ?_ as
    · exact ⟨fun _ => rfl, fun _ => rfl⟩
    · exact fun c a _ hc ha => consistent_step hc ha

/-- A standard with one rank of two banks. -/
def oneRank : HBM where
  speed := .hbm1Gbps
  count := RamDRAM.twoBanks

/-- The read of a closed row takes two commands and is counted twice, once as a miss. -/
theorem not_bank_counters :
    ¬ ∀ as : List Action, ((machine oneRank 0).run as).stats.Consistent := by
  intro h
  have hreads := (h (.enqueue (.new 0 .read) :: List.replicate 8 .tick)).reads 0
  exact absurd hreads (by decide +kernel)

end ChannelController

end StackedDram.Ramulator
