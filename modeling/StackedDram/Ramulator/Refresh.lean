import StackedDram.Library.Machine
import StackedDram.Ramulator.AddressMap

/-!
# Bank refreshes

`Refresh` of `RamRefresh.cc` decides when the banks of a channel are refreshed. In every tick it
injects a refresh request for each bank whose interval has elapsed, and `set_ref_interval` makes the
interval of a hot bank half that of a cool one. Here the controller accepts every request that is
injected, as the code asserts.

A tick injects a request for exactly the banks that are due (`countP_tickRef`) and leaves no bank
overdue (`elapsed_lt_of_tick`). As `bankRefreshed` is the time of the last request for the bank
(`lastInjected_run`), the time since then is the number of ticks. So a request for the bank is
injected in any `nREFI` ticks, and the distance of two requests is bounded from both sides, however
the intervals change in between (`refresh_on_time`).
-/

namespace StackedDram.Ramulator

/-- What `Refresh` reads from its controller. -/
structure RefreshConfig where
  /-- `ctrl->channel->id`. -/
  channelId : ℕ
  /-- `ctrl->channel->children.size()`. -/
  maxRankCount : ℕ
  /-- `org_entry.count[Level::Bank]`. -/
  maxBankCount : ℕ
  /-- `speed_entry.nREFI`. -/
  nREFI : ℤ

/-- `n_banks`. -/
def RefreshConfig.nBanks (cfg : RefreshConfig) : ℕ := cfg.maxRankCount * cfg.maxBankCount

/-- `Refresh`. -/
structure Refresh where
  clk : ℤ
  bankRefInterval : ℕ → ℤ
  bankRefreshed : ℕ → ℤ

namespace Refresh

variable (cfg : RefreshConfig)

/-- The constructor of `Refresh`. -/
def new : Refresh where
  clk := 0
  bankRefInterval _ := cfg.nREFI
  bankRefreshed _ := 0

/-- `Refresh::set_ref_interval`. -/
def setRefInterval (f : Refresh) (bank : ℕ) (hot : Bool) : Refresh :=
  { f with
    bankRefInterval := Function.update f.bankRefInterval bank
      (if hot then cfg.nREFI / 2 else cfg.nREFI) }

/-- The request of `Refresh::refresh_target`, for no subarray. Its address is not initialized. -/
def refreshTarget (rank bank : ℕ) : RamRequest :=
  { RamRequest.new 0 .refresh with
    addrVec := fun
      | .channel => cfg.channelId
      | .rank => rank
      | .bank => bank
      | .row => -1
      | .column => -1 }

/-- The request that `Refresh::inject_bank_refresh` injects. -/
def bankRequest (bank : ℕ) : RamRequest :=
  refreshTarget cfg (bank / cfg.maxBankCount) (bank % cfg.maxBankCount)

/-- An iteration of the loop of `Refresh::tick_ref`, with the requests injected so far. -/
def tickBank (st : Refresh × List RamRequest) (bank : ℕ) : Refresh × List RamRequest :=
  let (f, reqs) := st
  if f.bankRefInterval bank ≤ f.clk - f.bankRefreshed bank then
    ({ f with bankRefreshed := Function.update f.bankRefreshed bank f.clk },
      reqs ++ [bankRequest cfg bank])
  else (f, reqs)

/-- `Refresh::tick_ref`, with the requests that it injects. -/
def tickRef (f : Refresh) : Refresh × List RamRequest :=
  (List.range cfg.nBanks).foldl (tickBank cfg) ({ f with clk := f.clk + 1 }, [])

/-! ## A tick -/

variable {cfg}

/-- The bank is refreshed in the next tick. -/
def Due (f : Refresh) (bank : ℕ) : Prop :=
  f.bankRefInterval bank ≤ f.clk + 1 - f.bankRefreshed bank

instance (f : Refresh) (bank : ℕ) : Decidable (f.Due bank) := by
  unfold Due
  infer_instance

/-- What the loop of a tick has done for the banks below `k`. -/
def tickedTo (cfg : RefreshConfig) (f : Refresh) (k : ℕ) : Refresh × List RamRequest :=
  ({ f with
      clk := f.clk + 1
      bankRefreshed := fun bank =>
        if bank < k ∧ f.Due bank then f.clk + 1 else f.bankRefreshed bank },
    ((List.range k).filter (f.Due ·)).map (bankRequest cfg))

/-- One more iteration of the loop. -/
theorem tickBank_tickedTo (f : Refresh) (k : ℕ) :
    tickBank cfg (f.tickedTo cfg k) k = f.tickedTo cfg (k + 1) := by
  -- the iterations before have not touched bank `k`
  have hbefore : (f.tickedTo cfg k).1.bankRefreshed k = f.bankRefreshed k :=
    if_neg fun h => absurd h.1 (Nat.lt_irrefl k)
  have hcond : (f.tickedTo cfg k).1.bankRefInterval k ≤
      (f.tickedTo cfg k).1.clk - (f.tickedTo cfg k).1.bankRefreshed k ↔ f.Due k := by
    rw [hbefore]
    rfl
  by_cases hdue : f.Due k
  · have hrefreshed : Function.update (f.tickedTo cfg k).1.bankRefreshed k (f.clk + 1) =
        (f.tickedTo cfg (k + 1)).1.bankRefreshed := by
      funext bank
      by_cases hbank : bank = k
      · subst hbank
        rw [Function.update_self]
        exact (if_pos ⟨Nat.lt_succ_self bank, hdue⟩).symm
      · rw [Function.update_of_ne hbank]
        have hlt : bank < k ↔ bank < k + 1 := by omega
        simp only [tickedTo, hlt]
    rw [tickBank]
    rw [if_pos (hcond.mpr hdue)]
    refine Prod.ext ?_ ?_
    · exact congrArg (fun refreshed => { f with clk := f.clk + 1, bankRefreshed := refreshed })
        hrefreshed
    · simp [tickedTo, List.range_succ, List.filter_append, hdue]
  · rw [tickBank]
    rw [if_neg (mt hcond.mp hdue)]
    -- with one more bank that is not due, nothing changes
    have hlt : ∀ bank, bank < k ∧ f.Due bank ↔ bank < k + 1 ∧ f.Due bank := by
      intro bank
      refine and_congr_left fun hbank => ?_
      have hne : bank ≠ k := fun heq => hdue (heq ▸ hbank)
      omega
    simp [tickedTo, List.range_succ, List.filter_append, hdue, hlt]

/-- A tick refreshes the banks that are due. -/
theorem tickRef_eq (f : Refresh) : f.tickRef cfg = f.tickedTo cfg cfg.nBanks := by
  refine foldl_range_invariant (P := fun k st => st = f.tickedTo cfg k) ?_ ?_ _ le_rfl
  · simp [tickedTo]
  · rintro k st - rfl
    exact tickBank_tickedTo f k

/-- The request is for the bank. -/
def isFor (cfg : RefreshConfig) (bank : ℕ) (req : RamRequest) : Bool :=
  req.addrVec .rank = (bankRequest cfg bank).addrVec .rank ∧
    req.addrVec .bank = (bankRequest cfg bank).addrVec .bank

/-- Requests tell their banks. -/
theorem isFor_bankRequest {bank bank' : ℕ} :
    isFor cfg bank (bankRequest cfg bank') = true ↔ bank' = bank := by
  constructor
  · intro hfor
    obtain ⟨hrank, hmod⟩ := of_decide_eq_true hfor
    have hrank : ((bank' / cfg.maxBankCount : ℕ) : ℤ) = (bank / cfg.maxBankCount : ℕ) := hrank
    have hmod : ((bank' % cfg.maxBankCount : ℕ) : ℤ) = (bank % cfg.maxBankCount : ℕ) := hmod
    rw [← Nat.div_add_mod bank cfg.maxBankCount, ← Nat.div_add_mod bank' cfg.maxBankCount,
      Int.ofNat_inj.mp hrank, Int.ofNat_inj.mp hmod]
  · rintro rfl
    exact decide_eq_true ⟨rfl, rfl⟩

/-- The next tick injects a request to refresh the bank. -/
def Injects (cfg : RefreshConfig) (f : Refresh) (bank : ℕ) : Prop :=
  bankRequest cfg bank ∈ (f.tickRef cfg).2

/-- A refresh is injected for the banks that are due. -/
theorem injects_iff {f : Refresh} {bank : ℕ} (hbank : bank < cfg.nBanks) :
    f.Injects cfg bank ↔ f.Due bank := by
  rw [Injects, tickRef_eq, tickedTo, List.mem_map]
  constructor
  · rintro ⟨bank', hmem, heq⟩
    obtain rfl : bank' = bank := isFor_bankRequest.mp (by rw [heq, isFor_bankRequest])
    exact of_decide_eq_true (List.mem_filter.mp hmem).2
  · intro hdue
    exact ⟨bank, List.mem_filter.mpr ⟨List.mem_range.mpr hbank, decide_eq_true hdue⟩, rfl⟩

/-- A tick injects one request for each bank that is due, and none for the others. -/
theorem countP_tickRef {f : Refresh} {bank : ℕ} (hbank : bank < cfg.nBanks) :
    (f.tickRef cfg).2.countP (isFor cfg bank) = if f.Due bank then 1 else 0 := by
  rw [tickRef_eq, tickedTo, List.countP_map, List.countP_filter]
  have hsame : ∀ bank' ∈ List.range cfg.nBanks,
      ((isFor cfg bank ∘ bankRequest cfg) bank' && decide (f.Due bank')) = true ↔
        (bank' == bank && decide (f.Due bank)) = true := by
    intro bank' _
    rw [Bool.and_eq_true, Bool.and_eq_true, Function.comp_apply, isFor_bankRequest, beq_iff_eq]
    exact and_congr_right fun heq => by rw [heq]
  rw [List.countP_congr hsame]
  split
  · rename_i hdue
    simp only [hdue, decide_true, Bool.and_true]
    rw [← List.count_eq_countP, List.nodup_range.count, if_pos (List.mem_range.mpr hbank)]
  · rename_i hdue
    simp [hdue]

/-! ## Runs -/

/-- The calls of the controller. -/
inductive Action where
  | tickRef
  | setRefInterval (bank : ℕ) (hot : Bool)

/-- The state after a call. -/
def step (cfg : RefreshConfig) (f : Refresh) : Action → Refresh
  | .tickRef => (f.tickRef cfg).1
  | .setRefInterval bank hot => f.setRefInterval cfg bank hot

/-- The runs of a `Refresh`. -/
def machine (cfg : RefreshConfig) : Machine Refresh Action where
  init := new cfg
  step := step cfg

/-- The last call for the bank has been with `hot = true`. -/
def isHot (bank : ℕ) (as : List Action) : Bool :=
  as.foldl (fun hot a =>
    match a with
    | .tickRef => hot
    | .setRefInterval bank' hot' => if bank' = bank then hot' else hot) false

/-- The number of ticks. -/
def ticks (as : List Action) : ℕ :=
  as.countP fun
    | .tickRef => true
    | .setRefInterval _ _ => false

/-- A tick is one more. -/
@[simp]
theorem ticks_concat_tickRef (as : List Action) : ticks (as ++ [.tickRef]) = ticks as + 1 := by
  simp [ticks, List.countP_append]

/-- Setting an interval is no tick. -/
@[simp]
theorem ticks_concat_setRefInterval (as : List Action) (bank : ℕ) (hot : Bool) :
    ticks (as ++ [.setRefInterval bank hot]) = ticks as := by
  simp [ticks, List.countP_append]

/-- The actions `mid` come after the actions `before`, and in every tick of `mid` the actions so far
have the property `P`. -/
def AtTicks (P : List Action → Prop) (before mid : List Action) : Prop :=
  ∀ mid₁ mid₂, mid = mid₁ ++ .tickRef :: mid₂ → P (before ++ mid₁)

/-- No tick of `mid` injects a request for the bank. -/
def QuietDuring (cfg : RefreshConfig) (bank : ℕ) (before mid : List Action) : Prop :=
  AtTicks (fun as => ¬ ((machine cfg).run as).Injects cfg bank) before mid

/-- The bank is hot in every tick of `mid`. -/
def HotDuring (bank : ℕ) (before mid : List Action) : Prop :=
  AtTicks (fun as => isHot bank as = true) before mid

/-- The last request for the bank was injected in the tick at the time `last`, or there was none and
`last` is the time of the construction. -/
def LastInjected (cfg : RefreshConfig) (bank : ℕ) (as : List Action) (last : ℤ) : Prop :=
  (QuietDuring cfg bank [] as ∧ last = 0) ∨
    ∃ before mid, as = before ++ .tickRef :: mid ∧
      ((machine cfg).run before).Injects cfg bank ∧
      QuietDuring cfg bank (before ++ [.tickRef]) mid ∧ last = ticks (before ++ [.tickRef])

section AtTicks

variable {P : List Action → Prop} {before mid : List Action} {a : Action}

/-- No ticks. -/
theorem atTicks_nil (P : List Action → Prop) (before : List Action) : AtTicks P before [] := by
  intro mid₁ mid₂ heq
  cases mid₁ <;> cases heq

/-- The ticks with one more action. -/
theorem atTicks_concat : AtTicks P before (mid ++ [a]) ↔
    AtTicks P before mid ∧ (a = .tickRef → P (before ++ mid)) := by
  constructor
  · refine fun h => ⟨?_, ?_⟩
    · rintro mid₁ mid₂ rfl
      exact h mid₁ (mid₂ ++ [a]) (by simp)
    · rintro rfl
      exact h mid [] rfl
  · rintro ⟨hmid, hlast⟩ mid₁ mid₂ heq
    -- the tick is the last action, or one of `mid`
    rcases List.eq_nil_or_concat mid₂ with rfl | ⟨mid₂, b, rfl⟩
    · obtain ⟨rfl, ha⟩ := List.append_inj' heq rfl
      exact hlast (List.singleton_inj.mp ha)
    · have hsplit : mid ++ [a] = (mid₁ ++ .tickRef :: mid₂) ++ [b] := by simpa using heq
      exact hmid mid₁ mid₂ (List.append_inj' hsplit rfl).1

end AtTicks

variable {bank : ℕ} {f : Refresh} {as before mid : List Action}

/-- A bank that is due is marked as refreshed now. -/
theorem bankRefreshed_of_due (hbank : bank < cfg.nBanks) (hdue : f.Due bank) :
    (step cfg f .tickRef).bankRefreshed bank = f.clk + 1 := by
  rw [step, tickRef_eq]
  exact if_pos ⟨hbank, hdue⟩

/-- A bank that is not due keeps its mark. -/
theorem bankRefreshed_of_not_due (hdue : ¬ f.Due bank) :
    (step cfg f .tickRef).bankRefreshed bank = f.bankRefreshed bank := by
  rw [step, tickRef_eq]
  exact if_neg fun h => hdue h.2

/-- A tick advances the clock by one. -/
theorem clk_tickRef : (step cfg f .tickRef).clk = f.clk + 1 := by
  rw [step, tickRef_eq]
  rfl

/-- A tick changes no interval. -/
theorem bankRefInterval_tickRef : (step cfg f .tickRef).bankRefInterval = f.bankRefInterval := by
  rw [step, tickRef_eq]
  rfl

/-- The clock counts the ticks. -/
theorem clk_run (cfg : RefreshConfig) (as : List Action) :
    ((machine cfg).run as).clk = ticks as := by
  induction as using List.reverseRecOn with
  | nil => rfl
  | append_singleton as a ih =>
    rw [Machine.run_concat]
    cases a with
    | tickRef =>
      show (step cfg _ .tickRef).clk = _
      rw [clk_tickRef, ih, ticks_concat_tickRef]
      push_cast
      rfl
    | setRefInterval bank hot =>
      rw [ticks_concat_setRefInterval]
      exact ih

/-- `bank_refreshed` is the time of the last injection. -/
theorem lastInjected_run (hbank : bank < cfg.nBanks) (as : List Action) :
    LastInjected cfg bank as (((machine cfg).run as).bankRefreshed bank) := by
  induction as using List.reverseRecOn with
  | nil => exact Or.inl ⟨atTicks_nil _ _, rfl⟩
  | append_singleton as a ih =>
    rw [Machine.run_concat]
    by_cases hnow : a = .tickRef ∧ ((machine cfg).run as).Injects cfg bank
    · -- a request is injected now
      obtain ⟨rfl, hinjects⟩ := hnow
      refine Or.inr ⟨as, [], rfl, hinjects, atTicks_nil _ _, ?_⟩
      have hlast := bankRefreshed_of_due hbank ((injects_iff hbank).mp hinjects)
      rw [clk_run] at hlast
      rw [ticks_concat_tickRef]
      exact hlast
    · have hsame : (step cfg ((machine cfg).run as) a).bankRefreshed bank =
          ((machine cfg).run as).bankRefreshed bank := by
        cases a with
        | tickRef =>
          exact bankRefreshed_of_not_due fun hdue => hnow ⟨rfl, (injects_iff hbank).mpr hdue⟩
        | setRefInterval bank' hot => rfl
      show LastInjected cfg bank (as ++ [a])
        ((step cfg ((machine cfg).run as) a).bankRefreshed bank)
      rw [hsame]
      rcases ih with ⟨hquiet, hlast⟩ | ⟨before, mid, rfl, hinjects, hquiet, hlast⟩
      · exact Or.inl ⟨atTicks_concat.mpr ⟨hquiet, fun ha hinj => hnow ⟨ha, hinj⟩⟩, hlast⟩
      · refine Or.inr ⟨before, mid ++ [a], by simp, hinjects, ?_, hlast⟩
        refine atTicks_concat.mpr ⟨hquiet, fun ha hinj => hnow ⟨ha, ?_⟩⟩
        rwa [List.append_assoc] at hinj

/-- A tick leaves no bank overdue. -/
theorem elapsed_lt_of_tick (hbank : bank < cfg.nBanks) (hpos : 0 < f.bankRefInterval bank) :
    (step cfg f .tickRef).clk - (step cfg f .tickRef).bankRefreshed bank <
      f.bankRefInterval bank := by
  rw [clk_tickRef]
  by_cases hdue : f.Due bank
  · rw [bankRefreshed_of_due hbank hdue]
    omega
  · rw [bankRefreshed_of_not_due hdue]
    rw [Due] at hdue
    omega

/-- The interval of a bank goes by its last temperature. -/
theorem bankRefInterval_run (cfg : RefreshConfig) (as : List Action) (bank : ℕ) :
    ((machine cfg).run as).bankRefInterval bank =
      if isHot bank as then cfg.nREFI / 2 else cfg.nREFI := by
  induction as using List.reverseRecOn with
  | nil => rfl
  | append_singleton as a ih =>
    rw [Machine.run_concat, isHot, List.foldl_append, ← isHot]
    cases a with
    | tickRef =>
      show (step cfg _ .tickRef).bankRefInterval bank = _
      rw [bankRefInterval_tickRef, ih]
      rfl
    | setRefInterval bank' hot =>
      show Function.update _ bank' _ bank = _
      -- the interval of one bank is set, and the others keep theirs
      by_cases hbank : bank' = bank
      · subst hbank
        simp
      · rw [Function.update_of_ne (Ne.symm hbank), ih]
        simp [hbank]

/-- At no time has a bank waited for as long as the interval of a cool one. -/
theorem elapsed_run (hREFI : 2 ≤ cfg.nREFI) (hbank : bank < cfg.nBanks) (as : List Action) :
    let f := (machine cfg).run as
    0 ≤ f.clk - f.bankRefreshed bank ∧ f.clk - f.bankRefreshed bank < cfg.nREFI := by
  induction as using List.reverseRecOn with
  | nil =>
    show (0 : ℤ) ≤ 0 - 0 ∧ (0 : ℤ) - 0 < cfg.nREFI
    omega
  | append_singleton as a ih =>
    rw [Machine.run_concat]
    have hinterval := bankRefInterval_run cfg as bank
    generalize (machine cfg).run as = f at ih hinterval ⊢
    cases a with
    | tickRef =>
      have hrange : 0 < f.bankRefInterval bank ∧ f.bankRefInterval bank ≤ cfg.nREFI := by
        rw [hinterval]
        split <;> omega
      have hlt := elapsed_lt_of_tick hbank hrange.1
      refine ⟨?_, Int.lt_of_lt_of_le hlt hrange.2⟩
      show 0 ≤ (step cfg f .tickRef).clk - (step cfg f .tickRef).bankRefreshed bank
      rw [clk_tickRef]
      -- a bank that is due starts again from zero
      by_cases hdue : f.Due bank
      · rw [bankRefreshed_of_due hbank hdue]
        omega
      · rw [bankRefreshed_of_not_due hdue]
        omega
    | setRefInterval bank' hot => exact ih

/-- While no request for a bank is injected, every tick adds to the time since its last refresh. -/
theorem elapsed_of_quiet (hbank : bank < cfg.nBanks) (hquiet : QuietDuring cfg bank before mid) :
    let f := (machine cfg).run before
    let f' := (machine cfg).run (before ++ mid)
    f'.clk - f'.bankRefreshed bank = f.clk - f.bankRefreshed bank + ticks mid := by
  intro f
  induction mid using List.reverseRecOn with
  | nil =>
    rw [List.append_nil]
    exact (Int.add_zero _).symm
  | append_singleton mid a ih =>
    obtain ⟨hmid, hlast⟩ := atTicks_concat.mp hquiet
    have hbefore := ih hmid
    rw [← List.append_assoc, Machine.run_concat]
    generalize (machine cfg).run (before ++ mid) = f' at hbefore hlast ⊢
    dsimp only at hbefore ⊢
    cases a with
    | tickRef =>
      -- the clock advances and the bank is not refreshed
      have hdue : ¬ f'.Due bank := fun hdue => hlast rfl ((injects_iff hbank).mpr hdue)
      show (step cfg f' .tickRef).clk - (step cfg f' .tickRef).bankRefreshed bank = _
      rw [clk_tickRef, bankRefreshed_of_not_due hdue, ticks_concat_tickRef]
      push_cast
      omega
    | setRefInterval bank' hot =>
      rw [ticks_concat_setRefInterval]
      exact hbefore

/-- From the first tick on, a bank that stays hot has waited for less than the interval of a hot
bank. -/
theorem elapsed_lt_of_hot (hREFI : 2 ≤ cfg.nREFI) (hbank : bank < cfg.nBanks)
    (hhot : HotDuring bank before mid) (hticks : 0 < ticks mid) :
    let f := (machine cfg).run (before ++ mid)
    f.clk - f.bankRefreshed bank < cfg.nREFI / 2 := by
  induction mid using List.reverseRecOn with
  | nil => exact absurd hticks (by simp [ticks])
  | append_singleton mid a ih =>
    obtain ⟨hmid, hlast⟩ := atTicks_concat.mp hhot
    rw [← List.append_assoc, Machine.run_concat]
    cases a with
    | tickRef =>
      -- the interval in force is that of a hot bank
      have hinterval := bankRefInterval_run cfg (before ++ mid) bank
      rw [hlast rfl, if_pos rfl] at hinterval
      have hlt := elapsed_lt_of_tick (f := (machine cfg).run (before ++ mid)) hbank (by omega)
      rw [hinterval] at hlt
      exact hlt
    | setRefInterval bank' hot =>
      rw [ticks_concat_setRefInterval] at hticks
      exact ih hmid hticks

/-- In enough ticks, a request for the bank is injected. -/
theorem not_quietDuring (hREFI : 2 ≤ cfg.nREFI) (hbank : bank < cfg.nBanks)
    (hlong : cfg.nREFI ≤ ticks mid ∨ cfg.nREFI / 2 ≤ ticks mid ∧ HotDuring bank before mid) :
    ¬ QuietDuring cfg bank before mid := by
  intro hquiet
  have helapsed := elapsed_of_quiet hbank hquiet
  have hbefore := (elapsed_run hREFI hbank before).1
  dsimp only at helapsed
  rcases hlong with hlong | ⟨hlong, hhot⟩
  · have hlt := (elapsed_run hREFI hbank (before ++ mid)).2
    omega
  · have hlt := elapsed_lt_of_hot hREFI hbank hhot (by omega)
    omega

/-- After every tick, no bank has waited for its interval since `bank_refreshed`, which is the time
of the last request for the bank, and a tick injects at most one. A request is injected in any
`nREFI` ticks, and in half as many if the bank is hot in all of them. Two consecutive requests are
at least half of `nREFI` apart and at most `nREFI`, and at most half of it if the bank has been hot
all the time. -/
theorem refresh_on_time (cfg : RefreshConfig) (hREFI : 2 ≤ cfg.nREFI) {bank : ℕ}
    (hbank : bank < cfg.nBanks) :
    (∀ as, let f := (machine cfg).run (as ++ [.tickRef])
      f.clk - f.bankRefreshed bank < f.bankRefInterval bank) ∧
    (∀ as, let f := (machine cfg).run as
      LastInjected cfg bank as (f.bankRefreshed bank) ∧ f.clk = ticks as ∧
        (f.tickRef cfg).2.countP (isFor cfg bank) ≤ 1) ∧
    (∀ before mid,
      cfg.nREFI ≤ ticks mid ∨ cfg.nREFI / 2 ≤ ticks mid ∧ HotDuring bank before mid →
      ∃ mid₁ mid₂, mid = mid₁ ++ .tickRef :: mid₂ ∧
        ((machine cfg).run (before ++ mid₁)).Injects cfg bank) ∧
    ∀ before mid, ((machine cfg).run before).Injects cfg bank →
      QuietDuring cfg bank (before ++ [.tickRef]) mid →
      ((machine cfg).run (before ++ .tickRef :: mid)).Injects cfg bank →
      let gap : ℤ := ticks (mid ++ [.tickRef])
      cfg.nREFI / 2 ≤ gap ∧ gap ≤ cfg.nREFI ∧
        (HotDuring bank (before ++ [.tickRef]) (mid ++ [.tickRef]) → gap ≤ cfg.nREFI / 2) := by
  refine ⟨fun as => ?_, fun as => ⟨lastInjected_run hbank as, clk_run cfg as, ?_⟩,
    fun before mid hlong => ?_, ?_⟩
  · rw [Machine.run_concat]
    show (step cfg _ .tickRef).clk - _ < (step cfg _ .tickRef).bankRefInterval bank
    rw [bankRefInterval_tickRef]
    refine elapsed_lt_of_tick hbank ?_
    rw [bankRefInterval_run]
    split <;> omega
  · rw [countP_tickRef hbank]
    split <;> omega
  · have hnot := not_quietDuring hREFI hbank hlong
    rw [QuietDuring, AtTicks] at hnot
    push Not at hnot
    exact hnot
  · intro before mid hfirst hquiet hnext gap
    have hgap : gap = ticks mid + 1 := by
      simp [gap]
    rw [show before ++ Action.tickRef :: mid = before ++ [.tickRef] ++ mid by simp] at hnext
    -- the tick of the first request starts the time again
    have hstart : ((machine cfg).run (before ++ [.tickRef])).clk -
        ((machine cfg).run (before ++ [.tickRef])).bankRefreshed bank = 0 := by
      rw [Machine.run_concat]
      show (step cfg _ .tickRef).clk - (step cfg _ .tickRef).bankRefreshed bank = 0
      rw [clk_tickRef, bankRefreshed_of_due hbank ((injects_iff hbank).mp hfirst), sub_self]
    have helapsed := elapsed_of_quiet hbank hquiet
    dsimp only at helapsed
    rw [hstart] at helapsed
    -- the bank is due now, but it was not overdue after the tick before
    have hlt := (elapsed_run hREFI hbank (before ++ [.tickRef] ++ mid)).2
    have hdue := (injects_iff hbank).mp hnext
    have hinterval := bankRefInterval_run cfg (before ++ [.tickRef] ++ mid) bank
    rw [Due, hinterval] at hdue
    refine ⟨by split at hdue <;> omega, by omega, fun hhot => ?_⟩
    rcases Nat.eq_zero_or_pos (ticks mid) with hnone | hticks
    · omega
    · have hhotlt := elapsed_lt_of_hot hREFI hbank (atTicks_concat.mp hhot).1 hticks
      omega

/-- A bank with an interval of four ticks is hot from the start, and is refreshed every second
tick. -/
theorem refresh_on_time_hot :
    let cfg : RefreshConfig := ⟨0, 1, 2, 4⟩
    let before : List Action := [.setRefInterval 0 true, .tickRef]
    let after : List Action := [.tickRef, .tickRef]
    LastInjected cfg 0 (before ++ after) 2 ∧
      (∃ mid₁ mid₂, after = mid₁ ++ .tickRef :: mid₂ ∧
        ((machine cfg).run (before ++ mid₁)).Injects cfg 0) ∧
      ((machine cfg).run before).Injects cfg 0 ∧
      ((machine cfg).run (before ++ after)).Injects cfg 0 ∧
      cfg.nREFI / 2 ≤ (ticks after : ℤ) ∧ (ticks after : ℤ) ≤ cfg.nREFI / 2 := by
  intro cfg before after
  have hbank : 0 < cfg.nBanks := by decide
  obtain ⟨-, hlast, hcomes, hgap⟩ := refresh_on_time cfg (by decide) hbank
  have hfirst : ((machine cfg).run before).Injects cfg 0 := (injects_iff hbank).mpr (by decide)
  have hnext : ((machine cfg).run (before ++ after)).Injects cfg 0 :=
    (injects_iff hbank).mpr (by decide)
  -- between the two refreshes there is one tick, and it injects nothing
  have hquiet : QuietDuring cfg 0 (before ++ [.tickRef]) ([] ++ [.tickRef]) :=
    atTicks_concat.mpr ⟨atTicks_nil _ _,
      fun _ hinject => absurd ((injects_iff hbank).mp hinject) (by decide)⟩
  have hhot (before : List Action) (hbefore : isHot 0 before = true) :
      HotDuring 0 before ([] ++ [.tickRef] ++ [.tickRef]) :=
    atTicks_concat.mpr ⟨atTicks_concat.mpr ⟨atTicks_nil _ _, fun _ => by simpa using hbefore⟩,
      fun _ => by simpa [isHot] using hbefore⟩
  obtain ⟨hlow, -, hhigh⟩ := hgap before [.tickRef] hfirst hquiet hnext
  exact ⟨(hlast (before ++ after)).1, hcomes before after (Or.inr ⟨by decide, hhot _ rfl⟩), hfirst,
    hnext, hlow, hhigh (hhot _ rfl)⟩

end Refresh

end StackedDram.Ramulator
