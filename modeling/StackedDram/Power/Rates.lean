import Mathlib.Tactic.Linarith
import StackedDram.Power.Interval

/-!
# The inputs of the bank power

The page hit rate that `updatePower` passes to `computeBankPower` is a quotient of integers, and the
number of accesses by which it divides for the shares of reads and writes has 32 bits.
`passesIntervalRates_iff` says when they are the true rates of the interval. Where they are not, the
power of the bank is overstated (`rate_le_bankPower`).
-/

namespace StackedDram

/-! ## The rates -/

section Rates

variable (U : TimeUnits) (totTime : ℕ) (tmp : BankStats)

theorem toNat_pos_iff (x : BitVec 32) : 0 < x ↔ 0 < x.toNat := BitVec.lt_def

/-- The page hit rate is the quotient of integers. -/
theorem pageHit_bankPowerArgs : (bankPowerArgs U totTime tmp).pageHit =
    Metering.quotient (2 ^ 32) tmp.rowHits.toNat
      (tmp.rowMisses.toNat + tmp.rowConflicts.toNat) := by
  have hsum : (tmp.rowHits + tmp.rowMisses + tmp.rowConflicts).toNat =
      (tmp.rowHits.toNat + (tmp.rowMisses.toNat + tmp.rowConflicts.toNat)) % 2 ^ 32 := by
    rw [BitVec.toNat_add, BitVec.toNat_add, Nat.mod_add_mod, Nat.add_assoc]
  simp only [bankPowerArgs, Metering.quotient, toNat_pos_iff, BitVec.toNat_udiv, hsum]
  split <;> simp

/-- The shares are shares of the time in which the bank is active. -/
theorem wrSch_bankPowerArgs : (bankPowerArgs U totTime tmp).wrSch =
    Metering.share (2 ^ 32) tmp.writes.toNat tmp.reads.toNat
      (1 - (bankPowerArgs U totTime tmp).bnkPre) := by
  have hsum : (tmp.reads + tmp.writes).toNat = (tmp.writes.toNat + tmp.reads.toNat) % 2 ^ 32 := by
    rw [BitVec.toNat_add, Nat.add_comm]
  simp only [bankPowerArgs, Metering.share, toNat_pos_iff, hsum]
  split <;> rfl

theorem rdSch_bankPowerArgs : (bankPowerArgs U totTime tmp).rdSch =
    Metering.share (2 ^ 32) tmp.reads.toNat tmp.writes.toNat
      (1 - (bankPowerArgs U totTime tmp).bnkPre) := by
  simp only [bankPowerArgs, Metering.share, toNat_pos_iff, BitVec.toNat_add]
  split <;> rfl

theorem bnkPre_le_one (tACT : ℕ) : bnkPre U tACT totTime ≤ 1 := by
  have hnonneg : (0 : ℚ) ≤ (U.getNS tACT : ℚ) / U.getNS totTime := by positivity
  simp only [bnkPre]
  split
  · split
    · exact zero_le_one
    · linarith
  · exact zero_le_one

/-- The bank is idle for all of the interval if its activations take no full nanosecond of it. -/
theorem bnkPre_bankPowerArgs_eq_one_iff : (bankPowerArgs U totTime tmp).bnkPre = 1 ↔
    U.getNS totTime ≠ 0 ∧ U.getNS tmp.tACT = 0 := by
  simp only [bankPowerArgs, bnkPre]
  split
  case isFalse h => simp [h]
  case isTrue h =>
    have hne : (U.getNS totTime : ℚ) ≠ 0 := by exact_mod_cast h
    simp only [h, ne_eq, not_false_eq_true, true_and]
    split
    case isTrue hneg =>
      -- more activations than time
      refine iff_of_false zero_ne_one fun h0 => ?_
      rw [h0] at hneg
      norm_num at hneg
    case isFalse => simp [hne]

end Rates

/-- The page hit rate and the shares that `updatePower` is to pass on between the statistics `prev`
and `cur`. -/
structure IsIntervalRates (prev cur : BankStats) (args : BankPowerArgs) : Prop where
  pageHit : args.pageHit = Metering.rate (prev.count cur .rowHits)
    (prev.count cur .rowMisses + prev.count cur .rowConflicts)
  shares : 0 < prev.count cur .reads + prev.count cur .writes →
    args.rdSch + args.wrSch = 1 - args.bnkPre

/-- The row hits of the interval are none or all, and its accesses fit into 32 bits unless the bank
is idle for all of the interval. -/
def RatesFit (U : TimeUnits) (totTime : ℕ) (prev cur : BankStats) : Prop :=
  (prev.count cur .rowHits = 0 ∨
    prev.count cur .rowMisses + prev.count cur .rowConflicts = 0) ∧
  (prev.count cur .reads + prev.count cur .writes < 2 ^ 32 ∨
    U.getNS totTime ≠ 0 ∧ U.getNS (cur.tACT - prev.tACT) = 0)

instance (U : TimeUnits) (totTime : ℕ) (prev cur : BankStats) :
    Decidable (RatesFit U totTime prev cur) :=
  inferInstanceAs (Decidable (_ ∧ _))

section Exact

variable {U : TimeUnits} {prev cur : BankStats}

theorem pageHit_interval (h : prev.Grows cur) (totTime : ℕ) :
    (bankPowerArgs U totTime (cur.interval prev)).pageHit =
      Metering.quotient (2 ^ 32) (prev.count cur .rowHits)
        (prev.count cur .rowMisses + prev.count cur .rowConflicts) := by
  rw [pageHit_bankPowerArgs, ← h.toNat_counter_interval, ← h.toNat_counter_interval,
    ← h.toNat_counter_interval]
  rfl

theorem pageHit_eq_rate_iff (h : prev.Grows cur) (totTime : ℕ) :
    (bankPowerArgs U totTime (cur.interval prev)).pageHit =
        Metering.rate (prev.count cur .rowHits)
          (prev.count cur .rowMisses + prev.count cur .rowConflicts) ↔
      prev.count cur .rowHits = 0 ∨
        prev.count cur .rowMisses + prev.count cur .rowConflicts = 0 := by
  rw [pageHit_interval h, Metering.quotient_eq_rate_iff (BankStats.count_lt prev cur .rowHits)]

theorem rdSch_add_wrSch_iff (h : prev.Grows cur) (totTime : ℕ) :
    (0 < prev.count cur .reads + prev.count cur .writes →
        (bankPowerArgs U totTime (cur.interval prev)).rdSch +
            (bankPowerArgs U totTime (cur.interval prev)).wrSch =
          1 - (bankPowerArgs U totTime (cur.interval prev)).bnkPre) ↔
      prev.count cur .reads + prev.count cur .writes < 2 ^ 32 ∨
        U.getNS totTime ≠ 0 ∧ U.getNS (cur.tACT - prev.tACT) = 0 := by
  have hreads : (cur.interval prev).reads.toNat = prev.count cur .reads :=
    h.toNat_counter_interval .reads
  have hwrites : (cur.interval prev).writes.toNat = prev.count cur .writes :=
    h.toNat_counter_interval .writes
  -- nothing is to be shared out when the bank is idle
  have hidle : 1 - (bankPowerArgs U totTime (cur.interval prev)).bnkPre = 0 ↔
      U.getNS totTime ≠ 0 ∧ U.getNS (cur.tACT - prev.tACT) = 0 := by
    rw [sub_eq_zero, eq_comm]
    exact bnkPre_bankPowerArgs_eq_one_iff U totTime (cur.interval prev)
  rw [rdSch_bankPowerArgs, wrSch_bankPowerArgs, hreads, hwrites, ← hidle]
  rcases Nat.eq_zero_or_pos (prev.count cur .reads + prev.count cur .writes)
    with hzero | hpos
  · simp [hzero]
  · rw [← Metering.shares_eq_iff (by decide) hpos]
    exact ⟨fun hshares => hshares hpos, fun hshares _ => hshares⟩

/-- When what is passed on for one bank are the true rates. -/
theorem isIntervalRates_iff (h : prev.Grows cur) (totTime : ℕ) :
    IsIntervalRates prev cur (bankPowerArgs U totTime (cur.interval prev)) ↔
      RatesFit U totTime prev cur := by
  rw [RatesFit, ← pageHit_eq_rate_iff h totTime, ← rdSch_add_wrSch_iff h totTime]
  exact ⟨fun hrates => ⟨hrates.pageHit, hrates.shares⟩, fun hrates => ⟨hrates.1, hrates.2⟩⟩

end Exact

/-! ### The power at a truncated rate -/

namespace DramTable

/-- The power of the activations, where there are accesses. -/
theorem div_tRRDsch (t : DramTable) {a : BankPowerArgs} (hsch : a.wrSch + a.rdSch ≠ 0)
    (hhit : a.pageHit < 1) :
    t.pdsAct * t.tRC / t.tRRDsch a =
      t.pdsAct * t.tRC * t.freq * 2 * (a.wrSch + a.rdSch) / (t.burstLen * 1000) *
        (1 - a.pageHit) := by
  have hhit' : 1 - a.pageHit ≠ 0 := (sub_pos.mpr hhit).ne'
  rw [tRRDsch, if_pos ⟨hsch, hhit'⟩]
  by_cases hburst : t.burstLen = 0
  · simp [hburst]
  · by_cases hfreq : t.freq = 0
    · simp [hfreq]
    · field_simp

/-- A higher page hit rate needs less power. -/
theorem computeBankPower_le (t : DramTable) (hact : 0 ≤ t.pdsAct) (hRC : 0 ≤ t.tRC)
    (hfreq : 0 ≤ t.freq) (hburst : 0 ≤ t.burstLen) {a : BankPowerArgs}
    (hsch : 0 ≤ a.wrSch + a.rdSch) {p : ℚ} (hle : a.pageHit ≤ p) (hp : p < 1) :
    t.computeBankPower { a with pageHit := p } ≤ t.computeBankPower a := by
  have hactPower : t.pdsAct * t.tRC / t.tRRDsch { a with pageHit := p } ≤
      t.pdsAct * t.tRC / t.tRRDsch a := by
    -- without accesses the hit rate is not used
    rcases hsch.eq_or_lt with hzero | hpos
    · simp [tRRDsch, ← hzero]
    · rw [div_tRRDsch t (a := { a with pageHit := p }) hpos.ne' hp,
        div_tRRDsch t hpos.ne' (hle.trans_lt hp)]
      refine mul_le_mul_of_nonneg_left (sub_le_sub_left hle 1) ?_
      positivity
  have hscale : ∀ {x y : ℚ}, x ≤ y → x * (a.vddUse / t.Vdd) * (a.vddUse / t.Vdd) / 1000 ≤
      y * (a.vddUse / t.Vdd) * (a.vddUse / t.Vdd) / 1000 := by
    intro x y hxy
    rw [mul_assoc, mul_assoc]
    exact div_le_div_of_nonneg_right
      (mul_le_mul_of_nonneg_right hxy (mul_self_nonneg _)) (by norm_num)
  refine hscale ?_
  linarith

end DramTable

theorem computeBankPower_rate_le (U : TimeUnits) {prev cur : BankStats} (h : prev.Grows cur)
    (totTime : ℕ)
    (hrest : prev.count cur .rowMisses + prev.count cur .rowConflicts ≠ 0)
    (hfit : prev.count cur .rowHits + (prev.count cur .rowMisses +
      prev.count cur .rowConflicts) < 2 ^ 32) :
    let args := bankPowerArgs U totTime (cur.interval prev)
    dramTable.computeBankPower { args with
      pageHit := Metering.rate (prev.count cur .rowHits)
        (prev.count cur .rowMisses + prev.count cur .rowConflicts) } ≤
      dramTable.computeBankPower args := by
  intro args
  have hhit : args.pageHit = 0 := by
    rw [pageHit_interval h, Metering.quotient_eq_zero hrest hfit, Nat.cast_zero]
  have hbusy : 0 ≤ 1 - args.bnkPre := sub_nonneg.mpr (bnkPre_le_one _ _ _)
  have hsch : 0 ≤ args.wrSch + args.rdSch := by
    rw [wrSch_bankPowerArgs, rdSch_bankPowerArgs]
    exact add_nonneg (Metering.share_nonneg hbusy) (Metering.share_nonneg hbusy)
  -- the four conditions on the table, and `0 ≤ rate < 1`
  refine dramTable.computeBankPower_le ?_ ?_ ?_ ?_ hsch ?_ ?_
  · norm_num [dramTable, DramTable.pdsAct]
  · norm_num [dramTable]
  · norm_num [dramTable]
  · norm_num [dramTable]
  · rw [hhit]
    exact Metering.rate_nonneg _ _
  · exact Metering.rate_lt_one hrest

/-! ## Runs -/

/-- What `updatePower` is to do between two calls, where `s` is the state after the second one:
every bank is passed on once, with the differences of its counters to the first call, and with the
true rates. -/
structure PassesIntervalRates (P : PowerConfig) (prev cur : PowerCall) (s : BankPowers) : Prop where
  banks : s.computed.map Prod.fst = P.banks
  interval : ∀ ij ∈ P.banks, ∀ k, ((s.bankStatsInterval ij).counter k).toNat =
    (prev.bankStats ij).count (cur.bankStats ij) k
  rates : ∀ ij args, (ij, args) ∈ s.computed →
    IsIntervalRates (prev.bankStats ij) (cur.bankStats ij) args

namespace DramPowers

variable {P : PowerConfig} {prev cur : PowerCall}

/-- The last of two calls in a run. -/
theorem run_powerMachine_concat (P : PowerConfig) (s : DramPowers) (calls : List PowerCall)
    (prev cur : PowerCall) :
    let last := (powerMachine P s).run (calls ++ [prev, cur])
    (last.banks.computed = P.banks.map fun ij => (ij,
        bankPowerArgs P.toTimeUnits cur.recordInterval
          ((cur.bankStats ij).interval (prev.bankStats ij)))) ∧
      ∀ ij ∈ P.banks,
        last.banks.bankStatsInterval ij = (cur.bankStats ij).interval (prev.bankStats ij) ∧
        last.banks.bankPower ij = dramTable.computeBankPower
          (bankPowerArgs P.toTimeUnits cur.recordInterval
            ((cur.bankStats ij).interval (prev.bankStats ij))) := by
  intro last
  have hlast : last = updatePower P ((powerMachine P s).run (calls ++ [prev])) cur := by
    have hcalls : calls ++ [prev, cur] = calls ++ [prev] ++ [cur] := by simp
    simp only [last, hcalls, Machine.run_concat]
    rfl
  -- the first call has kept its own statistics
  have hprev : ∀ ij ∈ P.banks,
      ((powerMachine P s).run (calls ++ [prev])).banks.bankStats ij = prev.bankStats ij := by
    intro ij hij
    rw [Machine.run_concat]
    exact bankStats_updatePower hij
  refine ⟨?_, fun ij hij => ⟨?_, ?_⟩⟩
  · rw [hlast, computed_updatePower]
    exact List.map_congr_left fun ij hij => by rw [hprev ij hij]
  · rw [hlast, bankStatsInterval_updatePower hij, hprev ij hij]
  · rw [hlast, bankPower_updatePower hij, hprev ij hij]

theorem mem_computed_run (P : PowerConfig) (s : DramPowers) (calls : List PowerCall)
    (prev cur : PowerCall) {ij : ℕ × ℕ} (hij : ij ∈ P.banks) :
    (ij, bankPowerArgs P.toTimeUnits cur.recordInterval
        ((cur.bankStats ij).interval (prev.bankStats ij))) ∈
      ((powerMachine P s).run (calls ++ [prev, cur])).banks.computed := by
  rw [(run_powerMachine_concat P s calls prev cur).1]
  exact List.mem_map_of_mem hij

/-- When the inputs of the bank power are the true rates between two calls that follow each other
in a run. -/
theorem passesIntervalRates_iff (P : PowerConfig) (s : DramPowers) (calls : List PowerCall)
    (hgrows : ∀ ij ∈ P.banks, (prev.bankStats ij).Grows (cur.bankStats ij)) :
    PassesIntervalRates P prev cur ((powerMachine P s).run (calls ++ [prev, cur])).banks ↔
      ∀ ij ∈ P.banks,
        RatesFit P.toTimeUnits cur.recordInterval (prev.bankStats ij) (cur.bankStats ij) := by
  obtain ⟨hcomputed, hlast⟩ := run_powerMachine_concat P s calls prev cur
  constructor
  · intro h ij hij
    exact (isIntervalRates_iff (hgrows ij hij) _).mp
      (h.rates ij _ (mem_computed_run P s calls prev cur hij))
  · intro h
    refine ⟨?_, fun ij hij k => ?_, fun ij args hargs => ?_⟩
    · -- every bank once, right differences, and right rates
      rw [hcomputed, List.map_map]
      exact List.map_id _
    · rw [(hlast ij hij).1]
      exact (hgrows ij hij).toNat_counter_interval k
    · rw [hcomputed] at hargs
      obtain ⟨ij', hij, heq⟩ := List.mem_map.mp hargs
      obtain ⟨rfl, rfl⟩ := Prod.mk.inj heq
      exact (isIntervalRates_iff (hgrows ij' hij) _).mpr (h ij' hij)

/-- One vault with one bank. -/
def oneBank : PowerConfig where
  toTimeUnits := .femtoseconds
  nVaults := 1
  nBanks _ := 1

/-- Two calls between which a bank has had row hits only. -/
theorem passesIntervalRates_iff_hits :
    let prev : PowerCall := ⟨10 ^ 12, 1, fun _ => ⟨0, 0, 0, 0⟩, fun _ => .zero⟩
    let cur : PowerCall :=
      { prev with
        bankStats := fun _ => { BankStats.zero with reads := 1, writes := 1, rowHits := 2 } }
    PassesIntervalRates oneBank prev cur
      ((powerMachine oneBank (init fun _ => .zero)).run [prev, cur]).banks := by
  intro prev cur
  refine (passesIntervalRates_iff oneBank (init fun _ => .zero) [] ?_).mpr fun _ _ => ?_
  · exact fun _ _ => BankStats.zero_grows _
  · change RatesFit .femtoseconds (10 ^ 12) .zero
      { BankStats.zero with reads := 1, writes := 1, rowHits := 2 }
    decide

/-- Two calls between which a bank has had one row hit and one row miss: the page hit rate that is
passed on is not `1 / 2`. -/
theorem not_passesIntervalRates :
    let prev : PowerCall := ⟨10 ^ 12, 1, fun _ => ⟨0, 0, 0, 0⟩, fun _ => .zero⟩
    let cur : PowerCall :=
      { prev with
        bankStats := fun _ => { BankStats.zero with reads := 2, rowHits := 1, rowMisses := 1 } }
    (prev.bankStats (0, 0)).Grows (cur.bankStats (0, 0)) ∧
      ¬ PassesIntervalRates oneBank prev cur
        ((powerMachine oneBank (init fun _ => .zero)).run [prev, cur]).banks := by
  intro prev cur
  have hgrows : (prev.bankStats (0, 0)).Grows (cur.bankStats (0, 0)) := BankStats.zero_grows _
  refine ⟨hgrows, fun h => ?_⟩
  have hmem := mem_computed_run oneBank (init fun _ => .zero) [] prev cur
    (PowerConfig.mem_banks.mpr ⟨by decide, by decide⟩ : (0, 0) ∈ oneBank.banks)
  have hhit := (pageHit_eq_rate_iff hgrows _).mp (h.rates _ _ hmem).pageHit
  change 1 = 0 ∨ 1 + 0 = 0 at hhit
  omega

/-- Where not all rows were hits, the page hit rate that is passed on is too low, and the power of
the bank at the true rate would be at most the one that is computed. -/
theorem rate_le_bankPower (P : PowerConfig) (s : DramPowers) (calls : List PowerCall) {ij : ℕ × ℕ}
    (hij : ij ∈ P.banks) (hgrows : (prev.bankStats ij).Grows (cur.bankStats ij))
    (hrest : (prev.bankStats ij).count (cur.bankStats ij) .rowMisses +
      (prev.bankStats ij).count (cur.bankStats ij) .rowConflicts ≠ 0)
    (hfit : (prev.bankStats ij).count (cur.bankStats ij) .rowHits +
      ((prev.bankStats ij).count (cur.bankStats ij) .rowMisses +
        (prev.bankStats ij).count (cur.bankStats ij) .rowConflicts) < 2 ^ 32) :
    dramTable.computeBankPower
        { bankPowerArgs P.toTimeUnits cur.recordInterval
            ((cur.bankStats ij).interval (prev.bankStats ij)) with
          pageHit := Metering.rate
            ((prev.bankStats ij).count (cur.bankStats ij) .rowHits)
            ((prev.bankStats ij).count (cur.bankStats ij) .rowMisses +
              (prev.bankStats ij).count (cur.bankStats ij) .rowConflicts) } ≤
      ((powerMachine P s).run (calls ++ [prev, cur])).banks.bankPower ij := by
  rw [((run_powerMachine_concat P s calls prev cur).2 ij hij).2]
  exact computeBankPower_rate_le _ hgrows cur.recordInterval hrest hfit

end DramPowers

end StackedDram
