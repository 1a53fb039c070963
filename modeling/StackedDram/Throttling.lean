import Mathlib.Algebra.Order.Ring.Int
import Mathlib.Tactic.Linarith
import StackedDram.Library.SaturatingWalk

/-!
# Frequency throttling

`StatsManager::init` builds a table of core frequencies, and after every thermal analysis
`checkDTM` moves one level down in it when a reading is above its threshold, and one level up
otherwise. The levels are a saturating walk on the indices of the table (`AtLevel.run_dtm`), so
hotter readings never lead to a higher frequency (`checkDTM_spec`).

Temperatures are exact: the elements of a linear order.
-/

namespace StackedDram

/-- The settings that `checkDTM` reads: the two thresholds and `dtm_method`. -/
structure DtmConfig (T : Type*) where
  cpuTempThres : T
  dramTempThres : T
  controlMethod : ℤ

/-- The arguments of a call of `checkDTM`. -/
structure Readings (T : Type*) where
  cpuTemp : List T
  dramTemp : T

/-- No reading of `r` is above the one of `r'`. -/
structure Readings.AtMost {T : Type*} [LE T] (r r' : Readings T) : Prop where
  cpuTemp : List.Forall₂ (· ≤ ·) r.cpuTemp r'.cpuTemp
  dramTemp : r.dramTemp ≤ r'.dramTemp

/-- The part of `StatsManager` that sets the frequencies. -/
structure Dvfs where
  /-- `freq_table`, in MHz. -/
  freqTable : List ℤ
  freqLev : ℤ
  maxLev : ℤ
  /-- The frequency in Hz that each application core has at the `DvfsManager`. -/
  coreFreqs : List ℤ

/-! ## The table -/

/-- `freq_step` of `StatsManager::init`, where the division of integers truncates. -/
def freqStep (maxFreq minFreq numFreq : ℤ) : ℤ := (maxFreq - minFreq).tdiv (numFreq - 1)

/-- The frequency table of `StatsManager::init`. With `0 ≤ minFreq ≤ maxFreq` every value stays
between `0` and `maxFreq`: `int` does not overflow, and `UInt64` holds the entries. -/
def initFreqTable (maxFreq minFreq numFreq : ℤ) : List ℤ :=
  (List.range (numFreq - 1).toNat).map
    (fun i : ℕ => minFreq + freqStep maxFreq minFreq numFreq * i) ++ [maxFreq]

/-- What the table is for. -/
structure IsFreqTable (maxFreq minFreq numFreq : ℤ) (table : List ℤ) : Prop where
  length : (table.length : ℤ) = numFreq
  sorted : table.Pairwise (· ≤ ·)
  mem_bounds : ∀ f ∈ table, minFreq ≤ f ∧ f ≤ maxFreq
  getLast : table.getLast? = some maxFreq

section Table

variable {maxFreq minFreq numFreq : ℤ}

theorem freqStep_nonneg (hmax : minFreq ≤ maxFreq) (hnum : 2 ≤ numFreq) :
    0 ≤ freqStep maxFreq minFreq numFreq :=
  Int.tdiv_nonneg (by omega) (by omega)

/-- The steps taken together do not lead above `maxFreq`. -/
theorem freqStep_mul_le (hmax : minFreq ≤ maxFreq) (hnum : 2 ≤ numFreq) {i : ℕ}
    (hi : i < (numFreq - 1).toNat) :
    freqStep maxFreq minFreq numFreq * i ≤ maxFreq - minFreq := by
  have hi' : (i : ℤ) ≤ numFreq - 1 := by omega
  calc freqStep maxFreq minFreq numFreq * i
      ≤ freqStep maxFreq minFreq numFreq * (numFreq - 1) :=
        mul_le_mul_of_nonneg_left hi' (freqStep_nonneg hmax hnum)
    _ ≤ maxFreq - minFreq := by
        rw [freqStep, Int.tdiv_eq_ediv_of_nonneg (by omega)]
        exact Int.ediv_mul_le _ (by omega)

theorem length_initFreqTable (hnum : 2 ≤ numFreq) :
    ((initFreqTable maxFreq minFreq numFreq).length : ℤ) = numFreq := by
  simp only [initFreqTable, List.length_append, List.length_map, List.length_range,
    List.length_singleton]
  omega

theorem isFreqTable_initFreqTable (hmax : minFreq ≤ maxFreq) (hnum : 2 ≤ numFreq) :
    IsFreqTable maxFreq minFreq numFreq (initFreqTable maxFreq minFreq numFreq) where
  length := length_initFreqTable hnum
  sorted := by
    have hstep := freqStep_nonneg hmax hnum
    refine List.pairwise_append.mpr ⟨?_, List.pairwise_singleton _ _, ?_⟩
    -- the steps go up, and the last of them does not go above `maxFreq`
    · refine List.pairwise_map.mpr (List.pairwise_lt_range.imp fun {i j} hij => ?_)
      have hij' : (i : ℤ) ≤ j := by exact_mod_cast hij.le
      linarith [mul_le_mul_of_nonneg_left hij' hstep]
    · intro f hf g hg
      obtain ⟨i, hi, rfl⟩ := List.mem_map.mp hf
      rw [List.mem_singleton.mp hg]
      linarith [freqStep_mul_le hmax hnum (List.mem_range.mp hi)]
  mem_bounds := by
    intro f hf
    rcases List.mem_append.mp hf with hf | hf
    · obtain ⟨i, hi, rfl⟩ := List.mem_map.mp hf
      have hnonneg : 0 ≤ freqStep maxFreq minFreq numFreq * i :=
        mul_nonneg (freqStep_nonneg hmax hnum) (Int.natCast_nonneg i)
      constructor
      · linarith
      · linarith [freqStep_mul_le hmax hnum (List.mem_range.mp hi)]
    · rw [List.mem_singleton.mp hf]
      exact ⟨hmax, le_rfl⟩
  getLast := by rw [initFreqTable, List.getLast?_concat]

end Table

namespace Dvfs

/-! ## One call -/

section Model

variable {T : Type*} [Zero T] [LT T] [DecidableLT T]

/-- The state after `StatsManager::init`; `coreFreqs` are the frequencies of the configuration. -/
def init (maxFreq minFreq numFreq : ℤ) (coreFreqs : List ℤ) : Dvfs :=
  let table := initFreqTable maxFreq minFreq numFreq
  { freqTable := table
    freqLev := table.length - 1
    maxLev := table.length - 1
    coreFreqs }

/-- `freq_table[freq_lev]`, and `none` outside the table. `StackedDramPerfUnison` reads it as well,
for the cycle time of a stack on top of the cores. -/
def currentFreq (S : Dvfs) : Option ℤ :=
  if 0 ≤ S.freqLev then S.freqTable[S.freqLev.toNat]? else none

/-- `StatsManager::setFrequency` for a core that has the frequency `coreFreq`. -/
def setFrequency (freqInMhz coreFreq : ℤ) : ℤ :=
  let freqInHz := freqInMhz * 1000000
  if 0 < freqInHz then freqInHz else coreFreq

/-- `StatsManager::setGlobalFrequency`. -/
def setGlobalFrequency (S : Dvfs) (freqInMhz : ℤ) : Dvfs :=
  { S with coreFreqs := S.coreFreqs.map (setFrequency freqInMhz) }

/-- The new level `lev`, and `setGlobalFrequency(freq_table[freq_lev])`. -/
def setLevel (S : Dvfs) (lev : ℤ) : Dvfs :=
  let S' := { S with freqLev := lev }
  match S'.currentFreq with
  | some freq => S'.setGlobalFrequency freq
  | none => S' -- not reached: see `AtLevel.currentFreq`

/-- The two branches that both methods share. -/
def throttle (S : Dvfs) (hot : Bool) : Dvfs :=
  if hot then if 0 < S.freqLev then S.setLevel (S.freqLev - 1) else S
  else if S.freqLev < S.maxLev then S.setLevel (S.freqLev + 1)
  else S

/-- `max_temp`. -/
def maxTemp (cpuTemp : List T) : T := cpuTemp.foldl (fun max t => if max < t then t else max) 0

/-- `StatsManager::checkDTM`. -/
def checkDTM (cfg : DtmConfig T) (S : Dvfs) (r : Readings T) : Dvfs :=
  let maxTemp := maxTemp r.cpuTemp
  -- 0: no operation on high temperature
  if cfg.controlMethod = 0 then S
  -- 1: only the CPU temperature
  else if cfg.controlMethod = 1 then S.throttle (cfg.cpuTempThres < maxTemp)
  -- 2: both the CPU and the DRAM temperature
  else if cfg.controlMethod = 2 then
    S.throttle (cfg.cpuTempThres < maxTemp ∨ cfg.dramTempThres < r.dramTemp)
  -- unrecognized method
  else S

/-- The calls of `checkDTM` after `init`. -/
def dtm (cfg : DtmConfig T) (S : Dvfs) : Machine Dvfs (Readings T) where
  init := S
  step := checkDTM cfg

/-- The condition of the methods 1 and 2. -/
def isHot (cfg : DtmConfig T) (r : Readings T) : Bool :=
  cfg.cpuTempThres < maxTemp r.cpuTemp ∨
    cfg.controlMethod = 2 ∧ cfg.dramTempThres < r.dramTemp

/-- The methods 1 and 2 are those that throttle. -/
theorem checkDTM_eq {cfg : DtmConfig T} (hcfg : cfg.controlMethod = 1 ∨ cfg.controlMethod = 2)
    (S : Dvfs) (r : Readings T) : S.checkDTM cfg r = S.throttle (isHot cfg r) := by
  rcases hcfg with hcfg | hcfg
  · simp [checkDTM, isHot, hcfg]
  · simp [checkDTM, isHot, hcfg]

end Model

/-! ## The frequencies of the cores -/

section Cores

variable {S : Dvfs} {given : List ℤ}

@[simp]
theorem setLevel_freqLev (S : Dvfs) (lev : ℤ) : (S.setLevel lev).freqLev = lev := by
  rw [setLevel]
  split <;> rfl

@[simp]
theorem setLevel_freqTable (S : Dvfs) (lev : ℤ) : (S.setLevel lev).freqTable = S.freqTable := by
  rw [setLevel]
  split <;> rfl

@[simp]
theorem setLevel_maxLev (S : Dvfs) (lev : ℤ) : (S.setLevel lev).maxLev = S.maxLev := by
  rw [setLevel]
  split <;> rfl

/-- Every core has one of the frequencies `given`, or runs at an entry of the table other than
`0`. -/
def FromTable (S : Dvfs) (given : List ℤ) : Prop :=
  ∀ f ∈ S.coreFreqs, f ∈ given ∨ ∃ g ∈ S.freqTable, 0 < g ∧ f = g * 1000000

theorem mem_of_currentFreq {g : ℤ} (h : S.currentFreq = some g) : g ∈ S.freqTable := by
  rw [currentFreq] at h
  split at h
  · exact List.mem_of_getElem? h
  · cases h

theorem FromTable.setLevel (h : S.FromTable given) (lev : ℤ) :
    (S.setLevel lev).FromTable given := by
  rw [Dvfs.setLevel]
  split
  case h_2 => exact h
  case h_1 g hg =>
    intro f hf
    obtain ⟨f', hf', rfl⟩ := List.mem_map.mp hf
    rw [setFrequency]
    split
    -- `setFrequency` fails for the frequency `0`, and the core keeps the one that it has
    case isFalse => exact h f' hf'
    case isTrue hpos => exact Or.inr ⟨g, mem_of_currentFreq hg, by omega, rfl⟩

theorem FromTable.throttle (h : S.FromTable given) (hot : Bool) :
    (S.throttle hot).FromTable given := by
  rw [Dvfs.throttle]
  split_ifs
  · exact h.setLevel _
  · exact h
  · exact h.setLevel _
  · exact h

variable {T : Type*} [Zero T] [LT T] [DecidableLT T] (cfg : DtmConfig T)

theorem FromTable.checkDTM (h : S.FromTable given) (r : Readings T) :
    (S.checkDTM cfg r).FromTable given := by
  rw [Dvfs.checkDTM]
  split_ifs
  · exact h
  · exact h.throttle _
  · exact h.throttle _
  · exact h

/-- In every run, under every method. -/
theorem fromTable_run_dtm (S : Dvfs) (rs : List (Readings T)) :
    ((dtm cfg S).run rs).FromTable S.coreFreqs :=
  (Machine.reachable_run rs).invariant (P := fun S' : Dvfs => S'.FromTable S.coreFreqs)
    (fun _ hf => Or.inl hf) fun _ r _ h => h.checkDTM cfg r

end Cores

/-! ## The levels are a saturating walk -/

section Walk

open SaturatingWalk

variable {S : Dvfs} {table : List ℤ} {n : ℕ} {i : Fin (n + 1)}

/-- The state `S` has the table `table` and stands at its entry `i`. -/
structure AtLevel (S : Dvfs) (table : List ℤ) (i : Fin (n + 1)) : Prop where
  freqTable : S.freqTable = table
  length : table.length = n + 1
  maxLev : S.maxLev = n
  freqLev : S.freqLev = i.val

theorem AtLevel.lt_length (h : S.AtLevel table i) : i.val < table.length := by
  rw [h.length]
  exact i.isLt

/-- The index is in the table. -/
theorem AtLevel.currentFreq (h : S.AtLevel table i) :
    S.currentFreq = some (table.get ⟨i.val, h.lt_length⟩) := by
  simp [Dvfs.currentFreq, h.freqLev, h.freqTable, h.lt_length]

/-- A call takes one step of the walk. -/
theorem AtLevel.throttle (h : S.AtLevel table i) (hot : Bool) :
    (S.throttle hot).AtLevel table (walkStep i hot) := by
  have hlt := i.isLt
  have hlev := h.freqLev
  have hmax := h.maxLev
  cases hot with
  | true =>
    have hval : (walkStep i true).val = i.val - 1 := val_pred i
    simp only [Dvfs.throttle, if_true]
    -- one level down, or no change at the lowest one
    split
    · exact ⟨by simp [h.freqTable], h.length, by simp [hmax], by simp; omega⟩
    · exact ⟨h.freqTable, h.length, hmax, by omega⟩
  | false =>
    have hval : (walkStep i false).val = min (i.val + 1) n := val_succ i
    simp only [Dvfs.throttle, Bool.false_eq_true, if_false]
    -- one level up, or no change at the highest one
    split
    · exact ⟨by simp [h.freqTable], h.length, by simp [hmax], by simp; omega⟩
    · exact ⟨h.freqTable, h.length, hmax, by omega⟩

variable {T : Type*} [Zero T] [LT T] [DecidableLT T] {cfg : DtmConfig T}

/-- The calls are the steps of the walk that goes down when the condition of the method holds. -/
theorem AtLevel.run_dtm (hcfg : cfg.controlMethod = 1 ∨ cfg.controlMethod = 2)
    (h : S.AtLevel table i) (rs : List (Readings T)) :
    ((dtm cfg S).run rs).AtLevel table ((walk i).run (rs.map (isHot cfg))) := by
  induction rs using List.reverseRecOn with
  | nil => exact h
  | append_singleton rs r ih =>
    rw [List.map_append, List.map_singleton, Machine.run_concat, Machine.run_concat]
    change (checkDTM cfg _ r).AtLevel table (walkStep _ (isHot cfg r))
    rw [checkDTM_eq hcfg]
    exact ih.throttle (isHot cfg r)

/-- The run starts at the last entry of the table. -/
theorem atLevel_init {maxFreq minFreq numFreq : ℤ} (hnum : 2 ≤ numFreq) (coreFreqs : List ℤ) :
    (init maxFreq minFreq numFreq coreFreqs).AtLevel (initFreqTable maxFreq minFreq numFreq)
      (Fin.last (numFreq - 1).toNat) := by
  have hlength : ((initFreqTable maxFreq minFreq numFreq).length : ℤ) = numFreq :=
    length_initFreqTable hnum
  exact ⟨rfl, by omega, by simp only [init]; omega, by simp only [init, Fin.val_last]; omega⟩

end Walk

/-! ## Hotter readings -/

section Order

open SaturatingWalk

variable {T : Type*} [LinearOrder T] [Zero T]

theorem maxTemp_le {l l' : List T} (h : List.Forall₂ (· ≤ ·) l l') : maxTemp l ≤ maxTemp l' := by
  refine List.rel_foldl (P := fun a b : T => a ≤ b) (R := fun a b : T => a ≤ b) ?_ le_rfl h
  intro max max' hmax t t' ht
  simp only [← max_def_lt]
  exact max_le_max hmax ht

/-- Where a reading is above its threshold, the same reading is so in hotter readings. -/
theorem isHot_le_of_atMost (cfg : DtmConfig T) {r r' : Readings T} (h : r.AtMost r') :
    isHot cfg r ≤ isHot cfg r' := by
  refine Bool.le_iff_imp.mpr fun hhot => ?_
  simp only [isHot, decide_eq_true_eq] at hhot ⊢
  -- the same threshold is passed by the hotter reading
  rcases hhot with hcpu | ⟨hmethod, hdram⟩
  · exact Or.inl (hcpu.trans_le (maxTemp_le h.cpuTemp))
  · exact Or.inr ⟨hmethod, hdram.trans_le h.dramTemp⟩

/-- The method 2 reacts to whatever the method 1 reacts to. -/
theorem isHot_one_le_two (cfg : DtmConfig T) (r : Readings T) :
    isHot { cfg with controlMethod := 1 } r ≤ isHot { cfg with controlMethod := 2 } r := by
  refine Bool.le_iff_imp.mpr fun hhot => ?_
  simp only [isHot, decide_eq_true_eq] at hhot ⊢
  rcases hhot with hcpu | ⟨hmethod, -⟩
  · exact Or.inl hcpu
  · exact absurd hmethod (by decide)

/-- Two runs from the same state, one of which throttles whenever the other does. -/
theorem run_dtm_le {S : Dvfs} {table : List ℤ} {n : ℕ} {i : Fin (n + 1)} {cfg cfg' : DtmConfig T}
    (hcfg : cfg.controlMethod = 1 ∨ cfg.controlMethod = 2)
    (hcfg' : cfg'.controlMethod = 1 ∨ cfg'.controlMethod = 2) (h : S.AtLevel table i)
    {rs rs' : List (Readings T)}
    (hhot : List.Forall₂ (fun r r' => isHot cfg r ≤ isHot cfg' r') rs rs') :
    ((dtm cfg' S).run rs').freqLev ≤ ((dtm cfg S).run rs).freqLev := by
  rw [(h.run_dtm hcfg rs).freqLev, (h.run_dtm hcfg' rs').freqLev]
  have hle : (walk i).run (rs'.map (isHot cfg')) ≤ (walk i).run (rs.map (isHot cfg)) :=
    walk_run_le i (by simpa [List.forall₂_map_left_iff, List.forall₂_map_right_iff] using hhot)
  exact_mod_cast hle

/-- The table is as it should be; the level never leaves it and moves by at most one in a call;
hotter readings never lead to a higher level, and neither does the method 2 in place of 1. -/
theorem checkDTM_spec {maxFreq minFreq numFreq : ℤ} (hmax : minFreq ≤ maxFreq) (hnum : 2 ≤ numFreq)
    (coreFreqs : List ℤ) (cfg : DtmConfig T) :
    let S := init maxFreq minFreq numFreq coreFreqs
    let after := fun (method : ℤ) (rs : List (Readings T)) =>
      (dtm { cfg with controlMethod := method } S).run rs
    IsFreqTable maxFreq minFreq numFreq S.freqTable ∧
    (∀ method, method = 1 ∨ method = 2 →
      (∀ rs, (after method rs).freqTable = S.freqTable ∧ 0 ≤ (after method rs).freqLev ∧
        (after method rs).freqLev < S.freqTable.length) ∧
      (∀ rs r, |(after method (rs ++ [r])).freqLev - (after method rs).freqLev| ≤ 1) ∧
      ∀ rs rs', List.Forall₂ Readings.AtMost rs rs' →
        ∀ n, (after method (rs'.take n)).freqLev ≤ (after method (rs.take n)).freqLev) ∧
    ∀ rs, (after 2 rs).freqLev ≤ (after 1 rs).freqLev := by
  intro S after
  have hinit : S.AtLevel (initFreqTable maxFreq minFreq numFreq) _ := atLevel_init hnum coreFreqs
  refine ⟨isFreqTable_initFreqTable hmax hnum, fun method hmethod => ⟨?_, ?_, ?_⟩, ?_⟩
  · intro rs
    have hrun : (after method rs).AtLevel _ _ := hinit.run_dtm hmethod rs
    have hlt := hrun.lt_length
    refine ⟨hrun.freqTable, ?_, ?_⟩
    · rw [hrun.freqLev]
      exact Int.natCast_nonneg _
    · rw [hrun.freqLev]
      exact_mod_cast hlt
  · intro rs r
    have hrun : ∀ rs, (after method rs).AtLevel _ _ := hinit.run_dtm hmethod
    rw [(hrun (rs ++ [r])).freqLev, (hrun rs).freqLev, List.map_append, List.map_singleton,
      Machine.run_concat]
    exact abs_val_walkStep_sub_le _ _
  · intro rs rs' h n
    -- what is hot in the first run is hot in the second one
    exact run_dtm_le hmethod hmethod hinit
      ((List.forall₂_take n h).imp fun _ _ hr => isHot_le_of_atMost _ hr)
  · intro rs
    exact run_dtm_le (Or.inl rfl) (Or.inr rfl) hinit
      (List.forall₂_same.mpr fun r _ => isHot_one_le_two cfg r)

/-- Five frequencies, and a core that gets too hot while the stack is hot all the time. -/
theorem checkDTM_spec_five :
    let S := init 2000 400 5 [2000000000]
    let readings : List (Readings ℤ) := [⟨[60, 70], 90⟩, ⟨[60, 81], 90⟩, ⟨[60, 70], 90⟩]
    IsFreqTable 2000 400 5 [400, 800, 1200, 1600, 2000] ∧
      ((dtm ⟨80, 85, 2⟩ S).run readings).freqLev = 1 ∧
      ((dtm ⟨80, 85, 1⟩ S).run readings).freqLev = 4 ∧
      ((dtm ⟨80, 85, 2⟩ S).run readings).freqLev ≤ ((dtm ⟨80, 85, 1⟩ S).run readings).freqLev := by
  intro S readings
  have hmax : (400 : ℤ) ≤ 2000 := by decide
  have hnum : (2 : ℤ) ≤ 5 := by decide
  obtain ⟨htable, -, hle⟩ := checkDTM_spec hmax hnum [2000000000] (⟨80, 85, 0⟩ : DtmConfig ℤ)
  exact ⟨htable, by decide, by decide, hle readings⟩

end Order

end Dvfs

end StackedDram
