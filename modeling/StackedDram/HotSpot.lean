import Mathlib.Algebra.BigOperators.Group.List.Basic
import Mathlib.Algebra.Order.Ring.Rat
import Mathlib.Algebra.Field.Rat
import Mathlib.Tactic.IntervalCases
import StackedDram.Library.Blocks
import StackedDram.Library.Machine

/-!
# The interface to HotSpot

`StatsManager` of `stats.cc` writes the power of every unit of the chip to a file of which the first
line names the units, and reads their temperatures from a vector in the order of that line. There
are two floorplans with different orders. Powers and temperatures are exact here.

The normal writer is right except that it computes the power of the instruction caches from that of
the instruction schedulers (`rowsRight_false_iff`). In the reverse floorplan the first row has the
controllers before the banks and its header has them after (`rowsRight_true_iff`). The readers go by
the order of the normal floorplan in both (`readsRight_false`, `readsRight_true_iff`). Together this
is `hotspot_roundtrip_iff`.
-/

namespace StackedDram

/-- The units of a core, in the order of the columns. -/
inductive CoreUnit where
  | ialu | fpalu | inssch | l1i | insdec | bp | ru | l1d | mmu | l2
  deriving DecidableEq, Repr

/-- The name of a unit: `ialu_0`, `dram_ctlr_0`, and `dram_0_1` for bank 1 of vault 0. -/
inductive UnitName where
  | core (u : CoreUnit) (i : ℕ)
  | dramCtlr (i : ℕ)
  | dram (i j : ℕ)
  deriving DecidableEq, Repr

/-- A value for every unit. -/
structure Powers (π : Type) where
  /-- `power_ialu[i]` and its siblings. -/
  core : CoreUnit → ℕ → π
  /-- `vault_power`. -/
  vault : ℕ → π
  /-- `bank_power`. -/
  bank : ℕ → ℕ → π

/-- The value of the unit with the given name. -/
def Powers.of {π : Type} (P : Powers π) : UnitName → π
  | .core u i => P.core u i
  | .dramCtlr i => P.vault i
  | .dram i j => P.bank i j

/-- The powers that `StatsManager` keeps. -/
structure StatsManager (π : Type) where
  power : Powers π
  /-- `p_power_ialu[i]` and its siblings. -/
  pPower : CoreUnit → ℕ → π

namespace StatsManager

/-! ## Writers -/

/-- The units of a core in the order in which both writers list them. -/
def coreUnits : List CoreUnit := [.ialu, .fpalu, .inssch, .l1i, .insdec, .bp, .ru, .l1d, .mmu, .l2]

/-- The loops over the cores, over the controllers, and over the banks. -/
def coreNames : List UnitName := (List.range 4).flatMap fun i => coreUnits.map fun u => .core u i

/-- The names of the controllers of the vaults. -/
def ctlrNames : List UnitName := (List.range 32).map .dramCtlr

/-- The names of the banks. -/
def bankNames : List UnitName :=
  (List.range 8).flatMap fun j => (List.range 32).map fun i => .dram i j

/-- The header that `dumpHotspotInput` writes, or with `reverse_flp` `dumpHotspotInputReverse`. -/
def header (reverseFlp : Bool) : List UnitName :=
  if reverseFlp then bankNames ++ ctlrNames ++ coreNames else coreNames ++ ctlrNames ++ bankNames

section Writers

variable {π : Type}

/-- The powers of the controllers of the vaults. -/
def vaultColumns (P : Powers π) : List π := (List.range 32).map P.vault

/-- The powers of the banks. -/
def bankColumns (P : Powers π) : List π :=
  (List.range 8).flatMap fun j => (List.range 32).map fun i => P.bank i j

/-- The columns of the cores, as `dumpHotspotInputReverse` writes them. -/
def coreColumns (P : Powers π) : List π :=
  (List.range 4).flatMap fun i => coreUnits.map fun u => P.core u i

/-- `StatsManager::updatePower`, with the powers that it computes. Only those of the cores are kept
from before. -/
def updatePower (new : Powers π) (s : StatsManager π) : StatsManager π := ⟨new, s.power.core⟩

variable [CommRing π]

/-- The columns of the cores, as `dumpHotspotInput` writes them: a column for every unit that goes
from the power before to the power now. -/
def rampColumns (pRatio : π) (s : StatsManager π) : List π :=
  (List.range 4).flatMap fun i =>
    let ramp (u v : CoreUnit) : π := s.pPower u i + pRatio * (s.power.core v i - s.pPower v i)
    [ramp .ialu .ialu, ramp .fpalu .fpalu, ramp .inssch .inssch,
      -- the difference is that of the schedulers
      ramp .l1i .inssch,
      ramp .insdec .insdec, ramp .bp .bp, ramp .ru .ru, ramp .l1d .l1d, ramp .mmu .mmu,
      ramp .l2 .l2]

/-- `StatsManager::dumpHotspotInput`: the state after it, the header and the rows. -/
def dumpHotspotInput (ptNum : ℤ) (new : Powers π) (s : StatsManager π) :
    StatsManager π × List UnitName × List (List π) :=
  let s := s.updatePower new
  (s, header false, (List.range (ptNum + 1).toNat).map fun _ =>
    -- `p_ratio` is computed from the number of the row and then set to 1
    s.rampColumns 1 ++ vaultColumns s.power ++ bankColumns s.power)

omit [CommRing π] in
/-- `StatsManager::dumpHotspotInputReverse`. -/
def dumpHotspotInputReverse (new : Powers π) (s : StatsManager π) :
    StatsManager π × List UnitName × List (List π) :=
  let first := vaultColumns s.power ++ bankColumns s.power ++ coreColumns s.power
  let s := s.updatePower new
  (s, header true,
    [first, bankColumns s.power ++ vaultColumns s.power ++ coreColumns s.power])

/-- The choice that `recordStats` makes. -/
def dump (reverseFlp : Bool) (ptNum : ℤ) (new : Powers π) (s : StatsManager π) :
    StatsManager π × List UnitName × List (List π) :=
  if reverseFlp then s.dumpHotspotInputReverse new else s.dumpHotspotInput ptNum new

end Writers

/-! ## Readers -/

section Readers

variable {τ : Type} [Field τ]

/-- `StatsManager::getDramCntlrTemp`. -/
def getDramCntlrTemp (unitTemp : List τ) (vaultNum : ℕ) : τ := unitTemp.getD (40 + vaultNum) 0

/-- `StatsManager::getDramBankTemp`. -/
def getDramBankTemp (unitTemp : List τ) (vaultNum bankNum : ℕ) : τ :=
  unitTemp.getD (40 + 32 + bankNum * 32 + vaultNum) 0

/-- What `callHotSpot` gathers from the temperatures. -/
structure Readings (τ : Type) where
  coreAvgTemp : ℕ → τ
  coreMaxTemp : ℕ → τ
  maxBankTemp : τ
  /-- The calls of `updateTemperature`: vault, bank, and the temperatures of the bank and of the
  vault. The temperature of the bank is also kept in `prev_bank_temp`. -/
  updates : List (ℕ × ℕ × τ × τ)

variable [LinearOrder τ]

/-- The body of the loop of `callHotSpot` over the units. -/
def readUnit (unitTemp : List τ) (r : Readings τ) (i : ℕ) : Readings τ :=
  let temp := unitTemp.getD i 0
  let r :=
    if i < 40 then
      let coreId := i / 10
      { r with
        coreAvgTemp := Function.update r.coreAvgTemp coreId (r.coreAvgTemp coreId + temp)
        coreMaxTemp := Function.update r.coreMaxTemp coreId
          (if r.coreMaxTemp coreId < temp then temp else r.coreMaxTemp coreId) }
    else r
  if 72 ≤ i then
    let v := (i - 72) % 32
    let b := (i - 72) / 32
    { r with
      maxBankTemp := if r.maxBankTemp < temp then temp else r.maxBankTemp
      updates := r.updates ++ [(v, b, temp, unitTemp.getD (40 + v) 0)] }
  else r

/-- `StatsManager::callHotSpot`, after the temperatures have been calculated. -/
def callHotSpot (unitTemp : List τ) : Readings τ :=
  let r := (List.range unitTemp.length).foldl (readUnit unitTemp) ⟨fun _ => 0, fun _ => 0, 0, []⟩
  { r with coreAvgTemp := fun i => r.coreAvgTemp i / 10 }

end Readers

/-! ## Rows and their header -/

section Rows

variable {π : Type} [CommRing π] {s : StatsManager π} {new : Powers π} {ptNum : ℤ}

/-- Every row has the powers of the units in the order of the header: those from before
`updatePower` in the first row in the reverse floorplan, the current ones in all others. -/
def RowsRight (reverseFlp : Bool) (ptNum : ℤ) (new : Powers π) (s : StatsManager π) : Prop :=
  let (after, header, rows) := s.dump reverseFlp ptNum new
  ∀ k row, rows[k]? = some row →
    row = header.map (if reverseFlp = true ∧ k = 0 then s.power else after.power).of

omit [CommRing π] in
theorem map_coreNames (P : Powers π) : coreNames.map P.of = coreColumns P := by
  rw [coreNames, List.map_flatMap]
  rfl

omit [CommRing π] in
theorem map_ctlrNames (P : Powers π) : ctlrNames.map P.of = vaultColumns P := by
  rw [ctlrNames, List.map_map]
  rfl

omit [CommRing π] in
theorem map_bankNames (P : Powers π) : bankNames.map P.of = bankColumns P := by
  rw [bankNames, List.map_flatMap]
  simp only [List.map_map]
  rfl

/-- With `p_ratio` 1, all columns of the cores but one have the current power. -/
theorem rampColumns_eq_iff :
    (s.updatePower new).rampColumns 1 = coreColumns new ↔
      ∀ i < 4, s.power.core .l1i i + (new.core .inssch i - s.power.core .inssch i) =
        new.core .l1i i := by
  rw [rampColumns, coreColumns, Blocks.flatMap_range_inj (m := 10) (fun _ => rfl) fun _ => rfl]
  refine forall₂_congr fun i _ => ?_
  simp [updatePower, coreUnits]

/-- The normal writer is right if the power of the instruction caches changes as that of the
schedulers does. -/
theorem rowsRight_false_iff :
    RowsRight false ptNum new s ↔
      ptNum < 0 ∨ ∀ i < 4, s.power.core .l1i i + (new.core .inssch i - s.power.core .inssch i) =
        new.core .l1i i := by
  rw [← rampColumns_eq_iff]
  -- the vaults and banks are the same in both, so only the cores decide
  have hrow : (s.updatePower new).rampColumns 1 ++ vaultColumns new ++ bankColumns new =
      (header false).map new.of ↔ (s.updatePower new).rampColumns 1 = coreColumns new := by
    show _ = (coreNames ++ ctlrNames ++ bankNames).map new.of ↔ _
    rw [List.map_append, List.map_append, map_coreNames, map_ctlrNames, map_bankNames,
      List.append_left_inj, List.append_left_inj]
  rw [← hrow]
  constructor
  · intro h
    by_cases hneg : ptNum < 0
    · exact Or.inl hneg
    · refine Or.inr (h 0 _ ?_)
      show ((List.range (ptNum + 1).toNat).map _)[0]? = some _
      rw [List.getElem?_map, List.getElem?_range (by omega)]
      rfl
  · -- every row of the ramp is the same
    rintro h k row hk
    have hk' : ((List.range (ptNum + 1).toNat).map fun _ => (s.updatePower new).rampColumns 1 ++
        vaultColumns new ++ bankColumns new)[k]? = some row := hk
    rw [List.getElem?_map] at hk'
    obtain ⟨j, hj, rfl⟩ := Option.map_eq_some_iff.mp hk'
    have hlt := List.mem_range.mp (List.mem_of_getElem? hj)
    exact h.resolve_left (by omega)

omit [CommRing π] in
/-- The controllers can be written before the banks only if every bank has the power of its
controller. -/
theorem vaultColumns_comm_iff (P : Powers π) :
    vaultColumns P ++ bankColumns P = bankColumns P ++ vaultColumns P ↔
      ∀ v < 32, ∀ b < 8, P.bank v b = P.vault v := by
  rw [bankColumns, List.flatMap_def, Blocks.append_flatten_comm_iff (by simp [vaultColumns])]
  simp only [List.forall_mem_map, vaultColumns, List.map_inj_left, List.mem_range]
  exact ⟨fun h v hv b hb => h b hb v hv, fun h b hb v hv => h v hv b hb⟩

/-- In the reverse floorplan the first row is right only if the order of the controllers and the
banks does not matter. -/
theorem rowsRight_true_iff :
    RowsRight true ptNum new s ↔ ∀ v < 32, ∀ b < 8, s.power.bank v b = s.power.vault v := by
  rw [← vaultColumns_comm_iff]
  have hheader : ∀ P : Powers π, (header true).map P.of =
      bankColumns P ++ vaultColumns P ++ coreColumns P := by
    intro P
    show (bankNames ++ ctlrNames ++ coreNames).map P.of = _
    rw [List.map_append, List.map_append, map_coreNames, map_ctlrNames, map_bankNames]
  constructor
  · intro h
    -- the first row is the one of the powers before the update
    have hfirst : vaultColumns s.power ++ bankColumns s.power ++ coreColumns s.power =
        (header true).map s.power.of := h 0 _ rfl
    rw [hheader] at hfirst
    exact List.append_cancel_right hfirst
  · intro h k row hk
    match k, hk with
    | 0, hk =>
      obtain rfl := Option.some.inj hk
      show _ = (header true).map s.power.of
      rw [hheader, ← h]
    | 1, hk =>
      obtain rfl := Option.some.inj hk
      exact (hheader new).symm

end Rows

/-! ## The positions of the units -/

section Positions

variable {τ : Type} [Zero τ] {temp : UnitName → τ} {v b : ℕ}

theorem length_coreNames : coreNames.length = 40 :=
  Blocks.length_flatMap_range (m := 10) 4 fun _ => rfl

theorem length_ctlrNames : ctlrNames.length = 32 := rfl

theorem length_bankNames : bankNames.length = 256 :=
  Blocks.length_flatMap_range (m := 32) 8 fun _ => by rw [List.length_map, List.length_range]

/-- A header has a name for every unit. -/
theorem length_header (reverseFlp : Bool) : (header reverseFlp).length = 328 := by
  cases reverseFlp <;>
    simp only [header, Bool.false_eq_true, if_false, if_true, List.length_append,
      length_coreNames, length_ctlrNames, length_bankNames]

/-- The normal header: cores, controllers, banks. -/
theorem getD_header_false (temp : UnitName → τ) (k : ℕ) :
    ((header false).map temp).getD k 0 =
      if k < 40 then (coreNames.map temp).getD k 0
      else if k - 40 < 32 then (ctlrNames.map temp).getD (k - 40) 0
      else (bankNames.map temp).getD (k - 40 - 32) 0 := by
  show ((coreNames ++ ctlrNames ++ bankNames).map temp).getD k 0 = _
  rw [List.append_assoc, List.map_append, List.map_append, Blocks.getD_append_eq_ite,
    Blocks.getD_append_eq_ite]
  simp only [List.length_map, length_coreNames, length_ctlrNames]

/-- The reverse header: banks, controllers, cores. -/
theorem getD_header_true (temp : UnitName → τ) (k : ℕ) :
    ((header true).map temp).getD k 0 =
      if k < 256 then (bankNames.map temp).getD k 0
      else if k - 256 < 32 then (ctlrNames.map temp).getD (k - 256) 0
      else (coreNames.map temp).getD (k - 256 - 32) 0 := by
  show ((bankNames ++ ctlrNames ++ coreNames).map temp).getD k 0 = _
  rw [List.append_assoc, List.map_append, List.map_append, Blocks.getD_append_eq_ite,
    Blocks.getD_append_eq_ite]
  simp only [List.length_map, length_bankNames, length_ctlrNames]

theorem getD_coreNames (temp : UnitName → τ) {i k : ℕ} (hi : i < 4) (hk : k < 10) :
    (coreNames.map temp).getD (i * 10 + k) 0 =
      (coreUnits.map fun u => temp (.core u i)).getD k 0 := by
  rw [List.getD_eq_getElem?_getD, List.getD_eq_getElem?_getD, coreNames, List.map_flatMap,
    Blocks.getElem?_flatMap_range (m := 10) (fun _ => rfl) hi hk, List.map_map]
  rfl

theorem getD_ctlrNames (temp : UnitName → τ) (hv : v < 32) :
    (ctlrNames.map temp).getD v 0 = temp (.dramCtlr v) := by
  rw [List.getD_eq_getElem?_getD, ctlrNames, List.map_map, List.getElem?_map,
    List.getElem?_range hv]
  rfl

theorem getD_bankNames (temp : UnitName → τ) (hv : v < 32) (hb : b < 8) :
    (bankNames.map temp).getD (b * 32 + v) 0 = temp (.dram v b) := by
  rw [List.getD_eq_getElem?_getD, bankNames, List.map_flatMap,
    Blocks.getElem?_flatMap_range (m := 32) (fun _ => by simp) hb hv, List.map_map,
    List.getElem?_map, List.getElem?_range hv]
  rfl

/-- The column of the controller of a vault. -/
theorem getD_dramCtlr (temp : UnitName → τ) (hv : v < 32) :
    ((header false).map temp).getD (40 + v) 0 = temp (.dramCtlr v) := by
  rw [getD_header_false, if_neg (by omega), if_pos (by omega), Nat.add_sub_cancel_left,
    getD_ctlrNames temp hv]

/-- The column of a bank. -/
theorem getD_dram (temp : UnitName → τ) (hv : v < 32) (hb : b < 8) :
    ((header false).map temp).getD (72 + (b * 32 + v)) 0 = temp (.dram v b) := by
  rw [getD_header_false, if_neg (by omega), if_neg (by omega), Nat.sub_sub,
    Nat.add_sub_cancel_left, getD_bankNames temp hv hb]

/-- If the temperatures in the reverse order repeat after 72 units, then they are those in the
normal order. -/
theorem map_header_eq
    (h : ∀ i < 256, ((header true).map temp).getD (i + 72) 0 = ((header true).map temp).getD i 0) :
    (header true).map temp = (header false).map temp := by
  apply Blocks.ext_getD 0
  · rw [List.length_map, List.length_map, length_header, length_header]
  · intro i hi
    rw [List.length_map, length_header] at hi
    rw [getD_header_false]
    have hshift := Blocks.apply_add_mul (h := (((header true).map temp).getD · 0)) h (i := i)
    -- the position is one of a core, of a vault or of a bank
    by_cases h40 : i < 40
    · have h288 : ((header true).map temp).getD (i + 288) 0 = ((header true).map temp).getD i 0 :=
        hshift 4 (by omega)
      rw [getD_header_true temp (i + 288), if_neg (by omega), if_neg (by omega), Nat.sub_sub,
        Nat.add_sub_cancel] at h288
      rw [if_pos h40, h288]
    · rw [if_neg h40]
      by_cases h72 : i - 40 < 32
      · have h216 : ((header true).map temp).getD (i + 216) 0 = ((header true).map temp).getD i 0 :=
          hshift 3 (by omega)
        rw [getD_header_true temp (i + 216), if_neg (by omega), if_pos (by omega),
          show i + 216 - 256 = i - 40 by omega] at h216
        rw [if_pos h72, h216]
      · obtain ⟨j, rfl⟩ := Nat.exists_eq_add_of_le (show 72 ≤ i by omega)
        rw [if_neg h72, Nat.add_comm 72 j, h j (by omega), getD_header_true, if_pos (by omega)]
        congr 1

end Positions

/-! ## Temperatures and their readers -/

section Temperatures

variable {τ : Type} [Field τ] [LinearOrder τ] {temp : UnitName → τ} {unitTemp : List τ}

/-- The readers attribute the temperatures in `unitTemp` to the units as `temp` has them. -/
def ReadsRight (unitTemp : List τ) (temp : UnitName → τ) : Prop :=
  let r := callHotSpot unitTemp
  (∀ i < 4, r.coreAvgTemp i = (coreUnits.map fun u => temp (.core u i)).sum / 10 ∧
    r.coreMaxTemp i = (coreUnits.map fun u => temp (.core u i)).foldl max 0) ∧
  (∀ v < 32, getDramCntlrTemp unitTemp v = temp (.dramCtlr v)) ∧
  (∀ v < 32, ∀ b < 8, getDramBankTemp unitTemp v b = temp (.dram v b)) ∧
  r.updates = (List.range 8).flatMap fun b => (List.range 32).map fun v =>
    (v, b, temp (.dram v b), temp (.dramCtlr v))

/-- The indices below `n` that are read as core `i`, and those that are read as banks. -/
def coreIndices (i n : ℕ) : List ℕ := (List.range n).filter fun k => k < 40 ∧ k / 10 = i

def bankIndices (n : ℕ) : List ℕ := (List.range n).filter fun k => 72 ≤ k

theorem coreIndices_succ (i n : ℕ) :
    coreIndices i (n + 1) = coreIndices i n ++ if n < 40 ∧ n / 10 = i then [n] else [] := by
  rw [coreIndices, List.range_succ, List.filter_append, ← coreIndices, List.filter_singleton]
  simp

theorem bankIndices_succ (n : ℕ) :
    bankIndices (n + 1) = bankIndices n ++ if 72 ≤ n then [n] else [] := by
  rw [bankIndices, List.range_succ, List.filter_append, ← bankIndices, List.filter_singleton]
  simp

/-- What the loop of `callHotSpot` has gathered from the units below `n`. -/
structure Gathered (unitTemp : List τ) (n : ℕ) (r : Readings τ) : Prop where
  coreAvgTemp : ∀ i, r.coreAvgTemp i = ((coreIndices i n).map (unitTemp.getD · 0)).sum
  coreMaxTemp : ∀ i, r.coreMaxTemp i = ((coreIndices i n).map (unitTemp.getD · 0)).foldl max 0
  maxBankTemp : r.maxBankTemp = ((bankIndices n).map (unitTemp.getD · 0)).foldl max 0
  updates : r.updates = (bankIndices n).map fun k =>
    ((k - 72) % 32, (k - 72) / 32, unitTemp.getD k 0, unitTemp.getD (40 + (k - 72) % 32) 0)

section ReadUnit

variable {r : Readings τ} {n : ℕ}

/-- What a column adds to the average of a core. -/
theorem readUnit_coreAvgTemp (i : ℕ) :
    (readUnit unitTemp r n).coreAvgTemp i =
      if n < 40 ∧ n / 10 = i then r.coreAvgTemp i + unitTemp.getD n 0 else r.coreAvgTemp i := by
  by_cases hi : n / 10 = i
  · subst hi
    by_cases hn : n < 40 <;> by_cases hb : 72 ≤ n <;> simp [readUnit, hn, hb]
  · by_cases hn : n < 40 <;> by_cases hb : 72 ≤ n <;>
      simp [readUnit, hn, hb, hi, Function.update_of_ne (Ne.symm hi)]

/-- What a column does to the maximum of a core. -/
theorem readUnit_coreMaxTemp (i : ℕ) :
    (readUnit unitTemp r n).coreMaxTemp i =
      if n < 40 ∧ n / 10 = i then max (r.coreMaxTemp i) (unitTemp.getD n 0)
      else r.coreMaxTemp i := by
  rw [max_def_lt]
  by_cases hi : n / 10 = i
  · subst hi
    by_cases hn : n < 40 <;> by_cases hb : 72 ≤ n <;> simp [readUnit, hn, hb]
  · by_cases hn : n < 40 <;> by_cases hb : 72 ≤ n <;>
      simp [readUnit, hn, hb, hi, Function.update_of_ne (Ne.symm hi)]

/-- What a column does to the maximum of the banks. -/
theorem readUnit_maxBankTemp :
    (readUnit unitTemp r n).maxBankTemp =
      if 72 ≤ n then max r.maxBankTemp (unitTemp.getD n 0) else r.maxBankTemp := by
  rw [max_def_lt]
  by_cases hn : n < 40 <;> by_cases hb : 72 ≤ n <;> simp [readUnit, hn, hb]

/-- The temperatures that a column hands on to the remapping. -/
theorem readUnit_updates :
    (readUnit unitTemp r n).updates =
      r.updates ++ if 72 ≤ n then
        [((n - 72) % 32, (n - 72) / 32, unitTemp.getD n 0, unitTemp.getD (40 + (n - 72) % 32) 0)]
      else [] := by
  by_cases hn : n < 40 <;> by_cases hb : 72 ≤ n <;> simp [readUnit, hn, hb]

end ReadUnit

/-- One more unit: its temperature goes to the core or to the bank of its index. -/
theorem Gathered.readUnit {r : Readings τ} {n : ℕ} (h : Gathered unitTemp n r) :
    Gathered unitTemp (n + 1) (readUnit unitTemp r n) := by
  constructor
  · intro i
    rw [readUnit_coreAvgTemp, h.coreAvgTemp, coreIndices_succ, List.map_append, List.sum_append]
    split <;> simp
  · intro i
    rw [readUnit_coreMaxTemp, h.coreMaxTemp, coreIndices_succ, List.map_append, List.foldl_append]
    split <;> rfl
  · rw [readUnit_maxBankTemp, h.maxBankTemp, bankIndices_succ, List.map_append, List.foldl_append]
    split <;> rfl
  · rw [readUnit_updates, h.updates, bankIndices_succ, List.map_append]
    split <;> rfl

/-- What `callHotSpot` makes of any temperatures. -/
theorem callHotSpot_spec (unitTemp : List τ) :
    let n := unitTemp.length
    let r := callHotSpot unitTemp
    (∀ i, r.coreAvgTemp i = ((coreIndices i n).map (unitTemp.getD · 0)).sum / 10) ∧
    (∀ i, r.coreMaxTemp i = ((coreIndices i n).map (unitTemp.getD · 0)).foldl max 0) ∧
    r.maxBankTemp = ((bankIndices n).map (unitTemp.getD · 0)).foldl max 0 ∧
    r.updates = (bankIndices n).map fun k =>
      ((k - 72) % 32, (k - 72) / 32, unitTemp.getD k 0, unitTemp.getD (40 + (k - 72) % 32) 0) := by
  intro n r
  have hloop : Gathered unitTemp n ((List.range n).foldl (StatsManager.readUnit unitTemp)
      ⟨fun _ => 0, fun _ => 0, 0, []⟩) :=
    foldl_range_invariant (P := Gathered unitTemp) ⟨fun _ => rfl, fun _ => rfl, rfl, rfl⟩
      (fun _ _ _ h => h.readUnit) n le_rfl
  exact ⟨fun i => congrArg (· / 10) (hloop.coreAvgTemp i), hloop.coreMaxTemp, hloop.maxBankTemp,
    hloop.updates⟩

/-- The columns of a core. -/
theorem coreIndices_header {i : ℕ} (hi : i < 4) :
    coreIndices i 328 = (List.range 10).map (i * 10 + ·) := by
  interval_cases i <;> decide

/-- The columns of the banks. -/
theorem bankIndices_add (n : ℕ) : bankIndices (72 + n) = (List.range n).map (72 + ·) := by
  induction n with
  | zero => decide
  | succ n ih =>
    rw [← Nat.add_assoc, bankIndices_succ, ih, if_pos (Nat.le_add_right 72 n), List.range_succ,
      List.map_append]
    rfl

omit [LinearOrder τ] in
/-- The temperatures of the units of a core. -/
theorem map_getD_coreIndices (temp : UnitName → τ) {i : ℕ} (hi : i < 4) :
    (coreIndices i 328).map (((header false).map temp).getD · 0) =
      coreUnits.map fun u => temp (.core u i) := by
  rw [coreIndices_header hi, List.map_map]
  refine Blocks.ext_getD 0 rfl fun k hk => ?_
  rw [List.length_map, List.length_range] at hk
  rw [← getD_coreNames temp hi hk, List.getD_eq_getElem?_getD, List.getElem?_map,
    List.getElem?_range hk]
  show ((header false).map temp).getD (i * 10 + k) 0 = _
  rw [getD_header_false, if_pos (by omega)]

/-- In the normal floorplan every temperature is attributed to its unit. -/
theorem readsRight_false (temp : UnitName → τ) : ReadsRight ((header false).map temp) temp := by
  obtain ⟨havg, hmax, -, hupdates⟩ := callHotSpot_spec ((header false).map temp)
  rw [List.length_map, length_header] at havg hmax hupdates
  refine ⟨fun i hi => ⟨?_, ?_⟩, fun v hv => getD_dramCtlr temp hv, fun v hv b hb => ?_, ?_⟩
  · rw [havg, map_getD_coreIndices temp hi]
  · rw [hmax, map_getD_coreIndices temp hi]
  · rw [getDramBankTemp, Nat.add_assoc]
    exact getD_dram temp hv hb
  · rw [hupdates, bankIndices_add 256, List.map_map, Blocks.map_range_mul _ 8 32]
    refine List.flatMap_congr fun b hb => List.map_congr_left fun v hv => ?_
    rw [List.mem_range] at hb hv
    rw [Function.comp_apply, Nat.add_sub_cancel_left, getD_dram temp hv hb,
      show (b * 32 + v) % 32 = v by omega, show (b * 32 + v) / 32 = b by omega,
      getD_dramCtlr temp hv]

/-- In the reverse floorplan the readers are right only if the temperatures repeat. -/
theorem readsRight_true_iff (temp : UnitName → τ) :
    ReadsRight ((header true).map temp) temp ↔
      ∀ i < 256, ((header true).map temp).getD (i + 72) 0 = ((header true).map temp).getD i 0 := by
  constructor
  · rintro ⟨-, -, hbank, -⟩ i hi
    -- position `i` is that of bank `i / 32` of vault `i % 32`
    have hv : i % 32 < 32 := Nat.mod_lt i (by omega)
    have hb : i / 32 < 8 := by omega
    calc ((header true).map temp).getD (i + 72) 0
        = getDramBankTemp ((header true).map temp) (i % 32) (i / 32) := by
          rw [getDramBankTemp]
          congr 1
          omega
      _ = temp (.dram (i % 32) (i / 32)) := hbank _ hv _ hb
      _ = (bankNames.map temp).getD (i / 32 * 32 + i % 32) 0 := (getD_bankNames temp hv hb).symm
      _ = ((header true).map temp).getD i 0 := by
          rw [getD_header_true, if_pos hi, Nat.div_add_mod']
  · intro h
    rw [map_header_eq h]
    exact readsRight_false temp

end Temperatures

/-! ## Round trip -/

/-- **Round trip.** Powers and temperatures go with their units in exactly these cases. In the
normal floorplan no row is written, or the power of every instruction cache changes as that of its
instruction scheduler. In the reverse floorplan every bank had the power of its controller, and the
temperatures repeat after 72 units. -/
theorem hotspot_roundtrip_iff {π τ : Type} [CommRing π] [Field τ] [LinearOrder τ]
    (reverseFlp : Bool) (ptNum : ℤ) (new : Powers π) (s : StatsManager π) (temp : UnitName → τ) :
    RowsRight reverseFlp ptNum new s ∧ ReadsRight ((header reverseFlp).map temp) temp ↔
      if reverseFlp then
        (∀ v < 32, ∀ b < 8, s.power.bank v b = s.power.vault v) ∧
        ∀ i < 256, ((header reverseFlp).map temp).getD (i + 72) 0 =
          ((header reverseFlp).map temp).getD i 0
      else
        ptNum < 0 ∨ ∀ i < 4, s.power.core .l1i i +
          (new.core .inssch i - s.power.core .inssch i) = new.core .l1i i := by
  cases reverseFlp with
  | true => exact and_congr rowsRight_true_iff (readsRight_true_iff temp)
  | false => exact (and_iff_left (readsRight_false temp)).trans rowsRight_false_iff

/-- Rows that do not go with their header, with powers that were 0 and are 1 for the instruction
caches or were 1 for the controllers only, and temperatures that are not read as those of their
units, with one bank hotter than all other units. -/
theorem not_hotspot_roundtrip :
    ¬RowsRight false 1 ⟨fun u _ => if u = .l1i then 1 else 0, fun _ => 0, fun _ _ => 0⟩
        (⟨⟨fun _ _ => 0, fun _ => 0, fun _ _ => 0⟩, fun _ _ => 0⟩ : StatsManager ℚ) ∧
    ¬RowsRight true 1 ⟨fun _ _ => 0, fun _ => 0, fun _ _ => 0⟩
        (⟨⟨fun _ _ => 0, fun _ => 1, fun _ _ => 0⟩, fun _ _ => 0⟩ : StatsManager ℚ) ∧
    ¬ReadsRight ((header true).map fun u => if u = .dram 0 0 then (350 : ℚ) else 300)
        fun u => if u = .dram 0 0 then 350 else 300 := by
  -- a ramp from another power, a vault that differs from its bank, and a hot bank
  refine ⟨fun h => ?_, fun h => ?_, fun h => ?_⟩
  · have hl1i := (rowsRight_false_iff.mp h).resolve_left (by decide) 0 (by decide)
    simp at hl1i
  · have hvault := rowsRight_true_iff.mp h 0 (by decide) 0 (by decide)
    simp at hvault
  · obtain ⟨-, -, hbank, -⟩ := h
    have hdram := hbank 0 (by decide) 0 (by decide)
    rw [getDramBankTemp, getD_header_true, if_pos (by decide),
      getD_bankNames _ (v := 8) (b := 2) (by decide) (by decide)] at hdram
    simp at hdram

end StatsManager

end StackedDram
