import Mathlib.Algebra.BigOperators.Field
import Mathlib.Algebra.Order.BigOperators.Group.Finset
import StackedDram.Power.Interval

/-!
# The power of the vaults

`updatePower` meters the accesses to each vault as well, and shares the power of the memory
controller out among the vaults in the proportion of their accesses (`sum_vaultPower`).
-/

namespace StackedDram

/-- The loop over the vaults that started in `s` has visited the first `k` of them. -/
structure VaultPowers.Visited (c : PowerCall) (s s' : VaultPowers) (k : ℕ) : Prop where
  vR : ∀ i < k, s'.vR i = ((c.vaultStats i).reads.setWidth 64 - s.vaultReads i).setWidth 32
  vW : ∀ i < k, s'.vW i = ((c.vaultStats i).writes.setWidth 64 - s.vaultWrites i).setWidth 32
  vaultReads : ∀ i, s'.vaultReads i =
    if i < k then (c.vaultStats i).reads.setWidth 64 else s.vaultReads i
  vaultWrites : ∀ i, s'.vaultWrites i =
    if i < k then (c.vaultStats i).writes.setWidth 64 else s.vaultWrites i
  vaultAccess : ∀ i < k, s'.vaultAccess i = s'.vR i + s'.vW i
  totAccess : s'.totAccess = s.totAccess + ∑ i ∈ Finset.range k, s'.vaultAccess i

namespace VaultPowers

variable {c : PowerCall} {s s' : VaultPowers} {k : ℕ}

theorem Visited.updateVault (h : Visited c s s' k) : Visited c s (s'.updateVault c k) (k + 1) where
  -- vault `k` is visited now, and the others are as they were
  vR i hi := by
    rcases eq_or_ne i k with rfl | hne
    · simp [VaultPowers.updateVault, h.vaultReads]
    · simp [VaultPowers.updateVault, hne, h.vR i (by omega)]
  vW i hi := by
    rcases eq_or_ne i k with rfl | hne
    · simp [VaultPowers.updateVault, h.vaultWrites]
    · simp [VaultPowers.updateVault, hne, h.vW i (by omega)]
  vaultReads i := by
    rcases eq_or_ne i k with rfl | hne
    · simp [VaultPowers.updateVault]
    · have hlt : i < k + 1 ↔ i < k := by omega
      simp [VaultPowers.updateVault, hne, h.vaultReads, hlt]
  vaultWrites i := by
    rcases eq_or_ne i k with rfl | hne
    · simp [VaultPowers.updateVault]
    · have hlt : i < k + 1 ↔ i < k := by omega
      simp [VaultPowers.updateVault, hne, h.vaultWrites, hlt]
  vaultAccess i hi := by
    rcases eq_or_ne i k with rfl | hne
    · simp [VaultPowers.updateVault]
    · simp [VaultPowers.updateVault, hne, h.vaultAccess i (by omega)]
  totAccess := by
    have hsum : ∑ i ∈ Finset.range k, (s'.updateVault c k).vaultAccess i =
        ∑ i ∈ Finset.range k, s'.vaultAccess i :=
      Finset.sum_congr rfl fun i hi => by
        simp [VaultPowers.updateVault, (Finset.mem_range.mp hi).ne]
    rw [Finset.sum_range_succ, hsum, ← add_assoc, ← h.totAccess]
    simp [VaultPowers.updateVault]

theorem visited_foldl (c : PowerCall) (s : VaultPowers) (n : ℕ) :
    Visited c s ((List.range n).foldl (VaultPowers.updateVault c) s) n :=
  foldl_range_invariant (P := fun k s' => Visited c s s' k)
    ⟨by simp, by simp, by simp, by simp, by simp, by simp⟩ (fun _ _ _ h => h.updateVault) n le_rfl

/-- The loop that sets the powers of the vaults sets nothing else. -/
theorem foldl_setVaultPower (c : PowerCall) (s : VaultPowers) (n : ℕ) :
    (List.range n).foldl (setVaultPower c) s = { s with
      vaultPower := fun i =>
        if i < n then computeDramCntlrPower (s.vR i) (s.vW i) s.totAccess c.powerMc
        else s.vaultPower i } := by
  induction n with
  | zero => simp
  | succ n ih =>
    rw [List.range_succ, List.foldl_append, List.foldl_cons, List.foldl_nil, setVaultPower, ih]
    congr 1
    funext i
    rcases eq_or_ne i n with rfl | hne
    · simp
    · have hlt : i < n + 1 ↔ i < n := by omega
      simp [hne, hlt]

end VaultPowers

/-- The vaults share `power_mc` out among them, in the proportion of their accesses. -/
theorem sum_computeDramCntlrPower {n : ℕ} {reads writes : ℕ → BitVec 32} {totAccess : BitVec 32}
    (powerMc : ℚ) (htot : totAccess = ∑ i ∈ Finset.range n, (reads i + writes i))
    (hfit : ∑ i ∈ Finset.range n, (reads i + writes i).toNat < 2 ^ 32) (hne : totAccess ≠ 0) :
    ∑ i ∈ Finset.range n, computeDramCntlrPower (reads i) (writes i) totAccess powerMc =
      powerMc := by
  have htoNat : totAccess.toNat = ∑ i ∈ Finset.range n, (reads i + writes i).toNat := by
    have hofNat : totAccess =
        BitVec.ofNat 32 (∑ i ∈ Finset.range n, (reads i + writes i).toNat) := by
      rw [htot, DramStatistics.ofNat_sum]
      exact Finset.sum_congr rfl fun i _ => by rw [BitVec.ofNat_toNat, BitVec.setWidth_eq]
    rw [hofNat, BitVec.toNat_ofNat, Nat.mod_eq_of_lt hfit]
  have hpos : (0 : ℚ) < totAccess.toNat := by
    have hne' : totAccess.toNat ≠ 0 := fun h => hne (BitVec.eq_of_toNat_eq h)
    exact_mod_cast Nat.pos_of_ne_zero hne'
  -- no share is cut off
  have hshare : ∀ i ∈ Finset.range n, computeDramCntlrPower (reads i) (writes i) totAccess powerMc =
      powerMc * (((reads i + writes i).toNat : ℚ) / totAccess.toNat) := by
    intro i hi
    have hle : ((reads i + writes i).toNat : ℚ) ≤ totAccess.toNat := by
      rw [htoNat]
      exact_mod_cast Finset.single_le_sum (f := fun i => (reads i + writes i).toNat)
        (fun _ _ => Nat.zero_le _) hi
    have hone : ((reads i + writes i).toNat : ℚ) / totAccess.toNat ≤ 1 := (div_le_one hpos).mpr hle
    simp only [computeDramCntlrPower, hne, ne_eq, not_false_eq_true, if_true, not_lt.mpr hone,
      if_false]
  rw [Finset.sum_congr rfl hshare, ← Finset.mul_sum, ← Finset.sum_div, ← Nat.cast_sum, ← htoNat,
    div_self hpos.ne', mul_one]

namespace DramPowers

variable {P : PowerConfig} {c : PowerCall}

theorem vaults_foldl_updateVault (l : List ℕ) (s : DramPowers) :
    (l.foldl (updateVault P c) s).vaults = l.foldl (VaultPowers.updateVault c) s.vaults := by
  induction l generalizing s with
  | nil => rfl
  | cons i l ih => exact ih _

theorem vaults_updatePower (P : PowerConfig) (s : DramPowers) (c : PowerCall) :
    (s.updatePower P c).vaults = (List.range P.nVaults).foldl (VaultPowers.setVaultPower c)
      ((List.range P.nVaults).foldl (VaultPowers.updateVault c)
        { s.vaults with totAccess := 0#32 }) := by
  simp only [updatePower, vaults_foldl_updateVault]

/-- A call visits all vaults. -/
theorem visited_updatePower (P : PowerConfig) (s : DramPowers) (c : PowerCall) :
    VaultPowers.Visited c { s.vaults with totAccess := 0#32 } (s.updatePower P c).vaults
      P.nVaults := by
  have h := VaultPowers.visited_foldl c { s.vaults with totAccess := 0#32 } P.nVaults
  rw [vaults_updatePower, VaultPowers.foldl_setVaultPower]
  exact ⟨h.vR, h.vW, h.vaultReads, h.vaultWrites, h.vaultAccess, h.totAccess⟩

theorem vaultPower_updatePower {i : ℕ} (hi : i < P.nVaults) (s : DramPowers) (c : PowerCall) :
    (s.updatePower P c).vaults.vaultPower i =
      computeDramCntlrPower ((s.updatePower P c).vaults.vR i) ((s.updatePower P c).vaults.vW i)
        (s.updatePower P c).vaults.totAccess c.powerMc := by
  rw [vaults_updatePower, VaultPowers.foldl_setVaultPower]
  exact if_pos hi

/-- The lower half of a difference of 64 bits. -/
theorem setWidth_sub (x : BitVec 32) (y : BitVec 64) :
    (x.setWidth 64 - y).setWidth 32 = x - y.setWidth 32 := by
  bv_omega

/-- The reads of every vault are metered. -/
theorem isMeter_vaultReads (s : DramPowers) {i : ℕ} (hi : i < P.nVaults) :
    (powerMachine P s).IsMeter (fun s => (s.vaults.vaultReads i).setWidth 32)
      (fun s => s.vaults.vR i) (fun c => (c.vaultStats i).reads) where
  kept_step s c := by
    have h := (visited_updatePower P s c).vaultReads i
    rw [if_pos hi] at h
    exact (congrArg (BitVec.setWidth 32) h).trans (by simp)
  diff_step s c := ((visited_updatePower P s c).vR i hi).trans (setWidth_sub _ _)

/-- The writes of every vault are metered. -/
theorem isMeter_vaultWrites (s : DramPowers) {i : ℕ} (hi : i < P.nVaults) :
    (powerMachine P s).IsMeter (fun s => (s.vaults.vaultWrites i).setWidth 32)
      (fun s => s.vaults.vW i) (fun c => (c.vaultStats i).writes) where
  kept_step s c := by
    have h := (visited_updatePower P s c).vaultWrites i
    rw [if_pos hi] at h
    exact (congrArg (BitVec.setWidth 32) h).trans (by simp)
  diff_step s c := ((visited_updatePower P s c).vW i hi).trans (setWidth_sub _ _)

/-- Over a whole run no access to a vault is counted twice and none is lost. -/
theorem sum_vaultAccess (s : DramPowers) {i : ℕ} (hi : i < P.nVaults) (calls : List PowerCall) :
    (((powerMachine P s).statesFrom s calls).map fun s => s.vaults.vR i + s.vaults.vW i).sum =
      (((powerMachine P s).run calls).vaults.vaultReads i).setWidth 32 -
          (s.vaults.vaultReads i).setWidth 32 +
        ((((powerMachine P s).run calls).vaults.vaultWrites i).setWidth 32 -
          (s.vaults.vaultWrites i).setWidth 32) := by
  rw [List.sum_map_add, (isMeter_vaultReads s hi).sum_diff, (isMeter_vaultWrites s hi).sum_diff]
  rfl

/-- The powers of the vaults add up to `power_mc`, if there have been accesses and their number
fits into 32 bits. -/
theorem sum_vaultPower (s : DramPowers) (c : PowerCall)
    (hfit : ∑ i ∈ Finset.range P.nVaults, ((s.updatePower P c).vaults.vaultAccess i).toNat < 2 ^ 32)
    (hne : (s.updatePower P c).vaults.totAccess ≠ 0) :
    ∑ i ∈ Finset.range P.nVaults, (s.updatePower P c).vaults.vaultPower i = c.powerMc := by
  have hvisited := visited_updatePower P s c
  have haccess := fun i hi => hvisited.vaultAccess i (Finset.mem_range.mp hi)
  rw [Finset.sum_congr rfl fun i hi => vaultPower_updatePower (Finset.mem_range.mp hi) s c]
  refine sum_computeDramCntlrPower c.powerMc ?_ ?_ hne
  · rw [hvisited.totAccess, Finset.sum_congr rfl haccess]
    exact zero_add _
  · rwa [← Finset.sum_congr rfl fun i hi => congrArg BitVec.toNat (haccess i hi)]

end DramPowers

end StackedDram
