import Mathlib.Algebra.Order.Ring.Rat
import Mathlib.Tactic.NormNum
import StackedDram.Balancing.RemapTables

/-!
# The choice of a bank or vault to swap with

`balanceBanks` of `bank_remap.cc` is to swap a hot bank with the coolest bank that has not been
swapped lately (`IsCoolest`). The scan compares the temperature of the hot bank itself in every
round, so it stops at the first bank of which the changed bit is clear (`scanBanks_eq`), and
`balanceBanks_iff` says when that is the coolest one. The number 100 stands for no target, although
it may be a bank.

Whatever they choose, `balanceBanks` and `balanceVaults` of `vault_remap.cc` swap under the guard
that keeps the tables involutions, so in every run no two logical banks share a physical one
(`VaultRemappingStructure.bijOn_translate_run`). Temperatures are exact.
-/

namespace StackedDram

namespace BankRemappingStructure

/-- One round of the loop of `balanceBanks`, with `min_temp` and `target`. The number of accesses
that the code adds up as well is not used. -/
def scanBank (S : BankRemappingStructure) (temp : ℕ → ℚ) (idx : ℕ) (best : ℚ × ℕ) (i : ℕ) :
    ℚ × ℕ :=
  -- `getBankIdx(idx, &valid)`: the bank that `idx` uses, and not the one of entry `i`
  let phyBank := (S.arr idx).ridx
  let bankTemp := temp phyBank
  let bank := S.arr i
  if bank.changed then best
  else if best.1 > bankTemp then (bankTemp, bank.ridx)
  else best

/-- `target` after the loop of `balanceBanks`. -/
def scanBanks (S : BankRemappingStructure) (temp : ℕ → ℚ) (idx : ℕ) : ℕ :=
  ((List.range S.nBanks).foldl (S.scanBank temp idx) (999, 100)).2

/-- `BankRemappingStructure::balanceBanks`, where `temp` is `getDramBankTemp` of the vault. -/
def balanceBanks (S : BankRemappingStructure) (temp : ℕ → ℚ) (idx : ℕ) : BankRemappingStructure :=
  let origRemap := (S.arr idx).ridx
  let target := S.scanBanks temp idx
  if target ≠ origRemap ∧ target ≠ 100 then S.swap idx target else S

/-! ## What the scan is for -/

/-- The entry `i` has not been swapped lately. -/
def IsFree (S : BankRemappingStructure) (i : ℕ) : Prop := i < S.nBanks ∧ (S.arr i).changed = false

/-- The physical bank `p` is a coolest one among those of the free entries. -/
structure IsCoolest (S : BankRemappingStructure) (temp : ℕ → ℚ) (p : ℕ) : Prop where
  free : ∃ i, S.IsFree i ∧ (S.arr i).ridx = p
  le : ∀ i, S.IsFree i → temp p ≤ temp (S.arr i).ridx

/-- The table in which `idx` uses the physical bank `p`: as it is, or after a swap. -/
def giving (S : BankRemappingStructure) (idx p : ℕ) : BankRemappingStructure :=
  if p = (S.arr idx).ridx then S else S.swap idx p

/-- `S'` is the table `S` after `idx` has been given a coolest free bank, if there is one. -/
def IsBalanced (S S' : BankRemappingStructure) (temp : ℕ → ℚ) (idx : ℕ) : Prop :=
  ((∀ i, ¬ S.IsFree i) ∧ S' = S) ∨ ∃ p, S.IsCoolest temp p ∧ S' = S.giving idx p

/-- The first free entry. -/
def firstFree (S : BankRemappingStructure) : Option ℕ :=
  (List.range S.nBanks).find? fun i => !(S.arr i).changed

section Scan

variable {S : BankRemappingStructure} {temp : ℕ → ℚ} {idx i : ℕ}

theorem isFree_of_firstFree (h : S.firstFree = some i) : S.IsFree i :=
  ⟨List.mem_range.mp (List.mem_of_find?_eq_some h), by simpa using List.find?_some h⟩

theorem not_isFree_of_firstFree (h : S.firstFree = none) (i : ℕ) : ¬ S.IsFree i := fun hi => by
  simpa [hi.2] using List.find?_eq_none.mp h i (List.mem_range.mpr hi.1)

/-- The scan stops at the first free entry: the temperature it compares is the same in every
round. -/
theorem scanBanks_eq (htemp : temp (S.arr idx).ridx < 999) :
    S.scanBanks temp idx = (S.firstFree.map fun i => (S.arr i).ridx).getD 100 := by
  have hloop : ∀ k, (List.range k).foldl (S.scanBank temp idx) (999, 100) =
      (((List.range k).find? fun i => !(S.arr i).changed).map fun i =>
        (temp (S.arr idx).ridx, (S.arr i).ridx)).getD (999, 100) := by
    intro k
    induction k with
    | zero => rfl
    | succ k ih =>
      -- once an entry is taken its temperature is the minimum, and no later one is below it
      rw [List.range_succ, List.foldl_append, ih, List.find?_append, List.foldl_cons,
        List.foldl_nil, scanBank]
      cases hfound : (List.range k).find? fun i => !(S.arr i).changed with
      | none => cases hk : (S.arr k).changed <;> simp [hk, htemp]
      | some j => simp
  rw [scanBanks, hloop, firstFree]
  cases (List.range S.nBanks).find? fun i => !(S.arr i).changed <;> rfl

end Scan

/-! ## What the call does -/

section Balance

variable {S : BankRemappingStructure} {temp : ℕ → ℚ} {idx p q : ℕ}

/-- Every call of `swap` copies data. -/
theorem copyTimes_swap_ne (S : BankRemappingStructure) (src des : ℕ) :
    (S.swap src des).copyTimes ≠ S.copyTimes := by
  have hmov : (swapEntries S.arr src des).2 ≠ 0 := by
    simp only [swapEntries]
    split_ifs <;> simp_all
  exact fun heq => hmov (by simpa [swap] using heq)

/-- Swaps of `idx` with different banks differ. -/
theorem eq_of_swap_eq_swap (hinv : Set.InvolutiveOn (fun i => (S.arr i).ridx) (Set.Iio S.nBanks))
    (hp : p < S.nBanks) (hq : q < S.nBanks) (hpr : p ≠ (S.arr idx).ridx)
    (hqr : q ≠ (S.arr idx).ridx) (h : S.swap idx p = S.swap idx q) : p = q := by
  by_contra hpq
  wlog hpi : p ≠ idx generalizing p q
  · exact this hq hp hqr hpr h.symm (Ne.symm hpq) fun hqi => hpq ((not_not.mp hpi).trans hqi.symm)
  -- after the swap with `p`, entry `p` points to `idx`; after the one with `q` it does not
  have hentry : RemapEntry.ridx ((swapEntries S.arr idx p).1 p) =
      RemapEntry.ridx ((swapEntries S.arr idx q).1 p) :=
    congrArg (fun T : BankRemappingStructure => (T.arr p).ridx) h
  have hback : (S.arr p).ridx ≠ idx := fun heq => hpr (hinv.eq_of_apply_eq hp heq)
  rw [ridx_swapEntries, if_pos rfl, ridx_swapEntries, if_neg hpq] at hentry
  split_ifs at hentry with h₁ h₂
  · exact hpi hentry.symm
  · exact hpi hentry.symm
  · exact hback hentry.symm

/-- Which bank `idx` has been given can be seen from the table. -/
theorem eq_of_giving_eq (hinv : Set.InvolutiveOn (fun i => (S.arr i).ridx) (Set.Iio S.nBanks))
    (hp : p < S.nBanks) (hq : q < S.nBanks)
    (h : S.giving idx p = S.giving idx q) : p = q := by
  unfold giving at h
  split_ifs at h with hpr hqr hqr
  · exact hpr.trans hqr.symm
  · exact absurd (congrArg copyTimes h) (S.copyTimes_swap_ne idx q).symm
  · exact absurd (congrArg copyTimes h) (S.copyTimes_swap_ne idx p)
  · exact eq_of_swap_eq_swap hinv hp hq hpr hqr h

/-- The bank that `balanceBanks` gives to `idx` when `t` is the first free one: none but its own if
that is number 100. -/
def targetOf (S : BankRemappingStructure) (idx t : ℕ) : ℕ := if t = 100 then (S.arr idx).ridx else t

/-- The call swaps with the first free bank. -/
theorem balanceBanks_eq (htemp : temp (S.arr idx).ridx < 999) :
    S.balanceBanks temp idx =
      (S.firstFree.map fun i => S.giving idx (S.targetOf idx (S.arr i).ridx)).getD S := by
  rw [balanceBanks, scanBanks_eq htemp]
  cases S.firstFree with
  | none => simp
  | some i =>
    simp only [Option.map_some, Option.getD_some, giving, targetOf]
    split_ifs <;> simp_all

/-- `balanceBanks` gives `idx` a coolest free bank if and only if the bank that it takes for the
first free entry is one. -/
theorem balanceBanks_iff (S : BankRemappingStructure) (temp : ℕ → ℚ) (idx : ℕ)
    (hinv : Set.InvolutiveOn (fun i => (S.arr i).ridx) (Set.Iio S.nBanks))
    (htemp : ∀ p < S.nBanks, temp p < 999) (hidx : idx < S.nBanks) :
    S.IsBalanced (S.balanceBanks temp idx) temp idx ↔
      ∀ i, S.firstFree = some i → S.IsCoolest temp (S.targetOf idx (S.arr i).ridx) := by
  have hridx : (S.arr idx).ridx < S.nBanks := hinv.mem hidx
  rw [balanceBanks_eq (htemp _ hridx)]
  cases hfirst : S.firstFree with
  | none => simp [IsBalanced, not_isFree_of_firstFree hfirst]
  | some i =>
    have hfree := isFree_of_firstFree hfirst
    have htarget : S.targetOf idx (S.arr i).ridx < S.nBanks := by
      unfold targetOf
      split
      · exact hridx
      · exact hinv.mem hfree.1
    simp only [Option.map_some, Option.getD_some, Option.some.injEq, forall_eq']
    constructor
    · rintro (⟨hnone, -⟩ | ⟨p, hp, heq⟩)
      · exact absurd hfree (hnone i)
      · -- the call reveals its target, so that is the coolest bank
        obtain ⟨j, hj, rfl⟩ := hp.free
        rwa [eq_of_giving_eq hinv htarget (hinv.mem hj.1) heq]
    · exact fun hcoolest => Or.inr ⟨_, hcoolest, rfl⟩

/-- The identity table, of which bank 0 is the coolest. Bank 1 is swapped with it. -/
theorem balanceBanks_iff_identity :
    (new 8).IsBalanced ((new 8).balanceBanks (fun p => p) 1) (fun p => p) 1 ∧
      (((new 8).balanceBanks (fun p => p) 1).arr 1).ridx = 0 := by
  have htemp : ∀ p < (new 8).nBanks, (p : ℚ) < 999 := by
    intro p hp
    have hp8 : (p : ℚ) < 8 := by exact_mod_cast hp
    exact hp8.trans (by norm_num)
  constructor
  · refine (balanceBanks_iff (new 8) (fun p => p) 1 Set.InvolutiveOn.identity htemp
      (by decide)).mpr ?_
    rintro i hi
    obtain rfl : 0 = i := Option.some.inj hi
    refine ⟨⟨0, ⟨by decide, rfl⟩, rfl⟩, fun i _ => ?_⟩
    have hzero : (new 8).targetOf 1 ((new 8).arr 0).ridx = 0 := rfl
    simp only [hzero, Nat.cast_zero]
    exact Nat.cast_nonneg _
  · rw [balanceBanks_eq (htemp 1 (by decide))]
    rfl

/-- Bank 3 is the coolest, and bank 0 keeps its place. -/
theorem not_isBalanced :
    ¬ (new 8).IsBalanced ((new 8).balanceBanks (fun p => if p = 3 then 40 else 80) 0)
      (fun p => if p = 3 then 40 else 80) 0 := by
  -- the scan stops at bank 0, which is the hot bank itself
  have hsame : (new 8).balanceBanks (fun p => if p = 3 then 40 else 80) 0 = new 8 := by
    have hscan : (new 8).scanBanks (fun p => if p = 3 then 40 else 80) 0 = 0 := by
      rw [scanBanks_eq (by norm_num [new, BankRemappingEntry.new])]
      rfl
    rw [balanceBanks, hscan]
    exact if_neg fun h => h.1 rfl
  rw [hsame]
  rintro (⟨hnone, -⟩ | ⟨p, hp, heq⟩)
  · exact hnone 0 ⟨by decide, rfl⟩
  · -- the coolest bank is 3, and giving it to bank 0 copies
    have hle := hp.le 3 ⟨by decide, rfl⟩
    have hp3 : p = 3 := by
      by_contra hne
      norm_num [hne, new, BankRemappingEntry.new] at hle
    subst hp3
    exact absurd (congrArg copyTimes heq) ((new 8).copyTimes_swap_ne 0 3).symm

end Balance

/-! ## Runs of the table of a vault -/

/-- The calls that change the table of the banks of a vault. -/
inductive Call where
  | balanceBanks (temp : ℕ → ℚ) (idx : ℕ)
  | accessOnce (idx : ℕ) (type : AccessType) (pktTime : ℕ)
  | clearAllAccess
  | setValid (idx : ℕ)
  | setInvalid (idx : ℕ)

/-- The bank for which `balanceBanks` is called exists. -/
def Call.InRange (n : ℕ) : Call → Prop
  | balanceBanks _ idx => idx < n
  | _ => True

/-- One call. -/
def perform (S : BankRemappingStructure) : Call → BankRemappingStructure
  | .balanceBanks temp idx => S.balanceBanks temp idx
  | .accessOnce idx type pktTime => S.accessOnce idx type pktTime
  | .clearAllAccess => S.clearAllAccess
  | .setValid idx => S.setValid idx
  | .setInvalid idx => S.setInvalid idx

/-- A table of `n` banks that is an involution. -/
structure WellFormed (S : BankRemappingStructure) (n : ℕ) : Prop where
  nBanks_eq : S.nBanks = n
  table : IsRemapTable S.arr n

theorem wellFormed_new (n : ℕ) : (new n).WellFormed n where
  nBanks_eq := rfl
  table := ⟨fun _ => rfl, Set.InvolutiveOn.identity, fun _ _ => iff_of_true rfl rfl⟩

section WellFormed

variable {S : BankRemappingStructure} {n idx : ℕ}

/-- The scan ends at the bank of some entry, or without a target. -/
theorem scanBanks_cases (S : BankRemappingStructure) (temp : ℕ → ℚ) (idx : ℕ) :
    S.scanBanks temp idx = 100 ∨ ∃ i < S.nBanks, S.scanBanks temp idx = (S.arr i).ridx := by
  refine foldl_range_invariant
    (P := fun _ (best : ℚ × ℕ) => best.2 = 100 ∨ ∃ i < S.nBanks, best.2 = (S.arr i).ridx)
    (Or.inl rfl) ?_ S.nBanks le_rfl
  intro k best hk hbest
  unfold scanBank
  dsimp only
  split_ifs
  · exact hbest
  · exact Or.inr ⟨k, hk, rfl⟩
  · exact hbest

/-- `balanceBanks` swaps under the guard. -/
theorem WellFormed.balanceBanks_cases (h : S.WellFormed n) (temp : ℕ → ℚ) (hidx : idx < n) :
    S.balanceBanks temp idx = S ∨
      ∃ t, MaySwap S.arr n idx t ∧ S.balanceBanks temp idx = S.swap idx t := by
  unfold balanceBanks
  dsimp only
  split
  case isTrue ht =>
    obtain hnone | ⟨i, hi, heq⟩ := S.scanBanks_cases temp idx
    · exact absurd hnone ht.2
    · refine Or.inr ⟨_, ⟨hidx, ?_, ht.1⟩, rfl⟩
      rw [heq]
      exact h.table.involutive.mem (h.nBanks_eq ▸ hi)
  case isFalse => exact Or.inl rfl

theorem WellFormed.swap (h : S.WellFormed n) {src des : ℕ} (hs : MaySwap S.arr n src des) :
    (S.swap src des).WellFormed n := ⟨h.nBanks_eq, h.table.swap hs⟩

theorem WellFormed.setValid (h : S.WellFormed n) (i : ℕ) : (S.setValid i).WellFormed n where
  nBanks_eq := h.nBanks_eq
  table := h.table.modifyEntry i (f := fun e => e.setValidBit true)
    (fun _ => rfl) (fun _ => rfl) fun _ => rfl

theorem WellFormed.setInvalid (h : S.WellFormed n) (i : ℕ) : (S.setInvalid i).WellFormed n where
  nBanks_eq := h.nBanks_eq
  table := h.table.modifyEntry i (f := fun e => e.setValidBit false)
    (fun _ => rfl) (fun _ => rfl) fun _ => rfl

theorem WellFormed.accessOnce (h : S.WellFormed n) (i : ℕ) (type : AccessType) (pktTime : ℕ) :
    (S.accessOnce i type pktTime).WellFormed n where
  nBanks_eq := h.nBanks_eq
  table := h.table.modifyEntry i (f := fun e => e.accessOnce type)
    (fun _ => rfl) (fun _ => rfl) fun _ => rfl

theorem WellFormed.clearAllAccess (h : S.WellFormed n) : S.clearAllAccess.WellFormed n where
  nBanks_eq := h.nBanks_eq
  table := h.table.modifyAll S.nBanks (f := fun e => e.clearAccess.setChangedBit false)
    (fun _ => rfl) (fun _ => rfl) fun _ => rfl

/-- Every call keeps the table an involution. -/
theorem WellFormed.perform (h : S.WellFormed n) {call : Call} (hcall : call.InRange n) :
    (S.perform call).WellFormed n := by
  cases call with
  | balanceBanks temp idx =>
    obtain heq | ⟨t, ht, heq⟩ := h.balanceBanks_cases temp hcall
    · rwa [BankRemappingStructure.perform, heq]
    · rw [BankRemappingStructure.perform, heq]
      exact h.swap ht
  | accessOnce idx type pktTime => exact h.accessOnce idx type pktTime
  | clearAllAccess => exact h.clearAllAccess
  | setValid idx => exact h.setValid idx
  | setInvalid idx => exact h.setInvalid idx

end WellFormed
end BankRemappingStructure

/-! ## Vaults -/

namespace VaultRemappingEntry

/-- `VaultRemappingEntry::balanceBanks`. -/
def balanceBanks (e : VaultRemappingEntry) (temp : ℕ → ℚ) (bankIdx : ℕ) : VaultRemappingEntry :=
  { e with bremapTable := e.bremapTable.balanceBanks temp bankIdx }

/-- The table of the eight banks of the vault is an involution. -/
structure WellFormed (e : VaultRemappingEntry) : Prop where
  bankNum_eq : e.bankNum = 8
  banks : e.bremapTable.WellFormed 8

variable {e : VaultRemappingEntry}

theorem wellFormed_new (idx : ℕ) : (new idx).WellFormed :=
  ⟨rfl, BankRemappingStructure.wellFormed_new 8⟩

theorem WellFormed.setValidBit (h : e.WellFormed) (valid : Bool) :
    (e.setValidBit valid).WellFormed where
  bankNum_eq := h.bankNum_eq
  banks := by
    refine foldl_range_invariant (P := fun _ (S : BankRemappingStructure) => S.WellFormed 8)
      h.banks ?_ e.bankNum le_rfl
    intro k S _ hS
    cases valid
    · exact hS.setInvalid k
    · exact hS.setValid k

theorem WellFormed.remapTo (h : e.WellFormed) (idx : ℕ) : (e.remapTo idx).WellFormed :=
  WellFormed.setValidBit
    (e := { e with ridx := idx, stats := .zero, orig := decide (idx = e.idx) }) ⟨h.1, h.2⟩ false

theorem WellFormed.clearAccess (h : e.WellFormed) : e.clearAccess.WellFormed :=
  ⟨h.bankNum_eq, h.banks.clearAllAccess⟩

end VaultRemappingEntry

namespace VaultRemappingStructure

/-- One round of the loop of `balanceVaults`, with `min_cnt` and `target`. The temperature that the
code keeps as well is only printed. -/
def scanVault (S : VaultRemappingStructure) (temp : ℕ → ℚ) (origTemp : ℚ) (best : ℕ × ℕ) (i : ℕ) :
    ℕ × ℕ :=
  let vault := S.arr i
  if vault.changed then best
  else if vault.nAccess.toNat < best.1 ∧ temp vault.ridx < origTemp + 5 then
    (vault.nAccess.toNat, vault.ridx)
  else best

/-- `target` after the loop of `balanceVaults`. -/
def scanVaults (S : VaultRemappingStructure) (temp : ℕ → ℚ) (idx : ℕ) : ℕ :=
  ((List.range S.nVaults).foldl (S.scanVault temp (temp (S.arr idx).ridx)) (9999999, 100)).2

/-- `VaultRemappingStructure::enableAllVault`. -/
def enableAllVault (S : VaultRemappingStructure) : VaultRemappingStructure :=
  { S with arr := fun i => if i < S.nVaults then (S.arr i).setChangedBit false else S.arr i }

/-- `VaultRemappingStructure::balanceVaults`, where `temp` is `getDramCntlrTemp`. -/
def balanceVaults (S : VaultRemappingStructure) (temp : ℕ → ℚ) (idx : ℕ) :
    VaultRemappingStructure :=
  let origRemap := (S.arr idx).ridx
  let target := S.scanVaults temp idx
  if target ≠ origRemap ∧ target ≠ 100 then S.swap idx target
  else if target = 100 then S.enableAllVault
  else S

/-- `VaultRemappingStructure::clearAllAccess`. -/
def clearAllAccess (S : VaultRemappingStructure) : VaultRemappingStructure :=
  { S with
    arr := fun i => if i < S.nVaults then (S.arr i).clearAccess else S.arr i
    lastTime := S.currentTime }

/-- `VaultRemappingStructure::accessOnce`. -/
def accessOnce (S : VaultRemappingStructure) (vaultIdx bankIdx : ℕ) (type : AccessType)
    (pktTime : ℕ) : VaultRemappingStructure :=
  { S with
    currentTime := max S.currentTime pktTime
    arr := modifyEntry S.arr vaultIdx fun e => e.accessOnce bankIdx type pktTime }

/-- The calls that change the table of the vaults or the tables of their banks. -/
inductive Call where
  | balanceVaults (temp : ℕ → ℚ) (idx : ℕ)
  /-- `balanceBanks` of a vault; `temp` is `getDramBankTemp` of the physical vault. -/
  | balanceBanks (temp : ℕ → ℚ) (idx bankIdx : ℕ)
  | accessOnce (vaultIdx bankIdx : ℕ) (type : AccessType) (pktTime : ℕ)
  | clearAllAccess
  | enableAllVault
  | setValidBit (idx : ℕ) (valid : Bool)

/-- The vault and the bank for which a balancing function is called exist. -/
def Call.InRange (n : ℕ) : Call → Prop
  | balanceVaults _ idx => idx < n
  | balanceBanks _ idx bankIdx => idx < n ∧ bankIdx < 8
  | _ => True

/-- One call. -/
def perform (S : VaultRemappingStructure) : Call → VaultRemappingStructure
  | .balanceVaults temp idx => S.balanceVaults temp idx
  | .balanceBanks temp idx bankIdx =>
    { S with arr := modifyEntry S.arr idx fun e => e.balanceBanks temp bankIdx }
  | .accessOnce vaultIdx bankIdx type pktTime => S.accessOnce vaultIdx bankIdx type pktTime
  | .clearAllAccess => S.clearAllAccess
  | .enableAllVault => S.enableAllVault
  | .setValidBit idx valid => { S with arr := modifyEntry S.arr idx fun e => e.setValidBit valid }

/-- The tables of `n` vaults under any calls. -/
def callMachine (n : ℕ) : Machine VaultRemappingStructure Call where
  init := new n
  step := perform

/-- The table of `n` vaults is an involution, and so are those of the banks of every vault. -/
structure WellFormed (S : VaultRemappingStructure) (n : ℕ) : Prop where
  nVaults_eq : S.nVaults = n
  table : IsRemapTable S.arr n
  vault : ∀ i, (S.arr i).WellFormed

section WellFormed

variable {S : VaultRemappingStructure} {n idx : ℕ}

theorem wellFormed_new (n : ℕ) : (new n).WellFormed n where
  nVaults_eq := rfl
  table := ⟨fun _ => rfl, Set.InvolutiveOn.identity, fun _ _ => iff_of_true rfl rfl⟩
  vault := VaultRemappingEntry.wellFormed_new

/-- The scan ends at some vault, or without a target. -/
theorem scanVaults_cases (S : VaultRemappingStructure) (temp : ℕ → ℚ) (idx : ℕ) :
    S.scanVaults temp idx = 100 ∨ ∃ i < S.nVaults, S.scanVaults temp idx = (S.arr i).ridx := by
  refine foldl_range_invariant
    (P := fun _ (best : ℕ × ℕ) => best.2 = 100 ∨ ∃ i < S.nVaults, best.2 = (S.arr i).ridx)
    (Or.inl rfl) ?_ S.nVaults le_rfl
  intro k best hk hbest
  unfold scanVault
  dsimp only
  split_ifs
  · exact hbest
  · exact Or.inr ⟨k, hk, rfl⟩
  · exact hbest

/-- `balanceVaults` swaps under the guard. -/
theorem WellFormed.maySwap (h : S.WellFormed n) (temp : ℕ → ℚ) (hidx : idx < n)
    (hne : S.scanVaults temp idx ≠ (S.arr idx).ridx) (h100 : S.scanVaults temp idx ≠ 100) :
    MaySwap S.arr n idx (S.scanVaults temp idx) := by
  obtain hnone | ⟨i, hi, heq⟩ := S.scanVaults_cases temp idx
  · exact absurd hnone h100
  · refine ⟨hidx, ?_, hne⟩
    rw [heq]
    exact h.table.involutive.mem (h.nVaults_eq ▸ hi)

theorem WellFormed.swap (h : S.WellFormed n) {src des : ℕ} (hs : MaySwap S.arr n src des) :
    (S.swap src des).WellFormed n where
  nVaults_eq := h.nVaults_eq
  table := h.table.swap hs
  vault := forall_swapEntries S.arr src des
    (fun _ he => VaultRemappingEntry.WellFormed.clearAccess ⟨he.1, he.2⟩)
    (fun _ i he => he.remapTo i) h.vault

/-- A write to one vault that leaves its number and its banks in order. -/
theorem WellFormed.modifyEntry (h : S.WellFormed n) (i : ℕ)
    {f : VaultRemappingEntry → VaultRemappingEntry} (hidx : ∀ e, (f e).idx = e.idx)
    (hridx : ∀ e, (f e).ridx = e.ridx) (horig : ∀ e, (f e).orig = e.orig)
    (hbanks : ∀ e, e.WellFormed → (f e).WellFormed) (time : ℕ) :
    ({ S with arr := StackedDram.modifyEntry S.arr i f, currentTime := time } :
      VaultRemappingStructure).WellFormed n where
  nVaults_eq := h.nVaults_eq
  table := h.table.modifyEntry i hidx hridx horig
  vault j := by
    rw [apply_modifyEntry _ _ _ VaultRemappingEntry.WellFormed]
    split
    · exact hbanks _ (h.vault i)
    · exact h.vault j

theorem WellFormed.clearAllAccess (h : S.WellFormed n) : S.clearAllAccess.WellFormed n where
  nVaults_eq := h.nVaults_eq
  table := h.table.modifyAll S.nVaults (f := fun e => e.clearAccess)
    (fun _ => rfl) (fun _ => rfl) fun _ => rfl
  vault i := by
    unfold VaultRemappingStructure.clearAllAccess
    dsimp only
    split
    · exact (h.vault i).clearAccess
    · exact h.vault i

theorem WellFormed.enableAllVault (h : S.WellFormed n) : S.enableAllVault.WellFormed n where
  nVaults_eq := h.nVaults_eq
  table := h.table.modifyAll S.nVaults (f := fun e => e.setChangedBit false)
    (fun _ => rfl) (fun _ => rfl) fun _ => rfl
  vault i := by
    unfold VaultRemappingStructure.enableAllVault
    dsimp only
    split
    · exact ⟨(h.vault i).bankNum_eq, (h.vault i).banks⟩
    · exact h.vault i

/-- Every call keeps all tables involutions. -/
theorem WellFormed.perform (h : S.WellFormed n) {call : Call} (hcall : call.InRange n) :
    (S.perform call).WellFormed n := by
  cases call with
  | balanceVaults temp idx =>
    rw [VaultRemappingStructure.perform, balanceVaults]
    -- a swap under the guard, a fresh start, or nothing
    split_ifs with ht
    · exact h.swap (h.maySwap temp hcall ht.1 ht.2)
    · exact h.enableAllVault
    · exact h
  | balanceBanks temp idx bankIdx =>
    have hbank : (BankRemappingStructure.Call.balanceBanks temp bankIdx).InRange 8 := hcall.2
    exact h.modifyEntry idx (f := fun e => e.balanceBanks temp bankIdx) (fun _ => rfl)
      (fun _ => rfl) (fun _ => rfl)
      (fun e he => ⟨he.bankNum_eq, he.banks.perform hbank⟩) S.currentTime
  | accessOnce vaultIdx bankIdx type pktTime =>
    exact h.modifyEntry vaultIdx (f := fun e => e.accessOnce bankIdx type pktTime) (fun _ => rfl)
      (fun _ => rfl) (fun _ => rfl)
      (fun e he => ⟨he.bankNum_eq, he.banks.accessOnce bankIdx type pktTime⟩) _
  | clearAllAccess => exact h.clearAllAccess
  | enableAllVault => exact h.enableAllVault
  | setValidBit idx valid =>
    exact h.modifyEntry idx (f := fun e => e.setValidBit valid) (fun _ => rfl) (fun _ => rfl)
      (fun _ => rfl) (fun e he => he.setValidBit valid) S.currentTime

/-- In every run all tables are involutions. -/
theorem wellFormed_run {calls : List Call} (hcalls : ∀ call ∈ calls, call.InRange n) :
    ((callMachine n).run calls).WellFormed n := by
  induction calls using List.reverseRecOn with
  | nil => exact wellFormed_new n
  | append_singleton calls call ih =>
    rw [Machine.run_concat]
    exact (ih fun c hc => hcalls c (List.mem_append_left _ hc)).perform
      (hcalls call (by simp))

/-- The physical vault and bank of a logical vault and bank: `getVaultIdx` and `getBankIdx`. -/
def translate (S : VaultRemappingStructure) (a : ℕ × ℕ) : ℕ × ℕ :=
  ((S.arr a.1).ridx, ((S.arr a.1).bremapTable.arr a.2).ridx)

/-- In every run each physical bank of each vault belongs to exactly one logical bank of one
vault. -/
theorem bijOn_translate_run {calls : List Call} (hcalls : ∀ call ∈ calls, call.InRange n) :
    Set.BijOn ((callMachine n).run calls).translate (Set.Iio n ×ˢ Set.Iio 8)
      (Set.Iio n ×ˢ Set.Iio 8) := by
  have hwf := wellFormed_run hcalls
  have hvaults := hwf.table.involutive
  refine ⟨fun a ha => ?_, fun a ha b hb hab => ?_, fun p hp => ?_⟩
  · exact ⟨hvaults.mem ha.1, (hwf.vault a.1).banks.table.involutive.mem ha.2⟩
  · obtain ⟨h₁, h₂⟩ := Prod.mk.inj hab
    have hvault : a.1 = b.1 := hvaults.bijOn.injOn ha.1 hb.1 h₁
    rw [← hvault] at h₂
    exact Prod.ext hvault ((hwf.vault a.1).banks.table.involutive.bijOn.injOn ha.2 hb.2 h₂)
  · obtain ⟨v, hv, hveq⟩ := hvaults.bijOn.surjOn hp.1
    obtain ⟨b, hb, hbeq⟩ := (hwf.vault v).banks.table.involutive.bijOn.surjOn hp.2
    exact ⟨(v, b), ⟨hv, hb⟩, Prod.ext hveq hbeq⟩

end WellFormed
end VaultRemappingStructure
end StackedDram
