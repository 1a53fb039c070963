import Mathlib.Algebra.BigOperators.Ring.Finset
import Mathlib.Data.BitVec
import StackedDram.Library.RunningTotals
import StackedDram.PerfModel
import StackedDram.Ramulator.Scheduling

/-!
# Run totals

`StackedDramPerfUnison::updateStats` reads the counters of the controllers into the statistics of
the vaults and banks, and adds these statistics to the totals of the run. The counters are
cumulative themselves and are never reset, so every snapshot counts again what the earlier ones have
counted: the totals are the current counters throughout a run if and only if all snapshots but the
last find nothing to count (`totals_current_iff`).
-/

namespace StackedDram

/-! ## The counters -/

/-- What `updateStats` reads of the controller of a vault and of its channel. -/
structure ControllerCounters extends Ramulator.RowStats where
  /-- `read_row_hits[0]`. -/
  readRowHits : ℕ
  /-- `write_row_hits[0]`. -/
  writeRowHits : ℕ
  reqQueueLengthSum : ℕ
  /-- `channel->serving_reads`. -/
  servingReads : ℕ
  /-- `channel->serving_writes`. -/
  servingWrites : ℕ
  /-- `channel->children[rank]->active_cycles`. -/
  activeCycles : ℕ → ℕ

/-- The sizes the loops run over, and what converts cycles into times. -/
structure StatsConfig extends TimeUnits where
  /-- `n_vaults`. -/
  vaults : ℕ
  /-- `vault->n_banks`. -/
  banks : ℕ
  /-- `memory->addr_bits[2]`. -/
  bankBits : ℕ
  /-- `(uint64_t)tCK`, in nanoseconds. -/
  tCK : ℕ
  /-- A time multiplied by the ratio of the reads to the reads and writes, in double precision. -/
  readPart : ℕ → ℕ → ℕ → ℕ
  /-- A time multiplied by the ratio of the writes to the reads and writes, in single precision. -/
  writePart : ℕ → ℕ → ℕ → ℕ

/-- The counters of the controllers of all vaults, `memory->ctrls`. -/
structure Snapshot where
  ctrls : ℕ → ControllerCounters

namespace Snapshot

variable (P : StatsConfig) (k : Snapshot)

def getServingRdReq (vault : ℕ) : ℕ := (k.ctrls vault).servingReads

def getServingWrReq (vault : ℕ) : ℕ := (k.ctrls vault).servingWrites

def getVaultRowHits (vault : ℕ) : ℕ := (k.ctrls vault).readRowHits + (k.ctrls vault).writeRowHits

def getVaultQueLenSum (vault : ℕ) : ℕ := (k.ctrls vault).reqQueueLengthSum

def getBankRowHits (vault bank : ℕ) : ℕ :=
  (k.ctrls vault).bankReadRowHits bank + (k.ctrls vault).bankWriteRowHits bank

def getBankRowConflicts (vault bank : ℕ) : ℕ :=
  (k.ctrls vault).bankReadRowConflicts bank + (k.ctrls vault).bankWriteRowConflicts bank

def getBankRowMisses (vault bank : ℕ) : ℕ :=
  (k.ctrls vault).bankReadRowMisses bank + (k.ctrls vault).bankWriteRowMisses bank

def getBankReads (vault bank : ℕ) : BitVec 32 := BitVec.ofNat 32 ((k.ctrls vault).bankReads bank)

def getBankWrites (vault bank : ℕ) : BitVec 32 := BitVec.ofNat 32 ((k.ctrls vault).bankWrites bank)

/-- The time the rank of a bank has been active, for all of its banks. -/
def getBankActTime (vault bank : ℕ) : ℕ :=
  (k.ctrls vault).activeCycles (bank >>> P.bankBits) * P.tCK

def getBankRdTime (vault bank : ℕ) : ℕ :=
  -- the active time of the rank, in the ratio of the reads of the bank to its reads and writes
  let reads := (k.ctrls vault).bankReads bank
  let writes := (k.ctrls vault).bankWrites bank
  let actT := k.getBankActTime P vault bank
  if reads + writes ≠ 0 then P.readPart reads writes actT else 0

def getBankWrTime (vault bank : ℕ) : ℕ :=
  let reads := (k.ctrls vault).bankReads bank
  let writes := (k.ctrls vault).bankWrites bank
  let actT := k.getBankActTime P vault bank
  if reads + writes ≠ 0 then P.writePart reads writes actT else 0

end Snapshot

/-! ### Cumulative counters -/

/-- No counter of a controller goes down. -/
structure ControllerCounters.Grows (c c' : ControllerCounters) : Prop where
  bankReads : c.bankReads ≤ c'.bankReads
  bankWrites : c.bankWrites ≤ c'.bankWrites
  bankReadRowHits : c.bankReadRowHits ≤ c'.bankReadRowHits
  bankReadRowMisses : c.bankReadRowMisses ≤ c'.bankReadRowMisses
  bankReadRowConflicts : c.bankReadRowConflicts ≤ c'.bankReadRowConflicts
  bankWriteRowHits : c.bankWriteRowHits ≤ c'.bankWriteRowHits
  bankWriteRowMisses : c.bankWriteRowMisses ≤ c'.bankWriteRowMisses
  bankWriteRowConflicts : c.bankWriteRowConflicts ≤ c'.bankWriteRowConflicts
  rowHits : c.rowHits ≤ c'.rowHits
  rowMisses : c.rowMisses ≤ c'.rowMisses
  rowConflicts : c.rowConflicts ≤ c'.rowConflicts
  readRowHits : c.readRowHits ≤ c'.readRowHits
  writeRowHits : c.writeRowHits ≤ c'.writeRowHits
  reqQueueLengthSum : c.reqQueueLengthSum ≤ c'.reqQueueLengthSum
  servingReads : c.servingReads ≤ c'.servingReads
  servingWrites : c.servingWrites ≤ c'.servingWrites
  activeCycles : c.activeCycles ≤ c'.activeCycles

theorem ControllerCounters.Grows.refl (c : ControllerCounters) : c.Grows c := by
  constructor <;> exact le_rfl

/-- No counter of any controller goes down. -/
def Snapshot.Grows (k k' : Snapshot) : Prop := ∀ i, (k.ctrls i).Grows (k'.ctrls i)

/-! ## The statistics -/

/-- `VaultStatEntry`. -/
structure VaultStatEntry where
  reads : BitVec 32
  writes : BitVec 32
  rowHits : BitVec 32
  queLen : BitVec 32

/-- `BankStatEntry`, with times in femtoseconds. -/
structure BankStatEntry where
  tACT : ℕ
  tPRE : ℕ
  tRD : ℕ
  tWR : ℕ
  reads : BitVec 32
  writes : BitVec 32
  rowHits : BitVec 32
  rowConflicts : BitVec 32
  rowMisses : BitVec 32

/-- The statistics of `StackedDramPerfUnison`, with those of its vaults and their banks. -/
structure DramStatistics where
  vaultStats : ℕ → VaultStatEntry
  bankStats : ℕ × ℕ → BankStatEntry
  totDramReads : BitVec 32
  totDramWrites : BitVec 32
  totRowHits : BitVec 32
  totActT : ℕ
  totPreT : ℕ
  totRdT : ℕ
  totWrT : ℕ

namespace DramStatistics

/-- The statistics before the first snapshot. -/
def zero : DramStatistics where
  vaultStats _ := ⟨0#32, 0#32, 0#32, 0#32⟩
  bankStats _ := ⟨0, 0, 0, 0, 0#32, 0#32, 0#32, 0#32, 0#32⟩
  totDramReads := 0#32
  totDramWrites := 0#32
  totRowHits := 0#32
  totActT := 0
  totPreT := 0
  totRdT := 0
  totWrT := 0

/-- The body of the loop over the banks of vault `i`. -/
def updateBank (P : StatsConfig) (k : Snapshot) (i : ℕ) (s : DramStatistics) (j : ℕ) :
    DramStatistics :=
  let stats : BankStatEntry :=
    { tACT := P.ofNS (k.getBankActTime P i j)
      tPRE := P.ofNS (k.getBankActTime P i j)
      tRD := P.ofNS (k.getBankRdTime P i j)
      tWR := P.ofNS (k.getBankWrTime P i j)
      reads := k.getBankReads i j
      writes := k.getBankWrites i j
      rowHits := BitVec.ofNat 32 (k.getBankRowHits i j)
      rowConflicts := BitVec.ofNat 32 (k.getBankRowConflicts i j)
      rowMisses := BitVec.ofNat 32 (k.getBankRowMisses i j) }
  { s with
    bankStats := Function.update s.bankStats (i, j) stats
    totActT := s.totActT + stats.tACT
    totPreT := s.totPreT + stats.tPRE
    totRdT := s.totRdT + stats.tRD
    totWrT := s.totWrT + stats.tWR }

/-- The statistics of vault `i`, which come before those of its banks. -/
def countVault (k : Snapshot) (s : DramStatistics) (i : ℕ) : DramStatistics :=
  let stats : VaultStatEntry :=
    { reads := BitVec.ofNat 32 (k.getServingRdReq i)
      writes := BitVec.ofNat 32 (k.getServingWrReq i)
      rowHits := BitVec.ofNat 32 (k.getVaultRowHits i)
      queLen := BitVec.ofNat 32 (k.getVaultQueLenSum i) }
  { s with
    vaultStats := Function.update s.vaultStats i stats
    totDramReads := s.totDramReads + stats.reads
    totDramWrites := s.totDramWrites + stats.writes
    totRowHits := s.totRowHits + stats.rowHits }

/-- The body of the loop over the vaults. -/
def updateVault (P : StatsConfig) (k : Snapshot) (s : DramStatistics) (i : ℕ) : DramStatistics :=
  (List.range P.banks).foldl (updateBank P k i) (countVault k s i)

/-- `StackedDramPerfUnison::updateStats`, when the counters are `k`. -/
def updateStats (P : StatsConfig) (s : DramStatistics) (k : Snapshot) : DramStatistics :=
  (List.range P.vaults).foldl (updateVault P k) s

/-- The statistics as a machine. Its actions are the calls of `updateStats`, each with the counters
it finds. -/
def machine (P : StatsConfig) : Machine DramStatistics Snapshot where
  init := zero
  step := updateStats P

end DramStatistics

/-! ## What one snapshot adds -/

namespace Snapshot

variable (P : StatsConfig) (k : Snapshot)

/-- The served reads of all vaults. -/
def reads : ℕ := ∑ i ∈ Finset.range P.vaults, (k.ctrls i).servingReads

/-- The served writes of all vaults. -/
def writes : ℕ := ∑ i ∈ Finset.range P.vaults, (k.ctrls i).servingWrites

/-- The row hits of all vaults. -/
def rowHits : ℕ :=
  ∑ i ∈ Finset.range P.vaults, ((k.ctrls i).readRowHits + (k.ctrls i).writeRowHits)

/-- A time summed over all banks. -/
def overBanks (time : ℕ → ℕ → ℕ) : ℕ :=
  ∑ i ∈ Finset.range P.vaults, ∑ j ∈ Finset.range P.banks, P.ofNS (time i j)

/-- The active time of all banks. -/
def actTime : ℕ := overBanks P (k.getBankActTime P)

/-- The time all banks have spent reading. -/
def rdTime : ℕ := overBanks P (k.getBankRdTime P)

/-- The time all banks have spent writing. -/
def wrTime : ℕ := overBanks P (k.getBankWrTime P)

end Snapshot

namespace DramStatistics

variable {P : StatsConfig} {k : Snapshot}

/-- What a snapshot adds to a total, from what its loops add to it. -/
theorem measure_updateStats {G : Type*} [AddCommMonoid G] {measure : DramStatistics → G}
    {vaultShare : ℕ → G} {bankShare : ℕ → ℕ → G}
    (hvault : ∀ s i, measure (countVault k s i) = measure s + vaultShare i)
    (hbank : ∀ i s j, measure (updateBank P k i s j) = measure s + bankShare i j)
    (s : DramStatistics) :
    measure (updateStats P s k) = measure s +
      ∑ i ∈ Finset.range P.vaults, (vaultShare i + ∑ j ∈ Finset.range P.banks, bankShare i j) := by
  refine RunningTotals.measure_foldl_range (fun s i => ?_) s P.vaults
  -- the loop over the banks starts after the vault has been counted
  rw [updateVault, RunningTotals.measure_foldl_range (hbank i), hvault, add_assoc]

theorem ofNat_sum (w : ℕ) (s : Finset ℕ) (share : ℕ → ℕ) :
    BitVec.ofNat w (∑ i ∈ s, share i) = ∑ i ∈ s, BitVec.ofNat w (share i) := by
  simp only [← BitVec.natCast_eq_ofNat]
  exact Nat.cast_sum s share

/-- A count of the vaults. -/
theorem toNat_updateStats {count : DramStatistics → BitVec 32} {share : ℕ → ℕ}
    (hvault : ∀ s i, count (countVault k s i) = count s + BitVec.ofNat 32 (share i))
    (hbank : ∀ i s j, count (updateBank P k i s j) = count s) (s : DramStatistics) :
    (count (updateStats P s k)).toNat =
      ((count s).toNat + ∑ i ∈ Finset.range P.vaults, share i) % 2 ^ 32 := by
  have hsum : count (updateStats P s k) =
      count s + BitVec.ofNat 32 (∑ i ∈ Finset.range P.vaults, share i) := by
    rw [measure_updateStats hvault fun i s j => (hbank i s j).trans (add_zero _).symm, ofNat_sum]
    simp only [Finset.sum_const_zero, add_zero]
  rw [hsum, BitVec.toNat_add, BitVec.toNat_ofNat, Nat.add_mod_mod]

/-- A time of the banks. -/
theorem time_updateStats {total : DramStatistics → ℕ} {time : ℕ → ℕ → ℕ}
    (hvault : ∀ s i, total (countVault k s i) = total s)
    (hbank : ∀ i s j, total (updateBank P k i s j) = total s + P.ofNS (time i j))
    (s : DramStatistics) :
    total (updateStats P s k) = total s + Snapshot.overBanks P time := by
  rw [measure_updateStats (fun s i => (hvault s i).trans (Nat.add_zero _).symm) hbank]
  simp only [Nat.zero_add, Snapshot.overBanks]

/-! ## Runs -/

/-- The totals are the sums of the counters `k`. -/
structure Current (P : StatsConfig) (s : DramStatistics) (k : Snapshot) : Prop where
  reads : s.totDramReads.toNat = k.reads P
  writes : s.totDramWrites.toNat = k.writes P
  rowHits : s.totRowHits.toNat = k.rowHits P
  actTime : s.totActT = k.actTime P
  rdTime : s.totRdT = k.rdTime P
  wrTime : s.totWrT = k.wrTime P

/-- After every snapshot the totals are the sums of the counters it has found. -/
def AlwaysCurrent (P : StatsConfig) (ks : List Snapshot) : Prop :=
  ∀ before k after, ks = before ++ k :: after → ((machine P).run (before ++ [k])).Current P k

end DramStatistics

namespace Snapshot

/-- The counts of all vaults fit into the words of the totals. -/
structure Fits (P : StatsConfig) (k : Snapshot) : Prop where
  reads : k.reads P < 2 ^ 32
  writes : k.writes P < 2 ^ 32
  rowHits : k.rowHits P < 2 ^ 32

/-- There is nothing to count. -/
structure Nothing (P : StatsConfig) (k : Snapshot) : Prop where
  reads : k.reads P = 0
  writes : k.writes P = 0
  rowHits : k.rowHits P = 0
  actTime : k.actTime P = 0
  rdTime : k.rdTime P = 0
  wrTime : k.wrTime P = 0

end Snapshot

namespace DramStatistics

variable (P : StatsConfig)

/-- A count of a run is the current one throughout, if and only if the counts fit and all but the
last are zero. -/
theorem count_current_iff (count : DramStatistics → BitVec 32) (share : Snapshot → ℕ → ℕ)
    (hinit : count zero = 0#32)
    (hvault : ∀ k s i, count (countVault k s i) = count s + BitVec.ofNat 32 (share k i))
    (hbank : ∀ k i s j, count (updateBank P k i s j) = count s) (ks : List Snapshot) :
    (∀ before k after, ks = before ++ k :: after →
        (count ((machine P).run (before ++ [k]))).toNat =
          ∑ i ∈ Finset.range P.vaults, share k i) ↔
      (∀ k ∈ ks, ∑ i ∈ Finset.range P.vaults, share k i < 2 ^ 32) ∧
        ∀ before k k' after, ks = before ++ k :: k' :: after →
          ∑ i ∈ Finset.range P.vaults, share k i = 0 := by
  have hfit : ∀ n : ℕ, n < 2 ^ 32 ↔ n % 2 ^ 32 = n := fun n =>
    (Nat.mod_eq_iff_lt (by decide)).symm
  simp only [hfit]
  exact Machine.total_eq_last_iff (machine P) (fun s => (count s).toNat) _ _
    (congrArg BitVec.toNat hinit) (fun s k => toNat_updateStats (hvault k) (hbank k) s) ks

/-- A time of a run is the current one throughout, if and only if all but the last are zero. -/
theorem time_current_iff (total : DramStatistics → ℕ) (time : Snapshot → ℕ → ℕ → ℕ)
    (hinit : total zero = 0)
    (hvault : ∀ k s i, total (countVault k s i) = total s)
    (hbank : ∀ k i s j, total (updateBank P k i s j) = total s + P.ofNS (time k i j))
    (ks : List Snapshot) :
    (∀ before k after, ks = before ++ k :: after →
        total ((machine P).run (before ++ [k])) = Snapshot.overBanks P (time k)) ↔
      ∀ before k k' after, ks = before ++ k :: k' :: after →
        Snapshot.overBanks P (time k) = 0 := by
  have h := Machine.total_eq_last_iff (machine P) total (fun k => Snapshot.overBanks P (time k)) 0
    hinit (fun s k => by rw [Nat.mod_zero]; exact time_updateStats (hvault k) (hbank k) s) ks
  -- times do not wrap around
  simpa only [Nat.mod_zero, implies_true, true_and] using h

/-- For every sequence of snapshots: the totals are the sums of the current counters after each of
them, if and only if the counts fit and no snapshot follows one that finds something to count. -/
theorem totals_current_iff (ks : List Snapshot) :
    AlwaysCurrent P ks ↔
      (∀ k ∈ ks, k.Fits P) ∧
        ∀ before k k' after, ks = before ++ k :: k' :: after → k.Nothing P := by
  have hreads := count_current_iff P totDramReads Snapshot.getServingRdReq rfl (fun _ _ _ => rfl)
    (fun _ _ _ _ => rfl) ks
  have hwrites := count_current_iff P totDramWrites Snapshot.getServingWrReq rfl (fun _ _ _ => rfl)
    (fun _ _ _ _ => rfl) ks
  have hrowHits := count_current_iff P totRowHits Snapshot.getVaultRowHits rfl (fun _ _ _ => rfl)
    (fun _ _ _ _ => rfl) ks
  have hact := time_current_iff P totActT (Snapshot.getBankActTime P) rfl (fun _ _ _ => rfl)
    (fun _ _ _ _ => rfl) ks
  have hrd := time_current_iff P totRdT (Snapshot.getBankRdTime P) rfl (fun _ _ _ => rfl)
    (fun _ _ _ _ => rfl) ks
  have hwr := time_current_iff P totWrT (Snapshot.getBankWrTime P) rfl (fun _ _ _ => rfl)
    (fun _ _ _ _ => rfl) ks
  constructor
  · intro h
    -- each total gives its part of the condition
    obtain ⟨hreadsFit, hreads⟩ := hreads.1 fun before k after hks => (h before k after hks).reads
    obtain ⟨hwritesFit, hwrites⟩ :=
      hwrites.1 fun before k after hks => (h before k after hks).writes
    obtain ⟨hrowHitsFit, hrowHits⟩ :=
      hrowHits.1 fun before k after hks => (h before k after hks).rowHits
    have hact := hact.1 fun before k after hks => (h before k after hks).actTime
    have hrd := hrd.1 fun before k after hks => (h before k after hks).rdTime
    have hwr := hwr.1 fun before k after hks => (h before k after hks).wrTime
    refine ⟨fun k hk => ⟨hreadsFit k hk, hwritesFit k hk, hrowHitsFit k hk⟩, ?_⟩
    intro before k k' after hks
    exact ⟨hreads _ _ _ _ hks, hwrites _ _ _ _ hks, hrowHits _ _ _ _ hks, hact _ _ _ _ hks,
      hrd _ _ _ _ hks, hwr _ _ _ _ hks⟩
  · rintro ⟨hfits, hzero⟩ before k after hks
    exact
      { reads := hreads.2 ⟨fun k hk => (hfits k hk).reads,
          fun _ _ _ _ hks => (hzero _ _ _ _ hks).reads⟩ _ _ _ hks
        writes := hwrites.2 ⟨fun k hk => (hfits k hk).writes,
          fun _ _ _ _ hks => (hzero _ _ _ _ hks).writes⟩ _ _ _ hks
        rowHits := hrowHits.2 ⟨fun k hk => (hfits k hk).rowHits,
          fun _ _ _ _ hks => (hzero _ _ _ _ hks).rowHits⟩ _ _ _ hks
        actTime := hact.2 (fun _ _ _ _ hks => (hzero _ _ _ _ hks).actTime) _ _ _ hks
        rdTime := hrd.2 (fun _ _ _ _ hks => (hzero _ _ _ _ hks).rdTime) _ _ _ hks
        wrTime := hwr.2 (fun _ _ _ _ hks => (hzero _ _ _ _ hks).wrTime) _ _ _ hks }

end DramStatistics

/-- One vault with one bank, and ratios that are not rounded. -/
def StatsConfig.oneBank : StatsConfig where
  toTimeUnits := .femtoseconds
  vaults := 1
  banks := 1
  bankBits := 1
  tCK := 2
  readPart reads writes t := t * reads / (reads + writes)
  writePart reads writes t := t * writes / (reads + writes)

/-- The counters after a read of a closed bank. -/
def Snapshot.oneRead : Snapshot where
  ctrls _ :=
    { ((Ramulator.RowStats.zero.countFirst .read 0 false false).countCommand .read 0).countCommand
        .read 0 with
      readRowHits := 0
      writeRowHits := 0
      reqQueueLengthSum := 17
      servingReads := 1
      servingWrites := 0
      activeCycles := fun _ => 16 }

/-- Counters that never go down are counted twice by two snapshots. -/
theorem DramStatistics.not_alwaysCurrent :
    ¬ ∀ (P : StatsConfig) (ks : List Snapshot), ks.IsChain Snapshot.Grows → AlwaysCurrent P ks := by
  intro h
  have hgrows : Snapshot.oneRead.Grows .oneRead := fun i => ControllerCounters.Grows.refl _
  have htwice := h .oneBank [.oneRead, .oneRead] (List.isChain_pair.2 hgrows) [.oneRead] .oneRead []
    rfl
  exact absurd htwice.reads (by decide)

end StackedDram
