import StackedDram.Library.MisraGries
import StackedDram.Remapping.Manager

/-!
# Hot rows of a bank

`BankStat::accessRow` keeps the rows of a bank that are accessed most. While no counter can have
wrapped, its table is the Misra-Gries summary of the accesses (`accessRows_meaMap`), with the
guarantees of that summary (`accessRows_guarantee`).
-/

namespace StackedDram.BankStat

open MisraGries

variable {bank : BankStat} {k : ℕ} {rows : List ℕ}

/-- The count of a row, `0` if it is not in the table. -/
def hotCount (bank : BankStat) (rowId : ℕ) : ℕ := countIn bank.meaMap rowId

/-- The accesses of a list, one after the other. -/
def accessRows (bank : BankStat) (rows : List ℕ) : BankStat := rows.foldl accessRow bank

theorem accessRows_concat (bank : BankStat) (rows : List ℕ) (rowId : ℕ) :
    bank.accessRows (rows ++ [rowId]) = (bank.accessRows rows).accessRow rowId := by
  simp [accessRows]

@[simp]
theorem accessRow_nMigrateRow (bank : BankStat) (rowId : ℕ) :
    (bank.accessRow rowId).nMigrateRow = bank.nMigrateRow := by
  unfold accessRow
  split_ifs <;> rfl

@[simp]
theorem accessRows_nMigrateRow (bank : BankStat) (rows : List ℕ) :
    (bank.accessRows rows).nMigrateRow = bank.nMigrateRow := by
  induction rows using List.reverseRecOn with
  | nil => rfl
  | append_singleton rows rowId ih => rw [accessRows_concat, accessRow_nMigrateRow, ih]

/-- An access observes its row, as long as no counter is about to wrap. -/
theorem accessRow_meaMap {s : Summary ℕ k} (hk : bank.nMigrateRow = k)
    (hentries : bank.meaMap = s.entries) (hlt : ∀ e ∈ s.entries, e.2 + 1 < 2 ^ 32) (rowId : ℕ) :
    (bank.accessRow rowId).meaMap = (s.observe rowId).entries := by
  unfold accessRow Summary.observe
  rw [hentries, hk]
  by_cases hmem : rowId ∈ s.entries.map Prod.fst
  · rw [if_pos hmem, dif_pos hmem]
    refine List.map_congr_left fun e he => ?_
    rw [Nat.mod_eq_of_lt (hlt e he)]
  · rw [if_neg hmem, dif_neg hmem]
    by_cases hroom : s.entries.length < k
    · rw [if_pos hroom, dif_pos hroom]
      rfl
    · rw [if_neg hroom, dif_neg hroom]
      -- a stored count is positive, so taking one off does not wrap
      have hdec : s.entries.map (fun e => (e.1, (e.2 + (2 ^ 32 - 1)) % 2 ^ 32)) =
          s.entries.map fun e => (e.1, e.2 - 1) := by
        refine List.map_congr_left fun e he => ?_
        have hpos := s.pos e he
        have hmax := hlt e he
        rw [show e.2 + (2 ^ 32 - 1) = (e.2 - 1) + 2 ^ 32 by omega, Nat.add_mod_right,
          Nat.mod_eq_of_lt (by omega)]
      show List.filter _ (s.entries.map _) = _
      rw [hdec]
      rfl

/-- The table after fewer than `2 ^ 32` accesses is the summary of these. -/
theorem accessRows_meaMap (hempty : bank.meaMap = []) (hrows : rows.length < 2 ^ 32) :
    (bank.accessRows rows).meaMap = (Summary.ofStream bank.nMigrateRow rows).entries := by
  induction rows using List.reverseRecOn with
  | nil => exact hempty
  | append_singleton rows rowId ih =>
    rw [List.length_append, List.length_singleton] at hrows
    have hmap := ih (by omega)
    rw [accessRows_concat, Summary.ofStream_concat]
    refine accessRow_meaMap (accessRows_nMigrateRow bank rows) hmap (fun e he => ?_) rowId
    -- no row is counted more often than it was accessed
    have hcount : e.2 ≤ rows.count e.1 := by
      rw [← countIn_of_mem (Summary.nodup _) he]
      exact Summary.count_le _ rows e.1
    have hlength : rows.count e.1 ≤ rows.length := List.count_le_length
    omega

/-- The guarantee of the table of hot rows, for every capacity and every sequence of fewer than
`2 ^ 32` accesses. -/
theorem accessRows_guarantee (bank : BankStat) (hempty : bank.meaMap = []) (rows : List ℕ)
    (hrows : rows.length < 2 ^ 32) :
    let after := bank.accessRows rows
    after.meaMap.length ≤ bank.nMigrateRow ∧ (after.meaMap.map Prod.fst).Nodup ∧
      (∀ e ∈ after.meaMap, 1 ≤ e.2 ∧ e.2 = after.hotCount e.1) ∧
      (∀ row, after.hotCount row ≤ rows.count row) ∧
      (∀ row, rows.count row - after.hotCount row ≤ rows.length / (bank.nMigrateRow + 1)) ∧
      ∀ row, rows.length / (bank.nMigrateRow + 1) < rows.count row →
        row ∈ after.meaMap.map Prod.fst := by
  intro after
  -- the map of the bank is the summary of the rows that have been accessed
  have hmap : after.meaMap = (Summary.ofStream bank.nMigrateRow rows).entries :=
    accessRows_meaMap hempty hrows
  have hcount : ∀ row, after.hotCount row = (Summary.ofStream bank.nMigrateRow rows).count row :=
    fun row => congrArg (countIn · row) hmap
  simp only [hcount, hmap]
  exact ⟨Summary.length_le _, Summary.nodup _,
    fun e he => ⟨Summary.pos _ e he, (countIn_of_mem (Summary.nodup _) he).symm⟩,
    Summary.count_le _ rows, Summary.deficit_le _ rows, fun _ => Summary.mem_of_frequent⟩

/-- A bank that counts one row, accessed three times out of four. -/
theorem accessRows_guarantee_one :
    ({ new 0 with nMigrateRow := 1 }.accessRows [7, 7, 5, 7]).meaMap = [(7, 2)] ∧
      7 ∈ ({ new 0 with nMigrateRow := 1 }.accessRows [7, 7, 5, 7]).meaMap.map Prod.fst :=
  ⟨by decide, (accessRows_guarantee _ rfl [7, 7, 5, 7] (by decide)).2.2.2.2.2 7 (by decide)⟩

end StackedDram.BankStat
