import Mathlib.Algebra.Order.BigOperators.Group.Finset
import StackedDram.Library.OpenRows

/-!
# Work on rows

Jobs that wait for accesses to rows. A job needs at most three commands: its bank is closed, its row
is opened, and the row is accessed. But a row that is closed for one job may have to be opened again
for another, so the commands that are left do not simply go down with each command.

They do if no row is closed while a job waits for it. `OpenRows.work` then bounds the number of
commands that are left (`work_open`, `work_close`, `work_access`).
-/

namespace OpenRows

variable {ι ρ : Type*} [DecidableEq ι] [DecidableEq ρ]

/-- How many commands it takes at most until a row that a job waits for is open in the bank. -/
def bankWork (s : OpenRows ι ρ) (jobs : List (ι × ρ)) (bank : ι) : ℕ :=
  match s bank with
  | none => 1
  | some o => if (bank, o.row) ∈ jobs then 0 else 2

/-- A bound on the number of commands until all jobs are done. -/
def work (s : OpenRows ι ρ) (jobs : List (ι × ρ)) (banks : Finset ι) : ℕ :=
  3 * jobs.length + ∑ bank ∈ banks, s.bankWork jobs bank

variable {s : OpenRows ι ρ} {jobs : List (ι × ρ)} {banks : Finset ι} {bank : ι} {row : ρ}
  {o : OpenRow ρ}

/-- Two commands are enough to have any row opened. -/
theorem bankWork_le (s : OpenRows ι ρ) (jobs : List (ι × ρ)) (bank : ι) :
    s.bankWork jobs bank ≤ 2 := by
  rw [bankWork]
  split
  · exact Nat.le_succ 1
  · split
    · exact Nat.zero_le 2
    · exact le_rfl

/-- A closed bank needs one of its rows opened. -/
theorem bankWork_of_none (h : s bank = none) : s.bankWork jobs bank = 1 := by
  rw [bankWork, h]

/-- A row that a job waits for may stay open. -/
theorem bankWork_of_mem (h : s bank = some o) (hmem : (bank, o.row) ∈ jobs) :
    s.bankWork jobs bank = 0 := by
  rw [bankWork, h]
  exact if_pos hmem

/-- Any other row has to be closed first. -/
theorem bankWork_of_notMem (h : s bank = some o) (hmem : (bank, o.row) ∉ jobs) :
    s.bankWork jobs bank = 2 := by
  rw [bankWork, h]
  exact if_neg hmem

/-- A bound on the bound. -/
theorem work_le (s : OpenRows ι ρ) (jobs : List (ι × ρ)) (banks : Finset ι) :
    s.work jobs banks ≤ 3 * jobs.length + 2 * banks.card := by
  have hsum : ∑ bank ∈ banks, s.bankWork jobs bank ≤ banks.card * 2 :=
    Finset.sum_le_card_nsmul _ _ _ fun bank _ => s.bankWork_le jobs bank
  rw [work]
  omega

/-- A command for a bank concerns no other bank. -/
theorem work_eq_of_forall_ne (hbank : bank ∈ banks) {s' : OpenRows ι ρ} {jobs' : List (ι × ρ)}
    (hother : ∀ b ≠ bank, s'.bankWork jobs' b = s.bankWork jobs b) :
    s'.work jobs' banks + 3 * jobs.length + s.bankWork jobs bank =
      s.work jobs banks + 3 * jobs'.length + s'.bankWork jobs' bank := by
  have hsum := Finset.add_sum_erase banks (s.bankWork jobs) hbank
  have hsum' := Finset.add_sum_erase banks (s'.bankWork jobs') hbank
  have hrest : ∑ b ∈ banks.erase bank, s'.bankWork jobs' b =
      ∑ b ∈ banks.erase bank, s.bankWork jobs b :=
    Finset.sum_congr rfl fun b hb => hother b (Finset.ne_of_mem_erase hb)
  rw [work, work]
  omega

/-- A command for a bank leaves the work for the others as it is. -/
theorem bankWork_step_of_ne (row : ρ) {b : ι} (hb : b ≠ bank) {cmd : RowCommand ι ρ}
    (hcmd : cmd = .open bank row ∨ cmd = .access bank row ∨ cmd = .close bank) :
    (s.step cmd).bankWork jobs b = s.bankWork jobs b := by
  rw [bankWork, bankWork]
  rcases hcmd with rfl | rfl | rfl <;> rw [step, Function.update_of_ne hb]

/-- Less is left when a row is opened for a job, -/
theorem work_open (hbank : bank ∈ banks) (hclosed : s bank = none) (hjob : (bank, row) ∈ jobs) :
    (s.step (.open bank row)).work jobs banks < s.work jobs banks := by
  have hother (b : ι) (hb : b ≠ bank) :
      (s.step (.open bank row)).bankWork jobs b = s.bankWork jobs b :=
    bankWork_step_of_ne row hb (Or.inl rfl)
  have hwork := work_eq_of_forall_ne hbank hother
  -- the bank was closed, and now has a row that the job waits for
  have hopened : s.step (.open bank row) bank = some ⟨row, 0⟩ := Function.update_self _ _ _
  rw [bankWork_of_none hclosed, bankWork_of_mem hopened hjob] at hwork
  omega

/-- when a row is closed that no job waits for, -/
theorem work_close (hbank : bank ∈ banks) (hopen : s bank = some o) (hjob : (bank, o.row) ∉ jobs) :
    (s.step (.close bank)).work jobs banks < s.work jobs banks := by
  have hother (b : ι) (hb : b ≠ bank) :
      (s.step (.close bank)).bankWork jobs b = s.bankWork jobs b :=
    bankWork_step_of_ne o.row hb (Or.inr (Or.inr rfl))
  have hwork := work_eq_of_forall_ne hbank hother
  -- the bank is closed, so one command less is needed
  have hclosed : s.step (.close bank) bank = none := Function.update_self _ _ _
  rw [bankWork_of_notMem hopen hjob, bankWork_of_none hclosed] at hwork
  omega

/-- and when a job is done. -/
theorem work_access (hbank : bank ∈ banks) (hopen : s bank = some o) {i : ℕ}
    (hjob : jobs[i]? = some (bank, o.row)) :
    (s.step (.access bank o.row)).work (jobs.eraseIdx i) banks < s.work jobs banks := by
  obtain ⟨hlt, hget⟩ := List.getElem?_eq_some_iff.mp hjob
  have hother (b : ι) (hb : b ≠ bank) :
      (s.step (.access bank o.row)).bankWork (jobs.eraseIdx i) b = s.bankWork jobs b := by
    rw [bankWork_step_of_ne o.row hb (Or.inr (Or.inl rfl)), bankWork, bankWork]
    cases s b with
    | none => rfl
    | some o' =>
      -- the job that is done is for another bank
      have hperm := List.getElem_cons_eraseIdx_perm hlt
      have hmem : (b, o'.row) ∈ jobs ↔ (b, o'.row) ∈ jobs.eraseIdx i := by
        rw [← hperm.mem_iff, List.mem_cons, hget]
        exact or_iff_right fun heq => hb (Prod.mk.inj heq).1
      simp only [hmem]
  have hwork := work_eq_of_forall_ne hbank hother
  -- the job waited for the row, which may be of no use any more
  have hdone : s.bankWork jobs bank = 0 :=
    bankWork_of_mem hopen (List.mem_of_getElem? hjob)
  have hle := (s.step (.access bank o.row)).bankWork_le (jobs.eraseIdx i) bank
  have hlength := List.length_eraseIdx_of_lt hlt
  omega

end OpenRows
