import Mathlib.Algebra.Order.Ring.Int
import Mathlib.Data.List.Basic
import Mathlib.Tactic.Ring

/-!
# Busy periods

A server takes one job at a time. After a job it needs some time before it can take the next one, so
that a job takes at most `cost` ticks. The jobs come from `n` sources, and two jobs of one source
are at least `spacing` ticks apart.

`BusySince` compares the work that waits with the jobs that have come in since the server was idle.
If the server can do one job of every source, and one more, within `spacing` ticks, then no source
sends two jobs while the server is busy (`BusySince.last_le_since`). So there are never more jobs
than sources, and no job waits for longer than it takes to do one job of every source.
-/

/-- What is to be seen of a server. -/
structure Backlog where
  clk : ℤ
  /-- When the last job of a source came in. -/
  last : ℕ → ℤ
  /-- The number of jobs that wait. -/
  waiting : ℕ
  /-- The number of ticks until the server can take a job. -/
  slack : ℤ

namespace Backlog

variable {cost spacing since : ℤ} {n : ℕ} {b : Backlog} {due : ℕ → Bool}

/-- The number of sources that have sent a job since then. -/
def arrivals (n : ℕ) (last : ℕ → ℤ) (since : ℤ) : ℕ :=
  (List.range n).countP fun i => since < last i

theorem arrivals_le (n : ℕ) (last : ℕ → ℤ) (since : ℤ) : arrivals n last since ≤ n := by
  have hle := (List.range n).countP_le_length (p := fun i => decide (since < last i))
  rwa [List.length_range] at hle

/-- The clock advances, and the sources that are due send a job each. -/
def arrive (b : Backlog) (n : ℕ) (due : ℕ → Bool) : Backlog :=
  { b with
    clk := b.clk + 1
    last := fun i => if i < n ∧ due i = true then b.clk + 1 else b.last i
    waiting := b.waiting + (List.range n).countP due }

/-- The server takes a job. -/
def serve (b : Backlog) (cost : ℤ) : Backlog :=
  { b with
    waiting := b.waiting - 1
    slack := cost - 1 }

/-- The server waits until it can take a job. -/
def wait (b : Backlog) : Backlog := { b with slack := b.slack - 1 }

/-- Since then, the server has been busy with the jobs that have come in. -/
structure BusySince (cost : ℤ) (n : ℕ) (b : Backlog) (since : ℤ) : Prop where
  since_le : since ≤ b.clk
  slack_nonneg : 0 ≤ b.slack
  last_le : ∀ i, b.last i ≤ b.clk
  waiting_le : b.waiting ≤ arrivals n b.last since
  work_le : cost * b.waiting + b.slack + (b.clk - since) ≤
    cost * arrivals n b.last since + (cost - 1)

/-- An idle server is busy since now. -/
theorem busySince_idle (hwaiting : b.waiting = 0) (hnonneg : 0 ≤ b.slack)
    (hslack : b.slack ≤ cost - 1) (hlast : ∀ i, b.last i ≤ b.clk) :
    b.BusySince cost n b.clk := by
  have hnone : arrivals n b.last b.clk = 0 := by
    rw [arrivals, List.countP_eq_zero]
    intro i _
    simpa using hlast i
  refine ⟨le_rfl, hnonneg, hlast, by rw [hwaiting]; exact Nat.zero_le _, ?_⟩
  rw [hwaiting, hnone]
  simpa using hslack

/-- A server has been busy for no longer than it takes to do one job of every source, and one more,
without those that wait. -/
theorem BusySince.clk_sub_le (h : b.BusySince cost n since) (hcost : 0 ≤ cost) :
    b.clk - since ≤ cost * n + (cost - 1) - cost * b.waiting := by
  have hwork := h.work_le
  have hslack := h.slack_nonneg
  have hn : cost * arrivals n b.last since ≤ cost * n :=
    mul_le_mul_of_nonneg_left (Int.ofNat_le.mpr (arrivals_le n b.last since)) hcost
  omega

/-- A source that may send a job now has sent none while the server was busy. -/
theorem BusySince.last_le_since (h : b.BusySince cost n since) (hcost : 0 ≤ cost)
    (hload : cost * (n + 1) ≤ spacing) {i : ℕ} (hdue : spacing ≤ b.clk + 1 - b.last i) :
    b.last i ≤ since := by
  have hbusy := h.clk_sub_le hcost
  have hwaiting : 0 ≤ cost * b.waiting := mul_nonneg hcost (Int.natCast_nonneg b.waiting)
  rw [mul_add, mul_one] at hload
  omega

/-- The entries that satisfy one of two conditions that exclude each other. -/
theorem countP_of_disjoint {l : List ℕ} {p q r : ℕ → Bool}
    (hor : ∀ i ∈ l, r i = (p i || q i)) (hnot : ∀ i ∈ l, q i = true → p i = false) :
    l.countP r = l.countP p + l.countP q := by
  induction l with
  | nil => rfl
  | cons i l ih =>
    have hrest := ih (fun j hj => hor j (List.mem_cons_of_mem i hj))
      (fun j hj => hnot j (List.mem_cons_of_mem i hj))
    have hi := hor i List.mem_cons_self
    have hni := hnot i List.mem_cons_self
    rw [List.countP_cons, List.countP_cons, List.countP_cons, hrest, hi]
    cases hp : p i <;> cases hq : q i <;> simp_all <;> omega

/-- The jobs that come in are from sources that have sent none before. -/
theorem BusySince.arrivals_arrive (h : b.BusySince cost n since) (hcost : 0 ≤ cost)
    (hload : cost * (n + 1) ≤ spacing)
    (hdue : ∀ i < n, due i = true → spacing ≤ b.clk + 1 - b.last i) :
    arrivals n (b.arrive n due).last since =
      arrivals n b.last since + (List.range n).countP due := by
  have hsince := h.since_le
  apply countP_of_disjoint
  · intro i hi
    have hlt : i < n := List.mem_range.mp hi
    show decide (since < if i < n ∧ due i = true then b.clk + 1 else b.last i) = _
    cases hi : due i
    · simp
    · have hnow : since < b.clk + 1 := by omega
      simp [hlt, hnow]
  · intro i hi hduei
    have hle := h.last_le_since hcost hload (hdue i (List.mem_range.mp hi) hduei)
    simpa using hle

theorem BusySince.last_le_arrive (h : b.BusySince cost n since) (due : ℕ → Bool) (i : ℕ) :
    (b.arrive n due).last i ≤ (b.arrive n due).clk := by
  have hlast := h.last_le i
  dsimp only [arrive]
  split <;> omega

variable (hcost : 0 < cost) (hload : cost * (n + 1) ≤ spacing)
  (hdue : ∀ i < n, due i = true → spacing ≤ b.clk + 1 - b.last i)

include hcost hload hdue

/-- The server stays busy when it takes one of the jobs, -/
theorem BusySince.serve (h : b.BusySince cost n since)
    (hwaiting : 0 < (b.arrive n due).waiting) :
    ((b.arrive n due).serve cost).BusySince cost n since := by
  have harrivals := h.arrivals_arrive hcost.le hload hdue
  have hsince := h.since_le
  have hslack := h.slack_nonneg
  have hwork := h.work_le
  have hle := h.waiting_le
  refine ⟨?_, ?_, h.last_le_arrive due, ?_, ?_⟩
  · show since ≤ b.clk + 1
    omega
  · show 0 ≤ cost - 1
    omega
  · show b.waiting + (List.range n).countP due - 1 ≤ arrivals n (b.arrive n due).last since
    rw [harrivals]
    omega
  · show cost * ((b.waiting + (List.range n).countP due - 1 : ℕ) : ℤ) + (cost - 1) +
      (b.clk + 1 - since) ≤ cost * arrivals n (b.arrive n due).last since + (cost - 1)
    have hpos : 1 ≤ b.waiting + (List.range n).countP due := hwaiting
    rw [harrivals, Nat.cast_sub hpos]
    push_cast
    have hleft : cost * ((b.waiting : ℤ) + (List.range n).countP due - 1) =
      cost * b.waiting + cost * (List.range n).countP due - cost := by ring
    rw [hleft, mul_add]
    omega

/-- and when it has to wait until it can take one. -/
theorem BusySince.wait (h : b.BusySince cost n since) (hpos : 0 < b.slack) :
    (b.arrive n due).wait.BusySince cost n since := by
  have harrivals := h.arrivals_arrive hcost.le hload hdue
  have hsince := h.since_le
  have hwork := h.work_le
  have hle := h.waiting_le
  refine ⟨?_, ?_, h.last_le_arrive due, ?_, ?_⟩
  · show since ≤ b.clk + 1
    omega
  · show 0 ≤ b.slack - 1
    omega
  · show b.waiting + (List.range n).countP due ≤ arrivals n (b.arrive n due).last since
    rw [harrivals]
    omega
  · show cost * ((b.waiting + (List.range n).countP due : ℕ) : ℤ) + (b.slack - 1) +
      (b.clk + 1 - since) ≤ cost * arrivals n (b.arrive n due).last since + (cost - 1)
    rw [harrivals]
    push_cast
    rw [mul_add, mul_add]
    omega

end Backlog
