import Mathlib.Data.Option.Basic
import Mathlib.Logic.Function.Iterate
import Mathlib.Tactic.Common

/-!
# Loops that try again

`while (again) again = f()`: an operation that changes a state and answers whether to try again is
performed until the answer is no. `loop` does so for a bounded number of attempts and counts them;
that the loop ends is that some bound is enough.

A loop of at most two attempts has seen a no first, or a yes and then a no (`loop_eq_of_le_two`). A
loop that makes a measure smaller in every attempt but the last one ends (`loop_of_measure`), and if
the measure counts the attempts that are left, one more is made (`loop_of_countdown`). Loops over a
state and over a part of it make the same attempts if the answers are the same (`loop_map`).
-/

namespace Retry

variable {σ : Type*} (f : σ → σ × Bool)

/-- The state after the loop and the number of attempts, if `fuel` of them are enough. -/
def loop : ℕ → σ → Option (σ × ℕ)
  | 0, _ => none
  | fuel + 1, s =>
    if (f s).2 then (loop fuel (f s).1).map fun after => (after.1, after.2 + 1)
    else some ((f s).1, 1)

variable {f} {fuel : ℕ} {s : σ}

theorem loop_succ_of_no (h : (f s).2 = false) : loop f (fuel + 1) s = some ((f s).1, 1) := by
  rw [loop, h]
  rfl

theorem loop_succ_of_yes (h : (f s).2 = true) :
    loop f (fuel + 1) s = (loop f fuel (f s).1).map fun after => (after.1, after.2 + 1) := by
  rw [loop, if_pos h]

/-- There is a first attempt. -/
theorem pos_of_loop {after : σ × ℕ} (h : loop f fuel s = some after) : 0 < after.2 := by
  cases fuel with
  | zero => exact absurd h (by simp [loop])
  | succ fuel =>
    cases hf : (f s).2 with
    | false =>
      rw [loop_succ_of_no hf] at h
      obtain rfl := Option.some.inj h
      exact Nat.one_pos
    | true =>
      rw [loop_succ_of_yes hf, Option.map_eq_some_iff] at h
      obtain ⟨after', -, rfl⟩ := h
      exact Nat.succ_pos _

/-- More fuel than is enough makes no difference. -/
theorem loop_mono {after : σ × ℕ} (h : loop f fuel s = some after) {fuel' : ℕ}
    (hle : fuel ≤ fuel') : loop f fuel' s = some after := by
  induction fuel generalizing s after fuel' with
  | zero => exact absurd h (by simp [loop])
  | succ fuel ih =>
    obtain ⟨fuel', rfl⟩ := Nat.exists_eq_add_of_lt (Nat.lt_of_succ_le hle)
    cases hf : (f s).2 with
    | false =>
      rw [loop_succ_of_no hf] at h ⊢
      exact h
    | true =>
      rw [loop_succ_of_yes hf, Option.map_eq_some_iff] at h ⊢
      obtain ⟨after', hloop, rfl⟩ := h
      exact ⟨after', ih hloop (Nat.le_add_right fuel fuel'), rfl⟩

/-- The loop ends after one attempt, or after two. -/
theorem loop_eq_of_le_two {after : σ × ℕ} (h : loop f fuel s = some after) (hle : after.2 ≤ 2) :
    ((f s).2 = false ∧ after = ((f s).1, 1)) ∨
      ((f s).2 = true ∧ (f (f s).1).2 = false ∧ after = ((f (f s).1).1, 2)) := by
  cases fuel with
  | zero => exact absurd h (by simp [loop])
  | succ fuel =>
    cases hf : (f s).2 with
    | false =>
      rw [loop_succ_of_no hf] at h
      exact Or.inl ⟨rfl, (Option.some.inj h).symm⟩
    | true =>
      rw [loop_succ_of_yes hf, Option.map_eq_some_iff] at h
      obtain ⟨⟨s', n⟩, hloop, rfl⟩ := h
      refine Or.inr ⟨rfl, ?_⟩
      -- the rest of the loop is a single attempt
      cases fuel with
      | zero => exact absurd hloop (by simp [loop])
      | succ fuel =>
        cases hf' : (f (f s).1).2 with
        | false =>
          rw [loop_succ_of_no hf'] at hloop
          obtain ⟨rfl, rfl⟩ := Prod.mk.inj (Option.some.inj hloop)
          exact ⟨rfl, rfl⟩
        | true =>
          rw [loop_succ_of_yes hf', Option.map_eq_some_iff] at hloop
          obtain ⟨after', hloop', heq⟩ := hloop
          have hpos := pos_of_loop hloop'
          have hn : after'.2 + 1 = n := congrArg Prod.snd heq
          simp only at hle
          omega

/-- What a loop does when less of its state is looked at. -/
theorem loop_map {τ : Type*} {g : σ → τ} {f' : τ → τ × Bool}
    (h : ∀ s, f' (g s) = (g (f s).1, (f s).2)) (fuel : ℕ) (s : σ) :
    loop f' fuel (g s) = (loop f fuel s).map fun after => (g after.1, after.2) := by
  induction fuel generalizing s with
  | zero => rfl
  | succ fuel ih =>
    rw [loop, loop, h]
    dsimp only
    rw [ih]
    split
    · rw [Option.map_map, Option.map_map]
      rfl
    · rfl

/-- A loop in which every attempt but the last one makes a measure smaller ends, and keeps what
every attempt keeps. -/
theorem loop_of_measure {I : σ → Prop} (μ : σ → ℕ) (hkeep : ∀ s, I s → I (f s).1)
    (hμ : ∀ s, I s → (f s).2 = true → μ (f s).1 < μ s) (hs : I s) (hfuel : μ s < fuel) :
    ∃ after, loop f fuel s = some after ∧ I after.1 := by
  induction fuel generalizing s with
  | zero => exact absurd hfuel (Nat.not_lt_zero _)
  | succ fuel ih =>
    cases hf : (f s).2 with
    | false => exact ⟨_, loop_succ_of_no hf, hkeep s hs⟩
    | true =>
      have hlt := hμ s hs hf
      obtain ⟨after, hloop, hafter⟩ := ih (hkeep s hs) (by omega)
      refine ⟨(after.1, after.2 + 1), ?_, hafter⟩
      rw [loop_succ_of_yes hf, hloop]
      rfl

/-- A loop that goes on as long as a measure is positive, which every attempt makes smaller by one,
makes one attempt more than the measure. -/
theorem loop_of_countdown {I : σ → Prop} (μ : σ → ℕ) (hkeep : ∀ s, I s → I (f s).1)
    (hyes : ∀ s, I s → ((f s).2 = true ↔ 0 < μ s)) (hμ : ∀ s, I s → 0 < μ s → μ (f s).1 + 1 = μ s)
    (hs : I s) (hfuel : μ s < fuel) :
    loop f fuel s = some ((fun s => (f s).1)^[μ s + 1] s, μ s + 1) := by
  induction fuel generalizing s with
  | zero => exact absurd hfuel (Nat.not_lt_zero _)
  | succ fuel ih =>
    by_cases hpos : 0 < μ s
    · have hstep := hμ s hs hpos
      rw [loop_succ_of_yes ((hyes s hs).mpr hpos), ih (hkeep s hs) (by omega), hstep]
      rfl
    · have hno : (f s).2 = false := Bool.eq_false_iff.mpr fun h => hpos ((hyes s hs).mp h)
      have hzero : μ s = 0 := Nat.eq_zero_of_not_pos hpos
      rw [loop_succ_of_no hno, hzero]
      rfl

end Retry
