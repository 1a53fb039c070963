import Mathlib.Data.List.Basic
import Mathlib.Data.List.Induction
import Mathlib.Logic.Function.Iterate

/-!
# Deterministic machines

A machine has one initial state and a total step function. This module fixes its runs and its
reachable states and gives the two rules by which properties of runs are proved:

* `Machine.Reachable.invariant`: what holds initially and is preserved by every step of a
  reachable state holds in every reachable state;
* `Machine.invariant_of_allSteps`: the same along one run, when the steps that preserve the
  property are only those that satisfy a side condition in the state before them.

`Machine.tally` adds up a quantity over the steps of a run. `foldl_range_invariant` is the rule for
an indexed loop.
-/

/-- A deterministic machine: an initial state, and the state after an action. -/
structure Machine (σ α : Type*) where
  /-- The state before the first action. -/
  init : σ
  /-- The state after one action. -/
  step : σ → α → σ

namespace Machine

variable {σ α : Type*} (M : Machine σ α)

/-- The state after the actions `as`, performed from `s` in the order of the list. -/
def runFrom (s : σ) (as : List α) : σ := as.foldl M.step s

/-- The state after the actions `as`, performed from the initial state. -/
def run (as : List α) : σ := M.runFrom M.init as

@[simp]
theorem runFrom_nil (s : σ) : M.runFrom s [] = s := rfl

@[simp]
theorem runFrom_cons (s : σ) (a : α) (as : List α) :
    M.runFrom s (a :: as) = M.runFrom (M.step s a) as := rfl

/-- A run in two parts. -/
theorem runFrom_append (s : σ) (as bs : List α) :
    M.runFrom s (as ++ bs) = M.runFrom (M.runFrom s as) bs := by
  simp [runFrom]

/-- The same action over and over. -/
theorem runFrom_replicate (s : σ) (a : α) (n : ℕ) :
    M.runFrom s (List.replicate n a) = (fun s => M.step s a)^[n] s := by
  induction n generalizing s with
  | zero => rfl
  | succ n ih => exact ih (M.step s a)

@[simp]
theorem run_nil : M.run [] = M.init := rfl

/-- A run in two parts, from the start. -/
theorem run_append (as bs : List α) : M.run (as ++ bs) = M.runFrom (M.run as) bs :=
  M.runFrom_append _ as bs

/-- A run with one more action. -/
theorem run_concat (as : List α) (a : α) : M.run (as ++ [a]) = M.step (M.run as) a := by
  simp [run_append]

/-- States reached from the initial state by finitely many actions. -/
inductive Reachable : σ → Prop
  | init : Reachable M.init
  | step {s : σ} (a : α) : Reachable s → Reachable (M.step s a)

variable {M}

/-- A run continued from a reachable state stays reachable. -/
theorem Reachable.runFrom {s : σ} (hs : M.Reachable s) (as : List α) :
    M.Reachable (M.runFrom s as) := by
  induction as generalizing s with
  | nil => exact hs
  | cons a as ih => exact ih (hs.step a)

/-- Every run ends in a reachable state. -/
theorem reachable_run (as : List α) : M.Reachable (M.run as) :=
  Reachable.init.runFrom as

/-- A property of the initial state that every step of a reachable state preserves holds in
every reachable state. -/
theorem Reachable.invariant {P : σ → Prop} (hinit : P M.init)
    (hstep : ∀ s a, M.Reachable s → P s → P (M.step s a)) {s : σ} (hs : M.Reachable s) : P s := by
  induction hs with
  | init => exact hinit
  | step a hs ih => exact hstep _ a hs ih

/-- Every action of the run `as` satisfies `ok` in the state in which it is performed. -/
def AllSteps (M : Machine σ α) (ok : σ → α → Prop) (as : List α) : Prop :=
  ∀ before a after, as = before ++ a :: after → ok (M.run before) a

/-- The steps of the first part. -/
theorem AllSteps.of_append {ok : σ → α → Prop} {as bs : List α}
    (h : M.AllSteps ok (as ++ bs)) : M.AllSteps ok as := by
  rintro before a after rfl
  exact h before a (after ++ bs) (by simp)

theorem allSteps_nil (ok : σ → α → Prop) : M.AllSteps ok [] := by
  rintro before a after h
  exact absurd h.symm (by simp)

/-- The condition on a run, from its end. -/
theorem AllSteps.concat {ok : σ → α → Prop} {as : List α} {a : α} (h : M.AllSteps ok as)
    (ha : ok (M.run as) a) : M.AllSteps ok (as ++ [a]) := by
  rintro before b after heq
  -- `b` is the last action, or one of the actions before it
  induction after using List.reverseRecOn with
  | nil =>
    obtain ⟨rfl, hab⟩ := List.append_inj' heq rfl
    rwa [← List.singleton_injective hab]
  | append_singleton after c _ =>
    rw [← List.cons_append, ← List.append_assoc] at heq
    exact h before b after (List.append_inj' heq rfl).1

/-- A property of the initial state that is preserved by the steps that satisfy `ok` holds at
the end of every run all of whose steps satisfy `ok`. -/
theorem invariant_of_allSteps {P : σ → Prop} {ok : σ → α → Prop} (hinit : P M.init)
    (hstep : ∀ s a, M.Reachable s → P s → ok s a → P (M.step s a)) (as : List α)
    (has : M.AllSteps ok as) : P (M.run as) := by
  induction as using List.reverseRecOn with
  | nil => exact hinit
  | append_singleton as a ih =>
    rw [run_concat]
    exact hstep _ a (reachable_run as) (ih has.of_append) (has as a [] rfl)

/-! ### Quantities of runs -/

/-- The sum over the steps of a run that starts in `s` of the quantity `f`, which depends on the
state before the step and on the action. -/
def tallyFrom (M : Machine σ α) (f : σ → α → ℕ) : σ → List α → ℕ
  | _, [] => 0
  | s, a :: as => f s a + tallyFrom M f (M.step s a) as

/-- The sum of a quantity over the steps of a run. -/
def tally (M : Machine σ α) (f : σ → α → ℕ) (as : List α) : ℕ := M.tallyFrom f M.init as

@[simp]
theorem tally_nil (f : σ → α → ℕ) : M.tally f [] = 0 := rfl

/-- What one more action adds. -/
theorem tallyFrom_concat (f : σ → α → ℕ) (s : σ) (as : List α) (a : α) :
    M.tallyFrom f s (as ++ [a]) = M.tallyFrom f s as + f (M.runFrom s as) a := by
  induction as generalizing s with
  | nil => exact Nat.add_comm _ _
  | cons b as ih => rw [List.cons_append, tallyFrom, tallyFrom, ih, runFrom_cons, Nat.add_assoc]

/-- The last step of a run adds its share. -/
theorem tally_concat (f : σ → α → ℕ) (as : List α) (a : α) :
    M.tally f (as ++ [a]) = M.tally f as + f (M.run as) a :=
  tallyFrom_concat f M.init as a

/-- A quantity that is never greater than another one does not add up to more. -/
theorem tally_le_tally {f g : σ → α → ℕ} (h : ∀ s a, f s a ≤ g s a) (as : List α) :
    M.tally f as ≤ M.tally g as := by
  induction as using List.reverseRecOn with
  | nil => exact Nat.le_refl 0
  | append_singleton as a ih =>
    rw [tally_concat, tally_concat]
    exact Nat.add_le_add ih (h _ a)

/-- A quantity adds up to nothing if no step adds to it. -/
theorem tally_eq_zero_iff {f : σ → α → ℕ} {as : List α} :
    M.tally f as = 0 ↔ M.AllSteps (fun s a => f s a = 0) as := by
  induction as using List.reverseRecOn with
  | nil => exact ⟨fun _ => allSteps_nil _, fun _ => rfl⟩
  | append_singleton as a ih =>
    rw [tally_concat, Nat.add_eq_zero_iff, ih]
    exact ⟨fun h => h.1.concat h.2, fun h => ⟨h.of_append, h as a [] rfl⟩⟩

end Machine

/-- The rule for a loop over the indices `0, …, n - 1`: a property `P k` of the state before
iteration `k` that iteration `k` turns into `P (k + 1)` holds after every number of iterations. -/
theorem foldl_range_invariant {σ : Type*} {f : σ → ℕ → σ} {s : σ} {P : ℕ → σ → Prop} {n : ℕ}
    (hinit : P 0 s) (hstep : ∀ k s, k < n → P k s → P (k + 1) (f s k)) :
    ∀ k ≤ n, P k ((List.range k).foldl f s) := by
  intro k hk
  induction k with
  | zero => exact hinit
  | succ k ih =>
    rw [List.range_succ, List.foldl_append]
    exact hstep k _ hk (ih (Nat.le_of_succ_le hk))
