import Mathlib.Algebra.BigOperators.Group.Finset.Basic
import StackedDram.Library.Traces

/-!
# Components of machines

A machine may have another machine as a component: a view of its states shows the states of the
component, and an action of the machine performs some actions in the component, none, one or
several. Then a run of the machine contains a run of the component (`Component.view_run`), and if
the outputs of the component can be picked out of those of the machine, the outputs of the run as
well (`Component.outputs_run`). So what holds of all runs of the component holds in all runs of the
machine.
-/

namespace Machine

variable {σ τ α β ι ο : Type*}

/-- `M'` is a component of `M`: in the states of `M` it is seen through `view`, and an action of `M`
performs the actions `share` in it. -/
structure Component (M : Machine σ α) (M' : Machine τ β) (view : σ → τ) (share : α → List β) :
    Prop where
  init : view M.init = M'.init
  step : ∀ s a, view (M.step s a) = M'.runFrom (view s) (share a)

variable {M : Machine σ α} {M' : Machine τ β} {view : σ → τ} {share : α → List β}

/-- A component runs on its share of the actions. -/
theorem Component.view_run (h : Component M M' view share) (as : List α) :
    view (M.run as) = M'.run (as.flatMap share) := by
  induction as using List.reverseRecOn with
  | nil => exact h.init
  | append_singleton as a ih =>
    rw [run_concat, h.step, ih, List.flatMap_append, List.flatMap_singleton, run_append]

theorem outputsFrom_append (out : τ → β → List ο) (s : τ) (bs bs' : List β) :
    M'.outputsFrom out s (bs ++ bs') =
      M'.outputsFrom out s bs ++ M'.outputsFrom out (M'.runFrom s bs) bs' := by
  induction bs generalizing s with
  | nil => rfl
  | cons b bs ih => rw [List.cons_append, outputsFrom, outputsFrom, ih, runFrom_cons,
      List.append_assoc]

/-- The outputs of a run that is continued. -/
theorem outputs_append (out : τ → β → List ο) (bs bs' : List β) :
    M'.outputs out (bs ++ bs') = M'.outputs out bs ++ M'.outputsFrom out (M'.run bs) bs' :=
  outputsFrom_append out _ bs bs'

/-- What a component puts out in a run, if `pick` picks it out of what the machine puts out in every
step. -/
theorem Component.outputs_run (h : Component M M' view share) {out : σ → α → List ι}
    {out' : τ → β → List ο} {pick : ι → Option ο}
    (hstep : ∀ s a, (out s a).filterMap pick = M'.outputsFrom out' (view s) (share a))
    (as : List α) :
    (M.outputs out as).filterMap pick = M'.outputs out' (as.flatMap share) := by
  induction as using List.reverseRecOn with
  | nil => rfl
  | append_singleton as a ih =>
    rw [outputs_concat, List.filterMap_append, ih, hstep, h.view_run, List.flatMap_append,
      List.flatMap_singleton, outputs_append]

/-- A quantity of a component, added up over a run. -/
theorem Component.tally_run (h : Component M M' view share) {f : σ → α → ℕ} {f' : τ → β → ℕ}
    (hstep : ∀ s a, f s a = M'.tallyFrom f' (view s) (share a)) (as : List α) :
    M.tally f as = M'.tally f' (as.flatMap share) := by
  have happend (s : τ) (bs bs' : List β) : M'.tallyFrom f' s (bs ++ bs') =
      M'.tallyFrom f' s bs + M'.tallyFrom f' (M'.runFrom s bs) bs' := by
    induction bs generalizing s with
    | nil => exact (Nat.zero_add _).symm
    | cons b bs ih => rw [List.cons_append, tallyFrom, tallyFrom, ih, runFrom_cons, Nat.add_assoc]
  induction as using List.reverseRecOn with
  | nil => rfl
  | append_singleton as a ih =>
    rw [tally_concat, ih, hstep, h.view_run, List.flatMap_append, List.flatMap_singleton]
    exact (happend _ _ _).symm

/-- A quantity that is the sum of two others. -/
theorem tally_add (f g : σ → α → ℕ) (as : List α) :
    M.tally (fun s a => f s a + g s a) as = M.tally f as + M.tally g as := by
  induction as using List.reverseRecOn with
  | nil => rfl
  | append_singleton as a ih =>
    simp only [tally_concat, ih]
    omega

/-- A quantity that is the sum of any number of others. -/
theorem tally_sum (t : Finset ι) (f : ι → σ → α → ℕ) (as : List α) :
    M.tally (fun s a => ∑ i ∈ t, f i s a) as = ∑ i ∈ t, M.tally (f i) as := by
  induction as using List.reverseRecOn with
  | nil => simp
  | append_singleton as a ih => simp only [tally_concat, ih, Finset.sum_add_distrib]

/-- Only the states of runs matter. -/
theorem tally_congr {f g : σ → α → ℕ} (h : ∀ bs a, f (M.run bs) a = g (M.run bs) a)
    (as : List α) : M.tally f as = M.tally g as := by
  induction as using List.reverseRecOn with
  | nil => rfl
  | append_singleton as a ih => rw [tally_concat, tally_concat, ih, h]

/-- What holds of the actions in every share holds of all actions that the component performs. -/
theorem forall_mem_flatMap {p : β → Prop} (hshare : ∀ a, ∀ b ∈ share a, p b) (as : List α) :
    ∀ b ∈ as.flatMap share, p b := by
  intro b hb
  obtain ⟨a, -, hba⟩ := List.mem_flatMap.mp hb
  exact hshare a b hba

end Machine
