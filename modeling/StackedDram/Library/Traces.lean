import StackedDram.Library.Machine

/-!
# Outputs of runs

What a machine puts out while it runs: a step has a list of outputs, by the state before it and the
action, and a run has the outputs of its steps one after the other. `Machine.run_outputs_invariant`
is the rule for what holds between a state and the outputs so far, in the runs whose actions all
satisfy a condition. `List.Each` says something of every entry of a list in view of the entries
before it.
-/

namespace List

variable {β : Type*} {Q : List β → β → Prop} {l l' : List β} {e : β}

/-- Every entry satisfies `Q` together with the list of the entries before it. -/
def Each (Q : List β → β → Prop) (l : List β) : Prop :=
  ∀ before e after, l = before ++ e :: after → Q before e

theorem each_nil : Each Q [] := by
  intro before e after h
  exact absurd h (by simp)

/-- A list that is continued. -/
theorem Each.append (h : Each Q l) (h' : Each (fun before e => Q (l ++ before) e) l') :
    Each Q (l ++ l') := by
  intro before e after heq
  rcases append_eq_append_iff.mp heq with ⟨mid, rfl, heq'⟩ | ⟨mid, rfl, heq'⟩
  · exact h' mid e after heq'
  · cases mid with
    | nil => simpa using h' [] e after heq'.symm
    | cons e' mid =>
      obtain ⟨rfl, -⟩ := cons.inj heq'
      exact h before e mid rfl

theorem Each.concat (h : Each Q l) (he : Q l e) : Each Q (l ++ [e]) := by
  refine h.append fun before e' after heq => ?_
  cases before with
  | nil =>
    obtain ⟨rfl, -⟩ := cons.inj heq
    rwa [append_nil]
  | cons b before => exact absurd (cons.inj heq).2 (by simp)

/-- Entries that satisfy `Q` together with any list. -/
theorem each_of_forall_mem (h : ∀ e ∈ l, ∀ before, Q before e) : Each Q l := by
  rintro before e after rfl
  exact h e (by simp) before

/-- Of several lists, only one has entries. -/
theorem flatMap_range_of_eq_nil {n i : ℕ} (hi : i < n) {f : ℕ → List β}
    (h : ∀ j, j ≠ i → f j = []) : (range n).flatMap f = f i := by
  induction n with
  | zero => exact absurd hi (Nat.not_lt_zero i)
  | succ n ih =>
    rw [range_succ, flatMap_append, flatMap_singleton]
    by_cases hn : n = i
    · subst hn
      have hnil : (range n).flatMap f = [] :=
        flatMap_eq_nil_iff.mpr fun j hj => h j (Nat.ne_of_lt (mem_range.mp hj))
      rw [hnil, nil_append]
    · rw [ih (by omega), h n hn, append_nil]

end List

namespace Machine

variable {σ α β : Type*} {M : Machine σ α} {out : σ → α → List β}

/-- The outputs of the actions, performed from `s`. -/
def outputsFrom (M : Machine σ α) (out : σ → α → List β) : σ → List α → List β
  | _, [] => []
  | s, a :: as => out s a ++ outputsFrom M out (M.step s a) as

/-- The outputs of a run. -/
def outputs (M : Machine σ α) (out : σ → α → List β) (as : List α) : List β :=
  M.outputsFrom out M.init as

@[simp]
theorem outputs_nil : M.outputs out [] = [] := rfl

theorem outputsFrom_singleton (s : σ) (a : α) : M.outputsFrom out s [a] = out s a :=
  List.append_nil _

theorem outputsFrom_concat (s : σ) (as : List α) (a : α) :
    M.outputsFrom out s (as ++ [a]) = M.outputsFrom out s as ++ out (M.runFrom s as) a := by
  induction as generalizing s with
  | nil => simp [outputsFrom]
  | cons b as ih => rw [List.cons_append, outputsFrom, outputsFrom, ih, runFrom_cons,
      List.append_assoc]

/-- The last step of a run adds its outputs. -/
theorem outputs_concat (as : List α) (a : α) :
    M.outputs out (as ++ [a]) = M.outputs out as ++ out (M.run as) a :=
  outputsFrom_concat M.init as a

/-- What holds initially and is preserved by every action that satisfies `ok` holds after every run
of such actions. -/
theorem run_invariant {P : σ → Prop} {ok : α → Prop} (hinit : P M.init)
    (hstep : ∀ s a, ok a → P s → P (M.step s a)) (as : List α) (has : ∀ a ∈ as, ok a) :
    P (M.run as) := by
  have hok : M.AllSteps (fun _ a => ok a) as := by
    rintro before a after rfl
    exact has a (by simp)
  exact invariant_of_allSteps hinit (fun s a _ hs ha => hstep s a ha hs) as hok

/-- The same for what holds between a state and the outputs so far. -/
theorem run_outputs_invariant {P : σ → List β → Prop} {ok : α → Prop} (hinit : P M.init [])
    (hstep : ∀ s h a, ok a → P s h → P (M.step s a) (h ++ out s a)) (as : List α)
    (has : ∀ a ∈ as, ok a) : P (M.run as) (M.outputs out as) := by
  induction as using List.reverseRecOn with
  | nil => exact hinit
  | append_singleton as a ih =>
    rw [run_concat, outputs_concat]
    exact hstep _ _ a (has a (by simp)) (ih fun b hb => has b (by simp [hb]))

end Machine
