import Mathlib.Algebra.BigOperators.Group.Finset.Basic
import Mathlib.Algebra.BigOperators.Group.List.Basic
import Mathlib.Data.Nat.ModEq
import StackedDram.Library.Machine

/-!
# Running totals

A loop that adds a share to a total in every iteration adds up the shares
(`measure_foldl_range`), and so does a machine (`Machine.total_run`). A total to which the current
value of a source is added at every reading is the current value of the source only as long as all
earlier readings have been zero (`sum_mod_eq_last_iff`, `Machine.total_eq_last_iff`), so a source
that is itself cumulative must not be read this way.

Totals are kept modulo `m`; those with `m = 0` do not wrap around.
-/

namespace RunningTotals

/-- The total after a loop. -/
theorem measure_foldl_range {σ G : Type*} [AddCommMonoid G] {measure : σ → G} {f : σ → ℕ → σ}
    {share : ℕ → G} (h : ∀ s k, measure (f s k) = measure s + share k) (s : σ) (n : ℕ) :
    measure ((List.range n).foldl f s) = measure s + ∑ k ∈ Finset.range n, share k := by
  induction n with
  | zero => simp
  | succ n ih =>
    rw [List.range_succ, List.foldl_append, List.foldl_cons, List.foldl_nil, h, ih,
      Finset.sum_range_succ, add_assoc]

variable {α : Type*} {share : α → ℕ} {m : ℕ}

/-- A total is what the last reading has added to it if and only if that fits and the readings
before add up to nothing. -/
theorem add_mod_eq_right_iff (total last : ℕ) :
    (total + last) % m = last ↔ last % m = last ∧ total % m = 0 := by
  constructor
  · intro h
    have hlast : last % m = last := by rw [← h, Nat.mod_mod]
    have hcancel : total + last ≡ 0 + last [MOD m] := by
      rw [Nat.ModEq, h, Nat.zero_add, hlast]
    exact ⟨hlast, hcancel.add_right_cancel'⟩
  · rintro ⟨hlast, htotal⟩
    rw [Nat.add_mod, htotal, Nat.zero_add, Nat.mod_mod, hlast]

/-- After each reading the total is what has just been read, if and only if every reading fits and
every reading that another one follows is zero. -/
theorem sum_mod_eq_last_iff (as : List α) :
    (∀ before a after, as = before ++ a :: after →
        ((before ++ [a]).map share).sum % m = share a) ↔
      (∀ a ∈ as, share a % m = share a) ∧
        ∀ before a a' after, as = before ++ a :: a' :: after → share a = 0 := by
  have hsum : ∀ (before : List α) (a : α), ((before ++ [a]).map share).sum % m = share a ↔
      share a % m = share a ∧ (before.map share).sum % m = 0 := by
    intro before a
    rw [List.map_append, List.sum_append, List.map_singleton, List.sum_singleton,
      add_mod_eq_right_iff]
  simp only [hsum]
  constructor
  · intro h
    refine ⟨fun a ha => ?_, fun before a a' after has => ?_⟩
    · obtain ⟨before, after, has⟩ := List.append_of_mem ha
      exact (h before a after has).1
    · -- the total is zero before `a` and before `a'`
      have hlater : ((before ++ [a]).map share).sum % m = 0 :=
        (h (before ++ [a]) a' after (by simp [has])).2
      rw [← (hsum before a).2 (h before a (a' :: after) has), hlater]
  · rintro ⟨hfit, hzero⟩ before a after rfl
    refine ⟨hfit a (by simp), ?_⟩
    have hbefore : (before.map share).sum = 0 := by
      refine List.sum_eq_zero fun n hn => ?_
      obtain ⟨b, hb, rfl⟩ := List.mem_map.1 hn
      -- `a` comes after every reading before it
      obtain ⟨before, between, rfl⟩ := List.append_of_mem hb
      cases between with
      | nil => exact hzero before b a after (by simp)
      | cons c between => exact hzero before b c (between ++ a :: after) (by simp)
    rw [hbefore, Nat.zero_mod]

end RunningTotals

namespace Machine

variable {σ α : Type*} {M : Machine σ α} {total : σ → ℕ} {share : α → ℕ} {m : ℕ}

/-- The total after a run. -/
theorem total_run (hinit : total M.init = 0)
    (h : ∀ s a, total (M.step s a) = (total s + share a) % m) (as : List α) :
    total (M.run as) = (as.map share).sum % m := by
  induction as using List.reverseRecOn with
  | nil => rw [run_nil, hinit, List.map_nil, List.sum_nil, Nat.zero_mod]
  | append_singleton as a ih =>
    rw [run_concat, h, ih, Nat.mod_add_mod, List.map_append, List.sum_append, List.map_singleton,
      List.sum_singleton]

variable (M total share m) in
/-- The total is the share of the last step throughout a run, if and only if all shares fit and no
step follows one with a share. -/
theorem total_eq_last_iff (hinit : total M.init = 0)
    (h : ∀ s a, total (M.step s a) = (total s + share a) % m) (as : List α) :
    (∀ before a after, as = before ++ a :: after → total (M.run (before ++ [a])) = share a) ↔
      (∀ a ∈ as, share a % m = share a) ∧
        ∀ before a a' after, as = before ++ a :: a' :: after → share a = 0 := by
  simp only [total_run hinit h]
  exact RunningTotals.sum_mod_eq_last_iff as

end Machine
