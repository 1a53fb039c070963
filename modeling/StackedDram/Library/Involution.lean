import Mathlib.Data.Set.Function

/-!
# Involutions of a set

A table whose entries point to each other in pairs, or to themselves, is an involution of the set
of its indices (`Set.InvolutiveOn`). `rewireTable f a b` joins `a` and `b` and leaves their former
partners alone. It is again an involution unless `b` is the partner of `a` already
(`Set.InvolutiveOn.rewire`).
-/

variable {ι : Type*} {f : ι → ι} {s : Set ι} {a b i : ι}

/-- `f` maps `s` to itself and is its own inverse there. -/
def Set.InvolutiveOn (f : ι → ι) (s : Set ι) : Prop := ∀ i ∈ s, f i ∈ s ∧ f (f i) = i

/-- The table in which `a` and `b` point to each other and their former partners to themselves. -/
def rewireTable [DecidableEq ι] (f : ι → ι) (a b : ι) : ι → ι := fun i =>
  if i = b then a else if i = a then b else if i = f a ∨ i = f b then i else f i

namespace Set.InvolutiveOn

/-- The identity is an involution. -/
theorem identity : InvolutiveOn (fun i => i) s := fun _ hi => ⟨hi, rfl⟩

theorem mem (h : InvolutiveOn f s) (hi : i ∈ s) : f i ∈ s := (h i hi).1

theorem apply_apply (h : InvolutiveOn f s) (hi : i ∈ s) : f (f i) = i := (h i hi).2

/-- Only its partner points to an element. -/
theorem eq_of_apply_eq (h : InvolutiveOn f s) (hi : i ∈ s) (heq : f i = a) : i = f a := by
  rw [← heq, h.apply_apply hi]

/-- Being an involution depends on the values only. -/
theorem congr {g : ι → ι} (h : InvolutiveOn f s) (hfg : ∀ i, g i = f i) : InvolutiveOn g s := by
  obtain rfl : g = f := funext hfg
  exact h

/-- An involution is a permutation. -/
theorem bijOn (h : InvolutiveOn f s) : BijOn f s s :=
  InvOn.bijOn ⟨fun _ hi => h.apply_apply hi, fun _ hi => h.apply_apply hi⟩
    (fun _ hi => h.mem hi) fun _ hi => h.mem hi

/-- Joining two elements that are not partners gives an involution. -/
theorem rewire [DecidableEq ι] (h : InvolutiveOn f s) (ha : a ∈ s) (hb : b ∈ s) (hab : b ≠ f a) :
    InvolutiveOn (rewireTable f a b) s := by
  intro i hi
  by_cases hib : i = b
  · subst hib
    by_cases hai : a = i
    · simp [rewireTable, hai, hi]
    · simp [rewireTable, hai, ha]
  · by_cases hia : i = a
    · subst hia
      simp [rewireTable, hib, hb]
    · by_cases hpartner : i = f a ∨ i = f b
      · simp [rewireTable, hib, hia, hpartner, hi]
      · -- the partner of `i` is as far from `a` and `b` as `i` itself
        rw [not_or] at hpartner
        have hfb : f i ≠ b := fun heq => hpartner.2 (h.eq_of_apply_eq hi heq)
        have hfa : f i ≠ a := fun heq => hpartner.1 (h.eq_of_apply_eq hi heq)
        have hffa : f i ≠ f a := fun heq => hia (by
          rw [← h.apply_apply hi, heq, h.apply_apply ha])
        have hffb : f i ≠ f b := fun heq => hib (by
          rw [← h.apply_apply hi, heq, h.apply_apply hb])
        simp [rewireTable, hib, hia, hpartner, hfb, hfa, hffa, hffb, h.mem hi,
          h.apply_apply hi]

end Set.InvolutiveOn
