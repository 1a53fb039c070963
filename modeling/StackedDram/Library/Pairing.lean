import Mathlib.Logic.Function.Basic
import Mathlib.Tactic.Basic

/-!
# Partial matchings with a direction

A `Pairing` divides a type into free elements and disjoint ordered pairs, each with a source and
a target. It is held as two tables: `target i` is the partner of `i` when `i` is a source and `i`
itself otherwise, and `source i` is the partner of `i` when `i` is a target and `i` itself
otherwise. The three laws of the structure say that the tables describe the same pairs; that
there are no chains and that no element is the target of two sources follows from them.

* `Pairing.link` joins two free elements, `Pairing.unlink` dissolves the pair of a source.
* `Pairing.eq_or_target_of_target_eq`: two elements have one image under `target` only if they
  are equal or form a pair.
-/

/-- A partial matching whose pairs have a source and a target. -/
@[ext]
structure Pairing (ι : Type*) where
  /-- The target of a source, and every other element itself. -/
  target : ι → ι
  /-- The source of a target, and every other element itself. -/
  source : ι → ι
  /-- A target is not a source. -/
  target_target : ∀ i, target (target i) = target i
  /-- The target of a source leads back to that source. -/
  source_target : ∀ i, target i ≠ i → source (target i) = i
  /-- The source of a target leads back to that target. -/
  target_source : ∀ i, source i ≠ i → target (source i) = i

namespace Pairing

variable {ι : Type*} (p : Pairing ι) {i j : ι}

/-- `i` is the source of a pair. -/
def IsSource (i : ι) : Prop := p.target i ≠ i

/-- `i` is the target of a pair. -/
def IsTarget (i : ι) : Prop := p.source i ≠ i

/-- `i` belongs to no pair. -/
def Free (i : ι) : Prop := p.target i = i ∧ p.source i = i

/-- The matching without pairs. -/
def empty (ι : Type*) : Pairing ι where
  target := id
  source := id
  target_target _ := rfl
  source_target _ h := absurd rfl h
  target_source _ h := absurd rfl h

variable {p}

/-- A source is not a target. -/
theorem IsSource.source_eq (h : p.IsSource i) : p.source i = i := by
  by_contra hs
  have ht := p.target_source i hs
  exact h (by rw [← ht, p.target_target, ht])

/-- A target is not a source. -/
theorem IsTarget.target_eq (h : p.IsTarget i) : p.target i = i := by
  by_contra ht
  exact h (IsSource.source_eq ht)

/-- The partner of a source is a target. -/
theorem IsSource.isTarget (h : p.IsSource i) : p.IsTarget (p.target i) := by
  rw [IsTarget, p.source_target i h]
  exact fun he => h he.symm

/-- The partner of a target is a source. -/
theorem IsTarget.isSource (h : p.IsTarget i) : p.IsSource (p.source i) := by
  rw [IsSource, p.target_source i h]
  exact fun he => h he.symm

/-- An element that is neither a source nor a target is free. -/
theorem free_of_not (hs : ¬ p.IsSource i) (ht : ¬ p.IsTarget i) : p.Free i :=
  ⟨not_not.mp hs, not_not.mp ht⟩

/-- If a source points at `j`, then `j` points back at it and nowhere else. -/
theorem source_eq_of_target_eq (h : p.IsSource i) (hij : p.target i = j) : p.source j = i := by
  rw [← hij, p.source_target i h]

/-- `target` identifies two elements only if they are equal or form a pair. -/
theorem eq_or_target_of_target_eq (h : p.target i = p.target j) :
    i = j ∨ p.target i = j ∨ p.target j = i := by
  by_cases hi : p.IsSource i
  · by_cases hj : p.IsSource j
    · -- two sources with one target are equal
      left
      rw [← p.source_target i hi, ← p.source_target j hj, h]
    · exact Or.inr (Or.inl (h.trans (not_not.mp hj)))
  · exact Or.inr (Or.inr (h.symm.trans (not_not.mp hi)))

variable [DecidableEq ι]

/-- Join the free elements `i` and `j` into a pair with source `i` and target `j`. -/
def link (p : Pairing ι) (i j : ι) (hij : i ≠ j) (hi : p.Free i) (hj : p.Free j) :
    Pairing ι where
  target := Function.update p.target i j
  source := Function.update p.source j i
  target_target k := by
    by_cases hk : k = i
    · subst hk
      simp [Function.update_of_ne (Ne.symm hij), hj.1]
    · rw [Function.update_of_ne hk]
      -- no other element leads to `i`, which is free
      by_cases hk' : p.target k = i
      · have hs : p.IsSource k := fun he => hk (he ▸ hk')
        have hs' := p.source_target k hs
        rw [hk', hi.2] at hs'
        exact absurd hs'.symm hk
      · rw [Function.update_of_ne hk', p.target_target]
  source_target k := by
    by_cases hk : k = i
    · subst hk
      simp
    · rw [Function.update_of_ne hk]
      intro hs
      by_cases hk' : p.target k = j
      · have hs' := p.source_target k hs
        rw [hk', hj.2] at hs'
        exact absurd (hs' ▸ hk') hs
      · rw [Function.update_of_ne hk', p.source_target k hs]
  target_source k := by
    by_cases hk : k = j
    · subst hk
      simp
    · rw [Function.update_of_ne hk]
      intro ht
      by_cases hk' : p.source k = i
      · have ht' := p.target_source k ht
        rw [hk', hi.1] at ht'
        exact absurd (ht' ▸ hk') ht
      · rw [Function.update_of_ne hk', p.target_source k ht]

/-- Dissolve the pair of the source `i`. -/
def unlink (p : Pairing ι) (i : ι) (hi : p.IsSource i) : Pairing ι where
  target := Function.update p.target i i
  source := Function.update p.source (p.target i) (p.target i)
  target_target k := by
    by_cases hk : k = i
    · subst hk
      simp
    · rw [Function.update_of_ne hk]
      by_cases hk' : p.target k = i
      · simp [hk']
      · rw [Function.update_of_ne hk', p.target_target]
  source_target k := by
    by_cases hk : k = i
    · subst hk
      simp
    · rw [Function.update_of_ne hk]
      intro hs
      -- no other source leads to the target of `i`
      by_cases hk' : p.target k = p.target i
      · have := p.source_target k hs
        rw [hk', p.source_target i hi] at this
        exact absurd this.symm hk
      · rw [Function.update_of_ne hk', p.source_target k hs]
  target_source k := by
    by_cases hk : k = p.target i
    · subst hk
      simp
    · rw [Function.update_of_ne hk]
      intro ht
      by_cases hk' : p.source k = i
      · have := p.target_source k ht
        rw [hk'] at this
        exact absurd this.symm hk
      · rw [Function.update_of_ne hk', p.target_source k ht]

/-- After `link i j` exactly `i` leads to a new target. -/
@[simp]
theorem link_target (hij : i ≠ j) (hi : p.Free i) (hj : p.Free j) :
    (p.link i j hij hi hj).target = Function.update p.target i j := rfl

@[simp]
theorem link_source (hij : i ≠ j) (hi : p.Free i) (hj : p.Free j) :
    (p.link i j hij hi hj).source = Function.update p.source j i := rfl

@[simp]
theorem unlink_target (hi : p.IsSource i) :
    (p.unlink i hi).target = Function.update p.target i i := rfl

@[simp]
theorem unlink_source (hi : p.IsSource i) :
    (p.unlink i hi).source = Function.update p.source (p.target i) (p.target i) := rfl

end Pairing
