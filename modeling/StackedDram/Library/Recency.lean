import Mathlib.Data.List.Dedup

/-!
# Recency of requests

`recent l` lists the distinct elements of the request sequence `l`, the most recently requested
one first. Its first `k` elements are what a cache of `k` entries with least-recently-used
replacement holds after `l`. They are the last request alone exactly when there is one entry or
when nothing else has been requested (`mem_take_recent_iff`, `exists_ne_mem_take_recent`).
-/

namespace List

variable {α : Type*} [DecidableEq α] {l : List α} {a b c : α} {k : ℕ}

/-- The distinct elements of `l`, ordered by their last occurrence, the last one first. -/
def recent (l : List α) : List α := l.dedup.reverse

/-- The last occurrence of `a` in `l` is before the last occurrence of `b`. -/
def LastBefore (l : List α) (a b : α) : Prop := [a, b].Sublist l.dedup

@[simp]
theorem mem_recent : a ∈ l.recent ↔ a ∈ l := by
  simp [recent]

theorem nodup_recent (l : List α) : l.recent.Nodup :=
  nodup_reverse.mpr l.nodup_dedup

/-- The last request is the most recent one. -/
theorem exists_recent_eq_cons (l : List α) (a : α) :
    ∃ older, (l ++ [a]).recent = a :: older := by
  have hsuffix : [a] <:+ (l ++ [a]).dedup := by
    rw [dedup_append]
    exact suffix_union_right l [a]
  obtain ⟨older, holder⟩ := hsuffix
  exact ⟨older.reverse, by rw [recent, ← holder, reverse_append]; rfl⟩

/-- One entry, or a single requested element: only the last request is held. -/
theorem mem_take_recent_iff (hk : 1 ≤ k) (h : k = 1 ∨ ∀ b ∈ l, b = a) :
    c ∈ (l ++ [a]).recent.take k ↔ c = a := by
  obtain ⟨older, holder⟩ := exists_recent_eq_cons l a
  obtain ⟨k, rfl⟩ : ∃ j, k = j + 1 := ⟨k - 1, by omega⟩
  rw [holder, take_succ_cons, mem_cons]
  refine or_iff_left fun hc => ?_
  rcases h with hone | hall
  · obtain rfl : k = 0 := by omega
    simp at hc
  · -- an older entry would be the last request as well, but no element is listed twice
    have hmem : c ∈ (l ++ [a]).recent := holder ▸ mem_cons_of_mem a (mem_of_mem_take hc)
    have hca : c = a := by
      rcases mem_append.mp (mem_recent.mp hmem) with hl | ha
      · exact hall c hl
      · exact mem_singleton.mp ha
    have hnodup := (l ++ [a]).nodup_recent
    rw [holder] at hnodup
    exact hnodup.notMem (hca ▸ mem_of_mem_take hc)

/-- With two entries and another requested element, something besides the last request is
held. -/
theorem exists_ne_mem_take_recent (hk : 2 ≤ k) (hb : b ∈ l) (hba : b ≠ a) :
    ∃ c ∈ (l ++ [a]).recent.take k, c ≠ a := by
  obtain ⟨older, holder⟩ := exists_recent_eq_cons l a
  have hmem : b ∈ (l ++ [a]).recent := mem_recent.mpr (mem_append_left [a] hb)
  rw [holder, mem_cons] at hmem
  have hnodup := (l ++ [a]).nodup_recent
  rw [holder] at hnodup
  rw [holder]
  cases older with
  | nil => simp [hba] at hmem
  | cons c older =>
    obtain ⟨k, rfl⟩ : ∃ j, k = j + 2 := ⟨k - 2, by omega⟩
    refine ⟨c, by simp, fun hca => ?_⟩
    exact hnodup.notMem (hca ▸ mem_cons_self)

end List
