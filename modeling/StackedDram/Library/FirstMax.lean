import Mathlib.Data.List.Induction
import Mathlib.Order.Lattice
import Mathlib.Order.Nat

/-!
# The first maximum

A loop that looks for the greatest score keeps a pair, the best score so far and the candidate that
has it, and replaces it when a candidate has a strictly greater score. `foldl_keepBetter` says where
such a loop ends: at the first candidate of the greatest score, unless none beats the score with
which the loop was started.
-/

variable {ι α : Type*} [LinearOrder α]

/-- One round of the loop. -/
def keepBetter (score : ι → α) (best : α × ι) (i : ι) : α × ι :=
  if best.1 < score i then (score i, i) else best

namespace List

variable {score : ι → α} {l : List ι} {w : ι}

/-- `w` is the first entry of `l` that has the greatest score. -/
def IsFirstMax (score : ι → α) (l : List ι) (w : ι) : Prop :=
  ∃ before after, l = before ++ w :: after ∧
    (∀ v ∈ before, score v < score w) ∧ ∀ v ∈ after, score v ≤ score w

theorem IsFirstMax.le (h : l.IsFirstMax score w) {v : ι} (hv : v ∈ l) : score v ≤ score w := by
  obtain ⟨before, after, rfl, hbefore, hafter⟩ := h
  rcases mem_append.mp hv with hv | hv
  · exact (hbefore v hv).le
  · rcases mem_cons.mp hv with rfl | hv
    · exact le_rfl
    · exact hafter v hv

/-- An entry that is no better does not matter at the end. -/
theorem IsFirstMax.concat (h : l.IsFirstMax score w) {x : ι} (hx : score x ≤ score w) :
    (l ++ [x]).IsFirstMax score w := by
  obtain ⟨before, after, rfl, hbefore, hafter⟩ := h
  refine ⟨before, after ++ [x], by simp, hbefore, fun v hv => ?_⟩
  rcases mem_append.mp hv with hv | hv
  · exact hafter v hv
  · rwa [mem_singleton.mp hv]

/-- An entry that is better than all before it becomes the first maximum. -/
theorem isFirstMax_concat_self {x : ι} (hx : ∀ v ∈ l, score v < score x) :
    (l ++ [x]).IsFirstMax score x :=
  ⟨l, [], rfl, hx, by simp⟩

/-- The loop stays where it started when nothing is better, and ends at the first maximum
otherwise. -/
theorem foldl_keepBetter (score : ι → α) (l : List ι) (b : α × ι) :
    ((∀ v ∈ l, score v ≤ b.1) ∧ l.foldl (keepBetter score) b = b) ∨
      ∃ w, b.1 < score w ∧ l.IsFirstMax score w ∧
        l.foldl (keepBetter score) b = (score w, w) := by
  induction l using List.reverseRecOn with
  | nil => exact Or.inl ⟨by simp, rfl⟩
  | append_singleton l x ih =>
    rw [foldl_append, foldl_cons, foldl_nil]
    -- nothing has been better than the start so far, or `w` is the first maximum so far
    rcases ih with ⟨hle, heq⟩ | ⟨w, hw, hmax, heq⟩
    · rw [heq, keepBetter]
      split
      case isTrue hlt =>
        exact Or.inr ⟨x, hlt, isFirstMax_concat_self fun v hv => (hle v hv).trans_lt hlt, rfl⟩
      case isFalse hlt =>
        refine Or.inl ⟨fun v hv => ?_, rfl⟩
        rcases mem_append.mp hv with hv | hv
        · exact hle v hv
        · rw [mem_singleton.mp hv]
          exact not_lt.mp hlt
    · right
      rw [heq, keepBetter]
      split
      case isTrue hlt =>
        exact ⟨x, hw.trans hlt, isFirstMax_concat_self fun v hv => (hmax.le hv).trans_lt hlt, rfl⟩
      case isFalse hlt => exact ⟨w, hw, hmax.concat (not_lt.mp hlt), rfl⟩

/-- Over the numbers below `n` the first maximum is the least one. -/
theorem IsFirstMax.of_range {score : ℕ → α} {n w : ℕ} (h : (range n).IsFirstMax score w) :
    w < n ∧ (∀ i < n, score i ≤ score w) ∧ ∀ i < w, score i < score w := by
  have hle : ∀ i < n, score i ≤ score w := fun i hi => h.le (mem_range.mpr hi)
  obtain ⟨before, after, heq, hbefore, -⟩ := h
  have hw : w < n := mem_range.mp (heq ▸ by simp)
  refine ⟨hw, hle, fun i hi => hbefore i ?_⟩
  -- the range is strictly increasing, so what is smaller than `w` stands before it
  have hsorted : (before ++ w :: after).Pairwise (· < ·) := heq ▸ pairwise_lt_range
  have hmem : i ∈ before ++ w :: after := heq ▸ mem_range.mpr (hi.trans hw)
  rcases mem_append.mp hmem with hmem | hmem
  · exact hmem
  · have hge : w ≤ i := by
      rcases mem_cons.mp hmem with rfl | hmem
      · exact le_rfl
      · exact (rel_of_pairwise_cons (pairwise_append.mp hsorted).2.1 hmem).le
    exact absurd hi hge.not_gt

end List
