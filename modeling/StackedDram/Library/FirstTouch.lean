import Mathlib.Data.Finset.Card
import Mathlib.Data.List.Induction
import Mathlib.Data.List.Dedup

/-!
# Numbering keys in the order of their first occurrence

An allocator on first touch gives the keys of a history the numbers `0, 1, …` in the order in which
they first occur (`number`). The number of a key does not change when the history goes on
(`number_append`), different keys have different numbers (`number_inj`), and all numbers are below
the number of different keys (`number_lt`).

`Tracks l table next` says that a table of numbers and the next free number are those of the history
`l`; `Tracks.seen` and `Tracks.fresh` are the two cases of a key being looked up.
-/

namespace FirstTouch

variable {α : Type*} [DecidableEq α] {l l' : List α} {a b : α}

/-- The different keys of a history, in the order of their first occurrence. -/
def firsts (l : List α) : List α :=
  l.foldl (fun keys a => if a ∈ keys then keys else keys ++ [a]) []

/-- A key is added if it has not occurred before. -/
theorem firsts_concat (l : List α) (a : α) :
    firsts (l ++ [a]) = if a ∈ firsts l then firsts l else firsts l ++ [a] := by
  rw [firsts, List.foldl_append]
  rfl

/-- The different keys are the keys. -/
@[simp]
theorem mem_firsts : a ∈ firsts l ↔ a ∈ l := by
  induction l using List.reverseRecOn with
  | nil => rfl
  | append_singleton l x ih =>
    rw [firsts_concat, List.mem_append, List.mem_singleton]
    by_cases hx : x ∈ firsts l
    · -- the key has occurred before
      rw [if_pos hx, ih]
      refine ⟨Or.inl, fun h => h.elim id ?_⟩
      rintro rfl
      exact ih.mp hx
    · rw [if_neg hx, List.mem_append, List.mem_singleton, ih]

/-- The different keys are different. -/
theorem nodup_firsts (l : List α) : (firsts l).Nodup := by
  induction l using List.reverseRecOn with
  | nil => exact List.nodup_nil
  | append_singleton l x ih =>
    rw [firsts_concat]
    by_cases hx : x ∈ firsts l
    · rwa [if_pos hx]
    · rw [if_neg hx]
      -- a new key is none of those before
      exact List.nodup_append.mpr ⟨ih, List.nodup_singleton x, fun y hy z hz hyz =>
        hx (List.mem_singleton.mp hz ▸ hyz ▸ hy)⟩

/-- The keys of a history come first in every continuation of it. -/
theorem firsts_prefix (l l' : List α) : firsts l <+: firsts (l ++ l') := by
  induction l' using List.reverseRecOn with
  | nil => rw [List.append_nil]
  | append_singleton l' x ih =>
    rw [← List.append_assoc, firsts_concat]
    split_ifs
    · exact ih
    · exact ih.trans (List.prefix_append _ _)

/-- There are as many of them as the set of the keys has. -/
theorem length_firsts (l : List α) : (firsts l).length = l.toFinset.card := by
  rw [← List.toFinset_card_of_nodup (nodup_firsts l)]
  congr 1
  ext a
  simp

/-- The number of a key of the history `l`. -/
def number (l : List α) (a : α) : ℕ := (firsts l).idxOf a

/-- A key keeps its number. -/
theorem number_append (ha : a ∈ l) (l' : List α) : number (l ++ l') a = number l a := by
  obtain ⟨rest, hrest⟩ := firsts_prefix l l'
  rw [number, ← hrest, List.idxOf_append_of_mem (mem_firsts.mpr ha), number]

/-- Different keys have different numbers. -/
theorem number_inj (ha : a ∈ l) : number l a = number l b ↔ a = b :=
  List.idxOf_inj (mem_firsts.mpr ha)

/-- Only numbers below the number of different keys are given. -/
theorem number_lt (ha : a ∈ l) : number l a < l.toFinset.card := by
  rw [← length_firsts]
  exact List.idxOf_lt_length_of_mem (mem_firsts.mpr ha)

/-- A key that is new takes the next number. -/
theorem number_concat_self (ha : a ∉ l) : number (l ++ [a]) a = l.toFinset.card := by
  have hfirsts : a ∉ firsts l := mem_firsts.not.mpr ha
  rw [number, firsts_concat, if_neg hfirsts, List.idxOf_append_of_notMem hfirsts, ← length_firsts]
  simp

/-! ## Tables -/

/-- The table and the next free number are those of the history `l`. -/
structure Tracks (l : List α) (table : α → Option ℕ) (next : ℕ) : Prop where
  entry : ∀ a ∈ l, table a = some (number l a)
  no_entry : ∀ a ∉ l, table a = none
  next_eq : next = l.toFinset.card

variable {table : α → Option ℕ} {next : ℕ}

/-- At first no key has a number. -/
theorem tracks_nil : Tracks ([] : List α) (fun _ => none) 0 :=
  ⟨fun _ h => absurd h List.not_mem_nil, fun _ _ => rfl, rfl⟩

/-- Looking up a key again changes nothing. -/
theorem Tracks.seen (h : Tracks l table next) (ha : a ∈ l) : Tracks (l ++ [a]) table next where
  entry b hb := by
    have hbl : b ∈ l := by
      rcases List.mem_append.mp hb with hb | hb
      · exact hb
      · rwa [List.mem_singleton.mp hb]
    rw [h.entry b hbl, number_append hbl]
  no_entry b hb := h.no_entry b fun hbl => hb (List.mem_append_left _ hbl)
  next_eq := by simp [h.next_eq, ha]

/-- A new key takes the next free number. -/
theorem Tracks.fresh (h : Tracks l table next) (ha : a ∉ l) :
    Tracks (l ++ [a]) (Function.update table a (some next)) (next + 1) where
  entry b hb := by
    by_cases hba : b = a
    · rw [hba, Function.update_self, h.next_eq, number_concat_self ha]
    · have hbl : b ∈ l := (List.mem_append.mp hb).resolve_right fun hb =>
        hba (List.mem_singleton.mp hb)
      rw [Function.update_of_ne hba, h.entry b hbl, number_append hbl]
  no_entry b hb := by
    rw [List.mem_append, List.mem_singleton, not_or] at hb
    rw [Function.update_of_ne hb.2, h.no_entry b hb.1]
  next_eq := by simp [h.next_eq, ha]

end FirstTouch
