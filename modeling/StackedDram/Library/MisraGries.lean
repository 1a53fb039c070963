import Mathlib.Algebra.Order.BigOperators.Group.List
import Mathlib.Data.List.Count
import Mathlib.Data.List.Induction
import Mathlib.Data.List.Nodup
import Mathlib.Tactic.Linarith
import Mathlib.Tactic.Ring

/-!
# Frequent keys of a stream

The summary of Misra and Gries: at most `k` keys of a stream, each with a positive count. A key
that is observed is counted if it has an entry, gets one if there is room, and else costs every
entry one (a *round*), which drops the entries that were at one.

A round takes `k` off the stored counts and does not store the key observed, so it consumes `k + 1`
observations. `exists_rounds` states this as an account of the whole stream: stored counts and
`k + 1` per round make up the length, and no count falls behind by more than the number of rounds.

## Main results

* `count_le`: no key is overcounted;
* `deficit_le`: no key is undercounted by more than the length divided by `k + 1`;
* `mem_of_frequent`: every key that is more frequent than that has an entry.
-/

namespace MisraGries

variable {α : Type*} [DecidableEq α] {k : ℕ}

/-! ## Entries -/

/-- The count of a key in a list of entries, `0` if it has none. -/
def countIn (l : List (α × ℕ)) (a : α) : ℕ := (l.lookup a).getD 0

/-- Count the key `a`, which has an entry. -/
def bump (l : List (α × ℕ)) (a : α) : List (α × ℕ) :=
  l.map fun e => if e.1 = a then (e.1, e.2 + 1) else e

/-- Take one off every count and drop the entries that come to zero. -/
def decay (l : List (α × ℕ)) : List (α × ℕ) :=
  (l.map fun e => (e.1, e.2 - 1)).filter fun e => e.2 ≠ 0

@[simp]
theorem countIn_nil (a : α) : countIn [] a = 0 := rfl

@[simp]
theorem countIn_cons (e : α × ℕ) (l : List (α × ℕ)) (a : α) :
    countIn (e :: l) a = if a = e.1 then e.2 else countIn l a := by
  obtain ⟨key, count⟩ := e
  by_cases ha : a = key
  · simp [countIn, ha]
  · simp [countIn, List.lookup_cons, beq_eq_false_iff_ne.mpr ha, ha]

/-- What has no counter counts nothing. -/
theorem countIn_eq_zero {l : List (α × ℕ)} {a : α} (ha : a ∉ l.map Prod.fst) :
    countIn l a = 0 := by
  induction l with
  | nil => rfl
  | cons e l ih =>
    rw [List.map_cons, List.mem_cons, not_or] at ha
    rw [countIn_cons, if_neg ha.1, ih ha.2]

/-- The count of an entry. -/
theorem countIn_of_mem {l : List (α × ℕ)} (hl : (l.map Prod.fst).Nodup) {e : α × ℕ} (he : e ∈ l) :
    countIn l e.1 = e.2 := by
  induction l with
  | nil => cases he
  | cons e' l ih =>
    rw [List.map_cons, List.nodup_cons] at hl
    rw [countIn_cons]
    rcases List.mem_cons.mp he with rfl | he
    · rw [if_pos rfl]
    · -- the key is in the tail, so it is not the key of the head
      have hne : e.1 ≠ e'.1 := fun h => hl.1 (h ▸ List.mem_map_of_mem he)
      rw [if_neg hne, ih hl.2 he]

/-- Counting makes no new counter. -/
@[simp]
theorem keys_bump (l : List (α × ℕ)) (a : α) : (bump l a).map Prod.fst = l.map Prod.fst := by
  rw [bump, List.map_map]
  refine List.map_congr_left fun e _ => ?_
  by_cases he : e.1 = a <;> simp [he]

theorem bump_cons (e : α × ℕ) (l : List (α × ℕ)) (a : α) :
    bump (e :: l) a = (if e.1 = a then (e.1, e.2 + 1) else e) :: bump l a := rfl

/-- Nothing changes without a counter for it. -/
theorem bump_eq_self {l : List (α × ℕ)} {a : α} (ha : a ∉ l.map Prod.fst) : bump l a = l := by
  rw [bump, List.map_congr_left (g := id), List.map_id]
  intro e he
  have hea : e.1 ≠ a := by
    rintro rfl
    exact ha (List.mem_map_of_mem he)
  exact if_neg hea

omit [DecidableEq α] in
theorem decay_cons (e : α × ℕ) (l : List (α × ℕ)) :
    decay (e :: l) = if e.2 - 1 = 0 then decay l else (e.1, e.2 - 1) :: decay l := by
  by_cases he : e.2 - 1 = 0 <;> simp [decay, he]

omit [DecidableEq α] in
/-- A decay only drops counters. -/
theorem keys_decay_sublist (l : List (α × ℕ)) :
    ((decay l).map Prod.fst).Sublist (l.map Prod.fst) := by
  have h := (List.filter_sublist (l := l.map fun e => (e.1, e.2 - 1))
    (p := fun e => decide (e.2 ≠ 0))).map Prod.fst
  rwa [List.map_map] at h

/-- The other counters stay. -/
theorem countIn_bump_of_ne (l : List (α × ℕ)) {a b : α} (hba : b ≠ a) :
    countIn (bump l a) b = countIn l b := by
  induction l with
  | nil => rfl
  | cons e l ih =>
    rw [bump_cons, countIn_cons, countIn_cons, ih]
    by_cases hea : e.1 = a
    · rw [if_pos hea, if_neg (hea ▸ hba), if_neg (hea ▸ hba)]
    · rw [if_neg hea]

/-- One more is counted. -/
theorem countIn_bump_self {l : List (α × ℕ)} {a : α} (ha : a ∈ l.map Prod.fst) :
    countIn (bump l a) a = countIn l a + 1 := by
  induction l with
  | nil => cases ha
  | cons e l ih =>
    rw [bump_cons, countIn_cons, countIn_cons]
    by_cases hea : e.1 = a
    · simp [hea]
    · have hal : a ∈ l.map Prod.fst := (List.mem_cons.mp ha).resolve_left (Ne.symm hea)
      simp [hea, Ne.symm hea, ih hal]

/-- Every counter goes down by one. -/
theorem countIn_decay {l : List (α × ℕ)} (hl : (l.map Prod.fst).Nodup) (a : α) :
    countIn (decay l) a = countIn l a - 1 := by
  induction l with
  | nil => rfl
  | cons e l ih =>
    rw [List.map_cons, List.nodup_cons] at hl
    rw [decay_cons, countIn_cons]
    by_cases hzero : e.2 - 1 = 0
    · rw [if_pos hzero, ih hl.2]
      by_cases ha : a = e.1
      · -- the entry is dropped, and no later one has the same key
        rw [if_pos ha, hzero, ha, countIn_eq_zero hl.1]
      · rw [if_neg ha]
    · rw [if_neg hzero, countIn_cons, ih hl.2]
      by_cases ha : a = e.1
      · rw [if_pos ha, if_pos ha]
      · rw [if_neg ha, if_neg ha]

/-- All that is stored. -/
def total (l : List (α × ℕ)) : ℕ := (l.map Prod.snd).sum

omit [DecidableEq α] in
@[simp]
theorem total_cons (e : α × ℕ) (l : List (α × ℕ)) : total (e :: l) = e.2 + total l := by
  simp [total]

/-- The total goes up by one. -/
theorem total_bump {l : List (α × ℕ)} (hl : (l.map Prod.fst).Nodup) {a : α}
    (ha : a ∈ l.map Prod.fst) : total (bump l a) = total l + 1 := by
  induction l with
  | nil => cases ha
  | cons e l ih =>
    rw [List.map_cons, List.nodup_cons] at hl
    rw [bump_cons, total_cons, total_cons]
    by_cases hea : e.1 = a
    · rw [if_pos hea, bump_eq_self (hea ▸ hl.1)]
      omega
    · have hal : a ∈ l.map Prod.fst := (List.mem_cons.mp ha).resolve_left (Ne.symm hea)
      rw [if_neg hea, ih hl.2 hal, Nat.add_assoc]

omit [DecidableEq α] in
/-- The total goes down by one for each counter. -/
theorem total_decay {l : List (α × ℕ)} (hpos : ∀ e ∈ l, 1 ≤ e.2) :
    total (decay l) + l.length = total l := by
  induction l with
  | nil => rfl
  | cons e l ih =>
    have he := hpos e List.mem_cons_self
    have hl := ih fun e' he' => hpos e' (List.mem_cons_of_mem _ he')
    rw [decay_cons, List.length_cons, total_cons]
    split_ifs with hzero
    · omega
    · rw [total_cons]
      omega

/-! ## Summaries -/

/-- A summary with room for `k` keys. -/
structure Summary (α : Type*) (k : ℕ) where
  /-- The keys with their counts. -/
  entries : List (α × ℕ)
  /-- No key has two entries. -/
  nodup : (entries.map Prod.fst).Nodup
  /-- An entry whose count comes to zero is dropped. -/
  pos : ∀ e ∈ entries, 1 ≤ e.2
  length_le : entries.length ≤ k

namespace Summary

/-- The count of a key. -/
def count (s : Summary α k) (a : α) : ℕ := countIn s.entries a

omit [DecidableEq α] in
/-- The summary of the empty stream. -/
def empty : Summary α k := ⟨[], List.nodup_nil, by simp, Nat.zero_le k⟩

/-- Observe a key that has an entry. -/
def hit (s : Summary α k) (a : α) : Summary α k where
  entries := bump s.entries a
  nodup := by rw [keys_bump]; exact s.nodup
  pos e he := by
    obtain ⟨e', he', rfl⟩ := List.mem_map.mp he
    have := s.pos e' he'
    split_ifs
    · exact Nat.le_add_left 1 e'.2
    · exact this
  length_le := by rw [bump, List.length_map]; exact s.length_le

/-- Give an entry to a key that has none. -/
def enter (s : Summary α k) (a : α) (ha : a ∉ s.entries.map Prod.fst)
    (hroom : s.entries.length < k) : Summary α k where
  entries := (a, 1) :: s.entries
  nodup := List.nodup_cons.mpr ⟨ha, s.nodup⟩
  pos e he := by
    rcases List.mem_cons.mp he with rfl | he
    · exact le_refl 1
    · exact s.pos e he
  length_le := hroom

/-- The round that an observation costs for which there is no room. -/
def round (s : Summary α k) : Summary α k where
  entries := decay s.entries
  nodup := s.nodup.sublist (keys_decay_sublist s.entries)
  pos e he := Nat.one_le_iff_ne_zero.mpr (by simpa using (List.mem_filter.mp he).2)
  length_le :=
    (List.length_filter_le _ _).trans ((List.length_map _).le.trans s.length_le)

/-- Observe the key `a`. -/
def observe (s : Summary α k) (a : α) : Summary α k :=
  if ha : a ∈ s.entries.map Prod.fst then s.hit a
  else if hroom : s.entries.length < k then s.enter a ha hroom
  else s.round

/-- What an observation does to the counts: either it is stored, or it costs a round. -/
theorem observe_cases (s : Summary α k) (a : α) :
    (total (s.observe a).entries = total s.entries + 1 ∧
      ∀ b, (s.observe a).count b = s.count b + if b = a then 1 else 0) ∨
    (total (s.observe a).entries + k = total s.entries ∧ s.count a = 0 ∧
      ∀ b, (s.observe a).count b = s.count b - 1) := by
  rw [observe]
  -- `a` has a counter, or there is room for one, or all counters go down
  split_ifs with ha hroom
  · refine Or.inl ⟨total_bump s.nodup ha, fun b => ?_⟩
    by_cases hb : b = a
    · subst hb
      rw [if_pos rfl]
      exact countIn_bump_self ha
    · rw [if_neg hb]
      exact countIn_bump_of_ne s.entries hb
  · refine Or.inl ⟨(total_cons ..).trans (Nat.add_comm 1 _), fun b => ?_⟩
    show countIn ((a, 1) :: s.entries) b = countIn s.entries b + _
    rw [countIn_cons]
    by_cases hb : b = a
    · rw [if_pos hb, if_pos hb, hb, countIn_eq_zero ha]
    · rw [if_neg hb, if_neg hb, Nat.add_zero]
  · have hfull : s.entries.length = k := Nat.le_antisymm s.length_le (Nat.not_lt.mp hroom)
    have htotal := total_decay s.pos
    rw [hfull] at htotal
    exact Or.inr ⟨htotal, countIn_eq_zero ha, fun b => countIn_decay s.nodup b⟩

/-! ## Streams -/

/-- The summary of a stream. -/
def ofStream (k : ℕ) (l : List α) : Summary α k := l.foldl observe empty

/-- The summary of a stream with one more element. -/
theorem ofStream_concat (k : ℕ) (l : List α) (a : α) :
    ofStream k (l ++ [a]) = (ofStream k l).observe a := by
  simp [ofStream]

/-- The account of a stream: its length is what is stored and `k + 1` for each round, and the count
of a key lies behind its frequency by at most the number of rounds. -/
theorem exists_rounds (k : ℕ) (l : List α) :
    ∃ rounds, total (ofStream k l).entries + rounds * (k + 1) = l.length ∧
      ∀ a, (ofStream k l).count a ≤ l.count a ∧ l.count a ≤ (ofStream k l).count a + rounds := by
  induction l using List.reverseRecOn with
  | nil => exact ⟨0, by simp [ofStream, empty, total], fun a => ⟨le_refl 0, le_refl 0⟩⟩
  | append_singleton l x ih =>
    obtain ⟨rounds, hlength, hcount⟩ := ih
    have hfreq : ∀ a, (l ++ [x]).count a = l.count a + if a = x then 1 else 0 := by
      intro a
      rw [List.count_append, List.count_singleton]
      simp only [beq_iff_eq, eq_comm (a := x)]
    rw [ofStream_concat, List.length_append, List.length_singleton]
    rcases observe_cases (ofStream k l) x with ⟨htotal, hstored⟩ | ⟨htotal, hzero, hround⟩
    · refine ⟨rounds, by omega, fun a => ?_⟩
      have := hcount a
      rw [hstored, hfreq]
      omega
    · refine ⟨rounds + 1, by rw [Nat.add_one_mul]; omega, fun a => ?_⟩
      have := hcount a
      rw [hround, hfreq]
      -- the key that is not stored has count zero, so the round takes nothing off its count
      split_ifs with ha
      · subst ha
        omega
      · omega

/-- No key is overcounted. -/
theorem count_le (k : ℕ) (l : List α) (a : α) : (ofStream k l).count a ≤ l.count a := by
  obtain ⟨_, -, hcount⟩ := exists_rounds k l
  exact (hcount a).1

/-- No key is undercounted by more than the length of the stream divided by `k + 1`. -/
theorem deficit_le (k : ℕ) (l : List α) (a : α) :
    l.count a - (ofStream k l).count a ≤ l.length / (k + 1) := by
  obtain ⟨rounds, hlength, hcount⟩ := exists_rounds k l
  have hrounds : rounds ≤ l.length / (k + 1) := by
    rw [Nat.le_div_iff_mul_le (Nat.add_one_pos k)]
    omega
  have := (hcount a).2
  omega

/-- A key that is frequent enough has an entry. -/
theorem mem_of_frequent {k : ℕ} {l : List α} {a : α} (ha : l.length / (k + 1) < l.count a) :
    a ∈ (ofStream k l).entries.map Prod.fst := by
  by_contra hmem
  have hzero : (ofStream k l).count a = 0 := countIn_eq_zero hmem
  have hdeficit := deficit_le k l a
  omega

end Summary

end MisraGries
