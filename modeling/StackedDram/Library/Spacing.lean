import Mathlib.Data.Int.Notation
import Mathlib.Data.List.Induction
import Mathlib.Order.MinMax

/-!
# Waits between events

Events have a kind and happen at a time. A table says for every kind of events which other kinds
have to wait after them, for how long, and after how many of them: after the `dist`-th last event of
a kind, and after those before it, an event of another kind has to wait for `val`.

`Waited` states this over the whole history of the events. A `Gate` decides it without the history:
it keeps, for every kind, the times of as many last events as the table looks back to, and the time
from which on the next event may happen. `Gate.next_after_le_iff` says that both agree.
-/

/-- What the table says about the kind `key`: it waits for `val` after the `dist`-th last event. -/
structure Wait (κ : Type*) where
  key : κ
  dist : ℕ
  val : ℤ

namespace Wait

variable {κ : Type*} [DecidableEq κ] {h : List (κ × ℤ)} {k c : κ} {t : ℤ}

/-! ## Histories -/

/-- The times of the events of a kind, the last one first. -/
def timesOf (k : κ) (h : List (κ × ℤ)) : List ℤ :=
  ((h.filter fun e => e.1 = k).map Prod.snd).reverse

@[simp]
theorem timesOf_nil : timesOf k [] = [] := rfl

@[simp]
theorem timesOf_concat_self : timesOf k (h ++ [(k, t)]) = t :: timesOf k h := by
  simp [timesOf]

theorem timesOf_concat_of_ne (hne : c ≠ k) : timesOf k (h ++ [(c, t)]) = timesOf k h := by
  simp [timesOf, hne]

theorem nonneg_of_mem_timesOf (hpos : ∀ e ∈ h, 0 ≤ e.2) {past : ℤ} (hpast : past ∈ timesOf k h) :
    0 ≤ past := by
  rw [timesOf, List.mem_reverse] at hpast
  obtain ⟨e, he, rfl⟩ := List.mem_map.mp hpast
  exact hpos e (List.mem_filter.mp he).1

/-- An event of the kind `c` may happen at the time `t`: it has waited for long enough after all
events that it has to wait for. -/
def Waited (table : κ → List (Wait κ)) (h : List (κ × ℤ)) (c : κ) (t : ℤ) : Prop :=
  ∀ k, ∀ w ∈ table k, w.key = c → ∀ past ∈ (timesOf k h).drop (w.dist - 1), past + w.val ≤ t

theorem waited_nil (table : κ → List (Wait κ)) : Waited table [] c t := by
  intro k w _ _ past hpast
  simp at hpast

omit [DecidableEq κ] in
/-- The entries from a position on, of a list with one more entry at its head. -/
theorem mem_drop_cons {α : Type*} {a x : α} {l : List α} {n : ℕ} :
    x ∈ (a :: l).drop n ↔ (a :: l)[n]? = some x ∨ x ∈ l.drop n := by
  induction n generalizing a l with
  | zero => simp [eq_comm]
  | succ n ih =>
    cases l with
    | nil => simp
    | cons b l => exact ih

/-- After one more event, the waits after it are to be kept as well. -/
theorem waited_concat {table : κ → List (Wait κ)} {t' : ℤ} :
    Waited table (h ++ [(k, t')]) c t ↔ Waited table h c t ∧
      ∀ w ∈ table k, w.key = c → ∀ past, (t' :: timesOf k h)[w.dist - 1]? = some past →
        past + w.val ≤ t := by
  constructor
  · intro hwaited
    refine ⟨fun k' w hw hkey past hpast => ?_, fun w hw hkey past hpast => ?_⟩
    · by_cases hk : k = k'
      · subst hk
        refine hwaited k w hw hkey past ?_
        rw [timesOf_concat_self, mem_drop_cons]
        exact Or.inr hpast
      · refine hwaited k' w hw hkey past ?_
        rwa [timesOf_concat_of_ne hk]
    · refine hwaited k w hw hkey past ?_
      rw [timesOf_concat_self, mem_drop_cons]
      exact Or.inl hpast
  · rintro ⟨hbefore, hlast⟩ k' w hw hkey past hpast
    by_cases hk : k = k'
    · subst hk
      rw [timesOf_concat_self, mem_drop_cons] at hpast
      rcases hpast with hpast | hpast
      · exact hlast w hw hkey past hpast
      · exact hbefore k w hw hkey past hpast
    · rw [timesOf_concat_of_ne hk] at hpast
      exact hbefore k' w hw hkey past hpast

end Wait

open Wait

/-- The state by which waits are decided. -/
structure Gate (κ : Type*) where
  /-- The time from which an event may happen; -1 if there is no restriction. -/
  next : κ → ℤ
  /-- The times of the last events, the last one first; -1 if there have been fewer. -/
  prev : κ → List ℤ

namespace Gate

variable {κ : Type*} [DecidableEq κ] (table : κ → List (Wait κ))

/-- How far the table looks back. -/
def depth (k : κ) : ℕ := ((table k).map Wait.dist).foldl max 0

/-- The gate before the first event. -/
def new : Gate κ where
  next _ := -1
  prev k := List.replicate (depth table k) (-1)

/-- The times of the last events after another one. -/
def history (g : Gate κ) (k : κ) (t : ℤ) : List ℤ :=
  if g.prev k = [] then [] else t :: (g.prev k).dropLast

/-- What a wait does to the times from which events may happen. -/
def raise (history : List ℤ) (next : κ → ℤ) (w : Wait κ) : κ → ℤ :=
  match history[w.dist - 1]? with
  | some past =>
    if past < 0 then next else Function.update next w.key (max (next w.key) (past + w.val))
  | none => next

/-- The gate after an event of the kind `k`. -/
def record (g : Gate κ) (k : κ) (t : ℤ) : Gate κ where
  next := (table k).foldl (raise (g.history k t)) g.next
  prev := Function.update g.prev k (g.history k t)

/-- The gate after the events of a history. -/
def after (h : List (κ × ℤ)) : Gate κ := h.foldl (fun g e => g.record table e.1 e.2) (new table)

theorem after_concat (h : List (κ × ℤ)) (e : κ × ℤ) :
    after table (h ++ [e]) = (after table h).record table e.1 e.2 := by
  simp [after]

variable {table} {g : Gate κ} {h : List (κ × ℤ)} {k c : κ} {t : ℤ}

omit [DecidableEq κ] in
theorem dist_le_depth {w : Wait κ} (hw : w ∈ table k) : w.dist ≤ depth table k := by
  have hmax : ∀ (l : List ℕ) (m : ℕ), m ≤ l.foldl max m ∧ ∀ d ∈ l, d ≤ l.foldl max m := by
    intro l
    induction l with
    | nil => exact fun m => ⟨le_rfl, by simp⟩
    | cons d l ih =>
      intro m
      obtain ⟨hm, hl⟩ := ih (max m d)
      refine ⟨le_trans (le_max_left m d) hm, fun d' hd' => ?_⟩
      rcases List.mem_cons.mp hd' with rfl | hd'
      · exact le_trans (le_max_right m d') hm
      · exact hl d' hd'
  exact (hmax _ 0).2 _ (List.mem_map_of_mem hw)

omit [DecidableEq κ] in
/-- One time fewer. -/
theorem dropLast_take_pad (l : List ℤ) (n : ℕ) :
    ((l ++ List.replicate (n + 1) (-1)).take (n + 1)).dropLast =
      (l ++ List.replicate (n + 1) (-1)).take n := by
  rw [List.dropLast_eq_take, List.take_take, List.length_take, List.length_append,
    List.length_replicate]
  congr 1
  omega

/-- The gate keeps the last times of every kind. -/
theorem prev_after (h : List (κ × ℤ)) (k : κ) :
    (after table h).prev k =
      (timesOf k h ++ List.replicate (depth table k) (-1)).take (depth table k) := by
  induction h using List.reverseRecOn with
  | nil => simp [after, new]
  | append_singleton h e ih =>
    obtain ⟨c, t⟩ := e
    rw [after_concat]
    by_cases hk : c = k
    · subst hk
      rw [timesOf_concat_self, record]
      dsimp only
      rw [Function.update_self, history, ih]
      cases hdepth : depth table c with
      | zero => simp
      | succ n => simp [dropLast_take_pad]
    · rw [timesOf_concat_of_ne hk, record]
      dsimp only
      rw [Function.update_of_ne (Ne.symm hk), ih]

/-- The times that the gate has of the last events after another one. -/
theorem history_after {n : ℕ} (hn : n < depth table k) :
    ((after table h).history k t)[n]? =
      (t :: timesOf k h ++ List.replicate (depth table k) (-1))[n]? := by
  obtain ⟨m, hm⟩ : ∃ m, depth table k = m + 1 := ⟨depth table k - 1, by omega⟩
  rw [history, prev_after, if_neg (by simp [hm]), hm, dropLast_take_pad, List.cons_append,
    ← List.take_succ_cons, List.getElem?_take_of_lt (by omega)]

/-- What the waits of a table raise. -/
theorem foldl_raise_le_iff (history : List ℤ) (ws : List (Wait κ)) (next : κ → ℤ) :
    ws.foldl (raise history) next c ≤ t ↔ next c ≤ t ∧
      ∀ w ∈ ws, w.key = c → ∀ past, history[w.dist - 1]? = some past → 0 ≤ past →
        past + w.val ≤ t := by
  induction ws generalizing next with
  | nil => simp
  | cons w ws ih =>
    rw [List.foldl_cons, ih, List.forall_mem_cons, ← and_assoc]
    refine and_congr_left fun _ => ?_
    rw [raise]
    cases hpast : history[w.dist - 1]? with
    | none => simp
    | some past =>
      dsimp only
      by_cases hneg : past < 0
      · rw [if_pos hneg]
        simp [Int.not_le.mpr hneg]
      · rw [if_neg hneg]
        by_cases hkey : w.key = c
        · subst hkey
          rw [Function.update_self, max_le_iff]
          simp [Int.not_lt.mp hneg]
        · rw [Function.update_of_ne (Ne.symm hkey)]
          simp [hkey]

/-- The gate opens when all waits of the table are over. -/
theorem next_after_le_iff (hdist : ∀ k, ∀ w ∈ table k, 1 ≤ w.dist) (hpos : ∀ e ∈ h, 0 ≤ e.2)
    (ht : -1 ≤ t) : (after table h).next c ≤ t ↔ Waited table h c t := by
  induction h using List.reverseRecOn with
  | nil => exact iff_of_true ht (waited_nil table)
  | append_singleton h e ih =>
    obtain ⟨k, t'⟩ := e
    have hbefore : ∀ e ∈ h, 0 ≤ e.2 := fun e he => hpos e (by simp [he])
    have hlast : 0 ≤ t' := hpos (k, t') (by simp)
    rw [after_concat, record]
    dsimp only
    rw [foldl_raise_le_iff, ih hbefore, waited_concat]
    refine and_congr_right fun _ => forall_congr' fun w => ?_
    refine forall_congr' fun hw => forall_congr' fun _ => forall_congr' fun past => ?_
    have hone := hdist k w hw
    have hle := dist_le_depth hw
    rw [history_after (by omega : w.dist - 1 < depth table k)]
    by_cases hlt : w.dist - 1 < (t' :: timesOf k h).length
    · -- the gate has kept the time that the wait looks back to
      rw [List.getElem?_append_left hlt]
      constructor
      · intro himp hpast
        refine himp hpast ?_
        rcases List.mem_cons.mp (List.mem_of_getElem? hpast) with rfl | hmem
        · exact hlast
        · exact nonneg_of_mem_timesOf hbefore hmem
      · exact fun himp hpast _ => himp hpast
    · -- there have been fewer events
      rw [List.getElem?_append_right (not_lt.mp hlt), List.getElem?_eq_none (not_lt.mp hlt)]
      refine iff_of_true (fun hpast hpos => ?_) (fun hpast => absurd hpast (by simp))
      have hpad := List.eq_of_mem_replicate (List.mem_of_getElem? hpast)
      omega

end Gate
