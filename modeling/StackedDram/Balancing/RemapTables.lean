import Mathlib.Logic.Function.Basic
import Mathlib.Order.Interval.Set.Defs
import StackedDram.Basic
import StackedDram.Library.Involution
import StackedDram.Library.Machine

/-!
# Remap tables of banks and vaults

`BankRemappingStructure` of `bank_remap.cc` and `VaultRemappingStructure` of `vault_remap.cc` remap
by exchanging two numbers: `swap` makes two entries point to each other and sends their former
partners back to themselves. The two classes do the same with different entries, so `swapEntries`
is stated for whatever is a `RemapEntry`.

`IsRemapTable` is what every table satisfies, and `IsSwap` what one call changes. The order of the
writes matters: the call keeps the invariant under the guard with which `balanceBanks` and
`balanceVaults` call it (`MaySwap`, `swap_involution`), and not for two entries that are partners
already (`IsRemapTable.not_involutive_swap`).
-/

namespace StackedDram

/-! ## Entries -/

/-- The statistics of an entry that `clearStats` clears. -/
structure RemapStats where
  tACT : ℕ
  tPRE : ℕ
  tRD : ℕ
  tWR : ℕ
  reads : BitVec 32
  writes : BitVec 32
  rowHits : BitVec 32
  deriving DecidableEq

/-- All of them zero. -/
def RemapStats.zero : RemapStats := ⟨0, 0, 0, 0, 0, 0, 0⟩

/-- The count of one access, by `accessOnce` of both classes. -/
def RemapStats.count (s : RemapStats) (type : AccessType) : RemapStats :=
  if type = .write then { s with writes := s.writes + 1 } else { s with reads := s.reads + 1 }

/-- What `swap` does with the entries of a table, and what it relies on. -/
class RemapEntry (ε : Type) where
  /-- `m_idx`, the logical number. -/
  idx : ε → ℕ
  /-- `m_ridx`, the physical number. -/
  ridx : ε → ℕ
  valid : ε → Bool
  /-- `m_orig`: the entry points to itself. -/
  orig : ε → Bool
  setChangedBit : ε → Bool → ε
  clearAccess : ε → ε
  remapTo : ε → ℕ → ε
  idx_setChangedBit : ∀ e b, idx (setChangedBit e b) = idx e
  ridx_setChangedBit : ∀ e b, ridx (setChangedBit e b) = ridx e
  orig_setChangedBit : ∀ e b, orig (setChangedBit e b) = orig e
  idx_clearAccess : ∀ e, idx (clearAccess e) = idx e
  ridx_clearAccess : ∀ e, ridx (clearAccess e) = ridx e
  orig_clearAccess : ∀ e, orig (clearAccess e) = orig e
  idx_remapTo : ∀ e i, idx (remapTo e i) = idx e
  ridx_remapTo : ∀ e i, ridx (remapTo e i) = i
  valid_remapTo : ∀ e i, valid (remapTo e i) = false
  orig_remapTo : ∀ e i, orig (remapTo e i) = decide (i = idx e)

namespace RemapEntry

attribute [simp] idx_setChangedBit ridx_setChangedBit orig_setChangedBit idx_clearAccess
  ridx_clearAccess orig_clearAccess idx_remapTo ridx_remapTo valid_remapTo orig_remapTo

end RemapEntry

/-- `BankRemappingEntry`. -/
structure BankRemappingEntry where
  idx : ℕ
  ridx : ℕ
  valid : Bool
  orig : Bool
  changed : Bool
  nAccess : BitVec 32
  level : ℕ
  stats : RemapStats
  deriving DecidableEq

namespace BankRemappingEntry

/-- The constructor of `BankRemappingEntry`. -/
def new (idx : ℕ) : BankRemappingEntry where
  idx := idx
  ridx := idx
  valid := true
  orig := true
  changed := false
  nAccess := 0
  level := idx / 2
  stats := .zero

def setValidBit (e : BankRemappingEntry) (valid : Bool) : BankRemappingEntry := { e with valid }

def setChangedBit (e : BankRemappingEntry) (changed : Bool) : BankRemappingEntry :=
  { e with changed }

def clearAccess (e : BankRemappingEntry) : BankRemappingEntry := { e with nAccess := 0 }

/-- `BankRemappingEntry::remapTo`. -/
def remapTo (e : BankRemappingEntry) (idx : ℕ) : BankRemappingEntry :=
  { e with ridx := idx, stats := .zero, orig := decide (idx = e.idx) }.setValidBit false

/-- `BankRemappingEntry::accessOnce`. -/
def accessOnce (e : BankRemappingEntry) (type : AccessType) : BankRemappingEntry :=
  { e with nAccess := e.nAccess + 1, stats := e.stats.count type }

instance : RemapEntry BankRemappingEntry where
  idx := idx
  ridx := ridx
  valid := valid
  orig := orig
  setChangedBit := setChangedBit
  clearAccess := clearAccess
  remapTo := remapTo
  idx_setChangedBit _ _ := rfl
  ridx_setChangedBit _ _ := rfl
  orig_setChangedBit _ _ := rfl
  idx_clearAccess _ := rfl
  ridx_clearAccess _ := rfl
  orig_clearAccess _ := rfl
  idx_remapTo _ _ := rfl
  ridx_remapTo _ _ := rfl
  valid_remapTo _ _ := rfl
  orig_remapTo _ _ := rfl

end BankRemappingEntry

/-! ## Swapping -/

section Swap

open RemapEntry

variable {ε : Type} [RemapEntry ε]

/-- Write to the entry `arr[i]`. -/
def modifyEntry (arr : ℕ → ε) (i : ℕ) (f : ε → ε) : ℕ → ε := Function.update arr i (f (arr i))

/-- `setChangedBit(true)` and `clearAccess()`. -/
def markChanged (e : ε) : ε := clearAccess (setChangedBit e true)

/-- `swap` of both classes, and the number of copies `data_mov`. -/
def swapEntries (arr : ℕ → ε) (src des : ℕ) : (ℕ → ε) × BitVec 32 :=
  let arr := modifyEntry arr src markChanged
  let arr := modifyEntry arr des markChanged
  let sOrig := orig (arr src)
  let dOrig := orig (arr des)
  let srcDes := ridx (arr src)
  let desDes := ridx (arr des)
  let arr := modifyEntry arr src fun e => remapTo e des
  let arr := if !sOrig then modifyEntry arr srcDes fun e => remapTo e srcDes else arr
  let arr := if !dOrig then modifyEntry arr desDes fun e => remapTo e desDes else arr
  let arr := modifyEntry arr des fun e => remapTo e src
  let dataMov :=
    if (sOrig && dOrig) || src = des then 3
    else if (sOrig && !dOrig) || (!sOrig && dOrig) then 4
    else if !sOrig && !dOrig then 5
    -- the code prints a message here, and never gets here
    else 0
  (arr, dataMov)

section Fields

variable (arr : ℕ → ε) (i j k : ℕ)

omit [RemapEntry ε] in
theorem modifyEntry_of_ne {i j : ℕ} (h : j ≠ i) (f : ε → ε) : modifyEntry arr i f j = arr j :=
  Function.update_of_ne h _ _

omit [RemapEntry ε] in
/-- A field of the entries after a write to one of them. -/
theorem apply_modifyEntry {β : Type} (g : ε → β) (f : ε → ε) :
    g (modifyEntry arr i f j) = if j = i then g (f (arr i)) else g (arr j) := by
  by_cases h : j = i
  · subst h
    simp [modifyEntry]
  · rw [modifyEntry_of_ne arr h, if_neg h]

omit [RemapEntry ε] in
/-- A field that the write does not change. -/
theorem apply_modifyEntry_of_eq {β : Type} {g : ε → β} {f : ε → ε} (h : ∀ e, g (f e) = g e) :
    g (modifyEntry arr i f j) = g (arr j) := by
  rw [apply_modifyEntry _ _ _ g]
  split
  case isTrue hji => rw [h, hji]
  case isFalse => rfl

@[simp]
theorem ridx_modifyEntry_markChanged : ridx (modifyEntry arr i markChanged j) = ridx (arr j) :=
  apply_modifyEntry_of_eq arr i j (by simp [markChanged])

@[simp]
theorem orig_modifyEntry_markChanged : orig (modifyEntry arr i markChanged j) = orig (arr j) :=
  apply_modifyEntry_of_eq arr i j (by simp [markChanged])

@[simp]
theorem idx_modifyEntry_markChanged : idx (modifyEntry arr i markChanged j) = idx (arr j) :=
  apply_modifyEntry_of_eq arr i j (by simp [markChanged])

@[simp]
theorem idx_modifyEntry_remapTo :
    idx (modifyEntry arr i (fun e => remapTo e k) j) = idx (arr j) :=
  apply_modifyEntry_of_eq arr i j (by simp)

@[simp]
theorem ridx_modifyEntry_remapTo :
    ridx (modifyEntry arr i (fun e => remapTo e k) j) = if j = i then k else ridx (arr j) := by
  rw [apply_modifyEntry _ _ _ ridx, ridx_remapTo]

@[simp]
theorem valid_modifyEntry_remapTo :
    valid (modifyEntry arr i (fun e => remapTo e k) j) =
      if j = i then false else valid (arr j) := by
  rw [apply_modifyEntry _ _ _ valid, valid_remapTo]

@[simp]
theorem orig_modifyEntry_remapTo :
    orig (modifyEntry arr i (fun e => remapTo e k) j) =
      if j = i then decide (k = idx (arr i)) else orig (arr j) := by
  rw [apply_modifyEntry _ _ _ orig, orig_remapTo]

end Fields

variable (arr : ℕ → ε) (src des i : ℕ)

/-- Where the entries point after `swap`, for any table: the last write wins. -/
theorem ridx_swapEntries :
    ridx ((swapEntries arr src des).1 i) =
      if i = des then src
      else if orig (arr des) = false ∧ i = ridx (arr des) then i
      else if orig (arr src) = false ∧ i = ridx (arr src) then i
      else if i = src then des
      else ridx (arr i) := by
  cases hs : orig (arr src) <;> cases hd : orig (arr des) <;>
    simp only [swapEntries, orig_modifyEntry_markChanged, ridx_modifyEntry_markChanged, hs, hd,
      ridx_modifyEntry_remapTo, Bool.not_true, Bool.not_false, if_true, if_false,
      Bool.false_eq_true, Bool.true_eq_false, true_and, false_and] <;>
    split_ifs <;> simp_all

@[simp]
theorem idx_swapEntries : idx ((swapEntries arr src des).1 i) = idx (arr i) := by
  cases hs : orig (arr src) <;> cases hd : orig (arr des) <;> simp [swapEntries, hs, hd]

/-- After `swap` an entry is marked as original if it points to itself. Only an entry that is
left alone keeps its mark. -/
theorem orig_swapEntries :
    orig ((swapEntries arr src des).1 i) =
      if i = des ∨ (orig (arr des) = false ∧ i = ridx (arr des)) ∨
          (orig (arr src) = false ∧ i = ridx (arr src)) ∨ i = src then
        decide (ridx ((swapEntries arr src des).1 i) = idx (arr i))
      else orig (arr i) := by
  rw [ridx_swapEntries]
  cases hs : orig (arr src) <;> cases hd : orig (arr des) <;>
    simp only [swapEntries, orig_modifyEntry_markChanged, ridx_modifyEntry_markChanged, hs, hd,
      orig_modifyEntry_remapTo, idx_modifyEntry_remapTo, idx_modifyEntry_markChanged,
      Bool.not_true, Bool.not_false, if_true, if_false, Bool.false_eq_true, Bool.true_eq_false,
      true_and, false_and, false_or] <;>
    split_ifs <;> simp_all

/-- The entry of a former partner. -/
theorem valid_swapEntries_partner {i : ℕ} (hsrc : i ≠ src) (hdes : i ≠ des)
    (h : (orig (arr src) = false ∧ i = ridx (arr src)) ∨
      (orig (arr des) = false ∧ i = ridx (arr des))) :
    valid ((swapEntries arr src des).1 i) = false := by
  rcases h with ⟨horig, rfl⟩ | ⟨horig, rfl⟩
  · cases hd : orig (arr des) <;> simp [swapEntries, horig, hd, hdes]
  · cases hs : orig (arr src) <;> simp [swapEntries, horig, hs, hdes]

/-- The other entries. -/
theorem swapEntries_of_ne {i : ℕ} (hsrc : i ≠ src) (hdes : i ≠ des) (hsp : i ≠ ridx (arr src))
    (hdp : i ≠ ridx (arr des)) : (swapEntries arr src des).1 i = arr i := by
  cases hs : orig (arr src) <;> cases hd : orig (arr des) <;>
    simp [swapEntries, hs, hd, modifyEntry_of_ne, hsrc, hdes, hsp, hdp]

/-- What the writes of `swap` keep for one entry, `swap` keeps for all. -/
theorem forall_swapEntries {Q : ε → Prop} (hmark : ∀ e, Q e → Q (markChanged e))
    (hremap : ∀ e i, Q e → Q (remapTo e i)) (h : ∀ i, Q (arr i)) :
    ∀ i, Q ((swapEntries arr src des).1 i) := by
  -- one assignment to an entry, and one that is made under a condition
  have hmodify : ∀ {arr : ℕ → ε} {f : ε → ε} (i : ℕ), (∀ e, Q e → Q (f e)) → (∀ j, Q (arr j)) →
      ∀ j, Q (modifyEntry arr i f j) := fun {arr f} i hf harr j => by
    rw [apply_modifyEntry _ _ _ Q]
    split
    · exact hf _ (harr i)
    · exact harr j
  have hcond : ∀ {arr : ℕ → ε} (c : Bool) (i : ℕ), (∀ j, Q (arr j)) →
      ∀ j, Q ((if c then modifyEntry arr i fun e => remapTo e i else arr) j) :=
    fun {arr} c i harr => by
      cases c
      · exact harr
      · exact hmodify i (fun e => hremap e i) harr
  -- the statements of the swap, from the last to the first
  apply hmodify _ fun e => hremap e src
  apply hcond
  apply hcond
  apply hmodify _ fun e => hremap e des
  apply hmodify _ hmark
  exact hmodify _ hmark h

/-! ## The invariant of a table -/

/-- A table of `n` entries that point to each other in pairs or to themselves. -/
structure IsRemapTable (arr : ℕ → ε) (n : ℕ) : Prop where
  idx_eq : ∀ i, idx (arr i) = i
  involutive : Set.InvolutiveOn (fun i => ridx (arr i)) (Set.Iio n)
  orig_iff : ∀ i < n, orig (arr i) = true ↔ ridx (arr i) = i

/-- The condition under which `balanceBanks` and `balanceVaults` swap. -/
structure MaySwap (arr : ℕ → ε) (n src des : ℕ) : Prop where
  src_lt : src < n
  des_lt : des < n
  ne : des ≠ ridx (arr src)

/-- `arr'` is the table `arr` with the entries `src` and `des` swapped. -/
structure IsSwap (arr arr' : ℕ → ε) (src des : ℕ) : Prop where
  ridx_src : ridx (arr' src) = des
  ridx_des : ridx (arr' des) = src
  /-- The former partners point to themselves and have no valid content. -/
  partner : ∀ p, p = ridx (arr src) ∨ p = ridx (arr des) → p ≠ src → p ≠ des →
    ridx (arr' p) = p ∧ valid (arr' p) = false
  other : ∀ i, i ≠ src → i ≠ des → i ≠ ridx (arr src) → i ≠ ridx (arr des) → arr' i = arr i

variable {arr} {src des} {n : ℕ}

/-- In a table `orig` is false exactly for an entry that has a partner. -/
theorem IsRemapTable.orig_eq_false_iff (h : IsRemapTable arr n) {i : ℕ} (hi : i < n) :
    orig (arr i) = false ↔ ridx (arr i) ≠ i := by
  rw [← Bool.not_eq_true, h.orig_iff i hi]

/-- A write that leaves the three fields alone keeps the invariant. -/
theorem IsRemapTable.congr {arr' : ℕ → ε} (h : IsRemapTable arr n)
    (hidx : ∀ i, idx (arr' i) = idx (arr i)) (hridx : ∀ i, ridx (arr' i) = ridx (arr i))
    (horig : ∀ i, orig (arr' i) = orig (arr i)) : IsRemapTable arr' n where
  idx_eq i := (hidx i).trans (h.idx_eq i)
  involutive := h.involutive.congr hridx
  orig_iff i hi := by rw [horig, hridx, h.orig_iff i hi]

/-- The same for a write to one entry. -/
theorem IsRemapTable.modifyEntry (h : IsRemapTable arr n) (i : ℕ) {f : ε → ε}
    (hidx : ∀ e, idx (f e) = idx e) (hridx : ∀ e, ridx (f e) = ridx e)
    (horig : ∀ e, orig (f e) = orig e) : IsRemapTable (modifyEntry arr i f) n :=
  h.congr (fun j => apply_modifyEntry_of_eq arr i j hidx)
    (fun j => apply_modifyEntry_of_eq arr i j hridx)
    fun j => apply_modifyEntry_of_eq arr i j horig

/-- The same for a write to every entry below `m`. -/
theorem IsRemapTable.modifyAll (h : IsRemapTable arr n) (m : ℕ) {f : ε → ε}
    (hidx : ∀ e, idx (f e) = idx e) (hridx : ∀ e, ridx (f e) = ridx e)
    (horig : ∀ e, orig (f e) = orig e) :
    IsRemapTable (fun i => if i < m then f (arr i) else arr i) n := by
  refine h.congr (fun i => ?_) (fun i => ?_) fun i => ?_
  · split
    · exact hidx _
    · rfl
  · split
    · exact hridx _
    · rfl
  · split
    · exact horig _
    · rfl

/-- `swap` rewires the table. -/
theorem IsRemapTable.ridx_swapEntries_eq (h : IsRemapTable arr n) (hs : MaySwap arr n src des)
    (i : ℕ) :
    ridx ((swapEntries arr src des).1 i) = rewireTable (fun i => ridx (arr i)) src des i := by
  simp only [ridx_swapEntries, h.orig_eq_false_iff hs.src_lt, h.orig_eq_false_iff hs.des_lt,
    rewireTable]
  -- `src` is not the partner of `des`, so no later write undoes the one to `src`
  have hne : src ≠ ridx (arr des) := fun heq =>
    hs.ne (h.involutive.eq_of_apply_eq (f := fun i => ridx (arr i)) hs.des_lt heq.symm)
  split_ifs <;> grind

/-- `swap` keeps the invariant. -/
theorem IsRemapTable.swap (h : IsRemapTable arr n) (hs : MaySwap arr n src des) :
    IsRemapTable (swapEntries arr src des).1 n where
  idx_eq i := (idx_swapEntries arr src des i).trans (h.idx_eq i)
  involutive :=
    (h.involutive.rewire hs.src_lt hs.des_lt hs.ne).congr (h.ridx_swapEntries_eq hs)
  orig_iff i hi := by
    rw [orig_swapEntries]
    split
    case isTrue hwritten => rw [decide_eq_true_iff, h.idx_eq]
    case isFalse hkept =>
      -- the entry is not one of those that are written
      have hridx : ridx ((swapEntries arr src des).1 i) = ridx (arr i) := by
        rw [ridx_swapEntries]
        split_ifs <;> simp_all
      rw [hridx, h.orig_iff i hi]

theorem IsRemapTable.isSwap (h : IsRemapTable arr n) (hs : MaySwap arr n src des) :
    IsSwap arr (swapEntries arr src des).1 src des where
  ridx_src := by
    rw [h.ridx_swapEntries_eq hs, rewireTable]
    split_ifs <;> simp_all
  ridx_des := by rw [h.ridx_swapEntries_eq hs, rewireTable, if_pos rfl]
  partner p hp hsrc hdes := by
    -- `p` shared a physical unit with `src` or `des`, and is left with its own
    constructor
    · rw [h.ridx_swapEntries_eq hs, rewireTable, if_neg hdes, if_neg hsrc, if_pos hp]
    · refine valid_swapEntries_partner arr src des hsrc hdes (hp.imp ?_ ?_)
      · rintro rfl
        exact ⟨(h.orig_eq_false_iff hs.src_lt).mpr hsrc, rfl⟩
      · rintro rfl
        exact ⟨(h.orig_eq_false_iff hs.des_lt).mpr hdes, rfl⟩
  other i hsrc hdes hsp hdp := swapEntries_of_ne arr src des hsrc hdes hsp hdp

/-- Without the guard the table breaks: of two partners, `src` points to itself after the call and
`des` still to `src`. -/
theorem IsRemapTable.not_involutive_swap (h : IsRemapTable arr n) (hsrc : src < n)
    (hne : ridx (arr src) ≠ src) :
    ¬ Set.InvolutiveOn (fun i => ridx ((swapEntries arr src (ridx (arr src))).1 i))
      (Set.Iio n) := by
  intro hinv
  have hdes : ridx (arr src) < n := h.involutive.mem hsrc
  have hback : ridx (arr (ridx (arr src))) = src := h.involutive.apply_apply hsrc
  have horig : orig (arr (ridx (arr src))) = false :=
    (h.orig_eq_false_iff hdes).mpr (by rw [hback]; exact hne.symm)
  -- the partner of `src` is `des` itself, which `src` is then given back to
  have hsrcEnd : ridx ((swapEntries arr src (ridx (arr src))).1 src) = src := by
    rw [ridx_swapEntries, if_neg hne.symm, if_pos ⟨horig, hback.symm⟩]
  have hdesEnd : ridx ((swapEntries arr src (ridx (arr src))).1 (ridx (arr src))) = src := by
    rw [ridx_swapEntries, if_pos rfl]
  have happly := hinv.apply_apply hdes
  simp only [hdesEnd, hsrcEnd] at happly
  exact hne happly.symm

end Swap

/-! ## The two structures -/

/-- `BankRemappingStructure`. -/
structure BankRemappingStructure where
  arr : ℕ → BankRemappingEntry
  lastTime : ℕ
  currentTime : ℕ
  nBanks : ℕ
  copyTimes : BitVec 32

namespace BankRemappingStructure

/-- The constructor of `BankRemappingStructure`. -/
def new (bankNum : ℕ) : BankRemappingStructure where
  arr := .new
  lastTime := 0
  currentTime := 0
  nBanks := bankNum
  copyTimes := 0

/-- `BankRemappingStructure::swap`. -/
def swap (S : BankRemappingStructure) (src des : ℕ) : BankRemappingStructure :=
  let (arr, dataMov) := swapEntries S.arr src des
  { S with arr, copyTimes := S.copyTimes + dataMov }

def setValid (S : BankRemappingStructure) (idx : ℕ) : BankRemappingStructure :=
  { S with arr := modifyEntry S.arr idx fun e => e.setValidBit true }

def setInvalid (S : BankRemappingStructure) (idx : ℕ) : BankRemappingStructure :=
  { S with arr := modifyEntry S.arr idx fun e => e.setValidBit false }

/-- `BankRemappingStructure::clearAllAccess`. -/
def clearAllAccess (S : BankRemappingStructure) : BankRemappingStructure :=
  { S with
    arr := fun i => if i < S.nBanks then (S.arr i).clearAccess.setChangedBit false else S.arr i
    lastTime := S.currentTime }

/-- `BankRemappingStructure::accessOnce`. -/
def accessOnce (S : BankRemappingStructure) (idx : ℕ) (type : AccessType) (pktTime : ℕ) :
    BankRemappingStructure :=
  { S with
    currentTime := max S.currentTime pktTime
    arr := modifyEntry S.arr idx fun e => e.accessOnce type }

/-- Calls of `swap(src, des)` on a table of `n` banks. -/
def machine (n : ℕ) : Machine BankRemappingStructure (ℕ × ℕ) where
  init := new n
  step S call := S.swap call.1 call.2

end BankRemappingStructure

/-- `VaultRemappingEntry`. -/
structure VaultRemappingEntry where
  idx : ℕ
  ridx : ℕ
  bankNum : ℕ
  nAccess : BitVec 32
  /-- `m_bremap_table`, the table of the banks of the vault. -/
  bremapTable : BankRemappingStructure
  valid : Bool
  orig : Bool
  changed : Bool
  stats : RemapStats

namespace VaultRemappingEntry

/-- The constructor of `VaultRemappingEntry`. -/
def new (idx : ℕ) : VaultRemappingEntry where
  idx := idx
  ridx := idx
  bankNum := 8
  nAccess := 0
  bremapTable := .new 8
  valid := true
  orig := true
  changed := false
  stats := .zero

/-- `VaultRemappingEntry::setValidBit`; the banks of the vault follow it. -/
def setValidBit (e : VaultRemappingEntry) (valid : Bool) : VaultRemappingEntry :=
  { e with
    valid
    bremapTable := (List.range e.bankNum).foldl
      (fun S i => if valid then S.setValid i else S.setInvalid i) e.bremapTable }

def setChangedBit (e : VaultRemappingEntry) (changed : Bool) : VaultRemappingEntry :=
  { e with changed }

/-- `VaultRemappingEntry::clearAccess`. -/
def clearAccess (e : VaultRemappingEntry) : VaultRemappingEntry :=
  { e with nAccess := 0, bremapTable := e.bremapTable.clearAllAccess }

/-- `VaultRemappingEntry::remapTo`. -/
def remapTo (e : VaultRemappingEntry) (idx : ℕ) : VaultRemappingEntry :=
  { e with ridx := idx, stats := .zero, orig := decide (idx = e.idx) }.setValidBit false

/-- `VaultRemappingEntry::accessOnce`. -/
def accessOnce (e : VaultRemappingEntry) (bankIdx : ℕ) (type : AccessType) (pktTime : ℕ) :
    VaultRemappingEntry :=
  { e with
    nAccess := e.nAccess + 1
    stats := e.stats.count type
    bremapTable := e.bremapTable.accessOnce bankIdx type pktTime }

instance : RemapEntry VaultRemappingEntry where
  idx := idx
  ridx := ridx
  valid := valid
  orig := orig
  setChangedBit := setChangedBit
  clearAccess := clearAccess
  remapTo := remapTo
  idx_setChangedBit _ _ := rfl
  ridx_setChangedBit _ _ := rfl
  orig_setChangedBit _ _ := rfl
  idx_clearAccess _ := rfl
  ridx_clearAccess _ := rfl
  orig_clearAccess _ := rfl
  idx_remapTo _ _ := rfl
  ridx_remapTo _ _ := rfl
  valid_remapTo _ _ := rfl
  orig_remapTo _ _ := rfl

end VaultRemappingEntry

/-- `VaultRemappingStructure`. -/
structure VaultRemappingStructure where
  arr : ℕ → VaultRemappingEntry
  nClock : BitVec 64
  nVaults : ℕ
  lastTime : ℕ
  currentTime : ℕ
  copyTimes : BitVec 32

namespace VaultRemappingStructure

/-- The constructor of `VaultRemappingStructure`. -/
def new (vaultNum : ℕ) : VaultRemappingStructure where
  arr := .new
  nClock := 0
  nVaults := vaultNum
  lastTime := 0
  currentTime := 0
  copyTimes := 0

/-- `VaultRemappingStructure::swap`. -/
def swap (S : VaultRemappingStructure) (src des : ℕ) : VaultRemappingStructure :=
  let (arr, dataMov) := swapEntries S.arr src des
  { S with arr, copyTimes := S.copyTimes + dataMov }

/-- Calls of `swap(src, des)` on a table of `n` vaults. -/
def machine (n : ℕ) : Machine VaultRemappingStructure (ℕ × ℕ) where
  init := new n
  step S call := S.swap call.1 call.2

end VaultRemappingStructure

/-! ## Any number of swaps -/

section Runs

open RemapEntry

variable {ε σ : Type} [RemapEntry ε]

/-- However often `swap` is called under its guard, the table stays an involution, hence a
permutation, `orig` marks its fixed points, and the next call swaps. -/
def KeepsInvolution (M : Machine σ (ℕ × ℕ)) (arr : σ → ℕ → ε) (n : ℕ) : Prop :=
  ∀ calls, M.AllSteps (fun S call => MaySwap (arr S) n call.1 call.2) calls →
    IsRemapTable (arr (M.run calls)) n ∧
      Set.BijOn (fun i => ridx (arr (M.run calls) i)) (Set.Iio n) (Set.Iio n) ∧
      ∀ src des, MaySwap (arr (M.run calls)) n src des →
        IsSwap (arr (M.run calls)) (arr (M.run (calls ++ [(src, des)]))) src des

/-- The rule for both classes: the table is new at first, and a step calls `swapEntries`. -/
theorem keepsInvolution {M : Machine σ (ℕ × ℕ)} {arr : σ → ℕ → ε} {n : ℕ}
    (hinit : IsRemapTable (arr M.init) n)
    (hstep : ∀ S call, arr (M.step S call) = (swapEntries (arr S) call.1 call.2).1) :
    KeepsInvolution M arr n := by
  intro calls hcalls
  have htable : IsRemapTable (arr (M.run calls)) n :=
    Machine.invariant_of_allSteps (P := fun S => IsRemapTable (arr S) n) hinit
      (fun S call _ hS hguard => by
        rw [hstep]
        exact hS.swap hguard) calls hcalls
  refine ⟨htable, htable.involutive.bijOn, fun src des hguard => ?_⟩
  rw [Machine.run_concat, hstep]
  exact htable.isSwap hguard

/-- Both remap tables stay involutions. -/
theorem swap_involution (n : ℕ) :
    KeepsInvolution (BankRemappingStructure.machine n) BankRemappingStructure.arr n ∧
      KeepsInvolution (VaultRemappingStructure.machine n) VaultRemappingStructure.arr n := by
  constructor
  · apply keepsInvolution
    · exact ⟨fun _ => rfl, Set.InvolutiveOn.identity, fun _ _ => iff_of_true rfl rfl⟩
    · exact fun _ _ => rfl
  · apply keepsInvolution
    · exact ⟨fun _ => rfl, Set.InvolutiveOn.identity, fun _ _ => iff_of_true rfl rfl⟩
    · exact fun _ _ => rfl

/-- Six entries, of which the last call takes one from each of the first two pairs. -/
theorem swap_involution_sharing :
    let calls := [(0, 1), (2, 3), (0, 2)]
    let B := (BankRemappingStructure.machine 6).run calls
    let V := (VaultRemappingStructure.machine 6).run calls
    (IsRemapTable B.arr 6 ∧ (List.range 6).map (fun i => (B.arr i).ridx) = [2, 1, 0, 3, 4, 5]) ∧
      IsRemapTable V.arr 6 ∧
        (List.range 6).map (fun i => (V.arr i).ridx) = [2, 1, 0, 3, 4, 5] := by
  intro calls B V
  have hbanks : (BankRemappingStructure.machine 6).AllSteps
      (fun S call => MaySwap S.arr 6 call.1 call.2) ([] ++ [(0, 1)] ++ [(2, 3)] ++ [(0, 2)]) :=
    Machine.AllSteps.concat (Machine.AllSteps.concat (Machine.AllSteps.concat
      (Machine.allSteps_nil _) ⟨by decide, by decide, by decide⟩)
      ⟨by decide, by decide, by decide⟩) ⟨by decide, by decide, by decide⟩
  have hvaults : (VaultRemappingStructure.machine 6).AllSteps
      (fun S call => MaySwap S.arr 6 call.1 call.2) ([] ++ [(0, 1)] ++ [(2, 3)] ++ [(0, 2)]) :=
    Machine.AllSteps.concat (Machine.AllSteps.concat (Machine.AllSteps.concat
      (Machine.allSteps_nil _) ⟨by decide, by decide, by decide⟩)
      ⟨by decide, by decide, by decide⟩) ⟨by decide, by decide, by decide⟩
  exact ⟨⟨((swap_involution 6).1 calls hbanks).1, by decide⟩,
    ((swap_involution 6).2 calls hvaults).1, by decide⟩

end Runs
end StackedDram
