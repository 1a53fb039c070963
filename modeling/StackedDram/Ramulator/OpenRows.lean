import StackedDram.Library.OpenRows
import StackedDram.Ramulator.Queues

/-!
# Rows that a channel opens

The commands that a channel issues for reads and writes, against the states of its banks.
-/

namespace StackedDram.Ramulator

namespace RamDRAM

variable {count : Level → ℕ} {t rank bank : RamDRAM} {cmd : Command} {addr : Level → ℤ} {r b : ℕ}

/-! ## Banks -/

/-- A bank of a channel, by its numbers. -/
def bank? (t : RamDRAM) (r b : ℕ) : Option RamDRAM :=
  t.children[r]?.bind fun rank => rank.children[b]?

/-- A bank is a child of a child of the channel. -/
theorem bank?_eq_some : t.bank? r b = some bank ↔
    ∃ rank, t.children[r]? = some rank ∧ rank.children[b]? = some bank :=
  Option.bind_eq_some_iff

/-- The banks of the tree are those with numbers below the counts. -/
theorem IsChannel.exists_bank (h : t.IsChannel count) (hr : r < count .rank)
    (hb : b < count .bank) :
    ∃ rank bank, t.children[r]? = some rank ∧ rank.children[b]? = some bank := by
  have hlt : r < t.children.length := h.length.symm ▸ hr
  have hrank := h.isRank _ (List.getElem_mem hlt)
  have hlt' : b < (t.children[r]).children.length := hrank.length.symm ▸ hb
  exact ⟨t.children[r], (t.children[r]).children[b], List.getElem?_eq_getElem hlt,
    List.getElem?_eq_getElem hlt'⟩

/-- A child by a number that is not negative. -/
theorem child?_natCast (t : RamDRAM) (i : ℕ) : t.child? (i : ℤ) = t.children[i]? := by
  rw [child?, if_neg (by omega), Int.toNat_natCast]

/-- A change of one entry of a list only depends on what it does to this entry. -/
theorem modify_congr {α : Type*} {l : List α} {i : ℕ} {f g : α → α}
    (h : ∀ x, l[i]? = some x → f x = g x) : l.modify i f = l.modify i g := by
  apply List.ext_getElem?
  intro j
  rw [List.getElem?_modify, List.getElem?_modify]
  by_cases hij : i = j
  · subst hij
    cases hx : l[i]? with
    | none => rfl
    | some x => simp [h x hx]
  · simp [hij]

/-- A bank carries out a command by its table. -/
theorem IsBank.updateStateFrom_eq (h : bank.IsBank) (depth : ℕ) (cmd : Command)
    (addr : Level → ℤ) :
    RamDRAM.updateStateFrom (depth + 1) bank cmd addr = bank.applyLambda cmd (addr .row) := by
  have hchildren := (h.applyLambda cmd (addr bank.level.below)).children
  rw [updateStateFrom_succ]
  dsimp only
  rw [if_pos (Or.inr (Or.inl hchildren)), h.level]
  rfl

/-- A rank that does not stop a command passes it on to a bank. -/
theorem IsRank.children_updateStateFrom {banks : ℕ} (h : rank.IsRank banks) (depth : ℕ)
    (hscope : scope cmd ≠ .rank) (hb : addr .bank = b) :
    (RamDRAM.updateStateFrom (depth + 2) rank cmd addr).children =
      rank.children.modify b fun bank => bank.applyLambda cmd (addr .row) := by
  obtain ⟨hlevel, hchildren⟩ := h.applyLambda cmd (addr rank.level.below)
  rw [updateStateFrom_succ]
  dsimp only
  have hbelow : rank.level.below = .bank := by rw [h.level]; rfl
  rw [hbelow, hb] at hlevel hchildren
  rw [hbelow, hb, hlevel, hchildren]
  -- a rank without banks is left alone
  by_cases hnil : rank.children = []
  · rw [if_pos (Or.inr (Or.inl hnil)), hchildren, hnil, List.modify_nil]
  · have hgo : ¬ (Level.rank = scope cmd ∨ rank.children = [] ∨ (b : ℤ) < 0) := by
      rintro (hstop | hnone | hneg)
      · exact hscope hstop.symm
      · exact hnil hnone
      · omega
    -- the command goes on to the bank of the address, and stops there
    rw [if_neg hgo]
    show List.modify _ _ _ = _
    rw [Int.toNat_natCast]
    apply modify_congr
    intro bank hbank
    exact (h.isBank bank (List.mem_of_getElem? hbank)).updateStateFrom_eq depth cmd addr

/-- A command changes the bank that it is for, and no other. -/
theorem IsChannel.bank?_updateState (h : t.IsChannel count) (htree : r < count .rank)
    (hr : addr .rank = r) (hb : addr .bank = b) (hscope : scope cmd ≠ .rank) (r' b' : ℕ) :
    (t.updateState cmd addr).bank? r' b' =
      if r' = r ∧ b' = b then (t.bank? r b).map fun bank => bank.applyLambda cmd (addr .row)
      else t.bank? r' b' := by
  have hlt : r < t.children.length := h.length.symm ▸ htree
  have hget : t.children[r]? = some t.children[r] := List.getElem?_eq_getElem hlt
  have hchild : t.child? (addr .rank) = some t.children[r] := by rw [hr, child?_natCast, hget]
  have hrank := h.isRank _ (List.mem_of_getElem? hget)
  rw [h.updateState_eq hchild, hr, Int.toNat_natCast, bank?, bank?]
  dsimp only
  rw [List.getElem?_modify]
  -- the command goes to one rank, and there to one bank
  by_cases hr' : r = r'
  · subst hr'
    rw [hget]
    have hchildren := hrank.children_updateStateFrom 2 hscope hb
    simp only [if_true, Option.map_eq_map, Option.map_some, Option.bind_some, true_and, bank?]
    rw [hchildren, List.getElem?_modify, hget]
    by_cases hb' : b = b'
    · subst hb'
      simp
    · simp [hb', Ne.symm hb']
  · have hne : ¬ (r' = r ∧ b' = b) := fun h => hr' h.1.symm
    simp [hr', hne, bank?]

/-- A bank says what has to come before an access. -/
theorem IsBank.decodeFrom_access (h : bank.IsBank) (depth : ℕ) (hcmd : cmd = .rd ∨ cmd = .wr) :
    decodeFrom (depth + 1) bank cmd addr = prereq.accessPrereq cmd bank (addr .row) := by
  have hprereq : prereq .bank cmd = some (prereq.accessPrereq cmd) := by
    rcases hcmd with rfl | rfl <;> rfl
  -- the answer of a bank is never `max`, so the walk ends with it
  have hnotMax : prereq.accessPrereq cmd bank (addr .row) ≠ some .max := by
    rw [prereq.accessPrereq]
    rcases hcmd with rfl | rfl <;> split <;> (try split) <;> simp
  rw [decodeFrom_succ, h.level]
  dsimp only
  rw [hprereq]
  show (prereq.accessPrereq cmd bank (addr .row)).bind _ = _
  cases hcmd' : prereq.accessPrereq cmd bank (addr .row) with
  | none => rfl
  | some first =>
    rw [hcmd'] at hnotMax
    exact if_pos fun hmax => hnotMax (congrArg some hmax)

/-- A rank that is powered up leaves that to its banks. -/
theorem IsRank.decodeFrom_access {banks : ℕ} (h : rank.IsRank banks) (depth : ℕ)
    (hpower : rank.state = .powerUp) (hb : addr .bank = b) (hbank : rank.children[b]? = some bank)
    (hcmd : cmd = .rd ∨ cmd = .wr) :
    decodeFrom (depth + 1) rank cmd addr = decodeFrom depth bank cmd addr := by
  have hgo : ¬ ((b : ℤ) < 0 ∨ rank.children = []) := by
    rintro (hneg | hnil)
    · omega
    · simp [hnil] at hbank
  have hbelow : Level.rank.below = .bank := rfl
  rw [decodeFrom_succ, h.level, hbelow, hb]
  dsimp only
  rw [if_neg hgo, child?_natCast, hbank]
  -- nothing has to come first at the rank
  rcases hcmd with rfl | rfl <;> simp [prereq, hpower]

/-- What has to come before an access to a bank of a rank that is powered up. -/
theorem IsChannel.decode_access (h : t.IsChannel count) (hr : addr .rank = r) (hb : addr .bank = b)
    (hrank : t.children[r]? = some rank) (hbank : rank.children[b]? = some bank)
    (hpower : rank.state = .powerUp) (hcmd : cmd = .rd ∨ cmd = .wr) :
    t.decode cmd addr = prereq.accessPrereq cmd bank (addr .row) := by
  have hrank' := h.isRank rank (List.mem_of_getElem? hrank)
  have hgo : ¬ ((r : ℤ) < 0 ∨ t.children = []) := by
    rintro (hneg | hnil)
    · omega
    · simp [hnil] at hrank
  have hprereq : prereq .channel cmd = none := by rcases hcmd with rfl | rfl <;> rfl
  have hbelow : Level.channel.below = .rank := rfl
  -- the channel asks for nothing, then the rank, then the bank
  show decodeFrom (4 + 1) t cmd addr = _
  rw [decodeFrom_succ, h.level, hbelow, hr]
  dsimp only
  rw [hprereq]
  dsimp only
  rw [if_neg hgo, child?_natCast, hrank]
  show decodeFrom (3 + 1) rank cmd addr = _
  rw [hrank'.decodeFrom_access 3 hpower hb hbank hcmd]
  exact (hrank'.isBank bank (List.mem_of_getElem? hbank)).decodeFrom_access 2 hcmd

/-! ## Open rows of the banks -/

/-- The state of the bank is that of a bank with the open row, if there is one. -/
def HasRow (bank : RamDRAM) : Option (OpenRow ℤ) → Prop
  | none => bank.state = .closed ∧ bank.rowState = fun _ => none
  | some o => bank.state = .opened ∧
      bank.rowState = Function.update (fun _ => none) o.row (some .opened)

/-- A closed bank has to open a row first. -/
theorem accessPrereq_of_none (h : bank.HasRow none) (cmd : Command) (row : ℤ) :
    prereq.accessPrereq cmd bank row = some .act := by
  rw [prereq.accessPrereq, h.1]

/-- A bank with an open row has to close it first, if it is another one. -/
theorem accessPrereq_of_some {o : OpenRow ℤ} (h : bank.HasRow (some o)) (cmd : Command) (row : ℤ) :
    prereq.accessPrereq cmd bank row = some (if row = o.row then cmd else .pre) := by
  rw [prereq.accessPrereq, h.1]
  dsimp only
  rw [h.2]
  by_cases heq : row = o.row
  · rw [if_pos heq, heq, Function.update_self]
    rfl
  · rw [if_neg heq, Function.update_of_ne heq]
    rfl

/-- All ranks are powered up, and the banks have the open rows. -/
structure HasRows (t : RamDRAM) (s : OpenRows (ℤ × ℤ) ℤ) : Prop where
  powerUp : ∀ rank ∈ t.children, rank.state = .powerUp
  hasRow : ∀ (r b : ℕ) bank, t.bank? r b = some bank → bank.HasRow (s (r, b))

/-- The commands that are issued for reads, writes and refreshes change no rank. -/
def KeepsRanks : Command → Prop
  | .act | .pre | .rd | .wr | .ref => True
  | _ => False

/-- A command for a bank leaves the state of its rank. -/
theorem IsRank.state_updateStateFrom {banks : ℕ} (h : rank.IsRank banks) (depth : ℕ)
    (hcmd : KeepsRanks cmd) (addr : Level → ℤ) :
    (RamDRAM.updateStateFrom depth rank cmd addr).state = rank.state := by
  cases depth with
  | zero => rfl
  | succ depth =>
    have hlambda (childId : ℤ) : (RamDRAM.applyLambda rank cmd childId).state = rank.state := by
      unfold RamDRAM.applyLambda
      rw [h.level]
      cases cmd <;> first | rfl | exact hcmd.elim
    rw [updateStateFrom_succ]
    dsimp only
    split
    · exact hlambda _
    · exact hlambda _

/-- All ranks stay powered up. -/
theorem IsChannel.powerUp_updateState (h : t.IsChannel count)
    (hpower : ∀ rank ∈ t.children, rank.state = .powerUp) (hcmd : KeepsRanks cmd)
    (hr : addr .rank = r) (htree : r < count .rank) :
    ∀ rank ∈ (t.updateState cmd addr).children, rank.state = .powerUp := by
  have hlt : r < t.children.length := h.length.symm ▸ htree
  have hchild : t.child? (addr .rank) = some t.children[r] := by
    rw [hr, child?_natCast, List.getElem?_eq_getElem hlt]
  rw [h.updateState_eq hchild]
  have hboth : ∀ rank ∈ t.children, rank.IsRank (count .bank) ∧ rank.state = .powerUp :=
    fun rank hrank => ⟨h.isRank rank hrank, hpower rank hrank⟩
  have hafter := forall_mem_modify (f := fun child => updateStateFrom 4 child cmd addr) hboth
    (fun rank hrank => ⟨hrank.1.updateStateFrom 4 cmd addr,
      (hrank.1.state_updateStateFrom 4 hcmd addr).trans hrank.2⟩) (addr .rank).toNat
  exact fun rank hrank => (hafter rank hrank).2

/-- A refresh changes no state. -/
theorem IsChannel.updateState_ref (h : t.IsChannel count) (htree : r < count .rank)
    (hr : addr .rank = r) : t.updateState .ref addr = t := by
  have hlt : r < t.children.length := h.length.symm ▸ htree
  have hget : t.children[r]? = some t.children[r] := List.getElem?_eq_getElem hlt
  have hchild : t.child? (addr .rank) = some t.children[r] := by rw [hr, child?_natCast, hget]
  have hsame : ∀ rank, t.children[r]? = some rank → updateStateFrom 4 rank .ref addr = rank := by
    intro rank hrank
    have hlevel : rank.level = .rank := (h.isRank rank (List.mem_of_getElem? hrank)).level
    have hlambda : rank.applyLambda .ref (addr rank.level.below) = rank := by
      unfold RamDRAM.applyLambda
      rw [hlevel]
      rfl
    -- a refresh stops at the rank, which it leaves as it is
    have hstop : rank.level = scope .ref := hlevel
    rw [updateStateFrom_succ]
    dsimp only
    rw [hlambda, if_pos (Or.inl hstop)]
  have hmodify : t.children.modify r (fun child => updateStateFrom 4 child .ref addr) =
      t.children :=
    (modify_congr hsame).trans (List.modify_id r t.children)
  rw [h.updateState_eq hchild, hr, Int.toNat_natCast, hmodify]
  cases t
  rfl

end RamDRAM

/-! ## Commands for rows -/

/-- What an issued command does to the rows of its bank. -/
def Issued.rowCommand (e : Issued) : Option (RowCommand (ℤ × ℤ) ℤ) :=
  let bank := (e.addrVec .rank, e.addrVec .bank)
  match e.cmd with
  | .act => some (.open bank (e.addrVec .row))
  | .rd | .wr => some (.access bank (e.addrVec .row))
  | .pre => some (.close bank)
  | _ => none

/-- The rows that are open after commands. -/
def rowsAfter (h : List Issued) : OpenRows (ℤ × ℤ) ℤ := .after (h.filterMap Issued.rowCommand)

/-- The open rows after an issued command. -/
def stepRows (s : OpenRows (ℤ × ℤ) ℤ) (e : Issued) : OpenRows (ℤ × ℤ) ℤ :=
  match e.rowCommand with
  | none => s
  | some cmd => s.step cmd

/-- The open rows after one more command. -/
theorem rowsAfter_concat (h : List Issued) (e : Issued) :
    rowsAfter (h ++ [e]) = stepRows (rowsAfter h) e := by
  rw [rowsAfter, List.filterMap_append, stepRows]
  cases hcmd : e.rowCommand with
  | none => simp [hcmd, rowsAfter]
  | some cmd => simp [hcmd, rowsAfter, OpenRows.after_concat]

/-- The request is for a bank of the channel. -/
def InBank (hbm : HBM) (channelId : ℕ) (content : RamRequest.Content) : Prop :=
  ∃ r b, (Node.bank r b).InTree hbm.count ∧ (Node.bank r b).On channelId content.addrVec

/-- The command keeps the protocol of the rows, and is one of those that are for rows or for the
refresh of a rank. -/
def RowLegal (s : OpenRows (ℤ × ℤ) ℤ) (e : Issued) : Prop :=
  RamDRAM.KeepsRanks e.cmd ∧ ∀ cmd, e.rowCommand = some cmd → s.Legal cmd

namespace RamDRAM

variable {count : Level → ℕ} {t bank : RamDRAM} {s : OpenRows (ℤ × ℤ) ℤ} {e : Issued} {r b : ℕ}

/-- A command for a row leaves the other banks as they are. -/
theorem stepRows_of_ne {key : ℤ × ℤ} (hkey : key ≠ (e.addrVec .rank, e.addrVec .bank)) :
    stepRows s e key = s key := by
  rw [stepRows, Issued.rowCommand]
  cases e.cmd <;> simp [OpenRows.step, Function.update_of_ne hkey]

/-- The open row of a bank after a command for it. -/
theorem HasRow.applyLambda (hbank : bank.IsBank)
    (h : bank.HasRow (s (e.addrVec .rank, e.addrVec .bank))) (hlegal : RowLegal s e) :
    (bank.applyLambda e.cmd (e.addrVec .row)).HasRow
      (stepRows s e (e.addrVec .rank, e.addrVec .bank)) := by
  obtain ⟨hkeeps, hlegal⟩ := hlegal
  unfold RamDRAM.applyLambda
  rw [hbank.level, stepRows]
  rw [Issued.rowCommand] at hlegal ⊢
  cases hcmd : e.cmd with
  | act =>
    rw [hcmd] at hlegal
    -- a row is opened where none was open
    have hnone : s (e.addrVec .rank, e.addrVec .bank) = none := hlegal _ rfl
    rw [hnone] at h
    dsimp only [OpenRows.step]
    rw [Function.update_self]
    refine ⟨rfl, ?_⟩
    show Function.update bank.rowState (e.addrVec .row) (some .opened) = _
    rw [h.2]
  | pre =>
    dsimp only [OpenRows.step]
    rw [Function.update_self]
    exact ⟨rfl, rfl⟩
  | rd | wr =>
    dsimp only [OpenRows.step]
    rw [Function.update_self]
    -- an access leaves the row open
    cases hopen : s (e.addrVec .rank, e.addrVec .bank) <;> (rw [hopen] at h; exact h)
  | ref => exact h
  | _ =>
    rw [hcmd] at hkeeps
    exact hkeeps.elim

/-- The command that comes first for an access keeps the protocol. -/
theorem HasRow.rowLegal {cmd : Command} (h : bank.HasRow (s (e.addrVec .rank, e.addrVec .bank)))
    (hcmd : cmd = .rd ∨ cmd = .wr)
    (hfirst : prereq.accessPrereq cmd bank (e.addrVec .row) = some e.cmd) : RowLegal s e := by
  rw [RowLegal, Issued.rowCommand]
  cases hopen : s (e.addrVec .rank, e.addrVec .bank) with
  | none =>
    rw [hopen] at h
    -- no row is open, so the command opens one
    rw [accessPrereq_of_none h] at hfirst
    rw [← Option.some.inj hfirst]
    refine ⟨trivial, fun cmd hcmd => ?_⟩
    obtain rfl := Option.some.inj hcmd
    exact hopen
  | some o =>
    rw [hopen] at h
    rw [accessPrereq_of_some h] at hfirst
    by_cases hrow : e.addrVec .row = o.row
    · -- the row is open
      rw [if_pos hrow] at hfirst
      rw [← Option.some.inj hfirst]
      rcases hcmd with rfl | rfl
      all_goals
        refine ⟨trivial, fun cmd hcmd => ?_⟩
        obtain rfl := Option.some.inj hcmd
        rw [OpenRows.Legal, hopen, hrow]
        rfl
    · -- another row is open
      rw [if_neg hrow] at hfirst
      rw [← Option.some.inj hfirst]
      refine ⟨trivial, fun cmd hcmd => ?_⟩
      obtain rfl := Option.some.inj hcmd
      rw [OpenRows.Legal, hopen]
      exact Option.some_ne_none o

/-- No row is open in a new channel. -/
theorem hasRows_new (count : Level → ℕ) : (new count .channel).HasRows (rowsAfter []) := by
  have hranks : ∀ rank ∈ (new count .channel).children, ∃ i,
      newFrom count 4 .rank i = rank := by
    intro rank hrank
    obtain ⟨i, -, rfl⟩ := List.mem_map.mp hrank
    exact ⟨i, rfl⟩
  constructor
  · -- every rank starts powered up, and every bank closed
    intro rank hrank
    obtain ⟨i, rfl⟩ := hranks rank hrank
    rfl
  · intro r b bank hbank
    obtain ⟨rank, hrank, hbank⟩ := bank?_eq_some.mp hbank
    obtain ⟨i, rfl⟩ := hranks rank (List.mem_of_getElem? hrank)
    obtain ⟨j, -, rfl⟩ := List.mem_map.mp (List.mem_of_getElem? hbank)
    exact ⟨rfl, rfl⟩

/-- Of these commands, only a refresh goes no further than to a rank. -/
theorem scope_ne_rank {cmd : Command} (hcmd : KeepsRanks cmd) (href : cmd ≠ .ref) :
    scope cmd ≠ .rank := by
  cases cmd <;> first | exact hcmd.elim | exact absurd rfl href | decide

/-- The command that comes first for a request keeps the protocol, and the open rows go with it. -/
theorem HasRows.updateState {type : RequestType} (hchannel : t.IsChannel count)
    (h : t.HasRows s) (hr : r < count .rank) (hb : b < count .bank) (hrank : e.addrVec .rank = r)
    (hbank : e.addrVec .bank = b) (htype : type = .read ∨ type = .write ∨ type = .refresh)
    (hdecode : t.decode (translate type) e.addrVec = some e.cmd) :
    RowLegal s e ∧ (t.updateState e.cmd e.addrVec).HasRows (stepRows s e) := by
  obtain ⟨rank, bank, hgetRank, hgetBank⟩ := hchannel.exists_bank hr hb
  have hbank? : t.bank? r b = some bank := bank?_eq_some.mpr ⟨rank, hgetRank, hgetBank⟩
  have hrow : bank.HasRow (s (e.addrVec .rank, e.addrVec .bank)) := by
    rw [hrank, hbank]
    exact h.hasRow r b bank hbank?
  -- the command is the one that the states ask for, which keeps the protocol
  have hlegal : RowLegal s e := by
    have hpower := h.powerUp rank (List.mem_of_getElem? hgetRank)
    rcases htype with rfl | rfl | rfl
    · have hfirst := hchannel.decode_access hrank hbank hgetRank hgetBank hpower (Or.inl rfl)
      exact hrow.rowLegal (Or.inl rfl) (hfirst.symm.trans hdecode)
    · have hfirst := hchannel.decode_access hrank hbank hgetRank hgetBank hpower (Or.inr rfl)
      exact hrow.rowLegal (Or.inr rfl) (hfirst.symm.trans hdecode)
    · have hchild : t.child? (e.addrVec .rank) = some rank := by
        rw [hrank, child?_natCast, hgetRank]
      have hcmd := hdecode.symm.trans (hchannel.decode_ref hchild)
      rw [RowLegal, Issued.rowCommand, Option.some.inj hcmd]
      exact ⟨trivial, fun cmd hnone => by cases hnone⟩
  refine ⟨hlegal, hchannel.powerUp_updateState h.powerUp hlegal.1 hrank hr, ?_⟩
  intro r' b' bank' hbank'
  -- a refresh changes no row, any other command those of its bank
  by_cases href : e.cmd = .ref
  · rw [href, hchannel.updateState_ref hr hrank] at hbank'
    have hsame : stepRows s e = s := by rw [stepRows, Issued.rowCommand, href]
    rw [hsame]
    exact h.hasRow r' b' bank' hbank'
  rw [hchannel.bank?_updateState hr hrank hbank (scope_ne_rank hlegal.1 href)] at hbank'
  by_cases hkey : r' = r ∧ b' = b
  · obtain ⟨rfl, rfl⟩ := hkey
    rw [if_pos ⟨rfl, rfl⟩, hbank?, Option.map_some] at hbank'
    obtain rfl := Option.some.inj hbank'
    have hbank'' := (hchannel.isRank rank (List.mem_of_getElem? hgetRank)).isBank bank
      (List.mem_of_getElem? hgetBank)
    rw [← hrank, ← hbank]
    exact hrow.applyLambda hbank'' hlegal
  · -- another bank
    rw [if_neg hkey] at hbank'
    rw [stepRows_of_ne]
    · exact h.hasRow r' b' bank' hbank'
    · rw [hrank, hbank]
      intro heq
      obtain ⟨hr', hb'⟩ := Prod.mk.inj heq
      exact hkey ⟨Int.ofNat_inj.mp hr', Int.ofNat_inj.mp hb'⟩

end RamDRAM

namespace ChannelController

variable {hbm : HBM} {channelId : ℕ} {c : ChannelController} {e : Issued}

/-! ## Runs -/

/-- The refresh scheduler asks for banks of the channel. -/
theorem holdsOfRefreshes_inBank (hbm : HBM) (channelId : ℕ) :
    HoldsOfRefreshes hbm channelId (InBank hbm channelId) := by
  intro bank hbank
  have hpos : 0 < hbm.count .bank := by
    refine Nat.pos_of_ne_zero fun hzero => ?_
    rw [RefreshConfig.nBanks, HBM.refreshConfig, hzero, Nat.mul_zero] at hbank
    exact Nat.not_lt_zero bank hbank
  -- the bank and its rank are in the number that the scheduler counts by
  refine ⟨bank / hbm.count .bank, bank % hbm.count .bank, ⟨?_, Nat.mod_lt bank hpos⟩,
    rfl, rfl, rfl⟩
  exact Nat.div_lt_of_lt_mul (by rw [Nat.mul_comm]; exact hbank)

/-- The request for which a command is issued has come in. -/
theorem QueuesHold.issued {P : RamRequest.Content → Prop} (h : c.QueuesHold P)
    (hrefresh : HoldsOfRefreshes hbm channelId P) (he : c.issued hbm channelId = some e) :
    ∃ req : RamRequest, (req.type = .read ∨ req.type = .write ∨ req.type = .refresh) ∧
      P req.content ∧ e.addrVec = req.addrVec ∧
      c.channel.decode (translate req.type) e.addrVec = some e.cmd := by
  rcases tick_cases hbm channelId c with ⟨hnone, -⟩ | ⟨req, i, cmd, hget, -, hdecode, hsome, -⟩
  · exact absurd (hnone.symm.trans he) (by simp)
  obtain rfl := Option.some.inj (hsome.symm.trans he)
  obtain ⟨htype, hreq⟩ := (h.prepare hrefresh).getQueue _ req (List.mem_of_getElem? hget)
  refine ⟨req, ?_, hreq, rfl, hdecode⟩
  -- the queues hold reads, writes and refreshes
  rw [htype]
  cases ((c.prepare hbm channelId).selectedQueue) <;> simp [queueType]

/-- The states of the nodes are those that the issued commands lead to. -/
structure OpensRows (hbm : HBM) (channelId : ℕ) (c : ChannelController) (h : List Issued) :
    Prop where
  isChannel : c.channel.IsChannel hbm.count
  hasRows : c.channel.HasRows (rowsAfter h)
  queues : c.QueuesHold (InBank hbm channelId)

variable {h : List Issued}

/-- A new channel, after no command. -/
theorem opensRows_new (hbm : HBM) (channelId : ℕ) :
    (new hbm channelId).OpensRows hbm channelId [] where
  isChannel := RamDRAM.isChannel_new hbm.count
  hasRows := RamDRAM.hasRows_new hbm.count
  queues := queuesHold_new

/-- A command keeps the protocol when it is issued. -/
theorem OpensRows.rowLegal (hc : c.OpensRows hbm channelId h)
    (he : c.issued hbm channelId = some e) :
    RowLegal (rowsAfter h) e ∧
      (c.channel.updateState e.cmd e.addrVec).HasRows (rowsAfter (h ++ [e])) := by
  obtain ⟨req, htype, ⟨r, b, ⟨hr, hb⟩, -, hrank, hbank⟩, haddr, hdecode⟩ :=
    hc.queues.issued (holdsOfRefreshes_inBank hbm channelId) he
  rw [rowsAfter_concat]
  exact hc.hasRows.updateState hc.isChannel hr hb (haddr ▸ hrank) (haddr ▸ hbank) htype hdecode

/-- What an action issues opens and closes the rows of the channel. -/
theorem OpensRows.step (hc : c.OpensRows hbm channelId h) {a : Action}
    (ha : a.Sends (InBank hbm channelId)) :
    (step hbm channelId c a).OpensRows hbm channelId (h ++ commandsOf hbm channelId c a) := by
  have hqueues := hc.queues.step (holdsOfRefreshes_inBank hbm channelId) ha
  rcases sameNodes_step hbm channelId c a with ⟨hnone, hsame⟩ | ⟨e, -, hissued, hsome, hsame⟩
  · rw [hnone, List.append_nil]
    exact ⟨hsame.channel ▸ hc.isChannel, hsame.channel ▸ hc.hasRows, hqueues⟩
  · rw [hsome]
    refine ⟨?_, ?_, hqueues⟩
    · rw [hsame.channel]
      exact hc.isChannel.updateState e.cmd e.addrVec
    · rw [hsame.channel]
      exact (hc.rowLegal hissued).2

theorem opensRows_run (as : List Action) (has : ∀ a ∈ as, a.Sends (InBank hbm channelId)) :
    ((machine hbm channelId).run as).OpensRows hbm channelId (commands hbm channelId as) :=
  Machine.run_outputs_invariant (opensRows_new hbm channelId) (fun _ _ _ ha hc => hc.step ha) as has

/-- In every run in which the memory sends reads and writes for banks of the channel, every bank has
at most one open row: a row is opened in a closed bank, read and written while it is open, and
closed again, and the banks are in the states that the issued commands say. -/
theorem commands_openRows (as : List Action) (has : ∀ a ∈ as, a.Sends (InBank hbm channelId)) :
    ((commands hbm channelId as).Each fun before e => RowLegal (rowsAfter before) e) ∧
      ((machine hbm channelId).run as).channel.HasRows (rowsAfter (commands hbm channelId as)) := by
  refine ⟨?_, (opensRows_run as has).hasRows⟩
  induction as using List.reverseRecOn with
  | nil => exact List.each_nil
  | append_singleton as a ih =>
    have has' : ∀ a ∈ as, a.Sends (InBank hbm channelId) := fun b hb => has b (by simp [hb])
    rw [commands_concat]
    rcases sameNodes_step hbm channelId ((machine hbm channelId).run as) a with
      ⟨hnone, -⟩ | ⟨e, -, hissued, hsome, -⟩
    · rw [hnone, List.append_nil]
      exact ih has'
    · rw [hsome]
      exact (ih has').concat ((opensRows_run as has').rowLegal hissued).1

/-- A read of a row of the first bank, with some time to serve it. -/
def readFirstBank (row : ℤ) (ticks : ℕ) : List Action :=
  .enqueue { RamRequest.new 0 .read with addrVec := RamDRAM.rowOfFirstBank row } ::
    List.replicate ticks .tick

theorem sends_readFirstBank (row : ℤ) (ticks : ℕ) :
    ∀ a ∈ readFirstBank row ticks, a.Sends (InBank oneRank 0) := by
  intro a ha
  rcases List.mem_cons.mp ha with rfl | ha
  · exact ⟨Or.inl rfl, 0, 0, by decide, rfl, rfl, rfl⟩
  · obtain rfl := List.eq_of_mem_replicate ha
    trivial

/-- A read of a closed bank, in a channel of one rank with two banks. -/
theorem commands_openRows_read :
    let as := readFirstBank 5 8
    ((commands oneRank 0 as).Each fun before e => RowLegal (rowsAfter before) e) ∧
      ((machine oneRank 0).run as).channel.HasRows (rowsAfter (commands oneRank 0 as)) :=
  commands_openRows _ (sends_readFirstBank 5 8)

end ChannelController

end StackedDram.Ramulator
