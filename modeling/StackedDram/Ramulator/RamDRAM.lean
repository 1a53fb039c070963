import StackedDram.Ramulator.Hbm

/-!
# Refresh and open rows

The functions of `RamDRAM.cc` on trees of nodes: the constructor, `decode`, which says what must
come before a command, and `update_state`, which issues it. Issuing commands keeps the shape of the
tree: a channel has ranks, a rank has banks, and a bank has no children and forgets its rows when it
is closed (`IsChannel.updateState`).

The functions of `HBM.cc` for a refresh and for precharging a rank look for banks among the
grandchildren of the rank. There are none (`IsRank.grandchildren_eq_nil`), so that a refresh never
waits and precharging a rank does nothing (`decode_ref`, `updateState_prea`).
-/

namespace StackedDram.Ramulator.RamDRAM

/-! ## Operations -/

/-- The number of levels, which bounds the recursions over a tree. -/
def levels : ℕ := 5

/-- The constructor of `RamDRAM`, with at most `depth` levels of nodes. -/
def newFrom (count : Level → ℕ) : ℕ → Level → ℕ → RamDRAM
  | 0, level, id => ⟨level, id, start level, fun _ => none, []⟩
  | depth + 1, level, id =>
    -- rows are not nodes
    let childMax := if level.below = .row then 0 else count level.below
    ⟨level, id, start level, fun _ => none,
      (List.range childMax).map (newFrom count depth level.below)⟩

/-- The constructor of `RamDRAM`, which numbers the node 0. -/
def new (count : Level → ℕ) (level : Level) : RamDRAM := newFrom count levels level 0

/-- `children[child_id]`. There is no such child where the code reads past the vector. -/
def child? (t : RamDRAM) (childId : ℤ) : Option RamDRAM :=
  if childId < 0 then none else t.children[childId.toNat]?

/-- `RamDRAM::decode`; no command where the code fails an assertion. -/
def decodeFrom : ℕ → RamDRAM → Command → (Level → ℤ) → Option Command
  | 0, _, cmd, _ => some cmd
  | depth + 1, t, cmd, addr =>
    let childId := addr t.level.below
    let below :=
      if childId < 0 ∨ t.children = [] then some cmd
      else (t.child? childId).bind fun child => decodeFrom depth child cmd addr
    match prereq t.level cmd with
    | none => below
    | some f => (f t childId).bind fun prereqCmd =>
      if prereqCmd ≠ .max then some prereqCmd else below

/-- `RamDRAM::decode`, from the channel. -/
def decode (t : RamDRAM) (cmd : Command) (addr : Level → ℤ) : Option Command :=
  decodeFrom levels t cmd addr

/-- `if (lambda[int(cmd)]) lambda[int(cmd)](this, child_id);` -/
def applyLambda (t : RamDRAM) (cmd : Command) (childId : ℤ) : RamDRAM :=
  match lambda t.level cmd with
  | none => t
  | some f => f t childId

/-- `RamDRAM::update_state`. A node without the child that is asked for stays as it is. -/
def updateStateFrom : ℕ → RamDRAM → Command → (Level → ℤ) → RamDRAM
  | 0, t, _, _ => t
  | depth + 1, t, cmd, addr =>
    let childId := addr t.level.below
    let t := t.applyLambda cmd childId
    if t.level = scope cmd ∨ t.children = [] ∨ childId < 0 then t
    else
      { t with
        children :=
          t.children.modify childId.toNat fun child => updateStateFrom depth child cmd addr }

/-- `RamDRAM::update_state`, from the channel. -/
def updateState (t : RamDRAM) (cmd : Command) (addr : Level → ℤ) : RamDRAM :=
  updateStateFrom levels t cmd addr

/-- A node says what comes first, or leaves it to its child. -/
theorem decodeFrom_succ (depth : ℕ) (t : RamDRAM) (cmd : Command) (addr : Level → ℤ) :
    decodeFrom (depth + 1) t cmd addr =
      let childId := addr t.level.below
      let below :=
        if childId < 0 ∨ t.children = [] then some cmd
        else (t.child? childId).bind fun child => decodeFrom depth child cmd addr
      match prereq t.level cmd with
      | none => below
      | some f => (f t childId).bind fun prereqCmd =>
        if prereqCmd ≠ .max then some prereqCmd else below := rfl

/-- A node does what the command says, and passes it on to its child. -/
theorem updateStateFrom_succ (depth : ℕ) (t : RamDRAM) (cmd : Command) (addr : Level → ℤ) :
    updateStateFrom (depth + 1) t cmd addr =
      let childId := addr t.level.below
      let t := t.applyLambda cmd childId
      if t.level = scope cmd ∨ t.children = [] ∨ childId < 0 then t
      else
        { t with
          children :=
            t.children.modify childId.toNat fun child => updateStateFrom depth child cmd addr } :=
  rfl

/-- A channel from its construction on. An action is a command with its address. -/
def machine (count : Level → ℕ) : Machine RamDRAM (Command × (Level → ℤ)) where
  init := new count .channel
  step t action := t.updateState action.1 action.2

/-! ## The shape of a tree -/

section Children

variable {t child : RamDRAM} {childId : ℤ} (h : t.child? childId = some child)

include h

theorem not_neg_of_child? : ¬ childId < 0 := by
  intro hneg
  rw [child?, if_pos hneg] at h
  cases h

theorem getElem?_of_child? : t.children[childId.toNat]? = some child := by
  rwa [child?, if_neg (not_neg_of_child? h)] at h

theorem mem_of_child? : child ∈ t.children := List.mem_of_getElem? (getElem?_of_child? h)

theorem ne_nil_of_child? : t.children ≠ [] := List.ne_nil_of_mem (mem_of_child? h)

end Children

/-- A bank. -/
structure IsBank (t : RamDRAM) : Prop where
  level : t.level = .bank
  children : t.children = []
  noRows : t.state = .closed → t.NoRows

/-- A rank of the given number of banks. -/
structure IsRank (banks : ℕ) (t : RamDRAM) : Prop where
  level : t.level = .rank
  length : t.children.length = banks
  isBank : ∀ bank ∈ t.children, bank.IsBank

/-- A channel of the geometry. -/
structure IsChannel (count : Level → ℕ) (t : RamDRAM) : Prop where
  level : t.level = .channel
  length : t.children.length = count .rank
  isRank : ∀ rank ∈ t.children, rank.IsRank (count .bank)

variable {count : Level → ℕ} {banks depth : ℕ} {t : RamDRAM} {cmd : Command} {addr : Level → ℤ}
  {childId : ℤ}

/-- A new bank. -/
theorem isBank_newFrom (count : Level → ℕ) (depth id : ℕ) :
    (newFrom count depth .bank id).IsBank := by
  cases depth with
  | zero => exact ⟨rfl, rfl, fun _ _ => rfl⟩
  | succ depth => exact ⟨rfl, rfl, fun _ _ => rfl⟩

/-- A new rank with its banks. -/
theorem isRank_newFrom (count : Level → ℕ) (depth id : ℕ) :
    (newFrom count (depth + 1) .rank id).IsRank (count .bank) := by
  refine ⟨rfl, by simp [newFrom, Level.below], fun bank hbank => ?_⟩
  obtain ⟨i, -, rfl⟩ := List.mem_map.mp hbank
  exact isBank_newFrom count depth i

/-- A new channel with its ranks. -/
theorem isChannel_new (count : Level → ℕ) : (new count .channel).IsChannel count := by
  refine ⟨rfl, by simp [new, levels, newFrom, Level.below], fun rank hrank => ?_⟩
  obtain ⟨i, -, rfl⟩ := List.mem_map.mp hrank
  exact isRank_newFrom count 3 i

theorem IsRank.grandchildren_eq_nil (h : t.IsRank banks) : t.grandchildren = [] := by
  rw [grandchildren, List.flatMap_eq_nil_iff]
  exact fun bank hbank => (h.isBank bank hbank).children

/-! ## Issuing commands -/

/-- A command leaves a bank closed without rows, or open, or as it is. -/
theorem IsBank.applyLambda (h : t.IsBank) (cmd : Command) (childId : ℤ) :
    (t.applyLambda cmd childId).IsBank := by
  unfold RamDRAM.applyLambda
  rw [h.level]
  cases cmd with
  | act => exact ⟨h.level, h.children, fun hclosed => State.noConfusion hclosed⟩
  | pre | rda | wra => exact ⟨h.level, h.children, fun _ _ => rfl⟩
  | _ => exact h

/-- A bank stays a bank. -/
theorem IsBank.updateStateFrom (h : t.IsBank) (depth : ℕ) (cmd : Command) (addr : Level → ℤ) :
    (updateStateFrom depth t cmd addr).IsBank := by
  cases depth with
  | zero => exact h
  | succ depth =>
    have hbank := h.applyLambda cmd (addr t.level.below)
    rw [updateStateFrom_succ]
    dsimp only
    rw [if_pos (Or.inr (Or.inl hbank.children))]
    exact hbank

/-- No command that is carried out on a rank reaches its banks. -/
theorem IsRank.applyLambda (h : t.IsRank banks) (cmd : Command) (childId : ℤ) :
    (t.applyLambda cmd childId).level = .rank ∧
      (t.applyLambda cmd childId).children = t.children := by
  unfold RamDRAM.applyLambda
  rw [h.level]
  cases cmd with
  | prea =>
    refine ⟨h.level, (List.map_congr_left fun bank hbank => ?_).trans (List.map_id _)⟩
    obtain ⟨level, id, state, rowState, children⟩ := bank
    obtain rfl : children = [] := (h.isBank _ hbank).children
    rfl
  | _ => exact ⟨h.level, rfl⟩

/-- A member of a list with one element changed is an old member or the changed one. -/
theorem forall_mem_modify {α : Type} {l : List α} {f : α → α} {p : α → Prop} (hl : ∀ x ∈ l, p x)
    (hf : ∀ x, p x → p (f x)) (i : ℕ) : ∀ x ∈ l.modify i f, p x := by
  intro x hx
  obtain ⟨j, hj, rfl⟩ := List.mem_iff_getElem.mp hx
  rw [List.length_modify] at hj
  rw [List.getElem_modify]
  split_ifs
  · exact hf _ (hl _ (List.getElem_mem hj))
  · exact hl _ (List.getElem_mem hj)

/-- A rank keeps its banks. -/
theorem IsRank.updateStateFrom (h : t.IsRank banks) (depth : ℕ) (cmd : Command)
    (addr : Level → ℤ) : (updateStateFrom depth t cmd addr).IsRank banks := by
  cases depth with
  | zero => exact h
  | succ depth =>
    obtain ⟨hlevel, hchildren⟩ := h.applyLambda cmd (addr t.level.below)
    rw [updateStateFrom_succ]
    dsimp only
    -- the command stops at this level or goes down to one child
    split_ifs
    · exact ⟨hlevel, hchildren ▸ h.length, hchildren ▸ h.isBank⟩
    · refine ⟨hlevel, ?_, ?_⟩
      · show (List.modify _ _ _).length = banks
        rw [List.length_modify, hchildren]
        exact h.length
      · show ∀ bank ∈ List.modify _ _ _, IsBank bank
        rw [hchildren]
        exact forall_mem_modify h.isBank (fun _ hb => hb.updateStateFrom depth cmd addr) _

/-- A channel only passes commands on. -/
theorem IsChannel.applyLambda (h : t.IsChannel count) (cmd : Command) (childId : ℤ) :
    t.applyLambda cmd childId = t := by
  unfold RamDRAM.applyLambda
  rw [h.level]
  rfl

/-- No command stops at the channel. -/
theorem scope_ne_channel (cmd : Command) : Level.channel ≠ scope cmd := by
  cases cmd <;> decide

/-- What a command does to a channel. -/
theorem IsChannel.updateState_eq (h : t.IsChannel count) {rank : RamDRAM}
    (hrank : t.child? (addr .rank) = some rank) (cmd : Command) :
    t.updateState cmd addr =
      { t with
        children :=
          t.children.modify (addr .rank).toNat fun child => updateStateFrom 4 child cmd addr } := by
  have hgo : ¬ (t.level = scope cmd ∨ t.children = [] ∨ addr .rank < 0) := by
    rintro (hscope | hnil | hneg)
    · exact scope_ne_channel cmd (h.level.symm.trans hscope)
    · exact ne_nil_of_child? hrank hnil
    · exact not_neg_of_child? hrank hneg
  have hbelow : t.level.below = .rank := by rw [h.level]; rfl
  show updateStateFrom (4 + 1) t cmd addr = _
  rw [updateStateFrom_succ, hbelow]
  dsimp only
  rw [h.applyLambda, if_neg hgo]

/-- A channel keeps its ranks. -/
theorem IsChannel.updateState (h : t.IsChannel count) (cmd : Command) (addr : Level → ℤ) :
    (t.updateState cmd addr).IsChannel count := by
  show (updateStateFrom (4 + 1) t cmd addr).IsChannel count
  rw [updateStateFrom_succ]
  dsimp only
  rw [h.applyLambda]
  split_ifs
  · exact h
  · refine ⟨h.level, ?_, ?_⟩
    · show (List.modify _ _ _).length = _
      rw [List.length_modify]
      exact h.length
    · show ∀ rank ∈ List.modify _ _ _, IsRank _ rank
      exact forall_mem_modify h.isRank (fun _ hr => hr.updateStateFrom 4 cmd addr) _

/-- The shape of the tree in every reachable state. -/
theorem isChannel_of_reachable (ht : (machine count).Reachable t) : t.IsChannel count :=
  ht.invariant (P := IsChannel count) (isChannel_new count) fun _ action _ h =>
    h.updateState action.1 action.2

/-! ## Refreshing and precharging a rank -/

/-- A rank lets every refresh through. -/
theorem IsRank.decodeFrom_ref (h : t.IsRank banks) (depth : ℕ) (addr : Level → ℤ) :
    decodeFrom (depth + 1) t .ref addr = some .ref := by
  rw [decodeFrom_succ, h.level]
  simp [prereq, h.grandchildren_eq_nil]

/-- So does a channel, whatever its banks are doing. -/
theorem IsChannel.decode_ref (h : t.IsChannel count) {rank : RamDRAM}
    (hrank : t.child? (addr .rank) = some rank) : t.decode .ref addr = some .ref := by
  have hrank' : rank.IsRank (count .bank) := h.isRank rank (mem_of_child? hrank)
  have hgo : ¬ (addr .rank < 0 ∨ t.children = []) :=
    not_or.mpr ⟨not_neg_of_child? hrank, ne_nil_of_child? hrank⟩
  have hbelow : t.level.below = .rank := by rw [h.level]; rfl
  have hprereq : prereq t.level .ref = none := by rw [h.level]; rfl
  show decodeFrom (4 + 1) t .ref addr = _
  rw [decodeFrom_succ, hbelow]
  dsimp only
  rw [hprereq, if_neg hgo, hrank]
  exact hrank'.decodeFrom_ref 3 addr

/-- Precharging a rank leaves its banks as they are. -/
theorem IsChannel.updateState_prea (h : t.IsChannel count) {rank : RamDRAM}
    (hrank : t.child? (addr .rank) = some rank) :
    ∃ rank', (t.updateState .prea addr).child? (addr .rank) = some rank' ∧
      rank'.children = rank.children := by
  have hrank' : rank.IsRank (count .bank) := h.isRank rank (mem_of_child? hrank)
  obtain ⟨hlevel, hchildren⟩ := hrank'.applyLambda .prea (addr rank.level.below)
  refine ⟨updateStateFrom 4 rank .prea addr, ?_, ?_⟩
  · rw [h.updateState_eq hrank, child?, if_neg (not_neg_of_child? hrank),
      List.getElem?_modify_eq, getElem?_of_child? hrank]
    rfl
  · rw [updateStateFrom_succ]
    dsimp only
    -- the command stops at the rank
    have hstop : (rank.applyLambda .prea (addr rank.level.below)).level = scope .prea := hlevel
    rw [if_pos (Or.inl hstop)]
    exact hchildren

/-- In every reachable state, for every rank: a refresh is let through if all its banks are closed
and has to wait for them to be precharged otherwise, and precharging the rank leaves all banks
closed and without rows, if and only if all its banks are closed already. -/
theorem refresh_iff {rank : RamDRAM} (ht : (machine count).Reachable t)
    (hrank : t.child? (addr .rank) = some rank) :
    (t.decode .ref addr =
        some (if ∀ bank ∈ rank.children, bank.state = .closed then .ref else .prea) ∧
      ∃ rank', (t.updateState .prea addr).child? (addr .rank) = some rank' ∧
        ∀ bank ∈ rank'.children, bank.state = .closed ∧ bank.NoRows) ↔
      ∀ bank ∈ rank.children, bank.state = .closed := by
  have hchannel := isChannel_of_reachable ht
  rw [hchannel.decode_ref hrank]
  constructor
  · rintro ⟨hdecode, -⟩
    -- with an open bank the command that comes first is another one
    by_contra hopen
    rw [if_neg hopen] at hdecode
    exact Command.noConfusion (Option.some.inj hdecode)
  · intro hclosed
    refine ⟨by rw [if_pos hclosed], ?_⟩
    obtain ⟨rank', hafter, hchildren⟩ := hchannel.updateState_prea hrank
    refine ⟨rank', hafter, fun bank hbank => ?_⟩
    rw [hchildren] at hbank
    have hbank' := (hchannel.isRank rank (mem_of_child? hrank)).isBank bank hbank
    exact ⟨hclosed bank hbank, hbank'.noRows (hclosed bank hbank)⟩

/-- A channel of one rank of two banks, as the organizations of the standard have them. -/
def twoBanks : Level → ℕ
  | .rank => 1
  | .bank => 2
  | _ => 0

/-- The address of a row of the first bank of the first rank. -/
def rowOfFirstBank (row : ℤ) : Level → ℤ
  | .row => row
  | _ => 0

/-- The address of the first rank, as a refresh has it. -/
def firstRank : Level → ℤ
  | .bank | .row | .column => -1
  | _ => 0

/-- After a row has been opened and its bank precharged, the rank may be refreshed. -/
theorem refresh_iff_twoBanks :
    let t := (machine twoBanks).run [(.act, rowOfFirstBank 5), (.pre, rowOfFirstBank 5)]
    t.decode .ref firstRank = some .ref ∧
      ∃ rank, (t.updateState .prea firstRank).child? (firstRank .rank) = some rank ∧
        ∀ bank ∈ rank.children, bank.state = .closed ∧ bank.NoRows := by
  intro t
  have ht : (machine twoBanks).Reachable t := Machine.reachable_run _
  obtain ⟨rank, hrank, hclosed⟩ : ∃ rank, t.child? (firstRank .rank) = some rank ∧
      ∀ bank ∈ rank.children, bank.state = .closed := ⟨_, rfl, by decide⟩
  have hboth := (refresh_iff ht hrank).mpr hclosed
  rw [if_pos hclosed] at hboth
  exact hboth

/-- A rank with an open row is let through to its refresh, and precharging it does not close the
row. -/
theorem not_refresh :
    ¬ ∀ (t rank : RamDRAM) (addr : Level → ℤ), (machine twoBanks).Reachable t →
      t.child? (addr .rank) = some rank →
        t.decode .ref addr =
            some (if ∀ bank ∈ rank.children, bank.state = .closed then .ref else .prea) ∧
          ∃ rank', (t.updateState .prea addr).child? (addr .rank) = some rank' ∧
            ∀ bank ∈ rank'.children, bank.state = .closed ∧ bank.NoRows := by
  intro h
  have ht : (machine twoBanks).Reachable ((machine twoBanks).run [(.act, rowOfFirstBank 5)]) :=
    Machine.reachable_run _
  have hdecode := (h _ _ firstRank ht rfl).1
  exact absurd hdecode (by decide)

end StackedDram.Ramulator.RamDRAM
