import StackedDram.Library.OpenPage
import StackedDram.VaultPerfModel

/-!
# Open pages

The vault and bank model against open-page row buffers: `Models` says that a bank is in the state of
its row buffer, and a request keeps it so if the vault finds the open row (`ready_openRow`), which
it does for every number of rows that is an `int` (`open_page`).
-/

namespace StackedDram

open Ramulator (Command)

/-! ## Banks -/

namespace BankPerfModel

/-- The bank is in the state that its row buffer says. -/
structure Models (b : BankPerfModel) (buf : RowBuffer Command (BitVec 32)) : Prop where
  rowState : ∀ row, b.rowState row = .opened ↔ buf.last.map Prod.snd = some row
  curOpenRow : b.curOpenRow = (buf.last.map Prod.snd).getD (-1)
  curCmd : b.curCmd = (buf.last.map Prod.fst).getD .pre
  command_eq : ∀ cmd row, buf.last = some (cmd, row) → cmd = .rd ∨ cmd = .wr
  requests : b.reads + b.writes = .ofNat 32 buf.accesses
  rowHits : b.rowHits = .ofNat 32 buf.hits
  illegal : b.illegal = []

/-- The latency of an access with the given command, by what it finds in the row buffer. -/
def accessLatency (U : TimeUnits) (finding : RowBuffer.Finding Command) (cmd : Command) : ℕ :=
  match finding with
  | .closed => latency U .pre .act + latency U .act cmd
  | .hit => latency U .act cmd
  | .conflict last => latency U last .pre + latency U .pre .act + latency U .act cmd

theorem models_new (bankSize rowSize : BitVec 32) : (new bankSize rowSize).Models .empty where
  rowState row := by simp [new, RowBuffer.empty]
  curOpenRow := rfl
  curCmd := rfl
  command_eq _ _ h := absurd h.symm (Option.some_ne_none _)
  requests := rfl
  rowHits := rfl
  illegal := rfl

variable {U : TimeUnits} {b : BankPerfModel} {buf : RowBuffer Command (BitVec 32)} {cmd : Command}
  {row : BitVec 32}

/-- The bank has its row open and is about to be accessed. -/
structure Ready (b : BankPerfModel) (buf : RowBuffer Command (BitVec 32)) (row : BitVec 32) :
    Prop where
  rowState : ∀ row', b.rowState row' = .opened ↔ row' = row
  curOpenRow : b.curOpenRow = row
  requests : b.reads + b.writes = .ofNat 32 buf.accesses
  rowHits : (if b.curCmd ≠ .act then b.rowHits + 1 else b.rowHits) = .ofNat 32 (buf.hitsAfter row)
  illegal : b.illegal = []

/-- The access is as the row buffer says. -/
theorem Ready.access (h : Ready b buf row) (hcmd : cmd = .rd ∨ cmd = .wr) (cmdTime : ℕ) :
    (b.processCommand U cmd row cmdTime).1.Models (buf.access (cmd, row)) := by
  obtain ⟨hstate, hopen, hsum, hhits, hillegal, -⟩ :=
    processCommand_access U cmdTime hcmd h.curOpenRow
  refine ⟨fun row' => ?_, hopen, curCmd_processCommand .., fun cmd' row' heq => ?_, ?_, ?_, ?_⟩
  · rw [hstate, h.rowState]
    exact (Option.some_inj.trans eq_comm).symm
  · obtain rfl : cmd = cmd' := congrArg Prod.fst (Option.some.inj heq)
    exact hcmd
  · rw [hsum, h.requests]
    exact (BitVec.ofNat_add _ _).symm
  · rw [hhits, h.rowHits]
    rfl
  · rw [hillegal, h.illegal]

/-- The last command on a bank that has not been closed is the last access. -/
theorem Models.curCmd_eq (h : b.Models buf) {kind : Command} {opened : BitVec 32}
    (hlast : buf.last = some (kind, opened)) : b.curCmd = kind := by
  rw [h.curCmd, hlast]
  rfl

/-- A closed bank opens the row. -/
theorem Models.ready_of_none (h : b.Models buf) (hlast : buf.last = none) (cmdTime : ℕ) :
    (b.processCommand U .act row cmdTime).1.Ready buf row := by
  have hcmd : b.curCmd = .pre := by
    rw [h.curCmd, hlast]
    rfl
  obtain ⟨hstate, hopen, hsum, hhits, hillegal⟩ := processCommand_act U b row cmdTime
  refine ⟨fun row' => ?_, hopen, hsum.trans h.requests, ?_, ?_⟩
  · by_cases heq : row' = row
    · simp [hstate, heq]
    · simp [hstate, heq, h.rowState, hlast]
  · -- the access that follows an activation is not a hit
    rw [curCmd_processCommand, if_neg (not_not_intro rfl), hhits, h.rowHits, RowBuffer.hitsAfter,
      RowBuffer.find_of_none hlast]
  · rw [hillegal, h.illegal, hcmd]
    rfl

/-- A bank with the row open is ready. -/
theorem Models.ready_of_same (h : b.Models buf) {kind : Command}
    (hlast : buf.last = some (kind, row)) : b.Ready buf row := by
  have hcmd : b.curCmd = kind := h.curCmd_eq hlast
  have hne : b.curCmd ≠ .act := by
    rcases h.command_eq _ _ hlast with hkind | hkind <;> rw [hcmd, hkind] <;> decide
  refine ⟨fun row' => ?_, ?_, h.requests, ?_, h.illegal⟩
  · rw [h.rowState, hlast]
    exact Option.some_inj.trans eq_comm
  · rw [h.curOpenRow, hlast]
    rfl
  · rw [if_pos hne, h.rowHits, RowBuffer.hitsAfter, RowBuffer.find_of_same hlast]
    exact (BitVec.ofNat_add _ _).symm

/-- A bank with another row open closes it and opens the row. -/
theorem Models.ready_of_ne (h : b.Models buf) {kind : Command} {opened : BitVec 32}
    (hlast : buf.last = some (kind, opened)) (hne : opened ≠ row) (preTime actTime : ℕ) :
    ((b.processCommand U .pre opened preTime).1.processCommand U .act row actTime).1.Ready buf
      row := by
  have hcmd : b.curCmd = kind := h.curCmd_eq hlast
  -- a precharge is legal after a read or a write
  have hlegal : (getTransitionLatency U b.curCmd .pre).2 = [] := by
    rcases h.command_eq _ _ hlast with hkind | hkind <;> rw [hcmd, hkind] <;> rfl
  obtain ⟨hstate, -, hsum, hhits, hillegal⟩ := processCommand_pre U b opened preTime
  obtain ⟨hstate', hopen', hsum', hhits', hillegal'⟩ :=
    processCommand_act U (b.processCommand U .pre opened preTime).1 row actTime
  refine ⟨fun row' => ?_, hopen', hsum'.trans (hsum.trans h.requests), ?_, ?_⟩
  · rw [hstate', hstate]
    by_cases heq : row' = row
    · simp [heq]
    · -- the row that was open is closed now
      by_cases hopened : row' = opened
      · simp [hopened, hne]
      · simp [heq, hopened, Ne.symm hopened, h.rowState, hlast]
  · rw [curCmd_processCommand, if_neg (not_not_intro rfl), hhits', hhits, h.rowHits,
      RowBuffer.hitsAfter, RowBuffer.find_of_ne hlast hne]
  · rw [hillegal', hillegal, h.illegal, hlegal, curCmd_processCommand]
    rfl

end BankPerfModel

namespace VaultPerfModel

open BankPerfModel

/-! ## Requests -/

variable {U : TimeUnits} {v : VaultPerfModel} {q : VaultRequest} {b : BankPerfModel}
  {buf : RowBuffer Command (BitVec 32)} {row : BitVec 32}

/-- If the vault finds the open row of the bank, the row of the request is opened as the row buffer
says. -/
theorem ready_openRow (h : b.Models buf)
    (hfind : b.getOpennedRow = (buf.last.map Prod.snd).getD (-1))
    (hlast : ∀ kind opened, buf.last = some (kind, opened) → opened ≠ -1)
    (row : BitVec 32) (curTime : ℕ) (cmd : Command) :
    (openRow U false b row curTime).1.Ready buf row ∧
      (openRow U false b row curTime).2 + latency U .act cmd =
        accessLatency U (buf.find row) cmd := by
  cases hbuf : buf.last with
  | none =>
    have hclosed : b.getOpennedRow = -1 := by
      rw [hfind, hbuf]
      rfl
    have hcmd : b.curCmd = .pre := by
      rw [h.curCmd, hbuf]
      rfl
    rw [openRow, if_pos hclosed, RowBuffer.find_of_none hbuf]
    refine ⟨h.ready_of_none hbuf curTime, ?_⟩
    show latency U b.curCmd .act + _ = _
    rw [hcmd]
    rfl
  | some access =>
    obtain ⟨kind, opened⟩ := access
    have hopened : b.getOpennedRow = opened := by
      rw [hfind, hbuf]
      rfl
    have hcmd : b.curCmd = kind := h.curCmd_eq hbuf
    rw [openRow, hopened, if_neg (hlast kind opened hbuf)]
    -- the three branches of `processRequest` are the three findings of the row buffer
    by_cases hrow : opened = row
    · subst hrow
      rw [if_pos rfl, RowBuffer.find_of_same hbuf]
      exact ⟨h.ready_of_same hbuf, Nat.zero_add _⟩
    · rw [if_neg hrow, RowBuffer.find_of_ne hbuf hrow]
      have hpre : (b.processCommand U .pre opened curTime).2 = latency U kind .pre := by
        rw [← hcmd]
        rfl
      simp only [if_true, hpre]
      exact ⟨h.ready_of_ne hbuf hrow _ _, rfl⟩

/-- The access of a request to its bank, after the row has been opened. -/
def accessed (U : TimeUnits) (b : BankPerfModel) (q : VaultRequest) : BankPerfModel × ℕ :=
  (openRow U false b q.row q.curTime).1.processCommand U q.command q.row
    (q.curTime + (openRow U false b q.row q.curTime).2)

/-- A request, when nothing is refreshed automatically. -/
theorem processRequest_eq (hauto : v.autoRef = false) (q : VaultRequest) :
    v.processRequest U q =
      ({ v with banks := Function.update v.banks q.bank (accessed U (v.banks q.bank) q).1 },
        (openRow U false (v.banks q.bank) q.row q.curTime).2 +
          (accessed U (v.banks q.bank) q).2) := by
  simp [processRequest, hauto, accessed]

theorem nRows_accessed (U : TimeUnits) (b : BankPerfModel) (q : VaultRequest) :
    (accessed U b q).1.nRows = b.nRows := by
  rw [accessed, nRows_processCommand, openRow]
  dsimp only
  split_ifs <;> simp

/-! ## Runs -/

/-- The runs of a vault from its construction. -/
def machine (U : TimeUnits) (size bankSize rowSize : BitVec 32) :
    Machine VaultPerfModel VaultRequest where
  init := new size bankSize rowSize
  step v q := (v.processRequest U q).1

/-- The accesses to a bank. -/
def accessesOf (bank : BitVec 32) (qs : List VaultRequest) : List (Command × BitVec 32) :=
  (qs.filter (·.bank = bank)).map fun q => (q.command, q.row)

/-- The row buffer of a bank after the requests. -/
def rowBuffer (bank : BitVec 32) (qs : List VaultRequest) : RowBuffer Command (BitVec 32) :=
  .after (accessesOf bank qs)

theorem rowBuffer_concat_self (qs : List VaultRequest) (q : VaultRequest) :
    rowBuffer q.bank (qs ++ [q]) = (rowBuffer q.bank qs).access (q.command, q.row) := by
  have hself : accessesOf q.bank (qs ++ [q]) = accessesOf q.bank qs ++ [(q.command, q.row)] := by
    simp [accessesOf]
  rw [rowBuffer, hself, RowBuffer.after_concat, ← rowBuffer]

theorem rowBuffer_concat_of_ne (qs : List VaultRequest) {bank : BitVec 32} (h : q.bank ≠ bank) :
    rowBuffer bank (qs ++ [q]) = rowBuffer bank qs := by
  simp [rowBuffer, accessesOf, h]

/-- The row that is open has been accessed. -/
theorem exists_of_last_rowBuffer {qs : List VaultRequest} {bank : BitVec 32} {kind : Command}
    {opened : BitVec 32} (h : (rowBuffer bank qs).last = some (kind, opened)) :
    ∃ q ∈ qs, q.row = opened := by
  induction qs using List.reverseRecOn with
  | nil => exact absurd h.symm (Option.some_ne_none _)
  | append_singleton qs q ih =>
    by_cases hq : q.bank = bank
    · subst hq
      rw [rowBuffer_concat_self] at h
      exact ⟨q, by simp, congrArg Prod.snd (Option.some.inj h)⟩
    · rw [rowBuffer_concat_of_ne qs hq] at h
      obtain ⟨q', hq', hrow⟩ := ih h
      exact ⟨q', List.mem_append_left _ hq', hrow⟩

/-- What the request `q` makes of the vault and the latency that it gets, after the requests
`history`: its bank has its row open, and no other; no transition has been illegal; and the latency
is that of what it finds in the row buffer. -/
structure Served (U : TimeUnits) (history : List VaultRequest) (q : VaultRequest)
    (r : VaultPerfModel × ℕ) : Prop where
  rowState : ∀ row, (r.1.banks q.bank).rowState row = .opened ↔ row = q.row
  curOpenRow : (r.1.banks q.bank).curOpenRow = q.row
  curCmd : (r.1.banks q.bank).curCmd = q.command
  legal : ∀ bank, (r.1.banks bank).illegal = []
  latency : r.2 = accessLatency U ((rowBuffer q.bank history).find q.row) q.command

/-- The counters of every bank, after the requests `history`. -/
structure Counts (history : List VaultRequest) (v : VaultPerfModel) : Prop where
  requests : ∀ bank, (v.banks bank).reads + (v.banks bank).writes =
    .ofNat 32 (history.countP (·.bank = bank))
  rowHits : ∀ bank, (v.banks bank).rowHits = .ofNat 32 (rowBuffer bank history).hits

/-- The counters are the numbers of requests and hits. -/
structure CountsExactly (history : List VaultRequest) (v : VaultPerfModel) : Prop where
  requests : ∀ bank, ((v.banks bank).reads + (v.banks bank).writes).toNat =
    history.countP (·.bank = bank)
  rowHits : ∀ bank, (v.banks bank).rowHits.toNat = (rowBuffer bank history).hits

variable {size bankSize rowSize : BitVec 32} {history qs : List VaultRequest}

/-- The counters do not wrap around in fewer than `2 ^ 32` requests. -/
theorem Counts.exactly (h : Counts history v) (hlt : history.length < 2 ^ 32) :
    CountsExactly history v where
  requests bank := by
    rw [h.requests, BitVec.toNat_ofNat]
    exact Nat.mod_eq_of_lt (List.countP_le_length.trans_lt hlt)
  rowHits bank := by
    have hhits : (rowBuffer bank history).hits ≤ (accessesOf bank history).length :=
      RowBuffer.hits_after_le _
    rw [accessesOf, List.length_map] at hhits
    rw [h.rowHits, BitVec.toNat_ofNat]
    exact Nat.mod_eq_of_lt ((hhits.trans (List.length_filter_le _ _)).trans_lt hlt)

theorem accesses_rowBuffer (bank : BitVec 32) (qs : List VaultRequest) :
    (rowBuffer bank qs).accesses = qs.countP (·.bank = bank) := by
  rw [rowBuffer, RowBuffer.accesses_after, accessesOf, List.length_map,
    List.countP_eq_length_filter]

/-- The vault is as its row buffers say after the requests `history`. -/
def ModelsAll (v : VaultPerfModel) (history : List VaultRequest) : Prop :=
  ∀ bank, (v.banks bank).Models (rowBuffer bank history)

theorem ModelsAll.counts (h : v.ModelsAll history) : Counts history v where
  requests bank := by rw [(h bank).requests, accesses_rowBuffer]
  rowHits bank := (h bank).rowHits

/-- A request keeps the vault in step with its row buffers, if it finds the open row. -/
theorem ModelsAll.processRequest (h : v.ModelsAll history) (hauto : v.autoRef = false)
    (hfind : (v.banks q.bank).getOpennedRow =
      ((rowBuffer q.bank history).last.map Prod.snd).getD (-1))
    (hlast : ∀ kind opened, (rowBuffer q.bank history).last = some (kind, opened) → opened ≠ -1) :
    (v.processRequest U q).1.ModelsAll (history ++ [q]) ∧
      Served U history q (v.processRequest U q) := by
  obtain ⟨hready, hlatency⟩ := ready_openRow (U := U) (h q.bank) hfind hlast q.row q.curTime
    q.command
  obtain ⟨-, -, -, -, -, haccess⟩ := processCommand_access U
    (q.curTime + (openRow U false (v.banks q.bank) q.row q.curTime).2) q.command_eq
    hready.curOpenRow
  have hself : (accessed U (v.banks q.bank) q).1.Models
      ((rowBuffer q.bank history).access (q.command, q.row)) := hready.access q.command_eq _
  -- only the bank of the request has changed, and only its row buffer
  have hmodels : (v.processRequest U q).1.ModelsAll (history ++ [q]) := by
    intro bank
    rw [processRequest_eq hauto]
    by_cases hbank : bank = q.bank
    · rw [hbank, rowBuffer_concat_self]
      simpa using hself
    · rw [rowBuffer_concat_of_ne history (Ne.symm hbank)]
      simpa [hbank] using h bank
  refine ⟨hmodels, ?_, ?_, ?_, fun bank => (hmodels bank).illegal, ?_⟩
  · intro row
    rw [(hmodels q.bank).rowState, rowBuffer_concat_self]
    exact Option.some_inj.trans eq_comm
  · rw [(hmodels q.bank).curOpenRow, rowBuffer_concat_self]
    rfl
  · rw [(hmodels q.bank).curCmd, rowBuffer_concat_self]
    rfl
  · rw [processRequest_eq hauto, ← hlatency]
    exact congrArg (_ + ·) haccess

/-- A vault in a run never refreshes by itself, and keeps its geometry. -/
structure InRun (bankSize rowSize : BitVec 32) (v : VaultPerfModel) : Prop where
  autoRef : v.autoRef = false
  nRows : ∀ bank, (v.banks bank).nRows = bankSize / rowSize

theorem InRun.processRequest (h : InRun bankSize rowSize v) (q : VaultRequest) :
    InRun bankSize rowSize (v.processRequest U q).1 := by
  rw [processRequest_eq h.autoRef]
  refine ⟨h.autoRef, fun bank => ?_⟩
  by_cases hq : bank = q.bank
  · simpa [hq, nRows_accessed] using h.nRows q.bank
  · simpa [hq] using h.nRows bank

theorem inRun_run (U : TimeUnits) (size bankSize rowSize : BitVec 32) (qs : List VaultRequest) :
    InRun bankSize rowSize ((machine U size bankSize rowSize).run qs) := by
  induction qs using List.reverseRecOn with
  | nil => exact ⟨rfl, fun _ => rfl⟩
  | append_singleton qs q ih =>
    rw [Machine.run_concat]
    exact ih.processRequest q

/-- The bank and the row of a request exist. -/
structure InRange (size bankSize rowSize : BitVec 32) (q : VaultRequest) : Prop where
  bank : q.bank < size / bankSize
  row : q.row < bankSize / rowSize

/-- A vault finds the open row of a bank, as the number of rows is an `int`. -/
theorem ModelsAll.served (h : v.ModelsAll history) (hrun : InRun bankSize rowSize v)
    (hrange : ∀ q ∈ history, InRange size bankSize rowSize q)
    (hrows : (bankSize / rowSize).toNat < 2 ^ 31) :
    (v.processRequest U q).1.ModelsAll (history ++ [q]) ∧
      Served U history q (v.processRequest U q) := by
  -- the row that is open has been requested before, so it exists
  have hlt : ∀ kind opened, (rowBuffer q.bank history).last = some (kind, opened) →
      opened < (v.banks q.bank).nRows := by
    intro kind opened hlast
    obtain ⟨q', hq', rfl⟩ := exists_of_last_rowBuffer hlast
    rw [hrun.nRows]
    exact (hrange q' hq').row
  refine h.processRequest hrun.autoRef ?_ fun kind opened hlast =>
    ne_neg_one_of_lt (hlt kind opened hlast)
  cases hlast : (rowBuffer q.bank history).last with
  | none =>
    refine getOpennedRow_of_closed fun row => ?_
    rw [Ne, (h q.bank).rowState, hlast]
    exact fun heq => absurd heq.symm (Option.some_ne_none row)
  | some access =>
    refine getOpennedRow_of_opened (fun row => ?_) (hlt access.1 access.2 hlast) ?_
    · rw [(h q.bank).rowState, hlast]
      exact Option.some_inj.trans eq_comm
    · rw [hrun.nRows]
      exact hrows

/-- Every bank stays in step with its row buffer. -/
theorem modelsAll_run (U : TimeUnits) (hrows : (bankSize / rowSize).toNat < 2 ^ 31)
    (hrange : ∀ q ∈ qs, InRange size bankSize rowSize q) :
    ((machine U size bankSize rowSize).run qs).ModelsAll qs := by
  induction qs using List.reverseRecOn with
  | nil => exact fun _ => models_new bankSize rowSize
  | append_singleton qs q ih =>
    have hrange' : ∀ q' ∈ qs, InRange size bankSize rowSize q' := fun q' hq' =>
      hrange q' (List.mem_append_left _ hq')
    rw [Machine.run_concat]
    exact ((ih hrange').served (inRun_run U size bankSize rowSize qs) hrange' hrows).1

/-- For all banks with fewer than `2 ^ 31` rows and every sequence of requests for banks and rows
that exist: each of them is served as by open-page row buffers, without an illegal transition, and
the counters are those of the row buffers modulo `2 ^ 32`; in fewer than `2 ^ 32` requests they do
not wrap around. -/
theorem open_page (U : TimeUnits) (size bankSize rowSize : BitVec 32) (qs : List VaultRequest)
    (hrows : (bankSize / rowSize).toNat < 2 ^ 31)
    (hrange : ∀ q ∈ qs, InRange size bankSize rowSize q) :
    ∀ before q after, qs = before ++ q :: after →
      let r := ((machine U size bankSize rowSize).run before).processRequest U q
      Served U before q r ∧ Counts (before ++ [q]) r.1 ∧
        (qs.length < 2 ^ 32 → CountsExactly (before ++ [q]) r.1) := by
  rintro before q after rfl r
  have hrange' : ∀ q' ∈ before, InRange size bankSize rowSize q' := fun q' hq' =>
    hrange q' (List.mem_append_left _ hq')
  obtain ⟨hmodels, hserved⟩ := (modelsAll_run U hrows hrange').served (U := U) (q := q)
    (inRun_run U size bankSize rowSize before) hrange' hrows
  refine ⟨hserved, hmodels.counts, fun hlt => hmodels.counts.exactly (lt_of_le_of_lt ?_ hlt)⟩
  simp

/-- A read of a row of the first bank. -/
def readOfFirstBank (row : BitVec 32) : VaultRequest := ⟨0, .read, 0, row⟩

/-- A row of a bank of four is accessed twice, then another one. -/
theorem open_page_fourRows :
    let qs := [readOfFirstBank 1, readOfFirstBank 1, readOfFirstBank 2]
    ∀ before q after, qs = before ++ q :: after →
      let r := ((machine .femtoseconds 64 32 8).run before).processRequest .femtoseconds q
      Served .femtoseconds before q r ∧ CountsExactly (before ++ [q]) r.1 := by
  intro qs before q after hqs r
  have hrange : ∀ q ∈ qs, InRange 64 32 8 q := by
    intro q hq
    simp only [qs, List.mem_cons, List.not_mem_nil, or_false] at hq
    rcases hq with rfl | rfl | rfl <;> exact ⟨by decide, by decide⟩
  obtain ⟨hserved, -, hexact⟩ :=
    open_page .femtoseconds 64 32 8 qs (by decide) hrange before q after hqs
  exact ⟨hserved, hexact (by decide)⟩

/-- The second access to a bank of `2 ^ 31` rows activates it again, and `2 ^ 32` accesses to any
bank are counted as none. -/
theorem not_open_page :
    (¬ ∀ (size bankSize rowSize : BitVec 32) (qs : List VaultRequest),
      (∀ q ∈ qs, InRange size bankSize rowSize q) →
        ∀ before q after, qs = before ++ q :: after →
          Served .femtoseconds before q
            (((machine .femtoseconds size bankSize rowSize).run before).processRequest
              .femtoseconds q)) ∧
    ¬ ∀ (size bankSize rowSize : BitVec 32) (qs : List VaultRequest),
      (bankSize / rowSize).toNat < 2 ^ 31 → (∀ q ∈ qs, InRange size bankSize rowSize q) →
        CountsExactly qs ((machine .femtoseconds size bankSize rowSize).run qs) := by
  constructor
  · intro h
    have hserved := h (2 ^ 31) (2 ^ 31) 1 [readOfFirstBank 1, readOfFirstBank 1]
      (fun q hq => by
        simp only [List.mem_cons, List.not_mem_nil, or_false, or_self] at hq
        rw [hq]
        exact ⟨by decide, by decide⟩)
      [readOfFirstBank 1] (readOfFirstBank 1) [] rfl
    exact absurd (hserved.legal 0) (by decide +kernel)
  · intro h
    have hcounts := (h 64 32 8 (List.replicate (2 ^ 32) (readOfFirstBank 1)) (by decide)
      (fun q hq => by
        rw [List.eq_of_mem_replicate hq]
        exact ⟨by decide, by decide⟩)).requests 0
    -- a word is below the number of requests
    rw [List.countP_replicate, if_pos (by decide)] at hcounts
    exact absurd hcounts (BitVec.isLt _).ne

end VaultPerfModel

end StackedDram
