import StackedDram.Ramulator.OpenRows

/-!
# The row table

`RowTable::update` keeps an entry for every open row, next to the states of the banks, and asserts
on the way that the commands make sense. The table is updated with every command that the channel
issues. No assertion fails, and the entries are the open rows with the numbers of their accesses, as
far as 32 bits count them (`rowTable_run`).
-/

namespace StackedDram.Ramulator

/-! ## Kinds of commands -/

/-- `HBM::is_opening` -/
def isOpening : Command → Bool
  | .act => true
  | _ => false

/-- `HBM::is_accessing` -/
def isAccessing : Command → Bool
  | .rd | .wr | .rda | .wra => true
  | _ => false

/-- `HBM::is_closing` -/
def isClosing : Command → Bool
  | .rda | .wra | .pre | .prea => true
  | _ => false

/-! ## The table -/

/-- `RowTable::Entry` -/
structure RowTable.Entry where
  row : ℤ
  hits : BitVec 32
  timestamp : ℤ

/-- `RowTable::table`, a map from the numbers of banks. -/
abbrev RowTable := List (List ℤ × RowTable.Entry)

namespace RowTable

variable {t : RowTable} {key key' : List ℤ}

/-- The entry for a bank. -/
def lookup (t : RowTable) (key : List ℤ) : Option Entry := (t.find? (·.1 = key)).map Prod.snd

/-- `table.insert`, which changes no entry that exists. -/
def insert (t : RowTable) (key : List ℤ) (entry : Entry) : RowTable :=
  if (t.lookup key).isSome then t else t ++ [(key, entry)]

/-- Changes the entry for a bank. -/
def modify (t : RowTable) (key : List ℤ) (f : Entry → Entry) : RowTable :=
  t.map fun kv => if kv.1 = key then (kv.1, f kv.2) else kv

/-- `rowgroup`: the part of an address before the row. -/
def rowgroup (addr : Level → ℤ) : List ℤ := [addr .channel, addr .rank, addr .bank]

/-- `begin, begin + scope + 1`: the part of an address down to a level. -/
def upTo (addr : Level → ℤ) : Level → List ℤ
  | .channel => [addr .channel]
  | .rank => [addr .channel, addr .rank]
  | .bank => [addr .channel, addr .rank, addr .bank]
  | .row => [addr .channel, addr .rank, addr .bank, addr .row]
  | .column => [addr .channel, addr .rank, addr .bank, addr .row, addr .column]

/-- The first steps of `RowTable::update`, for a command that opens a row. -/
def opening (t : RowTable) (cmd : Command) (addr : Level → ℤ) (clk : ℤ) : RowTable :=
  if isOpening cmd then t.insert (rowgroup addr) ⟨addr .row, 0, clk⟩ else t

/-- The next steps, for a command that accesses a row; no table where an assertion fails. -/
def accessing (t : RowTable) (cmd : Command) (addr : Level → ℤ) (clk : ℤ) : Option RowTable :=
  if isAccessing cmd then
    match t.lookup (rowgroup addr) with
    | none => none
    | some entry =>
      if entry.row = addr .row then
        some (t.modify (rowgroup addr) fun entry =>
          { entry with hits := entry.hits + 1, timestamp := clk })
      else none
  else some t

/-- The last steps, for a command that closes rows. There is no table where an assertion fails, and
where the keys are shorter than what they are compared with. -/
def closing (t : RowTable) (cmd : Command) (addr : Level → ℤ) : Option RowTable :=
  if isClosing cmd then
    let closed (kv : List ℤ × Entry) : Bool :=
      kv.1.take (upTo addr (scope cmd)).length = upTo addr (scope cmd)
    if t.any closed then some (t.filter fun kv => !closed kv) else none
  else some t

/-- `RowTable::update` -/
def update (t : RowTable) (cmd : Command) (addr : Level → ℤ) (clk : ℤ) : Option RowTable :=
  ((t.opening cmd addr clk).accessing cmd addr clk).bind fun t => t.closing cmd addr

/-- The table after the commands of a channel; none if an assertion has failed. -/
def after (h : List Issued) : Option RowTable :=
  h.foldlM (fun t e => t.update e.cmd e.addrVec e.clk) []

/-- The table after one more command. -/
theorem after_concat (h : List Issued) (e : Issued) :
    after (h ++ [e]) = (after h).bind fun t => t.update e.cmd e.addrVec e.clk := by
  rw [after, List.foldlM_append]
  show (after h).bind _ = _
  congr 1
  funext t
  simp

/-! ## Entries -/

/-- The entry that has been inserted, where there was none. -/
theorem lookup_insert_self (hnone : t.lookup key = none) (entry : Entry) :
    (t.insert key entry).lookup key = some entry := by
  rw [insert, hnone, if_neg (by simp), lookup, List.find?_append]
  rw [lookup, Option.map_eq_none_iff] at hnone
  simp [hnone]

/-- The entries of other banks when one is inserted. -/
theorem lookup_insert_of_ne (hne : key' ≠ key) (entry : Entry) :
    (t.insert key entry).lookup key' = t.lookup key' := by
  rw [insert]
  split
  · rfl
  · rw [lookup, lookup, List.find?_append]
    simp [Ne.symm hne]

/-- The entries when one of them is changed. -/
theorem lookup_modify (t : RowTable) (key key' : List ℤ) (f : Entry → Entry) :
    (t.modify key f).lookup key' =
      if key' = key then (t.lookup key').map f else t.lookup key' := by
  induction t with
  | nil => simp [modify, lookup]
  | cons kv t ih =>
    rw [modify] at ih
    rw [modify, List.map_cons]
    rw [lookup] at ih ⊢
    rw [List.find?_cons, lookup, List.find?_cons]
    -- either this entry is the one that is looked up, or a later one is
    by_cases hkey : kv.1 = key'
    · by_cases heq : key' = key <;> simp [hkey, heq]
    · have hkey' : (if kv.1 = key then (kv.1, f kv.2) else kv).1 = kv.1 := by split <;> rfl
      simp only [hkey', hkey, decide_false]
      exact ih

/-- The entries that are kept. -/
theorem lookup_filter (t : RowTable) (p : List ℤ → Bool) (key : List ℤ) :
    lookup (t.filter fun kv => p kv.1) key = if p key then t.lookup key else none := by
  induction t with
  | nil => simp [lookup]
  | cons kv t ih =>
    rw [lookup] at ih ⊢
    rw [lookup, List.filter_cons, List.find?_cons]
    -- an entry that is dropped is not found, any other one as before
    by_cases hp : p kv.1 = true
    · rw [if_pos hp, List.find?_cons]
      by_cases hkey : kv.1 = key
      · rw [← hkey, hp]
        simp
      · simp only [hkey, decide_false]
        exact ih
    · rw [if_neg hp, ih]
      by_cases hkey : kv.1 = key
      · rw [← hkey, if_neg hp, if_neg hp]
      · simp only [hkey, decide_false]
        rfl

/-! ## Open rows -/

/-- The open row that an entry is for. -/
def Entry.openRow (entry : Entry) : OpenRow ℤ := ⟨entry.row, entry.hits.toNat⟩

/-- An open row whose accesses are counted in 32 bits. -/
def counted (o : OpenRow ℤ) : OpenRow ℤ := { o with accesses := o.accesses % 2 ^ 32 }

/-- An access counts one more, however many have been counted. -/
theorem openRow_of_access {entry : Entry} {o : OpenRow ℤ} (h : entry.openRow = counted o)
    (clk : ℤ) : ({ entry with hits := entry.hits + 1, timestamp := clk } : Entry).openRow =
      counted { o with accesses := o.accesses + 1 } := by
  have hrow : entry.row = o.row := congrArg OpenRow.row h
  have hhits : entry.hits.toNat = o.accesses % 2 ^ 32 := congrArg OpenRow.accesses h
  have hnext : (entry.hits + 1).toNat = (o.accesses + 1) % 2 ^ 32 := by
    rw [BitVec.toNat_add, hhits, Nat.mod_add_mod]
    rfl
  rw [Entry.openRow, counted, hrow, hnext]

/-- The entries of the table are the open rows. -/
def Tracks (channelId : ℕ) (t : RowTable) (s : OpenRows (ℤ × ℤ) ℤ) : Prop :=
  ∀ rank bank : ℤ, (t.lookup [(channelId : ℤ), rank, bank]).map Entry.openRow =
    (s (rank, bank)).map counted

variable {channelId : ℕ} {s : OpenRows (ℤ × ℤ) ℤ} {e : Issued}

/-- The key of a command for the channel. -/
theorem rowgroup_eq (h : e.addrVec .channel = channelId) :
    rowgroup e.addrVec = [(channelId : ℤ), e.addrVec .rank, e.addrVec .bank] := by
  rw [rowgroup, h]

/-- Two banks of a channel are the same if their keys are. -/
theorem key_inj {rank bank rank' bank' : ℤ} :
    [(channelId : ℤ), rank, bank] = [(channelId : ℤ), rank', bank'] ↔
      (rank, bank) = (rank', bank') := by
  simp [Prod.ext_iff]

/-- The entry of the bank that a command is for. -/
theorem Tracks.lookup (h : t.Tracks channelId s) (hchannel : e.addrVec .channel = channelId) :
    (t.lookup (rowgroup e.addrVec)).map Entry.openRow =
      (s (e.addrVec .rank, e.addrVec .bank)).map counted := by
  rw [rowgroup_eq hchannel]
  exact h _ _

/-- A row is opened in a bank that has none. -/
theorem Tracks.insert (h : t.Tracks channelId s) (hchannel : e.addrVec .channel = channelId)
    (hnone : s (e.addrVec .rank, e.addrVec .bank) = none) :
    (t.insert (rowgroup e.addrVec) ⟨e.addrVec .row, 0, e.clk⟩).Tracks channelId
      (s.step (.open (e.addrVec .rank, e.addrVec .bank) (e.addrVec .row))) := by
  -- the bank has no entry, so the insertion takes effect
  have hentry : t.lookup (rowgroup e.addrVec) = none := by
    rw [← Option.map_eq_none_iff, h.lookup hchannel, hnone]
    rfl
  intro rank bank
  rw [OpenRows.step, Function.update_apply]
  -- this bank has the new entry, the others keep theirs
  by_cases hbank : (rank, bank) = (e.addrVec .rank, e.addrVec .bank)
  · rw [if_pos hbank, key_inj.mpr hbank, ← rowgroup_eq hchannel, lookup_insert_self hentry]
    rfl
  · have hkey : [(channelId : ℤ), rank, bank] ≠ rowgroup e.addrVec := by
      rw [rowgroup_eq hchannel]
      exact fun heq => hbank (key_inj.mp heq)
    rw [if_neg hbank, lookup_insert_of_ne hkey]
    exact h rank bank

/-- The open row is accessed. -/
theorem Tracks.modify (h : t.Tracks channelId s) (hchannel : e.addrVec .channel = channelId)
    (clk : ℤ) :
    (t.modify (rowgroup e.addrVec) fun entry =>
      { entry with hits := entry.hits + 1, timestamp := clk }).Tracks channelId
      (s.step (.access (e.addrVec .rank, e.addrVec .bank) (e.addrVec .row))) := by
  intro rank bank
  rw [OpenRows.step, Function.update_apply, lookup_modify, rowgroup_eq hchannel]
  by_cases hbank : (rank, bank) = (e.addrVec .rank, e.addrVec .bank)
  · have hentry := h rank bank
    rw [if_pos hbank, if_pos (key_inj.mpr hbank), ← hbank, Option.map_map, Option.map_map]
    cases hopen : s (rank, bank) with
    | none =>
      rw [hopen, Option.map_none, Option.map_eq_none_iff] at hentry
      rw [hentry]
      rfl
    | some o =>
      -- the entry and the row count the access
      rw [hopen, Option.map_some, Option.map_eq_some_iff] at hentry
      obtain ⟨entry, hentry, heq⟩ := hentry
      rw [hentry]
      exact congrArg some (openRow_of_access heq clk)
  · rw [if_neg hbank, if_neg fun heq => hbank (key_inj.mp heq)]
    exact h rank bank

/-- A bank is closed. -/
theorem Tracks.filter (h : t.Tracks channelId s) (hchannel : e.addrVec .channel = channelId) :
    Tracks channelId (t.filter fun kv => !decide (kv.1.take 3 = rowgroup e.addrVec))
      (s.step (.close (e.addrVec .rank, e.addrVec .bank))) := by
  intro rank bank
  rw [OpenRows.step, Function.update_apply,
    lookup_filter t fun key => !decide (key.take 3 = rowgroup e.addrVec)]
  -- keys of banks have three numbers, so all of a key is compared
  have htake : List.take 3 [(channelId : ℤ), rank, bank] = [(channelId : ℤ), rank, bank] := rfl
  rw [htake, rowgroup_eq hchannel]
  by_cases hbank : (rank, bank) = (e.addrVec .rank, e.addrVec .bank)
  · rw [if_pos hbank, key_inj.mpr hbank]
    simp
  · have hkey : ¬ [(channelId : ℤ), rank, bank] =
        [(channelId : ℤ), e.addrVec .rank, e.addrVec .bank] := fun heq => hbank (key_inj.mp heq)
    rw [if_neg hbank, decide_eq_false hkey]
    exact h rank bank

/-- No assertion fails for a command that keeps the protocol of the rows, and the table stays in
step with the open rows. -/
theorem Tracks.update (h : t.Tracks channelId s) (hchannel : e.addrVec .channel = channelId)
    (hlegal : RowLegal s e) :
    ∃ t', t.update e.cmd e.addrVec e.clk = some t' ∧ t'.Tracks channelId (stepRows s e) := by
  obtain ⟨hkeeps, hlegal⟩ := hlegal
  rw [Issued.rowCommand] at hlegal
  rw [stepRows, Issued.rowCommand, RowTable.update]
  cases hcmd : e.cmd with
  | act =>
    rw [hcmd] at hlegal
    exact ⟨_, rfl, h.insert hchannel (hlegal _ rfl)⟩
  | rd | wr =>
    rw [hcmd] at hlegal
    -- the row that is accessed is the open one, so the assertions hold
    have hopen : (s (e.addrVec .rank, e.addrVec .bank)).map OpenRow.row = some (e.addrVec .row) :=
      hlegal _ rfl
    obtain ⟨o, ho, hrow⟩ := Option.map_eq_some_iff.mp hopen
    have hlookup := h.lookup hchannel
    rw [ho, Option.map_some] at hlookup
    obtain ⟨entry, hentry, heq⟩ := Option.map_eq_some_iff.mp hlookup
    have hrow' : entry.row = e.addrVec .row := (congrArg OpenRow.row heq).trans hrow
    refine ⟨_, ?_, h.modify hchannel e.clk⟩
    simp [opening, accessing, closing, isOpening, isAccessing, isClosing, hentry, hrow']
  | pre =>
    rw [hcmd] at hlegal
    -- the bank that is closed has an entry, so the assertion holds
    have hopen : s (e.addrVec .rank, e.addrVec .bank) ≠ none := hlegal _ rfl
    rw [ne_eq, ← Option.map_eq_none_iff (f := counted), ← h.lookup hchannel,
      Option.map_eq_none_iff, RowTable.lookup, Option.map_eq_none_iff] at hopen
    obtain ⟨kv, hkv⟩ := Option.ne_none_iff_exists'.mp hopen
    have hmem := List.mem_of_find?_eq_some hkv
    have hkey : kv.1 = rowgroup e.addrVec := by simpa using List.find?_some hkv
    have hany : t.any (fun kv => kv.1.take 3 = rowgroup e.addrVec) = true := by
      rw [List.any_eq_true]
      refine ⟨kv, hmem, ?_⟩
      rw [hkey]
      exact decide_eq_true rfl
    refine ⟨_, ?_, h.filter hchannel⟩
    show (if t.any (fun kv => kv.1.take 3 = rowgroup e.addrVec) = true then some _ else none) = _
    rw [if_pos hany]
    rfl
  | ref => exact ⟨t, rfl, h⟩
  | _ =>
    rw [hcmd] at hkeeps
    exact hkeeps.elim

end RowTable

namespace ChannelController

variable {hbm : HBM} {channelId : ℕ}

/-- The state of a bank does not depend on the number of accesses. -/
theorem hasRow_map_counted (bank : RamDRAM) (o : Option (OpenRow ℤ)) :
    bank.HasRow (o.map RowTable.counted) ↔ bank.HasRow o := by
  cases o <;> rfl

/-- The table is in step with the states of the banks, and no assertion has failed. -/
def TableTracks (hbm : HBM) (channelId : ℕ) (c : ChannelController) (h : List Issued) : Prop :=
  c.OpensRows hbm channelId h ∧
    ∃ t, RowTable.after h = some t ∧ t.Tracks channelId (rowsAfter h)

/-- The table and the states of the banks after a run. -/
theorem tableTracks_run (as : List Action) (has : ∀ a ∈ as, a.Sends (InBank hbm channelId)) :
    ((machine hbm channelId).run as).TableTracks hbm channelId (commands hbm channelId as) := by
  refine Machine.run_outputs_invariant ?_ ?_ as has
  · exact ⟨opensRows_new hbm channelId, [], rfl, fun _ _ => rfl⟩
  · rintro c h a ha ⟨hopens, t, hafter, htracks⟩
    refine ⟨hopens.step ha, ?_⟩
    rcases sameNodes_step hbm channelId c a with ⟨hnone, -⟩ | ⟨e, -, hissued, hsome, -⟩
    · -- no command is issued
      rw [hnone, List.append_nil]
      exact ⟨t, hafter, htracks⟩
    · obtain ⟨req, -, ⟨r, b, -, hchannel, -⟩, haddr, -⟩ :=
        hopens.queues.issued (holdsOfRefreshes_inBank hbm channelId) hissued
      have hchannel : e.addrVec .channel = channelId := haddr ▸ hchannel
      rw [hsome, RowTable.after_concat, rowsAfter_concat, hafter]
      exact htracks.update hchannel (hopens.rowLegal hissued).1

/-- In every run in which the memory sends reads and writes for banks of the channel, no assertion
of the row table fails, and the table has an entry for each bank with an open row and for no other:
the entry has this row, and the number of its accesses since it was opened, modulo `2 ^ 32`. -/
theorem rowTable_run (as : List Action) (has : ∀ a ∈ as, a.Sends (InBank hbm channelId)) :
    ∃ t, RowTable.after (commands hbm channelId as) = some t ∧
      (∀ rank bank : ℤ, (t.lookup [(channelId : ℤ), rank, bank]).map RowTable.Entry.openRow =
        (rowsAfter (commands hbm channelId as) (rank, bank)).map RowTable.counted) ∧
      ∀ (r b : ℕ) bank, ((machine hbm channelId).run as).channel.bank? r b = some bank →
        bank.HasRow ((t.lookup [(channelId : ℤ), (r : ℤ), (b : ℤ)]).map
          RowTable.Entry.openRow) := by
  obtain ⟨hopens, t, hafter, htracks⟩ := tableTracks_run as has
  refine ⟨t, hafter, htracks, fun r b bank hbank => ?_⟩
  rw [htracks r b]
  exact (hasRow_map_counted _ _).mpr (hopens.hasRows.hasRow r b bank hbank)

/-- The table of a run that opens a row and reads it: the row has been accessed once. -/
theorem rowTable_run_read :
    let as := readFirstBank 5 8
    ∃ t, RowTable.after (commands oneRank 0 as) = some t ∧
      (t.lookup [0, 0, 0]).map RowTable.Entry.openRow = some ⟨5, 1⟩ := by
  intro as
  obtain ⟨t, hafter, hrows, -⟩ := rowTable_run as (sends_readFirstBank 5 8)
  refine ⟨t, hafter, (hrows 0 0).trans ?_⟩
  have hopen : rowsAfter (commands oneRank 0 as) (0, 0) = some ⟨5, 1⟩ := by decide +kernel
  rw [hopen]
  rfl

end ChannelController

end StackedDram.Ramulator
