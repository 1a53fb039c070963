import StackedDram.Ramulator.OpenRows

/-!
# Row hits first

`get_head` compares requests by whether they are ready and by their times of arrival. In every
reachable state requests have arrived in the order of their queue, so the scheduler picks the first
request that is ready and hits an open row, or else the first that is ready among those that close
no row that another request hits (`scheduled_eq`). So no row is closed while a request of the same
queue hits it (`closes_no_hit`).
-/

namespace StackedDram.Ramulator

namespace ChannelController

variable {hbm : HBM} {channelId : ℕ} {c : ChannelController} {req : RamRequest}

/-! ## The comparison of requests -/

/-- The loop of `get_head` keeps a request that is preferred. -/
theorem foldl_compare_of_ready {ready : RamRequest → Bool} {head : RamRequest × ℕ}
    {l : List (RamRequest × ℕ)} (hready : ready head.1 = true)
    (harrive : ∀ itr ∈ l, head.1.arrive ≤ itr.1.arrive) :
    l.foldl (fun head itr => if compare ready head.1 itr.1 then head else itr) head = head := by
  induction l with
  | nil => rfl
  | cons itr l ih =>
    have hkeep : compare ready head.1 itr.1 = true := by
      rw [compare, hready]
      split
      · rfl
      · exact decide_eq_true (harrive itr List.mem_cons_self)
    rw [List.foldl_cons, if_pos hkeep]
    exact ih fun itr' hitr' => harrive itr' (List.mem_cons_of_mem itr hitr')

/-- The loop of `get_head` ends at the first request that is preferred, if there is one. -/
theorem foldl_compare_of_not_ready {ready : RamRequest → Bool} {head : RamRequest × ℕ}
    {l : List (RamRequest × ℕ)} (hready : ready head.1 = false)
    (hsorted : (head :: l).Pairwise fun itr itr' => itr.1.arrive ≤ itr'.1.arrive) :
    l.foldl (fun head itr => if compare ready head.1 itr.1 then head else itr) head =
      (l.find? fun itr => ready itr.1).getD head := by
  induction l with
  | nil => rfl
  | cons itr l ih =>
    obtain ⟨hfirst, hrest⟩ := List.pairwise_cons.mp hsorted
    rw [List.foldl_cons, List.find?_cons]
    cases hitr : ready itr.1 with
    | true =>
      have hleave : ¬ compare ready head.1 itr.1 = true := by
        rw [compare, hready, hitr, if_pos (by decide)]
        decide
      rw [if_neg hleave]
      exact foldl_compare_of_ready hitr (List.pairwise_cons.mp hrest).1
    | false =>
      have hkeep : compare ready head.1 itr.1 = true := by
        rw [compare, hready, hitr, if_neg (by decide)]
        exact decide_eq_true (hfirst itr List.mem_cons_self)
      rw [if_pos hkeep]
      refine ih (List.pairwise_cons.mpr ⟨fun itr' hitr' => ?_, (List.pairwise_cons.mp hrest).2⟩)
      exact hfirst itr' (List.mem_cons_of_mem itr hitr')

/-- Of requests in the order of their arrival, the scheduler takes the first that is preferred, and
otherwise the first. -/
theorem best_eq {ready : RamRequest → Bool} {l : List (RamRequest × ℕ)}
    (hsorted : l.Pairwise fun itr itr' => itr.1.arrive ≤ itr'.1.arrive) :
    best ready l = (l.find? fun itr => ready itr.1).or l.head? := by
  cases l with
  | nil => rfl
  | cons head rest =>
    rw [best, List.find?_cons]
    cases hready : ready head.1 with
    | true =>
      rw [foldl_compare_of_ready hready (List.pairwise_cons.mp hsorted).1]
      rfl
    | false =>
      rw [foldl_compare_of_not_ready hready hsorted]
      cases rest.find? fun itr => ready itr.1 <;> rfl

/-! ## The scheduler -/

/-- The request would close a row that a request of the queue hits. -/
def violatesHit (c : ChannelController) (q : List RamRequest) (req : RamRequest) : Bool :=
  !c.isRowHit req && c.isRowOpen req && ((q.filter c.isRowHit).map rowgroup).contains (rowgroup req)

theorem pairwise_zipIdx {q : List RamRequest} (hsorted : q.Pairwise fun req req' =>
    req.arrive ≤ req'.arrive) :
    q.zipIdx.Pairwise fun itr itr' => itr.1.arrive ≤ itr'.1.arrive := by
  have hmap : q.zipIdx.map Prod.fst = q := by simp
  rw [← hmap] at hsorted
  have hpairs := List.pairwise_map.mp hsorted
  exact hpairs

theorem getHead_of_sorted {q : List RamRequest} (hsorted : q.Pairwise fun req req' =>
    req.arrive ≤ req'.arrive) :
    c.getHead q =
      (q.zipIdx.find? fun itr => c.isReady itr.1 && c.isRowHit itr.1).or
        (((q.zipIdx.filter fun itr => !c.violatesHit q itr.1).find? fun itr => c.isReady itr.1).or
          (q.zipIdx.filter fun itr => !c.violatesHit q itr.1).head?) := by
  have hpairwise := pairwise_zipIdx hsorted
  have hrest : best c.isReady (q.zipIdx.filter fun itr => !c.violatesHit q itr.1) = _ :=
    best_eq (hpairwise.filter _)
  rw [getHead, best_eq hpairwise]
  cases hfind : q.zipIdx.find? fun itr => c.isReady itr.1 && c.isRowHit itr.1 with
  | some head =>
    have hhead := List.find?_some hfind
    rw [Option.some_or, Option.bind_some, Option.some_or]
    exact if_pos hhead
  | none =>
    rw [Option.none_or, Option.none_or]
    cases hq : q.zipIdx.head? with
    | none =>
      have hnil : q.zipIdx = [] := List.head?_eq_none_iff.mp hq
      rw [hnil]
      rfl
    | some head =>
      have hmem := List.mem_of_mem_head? hq
      have hnot := List.find?_eq_none.mp hfind head hmem
      rw [Option.bind_some, ← hrest]
      exact if_neg hnot

/-- What is scheduled when requests have arrived in the order of their queues. -/
theorem scheduled_of_inOrder (hc : c.QueuesInOrder) :
    let q := c.getQueue c.selectedQueue
    c.scheduled =
      (q.zipIdx.find? fun itr => c.isReady itr.1 && c.isRowHit itr.1).or
        (q.zipIdx.find? fun itr => !c.violatesHit q itr.1 && c.isReady itr.1) := by
  intro q
  rw [scheduled, getHead_of_sorted (hc.getQueue _).sorted]
  cases hhit : q.zipIdx.find? fun itr => c.isReady itr.1 && c.isRowHit itr.1 with
  | some head =>
    have hhead := List.find?_some hhit
    exact Option.filter_eq_some_iff.mpr ⟨rfl, (Bool.and_eq_true_iff.mp hhead).1⟩
  | none =>
    have hfilter : (q.zipIdx.find? fun itr => !c.violatesHit q itr.1 && c.isReady itr.1) =
        (q.zipIdx.filter fun itr => !c.violatesHit q itr.1).find? fun itr => c.isReady itr.1 := by
      simp [List.find?_filter]
    rw [Option.none_or, Option.none_or, hfilter]
    cases hfirst : (q.zipIdx.filter fun itr => !c.violatesHit q itr.1).find? fun itr =>
        c.isReady itr.1 with
    | some head =>
      have hhead := List.find?_some hfirst
      exact Option.filter_eq_some_iff.mpr ⟨rfl, hhead⟩
    | none =>
      -- the first of the requests is not ready either
      rw [Option.none_or, Option.filter_eq_none_iff]
      intro head hhead
      exact List.find?_eq_none.mp hfirst head (List.mem_of_mem_head? hhead)

/-- In every run, a tick schedules the first request of the selected queue that is ready and hits an
open row. If there is none, it schedules the first that is ready and closes no row that another
request of the queue hits, and if there is none of these either, nothing. -/
theorem scheduled_eq (hbm : HBM) (channelId : ℕ) (as : List Action) :
    let p := ((machine hbm channelId).run as).prepare hbm channelId
    let q := p.getQueue p.selectedQueue
    p.scheduled =
      (q.zipIdx.find? fun itr => p.isReady itr.1 && p.isRowHit itr.1).or
        (q.zipIdx.find? fun itr => !p.violatesHit q itr.1 && p.isReady itr.1) :=
  scheduled_of_inOrder
    (QueuesInOrder.prepare (queuesInOrder_of_reachable (Machine.reachable_run as)))

end ChannelController

/-! ## Rows that requests hit -/

namespace RamDRAM

variable {count : Level → ℕ} {t rank bank : RamDRAM} {cmd : Command} {addr : Level → ℤ} {r b : ℕ}
  {table : Level → Command → Option (RamDRAM → ℤ → Bool)} {f : RamDRAM → ℤ → Bool}

/-- A check of the rows asks the bank that the command is for. -/
theorem IsChannel.checkRowFrom_eq (h : t.IsChannel count) (hr : addr .rank = r)
    (hb : addr .bank = b) (hrank : t.children[r]? = some rank)
    (hbank : rank.children[b]? = some bank)
    (hchannelTable : table .channel cmd = none) (hrankTable : table .rank cmd = none)
    (hbankTable : table .bank cmd = some f) :
    checkRowFrom table levels t cmd addr = f bank (addr .row) := by
  have hrank' := h.isRank rank (List.mem_of_getElem? hrank)
  have hbank' := hrank'.isBank bank (List.mem_of_getElem? hbank)
  have hchild : t.child? (addr .rank) = some rank := by rw [hr, child?_natCast, hrank]
  have hchild' : rank.child? (addr .bank) = some bank := by rw [hb, child?_natCast, hbank]
  have hbelow : Level.channel.below = .rank := rfl
  have hbelow' : Level.rank.below = .bank := rfl
  have hbelow'' : Level.bank.below = .row := rfl
  show checkRowFrom table (4 + 1) t cmd addr = _
  rw [checkRowFrom, h.level, hbelow, hchild, hchannelTable]
  dsimp only
  rw [checkRowFrom, hrank'.level, hbelow', hchild', hrankTable]
  dsimp only
  rw [checkRowFrom, hbank'.level, hbelow'', hbankTable]

/-- An access hits a row if it is the open row of the bank, -/
theorem IsChannel.checkRowHit_eq (h : t.IsChannel count) (hr : addr .rank = r)
    (hb : addr .bank = b) (hrank : t.children[r]? = some rank)
    (hbank : rank.children[b]? = some bank)
    (hcmd : cmd = .rd ∨ cmd = .wr) :
    t.checkRowHit cmd addr =
      decide (bank.state = .opened ∧ (bank.rowState (addr .row)).isSome) := by
  rw [checkRowHit]
  rcases hcmd with rfl | rfl
  · rw [h.checkRowFrom_eq hr hb hrank hbank rfl rfl (by rw [rowhit])]
  · rw [h.checkRowFrom_eq hr hb hrank hbank rfl rfl (by rw [rowhit])]

/-- and finds a row open if the bank is. -/
theorem IsChannel.checkRowOpen_eq (h : t.IsChannel count) (hr : addr .rank = r)
    (hb : addr .bank = b) (hrank : t.children[r]? = some rank)
    (hbank : rank.children[b]? = some bank)
    (hcmd : cmd = .rd ∨ cmd = .wr) :
    t.checkRowOpen cmd addr = decide (bank.state = .opened) := by
  rw [checkRowOpen]
  rcases hcmd with rfl | rfl
  · rw [h.checkRowFrom_eq hr hb hrank hbank rfl rfl (by rw [rowopen])]
  · rw [h.checkRowFrom_eq hr hb hrank hbank rfl rfl (by rw [rowopen])]

end RamDRAM

namespace ChannelController

variable {hbm : HBM} {channelId : ℕ} {c : ChannelController} {req : RamRequest} {e : Issued}
  {h : List Issued}

/-- The bank of a request, among those of its channel. -/
def bankOf (req : RamRequest) : ℤ × ℤ := (req.addrVec .rank, req.addrVec .bank)

/-- What comes first for a read or a write: a row is opened if the bank has none, closed if it is
another one, and accessed if it is the row of the request. -/
theorem OpensRows.first_cases (hc : c.OpensRows hbm channelId h)
    (hreq : InBank hbm channelId req.content) (htype : req.type = .read ∨ req.type = .write) :
    (rowsAfter h (bankOf req) = none ∧ c.firstCmd req = some .act ∧ c.isRowHit req = false) ∨
      ∃ o, rowsAfter h (bankOf req) = some o ∧
        ((req.addrVec .row = o.row ∧ c.firstCmd req = some (translate req.type) ∧
            c.isRowHit req = true) ∨
          (req.addrVec .row ≠ o.row ∧ c.firstCmd req = some .pre ∧ c.isRowHit req = false ∧
            c.isRowOpen req = true)) := by
  obtain ⟨r, b, ⟨hr, hb⟩, -, hrank, hbank⟩ := hreq
  have hrank : req.addrVec .rank = r := hrank
  have hbank : req.addrVec .bank = b := hbank
  obtain ⟨rank, bank, hgetRank, hgetBank⟩ := hc.isChannel.exists_bank hr hb
  have hrow := hc.hasRows.hasRow r b bank (RamDRAM.bank?_eq_some.mpr ⟨rank, hgetRank, hgetBank⟩)
  have hpower := hc.hasRows.powerUp rank (List.mem_of_getElem? hgetRank)
  have hcmd : translate req.type = .rd ∨ translate req.type = .wr := by
    rcases htype with htype | htype
    · exact Or.inl (by rw [htype]; rfl)
    · exact Or.inr (by rw [htype]; rfl)
  have hkey : bankOf req = ((r : ℤ), (b : ℤ)) := by rw [bankOf, hrank, hbank]
  rw [firstCmd, hc.isChannel.decode_access hrank hbank hgetRank hgetBank hpower hcmd, isRowHit,
    isRowOpen, hc.isChannel.checkRowHit_eq hrank hbank hgetRank hgetBank hcmd,
    hc.isChannel.checkRowOpen_eq hrank hbank hgetRank hgetBank hcmd, hkey]
  cases hopened : rowsAfter h ((r : ℤ), (b : ℤ)) with
  | none =>
    rw [hopened] at hrow
    refine Or.inl ⟨rfl, RamDRAM.accessPrereq_of_none hrow _ _, decide_eq_false ?_⟩
    rw [hrow.1]
    exact fun hhit => absurd hhit.1 (by decide)
  | some o =>
    rw [hopened] at hrow
    refine Or.inr ⟨o, rfl, ?_⟩
    rw [RamDRAM.accessPrereq_of_some hrow]
    by_cases heq : req.addrVec .row = o.row
    · refine Or.inl ⟨heq, by rw [if_pos heq], decide_eq_true ⟨hrow.1, ?_⟩⟩
      rw [hrow.2, heq, Function.update_self]
      rfl
    · refine Or.inr ⟨heq, by rw [if_neg heq], decide_eq_false ?_, decide_eq_true hrow.1⟩
      rw [hrow.2, Function.update_of_ne heq]
      exact fun hhit => absurd hhit.2 (by simp)

/-- A refresh is for a rank, and needs no other command before it. -/
theorem OpensRows.decode_refresh (hc : c.OpensRows hbm channelId h)
    (hreq : InBank hbm channelId req.content) :
    c.channel.decode .ref req.addrVec = some .ref := by
  obtain ⟨r, b, ⟨hr, hb⟩, -, hrank, -⟩ := hreq
  have hrank : req.addrVec .rank = r := hrank
  obtain ⟨rank, -, hget, -⟩ := hc.isChannel.exists_bank hr hb
  have hchild : c.channel.child? (req.addrVec .rank) = some rank := by
    rw [hrank, RamDRAM.child?_natCast, hget]
  exact hc.isChannel.decode_ref hchild

/-- The rows only change when a command is issued. -/
theorem OpensRows.prepare (hc : c.OpensRows hbm channelId h) :
    (c.prepare hbm channelId).OpensRows hbm channelId h where
  isChannel := by
    rw [channel_prepare]
    exact hc.isChannel
  hasRows := by
    rw [channel_prepare]
    exact hc.hasRows
  queues := hc.queues.prepare (holdsOfRefreshes_inBank hbm channelId)

/-- No row is closed while a request in the queue that is served hits it. -/
theorem OpensRows.not_hit_of_pre (hc : c.OpensRows hbm channelId h) (hin : c.QueuesInOrder)
    (he : c.issued hbm channelId = some e) (hpre : e.cmd = .pre) :
    let p := c.prepare hbm channelId
    ∀ req ∈ p.getQueue p.selectedQueue, p.isRowHit req = true →
      rowgroup req ≠ (e.addrVec .channel, e.addrVec .rank, e.addrVec .bank) := by
  intro p hit hmem hhit hsame
  obtain ⟨req, i, hscheduled, haddr, -, hdecode, -⟩ := issued_eq_some he
  have hget := getElem?_of_getHead (scheduled_eq_some hscheduled).1
  obtain ⟨htype, hbank⟩ := hc.prepare.queues.getQueue _ req (List.mem_of_getElem? hget)
  rw [haddr, hpre, ← channel_prepare hbm channelId] at hdecode
  have hrow : p.isRowHit req = false ∧ p.isRowOpen req = true := by
    have hcases : (req.type = .read ∨ req.type = .write) ∨ req.type = .refresh := by
      rw [htype]
      cases p.selectedQueue <;> simp [queueType]
    have hfirst : p.firstCmd req = some .pre := hdecode
    rcases hcases with haccess | hrefresh
    · rcases hc.prepare.first_cases hbank haccess with
        ⟨-, hact, -⟩ | ⟨o, -, ⟨-, hlast, -⟩ | ⟨-, -, hhit, hopen⟩⟩
      · exact absurd (hfirst.symm.trans hact) (by decide)
      · rcases haccess with htype | htype <;> rw [htype] at hlast <;>
          exact absurd (hfirst.symm.trans hlast) (by decide)
      · exact ⟨hhit, hopen⟩
    · -- a refresh closes nothing
      rw [firstCmd, hrefresh] at hfirst
      exact absurd (hfirst.symm.trans (hc.prepare.decode_refresh hbank)) (by decide)
  have hviolates : p.violatesHit (p.getQueue p.selectedQueue) req = true := by
    rw [violatesHit, hrow.1, hrow.2]
    refine List.contains_iff_mem.mpr (List.mem_map.mpr ⟨hit, List.mem_filter.mpr ⟨hmem, hhit⟩, ?_⟩)
    rw [hsame, haddr]
    rfl
  rw [scheduled_of_inOrder hin.prepare] at hscheduled
  rcases Option.or_eq_some_iff.mp hscheduled with hfirst | ⟨-, hfirst⟩
  · have hready := List.find?_some hfirst
    rw [Bool.and_eq_true_iff, hrow.1] at hready
    exact absurd hready.2 (by decide)
  · have hready := List.find?_some hfirst
    rw [Bool.and_eq_true_iff, hviolates] at hready
    exact absurd hready.1 (by decide)

/-- In every run in which the memory sends reads and writes for banks of the channel, no row is
closed while a request in the queue that is served hits it. -/
theorem closes_no_hit (as : List Action) (has : ∀ a ∈ as, a.Sends (InBank hbm channelId)) :
    let c := (machine hbm channelId).run as
    let p := c.prepare hbm channelId
    ∀ e, c.issued hbm channelId = some e → e.cmd = .pre →
      ∀ req ∈ p.getQueue p.selectedQueue, p.isRowHit req = true →
        rowgroup req ≠ (e.addrVec .channel, e.addrVec .rank, e.addrVec .bank) := by
  intro c p e he hpre
  have hin : c.QueuesInOrder := queuesInOrder_of_reachable (Machine.reachable_run as)
  exact (opensRows_run as has).not_hit_of_pre hin he hpre

/-- A read of a row of a bank of the first rank. -/
def readRow (bank row : ℤ) : Action :=
  .enqueue { RamRequest.new 0 .read with
    addrVec := fun | .bank => bank | .row => row | _ => 0 }

/-- Row 5 of the first bank is open and has been read, when a read of row 9 of the second bank and
one of row 6 of the first bank arrive; the former opens its row. -/
def readsOfTwoBanks : List Action :=
  readRow 0 5 :: List.replicate 14 .tick ++ readRow 1 9 :: readRow 0 6 :: List.replicate 3 .tick

/-- These reads are for banks of the channel. -/
theorem sends_readsOfTwoBanks : ∀ a ∈ readsOfTwoBanks, a.Sends (InBank oneRank 0) := by
  intro a ha
  simp only [readsOfTwoBanks, List.cons_append, List.mem_cons, List.mem_append] at ha
  rcases ha with rfl | ha | rfl | rfl | ha
  · exact ⟨Or.inl rfl, 0, 0, by decide, rfl, rfl, rfl⟩
  · obtain rfl := List.eq_of_mem_replicate ha
    trivial
  · exact ⟨Or.inl rfl, 0, 1, by decide, rfl, rfl, rfl⟩
  · exact ⟨Or.inl rfl, 0, 0, by decide, rfl, rfl, rfl⟩
  · obtain rfl := List.eq_of_mem_replicate ha
    trivial

/-- The first bank is closed for the read of row 6 while the other read still waits to hit row 9 of
the second bank. -/
theorem closes_no_hit_read :
    let c := (machine oneRank 0).run readsOfTwoBanks
    let p := c.prepare oneRank 0
    (c.issued oneRank 0).map Issued.cmd = some .pre ∧
      (p.getQueue p.selectedQueue).map p.isRowHit = [true, false] ∧
      ∀ e, c.issued oneRank 0 = some e → e.cmd = .pre →
        ∀ req ∈ p.getQueue p.selectedQueue, p.isRowHit req = true →
          rowgroup req ≠ (e.addrVec .channel, e.addrVec .rank, e.addrVec .bank) :=
  ⟨by decide +kernel, by decide +kernel, closes_no_hit _ sends_readsOfTwoBanks⟩

end ChannelController

end StackedDram.Ramulator
