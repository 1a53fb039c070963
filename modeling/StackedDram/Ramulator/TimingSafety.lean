import StackedDram.Library.Spacing
import StackedDram.Ramulator.Commands

/-!
# Timing of the issued commands

The nodes of a channel decide by `next` and `prev` when a command may be issued. After any run they
are those that the history of the issued commands determines (`recorded`), every node with the
commands to itself and to the nodes below it. So a command is ready exactly when it has waited for
as long as the table of `HBM::init_timing` asks for, after all commands since the start
(`ready_iff_waited`), and the commands that a channel issues keep all distances of the table
(`commands_spaced`).
-/

namespace StackedDram.Ramulator

/-! ## The table -/

/-- An entry of the table, as a wait. -/
def TimingEntry.toWait (entry : TimingEntry) : Wait Command := ⟨entry.cmd, entry.dist, entry.val⟩

/-- The waits after the commands to a node of the level. -/
def waits (s : SpeedEntry) (level : Level) (cmd : Command) : List (Wait Command) :=
  (timing s level cmd).map TimingEntry.toWait

theorem one_le_dist (s : SpeedEntry) (level : Level) (cmd : Command) :
    ∀ w ∈ waits s level cmd, 1 ≤ w.dist := by
  cases level <;> cases cmd <;> simp [waits, timing, TimingEntry.toWait]

/-- The entries for banks are about commands that go down to a bank. -/
theorem scope_key_ne_rank (s : SpeedEntry) (cmd : Command) :
    ∀ w ∈ waits s .bank cmd, scope w.key ≠ .rank := by
  cases cmd <;> simp [waits, timing, TimingEntry.toWait, scope]

/-! ## Nodes -/

/-- What a node keeps of a command. -/
def Issued.use (e : Issued) : Command × ℤ := (e.cmd, e.clk)

namespace Node

/-- The commands to a node and to the nodes below it, with their clocks. -/
def uses (channelId : ℕ) (node : Node) (h : List Issued) : List (Command × ℤ) :=
  (h.filter fun e => node.On channelId e.addrVec).map Issued.use

end Node

namespace RamTiming

/-! ## Nodes after a history -/

/-- The part of a node by which waits are decided. -/
def gate (t : RamTiming) : Gate Command := ⟨t.next, t.prev⟩

variable (s : SpeedEntry) (count : Level → ℕ)

theorem gate_updateNode (t : RamTiming) (cmd : Command) (clk : ℤ) :
    (t.updateNode s cmd clk).gate = t.gate.record (waits s t.level) cmd clk := by
  rw [Gate.record, waits, List.foldl_map]
  rfl

/-- The number of children of a node. -/
def childMax (count : Level → ℕ) (level : Level) : ℕ :=
  if level.below = .row then 0 else count level.below

/-- The commands that are for the node or for nodes below it. -/
def own (level : Level) (id : ℕ) (h : List Issued) : List Issued :=
  h.filter fun e => e.addrVec level = (id : ℤ)

/-- What decides the waits of a node, after the commands of a history. -/
def gateAfter (level : Level) (h : List Issued) : Gate Command :=
  Gate.after (waits s level) (h.map Issued.use)

/-- A node with its children, after the commands of a history. -/
def recorded : ℕ → Level → ℕ → List Issued → RamTiming
  | 0, level, id, _ => ⟨level, id, fun _ => -1, fun _ => [], []⟩
  | depth + 1, level, id, h =>
    let g := gateAfter s level (own level id h)
    ⟨level, id, g.next, g.prev,
      (List.range (childMax count level)).map fun i =>
        recorded depth level.below i (own level id h)⟩

theorem newFrom_eq_recorded (depth : ℕ) (level : Level) (id : ℕ) :
    newFrom s count depth level id = recorded s count depth level id [] := by
  induction depth generalizing level id with
  | zero => rfl
  | succ depth ih =>
    have hdepth (cmd : Command) : ((timing s level cmd).map TimingEntry.dist).foldl max 0 =
        Gate.depth (waits s level) cmd := by
      rw [Gate.depth, waits, List.map_map]
      rfl
    rw [newFrom, recorded]
    simp only [hdepth]
    refine congrArg (RamTiming.mk level id _ _) (List.map_congr_left fun i _ => ?_)
    exact ih level.below i

variable {s count} {depth : ℕ} {level : Level} {id : ℕ} {h : List Issued} {e : Issued}

theorem own_concat_of_eq (hid : e.addrVec level = (id : ℤ)) :
    own level id (h ++ [e]) = own level id h ++ [e] := by
  simp [own, hid]

theorem own_concat_of_ne (hid : e.addrVec level ≠ (id : ℤ)) :
    own level id (h ++ [e]) = own level id h := by
  simp [own, hid]

/-- A command goes to the nodes on its way, and to no others. -/
theorem updateTimingFrom_recorded (e : Issued) :
    updateTimingFrom s depth (recorded s count depth level id h) e.cmd e.addrVec e.clk =
      recorded s count depth level id (h ++ [e]) := by
  induction depth generalizing level id h with
  | zero => rfl
  | succ depth ih =>
    rw [updateTimingFrom]
    by_cases hid : e.addrVec level = (id : ℤ)
    · have hon : ¬ ((id : ℤ) ≠ e.addrVec level) := not_not_intro hid.symm
      rw [if_neg (by exact hon)]
      have hgate := gate_updateNode s (recorded s count (depth + 1) level id h) e.cmd e.clk
      have hafter : gateAfter s level (own level id (h ++ [e])) =
          (gateAfter s level (own level id h)).record (waits s level) e.cmd e.clk := by
        rw [own_concat_of_eq hid, gateAfter, List.map_append, List.map_singleton,
          Gate.after_concat]
        rfl
      have hchildren : ((recorded s count (depth + 1) level id h).updateNode s e.cmd
          e.clk).children.map (fun child => updateTimingFrom s depth child e.cmd e.addrVec e.clk) =
            (recorded s count (depth + 1) level id (h ++ [e])).children := by
        show ((List.range (childMax count level)).map _).map _ = (List.range _).map _
        rw [List.map_map, own_concat_of_eq hid]
        exact List.map_congr_left fun i _ => ih
      show RamTiming.mk level id
          ((recorded s count (depth + 1) level id h).updateNode s e.cmd e.clk).gate.next
          ((recorded s count (depth + 1) level id h).updateNode s e.cmd e.clk).gate.prev
          (((recorded s count (depth + 1) level id h).updateNode s e.cmd e.clk).children.map _) =
        RamTiming.mk level id (gateAfter s level (own level id (h ++ [e]))).next
          (gateAfter s level (own level id (h ++ [e]))).prev _
      rw [hgate, hafter, hchildren]
      rfl
    · have hother : (id : ℤ) ≠ e.addrVec level := Ne.symm hid
      rw [if_pos (by exact hother), recorded, recorded, own_concat_of_ne hid]

/-! ## Checks -/

/-- A node lets a command pass when the command has waited for as long as the node wants. -/
theorem next_gateAfter_iff (hpos : ∀ e ∈ h, 0 ≤ e.clk) {cmd : Command} {clk : ℤ} (hclk : 0 ≤ clk) :
    ¬ ((gateAfter s level h).next cmd ≠ -1 ∧ clk < (gateAfter s level h).next cmd) ↔
      Wait.Waited (waits s level) (h.map Issued.use) cmd clk := by
  have hpos' : ∀ e ∈ h.map Issued.use, 0 ≤ e.2 := by
    intro use huse
    obtain ⟨e, he, rfl⟩ := List.mem_map.mp huse
    exact hpos e he
  rw [← Gate.next_after_le_iff (one_le_dist s level) hpos' (by omega), ← gateAfter]
  omega

theorem nonneg_own (hpos : ∀ e ∈ h, 0 ≤ e.clk) : ∀ e ∈ own level id h, 0 ≤ e.clk :=
  fun e he => hpos e (List.mem_filter.mp he).1

/-- What a node has to say about a command, and whether it asks a child. -/
theorem checkFrom_succ_iff {t : RamTiming} {cmd : Command} {addr : Level → ℤ} {clk : ℤ} :
    checkFrom (depth + 1) t cmd addr clk = true ↔
      ¬ (t.next cmd ≠ -1 ∧ clk < t.next cmd) ∧
        (addr t.level.below < 0 ∨ t.level = scope cmd ∨ t.children = [] ∨
          ∃ (i : ℕ) (child : RamTiming), addr t.level.below = i ∧ t.children[i]? = some child ∧
            checkFrom depth child cmd addr clk = true) := by
  rw [checkFrom]
  by_cases hnext : t.next cmd ≠ -1 ∧ clk < t.next cmd
  · rw [if_pos hnext]
    exact iff_of_false Bool.false_ne_true fun h => h.1 hnext
  rw [if_neg hnext]
  by_cases hstop : addr t.level.below < 0 ∨ t.level = scope cmd ∨ t.children = []
  · rw [if_pos hstop]
    refine iff_of_true rfl ⟨hnext, ?_⟩
    rcases hstop with hneg | hscope | hnone
    · exact Or.inl hneg
    · exact Or.inr (Or.inl hscope)
    · exact Or.inr (Or.inr (Or.inl hnone))
  rw [if_neg hstop]
  obtain ⟨hneg, hbelow⟩ := not_or.mp hstop
  obtain ⟨hscope, hsome⟩ := not_or.mp hbelow
  obtain ⟨i, hi⟩ := Int.eq_ofNat_of_zero_le (not_lt.mp hneg)
  rw [hi, Int.toNat_natCast]
  constructor
  · intro hcheck
    cases hchild : t.children[i]? with
    | none => simp [hchild] at hcheck
    | some child =>
      rw [hchild] at hcheck
      exact ⟨hnext, Or.inr (Or.inr (Or.inr ⟨i, child, rfl, hchild, hcheck⟩))⟩
  · rintro ⟨-, hneg' | hscope' | hnone | ⟨j, child, hj, hchild, hcheck⟩⟩
    · exact absurd hneg' (by omega)
    · exact absurd hscope' hscope
    · exact absurd hnone hsome
    · obtain rfl : i = j := Int.ofNat_inj.mp hj
      rwa [hchild]

/-- The check of a node after a history, and of the nodes below it. -/
theorem checkFrom_recorded_iff (hpos : ∀ e ∈ h, 0 ≤ e.clk) {cmd : Command} {addr : Level → ℤ}
    {clk : ℤ} (hclk : 0 ≤ clk) :
    checkFrom (depth + 1) (recorded s count (depth + 1) level id h) cmd addr clk = true ↔
      Wait.Waited (waits s level) ((own level id h).map Issued.use) cmd clk ∧
        (addr level.below < 0 ∨ level = scope cmd ∨ childMax count level = 0 ∨
          ∃ i < childMax count level, addr level.below = (i : ℤ) ∧
            checkFrom depth (recorded s count depth level.below i (own level id h)) cmd addr clk =
              true) := by
  rw [checkFrom_succ_iff, ← next_gateAfter_iff (nonneg_own hpos) hclk]
  refine and_congr_right fun _ => or_congr_right (or_congr_right (or_congr ?_ ?_))
  · show (List.range _).map _ = [] ↔ _
    rw [List.map_eq_nil_iff, List.range_eq_nil]
  · show (∃ (i : ℕ) (child : RamTiming), _ ∧ ((List.range _).map _)[i]? = some child ∧ _) ↔ _
    constructor
    · rintro ⟨i, child, hi, hchild, hcheck⟩
      rw [List.getElem?_map] at hchild
      obtain ⟨j, hj, rfl⟩ := Option.map_eq_some_iff.mp hchild
      obtain ⟨hlt, rfl⟩ := List.getElem?_eq_some_iff.mp hj
      rw [List.getElem_range] at hcheck
      exact ⟨i, by simpa using hlt, hi, hcheck⟩
    · rintro ⟨i, hlt, hi, hcheck⟩
      refine ⟨i, _, hi, ?_, hcheck⟩
      rw [List.getElem?_map, List.getElem?_range hlt]
      rfl

/-! ## Checks of a channel -/

variable {channelId : ℕ} {cmd : Command} {addr : Level → ℤ} {clk : ℤ}

theorem uses_channel (h : List Issued) :
    Node.channel.uses channelId h = (own .channel channelId h).map Issued.use := by
  refine congrArg (List.map _) ?_
  simp [own, Node.On]

theorem uses_rank (r : ℕ) (h : List Issued) :
    (Node.rank r).uses channelId h =
      (own .rank r (own .channel channelId h)).map Issued.use := by
  refine congrArg (List.map _) ?_
  rw [own, own, List.filter_filter]
  exact List.filter_congr fun e _ => by
    rw [Bool.eq_iff_iff, Bool.and_eq_true, decide_eq_true_eq, decide_eq_true_eq, decide_eq_true_eq]
    exact and_comm

theorem uses_bank (r b : ℕ) (h : List Issued) :
    (Node.bank r b).uses channelId h =
      (own .bank b (own .rank r (own .channel channelId h))).map Issued.use := by
  refine congrArg (List.map _) ?_
  rw [own, own, own, List.filter_filter, List.filter_filter]
  exact List.filter_congr fun e _ => by
    rw [Bool.eq_iff_iff, Bool.and_eq_true, Bool.and_eq_true, decide_eq_true_eq, decide_eq_true_eq,
      decide_eq_true_eq, decide_eq_true_eq]
    rw [and_comm (a := e.addrVec .bank = (b : ℤ))]
    exact and_rotate.trans and_assoc.symm

/-- A command waits for the node, after the commands of the history. -/
def WaitedAt (s : SpeedEntry) (channelId : ℕ) (h : List Issued) (cmd : Command) (clk : ℤ)
    (node : Node) : Prop :=
  Wait.Waited (waits s node.level) (node.uses channelId h) cmd clk

/-- What a channel checks of a command. -/
theorem check_recorded_iff (hpos : ∀ e ∈ h, 0 ≤ e.clk) (hclk : 0 ≤ clk) :
    check (recorded s count 3 .channel channelId h) cmd addr clk = true ↔
      WaitedAt s channelId h cmd clk .channel ∧
        (addr .rank < 0 ∨ count .rank = 0 ∨ ∃ r < count .rank, addr .rank = (r : ℤ) ∧
          WaitedAt s channelId h cmd clk (.rank r) ∧
            (addr .bank < 0 ∨ scope cmd = .rank ∨ count .bank = 0 ∨
              ∃ b < count .bank, addr .bank = (b : ℤ) ∧
                WaitedAt s channelId h cmd clk (.bank r b))) := by
  have hown : ∀ e ∈ own .channel channelId h, 0 ≤ e.clk := nonneg_own hpos
  rw [check, checkFrom_recorded_iff hpos hclk, WaitedAt, uses_channel]
  refine and_congr_right fun _ => ?_
  have hscope : ¬ Level.channel = scope cmd := RamDRAM.scope_ne_channel cmd
  simp only [hscope, false_or]
  refine or_congr_right (or_congr_right (exists_congr fun r => and_congr_right fun _ =>
    and_congr_right fun _ => ?_))
  rw [checkFrom_recorded_iff hown hclk, WaitedAt, uses_rank]
  refine and_congr_right fun _ => or_congr_right ?_
  refine or_congr eq_comm (or_congr_right (exists_congr fun b => and_congr_right fun _ =>
    and_congr_right fun _ => ?_))
  -- a bank has no children
  rw [checkFrom_recorded_iff (nonneg_own hown) hclk, WaitedAt, uses_bank]
  exact and_iff_left (Or.inr (Or.inr (Or.inl rfl)))

/-- A command that is let through has waited for all nodes in the tree that it is for. -/
theorem waitedAt_of_check (hpos : ∀ e ∈ h, 0 ≤ e.clk) (hclk : 0 ≤ clk)
    (hcheck : check (recorded s count 3 .channel channelId h) cmd addr clk = true) {node : Node}
    (htree : node.InTree count) (hon : node.On channelId addr) :
    WaitedAt s channelId h cmd clk node := by
  obtain ⟨hchannel, hrank⟩ := (check_recorded_iff hpos hclk).mp hcheck
  cases node with
  | channel => exact hchannel
  | rank r =>
    have hr : addr .rank = r := hon.2
    rcases hrank with hneg | hnone | ⟨r', -, hr', hwaited, -⟩
    · omega
    · exact absurd htree (by rw [Node.InTree, hnone]; exact Nat.not_lt_zero r)
    · obtain rfl : r = r' := Int.ofNat_inj.mp (hr.symm.trans hr')
      exact hwaited
  | bank r b =>
    obtain ⟨hr, hb⟩ : addr .rank = r ∧ addr .bank = b := hon.2
    rcases hrank with hneg | hnone | ⟨r', -, hr', -, hbank⟩
    · omega
    · exact absurd htree.1 (by rw [hnone]; exact Nat.not_lt_zero r)
    obtain rfl : r = r' := Int.ofNat_inj.mp (hr.symm.trans hr')
    rcases hbank with hneg | hscope | hnone | ⟨b', -, hb', hwaited⟩
    · omega
    · -- no bank wants a command for a rank to wait
      intro k w hw hkey
      exact absurd (hkey ▸ hscope) (scope_key_ne_rank s k w hw)
    · exact absurd htree.2 (by rw [hnone]; exact Nat.not_lt_zero b)
    · obtain rfl : b = b' := Int.ofNat_inj.mp (hb.symm.trans hb')
      exact hwaited

/-- For an address of a bank in the tree, the check asks exactly for the waits of the nodes on its
way. -/
theorem check_iff_waitedAt (hpos : ∀ e ∈ h, 0 ≤ e.clk) (hclk : 0 ≤ clk) {r b : ℕ}
    (htree : (Node.bank r b).InTree count) (hr : addr .rank = r) (hb : addr .bank = b) :
    check (recorded s count 3 .channel channelId h) cmd addr clk = true ↔
      WaitedAt s channelId h cmd clk .channel ∧ WaitedAt s channelId h cmd clk (.rank r) ∧
        WaitedAt s channelId h cmd clk (.bank r b) := by
  rw [check_recorded_iff hpos hclk, hr, hb]
  refine and_congr_right fun _ => ?_
  constructor
  · rintro (hneg | hnone | ⟨r', -, hr', hrank, hbank⟩)
    · omega
    · exact absurd htree.1 (by rw [hnone]; exact Nat.not_lt_zero r)
    obtain rfl : r = r' := Int.ofNat_inj.mp hr'
    refine ⟨hrank, ?_⟩
    rcases hbank with hneg | hscope | hnone | ⟨b', -, hb', hbank⟩
    · omega
    · intro k w hw hkey
      exact absurd (hkey ▸ hscope) (scope_key_ne_rank s k w hw)
    · exact absurd htree.2 (by rw [hnone]; exact Nat.not_lt_zero b)
    · obtain rfl : b = b' := Int.ofNat_inj.mp hb'
      exact hbank
  · rintro ⟨hrank, hbank⟩
    exact Or.inr (Or.inr ⟨r, htree.1, rfl, hrank,
      Or.inr (Or.inr (Or.inr ⟨b, htree.2, rfl, hbank⟩))⟩)

end RamTiming

namespace ChannelController

open RamTiming

variable (hbm : HBM) (channelId : ℕ)

/-! ## Runs -/

/-- What the timing of a channel has to do with the commands that it has issued. -/
structure TimedBy (c : ChannelController) (h : List Issued) : Prop where
  timing : c.timing = recorded hbm.speed hbm.count 3 .channel channelId h
  clk : 0 ≤ c.clk
  nonneg : ∀ e ∈ h, 0 ≤ e.clk

variable {hbm channelId} {c : ChannelController} {h : List Issued}

theorem TimedBy.step (hc : c.TimedBy hbm channelId h) (a : Action) :
    (step hbm channelId c a).TimedBy hbm channelId (h ++ commandsOf hbm channelId c a) := by
  rcases sameNodes_step hbm channelId c a with
    ⟨hnone, hsame⟩ | ⟨e, -, hissued, hsome, hsame⟩
  · rw [hnone, List.append_nil]
    refine ⟨hsame.timing.trans hc.timing, ?_, hc.nonneg⟩
    rw [hsame.clk]
    cases a <;> simp [Action.elapsed, hc.clk, Int.add_nonneg]
  · obtain ⟨-, -, -, -, hclk, -⟩ := issued_eq_some hissued
    have hpos : 0 ≤ e.clk := by
      rw [hclk]
      exact Int.add_nonneg hc.clk (by decide)
    rw [hsome]
    refine ⟨?_, hsame.clk.symm ▸ hpos, fun e' he' => ?_⟩
    · rw [hsame.timing, ← updateTimingFrom_recorded, ← hc.timing]
      rfl
    · rcases List.mem_append.mp he' with he' | he'
      · exact hc.nonneg e' he'
      · rwa [List.mem_singleton.mp he']

theorem timedBy_run (as : List Action) :
    ((machine hbm channelId).run as).TimedBy hbm channelId (commands hbm channelId as) := by
  have hall : ∀ a ∈ as, True := fun _ _ => trivial
  refine Machine.run_outputs_invariant ?_ ?_ as hall
  · exact ⟨newFrom_eq_recorded _ _ _ _ _, le_rfl, by simp⟩
  · exact fun c h a _ hc => hc.step a

/-- The command of a tick has waited for the nodes that it is for. -/
theorem TimedBy.waitedAt (hc : c.TimedBy hbm channelId h) {e : Issued}
    (he : c.issued hbm channelId = some e) {node : Node} (htree : node.InTree hbm.count)
    (hon : node.On channelId e.addrVec) : WaitedAt hbm.speed channelId h e.cmd e.clk node := by
  obtain ⟨-, -, -, -, hclk, -, hcheck⟩ := issued_eq_some he
  rw [hc.timing] at hcheck
  refine waitedAt_of_check hc.nonneg ?_ hcheck htree hon
  rw [hclk]
  exact Int.add_nonneg hc.clk (by decide)

/-- In every run, every command that is issued keeps all distances of the table: it is issued no
earlier than `val` clocks after the `dist`-th last command that an entry for one of its nodes is
about, and after those before it. -/
theorem commands_spaced (hbm : HBM) (channelId : ℕ) (as : List Action) :
    (commands hbm channelId as).Each fun before e => ∀ node : Node, node.InTree hbm.count →
      node.On channelId e.addrVec → WaitedAt hbm.speed channelId before e.cmd e.clk node := by
  induction as using List.reverseRecOn with
  | nil => exact List.each_nil
  | append_singleton as a ih =>
    rw [commands_concat]
    have hrun : ((machine hbm channelId).run as).TimedBy hbm channelId
      (commands hbm channelId as) := timedBy_run as
    rcases sameNodes_step hbm channelId
      ((machine hbm channelId).run as) a with ⟨hnone, -⟩ | ⟨e, -, hissued, hsome, -⟩
    · rwa [hnone, List.append_nil]
    · rw [hsome]
      exact ih.concat fun node htree hon => hrun.waitedAt hissued htree hon

/-- After every run, a command for a bank in the tree is ready if and only if it has waited for as
long as the table asks for, after all commands that have been issued to its channel, to its rank and
to its bank. -/
theorem ready_iff_waited (hbm : HBM) (channelId : ℕ) (as : List Action) (cmd : Command)
    {addr : Level → ℤ} {r b : ℕ} (htree : (Node.bank r b).InTree hbm.count) (hr : addr .rank = r)
    (hb : addr .bank = b) :
    let c := (machine hbm channelId).run as
    let h := commands hbm channelId as
    c.timing.check cmd addr c.clk = true ↔
      WaitedAt hbm.speed channelId h cmd c.clk .channel ∧
        WaitedAt hbm.speed channelId h cmd c.clk (.rank r) ∧
          WaitedAt hbm.speed channelId h cmd c.clk (.bank r b) := by
  intro c h
  have hrun : c.TimedBy hbm channelId h := timedBy_run as
  rw [hrun.timing]
  exact check_iff_waitedAt hrun.nonneg hrun.clk htree hr hb

/-- Right after a row has been opened, it may not be read yet, as its bank has to wait. -/
theorem ready_iff_waited_opened :
    let as : List Action :=
      [.enqueue { RamRequest.new 0 .read with addrVec := RamDRAM.rowOfFirstBank 5 }, .tick]
    let c := (machine oneRank 0).run as
    let h := commands oneRank 0 as
    ¬ (WaitedAt oneRank.speed 0 h .rd c.clk .channel ∧
      WaitedAt oneRank.speed 0 h .rd c.clk (.rank 0) ∧
        WaitedAt oneRank.speed 0 h .rd c.clk (.bank 0 0)) := by
  intro as c h hwaited
  have htree : (Node.bank 0 0).InTree oneRank.count := by decide
  have hready := @ready_iff_waited oneRank 0 as .rd (RamDRAM.rowOfFirstBank 5) 0 0 htree rfl rfl
  exact absurd (hready.mpr hwaited) (by decide +kernel)

end ChannelController

end StackedDram.Ramulator
