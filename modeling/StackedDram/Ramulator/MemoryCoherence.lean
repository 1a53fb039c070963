import StackedDram.Ramulator.MemoryCounters
import StackedDram.Ramulator.RefreshService
import StackedDram.Ramulator.RowTable

/-!
# Coherence of the memory

Requests for one address all go to one channel. So what a channel does about the reads and writes of
an address is right for the memory as a whole, whatever its other channels do in between
(`memory_coherent`). And as every channel is sent requests for its own banks only, no assertion of
the memory ever fails (`assertions_hold`).
-/

namespace StackedDram.Ramulator

open Finset

namespace ChannelMemory

variable {cfg : MemoryConfig} {channel : ℕ} {m : ChannelMemory}

/-! ## What happens in the memory -/

/-- What happens in a call, channel by channel. -/
def eventsOf (cfg : MemoryConfig) (m : ChannelMemory) (a : Action) : List (ℕ × RequestEvent) :=
  (List.range cfg.channels).flatMap fun channel =>
    ((ChannelController.machine cfg.hbm channel).outputsFrom
      (ChannelController.eventsOf cfg.hbm channel) (m.ctrls channel) (share cfg channel a)).map
        fun e => (channel, e)

/-- What happens in a run. -/
def events (cfg : MemoryConfig) (as : List Action) : List (ℕ × RequestEvent) :=
  (machine cfg).outputs (eventsOf cfg) as

/-- An event of the channel. -/
def ofChannel (channel : ℕ) (x : ℕ × RequestEvent) : Option RequestEvent :=
  if x.1 = channel then some x.2 else none

theorem filterMap_ofChannel (n : ℕ) (f : ℕ → List RequestEvent) :
    ((List.range n).flatMap fun i => (f i).map fun e => (i, e)).filterMap (ofChannel channel) =
      if channel < n then f channel else [] := by
  have hself (i : ℕ) : ((f i).map fun e => (i, e)).filterMap (ofChannel channel) =
      if i = channel then f i else [] := by
    by_cases hi : i = channel
    · simp [List.filterMap_map, Function.comp_def, ofChannel, hi]
    · simp [List.filterMap_map, Function.comp_def, ofChannel, hi]
  induction n with
  | zero => rfl
  | succ n ih =>
    rw [List.range_succ, List.flatMap_append, List.filterMap_append, ih, List.flatMap_singleton,
      hself]
    by_cases hn : n = channel
    · subst hn
      simp
    · have hlt : channel < n ↔ channel < n + 1 := by omega
      simp [hn, hlt]

/-- What happens in a channel is a part of what happens in the memory. -/
theorem filterMap_events (hchannel : channel < cfg.channels) (as : List Action) :
    (events cfg as).filterMap (ofChannel channel) = channelEvents cfg as channel := by
  refine (component hchannel).outputs_run (fun m a => ?_) as
  rw [eventsOf, filterMap_ofChannel, if_pos hchannel]

theorem channel_lt_of_mem {x : ℕ × RequestEvent} {as : List Action} (hx : x ∈ events cfg as) :
    x.1 < cfg.channels := by
  induction as using List.reverseRecOn with
  | nil => cases hx
  | append_singleton as a ih =>
    rw [events, Machine.outputs_concat] at hx
    rcases List.mem_append.mp hx with hx | hx
    · exact ih hx
    · obtain ⟨i, hi, hx⟩ := List.mem_flatMap.mp hx
      obtain ⟨e, -, rfl⟩ := List.mem_map.mp hx
      exact List.mem_range.mp hi

/-! ## Addresses -/

/-- What an event says about requests that have been accepted or finished. -/
def counts (e : RequestEvent) : Multiset RamRequest.Content :=
  e.accepted .write + e.finished .write

/-- The writes that a channel accepts are for its own addresses. -/
theorem route_of_mem_accepted (as : List Action) (hchannel : channel < cfg.channels) :
    ∀ content ∈ acceptedOf .write (channelEvents cfg as channel),
      cfg.route content.addr = channel := by
  induction as using List.reverseRecOn with
  | nil => exact fun content hmem => absurd hmem (Multiset.notMem_zero content)
  | append_singleton as a ih =>
    intro content hmem
    rw [channelEvents_concat hchannel, acceptedOf_append] at hmem
    rcases Multiset.mem_add.mp hmem with hmem | hmem
    · exact ih content hmem
    have hsend (req : RamRequest) (hshare : share cfg channel a = shareOfSend cfg channel req) :
        cfg.route content.addr = channel := by
      rw [hshare, shareOfSend] at hmem
      split at hmem
      · rename_i hroute
        rw [Machine.outputsFrom_singleton, ChannelController.eventsOf,
          ChannelController.enqueueEvents] at hmem
        split at hmem
        · exact absurd hmem (Multiset.notMem_zero content)
        · split at hmem <;>
          · rw [acceptedOf_singleton, RequestEvent.accepted] at hmem
            split at hmem
            · rw [Multiset.mem_singleton.mp hmem]
              exact hroute
            · exact absurd hmem (Multiset.notMem_zero content)
      · exact absurd hmem (Multiset.notMem_zero content)
    cases a with
    | readRow vault bank row col => exact hsend _ rfl
    | writeRow vault bank row col => exact hsend _ rfl
    | setBankRef vault bank hot =>
      rw [share] at hmem
      split at hmem <;> exact absurd hmem (Multiset.notMem_zero content)
    | tickOnce =>
      rw [share, Machine.outputsFrom_singleton, ChannelController.eventsOf,
        ChannelController.acceptedOf_tickEvents] at hmem
      exact absurd hmem (Multiset.notMem_zero content)

/-- So are the writes that it carries out. -/
theorem route_of_mem_counts {x : ℕ × RequestEvent} {as : List Action} (hx : x ∈ events cfg as) :
    ∀ content ∈ counts x.2, cfg.route content.addr = x.1 := by
  have hchannel := channel_lt_of_mem hx
  have hmem : x.2 ∈ channelEvents cfg as x.1 := by
    rw [← filterMap_events hchannel]
    exact List.mem_filterMap.mpr ⟨x, hx, if_pos rfl⟩
  obtain ⟨before, after, heq⟩ := List.append_of_mem hmem
  have hwrites := (conserved_channel hchannel as).writes
  intro content hcontent
  refine route_of_mem_accepted as hchannel content ?_
  rcases Multiset.mem_add.mp hcontent with haccepted | hfinished
  · rw [heq, acceptedOf_append, ← List.singleton_append, acceptedOf_append, acceptedOf_singleton]
    exact Multiset.mem_add.mpr (Or.inr (Multiset.mem_add.mpr (Or.inl haccepted)))
  · rw [hwrites, heq, finishedOf_append, ← List.singleton_append, finishedOf_append,
      finishedOf_singleton]
    refine Multiset.mem_add.mpr (Or.inr (Multiset.mem_add.mpr (Or.inr ?_)))
    exact Multiset.mem_add.mpr (Or.inl hfinished)

/-- The requests for an address are those in its channel. -/
theorem countTo_filterMap {f : RequestEvent → Multiset RamRequest.Content} {addr channel : ℕ}
    {h : List (ℕ × RequestEvent)}
    (hroute : ∀ x ∈ h, ∀ content ∈ f x.2, content.addr = addr → x.1 = channel) :
    ChannelController.countTo addr ((h.map Prod.snd).map f).sum =
      ChannelController.countTo addr ((h.filterMap (ofChannel channel)).map f).sum := by
  induction h with
  | nil => rfl
  | cons x h ih =>
    have ih := ih fun y hy => hroute y (List.mem_cons_of_mem x hy)
    rw [List.map_cons, List.map_cons, List.sum_cons, ChannelController.countTo_add, ih,
      List.filterMap_cons]
    by_cases hx : x.1 = channel
    · rw [ofChannel, if_pos hx]
      dsimp only
      rw [List.map_cons, List.sum_cons, ChannelController.countTo_add]
    · -- what happens in another channel is not about the address
      have hnone : ChannelController.countTo addr (f x.2) = 0 := by
        rw [ChannelController.countTo, Multiset.countP_eq_zero]
        exact fun content hmem haddr => hx (hroute x List.mem_cons_self content hmem haddr)
      rw [ofChannel, if_neg hx, hnone, Nat.zero_add]

/-- The writes to an address that the memory has accepted, and those that it has carried out, are
those of the channel of the address. -/
theorem countTo_events (cfg : MemoryConfig) (as : List Action) (addr : ℕ) :
    ChannelController.countTo addr (acceptedOf .write ((events cfg as).map Prod.snd)) =
        ChannelController.countTo addr
          (acceptedOf .write (channelEvents cfg as (cfg.route addr))) ∧
      ChannelController.countTo addr (finishedOf .write ((events cfg as).map Prod.snd)) =
        ChannelController.countTo addr
          (finishedOf .write (channelEvents cfg as (cfg.route addr))) := by
  rw [← filterMap_events (cfg.route_lt addr)]
  constructor
  · refine countTo_filterMap fun x hx content hmem haddr => ?_
    rw [← haddr, route_of_mem_counts hx content (Multiset.mem_add.mpr (Or.inl hmem))]
  · refine countTo_filterMap fun x hx content hmem haddr => ?_
    rw [← haddr, route_of_mem_counts hx content (Multiset.mem_add.mpr (Or.inr hmem))]

/-! ## Coherence -/

/-- The channel of a request does with it what is right for the memory. -/
theorem readCoherent_send (cfg : MemoryConfig) (as : List Action) (req : RamRequest) :
    ∀ e ∈ (((machine cfg).run as).ctrls (cfg.route req.addr)).enqueueEvents (cfg.routed req),
      ChannelController.ReadCoherent ((events cfg as).map Prod.snd) e := by
  have hlt := cfg.route_lt req.addr
  obtain ⟨haccepted, hfinished⟩ := countTo_events cfg as req.addr
  have hlocal := (conserved_channel hlt as).readCoherent (cfg.routed req)
  intro e he
  rw [ChannelController.enqueueEvents] at he hlocal
  split at he
  · cases he
  · rename_i hroom
    rw [if_neg hroom] at hlocal
    split at he
    · rename_i hforward
      rw [if_pos hforward] at hlocal
      have hcoherent := hlocal [] _ [] rfl
      dsimp only at hcoherent
      rw [List.append_nil] at hcoherent
      rw [List.mem_singleton.mp he]
      show ChannelController.countTo req.addr _ < ChannelController.countTo req.addr _
      rw [haccepted, hfinished]
      exact hcoherent
    · rename_i hforward
      rw [if_neg hforward] at hlocal
      have hcoherent := hlocal [] _ [] rfl
      dsimp only at hcoherent
      rw [List.append_nil] at hcoherent
      rw [List.mem_singleton.mp he]
      show req.type = .read →
        ChannelController.countTo req.addr _ = ChannelController.countTo req.addr _
      rw [haccepted, hfinished]
      exact hcoherent

/-- What happens when a request is sent happens in the channel of its address. -/
theorem eventsOf_send (m : ChannelMemory) {a : Action} {req : RamRequest}
    (hshare : ∀ channel, share cfg channel a = shareOfSend cfg channel req) :
    eventsOf cfg m a = ((m.ctrls (cfg.route req.addr)).enqueueEvents (cfg.routed req)).map
      fun e => (cfg.route req.addr, e) := by
  rw [eventsOf, List.flatMap_range_of_eq_nil (cfg.route_lt req.addr)]
  · rw [hshare, shareOfSend, if_pos rfl, Machine.outputsFrom_singleton,
      ChannelController.eventsOf]
  · intro channel hchannel
    rw [hshare, shareOfSend, if_neg (Ne.symm hchannel)]
    rfl

/-- Reads see the writes that have been accepted before them, in the memory as in a channel: in
every run of the memory, a read takes its data from a write that waits if some write to its address
has been accepted by the memory and not carried out, and otherwise goes to the banks after all of
these writes. -/
theorem memory_coherent (cfg : MemoryConfig) (as : List Action) :
    (events cfg as).Each fun before x =>
      ChannelController.ReadCoherent (before.map Prod.snd) x.2 := by
  induction as using List.reverseRecOn with
  | nil => exact List.each_nil
  | append_singleton as a ih =>
    rw [events, Machine.outputs_concat]
    refine ih.append ?_
    have hsend (req : RamRequest)
        (hshare : ∀ channel, share cfg channel a = shareOfSend cfg channel req) :
        (eventsOf cfg ((machine cfg).run as) a).Each fun before x =>
          ChannelController.ReadCoherent ((events cfg as ++ before).map Prod.snd) x.2 := by
      have hcoherent := readCoherent_send cfg as req
      rw [eventsOf_send _ hshare]
      rw [ChannelController.enqueueEvents] at hcoherent ⊢
      -- a request is one event, if it is accepted
      split
      · exact List.each_nil
      · rename_i hroom
        rw [if_neg hroom] at hcoherent
        have hlast (e : RequestEvent) (he : ChannelController.ReadCoherent
            ((events cfg as).map Prod.snd) e) : List.Each (fun before x =>
              ChannelController.ReadCoherent ((events cfg as ++ before).map Prod.snd) x.2)
                [(cfg.route req.addr, e)] := by
          refine List.each_nil.concat ?_
          rwa [List.append_nil]
        split
        · rename_i hforward
          rw [if_pos hforward] at hcoherent
          exact hlast _ (hcoherent _ (List.mem_singleton_self _))
        · rename_i hforward
          rw [if_neg hforward] at hcoherent
          exact hlast _ (hcoherent _ (List.mem_singleton_self _))
    cases a with
    | readRow vault bank row col => exact hsend _ fun _ => rfl
    | writeRow vault bank row col => exact hsend _ fun _ => rfl
    | setBankRef vault bank hot =>
      refine List.each_of_forall_mem fun x hx before => ?_
      obtain ⟨channel, -, hx⟩ := List.mem_flatMap.mp hx
      rw [share] at hx
      split at hx <;> cases hx
    | tickOnce =>
      refine List.each_of_forall_mem fun x hx before => ?_
      obtain ⟨channel, -, hx⟩ := List.mem_flatMap.mp hx
      obtain ⟨e, he, rfl⟩ := List.mem_map.mp hx
      rw [share, Machine.outputsFrom_singleton] at he
      exact ChannelController.readCoherent_tickEvents _ he _

/-! ## Assertions -/

/-- In every run of a memory whose channels have a light load, whatever is read, written and set, no
assertion of a channel fails: not those of the row table, not those about the requests in service of
its nodes, and not the one that a refresh is accepted. -/
theorem assertions_hold (cfg : MemoryConfig) (hlat : 1 < cfg.hbm.speed.readLatency)
    (as : List Action) {channel : ℕ} (hchannel : channel < cfg.channels)
    (hload : ChannelController.LightLoad cfg.hbm channel) :
    let m := (machine cfg).run as
    let c := m.ctrls channel
    let h := ChannelController.commands cfg.hbm channel (as.flatMap (share cfg channel))
    (∃ t, RowTable.after h = some t) ∧ (∃ s, m.serving channel = some s) ∧
      ∀ before req after, c.injected cfg.hbm channel = before ++ req :: after →
        ((before.foldl ChannelController.enqueue
          (c.beforeInjections cfg.hbm channel)).toRamController.enqueue req).2 = true := by
  intro m c h
  have hsends (b : ChannelController.Action) (hb : b ∈ as.flatMap (share cfg channel)) :
      b.Sends (InBank cfg.hbm channel) := (sends_share as b hb).1
  obtain ⟨-, t, hafter, -⟩ := ChannelController.tableTracks_run _ hsends
  obtain ⟨-, -, -, s, hs, -⟩ := ChannelController.servingCounts_run hlat
    (as.flatMap (share cfg channel)) (sends_share as)
  obtain ⟨since, slack, hrefreshing⟩ := ChannelController.refreshing_run hload _ hsends
  rw [← ctrls_run hchannel] at hrefreshing
  exact ⟨⟨t, hafter⟩, ⟨s, (servingAfter_run hchannel as).trans hs⟩,
    fun before req after => hrefreshing.accepted hload⟩

/-- The memory of two channels, whose banks are refreshed every twelve clocks. -/
def refreshedOften : MemoryConfig :=
  { twoChannels with
    hbm :=
      { twoChannels.hbm with
        speed := { SpeedEntry.hbm1Gbps with nRP := 1, nRFC := 2, nREFI := 12 } } }

/-- A row of the second channel is written, one of whose banks is hot, until both are due. -/
def writeUntilDue : List Action :=
  [.setBankRef 1 0 true, .writeRow 1 0 9 2] ++ List.replicate 11 .tickOnce

/-- The second channel, before the tick that injects the refreshes of both its banks. -/
theorem assertions_hold_writeUntilDue :
    let m := (machine refreshedOften).run writeUntilDue
    let c := m.ctrls 1
    let h := ChannelController.commands refreshedOften.hbm 1
      (writeUntilDue.flatMap (share refreshedOften 1))
    (h.length = 3 ∧ (c.injected refreshedOften.hbm 1).length = 2) ∧
      (∃ t, RowTable.after h = some t) ∧ (∃ s, m.serving 1 = some s) ∧
      ∀ before req after, c.injected refreshedOften.hbm 1 = before ++ req :: after →
        ((before.foldl ChannelController.enqueue
          (c.beforeInjections refreshedOften.hbm 1)).toRamController.enqueue req).2 = true :=
  ⟨⟨by decide +kernel, by decide +kernel⟩,
    assertions_hold refreshedOften (by decide) writeUntilDue (by decide) ⟨by decide, by decide⟩⟩

end ChannelMemory

end StackedDram.Ramulator
