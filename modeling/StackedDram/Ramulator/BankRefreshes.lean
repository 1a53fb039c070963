import StackedDram.Ramulator.RefreshService

/-!
# Refreshed banks

In a channel with a light load, the refreshes that are injected for a bank are carried out one after
the other: when one is injected, the one before it has been carried out (`BanksAttended`). So no
bank goes without a refresh for much longer than its interval (`bank_refreshed`).
-/

namespace StackedDram.Ramulator.ChannelController

variable {hbm : HBM} {channelId : ℕ} {c : ChannelController} {req : RamRequest} {h : List Issued}
  {since slack : ℤ}

/-- The bank has been refreshed since then. -/
def RefreshedSince (hbm : HBM) (channelId : ℕ) (h : List Issued) (bank : ℕ) (clk : ℤ) : Prop :=
  ∃ e ∈ h, e.cmd = .ref ∧
    e.addrVec = (Refresh.bankRequest (hbm.refreshConfig channelId) bank).addrVec ∧ clk ≤ e.clk

/-- The last refresh that has been injected for the bank, at the time `last`, has been carried out,
or it waits in the queue and the one before has been carried out. -/
def Attended (hbm : HBM) (channelId : ℕ) (h : List Issued) (q : List RamRequest) (bank : ℕ)
    (last : ℤ) : Prop :=
  last = 0 ∨ RefreshedSince hbm channelId h bank last ∨
    (∃ req ∈ q, req.arrive = last ∧
      req.addrVec = (Refresh.bankRequest (hbm.refreshConfig channelId) bank).addrVec) ∧
    (last ≤ hbm.speed.nREFI ∨ RefreshedSince hbm channelId h bank (last - hbm.speed.nREFI))

section Attended

variable {q : List RamRequest} {bank : ℕ} {last clk : ℤ}

/-- More commands and an earlier time. -/
theorem RefreshedSince.mono (hc : RefreshedSince hbm channelId h bank clk) (h' : List Issued)
    {clk' : ℤ} (hle : clk' ≤ clk) : RefreshedSince hbm channelId (h ++ h') bank clk' := by
  obtain ⟨e, he, hcmd, haddr, hclk⟩ := hc
  exact ⟨e, List.mem_append_left h' he, hcmd, haddr, hle.trans hclk⟩

/-- More commands and more requests that wait. -/
theorem Attended.mono (hc : Attended hbm channelId h q bank last) (h' : List Issued)
    (q' : List RamRequest) (hq : ∀ req ∈ q, req ∈ q') :
    Attended hbm channelId (h ++ h') q' bank last := by
  rcases hc with hnone | hdone | ⟨⟨req, hreq, harrive, haddr⟩, hbefore⟩
  · exact Or.inl hnone
  · exact Or.inr (Or.inl (hdone.mono h' le_rfl))
  · exact Or.inr (Or.inr ⟨⟨req, hq req hreq, harrive, haddr⟩,
      hbefore.imp_right fun hdone => hdone.mono h' le_rfl⟩)

/-- A refresh of the queue is carried out. -/
theorem Attended.serve (hc : Attended hbm channelId h q bank last) {i : ℕ}
    (hget : q[i]? = some req) (hlast : last ≤ clk) :
    Attended hbm channelId (h ++ [⟨.ref, req.addrVec, clk⟩]) (q.eraseIdx i) bank last := by
  rcases hc with hnone | hdone | ⟨⟨r, hr, harrive, haddr⟩, hbefore⟩
  · exact Or.inl hnone
  · exact Or.inr (Or.inl (hdone.mono _ le_rfl))
  · obtain ⟨hlt, rfl⟩ := List.getElem?_eq_some_iff.mp hget
    have hmem := (List.getElem_cons_eraseIdx_perm hlt).mem_iff.mpr hr
    -- the refresh of this bank is the one that is carried out, or it goes on waiting
    rcases List.mem_cons.mp hmem with rfl | hmem
    · right
      left
      exact ⟨_, List.mem_append_right h (List.mem_singleton_self _), rfl, haddr, hlast⟩
    · exact Or.inr (Or.inr ⟨⟨r, hmem, harrive, haddr⟩,
        hbefore.imp_right fun hdone => hdone.mono _ le_rfl⟩)

end Attended

/-- The banks of a channel are refreshed. -/
structure BanksAttended (hbm : HBM) (channelId : ℕ) (c : ChannelController) (h : List Issued) :
    Prop where
  attended : ∀ bank, Attended hbm channelId h c.otherq bank (c.refresh.bankRefreshed bank)
  elapsed : ∀ bank < (hbm.refreshConfig channelId).nBanks,
    c.clk - c.refresh.bankRefreshed bank < hbm.speed.nREFI

/-- The banks that are due when a tick begins wait in the queue from then on. -/
theorem BanksAttended.prepare (hload : LightLoad hbm channelId)
    (hc : c.Refreshing hbm channelId h since slack) (hbanks : c.BanksAttended hbm channelId h)
    (bank : ℕ) : Attended hbm channelId h (c.prepare hbm channelId).otherq bank
      ((c.tick hbm channelId).refresh.bankRefreshed bank) := by
  have hotherq := otherq_prepare ((hc.waiting_le hload).trans hload.room)
  rw [hc.time.bankRefreshed_tick]
  split
  · rename_i hdue
    obtain ⟨hlt, hdue⟩ := hdue
    have helapsed := hbanks.elapsed bank hlt
    -- the bank is due: its refresh comes into the queue
    have hnew : ∃ req ∈ (c.prepare hbm channelId).otherq, req.arrive = c.clk + 1 ∧
        req.addrVec = (Refresh.bankRequest (hbm.refreshConfig channelId) bank).addrVec := by
      refine ⟨arrived (c.clk + 1) (Refresh.bankRequest (hbm.refreshConfig channelId) bank), ?_, rfl,
        rfl⟩
      rw [hotherq, injected_eq]
      refine List.mem_append_right _ (List.mem_map_of_mem (List.mem_map_of_mem ?_))
      exact List.mem_filter.mpr ⟨List.mem_range.mpr hlt, decide_eq_true hdue⟩
    refine Or.inr (Or.inr ⟨hnew, ?_⟩)
    -- the refresh before it has been carried out, as the bank is due only then
    rcases hbanks.attended bank with
      hnone | ⟨e, he, hcmd, haddr, hclk⟩ | ⟨⟨req, hreq, harrive, -⟩, -⟩
    · left
      omega
    · right
      exact ⟨e, he, hcmd, haddr, by omega⟩
    · exact absurd hdue (hc.not_due hload hreq harrive)
  · have hsame := (hbanks.attended bank).mono [] (c.prepare hbm channelId).otherq
      fun req hreq => by
        rw [hotherq]
        exact List.mem_append_left _ hreq
    rwa [List.append_nil] at hsame

/-- A tick refreshes a bank whose refresh waits, or the refresh goes on waiting. -/
theorem BanksAttended.tick (hload : LightLoad hbm channelId)
    (hc : c.Refreshing hbm channelId h since slack) (hbanks : c.BanksAttended hbm channelId h) :
    (c.tick hbm channelId).BanksAttended hbm channelId
      (h ++ (c.issued hbm channelId).toList) := by
  have hprepare := hbanks.prepare hload hc
  have hlast : ∀ bank, (c.tick hbm channelId).refresh.bankRefreshed bank ≤ c.clk + 1 := by
    intro bank
    have hle := hc.busy.last_le_arrive (fun bank => decide (c.refresh.Due bank)) bank
    have hsame := congrFun (congrArg Backlog.last (hc.time.backlog_tick slack slack)) bank
    exact hsame.le.trans hle
  constructor
  · intro bank
    by_cases hsome : (c.prepare hbm channelId).otherq = []
    · exact (hprepare bank).mono _ _ (by rw [hsome]; simp)
    -- one of the refreshes that wait is carried out, unless none is ready
    rcases otherq_tick hc.time.opens hc.time.inOrder hsome with
      ⟨req, i, hget, hissued, htick⟩ | ⟨hissued, htick, -⟩
    · rw [htick, hissued]
      exact (hprepare bank).serve hget (hlast bank)
    · rw [htick]
      exact (hprepare bank).mono _ _ fun _ hreq => hreq
  · intro bank hbank
    have hREFI := hload.le_nREFI
    have hlater := hbanks.elapsed bank hbank
    have hinterval := (hc.time.interval bank).2
    rw [clk_tick, refresh_tick, Refresh.tickRef_eq]
    show c.clk + 1 - (if bank < (hbm.refreshConfig channelId).nBanks ∧ c.refresh.Due bank then
      c.refresh.clk + 1 else c.refresh.bankRefreshed bank) < _
    have hclk := hc.time.clk
    -- the bank has been due, or its interval is not over
    split
    · omega
    · rename_i hnot
      have hdue : ¬ c.refresh.Due bank := fun hdue => hnot ⟨hbank, hdue⟩
      rw [Refresh.Due] at hdue
      omega

/-- What an action does to the refreshes of the banks. -/
theorem BanksAttended.step (hload : LightLoad hbm channelId)
    (hc : c.Refreshing hbm channelId h since slack) (hbanks : c.BanksAttended hbm channelId h)
    {a : Action} (ha : a.Sends (InBank hbm channelId)) :
    (step hbm channelId c a).BanksAttended hbm channelId
      (h ++ commandsOf hbm channelId c a) := by
  cases a with
  | enqueue req =>
    show (c.enqueue req).BanksAttended hbm channelId (h ++ [])
    rw [List.append_nil]
    refine ⟨fun bank => ?_, fun bank hbank => ?_⟩
    · rw [otherq_enqueue ha.1]
      exact hbanks.attended bank
    · rw [(sameNodes_enqueue c req).clk]
      exact hbanks.elapsed bank hbank
  | setBankRef bank hot =>
    show BanksAttended hbm channelId _ (h ++ [])
    rw [List.append_nil]
    exact ⟨hbanks.attended, hbanks.elapsed⟩
  | tick => exact hbanks.tick hload hc

/-- In every run of a channel with a light load in which the memory sends reads and writes for banks
of the channel, no bank goes without a refresh for longer than the interval of a cool bank and the
time that it takes to refresh every bank once. -/
theorem bank_refreshed (hload : LightLoad hbm channelId) (as : List Action)
    (has : ∀ a ∈ as, a.Sends (InBank hbm channelId)) {bank : ℕ}
    (hbank : bank < (hbm.refreshConfig channelId).nBanks) :
    let c := (machine hbm channelId).run as
    let limit := hbm.speed.nREFI +
      hbm.speed.refreshWait * (hbm.refreshConfig channelId).nBanks
    limit ≤ c.clk → ∃ e ∈ commands hbm channelId as, e.cmd = .ref ∧
      e.addrVec = (Refresh.bankRequest (hbm.refreshConfig channelId) bank).addrVec ∧
        c.clk - e.clk < limit := by
  intro c limit hlate
  have hREFI := hload.le_nREFI
  have hpos := refreshWait_pos hbm.speed
  have hrun := refreshing_invariant hload
    (P := fun c h => BanksAttended hbm channelId c h)
    ⟨fun bank => Or.inl rfl, fun bank _ => by
      show (0 : ℤ) - 0 < hbm.speed.nREFI
      omega⟩
    (fun c h since slack a hc hbanks ha => hbanks.step hload hc ha) as has
  obtain ⟨⟨since, slack, hc⟩, hbanks⟩ : (∃ since slack, c.Refreshing hbm channelId
    (commands hbm channelId as) since slack) ∧
      c.BanksAttended hbm channelId (commands hbm channelId as) := hrun
  have helapsed := hbanks.elapsed bank hbank
  have hnonneg : 0 ≤ hbm.speed.refreshWait * (hbm.refreshConfig channelId).nBanks :=
    mul_nonneg hpos.le (Int.natCast_nonneg _)
  have hlimit : limit = hbm.speed.nREFI +
    hbm.speed.refreshWait * (hbm.refreshConfig channelId).nBanks := rfl
  -- the last refresh has been carried out, or it waits and the one before has been
  rcases hbanks.attended bank with
    hnone | ⟨e, he, hcmd, haddr, hclk⟩ | ⟨⟨req, hreq, harrive, -⟩, hbefore⟩
  · omega
  · exact ⟨e, he, hcmd, haddr, by omega⟩
  · have hwaits := hc.wait_lt req hreq
    rcases hbefore with hfirst | ⟨e, he, hcmd, haddr, hclk⟩
    · omega
    · exact ⟨e, he, hcmd, haddr, by omega⟩

/-- The refreshes of the second bank, while the first is hot for some time. -/
theorem bank_refreshed_hot :
    let as := firstBankHot 20
    ∃ e ∈ commands oftenRefreshed 0 as, e.cmd = .ref ∧
      e.addrVec = (Refresh.bankRequest (oftenRefreshed.refreshConfig 0) 1).addrVec ∧
        ((machine oftenRefreshed 0).run as).clk - e.clk < 16 :=
  bank_refreshed ⟨by decide, by decide⟩ _ (sends_firstBankHot _ 20) (by decide)
    (by decide +kernel)

end StackedDram.Ramulator.ChannelController
