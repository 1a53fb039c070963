import Mathlib.Data.List.MinMax
import StackedDram.Remapping.Matching

/-!
# The choice of a target

The search of `RemappingManager::runMechanism` keeps the coolest bank seen so far. If the sentinel
with which it starts is not below the threshold, its result is the first bank of minimal
temperature among the eligible ones it visits (`searchTarget_eq`).

`target_selection` describes the iteration for a hot bank that is neither combined nor disabled,
in every state that the loop can reach: the bank is redirected to the coolest of all eligible
banks, or disabled if there is none, and the other banks are left alone.
-/

namespace StackedDram.RemappingManager

variable {T : Type} [LinearOrder T] {cfg : RemapConfig T} {m m' : RemappingManager T}
  {p p' : Pairing ℕ} {b t : ℕ}

/-! ## The search -/

/-- The first of the coolest eligible banks among those that the search for `b` visits. -/
def coolest (cfg : RemapConfig T) (m : RemappingManager T) (b : ℕ) : Option ℕ :=
  ((candidates cfg b).filter fun j => m.Eligible cfg j).argmin fun j => (m.phyBanks j).temperature

/-- The scan with a running minimum and a sentinel. -/
theorem foldl_searchBank (h : m.Represents cfg p) (hmax : cfg.remapThres ≤ cfg.maxTemp) (b : ℕ)
    (l : List ℕ) :
    l.foldl (m.searchBank cfg) (b, cfg.maxTemp) =
      ((l.filter fun j => m.Eligible cfg j).argmin fun j => (m.phyBanks j).temperature).elim
        (b, cfg.maxTemp) fun t => (t, (m.phyBanks t).temperature) := by
  induction l using List.reverseRecOn with
  | nil => rfl
  | append_singleton l j ih =>
    rw [List.foldl_append, List.foldl_cons, List.foldl_nil, ih, searchBank_eq h,
      List.filter_append, List.filter_singleton]
    by_cases helig : m.Eligible cfg j
    · rw [decide_eq_true helig, cond_true, List.argmin_concat]
      cases (l.filter fun j => m.Eligible cfg j).argmin fun j => (m.phyBanks j).temperature with
      | none =>
        -- an eligible bank is below the threshold, hence below the sentinel
        exact if_pos ⟨helig, helig.2.2.trans_le hmax⟩
      | some t =>
        by_cases hlt : (m.phyBanks j).temperature < (m.phyBanks t).temperature <;>
          simp [helig, hlt]
    · simp [helig]

theorem searchTarget_eq (h : m.Represents cfg p) (hmax : cfg.remapThres ≤ cfg.maxTemp) (b : ℕ) :
    m.searchTarget cfg b = (m.coolest cfg b).getD b := by
  unfold searchTarget coolest
  rw [foldl_searchBank h hmax]
  cases ((candidates cfg b).filter fun j => m.Eligible cfg j).argmin
    fun j => (m.phyBanks j).temperature <;> rfl

/-- Bank `t` is the lowest-numbered bank of minimal temperature among all eligible banks. -/
structure Coolest (cfg : RemapConfig T) (m : RemappingManager T) (t : ℕ) : Prop where
  lt_totBanks : t < cfg.totBanks
  eligible : m.Eligible cfg t
  le : ∀ j < cfg.totBanks, m.Eligible cfg j →
    (m.phyBanks t).temperature ≤ (m.phyBanks j).temperature
  first : ∀ j < cfg.totBanks, m.Eligible cfg j →
    (m.phyBanks j).temperature = (m.phyBanks t).temperature → t ≤ j

/-- In a strictly increasing list the order of the positions is that of the elements. -/
theorem le_of_idxOf_le {l : List ℕ} (hl : l.Pairwise (· < ·)) {i j : ℕ} (hi : i ∈ l) (hj : j ∈ l)
    (hij : l.idxOf i ≤ l.idxOf j) : i ≤ j := by
  rcases hij.lt_or_eq with hlt | heq
  · have hlen := List.idxOf_lt_length_of_mem hj
    have h := List.pairwise_iff_getElem.mp hl _ _ (List.idxOf_lt_length_of_mem hi) hlen hlt
    rw [List.getElem_idxOf, List.getElem_idxOf] at h
    exact h.le
  · exact ((List.idxOf_inj hi).mp heq).le

/-- Across all vaults, the bank found is the coolest of all eligible banks. -/
theorem coolest_of_eq_some (hinter : cfg.interVault = true) (ht : m.coolest cfg b = some t) :
    m.Coolest cfg t := by
  have hcand : candidates cfg b = List.range cfg.totBanks := if_pos hinter
  rw [coolest, hcand] at ht
  have hmem : ∀ j, j ∈ (List.range cfg.totBanks).filter (fun j => m.Eligible cfg j) ↔
      j < cfg.totBanks ∧ m.Eligible cfg j := by
    simp
  have hsorted : ((List.range cfg.totBanks).filter fun j => m.Eligible cfg j).Pairwise (· < ·) :=
    List.pairwise_lt_range.filter _
  have htmem := List.argmin_mem ht
  obtain ⟨htlt, htelig⟩ := (hmem t).mp htmem
  refine ⟨htlt, htelig, fun j hj helig => ?_, fun j hj helig heq => ?_⟩
  · exact List.le_of_mem_argmin (f := fun j => (m.phyBanks j).temperature)
      ((hmem j).mpr ⟨hj, helig⟩) ht
  · have hjmem := (hmem j).mpr ⟨hj, helig⟩
    exact le_of_idxOf_le hsorted htmem hjmem (List.index_of_argmin ht hjmem heq.le)

/-- If the search finds nothing, no bank is eligible. -/
theorem not_eligible_of_eq_none (hinter : cfg.interVault = true) (ht : m.coolest cfg b = none) :
    ∀ j < cfg.totBanks, ¬ m.Eligible cfg j := by
  have hcand : candidates cfg b = List.range cfg.totBanks := if_pos hinter
  rw [coolest, hcand, List.argmin_eq_none, List.filter_eq_nil_iff] at ht
  intro j hj helig
  exact ht j (List.mem_range.mpr hj) (decide_eq_true helig)

/-! ## The iteration for a hot bank -/

/-- The first phase does nothing to a bank that is not cool. -/
theorem Recovers.of_not_cool (hr : Recovers cfg m p b m' p')
    (hhot : cfg.remapThres ≤ (m.phyBanks b).temperature) : m' = m ∧ p' = p := by
  cases hr with
  | skip => exact ⟨rfl, rfl⟩
  | separate hcool => exact absurd hcool (not_lt.mpr hhot)
  | enablePair hcool => exact absurd hcool (not_lt.mpr hhot)
  | enable hcool => exact absurd hcool (not_lt.mpr hhot)

/-- Bank `b` is the source of a pair whose target is bank `t`. -/
structure Paired (m : RemappingManager T) (b t : ℕ) : Prop where
  ne : b ≠ t
  source_logicalId : (m.bankStat b).logicalId = t
  source_remapId : (m.bankStat b).remapId = b
  source_combined : (m.bankStat b).combined = true
  target_logicalId : (m.bankStat t).logicalId = t
  target_remapId : (m.bankStat t).remapId = b
  target_combined : (m.bankStat t).combined = true

/-- Bank `b` has been switched off and its content given up; its ids are those in `m`. -/
structure GivenUp (m m' : RemappingManager T) (b : ℕ) : Prop where
  disabled : (m'.bankStat b).disabled = true
  valid : (m'.bankStat b).valid = false
  logicalId : (m'.bankStat b).logicalId = (m.bankStat b).logicalId
  physicalId : (m'.bankStat b).physicalId = (m.bankStat b).physicalId
  remapId : (m'.bankStat b).remapId = (m.bankStat b).remapId
  bankId : (m'.bankStat b).bankId = (m.bankStat b).bankId

/-- The iteration for a hot bank outside all pairs that is not disabled is its second phase. -/
theorem manages_of_hot (hn : cfg.nRemap = 1) (hle : cfg.remapThres ≤ cfg.highThres)
    (h : m.Represents cfg p) (hb : b < cfg.totBanks)
    (hhot : cfg.highThres ≤ (m.phyBanks b).temperature) :
    ∃ p', Manages cfg m p b (m.mechanismStep cfg b) p' := by
  obtain ⟨m₁, p₁, p₂, hr, hm⟩ := mechanismStep_cases (b := b) (Or.inr hn) h hb
  obtain ⟨rfl, rfl⟩ := hr.of_not_cool (hle.trans hhot)
  exact ⟨p₂, hm⟩

/-- A hot bank is never eligible. -/
theorem not_eligible_of_hot (hle : cfg.remapThres ≤ cfg.highThres)
    (hhot : cfg.highThres ≤ (m.phyBanks b).temperature) : ¬ m.Eligible cfg b :=
  fun helig => not_lt.mpr (hle.trans hhot) helig.2.2

/-- The second phase of the iteration for a hot bank that is neither combined nor disabled: it is
paired with the bank the search finds, or given up when the search finds none. -/
theorem Manages.of_candidate (hm : Manages cfg m p b m' p') (hn : cfg.nRemap = 1)
    (h : m.Represents cfg p) (h' : m'.Represents cfg p')
    (hhot : cfg.highThres ≤ (m.phyBanks b).temperature)
    (hcomb : (m.bankStat b).combined = false) (hdis : (m.bankStat b).disabled = false) :
    (∃ t, m.searchTarget cfg b = t ∧ m.Eligible cfg t ∧ m'.Paired b t ∧
        ∀ c, c ≠ b → c ≠ t → m'.bankStat c = m.bankStat c ∧ m'.phyBanks c = m.phyBanks c) ∨
      (m.searchTarget cfg b = b ∧ m.GivenUp m' b ∧
        ∀ c, c ≠ b → m'.bankStat c = m.bankStat c ∧ m'.phyBanks c = m.phyBanks c) := by
  have hfree : p.Free b := (h.combined b).mp hcomb
  -- the bank is hot and free, so it is redirected or disabled
  cases hm with
  | skip hskip =>
    rcases hskip with hcool | hdis' | hs
    · exact absurd hcool (not_lt.mpr hhot)
    · rw [hdis] at hdis'
      exact Bool.noConfusion hdis'
    · exact absurd hfree.1 hs
  | @redirect t _ _ _ hbt hb ht htarget helig htlt =>
    refine Or.inl ⟨t, htarget, helig, ?_, fun c hcb hct => ?_⟩
    · constructor
      · exact hbt
      · exact (h'.logicalId b).trans (by simp)
      · exact (h'.remapId b).trans (by simp [Function.update_of_ne hbt, hb.2])
      · simp [RemappingManager.redirect, hbt]
      · exact (h'.logicalId t).trans (by simp [Function.update_of_ne hbt.symm, ht.1])
      · exact (h'.remapId t).trans (by simp)
      · simp [RemappingManager.redirect]
    · simp [RemappingManager.redirect, hcb, hct]
  | disable _ _ _ hnone =>
    refine Or.inr ⟨hnone hn, ?_, fun c hcb => ?_⟩
    · constructor <;> simp [disableBank, BankStat.setDisabled, BankStat.setValid]
    · simp [disableBank, hcb]
  | disablePair _ _ ht => exact absurd hfree.2 ht

/-- In every state that the loop of the management step reaches, the iteration for a hot bank that
is neither combined nor disabled redirects it to the lowest-numbered of the coolest eligible banks,
and gives it up if no bank is eligible. Only the bank and its target change, and no
temperature. -/
theorem target_selection (hn : cfg.nRemap = 1) (hinter : cfg.interVault = true)
    (hle : cfg.remapThres ≤ cfg.highThres) (hmax : cfg.remapThres ≤ cfg.maxTemp)
    {m₀ : RemappingManager T} (hm₀ : (machine cfg).Reachable m₀) (hb : b < cfg.totBanks)
    (hm : m = m₀.mechanismLoop cfg b)
    (hhot : cfg.highThres ≤ (m.phyBanks (m.bankStat b).physicalId).temperature)
    (hcomb : (m.bankStat b).combined = false) (hdis : (m.bankStat b).disabled = false) :
    let m' := m.mechanismStep cfg b
    (∀ c, (m'.phyBanks c).temperature = (m.phyBanks c).temperature) ∧
      ((∃ j < cfg.totBanks, m.Eligible cfg j) →
        ∃ t, m.Coolest cfg t ∧ m'.Paired b t ∧
          ∀ c, c ≠ b → c ≠ t → m'.bankStat c = m.bankStat c ∧ m'.phyBanks c = m.phyBanks c) ∧
      ((∀ j < cfg.totBanks, ¬ m.Eligible cfg j) →
        m.GivenUp m' b ∧
          ∀ c, c ≠ b → m'.bankStat c = m.bankStat c ∧ m'.phyBanks c = m.phyBanks c) := by
  intro m'
  have hcons : m.Consistent cfg :=
    hm ▸ consistent_mechanismLoop (consistent_of_reachable hm₀) b hb.le
  have htemp := (iterationFacts_mechanismStep (b := b) (Or.inr hn) hcons hb).temperature
  obtain ⟨p, hp, -⟩ := hcons
  rw [hp.physicalId] at hhot
  obtain ⟨p', hmanages⟩ := manages_of_hot hn hle hp hb hhot
  have hp' : m'.Represents cfg p' := hmanages.represents hp hb
  have hnot := not_eligible_of_hot hle hhot
  -- the bank itself is hot, so it is not what the search has found
  have hsearch : ∀ t, m.coolest cfg b = some t → m.searchTarget cfg b = t ∧ t ≠ b := by
    intro t ht
    refine ⟨by rw [searchTarget_eq hp hmax, ht, Option.getD_some], ?_⟩
    rintro rfl
    exact hnot (coolest_of_eq_some hinter ht).eligible
  refine ⟨htemp, fun ⟨j, hj, helig⟩ => ?_, fun hnone => ?_⟩
  · obtain ⟨t, ht⟩ : ∃ t, m.coolest cfg b = some t :=
      Option.ne_none_iff_exists'.mp fun hempty => not_eligible_of_eq_none hinter hempty j hj helig
    obtain ⟨htarget, hne⟩ := hsearch t ht
    rcases hmanages.of_candidate hn hp hp' hhot hcomb hdis with
      ⟨t', htarget', -, hpaired, hframe⟩ | ⟨hself, -⟩
    · obtain rfl := htarget'.symm.trans htarget
      exact ⟨t', coolest_of_eq_some hinter ht, hpaired, hframe⟩
    · exact absurd (htarget.symm.trans hself) hne
  · rcases hmanages.of_candidate hn hp hp' hhot hcomb hdis with
      ⟨t, htarget, helig, hpaired, -⟩ | ⟨-, hgiven, hframe⟩
    · have hmem := (searchTarget_eq_or hp b).resolve_left (htarget ▸ hpaired.ne.symm)
      rw [htarget] at hmem
      exact absurd helig (hnone t (lt_totBanks_of_mem_candidates hb hmem.1))
    · exact ⟨hgiven, hframe⟩

/-- Banks 0 and 1 are hot and bank 3 is the coolest; bank 0 takes bank 3 in the first iteration,
so the second one has only bank 2 left for bank 1. -/
theorem target_selection_twoByTwo :
    let m₀ := (machine twoByTwo).run
      [.updateTemperature (0 : Fin 2) (0 : Fin 2) 90,
        .updateTemperature (0 : Fin 2) (1 : Fin 2) 95,
        .updateTemperature (1 : Fin 2) (0 : Fin 2) 60,
        .updateTemperature (1 : Fin 2) (1 : Fin 2) 50]
    let m := m₀.mechanismLoop twoByTwo 1
    let m' := m.mechanismStep twoByTwo 1
    ∃ t, m.Coolest twoByTwo t ∧ m'.Paired 1 t ∧
      ∀ c, c ≠ 1 → c ≠ t → m'.bankStat c = m.bankStat c ∧ m'.phyBanks c = m.phyBanks c := by
  intro m₀ m
  have hle : twoByTwo.remapThres ≤ twoByTwo.highThres := by decide
  have hmax : twoByTwo.remapThres ≤ twoByTwo.maxTemp := by decide
  have hb : 1 < twoByTwo.totBanks := by decide
  have hreach : (machine twoByTwo).Reachable m₀ := Machine.reachable_run _
  have hhot : twoByTwo.highThres ≤ (m.phyBanks (m.bankStat 1).physicalId).temperature := by decide
  have hcomb : (m.bankStat 1).combined = false := by decide
  have hdis : (m.bankStat 1).disabled = false := by decide
  have helig : m.Eligible twoByTwo 2 := by decide
  have hex : ∃ j < twoByTwo.totBanks, m.Eligible twoByTwo j := ⟨2, by decide, helig⟩
  -- bank 2 is eligible, so a target is found
  have hselect := target_selection (m := m) rfl rfl hle hmax hreach hb rfl hhot hcomb hdis
  exact hselect.2.1 hex

end StackedDram.RemappingManager
