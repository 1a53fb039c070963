import StackedDram.Remapping.Redirection

/-!
# What one iteration of the management step can do

The body of the loop of `RemappingManager::runMechanism` handles one bank in two phases. A cool
bank is first mapped back to itself and switched on (`Recovers`); then a hot bank is redirected to
a cool one or, failing that, disabled (`Manages`). The constructors of the two relations list
every change either phase can make, with the conditions under which it is made, and
`mechanismStep_cases` says that an iteration is one such change after another. What follows for
all iterations is derived from these relations; the code of the loop is not unfolded again.
-/

namespace StackedDram.RemappingManager

variable {T : Type} {cfg : RemapConfig T} {m m' : RemappingManager T} {p p' : Pairing ℕ} {b : ℕ}

/-- Two managers with the same tables describe the same matching. -/
theorem Represents.of_eq (h : m.Represents cfg p) (hbank : m'.bankStat = m.bankStat)
    (hphy : m'.phyBanks = m.phyBanks) : m'.Represents cfg p :=
  h.congr (fun _ => by rw [hbank]) (fun _ => by rw [hbank]) (fun _ => by rw [hbank])
    (fun _ => by rw [hbank]) (fun _ => by rw [hbank, h.disabled]) fun _ => by rw [hphy]

variable [LinearOrder T]

/-! ## The search for a target -/

/-- A bank that may become the target of a redirection. -/
def Eligible (cfg : RemapConfig T) (m : RemappingManager T) (t : ℕ) : Prop :=
  (m.bankStat t).combined = false ∧ (m.bankStat t).disabled = false ∧
    (m.phyBanks t).temperature < cfg.remapThres

instance (t : ℕ) : Decidable (m.Eligible cfg t) := by
  unfold Eligible
  infer_instance

/-- One iteration of the search, on a manager whose physical banks are the banks themselves. -/
theorem searchBank_eq (h : m.Represents cfg p) (best : ℕ × T) (j : ℕ) :
    m.searchBank cfg best j =
      if m.Eligible cfg j ∧ (m.phyBanks j).temperature < best.2 then
        (j, (m.phyBanks j).temperature)
      else best := by
  simp only [searchBank, Eligible, h.logicalBank]
  -- one case for each way to skip the bank
  by_cases hcomb : (m.bankStat j).combined = true
  · simp [hcomb]
  · by_cases hdis : (m.bankStat j).disabled = true
    · simp [hdis]
    · by_cases hcool : (m.phyBanks j).temperature < cfg.remapThres <;> simp [hcomb, hdis, hcool]

/-- The search ends with the bank it was started for or with an eligible bank it has visited. -/
theorem searchTarget_eq_or (h : m.Represents cfg p) (b : ℕ) :
    m.searchTarget cfg b = b ∨
      m.searchTarget cfg b ∈ candidates cfg b ∧ m.Eligible cfg (m.searchTarget cfg b) := by
  unfold searchTarget
  -- induction on the banks visited; the best bank so far is one of them
  refine List.foldlRecOn (motive := fun best : ℕ × T =>
    best.1 = b ∨ best.1 ∈ candidates cfg b ∧ m.Eligible cfg best.1) _ _ (Or.inl rfl) ?_
  intro best ih j hj
  rw [searchBank_eq h]
  split_ifs with helig
  · exact Or.inr ⟨hj, helig.1⟩
  · exact ih

omit [LinearOrder T] in
/-- The search only visits banks that exist. In one vault this holds although the window starts
at the number of the vault, not at the vault's first bank. -/
theorem lt_totBanks_of_mem_candidates {j : ℕ} (hb : b < cfg.totBanks)
    (hj : j ∈ candidates cfg b) : j < cfg.totBanks := by
  unfold candidates at hj
  split_ifs at hj
  · exact List.mem_range.mp hj
  · rw [List.mem_range'_1] at hj
    have hv : b / cfg.nBanks < cfg.nVaults := Nat.div_lt_of_lt_mul (by
      rwa [Nat.mul_comm])
    -- the last index of the window is at most `(nVaults - 1) + (nBanks - 1)`
    have hprod : cfg.nVaults + cfg.nBanks - 1 ≤ cfg.totBanks :=
      Nat.add_sub_one_le_mul (Nat.ne_zero_of_lt hv) (by omega)
    omega

/-! ## The two phases -/

/-- What the first phase can make of the manager `m` that describes `p`. -/
inductive Recovers (cfg : RemapConfig T) (m : RemappingManager T) (p : Pairing ℕ) (b : ℕ) :
    RemappingManager T → Pairing ℕ → Prop
  /-- The bank is not cool, or is in normal operation. -/
  | skip
      (hskip : (m.phyBanks b).temperature < cfg.remapThres →
        p.target b = b ∧ (m.bankStat b).disabled = false) :
      Recovers cfg m p b m p
  /-- A cool bank that is redirected is mapped back to itself. -/
  | separate (hcool : (m.phyBanks b).temperature < cfg.remapThres) (hb : p.IsSource b) :
      Recovers cfg m p b
        (({ m with recoveryTimes := m.recoveryTimes + 1 }.revalidate b).separate b (p.target b))
        (p.unlink b hb)
  /-- A cool target is switched on together with its source. -/
  | enablePair (hcool : (m.phyBanks b).temperature < cfg.remapThres) (hb : p.IsTarget b)
      (hdis : (m.bankStat b).disabled = true) :
      Recovers cfg m p b
        (({ m with recoveryTimes := m.recoveryTimes + 1 }.revalidate b).setPairDisabled b
          (p.source b) false) p
  /-- A cool bank outside all pairs is switched on. -/
  | enable (hcool : (m.phyBanks b).temperature < cfg.remapThres) (hb : p.Free b)
      (hdis : (m.bankStat b).disabled = true) :
      Recovers cfg m p b
        (({ m with recoveryTimes := m.recoveryTimes + 1 }.revalidate b).updBank b
          (.setDisabled false)) p

/-- What the second phase can make of the manager `m` that describes `p`. -/
inductive Manages (cfg : RemapConfig T) (m : RemappingManager T) (p : Pairing ℕ) (b : ℕ) :
    RemappingManager T → Pairing ℕ → Prop
  /-- The bank is not hot, or its requests do not reach it. -/
  | skip
      (hskip : (m.phyBanks b).temperature < cfg.highThres ∨ (m.bankStat b).disabled = true ∨
        p.IsSource b) :
      Manages cfg m p b m p
  /-- A hot bank is redirected to the eligible bank found. -/
  | redirect {t : ℕ} (hn : cfg.nRemap = 1) (hhot : cfg.highThres ≤ (m.phyBanks b).temperature)
      (hdis : (m.bankStat b).disabled = false) (hbt : b ≠ t) (hb : p.Free b) (ht : p.Free t)
      (htarget : m.searchTarget cfg b = t) (helig : m.Eligible cfg t) (htlt : t < cfg.totBanks) :
      Manages cfg m p b
        (({ m with remapTimes := m.remapTimes + 1 }.redirect b t).updPhy t
          fun q => { q with valid := false })
        (p.link b t hbt hb ht)
  /-- A hot bank outside all pairs is disabled. -/
  | disable (hhot : cfg.highThres ≤ (m.phyBanks b).temperature)
      (hdis : (m.bankStat b).disabled = false) (hb : p.Free b)
      (hnone : cfg.nRemap = 1 → m.searchTarget cfg b = b) :
      Manages cfg m p b ({ m with disableTimes := m.disableTimes + 1 }.disableBank b b) p
  /-- A hot target is disabled together with its source. -/
  | disablePair (hhot : cfg.highThres ≤ (m.phyBanks b).temperature)
      (hdis : (m.bankStat b).disabled = false) (hb : p.IsTarget b) :
      Manages cfg m p b
        (({ m with doubleDisableTimes := m.doubleDisableTimes + 1 }.updBank (p.source b)
          (.setDisabled true)).disableBank b b) p

omit [LinearOrder T] in
/-- A source, a target or a free bank. -/
theorem isSource_or_isTarget_or_free (p : Pairing ℕ) (b : ℕ) :
    p.IsSource b ∨ p.IsTarget b ∨ p.Free b := by
  by_cases hs : p.IsSource b
  · exact Or.inl hs
  · by_cases ht : p.IsTarget b
    · exact Or.inr (Or.inl ht)
    · exact Or.inr (Or.inr (Pairing.free_of_not hs ht))

/-- The first phase for redirecting managers. -/
theorem recovers_recoverBank (hn : cfg.nRemap = 1) (h : m.Represents cfg p) (b : ℕ) :
    ∃ p', Recovers cfg m p b (m.recoverBank cfg b) p' := by
  have hr : ({ m with recoveryTimes := m.recoveryTimes + 1 } : RemappingManager T).Represents
      cfg p := h.of_eq rfl rfl
  unfold recoverBank
  simp only [h.physicalId, h.logicalId]
  split_ifs with hcond
  · -- `resetBank` takes a branch of its own for a source, a target and a free bank
    obtain ⟨hcool, hwhy⟩ := hcond
    rcases isSource_or_isTarget_or_free p b with hb | hb | hb
    · rw [resetBank_of_isSource hn hr hb rfl]
      exact ⟨_, .separate hcool hb⟩
    · have hdis : (m.bankStat b).disabled = true :=
        hwhy.resolve_left (not_not.mpr hb.target_eq)
      rw [resetBank_of_isTarget hn hr hb]
      exact ⟨_, .enablePair hcool hb hdis⟩
    · have hdis : (m.bankStat b).disabled = true := hwhy.resolve_left (not_not.mpr hb.1)
      rw [resetBank_of_free hn hr hb]
      exact ⟨_, .enable hcool hb hdis⟩
  · refine ⟨_, .skip fun hcool => ?_⟩
    have hwhy : ¬ (p.target b ≠ b ∨ (m.bankStat b).disabled = true) := fun h => hcond ⟨hcool, h⟩
    rwa [not_or, not_not, Bool.not_eq_true] at hwhy

/-- The second and the third part of the body together, for redirecting managers. `logicalBank`
may have been read before the first phase: it only has to be right while the bank is combined. -/
theorem manages_remapBank (hn : cfg.nRemap = 1) (h : m.Represents cfg p) (hb : b < cfg.totBanks)
    {logicalBank : ℕ} (hlog : ¬ p.Free b → logicalBank = p.target b) :
    ∃ p', Manages cfg m p b
      (let r := m.remapBank cfg b (m.phyBanks b).temperature
       r.1.disableRemapBank cfg b logicalBank b (m.phyBanks b).temperature r.2) p' := by
  -- a bank that is not hot, or already disabled, passes both parts unchanged
  by_cases hhot : cfg.highThres ≤ (m.phyBanks b).temperature
  swap
  · exact ⟨p, by simpa [remapBank, disableRemapBank, hhot] using .skip (Or.inl (not_le.mp hhot))⟩
  by_cases hdis : (m.bankStat b).disabled = true
  · exact ⟨p, by simpa [remapBank, disableRemapBank, hdis] using .skip (Or.inr (Or.inl hdis))⟩
  rw [Bool.not_eq_true] at hdis
  rcases isSource_or_isTarget_or_free p b with hs | ht | hf
  · -- a source is combined, and its logical bank is not its physical one
    have hnf : ¬ p.Free b := fun hf => hs hf.1
    have hcomb : (m.bankStat b).combined = true := by
      rwa [← Bool.not_eq_false, h.combined]
    refine ⟨p, ?_⟩
    simpa [remapBank, disableRemapBank, hhot, hdis, hcomb, hlog hnf, show p.target b ≠ b from hs]
      using .skip (Or.inr (Or.inr hs))
  · -- a target is combined, and its logical bank is its physical one
    have hnf : ¬ p.Free b := fun hf => ht hf.2
    have hcomb : (m.bankStat b).combined = true := by
      rwa [← Bool.not_eq_false, h.combined]
    refine ⟨p, ?_⟩
    simpa [remapBank, disableRemapBank, hhot, hdis, hcomb, hlog hnf, ht.target_eq, h.remapId]
      using .disablePair hhot hdis ht
  · -- a free bank looks for a target, and is disabled when it finds none
    have hcomb : (m.bankStat b).combined = false := (h.combined b).mpr hf
    by_cases htb : m.searchTarget cfg b = b
    · refine ⟨p, ?_⟩
      simpa [remapBank, disableRemapBank, hhot, hdis, hcomb, htb]
        using .disable hhot hdis hf fun _ => htb
    · obtain ⟨hmem, helig⟩ := (searchTarget_eq_or h b).resolve_left htb
      have hft := (h.combined _).mp helig.1
      have hr : ({ m with remapTimes := m.remapTimes + 1#32 } : RemappingManager T).Represents
        cfg p := h.of_eq rfl rfl
      refine ⟨p.link b _ (Ne.symm htb) hf hft, ?_⟩
      simpa [remapBank, disableRemapBank, hhot, hdis, hcomb, htb,
        combineWith_eq hr (Ne.symm htb) hft]
        using .redirect hn hhot hdis (Ne.symm htb) hf hft rfl helig
          (lt_totBanks_of_mem_candidates hb hmem)

/-- After the first phase the ids of bank `b` are those read before it, or the bank is free. -/
theorem Recovers.target_eq (hr : Recovers cfg m p b m' p') (hnf : ¬ p'.Free b) :
    p'.target b = p.target b := by
  cases hr with
  | separate hcool hb =>
    -- a bank that has been separated from its target is free
    refine absurd ⟨by simp, ?_⟩ hnf
    simp [Function.update_of_ne (Ne.symm (show p.target b ≠ b from hb)), hb.source_eq]
  | skip | enablePair | enable => rfl

/-- The first phase leaves all temperatures alone. -/
theorem Recovers.temperature_eq (hr : Recovers cfg m p b m' p') (c : ℕ) :
    (m'.phyBanks c).temperature = (m.phyBanks c).temperature := by
  cases hr with
  | skip => rfl
  | separate | enablePair | enable =>
    simp only [revalidate, RemappingManager.separate, setPairDisabled, updBank_phyBanks,
      updPhy_phyBanks]
    split_ifs with hc
    · rw [hc]
    · rfl

omit [LinearOrder T] in
/-- Disabling a bank clears its flags one after the other. -/
theorem disableBank_eq (m : RemappingManager T) (b c : ℕ) :
    m.disableBank b c = ((m.updBank b (.setDisabled true)).updBank b (.setValid false)).updPhy c
      fun q => { q with valid := false } := by
  rw [updBank_updBank, disableBank]

/-- The second phase leaves all temperatures alone. -/
theorem Manages.temperature_eq (hm : Manages cfg m p b m' p') (c : ℕ) :
    (m'.phyBanks c).temperature = (m.phyBanks c).temperature := by
  cases hm with
  | skip => rfl
  | redirect | disable | disablePair =>
    simp only [RemappingManager.redirect, disableBank, updBank_phyBanks, updPhy_phyBanks]
    split_ifs with hc
    · rw [hc]
    · rfl

/-- The matching after the first phase is the one the manager then describes. -/
theorem Recovers.represents (hr : Recovers cfg m p b m' p') (h : m.Represents cfg p)
    (hb : b < cfg.totBanks) : m'.Represents cfg p' := by
  have hcount : ({ m with recoveryTimes := m.recoveryTimes + 1 } : RemappingManager T).Represents
    cfg p := h.of_eq rfl rfl
  cases hr with
  | skip => exact h
  | separate hcool hs => exact (hcount.revalidate b).separate hs rfl hb
  | enablePair hcool ht hdis =>
    exact (hcount.revalidate b).setPairDisabled ht.isSource (p.target_source b ht) false
  | enable hcool hf hdis => exact (hcount.revalidate b).setDisabled hf false

/-- The matching after the second phase is the one the manager then describes. -/
theorem Manages.represents (hm : Manages cfg m p b m' p') (h : m.Represents cfg p)
    (hb : b < cfg.totBanks) : m'.Represents cfg p' := by
  cases hm with
  | skip => exact h
  | redirect hn hhot hdis hbt hf hft htarget helig htlt =>
    have hcount : ({ m with remapTimes := m.remapTimes + 1 } : RemappingManager T).Represents
      cfg p := h.of_eq rfl rfl
    refine Represents.updPhy ?_ _ fun _ => rfl
    exact hcount.redirect hbt hf hft hb htlt helig.2.1
  | disable hhot hdis hf hnone =>
    have hcount : ({ m with disableTimes := m.disableTimes + 1 } : RemappingManager T).Represents
      cfg p := h.of_eq rfl rfl
    rw [disableBank_eq]
    refine Represents.updPhy ?_ _ fun _ => rfl
    exact (hcount.setDisabled hf true).setValid b false
  | disablePair hhot hdis ht =>
    have hs : p.source b ≠ b := ht
    have hcount : ({ m with doubleDisableTimes := m.doubleDisableTimes + 1 } :
      RemappingManager T).Represents cfg p := h.of_eq rfl rfl
    -- the flags of the pair are written around the valid flag of `b`
    rw [disableBank_eq, updBank_comm _ hs]
    refine Represents.updPhy ?_ _ fun _ => rfl
    exact (hcount.setPairDisabled ht.isSource (p.target_source b ht) true).setValid b false

/-- The body for managers that only disable: nothing is redirected, so the phases are those of
the empty matching. -/
theorem manages_disableHotBank (hn : cfg.nRemap = 0) (h : m.Represents cfg (Pairing.empty ℕ)) :
    ∃ m₁, Recovers cfg m (Pairing.empty ℕ) b m₁ (Pairing.empty ℕ) ∧
      Manages cfg m₁ (Pairing.empty ℕ) b (m.disableHotBank cfg b) (Pairing.empty ℕ) := by
  have hf : (Pairing.empty ℕ).Free b := ⟨rfl, rfl⟩
  have hcount : ({ m with recoveryTimes := m.recoveryTimes + 1 } : RemappingManager T).Represents
    cfg (Pairing.empty ℕ) := h.of_eq rfl rfl
  -- the second phase acts on whatever the first one leaves
  have hmanage : ∀ m₁ : RemappingManager T,
      (m₁.phyBanks b).temperature = (m.phyBanks b).temperature →
      Manages cfg m₁ (Pairing.empty ℕ) b
        (if cfg.highThres ≤ (m.phyBanks b).temperature ∧ (m₁.bankStat b).disabled = false then
          { m₁ with disableTimes := m₁.disableTimes + 1 }.disableBank b b
        else m₁) (Pairing.empty ℕ) := by
    intro m₁ htemp
    split_ifs with hcond
    · exact .disable (htemp ▸ hcond.1) hcond.2 hf fun h1 => absurd (hn.symm.trans h1) (by decide)
    · rw [not_and_or, not_le, Bool.not_eq_false, ← htemp] at hcond
      exact .skip (hcond.imp_right Or.inl)
  unfold disableHotBank
  simp only [h.physicalId, resetBank_of_disable hn hcount]
  by_cases hcool : (m.phyBanks b).temperature < cfg.remapThres ∧ (m.bankStat b).disabled = true
  · rw [if_pos hcool]
    have hr : Recovers cfg m (Pairing.empty ℕ) b _ _ := .enable hcool.1 hf hcool.2
    exact ⟨_, hr, hmanage _ (hr.temperature_eq b)⟩
  · rw [if_neg hcool]
    refine ⟨m, .skip fun hc => ⟨rfl, ?_⟩, hmanage m rfl⟩
    simpa using fun hdis => hcool ⟨hc, hdis⟩

/-- An iteration of a redirecting manager is its first phase, which `recoverBank` is, followed by a
change of the second. -/
theorem mechanismStep_recoverBank (hn : cfg.nRemap = 1) (h : m.Represents cfg p)
    (hb : b < cfg.totBanks) :
    ∃ p₁ p₂, Recovers cfg m p b (m.recoverBank cfg b) p₁ ∧
      Manages cfg (m.recoverBank cfg b) p₁ b (m.mechanismStep cfg b) p₂ := by
  obtain ⟨p₁, hr⟩ := recovers_recoverBank hn h b
  have htemp : ((m.recoverBank cfg b).phyBanks b).temperature = (m.phyBanks b).temperature :=
    hr.temperature_eq b
  -- `logical_bank` was read before the first phase
  obtain ⟨p₂, hm⟩ := manages_remapBank hn (hr.represents h hb) hb
    fun hnf => (hr.target_eq hnf).symm
  refine ⟨p₁, p₂, hr, ?_⟩
  unfold mechanismStep
  simpa [hn, combineHotBank, h.physicalId, h.logicalId, htemp] using hm

/-- An iteration is a change of the first phase followed by a change of the second. -/
theorem mechanismStep_cases (hn : cfg.nRemap = 0 ∧ p = Pairing.empty ℕ ∨ cfg.nRemap = 1)
    (h : m.Represents cfg p) (hb : b < cfg.totBanks) :
    ∃ m₁ p₁ p₂, Recovers cfg m p b m₁ p₁ ∧
      Manages cfg m₁ p₁ b (m.mechanismStep cfg b) p₂ := by
  rcases hn with ⟨hn, rfl⟩ | hn
  · obtain ⟨m₁, hr, hm⟩ := manages_disableHotBank (b := b) hn h
    exact ⟨m₁, _, _, hr, by simpa [mechanismStep, hn] using hm⟩
  · obtain ⟨p₁, p₂, hr, hm⟩ := mechanismStep_recoverBank hn h hb
    exact ⟨_, p₁, p₂, hr, hm⟩

end StackedDram.RemappingManager
