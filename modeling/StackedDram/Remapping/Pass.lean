import StackedDram.Library.Machine
import StackedDram.Remapping.Mechanism

/-!
# What a pass of the management step preserves

`IterationFacts` collects what one iteration of the loop of `RemappingManager::runMechanism` does
to the flags and ids of the banks, derived from its two phases (`iterationFacts`), and
`PassFacts` what the whole loop does (`passFacts_runMechanism`), by induction on the iterations.

A bank is *parked* when its requests do not reach its own cache sets, because it is disabled or
redirected. A pass never marks a bank valid, and it marks invalid every bank that it parks.
-/

namespace StackedDram.RemappingManager

variable {T : Type} {cfg : RemapConfig T} {m m' : RemappingManager T} {p p' : Pairing ℕ} {b c : ℕ}

/-- The requests for bank `b` do not reach the sets of bank `b`. -/
def Parked (m : RemappingManager T) (b : ℕ) : Prop :=
  (m.bankStat b).disabled = true ∨ (m.bankStat b).logicalId ≠ b

variable [LinearOrder T]

/-! ## The first phase -/

theorem Recovers.target_of_ne (hr : Recovers cfg m p b m' p') (hc : c ≠ b) :
    p'.target c = p.target c := by
  cases hr with
  | separate hcool hb => simp [Function.update_of_ne hc]
  | skip | enablePair | enable => rfl

/-- The first phase makes no bank invalid and no bank valid. -/
theorem Recovers.valid_eq (hr : Recovers cfg m p b m' p') (c : ℕ) :
    (m'.bankStat c).valid = (m.bankStat c).valid := by
  cases hr with
  | skip => rfl
  | separate | enablePair | enable =>
    simp only [revalidate, RemappingManager.separate, setPairDisabled, BankStat.setDisabled,
      updBank_bankStat, updPhy_bankStat]
    split_ifs <;> simp_all

/-- The first phase disables no bank. -/
theorem Recovers.disabled_of (hr : Recovers cfg m p b m' p')
    (hc : (m'.bankStat c).disabled = true) : (m.bankStat c).disabled = true := by
  revert hc
  cases hr with
  | skip => exact id
  | separate | enablePair | enable =>
    simp only [revalidate, RemappingManager.separate, setPairDisabled, BankStat.setDisabled,
      updBank_bankStat, updPhy_bankStat]
    split_ifs <;> simp_all

/-- The first phase leaves the other banks that are not redirected as they are. -/
theorem Recovers.disabled_eq (hr : Recovers cfg m p b m' p') (hcb : c ≠ b)
    (hc : p.target c = c) : (m'.bankStat c).disabled = (m.bankStat c).disabled := by
  cases hr with
  | skip => rfl
  | separate hcool hb =>
    simp only [revalidate, RemappingManager.separate, updBank_bankStat, updPhy_bankStat, hcb]
    split_ifs <;> simp_all
  | enablePair hcool hb hdis =>
    -- the source of `b` is switched on as well, but it is redirected
    have hcs : c ≠ p.source b := fun he => hb.isSource (he ▸ hc)
    simp [revalidate, setPairDisabled, hcb, hcs]
  | enable => simp [revalidate, hcb]

/-- After the first phase a cool bank is in normal operation. -/
theorem Recovers.of_cool (hr : Recovers cfg m p b m' p')
    (hcool : (m.phyBanks b).temperature < cfg.remapThres) :
    p'.target b = b ∧ (m'.bankStat b).disabled = false := by
  cases hr with
  | skip hskip => exact hskip hcool
  | separate hcool hb =>
    have hbt : b ≠ p.target b := fun he => hb he.symm
    simp [revalidate, RemappingManager.separate, hbt]
  | enablePair hcool hb hdis =>
    have hbs : b ≠ p.source b := fun he => hb he.symm
    simp [revalidate, setPairDisabled, hb.target_eq, hbs, BankStat.setDisabled]
  | enable hcool hb hdis => simp [hb.1, BankStat.setDisabled]

/-- The first phase changes the target of a bank only by mapping a cool source back to itself. -/
theorem Recovers.of_target_ne (hr : Recovers cfg m p b m' p') (hne : p'.target b ≠ p.target b) :
    (m.phyBanks b).temperature < cfg.remapThres ∧ p.IsSource b := by
  cases hr with
  | separate hcool hb => exact ⟨hcool, hb⟩
  | skip | enablePair | enable => exact absurd rfl hne

/-- The first phase parks no bank. -/
theorem Recovers.parked_of (hr : Recovers cfg m p b m' p') (h : m.Represents cfg p)
    (h' : m'.Represents cfg p') (hc : m'.Parked c) : m.Parked c := by
  rw [Parked, h'.logicalId] at hc
  rw [Parked, h.logicalId]
  refine hc.imp hr.disabled_of fun hlog hself => ?_
  -- a bank of which the target changes was redirected before
  have heq : p'.target c ≠ p.target c := fun heq => hlog (heq.trans hself)
  obtain rfl : c = b := by_contra fun hcb => heq (hr.target_of_ne hcb)
  exact (hr.of_target_ne heq).2 hself

/-! ## The second phase -/

theorem Manages.target_of_ne (hm : Manages cfg m p b m' p') (hc : c ≠ b) :
    p'.target c = p.target c := by
  cases hm with
  | redirect => simp [Function.update_of_ne hc]
  | skip | disable | disablePair => rfl

/-- The second phase makes no bank valid. -/
theorem Manages.valid_of (hm : Manages cfg m p b m' p') (hc : (m'.bankStat c).valid = true) :
    (m.bankStat c).valid = true := by
  revert hc
  cases hm with
  | skip => exact id
  | redirect | disable | disablePair =>
    simp only [RemappingManager.redirect, disableBank, BankStat.setDisabled, BankStat.setValid,
      updBank_bankStat, updPhy_bankStat]
    split_ifs <;> simp_all

/-- The second phase marks no other bank invalid. -/
theorem Manages.valid_of_ne (hm : Manages cfg m p b m' p') (hc : c ≠ b) :
    (m'.bankStat c).valid = (m.bankStat c).valid := by
  cases hm with
  | skip => rfl
  | @redirect t =>
    -- the target of a redirection keeps its valid flag
    by_cases hct : c = t
    · subst hct
      simp [RemappingManager.redirect, hc]
    · simp [RemappingManager.redirect, hc, hct]
  | disable => simp [disableBank, hc]
  | disablePair =>
    simp only [disableBank, updBank_bankStat, updPhy_bankStat, if_neg hc]
    split_ifs with hcs <;> simp [BankStat.setDisabled, hcs]

/-- The second phase leaves the other banks that are not redirected as they are. -/
theorem Manages.disabled_eq (hm : Manages cfg m p b m' p') (hcb : c ≠ b)
    (hc : p.target c = c) : (m'.bankStat c).disabled = (m.bankStat c).disabled := by
  cases hm with
  | skip => rfl
  | redirect =>
    simp only [RemappingManager.redirect, updBank_bankStat, updPhy_bankStat, hcb]
    split_ifs <;> simp_all
  | disable => simp [disableBank, hcb]
  | disablePair hhot hdis hb =>
    have hcs : c ≠ p.source b := fun he => hb.isSource (he ▸ hc)
    simp [disableBank, hcb, hcs]

/-- The second phase marks invalid every bank that it parks; the source of a pair that it
disables was parked before. -/
theorem Manages.parked (hm : Manages cfg m p b m' p') (h : m.Represents cfg p)
    (h' : m'.Represents cfg p') (hc : m'.Parked c) :
    m.Parked c ∨ (m'.bankStat c).valid = false := by
  unfold Parked at *
  rw [h.logicalId]
  rw [h'.logicalId] at hc
  by_cases hcb : c = b
  · subst hcb
    cases hm with
    | skip => exact Or.inl hc
    | redirect hn hhot hdis hbt =>
      exact Or.inr (by simp [RemappingManager.redirect, hbt])
    | disable | disablePair => exact Or.inr (by simp [disableBank, BankStat.setValid])
  · -- another bank that is not redirected keeps its flags; a redirected one was parked before
    left
    by_cases htc : p.target c = c
    · rwa [hm.disabled_eq hcb htc, hm.target_of_ne hcb] at hc
    · exact Or.inr htc

/-- After the second phase a hot bank is redirected or disabled. -/
theorem Manages.of_hot (hm : Manages cfg m p b m' p')
    (hhot : cfg.highThres ≤ (m.phyBanks b).temperature) (ht : p'.target b = b) :
    (m'.bankStat b).disabled = true := by
  cases hm with
  | skip hskip =>
    rcases hskip with hcool | hdis | hs
    · exact absurd hcool (not_lt.mpr hhot)
    · exact hdis
    · exact absurd ht hs
  | redirect hn hhot hdis hbt => exact absurd ht (by simpa using hbt.symm)
  | disable | disablePair => simp [disableBank, BankStat.setDisabled, BankStat.setValid]

/-- The second phase does nothing to a bank that is not hot. -/
theorem Manages.of_not_hot (hm : Manages cfg m p b m' p')
    (hcool : (m.phyBanks b).temperature < cfg.highThres) : m' = m ∧ p' = p := by
  cases hm with
  | skip => exact ⟨rfl, rfl⟩
  | redirect hn hhot => exact absurd hcool (not_lt.mpr hhot)
  | disable hhot => exact absurd hcool (not_lt.mpr hhot)
  | disablePair hhot => exact absurd hcool (not_lt.mpr hhot)

/-- The second phase changes the target of a bank only by redirecting it, which makes it
invalid. -/
theorem Manages.of_target_ne (hm : Manages cfg m p b m' p') (hne : p'.target b ≠ p.target b) :
    p.target b = b ∧ (m'.bankStat b).valid = false := by
  cases hm with
  | redirect hn hhot hdis hbt hb => exact ⟨hb.1, by simp [RemappingManager.redirect, hbt]⟩
  | skip | disable | disablePair => exact absurd rfl hne

/-- A hot bank that is in normal operation becomes invalid. -/
theorem Manages.invalid_of_hot (hm : Manages cfg m p b m' p')
    (hhot : cfg.highThres ≤ (m.phyBanks b).temperature) (ht : p.target b = b)
    (hdis : (m.bankStat b).disabled = false) : (m'.bankStat b).valid = false := by
  cases hm with
  | skip hskip =>
    rcases hskip with hcool | hdis' | hs
    · exact absurd hcool (not_lt.mpr hhot)
    · simp [hdis'] at hdis
    · exact absurd ht hs
  | redirect hn hhot hdis hbt => simp [RemappingManager.redirect, hbt]
  | disable | disablePair => simp [disableBank, BankStat.setValid]

/-! ## One iteration -/

theorem Recovers.printed_eq (hr : Recovers cfg m p b m' p') : m'.printed = m.printed := by
  cases hr <;> rfl

theorem Manages.printed_eq (hm : Manages cfg m p b m' p') : m'.printed = m.printed := by
  cases hm <;> rfl

/-- What the iteration for bank `b` does to the flags and ids of the banks. -/
structure IterationFacts (cfg : RemapConfig T) (b : ℕ) (m m' : RemappingManager T) : Prop where
  temperature : ∀ c, (m'.phyBanks c).temperature = (m.phyBanks c).temperature
  printed : m'.printed = m.printed
  /-- A bank is redirected or mapped back only in its own iteration. -/
  logicalId_of_ne : ∀ c ≠ b, (m'.bankStat c).logicalId = (m.bankStat c).logicalId
  /-- A bank that is not redirected is switched on or off only in its own iteration. -/
  disabled_of_ne : ∀ c ≠ b, (m.bankStat c).logicalId = c →
    (m'.bankStat c).disabled = (m.bankStat c).disabled
  valid : ∀ c, (m'.bankStat c).valid = true → (m.bankStat c).valid = true
  /-- Only a hot bank is marked invalid. -/
  stays_valid : ∀ c, (m.phyBanks c).temperature < cfg.highThres →
    (m'.bankStat c).valid = (m.bankStat c).valid
  parked : ∀ c, m'.Parked c → m.Parked c ∨ (m'.bankStat c).valid = false
  cool : (m.phyBanks b).temperature < cfg.remapThres →
    (m.phyBanks b).temperature < cfg.highThres → ¬ m'.Parked b
  hot : cfg.highThres ≤ (m.phyBanks b).temperature → m'.Parked b
  /-- A bank leaves its own sets only invalid; it comes back to them only when it is cool. -/
  moved : (m'.bankStat b).logicalId ≠ (m.bankStat b).logicalId →
    ((m.bankStat b).logicalId ≠ b ∧ (m.phyBanks b).temperature < cfg.remapThres) ∨
      ((m.bankStat b).logicalId = b ∧ (m'.bankStat b).valid = false)
  invalidated : cfg.highThres ≤ (m.phyBanks b).temperature → ¬ m.Parked b →
    (m'.bankStat b).valid = false

/-- The facts about an iteration follow from those about its two phases. -/
theorem iterationFacts {m₁ : RemappingManager T} {p₁ p₂ : Pairing ℕ} (h : m.Represents cfg p)
    (hb : b < cfg.totBanks) (hr : Recovers cfg m p b m₁ p₁) (hm : Manages cfg m₁ p₁ b m' p₂) :
    IterationFacts cfg b m m' := by
  have h₁ := hr.represents h hb
  have h₂ := hm.represents h₁ hb
  have htemp := hr.temperature_eq b
  refine
    { temperature := fun c => (hm.temperature_eq c).trans (hr.temperature_eq c)
      printed := hm.printed_eq.trans hr.printed_eq
      logicalId_of_ne := fun c hc => ?_
      disabled_of_ne := fun c hc hlog => ?_
      valid := fun c hvalid => hr.valid_eq c ▸ hm.valid_of hvalid
      stays_valid := fun c hcool => ?_
      parked := fun c hpark => (hm.parked h₁ h₂ hpark).imp_left (hr.parked_of h h₁)
      cool := fun hcool hnothot => ?_
      hot := fun hhot => ?_
      moved := fun hne => ?_
      invalidated := fun hhot hpark => ?_ }
  · rw [h₂.logicalId, h.logicalId, hm.target_of_ne hc, hr.target_of_ne hc]
  · rw [h.logicalId] at hlog
    rw [hm.disabled_eq hc (by rw [hr.target_of_ne hc, hlog]), hr.disabled_eq hc hlog]
  · rw [← hr.valid_eq c]
    by_cases hcb : c = b
    · subst hcb
      rw [(hm.of_not_hot (htemp ▸ hcool)).1]
    · exact hm.valid_of_ne hcb
  · -- the first phase puts the bank in normal operation and the second one skips it
    obtain ⟨rfl, rfl⟩ := hm.of_not_hot (htemp ▸ hnothot)
    obtain ⟨hself, hdis⟩ := hr.of_cool hcool
    rintro (hdis' | hlog)
    · rw [hdis] at hdis'
      exact Bool.noConfusion hdis'
    · exact hlog ((h₂.logicalId b).trans hself)
  · by_cases hself : p₂.target b = b
    · exact Or.inl (hm.of_hot (htemp ▸ hhot) hself)
    · exact Or.inr (h₂.logicalId b ▸ hself)
  · rw [h₂.logicalId, h.logicalId] at hne
    rw [h.logicalId]
    -- either phase may have moved the bank
    by_cases heq : p₁.target b = p.target b
    · obtain ⟨hself, hinvalid⟩ := hm.of_target_ne (heq ▸ hne)
      exact Or.inr ⟨heq ▸ hself, hinvalid⟩
    · exact Or.inl ((hr.of_target_ne heq).symm)
  · -- a bank in normal operation is still so after the first phase
    have hpark₁ : ¬ m₁.Parked b := mt (hr.parked_of h h₁) hpark
    rw [Parked, not_or, not_not, h₁.logicalId, Bool.not_eq_true] at hpark₁
    obtain ⟨hdis₁, hself₁⟩ := hpark₁
    exact hm.invalid_of_hot (htemp ▸ hhot) hself₁ hdis₁

/-! ## The whole pass -/

/-- The ids and flags of the banks describe some matching, an empty one unless the policy is to
redirect. -/
def Consistent (cfg : RemapConfig T) (m : RemappingManager T) : Prop :=
  ∃ p, m.Represents cfg p ∧ (cfg.nRemap ≠ 1 → p = Pairing.empty ℕ)

/-- An iteration keeps the matching. -/
theorem consistent_mechanismStep (h : m.Consistent cfg) (hb : b < cfg.totBanks) :
    (m.mechanismStep cfg b).Consistent cfg := by
  obtain ⟨p, hp, hempty⟩ := h
  by_cases h1 : cfg.nRemap = 1
  · obtain ⟨m₁, p₁, p₂, hr, hm⟩ := mechanismStep_cases (b := b) (Or.inr h1) hp hb
    exact ⟨p₂, hm.represents (hr.represents hp hb) hb, fun hne => absurd h1 hne⟩
  · -- the other policies leave the matching empty
    obtain rfl := hempty h1
    unfold mechanismStep
    rw [if_neg h1]
    split_ifs with h0 h2
    · obtain ⟨m₁, hr, hm⟩ := manages_disableHotBank (b := b) h0 hp
      exact ⟨_, hm.represents (hr.represents hp hb) hb, fun _ => rfl⟩
    · exact ⟨_, hp, fun _ => rfl⟩
    · exact ⟨_, hp.of_eq rfl rfl, fun _ => rfl⟩

/-- The two phases of an iteration, under one of the two policies that do something. -/
theorem Consistent.mechanismStep_cases (h : m.Consistent cfg)
    (hn : cfg.nRemap = 0 ∨ cfg.nRemap = 1) (hb : b < cfg.totBanks) :
    ∃ p m₁ p₁ p₂, m.Represents cfg p ∧ Recovers cfg m p b m₁ p₁ ∧
      Manages cfg m₁ p₁ b (m.mechanismStep cfg b) p₂ := by
  obtain ⟨p, hp, hempty⟩ := h
  have hn' : cfg.nRemap = 0 ∧ p = Pairing.empty ℕ ∨ cfg.nRemap = 1 :=
    hn.imp_left fun h0 => ⟨h0, hempty (by omega)⟩
  obtain ⟨m₁, p₁, p₂, hr, hm⟩ := RemappingManager.mechanismStep_cases hn' hp hb
  exact ⟨p, m₁, p₁, p₂, hp, hr, hm⟩

/-- The facts hold for every iteration of these policies. -/
theorem iterationFacts_mechanismStep (hn : cfg.nRemap = 0 ∨ cfg.nRemap = 1)
    (h : m.Consistent cfg) (hb : b < cfg.totBanks) :
    IterationFacts cfg b m (m.mechanismStep cfg b) := by
  obtain ⟨p, m₁, p₁, p₂, hp, hr, hm⟩ := h.mechanismStep_cases hn hb
  exact iterationFacts hp hb hr hm

/-- The loop keeps the matching at every iteration. -/
theorem consistent_mechanismLoop (h : m.Consistent cfg) :
    ∀ k ≤ cfg.totBanks, (m.mechanismLoop cfg k).Consistent cfg :=
  foldl_range_invariant (P := fun _ m => Consistent cfg m) h
    fun _ _ hk hm => consistent_mechanismStep hm hk

/-- What the iterations for the banks below `k` have made of the manager `m`. -/
structure PassFacts (cfg : RemapConfig T) (m : RemappingManager T) (k : ℕ)
    (m' : RemappingManager T) : Prop where
  temperature : ∀ c, (m'.phyBanks c).temperature = (m.phyBanks c).temperature
  printed : m'.printed = m.printed
  logicalId_of_le : ∀ c, k ≤ c → (m'.bankStat c).logicalId = (m.bankStat c).logicalId
  disabled_of_le : ∀ c, k ≤ c → (m.bankStat c).logicalId = c →
    (m'.bankStat c).disabled = (m.bankStat c).disabled
  valid : ∀ c, (m'.bankStat c).valid = true → (m.bankStat c).valid = true
  stays_valid : ∀ c, (m.phyBanks c).temperature < cfg.highThres →
    (m'.bankStat c).valid = (m.bankStat c).valid
  parked : ∀ c, m'.Parked c → m.Parked c ∨ (m'.bankStat c).valid = false
  cool : cfg.remapThres ≤ cfg.highThres → ∀ c < k,
    (m.phyBanks c).temperature < cfg.remapThres → ¬ m'.Parked c
  hot : ∀ c < k, cfg.highThres ≤ (m.phyBanks c).temperature → m'.Parked c
  moved : ∀ c, (m'.bankStat c).logicalId ≠ (m.bankStat c).logicalId →
    ((m.bankStat c).logicalId ≠ c ∧ (m.phyBanks c).temperature < cfg.remapThres) ∨
      ((m.bankStat c).logicalId = c ∧ (m'.bankStat c).valid = false)
  invalidated : ∀ c < k, cfg.highThres ≤ (m.phyBanks c).temperature → ¬ m.Parked c →
    (m'.bankStat c).valid = false

omit [LinearOrder T] in
/-- A bank is parked or not by its own iteration alone. -/
theorem parked_congr {m' : RemappingManager T}
    (hlog : (m'.bankStat c).logicalId = (m.bankStat c).logicalId)
    (hdis : (m.bankStat c).logicalId = c → (m'.bankStat c).disabled = (m.bankStat c).disabled) :
    m'.Parked c ↔ m.Parked c := by
  unfold Parked
  rw [hlog]
  by_cases hself : (m.bankStat c).logicalId = c
  · rw [hdis hself]
  · simp [hself]

/-- Every iteration adds its own facts. -/
theorem PassFacts.succ {k : ℕ} {m₁ m₂ : RemappingManager T} (h : PassFacts cfg m k m₁)
    (hi : IterationFacts cfg k m₁ m₂) : PassFacts cfg m (k + 1) m₂ := by
  -- an invalid bank stays invalid, and the other banks stay parked or not
  have hvalid : ∀ c, (m₁.bankStat c).valid = false → (m₂.bankStat c).valid = false := by
    intro c
    rw [← Bool.not_eq_true, ← Bool.not_eq_true]
    exact mt (hi.valid c)
  have hparked : ∀ c ≠ k, m₂.Parked c ↔ m₁.Parked c := fun c hc =>
    parked_congr (hi.logicalId_of_ne c hc) (hi.disabled_of_ne c hc)
  have hlog := h.logicalId_of_le k le_rfl
  refine
    { temperature := fun c => (hi.temperature c).trans (h.temperature c)
      printed := hi.printed.trans h.printed
      logicalId_of_le := fun c hc => ?_
      disabled_of_le := fun c hc hself => ?_
      valid := fun c hc => h.valid c (hi.valid c hc)
      stays_valid := fun c hc =>
        (hi.stays_valid c (h.temperature c ▸ hc)).trans (h.stays_valid c hc)
      parked := fun c hc => ?_
      cool := fun hle c hc hcool => ?_
      hot := fun c hc hhot => ?_
      moved := fun c hne => ?_
      invalidated := fun c hc hhot hpark => ?_ }
  · rw [hi.logicalId_of_ne c (by omega), h.logicalId_of_le c (by omega)]
  · have hself₁ := (h.logicalId_of_le c (by omega)).trans hself
    rw [hi.disabled_of_ne c (by omega) hself₁, h.disabled_of_le c (by omega) hself]
  · rcases hi.parked c hc with hc₁ | hinvalid
    · exact (h.parked c hc₁).imp_right (hvalid c)
    · exact Or.inr hinvalid
  · -- bank `k` has been decided about now, the banks below it before
    rcases Nat.lt_succ_iff_lt_or_eq.mp hc with hlt | rfl
    · rw [hparked c (by omega)]
      exact h.cool hle c hlt hcool
    · rw [← h.temperature] at hcool
      exact hi.cool hcool (hcool.trans_le hle)
  · rcases Nat.lt_succ_iff_lt_or_eq.mp hc with hlt | rfl
    · rw [hparked c (by omega)]
      exact h.hot c hlt hhot
    · exact hi.hot (h.temperature c ▸ hhot)
  · -- only the iteration for `c` moves bank `c`
    by_cases hck : c = k
    · subst hck
      rw [← hlog, ← h.temperature]
      exact hi.moved (hlog ▸ hne)
    · rw [hi.logicalId_of_ne c hck] at hne
      exact (h.moved c hne).imp_right (And.imp_right (hvalid c))
  · rcases Nat.lt_succ_iff_lt_or_eq.mp hc with hlt | rfl
    · exact hvalid c (h.invalidated c hlt hhot hpark)
    · -- up to its own iteration the bank has not been parked
      refine hi.invalidated (h.temperature c ▸ hhot) ?_
      rwa [parked_congr hlog (h.disabled_of_le c le_rfl)]

/-- The facts hold after every number of iterations. -/
theorem passFacts_mechanismLoop (hn : cfg.nRemap = 0 ∨ cfg.nRemap = 1) (h : m.Consistent cfg)
    {k : ℕ} (hk : k ≤ cfg.totBanks) : PassFacts cfg m k (m.mechanismLoop cfg k) := by
  -- the facts about an iteration need the matching in the state before it
  refine (foldl_range_invariant (n := cfg.totBanks)
    (P := fun k m' => m'.Consistent cfg ∧ PassFacts cfg m k m') ⟨h, ?_⟩ ?_ k hk).2
  · exact
      { temperature := fun _ => rfl
        printed := rfl
        logicalId_of_le := fun _ _ => rfl
        disabled_of_le := fun _ _ _ => rfl
        valid := fun _ => id
        stays_valid := fun _ _ => rfl
        parked := fun _ => Or.inl
        cool := fun _ _ hc => absurd hc (Nat.not_lt_zero _)
        hot := fun _ hc => absurd hc (Nat.not_lt_zero _)
        moved := fun _ hne => absurd rfl hne
        invalidated := fun _ hc => absurd hc (Nat.not_lt_zero _) }
  · rintro k m₁ hlt ⟨hcons, hfacts⟩
    exact ⟨consistent_mechanismStep hcons hlt,
      hfacts.succ (iterationFacts_mechanismStep hn hcons hlt)⟩

/-- What a pass does. -/
theorem passFacts_runMechanism (hn : cfg.nRemap = 0 ∨ cfg.nRemap = 1) (h : m.Consistent cfg) :
    PassFacts cfg m cfg.totBanks (m.runMechanism cfg) :=
  passFacts_mechanismLoop hn h le_rfl

/-- A pass keeps the matching. -/
theorem consistent_runMechanism (h : m.Consistent cfg) : (m.runMechanism cfg).Consistent cfg :=
  consistent_mechanismLoop h _ le_rfl

end StackedDram.RemappingManager
