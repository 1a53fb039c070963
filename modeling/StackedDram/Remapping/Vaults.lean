import StackedDram.Remapping.Matching

/-!
# Redirection within a vault

Without `inter_vault` the search for a target is meant to stay in the vault of the hot bank, but
its window starts at the number of the vault instead of the vault's first bank. The two are the
same for the banks of vault 0 and in vaults of one bank, and only there does the search visit the
vault of the bank it was started for (`ownWindow_iff`).

`intraVault_iff` says what this means for runs: the banks stay in their vaults and every search
visits the right one exactly in the runs in which only such banks look for a target.
-/

namespace StackedDram.RemappingManager

variable {T : Type} {cfg : RemapConfig T} {m m' : RemappingManager T} {p p' : Pairing ℕ} {b c : ℕ}

/-! ## The window -/

/-- The search for bank `b` visits the banks of its vault and no others. -/
def OwnWindow (cfg : RemapConfig T) (b : ℕ) : Prop :=
  ∀ j, j ∈ candidates cfg b ↔ j / cfg.nBanks = b / cfg.nBanks

/-- Bank `b` is in vault 0, or alone in its vault. -/
def FirstVault (cfg : RemapConfig T) (b : ℕ) : Prop := b < cfg.nBanks ∨ cfg.nBanks = 1

theorem ownWindow_iff (hinter : cfg.interVault = false) (hb : b < cfg.totBanks) :
    OwnWindow cfg b ↔ FirstVault cfg b := by
  have hpos : 0 < cfg.nBanks := by
    by_contra hzero
    simp [RemapConfig.totBanks, Nat.eq_zero_of_not_pos hzero] at hb
  have hmem : ∀ j, j ∈ candidates cfg b ↔ b / cfg.nBanks ≤ j ∧ j < b / cfg.nBanks + cfg.nBanks := by
    simp [candidates, hinter, List.mem_range'_1]
  have hown : ∀ j, j / cfg.nBanks = b / cfg.nBanks ↔
      b / cfg.nBanks * cfg.nBanks ≤ j ∧ j ≤ b / cfg.nBanks * cfg.nBanks + cfg.nBanks - 1 :=
    fun j => Nat.div_eq_iff hpos
  constructor
  · intro h
    -- the first bank of the window is in the vault only if the vault starts there
    have hfirst := (h (b / cfg.nBanks)).mp ((hmem _).mpr ⟨le_rfl, Nat.lt_add_of_pos_right hpos⟩)
    have hle := ((hown _).mp hfirst).1
    rcases Nat.eq_zero_or_pos (b / cfg.nBanks) with hzero | hvault
    · exact Or.inl ((Nat.div_eq_zero_iff_lt hpos).mp hzero)
    · have hone : cfg.nBanks ≤ 1 := Nat.le_of_mul_le_mul_left (by rwa [Nat.mul_one]) hvault
      exact Or.inr (Nat.le_antisymm hone hpos)
  · rintro (hlt | hone) j
    · rw [hmem, hown, Nat.div_eq_of_lt hlt]
      omega
    · rw [hmem, hown, hone]
      omega

/-! ## One call -/

/-- Every bank is served by a bank of its own vault. -/
def InVault (cfg : RemapConfig T) (m : RemappingManager T) : Prop :=
  ∀ b < cfg.totBanks, (m.bankStat b).logicalId / cfg.nBanks = b / cfg.nBanks

theorem InVault.congr (h : m.InVault cfg)
    (hlog : ∀ b, (m'.bankStat b).logicalId = (m.bankStat b).logicalId) : m'.InVault cfg :=
  fun b hb => by rw [hlog, h b hb]

/-- Mapping banks back to themselves keeps all banks in their vaults. -/
theorem InVault.of_target (h : m.InVault cfg) (hp : m.Represents cfg p)
    (hp' : m'.Represents cfg p') (htarget : ∀ c, p'.target c = p.target c ∨ p'.target c = c) :
    m'.InVault cfg := by
  intro b hb
  rw [hp'.logicalId]
  rcases htarget b with heq | heq
  · rw [heq, ← hp.logicalId, h b hb]
  · rw [heq]

theorem inVault_new (cfg : RemapConfig T) : (new cfg).InVault cfg := fun _ _ => rfl

variable [LinearOrder T]

/-- In its iteration, which starts in the state `m`, bank `b` looks for a target: after the first
phase it is hot and neither combined nor disabled. -/
def Searches (cfg : RemapConfig T) (m : RemappingManager T) (b : ℕ) : Prop :=
  cfg.highThres ≤ (m.phyBanks (m.bankStat b).physicalId).temperature ∧
    ((m.recoverBank cfg b).bankStat b).combined = false ∧
    ((m.recoverBank cfg b).bankStat b).disabled = false

instance (b : ℕ) : Decidable (m.Searches cfg b) := by
  unfold Searches
  infer_instance

/-- The first phase leaves the target of a bank alone or maps the bank back to itself. -/
theorem Recovers.target_eq_or (hr : Recovers cfg m p b m' p') (c : ℕ) :
    p'.target c = p.target c ∨ p'.target c = c := by
  cases hr with
  | separate hcool hb =>
    by_cases hc : c = b
    · exact Or.inr (by simp [hc])
    · exact Or.inl (by simp [Function.update_of_ne hc])
  | skip | enablePair | enable => exact Or.inl rfl

/-- The second phase leaves the target of its bank alone or redirects the bank, hot and outside all
pairs, to the bank found. -/
theorem Manages.target_eq_or (hm : Manages cfg m p b m' p') :
    p'.target b = p.target b ∨
      (cfg.highThres ≤ (m.phyBanks b).temperature ∧ (m.bankStat b).disabled = false ∧ p.Free b) ∧
        m.searchTarget cfg b = p'.target b ∧ p'.target b ≠ b := by
  cases hm with
  | redirect hn hhot hdis hbt hb ht htarget =>
    rw [Pairing.link_target, Function.update_self]
    exact Or.inr ⟨⟨hhot, hdis, hb⟩, htarget, hbt.symm⟩
  | skip | disable | disablePair => exact Or.inl rfl

/-- An iteration keeps all banks in their vaults, if the bank finds its target there. -/
theorem inVault_mechanismStep (hn : cfg.nRemap = 1) (h : m.Consistent cfg) (hb : b < cfg.totBanks)
    (hin : m.InVault cfg) (hown : m.Searches cfg b → OwnWindow cfg b) :
    (m.mechanismStep cfg b).InVault cfg := by
  obtain ⟨p, hp, -⟩ := h
  obtain ⟨p₁, p₂, hr, hm⟩ := mechanismStep_recoverBank hn hp hb
  have hp₁ := hr.represents hp hb
  have hp₂ := hm.represents hp₁ hb
  have hin₁ : (m.recoverBank cfg b).InVault cfg := hin.of_target hp hp₁ hr.target_eq_or
  intro c hc
  rw [hp₂.logicalId]
  by_cases hcb : c = b
  · subst hcb
    rcases hm.target_eq_or with heq | ⟨⟨hhot, hdis, hfree⟩, htarget, hne⟩
    · rw [heq, ← hp₁.logicalId]
      exact hin₁ c hc
    · -- the guard of the search, on the state before the iteration
      have hsearch : m.Searches cfg c := by
        refine ⟨?_, (hp₁.combined c).mpr hfree, hdis⟩
        rwa [hp.physicalId, ← hr.temperature_eq]
      have hmem := (searchTarget_eq_or hp₁ c).resolve_left (htarget ▸ hne)
      rw [htarget] at hmem
      exact (hown hsearch _).mp hmem.1
  · rw [hm.target_of_ne hcb, ← hp₁.logicalId]
    exact hin₁ c hc

/-- What a call searches: during the call `a` on the manager `m`, bank `b` looks for a target. -/
inductive SearchedBy (cfg : RemapConfig T) (m : RemappingManager T) : Call cfg → ℕ → Prop
  | runMechanism {b : ℕ} (hb : b < cfg.totBanks)
      (hsearch : (m.mechanismLoop cfg b).Searches cfg b) : SearchedBy cfg m .runMechanism b

theorem inVault_resetStatsBank (hn : cfg.nRemap = 1) (h : m.Consistent cfg)
    (hb : b < cfg.totBanks) (hin : m.InVault cfg) (reset : Bool) :
    (m.resetStatsBank cfg reset b).InVault cfg := by
  have hvalid : (m.updBank b fun bank => (bank.setValid true).finishRemapping).InVault cfg := by
    refine hin.congr fun c => ?_
    rw [updBank_bankStat]
    split_ifs with hc
    · rw [hc]
      rfl
    · rfl
  unfold resetStatsBank
  dsimp only
  -- a reset can only take a pair apart
  split_ifs
  · obtain ⟨p, hp, -⟩ := h.setValid_finishRemapping b
    obtain ⟨⟨p', hp', htarget⟩, -⟩ := resetBank_represents hn hp hb
    exact hvalid.of_target hp hp' htarget
  · exact hvalid

theorem inVault_resetStats (hn : cfg.nRemap = 1) (h : m.Consistent cfg) (hin : m.InVault cfg)
    (reset : Bool) : (m.resetStats cfg reset).InVault cfg := by
  refine (foldl_range_invariant (P := fun _ m' => Consistent cfg m' ∧ InVault cfg m') ⟨h, hin⟩ ?_
    cfg.totBanks le_rfl).2
  rintro k m' hk ⟨hcons, hin'⟩
  exact ⟨consistent_resetStatsBank hcons reset hk, inVault_resetStatsBank hn hcons hk hin' reset⟩

/-- A call keeps all banks in their vaults, if every search of it visits the right vault. -/
theorem inVault_step (hn : cfg.nRemap = 1) (h : m.Consistent cfg) (hin : m.InVault cfg)
    {a : Call cfg} (hown : ∀ b, SearchedBy cfg m a b → OwnWindow cfg b) :
    (m.step cfg a).InVault cfg := by
  cases a with
  | updateTemperature => exact hin
  | runMechanism =>
    -- induction on the iterations
    refine foldl_range_invariant (P := fun k m' => m' = m.mechanismLoop cfg k ∧ m'.InVault cfg)
      ⟨rfl, hin⟩ (fun k m' hk hloop => ?_) cfg.totBanks le_rfl |>.2
    obtain ⟨rfl, hin'⟩ := hloop
    refine ⟨?_, inVault_mechanismStep hn (consistent_mechanismLoop h k hk.le) hk hin' fun hs =>
      hown k (.runMechanism hk hs)⟩
    simp [mechanismLoop, List.range_succ]
  | resetStats reset => exact inVault_resetStats hn h hin reset
  | accessRow remapped v b r =>
    exact hin.congr fun c => congrArg (·.logicalId) (accessRow_toBankMapping m remapped v b r c)

/-! ## Runs -/

/-- In every run of a manager that redirects within vaults, all banks are at all times served by
banks of their own vaults and all searches visit the right vault, if and only if all banks that
look for a target are in vault 0 or alone in their vaults. -/
theorem intraVault_iff (hn : cfg.nRemap = 1) (hinter : cfg.interVault = false)
    (calls : List (Call cfg)) :
    ((∀ before, before <+: calls → ((machine cfg).run before).InVault cfg) ∧
        (machine cfg).AllSteps (fun m a => ∀ b, SearchedBy cfg m a b → OwnWindow cfg b) calls) ↔
      (machine cfg).AllSteps (fun m a => ∀ b, SearchedBy cfg m a b → FirstVault cfg b) calls := by
  -- the window that is searched is that of the own vault in the first vault only
  have hwindow : ∀ (m : RemappingManager T) (a : Call cfg) (b : ℕ), SearchedBy cfg m a b →
      (OwnWindow cfg b ↔ FirstVault cfg b) := by
    rintro m a b ⟨hb, -⟩
    exact ownWindow_iff hinter hb
  constructor
  · rintro ⟨-, hown⟩ before a after heq b hb
    exact (hwindow _ a b hb).mp (hown before a after heq b hb)
  · intro hfirst
    have hown : (machine cfg).AllSteps
        (fun m a => ∀ b, SearchedBy cfg m a b → OwnWindow cfg b) calls :=
      fun before a after heq b hb => (hwindow _ a b hb).mpr (hfirst before a after heq b hb)
    refine ⟨?_, hown⟩
    rintro before ⟨after, rfl⟩
    exact Machine.invariant_of_allSteps (P := fun m => InVault cfg m) (inVault_new cfg)
      (fun m a hm hin hok => inVault_step hn (consistent_of_reachable hm) hin hok) before
      hown.of_append

/-- Two vaults of two banks, without `inter_vault`. -/
def twoByTwoIntra : RemapConfig ℕ := { twoByTwo with interVault := false }

/-- Bank 2, the first bank of vault 1, is hot. Its search visits the banks 1 and 2, and it is
redirected to bank 1 in vault 0. -/
theorem not_intraVault :
    let calls : List (Call twoByTwoIntra) :=
      [.updateTemperature (1 : Fin 2) (0 : Fin 2) 90, .runMechanism]
    ¬ ((∀ before, before <+: calls → ((machine twoByTwoIntra).run before).InVault twoByTwoIntra) ∧
        (machine twoByTwoIntra).AllSteps
          (fun m a => ∀ b, SearchedBy twoByTwoIntra m a b → OwnWindow twoByTwoIntra b) calls) := by
  intro calls h
  have hin := h.1 calls (List.prefix_refl calls) 2 (by decide)
  exact absurd hin (by decide)

/-- In the same run the condition fails, because of bank 2. -/
theorem intraVault_iff_twoByTwo :
    let calls : List (Call twoByTwoIntra) :=
      [.updateTemperature (1 : Fin 2) (0 : Fin 2) 90, .runMechanism]
    ¬ (machine twoByTwoIntra).AllSteps
      (fun m a => ∀ b, SearchedBy twoByTwoIntra m a b → FirstVault twoByTwoIntra b) calls := by
  intro calls h
  have hin := ((intraVault_iff rfl rfl calls).mpr h).1 calls (List.prefix_refl calls) 2 (by decide)
  exact absurd hin (by decide)

end StackedDram.RemappingManager
