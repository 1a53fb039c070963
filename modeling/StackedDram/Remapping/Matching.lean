import StackedDram.Library.BitFields
import StackedDram.Remapping.Pass

/-!
# Runs of the remapping manager

`machine cfg` takes a manager from its construction through arbitrary sequences of calls, and
`During` lists the states in which a call leaves the manager between two iterations of its loop.
In all of them the redirection table is a matching (`Consistent`, `consistent_of_reachable`), and
with the policies that disable or redirect hot banks no message is ever printed
(`printed_of_reachable`).

`redirection_matching` spells out what this says about the ids and flags of single banks.
-/

namespace StackedDram.RemappingManager

variable {T : Type} {cfg : RemapConfig T} {m m' : RemappingManager T} {p : Pairing ℕ} {b c : ℕ}

/-- A change that keeps the matching itself keeps the manager consistent. -/
theorem Consistent.of_represents (h : m.Consistent cfg)
    (hkeep : ∀ p, m.Represents cfg p → m'.Represents cfg p) : m'.Consistent cfg := by
  obtain ⟨p, hp, hempty⟩ := h
  exact ⟨p, hkeep p hp, hempty⟩

/-- No bank is redirected at the start. -/
theorem consistent_new (cfg : RemapConfig T) : (new cfg).Consistent cfg :=
  ⟨_, represents_new cfg, fun _ => rfl⟩

/-- Temperatures redirect no bank. -/
theorem consistent_updateTemperature (h : m.Consistent cfg) (v b : ℕ) (temp : T) :
    (m.updateTemperature cfg v b temp).Consistent cfg :=
  h.of_represents fun _ hp => hp.updPhy _ fun _ => rfl

/-- Resetting a bank of a redirecting manager keeps the table a matching, in which no bank is
redirected that was not before, and prints nothing. -/
theorem resetBank_represents (hn : cfg.nRemap = 1) (h : m.Represents cfg p)
    (hb : b < cfg.totBanks) :
    (∃ p', (m.resetBank cfg b).Represents cfg p' ∧
      ∀ c, p'.target c = p.target c ∨ p'.target c = c) ∧
      (m.resetBank cfg b).printed = m.printed := by
  have hrev := h.revalidate b
  -- a source loses its target; a target and a free bank are enabled
  rcases isSource_or_isTarget_or_free p b with hs | ht | hf
  · rw [resetBank_of_isSource hn h hs rfl]
    refine ⟨⟨_, hrev.separate hs rfl hb, fun c => ?_⟩, rfl⟩
    by_cases hc : c = b
    · exact Or.inr (by simp [hc])
    · exact Or.inl (by simp [Function.update_of_ne hc])
  · rw [resetBank_of_isTarget hn h ht]
    exact ⟨⟨_, hrev.setPairDisabled ht.isSource (p.target_source b ht) false,
      fun _ => Or.inl rfl⟩, rfl⟩
  · rw [resetBank_of_free hn h hf]
    exact ⟨⟨_, hrev.setDisabled hf false, fun _ => Or.inl rfl⟩, rfl⟩

/-- Resetting a bank keeps the manager consistent, under every policy. -/
theorem consistent_resetBank (h : m.Consistent cfg) (hb : b < cfg.totBanks) :
    (m.resetBank cfg b).Consistent cfg := by
  obtain ⟨p, hp, hempty⟩ := h
  by_cases h1 : cfg.nRemap = 1
  · obtain ⟨⟨p', hp', -⟩, -⟩ := resetBank_represents h1 hp hb
    exact ⟨p', hp', fun hne => absurd h1 hne⟩
  · obtain rfl := hempty h1
    have hswitch : ((m.revalidate b).updBank b (.setDisabled false)).Represents cfg
        (Pairing.empty ℕ) := (hp.revalidate b).setDisabled ⟨rfl, rfl⟩ false
    refine ⟨_, ?_, fun _ => rfl⟩
    -- the policies 0 and 2 switch the bank on, an unknown one prints a message
    unfold resetBank
    simp only [hp.physicalId, if_neg h1]
    split_ifs with h0 h2
    · exact hswitch
    · exact hswitch
    · exact (hp.revalidate b).of_eq rfl rfl

/-- Resetting a bank prints something only under an unknown policy. -/
theorem resetBank_printed (hn : cfg.nRemap = 0 ∨ cfg.nRemap = 1) (h : m.Consistent cfg)
    (hb : b < cfg.totBanks) : (m.resetBank cfg b).printed = m.printed := by
  obtain ⟨p, hp, hempty⟩ := h
  rcases hn with h0 | h1
  · rw [resetBank_of_disable h0 hp]
    rfl
  · exact (resetBank_represents h1 hp hb).2

/-- An iteration of `resetStats` before the bank is possibly reset. -/
theorem Consistent.setValid_finishRemapping (h : m.Consistent cfg) (b : ℕ) :
    (m.updBank b fun bank => (bank.setValid true).finishRemapping).Consistent cfg :=
  h.of_represents fun _ hp =>
    hp.updBank b (fun _ => rfl) (fun _ => rfl) (fun _ => rfl) (fun _ => rfl) fun _ => rfl

variable [LinearOrder T]

/-- Accesses redirect no bank. -/
theorem consistent_accessRow (h : m.Consistent cfg) (remapped : Bool) (v b r : ℕ) :
    (m.accessRow cfg remapped v b r).Consistent cfg := by
  refine h.of_represents fun p hp => ?_
  have hmap := fun q : BankStat => BankStat.accessRow_toBankMapping q r
  refine Represents.updBank (hp.updPhy _ fun q => ?_) _ (fun q => congrArg (·.physicalId) (hmap q))
    (fun q => congrArg (·.logicalId) (hmap q)) (fun q => congrArg (·.remapId) (hmap q))
    (fun q => congrArg (·.combined) (hmap q)) fun q => congrArg (·.disabled) (hmap q)
  split_ifs <;> rfl

/-- Resetting a bank takes back a redirection on both sides. -/
theorem consistent_resetStatsBank (h : m.Consistent cfg) (reset : Bool) (hb : b < cfg.totBanks) :
    (m.resetStatsBank cfg reset b).Consistent cfg := by
  have hvalid := h.setValid_finishRemapping b
  unfold resetStatsBank
  dsimp only
  split_ifs
  · exact consistent_resetBank hvalid hb
  · exact hvalid

theorem resetStatsBank_printed (hn : cfg.nRemap = 0 ∨ cfg.nRemap = 1) (h : m.Consistent cfg)
    (reset : Bool) (hb : b < cfg.totBanks) :
    (m.resetStatsBank cfg reset b).printed = m.printed := by
  unfold resetStatsBank
  dsimp only
  split_ifs
  · exact resetBank_printed hn (h.setValid_finishRemapping b) hb
  · rfl

/-- The first `k` iterations of `resetStats` keep the matching and print nothing. -/
theorem resetStatsLoop_sound (h : m.Consistent cfg) (reset : Bool) {k : ℕ}
    (hk : k ≤ cfg.totBanks) :
    let m' := (List.range k).foldl (resetStatsBank cfg reset) m
    m'.Consistent cfg ∧ (cfg.nRemap = 0 ∨ cfg.nRemap = 1 → m'.printed = m.printed) := by
  -- a bank is reset without a message only in a consistent state, so the two go together
  refine foldl_range_invariant (n := cfg.totBanks)
    (P := fun _ m' => Consistent cfg m' ∧
      (cfg.nRemap = 0 ∨ cfg.nRemap = 1 → m'.printed = m.printed)) ⟨h, fun _ => rfl⟩ ?_ k hk
  rintro k m' hlt ⟨hcons, hprinted⟩
  exact ⟨consistent_resetStatsBank hcons reset hlt,
    fun hn => (resetStatsBank_printed hn hcons reset hlt).trans (hprinted hn)⟩

/-- Resetting all banks takes back redirections on both sides. -/
theorem consistent_resetStats (h : m.Consistent cfg) (reset : Bool) :
    (m.resetStats cfg reset).Consistent cfg :=
  (resetStatsLoop_sound h reset le_rfl).1

/-! ## What requests change -/

/-- Counting a row access changes no flag and no id. -/
theorem accessRow_toBankMapping (m : RemappingManager T) (remapped : Bool) (v b r c : ℕ) :
    ((m.accessRow cfg remapped v b r).bankStat c).toBankMapping = (m.bankStat c).toBankMapping := by
  simp only [accessRow, updBank_bankStat, updPhy_bankStat]
  split_ifs with hc
  · rw [BankStat.accessRow_toBankMapping, hc]
  · rfl

/-- Counting a row access changes no temperature. -/
theorem accessRow_temperature (m : RemappingManager T) (remapped : Bool) (v b r c : ℕ) :
    ((m.accessRow cfg remapped v b r).phyBanks c).temperature = (m.phyBanks c).temperature := by
  simp only [accessRow, updBank_phyBanks, updPhy_phyBanks]
  split_ifs with hc <;> first | rfl | rw [hc]

/-- Without the flag, the first `k` iterations of `resetStats` mark the banks below `k` valid and
forget their migrated rows, and change nothing else. -/
theorem resetStatsLoop_false (m : RemappingManager T) (k c : ℕ) :
    ((List.range k).foldl (resetStatsBank cfg false) m).bankStat c =
      if c < k then ((m.bankStat c).setValid true).finishRemapping else m.bankStat c := by
  induction k with
  | zero => simp
  | succ k ih =>
    rw [List.range_succ, List.foldl_append, List.foldl_cons, List.foldl_nil, resetStatsBank]
    simp only [Bool.false_eq_true, false_and, if_false, updBank_bankStat]
    -- iteration `k` writes to bank `k`, which the iterations before it have not touched
    by_cases hck : c = k
    · subst hck
      rw [if_pos rfl, if_pos (Nat.lt_succ_self c), ih, if_neg (Nat.lt_irrefl c)]
    · rw [if_neg hck, ih]
      have hiff : c < k ↔ c < k + 1 := by omega
      simp only [hiff]

/-- Without the flag, `resetStats` marks all banks valid and changes no id and no other flag. -/
theorem resetStats_false_bankStat (m : RemappingManager T) (c : ℕ) :
    (m.resetStats cfg false).bankStat c =
      if c < cfg.totBanks then ((m.bankStat c).setValid true).finishRemapping
      else m.bankStat c :=
  resetStatsLoop_false m cfg.totBanks c

theorem resetStats_false_phyBanks (m : RemappingManager T) :
    (m.resetStats cfg false).phyBanks = m.phyBanks :=
  List.foldlRecOn (motive := fun m' : RemappingManager T => m'.phyBanks = m.phyBanks) _ _ rfl
    fun m' h b _ => by simpa [resetStatsBank] using h

/-- Two managers whose banks have the same flags, ids and temperatures, the valid flags
excepted. -/
structure SameRouting (m m' : RemappingManager T) : Prop where
  logicalId : ∀ c, (m'.bankStat c).logicalId = (m.bankStat c).logicalId
  disabled : ∀ c, (m'.bankStat c).disabled = (m.bankStat c).disabled
  temperature : ∀ c, (m'.phyBanks c).temperature = (m.phyBanks c).temperature

omit [LinearOrder T] in
theorem SameRouting.trans {m'' : RemappingManager T} (h : m.SameRouting m')
    (h' : m'.SameRouting m'') : m.SameRouting m'' where
  logicalId c := (h'.logicalId c).trans (h.logicalId c)
  disabled c := (h'.disabled c).trans (h.disabled c)
  temperature c := (h'.temperature c).trans (h.temperature c)

/-- Accesses change no redirection. -/
theorem sameRouting_accessRow (m : RemappingManager T) (remapped : Bool) (v b r : ℕ) :
    m.SameRouting (m.accessRow cfg remapped v b r) where
  logicalId c := congrArg (·.logicalId) (accessRow_toBankMapping m remapped v b r c)
  disabled c := congrArg (·.disabled) (accessRow_toBankMapping m remapped v b r c)
  temperature := accessRow_temperature m remapped v b r

/-- Resetting the statistics alone changes no redirection. -/
theorem sameRouting_resetStats_false (cfg : RemapConfig T) (m : RemappingManager T) :
    m.SameRouting (m.resetStats cfg false) where
  logicalId c := by
    rw [resetStats_false_bankStat]
    split_ifs <;> rfl
  disabled c := by
    rw [resetStats_false_bankStat]
    split_ifs <;> rfl
  temperature c := by rw [resetStats_false_phyBanks]

/-! ## Runs -/

/-- A call to the manager, for a bank that exists. -/
inductive Call (cfg : RemapConfig T) where
  | updateTemperature (v : Fin cfg.nVaults) (b : Fin cfg.nBanks) (temp : T)
  | runMechanism
  | resetStats (reset : Bool)
  | accessRow (remapped : Bool) (v : Fin cfg.nVaults) (b : Fin cfg.nBanks) (r : ℕ)

/-- The manager after a call. -/
def step (cfg : RemapConfig T) (m : RemappingManager T) : Call cfg → RemappingManager T
  | .updateTemperature v b temp => m.updateTemperature cfg v b temp
  | .runMechanism => m.runMechanism cfg
  | .resetStats reset => m.resetStats cfg reset
  | .accessRow remapped v b r => m.accessRow cfg remapped v b r

/-- The manager from its construction on. -/
def machine (cfg : RemapConfig T) : Machine (RemappingManager T) (Call cfg) where
  init := new cfg
  step := step cfg

/-- The states of the manager during the calls on `m`: between two iterations of a loop, and in an
iteration of the management step after the first of its phases. -/
inductive During (cfg : RemapConfig T) (m : RemappingManager T) : RemappingManager T → Prop
  | call : During cfg m m
  | mechanism {k : ℕ} (hk : k ≤ cfg.totBanks) : During cfg m (m.mechanismLoop cfg k)
  | recovered {k : ℕ} (hk : k < cfg.totBanks) :
      During cfg m ((m.mechanismLoop cfg k).recoverBank cfg k)
  | reset {k : ℕ} (hk : k ≤ cfg.totBanks) (reset : Bool) :
      During cfg m ((List.range k).foldl (resetStatsBank cfg reset) m)

/-- No action breaks the matching. -/
theorem consistent_step (h : m.Consistent cfg) (a : Call cfg) : (m.step cfg a).Consistent cfg := by
  cases a with
  | updateTemperature v b temp => exact consistent_updateTemperature h v b temp
  | runMechanism => exact consistent_runMechanism h
  | resetStats reset => exact consistent_resetStats h reset
  | accessRow remapped v b r => exact consistent_accessRow h remapped v b r

/-- In every reachable state the redirection table is a matching. -/
theorem consistent_of_reachable (hm : (machine cfg).Reachable m) : m.Consistent cfg :=
  hm.invariant (P := fun m => Consistent cfg m) (consistent_new cfg)
    fun _ a _ h => consistent_step h a

/-- With the policies that do something, no call prints a message. -/
theorem printed_of_reachable (hn : cfg.nRemap = 0 ∨ cfg.nRemap = 1)
    (hm : (machine cfg).Reachable m) : m.printed = [] := by
  refine hm.invariant (P := fun m => m.printed = []) rfl fun m a hm hprinted => ?_
  have hcons := consistent_of_reachable hm
  cases a with
  | updateTemperature | accessRow => exact hprinted
  | runMechanism => exact (passFacts_runMechanism hn hcons).printed.trans hprinted
  | resetStats reset => exact ((resetStatsLoop_sound hcons reset le_rfl).2 hn).trans hprinted

/-- The states during the calls of a redirecting manager are consistent, and nothing is printed
on the way to them. -/
theorem During.sound (hn : cfg.nRemap = 1) (h : m.Consistent cfg) (hm' : During cfg m m') :
    m'.Consistent cfg ∧ m'.printed = m.printed := by
  cases hm' with
  | call => exact ⟨h, rfl⟩
  | mechanism hk =>
    exact ⟨consistent_mechanismLoop h _ hk, (passFacts_mechanismLoop (Or.inr hn) h hk).printed⟩
  | @recovered k hk =>
    -- the first phase of iteration `k`, from the state after `k` iterations
    obtain ⟨p, hp, -⟩ := consistent_mechanismLoop h k hk.le
    have hloop := (passFacts_mechanismLoop (Or.inr hn) h hk.le).printed
    obtain ⟨p', hr⟩ := recovers_recoverBank hn hp k
    exact ⟨⟨p', hr.represents hp hk, fun hne => absurd hn hne⟩, hr.printed_eq.trans hloop⟩
  | reset hk reset =>
    obtain ⟨hcons, hprinted⟩ := resetStatsLoop_sound h reset hk
    exact ⟨hcons, hprinted (Or.inr hn)⟩

/-! ## The matching in terms of the banks -/

/-- The ids of bank `b` are those of a bank outside all pairs, of the source of a pair, or of
the target of one. -/
structure Matched (cfg : RemapConfig T) (m : RemappingManager T) (b : ℕ) : Prop where
  physicalId : (m.bankStat b).physicalId = b
  free : (m.bankStat b).combined = false →
    (m.bankStat b).logicalId = b ∧ (m.bankStat b).remapId = b
  pair : (m.bankStat b).combined = true →
    (∃ t < cfg.totBanks, t ≠ b ∧ (m.bankStat t).combined = true ∧ (m.bankStat b).logicalId = t ∧
      (m.bankStat b).remapId = b ∧ (m.bankStat t).logicalId = t ∧ (m.bankStat t).remapId = b) ∨
    ((m.bankStat b).logicalId = b ∧ ∃ s < cfg.totBanks, s ≠ b ∧ (m.bankStat b).remapId = s ∧
      (m.bankStat s).combined = true ∧ (m.bankStat s).logicalId = b)

/-- The subscripts that the manager uses when it handles bank `b` stay inside its tables. -/
structure InRange (cfg : RemapConfig T) (m : RemappingManager T) (b : ℕ) : Prop where
  physicalId : (m.bankStat b).physicalId < cfg.totBanks
  logicalId : (m.bankStat b).logicalId < cfg.totBanks
  remapId : (m.bankStat b).remapId < cfg.totBanks
  candidate : ∀ j ∈ candidates cfg b,
    j < cfg.totBanks ∧ (m.phyBanks j).logicalBank < cfg.totBanks
  searchTarget : m.searchTarget cfg b < cfg.totBanks

omit [LinearOrder T] in
theorem Represents.matched (h : m.Represents cfg p) (hb : b < cfg.totBanks) : m.Matched cfg b where
  physicalId := h.physicalId b
  free hcomb := by
    obtain ⟨ht, hs⟩ := (h.combined b).mp hcomb
    exact ⟨(h.logicalId b).trans ht, (h.remapId b).trans hs⟩
  pair hcomb := by
    have hcombined : ∀ c, ¬ p.Free c → (m.bankStat c).combined = true := by
      intro c hc
      rwa [← Bool.not_eq_false, h.combined]
    -- a combined bank is a source or a target
    rcases isSource_or_isTarget_or_free p b with hs | ht | hf
    · left
      have htt := hs.isTarget
      refine ⟨p.target b, h.target_lt b hb, hs, hcombined _ fun hf => htt hf.2, h.logicalId b,
        ?_, ?_, ?_⟩
      · rw [h.remapId, hs.source_eq]
      · rw [h.logicalId, p.target_target]
      · rw [h.remapId, p.source_target b hs]
    · right
      have hss := ht.isSource
      refine ⟨(h.logicalId b).trans ht.target_eq, p.source b, h.source_lt b hb, ht, h.remapId b,
        hcombined _ fun hf => hss hf.1, ?_⟩
      rw [h.logicalId, p.target_source b ht]
    · rw [(h.combined b).mpr hf] at hcomb
      exact Bool.noConfusion hcomb

theorem Represents.inRange (h : m.Represents cfg p) (hb : b < cfg.totBanks) :
    m.InRange cfg b where
  physicalId := (h.physicalId b).symm ▸ hb
  logicalId := (h.logicalId b).symm ▸ h.target_lt b hb
  remapId := (h.remapId b).symm ▸ h.source_lt b hb
  candidate j hj := by
    have hlt := lt_totBanks_of_mem_candidates hb hj
    exact ⟨hlt, (h.logicalBank j).symm ▸ hlt⟩
  searchTarget := by
    rcases searchTarget_eq_or h b with heq | ⟨hmem, -⟩
    · rwa [heq]
    · exact lt_totBanks_of_mem_candidates hb hmem

/-- No bank is redirected to a bank that is itself redirected, no bank is the target of two
sources, and the banks of a pair are disabled together. -/
structure Pairwise (cfg : RemapConfig T) (m : RemappingManager T) : Prop where
  no_chain : ∀ b < cfg.totBanks,
    (m.bankStat (m.bankStat b).logicalId).logicalId = (m.bankStat b).logicalId
  unique_source : ∀ b < cfg.totBanks, ∀ c < cfg.totBanks, (m.bankStat b).logicalId ≠ b →
    (m.bankStat c).logicalId ≠ c → (m.bankStat b).logicalId = (m.bankStat c).logicalId → b = c
  disabled : ∀ b < cfg.totBanks,
    (m.bankStat (m.bankStat b).logicalId).disabled = (m.bankStat b).disabled

omit [LinearOrder T] in
theorem Represents.pairwise (h : m.Represents cfg p) : m.Pairwise cfg where
  no_chain b _ := by rw [h.logicalId, h.logicalId, p.target_target]
  unique_source b _ c _ hb hc heq := by
    rw [h.logicalId] at hb hc
    rw [h.logicalId, h.logicalId] at heq
    -- the common target leads back to both
    rw [← p.source_target b hb, heq, p.source_target c hc]
  disabled b _ := by rw [h.logicalId, h.disabled]

/-- During every call of every run of a redirecting manager the redirection table is a partial
matching, all subscripts are in range and no message has been printed. -/
theorem redirection_matching (hn : cfg.nRemap = 1) (calls : List (Call cfg))
    (hm' : During cfg ((machine cfg).run calls) m') :
    (∀ b < cfg.totBanks, m'.Matched cfg b ∧ m'.InRange cfg b) ∧ m'.Pairwise cfg ∧
      (∀ (v : Fin cfg.nVaults) (b : Fin cfg.nBanks), cfg.getBankId v b < cfg.totBanks) ∧
      m'.printed = [] := by
  have hreach := Machine.reachable_run (M := machine cfg) calls
  obtain ⟨⟨p, hp, -⟩, hprinted⟩ := hm'.sound hn (consistent_of_reachable hreach)
  refine ⟨fun b hb => ⟨hp.matched hb, hp.inRange hb⟩, hp.pairwise, fun v b => ?_, ?_⟩
  · exact BitFields.digits_lt v.isLt b.isLt
  · exact hprinted.trans (printed_of_reachable (Or.inr hn) hreach)

/-- A small stack, two vaults of two banks, whose hot banks are redirected. -/
def twoByTwo : RemapConfig ℕ where
  nVaults := 2
  nBanks := 2
  nRows := 2
  nRemap := 1
  interVault := true
  highThres := 85
  remapThres := 75
  zeroTemp := 0
  maxTemp := 1000

/-- In the middle of a pass that is about to disable bank 1 together with bank 0, which an earlier
pass has redirected to it. -/
theorem redirection_matching_twoByTwo :
    let calls : List (Call twoByTwo) :=
      [.updateTemperature (0 : Fin 2) (0 : Fin 2) 90, .runMechanism,
        .updateTemperature (0 : Fin 2) (1 : Fin 2) 90]
    let m := ((machine twoByTwo).run calls).mechanismLoop twoByTwo 1
    (m.bankStat 0).logicalId = 1 ∧
      (∀ b < twoByTwo.totBanks, m.Matched twoByTwo b ∧ m.InRange twoByTwo b) ∧
      m.Pairwise twoByTwo ∧
      (∀ (v : Fin twoByTwo.nVaults) (b : Fin twoByTwo.nBanks),
        twoByTwo.getBankId v b < twoByTwo.totBanks) ∧ m.printed = [] := by
  have hn : twoByTwo.nRemap = 1 := rfl
  have hk : 1 ≤ twoByTwo.totBanks := by decide
  exact ⟨by decide, redirection_matching hn _ (.mechanism hk)⟩

end StackedDram.RemappingManager
