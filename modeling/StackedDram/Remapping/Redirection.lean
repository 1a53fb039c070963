import StackedDram.Library.Pairing
import StackedDram.Remapping.Manager

/-!
# The redirection table as a matching

`Represents cfg m p` says that the ids and flags of the banks of `m` describe the matching `p`:
a source is redirected to its target, the two banks of a pair are disabled together, and the
tables stay inside the banks there are. On such states `BankStat::combineWith` joins two free
banks (`combineWith_eq`), `RemappingManager::resetBank` dissolves the pair of a source
(`resetBank_of_isSource`) or switches banks on (`resetBank_of_isTarget`, `resetBank_of_free`), and
none of them prints a message.
-/

namespace StackedDram.RemappingManager

variable {T : Type} {cfg : RemapConfig T} {m : RemappingManager T} {p : Pairing ℕ} {b t : ℕ}

/-- The ids and flags of the banks of `m` describe the matching `p`. -/
structure Represents (cfg : RemapConfig T) (m : RemappingManager T) (p : Pairing ℕ) : Prop where
  physicalId : ∀ b, (m.bankStat b).physicalId = b
  logicalId : ∀ b, (m.bankStat b).logicalId = p.target b
  remapId : ∀ b, (m.bankStat b).remapId = p.source b
  combined : ∀ b, (m.bankStat b).combined = false ↔ p.Free b
  /-- The two banks of a pair are disabled together. -/
  disabled : ∀ b, (m.bankStat (p.target b)).disabled = (m.bankStat b).disabled
  logicalBank : ∀ b, (m.phyBanks b).logicalBank = b
  target_lt : ∀ b < cfg.totBanks, p.target b < cfg.totBanks
  source_lt : ∀ b < cfg.totBanks, p.source b < cfg.totBanks

/-- A new manager redirects nothing. -/
theorem represents_new (cfg : RemapConfig T) : (new cfg).Represents cfg (Pairing.empty ℕ) where
  physicalId _ := rfl
  logicalId _ := rfl
  remapId _ := rfl
  combined _ := ⟨fun _ => ⟨rfl, rfl⟩, fun _ => rfl⟩
  disabled _ := rfl
  logicalBank _ := rfl
  target_lt _ h := h
  source_lt _ h := h

/-- What `Represents` depends on. -/
theorem Represents.congr {m' : RemappingManager T} (h : m.Represents cfg p)
    (hphysical : ∀ b, (m'.bankStat b).physicalId = (m.bankStat b).physicalId)
    (hlogical : ∀ b, (m'.bankStat b).logicalId = (m.bankStat b).logicalId)
    (hremap : ∀ b, (m'.bankStat b).remapId = (m.bankStat b).remapId)
    (hcombined : ∀ b, (m'.bankStat b).combined = (m.bankStat b).combined)
    (hdisabled : ∀ b, (m'.bankStat (p.target b)).disabled = (m'.bankStat b).disabled)
    (hbank : ∀ b, (m'.phyBanks b).logicalBank = (m.phyBanks b).logicalBank) :
    m'.Represents cfg p where
  physicalId b := (hphysical b).trans (h.physicalId b)
  logicalId b := (hlogical b).trans (h.logicalId b)
  remapId b := (hremap b).trans (h.remapId b)
  combined b := by rw [hcombined, h.combined]
  disabled := hdisabled
  logicalBank b := (hbank b).trans (h.logicalBank b)
  target_lt := h.target_lt
  source_lt := h.source_lt

/-- A change of the records of the physical banks that keeps their logical banks. -/
theorem Represents.updPhy (h : m.Represents cfg p) (b : ℕ) {f : PhyBank T → PhyBank T}
    (hf : ∀ q, (f q).logicalBank = q.logicalBank) : (m.updPhy b f).Represents cfg p :=
  h.congr (fun _ => rfl) (fun _ => rfl) (fun _ => rfl) (fun _ => rfl) h.disabled fun c => by
    rw [updPhy_phyBanks]
    split_ifs with hc
    · rw [hf, hc]
    · rfl

/-- A change of a bank that keeps its ids, and the flags that `Represents` reads. -/
theorem Represents.updBank (h : m.Represents cfg p) (b : ℕ) {f : BankStat → BankStat}
    (hphysical : ∀ q, (f q).physicalId = q.physicalId)
    (hlogical : ∀ q, (f q).logicalId = q.logicalId) (hremap : ∀ q, (f q).remapId = q.remapId)
    (hcombined : ∀ q, (f q).combined = q.combined)
    (hdisabled : ∀ q, (f q).disabled = q.disabled) : (m.updBank b f).Represents cfg p := by
  have hdis : ∀ c, ((m.updBank b f).bankStat c).disabled = (m.bankStat c).disabled := by
    intro c
    rw [updBank_bankStat]
    split_ifs with hc
    · rw [hdisabled, hc]
    · rfl
  -- the fields that the relation mentions are the same at every bank
  refine h.congr ?_ ?_ ?_ ?_ (fun c => by rw [hdis, hdis, h.disabled]) fun _ => rfl
  all_goals
    intro c
    rw [updBank_bankStat]
    split_ifs with hc
  · rw [hphysical, hc]
  · rfl
  · rw [hlogical, hc]
  · rfl
  · rw [hremap, hc]
  · rfl
  · rw [hcombined, hc]
  · rfl

theorem Represents.setValid (h : m.Represents cfg p) (b : ℕ) (valid : Bool) :
    (m.updBank b (.setValid valid)).Represents cfg p :=
  h.updBank b (fun _ => rfl) (fun _ => rfl) (fun _ => rfl) (fun _ => rfl) fun _ => rfl

/-! ## The elementary changes of the table -/

/-- Bank `b` is redirected to bank `t`. -/
def redirect (m : RemappingManager T) (b t : ℕ) : RemappingManager T :=
  (m.updBank b fun bank =>
    { bank with
      logicalId := t
      valid := false
      disabled := false
      combined := true
      invalidateTimes := bank.invalidateTimes + 1 }).updBank t fun bank =>
    { bank with combined := true, remapId := b }

/-- The redirection of bank `b` to bank `t` ends. -/
def separate (m : RemappingManager T) (b t : ℕ) : RemappingManager T :=
  (m.updBank b fun bank =>
    { bank with logicalId := b, physicalId := b, disabled := false, combined := false }).updBank t
    fun bank => { bank with combined := false, remapId := t }

/-- Bank `b` and the bank `s` redirected to it are switched on or off together. -/
def setPairDisabled (m : RemappingManager T) (b s : ℕ) (disabled : Bool) : RemappingManager T :=
  (m.updBank b (.setDisabled disabled)).updBank s (.setDisabled disabled)

/-- The bank to which a bank other than `b` is redirected is not `b`, if `b` is not a target. -/
theorem target_ne_of_source_eq {c : ℕ} (hb : p.source b = b) (hc : c ≠ b) : p.target c ≠ b := by
  intro hcb
  -- otherwise `c` would be the source of `b`
  have hs := p.source_target c fun he => hc (he.symm.trans hcb)
  rw [hcb, hb] at hs
  exact hc hs.symm

theorem Represents.redirect (h : m.Represents cfg p) (hbt : b ≠ t) (hb : p.Free b) (ht : p.Free t)
    (hblt : b < cfg.totBanks) (htlt : t < cfg.totBanks) (hdis : (m.bankStat t).disabled = false) :
    (m.redirect b t).Represents cfg (p.link b t hbt hb ht) where
  physicalId c := by
    simp only [RemappingManager.redirect, updBank_bankStat]
    split_ifs <;> simp_all [h.physicalId]
  logicalId c := by
    simp only [RemappingManager.redirect, updBank_bankStat, Pairing.link_target,
      Function.update_apply]
    split_ifs <;> simp_all [h.logicalId, ht.1]
  remapId c := by
    by_cases hct : c = t
    · simp [RemappingManager.redirect, hct]
    · by_cases hcb : c = b
      · simp [RemappingManager.redirect, hcb, hbt, h.remapId]
      · simp [RemappingManager.redirect, hcb, hct, h.remapId]
  combined c := by
    by_cases hct : c = t
    · simp [RemappingManager.redirect, hct, hbt, Pairing.Free]
    · by_cases hcb : c = b
      · simp [RemappingManager.redirect, hcb, hbt, hbt.symm, Pairing.Free]
      · simp [RemappingManager.redirect, hcb, hct, h.combined, Pairing.Free]
  disabled c := by
    -- the new pair is switched on; no other bank leads to one of the two
    by_cases hcb : c = b
    · simp [RemappingManager.redirect, hcb, hbt, hbt.symm, hdis]
    · by_cases hct : c = t
      · simp [RemappingManager.redirect, hct, hbt.symm, ht.1]
      · have hne := target_ne_of_source_eq hb.2 hcb
        have hne' := target_ne_of_source_eq ht.2 hct
        simp [RemappingManager.redirect, hcb, hct, hne, hne', h.disabled]
  logicalBank := h.logicalBank
  target_lt c hc := by
    rw [Pairing.link_target, Function.update_apply]
    split_ifs
    · exact htlt
    · exact h.target_lt c hc
  source_lt c hc := by
    rw [Pairing.link_source, Function.update_apply]
    split_ifs
    · exact hblt
    · exact h.source_lt c hc

theorem Represents.separate (h : m.Represents cfg p) (hb : p.IsSource b) (ht : p.target b = t)
    (hblt : b < cfg.totBanks) : (m.separate b t).Represents cfg (p.unlink b hb) := by
  have hbs : p.source b = b := hb.source_eq
  have htb : t ≠ b := fun he => hb (ht.trans he)
  have htt : p.target t = t := by rw [← ht, p.target_target]
  refine
    { physicalId := fun c => ?_
      logicalId := fun c => ?_
      remapId := fun c => ?_
      combined := fun c => ?_
      disabled := fun c => ?_
      logicalBank := h.logicalBank
      target_lt := fun c hc => ?_
      source_lt := fun c hc => ?_ }
  · simp only [RemappingManager.separate, updBank_bankStat]
    split_ifs <;> simp_all [h.physicalId]
  · simp only [RemappingManager.separate, updBank_bankStat, Pairing.unlink_target,
      Function.update_apply]
    split_ifs <;> simp_all [h.logicalId]
  · simp only [RemappingManager.separate, updBank_bankStat, Pairing.unlink_source, ht,
      Function.update_apply]
    split_ifs <;> simp_all [h.remapId]
  · simp only [RemappingManager.separate, updBank_bankStat, Pairing.Free, Pairing.unlink_target,
      Pairing.unlink_source, ht, Function.update_apply]
    split_ifs <;> simp_all [h.combined, Pairing.Free]
  · by_cases hcb : c = b
    · simp [RemappingManager.separate, hcb]
    · -- only bank `b` is switched on, and no other bank leads to it
      have hne := target_ne_of_source_eq hbs hcb
      have hdis : ∀ e ≠ b, ((m.separate b t).bankStat e).disabled = (m.bankStat e).disabled := by
        intro e he
        simp only [RemappingManager.separate, updBank_bankStat]
        split_ifs <;> simp_all
      rw [Pairing.unlink_target, Function.update_of_ne hcb, hdis _ hne, hdis _ hcb, h.disabled]
  · rw [Pairing.unlink_target, Function.update_apply]
    split_ifs
    · exact hblt
    · exact h.target_lt c hc
  · rw [Pairing.unlink_source, Function.update_apply]
    split_ifs
    · exact h.target_lt b hblt
    · exact h.source_lt c hc

/-- Switching a free bank on or off. -/
theorem Represents.setDisabled (h : m.Represents cfg p) (hb : p.Free b) (disabled : Bool) :
    (m.updBank b (.setDisabled disabled)).Represents cfg p := by
  refine h.congr ?_ ?_ ?_ ?_ ?_ fun _ => rfl
  all_goals
    intro c
    simp only [updBank_bankStat]
  -- the ids and the combined flag
  iterate 4
    split_ifs with hc
    · rw [hc]
      rfl
    · rfl
  -- the disabled flag
  by_cases hc : c = b
  · simp [hc, hb.1]
  · simp [hc, target_ne_of_source_eq hb.2 hc, h.disabled]

/-- Switching both banks of a pair on or off. -/
theorem Represents.setPairDisabled (h : m.Represents cfg p) (hb : p.IsSource b)
    (ht : p.target b = t) (disabled : Bool) :
    (m.setPairDisabled t b disabled).Represents cfg p := by
  have htt : p.target t = t := by rw [← ht, p.target_target]
  have htb : t ≠ b := fun he => hb (ht.trans he)
  have hbank : ∀ c, (m.setPairDisabled t b disabled).bankStat c =
      if c = b ∨ c = t then (m.bankStat c).setDisabled disabled else m.bankStat c := by
    intro c
    simp only [RemappingManager.setPairDisabled, updBank_bankStat]
    split_ifs <;> simp_all [BankStat.setDisabled]
  refine h.congr ?_ ?_ ?_ ?_ ?_ fun _ => rfl
  all_goals
    intro c
    simp only [hbank]
  -- the ids and the combined flag
  iterate 4
    split_ifs <;> rfl
  -- the disabled flag: a bank outside the pair leads to neither of its banks
  by_cases hcb : c = b
  · simp [hcb, ht, BankStat.setDisabled]
  · by_cases hct : c = t
    · simp [hct, htt, BankStat.setDisabled]
    · have hne := target_ne_of_source_eq hb.source_eq hcb
      have hne' : p.target c ≠ t := by
        intro hc
        rcases Pairing.eq_or_target_of_target_eq (hc.trans ht.symm) with he | he | he
        · exact hcb he
        · exact hne he
        · exact hct (he.symm.trans ht)
      simp [hcb, hct, hne, hne', h.disabled]

/-! ## What the operations on banks do -/

/-- Combining a bank with a free one redirects it there, without a message. -/
theorem combineWith_eq (h : m.Represents cfg p) (hbt : b ≠ t) (ht : p.Free t) :
    m.combineWith b t = m.redirect b t := by
  have hcomb : (m.bankStat t).combined = false := (h.combined t).mpr ht
  have hremap : (m.bankStat t).remapId = (m.bankStat t).physicalId := by
    rw [h.remapId, h.physicalId, ht.2]
  have hlog : (m.bankStat t).logicalId = t := by rw [h.logicalId, ht.1]
  have htb : t ≠ b := hbt.symm
  -- both tests that would print a message fail
  unfold combineWith
  simp only [updBank_bankStat, htb, if_false, hcomb, hremap, hlog, ne_eq, not_true_eq_false,
    Bool.false_eq_true]
  ext1
  · funext c
    by_cases hcb : c = b
    · simp [redirect, hcb, hbt]
    · by_cases hct : c = t
      · simp [redirect, hct, htb, h.physicalId]
      · simp [redirect, hcb, hct]
  all_goals rfl

/-- The record of the physical bank `b` is marked valid. -/
def revalidate (m : RemappingManager T) (b : ℕ) : RemappingManager T :=
  m.updPhy b fun q => { q with valid := true }

theorem Represents.revalidate (h : m.Represents cfg p) (b : ℕ) :
    (m.revalidate b).Represents cfg p := h.updPhy b fun _ => rfl

/-- Without redirections, resetting a bank switches it on. -/
theorem resetBank_of_disable (hn : cfg.nRemap = 0) (h : m.Represents cfg p) :
    m.resetBank cfg b = (m.revalidate b).updBank b (.setDisabled false) := by
  simp [resetBank, hn, revalidate, h.physicalId]

/-- Resetting the source of a pair dissolves the pair, without a message. -/
theorem resetBank_of_isSource (hn : cfg.nRemap = 1) (h : m.Represents cfg p)
    (hb : p.IsSource b) (ht : p.target b = t) :
    m.resetBank cfg b = (m.revalidate b).separate b t := by
  have hbt : b ≠ t := fun he => hb (ht.trans he.symm)
  have hremap : (m.bankStat t).remapId = b := by
    rw [h.remapId, Pairing.source_eq_of_target_eq hb ht]
  -- the branch for `bank_id != log_bank`, whose test of the target's source fails
  unfold resetBank
  simp only [hn, h.logicalId, h.physicalId, ht, one_ne_zero, if_false, if_true, ne_eq, hbt,
    not_false_eq_true, updBank_bankStat, updPhy_bankStat, hbt.symm, hremap, not_true_eq_false]
  ext1
  · funext c
    by_cases hcb : c = b
    · simp [separate, revalidate, hcb, hbt, BankStat.setId, BankStat.setDisabled]
    · by_cases hct : c = t
      · simp [separate, revalidate, hct, hbt.symm, h.physicalId]
      · simp [separate, revalidate, hcb, hct]
  all_goals rfl

/-- Resetting the target of a pair switches both banks on. -/
theorem resetBank_of_isTarget (hn : cfg.nRemap = 1) (h : m.Represents cfg p)
    (hb : p.IsTarget b) :
    m.resetBank cfg b = (m.revalidate b).setPairDisabled b (p.source b) false := by
  have hlog : (m.bankStat b).logicalId = b := by rw [h.logicalId, hb.target_eq]
  have hsb : p.source b ≠ b := hb
  -- the branch for `remap_bank != bank_id`
  unfold resetBank
  simp only [hn, hlog, h.remapId, h.physicalId, one_ne_zero, if_false, if_true, ne_eq,
    not_true_eq_false, hsb, not_false_eq_true]
  ext1
  · funext c
    by_cases hcb : c = b
    · -- the bank already has the ids that it is given
      have hid := BankStat.setId_eq_self hlog (h.physicalId b)
      simp [setPairDisabled, revalidate, hcb, hsb.symm, hid]
    · by_cases hcs : c = p.source b
      · simp [setPairDisabled, revalidate, hcs, hsb]
      · simp [setPairDisabled, revalidate, hcb, hcs]
  all_goals rfl

/-- Resetting a free bank switches it on. -/
theorem resetBank_of_free (hn : cfg.nRemap = 1) (h : m.Represents cfg p) (hb : p.Free b) :
    m.resetBank cfg b = (m.revalidate b).updBank b (.setDisabled false) := by
  have hlog : (m.bankStat b).logicalId = b := by rw [h.logicalId, hb.1]
  have hremap : (m.bankStat b).remapId = b := by rw [h.remapId, hb.2]
  have hid := BankStat.setId_eq_self hlog (h.physicalId b)
  unfold resetBank
  simp only [hn, hlog, hremap, h.physicalId, one_ne_zero, if_false, if_true, ne_eq,
    not_true_eq_false]
  ext1
  · funext c
    by_cases hcb : c = b
    · simp [revalidate, hcb, hid]
    · simp [revalidate, hcb]
  all_goals rfl

end StackedDram.RemappingManager
