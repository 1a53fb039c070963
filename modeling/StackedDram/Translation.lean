import StackedDram.Addressing

/-!
# Addresses and the redirection table

`getRemapSet` on reachable tables (`set_redirection`): it keeps the row, replaces the bank by the
bank it is redirected to, is idempotent, and identifies no two sets but those of equal rows of the
source and the target of a pair.

`getPhysicalIndex` (`physical_translation`): the number of the physical bank is decoded as if it
were the number of a row, without the multiplication by `n_rows` that `getLogicalIndex` makes
first. The translation is right only when a bank has one row, apart from row 0 of the banks whose
physical bank is bank 0.
-/

namespace StackedDram

open BitFields RemappingManager

variable {T : Type} {P : Platform} {cfg : StackConfig T} {x y z : ℕ} {m : RemappingManager T}
  {s t : ℕ}

/-! ## The table of a consistent manager -/

theorem RemappingManager.Consistent.logicalId_lt {cfg : RemapConfig T} {b : ℕ}
    (h : m.Consistent cfg) (hb : b < cfg.totBanks) : (m.bankStat b).logicalId < cfg.totBanks := by
  obtain ⟨p, hp, -⟩ := h
  rw [hp.logicalId]
  exact hp.target_lt b hb

theorem RemappingManager.Consistent.logicalId_logicalId {cfg : RemapConfig T} {b : ℕ}
    (h : m.Consistent cfg) :
    (m.bankStat (m.bankStat b).logicalId).logicalId = (m.bankStat b).logicalId := by
  obtain ⟨p, hp, -⟩ := h
  rw [hp.logicalId, hp.logicalId, p.target_target]

theorem RemappingManager.Consistent.disabled_logicalId {cfg : RemapConfig T} {b : ℕ}
    (h : m.Consistent cfg) :
    (m.bankStat (m.bankStat b).logicalId).disabled = (m.bankStat b).disabled := by
  obtain ⟨p, hp, -⟩ := h
  rw [hp.logicalId, hp.disabled]

/-- Without redirections every bank is its own logical bank. -/
theorem RemappingManager.Consistent.logicalId_eq {cfg : RemapConfig T} {b : ℕ}
    (h : m.Consistent cfg) (hn : cfg.nRemap ≠ 1) : (m.bankStat b).logicalId = b := by
  obtain ⟨p, hp, hempty⟩ := h
  rw [hp.logicalId, hempty hn]
  rfl

/-- The bank `a` is redirected to the bank `b`, and `b` leads back to it. -/
def RemappingManager.RedirectedTo (m : RemappingManager T) (a b : ℕ) : Prop :=
  a ≠ b ∧ (m.bankStat a).logicalId = b ∧ (m.bankStat b).remapId = a

/-- Banks with the same logical bank are equal or form a pair. -/
theorem RemappingManager.Consistent.redirectedTo_of_logicalId_eq {cfg : RemapConfig T} {a b : ℕ}
    (h : m.Consistent cfg) (hne : a ≠ b)
    (heq : (m.bankStat a).logicalId = (m.bankStat b).logicalId) :
    m.RedirectedTo a b ∨ m.RedirectedTo b a := by
  obtain ⟨p, hp, -⟩ := h
  unfold RedirectedTo
  rw [hp.logicalId, hp.logicalId] at heq
  simp only [hp.logicalId, hp.remapId]
  rcases Pairing.eq_or_target_of_target_eq heq with hab | hab | hba
  · exact absurd hab hne
  · have hs : p.IsSource a := fun he => hne (he.symm.trans hab)
    exact Or.inl ⟨hne, hab, Pairing.source_eq_of_target_eq hs hab⟩
  · have hs : p.IsSource b := fun he => hne (hba.symm.trans he)
    exact Or.inr ⟨hne.symm, hba, Pairing.source_eq_of_target_eq hs hba⟩

/-! ## Set redirection -/

namespace StackConfig

/-- The image of a set in the terms of banks and rows; nothing is printed. -/
theorem Layout.getRemapSet_of_consistent (h : cfg.Layout x y z) (hm : m.Consistent cfg.remap)
    (hs : s < 2 ^ (x + y + z)) :
    cfg.getRemapSet P m s =
      (cfg.setOf P (m.bankStat (cfg.bankOf P s)).logicalId (cfg.rowOf P s), []) := by
  rw [h.getRemapSet_eq hs (hm.logicalId_lt (h.bankOf_lt hs)), if_neg]
  -- a policy without redirections leaves the set where it is
  rintro ⟨hn, hne⟩
  rw [hm.logicalId_eq hn] at hne
  exact hne (h.setOf_bankOf_rowOf hs)

theorem Layout.getRemapSet_lt (h : cfg.Layout x y z) (hm : m.Consistent cfg.remap)
    (hs : s < 2 ^ (x + y + z)) : (cfg.getRemapSet P m s).1 < 2 ^ (x + y + z) := by
  rw [h.getRemapSet_of_consistent hm hs]
  exact h.setOf_lt (hm.logicalId_lt (h.bankOf_lt hs)) (h.rowOf_lt hs)

theorem Layout.bankOf_getRemapSet (h : cfg.Layout x y z) (hm : m.Consistent cfg.remap)
    (hs : s < 2 ^ (x + y + z)) :
    cfg.bankOf P (cfg.getRemapSet P m s).1 = (m.bankStat (cfg.bankOf P s)).logicalId := by
  rw [h.getRemapSet_of_consistent hm hs]
  exact h.bankOf_setOf (hm.logicalId_lt (h.bankOf_lt hs)) (h.rowOf_lt hs)

theorem Layout.rowOf_getRemapSet (h : cfg.Layout x y z) (hm : m.Consistent cfg.remap)
    (hs : s < 2 ^ (x + y + z)) : cfg.rowOf P (cfg.getRemapSet P m s).1 = cfg.rowOf P s := by
  rw [h.getRemapSet_of_consistent hm hs]
  exact h.rowOf_setOf (hm.logicalId_lt (h.bankOf_lt hs)) (h.rowOf_lt hs)

/-- A set is the image of `s` exactly if it lies in the same row of the logical bank. -/
theorem Layout.eq_getRemapSet_iff (h : cfg.Layout x y z) (hm : m.Consistent cfg.remap)
    (hs : s < 2 ^ (x + y + z)) (ht : t < 2 ^ (x + y + z)) :
    t = (cfg.getRemapSet P m s).1 ↔
      cfg.bankOf P t = (m.bankStat (cfg.bankOf P s)).logicalId ∧
        cfg.rowOf P t = cfg.rowOf P s := by
  constructor
  · rintro rfl
    exact ⟨h.bankOf_getRemapSet hm hs, h.rowOf_getRemapSet hm hs⟩
  · rintro ⟨hbank, hrow⟩
    refine h.eq_of_bankOf_eq (P := P) ht (h.getRemapSet_lt hm hs) ?_ ?_
    · rw [hbank, h.bankOf_getRemapSet hm hs]
    · rw [hrow, h.rowOf_getRemapSet hm hs]

/-- Set redirection is exact, for every reachable redirection table. -/
theorem set_redirection [LinearOrder T] (hv : cfg.nVaults = 2 ^ x) (hb : cfg.nBanks = 2 ^ y)
    (hr : cfg.nRows = 2 ^ z) (hbits : x + y + z ≤ 31)
    (hmap : cfg.addrMap = 1 ∨ cfg.addrMap = 2 ∨ cfg.addrMap = 3)
    (hm : (machine cfg.remap).Reachable m) (hs : s < 2 ^ (x + y + z)) :
    let image := fun s => (cfg.getRemapSet P m s).1
    (cfg.bankOf P (image s) = (m.bankStat (cfg.bankOf P s)).logicalId ∧
      cfg.rowOf P (image s) = cfg.rowOf P s) ∧
    image s < 2 ^ (x + y + z) ∧
    image (image s) = image s ∧
    (∀ t < 2 ^ (x + y + z), t ≠ s → image t = image s →
      cfg.rowOf P t = cfg.rowOf P s ∧
        (m.RedirectedTo (cfg.bankOf P t) (cfg.bankOf P s) ∨
          m.RedirectedTo (cfg.bankOf P s) (cfg.bankOf P t))) ∧
    (cfg.nRemap = 0 → image s = s) ∧
    (cfg.getRemapSet P m s).2 = [] := by
  have h := Layout.of_two_pow hv hb hr hbits hmap
  have hcons := consistent_of_reachable hm
  have hlt := h.getRemapSet_lt (P := P) hcons hs
  have hbank := h.bankOf_getRemapSet (P := P) hcons hs
  have hrow := h.rowOf_getRemapSet (P := P) hcons hs
  refine ⟨⟨hbank, hrow⟩, hlt, ?_, fun t ht hne heq => ?_, fun hn => ?_, ?_⟩
  · refine ((h.eq_getRemapSet_iff hcons hlt hlt).mpr ⟨?_, rfl⟩).symm
    rw [hbank, hcons.logicalId_logicalId]
  · -- equal images lie in one row, and their banks have one logical bank
    obtain ⟨hbank', hrow'⟩ := (h.eq_getRemapSet_iff (P := P) hcons hs
      (h.getRemapSet_lt hcons ht)).mp heq
    rw [h.bankOf_getRemapSet hcons ht] at hbank'
    rw [h.rowOf_getRemapSet hcons ht] at hrow'
    refine ⟨hrow', hcons.redirectedTo_of_logicalId_eq (fun hsame => ?_) hbank'⟩
    exact hne (h.eq_of_bankOf_eq ht hs hsame hrow')
  · have hid : (m.bankStat (cfg.bankOf P s)).logicalId = cfg.bankOf P s :=
      hcons.logicalId_eq (by rw [show cfg.remap.nRemap = 0 from hn]; decide)
    exact ((h.eq_getRemapSet_iff hcons hs hs).mpr ⟨hid.symm, rfl⟩).symm
  · rw [h.getRemapSet_of_consistent hcons hs]

/-- A stack of two vaults, each with two banks of two rows, addressed by bank, vault and row. -/
def small : StackConfig ℕ where
  nVaults := 2
  vaultSize := 32
  bankSize := 16
  rowSize := 8
  addrMap := 2
  nRemap := 1
  interVault := true
  highThres := 85
  remapThres := 75
  zeroTemp := 0
  maxTemp := 1000

/-- Bank 0 has been redirected to bank 1, which in this layout holds the sets 4 and 5. -/
theorem set_redirection_small :
    let m := (machine small.remap).run
      [.updateTemperature (0 : Fin 2) (0 : Fin 2) 90, .runMechanism]
    let image := fun s => (small.getRemapSet .x86 m s).1
    image 1 = 5 ∧ (small.bankOf .x86 (image 1) = (m.bankStat (small.bankOf .x86 1)).logicalId ∧
      small.rowOf .x86 (image 1) = small.rowOf .x86 1) ∧
    image 1 < 2 ^ (1 + 1 + 1) ∧ image (image 1) = image 1 ∧
    (∀ t < 2 ^ (1 + 1 + 1), t ≠ 1 → image t = image 1 →
      small.rowOf .x86 t = small.rowOf .x86 1 ∧
        (m.RedirectedTo (small.bankOf .x86 t) (small.bankOf .x86 1) ∨
          m.RedirectedTo (small.bankOf .x86 1) (small.bankOf .x86 t))) ∧
    (small.nRemap = 0 → image 1 = 1) ∧ (small.getRemapSet .x86 m 1).2 = [] := by
  have hv : small.nVaults = 2 ^ 1 := by decide
  have hb : small.nBanks = 2 ^ 1 := by decide
  have hr : small.nRows = 2 ^ 1 := by decide
  have hmap : small.addrMap = 1 ∨ small.addrMap = 2 ∨ small.addrMap = 3 := by decide
  exact ⟨by decide,
    set_redirection hv hb hr (by decide) hmap (Machine.reachable_run _) (by decide)⟩

end StackConfig

/-! ## Physical translation -/

namespace RemappingManager

/-- The translation of `(v, b, r)` names the physical bank of bank `b` of vault `v`, and row `r`
of it. -/
def Kept (cfg : RemapConfig T) (m : RemappingManager T) (v b r : ℕ) : Prop :=
  let (v', b', r') := m.getPhysicalIndex cfg v b
  v' * cfg.nBanks + b' = (m.bankStat (cfg.getBankId v b)).physicalId ∧ b' < cfg.nBanks ∧ r' = r

/-- The bank and row numbers that belong to the geometry. -/
def InGeometry (cfg : RemapConfig T) (v b r : ℕ) : Prop :=
  v < cfg.nVaults ∧ b < cfg.nBanks ∧ r < cfg.nRows

/-- The physical ids of the banks are pairwise distinct. -/
def PhysicalIdsDistinct (cfg : RemapConfig T) (m : RemappingManager T) : Prop :=
  ∀ i < cfg.totBanks, ∀ j < cfg.totBanks,
    (m.bankStat i).physicalId = (m.bankStat j).physicalId → i = j

variable {cfg : RemapConfig T} {v b r : ℕ}

/-- A single translation is right exactly if a bank has one row, or it concerns row 0 and
physical bank 0. -/
theorem kept_iff (hb : b < cfg.nBanks) (hr : r < cfg.nRows) :
    m.Kept cfg v b r ↔
      cfg.nRows = 1 ∨ ((m.bankStat (cfg.getBankId v b)).physicalId = 0 ∧ r = 0) := by
  have hpos : 0 < cfg.nBanks := Nat.zero_lt_of_lt hb
  simp only [Kept, getPhysicalIndex, RemapConfig.splitId, Nat.div_add_mod', Nat.div_eq_self]
  -- dividing the physical id by the number of rows keeps it only if it is zero or that is one
  constructor
  · rintro ⟨hzero | hone, -, hrow⟩
    · rw [hzero, Nat.zero_mod] at hrow
      exact Or.inr ⟨hzero, hrow.symm⟩
    · exact Or.inl hone
  · rintro (hone | ⟨hzero, rfl⟩)
    · rw [hone] at hr
      refine ⟨Or.inr hone, Nat.mod_lt _ hpos, ?_⟩
      rw [hone, Nat.mod_one]
      omega
    · exact ⟨Or.inl hzero, Nat.mod_lt _ hpos, by rw [hzero, Nat.zero_mod]⟩

/-- The translation ignores the row, so it separates the rows of a geometry with a bank only if
there is one row to a bank. -/
theorem injective_iff (hv : 1 ≤ cfg.nVaults) (hb : 1 ≤ cfg.nBanks) (hr : 1 ≤ cfg.nRows)
    (hdistinct : m.PhysicalIdsDistinct cfg) :
    (∀ v b r v' b' r', InGeometry cfg v b r → InGeometry cfg v' b' r' →
      m.getPhysicalIndex cfg v b = m.getPhysicalIndex cfg v' b' → (v, b, r) = (v', b', r')) ↔
      cfg.nRows = 1 := by
  constructor
  · intro hinj
    -- otherwise the rows 0 and 1 of bank 0 have one image
    by_contra hne
    have heq := hinj 0 0 0 0 0 1 ⟨hv, hb, hr⟩ ⟨hv, hb, by omega⟩ rfl
    simp at heq
  · rintro hone v b r v' b' r' ⟨hv, hb, hr⟩ ⟨hv', hb', hr'⟩ heq
    simp only [getPhysicalIndex, RemapConfig.splitId, hone, Nat.div_one, Nat.mod_one,
      Prod.mk.injEq, and_true] at heq
    obtain ⟨hdiv, hmod⟩ := heq
    have hphys : (m.bankStat (cfg.getBankId v b)).physicalId =
        (m.bankStat (cfg.getBankId v' b')).physicalId := by
      rw [← Nat.div_add_mod' (m.bankStat (cfg.getBankId v b)).physicalId cfg.nBanks, hdiv, hmod,
        Nat.div_add_mod']
    have hid := hdistinct _ (digits_lt hv hb) _ (digits_lt hv' hb') hphys
    obtain ⟨rfl, rfl⟩ := digits_inj hb hb' hid
    have hrr : r = r' := by omega
    rw [hrr]

/-- When the physical translation is right: for a single row of a bank, and for the geometry as a
whole when the physical ids are pairwise distinct. -/
theorem physical_translation (cfg : RemapConfig T) (m : RemappingManager T) (hb : 1 ≤ cfg.nBanks)
    (hr : 1 ≤ cfg.nRows) :
    (∀ v b r, InGeometry cfg v b r → (m.Kept cfg v b r ↔
      cfg.nRows = 1 ∨ ((m.bankStat (cfg.getBankId v b)).physicalId = 0 ∧ r = 0))) ∧
    (1 ≤ cfg.nVaults → m.PhysicalIdsDistinct cfg →
      ((∀ v b r v' b' r', InGeometry cfg v b r → InGeometry cfg v' b' r' →
        m.getPhysicalIndex cfg v b = m.getPhysicalIndex cfg v' b' →
          (v, b, r) = (v', b', r')) ↔ cfg.nRows = 1)) :=
  ⟨fun _ _ _ hgeo => kept_iff hgeo.2.1 hgeo.2.2,
    fun hv hdistinct => injective_iff hv hb hr hdistinct⟩

/-- The geometry that the controller constructs for a cache of 2 GB: 32 vaults of 8 banks, 1024
rows to a bank. -/
def twoGigabytes : RemapConfig ℕ where
  nVaults := 32
  nBanks := 8
  nRows := 1024
  nRemap := 1
  interVault := true
  highThres := 85
  remapThres := 75
  zeroTemp := 0
  maxTemp := 1000

/-- In a new manager with 1024 rows to a bank, rows 5 and 6 of bank 1 of vault 0 are both sent to
row 1 of bank 0. -/
theorem not_kept_twoGigabytes :
    InGeometry twoGigabytes 0 1 5 ∧ ¬ (new twoGigabytes).Kept twoGigabytes 0 1 5 ∧
      (new twoGigabytes).getPhysicalIndex twoGigabytes 0 1 = (0, 0, 1) ∧
      (new twoGigabytes).PhysicalIdsDistinct twoGigabytes ∧
      ¬ ∀ v b r v' b' r', InGeometry twoGigabytes v b r → InGeometry twoGigabytes v' b' r' →
        (new twoGigabytes).getPhysicalIndex twoGigabytes v b =
          (new twoGigabytes).getPhysicalIndex twoGigabytes v' b' → (v, b, r) = (v', b', r') := by
  have hgeo : ∀ r < 1024, InGeometry twoGigabytes 0 1 r := fun r hr => ⟨by decide, by decide, hr⟩
  refine ⟨hgeo 5 (by decide), ?_, by decide, fun i _ j _ hij => hij, fun hinj => ?_⟩
  · rintro ⟨hbank, -⟩
    exact absurd hbank (by decide)
  · have heq := hinj 0 1 5 0 1 6 (hgeo 5 (by decide)) (hgeo 6 (by decide)) rfl
    simp at heq

theorem physical_translation_twoGigabytes :
    (∀ v b r, InGeometry twoGigabytes v b r → ((new twoGigabytes).Kept twoGigabytes v b r ↔
      twoGigabytes.nRows = 1 ∨
        (((new twoGigabytes).bankStat (twoGigabytes.getBankId v b)).physicalId = 0 ∧ r = 0))) ∧
    (1 ≤ twoGigabytes.nVaults → (new twoGigabytes).PhysicalIdsDistinct twoGigabytes →
      ((∀ v b r v' b' r', InGeometry twoGigabytes v b r → InGeometry twoGigabytes v' b' r' →
        (new twoGigabytes).getPhysicalIndex twoGigabytes v b =
          (new twoGigabytes).getPhysicalIndex twoGigabytes v' b' →
            (v, b, r) = (v', b', r')) ↔ twoGigabytes.nRows = 1)) :=
  physical_translation twoGigabytes (new twoGigabytes) (by decide) (by decide)

end RemappingManager

end StackedDram
