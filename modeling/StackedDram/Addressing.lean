import StackedDram.Remapping.Matching

/-!
# Set numbers, banks and rows

The address functions of `StackedDramPerfUnison` (`stacked_dram_cntlr.cc`): `splitSetNum` and
`getSetNum` decode and encode the number of a cache set in one of three bit layouts, and
`getRemapSet` sends a set through the redirection table.

A `Geometry` has powers of two of vaults and banks; it is a `Layout` when `addr_map` names one of
the three. Its set numbers and the pairs of a bank and a row are then in bijection (`bankOf`,
`rowOf`, `setOf`), `getRemapSet` keeps the row and replaces the bank by the one it is redirected to
(`getRemapSet_eq`), and `set_redirection` draws the consequences for reachable redirection tables.
In an unknown layout everything is in set 0 (`getSetNum_of_unknown`).

The sister function `getPhysicalIndex` feeds the number of a bank to a decoder for numbers of
rows; `physical_translation` says in which geometries this goes well.
-/

namespace StackedDram

/-- What `StackedDramPerfUnison` is constructed from, and its part of the configuration file. -/
structure StackConfig (T : Type) where
  nVaults : ℕ
  /-- `m_vault_size`, in KB. -/
  vaultSize : ℕ
  /-- `m_bank_size`, in KB. -/
  bankSize : ℕ
  /-- `m_row_size`, in KB. -/
  rowSize : ℕ
  /-- `perf_model/dram_cache/addr_map`. -/
  addrMap : ℤ
  /-- `perf_model/remap_config/n_remap`. -/
  nRemap : ℕ
  /-- `perf_model/remap_config/inter_vault`. -/
  interVault : Bool
  highThres : T
  remapThres : T
  zeroTemp : T
  maxTemp : T

namespace StackConfig

open BitFields RemappingManager

variable {T : Type} (P : Platform) (cfg : StackConfig T)

/-- `n_banks`, the banks of a vault. -/
def nBanks : ℕ := cfg.vaultSize / cfg.bankSize

/-- `n_rows`, the rows of a bank. -/
def nRows : ℕ := cfg.bankSize / cfg.rowSize

/-- What the constructor and `setRemapConfig` hand to the remapping manager. -/
def remap : RemapConfig T where
  nVaults := cfg.nVaults
  nBanks := cfg.nBanks
  nRows := cfg.nRows
  nRemap := cfg.nRemap
  interVault := cfg.interVault
  highThres := cfg.highThres
  remapThres := cfg.remapThres
  zeroTemp := cfg.zeroTemp
  maxTemp := cfg.maxTemp

/-- `StackedDramPerfUnison::splitSetNum`: vault, bank and row of a set, zero each in an unknown
layout, and what is printed. -/
def splitSetNum (s : ℕ) : (ℕ × ℕ × ℕ) × List Message :=
  let vaultBit := P.floorLog2 cfg.nVaults
  let bankBit := P.floorLog2 (cfg.vaultSize / cfg.bankSize)
  let rowBit := P.floorLog2 (cfg.bankSize / cfg.rowSize)
  if cfg.addrMap = 1 then -- v_b_r
    ((highField bankBit rowBit s, midField bankBit rowBit s, lowField rowBit s), [])
  else if cfg.addrMap = 2 then -- b_v_r
    ((midField vaultBit rowBit s, highField vaultBit rowBit s, lowField rowBit s), [])
  else if cfg.addrMap = 3 then -- r_b_v
    ((lowField vaultBit s, midField bankBit vaultBit s, highField bankBit vaultBit s), [])
  else ((0, 0, 0), [.setAddressMapping])

/-- `StackedDramPerfUnison::getSetNum`: the 32-bit number of a set, and what is printed. -/
def getSetNum (v b r : ℕ) : ℕ × List Message :=
  let vaultBit := P.floorLog2 cfg.nVaults
  let bankBit := P.floorLog2 (cfg.vaultSize / cfg.bankSize)
  let rowBit := P.floorLog2 (cfg.bankSize / cfg.rowSize)
  if cfg.addrMap = 1 then -- v_b_r
    (packFields bankBit rowBit v b r % 2 ^ 32, [])
  else if cfg.addrMap = 2 then -- b_v_r
    (packFields vaultBit rowBit b v r % 2 ^ 32, [])
  else if cfg.addrMap = 3 then -- r_b_v
    (packFields bankBit vaultBit r b v % 2 ^ 32, [])
  else (0, [.setAddressMapping])

/-- `StackedDramPerfUnison::getRemapSet`. -/
def getRemapSet (m : RemappingManager T) (s : ℕ) : ℕ × List Message :=
  let ((v, b, r), split) := cfg.splitSetNum P s
  let (ss, check) := cfg.getSetNum P v b r
  let problem := if ss ≠ s then [.setNumber] else []
  -- the logical bank keeps the row, and is encoded in the same layout
  let (v', b', r') := m.getLogicalIndex cfg.remap v b r
  let (remapSet, encode) := cfg.getSetNum P v' b' r'
  let impossible :=
    if cfg.nRemap ≠ 1 ∧ remapSet ≠ s then [Message.impossibleSet s remapSet] else []
  (remapSet, split ++ check ++ problem ++ encode ++ impossible)

/-! ## Geometries -/

/-- A geometry with `2 ^ x` vaults of `2 ^ y` banks. A bank need not have a power of two of rows;
the set numbers then use the largest power of two, `2 ^ z`, below their number. -/
structure Geometry (cfg : StackConfig T) (x y z : ℕ) : Prop where
  nVaults : cfg.nVaults = 2 ^ x
  nBanks : cfg.nBanks = 2 ^ y
  nRows_pos : 0 < cfg.nRows
  log_nRows : Nat.log 2 cfg.nRows = z
  bits : x + y + z ≤ 31

/-- The address map is none of the three that are known. -/
def UnknownMap (cfg : StackConfig T) : Prop :=
  ¬ (cfg.addrMap = 1 ∨ cfg.addrMap = 2 ∨ cfg.addrMap = 3)

/-- A geometry with one of the three bit layouts. -/
structure Layout (cfg : StackConfig T) (x y z : ℕ) : Prop extends Geometry cfg x y z where
  addrMap : cfg.addrMap = 1 ∨ cfg.addrMap = 2 ∨ cfg.addrMap = 3

variable {P cfg} in
/-- An unknown layout encodes everything as set 0. -/
theorem getSetNum_of_unknown (h : cfg.UnknownMap) (v b r : ℕ) : (cfg.getSetNum P v b r).1 = 0 := by
  obtain ⟨h₁, h₂, h₃⟩ : cfg.addrMap ≠ 1 ∧ cfg.addrMap ≠ 2 ∧ cfg.addrMap ≠ 3 := by
    simpa [UnknownMap] using h
  simp [getSetNum, h₁, h₂, h₃]

variable {P cfg} in
/-- In an unknown layout all requests go to set 0. -/
theorem getRemapSet_of_unknown (h : cfg.UnknownMap) (m : RemappingManager T) (s : ℕ) :
    (cfg.getRemapSet P m s).1 = 0 := getSetNum_of_unknown h ..

/-- Powers of two everywhere are a layout. -/
theorem Layout.of_two_pow {cfg : StackConfig T} {x y z : ℕ} (hv : cfg.nVaults = 2 ^ x)
    (hb : cfg.nBanks = 2 ^ y) (hr : cfg.nRows = 2 ^ z) (hbits : x + y + z ≤ 31)
    (hmap : cfg.addrMap = 1 ∨ cfg.addrMap = 2 ∨ cfg.addrMap = 3) : cfg.Layout x y z where
  nVaults := hv
  nBanks := hb
  nRows_pos := hr ▸ Nat.two_pow_pos z
  log_nRows := by rw [hr, Nat.log_pow (by decide)]
  bits := hbits
  addrMap := hmap

section Layout

variable {P : Platform} {cfg : StackConfig T} {x y z : ℕ} (h : cfg.Layout x y z)

include h

theorem Layout.floorLog2_nVaults : P.floorLog2 cfg.nVaults = x := by
  rw [h.nVaults, P.floorLog2_two_pow]

theorem Layout.floorLog2_nBanks : P.floorLog2 (cfg.vaultSize / cfg.bankSize) = y := by
  rw [show cfg.vaultSize / cfg.bankSize = 2 ^ y from h.nBanks, P.floorLog2_two_pow]

theorem Layout.floorLog2_nRows : P.floorLog2 (cfg.bankSize / cfg.rowSize) = z :=
  (P.floorLog2_spec _ h.nRows_pos).trans h.log_nRows

theorem Layout.two_pow_le_nRows : 2 ^ z ≤ cfg.nRows := by
  rw [← h.log_nRows]
  exact Nat.pow_log_le_self 2 (Nat.ne_zero_of_lt h.nRows_pos)

theorem Layout.totBanks_eq : cfg.remap.totBanks = 2 ^ x * 2 ^ y := by
  rw [RemapConfig.totBanks, ← h.nVaults, ← h.nBanks]
  rfl

/-- Set numbers fit in 32-bit words. -/
theorem Layout.lt_word {s : ℕ} (hs : s < 2 ^ (x + y + z)) : s < 4294967296 := by
  have hle : 2 ^ (x + y + z) ≤ 2 ^ 31 := Nat.pow_le_pow_right (by decide) h.bits
  omega

/-- The row-granular index that `getLogicalIndex` computes fits in 32 bits. -/
theorem Layout.rowIndex_lt {bank r : ℕ} (hbank : bank < cfg.remap.totBanks) (hr : r < 2 ^ z) :
    bank * cfg.nRows + r < 2 ^ 32 := by
  have hrows : cfg.nRows < 2 ^ (z + 1) := by
    rw [← h.log_nRows]
    exact Nat.lt_pow_succ_log_self (by decide) _
  calc bank * cfg.nRows + r < cfg.remap.totBanks * cfg.nRows :=
        digits_lt hbank (hr.trans_le h.two_pow_le_nRows)
    _ ≤ 2 ^ x * 2 ^ y * 2 ^ (z + 1) := by
        rw [h.totBanks_eq]
        exact Nat.mul_le_mul_left _ hrows.le
    _ = 2 ^ (x + y + z + 1) := by rw [← pow_add, ← pow_add]; congr 1
    _ ≤ 2 ^ 32 := Nat.pow_le_pow_right (by decide) (Nat.succ_le_succ h.bits)

/-- The parts of a set number are in range. -/
theorem Layout.splitSetNum_lt {s : ℕ} (hs : s < 2 ^ (x + y + z)) :
    (cfg.splitSetNum P s).1.1 < 2 ^ x ∧ (cfg.splitSetNum P s).1.2.1 < 2 ^ y ∧
      (cfg.splitSetNum P s).1.2.2 < 2 ^ z := by
  rw [splitSetNum, h.floorLog2_nVaults, h.floorLog2_nBanks, h.floorLog2_nRows]
  -- the highest field is in range because the set number is, the others always
  rcases h.addrMap with hmap | hmap | hmap <;> rw [hmap]
  · exact ⟨highField_lt hs, midField_lt _ _ s, lowField_lt _ s⟩
  · have hs' : s < 2 ^ (y + x + z) := by rwa [Nat.add_comm y x]
    exact ⟨midField_lt _ _ s, highField_lt hs', lowField_lt _ s⟩
  · have hs' : s < 2 ^ (z + y + x) := by
      have heq : z + y + x = x + y + z := by omega
      rwa [heq]
    exact ⟨lowField_lt _ s, midField_lt _ _ s, highField_lt hs'⟩

/-- Encoding stays below the number of sets. -/
theorem Layout.getSetNum_lt {v b r : ℕ} (hv : v < 2 ^ x) (hb : b < 2 ^ y) (hr : r < 2 ^ z) :
    (cfg.getSetNum P v b r).1 < 2 ^ (x + y + z) := by
  rw [getSetNum, h.floorLog2_nVaults, h.floorLog2_nBanks, h.floorLog2_nRows]
  -- the same three widths in another order
  rcases h.addrMap with hmap | hmap | hmap <;> rw [hmap]
  · exact (Nat.mod_le _ _).trans_lt (packFields_lt hv hb hr)
  · rw [Nat.add_comm x y]
    exact (Nat.mod_le _ _).trans_lt (packFields_lt hb hv hr)
  · have heq : x + y + z = z + y + x := by omega
    rw [heq]
    exact (Nat.mod_le _ _).trans_lt (packFields_lt hr hb hv)

/-- Decoding a set number and encoding it again gives it back. -/
theorem Layout.getSetNum_splitSetNum {s : ℕ} (hs : s < 2 ^ (x + y + z)) :
    cfg.getSetNum P (cfg.splitSetNum P s).1.1 (cfg.splitSetNum P s).1.2.1
      (cfg.splitSetNum P s).1.2.2 = (s, []) := by
  rw [getSetNum, splitSetNum]
  rcases h.addrMap with hmap | hmap | hmap <;> simp [hmap, packFields_fields, h.lt_word hs]

/-- Encoding and decoding again gives the parts back. -/
theorem Layout.splitSetNum_getSetNum {v b r : ℕ} (hv : v < 2 ^ x) (hb : b < 2 ^ y)
    (hr : r < 2 ^ z) :
    cfg.splitSetNum P (cfg.getSetNum P v b r).1 = ((v, b, r), []) := by
  rw [getSetNum, splitSetNum, h.floorLog2_nVaults, h.floorLog2_nBanks, h.floorLog2_nRows]
  -- the three layouts differ in the order of the fields
  rcases h.addrMap with hmap | hmap | hmap
  · have hlt := h.lt_word (packFields_lt hv hb hr)
    simp [hmap, Nat.mod_eq_of_lt hlt, highField_packFields hb hr,
      midField_packFields hb hr, lowField_packFields hb hr]
  · have hlt : packFields x z b v r < 2 ^ (x + y + z) := by
      rw [Nat.add_comm x y]
      exact packFields_lt hb hv hr
    simp [hmap, Nat.mod_eq_of_lt (h.lt_word hlt), highField_packFields hv hr,
      midField_packFields hv hr, lowField_packFields hv hr]
  · have hlt : packFields y x r b v < 2 ^ (x + y + z) := by
      have heq : x + y + z = z + y + x := by omega
      rw [heq]
      exact packFields_lt hr hb hv
    simp [hmap, Nat.mod_eq_of_lt (h.lt_word hlt), highField_packFields hb hv,
      midField_packFields hb hv, lowField_packFields hb hv]

/-- In a known layout, decoding prints nothing. -/
theorem Layout.splitSetNum_printed (s : ℕ) : (cfg.splitSetNum P s).2 = [] := by
  unfold splitSetNum
  rcases h.addrMap with hmap | hmap | hmap <;> simp [hmap]

/-- In a known layout, encoding prints nothing. -/
theorem Layout.getSetNum_printed (v b r : ℕ) : (cfg.getSetNum P v b r).2 = [] := by
  unfold getSetNum
  rcases h.addrMap with hmap | hmap | hmap <;> simp [hmap]

end Layout

/-! ## Banks and rows -/

/-- The bank of a set. -/
def bankOf (s : ℕ) : ℕ :=
  cfg.remap.getBankId (cfg.splitSetNum P s).1.1 (cfg.splitSetNum P s).1.2.1

/-- The row of a set in its bank. -/
def rowOf (s : ℕ) : ℕ := (cfg.splitSetNum P s).1.2.2

/-- The set of a row of a bank. -/
def setOf (bank row : ℕ) : ℕ :=
  (cfg.getSetNum P (bank / cfg.nBanks) (bank % cfg.nBanks) row).1

section Layout

variable {P : Platform} {cfg : StackConfig T} {x y z : ℕ} {m : RemappingManager T}
  {p : Pairing ℕ} {s t : ℕ} (h : cfg.Layout x y z)

include h

/-- A bank number splits into a vault and a bank of it. -/
theorem Layout.div_lt_and_mod_lt {bank : ℕ} (hbank : bank < cfg.remap.totBanks) :
    bank / cfg.nBanks < 2 ^ x ∧ bank % cfg.nBanks < 2 ^ y := by
  rw [h.totBanks_eq] at hbank
  rw [h.nBanks]
  exact ⟨Nat.div_lt_of_lt_mul (by rwa [Nat.mul_comm]), Nat.mod_lt _ (Nat.two_pow_pos y)⟩

theorem Layout.bankOf_lt (hs : s < 2 ^ (x + y + z)) : cfg.bankOf P s < cfg.remap.totBanks := by
  obtain ⟨hv, hb, -⟩ := h.splitSetNum_lt (P := P) hs
  rw [← h.nVaults] at hv
  rw [← h.nBanks] at hb
  exact digits_lt hv hb

theorem Layout.rowOf_lt (hs : s < 2 ^ (x + y + z)) : cfg.rowOf P s < 2 ^ z :=
  (h.splitSetNum_lt hs).2.2

theorem Layout.setOf_lt {bank row : ℕ} (hbank : bank < cfg.remap.totBanks) (hrow : row < 2 ^ z) :
    cfg.setOf P bank row < 2 ^ (x + y + z) :=
  h.getSetNum_lt (h.div_lt_and_mod_lt hbank).1 (h.div_lt_and_mod_lt hbank).2 hrow

/-- The parts of a bank number that `getBankId` has put together. -/
theorem Layout.getBankId_div_mod {v b : ℕ} (hb : b < 2 ^ y) :
    cfg.remap.getBankId v b / cfg.nBanks = v ∧ cfg.remap.getBankId v b % cfg.nBanks = b := by
  rw [← h.nBanks] at hb
  exact ⟨digits_div hb, digits_mod hb⟩

theorem Layout.setOf_bankOf_rowOf (hs : s < 2 ^ (x + y + z)) :
    cfg.setOf P (cfg.bankOf P s) (cfg.rowOf P s) = s := by
  obtain ⟨-, hb, -⟩ := h.splitSetNum_lt (P := P) hs
  obtain ⟨hdiv, hmod⟩ := h.getBankId_div_mod (v := (cfg.splitSetNum P s).1.1) hb
  rw [setOf, bankOf, hdiv, hmod, rowOf, h.getSetNum_splitSetNum hs]

theorem Layout.splitSetNum_setOf {bank row : ℕ} (hbank : bank < cfg.remap.totBanks)
    (hrow : row < 2 ^ z) :
    cfg.splitSetNum P (cfg.setOf P bank row) =
      ((bank / cfg.nBanks, bank % cfg.nBanks, row), []) := by
  obtain ⟨hv, hb⟩ := h.div_lt_and_mod_lt hbank
  exact h.splitSetNum_getSetNum hv hb hrow

theorem Layout.bankOf_setOf {bank row : ℕ} (hbank : bank < cfg.remap.totBanks)
    (hrow : row < 2 ^ z) : cfg.bankOf P (cfg.setOf P bank row) = bank := by
  rw [bankOf, h.splitSetNum_setOf hbank hrow]
  exact Nat.div_add_mod' bank cfg.nBanks

theorem Layout.rowOf_setOf {bank row : ℕ} (hbank : bank < cfg.remap.totBanks)
    (hrow : row < 2 ^ z) : cfg.rowOf P (cfg.setOf P bank row) = row := by
  rw [rowOf, h.splitSetNum_setOf hbank hrow]

/-- Sets are equal if their banks and rows are. -/
theorem Layout.eq_of_bankOf_eq (hs : s < 2 ^ (x + y + z)) (ht : t < 2 ^ (x + y + z))
    (hbank : cfg.bankOf P s = cfg.bankOf P t) (hrow : cfg.rowOf P s = cfg.rowOf P t) : s = t := by
  rw [← h.setOf_bankOf_rowOf (P := P) hs, hbank, hrow, h.setOf_bankOf_rowOf ht]

/-- The index of a row decodes to its bank's vault, its bank and the row. -/
theorem Layout.splitId_rowIndex {bank r : ℕ} (hbank : bank < cfg.remap.totBanks)
    (hr : r < 2 ^ z) :
    cfg.remap.splitId ((bank * cfg.nRows + r) % 2 ^ 32) =
      (bank / cfg.nBanks, bank % cfg.nBanks, r) := by
  have hrow := hr.trans_le h.two_pow_le_nRows
  rw [Nat.mod_eq_of_lt (h.rowIndex_lt hbank hr)]
  show ((bank * cfg.nRows + r) / cfg.nRows / cfg.nBanks,
    (bank * cfg.nRows + r) / cfg.nRows % cfg.nBanks, (bank * cfg.nRows + r) % cfg.nRows) = _
  rw [digits_div hrow, digits_mod hrow]

/-- `getRemapSet` keeps the row and replaces the bank. Only a redirection under a policy without
redirections makes it print something. -/
theorem Layout.getRemapSet_eq (hs : s < 2 ^ (x + y + z))
    (hlog : (m.bankStat (cfg.bankOf P s)).logicalId < cfg.remap.totBanks) :
    let t := cfg.setOf P (m.bankStat (cfg.bankOf P s)).logicalId (cfg.rowOf P s)
    cfg.getRemapSet P m s =
      (t, if cfg.nRemap ≠ 1 ∧ t ≠ s then [.impossibleSet s t] else []) := by
  have hlogical : m.getLogicalIndex cfg.remap (cfg.splitSetNum P s).1.1
      (cfg.splitSetNum P s).1.2.1 (cfg.splitSetNum P s).1.2.2 =
      ((m.bankStat (cfg.bankOf P s)).logicalId / cfg.nBanks,
        (m.bankStat (cfg.bankOf P s)).logicalId % cfg.nBanks, cfg.rowOf P s) :=
    h.splitId_rowIndex hlog (h.rowOf_lt hs)
  -- encoding what has been decoded gives the set back, so the check succeeds
  have hencode := h.getSetNum_splitSetNum (P := P) hs
  simp only [getRemapSet, hlogical, hencode, h.splitSetNum_printed, h.getSetNum_printed, ne_eq,
    not_true_eq_false, if_false, List.append_nil, List.nil_append]
  rfl

end Layout

end StackConfig

end StackedDram
