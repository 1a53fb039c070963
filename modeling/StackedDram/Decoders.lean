import Mathlib.Data.List.Perm.Lattice
import StackedDram.Runs

/-!
# The decoders of set numbers

`splitSetNum` and `getSetNum` are inverse to each other. Encoding what has been decoded gives back
every 32-bit number, as the highest field is not masked; the other direction is about the numbers in
range. So the loops of `checkRemapping` visit every set once (`set_number_codec`).

The same numbers are decoded in two more places. The statistics of `ProcessRequest` use the layout
`b_v_r` with the widths of the geometry, and the constructor of the controller takes the five bits
from bit 12 on. With 32 vaults, all three agree on all sets if and only if a bank has 4096 rows and
the layout is `b_v_r`, or `v_b_r` with one bank to a vault (`decoders_agree_iff`).
-/

namespace StackedDram

open BitFields

namespace StackConfig

variable {T : Type} {P : Platform} {cfg : StackConfig T} {x y z : ℕ}

/-- One of the three bit layouts, with fields that fit in 32 bits. -/
structure FieldsFit (P : Platform) (cfg : StackConfig T) : Prop where
  bits : P.floorLog2 cfg.nVaults + P.floorLog2 cfg.nBanks + P.floorLog2 cfg.nRows < 32
  addrMap : cfg.addrMap = 1 ∨ cfg.addrMap = 2 ∨ cfg.addrMap = 3

/-- Encoding what has been decoded gives the number back. -/
theorem FieldsFit.getSetNum_splitSetNum (h : cfg.FieldsFit P) {s : ℕ} (hs : s < 2 ^ 32) :
    (cfg.getSetNum P (cfg.splitSetNum P s).1.1 (cfg.splitSetNum P s).1.2.1
      (cfg.splitSetNum P s).1.2.2).1 = s := by
  rw [getSetNum, splitSetNum]
  rcases h.addrMap with hmap | hmap | hmap <;> rw [hmap]
  · exact (congrArg (· % 2 ^ 32) (packFields_fields _ _ s)).trans (Nat.mod_eq_of_lt hs)
  · exact (congrArg (· % 2 ^ 32) (packFields_fields _ _ s)).trans (Nat.mod_eq_of_lt hs)
  · exact (congrArg (· % 2 ^ 32) (packFields_fields _ _ s)).trans (Nat.mod_eq_of_lt hs)

/-- The parts of a set number in the layout `v_b_r`. -/
theorem Layout.splitSetNum_vbr (h : cfg.Layout x y z) (hmap : cfg.addrMap = 1) (s : ℕ) :
    (cfg.splitSetNum P s).1 = (s / 2 ^ z / 2 ^ y, s / 2 ^ z % 2 ^ y, s % 2 ^ z) := by
  rw [splitSetNum, if_pos hmap, h.floorLog2_nBanks, h.floorLog2_nRows]
  dsimp only
  rw [highField_eq, midField_eq, lowField_eq]

/-- The parts of a set number in the layout `b_v_r`. -/
theorem Layout.splitSetNum_bvr (h : cfg.Layout x y z) (hmap : cfg.addrMap = 2) (s : ℕ) :
    (cfg.splitSetNum P s).1 = (s / 2 ^ z % 2 ^ x, s / 2 ^ z / 2 ^ x, s % 2 ^ z) := by
  have hmap₁ : cfg.addrMap ≠ 1 := by rw [hmap]; decide
  rw [splitSetNum, if_neg hmap₁, if_pos hmap, h.floorLog2_nVaults, h.floorLog2_nRows]
  dsimp only
  rw [highField_eq, midField_eq, lowField_eq]

/-- The parts of a set number in the layout `r_b_v`. -/
theorem Layout.splitSetNum_rbv (h : cfg.Layout x y z) (hmap : cfg.addrMap = 3) (s : ℕ) :
    (cfg.splitSetNum P s).1 = (s % 2 ^ x, s / 2 ^ x % 2 ^ y, s / 2 ^ x / 2 ^ y) := by
  have hmap₁ : cfg.addrMap ≠ 1 := by rw [hmap]; decide
  have hmap₂ : cfg.addrMap ≠ 2 := by rw [hmap]; decide
  rw [splitSetNum, if_neg hmap₁, if_neg hmap₂, if_pos hmap, h.floorLog2_nVaults,
    h.floorLog2_nBanks]
  dsimp only
  rw [highField_eq, midField_eq, lowField_eq]

end StackConfig

namespace StackDramCacheCntlrUnison

variable {T δ : Type} {A : ℕ} {P : Platform} {cfg : CntlrConfig T} {x y z : ℕ}

/-! ## The loops of `checkRemapping` -/

/-- The loops visit no row twice. -/
theorem nodup_rowsInOrder (P : Platform) (cfg : CntlrConfig T) : (rowsInOrder P cfg).Nodup := by
  have heq : rowsInOrder P cfg = List.range cfg.nVaults ×ˢ
      (List.range (1 <<< P.floorLog2 (cfg.vaultSize / cfg.bankSize)) ×ˢ
        List.range (1 <<< P.floorLog2 (cfg.bankSize / cfg.rowSize))) := by
    simp only [rowsInOrder, SProd.sprod, List.product, List.map_flatMap, List.map_map]
    rfl
  rw [heq]
  exact List.nodup_range.product (List.nodup_range.product List.nodup_range)

/-- Different rows have different sets. -/
theorem rowSet_injOn (h : cfg.Layout x y z) {row row' : ℕ × ℕ × ℕ}
    (hrow : row ∈ rowsInOrder P cfg) (hrow' : row' ∈ rowsInOrder P cfg)
    (heq : rowSet P cfg row = rowSet P cfg row') : row = row' := by
  obtain ⟨hv, hb, hr⟩ := (mem_rowsInOrder_iff_of_layout h).mp hrow
  obtain ⟨hv', hb', hr'⟩ := (mem_rowsInOrder_iff_of_layout h).mp hrow'
  -- a row is what its set number is decoded to
  have hsplit := h.splitSetNum_getSetNum (P := P) hv hb hr
  have hsplit' := h.splitSetNum_getSetNum (P := P) hv' hb' hr'
  rw [show (cfg.getSetNum P row.1 row.2.1 row.2.2).1 =
    (cfg.getSetNum P row'.1 row'.2.1 row'.2.2).1 from heq, hsplit'] at hsplit
  exact (congrArg Prod.fst hsplit).symm

/-- The sets of the rows are the numbers below the number of sets, each once. -/
theorem rowsInOrder_map_rowSet_perm (h : cfg.Layout x y z) :
    ((rowsInOrder P cfg).map (rowSet P cfg)).Perm (List.range (2 ^ (x + y + z))) := by
  refine (List.perm_ext_iff_of_nodup ?_ List.nodup_range).mpr fun s => ?_
  · exact List.Nodup.map_on (fun _ hrow _ hrow' heq => rowSet_injOn h hrow hrow' heq)
      (nodup_rowsInOrder P cfg)
  · rw [List.mem_map, List.mem_range]
    constructor
    · rintro ⟨row, hrow, rfl⟩
      obtain ⟨hv, hb, hr⟩ := (mem_rowsInOrder_iff_of_layout h).mp hrow
      exact h.getSetNum_lt hv hb hr
    · intro hs
      -- the row of a set is what its number is decoded to
      refine ⟨(cfg.splitSetNum P s).1,
        (mem_rowsInOrder_iff_of_layout h).mpr (h.splitSetNum_lt hs), ?_⟩
      rw [rowSet, h.getSetNum_splitSetNum hs]

/-- In a layout that fits, encoding what has been decoded gives back every 32-bit number. If all
dimensions are powers of two, decoding what has been encoded gives back all parts in range, encoding
is a bijection between these and the numbers below the number of sets, and the loops of
`checkRemapping` visit each of these sets exactly once. -/
theorem set_number_codec (P : Platform) (cfg : CntlrConfig T) (h : cfg.FieldsFit P) :
    (∀ s < 2 ^ 32, (cfg.getSetNum P (cfg.splitSetNum P s).1.1 (cfg.splitSetNum P s).1.2.1
      (cfg.splitSetNum P s).1.2.2).1 = s) ∧
    ((∃ x y z, cfg.nVaults = 2 ^ x ∧ cfg.nBanks = 2 ^ y ∧ cfg.nRows = 2 ^ z) →
      let inRange := {row : ℕ × ℕ × ℕ |
        row.1 < cfg.nVaults ∧ row.2.1 < cfg.nBanks ∧ row.2.2 < cfg.nRows}
      let N := cfg.nVaults * cfg.nBanks * cfg.nRows
      (∀ row ∈ inRange, (cfg.splitSetNum P (rowSet P cfg row)).1 = row) ∧
      Set.BijOn (rowSet P cfg) inRange (Set.Iio N) ∧
      ((rowsInOrder P cfg).map (rowSet P cfg)).Perm (List.range N)) := by
  refine ⟨fun s hs => h.getSetNum_splitSetNum hs, ?_⟩
  rintro ⟨x, y, z, hv, hb, hr⟩ inRange N
  have hbits := h.bits
  rw [hv, hb, hr, P.floorLog2_two_pow, P.floorLog2_two_pow, P.floorLog2_two_pow] at hbits
  have hlayout : cfg.Layout x y z := .of_two_pow hv hb hr (by omega) h.addrMap
  have hN : N = 2 ^ (x + y + z) := by
    rw [pow_add, pow_add, ← hv, ← hb, ← hr]
  -- the loops run over the parts in range, so the list of their sets decides the bijection
  have hmem : ∀ row, row ∈ inRange ↔ row ∈ rowsInOrder P cfg := by
    intro row
    rw [mem_rowsInOrder_iff_of_layout hlayout, ← hv, ← hb, ← hr]
    rfl
  have hperm := rowsInOrder_map_rowSet_perm (P := P) hlayout
  rw [← hN] at hperm
  refine ⟨fun row hrow => ?_, ⟨fun row hrow => ?_, fun row hrow row' hrow' heq => ?_,
    fun s hs => ?_⟩, hperm⟩
  · obtain ⟨hv', hb', hr'⟩ := (mem_rowsInOrder_iff_of_layout hlayout).mp ((hmem row).mp hrow)
    rw [rowSet, hlayout.splitSetNum_getSetNum hv' hb' hr']
  · exact List.mem_range.mp (hperm.mem_iff.mp (List.mem_map_of_mem ((hmem row).mp hrow)))
  · exact rowSet_injOn hlayout ((hmem row).mp hrow) ((hmem row').mp hrow') heq
  · obtain ⟨row, hrow, heq⟩ := List.mem_map.mp (hperm.mem_iff.mpr (List.mem_range.mpr hs))
    exact ⟨row, (hmem row).mpr hrow, heq⟩

/-- The small stack: row 1 of bank 0 of vault 1 is in set 3, and every set is visited once. -/
theorem set_number_codec_small :
    (CntlrConfig.small.splitSetNum .x86 (rowSet .x86 CntlrConfig.small (1, 0, 1))).1 = (1, 0, 1) ∧
      ((rowsInOrder .x86 CntlrConfig.small).map (rowSet .x86 CntlrConfig.small)).Perm
        (List.range 8) := by
  have h := set_number_codec .x86 CntlrConfig.small ⟨by decide, Or.inr (Or.inl rfl)⟩
  have hpow := h.2 ⟨1, 1, 1, rfl, rfl, rfl⟩
  exact ⟨hpow.1 (1, 0, 1) ⟨by decide, by decide, by decide⟩, hpow.2.2⟩

/-! ## Three decoders -/

/-- The vault whose statistics `ProcessRequest` updates for the set `s`. -/
def statsVault (P : Platform) (cfg : CntlrConfig T) (s : ℕ) : ℕ :=
  let vaultBit := P.floorLog2 cfg.nVaults
  let rowBit := P.floorLog2 (cfg.bankSize / cfg.rowSize)
  midField vaultBit rowBit s

/-- `bank_i` of `ProcessRequest`, which it computes for the statistics and does not use. -/
def statsBank (P : Platform) (cfg : CntlrConfig T) (s : ℕ) : ℕ :=
  let vaultBit := P.floorLog2 cfg.nVaults
  let bankBit := P.floorLog2 (cfg.vaultSize / cfg.bankSize)
  let rowBit := P.floorLog2 (cfg.bankSize / cfg.rowSize)
  s >>> rowBit >>> vaultBit &&& (2 ^ bankBit - 1)

/-- The three decoders agree on the set `s`: the statistics that an access changes are those of its
vault, `bank_i` is its bank, and the constructor has recorded its vault. -/
structure DecodersAgree (P : Platform) (cfg : CntlrConfig T) (A : ℕ) (d : δ) (s : ℕ) : Prop where
  stats : ∀ (c : StackDramCacheCntlrUnison T δ A) (q : Request) (result : AccessResult) (v : ℕ),
    (c.countAccess P cfg q s result).dramStats v ≠ c.dramStats v ↔ v = (cfg.splitSetNum P s).1.1
  bank : statsBank P cfg s = (cfg.splitSetNum P s).1.2.1
  nVault : ((new P cfg d : StackDramCacheCntlrUnison T δ A).sets s).nVault =
    (cfg.splitSetNum P s).1.1

/-- An access changes the statistics of a single vault. -/
theorem countAccess_dramStats_ne_iff (c : StackDramCacheCntlrUnison T δ A) (q : Request)
    (result : AccessResult) (s v : ℕ) :
    (c.countAccess P cfg q s result).dramStats v ≠ c.dramStats v ↔ v = statsVault P cfg s := by
  by_cases hv : v = statsVault P cfg s
  · subst hv
    refine iff_of_true (fun heq => ?_) rfl
    -- the number of reads or that of writes has grown
    have hsum := congrArg (fun stats => stats.reads + stats.writes) heq
    rw [countAccess] at hsum
    split at hsum <;> simp [statsVault] at hsum
  · have hne : v ≠ midField (P.floorLog2 cfg.nVaults)
        (P.floorLog2 (cfg.bankSize / cfg.rowSize)) s := hv
    rw [countAccess]
    split <;> simp [hne, hv]

theorem decodersAgree_iff {d : δ} {s : ℕ} :
    DecodersAgree P cfg A d s ↔
      statsVault P cfg s = (cfg.splitSetNum P s).1.1 ∧
        statsBank P cfg s = (cfg.splitSetNum P s).1.2.1 ∧
        s >>> 12 &&& (2 ^ 5 - 1) = (cfg.splitSetNum P s).1.1 := by
  constructor
  · intro h
    refine ⟨?_, h.bank, h.nVault⟩
    exact (h.stats (new P cfg d) (.block .read 0) .hit _).mp
      ((countAccess_dramStats_ne_iff ..).mpr rfl)
  · rintro ⟨hvault, hbank, hn⟩
    refine ⟨fun c q result v => ?_, hbank, hn⟩
    rw [countAccess_dramStats_ne_iff, hvault]

/-- The decoders as digits. -/
theorem decodersAgree_iff_digits (h : cfg.Layout 5 y z) {d : δ} {s : ℕ} :
    DecodersAgree P cfg A d s ↔
      s / 2 ^ z % 2 ^ 5 = (cfg.splitSetNum P s).1.1 ∧
        s / 2 ^ z / 2 ^ 5 % 2 ^ y = (cfg.splitSetNum P s).1.2.1 ∧
        s / 2 ^ 12 % 2 ^ 5 = (cfg.splitSetNum P s).1.1 := by
  have hvault : statsVault P cfg s = s / 2 ^ z % 2 ^ 5 := by
    rw [statsVault, h.floorLog2_nVaults, h.floorLog2_nRows, midField_eq]
  have hbank : statsBank P cfg s = s / 2 ^ z / 2 ^ 5 % 2 ^ y := by
    rw [statsBank, h.floorLog2_nVaults, h.floorLog2_nBanks, h.floorLog2_nRows,
      Nat.and_two_pow_sub_one_eq_mod, Nat.shiftRight_eq_div_pow, Nat.shiftRight_eq_div_pow]
  rw [decodersAgree_iff, hvault, hbank, Nat.and_two_pow_sub_one_eq_mod, Nat.shiftRight_eq_div_pow]

/-- The vault field of the statistics is that of the constructor only if it starts at bit 12. -/
theorem eq_twelve_of_digits (h : ∀ s < 2 ^ (5 + y + z), s / 2 ^ z % 2 ^ 5 = s / 2 ^ 12 % 2 ^ 5) :
    z = 12 := by
  have hlt : 2 ^ z < 2 ^ (5 + y + z) := Nat.pow_lt_pow_right (by decide) (by omega)
  rcases Nat.lt_trichotomy z 12 with hz | hz | hz
  · -- the first set of vault 1 in the layout of the statistics
    have hset := h (2 ^ z) hlt
    rw [Nat.div_self (Nat.two_pow_pos z),
      Nat.div_eq_of_lt (Nat.pow_lt_pow_right (by decide) hz)] at hset
    exact absurd hset (by decide)
  · exact hz
  · -- the first set of vault 1 for the constructor
    have hpow : 2 ^ 12 < 2 ^ z := Nat.pow_lt_pow_right (by decide) hz
    have hset := h (2 ^ 12) (hpow.trans hlt)
    rw [Nat.div_eq_of_lt hpow] at hset
    exact absurd hset (by decide)

/-- In the layout `b_v_r` with rows of 12 bits, all decoders agree. -/
theorem decodersAgree_bvr (h : cfg.Layout 5 y 12) (hmap : cfg.addrMap = 2) (d : δ) {s : ℕ}
    (hs : s < 2 ^ (5 + y + 12)) : DecodersAgree P cfg A d s := by
  have hlt : s / 2 ^ 12 / 2 ^ 5 < 2 ^ y := by
    rw [← highField_eq]
    exact highField_lt (by rwa [Nat.add_comm y 5])
  rw [decodersAgree_iff_digits h, h.splitSetNum_bvr hmap]
  exact ⟨rfl, Nat.mod_eq_of_lt hlt, rfl⟩

/-- In the layout `v_b_r` with one bank and rows of 12 bits, all decoders agree. -/
theorem decodersAgree_vbr (h : cfg.Layout 5 0 12) (hmap : cfg.addrMap = 1) (d : δ) {s : ℕ}
    (hs : s < 2 ^ (5 + 0 + 12)) : DecodersAgree P cfg A d s := by
  have hlt : s / 2 ^ 12 / 2 ^ 0 < 2 ^ 5 := by
    rw [← highField_eq]
    exact highField_lt hs
  rw [decodersAgree_iff_digits h, h.splitSetNum_vbr hmap]
  dsimp only
  rw [pow_zero, Nat.div_one] at *
  rw [Nat.mod_eq_of_lt hlt, Nat.mod_one, Nat.mod_one]
  exact ⟨rfl, rfl, rfl⟩

/-- In the layout `v_b_r`, the statistics have the vault of the first row of bank 1 right only if
there is no such bank. -/
theorem eq_zero_of_agree_vbr (h : cfg.Layout 5 y z) (hmap : cfg.addrMap = 1) {d : δ}
    (hagree : ∀ s < 2 ^ (5 + y + z), DecodersAgree P cfg A d s) : y = 0 := by
  have hlt : 2 ^ z < 2 ^ (5 + y + z) := Nat.pow_lt_pow_right (by decide) (by omega)
  have hset := ((decodersAgree_iff_digits h).mp (hagree (2 ^ z) hlt)).1
  rw [h.splitSetNum_vbr hmap, Nat.div_self (Nat.two_pow_pos z)] at hset
  by_contra hne
  have hdiv : 1 / 2 ^ y = 0 := Nat.div_eq_of_lt (Nat.one_lt_two_pow hne)
  exact absurd (hset.trans hdiv) (by decide)

/-- In the layout `r_b_v`, the constructor has the vault of set 1 wrong. -/
theorem not_agree_rbv (h : cfg.Layout 5 y z) (hmap : cfg.addrMap = 3) {d : δ} :
    ¬ DecodersAgree P cfg A d 1 := by
  intro hagree
  have hset := ((decodersAgree_iff_digits h).mp hagree).2.2
  rw [h.splitSetNum_rbv hmap] at hset
  have hvault : 1 / 2 ^ 12 % 2 ^ 5 = 1 % 2 ^ 5 := hset
  exact absurd hvault (by decide)

/-- With 32 vaults, the three decoders agree on all sets if and only if a bank has 4096 rows, and
the layout is `b_v_r`, or `v_b_r` with a single bank to a vault. -/
theorem decoders_agree_iff (hv : cfg.nVaults = 32) (hb : cfg.nBanks = 2 ^ y)
    (hr : cfg.nRows = 2 ^ z) (hbits : 5 + y + z ≤ 31)
    (hmap : cfg.addrMap = 1 ∨ cfg.addrMap = 2 ∨ cfg.addrMap = 3) (P : Platform) (A : ℕ) (d : δ) :
    (∀ s < cfg.nVaults * cfg.nBanks * cfg.nRows, DecodersAgree P cfg A d s) ↔
      cfg.nRows = 4096 ∧ (cfg.addrMap = 2 ∨ cfg.addrMap = 1 ∧ cfg.nBanks = 1) := by
  have h : cfg.Layout 5 y z := .of_two_pow hv hb hr hbits hmap
  have hN : cfg.nVaults * cfg.nBanks * cfg.nRows = 2 ^ (5 + y + z) := by
    rw [hv, hb, hr, pow_add, pow_add]
    rfl
  rw [hN, hr, hb]
  constructor
  · intro hagree
    -- the statistics and the constructor have the vault field in one place
    have hz : z = 12 := eq_twelve_of_digits fun s hs =>
      have hset := (decodersAgree_iff_digits h).mp (hagree s hs)
      hset.1.trans hset.2.2.symm
    refine ⟨by rw [hz]; rfl, ?_⟩
    rcases hmap with hmap | hmap | hmap
    · exact Or.inr ⟨hmap, by rw [eq_zero_of_agree_vbr h hmap hagree, pow_zero]⟩
    · exact Or.inl hmap
    · exact absurd (hagree 1 (Nat.one_lt_two_pow (by omega))) (not_agree_rbv h hmap)
  · rintro ⟨hrows, hlayout⟩ s hs
    have hz : z = 12 := Nat.pow_right_injective le_rfl hrows
    subst hz
    rcases hlayout with hmap | ⟨hmap, hbank⟩
    · exact decodersAgree_bvr h hmap d hs
    · have hy : y = 0 := Nat.pow_right_injective le_rfl (hbank.trans (pow_zero 2).symm)
      subst hy
      exact decodersAgree_vbr h hmap d hs

/-- A cache of 1 GB, otherwise as the one of 2 MB. -/
def oneGigabyte : CntlrConfig ℕ :=
  { CntlrConfig.twoMegabytes with vaultSize := 32768, bankSize := 4096, setNum := 131072 }

/-- The layout of the configuration file has none of the geometries in which the decoders agree. -/
theorem decoders_agree_iff_oneGigabyte :
    ¬ ∀ s < 131072, DecodersAgree .x86 oneGigabyte 4 () s := by
  have hvaults : oneGigabyte.nVaults = 32 := rfl
  have h := decoders_agree_iff (y := 3) (z := 9) hvaults rfl rfl (by decide)
    (Or.inr (Or.inr rfl)) .x86 4 ()
  exact fun hagree => absurd (h.mp hagree).1 (by decide)

/-- Set 1 is in vault 1, but the statistics of its accesses are those of vault 0, and vault 0 is
recorded for it. -/
theorem not_decoders_agree :
    (oneGigabyte.splitSetNum .x86 1).1.1 = 1 ∧ statsVault .x86 oneGigabyte 1 = 0 ∧
      ((new .x86 oneGigabyte () : StackDramCacheCntlrUnison ℕ Unit 4).sets 1).nVault = 0 ∧
      ¬ ∀ s < oneGigabyte.nVaults * oneGigabyte.nBanks * oneGigabyte.nRows,
        DecodersAgree .x86 oneGigabyte 4 () s := by
  have hlayout : oneGigabyte.Layout 5 3 9 :=
    .of_two_pow rfl rfl rfl (by decide) (Or.inr (Or.inr rfl))
  refine ⟨?_, ?_, rfl, fun hagree => not_agree_rbv hlayout rfl (hagree 1 (by decide))⟩
  · rw [hlayout.splitSetNum_rbv rfl]
    rfl
  · rw [statsVault, hlayout.floorLog2_nVaults, hlayout.floorLog2_nRows, midField_eq]
    decide

end StackDramCacheCntlrUnison

end StackedDram
