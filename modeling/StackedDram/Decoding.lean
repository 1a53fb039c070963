import StackedDram.Library.BitFields
import StackedDram.Library.FirstTouch
import StackedDram.Tables

/-!
# Address decoding

`translateAddress` numbers the virtual pages of a run in the order in which requests first touch
them. As long as there are fewer than `2 ^ 32` of them, the physical address of a request is a
function of its address and of the pages of the run alone (`translateAddress_run`), whatever else
happens and whenever the request arrives. So no two addresses are ever confused; and since a cache
page consists of whole blocks, the page tag and the block number of a request tell which 64-byte
line it is for (`address_decoding`).
-/

namespace StackedDram.StackDramCacheCntlrUnison

open FirstTouch

variable {T δ : Type} {A : ℕ} {P : Platform} {M : DramModel δ} {cfg : CntlrConfig T} {d : δ}
  {q q₁ q₂ : Request} {c : StackDramCacheCntlrUnison T δ A} {l : List ℕ} {a a₁ a₂ : ℕ}

/-! ## Physical addresses -/

/-- The address with its page replaced by the number of the page in the history `l`. -/
def physical (l : List ℕ) (a : ℕ) : ℕ := number l (a >>> 12) * 2 ^ 12 + a % 2 ^ 12

theorem physical_mod (l : List ℕ) (a : ℕ) : physical l a % 2 ^ 12 = a % 2 ^ 12 :=
  BitFields.digits_mod (Nat.mod_lt _ (Nat.two_pow_pos 12))

theorem physical_div (l : List ℕ) (a : ℕ) : physical l a / 2 ^ 12 = number l (a >>> 12) :=
  BitFields.digits_div (Nat.mod_lt _ (Nat.two_pow_pos 12))

/-- Pages are told apart by their numbers. -/
theorem physical_div_inj (ha₁ : a₁ >>> 12 ∈ l) (a₂ : ℕ) :
    physical l a₁ / 2 ^ 12 = physical l a₂ / 2 ^ 12 ↔ a₁ / 2 ^ 12 = a₂ / 2 ^ 12 := by
  rw [physical_div, physical_div, number_inj ha₁, Nat.shiftRight_eq_div_pow,
    Nat.shiftRight_eq_div_pow]

theorem physical_inj (ha₁ : a₁ >>> 12 ∈ l) : physical l a₁ = physical l a₂ ↔ a₁ = a₂ := by
  have hpage := physical_div_inj ha₁ a₂
  have hoffset₁ := physical_mod l a₁
  have hoffset₂ := physical_mod l a₂
  omega

/-- Two physical addresses are in the same block if and only if the virtual ones are, as blocks do
not straddle pages. -/
theorem physical_div_block (ha₁ : a₁ >>> 12 ∈ l) :
    physical l a₁ / 64 = physical l a₂ / 64 ↔ a₁ / 64 = a₂ / 64 := by
  have hpage := physical_div_inj ha₁ a₂
  have hoffset₁ := physical_mod l a₁
  have hoffset₂ := physical_mod l a₂
  omega

/-- A page number of 32 bits and an offset of 12 bits, side by side. -/
theorem join_page_offset {n : ℕ} (hn : n < 2 ^ 32) (a : ℕ) :
    (n <<< 12 ||| a &&& (2 ^ 12 - 1)) % 2 ^ 64 = n * 2 ^ 12 + a % 2 ^ 12 := by
  have hoffset : a % 2 ^ 12 < 2 ^ 12 := Nat.mod_lt _ (Nat.two_pow_pos 12)
  rw [Nat.and_two_pow_sub_one_eq_mod, ← Nat.shiftLeft_add_eq_or_of_lt hoffset, Nat.shiftLeft_eq,
    Nat.mod_eq_of_lt (by omega)]

/-- The translation of an address when the page table is that of the pages `l`. -/
theorem tracks_translateAddress (h : Tracks l c.pageTable c.availPhyPageTag)
    (hpages : (l ++ [a >>> 12]).toFinset.card < 2 ^ 32) :
    Tracks (l ++ [a >>> 12]) (c.translateAddress a).1.pageTable
        (c.translateAddress a).1.availPhyPageTag ∧
      (c.translateAddress a).2 = physical (l ++ [a >>> 12]) a := by
  have hmem : a >>> 12 ∈ l ++ [a >>> 12] := by simp
  have hnumber := (number_lt hmem).trans hpages
  unfold translateAddress physical
  by_cases ha : a >>> 12 ∈ l
  · rw [number_append ha] at hnumber ⊢
    simp only [h.entry _ ha]
    exact ⟨h.seen ha, join_page_offset hnumber a⟩
  · -- the counter does not wrap, as the new page is among fewer than `2 ^ 32`
    have hcard : (l ++ [a >>> 12]).toFinset.card = l.toFinset.card + 1 := by simp [ha]
    rw [number_concat_self ha] at hnumber ⊢
    simp only [h.no_entry _ ha]
    rw [h.next_eq, Nat.mod_eq_of_lt (hcard ▸ hpages)]
    exact ⟨h.next_eq ▸ h.fresh ha, join_page_offset hnumber a⟩

/-! ## Runs -/

/-- The virtual page that an action makes the controller translate. -/
def Action.page : Action cfg → Option ℕ
  | .processRequest q => some (q.address >>> 12)
  | _ => none

/-- The virtual pages of the requests of a run, in their order. -/
def pagesOf (as : List (Action cfg)) : List ℕ := as.filterMap Action.page

theorem pagesOf_append (as bs : List (Action cfg)) :
    pagesOf (as ++ bs) = pagesOf as ++ pagesOf bs :=
  List.filterMap_append

theorem card_pagesOf_le (as bs : List (Action cfg)) :
    (pagesOf as).toFinset.card ≤ (pagesOf (as ++ bs)).toFinset.card := by
  rw [pagesOf_append, List.toFinset_append]
  exact Finset.card_le_card Finset.subset_union_left

variable [LinearOrder T] [NeZero A]

/-- An action translates the address of its request, if it is one. -/
theorem tracks_step (h : Tracks l c.pageTable c.availPhyPageTag) (a : Action cfg)
    (hpages : (l ++ a.page.toList).toFinset.card < 2 ^ 32) :
    Tracks (l ++ a.page.toList) (c.step P M cfg a).pageTable
      (c.step P M cfg a).availPhyPageTag := by
  rcases a.isManagement_or with ha | ⟨q, rfl⟩
  · have htables := tables_of_isManagement (c := c) P M ha
    have hpage : a.page = none := by
      cases a with
      | processRequest => exact ha.elim
      | storeTemperature | updateTemperature | tryRemapping => rfl
    rw [hpage, Option.toList_none, List.append_nil, htables.pageTable, htables.availPhyPageTag]
    exact h
  · -- after the translation, the request leaves the page table alone
    have htables := tables_processRequest P M cfg q c
    show Tracks _ (c.processRequest P M cfg q).1.pageTable
      (c.processRequest P M cfg q).1.availPhyPageTag
    rw [htables.pageTable, htables.availPhyPageTag]
    exact (tracks_translateAddress h hpages).1

/-- At every point of a run, the page table is that of the pages requested so far. -/
theorem tracks_run (P : Platform) (M : DramModel δ) (d : δ) (as : List (Action cfg))
    (hpages : (pagesOf as).toFinset.card < 2 ^ 32) :
    let c : StackDramCacheCntlrUnison T δ A := (machine P M cfg d).run as
    Tracks (pagesOf as) c.pageTable c.availPhyPageTag := by
  induction as using List.reverseRecOn with
  | nil => exact tracks_nil
  | append_singleton as a ih =>
    have hbefore := ih ((card_pagesOf_le as [a]).trans_lt hpages)
    have hpage : pagesOf (as ++ [a]) = pagesOf as ++ a.page.toList := by
      rw [pagesOf_append]
      cases a <;> rfl
    dsimp only at hbefore ⊢
    rw [hpage] at hpages ⊢
    rw [Machine.run_concat]
    exact tracks_step hbefore a hpages

/-- The physical address of a request is determined by its address and the pages of the run. -/
theorem translateAddress_run {as before after : List (Action cfg)}
    (hpages : (pagesOf as).toFinset.card < 2 ^ 32)
    (heq : as = before ++ .processRequest q :: after) :
    (((machine P M cfg d).run before : StackDramCacheCntlrUnison T δ A).translateAddress
      q.address).2 = physical (pagesOf as) q.address := by
  have hsplit : pagesOf as = pagesOf before ++ [q.address >>> 12] ++ pagesOf after := by
    rw [heq, pagesOf_append, List.append_assoc]
    rfl
  -- the pages up to this request are among those of the whole run
  have hcard : (pagesOf before ++ [q.address >>> 12]).toFinset.card < 2 ^ 32 := by
    refine lt_of_le_of_lt (Finset.card_le_card fun page hpage => ?_) hpages
    rw [List.mem_toFinset] at hpage ⊢
    rw [hsplit]
    exact List.mem_append_left _ hpage
  have hbefore : (pagesOf before).toFinset.card < 2 ^ 32 := by
    rw [heq] at hpages
    exact (card_pagesOf_le before _).trans_lt hpages
  have hmem : q.address >>> 12 ∈ pagesOf before ++ [q.address >>> 12] := by simp
  -- later pages do not change the number of this one
  rw [(tracks_translateAddress (tracks_run P M d before hbefore) hcard).2, physical, physical,
    hsplit, number_append hmem (pagesOf after)]

omit [LinearOrder T] in
theorem mem_pagesOf {as before after : List (Action cfg)}
    (heq : as = before ++ .processRequest q :: after) : q.address >>> 12 ∈ pagesOf as := by
  rw [heq, pagesOf_append]
  exact List.mem_append_right _ List.mem_cons_self

omit [LinearOrder T] [NeZero A] in
/-- Cache pages consist of whole blocks: the page and the block in it make up the number of the
block. -/
theorem page_block_iff (p₁ p₂ : ℕ) :
    p₁ / stackedPageSize = p₂ / stackedPageSize ∧
        p₁ % stackedPageSize / stackedBlockSize = p₂ % stackedPageSize / stackedBlockSize ↔
      p₁ / 64 = p₂ / 64 := by
  unfold stackedPageSize stackedBlockSize
  omega

/-- The number of the block that a request asks for in its page. -/
def blockNum (P : Platform) (cfg : CntlrConfig T) (c : StackDramCacheCntlrUnison T δ A)
    (q : Request) : ℕ := c.pageOffset P cfg q.address / stackedBlockSize

/-- In every run with fewer than `2 ^ 32` virtual pages, for any two of its requests, each in the
state in which it arrives: equal addresses, and only these, have equal physical addresses, with the
offset in the page unchanged; the page tag and the block number are those of a 64-byte line. The
set number is a function of the tag, the block number fits the history table, and the tag tells
pages apart without the set. -/
theorem address_decoding {as before₁ after₁ before₂ after₂ : List (Action cfg)}
    (hpages : (pagesOf as).toFinset.card < 2 ^ 32)
    (heq₁ : as = before₁ ++ .processRequest q₁ :: after₁)
    (heq₂ : as = before₂ ++ .processRequest q₂ :: after₂) :
    let c₁ : StackDramCacheCntlrUnison T δ A := (machine P M cfg d).run before₁
    let c₂ : StackDramCacheCntlrUnison T δ A := (machine P M cfg d).run before₂
    let p₁ := (c₁.translateAddress q₁.address).2
    let p₂ := (c₂.translateAddress q₂.address).2
    let tag₁ := c₁.pageTag P cfg q₁.address
    let tag₂ := c₂.pageTag P cfg q₂.address
    (p₁ = p₂ ↔ q₁.address = q₂.address) ∧ p₁ % 2 ^ 12 = q₁.address % 2 ^ 12 ∧
      (tag₁ = tag₂ ∧ c₁.blockNum P cfg q₁ = c₂.blockNum P cfg q₂ ↔
        q₁.address / 64 = q₂.address / 64) ∧
      (c₁.splitAddress P cfg q₁.address).2.1 = homeSet P cfg tag₁ ∧
      c₁.blockNum P cfg q₁ ≤ 30 ∧
      (tag₁ = tag₂ ↔ p₁ / stackedPageSize = p₂ / stackedPageSize) ∧
      (c₁.homeOf P cfg q₁ ≠ c₂.homeOf P cfg q₂ → tag₁ ≠ tag₂) := by
  intro c₁ c₂ p₁ p₂ tag₁ tag₂
  have hp₁ : p₁ = physical (pagesOf as) q₁.address := translateAddress_run hpages heq₁
  have hp₂ : p₂ = physical (pagesOf as) q₂.address := translateAddress_run hpages heq₂
  have hmem := mem_pagesOf heq₁
  refine ⟨?_, ?_, ?_, rfl, ?_, Iff.rfl, fun hne htag => hne (congrArg (homeSet P cfg) htag)⟩
  · rw [hp₁, hp₂, physical_inj hmem]
  · rw [hp₁, physical_mod]
  · -- a block of a page is a block of 64 bytes of the physical address
    rw [← physical_div_block hmem, ← hp₁, ← hp₂]
    exact page_block_iff p₁ p₂
  · exact Nat.lt_succ_iff.mp (c₁.pageRequest P cfg q₁).block_lt

/-- The second request is for the page that the run touches first, and for the last byte of the
line of the first request. -/
theorem address_decoding_small :
    let as : List (Action CntlrConfig.small) :=
      [.processRequest (.block .read 5000), .processRequest (.block .write 130),
        .processRequest (.block .write 5055)]
    let K : Machine (StackDramCacheCntlrUnison ℕ Unit 2) (Action CntlrConfig.small) :=
      machine .x86 .tenCycles .small ()
    let c := K.run (as.take 2)
    (K.init.translateAddress 5000).2 = 904 ∧
      K.init.pageTag .x86 .small 5000 = c.pageTag .x86 .small 5055 ∧
      K.init.blockNum .x86 .small (.block .read 5000) =
        c.blockNum .x86 .small (.block .write 5055) := by
  intro as K c
  have hpages : (pagesOf as).toFinset.card < 2 ^ 32 := by decide
  have heq₁ : as = [] ++ .processRequest (.block .read 5000) :: as.drop 1 := rfl
  have heq₂ : as = as.take 2 ++ .processRequest (.block .write 5055) :: [] := rfl
  exact ⟨by decide, (address_decoding (A := 2) (P := .x86) (M := .tenCycles) (d := ()) hpages heq₁
    heq₂).2.2.1.mpr (by decide)⟩

end StackedDram.StackDramCacheCntlrUnison
