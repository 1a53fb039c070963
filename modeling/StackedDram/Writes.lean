import StackedDram.Runs

/-!
# Writes

A write is recorded in the cache when the page of its block is in the set of its address, with the
valid bit and the dirty bit of the block set. A lookup that finds the page sets both. A page miss
records nothing: `updateReplacementIndexTag` installs the page with the predicted footprint as its
valid bits and without dirty bits, and the block written is not accessed again.

`write_recorded_iff`: a write is recorded exactly if its page was in the set before and the set was
not about to be emptied.
-/

namespace StackedDram

namespace DramCacheSetUnison

variable {A : ℕ} {P : Platform} {S : DramCacheSetUnison A} {r : PageRequest}

/-- Some way holds the page with the block valid and dirty. -/
def WriteRecorded (S : DramCacheSetUnison A) (tag block : ℕ) : Prop :=
  ∃ i, (S.ways i).tag = tag ∧ (S.ways i).vbits0.getLsbD block = true ∧
    (S.ways i).dbits0.getLsbD block = true

instance (S : DramCacheSetUnison A) (tag block : ℕ) : Decidable (S.WriteRecorded tag block) := by
  unfold WriteRecorded
  infer_instance

/-- A lookup that finds the page records the write, whether the block was there or not. -/
theorem writeRecorded_accessAttempt (hw : r.type = .write) (h : S.Holds r.tag) :
    (S.accessAttempt P r.type r.tag r.offset).1.WriteRecorded r.tag r.block := by
  obtain ⟨i, hi⟩ := exists_findTag_eq_some h
  have hlt : r.block < 32 := r.block_lt.trans (by decide)
  -- `accessBlock` sets both bits of the block
  refine ⟨i, ?_, ?_, ?_⟩ <;> rw [accessAttempt_ways hi, Function.update_self]
  · exact tag_of_findTag_eq_some hi
  · exact (DramCachePageInfo.accessBlock_vbits0 hlt _).mpr (Or.inr rfl)
  · rw [hw]
    exact DramCachePageInfo.accessBlock_dbits0_write hlt

/-- A set records a write exactly if it holds the page before. -/
theorem writeRecorded_serve_iff [NeZero A] (hw : r.type = .write) :
    (S.serve P r).WriteRecorded r.tag r.block ↔ S.Holds r.tag := by
  constructor
  · rintro ⟨i, htag, -, hdirty⟩
    by_contra hmiss
    rw [serve_ways_of_not_holds hmiss] at htag hdirty
    by_cases hiv : i = S.victim
    · -- the page has just been installed
      rw [hiv, Function.update_self, loaded_dbits0, BitVec.getLsbD_zero] at hdirty
      exact Bool.noConfusion hdirty
    · rw [Function.update_of_ne hiv] at htag
      exact hmiss ⟨i, htag⟩
  · intro h
    rw [serve_of_holds h]
    exact writeRecorded_accessAttempt hw h

end DramCacheSetUnison

namespace StackDramCacheCntlrUnison

variable {T δ : Type} {A : ℕ} {q : Request} [LinearOrder T] [NeZero A]

/-- In every state, reachable or not, a write that does not go past the cache is recorded in the
set to which its page belongs exactly if that set held the page and was not about to be emptied. -/
theorem write_recorded_iff (P : Platform) (M : DramModel δ) (cfg : CntlrConfig T)
    (c : StackDramCacheCntlrUnison T δ A) (hw : q.accessType = .write)
    (hq : ¬ c.Bypassed P cfg q) :
    let c' := (c.processRequest P M cfg q).1
    let tag := c.pageTag P cfg q.address
    (c'.sets (c'.placeOf P cfg tag)).WriteRecorded tag
        (c.pageOffset P cfg q.address / stackedBlockSize) ↔
      (c.sets (c.placeOf P cfg tag)).Holds tag ∧ ¬ c.ToEmpty P cfg (c.placeOf P cfg tag) := by
  intro c' tag
  have hplace : c'.placeOf P cfg tag = c.targetSet P cfg q := by
    rw [placeOf, getRemapSet_congr (sameRouting_processRequest P M cfg q c)]
    rfl
  have htype : (c.pageRequest P cfg q).type = .write := if_pos hw
  have hchecked := checked_afterCheck P M cfg q c
  rw [hplace, processRequest_targetSet M hq]
  refine (DramCacheSetUnison.writeRecorded_serve_iff htype).trans ?_
  by_cases hto : c.ToEmpty P cfg (c.placeOf P cfg tag)
  · -- the page may have been there, but `checkRemapping` has emptied the set
    have hempty : ((c.afterCheck P M cfg q).sets (c.targetSet P cfg q)).Empty :=
      hchecked.emptied _ hto
    exact iff_of_false (hempty.not_holds (pageTag_ne P cfg c q.address)) fun hboth => hboth.2 hto
  · rw [show c.targetSet P cfg q = c.placeOf P cfg tag from rfl, hchecked.kept _ hto]
    exact (and_iff_left hto).symm

/-- The second write to a block finds the page that the first one has loaded. -/
theorem write_recorded_iff_twoMegabytes :
    let K : Machine (StackDramCacheCntlrUnison ℕ Unit 4) (Action .twoMegabytes) :=
      machine .x86 .tenCycles .twoMegabytes ()
    let q := Request.block .write 64
    let c := K.run [.processRequest q]
    let c' := K.run [.processRequest q, .processRequest q]
    let tag := c.pageTag .x86 .twoMegabytes q.address
    (c'.sets (c'.placeOf .x86 .twoMegabytes tag)).WriteRecorded tag
      (c.pageOffset .x86 .twoMegabytes q.address / stackedBlockSize) := by
  intro K q c c' tag
  have hgoes : ¬ c.Bypassed .x86 .twoMegabytes q := by
    unfold Bypassed
    decide +kernel
  refine (write_recorded_iff .x86 .tenCycles .twoMegabytes c rfl hgoes).mpr ?_
  decide +kernel

/-- The first write to the cache is not recorded. -/
theorem not_writeRecorded_twoMegabytes :
    let K : Machine (StackDramCacheCntlrUnison ℕ Unit 4) (Action .twoMegabytes) :=
      machine .x86 .tenCycles .twoMegabytes ()
    let q := Request.block .write 64
    let c := K.run []
    let c' := K.run [.processRequest q]
    let tag := c.pageTag .x86 .twoMegabytes q.address
    q.accessType = .write ∧ ¬ c.Bypassed .x86 .twoMegabytes q ∧
      ¬ (c'.sets (c'.placeOf .x86 .twoMegabytes tag)).WriteRecorded tag
        (c.pageOffset .x86 .twoMegabytes q.address / stackedBlockSize) := by
  unfold Bypassed
  decide +kernel

end StackDramCacheCntlrUnison

end StackedDram
