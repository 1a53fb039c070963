import StackedDram.DisabledBanks

/-!
# Where pages are

A page belongs in the set to which the home set of its tag is redirected. Redirecting a bank marks
it invalid, so that the pages it leaves behind are emptied. Mapping it back to itself marks nothing:
`resetBank` leaves the valid flag of the former target alone, and what the target holds for the
bank stays there. `RecoversClean` says that a management step does not run into this.

`residency_of_recoversClean`: in a run of such steps every page is where it belongs after every
request. `stale_of_not_recoversClean`: any other step leaves a page in the wrong set of a bank that
the next request does not empty. With an unknown address map there is only one set, and nothing can
go wrong (`residency_of_unknown`).
-/

namespace StackedDram.StackDramCacheCntlrUnison

variable {T δ : Type} {A : ℕ} {P : Platform} {M : DramModel δ} {cfg : CntlrConfig T} {d : δ}
  {q : Request} {c : StackDramCacheCntlrUnison T δ A} {x y z n : ℕ}

/-- The bank of the home set of a tag. -/
def homeBank (P : Platform) (cfg : CntlrConfig T) (tag : ℕ) : ℕ :=
  cfg.bankOf P (homeSet P cfg tag)

/-- Every page in a set below `n` is where it belongs; hence it is in one set only, and its dirty
blocks are where their addresses lead. -/
structure Residency (P : Platform) (cfg : CntlrConfig T) (n : ℕ)
    (c : StackDramCacheCntlrUnison T δ A) : Prop where
  placed : ∀ s < n, ∀ tag ≠ invalidTag, (c.sets s).Holds tag → s = c.placeOf P cfg tag
  one_set : ∀ s < n, ∀ t < n, ∀ tag ≠ invalidTag, (c.sets s).Holds tag → (c.sets t).Holds tag →
    s = t
  dirty : ∀ s < n, ∀ i, ((c.sets s).ways i).IsValid → ((c.sets s).ways i).dbits0 ≠ 0#32 →
    s = c.placeOf P cfg ((c.sets s).ways i).tag

theorem Residency.of_placed
    (h : ∀ s < n, ∀ tag ≠ invalidTag, (c.sets s).Holds tag → s = c.placeOf P cfg tag) :
    Residency P cfg n c where
  placed := h
  one_set s hs t ht tag htag hst htt := (h s hs tag htag hst).trans (h t ht tag htag htt).symm
  dirty s hs i hvalid _ := h s hs _ hvalid ⟨i, rfl⟩

/-- Between two requests, a page is where it belongs, or it is about to be emptied. -/
def Routed (P : Platform) (cfg : CntlrConfig T) (n : ℕ) (c : StackDramCacheCntlrUnison T δ A) :
    Prop :=
  ∀ s < n, ∀ tag ≠ invalidTag, (c.sets s).Holds tag →
    cfg.rowOf P s = cfg.rowOf P (homeSet P cfg tag) ∧
      ((c.perfModel.manager.bankStat (cfg.bankOf P s)).valid = false ∨
        (c.perfModel.manager.bankStat (homeBank P cfg tag)).logicalId = cfg.bankOf P s)

variable [LinearOrder T]

/-- Bank `h` is redirected to another bank, and the next management step maps it back to itself:
it is cool now. -/
def ComesBack (cfg : CntlrConfig T) (c : StackDramCacheCntlrUnison T δ A) (h : ℕ) : Prop :=
  (c.perfModel.manager.bankStat h).logicalId ≠ h ∧
    (c.perfModel.manager.phyBanks h).temperature < cfg.remapThres

/-- The sets of bank `t` will be emptied by the request after the next management step: they
already have to be, or the bank is hot. -/
def GetsEmptied (cfg : CntlrConfig T) (c : StackDramCacheCntlrUnison T δ A) (t : ℕ) : Prop :=
  (c.perfModel.manager.bankStat t).valid = false ∨
    cfg.highThres ≤ (c.perfModel.manager.phyBanks t).temperature

/-- If the action is a management step, no bank comes back to itself with pages in the bank it was
redirected to, unless those get emptied anyway. -/
def RecoversClean (P : Platform) (cfg : CntlrConfig T) (n : ℕ)
    (c : StackDramCacheCntlrUnison T δ A) : Action cfg → Prop
  | .tryRemapping => c.perfModel.remapped = true ∧ cfg.enableRemap = true →
    ∀ s < n, ∀ tag ≠ invalidTag, (c.sets s).Holds tag → c.ComesBack cfg (homeBank P cfg tag) →
      cfg.bankOf P s = (c.perfModel.manager.bankStat (homeBank P cfg tag)).logicalId →
        c.GetsEmptied cfg (cfg.bankOf P s)
  | _ => True

variable [NeZero A]

/-- A clean management step leaves every page where it belongs, or about to be emptied. -/
theorem routed_tryRemapping (h : cfg.WellFormed x y z) (hn : cfg.nRemap = 0 ∨ cfg.nRemap = 1)
    (hreach : (machine P M cfg d).Reachable c) (hc : c.Routed P cfg (2 ^ (x + y + z)))
    (hclean : c.RecoversClean P cfg (2 ^ (x + y + z)) .tryRemapping) :
    (c.step P M cfg .tryRemapping).Routed P cfg (2 ^ (x + y + z)) := by
  by_cases hrun : c.perfModel.remapped = true ∧ cfg.enableRemap = true
  swap
  · rwa [step_tryRemapping_of_not hrun]
  have hfacts := passFacts_manager hn (consistent_of_reachable hreach)
  have hinvalid : ∀ b, (c.perfModel.manager.bankStat b).valid = false →
      ((c.perfModel.manager.runMechanism cfg.remap).bankStat b).valid = false := by
    intro b
    rw [← Bool.not_eq_true, ← Bool.not_eq_true]
    exact mt (hfacts.valid b)
  intro s hs tag htag hholds
  obtain ⟨hrow, hplace⟩ := hc s hs tag htag hholds
  refine ⟨hrow, ?_⟩
  rw [step_tryRemapping hrun]
  rcases hplace with hv | hlog
  · exact Or.inl (hinvalid _ hv)
  rw [or_iff_not_imp_right, ← hlog]
  intro hne
  rcases hfacts.moved _ hne with ⟨hsource, hcool⟩ | ⟨hself, hv⟩
  · -- the home bank comes back: the target must be getting emptied
    rw [hlog]
    rcases hclean hrun s hs tag htag hholds ⟨hsource, hcool⟩ hlog.symm with hv | hhot
    · exact hinvalid _ hv
    · -- a hot target is marked invalid now, unless it was disabled before and is cleared
      by_cases hparked : c.perfModel.manager.Parked (cfg.bankOf P s)
      · rcases parkedCleared_of_reachable h hn hreach s hs hparked with hv | hempty
        · exact hinvalid _ hv
        · exact absurd hholds (hempty.not_holds htag)
      · exact hfacts.invalidated _ (h.layout.bankOf_lt hs) hhot hparked
  · -- the home bank has just been redirected, and marked invalid
    rwa [hself]

/-- A request puts its page where it belongs, and empties what is about to be emptied. -/
theorem routed_processRequest (h : cfg.WellFormed x y z)
    (hreach : (machine P M cfg d).Reachable c) (hc : c.Routed P cfg (2 ^ (x + y + z)))
    (q : Request) : (c.processRequest P M cfg q).1.Routed P cfg (2 ^ (x + y + z)) := by
  have hcons := consistent_of_reachable hreach
  intro s hs tag htag hholds
  rw [(sameRouting_processRequest P M cfg q c).logicalId]
  rcases holds_of_holds_processRequest htag hholds with ⟨hkeep, hbefore⟩ | ⟨-, rfl, rfl⟩
  · -- the bank of a page that was there before is not marked invalid, or it would be emptied
    obtain ⟨hrow, hplace⟩ := hc s hs tag htag hbefore
    refine ⟨hrow, Or.inr (hplace.resolve_left fun hv => ?_)⟩
    exact hkeep ((valid_of_reachable hreach).toEmpty h hs hv)
  · exact ⟨h.layout.rowOf_getRemapSet hcons (homeSet_lt h.toSized _),
      Or.inr (bankOf_targetSet h hcons).symm⟩

theorem routed_step (h : cfg.WellFormed x y z) (hn : cfg.nRemap = 0 ∨ cfg.nRemap = 1)
    (hreach : (machine P M cfg d).Reachable c) (hc : c.Routed P cfg (2 ^ (x + y + z)))
    (a : Action cfg) (hclean : c.RecoversClean P cfg (2 ^ (x + y + z)) a) :
    (c.step P M cfg a).Routed P cfg (2 ^ (x + y + z)) := by
  cases a with
  | storeTemperature | updateTemperature => exact hc
  | tryRemapping => exact routed_tryRemapping h hn hreach hc hclean
  | processRequest q => exact routed_processRequest h hreach hc q

omit [LinearOrder T] [NeZero A] in
/-- When all banks are marked valid, every page is where it belongs. -/
theorem Routed.residency (h : cfg.WellFormed x y z)
    (hcons : c.perfModel.manager.Consistent cfg.remap)
    (hvalid : ∀ b < cfg.remap.totBanks, (c.perfModel.manager.bankStat b).valid = true)
    (hc : c.Routed P cfg (2 ^ (x + y + z))) : Residency P cfg (2 ^ (x + y + z)) c := by
  refine .of_placed fun s hs tag htag hholds => ?_
  obtain ⟨hrow, hplace⟩ := hc s hs tag htag hholds
  refine (h.layout.eq_getRemapSet_iff hcons (homeSet_lt h.toSized tag) hs).mpr ⟨?_, hrow⟩
  refine (hplace.resolve_left ?_).symm
  rw [hvalid _ (h.layout.bankOf_lt hs)]
  exact fun hne => Bool.noConfusion hne

/-- With an unknown address map, only set 0 is ever used. -/
theorem empty_of_unknown (h : cfg.UnknownMap) (hreach : (machine P M cfg d).Reachable c) {s : ℕ}
    (hs : s ≠ 0) : (c.sets s).Empty := by
  refine hreach.invariant (P := fun c : StackDramCacheCntlrUnison T δ A => (c.sets s).Empty)
    (fun _ => rfl) fun c a _ hempty => ?_
  cases a with
  | storeTemperature | updateTemperature | tryRemapping => exact hempty
  | processRequest q =>
    have htarget : c.targetSet P cfg q = 0 := StackConfig.getRemapSet_of_unknown h _ _
    exact empty_processRequest M (Or.inr hempty) (Or.inr (htarget ▸ hs))

theorem residency_of_unknown (h : cfg.UnknownMap) (hreach : (machine P M cfg d).Reachable c) :
    Residency P cfg n c := by
  refine .of_placed fun s _ tag htag hholds => ?_
  rw [placeOf, StackConfig.getRemapSet_of_unknown h]
  by_contra hs
  exact (empty_of_unknown h hreach hs).not_holds htag hholds

/-- In a run whose management steps recover banks cleanly, every page is where it belongs after
every request. -/
theorem residency_of_recoversClean (h : cfg.Sized x y z) (hn : cfg.nRemap = 1)
    (as : List (Action cfg)) (q : Request) :
    let K : Machine (StackDramCacheCntlrUnison T δ A) (Action cfg) := machine P M cfg d
    K.AllSteps (RecoversClean P cfg (2 ^ (x + y + z))) as →
      Residency P cfg (2 ^ (x + y + z)) (K.run (as ++ [.processRequest q])) := by
  intro K has
  by_cases hmap : cfg.UnknownMap
  · exact residency_of_unknown hmap (Machine.reachable_run (M := K) _)
  have hlayout : cfg.WellFormed x y z := ⟨h, not_not.mp hmap⟩
  -- the invariant of the run before the last request
  have hrouted : (K.run as).Routed P cfg (2 ^ (x + y + z)) := by
    refine Machine.invariant_of_allSteps
      (P := fun c : StackDramCacheCntlrUnison T δ A => c.Routed P cfg (2 ^ (x + y + z)))
      ?_ ?_ as has
    · -- no page is in the cache at the start
      rintro s - tag htag ⟨i, hi⟩
      exact absurd hi.symm htag
    · exact fun c a hreach hc hclean => routed_step hlayout (Or.inr hn) hreach hc a hclean
  have hreach : K.Reachable (K.run as) := Machine.reachable_run as
  rw [Machine.run_concat]
  have hreach' := hreach.step (Action.processRequest q)
  exact (routed_processRequest hlayout hreach hrouted q).residency hlayout
    (consistent_of_reachable hreach')
    (valid_of_reachable hreach' (remapped_processRequest P M cfg q _))

/-- Bank 0 is redirected while a page of it is in its own sets. -/
theorem residency_of_recoversClean_small :
    let K : Machine (StackDramCacheCntlrUnison ℕ Unit 4) (Action .small) :=
      machine .x86 .tenCycles .small ()
    let q := Request.block .write 0
    let as : List (Action .small) :=
      [.processRequest q, .updateTemperature (0 : Fin 2) (0 : Fin 2) 90 true, .tryRemapping]
    ((K.run as).sets 0).Holds 0 ∧ ((K.run (as ++ [.processRequest q])).sets 4).Holds 0 ∧
      Residency .x86 .small (2 ^ (1 + 1 + 1)) (K.run (as ++ [.processRequest q])) := by
  intro K q as
  refine ⟨by decide +kernel, by decide +kernel, ?_⟩
  refine residency_of_recoversClean CntlrConfig.small_wellFormed.toSized rfl as q ?_
  have hfirst : K.AllSteps (RecoversClean .x86 .small (2 ^ (1 + 1 + 1))) [.processRequest q] :=
    (Machine.allSteps_nil _).concat trivial
  have hsecond : K.AllSteps (RecoversClean .x86 .small (2 ^ (1 + 1 + 1))) [.processRequest q,
      .updateTemperature (0 : Fin 2) (0 : Fin 2) 90 true] := hfirst.concat trivial
  refine hsecond.concat ?_
  -- no bank comes back in the only management step
  rintro - s - tag - - ⟨hsource, -⟩
  have hself : ∀ b < CntlrConfig.small.remap.totBanks,
      ((K.run [.processRequest q, .updateTemperature (0 : Fin 2) (0 : Fin 2) 90
        true]).perfModel.manager.bankStat b).logicalId = b := by decide +kernel
  exact absurd (hself _ (CntlrConfig.small_wellFormed.layout.bankOf_lt
    (homeSet_lt CntlrConfig.small_wellFormed.toSized tag))) hsource

/-! ## Steps that leave pages behind -/

/-- A bank that comes back leaves its pages in the sets of the bank it was redirected to, unless
those get emptied. -/
theorem stale_of_comesBack (h : cfg.WellFormed x y z) (hn : cfg.nRemap = 0 ∨ cfg.nRemap = 1)
    (hle : cfg.remapThres ≤ cfg.highThres) (hcons : c.perfModel.manager.Consistent cfg.remap)
    (hrun : c.perfModel.remapped = true ∧ cfg.enableRemap = true) {s tag : ℕ}
    (hback : c.ComesBack cfg (homeBank P cfg tag))
    (hbank : cfg.bankOf P s = (c.perfModel.manager.bankStat (homeBank P cfg tag)).logicalId)
    (hkept : ¬ c.GetsEmptied cfg (cfg.bankOf P s)) :
    let c' := c.step P M cfg .tryRemapping
    s ≠ c'.placeOf P cfg tag ∧
      (c'.perfModel.manager.bankStat (cfg.bankOf P s)).valid = true := by
  obtain ⟨hsource, hcool⟩ := hback
  rw [GetsEmptied, not_or, Bool.not_eq_false, not_le] at hkept
  have hfacts := passFacts_manager hn hcons
  have hcons' := consistent_step P M hcons .tryRemapping
  -- the bank is its own target after the pass, and the former target is not marked
  have hparked := hfacts.cool hle _ (h.layout.bankOf_lt (homeSet_lt h.toSized tag)) hcool
  rw [RemappingManager.Parked, not_or, not_not] at hparked
  refine ⟨fun heq => hsource ?_, ?_⟩
  · rw [← hbank, heq, placeOf, h.layout.bankOf_getRemapSet hcons' (homeSet_lt h.toSized tag),
      step_tryRemapping hrun]
    exact hparked.2
  · rw [step_tryRemapping hrun, hfacts.stays_valid _ hkept.2]
    exact hkept.1

/-- A management step that is not clean leaves a page in a wrong set, of a bank that is not marked
invalid. -/
theorem stale_of_not_recoversClean (h : cfg.WellFormed x y z)
    (hn : cfg.nRemap = 0 ∨ cfg.nRemap = 1) (hle : cfg.remapThres ≤ cfg.highThres)
    (hreach : (machine P M cfg d).Reachable c)
    (hnot : ¬ c.RecoversClean P cfg (2 ^ (x + y + z)) .tryRemapping) :
    let c' := c.step P M cfg .tryRemapping
    ∃ s < 2 ^ (x + y + z), ∃ tag ≠ invalidTag, (c'.sets s).Holds tag ∧ s ≠ c'.placeOf P cfg tag ∧
      (c'.perfModel.manager.bankStat (cfg.bankOf P s)).valid = true := by
  unfold RecoversClean at hnot
  push Not at hnot
  obtain ⟨hrun, s, hs, tag, htag, hholds, hback, hbank, hkept⟩ := hnot
  exact ⟨s, hs, tag, htag, hholds,
    stale_of_comesBack h hn hle (consistent_of_reachable hreach) hrun hback hbank hkept⟩

/-- When such a page is requested, it gets into a second set. -/
theorem not_residency_of_stale (h : cfg.WellFormed x y z) {s tag : ℕ} (hs : s < 2 ^ (x + y + z))
    (htag : tag ≠ invalidTag) (hholds : (c.sets s).Holds tag) (hne : s ≠ c.placeOf P cfg tag)
    (hvalid : (c.perfModel.manager.bankStat (cfg.bankOf P s)).valid = true)
    (hq : c.pageTag P cfg q.address = tag) :
    ¬ Residency P cfg (2 ^ (x + y + z)) (c.processRequest P M cfg q).1 := by
  subst hq
  intro hres
  have hkeep : ¬ c.ToEmpty P cfg s := by
    rw [toEmpty_iff h hs, hvalid]
    simp
  -- the request addresses the set to which the page belongs, so the other one keeps its page
  have hplaced := hres.placed s hs _ htag
  rw [processRequest_sets M (Or.inr hne), (checked_afterCheck P M cfg q c).kept s hkeep, placeOf,
    getRemapSet_congr (sameRouting_processRequest P M cfg q c)] at hplaced
  exact hne (hplaced hholds)

/-- A page that a redirected bank has loaded into its target is loaded a second time after the bank
has cooled down, if the target is not hot. -/
theorem not_residency_of_cooled (h : cfg.WellFormed x y z) (hn : cfg.nRemap = 0 ∨ cfg.nRemap = 1)
    (hle : cfg.remapThres ≤ cfg.highThres) (henable : cfg.enableRemap = true)
    (hreach : (machine P M cfg d).Reachable c) (hq : ¬ c.Bypassed P cfg q)
    {v : Fin cfg.nVaults} {b : Fin cfg.nBanks} {temperature : T} (inROI : Bool)
    (hhome : cfg.bankOf P (c.homeOf P cfg q) = cfg.remap.getBankId v b)
    (hsource : (c.perfModel.manager.bankStat (cfg.remap.getBankId v b)).logicalId ≠
      cfg.remap.getBankId v b)
    (htarget : (c.perfModel.manager.phyBanks (c.perfModel.manager.bankStat
      (cfg.remap.getBankId v b)).logicalId).temperature < cfg.highThres)
    (hcool : temperature < cfg.remapThres) :
    ¬ Residency P cfg (2 ^ (x + y + z)) ((machine P M cfg d).runFrom c
      [.processRequest q, .updateTemperature v b temperature inROI, .tryRemapping,
        .processRequest q]) := by
  have hcons := consistent_of_reachable hreach
  have hbank := bankOf_targetSet (q := q) (P := P) h hcons
  rw [hhome] at hbank
  have hs : c.targetSet P cfg q < 2 ^ (x + y + z) :=
    h.layout.getRemapSet_lt hcons (homeSet_lt h.toSized _)
  -- after the first request
  have hreach₁ := hreach.step (Action.processRequest q)
  have hrouting := sameRouting_processRequest P M cfg q c
  have hholds : ((c.processRequest P M cfg q).1.sets (c.targetSet P cfg q)).Holds
      (c.pageTag P cfg q.address) := by
    rw [processRequest_targetSet M hq]
    exact DramCacheSetUnison.holds_serve
  have hvalid := valid_of_reachable hreach₁ (remapped_processRequest P M cfg q c) _
    (h.layout.bankOf_lt (P := P) hs)
  have htag := pageTag_processRequest P M cfg q c
  -- after the bank has cooled down
  let c₂ := (c.processRequest P M cfg q).1.step P M cfg (.updateTemperature v b temperature inROI)
  have hreach₂ : (machine P M cfg d).Reachable c₂ :=
    hreach₁.step (Action.updateTemperature v b temperature inROI)
  have hlog : ∀ a, (c₂.perfModel.manager.bankStat a).logicalId =
      (c.perfModel.manager.bankStat a).logicalId := hrouting.logicalId
  have hback : c₂.ComesBack cfg (homeBank P cfg (c.pageTag P cfg q.address)) := by
    rw [show homeBank P cfg (c.pageTag P cfg q.address) = _ from hhome, ComesBack, hlog]
    refine ⟨hsource, ?_⟩
    simpa [c₂, step, StackedDramPerfUnison.updateTemperature, RemappingManager.updateTemperature]
      using hcool
  have hkept : ¬ c₂.GetsEmptied cfg (cfg.bankOf P (c.targetSet P cfg q)) := by
    rintro (hinvalid | hhot)
    · exact absurd (hvalid.symm.trans hinvalid) (by decide)
    · refine absurd hhot (not_le.mpr ?_)
      rw [hbank]
      simpa [c₂, step, StackedDramPerfUnison.updateTemperature, RemappingManager.updateTemperature,
        hsource, hrouting.temperature] using htarget
  obtain ⟨hne, hvalid₃⟩ := stale_of_comesBack (P := P) (M := M) h hn hle
    (consistent_of_reachable hreach₂) ⟨rfl, henable⟩ hback (by rw [hlog, hbank, ← hhome]; rfl)
    hkept
  -- when the page is requested again
  let c₃ := c₂.step P M cfg .tryRemapping
  refine not_residency_of_stale (c := c₃) h hs (pageTag_ne P cfg c q.address) ?_ hne hvalid₃ ?_
  · rw [(step_of_isManagement (a := .tryRemapping) trivial).1,
      (step_of_isManagement (a := .updateTemperature v b temperature inROI) trivial).1]
    exact hholds
  · rw [pageTag_of_isManagement (a := .tryRemapping) trivial,
      pageTag_of_isManagement (a := .updateTemperature v b temperature inROI) trivial, htag]

/-- Bank 0 is redirected to bank 1, gets a page there, and comes back to itself. The next request
for the page loads it into set 0, and it is still in set 32. -/
theorem not_residency_twoMegabytes :
    let K : Machine (StackDramCacheCntlrUnison ℕ Unit 4) (Action .twoMegabytes) :=
      machine .x86 .tenCycles .twoMegabytes ()
    let q := Request.block .write 0
    ¬ Residency .x86 .twoMegabytes (2 ^ (5 + 3 + 0)) (K.run
      [.updateTemperature (0 : Fin 32) (0 : Fin 8) 90 true, .tryRemapping, .processRequest q,
        .updateTemperature (0 : Fin 32) (0 : Fin 8) 70 true, .tryRemapping,
        .processRequest q]) := by
  intro K q
  let redirected : List (Action .twoMegabytes) :=
    [.updateTemperature (0 : Fin 32) (0 : Fin 8) 90 true, .tryRemapping]
  have hgoes : ¬ (K.run redirected).Bypassed .x86 .twoMegabytes q := by
    unfold Bypassed
    decide +kernel
  -- the page is installed at the target, and installed again at home when the bank is cool
  have hduplicate := not_residency_of_cooled (v := (0 : Fin 32)) (b := (0 : Fin 8))
    CntlrConfig.twoMegabytes_wellFormed (Or.inr rfl) (by decide) rfl
    (Machine.reachable_run redirected) hgoes true (by decide +kernel) (by decide +kernel)
    (by decide +kernel) (by decide : 70 < 83)
  rwa [← Machine.run_append] at hduplicate

end StackedDram.StackDramCacheCntlrUnison
