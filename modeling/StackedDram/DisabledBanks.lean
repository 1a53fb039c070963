import StackedDram.Runs

/-!
# Disabled banks

The manager disables banks; the controller empties their sets later, when it processes the next
request. In between, a bank that gets no requests of its own is marked invalid or has no pages
(`parkedCleared_of_reachable`), also when a pair is disabled together and only the target of the
pair is marked: the source has been empty since it was redirected.

`disabled_banks_empty`: after every request the sets of the disabled banks are empty, and a bank
that was disabled between two requests comes back without any of its pages.
-/

namespace StackedDram.StackDramCacheCntlrUnison

variable {T δ : Type} {A : ℕ} {P : Platform} {M : DramModel δ} {cfg : CntlrConfig T} {d : δ}
  {q : Request} {c : StackDramCacheCntlrUnison T δ A} {x y z : ℕ}

/-- The set holds no page, or the controller is told to empty it. -/
def Cleared (P : Platform) (cfg : CntlrConfig T) (c : StackDramCacheCntlrUnison T δ A) (s : ℕ) :
    Prop :=
  (c.perfModel.manager.bankStat (cfg.bankOf P s)).valid = false ∨ (c.sets s).Empty

/-- The sets below `n` of the banks without requests of their own are cleared. -/
def ParkedCleared (P : Platform) (cfg : CntlrConfig T) (n : ℕ)
    (c : StackDramCacheCntlrUnison T δ A) : Prop :=
  ∀ s < n, c.perfModel.manager.Parked (cfg.bankOf P s) → c.Cleared P cfg s

variable [LinearOrder T] [NeZero A]

/-- What a management step does to the flags of the banks; all other actions except requests
leave them alone. -/
theorem parked_or_invalid_step (hn : cfg.nRemap = 0 ∨ cfg.nRemap = 1)
    (hc : c.perfModel.manager.Consistent cfg.remap) {a : Action cfg} (ha : a.IsManagement) (b : ℕ) :
    let c' := c.step P M cfg a
    (c'.perfModel.manager.Parked b → c.perfModel.manager.Parked b ∨
        (c'.perfModel.manager.bankStat b).valid = false) ∧
      ((c.perfModel.manager.bankStat b).valid = false →
        (c'.perfModel.manager.bankStat b).valid = false) := by
  cases a with
  | processRequest q => exact ha.elim
  | storeTemperature | updateTemperature => exact ⟨Or.inl, id⟩
  | tryRemapping =>
    by_cases hrun : c.perfModel.remapped = true ∧ cfg.enableRemap = true
    · -- a pass marks no bank valid, and it marks the banks that it parks invalid
      have hfacts := passFacts_manager hn hc
      dsimp only
      rw [step_tryRemapping hrun]
      refine ⟨hfacts.parked b, ?_⟩
      rw [← Bool.not_eq_true, ← Bool.not_eq_true]
      exact mt (hfacts.valid b)
    · rw [step_tryRemapping_of_not hrun]
      exact ⟨Or.inl, id⟩

/-- Until the next request, a cleared set stays cleared. -/
theorem Cleared.step (hn : cfg.nRemap = 0 ∨ cfg.nRemap = 1)
    (hc : c.perfModel.manager.Consistent cfg.remap) {a : Action cfg} (ha : a.IsManagement) {s : ℕ}
    (hs : c.Cleared P cfg s) : (c.step P M cfg a).Cleared P cfg s := by
  obtain ⟨hsets, -⟩ := step_of_isManagement (P := P) (M := M) (c := c) ha
  rw [Cleared, hsets]
  exact hs.imp_left (parked_or_invalid_step hn hc ha _).2

theorem Cleared.runFrom (hn : cfg.nRemap = 0 ∨ cfg.nRemap = 1)
    {as : List (Action cfg)} (has : ∀ a ∈ as, a.IsManagement) {s : ℕ}
    (hc : c.perfModel.manager.Consistent cfg.remap) (hs : c.Cleared P cfg s) :
    ((machine P M cfg d).runFrom c as).Cleared P cfg s := by
  induction as generalizing c with
  | nil => exact hs
  | cons a as ih =>
    rw [Machine.runFrom_cons]
    exact ih (fun b hb => has b (List.mem_cons_of_mem a hb)) (consistent_step P M hc a)
      (hs.step hn hc (has a List.mem_cons_self))

omit [NeZero A] in
/-- The next request finds a cleared set empty when it looks its page up. -/
theorem Cleared.empty_afterCheck (h : cfg.WellFormed x y z) (hvalid : c.AllValid cfg) {s : ℕ}
    (hs : s < 2 ^ (x + y + z)) (hcleared : c.Cleared P cfg s) :
    ((c.afterCheck P M cfg q).sets s).Empty := by
  have hchecked := checked_afterCheck P M cfg q c
  by_cases hto : c.ToEmpty P cfg s
  · exact hchecked.emptied s hto
  · rw [hchecked.kept s hto]
    exact hcleared.resolve_left fun hinvalid => hto (hvalid.toEmpty h hs hinvalid)

/-- Afterwards the set holds the page requested at most. -/
theorem Cleared.holds_processRequest (h : cfg.WellFormed x y z) (hvalid : c.AllValid cfg) {s : ℕ}
    (hs : s < 2 ^ (x + y + z)) (hcleared : c.Cleared P cfg s) {tag : ℕ} (htag : tag ≠ invalidTag)
    (hholds : ((c.processRequest P M cfg q).1.sets s).Holds tag) :
    s = c.targetSet P cfg q ∧ tag = c.pageTag P cfg q.address := by
  rcases holds_of_holds_processRequest htag hholds with ⟨hkeep, hbefore⟩ | ⟨-, hnew⟩
  · rcases hcleared with hinvalid | hempty
    · exact absurd (hvalid.toEmpty h hs hinvalid) hkeep
    · exact absurd hbefore (hempty.not_holds htag)
  · exact hnew

/-- After a request the sets of the banks without requests of their own are empty. -/
theorem ParkedCleared.empty_processRequest (h : cfg.WellFormed x y z)
    (hcons : c.perfModel.manager.Consistent cfg.remap) (hvalid : c.AllValid cfg)
    (hc : c.ParkedCleared P cfg (2 ^ (x + y + z))) {s : ℕ} (hs : s < 2 ^ (x + y + z))
    (hparked : c.perfModel.manager.Parked (cfg.bankOf P s)) :
    ((c.processRequest P M cfg q).1.sets s).Empty := by
  refine StackDramCacheCntlrUnison.empty_processRequest M ?_ ?_
  · exact (hc s hs hparked).imp_left (hvalid.toEmpty h hs)
  · -- no request is served by a set of a parked bank
    rw [or_iff_not_imp_left]
    rintro hq rfl
    exact not_parked_targetSet h hcons hq hparked

theorem parkedCleared_step (h : cfg.WellFormed x y z) (hn : cfg.nRemap = 0 ∨ cfg.nRemap = 1)
    (hcons : c.perfModel.manager.Consistent cfg.remap) (hvalid : c.AllValid cfg)
    (hc : c.ParkedCleared P cfg (2 ^ (x + y + z))) (a : Action cfg) :
    (c.step P M cfg a).ParkedCleared P cfg (2 ^ (x + y + z)) := by
  intro s hs hparked
  by_cases ha : a.IsManagement
  · rcases (parked_or_invalid_step hn hcons ha _).1 hparked with hbefore | hinvalid
    · exact (hc s hs hbefore).step hn hcons ha
    · exact Or.inl hinvalid
  · cases a with
    | processRequest q =>
      -- the banks parked after a request are those parked before it
      have hrouting := sameRouting_processRequest P M cfg q c
      refine Or.inr (hc.empty_processRequest h hcons hvalid hs ?_)
      rwa [← RemappingManager.parked_congr (hrouting.logicalId _) fun _ => hrouting.disabled _]
    | storeTemperature | updateTemperature | tryRemapping => exact absurd trivial ha

/-- In every reachable state the banks without requests of their own are cleared. -/
theorem parkedCleared_of_reachable (h : cfg.WellFormed x y z)
    (hn : cfg.nRemap = 0 ∨ cfg.nRemap = 1) (hc : (machine P M cfg d).Reachable c) :
    c.ParkedCleared P cfg (2 ^ (x + y + z)) := by
  refine hc.invariant (P := fun c => ParkedCleared P cfg (2 ^ (x + y + z)) c)
    (fun _ _ _ => Or.inr fun _ => rfl) fun c a hreach hcleared => ?_
  exact parkedCleared_step h hn (consistent_of_reachable hreach) (valid_of_reachable hreach)
    hcleared a

/-- The bank `b` of vault `v` is disabled. -/
def BankDisabled (cfg : CntlrConfig T) (c : StackDramCacheCntlrUnison T δ A) (v b : ℕ) : Prop :=
  (c.perfModel.manager.bankStat (cfg.remap.getBankId v b)).disabled = true

/-- All ways of the set are invalid and there are no dirty bits. -/
def NoPages (S : DramCacheSetUnison A) : Prop :=
  ∀ i, (S.ways i).tag = invalidTag ∧ (S.ways i).dbits0 = 0#32

/-- After every request the sets of all disabled banks hold no page. A bank that was disabled at
some time since the previous request, and may have been enabled again, has no page when the next
request is looked up, and the page requested at most after it. -/
theorem disabled_banks_empty (h : cfg.WellFormed x y z) (hn : cfg.nRemap = 0 ∨ cfg.nRemap = 1)
    (as : List (Action cfg)) (q : Request) {v b r : ℕ} (hv : v < 2 ^ x) (hb : b < 2 ^ y)
    (hr : r < 2 ^ z) :
    let K : Machine (StackDramCacheCntlrUnison T δ A) (Action cfg) := machine P M cfg d
    let s := (cfg.getSetNum P v b r).1
    (BankDisabled cfg (K.run (as ++ [.processRequest q])) v b →
      NoPages ((K.run (as ++ [.processRequest q])).sets s)) ∧
    ∀ later : List (Action cfg), (∀ a ∈ later, a.IsManagement) →
      BankDisabled cfg (K.run as) v b →
        NoPages (((K.run (as ++ later)).afterCheck P M cfg q).sets s) ∧
        ∀ i, (((K.run (as ++ later ++ [.processRequest q])).sets s).ways i).tag = invalidTag ∨
          (((K.run (as ++ later ++ [.processRequest q])).sets s).ways i).tag =
            (K.run (as ++ later)).pageTag P cfg q.address := by
  intro K s
  have hs : s < 2 ^ (x + y + z) := h.layout.getSetNum_lt hv hb hr
  have hbank : cfg.bankOf P s = cfg.remap.getBankId v b := by
    rw [StackConfig.bankOf, h.layout.splitSetNum_getSetNum hv hb hr]
  have hreach : ∀ as, K.Reachable (K.run as) := Machine.reachable_run
  have hcons := consistent_of_reachable (hreach as)
  have hcleared := parkedCleared_of_reachable h hn (hreach as)
  have hnone : ∀ {S : DramCacheSetUnison A}, S.Empty → NoPages S := fun hS i =>
    ⟨congrArg (·.tag) (hS i), congrArg (·.dbits0) (hS i)⟩
  refine ⟨fun hdis => ?_, fun later hlater hdis => ?_⟩
  · -- the bank was disabled before the request too, so its sets were cleared
    rw [Machine.run_concat] at hdis ⊢
    rw [BankDisabled, ← hbank, show K.step = step P M cfg from rfl, step,
      (sameRouting_processRequest P M cfg q (K.run as)).disabled] at hdis
    exact hnone (hcleared.empty_processRequest h hcons (valid_of_reachable (hreach as)) hs
      (Or.inl hdis))
  · -- the sets are cleared when the bank is disabled, and stay so until the request
    have hlast := (hcleared s hs (Or.inl (hbank ▸ hdis))).runFrom (M := M) (d := d) hn hlater hcons
    rw [← Machine.run_append] at hlast
    have hvalid := valid_of_reachable (hreach (as ++ later))
    refine ⟨hnone (hlast.empty_afterCheck h hvalid hs), fun i => ?_⟩
    rw [Machine.run_concat, or_iff_not_imp_left]
    intro htag
    exact (hlast.holds_processRequest h hvalid hs htag ⟨i, rfl⟩).2

/-- Bank 0 is redirected to bank 1, which then holds one of its pages. The two banks are disabled
together and enabled again before the next request. -/
theorem disabled_banks_empty_small :
    let K : Machine (StackDramCacheCntlrUnison ℕ Unit 4) (Action .small) :=
      machine .x86 .tenCycles .small ()
    let q := Request.block .write 0
    let disabled : List (Action .small) :=
      [.updateTemperature (0 : Fin 2) (0 : Fin 2) 90 true, .tryRemapping, .processRequest q,
        .updateTemperature (0 : Fin 2) (1 : Fin 2) 90 true, .tryRemapping]
    let enabled : List (Action .small) :=
      [.updateTemperature (0 : Fin 2) (0 : Fin 2) 70 true,
        .updateTemperature (0 : Fin 2) (1 : Fin 2) 70 true, .tryRemapping]
    let s := (CntlrConfig.small.getSetNum .x86 0 1 0).1
    ((K.run disabled).sets s).Holds 0 ∧ NoPages ((K.run (disabled ++ [.processRequest q])).sets s) ∧
      ¬ BankDisabled .small (K.run (disabled ++ enabled)) 0 1 ∧
      NoPages (((K.run (disabled ++ enabled)).afterCheck .x86 .tenCycles .small q).sets s) := by
  intro K q disabled enabled s
  have hn : CntlrConfig.small.nRemap = 0 ∨ CntlrConfig.small.nRemap = 1 := Or.inr rfl
  have hmanage : ∀ a ∈ enabled, a.IsManagement := by
    intro a ha
    simp only [enabled, List.mem_cons, List.not_mem_nil, or_false] at ha
    rcases ha with rfl | rfl | rfl <;> trivial
  -- bank 1 of vault 0 is disabled after the first part and enabled after the second
  have hempty := disabled_banks_empty (P := .x86) (M := .tenCycles) (d := ()) (A := 4)
    CntlrConfig.small_wellFormed hn disabled q (v := 0) (b := 1) (r := 0) (by decide)
    (by decide) (by decide)
  refine ⟨by decide +kernel, hempty.1 ?_, ?_, (hempty.2 enabled hmanage ?_).1⟩
  all_goals rw [BankDisabled]; decide +kernel

end StackedDram.StackDramCacheCntlrUnison
