import StackedDram.Library.Machine
import StackedDram.Effects

/-!
# Runs of the controller

`machine P M cfg d` takes a controller from its construction through arbitrary sequences of
temperature updates, management steps and requests. This module says what one request does to the
routing and to the pages of a set (`holds_of_holds_processRequest`, `empty_processRequest`), and
proves what holds of the banks in every reachable state: the redirection table is a matching
(`consistent_of_reachable`), and the controller is going to look at the banks whenever one of them
is marked invalid (`valid_of_reachable`).
-/

namespace StackedDram.StackDramCacheCntlrUnison

open StackedDramPerfUnison

variable {T δ : Type} {A : ℕ} {P : Platform} {M : DramModel δ} {cfg : CntlrConfig T} {d : δ}
  {q : Request} {c : StackDramCacheCntlrUnison T δ A} {x y z : ℕ} [LinearOrder T] [NeZero A]

/-! ## A request -/

/-- After `checkRemapping`, a request leaves the routing alone. -/
theorem undisturbed_processRequest (P : Platform) (M : DramModel δ) (cfg : CntlrConfig T)
    (q : Request) (c : StackDramCacheCntlrUnison T δ A) :
    (c.afterCheck P M cfg q).perfModel.Undisturbed (c.processRequest P M cfg q).1.perfModel := by
  by_cases hq : c.Bypassed P cfg q
  · exact (processRequest_of_bypassed M hq).1
  · exact (served_processRequest M hq).undisturbed

/-- No request changes where requests go. -/
theorem sameRouting_processRequest (P : Platform) (M : DramModel δ) (cfg : CntlrConfig T)
    (q : Request) (c : StackDramCacheCntlrUnison T δ A) :
    c.perfModel.manager.SameRouting (c.processRequest P M cfg q).1.perfModel.manager :=
  (checked_afterCheck P M cfg q c).sameRouting.trans
    (undisturbed_processRequest P M cfg q c).sameRouting

/-- After a request no bank is waiting for its sets to be emptied. -/
theorem remapped_processRequest (P : Platform) (M : DramModel δ) (cfg : CntlrConfig T)
    (q : Request) (c : StackDramCacheCntlrUnison T δ A) :
    (c.processRequest P M cfg q).1.perfModel.remapped = false :=
  (undisturbed_processRequest P M cfg q c).remapped.trans
    (checked_afterCheck P M cfg q c).remapped

/-- A set that a request does not address is as `checkRemapping` leaves it. -/
theorem processRequest_sets (M : DramModel δ) {s : ℕ}
    (hs : c.Bypassed P cfg q ∨ s ≠ c.targetSet P cfg q) :
    (c.processRequest P M cfg q).1.sets s = (c.afterCheck P M cfg q).sets s := by
  by_cases hq : c.Bypassed P cfg q
  · rw [(processRequest_of_bypassed M hq).2.1]
  · rw [(served_processRequest M hq).sets, Function.update_of_ne (hs.resolve_left hq)]

/-- The set that a request addresses serves it. -/
theorem processRequest_targetSet (M : DramModel δ) (hq : ¬ c.Bypassed P cfg q) :
    (c.processRequest P M cfg q).1.sets (c.targetSet P cfg q) =
      ((c.afterCheck P M cfg q).sets (c.targetSet P cfg q)).serve P (c.pageRequest P cfg q) := by
  rw [(served_processRequest M hq).sets, Function.update_self]

/-- A page that is in a set after a request either was there before and the set was not to be
emptied, or is the page requested. -/
theorem holds_of_holds_processRequest {s tag : ℕ} (htag : tag ≠ invalidTag)
    (hholds : ((c.processRequest P M cfg q).1.sets s).Holds tag) :
    (¬ c.ToEmpty P cfg s ∧ (c.sets s).Holds tag) ∨
      (¬ c.Bypassed P cfg q ∧ s = c.targetSet P cfg q ∧ tag = c.pageTag P cfg q.address) := by
  have hchecked := checked_afterCheck P M cfg q c
  -- a page that was in the set after `checkRemapping` was there before
  have hbefore : ((c.afterCheck P M cfg q).sets s).Holds tag →
      ¬ c.ToEmpty P cfg s ∧ (c.sets s).Holds tag := by
    intro hafter
    have hkeep : ¬ c.ToEmpty P cfg s := fun hempty =>
      (hchecked.emptied s hempty).not_holds htag hafter
    rw [hchecked.kept s hkeep] at hafter
    exact ⟨hkeep, hafter⟩
  by_cases hq : c.Bypassed P cfg q
  · rw [processRequest_sets M (Or.inl hq)] at hholds
    exact Or.inl (hbefore hholds)
  by_cases hst : s = c.targetSet P cfg q
  · subst hst
    rw [processRequest_targetSet M hq] at hholds
    rcases DramCacheSetUnison.holds_of_holds_serve hholds with heq | hafter
    · exact Or.inr ⟨hq, rfl, heq⟩
    · exact Or.inl (hbefore hafter)
  · rw [processRequest_sets M (Or.inr hst)] at hholds
    exact Or.inl (hbefore hholds)

/-- After a request a set that it does not address is empty if it was before, or if it was to be
emptied. -/
theorem empty_processRequest (M : DramModel δ) {s : ℕ}
    (hempty : c.ToEmpty P cfg s ∨ (c.sets s).Empty)
    (htarget : c.Bypassed P cfg q ∨ s ≠ c.targetSet P cfg q) :
    ((c.processRequest P M cfg q).1.sets s).Empty := by
  have hchecked := checked_afterCheck P M cfg q c
  rw [processRequest_sets M htarget]
  by_cases hto : c.ToEmpty P cfg s
  · exact hchecked.emptied s hto
  · rw [hchecked.kept s hto]
    exact hempty.resolve_left hto

/-- Once the address of a request has been translated, it keeps its page tag. -/
theorem pageTag_processRequest (P : Platform) (M : DramModel δ) (cfg : CntlrConfig T) (q : Request)
    (c : StackDramCacheCntlrUnison T δ A) :
    (c.processRequest P M cfg q).1.pageTag P cfg q.address = c.pageTag P cfg q.address := by
  -- of all parts of a request, only the translation writes to the page table
  have htable : (c.processRequest P M cfg q).1.pageTable =
      (c.translateAddress q.address).1.pageTable := by
    have hcheck : (c.afterCheck P M cfg q).pageTable = (c.translateAddress q.address).1.pageTable :=
      checkRemapping_pageTable P M cfg q _
    rw [← hcheck]
    by_cases hq : c.Bypassed P cfg q
    · exact (processRequest_of_bypassed M hq).2.2.1
    · exact (served_processRequest M hq).pageTable
  -- the entry was there, or the translation has just made it
  unfold pageTag splitAddress translateAddress at *
  cases hentry : c.pageTable (q.address >>> 12) with
  | none => simp [htable, hentry]
  | some pTag => simp [htable, hentry]

/-! ## The set of a request -/

omit [LinearOrder T] [NeZero A] in
/-- Home sets are sets of the geometry. -/
theorem homeSet_lt (h : cfg.Sized x y z) (tag : ℕ) :
    homeSet P cfg tag < 2 ^ (x + y + z) := by
  rw [homeSet, h.floorLog2_setNum]
  exact Nat.and_lt_two_pow _ (Nat.sub_lt (Nat.two_pow_pos _) Nat.one_pos)

omit [LinearOrder T] [NeZero A] in
/-- A request goes to a set of the logical bank of its home set. -/
theorem bankOf_targetSet (h : cfg.WellFormed x y z)
    (hc : c.perfModel.manager.Consistent cfg.remap) :
    cfg.bankOf P (c.targetSet P cfg q) =
      (c.perfModel.manager.bankStat (cfg.bankOf P (c.homeOf P cfg q))).logicalId :=
  h.layout.bankOf_getRemapSet hc (homeSet_lt h.toSized _)

omit [LinearOrder T] [NeZero A] in
/-- No request is served by a bank that is disabled or redirected. -/
theorem not_parked_targetSet (h : cfg.WellFormed x y z)
    (hc : c.perfModel.manager.Consistent cfg.remap) (hq : ¬ c.Bypassed P cfg q) :
    ¬ c.perfModel.manager.Parked (cfg.bankOf P (c.targetSet P cfg q)) := by
  rw [bankOf_targetSet h hc, RemappingManager.Parked, hc.disabled_logicalId, hc.logicalId_logicalId]
  rintro (hdis | hne)
  · -- the banks of a pair are disabled together, so the home set would be disabled
    exact hq (Or.inl hdis)
  · exact hne rfl

/-! ## The machine -/

/-- What happens to a controller: a temperature is stored by the manager alone or by the
performance model, which calls it, or the performance model runs a management step, or a request
is processed. Temperatures are those of banks that exist. -/
inductive Action (cfg : CntlrConfig T) where
  | storeTemperature (v : Fin cfg.nVaults) (b : Fin cfg.nBanks) (temperature : T)
  | updateTemperature (v : Fin cfg.nVaults) (b : Fin cfg.nBanks) (temperature : T) (inROI : Bool)
  | tryRemapping
  | processRequest (q : Request)

/-- The action is not a request. -/
def Action.IsManagement : Action cfg → Prop
  | .processRequest _ => False
  | _ => True

/-- The controller after an action. -/
def step (P : Platform) (M : DramModel δ) (cfg : CntlrConfig T)
    (c : StackDramCacheCntlrUnison T δ A) : Action cfg → StackDramCacheCntlrUnison T δ A
  -- `remapped` stays as it is, so the next request may not look at the banks
  | .storeTemperature v b temperature =>
    let manager := c.perfModel.manager.updateTemperature cfg.remap v b temperature
    { c with perfModel := { c.perfModel with manager } }
  | .updateTemperature v b temperature inROI =>
    { c with perfModel := c.perfModel.updateTemperature M cfg v b temperature inROI }
  | .tryRemapping => { c with perfModel := c.perfModel.tryRemapping cfg }
  | .processRequest q => (c.processRequest P M cfg q).1

/-- The controller from its construction on, with a DRAM simulator in the state `d`. -/
def machine (P : Platform) (M : DramModel δ) (cfg : CntlrConfig T) (d : δ) :
    Machine (StackDramCacheCntlrUnison T δ A) (Action cfg) where
  init := new P cfg d
  step := step P M cfg

/-- No action but a request changes a set or counts a block. -/
theorem step_of_isManagement {a : Action cfg} (ha : a.IsManagement) :
    (c.step P M cfg a).sets = c.sets ∧ (c.step P M cfg a).wbBlocks = c.wbBlocks := by
  cases a with
  | processRequest q => exact ha.elim
  | storeTemperature | updateTemperature | tryRemapping => exact ⟨rfl, rfl⟩

/-- No action but a request translates an address. -/
theorem pageTag_of_isManagement {a : Action cfg} (ha : a.IsManagement) (address : ℕ) :
    (c.step P M cfg a).pageTag P cfg address = c.pageTag P cfg address := by
  cases a with
  | processRequest q => exact ha.elim
  | storeTemperature | updateTemperature | tryRemapping =>
    unfold pageTag splitAddress translateAddress step
    cases hentry : c.pageTable (address >>> 12) <;> simp [hentry]

/-- A management step, if the temperatures have changed since the last request. -/
theorem step_tryRemapping (h : c.perfModel.remapped = true ∧ cfg.enableRemap = true) :
    (c.step P M cfg .tryRemapping).perfModel.manager =
      c.perfModel.manager.runMechanism cfg.remap := by
  simp [step, tryRemapping, h]

theorem step_tryRemapping_of_not (h : ¬ (c.perfModel.remapped = true ∧ cfg.enableRemap = true)) :
    c.step P M cfg .tryRemapping = c := by
  simp [step, tryRemapping, h]

omit [NeZero A] in
/-- What a management step does to the banks. -/
theorem passFacts_manager (hn : cfg.nRemap = 0 ∨ cfg.nRemap = 1)
    (hc : c.perfModel.manager.Consistent cfg.remap) :
    RemappingManager.PassFacts cfg.remap c.perfModel.manager cfg.remap.totBanks
      (c.perfModel.manager.runMechanism cfg.remap) :=
  RemappingManager.passFacts_runMechanism hn hc

/-! ## The banks in reachable states -/

theorem consistent_step (P : Platform) (M : DramModel δ)
    (hc : c.perfModel.manager.Consistent cfg.remap) (a : Action cfg) :
    (c.step P M cfg a).perfModel.manager.Consistent cfg.remap := by
  cases a with
  | storeTemperature v b temperature =>
    exact RemappingManager.consistent_updateTemperature hc v b temperature
  | updateTemperature v b temperature inROI =>
    exact RemappingManager.consistent_updateTemperature hc v b temperature
  | tryRemapping =>
    by_cases hrun : c.perfModel.remapped = true ∧ cfg.enableRemap = true
    · rw [step_tryRemapping hrun]
      exact RemappingManager.consistent_runMechanism hc
    · rwa [step_tryRemapping_of_not hrun]
  | processRequest q =>
    exact (undisturbed_processRequest P M cfg q c).consistent
      ((checked_afterCheck P M cfg q c).consistent hc)

/-- In every reachable state the redirection table is a matching. -/
theorem consistent_of_reachable (hc : (machine P M cfg d).Reachable c) :
    c.perfModel.manager.Consistent cfg.remap :=
  hc.invariant (P := fun c => c.perfModel.manager.Consistent cfg.remap)
    (RemappingManager.consistent_new cfg.remap) fun _ a _ hcons => consistent_step P M hcons a

/-- As long as the controller has no reason to look at the banks, all of them are marked valid. -/
def AllValid (cfg : CntlrConfig T) (c : StackDramCacheCntlrUnison T δ A) : Prop :=
  c.perfModel.remapped = false →
    ∀ b < cfg.remap.totBanks, (c.perfModel.manager.bankStat b).valid = true

theorem allValid_step (P : Platform) (M : DramModel δ) (hc : c.AllValid cfg) (a : Action cfg) :
    (c.step P M cfg a).AllValid cfg := by
  cases a with
  | storeTemperature v b temperature => exact hc
  | updateTemperature v b temperature inROI => exact fun hre => Bool.noConfusion hre
  | tryRemapping =>
    by_cases hrun : c.perfModel.remapped = true ∧ cfg.enableRemap = true
    · intro hre
      -- the mechanism has run, so the flag is set
      have hremapped : (c.step P M cfg .tryRemapping).perfModel.remapped = true := by
        simp [step, tryRemapping, hrun]
      rw [hremapped] at hre
      exact Bool.noConfusion hre
    · rwa [step_tryRemapping_of_not hrun]
  | processRequest q =>
    intro _ b hb
    show ((c.processRequest P M cfg q).1.perfModel.manager.bankStat b).valid = true
    rw [(undisturbed_processRequest P M cfg q c).valid]
    refine (checked_afterCheck P M cfg q c).valid b hb ?_
    cases hre : c.perfModel.remapped with
    | true => exact Or.inl rfl
    | false => exact Or.inr (hc hre b hb)

/-- Whenever a bank is marked invalid, the next request empties its sets. -/
theorem valid_of_reachable (hc : (machine P M cfg d).Reachable c) : c.AllValid cfg :=
  -- `checkRemapping` clears the flag only after it has marked all banks valid
  hc.invariant (P := fun c => AllValid cfg c) (fun _ _ _ => rfl)
    fun _ a _ hvalid => allValid_step P M hvalid a

omit [LinearOrder T] [NeZero A] in
theorem AllValid.toEmpty (hc : c.AllValid cfg) (h : cfg.WellFormed x y z) {s : ℕ}
    (hs : s < 2 ^ (x + y + z))
    (hinvalid : (c.perfModel.manager.bankStat (cfg.bankOf P s)).valid = false) :
    c.ToEmpty P cfg s := by
  refine (toEmpty_iff h hs).mpr ⟨?_, hinvalid⟩
  rw [← Bool.not_eq_false]
  intro hre
  rw [hc hre _ (h.layout.bankOf_lt hs)] at hinvalid
  exact Bool.noConfusion hinvalid

end StackedDram.StackDramCacheCntlrUnison
