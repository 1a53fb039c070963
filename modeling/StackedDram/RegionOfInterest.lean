import StackedDram.Counters

/-!
# The region of interest

The destructor of the controller reports the accesses and misses in the region of interest, as the
differences between the counters at the end and the ones that `checkRemapping` has copied last
before the region was entered. A copy is made at the beginning of a request, before the request is
counted, so the last request before the region is reported with those in it; and if there is none,
the copies are never initialized (`roi_statistics_iff`).
-/

namespace StackedDram.StackDramCacheCntlrUnison

variable {T δ : Type} {A : ℕ} {P : Platform} {M : DramModel δ} {cfg : CntlrConfig T} {d : δ}
  {c : StackDramCacheCntlrUnison T δ A}

/-! ## The report -/

/-- `cache_access_roi` of the destructor. -/
def cacheAccessRoi (c : StackDramCacheCntlrUnison T δ A) : BitVec 32 :=
  c.cacheAccess - c.noRoi.cacheAccess

/-- `tot_miss_roi` of the destructor. -/
def totMissRoi (c : StackDramCacheCntlrUnison T δ A) : BitVec 32 :=
  let totMiss := c.pageMisses + c.blockMisses
  totMiss - c.noRoi.pageMisses - c.noRoi.blockMisses

/-! ## What there is to report -/

/-- A request in the region of interest. -/
def roiRequest (c : StackDramCacheCntlrUnison T δ A) : Action cfg → ℕ
  | .processRequest _ => if c.perfModel.enterRoi then 1 else 0
  | _ => 0

/-- A request before the region of interest. -/
def earlyRequest (c : StackDramCacheCntlrUnison T δ A) : Action cfg → ℕ
  | .processRequest _ => if c.perfModel.enterRoi then 0 else 1
  | _ => 0

variable [LinearOrder T] [NeZero A]

/-- A request in the region of interest that misses its page or its block, or goes past the
cache. -/
def roiMiss (P : Platform) (M : DramModel δ) (cfg : CntlrConfig T)
    (c : StackDramCacheCntlrUnison T δ A) : Action cfg → ℕ
  | .processRequest q =>
    if c.perfModel.enterRoi ∧ c.outcome P M cfg q ≠ some .hit then 1 else 0
  | _ => 0

/-- The report after a run is about its requests in the region of interest: the accesses are those
requests and the misses are the misses among them, so that there are no more misses than accesses,
as long as a word can count them. -/
def ReportsRoi (P : Platform) (M : DramModel δ) (cfg : CntlrConfig T) (d : δ) (A : ℕ) [NeZero A]
    (as : List (Action cfg)) : Prop :=
  let m : Machine (StackDramCacheCntlrUnison T δ A) (Action cfg) := machine P M cfg d
  let c := m.run as
  c.cacheAccessRoi = .ofNat 32 (m.tally roiRequest as) ∧
    c.totMissRoi = .ofNat 32 (m.tally (roiMiss P M cfg) as) ∧
    (m.tally roiRequest as < 2 ^ 32 → c.totMissRoi ≤ c.cacheAccessRoi)

/-! ## Counters and copies -/

/-- Counters and their copies after `early` requests before the region of interest and `inRoi`
requests in it, of which `misses` have been misses. -/
structure Accounts (P : Platform) (k : Counters) (enterRoi : Bool) (early inRoi misses : ℕ) :
    Prop where
  cacheAccess : k.cacheAccess = .ofNat 32 (early + inRoi)
  copied : 0 < early → k.noRoi.cacheAccess + 1 = .ofNat 32 early
  notCopied : early = 0 →
    k.noRoi = P.uninitialized ∧ k.pageMisses + k.blockMisses = .ofNat 32 misses
  outside : enterRoi = false → inRoi = 0

variable {k : Counters} {early inRoi misses : ℕ}

/-- A request before the region copies the counters before it counts itself. -/
theorem Accounts.countEarly (h : Accounts P k false early inRoi misses) (loadBlocks : ℕ)
    (outcome : Option AccessResult) (pageMisses blockMisses : BitVec 32) :
    Accounts P ({ k with
      cacheAccess := k.cacheAccess + 1
      noRoi := ⟨k.cacheAccess, pageMisses, blockMisses⟩ }.count loadBlocks outcome) false
      (early + 1) inRoi misses := by
  have haccess := h.cacheAccess
  rw [h.outside rfl, Nat.add_zero] at haccess
  have hnext : k.cacheAccess + 1 = .ofNat 32 (early + 1) := by
    rw [haccess, BitVec.ofNat_add]
    rfl
  refine ⟨?_, fun _ => ?_, fun hearly => absurd hearly (Nat.succ_ne_zero _), h.outside⟩
  · rw [h.outside rfl, Nat.add_zero]
    rcases outcome with _ | _ | _ | _ <;> exact hnext
  · rcases outcome with _ | _ | _ | _ <;> exact hnext

/-- A request in the region counts itself. -/
theorem Accounts.countInRoi (h : Accounts P k true early inRoi misses) (loadBlocks : ℕ)
    (outcome : Option AccessResult) :
    Accounts P ({ k with cacheAccess := k.cacheAccess + 1 }.count loadBlocks outcome) true early
      (inRoi + 1) (misses + if outcome ≠ some .hit then 1 else 0) := by
  have hnext : k.cacheAccess + 1 = .ofNat 32 (early + (inRoi + 1)) := by
    rw [h.cacheAccess, ← Nat.add_assoc, BitVec.ofNat_add _ 1]
    rfl
  refine ⟨?_, fun hearly => ?_, fun hearly => ?_, fun hfalse => Bool.noConfusion hfalse⟩
  · rcases outcome with _ | _ | _ | _ <;> exact hnext
  · -- copies are not touched in the region
    rcases outcome with _ | _ | _ | _ <;> exact h.copied hearly
  · obtain ⟨hcopy, hmisses⟩ := h.notCopied hearly
    rw [BitVec.ofNat_add, ← hmisses]
    rcases outcome with _ | _ | _ | _
    all_goals
      refine ⟨hcopy, ?_⟩
      simp only [Counters.count]
      grind

theorem Accounts.enter (h : Accounts P k false early inRoi misses) :
    Accounts P k true early inRoi misses :=
  ⟨h.cacheAccess, h.copied, h.notCopied, fun hfalse => Bool.noConfusion hfalse⟩

/-- The counters after a run, and the requests of the run. -/
def AccountsRun (P : Platform) (M : DramModel δ) (cfg : CntlrConfig T) (d : δ) (A : ℕ) [NeZero A]
    (as : List (Action cfg)) : Prop :=
  let m : Machine (StackDramCacheCntlrUnison T δ A) (Action cfg) := machine P M cfg d
  Accounts P (m.run as).counters (m.run as).perfModel.enterRoi (m.tally earlyRequest as)
    (m.tally roiRequest as) (m.tally (roiMiss P M cfg) as)

theorem accountsRun_processRequest {as : List (Action cfg)} (h : AccountsRun P M cfg d A as)
    (q : Request) : AccountsRun P M cfg d A (as ++ [.processRequest q]) := by
  rw [AccountsRun] at h ⊢
  rw [Machine.run_concat, Machine.tally_concat, Machine.tally_concat, Machine.tally_concat]
  generalize (machine P M cfg d : Machine (StackDramCacheCntlrUnison T δ A) _).run as = c at h ⊢
  show Accounts P (c.processRequest P M cfg q).1.counters
    (c.processRequest P M cfg q).1.perfModel.enterRoi _ _ _
  rw [counters_processRequest, enterRoi_processRequest]
  cases hroi : c.perfModel.enterRoi with
  | false =>
    -- `checkRemapping` copies the counters as long as the region has not been entered
    rw [hroi] at h
    have hcopy : c.snapshotRoi.counters =
        { c.counters with noRoi := ⟨c.cacheAccess, c.pageMisses, c.blockMisses⟩ } := by
      rw [snapshotRoi, if_pos hroi]
      rfl
    have hearly : earlyRequest c (.processRequest q : Action cfg) = 1 := by
      simp [earlyRequest, hroi]
    have hinRoi : roiRequest c (.processRequest q : Action cfg) = 0 := by simp [roiRequest, hroi]
    have hmiss : roiMiss P M cfg c (.processRequest q) = 0 := by simp [roiMiss, hroi]
    rw [hearly, hinRoi, hmiss, hcopy]
    exact h.countEarly _ _ c.pageMisses c.blockMisses
  | true =>
    rw [hroi] at h
    have hcopy : c.snapshotRoi.counters = c.counters := by
      rw [snapshotRoi, if_neg (by rw [hroi]; exact Bool.noConfusion)]
    have hearly : earlyRequest c (.processRequest q : Action cfg) = 0 := by
      simp [earlyRequest, hroi]
    have hinRoi : roiRequest c (.processRequest q : Action cfg) = 1 := by simp [roiRequest, hroi]
    have hmiss : roiMiss P M cfg c (.processRequest q) =
        if c.outcome P M cfg q ≠ some .hit then 1 else 0 := by simp [roiMiss, hroi]
    rw [hearly, hinRoi, hmiss, hcopy]
    exact h.countInRoi _ _

/-- Other actions than requests can only enter the region. -/
theorem enterRoi_of_isManagement (c : StackDramCacheCntlrUnison T δ A) {a : Action cfg}
    (ha : a.IsManagement) :
    (c.step P M cfg a).perfModel.enterRoi = c.perfModel.enterRoi ∨
      c.perfModel.enterRoi = false ∧ (c.step P M cfg a).perfModel.enterRoi = true := by
  cases a with
  | processRequest q => exact ha.elim
  | storeTemperature => exact Or.inl rfl
  | updateTemperature v b temperature inROI =>
    cases inROI <;> cases hroi : c.perfModel.enterRoi <;>
      simp [step, StackedDramPerfUnison.updateTemperature, hroi]
  | tryRemapping =>
    refine Or.inl ?_
    simp only [step, StackedDramPerfUnison.tryRemapping]
    split_ifs <;> rfl

/-- Entering the region counts nothing. -/
theorem accountsRun_of_isManagement {as : List (Action cfg)} (h : AccountsRun P M cfg d A as)
    {a : Action cfg} (ha : a.IsManagement) : AccountsRun P M cfg d A (as ++ [a]) := by
  rw [AccountsRun] at h ⊢
  rw [Machine.run_concat, Machine.tally_concat, Machine.tally_concat, Machine.tally_concat]
  generalize (machine P M cfg d : Machine (StackDramCacheCntlrUnison T δ A) _).run as = c at h ⊢
  have hcounters : (c.step P M cfg a).counters = c.counters := counters_of_isManagement ha
  have hnothing : earlyRequest c a = 0 ∧ roiRequest c a = 0 ∧ roiMiss P M cfg c a = 0 := by
    cases a with
    | processRequest q => exact ha.elim
    | storeTemperature | updateTemperature | tryRemapping => exact ⟨rfl, rfl, rfl⟩
  show Accounts P (c.step P M cfg a).counters (c.step P M cfg a).perfModel.enterRoi _ _ _
  rw [hcounters, hnothing.1, hnothing.2.1, hnothing.2.2]
  -- the region is entered by an update of the temperature only
  rcases enterRoi_of_isManagement (P := P) (M := M) c ha with hsame | ⟨hbefore, hafter⟩
  · rw [hsame]
    exact h
  · rw [hbefore] at h
    rw [hafter]
    exact h.enter

theorem accountsRun (P : Platform) (M : DramModel δ) (cfg : CntlrConfig T) (d : δ) (A : ℕ)
    [NeZero A] (as : List (Action cfg)) : AccountsRun P M cfg d A as := by
  induction as using List.reverseRecOn with
  | nil => exact ⟨rfl, fun h => absurd h (Nat.lt_irrefl 0), fun _ => ⟨rfl, rfl⟩, fun _ => rfl⟩
  | append_singleton as a ih =>
    cases a with
    | processRequest q => exact accountsRun_processRequest ih q
    | storeTemperature | updateTemperature | tryRemapping =>
      exact accountsRun_of_isManagement ih trivial

/-! ## The report of a run -/

omit [NeZero A] in
theorem roiMiss_le_roiRequest (c : StackDramCacheCntlrUnison T δ A) (a : Action cfg) :
    roiMiss P M cfg c a ≤ roiRequest c a := by
  cases a with
  | processRequest q =>
    cases hroi : c.perfModel.enterRoi with
    | false => simp [roiMiss, hroi]
    | true =>
      simp only [roiMiss, roiRequest, hroi, true_and, if_true]
      split_ifs <;> decide
  | storeTemperature | updateTemperature | tryRemapping => exact le_rfl

section Report

omit [LinearOrder T] [NeZero A]

variable {enterRoi : Bool} {k : Counters} {early inRoi misses : ℕ}

/-- Copies that have been made are those of the last request before the region, which is reported
with those in it. -/
theorem Accounts.eq_zero (h : Accounts P c.counters enterRoi early inRoi misses)
    (hreport : c.cacheAccessRoi = .ofNat 32 inRoi) : early = 0 := by
  by_contra hearly
  -- the last request before the region has been counted after the copy
  have haccess : c.cacheAccess = .ofNat 32 (early + inRoi) := h.cacheAccess
  have hcopy : c.noRoi.cacheAccess + 1 = .ofNat 32 early := h.copied (Nat.pos_of_ne_zero hearly)
  rw [cacheAccessRoi, haccess, BitVec.ofNat_add, ← hcopy] at hreport
  bv_omega

/-- The report is right if and only if nothing has been copied and the copies are zero. -/
theorem Accounts.report_iff (h : Accounts P c.counters enterRoi early inRoi misses)
    (hle : misses ≤ inRoi) :
    (c.cacheAccessRoi = .ofNat 32 inRoi ∧ c.totMissRoi = .ofNat 32 misses ∧
        (inRoi < 2 ^ 32 → c.totMissRoi ≤ c.cacheAccessRoi)) ↔
      early = 0 ∧ P.uninitialized.cacheAccess = 0#32 ∧
        P.uninitialized.pageMisses + P.uninitialized.blockMisses = 0#32 := by
  -- what is reported when nothing has been copied
  have hvalues : early = 0 →
      c.cacheAccessRoi = .ofNat 32 inRoi - P.uninitialized.cacheAccess ∧
        c.totMissRoi = .ofNat 32 misses -
          (P.uninitialized.pageMisses + P.uninitialized.blockMisses) := by
    intro hearly
    have haccess : c.cacheAccess = .ofNat 32 (early + inRoi) := h.cacheAccess
    rw [hearly, Nat.zero_add] at haccess
    have hcopy : c.noRoi = P.uninitialized := (h.notCopied hearly).1
    have hmisses : c.pageMisses + c.blockMisses = .ofNat 32 misses := (h.notCopied hearly).2
    rw [cacheAccessRoi, totMissRoi, haccess, hcopy, ← hmisses]
    refine ⟨rfl, ?_⟩
    bv_omega
  constructor
  · rintro ⟨haccess, hmiss, -⟩
    -- without copies, the report subtracts what was in memory
    have hearly := h.eq_zero haccess
    obtain ⟨haccess', hmiss'⟩ := hvalues hearly
    rw [haccess] at haccess'
    rw [hmiss] at hmiss'
    refine ⟨hearly, ?_, ?_⟩
    · bv_omega
    · bv_omega
  · rintro ⟨hearly, hzero, hzero'⟩
    obtain ⟨haccess, hmiss⟩ := hvalues hearly
    rw [hzero, BitVec.sub_zero] at haccess
    rw [hzero', BitVec.sub_zero] at hmiss
    refine ⟨haccess, hmiss, fun hlt => ?_⟩
    rw [haccess, hmiss, BitVec.le_def, BitVec.toNat_ofNat, BitVec.toNat_ofNat,
      Nat.mod_eq_of_lt hlt, Nat.mod_eq_of_lt (Nat.lt_of_le_of_lt hle hlt)]
    exact hle

end Report

/-- A request in the region of interest, or no request. -/
def InRoi (c : StackDramCacheCntlrUnison T δ A) (a : Action cfg) : Prop :=
  ¬ a.IsManagement → c.perfModel.enterRoi = true

omit [LinearOrder T] [NeZero A] in
theorem earlyRequest_eq_zero_iff (c : StackDramCacheCntlrUnison T δ A) (a : Action cfg) :
    earlyRequest c a = 0 ↔ InRoi c a := by
  cases a with
  | processRequest q => cases hroi : c.perfModel.enterRoi <;>
      simp [earlyRequest, InRoi, Action.IsManagement, hroi]
  | storeTemperature | updateTemperature | tryRemapping =>
    exact ⟨fun _ h => absurd trivial h, fun _ => rfl⟩

/-- For every run: the reported accesses and misses are those of the requests in the region of
interest, if and only if there is no request before it and the memory of the copies, which are then
not initialized, is as if it had been cleared. -/
theorem roi_statistics_iff (P : Platform) (M : DramModel δ) (cfg : CntlrConfig T) (d : δ) (A : ℕ)
    [NeZero A] (as : List (Action cfg)) :
    ReportsRoi P M cfg d A as ↔
      (machine P M cfg d : Machine (StackDramCacheCntlrUnison T δ A) _).AllSteps InRoi as ∧
        P.uninitialized.cacheAccess = 0#32 ∧
        P.uninitialized.pageMisses + P.uninitialized.blockMisses = 0#32 := by
  have hle := (machine P M cfg d : Machine (StackDramCacheCntlrUnison T δ A) _).tally_le_tally
    (roiMiss_le_roiRequest (P := P) (M := M)) as
  have hearly : (machine P M cfg d : Machine (StackDramCacheCntlrUnison T δ A) _).tally
      earlyRequest as = 0 ↔
        (machine P M cfg d : Machine (StackDramCacheCntlrUnison T δ A) _).AllSteps InRoi as := by
    rw [Machine.tally_eq_zero_iff]
    simp only [earlyRequest_eq_zero_iff]
  rw [← hearly]
  exact (accountsRun P M cfg d A as).report_iff hle

/-- A request that is the first one of a run and in the region of interest is reported. -/
theorem roi_statistics_iff_inRoi :
    ReportsRoi .x86 .tenCycles .small () 2
      [.updateTemperature (0 : Fin 2) (0 : Fin 2) 20 true, .processRequest (.block .read 0)] := by
  let K : Machine (StackDramCacheCntlrUnison ℕ Unit 2) (Action .small) :=
    machine .x86 .tenCycles .small ()
  have henter : K.AllSteps InRoi [.updateTemperature (0 : Fin 2) (0 : Fin 2) 20 true] :=
    (Machine.allSteps_nil InRoi).concat fun hnot => absurd trivial hnot
  have hin : K.AllSteps InRoi
      [.updateTemperature (0 : Fin 2) (0 : Fin 2) 20 true, .processRequest (.block .read 0)] :=
    henter.concat fun _ => rfl
  exact (roi_statistics_iff .x86 .tenCycles .small () 2 _).mpr ⟨hin, rfl, rfl⟩

/-- One request before the region of interest and one in it are reported as two. -/
theorem not_reportsRoi :
    ¬ ∀ as : List (Action .small), ReportsRoi .x86 .tenCycles .small () 2 as := by
  intro h
  have hreport := (h [.processRequest (.block .read 0),
    .updateTemperature (0 : Fin 2) (0 : Fin 2) 20 true, .processRequest (.block .read 0)]).1
  exact absurd hreport (by decide +kernel)

end StackedDram.StackDramCacheCntlrUnison
