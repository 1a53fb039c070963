import StackedDram.Remapping.Matching

/-!
# Thermal safety

After every pass of the management step, under the policies that disable or redirect hot banks,
no cool bank is parked, and the bank that serves the requests for a bank that is not disabled is
not hot (`safe_runMechanism`). This stays so until the next temperatures arrive, whatever
requests are served in the meantime (`thermal_safety`).
-/

namespace StackedDram.RemappingManager

variable {T : Type} [LinearOrder T] {cfg : RemapConfig T} {m m' : RemappingManager T}

/-- The cool banks serve their own requests, and no request is served by a hot bank. -/
structure Safe (cfg : RemapConfig T) (m : RemappingManager T) : Prop where
  cool : ∀ b < cfg.totBanks, (m.phyBanks b).temperature < cfg.remapThres →
    (m.bankStat b).disabled = false ∧ (m.bankStat b).logicalId = b
  served : ∀ b < cfg.totBanks, (m.bankStat b).disabled = false →
    (m.phyBanks (m.bankStat b).logicalId).temperature < cfg.highThres

/-- A pass ends in a safe state: the iteration for a bank decides about it, and the iterations for
other banks do not undo it. -/
theorem safe_runMechanism (hle : cfg.remapThres ≤ cfg.highThres)
    (hn : cfg.nRemap = 0 ∨ cfg.nRemap = 1) (h : m.Consistent cfg) :
    (m.runMechanism cfg).Safe cfg := by
  have hfacts := passFacts_runMechanism hn h
  obtain ⟨p, hp, -⟩ := consistent_runMechanism h
  constructor
  · intro b hb hcool
    rw [hfacts.temperature] at hcool
    have hpark := hfacts.cool hle b hb hcool
    rw [Parked, not_or, not_not, Bool.not_eq_true] at hpark
    exact hpark
  · intro b hb hdis
    rw [hp.logicalId, hfacts.temperature]
    by_contra hhot
    -- a hot target would have been disabled, and its source with it
    have htarget := hfacts.hot (p.target b) (hp.target_lt b hb) (not_lt.mp hhot)
    rw [Parked, hp.disabled, hp.logicalId, p.target_target, hdis] at htarget
    simp at htarget

/-- Safety only depends on the ids, the disabled flags and the temperatures. -/
theorem Safe.congr (h : m.Safe cfg) (hsame : m.SameRouting m') : m'.Safe cfg where
  cool b hb hcool := by
    rw [hsame.disabled, hsame.logicalId]
    exact h.cool b hb (hsame.temperature b ▸ hcool)
  served b hb hdis := by
    rw [hsame.logicalId, hsame.temperature]
    exact h.served b hb (hsame.disabled b ▸ hdis)

/-- The calls that the manager receives while requests are served. -/
def Call.Serves : Call cfg → Prop
  | .accessRow .. => True
  | .resetStats reset => reset = false
  | .updateTemperature .. | .runMechanism => False

theorem Safe.step_of_serves (h : m.Safe cfg) {a : Call cfg} (ha : a.Serves) :
    (m.step cfg a).Safe cfg := by
  cases a with
  | accessRow remapped v b r => exact h.congr (sameRouting_accessRow m remapped v b r)
  | resetStats reset =>
    obtain rfl : reset = false := ha
    exact h.congr (sameRouting_resetStats_false cfg m)
  | updateTemperature | runMechanism => exact absurd ha id

/-- Serving requests keeps a safe state safe. -/
theorem Safe.runFrom (h : m.Safe cfg) (calls : List (Call cfg)) (hcalls : ∀ a ∈ calls, a.Serves) :
    ((machine cfg).runFrom m calls).Safe cfg := by
  induction calls generalizing m with
  | nil => exact h
  | cons a calls ih =>
    rw [List.forall_mem_cons] at hcalls
    exact ih (h.step_of_serves hcalls.1) hcalls.2

/-- The banks are given new temperatures. -/
def withTemperatures (m : RemappingManager T) (temps : ℕ → T) : RemappingManager T :=
  { m with phyBanks := fun b => { m.phyBanks b with temperature := temps b } }

omit [LinearOrder T] in
theorem consistent_withTemperatures (h : m.Consistent cfg) (temps : ℕ → T) :
    (m.withTemperatures temps).Consistent cfg :=
  h.of_represents fun _ hp =>
    hp.congr (fun _ => rfl) (fun _ => rfl) (fun _ => rfl) (fun _ => rfl) hp.disabled fun _ => rfl

/-- From every reachable state and for every assignment of temperatures, the management step ends
in a safe state, and the requests served after it keep it safe. -/
theorem thermal_safety (hle : cfg.remapThres ≤ cfg.highThres)
    (hn : cfg.nRemap = 0 ∨ cfg.nRemap = 1) (hm : (machine cfg).Reachable m) (temps : ℕ → T) :
    ((m.withTemperatures temps).runMechanism cfg).Safe cfg ∧
      ∀ calls : List (Call cfg), (∀ a ∈ calls, a.Serves) →
        ((machine cfg).runFrom ((m.withTemperatures temps).runMechanism cfg) calls).Safe cfg := by
  have hcons := consistent_withTemperatures (consistent_of_reachable hm) temps
  have hsafe := safe_runMechanism hle hn hcons
  exact ⟨hsafe, fun calls hcalls => hsafe.runFrom calls hcalls⟩

/-- Two hot banks, of which the second is the target of the first from an earlier pass. -/
theorem thermal_safety_twoByTwo :
    let m := (machine twoByTwo).run
      [.updateTemperature (0 : Fin 2) (0 : Fin 2) 90, .runMechanism]
    let temps : ℕ → ℕ := fun b => if b < 2 then 95 else 80
    let m' := (m.withTemperatures temps).runMechanism twoByTwo
    (m'.bankStat 0).logicalId = 1 ∧ (m'.bankStat 0).disabled = true ∧ m'.Safe twoByTwo ∧
      ∀ calls : List (Call twoByTwo), (∀ a ∈ calls, a.Serves) →
        ((machine twoByTwo).runFrom m' calls).Safe twoByTwo := by
  have hle : twoByTwo.remapThres ≤ twoByTwo.highThres := by decide
  have hn : twoByTwo.nRemap = 0 ∨ twoByTwo.nRemap = 1 := Or.inr rfl
  exact ⟨by decide, by decide, thermal_safety hle hn (Machine.reachable_run _) _⟩

end StackedDram.RemappingManager
