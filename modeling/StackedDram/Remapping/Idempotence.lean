import StackedDram.Remapping.ThermalSafety

/-!
# The management step is idempotent

In the state in which a pass ends, every cool bank is in normal operation and no request reaches a
hot one (`Settled`). Neither phase of an iteration has anything to do in such a state
(`mechanismStep_of_settled`), so a second pass at the same temperatures changes nothing at all
(`runMechanism_idempotent`).
-/

namespace StackedDram.RemappingManager

variable {T : Type} [LinearOrder T] {cfg : RemapConfig T} {m m' : RemappingManager T}
  {p p' : Pairing ℕ} {b : ℕ}

/-- Every bank has been decided about: the cool banks serve their own requests, and the requests
for a hot bank do not reach it. -/
structure Settled (cfg : RemapConfig T) (m : RemappingManager T) : Prop where
  cool : ∀ b < cfg.totBanks, (m.phyBanks b).temperature < cfg.remapThres → ¬ m.Parked b
  hot : ∀ b < cfg.totBanks, cfg.highThres ≤ (m.phyBanks b).temperature → m.Parked b

/-- A pass settles every bank. -/
theorem settled_runMechanism (hle : cfg.remapThres ≤ cfg.highThres)
    (hn : cfg.nRemap = 0 ∨ cfg.nRemap = 1) (h : m.Consistent cfg) :
    (m.runMechanism cfg).Settled cfg := by
  have hfacts := passFacts_runMechanism hn h
  constructor
  · intro b hb hcool
    rw [hfacts.temperature] at hcool
    exact hfacts.cool hle b hb hcool
  · intro b hb hhot
    rw [hfacts.temperature] at hhot
    exact hfacts.hot b hb hhot

omit [LinearOrder T] in
/-- A bank is parked unless it is enabled and not redirected. -/
theorem Represents.parked_iff (h : m.Represents cfg p) (b : ℕ) :
    m.Parked b ↔ (m.bankStat b).disabled = true ∨ p.IsSource b := by
  unfold Parked
  rw [h.logicalId]
  rfl

/-- The first phase does nothing to a bank that is not parked when it is cool. -/
theorem Recovers.eq_self (hr : Recovers cfg m p b m' p') (h : m.Represents cfg p)
    (hcool : (m.phyBanks b).temperature < cfg.remapThres → ¬ m.Parked b) : m' = m ∧ p' = p := by
  rw [h.parked_iff] at hcool
  cases hr with
  | skip => exact ⟨rfl, rfl⟩
  | separate hlt hb => exact absurd (Or.inr hb) (hcool hlt)
  | enablePair hlt hb hdis => exact absurd (Or.inl hdis) (hcool hlt)
  | enable hlt hb hdis => exact absurd (Or.inl hdis) (hcool hlt)

/-- The second phase does nothing to a bank that is parked when it is hot. -/
theorem Manages.eq_self (hm : Manages cfg m p b m' p') (h : m.Represents cfg p)
    (hhot : cfg.highThres ≤ (m.phyBanks b).temperature → m.Parked b) : m' = m := by
  -- the changes are made to a hot bank that is enabled and is not a source
  have hnot : cfg.highThres ≤ (m.phyBanks b).temperature → (m.bankStat b).disabled = false →
      p.target b = b → False := by
    intro hle hdis hself
    rcases (h.parked_iff b).mp (hhot hle) with hdis' | hs
    · rw [hdis] at hdis'
      exact Bool.noConfusion hdis'
    · exact hs hself
  cases hm with
  | skip => rfl
  | redirect hn hle hdis hbt hb => exact (hnot hle hdis hb.1).elim
  | disable hle hdis hb => exact (hnot hle hdis hb.1).elim
  | disablePair hle hdis hb => exact (hnot hle hdis hb.target_eq).elim

/-- An iteration changes nothing in a settled state. -/
theorem mechanismStep_of_settled (hn : cfg.nRemap = 0 ∨ cfg.nRemap = 1) (h : m.Consistent cfg)
    (hset : m.Settled cfg) (hb : b < cfg.totBanks) : m.mechanismStep cfg b = m := by
  obtain ⟨p, m₁, p₁, p₂, hp, hr, hm⟩ := h.mechanismStep_cases hn hb
  obtain ⟨rfl, rfl⟩ := hr.eq_self hp (hset.cool b hb)
  exact hm.eq_self hp (hset.hot b hb)

/-- A pass changes nothing in a settled state. -/
theorem runMechanism_of_settled (hn : cfg.nRemap = 0 ∨ cfg.nRemap = 1) (h : m.Consistent cfg)
    (hset : m.Settled cfg) : m.runMechanism cfg = m :=
  List.foldlRecOn (motive := fun m' => m' = m) _ _ rfl fun _ heq b hb => by
    rw [heq]
    exact mechanismStep_of_settled hn h hset (List.mem_range.mp hb)

/-- From every reachable state and for every assignment of temperatures, a second management step
leaves the manager exactly as the first one has left it. -/
theorem runMechanism_idempotent (hle : cfg.remapThres ≤ cfg.highThres)
    (hn : cfg.nRemap = 0 ∨ cfg.nRemap = 1) (hm : (machine cfg).Reachable m) (temps : ℕ → T) :
    let once := (m.withTemperatures temps).runMechanism cfg
    once.runMechanism cfg = once := by
  intro once
  have hcons := consistent_withTemperatures (consistent_of_reachable hm) temps
  exact runMechanism_of_settled hn (consistent_runMechanism hcons)
    (settled_runMechanism hle hn hcons)

/-- Both banks of a pair from an earlier pass are hot, and so is a third bank, which takes the last
one. -/
theorem runMechanism_idempotent_twoByTwo :
    let m := (machine twoByTwo).run
      [.updateTemperature (0 : Fin 2) (0 : Fin 2) 90, .runMechanism]
    let once := (m.withTemperatures fun b => if b < 3 then 95 else 60).runMechanism twoByTwo
    (once.bankStat 2).logicalId = 3 ∧ once.disableTimes + once.doubleDisableTimes = 1 ∧
      once.runMechanism twoByTwo = once := by
  intro m once
  have hle : twoByTwo.remapThres ≤ twoByTwo.highThres := by decide
  have hn : twoByTwo.nRemap = 0 ∨ twoByTwo.nRemap = 1 := Or.inr rfl
  exact ⟨by decide, by decide, runMechanism_idempotent hle hn (Machine.reachable_run _) _⟩

end StackedDram.RemappingManager
