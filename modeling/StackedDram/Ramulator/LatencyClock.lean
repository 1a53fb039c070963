import Mathlib.Algebra.Field.Rat
import StackedDram.Library.Machine
import StackedDram.Ramulator.DramSim

/-!
# The clock of the latency updates

`getReadLatency` and `getWriteLatency` update the latencies when the time of the packet is more than
200 ns after the last update. The difference is one of unsigned numbers, so a packet that is older
than the last update is taken for one far in the future: it causes an update, and sets the clock
back. Only if it is older by almost `2 ^ 64` does nothing happen.

The queue of a `DramModel` only ever holds writes, and 33 attempts are enough for each of them, so
every call ends (`Sound.call_spec`). A run keeps its clock if and only if all its packets do
(`clock_iff`).
-/

namespace StackedDram.Ramulator.DramModel

/-! ## Writes are refused in the end -/

/-- No queue is longer than its maximum. -/
def WithinCapacity (m : RamMemory) : Prop :=
  ∀ c type, ((m.ctrls c).getQueue type).length ≤ RamController.queueMax

variable {m : RamMemory} {r : Request} {reqs : List Request} {st : Sending}

theorem WithinCapacity.send (h : WithinCapacity m) (r : Request) :
    WithinCapacity (r.send m).1 := by
  intro c type
  by_cases hfull : (r.queue m).length = RamController.queueMax
  · rw [Request.send_of_full hfull]
    exact h c type
  · by_cases hforward : r.Forwarded m
    · rw [(Request.send_of_forwarded hfull hforward).2]
      exact h c type
    · rw [((Request.send_of_not_forwarded hfull hforward).2 c type).2.2, List.length_append]
      by_cases hr : r.channel m = c ∧ r.requestType = type
      · obtain ⟨rfl, rfl⟩ := hr
        rw [if_pos ⟨rfl, rfl⟩]
        exact Nat.lt_of_le_of_ne (h _ _) hfull
      · rw [if_neg hr]
        exact h c type

/-- Sending a write ends, as every attempt that is accepted leaves less room. -/
theorem WithinCapacity.loop (h : WithinCapacity m) (hwrite : r.requestType = .write) :
    ∃ after, Retry.loop r.send 33 m = some after ∧ WithinCapacity after.1 := by
  refine Retry.loop_of_measure (fun m => RamController.queueMax - (r.queue m).length)
    (fun m hm => hm.send r) (fun m hm haccepted => ?_) h ?_
  · -- an accepted write takes a place in its queue
    have hroom : (r.queue m).length ≠ RamController.queueMax := fun hfull => by
      rw [Request.send_of_full hfull] at haccepted
      exact Bool.false_ne_true haccepted
    have hforward : ¬ r.Forwarded m := fun hforward => by
      have hread := hforward.1
      rw [hwrite] at hread
      exact absurd hread (by decide)
    have hqueue : (r.queue (r.send m).1).length = (r.queue m).length + 1 := by
      rw [Request.queue, Request.channel_send,
        ((Request.send_of_not_forwarded hroom hforward).2 _ _).2.2, List.length_append,
        if_pos ⟨rfl, rfl⟩]
      rfl
    have hle : (r.queue m).length ≤ RamController.queueMax := hm _ _
    omega
  · have hmax : RamController.queueMax = 32 := rfl
    omega

/-- Sending writes only ends. -/
theorem WithinCapacity.sendAll (h : WithinCapacity st.memory)
    (hwrites : ∀ r ∈ reqs, r.requestType = .write) :
    ∃ st', reqs.foldlM (Sending.sendRequest 33) st = some st' ∧ WithinCapacity st'.memory := by
  induction reqs generalizing st with
  | nil => exact ⟨st, rfl, h⟩
  | cons r reqs ih =>
    obtain ⟨hr, hreqs⟩ := List.forall_mem_cons.mp hwrites
    obtain ⟨after, hloop, hafter⟩ := h.loop hr
    obtain ⟨st₁, hfirst⟩ : ∃ st₁, st.sendRequest 33 r = some st₁ := by
      rw [Sending.sendRequest, hloop]
      exact ⟨_, rfl⟩
    obtain ⟨after', hloop', hmemory, -⟩ := Sending.sendRequest_eq_some hfirst
    obtain rfl := Option.some.inj (hloop'.symm.trans hloop)
    obtain ⟨st', hrest, hst'⟩ := ih (hmemory ▸ hafter) hreqs
    exact ⟨st', Option.bind_eq_some_iff.mpr ⟨st₁, hfirst, hrest⟩, hst'⟩

/-! ## Calls -/

/-- A call of one of the two functions, or something else that uses the memory, such as a tick of
the controllers. -/
inductive Call where
  | getReadLatency (vault bank row col : ℕ) (pktTime : BitVec 64)
  | getWriteLatency (vault bank row col : ℕ) (pktTime : BitVec 64)
  | other (m : RamMemory) (h : WithinCapacity m)

/-- The time of the packet of a call. -/
def Call.pktTime : Call → Option (BitVec 64)
  | .getReadLatency _ _ _ _ pktTime => some pktTime
  | .getWriteLatency _ _ _ _ pktTime => some pktTime
  | .other _ _ => none

/-- The state after a call, if every request is refused after at most `fuel` attempts. -/
def call (fuel : ℕ) (d : DramModel) : Call → Option DramModel
  | .getReadLatency vault bank row col pktTime =>
    (d.getReadLatency fuel vault bank row col pktTime).map Prod.fst
  | .getWriteLatency vault bank row col pktTime =>
    (d.getWriteLatency fuel vault bank row col pktTime).map Prod.fst
  | .other m _ => some { d with memory := m }

/-- The runs of a `DramModel`. After a call that does not end there is no state. -/
def machine (fuel : ℕ) (memory : RamMemory) (readLatency : ℕ) (avgUpdateTime : ℚ) :
    Machine (Option DramModel) Call where
  init := some (new memory readLatency avgUpdateTime)
  step s c := s.bind (·.call fuel c)

/-- What holds between calls: only writes wait to be sent, and no queue is too long. -/
structure Sound (d : DramModel) : Prop where
  writes : ∀ r ∈ d.reqQueue, r.requestType = .write
  capacity : WithinCapacity d.memory

/-- The latencies have been updated at the given time. -/
structure UpdatedAt (d d' : DramModel) (pktTime : BitVec 64) : Prop where
  lastReqTime : d'.lastReqTime = pktTime
  nUpdates : d'.nUpdates = d.nUpdates + 1
  avgUpdateTime : d'.avgUpdateTime = d.avgUpdateTime + (pktTime - d.lastReqTime).toNat

/-- The latencies have not been updated. -/
structure NotUpdated (d d' : DramModel) : Prop where
  lastReqTime : d'.lastReqTime = d.lastReqTime
  nUpdates : d'.nUpdates = d.nUpdates
  avgUpdateTime : d'.avgUpdateTime = d.avgUpdateTime

variable {d : DramModel} {pktTime : BitVec 64}

/-- An update. -/
theorem Sound.updateLatency (h : d.Sound) (hlate : 200 < pktTime - d.lastReqTime) :
    ∃ d', d.updateLatency 33 pktTime = some d' ∧ d'.Sound ∧ d.UpdatedAt d' pktTime := by
  -- `updateLatency` makes the test once more, the other way round
  have hlate' : ¬ pktTime - d.lastReqTime < 200 := by
    intro hearly
    exact absurd (BitVec.lt_trans hlate hearly) (BitVec.lt_irrefl _)
  have hstart : WithinCapacity (⟨d.memory, 0, 0, 0, 0, []⟩ : Sending).memory := h.capacity
  obtain ⟨st, hst, hcapacity⟩ := hstart.sendAll h.writes
  refine ⟨(d.beginUpdate pktTime).finishUpdate st, ?_, ⟨?_, hcapacity⟩, ⟨rfl, rfl, rfl⟩⟩
  · rw [updateLatency_of_late hlate']
    exact congrArg _ hst
  · exact fun r hr => absurd hr (List.not_mem_nil)

/-- The end of the two functions. -/
theorem Sound.checkTime (h : d.Sound) (pktTime : BitVec 64) :
    ∃ d', (if 200 < pktTime - d.lastReqTime then d.updateLatency 33 pktTime else some d) =
        some d' ∧ d'.Sound ∧
      ((200 < pktTime - d.lastReqTime ∧ d.UpdatedAt d' pktTime) ∨
        (¬ 200 < pktTime - d.lastReqTime ∧ d.NotUpdated d')) := by
  by_cases hlate : 200 < pktTime - d.lastReqTime
  · obtain ⟨d', hd', hsound, hupdated⟩ := h.updateLatency hlate
    exact ⟨d', (if_pos hlate).trans hd', hsound, Or.inl ⟨hlate, hupdated⟩⟩
  · exact ⟨d, if_neg hlate, h, Or.inr ⟨hlate, rfl, rfl, rfl⟩⟩

/-- A call ends; it updates the latencies if the difference to the time of the last update is
greater than 200, in 64 bits. -/
theorem Sound.call_spec (h : d.Sound) (c : Call) :
    ∃ d', d.call 33 c = some d' ∧ d'.Sound ∧
      ((∃ pktTime, c.pktTime = some pktTime ∧ 200 < pktTime - d.lastReqTime ∧
          d.UpdatedAt d' pktTime) ∨
        (∀ pktTime, c.pktTime = some pktTime → ¬ 200 < pktTime - d.lastReqTime) ∧
          d.NotUpdated d') := by
  cases c with
  | getReadLatency vault bank row col pktTime =>
    obtain ⟨d', hd', hsound, hcases⟩ := h.checkTime pktTime
    refine ⟨d', ?_, hsound, ?_⟩
    · rw [call, getReadLatency, hd']
      rfl
    · rcases hcases with ⟨hlate, hupdated⟩ | ⟨hearly, hidle⟩
      · exact Or.inl ⟨pktTime, rfl, hlate, hupdated⟩
      · exact Or.inr ⟨fun t ht => Option.some.inj ht ▸ hearly, hidle⟩
  | getWriteLatency vault bank row col pktTime =>
    -- the request is put in the queue first, which is no matter for the clock
    have hpush : Sound { d with reqQueue := d.reqQueue ++ [⟨1, vault, bank, row, col⟩] } := by
      refine ⟨fun r hr => ?_, h.capacity⟩
      rcases List.mem_append.mp hr with hr | hr
      · exact h.writes r hr
      · rw [List.mem_singleton.mp hr]
        rfl
    obtain ⟨d', hd', hsound, hcases⟩ := hpush.checkTime pktTime
    refine ⟨d', ?_, hsound, ?_⟩
    · rw [call, getWriteLatency]
      dsimp only
      rw [hd']
      rfl
    · rcases hcases with ⟨hlate, hupdated⟩ | ⟨hearly, hidle⟩
      · exact Or.inl ⟨pktTime, rfl, hlate, ⟨hupdated.1, hupdated.2, hupdated.3⟩⟩
      · exact Or.inr ⟨fun t ht => Option.some.inj ht ▸ hearly, ⟨hidle.1, hidle.2, hidle.3⟩⟩
  | other m hm =>
    exact ⟨_, rfl, ⟨h.writes, hm⟩, Or.inr ⟨fun _ ht => absurd ht (by simp [Call.pktTime]),
      ⟨rfl, rfl, rfl⟩⟩⟩

/-- In every run there is a state after every call. -/
theorem sound_of_reachable {memory : RamMemory} {readLatency : ℕ} {avgUpdateTime : ℚ}
    (hmemory : WithinCapacity memory) {s : Option DramModel}
    (hs : (machine 33 memory readLatency avgUpdateTime).Reachable s) :
    ∃ d, s = some d ∧ d.Sound := by
  refine hs.invariant (P := fun s => ∃ d, s = some d ∧ d.Sound) ?_ ?_
  · exact ⟨_, rfl, fun r hr => absurd hr List.not_mem_nil, hmemory⟩
  · rintro s c - ⟨d, rfl, hd⟩
    obtain ⟨d', hd', hsound, -⟩ := hd.call_spec c
    exact ⟨d', hd', hsound⟩

/-! ## The clock -/

/-- A call keeps the clock: the time of the last update does not decrease, and there is an update
only if the packet is at least 200 ns later, in which case the difference of the times is added to
the sum of the elapsed times. -/
def KeepsClock (s : Option DramModel) (c : Call) : Prop :=
  ∃ d d', s = some d ∧ d.call 33 c = some d' ∧ d.lastReqTime ≤ d'.lastReqTime ∧
    ((d'.nUpdates = d.nUpdates ∧ d'.avgUpdateTime = d.avgUpdateTime) ∨
      ∃ pktTime, c.pktTime = some pktTime ∧
        d.lastReqTime.toNat + 200 ≤ pktTime.toNat ∧
        d'.nUpdates = d.nUpdates + 1 ∧
        d'.avgUpdateTime = d.avgUpdateTime + ((pktTime.toNat : ℚ) - d.lastReqTime.toNat))

/-- The packet is not older than the last update, or else by at least `2 ^ 64 - 200` ns. -/
def InTime (s : Option DramModel) (c : Call) : Prop :=
  ∀ d ∈ s, ∀ pktTime ∈ c.pktTime, d.lastReqTime ≤ pktTime ∨
    pktTime.toNat + 2 ^ 64 ≤ d.lastReqTime.toNat + 200

/-- The condition, when the times are known. -/
theorem inTime_iff {s : Option DramModel} {c : Call} {u t : BitVec 64}
    (hs : s.map lastReqTime = some u) (hc : c.pktTime = some t) :
    InTime s c ↔ u ≤ t ∨ t.toNat + 2 ^ 64 ≤ u.toNat + 200 := by
  obtain ⟨d, rfl, rfl⟩ := Option.map_eq_some_iff.mp hs
  rw [InTime, hc]
  simp

/-- The difference of two times. -/
theorem toNat_sub_cases (t₀ t : BitVec 64) :
    (t₀ ≤ t ∧ (t - t₀).toNat = t.toNat - t₀.toNat) ∨
      (¬ t₀ ≤ t ∧ (t - t₀).toNat = t.toNat + 2 ^ 64 - t₀.toNat) := by
  have hlt := t.isLt
  have hlt₀ := t₀.isLt
  rw [BitVec.le_def, BitVec.toNat_sub]
  omega

theorem late_iff (t₀ t : BitVec 64) : 200 < t - t₀ ↔ 200 < (t - t₀).toNat := BitVec.lt_def

theorem keepsClock_iff (h : d.Sound) (c : Call) :
    KeepsClock (some d) c ↔ InTime (some d) c := by
  obtain ⟨d', hd', -, hcases⟩ := h.call_spec c
  constructor
  · rintro ⟨d₁, d₂, hd₁, hd₂, hle, -⟩ d₃ hd₃ pktTime hpkt
    obtain rfl := Option.some.inj hd₁
    obtain rfl := Option.some.inj (hd₂.symm.trans hd')
    obtain rfl := Option.some.inj hd₃
    rcases hcases with ⟨t, ht, -, hupdated⟩ | ⟨hearly, -⟩
    · obtain rfl := Option.some.inj (hpkt.symm.trans ht)
      exact Or.inl (hupdated.lastReqTime ▸ hle)
    · -- no update, so the difference is small
      have hsmall := hearly pktTime hpkt
      rw [late_iff] at hsmall
      rcases toNat_sub_cases d.lastReqTime pktTime with ⟨hle', -⟩ | ⟨-, hsub⟩
      · exact Or.inl hle'
      · refine Or.inr ?_
        omega
  · intro hin
    refine ⟨d, d', rfl, hd', ?_⟩
    rcases hcases with ⟨t, ht, hlate, hupdated⟩ | ⟨-, hidle⟩
    · rw [late_iff] at hlate
      have hlt := d.lastReqTime.isLt
      rcases toNat_sub_cases d.lastReqTime t with ⟨hle, hsub⟩ | ⟨hnle, hsub⟩
      · refine ⟨hupdated.lastReqTime ▸ hle, Or.inr ⟨t, ht, by omega, hupdated.nUpdates, ?_⟩⟩
        rw [hupdated.avgUpdateTime, hsub, Nat.cast_sub (BitVec.le_def.mp hle)]
      · -- an older packet causes no update
        rcases hin d rfl t ht with hle | hold
        · exact absurd hle hnle
        · omega
    · exact ⟨hidle.lastReqTime ▸ BitVec.le_refl _, Or.inl ⟨hidle.nUpdates, hidle.avgUpdateTime⟩⟩

theorem keepsClock_iff_of_reachable {memory : RamMemory} {readLatency : ℕ} {avgUpdateTime : ℚ}
    (hmemory : WithinCapacity memory) {s : Option DramModel}
    (hs : (machine 33 memory readLatency avgUpdateTime).Reachable s) (c : Call) :
    KeepsClock s c ↔ InTime s c := by
  obtain ⟨d, rfl, hsound⟩ := sound_of_reachable hmemory hs
  exact keepsClock_iff hsound c

/-- In every run, all calls keep the clock if and only if every packet is not older than the last
update before it, or older by at least `2 ^ 64 - 200` ns. -/
theorem clock_iff (memory : RamMemory) (hmemory : WithinCapacity memory) (readLatency : ℕ)
    (avgUpdateTime : ℚ) (calls : List Call) :
    (machine 33 memory readLatency avgUpdateTime).AllSteps KeepsClock calls ↔
      (machine 33 memory readLatency avgUpdateTime).AllSteps InTime calls := by
  refine forall₄_congr fun before c after _ => ?_
  exact keepsClock_iff_of_reachable hmemory (Machine.reachable_run before) c

theorem withinCapacity_hbm1Gb (type : Layout) : WithinCapacity (.hbm1Gb type) := by
  intro c queue
  cases queue <;> exact Nat.zero_le 32

/-- A read and a later write keep the clock. -/
theorem clock_iff_inOrder :
    (machine 33 (.hbm1Gb .roBaRaCoCh) 10 0).AllSteps KeepsClock
      [.getReadLatency 0 0 0 0 1000, .getWriteLatency 0 0 0 0 1500] := by
  refine (clock_iff _ (withinCapacity_hbm1Gb _) 10 0 _).mpr ?_
  have hfirst := (Machine.allSteps_nil InTime).concat
    (M := machine 33 (.hbm1Gb .roBaRaCoCh) 10 0) (a := .getReadLatency 0 0 0 0 1000)
    ((inTime_iff (u := 0) rfl rfl).mpr (Or.inl (by decide)))
  exact hfirst.concat ((inTime_iff (u := 1000) (by decide) rfl).mpr (Or.inl (by decide)))

/-- A packet that is 100 ns older than the one before it sets the clock back. -/
theorem not_clock_iff :
    (((machine 33 (.hbm1Gb .roBaRaCoCh) 10 0).run
        [.getReadLatency 0 0 0 0 1000, .getReadLatency 0 0 0 0 900]).map fun d =>
          (d.lastReqTime, d.nUpdates)) = some (900, 2) ∧
      ¬ ∀ (memory : RamMemory) (readLatency : ℕ) (avgUpdateTime : ℚ) (calls : List Call),
        WithinCapacity memory →
          (machine 33 memory readLatency avgUpdateTime).AllSteps KeepsClock calls := by
  refine ⟨by decide, fun h => ?_⟩
  have hmemory := withinCapacity_hbm1Gb .roBaRaCoCh
  have hkeeps := h _ 10 0 [.getReadLatency 0 0 0 0 1000, .getReadLatency 0 0 0 0 900] hmemory
    [.getReadLatency 0 0 0 0 1000] (.getReadLatency 0 0 0 0 900) [] rfl
  have hin := (keepsClock_iff_of_reachable hmemory (Machine.reachable_run _) _).mp hkeeps
  have hlast := (inTime_iff (u := 1000) (by decide) rfl).mp hin
  exact absurd hlast (by decide)

end StackedDram.Ramulator.DramModel
