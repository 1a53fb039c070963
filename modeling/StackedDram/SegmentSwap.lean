import Mathlib.Algebra.BigOperators.Group.Finset.Basic
import StackedDram.Library.FirstMax
import StackedDram.Library.Machine

/-!
# Hot segments

`DramPerfModelConstant` of `dram_perf_model_constant.cc` has a fast memory in front of the slow one.
Six segments share each place of the fast memory, and the `SrcEntry` of the place counts how often
each of them is accessed. After every 20 accesses the segment with the most becomes the one that
occupies the place.

`SrcEntry.Tracks` relates an entry to the whole history of its accesses: the counters are those of
the accesses since the last multiple of 20. `accessEntry_spec` is what an access does after any
history; `DramPerfModelConstant.src_run` says that every place has its own history, and
`DramPerfModelConstant.swapTimes_le` bounds the swaps.
-/

namespace StackedDram

/-- `SrcEntry`: which of six segments occupies a place of the fast memory. -/
structure SrcEntry where
  /-- The segment that occupies the place. -/
  tag : ℕ
  count : ℕ
  /-- `m_access`, six counters. -/
  access : ℕ → ℕ
  startAddress : ℕ
  swapCount : ℕ

/-- The variables of the loop that looks for the most accessed segment. -/
structure SegmentScan where
  max : ℕ
  idx : ℕ
  access : ℕ → ℕ

/-- One round of the loop; the counter is cleared once it has been compared. -/
def SegmentScan.step (s : SegmentScan) (i : ℕ) : SegmentScan :=
  let s := if s.max < s.access i then { s with max := s.access i, idx := i } else s
  { s with access := Function.update s.access i 0 }

/-- The loop over the six counters. -/
def scanSegments (access : ℕ → ℕ) : SegmentScan :=
  (List.range 6).foldl SegmentScan.step { max := 0, idx := 0, access := access }

namespace SrcEntry

/-- The constructor of `SrcEntry`. -/
def new (segNum : ℕ) : SrcEntry where
  tag := 0
  count := 0
  access _ := 0
  startAddress := 2 ^ 20 * segNum % 2 ^ 32
  swapCount := 20

/-- `SrcEntry::accessEntry`: 2 stands for a hit, 1 for a swap, and 3 for both. -/
def accessEntry (e : SrcEntry) (n : ℕ) : SrcEntry × ℕ :=
  let e := { e with
    count := e.count + 1
    access := Function.update e.access n (e.access n + 1) }
  -- the hit is decided by the tag before a swap
  let hit := n = e.tag
  let (e, swap) :=
    if e.count = e.swapCount then
      let s := scanSegments e.access
      let e := { e with count := 0, access := s.access }
      if s.idx ≠ e.tag then ({ e with tag := s.idx }, true) else (e, false)
    else (e, false)
  (e, if hit then (if swap then 3 else 2) else if swap then 1 else 0)

/-- An entry that serves accesses to the segments that share its place. -/
def machine (segNum : ℕ) : Machine SrcEntry ℕ where
  init := new segNum
  step e n := (e.accessEntry n).1

end SrcEntry

/-! ## The scan -/

/-- `w` is the lowest-numbered of the six segments with the most accesses. -/
structure IsHottest (accesses : ℕ → ℕ) (w : ℕ) : Prop where
  lt : w < 6
  le : ∀ i < 6, accesses i ≤ accesses w
  first : ∀ i < w, accesses i < accesses w

section Scan

variable (access : ℕ → ℕ)

/-- Clearing the counters does not disturb the search: the loop compares what was counted. -/
theorem scanSegments_eq :
    ((scanSegments access).max, (scanSegments access).idx) =
        (List.range 6).foldl (keepBetter access) (0, 0) ∧
      ∀ j, (scanSegments access).access j = if j < 6 then 0 else access j := by
  -- after `k` rounds the first `k` counters have been compared and cleared
  refine foldl_range_invariant
    (P := fun k (s : SegmentScan) =>
      (s.max, s.idx) = (List.range k).foldl (keepBetter access) (0, 0) ∧
      ∀ j, s.access j = if j < k then 0 else access j)
    ⟨rfl, fun j => by simp⟩ ?_ 6 le_rfl
  rintro k s - ⟨hbest, haccess⟩
  have hk : s.access k = access k := by simp [haccess]
  constructor
  · rw [List.range_succ, List.foldl_append, ← hbest, List.foldl_cons, List.foldl_nil, keepBetter,
      SegmentScan.step, hk]
    split <;> rfl
  · intro j
    have hstep : (s.step k).access = Function.update s.access k 0 := by
      unfold SegmentScan.step
      split <;> rfl
    rw [hstep, Function.update_apply, haccess]
    split_ifs <;> omega

/-- The scan clears the six counters. -/
theorem scanSegments_access {j : ℕ} (hj : j < 6) : (scanSegments access).access j = 0 := by
  rw [(scanSegments_eq access).2, if_pos hj]

/-- The scan finds the hottest segment. -/
theorem isHottest_scanSegments : IsHottest access (scanSegments access).idx := by
  have hbest := (scanSegments_eq access).1
  rcases List.foldl_keepBetter access (List.range 6) (0, 0) with ⟨hzero, heq⟩ | ⟨w, -, hmax, heq⟩
  · -- nothing has been counted, and the loop ends where it started
    obtain ⟨-, hidx⟩ := Prod.mk.inj (hbest.trans heq)
    rw [hidx]
    refine ⟨by omega, fun i hi => ?_, by omega⟩
    have hi0 := hzero i (List.mem_range.mpr hi)
    omega
  · obtain ⟨-, hidx⟩ := Prod.mk.inj (hbest.trans heq)
    obtain ⟨hlt, hle, hfirst⟩ := hmax.of_range
    rw [hidx]
    exact ⟨hlt, hle, hfirst⟩

end Scan

/-! ## One access -/

namespace SrcEntry

variable (e : SrcEntry) (n : ℕ)

/-- The counters with the access to segment `n`. -/
def counted : ℕ → ℕ := Function.update e.access n (e.access n + 1)

/-- Inside a window an access is counted. -/
theorem accessEntry_fst_of_ne {e : SrcEntry} (h : e.count + 1 ≠ e.swapCount) :
    (e.accessEntry n).1 = { e with count := e.count + 1, access := e.counted n } := by
  simp [accessEntry, counted, h]

/-- The last access of a window starts the next one, with the hottest segment. -/
theorem accessEntry_fst_of_eq {e : SrcEntry} (h : e.count + 1 = e.swapCount) :
    (e.accessEntry n).1 = { e with
      tag := (scanSegments (e.counted n)).idx
      count := 0
      access := (scanSegments (e.counted n)).access } := by
  by_cases htag : (scanSegments (e.counted n)).idx = e.tag
  · simp only [counted] at htag
    simp [accessEntry, counted, h, htag]
  · simp only [counted] at htag
    simp [accessEntry, counted, h, htag]

/-- The code tells of a hit against the tag before the access and of a swap by comparing the two
tags. -/
theorem accessEntry_snd :
    (e.accessEntry n).2 =
      (if n = e.tag then 2 else 0) + if (e.accessEntry n).1.tag = e.tag then 0 else 1 := by
  unfold accessEntry
  dsimp only
  split_ifs <;> simp_all

/-- The codes that `getAccessLatency` takes for a swap. -/
theorem swap_iff :
    ((e.accessEntry n).2 = 1 ∨ (e.accessEntry n).2 = 3) ↔ (e.accessEntry n).1.tag ≠ e.tag := by
  rw [accessEntry_snd]
  split_ifs <;> simp_all

end SrcEntry

/-! ## Windows -/

/-- The accesses since the last multiple of 20. -/
def openWindow (ns : List ℕ) : List ℕ := ns.drop (20 * (ns.length / 20))

/-- The last 20 accesses. -/
def lastAccesses (ns : List ℕ) : List ℕ := ns.drop (ns.length - 20)

section Windows

variable (ns : List ℕ) (n : ℕ)

theorem length_openWindow : (openWindow ns).length = ns.length % 20 := by
  rw [openWindow, List.length_drop]
  omega

/-- An access joins the window that is open. -/
theorem openWindow_concat (h : ¬ 20 ∣ ns.length + 1) :
    openWindow (ns ++ [n]) = openWindow ns ++ [n] := by
  have hdiv : (ns.length + 1) / 20 = ns.length / 20 := by omega
  rw [openWindow, List.length_append, List.length_singleton, hdiv,
    List.drop_append_of_le_length (by omega), openWindow]

/-- Every 20th access closes the window. -/
theorem openWindow_concat_of_dvd (h : 20 ∣ ns.length + 1) : openWindow (ns ++ [n]) = [] := by
  rw [openWindow, List.drop_eq_nil_iff, List.length_append, List.length_singleton]
  omega

/-- The window that an access closes consists of the last 20 accesses. -/
theorem lastAccesses_concat (h : 20 ∣ ns.length + 1) :
    lastAccesses (ns ++ [n]) = openWindow ns ++ [n] := by
  have hlen : (ns ++ [n]).length - 20 = 20 * (ns.length / 20) := by
    rw [List.length_append, List.length_singleton]
    omega
  rw [lastAccesses, hlen, List.drop_append_of_le_length (by omega), openWindow]

end Windows

namespace SrcEntry

/-! ## Any number of accesses -/

/-- The entry `e` after the accesses `ns`. -/
structure Tracks (e : SrcEntry) (ns : List ℕ) : Prop where
  tag_lt : e.tag < 6
  count_eq : e.count = ns.length % 20
  access_eq : ∀ i < 6, e.access i = (openWindow ns).count i
  swapCount_eq : e.swapCount = 20

variable {e : SrcEntry} {ns : List ℕ} {n : ℕ}

theorem tracks_new (segNum : ℕ) : (new segNum).Tracks [] where
  tag_lt := by simp [new]
  count_eq := rfl
  access_eq _ _ := rfl
  swapCount_eq := rfl

/-- The window ends with every 20th access. -/
theorem Tracks.closes_iff (h : e.Tracks ns) : e.count + 1 = e.swapCount ↔ 20 ∣ ns.length + 1 := by
  rw [h.count_eq, h.swapCount_eq]
  omega

/-- The counters with an access are those of the open window with it. -/
theorem Tracks.counted_eq (h : e.Tracks ns) {i : ℕ} (hi : i < 6) :
    e.counted n i = (openWindow ns ++ [n]).count i := by
  rw [counted, Function.update_apply, List.count_append, List.count_singleton, ← h.access_eq i hi]
  by_cases hin : i = n
  · subst hin
    simp
  · simp [hin, Ne.symm hin]

/-- An access keeps the relation. -/
theorem Tracks.accessEntry (h : e.Tracks ns) (n : ℕ) :
    (e.accessEntry n).1.Tracks (ns ++ [n]) := by
  by_cases hclose : 20 ∣ ns.length + 1
  · -- the window is closed: the next one is empty, and so are the counters
    have hhot := isHottest_scanSegments (e.counted n)
    have hcleared := fun i => scanSegments_access (e.counted n) (j := i)
    rw [accessEntry_fst_of_eq n (h.closes_iff.mpr hclose)]
    generalize scanSegments (e.counted n) = s at hhot hcleared ⊢
    refine ⟨hhot.lt, ?_, fun i hi => ?_, h.swapCount_eq⟩
    · rw [List.length_append, List.length_singleton]
      exact (Nat.mod_eq_zero_of_dvd hclose).symm
    · rw [openWindow_concat_of_dvd ns n hclose]
      exact hcleared i hi
  · -- the window stays open, with one access more
    rw [accessEntry_fst_of_ne n (mt h.closes_iff.mp hclose)]
    refine ⟨h.tag_lt, ?_, fun i hi => ?_, h.swapCount_eq⟩
    · have hcount := h.count_eq
      simp only [List.length_append, List.length_singleton]
      omega
    · rw [openWindow_concat ns n hclose]
      exact h.counted_eq hi

/-- An entry tracks its whole history. -/
theorem tracks_run (segNum : ℕ) (ns : List ℕ) : ((machine segNum).run ns).Tracks ns := by
  induction ns using List.reverseRecOn with
  | nil => exact tracks_new segNum
  | append_singleton ns n ih =>
    rw [Machine.run_concat]
    exact ih.accessEntry n

/-- The six counters add up to the number of accesses of the open window. -/
theorem Tracks.sum_access (h : e.Tracks ns) (hns : ∀ n ∈ ns, n < 6) :
    ∑ i ∈ Finset.range 6, e.access i = e.count := by
  have hwindow : ∀ n ∈ openWindow ns, n ∈ Finset.range 6 := fun n hn =>
    Finset.mem_range.mpr (hns n (List.mem_of_mem_drop hn))
  calc ∑ i ∈ Finset.range 6, e.access i
      = ∑ i ∈ Finset.range 6, (openWindow ns : Multiset ℕ).count i :=
        Finset.sum_congr rfl fun i hi => by
          rw [h.access_eq i (Finset.mem_range.mp hi), Multiset.coe_count]
    _ = (openWindow ns).length := Multiset.sum_count_eq_card hwindow
    _ = e.count := by rw [length_openWindow, h.count_eq]

/-- The tag changes with the last access of a window only, to the hottest segment of the window. -/
theorem Tracks.tag_accessEntry (h : e.Tracks ns) (n : ℕ) :
    if 20 ∣ ns.length + 1 then
      IsHottest (fun i => (lastAccesses (ns ++ [n])).count i) (e.accessEntry n).1.tag
    else (e.accessEntry n).1.tag = e.tag := by
  split
  case isTrue hclose =>
    have hhot := isHottest_scanSegments (e.counted n)
    rw [accessEntry_fst_of_eq n (h.closes_iff.mpr hclose), lastAccesses_concat ns n hclose]
    -- the counters are those of the last 20 accesses
    have hcounted : ∀ i < 6, (openWindow ns ++ [n]).count i = e.counted n i := fun i hi =>
      (h.counted_eq hi).symm
    generalize scanSegments (e.counted n) = s at hhot ⊢
    refine ⟨hhot.lt, fun i hi => ?_, fun i hi => ?_⟩
    · rw [hcounted i hi, hcounted _ hhot.lt]
      exact hhot.le i hi
    · rw [hcounted i (hi.trans hhot.lt), hcounted _ hhot.lt]
      exact hhot.first i hi
  case isFalse hclose => rw [accessEntry_fst_of_ne n (mt h.closes_iff.mp hclose)]

/-- After any history of accesses to the six segments: the counters belong to the open window, and
the next access swaps only when it is a 20th one, to the first segment with the most of the last 20
accesses, and reports the hit and the swap. -/
theorem accessEntry_spec (segNum : ℕ) (ns : List ℕ) (hns : ∀ m ∈ ns, m < 6) (e : SrcEntry)
    (he : e = (machine segNum).run ns) :
    ∑ i ∈ Finset.range 6, e.access i = e.count ∧ e.count < 20 ∧ e.tag < 6 ∧
      ∀ n < 6,
        (if 20 ∣ ns.length + 1 then
          IsHottest (fun i => (lastAccesses (ns ++ [n])).count i) (e.accessEntry n).1.tag
        else (e.accessEntry n).1.tag = e.tag) ∧
        (e.accessEntry n).2 =
          (if n = e.tag then 2 else 0) + if (e.accessEntry n).1.tag = e.tag then 0 else 1 := by
  have htracks : e.Tracks ns := he ▸ tracks_run segNum ns
  refine ⟨htracks.sum_access hns, ?_, htracks.tag_lt, fun n _ => ?_⟩
  · rw [htracks.count_eq]
    exact Nat.mod_lt _ (by decide)
  · exact ⟨htracks.tag_accessEntry n, e.accessEntry_snd n⟩

/-- Segment 4 wins a window of which it has all accesses. -/
theorem accessEntry_spec_nineteen :
    IsHottest (fun i => (lastAccesses (List.replicate 19 4 ++ [4])).count i)
      (((machine 0).run (List.replicate 19 4)).accessEntry 4).1.tag :=
  ((accessEntry_spec 0 (List.replicate 19 4) (by decide) _ rfl).2.2.2 4 (by decide)).1

/-- A swap uses up a window. -/
theorem Tracks.count_add_swap (h : e.Tracks ns) (n : ℕ) :
    (e.accessEntry n).1.count +
        20 * (if (e.accessEntry n).2 = 1 ∨ (e.accessEntry n).2 = 3 then 1 else 0) ≤
      e.count + 1 := by
  by_cases hclose : e.count + 1 = e.swapCount
  · -- the counter falls from 19 to 0, which pays for the swap
    have hcount : (e.accessEntry n).1.count = 0 := by rw [accessEntry_fst_of_eq n hclose]
    have hswap := h.swapCount_eq
    split <;> omega
  · -- the tag does not change
    have hnoswap : ¬ ((e.accessEntry n).2 = 1 ∨ (e.accessEntry n).2 = 3) := by
      rw [swap_iff, accessEntry_fst_of_ne n hclose]
      exact fun hne => hne rfl
    rw [if_neg hnoswap, accessEntry_fst_of_ne n hclose]

end SrcEntry

/-! ## The places of the fast memory -/

/-- A request as `DramPerfModelConstant::getAccessLatency` receives it. -/
structure MemoryAccess where
  address : ℕ
  /-- The model is enabled and the requester is an application core. -/
  counted : Bool

/-- The part of `DramPerfModelConstant` that concerns the segments. -/
structure DramPerfModelConstant where
  /-- `SRC`, one entry for every place. -/
  src : ℕ → SrcEntry
  totAccess : BitVec 32
  swapTimes : BitVec 32

namespace DramPerfModelConstant

/-- `seg_num`: 4 GB of fast memory in segments of 1 MB. -/
def segNum : ℕ := 4 * 1024 / 1

/-- `src_n`, the place of an address. -/
def srcN (address : ℕ) : ℕ := (address >>> 20) % segNum

/-- `nth_seg`, its segment among those that share the place. -/
def nthSeg (address : ℕ) : ℕ := ((address >>> 20) / segNum) % 6

/-- The constructor of `DramPerfModelConstant`. -/
def new : DramPerfModelConstant where
  src i := SrcEntry.new i
  totAccess := 0
  swapTimes := 0

/-- What `getAccessLatency` does with the entries and their statistics. -/
def access (D : DramPerfModelConstant) (a : MemoryAccess) : DramPerfModelConstant :=
  let (entry, rst) := (D.src (srcN a.address)).accessEntry (nthSeg a.address)
  let D := { D with src := Function.update D.src (srcN a.address) entry }
  -- the entry has been accessed also when the model returns without a delay
  if !a.counted then D
  else { D with
    totAccess := D.totAccess + 1
    swapTimes := D.swapTimes + if rst = 1 ∨ rst = 3 then 1 else 0 }

/-- The model under a sequence of requests. -/
def machine : Machine DramPerfModelConstant MemoryAccess where
  init := new
  step := access

theorem machine_step (D : DramPerfModelConstant) (a : MemoryAccess) :
    machine.step D a = D.access a := rfl

theorem srcN_lt (address : ℕ) : srcN address < segNum := Nat.mod_lt _ (by decide)

/-- Every address belongs to one of the six segments. -/
theorem nthSeg_lt (address : ℕ) : nthSeg address < 6 := Nat.mod_lt _ (by decide)

/-- The segments accessed at the place `k`. -/
def segmentsAt (as : List MemoryAccess) (k : ℕ) : List ℕ :=
  (as.filter fun a => srcN a.address = k).map fun a => nthSeg a.address

theorem access_src (D : DramPerfModelConstant) (a : MemoryAccess) :
    (D.access a).src = Function.update D.src (srcN a.address)
      ((D.src (srcN a.address)).accessEntry (nthSeg a.address)).1 := by
  unfold access
  dsimp only
  split <;> rfl

theorem segmentsAt_concat (as : List MemoryAccess) (a : MemoryAccess) (k : ℕ) :
    segmentsAt (as ++ [a]) k =
      if srcN a.address = k then segmentsAt as k ++ [nthSeg a.address] else segmentsAt as k := by
  by_cases hk : srcN a.address = k <;> simp [segmentsAt, hk]

/-- Every entry serves the accesses to its own place. -/
theorem src_run (as : List MemoryAccess) (k : ℕ) :
    (machine.run as).src k = (SrcEntry.machine k).run (segmentsAt as k) := by
  induction as using List.reverseRecOn with
  | nil => rfl
  | append_singleton as a ih =>
    rw [Machine.run_concat, machine_step, access_src, segmentsAt_concat]
    -- the request goes to the entry `k`, or to another one
    by_cases hk : srcN a.address = k
    · subst hk
      rw [Function.update_self, if_pos rfl, Machine.run_concat, ih, SrcEntry.machine]
    · rw [Function.update_of_ne (Ne.symm hk), if_neg hk, ih]

/-- The entries see segments below six only. -/
theorem lt_of_mem_segmentsAt {as : List MemoryAccess} {k n : ℕ} (hn : n ∈ segmentsAt as k) :
    n < 6 := by
  obtain ⟨a, -, rfl⟩ := List.mem_map.mp hn
  exact nthSeg_lt a.address

/-- In every run the counters of every entry add up to the accesses of its open window. -/
theorem sum_access_src (as : List MemoryAccess) (k : ℕ) :
    ∑ i ∈ Finset.range 6, ((machine.run as).src k).access i = ((machine.run as).src k).count := by
  rw [src_run]
  exact (SrcEntry.tracks_run k (segmentsAt as k)).sum_access fun n hn => lt_of_mem_segmentsAt hn

/-- Only a swap of the accessed entry is counted. -/
theorem access_swapTimes_le (D : DramPerfModelConstant) (a : MemoryAccess) :
    (D.access a).swapTimes.toNat ≤ D.swapTimes.toNat +
      if ((D.src (srcN a.address)).accessEntry (nthSeg a.address)).2 = 1 ∨
        ((D.src (srcN a.address)).accessEntry (nthSeg a.address)).2 = 3 then 1 else 0 := by
  unfold access
  dsimp only
  split
  · exact Nat.le_add_right _ _
  · split
    · exact (BitVec.toNat_add _ _).trans_le (Nat.mod_le _ _)
    · exact (congrArg BitVec.toNat (BitVec.add_zero _)).le

/-- The accesses of the open windows, and 20 for every swap. -/
def charge (D : DramPerfModelConstant) : ℕ :=
  ∑ k ∈ Finset.range segNum, (D.src k).count + 20 * D.swapTimes.toNat

/-- A request is charged once. -/
theorem charge_access_le {D : DramPerfModelConstant} {a : MemoryAccess} {ns : List ℕ}
    (h : (D.src (srcN a.address)).Tracks ns) : (D.access a).charge ≤ D.charge + 1 := by
  have hk := Finset.mem_range.mpr (srcN_lt a.address)
  have hcost := h.count_add_swap (nthSeg a.address)
  have hswaps := access_swapTimes_le D a
  -- the other entries are as before
  have hothers : ∑ k ∈ (Finset.range segNum).erase (srcN a.address), ((D.access a).src k).count =
      ∑ k ∈ (Finset.range segNum).erase (srcN a.address), (D.src k).count :=
    Finset.sum_congr rfl fun k hk => by
      rw [access_src, Function.update_of_ne (Finset.ne_of_mem_erase hk)]
  rw [charge, charge, ← Finset.add_sum_erase _ _ hk, ← Finset.add_sum_erase _ _ hk, hothers,
    access_src, Function.update_self]
  omega

/-- At most every 20th request swaps. -/
theorem swapTimes_le (as : List MemoryAccess) :
    20 * (machine.run as).swapTimes.toNat ≤ as.length := by
  have hcharge : (machine.run as).charge ≤ as.length := by
    induction as using List.reverseRecOn with
    | nil => simp [machine, new, SrcEntry.new, charge]
    | append_singleton as a ih =>
      have htracks : ((machine.run as).src (srcN a.address)).Tracks
          (segmentsAt as (srcN a.address)) := src_run as _ ▸ SrcEntry.tracks_run _ _
      rw [Machine.run_concat, machine_step, List.length_append, List.length_singleton]
      exact (charge_access_le htracks).trans (Nat.add_le_add_right ih 1)
  exact (Nat.le_add_left _ _).trans hcharge

end DramPerfModelConstant
end StackedDram
