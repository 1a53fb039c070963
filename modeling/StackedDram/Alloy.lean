import Mathlib.Logic.Function.Basic
import StackedDram.Library.Machine
import StackedDram.SetSplit

/-!
# The Alloy cache

`dram_perf_model_alloy.cc` has a direct-mapped cache of blocks: `SplitAddress` divides an address
into a tag, the number of a set and the offset in a block, and `ProcessRequest` looks the tag up and
replaces the block of the set when it is another one.

All sets are used when their number is a power of two and only then (`usesEverySet_iff`), but the
controller is constructed with `2 ^ 19 * 28` sets. On those that are used the cache is direct mapped
(`alloy_directMapped`). Reads and writes are counted in `int`s, so the counts are right for fewer
than `2 ^ 31` requests and not for more (`not_alloy_counts`).
-/

namespace StackedDram

/-- What `StackDramCacheCntlrAlloy` is constructed from. -/
structure AlloyConfig extends SetSplit where
  associativity : ℕ

namespace AlloyConfig

/-- Every set is used if and only if the number of sets is a power of two. -/
theorem usesEverySet_iff (P : Platform) (cfg : AlloyConfig) :
    cfg.UsesEverySet P ↔ ∃ k, cfg.setNum = 2 ^ k := by
  constructor
  · -- otherwise the set whose number is the largest power of two is nobody's home
    intro h
    refine ⟨cfg.setBits P, le_antisymm (not_lt.mp fun hlt => ?_) (cfg.two_pow_setBits_le P)⟩
    exact ((cfg.exists_home_iff P _).mp (h.home _ hlt)).false
  · rintro ⟨k, hk⟩
    exact SetSplit.usesEverySet_of_two_pow P hk

/-- What `DramPerfModelAlloy` constructs its controller from: 28 blocks in every row of 8 KB. -/
def ofModel : AlloyConfig where
  setNum := stackedDramSize / stackedSetSize * 28
  size := stackedBlockSize
  associativity := 1
  setNum_pos := by decide
  setNum_lt := by decide
  size_pos := by decide
  size_lt := by decide

/-- More than two fifths of the sets are never used. -/
theorem not_usesEverySet_ofModel : ¬ ofModel.UsesEverySet .x86 := by
  intro h
  have hbits : ofModel.setBits .x86 = 23 := by
    change Nat.log 2 14680064 = 23
    exact Nat.log_eq_of_pow_le_of_lt_pow (by decide) (by decide)
  obtain ⟨address, -, heq⟩ := h.home (2 ^ 23) (by decide)
  have hlt := ofModel.splitAddress_setN_lt .x86 address
  rw [heq, hbits] at hlt
  exact hlt.false

end AlloyConfig

/-! ## The cache -/

/-- `DramCacheBlockInfo`. -/
structure DramCacheBlockInfo where
  tag : ℕ
  vbit : ℕ
  dbit : ℕ

/-- The constructor of `DramCacheBlockInfo`. -/
def DramCacheBlockInfo.new : DramCacheBlockInfo where
  tag := invalidTag
  vbit := 2 ^ 32 - 1
  dbit := 0

/-- `DramCacheSetAlloy`. -/
structure DramCacheSetAlloy where
  blocks : ℕ → DramCacheBlockInfo
  associativity : ℕ
  reads : BitVec 32
  writes : BitVec 32

namespace DramCacheSetAlloy

/-- The constructor of `DramCacheSetAlloy`. -/
def new (associativity : ℕ) : DramCacheSetAlloy where
  blocks _ := .new
  associativity := associativity
  reads := 0
  writes := 0

/-- `DramCacheSetAlloy::getReplacementIndex`. -/
def getReplacementIndex (_ : DramCacheSetAlloy) : ℕ := 0

/-- `DramCacheSetAlloy::updateReplacementIndexTag`. -/
def updateReplacementIndexTag (S : DramCacheSetAlloy) (index tag : ℕ) : DramCacheSetAlloy :=
  { S with
    blocks := Function.update S.blocks index { tag, vbit := 1, dbit := 0 }
    writes := S.writes + 1 }

/-- `DramCacheSetAlloy::accessAttempt`, which uses neither the operation nor the offset. -/
def accessAttempt (S : DramCacheSetAlloy) (tag : ℕ) : DramCacheSetAlloy × Bool :=
  ({ S with reads := S.reads + 1 },
    (List.range S.associativity).any fun i => (S.blocks i).tag = tag)

/-- What `ProcessRequest` does with the set of an address. -/
def serve (S : DramCacheSetAlloy) (tag : ℕ) : DramCacheSetAlloy :=
  let (S, hit) := S.accessAttempt tag
  if !hit then
    let S := { S with reads := S.reads + 1 }
    S.updateReplacementIndexTag S.getReplacementIndex tag
  else S

theorem serve_associativity (S : DramCacheSetAlloy) (tag : ℕ) :
    (S.serve tag).associativity = S.associativity := by
  unfold serve
  dsimp only
  split <;> rfl

/-- A direct-mapped set holds the requested block afterwards. -/
theorem serve_tag {S : DramCacheSetAlloy} (h : S.associativity = 1) (tag : ℕ) :
    ((S.serve tag).blocks 0).tag = tag := by
  unfold serve
  dsimp only
  split
  case isTrue => simp [updateReplacementIndexTag, getReplacementIndex]
  case isFalse hhit => simpa [accessAttempt, h] using hhit

end DramCacheSetAlloy

/-- A request of the last-level cache, with a 64-bit address. -/
structure AlloyRequest where
  type : AccessType
  address : ℕ
  address_lt : address < 2 ^ 64

/-- `StackedDramPerfAlloy::getAccessLatency`. -/
def alloyAccessLatency (_pktSize _setI : ℕ) (_type : AccessType) : ℕ := 0

/-- `StackDramCacheCntlrAlloy`, with its `dram_stats`. -/
structure StackDramCacheCntlrAlloy where
  setArray : ℕ → DramCacheSetAlloy
  reads : BitVec 32
  writes : BitVec 32
  /-- A `double`. -/
  misses : ℕ

namespace StackDramCacheCntlrAlloy

variable (P : Platform) (cfg : AlloyConfig)

/-- The constructor of `StackDramCacheCntlrAlloy`. -/
def new : StackDramCacheCntlrAlloy where
  setArray _ := .new cfg.associativity
  reads := 0
  writes := 0
  misses := 0

/-- The result of the lookup with which `ProcessRequest` begins. -/
def hit (C : StackDramCacheCntlrAlloy) (q : AlloyRequest) : Bool :=
  let b := cfg.splitAddress P q.address
  ((C.setArray b.setN).accessAttempt b.tag).2

/-- `StackDramCacheCntlrAlloy::ProcessRequest`, and the delay that it returns. -/
def processRequest (C : StackDramCacheCntlrAlloy) (q : AlloyRequest) :
    StackDramCacheCntlrAlloy × ℕ :=
  let b := cfg.splitAddress P q.address
  let (S, hit) := (C.setArray b.setN).accessAttempt b.tag
  -- 28 blocks with their tags are in one row
  let rowI := b.setN / 28
  let dramDelay := alloyAccessLatency 32 rowI .read
  let (S, dramDelay, modelDelay) :=
    if !hit then
      let S := { S with reads := S.reads + 1 }
      let index := S.getReplacementIndex
      (S.updateReplacementIndexTag index b.tag,
        dramDelay + alloyAccessLatency 32 rowI .write, P.getRoundedLatency (8 * 2 * 1024))
    else (S, dramDelay, 0)
  let dramDelay := dramDelay + alloyAccessLatency 32 rowI q.type
  let C := { C with setArray := Function.update C.setArray b.setN S }
  let C :=
    if q.type = .write then
      { C with writes := C.writes + 1, misses := if !hit then C.misses + 1 else C.misses }
    else { C with reads := C.reads + 1, misses := if !hit then C.misses + 1 else C.misses }
  (C, modelDelay + dramDelay)

/-- The controller under a sequence of requests. -/
def machine : Machine StackDramCacheCntlrAlloy AlloyRequest where
  init := new cfg
  step C q := (C.processRequest P cfg q).1

/-! ## One request -/

section Request

variable (C : StackDramCacheCntlrAlloy) (q : AlloyRequest)

theorem processRequest_reads :
    (C.processRequest P cfg q).1.reads =
      C.reads + .ofNat 32 (if q.type ≠ .write then 1 else 0) := by
  unfold processRequest
  dsimp only
  split <;> simp_all

theorem processRequest_writes :
    (C.processRequest P cfg q).1.writes =
      C.writes + .ofNat 32 (if q.type = .write then 1 else 0) := by
  unfold processRequest
  dsimp only
  split <;> simp_all

theorem processRequest_misses :
    (C.processRequest P cfg q).1.misses = C.misses + if C.hit P cfg q then 0 else 1 := by
  unfold processRequest hit
  dsimp only
  split <;> split <;> simp_all

/-- A request touches the set of its address only. -/
theorem processRequest_setArray :
    (C.processRequest P cfg q).1.setArray =
      Function.update C.setArray (cfg.splitAddress P q.address).setN
        ((C.setArray (cfg.splitAddress P q.address).setN).serve
          (cfg.splitAddress P q.address).tag) := by
  unfold processRequest DramCacheSetAlloy.serve
  dsimp only
  split
  all_goals
    dsimp only
    congr 1
    split <;> rfl

end Request

/-! ## Any number of requests -/

/-- The most recent request to the set `s`. -/
def lastTo (reqs : List AlloyRequest) (s : ℕ) : Option AlloyRequest :=
  (reqs.filter fun q => (cfg.splitAddress P q.address).setN = s).getLast?

/-- Every set has one way, with the block of the most recent request to the set. -/
structure DirectMapped (C : StackDramCacheCntlrAlloy) (reqs : List AlloyRequest) : Prop where
  associativity_eq : ∀ s, (C.setArray s).associativity = 1
  tag_eq : ∀ s, ((C.setArray s).blocks 0).tag =
    ((lastTo P cfg reqs s).map fun q => (cfg.splitAddress P q.address).tag).getD invalidTag

variable {P cfg} {C : StackDramCacheCntlrAlloy} {reqs : List AlloyRequest}

theorem lastTo_concat (reqs : List AlloyRequest) (q : AlloyRequest) (s : ℕ) :
    lastTo P cfg (reqs ++ [q]) s =
      if (cfg.splitAddress P q.address).setN = s then some q else lastTo P cfg reqs s := by
  by_cases hs : (cfg.splitAddress P q.address).setN = s <;> simp [lastTo, hs]

theorem setN_of_lastTo {s : ℕ} {q : AlloyRequest} (h : lastTo P cfg reqs s = some q) :
    (cfg.splitAddress P q.address).setN = s := by
  simpa using (List.mem_filter.mp (List.mem_of_getLast? h)).2

theorem DirectMapped.processRequest (h : DirectMapped P cfg C reqs) (q : AlloyRequest) :
    DirectMapped P cfg (C.processRequest P cfg q).1 (reqs ++ [q]) := by
  refine ⟨fun s => ?_, fun s => ?_⟩
  all_goals
    rw [processRequest_setArray]
    by_cases hs : s = (cfg.splitAddress P q.address).setN
  · rw [hs, Function.update_self, DramCacheSetAlloy.serve_associativity, h.associativity_eq]
  · rw [Function.update_of_ne hs, h.associativity_eq]
  · rw [hs, Function.update_self, DramCacheSetAlloy.serve_tag (h.associativity_eq _), lastTo_concat,
      if_pos rfl]
    rfl
  · rw [Function.update_of_ne hs, h.tag_eq, lastTo_concat, if_neg (Ne.symm hs)]

theorem directMapped_run (hassoc : cfg.associativity = 1) (reqs : List AlloyRequest) :
    DirectMapped P cfg ((machine P cfg).run reqs) reqs := by
  induction reqs using List.reverseRecOn with
  | nil => exact ⟨fun _ => hassoc, fun _ => rfl⟩
  | append_singleton reqs q ih =>
    rw [Machine.run_concat]
    exact ih.processRequest q

/-- The lookup compares the tag with that of the one way. -/
theorem DirectMapped.hit_iff (h : DirectMapped P cfg C reqs) (q : AlloyRequest) :
    C.hit P cfg q = true ↔
      ((C.setArray (cfg.splitAddress P q.address).setN).blocks 0).tag =
        (cfg.splitAddress P q.address).tag := by
  simp [hit, DramCacheSetAlloy.accessAttempt, h.associativity_eq]

/-- Blocks of 64 bytes have no invalid tag. -/
theorem tag_ne_invalidTag (hsize : cfg.size = 64) (q : AlloyRequest) :
    (cfg.splitAddress P q.address).tag ≠ invalidTag := by
  have hblock : q.address / cfg.size < invalidTag := by
    have haddress := q.address_lt
    rw [hsize, invalidTag]
    omega
  rw [SetSplit.splitAddress_tag]
  exact ((Nat.div_le_self _ _).trans_lt hblock).ne

/-- A request hits if and only if the most recent one to its set was to the same line. -/
theorem hit_run_iff (hassoc : cfg.associativity = 1) (hsize : cfg.size = 64)
    (reqs : List AlloyRequest) (q : AlloyRequest) :
    ((machine P cfg).run reqs).hit P cfg q = true ↔
      ∃ q', lastTo P cfg reqs (cfg.splitAddress P q.address).setN = some q' ∧
        q'.address / 64 = q.address / 64 := by
  have hdm := directMapped_run (P := P) hassoc reqs
  rw [hdm.hit_iff, hdm.tag_eq]
  cases hlast : lastTo P cfg reqs (cfg.splitAddress P q.address).setN with
  | none => simp [(tag_ne_invalidTag hsize q).symm]
  | some q' =>
    simp only [Option.map_some, Option.getD_some, Option.some.injEq, exists_eq_left']
    rw [cfg.tag_eq_iff P (setN_of_lastTo hlast), hsize]

/-- Every request is counted as a read or as a write. -/
theorem reads_run (reqs : List AlloyRequest) :
    ((machine P cfg).run reqs).reads = .ofNat 32 (reqs.countP fun q => q.type ≠ .write) := by
  induction reqs using List.reverseRecOn with
  | nil => rfl
  | append_singleton reqs q ih =>
    rw [Machine.run_concat, List.countP_append, List.countP_singleton, BitVec.ofNat_add, ← ih]
    simpa [machine] using processRequest_reads P cfg ((machine P cfg).run reqs) q

theorem writes_run (reqs : List AlloyRequest) :
    ((machine P cfg).run reqs).writes = .ofNat 32 (reqs.countP fun q => q.type = .write) := by
  induction reqs using List.reverseRecOn with
  | nil => rfl
  | append_singleton reqs q ih =>
    rw [Machine.run_concat, List.countP_append, List.countP_singleton, BitVec.ofNat_add, ← ih]
    simpa [machine] using processRequest_writes P cfg ((machine P cfg).run reqs) q

/-- Fewer than `2 ^ 31` requests do not overflow the counters. -/
theorem reads_add_writes_run {reqs : List AlloyRequest} (hlt : reqs.length < 2 ^ 31) :
    ((machine P cfg).run reqs).reads.toInt + ((machine P cfg).run reqs).writes.toInt =
      reqs.length := by
  have htoInt {n : ℕ} (hn : n < 2 ^ 31) : (BitVec.ofNat 32 n).toInt = n := by
    rw [BitVec.toInt_eq_toNat_of_lt (by rw [BitVec.toNat_ofNat]; omega), BitVec.toNat_ofNat,
      Nat.mod_eq_of_lt (by omega)]
  have hlength : reqs.length = _ :=
    List.length_eq_countP_add_countP fun q : AlloyRequest => q.type = .write
  rw [reads_run, writes_run, htoInt (List.countP_le_length.trans_lt hlt),
    htoInt (List.countP_le_length.trans_lt hlt)]
  simp only [decide_eq_true_eq] at hlength
  simp only [ne_eq]
  omega

/-- Every miss is counted. -/
theorem misses_run (reqs : List AlloyRequest) :
    ((machine P cfg).run reqs).misses =
      (machine P cfg).tally (fun C q => if C.hit P cfg q then 0 else 1) reqs := by
  induction reqs using List.reverseRecOn with
  | nil => rfl
  | append_singleton reqs q ih =>
    rw [Machine.run_concat, Machine.tally_concat, ← ih]
    exact processRequest_misses P cfg _ q

/-- The controller is a direct-mapped cache of 64-byte lines, and it counts fewer than `2 ^ 31`
requests and their misses. -/
theorem alloy_directMapped (P : Platform) (cfg : AlloyConfig) (hassoc : cfg.associativity = 1)
    (hsize : cfg.size = 64) (reqs : List AlloyRequest) :
    (∀ q : AlloyRequest, ((machine P cfg).run reqs).hit P cfg q = true ↔
      ∃ q', lastTo P cfg reqs (cfg.splitAddress P q.address).setN = some q' ∧
        q'.address / 64 = q.address / 64) ∧
    (∀ q : AlloyRequest,
      (∀ q' ∈ reqs, (cfg.splitAddress P q'.address).setN ≠ (cfg.splitAddress P q.address).setN) →
        ((machine P cfg).run reqs).hit P cfg q = false) ∧
    (reqs.length < 2 ^ 31 →
      ((machine P cfg).run reqs).reads.toInt + ((machine P cfg).run reqs).writes.toInt =
          reqs.length ∧
        ((machine P cfg).run reqs).misses =
          (machine P cfg).tally (fun C q => if C.hit P cfg q then 0 else 1) reqs) := by
  refine ⟨hit_run_iff hassoc hsize reqs, fun q hq => ?_, fun hlt =>
    ⟨reads_add_writes_run hlt, misses_run reqs⟩⟩
  -- no request went to the set, so there is no most recent one
  rw [← Bool.not_eq_true, hit_run_iff hassoc hsize]
  rintro ⟨q', hlast, -⟩
  exact hq q' (List.mem_filter.mp (List.mem_of_getLast? hlast)).1 (setN_of_lastTo hlast)

/-- Addresses 64 and 100 are on one line. -/
theorem alloy_directMapped_ofModel :
    let C := (machine .x86 .ofModel).run [⟨.write, 64, by decide⟩]
    C.hit .x86 .ofModel ⟨.read, 100, by decide⟩ = true ∧ C.reads.toInt + C.writes.toInt = 1 := by
  intro C
  have h := alloy_directMapped .x86 .ofModel rfl rfl [⟨.write, 64, by decide⟩]
  refine ⟨(h.1 _).mpr ⟨⟨.write, 64, by decide⟩, ?_, rfl⟩, (h.2.2 (by decide)).1⟩
  have hset : (AlloyConfig.ofModel.splitAddress .x86 64).setN =
      (AlloyConfig.ofModel.splitAddress .x86 100).setN := by
    rw [SetSplit.splitAddress_setN, SetSplit.splitAddress_setN]
    rfl
  simp only [lastTo, List.filter_singleton, hset, decide_true]
  rfl

/-- The reads of `2 ^ 31` requests are counted as a negative number. -/
theorem not_alloy_counts :
    ¬ ∀ reqs : List AlloyRequest,
      ((machine .x86 .ofModel).run reqs).reads.toInt +
        ((machine .x86 .ofModel).run reqs).writes.toInt = reqs.length := by
  intro h
  have hcounts := h (List.replicate (2 ^ 31) ⟨.read, 0, by decide⟩)
  rw [reads_run, writes_run, List.countP_replicate, List.countP_replicate, if_pos (by decide),
    if_neg (by decide), List.length_replicate] at hcounts
  exact absurd hcounts (by decide)

end StackDramCacheCntlrAlloy
end StackedDram
