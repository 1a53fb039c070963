import Mathlib.Data.Nat.Log
import Mathlib.Data.BitVec

/-!
# What the whole model shares

The constants of `fixed_types.h`, the error messages that the modelled functions print, the kinds
of memory accesses, and `Platform`: the functions that the code takes from outside the repository.

A number has the width of its type in the code. Event counters of the types `UInt32` and `int` and
the block masks of a page are `BitVec 32`s, which wrap around; numbers of banks, sets and rows and
the counts in `mea_map` are natural numbers reduced modulo `2 ^ 32` where the code's type would
wrap. Counters that the code keeps in `double`s, as the statistics of the DRAM simulator do, are
natural numbers, and so are those of the type `long` and the numbers that the code forgets before
they grow: the accesses of a window of 20, and the attempts of one update of the latencies. Times
are natural numbers of femtoseconds, as in `SubsecondTime`.
-/

namespace StackedDram

/-- `StackedPageSize`: bytes in a page of the DRAM cache, 31 blocks. -/
def stackedPageSize : ℕ := 1984

/-- `StackedBlockSize`: bytes in a block. -/
def stackedBlockSize : ℕ := 64

/-- The tag `(IntPtr) ~0` of a way that holds no page. -/
def invalidTag : ℕ := 2 ^ 64 - 1

/-- The error messages that the modelled functions write to the standard output. -/
inductive Message where
  /-- Printed by `BankStat::combineWith` when the target already belongs to a pair. -/
  | combineWithCombined
  /-- Printed by `BankStat::combineWith` when the target already has a source. -/
  | remapIdSet
  /-- Printed by `RemappingManager::resetBank` when the target does not lead back to the source. -/
  | notCombined
  /-- Printed by `RemappingManager::resetBank` for an unknown `_n_remap`. -/
  | unrecognizedRemapPolicy
  /-- Printed by `RemappingManager::runMechanism` for an unknown `_n_remap`. -/
  | unrecognizedPolicy
  /-- Printed by `StackedDramPerfUnison` when decoding and encoding a set number disagree. -/
  | setNumber
  /-- Printed by `StackedDramPerfUnison::getRemapSet` for a redirection without a policy for it. -/
  | impossibleSet (set remapSet : ℕ)
  /-- Printed by `splitSetNum` and `getSetNum` for an unknown `addr_map`. -/
  | setAddressMapping
  /-- Printed by `DramCacheSetUnison::updateUsedInfo` when no way holds the tag. -/
  | updateTag
  deriving DecidableEq, Repr

/-- The text of a message, as the code prints it. -/
def Message.text : Message → String
  | combineWithCombined => "[Error] Combine with a already combined bank!\n"
  | remapIdSet => "[Error] The bank's remap_id has been set!\n"
  | notCombined => "[Error] This bank is not combined with current bank!\n"
  | unrecognizedRemapPolicy => "[Error] unrecognized remap policy!\n"
  | unrecognizedPolicy => "[Error] unrecognized policy!\n"
  | setNumber => "[ERROR] HooHoo, there is a problem with set number!\n"
  | impossibleSet set remapSet =>
    "[Error] impossible set number!" ++ toString set ++ ", " ++ toString remapSet ++ "\n"
  | setAddressMapping => "[Config Error] No such set address mapping configuration!\n"
  | updateTag => "ERROR: update tag\n"

/-- `DramCntlrInterface::access_t`; `other` stands for the values that are neither of the two the
code compares with. -/
inductive AccessType where
  | read
  | write
  | other
  deriving DecidableEq, Repr

/-- `Core::mem_op_t`, as far as the cache distinguishes it. -/
inductive MemOp where
  | read
  | write
  deriving DecidableEq, Repr

/-- The values of the three pre-ROI counters, which the constructor of the controller leaves
uninitialized. -/
structure RoiSnapshot where
  cacheAccess : BitVec 32
  pageMisses : BitVec 32
  blockMisses : BitVec 32

/-- The conversions of `SubsecondTime`, whose code is not in the repository. -/
structure TimeUnits where
  /-- `SubsecondTime::PS`. -/
  ofPS : ℕ → ℕ
  /-- `SubsecondTime::NS`. -/
  ofNS : ℕ → ℕ
  ofNS_zero : ofNS 0 = 0
  /-- `SubsecondTime::getNS`. -/
  getNS : ℕ → ℕ

/-- Times in femtoseconds. -/
def TimeUnits.femtoseconds : TimeUnits where
  ofPS t := t * 10 ^ 3
  ofNS t := t * 10 ^ 6
  ofNS_zero := rfl
  getNS t := t / 10 ^ 6

/-- What the model takes from outside the repository. -/
structure Platform extends TimeUnits where
  /-- `floorLog2` of `utils.h`. -/
  floorLog2 : ℕ → ℕ
  /-- `floorLog2` is the floor of the base-2 logarithm. -/
  floorLog2_spec : ∀ n, 0 < n → floorLog2 n = Nat.log 2 n
  /-- The result of a right shift of a 32-bit word by a count of 32 or more, which the language
  leaves undefined. -/
  shiftRightWide : BitVec 32 → ℕ → BitVec 32
  /-- `ComponentBandwidth::getRoundedLatency`: the time to transfer a number of bits. -/
  getRoundedLatency : ℕ → ℕ
  /-- What uninitialized memory holds in the three pre-ROI counters. -/
  uninitialized : RoiSnapshot

namespace Platform

variable (P : Platform)

theorem floorLog2_two_pow (k : ℕ) : P.floorLog2 (2 ^ k) = k := by
  rw [P.floorLog2_spec _ (Nat.two_pow_pos k), Nat.log_pow (by decide)]

/-- `x >> n` on 32-bit words. -/
def shiftRight (x : BitVec 32) (n : ℕ) : BitVec 32 :=
  if n < 32 then x >>> n else P.shiftRightWide x n

theorem shiftRight_of_lt (x : BitVec 32) {n : ℕ} (hn : n < 32) : P.shiftRight x n = x >>> n :=
  if_pos hn

/-- A platform to evaluate the model on: an x86 machine, which reduces shift counts modulo 32, a
transfer rate of one bit per femtosecond and memory cleared to zero. -/
def x86 : Platform where
  toTimeUnits := .femtoseconds
  floorLog2 := Nat.log 2
  floorLog2_spec _ _ := rfl
  shiftRightWide x n := x >>> (n % 32)
  getRoundedLatency bits := bits
  uninitialized := ⟨0, 0, 0⟩

end Platform

end StackedDram
