import StackedDram.Library.PackedFields
import StackedDram.Ramulator.Hbm

/-!
# Addresses of requests

`DramModel::readRow` and `writeRow` pack a vault, a bank, a row and a column into an address, and
`RamMemory::send` takes it apart again to find the controller for the request. Both go by the widths
of the levels, in one of two layouts. The numbers come out as they were put in, the bank as a rank
and a bank in it (`decode_encode`), so that different numbers have different addresses and every
request gets to the controller of its vault (`address_roundtrip`).
-/

namespace StackedDram.Ramulator

open PackedFields

/-- `RamRequest::Type`. -/
inductive RequestType where
  | read | write | refresh | powerdown | selfrefresh | extension
  deriving DecidableEq, Repr

/-- `RamRequest`, without its callback. -/
structure RamRequest where
  isFirstCommand : Bool
  /-- `addr`, a `long` that is not negative. -/
  addr : ℕ
  addrVec : Level → ℤ
  coreid : ℕ
  type : RequestType
  arrive : ℤ
  /-- Written when the request is served. -/
  depart : ℤ

/-- A constructor of `RamRequest`, for an address that has not been taken apart yet. -/
def RamRequest.new (addr : ℕ) (type : RequestType) : RamRequest :=
  ⟨true, addr, fun _ => 0, 0, type, -1, 0⟩

/-! ## Controllers -/

/-- The queues of a `RamController`. -/
structure RamController where
  clk : ℤ
  readq : List RamRequest
  writeq : List RamRequest
  otherq : List RamRequest
  pending : List RamRequest

namespace RamController

/-- `Queue::max`. -/
def queueMax : ℕ := 32

/-- `RamController::get_queue`. -/
def getQueue (ctrl : RamController) : RequestType → List RamRequest
  | .read => ctrl.readq
  | .write => ctrl.writeq
  | _ => ctrl.otherq

/-- `queue.q.push_back(req)`. -/
def pushBack (ctrl : RamController) (req : RamRequest) : RamController :=
  match req.type with
  | .read => { ctrl with readq := ctrl.readq ++ [req] }
  | .write => { ctrl with writeq := ctrl.writeq ++ [req] }
  | _ => { ctrl with otherq := ctrl.otherq ++ [req] }

/-- `RamController::enqueue`. -/
def enqueue (ctrl : RamController) (req : RamRequest) : RamController × Bool :=
  if queueMax = (ctrl.getQueue req.type).length then (ctrl, false)
  else
    let req := { req with arrive := ctrl.clk }
    -- a read finds the data in a write to the same address that is still waiting, and leaves its
    -- queue at once
    if req.type = .read ∧ ctrl.writeq.any (·.addr = req.addr) then
      ({ ctrl with pending := ctrl.pending ++ [{ req with depart := ctrl.clk + 1 }] }, true)
    else (ctrl.pushBack req, true)

variable {ctrl : RamController} {req : RamRequest}

/-- A full queue refuses the request. -/
theorem enqueue_of_full (hfull : (ctrl.getQueue req.type).length = queueMax) :
    ctrl.enqueue req = (ctrl, false) :=
  if_pos hfull.symm

/-- A read that finds its data in a waiting write is about to be served. -/
theorem enqueue_of_forward (hroom : (ctrl.getQueue req.type).length ≠ queueMax)
    (hread : req.type = .read) (hwrite : ctrl.writeq.any (·.addr = req.addr) = true) :
    ctrl.enqueue req = ({ ctrl with
      pending := ctrl.pending ++ [{ req with arrive := ctrl.clk, depart := ctrl.clk + 1 }] },
        true) := by
  rw [enqueue, if_neg (Ne.symm hroom)]
  exact if_pos ⟨hread, hwrite⟩

/-- Any other request waits at the end of its queue. -/
theorem enqueue_of_not_forward (hroom : (ctrl.getQueue req.type).length ≠ queueMax)
    (hforward : ¬ (req.type = .read ∧ ctrl.writeq.any (·.addr = req.addr) = true)) :
    ctrl.enqueue req = (ctrl.pushBack { req with arrive := ctrl.clk }, true) := by
  rw [enqueue, if_neg (Ne.symm hroom)]
  exact if_neg hforward

@[simp]
theorem clk_pushBack : (ctrl.pushBack req).clk = ctrl.clk := by
  rw [pushBack]
  split <;> rfl

@[simp]
theorem pending_pushBack : (ctrl.pushBack req).pending = ctrl.pending := by
  rw [pushBack]
  split <;> rfl

/-- The queues after a read or a write has been added. -/
theorem getQueue_pushBack (hreq : req.type = .read ∨ req.type = .write) (type : RequestType) :
    (ctrl.pushBack req).getQueue type =
      ctrl.getQueue type ++ if req.type = type then [req] else [] := by
  rcases hreq with hreq | hreq <;> rw [pushBack, hreq] <;> cases type <;> simp [getQueue]

/-- The index that `RamController::tick` uses for the counters of a bank. -/
def bankIndex (addrVec : Level → ℤ) : ℤ := addrVec .rank * 2 + addrVec .bank

end RamController

/-! ## The memory -/

/-- `RamMemory::Type`. -/
inductive Layout where
  | chRaBaRoCo | roBaRaCoCh
  deriving DecidableEq, Repr

/-- `addr_bits`, for levels whose masks are positive in an `int` and which fit in a positive
`long`. -/
structure AddrBits where
  width : Level → ℕ
  width_le : ∀ level, width level ≤ 30
  sum_le : width .channel + width .rank + width .bank + width .row + width .column ≤ 62

/-- `RamMemory`, with the statistics of `send`. -/
structure RamMemory where
  type : Layout
  addrBits : AddrBits
  ctrls : ℕ → RamController
  numIncomingRequests : ℕ
  numReadRequests : ℕ → ℕ
  numWriteRequests : ℕ → ℕ
  incomingRequestsPerChannel : ℕ → ℕ
  incomingReadReqsPerChannel : ℕ → ℕ

/-- `DramModel::mask`. -/
def mask (bits : ℕ) : ℕ := 1 <<< bits - 1

/-- The levels in the order in which `send` slices an address. -/
def Layout.sliceOrder : Layout → List Level
  | .chRaBaRoCo => [.column, .row, .bank, .rank, .channel]
  | .roBaRaCoCh => [.channel, .column, .rank, .bank, .row]

namespace RamMemory

/-- The address that `DramModel::readRow` and `writeRow` build, in a 64-bit word. -/
def encode (m : RamMemory) (vault bank row col : ℕ) : ℕ :=
  let bits := m.addrBits.width
  let rank := bank >>> bits .bank
  let ba := bank &&& mask (bits .bank)
  match m.type with
  | .chRaBaRoCo =>
    let addr := vault &&& mask (bits .channel)
    let addr := pushField 64 addr (bits .rank) rank
    let addr := pushField 64 addr (bits .bank) ba
    let addr := pushField 64 addr (bits .row) row
    pushField 64 addr (bits .column) col
  | .roBaRaCoCh =>
    let addr := row &&& mask (bits .row)
    let addr := pushField 64 addr (bits .bank) ba
    let addr := pushField 64 addr (bits .rank) rank
    let addr := pushField 64 addr (bits .column) col
    pushField 64 addr (bits .channel) vault

/-- The vector `addr_vec` of an address: `slice_lower_bits` for one level after the other. -/
def decode (m : RamMemory) (addr : ℕ) : Level → ℤ := fun level =>
  unpack m.addrBits.width m.type.sliceOrder (fun _ => 0) addr level

/-- `RamMemory::send`. -/
def send (m : RamMemory) (req : RamRequest) : RamMemory × Bool :=
  let req := { req with addrVec := m.decode req.addr }
  let channel := (req.addrVec .channel).toNat
  let (ctrl, accepted) := (m.ctrls channel).enqueue req
  let m := { m with ctrls := Function.update m.ctrls channel ctrl }
  if accepted then
    let read := if req.type = .read then 1 else 0
    let write := if req.type = .write then 1 else 0
    ({ m with
      numIncomingRequests := m.numIncomingRequests + 1
      numReadRequests := Function.update m.numReadRequests req.coreid
        (m.numReadRequests req.coreid + read)
      numWriteRequests := Function.update m.numWriteRequests req.coreid
        (m.numWriteRequests req.coreid + write)
      incomingRequestsPerChannel := Function.update m.incomingRequestsPerChannel channel
        (m.incomingRequestsPerChannel channel + 1)
      incomingReadReqsPerChannel := Function.update m.incomingReadReqsPerChannel channel
        (m.incomingReadReqsPerChannel channel + read) }, true)
  else (m, false)

/-- The common body of `DramModel::readRow` and `writeRow`. -/
def accessRow (m : RamMemory) (type : RequestType) (vault bank row col : ℕ) : RamMemory × Bool :=
  m.send (.new (m.encode vault bank row col) type)

/-- `DramModel::readRow`, which uses nothing but the memory. -/
def readRow (m : RamMemory) (vault bank row col : ℕ) : RamMemory × Bool :=
  m.accessRow .read vault bank row col

/-- `DramModel::writeRow`. -/
def writeRow (m : RamMemory) (vault bank row col : ℕ) : RamMemory × Bool :=
  m.accessRow .write vault bank row col

end RamMemory

/-! ## Encoding and decoding -/

/-- The levels from the highest field of an address to the lowest. -/
def Layout.fieldOrder : Layout → List Level
  | .chRaBaRoCo => [.channel, .rank, .bank, .row, .column]
  | .roBaRaCoCh => [.row, .bank, .rank, .column, .channel]

theorem Layout.reverse_fieldOrder (layout : Layout) :
    layout.fieldOrder.reverse = layout.sliceOrder := by
  cases layout <;> rfl

theorem Layout.mem_fieldOrder (layout : Layout) (level : Level) : level ∈ layout.fieldOrder := by
  cases layout <;> cases level <;> decide

theorem mask_eq (bits : ℕ) : mask bits = 2 ^ bits - 1 := by
  rw [mask, Nat.one_shiftLeft]

/-- A row of a memory with levels of the given widths. -/
@[ext]
structure Location (w : AddrBits) where
  vault : ℕ
  bank : ℕ
  row : ℕ
  col : ℕ
  vault_lt : vault < 2 ^ w.width .channel
  bank_lt : bank < 2 ^ (w.width .rank + w.width .bank)
  row_lt : row < 2 ^ w.width .row
  col_lt : col < 2 ^ w.width .column

namespace Location

variable {w : AddrBits} (x : Location w)

/-- The fields of the address of a location. -/
def field : Level → ℕ
  | .channel => x.vault
  | .rank => x.bank >>> w.width .bank
  | .bank => x.bank % 2 ^ w.width .bank
  | .row => x.row
  | .column => x.col

theorem field_lt (level : Level) : x.field level < 2 ^ w.width level := by
  cases level with
  | channel => exact x.vault_lt
  | rank =>
    show x.bank >>> w.width .bank < _
    rw [Nat.shiftRight_eq_div_pow]
    refine Nat.div_lt_of_lt_mul ?_
    rw [← pow_add, Nat.add_comm]
    exact x.bank_lt
  | bank => exact Nat.mod_lt _ (Nat.two_pow_pos _)
  | row => exact x.row_lt
  | column => exact x.col_lt

/-- The rank and the bank in it make up the number of the bank. -/
theorem rank_bank : x.field .rank * 2 ^ w.width .bank + x.field .bank = x.bank := by
  show x.bank >>> w.width .bank * 2 ^ w.width .bank + x.bank % 2 ^ w.width .bank = x.bank
  rw [Nat.shiftRight_eq_div_pow]
  exact Nat.div_add_mod' _ _

/-- Locations are told apart by their fields. -/
theorem field_inj {x y : Location w} (h : ∀ level, x.field level = y.field level) : x = y := by
  ext
  · exact h .channel
  · rw [← x.rank_bank, ← y.rank_bank, h, h]
  · exact h .row
  · exact h .column

end Location

namespace RamMemory

variable {m : RamMemory} (x : Location m.addrBits)

/-- All fields fit in an address. -/
theorem bitsOf_fieldOrder_le (m : RamMemory) :
    bitsOf m.addrBits.width m.type.fieldOrder ≤ 64 := by
  have hsum := m.addrBits.sum_le
  cases m.type <;> simp [bitsOf, Layout.fieldOrder] <;> omega

/-- The chain of shifts and masks packs the fields of the location. -/
theorem encode_eq :
    m.encode x.vault x.bank x.row x.col =
      pack m.addrBits.width x.field m.type.fieldOrder := by
  rw [← foldl_pushField _ (bitsOf_fieldOrder_le m)]
  have hba : x.bank &&& mask (m.addrBits.width .bank) = x.field .bank := by
    rw [mask_eq, Nat.and_two_pow_sub_one_eq_mod]
    rfl
  -- the first field is pushed on nothing
  have hfirst : ∀ width value, value &&& mask width = pushField 64 0 width value := by
    intro width value
    rw [pushField, mask_eq, Nat.zero_shiftLeft, Nat.zero_mod, Nat.zero_or]
  unfold encode
  dsimp only
  rw [hba]
  cases m.type with
  | chRaBaRoCo =>
    dsimp only
    rw [hfirst]
    rfl
  | roBaRaCoCh =>
    dsimp only
    rw [hfirst]
    rfl

/-- Taking an address apart gives the fields that it was built from. -/
theorem decode_encode :
    m.decode (m.encode x.vault x.bank x.row x.col) = fun level => (x.field level : ℤ) := by
  funext level
  rw [decode, encode_eq, ← Layout.reverse_fieldOrder,
    unpack_pack fun level _ => x.field_lt level]
  dsimp only
  rw [if_pos (m.type.mem_fieldOrder level)]

/-- Different locations have different addresses. -/
theorem encode_inj {x y : Location m.addrBits}
    (h : m.encode x.vault x.bank x.row x.col = m.encode y.vault y.bank y.row y.col) : x = y := by
  rw [encode_eq, encode_eq] at h
  exact Location.field_inj fun level => pack_inj (fun level _ => x.field_lt level)
    (fun level _ => y.field_lt level) h (m.type.mem_fieldOrder level)

/-- The request for a location, as it arrives at a controller. -/
def requestFor (type : RequestType) : RamRequest :=
  { RamRequest.new (m.encode x.vault x.bank x.row x.col) type with
    addrVec := fun level => (x.field level : ℤ) }

/-- A request that is sent gets to the controller of its channel, which may refuse it. -/
theorem send_eq (m : RamMemory) (req : RamRequest) :
    let channel := (m.decode req.addr .channel).toNat
    let after := (m.ctrls channel).enqueue { req with addrVec := m.decode req.addr }
    (m.send req).1.ctrls = Function.update m.ctrls channel after.1 ∧ (m.send req).2 = after.2 := by
  intro channel after
  unfold send
  dsimp only
  by_cases haccepted : after.2 = true
  · rw [if_pos haccepted]
    exact ⟨rfl, haccepted.symm⟩
  · rw [if_neg haccepted]
    exact ⟨rfl, (Bool.eq_false_iff.mpr haccepted).symm⟩

/-- A request that its controller refuses leaves everything as it was. -/
theorem send_of_full {m : RamMemory} {req : RamRequest}
    (hfull : ((m.ctrls (m.decode req.addr .channel).toNat).getQueue req.type).length =
      RamController.queueMax) : m.send req = (m, false) := by
  have henqueue : (m.ctrls (m.decode req.addr .channel).toNat).enqueue
      { req with addrVec := m.decode req.addr } =
        (m.ctrls (m.decode req.addr .channel).toNat, false) :=
    RamController.enqueue_of_full hfull
  simp only [send, henqueue, Function.update_eq_self, Bool.false_eq_true, if_false]

/-- Sending a request changes nothing about the layout of addresses. -/
theorem send_layout (m : RamMemory) (req : RamRequest) :
    (m.send req).1.type = m.type ∧ (m.send req).1.addrBits = m.addrBits := by
  rw [send]
  dsimp only
  split <;> exact ⟨rfl, rfl⟩

/-- A request for a location gets to the controller of its vault. -/
theorem accessRow_eq (type : RequestType) :
    let after := (m.ctrls x.vault).enqueue (requestFor x type)
    (m.accessRow type x.vault x.bank x.row x.col).1.ctrls =
        Function.update m.ctrls x.vault after.1 ∧
      (m.accessRow type x.vault x.bank x.row x.col).2 = after.2 := by
  have hsend := send_eq m (.new (m.encode x.vault x.bank x.row x.col) type)
  have hvec : m.decode (RamRequest.new (m.encode x.vault x.bank x.row x.col) type).addr =
      fun level => (x.field level : ℤ) := decode_encode x
  rw [hvec] at hsend
  exact hsend

/-- For both layouts and all widths: the address of a location is taken apart into the vault, the
rank and the bank in it, the row and the column; no other location has that address; reads and
writes get to the controller of the vault with these numbers; and if a rank has two banks, the
counters are those of the bank. -/
theorem address_roundtrip (m : RamMemory) (x : Location m.addrBits) :
    let bits := m.addrBits.width
    let addr := m.encode x.vault x.bank x.row x.col
    let addrVec := m.decode addr
    let request (type : RequestType) : RamRequest := { RamRequest.new addr type with addrVec }
    (addrVec .channel = x.vault ∧ addrVec .rank = (x.bank >>> bits .bank : ℕ) ∧
      addrVec .bank = (x.bank % 2 ^ bits .bank : ℕ) ∧ addrVec .row = x.row ∧
      addrVec .column = x.col) ∧
    (∀ y : Location m.addrBits, m.encode y.vault y.bank y.row y.col = addr → y = x) ∧
    ((m.readRow x.vault x.bank x.row x.col).1.ctrls =
        Function.update m.ctrls x.vault ((m.ctrls x.vault).enqueue (request .read)).1 ∧
      (m.readRow x.vault x.bank x.row x.col).2 =
        ((m.ctrls x.vault).enqueue (request .read)).2) ∧
    ((m.writeRow x.vault x.bank x.row x.col).1.ctrls =
        Function.update m.ctrls x.vault ((m.ctrls x.vault).enqueue (request .write)).1 ∧
      (m.writeRow x.vault x.bank x.row x.col).2 =
        ((m.ctrls x.vault).enqueue (request .write)).2) ∧
    (bits .bank = 1 → RamController.bankIndex addrVec = x.bank) := by
  intro bits addr addrVec request
  have hvec : addrVec = fun level => (x.field level : ℤ) := decode_encode x
  -- the request that is sent carries the decoded address
  have hrequest : ∀ type, request type = requestFor x type := by
    intro type
    show { RamRequest.new addr type with addrVec } = _
    rw [hvec]
    rfl
  refine ⟨?_, fun y hy => encode_inj hy, ?_, ?_, fun htwo => ?_⟩
  · rw [hvec]
    exact ⟨rfl, rfl, rfl, rfl, rfl⟩
  · rw [hrequest]
    exact accessRow_eq x .read
  · rw [hrequest]
    exact accessRow_eq x .write
  · -- with one bit of bank number the bank index joins the rank to it again
    have hbank := x.rank_bank
    have hwidth : m.addrBits.width .bank = 1 := htwo
    rw [hwidth, pow_one] at hbank
    rw [hvec, RamController.bankIndex, ← hbank]
    push_cast
    rfl

/-- 32 channels of the smallest organization of the standard, with four ranks each. -/
def hbm1Gb (type : Layout) : RamMemory where
  type := type
  addrBits :=
    { width := fun
        | .channel => 5
        | .rank => 2
        | .bank => 1
        | .row => 13
        | .column => 5
      width_le := fun level => by cases level <;> decide
      sum_le := by decide }
  ctrls _ := ⟨0, [], [], [], []⟩
  numIncomingRequests := 0
  numReadRequests _ := 0
  numWriteRequests _ := 0
  incomingRequestsPerChannel _ := 0
  incomingReadReqsPerChannel _ := 0

/-- A read of vault 17, bank 5, row 4711 and column 9 waits in the controller of vault 17 and is
counted for bank 5. -/
theorem address_roundtrip_hbm1Gb :
    let m := hbm1Gb .roBaRaCoCh
    let addr := m.encode 17 5 4711 9
    addr = 38598961 ∧ ((m.readRow 17 5 4711 9).1.ctrls 17).readq.length = 1 ∧
      RamController.bankIndex (m.decode addr) = 5 := by
  intro m addr
  let x : Location m.addrBits :=
    ⟨17, 5, 4711, 9, by decide, by decide, by decide, by decide⟩
  obtain ⟨-, -, ⟨hread, -⟩, -, hbank⟩ := address_roundtrip m x
  refine ⟨by decide, ?_, hbank rfl⟩
  have hctrls : (m.readRow 17 5 4711 9).1.ctrls = _ := hread
  rw [hctrls]
  decide

end RamMemory

end StackedDram.Ramulator
