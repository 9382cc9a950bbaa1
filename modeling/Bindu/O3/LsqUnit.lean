/-
The load and store queues of the out-of-order CPU.

Loads and stores enter their queues in program order and execute in any order. A load looks for
older stores that have executed but are not written back: the youngest that overlaps it gives
it the data, or stalls it if it has only a part of them. Without one the load goes to memory.
A store that executes looks for younger loads with an overlapping address that have executed
too early. Stores are written back to memory in order once they have committed.

Modeled are ordinary loads and stores of one thread: no load-linked and conditional accesses,
atomics, strictly ordered accesses, cache maintenance, prefetches, predication, faults, snoops
or squashes. Translation takes no time; `paddr` is the translation, which keeps the bytes of a
cache line together. The memory serves a packet when it is sent, so in the order sent; the
response comes later. `answers` are the answers to come of the cache and its ports: whether a
port is free, whether a packet was sent.

The positions of the circular queues are counted without wrapping around, so that a position
stands for an iterator with its round. What a queue held at a position stays there when it is
popped. The sequence number of a load that left the queue is read in one place, the test for the
oldest stalled load. A load may be executed again whenever it is not issued, so nothing depends
on the flags of that test. A request that is discarded with packets under way is forgotten.

Source: `cpu/o3/lsq_unit.hh`, `cpu/o3/lsq_unit_impl.hh`, `cpu/o3/lsq.hh`, `cpu/o3/lsq_impl.hh`,
`base/circular_queue.hh`.
-/
import Bindu.Lib.Fallible

open Bindu.Lib Function

namespace Bindu.O3

namespace Lsq

abbrev Byte := UInt8

/-- The virtual addresses of an access; its end is not wrapped around. -/
structure Access where
  addr : ℕ
  size : ℕ
  size_pos : 0 < size
  no_wrap : addr + size < 2 ^ 64

/-- `SQEntry::DataSize` -/
def DataSize : ℕ := 64

/-- A store. With `storeNoData` it writes zeros and has no data in its queue entry. -/
structure StoreOp extends Access where
  data : ℕ → Byte
  storeNoData : Bool
  /-- What `write` asserts. -/
  size_le : size ≤ DataSize ∨ storeNoData = true

/-- Byte `i` that the store writes. -/
def StoreOp.byte (op : StoreOp) (i : ℕ) : Byte := if op.storeNoData then 0 else op.data i

inductive MemInst
  | load (access : Access)
  | store (op : StoreOp)

structure Params where
  lqEntries : ℕ
  sqEntries : ℕ
  depCheckShift : ℕ
  checkLoads : Bool
  needsTSO : Bool
  cacheLineBits : ℕ
  paddr : ℕ → ℕ
  paddr_add : ∀ a i, a % 2 ^ cacheLineBits + i < 2 ^ cacheLineBits → paddr (a + i) = paddr a + i

/-- Where the unit stops. -/
inductive Fault
  | assertion
  | null_pointer
  | should_not_check
deriving DecidableEq

/-! ## Requests -/

/-- A packet for a part of an access: `size` bytes from `offset` on, at address `paddr`. -/
structure Packet where
  paddr : ℕ
  offset : ℕ
  size : ℕ

/-- The counts of an `LSQRequest`. `sent` is its flag; `alive` is that of its sender state. -/
structure Request where
  numReceivedPackets : ℕ := 0
  numOutstandingPackets : ℕ := 0
  sent : Bool := false
  alive : Bool := true

namespace Params

variable (P : Params)

def cacheLineSize : ℕ := 2 ^ P.cacheLineBits

def addrBlockOffset (addr : ℕ) : ℕ := addr % P.cacheLineSize

def addrBlockAlign (addr : ℕ) : ℕ := addr / P.cacheLineSize * P.cacheLineSize

def transferNeedsBurst (addr size : ℕ) : Bool :=
  P.cacheLineSize < P.addrBlockOffset addr + size

/-- `n` whole cache lines from `base_addr` on. -/
def wholeBlocks : ℕ → ℕ → List (ℕ × ℕ)
  | 0, _ => []
  | n + 1, base_addr =>
    (base_addr, P.cacheLineSize) :: wholeBlocks n (base_addr + P.cacheLineSize)

/-- The requests of `SplitDataRequest::initiateTranslation`: the part up to the first cache line,
whole lines, and the tail. -/
def splitRequests (a : Access) : List (ℕ × ℕ) :=
  let next_addr := P.addrBlockAlign (a.addr + P.cacheLineSize)
  let final_addr := P.addrBlockAlign (a.addr + a.size)
  let blocks := (final_addr - next_addr) / P.cacheLineSize
  let size_so_far := next_addr - a.addr + blocks * P.cacheLineSize
  let tail := if size_so_far < a.size then [(final_addr, a.size - size_so_far)] else []
  (a.addr, next_addr - a.addr) :: (P.wholeBlocks blocks next_addr ++ tail)

/-- Addresses and sizes of the requests of an access. -/
def requests (a : Access) : List (ℕ × ℕ) :=
  if P.transferNeedsBurst a.addr a.size then P.splitRequests a else [(a.addr, a.size)]

def buildPackets : ℕ → List (ℕ × ℕ) → List Packet
  | _, [] => []
  | offset, (vaddr, size) :: rest =>
    { paddr := P.paddr vaddr, offset := offset, size := size } :: buildPackets (offset + size) rest

def packets (a : Access) : List Packet := P.buildPackets 0 (P.requests a)

end Params

/-! ## The queues -/

/-- A load with its entry of the load queue. `sqIt` is the end of the store queue when it was
inserted. `result` is what `completeAcc` read. -/
structure LoadInst where
  seqNum : ℕ
  access : Access
  sqIt : ℕ
  issued : Bool := false
  executed : Bool := false
  effAddrValid : Bool := false
  effAddr : ℕ := 0
  effSize : ℕ := 0
  hitExternalSnoop : Bool := false
  possibleLoadViolation : Bool := false
  memData : ℕ → Byte := fun _ => 0
  request : Option Request := none
  writebackScheduled : Bool := false
  result : Option (ℕ → Byte) := none

/-- A store with its entry of the store queue. `lqIt` is the end of the load queue when it was
inserted. -/
structure StoreInst where
  seqNum : ℕ
  op : StoreOp
  lqIt : ℕ
  executed : Bool := false
  effAddrValid : Bool := false
  effAddr : ℕ := 0
  effSize : ℕ := 0
  size : ℕ := 0
  data : ℕ → Byte := fun _ => 0
  isAllZeros : Bool := false
  canWB : Bool := false
  committed : Bool := false
  completed : Bool := false
  memData : ℕ → Byte := fun _ => 0
  request : Option Request := none

/-- The unit, the memory behind it and the number of instructions inserted. -/
structure LSQUnit where
  loads : ℕ → LoadInst
  loadHead : ℕ
  loadTail : ℕ
  stores : ℕ → StoreInst
  storeHead : ℕ
  storeTail : ℕ
  storeWBIt : ℕ
  storesToWB : ℕ
  stalled : Bool
  stallingStoreIsn : ℕ
  stallingLoadIdx : ℕ
  isStoreBlocked : Bool
  storeInFlight : Bool
  memDepViolator : Option ℕ
  inserted : ℕ
  memory : ℕ → Byte
  answers : List Bool

namespace LSQUnit

variable (P : Params) (s : LSQUnit)

def setLoad (p : ℕ) (l : LoadInst) : LSQUnit := { s with loads := update s.loads p l }

def setStore (k : ℕ) (st : StoreInst) : LSQUnit :=
  { s with stores := update s.stores k st }

@[simp] theorem setLoad_self (p : ℕ) (l : LoadInst) : (s.setLoad p l).loads p = l :=
  update_self ..

theorem setLoad_of_ne {p q : ℕ} (h : q ≠ p) (l : LoadInst) :
    (s.setLoad p l).loads q = s.loads q :=
  update_of_ne h ..

theorem setLoad_apply (p q : ℕ) (l : LoadInst) :
    (s.setLoad p l).loads q = if q = p then l else s.loads q :=
  update_apply ..

@[simp] theorem setStore_self (k : ℕ) (st : StoreInst) : (s.setStore k st).stores k = st :=
  update_self ..

theorem setStore_of_ne {k j : ℕ} (h : j ≠ k) (st : StoreInst) :
    (s.setStore k st).stores j = s.stores j :=
  update_of_ne h ..

theorem setStore_apply (k j : ℕ) (st : StoreInst) :
    (s.setStore k st).stores j = if j = k then st else s.stores j :=
  update_apply ..

/-- The next answer of the cache. -/
def answer : Bool := s.answers.headD false

def answered : LSQUnit := { s with answers := s.answers.tail }

/-- `loadQueue.full()`, of the `lqEntries + 1` places. -/
def lqFull : Bool := s.loadTail - s.loadHead == P.lqEntries + 1

def sqFull : Bool := s.storeTail - s.storeHead == P.sqEntries + 1

def insertLoad (a : Access) : Except Fault LSQUnit := do
  require (!s.lqFull P) .assertion
  return { s.setLoad s.loadTail { seqNum := s.inserted, access := a, sqIt := s.storeTail } with
    loadTail := s.loadTail + 1
    inserted := s.inserted + 1 }

def insertStore (op : StoreOp) : Except Fault LSQUnit := do
  require (!s.sqFull P) .assertion
  return { s.setStore s.storeTail { seqNum := s.inserted, op := op, lqIt := s.loadTail } with
    storeTail := s.storeTail + 1
    inserted := s.inserted + 1 }

def insert : MemInst → Except Fault LSQUnit
  | .load a => s.insertLoad P a
  | .store op => s.insertStore P op

/-! ## Violations -/

/-- The scan of `checkViolations` over `n` loads from `loadIt` on, for an instruction with this
effective address. -/
def checkViolations (isLoad : Bool) (effAddr effSize : ℕ) : ℕ → ℕ → LSQUnit → LSQUnit
  | 0, _, s => s
  | n + 1, loadIt, s =>
    let ld_inst := s.loads loadIt
    let inst_eff_addr1 := effAddr >>> P.depCheckShift
    let inst_eff_addr2 := (effAddr + effSize - 1) >>> P.depCheckShift
    let ld_eff_addr1 := ld_inst.effAddr >>> P.depCheckShift
    let ld_eff_addr2 := (ld_inst.effAddr + ld_inst.effSize - 1) >>> P.depCheckShift
    if !ld_inst.effAddrValid then
      checkViolations isLoad effAddr effSize n (loadIt + 1) s
    else if ld_eff_addr1 ≤ inst_eff_addr2 ∧ inst_eff_addr1 ≤ ld_eff_addr2 then
      if isLoad then
        if ld_inst.hitExternalSnoop && s.memDepViolator.all (fun v => ld_inst.seqNum < v) then
          { s with memDepViolator := some ld_inst.seqNum }
        else
          checkViolations isLoad effAddr effSize n (loadIt + 1)
            (s.setLoad loadIt { ld_inst with possibleLoadViolation := true })
      else if s.memDepViolator.any (fun v => v < ld_inst.seqNum) then
        s
      else
        { s with memDepViolator := some ld_inst.seqNum }
    else
      checkViolations isLoad effAddr effSize n (loadIt + 1) s

/-! ## Loads -/

/-- What the search for an older store ends with. -/
inductive Found
  | forward (store_it : ℕ)
  | stall (store_it : ℕ)
  | nothing

/-- The search of `read` through the `n` stores from `storeWBIt` on, the youngest first. -/
def findStore (load_inst : LoadInst) : ℕ → Except Fault Found
  | 0 => return .nothing
  | n + 1 => do
      let store_it := s.storeWBIt + n
      let st := s.stores store_it
      require (decide (s.storeHead ≤ store_it ∧ store_it < s.storeTail)) .assertion
      require (decide (st.seqNum < load_inst.seqNum)) .assertion
      if st.size ≠ 0 then
        require st.effAddrValid .assertion
        let req_s := load_inst.access.addr
        let req_e := req_s + load_inst.access.size
        let st_s := st.effAddr
        let st_e := st_s + st.size
        let store_has_lower_limit := decide (st_s ≤ req_s)
        let store_has_upper_limit := decide (req_e ≤ st_e)
        let lower_load_has_store_part := decide (req_s < st_e)
        let upper_load_has_store_part := decide (st_s < req_e)
        if store_has_lower_limit && store_has_upper_limit then
          return .forward store_it
        else if (store_has_lower_limit && lower_load_has_store_part)
            || (store_has_upper_limit && upper_load_has_store_part)
            || (lower_load_has_store_part && upper_load_has_store_part) then
          if st.completed then throw .should_not_check else return .stall store_it
        else
          findStore load_inst n
      else
        findStore load_inst n

/-- The request of a load gets no answers any more. -/
def discardSenderState (r : Request) : Request :=
  if 0 < r.numOutstandingPackets then { r with alive := false } else r

/-- The data come from a store; the writeback is scheduled. -/
def forward (p store_it : ℕ) : LSQUnit :=
  let l := s.loads p
  let st := s.stores store_it
  let shift_amt := l.access.addr - st.effAddr
  s.setLoad p { l with
    memData := fun i => if st.isAllZeros then 0 else st.data (shift_amt + i)
    request := l.request.map discardSenderState
    writebackScheduled := true }

/-- The load has to be executed again. -/
def rescheduleLoad (l : LoadInst) : LoadInst :=
  { l with issued := false, effAddrValid := false, request := none }

/-- A store has only a part of the data. -/
def stallLoad (p store_it : ℕ) : LSQUnit :=
  let l := s.loads p
  let s' := s.setLoad p (rescheduleLoad l)
  if !s.stalled || decide (l.seqNum < (s.loads s.stallingLoadIdx).seqNum) then
    { s' with
      stalled := true
      stallingStoreIsn := (s.stores store_it).seqNum
      stallingLoadIdx := p }
  else
    s'

def packetSent (r : Request) : Request :=
  { r with numOutstandingPackets := r.numOutstandingPackets + 1, sent := true }

def packetNotSent (r : Request) : Request := { r with sent := false }

/-- The memory serves a packet of a load. -/
def servedLoad (l : LoadInst) (pkt : Packet) : LoadInst :=
  { l with
    memData := fun i =>
      if pkt.offset ≤ i ∧ i < pkt.offset + pkt.size then s.memory (pkt.paddr + (i - pkt.offset))
      else l.memData i
    request := l.request.map packetSent }

/-- `sendPacketToCache` of a load, for the packets that are left. -/
def sendLoadPackets (p : ℕ) : List Packet → LSQUnit → LSQUnit
  | [], s => s
  | pkt :: rest, s =>
    let l := s.loads p
    if s.answer then
      sendLoadPackets p rest (s.answered.setLoad p (s.servedLoad l pkt))
    else
      s.answered.setLoad p { l with request := l.request.map packetNotSent }

/-- The packets of a request that are not sent yet. -/
def unsent (a : Access) (r : Request) : List Packet :=
  (P.packets a).drop (r.numReceivedPackets + r.numOutstandingPackets)

/-- A load whose packets were not all sent is blocked and executes again. -/
def blockLoad (l : LoadInst) : LoadInst :=
  if l.request.any (fun r => !r.sent) then { l with issued := false } else l

/-- No store has the data. -/
def accessMemory (p : ℕ) : Except Fault LSQUnit := do
  let l := s.loads p
  match l.request with
  | none => throw .null_pointer
  | some r =>
    require (P.transferNeedsBurst l.access.addr l.access.size || r.numOutstandingPackets == 0)
      .assertion
    let s := sendLoadPackets p (unsent P l.access r) s
    return s.setLoad p (blockLoad (s.loads p))

def read (p : ℕ) : Except Fault LSQUnit := do
  let l := s.loads p
  require (!l.executed) .assertion
  require (decide (s.storeWBIt ≤ l.sqIt)) .assertion
  match ← s.findStore l (l.sqIt - s.storeWBIt) with
  | .forward store_it => return s.forward p store_it
  | .stall store_it => return s.stallLoad p store_it
  | .nothing => s.accessMemory P p

/-- `pushRequest` gives the instruction its effective address. -/
def loadRequested (l : LoadInst) : LoadInst :=
  { l with
    issued := true
    request := some (l.request.getD {})
    effAddr := l.access.addr
    effSize := l.access.size
    effAddrValid := true }

def executeLoad (p : ℕ) : Except Fault LSQUnit := do
  let s ← (s.setLoad p (loadRequested (s.loads p))).read P p
  let l := s.loads p
  if l.effAddrValid && P.checkLoads then
    return checkViolations P true l.effAddr l.effSize (s.loadTail - (p + 1)) (p + 1) s
  else
    return s

/-- `writeback` of a load: `completeAcc` takes the data. -/
def writeback (l : LoadInst) : LoadInst :=
  if l.executed then l else { l with executed := true, result := some l.memData }

/-- The response to a packet of a load. -/
def recvLoadResp (p : ℕ) : Except Fault LSQUnit := do
  let l := s.loads p
  match l.request with
  | none => throw .null_pointer
  | some r =>
    let replied := { r with numOutstandingPackets := r.numOutstandingPackets - 1 }
    if r.alive then
      require (P.transferNeedsBurst l.access.addr l.access.size || r.numOutstandingPackets == 1)
        .assertion
      let received := { replied with numReceivedPackets := r.numReceivedPackets + 1 }
      let l := { l with request := some received }
      if received.numReceivedPackets = (P.packets l.access).length then
        return s.setLoad p (writeback l)
      else
        return s.setLoad p l
    else
      return s.setLoad p { l with request := some replied }

/-- `WritebackEvent::process` -/
def processWriteback (p : ℕ) : LSQUnit := s.setLoad p (writeback (s.loads p))

/-! ## Stores -/

/-- `pushRequest` and `write`. -/
def written (st : StoreInst) : StoreInst :=
  { st with
    executed := true
    request := some {}
    effAddr := st.op.addr
    effSize := st.op.size
    effAddrValid := true
    -- the size of an entry is a `uint8_t`
    size := st.op.size % 256
    isAllZeros := st.op.storeNoData
    data := fun i => if !st.op.storeNoData && decide (i < st.op.size) then st.op.data i
      else st.data i }

def executeStore (k : ℕ) : Except Fault LSQUnit := do
  require (decide (s.storeHead < s.storeTail)) .assertion
  let st := written (s.stores k)
  let s := s.setStore k st
  if st.size = 0 then
    return s
  else if st.lqIt < s.loadTail ∧ st.lqIt < s.loadHead then
    throw .null_pointer
  else
    return checkViolations P false st.effAddr st.effSize (s.loadTail - st.lqIt) st.lqIt s

/-- A load that waited for a store is executed again. -/
def unstall (seqNum : ℕ) : LSQUnit :=
  if s.stalled && (seqNum == s.stallingStoreIsn) then
    { s with stalled := false, stallingStoreIsn := 0 }
  else
    s

/-- The completed stores at the front leave the queue, `n` at most. -/
def popCompleted : ℕ → LSQUnit → LSQUnit
  | 0, s => s
  | n + 1, s =>
    let s := { s with storeHead := s.storeHead + 1 }
    if (s.stores s.storeHead).completed ∧ s.storeHead < s.storeTail then popCompleted n s else s

def completeStore (k : ℕ) : Except Fault LSQUnit := do
  require (decide (s.storeHead ≤ k ∧ k < s.storeTail)) .assertion
  let st := s.stores k
  let s := { s.setStore k { st with completed := true } with storesToWB := s.storesToWB - 1 }
  let s := if k = s.storeHead then popCompleted (s.storeTail - s.storeHead) s else s
  let s := s.unstall st.seqNum
  return { s with storeInFlight := s.storeInFlight && !P.needsTSO }

def storePostSend : LSQUnit :=
  let s := s.unstall (s.stores s.storeWBIt).seqNum
  { s with storeInFlight := s.storeInFlight || P.needsTSO, storeWBIt := s.storeWBIt + 1 }

/-- The memory after a packet of a store with these data. -/
def servedStore (memData : ℕ → Byte) (pkt : Packet) : ℕ → Byte := fun a =>
  if pkt.paddr ≤ a ∧ a < pkt.paddr + pkt.size then memData (pkt.offset + (a - pkt.paddr))
  else s.memory a

/-- `sendPacketToCache` of store `k`, for the packets that are left. -/
def sendStorePackets (k : ℕ) : List Packet → LSQUnit → LSQUnit
  | [], s => s
  | pkt :: rest, s =>
    let st := s.stores k
    if s.answer then
      sendStorePackets k rest
        { s.answered.setStore k { st with request := st.request.map packetSent } with
          memory := s.servedStore st.memData pkt
          isStoreBlocked := false }
    else
      { s.answered.setStore k { st with request := st.request.map packetNotSent } with
        isStoreBlocked := true }

/-- Sends what is left of the store at `storeWBIt`. -/
def sendStore : Except Fault LSQUnit :=
  let st := s.stores s.storeWBIt
  match st.request with
  | none => throw .null_pointer
  | some r => do
      require (P.transferNeedsBurst st.op.addr st.op.size || r.numOutstandingPackets == 0)
        .assertion
      let s := sendStorePackets s.storeWBIt (unsent P st.op.toAccess r) s
      if (s.stores s.storeWBIt).request.any (fun r => r.sent) then
        return s.storePostSend P
      else
        return s

def writebackBlockedStore : Except Fault LSQUnit := do
  require s.isStoreBlocked .assertion
  s.sendStore P

/-- The store at `storeWBIt` is committed and its data are taken from the queue. -/
def commitData (st : StoreInst) : StoreInst :=
  { st with
    committed := true
    memData := if st.isAllZeros then fun _ => 0 else st.data }

/-- The condition of the loop of `writebackStores`, but for the port. -/
def canWriteback : Bool :=
  decide (0 < s.storesToWB) && decide (s.storeHead ≤ s.storeWBIt ∧ s.storeWBIt < s.storeTail)
    && (s.stores s.storeWBIt).canWB && (!P.needsTSO || !s.storeInFlight)

/-- The loop of `writebackStores`. Every turn takes an answer, for the port. -/
def writebackLoop : ℕ → LSQUnit → Except Fault LSQUnit
  | 0, s => return s
  | n + 1, s =>
    if s.canWriteback P && s.answer then
      let s := s.answered
      let st := s.stores s.storeWBIt
      if s.isStoreBlocked then
        return s
      else if st.size = 0 then do
        let s ← { s with storeWBIt := s.storeWBIt + 1 }.completeStore P s.storeWBIt
        writebackLoop n s
      else do
        require st.request.isSome .assertion
        require (!st.committed) .assertion
        let s ← (s.setStore s.storeWBIt (commitData st)).sendStore P
        writebackLoop n s
    else
      return s

def recvRetry : Except Fault LSQUnit :=
  if s.isStoreBlocked then s.writebackBlockedStore P else return s

/-- A blocked store is tried again first, as on a retry. -/
def writebackStores : Except Fault LSQUnit := do
  let s ← s.recvRetry P
  writebackLoop P (s.answers.length + 1) s

/-- The response to a packet of a store. -/
def recvStoreResp (k : ℕ) : Except Fault LSQUnit := do
  let st := s.stores k
  match st.request with
  | none => throw .null_pointer
  | some r =>
    require (P.transferNeedsBurst st.op.addr st.op.size || r.numOutstandingPackets == 1) .assertion
    let received := { r with
      numOutstandingPackets := r.numOutstandingPackets - 1
      numReceivedPackets := r.numReceivedPackets + 1 }
    let s := s.setStore k { st with request := some received }
    if received.numReceivedPackets = (P.packets st.op.toAccess).length then
      s.completeStore P k
    else
      return s

/-! ## Commit -/

def commitLoads (youngest_inst : ℕ) : ℕ → LSQUnit → LSQUnit
  | 0, s => s
  | n + 1, s =>
    if (s.loads s.loadHead).seqNum ≤ youngest_inst then
      commitLoads youngest_inst n { s with loadHead := s.loadHead + 1 }
    else
      s

/-- The stores from `k` on, `n` at most. -/
def commitStores (youngest_inst : ℕ) : ℕ → ℕ → LSQUnit → LSQUnit
  | 0, _, s => s
  | n + 1, k, s =>
    let st := s.stores k
    if st.canWB then
      commitStores youngest_inst n (k + 1) s
    else if youngest_inst < st.seqNum then
      s
    else
      commitStores youngest_inst n (k + 1)
        { s.setStore k { st with canWB := true } with storesToWB := s.storesToWB + 1 }

/-- What the issue stage does with the number of the last committed instruction. -/
def commit (youngest_inst : ℕ) : LSQUnit :=
  let s := commitStores youngest_inst (s.storeTail - s.storeHead) s.storeHead s
  commitLoads youngest_inst (s.loadTail - s.loadHead) s

def getMemDepViolator : LSQUnit := { s with memDepViolator := none }

/-- An empty unit. -/
def new (memory : ℕ → Byte) (load : LoadInst) (store : StoreInst) : LSQUnit where
  loads _ := load
  loadHead := 0
  loadTail := 0
  stores _ := store
  storeHead := 0
  storeTail := 0
  storeWBIt := 0
  storesToWB := 0
  stalled := false
  stallingStoreIsn := 0
  stallingLoadIdx := 0
  isStoreBlocked := false
  storeInFlight := false
  memDepViolator := none
  inserted := 0
  memory := memory
  answers := []

end LSQUnit

end Lsq

end Bindu.O3
