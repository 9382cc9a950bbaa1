/-
Packets of the classic memory system: the command of a packet with its table of
attributes, the request behind it, and the flags that the caches set on it.

The table is `MemCmd::commandInfo` of `mem/packet.cc`, entry by entry: which attributes a
command has, and which command answers it. Everything else that is said about a command
(`isWrite`, `needsWritable`, ...) is a test of that table. A packet carries what the queues
of the caches and of the memory controllers read from it; the payload is left out.
-/
import Bindu.Lib.Fallible

namespace Bindu.Mem

open Bindu.Lib

/-- A `Tick` of the simulation. -/
abbrev Tick := ℕ

/-- `MaxTick`, the largest value of a 64 bit `Tick`: "no time at all". -/
def MaxTick : Tick := 2 ^ 64 - 1

/-- The assertions and panics of the memory system. -/
inductive Fault where
  | not_request | not_clean | already_satisfied | cache_responding | responder_had_writable
  | data_without_space | downstream_pending | not_downstream_pending
  | in_service | not_in_service | empty_targets | targets_left | target_source | targets_writable
  | snoop_mismatch | free_list_empty | ready_list | ready_time
  | send_in_the_past | express_snoop | queue_size | waiting_on_retry | not_waiting_on_retry
  | event_scheduled | no_deferred_packet
  deriving DecidableEq, Repr

/-- `MemCmd::Attribute`. -/
inductive Attribute where
  | IsRead | IsWrite | IsUpgrade | IsInvalidate | IsClean | NeedsWritable | IsRequest
  | IsResponse | NeedsResponse | IsEviction | IsSWPrefetch | IsHWPrefetch | IsLlsc | HasData
  | IsError | IsPrint | IsFlush | FromCache
  deriving DecidableEq, Repr

/-- `MemCmd::Command`. -/
inductive MemCmd where
  | InvalidCmd | ReadReq | ReadResp | ReadRespWithInvalidate | WriteReq | WriteResp
  | WritebackDirty | WritebackClean | WriteClean | CleanEvict | SoftPFReq | SoftPFExReq
  | HardPFReq | SoftPFResp | HardPFResp | WriteLineReq | UpgradeReq | SCUpgradeReq
  | UpgradeResp | SCUpgradeFailReq | UpgradeFailResp | ReadExReq | ReadExResp | ReadCleanReq
  | ReadSharedReq | LoadLockedReq | StoreCondReq | StoreCondFailReq | StoreCondResp | SwapReq
  | SwapResp | MessageReq | MessageResp | MemFenceReq | MemFenceResp | CleanSharedReq
  | CleanSharedResp | CleanInvalidReq | CleanInvalidResp | InvalidDestError | BadAddressError
  | FunctionalReadError | FunctionalWriteError | PrintReq | FlushReq | InvalidateReq
  | InvalidateResp
  deriving DecidableEq, Repr

namespace MemCmd

open Attribute in
/-- `commandInfo[cmd].attributes`. -/
def attributes : MemCmd → List Attribute
  | InvalidCmd => []
  | ReadReq => [IsRead, IsRequest, NeedsResponse]
  | ReadResp => [IsRead, IsResponse, HasData]
  | ReadRespWithInvalidate => [IsRead, IsResponse, HasData, IsInvalidate]
  | WriteReq => [IsWrite, NeedsWritable, IsRequest, NeedsResponse, HasData]
  | WriteResp => [IsWrite, IsResponse]
  | WritebackDirty => [IsWrite, IsRequest, IsEviction, HasData, FromCache]
  | WritebackClean => [IsWrite, IsRequest, IsEviction, HasData, FromCache]
  | WriteClean => [IsWrite, IsRequest, HasData, FromCache]
  | CleanEvict => [IsRequest, IsEviction, FromCache]
  | SoftPFReq => [IsRead, IsRequest, IsSWPrefetch, NeedsResponse]
  | SoftPFExReq => [IsRead, NeedsWritable, IsInvalidate, IsRequest, IsSWPrefetch, NeedsResponse]
  | HardPFReq => [IsRead, IsRequest, IsHWPrefetch, NeedsResponse, FromCache]
  | SoftPFResp => [IsRead, IsResponse, IsSWPrefetch, HasData]
  | HardPFResp => [IsRead, IsResponse, IsHWPrefetch, HasData]
  | WriteLineReq => [IsWrite, NeedsWritable, IsRequest, NeedsResponse, HasData]
  | UpgradeReq => [IsInvalidate, NeedsWritable, IsUpgrade, IsRequest, NeedsResponse, FromCache]
  | SCUpgradeReq =>
    [IsInvalidate, NeedsWritable, IsUpgrade, IsLlsc, IsRequest, NeedsResponse, FromCache]
  | UpgradeResp => [IsUpgrade, IsResponse]
  | SCUpgradeFailReq =>
    [IsRead, NeedsWritable, IsInvalidate, IsLlsc, IsRequest, NeedsResponse, FromCache]
  | UpgradeFailResp => [IsRead, IsResponse, HasData]
  | ReadExReq => [IsRead, NeedsWritable, IsInvalidate, IsRequest, NeedsResponse, FromCache]
  | ReadExResp => [IsRead, IsResponse, HasData]
  | ReadCleanReq => [IsRead, IsRequest, NeedsResponse, FromCache]
  | ReadSharedReq => [IsRead, IsRequest, NeedsResponse, FromCache]
  | LoadLockedReq => [IsRead, IsLlsc, IsRequest, NeedsResponse]
  | StoreCondReq => [IsWrite, NeedsWritable, IsLlsc, IsRequest, NeedsResponse, HasData]
  | StoreCondFailReq => [IsWrite, NeedsWritable, IsLlsc, IsRequest, NeedsResponse, HasData]
  | StoreCondResp => [IsWrite, IsLlsc, IsResponse]
  | SwapReq => [IsRead, IsWrite, NeedsWritable, IsRequest, HasData, NeedsResponse]
  | SwapResp => [IsRead, IsWrite, IsResponse, HasData]
  | MessageReq => [IsWrite, IsRequest, NeedsResponse, HasData]
  | MessageResp => [IsWrite, IsResponse]
  | MemFenceReq => [IsRequest, NeedsResponse]
  | MemFenceResp => [IsResponse]
  | CleanSharedReq => [IsRequest, IsClean, NeedsResponse, FromCache]
  | CleanSharedResp => [IsResponse, IsClean]
  | CleanInvalidReq => [IsRequest, IsInvalidate, IsClean, NeedsResponse, FromCache]
  | CleanInvalidResp => [IsResponse, IsInvalidate, IsClean]
  | InvalidDestError => [IsResponse, IsError]
  | BadAddressError => [IsResponse, IsError]
  | FunctionalReadError => [IsRead, IsResponse, IsError]
  | FunctionalWriteError => [IsWrite, IsResponse, IsError]
  | PrintReq => [IsRequest, IsPrint]
  | FlushReq => [IsRequest, IsFlush, NeedsWritable]
  | InvalidateReq => [IsInvalidate, IsRequest, NeedsWritable, NeedsResponse, FromCache]
  | InvalidateResp => [IsInvalidate, IsResponse]

/-- `commandInfo[cmd].response`. -/
def responseCommand : MemCmd → MemCmd
  | ReadReq | ReadCleanReq | ReadSharedReq | LoadLockedReq => ReadResp
  | WriteReq | WriteLineReq => WriteResp
  | SoftPFReq | SoftPFExReq => SoftPFResp
  | HardPFReq => HardPFResp
  | UpgradeReq | SCUpgradeReq => UpgradeResp
  | SCUpgradeFailReq => UpgradeFailResp
  | ReadExReq => ReadExResp
  | StoreCondReq | StoreCondFailReq => StoreCondResp
  | SwapReq => SwapResp
  | MessageReq => MessageResp
  | MemFenceReq => MemFenceResp
  | CleanSharedReq => CleanSharedResp
  | CleanInvalidReq => CleanInvalidResp
  | InvalidateReq => InvalidateResp
  | _ => InvalidCmd

def testCmdAttrib (cmd : MemCmd) (attrib : Attribute) : Bool :=
  cmd.attributes.contains attrib

def isRead (cmd : MemCmd) : Bool := cmd.testCmdAttrib .IsRead
def isWrite (cmd : MemCmd) : Bool := cmd.testCmdAttrib .IsWrite
def isUpgrade (cmd : MemCmd) : Bool := cmd.testCmdAttrib .IsUpgrade
def isRequest (cmd : MemCmd) : Bool := cmd.testCmdAttrib .IsRequest
def isResponse (cmd : MemCmd) : Bool := cmd.testCmdAttrib .IsResponse
def needsWritable (cmd : MemCmd) : Bool := cmd.testCmdAttrib .NeedsWritable
def needsResponse (cmd : MemCmd) : Bool := cmd.testCmdAttrib .NeedsResponse
def isInvalidate (cmd : MemCmd) : Bool := cmd.testCmdAttrib .IsInvalidate
def isClean (cmd : MemCmd) : Bool := cmd.testCmdAttrib .IsClean
def fromCache (cmd : MemCmd) : Bool := cmd.testCmdAttrib .FromCache
def hasData (cmd : MemCmd) : Bool := cmd.testCmdAttrib .HasData

end MemCmd

/-- A `Request`: its physical address and the flags that the caches look at. -/
structure Request where
  paddr : ℕ := 0
  UNCACHEABLE : Bool := false
  STRICT_ORDER : Bool := false
  MMAPPED_IPR : Bool := false
  PRIVILEGED : Bool := false
  LLSC : Bool := false
  MEM_SWAP : Bool := false
  MEM_SWAP_COND : Bool := false
  SECURE : Bool := false
  INVALIDATE : Bool := false
  CLEAN : Bool := false
  deriving DecidableEq, Repr

namespace Request

def isUncacheable (req : Request) : Bool := req.UNCACHEABLE
def isCacheInvalidate (req : Request) : Bool := req.INVALIDATE
-- `isSet(CLEAN|INVALIDATE)`: one of the two is enough
def isCacheMaintenance (req : Request) : Bool := req.CLEAN || req.INVALIDATE

/-- `getFlags() & noMergeFlags`, as `TargetList::updateWriteFlags` has it. -/
def noMerge (req : Request) : Bool :=
  req.UNCACHEABLE || req.STRICT_ORDER || req.MMAPPED_IPR || req.PRIVILEGED || req.LLSC
    || req.MEM_SWAP || req.MEM_SWAP_COND || req.SECURE

end Request

/-- A packet. `id` stands for the packet itself: two packets with the same `id` are one. The
sender state that a lookup for an MSHR finds first, if there is one, is `senderMSHR`. -/
structure Packet where
  id : ℕ
  cmd : MemCmd
  req : Request := {}
  addr : ℕ := 0
  size : ℕ := 0
  _isSecure : Bool := false
  HAS_SHARERS : Bool := false
  EXPRESS_SNOOP : Bool := false
  RESPONDER_HAD_WRITABLE : Bool := false
  CACHE_RESPONDING : Bool := false
  SATISFIED : Bool := false
  senderMSHR : Option ℕ := none
  deriving DecidableEq, Repr

namespace Packet

def isWrite (pkt : Packet) : Bool := pkt.cmd.isWrite
def isUpgrade (pkt : Packet) : Bool := pkt.cmd.isUpgrade
def isRequest (pkt : Packet) : Bool := pkt.cmd.isRequest
def needsResponse (pkt : Packet) : Bool := pkt.cmd.needsResponse
def isInvalidate (pkt : Packet) : Bool := pkt.cmd.isInvalidate
def isClean (pkt : Packet) : Bool := pkt.cmd.isClean
def fromCache (pkt : Packet) : Bool := pkt.cmd.fromCache
def hasData (pkt : Packet) : Bool := pkt.cmd.hasData
def hasRespData (pkt : Packet) : Bool := pkt.cmd.responseCommand.hasData
def isExpressSnoop (pkt : Packet) : Bool := pkt.EXPRESS_SNOOP
def isSecure (pkt : Packet) : Bool := pkt._isSecure
def getAddr (pkt : Packet) : ℕ := pkt.addr

/-- `needsWritable` asserts that the packet is a request. -/
def needsWritable (pkt : Packet) : Except Fault Bool := do
  require pkt.isRequest .not_request
  pure pkt.cmd.needsWritable

def getOffset (pkt : Packet) (blk_size : ℕ) : ℕ := pkt.addr &&& (blk_size - 1)

def setCacheResponding (pkt : Packet) : Except Fault Packet := do
  require pkt.isRequest .not_request
  require (!pkt.CACHE_RESPONDING) .cache_responding
  pure { pkt with CACHE_RESPONDING := true }

def setResponderHadWritable (pkt : Packet) : Except Fault Packet := do
  require pkt.CACHE_RESPONDING .cache_responding
  require (!pkt.RESPONDER_HAD_WRITABLE) .responder_had_writable
  pure { pkt with RESPONDER_HAD_WRITABLE := true }

def setHasSharers (pkt : Packet) : Packet := { pkt with HAS_SHARERS := true }

def setSatisfied (pkt : Packet) : Except Fault Packet := do
  require pkt.isClean .not_clean
  require (!pkt.SATISFIED) .already_satisfied
  pure { pkt with SATISFIED := true }

/-- `new Packet(pkt, true, true)`: a copy without the flags that caches set, as the packet
`id`. -/
def copyCleared (pkt : Packet) (id : ℕ) : Packet :=
  { pkt with
    id := id
    HAS_SHARERS := false
    EXPRESS_SNOOP := false
    RESPONDER_HAD_WRITABLE := false
    CACHE_RESPONDING := false
    SATISFIED := false }

/-- `new Packet(std::make_shared<Request>(*pkt->req), pkt->cmd, blkSize, pkt->id)`: a packet
of its own for the whole block, as the packet `id`. -/
def copyBlock (pkt : Packet) (id blkSize : ℕ) : Packet :=
  { id := id
    cmd := pkt.cmd
    req := pkt.req
    addr := pkt.req.paddr - pkt.req.paddr % blkSize
    size := blkSize
    _isSecure := pkt.req.SECURE }

end Packet

end Bindu.Mem
