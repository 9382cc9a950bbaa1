/-
The switch of the simple network: `PerfectSwitch`.

A switch has a buffer per virtual network for every input and output port, and a routing table
with the nodes behind each output link. A message at the head of an input buffer is taken apart:
every link of the link order gets a copy for the destinations behind it that no link before it
took. If there is a slot for each copy the message is dequeued and the copies are enqueued,
otherwise it waits.

`random_mt` is a stream of outcomes, `std::sort` an instance of `StdSort`, and an access beyond
the end of a vector is a fault. A `Message` is a value here: the source enqueues the message it
has dequeued on the first link and clones of it on the others, and all of them differ from the
message in the destinations only.

Sources: `mem/ruby/network/simple/PerfectSwitch.cc`, `PerfectSwitch.hh`, `Switch.cc`,
`SimpleNetwork.cc`, `MessageBuffer::getSize` in `mem/ruby/network/MessageBuffer.cc`,
`mem/ruby/common/Consumer.cc`.
-/
import Bindu.Lib.StdSort
import Bindu.Garnet.MessageBuffer

open Bindu.Lib Bindu.Garnet

namespace Bindu.Ruby

inductive SwitchFault
  /-- an assertion of a message buffer -/
  | buffer (e : Fault)
  /-- `assert(m_link_order.size() == m_routing_table.size())` and the same for `m_out` -/
  | link_order
  /-- `assert(msg_dsts.count() == 0)` -/
  | unrouted
  /-- `m_out[link][vnet]` with no such element -/
  | m_out_range
  deriving DecidableEq

/-! ## What a switch is made of -/

structure LinkOrder where
  m_link : ℕ
  m_value : ℤ
  deriving DecidableEq

/-- `operator<(LinkOrder, LinkOrder)`. -/
def LinkOrder.lt (l1 l2 : LinkOrder) : Bool := decide (l1.m_value < l2.m_value)

/-- A message buffer with the fields of `getSize`. -/
structure PortBuffer extends MessageBuffer where
  m_time_last_time_size_checked : ℕ
  m_size_last_time_size_checked : ℕ
  deriving DecidableEq

/-- `MessageBuffer::getSize`. -/
def PortBuffer.getSize (b : PortBuffer) (curTime : ℕ) : ℕ × PortBuffer :=
  let b :=
    if b.m_time_last_time_size_checked ≠ curTime then
      { b with
        m_time_last_time_size_checked := curTime
        m_size_last_time_size_checked := b.m_prio_heap.length }
    else
      b
  (b.m_size_last_time_size_checked, b)

/-- What does not change once a switch is connected, with the flags of its network and of the
Ruby system. `clockPeriod` is `cyclesToTicks(Cycles(1))`. -/
structure SwitchParams where
  m_routing_table : List NetDest
  m_virtual_networks : ℕ
  m_adaptive_routing : Bool
  m_ordered : ℕ → Bool
  randomization : Bool
  warmup_enabled : Bool
  clockPeriod : ℕ
  clockPeriod_pos : 0 < clockPeriod

/-- `m_routing_table[link]`. -/
def SwitchParams.entry (P : SwitchParams) (link : ℕ) : NetDest := P.m_routing_table.getD link ∅

/-- The rows of `m_in` have a null pointer for a virtual network that the sender does not use.
Those of `m_out` have none, but as the rows of `m_in` they end at the last virtual network that
the receiver uses. -/
structure SwitchState where
  /-- `m_switch->clockEdge()` -/
  now : ℕ
  m_in : List (List (Option MessageBuffer))
  m_out : List (List PortBuffer)
  m_link_order : List LinkOrder
  m_round_robin_start : ℕ
  m_wakeups_wo_switch : ℕ
  m_pending_message_count : ℕ → ℤ
  m_scheduled_wakeups : Finset ℕ
  /-- `m_scheduled_wakeups` of the throttle of each link, the consumer of its buffers -/
  throttle_wakeups : ℕ → Finset ℕ
  /-- what `random_mt` will return -/
  rng : ℕ → ℕ

/-- A switch after `init`, an `addInPort` for every row of `m_in` and an `addOutPort` for every row
of `m_out`. -/
def SwitchState.connected (m_in : List (List (Option MessageBuffer)))
    (m_out : List (List PortBuffer)) (rng : ℕ → ℕ) : SwitchState where
  now := 0
  m_in := m_in
  m_out := m_out
  m_link_order := (List.range m_out.length).map (fun link => ⟨link, 0⟩)
  m_round_robin_start := 0
  m_wakeups_wo_switch := 0
  m_pending_message_count := fun _ => 0
  m_scheduled_wakeups := ∅
  throttle_wakeups := fun _ => ∅
  rng := rng

namespace SwitchState

/-- `m_in[incoming][vnet]`, if there is one and it is no null pointer. -/
def inQueue (s : SwitchState) (incoming vnet : ℕ) : Option MessageBuffer :=
  (s.m_in[incoming]?.bind (·[vnet]?)).join

/-- `m_out[link][vnet]`, if there is one. -/
def portBuffer (s : SwitchState) (link vnet : ℕ) : Option PortBuffer :=
  s.m_out[link]?.bind (·[vnet]?)

/-- The messages of `m_out[link][vnet]`, with all that `enqueue` and `dequeue` read. -/
def outQueue (s : SwitchState) (link vnet : ℕ) : Option MessageBuffer :=
  (s.portBuffer link vnet).map PortBuffer.toMessageBuffer

/-- `m_out[link][vnet]`. -/
def getOut (s : SwitchState) (link vnet : ℕ) : Except SwitchFault PortBuffer :=
  match s.portBuffer link vnet with
  | none => throw .m_out_range
  | some b => pure b

def setIn (s : SwitchState) (incoming vnet : ℕ) (b : MessageBuffer) : SwitchState :=
  { s with m_in := s.m_in.modify incoming (·.set vnet (some b)) }

def setOut (s : SwitchState) (link vnet : ℕ) (b : PortBuffer) : SwitchState :=
  { s with m_out := s.m_out.modify link (·.set vnet b) }

/-- One outcome of `random_mt`. -/
def random (s : SwitchState) : ℕ × SwitchState :=
  (s.rng 0, { s with rng := fun n => s.rng (n + 1) })

/-- `random_time()`, called if there are random delays. -/
def random_time (s : SwitchState) (randomized : Bool) : ℕ × SwitchState :=
  if !randomized then
    (0, s)
  else
    let (a, s) := s.random
    let (b, s) := s.random
    if b % 8 = 0 then
      let (c, s) := s.random
      (1 + a % 4 + (100 + (1 + c % 15)), s)
    else
      (1 + a % 4, s)

end SwitchState

/-- `Consumer::scheduleEventAbsolute`: the wakeups before now are forgotten. -/
def scheduleEventAbsolute (now : ℕ) (wakeups : Finset ℕ) (evt_time : ℕ) : Finset ℕ :=
  (insert evt_time wakeups).filter (now ≤ ·)

/-! ## The link order -/

section LinkOrder

variable (P : SwitchParams) [StdSort]

/-- `(out_queue_length << 8) | random_mt.random(0, 0xff)`, an `int`. -/
def linkValue (out_queue_length random : ℕ) : ℤ :=
  (BitVec.ofNat 32 out_queue_length <<< 8 ||| BitVec.ofNat 32 (random % 256)).toInt

/-- `out_queue_length += m_out[out][v]->getSize(current_time)`. -/
def addQueueLength (out : ℕ) (acc : ℕ × SwitchState) (v : ℕ) :
    Except SwitchFault (ℕ × SwitchState) := do
  let b ← acc.2.getOut out v
  let (size, b) := b.getSize acc.2.now
  pure (acc.1 + size, acc.2.setOut out v b)

/-- How clogged link `out` is. -/
def measureLink (s : SwitchState) (out : ℕ) : Except SwitchFault SwitchState := do
  let (out_queue_length, s) ← (List.range P.m_virtual_networks).foldlM (addQueueLength out) (0, s)
  let (random, s) := s.random
  pure { s with m_link_order := s.m_link_order.set out ⟨out, linkValue out_queue_length random⟩ }

/-- The part of `operateMessageBuffer` for adaptive routing. -/
def orderLinks (s : SwitchState) (vnet : ℕ) : Except SwitchFault SwitchState :=
  if P.m_adaptive_routing then
    if P.m_ordered vnet then
      -- Don't adaptively route
      pure { s with m_link_order := (List.range s.m_out.length).map (fun out => ⟨out, 0⟩) }
    else do
      let s ← (List.range s.m_out.length).foldlM (measureLink P) s
      -- Look at the most empty link first
      pure { s with m_link_order := StdSort.sort LinkOrder.lt s.m_link_order }
  else
    pure s

end LinkOrder

/-! ## Routing a message -/

section Route

variable (P : SwitchParams)

/-- The body of the loop over the links: `output_links` with `output_link_destinations`, and what
is left of `msg_dsts`. -/
def pickLink (acc : List (ℕ × NetDest) × NetDest) (link : ℕ) : List (ℕ × NetDest) × NetDest :=
  let dst := P.entry link
  if !acc.2.intersectionIsNotEmpty dst then
    acc
  else
    (acc.1 ++ [(link, acc.2.AND dst)], acc.2.removeNetDest dst)

def route (m_link_order : List LinkOrder) (msg_dsts : NetDest) : List (ℕ × NetDest) × NetDest :=
  m_link_order.foldl (fun acc l => pickLink P acc l.m_link) ([], msg_dsts)

/-- The check for a slot on an outgoing queue. -/
def checkSlot (s : SwitchState) (vnet : ℕ) (enough : Bool) (c : ℕ × NetDest) :
    Except SwitchFault Bool := do
  let b ← s.getOut c.1 vnet
  pure (if !b.areNSlotsAvailable 1 s.now then false else enough)

variable [StdHeap]

/-- `m_out[outgoing][vnet]->enqueue` of the copy for one link. -/
def enqueueCopy (vnet : ℕ) (message : Message) (s : SwitchState) (c : ℕ × NetDest) :
    Except SwitchFault SwitchState := do
  let b ← s.getOut c.1 vnet
  let randomized := P.randomization || b.m_randomization
  let (delay, s) := s.random_time randomized
  let (b', arrival_time) ← (b.toMessageBuffer.enqueue P.warmup_enabled randomized
    { message with m_Destination := c.2 } s.now P.clockPeriod delay).mapError .buffer
  pure { s.setOut c.1 vnet { b with toMessageBuffer := b' } with
    throttle_wakeups := Function.update s.throttle_wakeups c.1
      (scheduleEventAbsolute s.now (s.throttle_wakeups c.1) arrival_time) }

variable [StdSort]

/-- The body of the loop of `operateMessageBuffer`, and whether the loop goes on. -/
def forward (s : SwitchState) (incoming vnet : ℕ) (buffer : MessageBuffer) :
    Except SwitchFault (Bool × SwitchState) := do
  let message ← buffer.peekMsgPtr.mapError .buffer
  require (s.m_link_order.length == P.m_routing_table.length) .link_order
  require (s.m_link_order.length == s.m_out.length) .link_order
  let s ← orderLinks P s vnet
  let (copies, msg_dsts) := route P s.m_link_order message.m_Destination
  require (msg_dsts.count == 0) .unrouted
  let enough ← copies.foldlM (checkSlot s vnet) true
  if !enough then
    pure (false, { s with
      m_scheduled_wakeups :=
        scheduleEventAbsolute s.now s.m_scheduled_wakeups (s.now + P.clockPeriod) })
  else do
    let buffer ← (buffer.dequeue s.now).mapError .buffer
    let s := { s.setIn incoming vnet buffer with
      m_pending_message_count := Function.update s.m_pending_message_count vnet
        (s.m_pending_message_count vnet - 1) }
    let s ← copies.foldlM (enqueueCopy P vnet message) s
    pure (true, s)

/-- The loop of `operateMessageBuffer`. Each round that does not end it takes a message from the
buffer, so as many rounds as there are messages are enough. -/
def forwardAll (incoming vnet : ℕ) : ℕ → SwitchState → Except SwitchFault SwitchState
  | 0, s => pure s
  | rounds + 1, s =>
    match s.inQueue incoming vnet with
    | none => pure s
    | some buffer =>
      if buffer.isReady s.now then do
        let (again, s) ← forward P s incoming vnet buffer
        if again then forwardAll incoming vnet rounds s else pure s
      else
        pure s

/-- `operateMessageBuffer`, if `m_in[incoming][vnet]` is there. -/
def operateMessageBuffer (vnet : ℕ) (s : SwitchState) (incoming : ℕ) :
    Except SwitchFault SwitchState :=
  match s.inQueue incoming vnet with
  | none => pure s
  | some buffer => forwardAll P incoming vnet buffer.m_prio_heap.length s

/-- `incoming++`, back to the first port after the last. -/
def nextPort (ports incoming : ℕ) : ℕ := if incoming + 1 ≥ ports then 0 else incoming + 1

def operateVnet (s : SwitchState) (vnet : ℕ) : Except SwitchFault SwitchState :=
  let ports := s.m_in.length
  let incoming := s.m_round_robin_start
  let s := { s with m_round_robin_start := nextPort ports s.m_round_robin_start }
  if s.m_pending_message_count vnet > 0 then
    (List.iterate (nextPort ports) (nextPort ports incoming) ports).foldlM
      (operateMessageBuffer P vnet) s
  else
    pure s

def PRIORITY_SWITCH_LIMIT : ℕ := 128

/-- `PerfectSwitch::wakeup`: the highest virtual network first, most of the time. -/
def SwitchState.wakeup (s : SwitchState) : Except SwitchFault SwitchState :=
  if s.m_wakeups_wo_switch + 1 > PRIORITY_SWITCH_LIMIT then
    (List.range P.m_virtual_networks).foldlM (operateVnet P) { s with m_wakeups_wo_switch := 0 }
  else
    (List.range P.m_virtual_networks).reverse.foldlM (operateVnet P)
      { s with m_wakeups_wo_switch := s.m_wakeups_wo_switch + 1 }

end Route

end Bindu.Ruby
