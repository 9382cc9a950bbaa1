/-
`MessageBuffer`, the queue between a protocol controller and its network interface.

Source: `mem/ruby/network/MessageBuffer.cc`. The functions here are those a network
interface or its controller calls on these queues: a heap of messages ordered by arrival
time and message counter, and the bookkeeping that makes a dequeue visible to
`areNSlotsAvailable` only in the next cycle. A tick is a cycle of the network clock, as
everywhere in the network model.
-/
import Bindu.Garnet.Flit

open Bindu.Lib

namespace Bindu.Garnet

structure MessageBuffer where
  m_prio_heap : List Message
  m_stall_map_size : ℕ
  m_max_size : ℕ
  m_time_last_time_enqueue : ℕ
  m_time_last_time_pop : ℕ
  m_last_arrival_time : ℕ
  m_size_at_cycle_start : ℕ
  m_msgs_this_cycle : ℕ
  m_msg_counter : ℕ
  m_strict_fifo : Bool
  m_randomization : Bool
  /-- Is a dequeue callback registered? The only callback ever registered is
  `NetworkInterface::dequeueCallback`. -/
  m_dequeue_callback : Bool
  deriving DecidableEq

namespace MessageBuffer

/-- The constructor. -/
def new (buffer_size : ℕ) (ordered randomization : Bool) : MessageBuffer where
  m_prio_heap := []
  m_stall_map_size := 0
  m_max_size := buffer_size
  m_time_last_time_enqueue := 0
  m_time_last_time_pop := 0
  m_last_arrival_time := 0
  m_size_at_cycle_start := 0
  m_msgs_this_cycle := 0
  m_msg_counter := 0
  m_strict_fifo := ordered
  m_randomization := randomization
  m_dequeue_callback := false

def areNSlotsAvailable (b : MessageBuffer) (n current_time : ℕ) : Bool :=
  if b.m_max_size = 0 then
    true
  else
    let current_size :=
      if b.m_time_last_time_pop < current_time then
        b.m_prio_heap.length
      else if b.m_time_last_time_enqueue < current_time then
        b.m_size_at_cycle_start
      else
        b.m_size_at_cycle_start + b.m_msgs_this_cycle
    decide (current_size + b.m_stall_map_size + n ≤ b.m_max_size)

def isReady (b : MessageBuffer) (current_time : ℕ) : Bool :=
  match b.m_prio_heap with
  | [] => false
  | m :: _ => decide (m.m_LastEnqueueTime ≤ current_time)

def peekMsgPtr (b : MessageBuffer) : Except Fault Message :=
  match b.m_prio_heap with
  | [] => throw .message_ready
  | m :: _ => pure m

/-- The message at the head is shared with the caller of `peekMsgPtr`, who may change its
destination set in place. The order of the heap does not depend on it. -/
def setHeadDestination (b : MessageBuffer) (d : NetDest) : MessageBuffer :=
  match b.m_prio_heap with
  | [] => b
  | m :: rest => { b with m_prio_heap := { m with m_Destination := d } :: rest }

/-- The arrival time of a message. `randomized` is the flag of the Ruby system or of the
buffer, and `random_time` the outcome of `random_time()` if it is called. -/
def arrivalTime (b : MessageBuffer) (randomized : Bool) (current_time delta random_time : ℕ) : ℕ :=
  if !randomized then
    current_time + delta
  else if b.m_strict_fifo then
    max b.m_last_arrival_time current_time + random_time
  else
    current_time + random_time

/-- `m_last_arrival_time` after an enqueue. While a cache trace warms up, only the branch for
random delays in a strict FIFO touches it. -/
def lastArrivalTime (b : MessageBuffer) (warmup randomized : Bool)
    (current_time arrival_time : ℕ) : ℕ :=
  if !warmup then arrival_time
  else if randomized && b.m_strict_fifo then max b.m_last_arrival_time current_time
  else b.m_last_arrival_time

variable [StdHeap]

/-- `MessageBuffer::enqueue`; also returns the arrival time, at which the consumer of the
buffer is scheduled. -/
def enqueue (b : MessageBuffer) (warmup randomized : Bool) (message : Message)
    (current_time delta random_time : ℕ) : Except Fault (MessageBuffer × ℕ) := do
  let first := b.m_time_last_time_enqueue < current_time
  assert (0 < delta) .message_time
  let arrival_time := b.arrivalTime randomized current_time delta random_time
  assert (current_time < arrival_time) .message_time
  assert (!(b.m_strict_fifo && arrival_time < b.m_last_arrival_time)) .message_order
  assert (message.m_LastEnqueueTime ≤ current_time) .message_time
  let m_msg_counter := b.m_msg_counter + 1
  let message := { message with
    m_LastEnqueueTime := arrival_time
    m_msg_counter := m_msg_counter }
  pure ({ b with
      m_prio_heap := StdHeap.push_heap Message.greater (b.m_prio_heap ++ [message])
      m_time_last_time_enqueue := if first then current_time else b.m_time_last_time_enqueue
      m_msgs_this_cycle := (if first then 0 else b.m_msgs_this_cycle) + 1
      m_msg_counter := m_msg_counter
      m_last_arrival_time := b.lastArrivalTime warmup randomized current_time arrival_time },
    arrival_time)

/-- `MessageBuffer::dequeue`, without the callback. -/
def dequeue (b : MessageBuffer) (current_time : ℕ) : Except Fault MessageBuffer := do
  assert (b.isReady current_time) .message_ready
  let first := b.m_time_last_time_pop < current_time
  pure { b with
    m_size_at_cycle_start := if first then b.m_prio_heap.length else b.m_size_at_cycle_start
    m_time_last_time_pop := if first then current_time else b.m_time_last_time_pop
    m_prio_heap := (StdHeap.pop_heap Message.greater b.m_prio_heap).dropLast }

end MessageBuffer

end Bindu.Garnet
