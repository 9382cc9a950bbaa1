/-
The objects that travel: `flit` and `Credit`, the buffers they wait in (`flitBuffer`),
the virtual channel of an input port (`VirtualChannel`) and the credit counter of an
output port (`OutVcState`).

Sources: `CommonTypes.hh`, `flit.hh/.cc`, `Credit.hh/.cc`, `flitBuffer.hh/.cc`,
`VirtualChannel.hh/.cc`, `OutVcState.hh/.cc` under `garnet2.0`, `NetDest.cc` and
`Message.hh`.

Three conventions hold throughout the network model. Times are cycle counts of the one
clock domain all network objects share, so `clockEdge(Cycles(k))` is `now + k`. A flit is a value, and
`m_ptr` is its address: the source passes `flit*` around, and two flits are the same
object exactly when their addresses agree. An `assert` that can fail is a `Fault`.
-/
import Mathlib.Data.Finset.Sort
import Bindu.Lib.Fallible
import Bindu.Lib.StdHeap

open Bindu.Lib

namespace Bindu.Garnet

/-! ## Enumerations and faults -/

inductive flit_type
  | HEAD_ | BODY_ | TAIL_ | HEAD_TAIL_
  deriving DecidableEq, Repr

inductive VC_state_type
  | IDLE_ | VC_AB_ | ACTIVE_
  deriving DecidableEq, Repr

inductive VNET_type
  | CTRL_VNET_ | DATA_VNET_
  deriving DecidableEq, Repr

inductive flit_stage
  | I_ | VA_ | SA_ | ST_ | LT_
  deriving DecidableEq, Repr

inductive RoutingAlgorithm
  | TABLE_ | XY_ | RANDOM_ | ADAPT_RAND_ | WestFirst_ | ADAPT_WestFirst_ | CUSTOM_
  deriving DecidableEq, Repr

/-- `PortDirection` is a `std::string` in the source. The names the code compares with
are constructors of their own; every other name a topology file may give is `other`. -/
inductive PortDirection
  | East | West | North | South | Local | Unknown
  | other (name : String)
  deriving DecidableEq, Repr

/-- `m_scheme`: the two schemes `Router::wakeup` knows, and any other string. -/
inductive Scheme
  | bn | cbs | other
  deriving DecidableEq, Repr

/-- The ways a run can stop: the failed assertions, fatal errors and exceptions of the
modelled functions, named after the function they are in. -/
inductive Fault
  -- `OutVcState`
  | increment_credit | decrement_credit
  -- `InputUnit::wakeup`, `VirtualChannel::need_stage`, `SwitchAllocator`
  | vc_not_idle | vc_not_active | need_stage | outport_range | pipe_stages
  | granted_outport | granted_vc_ready | no_outvc | empty_buffer
  -- bubbles
  | bubble_cycle | no_upstream | bubble_case | bubble_inport | bubble_local
  | next_router | bubble_count | bubble_scheme
  -- routing
  | no_route | mesh_shape | same_router | no_outport | router_in_dirn | num_free_vc | custom_routing
  -- message buffers and network interfaces
  | message_time | message_order | message_ready | no_message_buffer | vc_range | sim_type
  | stall_offset | stall_map_count | stall_map_size
  | marked_flits
  -- C++ run time: `Cycles::operator-`, division, `random()` outcomes used up
  | cycles_underflow | division_by_zero | random_exhausted
  deriving DecidableEq, Repr

/-- `assert(b)`. -/
def assert (b : Bool) (e : Fault) : Except Fault Unit :=
  if b then pure () else throw e

@[simp] theorem assert_true (e : Fault) : assert true e = .ok () := rfl

@[simp] theorem assert_false (e : Fault) : assert false e = .error e := rfl

theorem assert_ok_iff {b : Bool} {e : Fault} {u : Unit} : assert b e = .ok u ↔ b = true := by
  cases b <;> simp

/-! ## Destinations and messages -/

/-- `NetDest` has one bit for every controller. A controller is named by its node number,
`MachineType_base_number(type) + version`, so a destination set is a set of nodes. -/
abbrev NetDest := Finset ℕ

/-- `NetDest::getAllDest` walks the bits in node order. -/
def NetDest.getAllDest (d : NetDest) : List ℕ := Finset.sort d

def NetDest.intersectionIsNotEmpty (d e : NetDest) : Bool := decide (d ∩ e).Nonempty

def NetDest.AND (d e : NetDest) : NetDest := d ∩ e

def NetDest.removeNetDest (d e : NetDest) : NetDest := d \ e

def NetDest.count (d : NetDest) : ℕ := Finset.card d

/-- A protocol message. `payload` stands for the contents, which the network never reads. -/
structure Message where
  payload : ℕ
  m_Destination : NetDest
  m_time : ℕ
  m_LastEnqueueTime : ℕ
  m_msg_counter : ℕ
  deriving DecidableEq

/-- `operator>(MsgPtr, MsgPtr)`, the order of the protocol buffers. -/
def Message.greater (l r : Message) : Bool :=
  if l.m_LastEnqueueTime = r.m_LastEnqueueTime then
    decide (l.m_msg_counter > r.m_msg_counter)
  else
    decide (l.m_LastEnqueueTime > r.m_LastEnqueueTime)

structure RouteInfo where
  vnet : ℕ
  net_dest : NetDest
  src_ni : ℕ
  src_router : ℕ
  dest_ni : ℕ
  dest_router : ℕ
  hops_traversed : ℤ
  deriving DecidableEq

/-! ## Flits and credits -/

structure flit where
  m_ptr : ℕ
  m_id : ℕ
  m_vnet : ℕ
  m_vc : ℕ
  m_route : RouteInfo
  m_enqueue_time : ℕ
  m_dequeue_time : ℕ
  m_time : ℕ
  m_type : flit_type
  m_msg_ptr : Message
  m_outport : ℤ
  m_outport_dirn : PortDirection
  src_delay : ℕ
  m_stage : flit_stage × ℕ
  m_marked : Bool
  deriving DecidableEq

/-- The constructor of `flit`. `src_delay` is set right after it by the only caller. -/
def flit.new (ptr id vc vnet : ℕ) (route : RouteInfo) (size : ℕ) (msg_ptr : Message)
    (curTime : ℕ) (marked : Bool) (src_delay : ℕ) : flit where
  m_ptr := ptr
  m_id := id
  m_vnet := vnet
  m_vc := vc
  m_route := route
  m_enqueue_time := curTime
  m_dequeue_time := curTime
  m_time := curTime
  m_type :=
    if size = 1 then .HEAD_TAIL_
    else if id = 0 then .HEAD_
    else if id + 1 = size then .TAIL_
    else .BODY_
  m_msg_ptr := msg_ptr
  m_outport := -1
  m_outport_dirn := .Unknown
  src_delay := src_delay
  m_stage := (.I_, curTime)
  m_marked := marked

namespace flit

def is_stage (f : flit) (stage : flit_stage) (time : ℕ) : Bool :=
  decide (stage = f.m_stage.1 ∧ f.m_stage.2 ≤ time)

def advance_stage (f : flit) (stage : flit_stage) (newTime : ℕ) : flit :=
  { f with m_stage := (stage, newTime) }

def set_time (f : flit) (time : ℕ) : flit := { f with m_time := time }

def set_vc (f : flit) (vc : ℕ) : flit := { f with m_vc := vc }

def set_outport (f : flit) (port : ℤ) : flit := { f with m_outport := port }

def set_outport_dirn (f : flit) (d : PortDirection) : flit := { f with m_outport_dirn := d }

def set_dequeue_time (f : flit) (time : ℕ) : flit := { f with m_dequeue_time := time }

def increment_hops (f : flit) : flit :=
  { f with m_route := { f.m_route with hops_traversed := f.m_route.hops_traversed + 1 } }

/-- A flit that starts a packet. -/
def isHead (f : flit) : Bool := f.m_type = .HEAD_ || f.m_type = .HEAD_TAIL_

/-- A flit that ends a packet. -/
def isTail (f : flit) : Bool := f.m_type = .TAIL_ || f.m_type = .HEAD_TAIL_

end flit

/-- `Credit` derives from `flit`; of the inherited fields only these are ever set or
read (`m_id` is always zero). -/
structure Credit where
  m_vc : ℕ
  m_is_free_signal : Bool
  m_time : ℕ
  deriving DecidableEq

/-- What `flitBuffer` needs of its elements: the key of `flit::greater`. -/
class Timed (α : Type) where
  get_time : α → ℕ
  get_id : α → ℕ

instance : Timed flit := ⟨flit.m_time, flit.m_id⟩

instance : Timed Credit := ⟨Credit.m_time, fun _ => 0⟩

/-- `flit::greater`. -/
def greater {α : Type} [Timed α] (n1 n2 : α) : Bool :=
  if Timed.get_time n1 = Timed.get_time n2 then
    decide (Timed.get_id n1 > Timed.get_id n2)
  else
    decide (Timed.get_time n1 > Timed.get_time n2)

/-! ## `flitBuffer` -/

/-- A vector of pointers in heap order. `max_size` is never set, so it is left out. -/
structure flitBuffer (α : Type) where
  m_buffer : List α
  deriving DecidableEq

namespace flitBuffer

variable {α : Type} [Timed α]

def empty : flitBuffer α := ⟨[]⟩

def isEmpty (b : flitBuffer α) : Bool := b.m_buffer.isEmpty

def getSize (b : flitBuffer α) : ℕ := b.m_buffer.length

/-- `peekTopFlit`, with its `assert(m_buffer.size() >= 1)`. -/
def peekTopFlit (b : flitBuffer α) : Except Fault α :=
  match b.m_buffer with
  | [] => throw .empty_buffer
  | f :: _ => pure f

def isReady (b : flitBuffer α) (curTime : ℕ) : Bool :=
  match b.m_buffer with
  | [] => false
  | f :: _ => decide (Timed.get_time f ≤ curTime)

variable [StdHeap]

def insert (b : flitBuffer α) (flt : α) : flitBuffer α :=
  ⟨StdHeap.push_heap greater (b.m_buffer ++ [flt])⟩

/-- `getTopFlit`: the front of the heap, and the buffer without it. -/
def getTopFlit (b : flitBuffer α) : Except Fault (α × flitBuffer α) :=
  match b.m_buffer with
  | [] => throw .empty_buffer
  | f :: rest => pure (f, ⟨(StdHeap.pop_heap greater (f :: rest)).dropLast⟩)

theorem insert_perm (b : flitBuffer α) (f : α) :
    (b.insert f).m_buffer.Perm (f :: b.m_buffer) :=
  (StdHeap.push_perm _ _).trans (List.perm_append_singleton f b.m_buffer)

/-- **What leaves a buffer.** The top flit; what stays is the rest. -/
theorem getTopFlit_perm {b b' : flitBuffer α} {f : α} (h : b.getTopFlit = .ok (f, b')) :
    b.m_buffer.Perm (f :: b'.m_buffer) := by
  unfold getTopFlit at h
  cases hb : b.m_buffer with
  | nil =>
    rw [hb] at h
    cases h
  | cons g rest =>
    obtain ⟨l', hl', hperm⟩ := StdHeap.pop_last greater g rest
    rw [hb] at h
    simp only [hl', List.dropLast_concat] at h
    injection h with h
    injection h with hf hb'
    rw [← hf, ← hb']
    exact (hperm.cons g).symm

theorem exists_getTopFlit {b : flitBuffer α} {t : ℕ} (h : b.isReady t = true) :
    ∃ f b', b.getTopFlit = .ok (f, b') ∧ Timed.get_time f ≤ t := by
  unfold isReady at h
  unfold getTopFlit
  cases hb : b.m_buffer with
  | nil =>
    rw [hb] at h
    cases h
  | cons f rest =>
    rw [hb] at h
    exact ⟨f, _, rfl, of_decide_eq_true h⟩

end flitBuffer

/-! ## `VirtualChannel` -/

/-- `INFINITE_`, which also is the enqueue time of an idle virtual channel. -/
abbrev INFINITE_ : ℕ := 10000

structure VirtualChannel where
  m_input_buffer : flitBuffer flit
  m_vc_state : VC_state_type × ℕ
  m_output_port : ℤ
  m_enqueue_time : ℕ
  m_output_vc : ℤ
  deriving DecidableEq

namespace VirtualChannel

def new : VirtualChannel where
  m_input_buffer := .empty
  m_vc_state := (.IDLE_, 0)
  m_output_port := -1
  m_enqueue_time := INFINITE_
  m_output_vc := -1

def set_idle (v : VirtualChannel) (curTime : ℕ) : VirtualChannel :=
  { v with
    m_vc_state := (.IDLE_, curTime)
    m_enqueue_time := INFINITE_
    m_output_port := -1
    m_output_vc := -1 }

def set_active (v : VirtualChannel) (curTime : ℕ) : VirtualChannel :=
  { v with m_vc_state := (.ACTIVE_, curTime), m_enqueue_time := curTime }

def set_outport (v : VirtualChannel) (outport : ℤ) : VirtualChannel :=
  { v with m_output_port := outport }

def set_outvc (v : VirtualChannel) (outvc : ℤ) : VirtualChannel :=
  { v with m_output_vc := outvc }

def isEmpty (v : VirtualChannel) : Bool := v.m_input_buffer.getSize = 0

def need_stage (v : VirtualChannel) (stage : flit_stage) (time : ℕ) : Except Fault Bool := do
  if v.m_input_buffer.isReady time then
    assert (v.m_vc_state.1 = .ACTIVE_ && v.m_vc_state.2 ≤ time) .need_stage
    let t_flit ← v.m_input_buffer.peekTopFlit
    pure (t_flit.is_stage stage time)
  else
    pure false

end VirtualChannel

/-! ## `OutVcState` -/

structure OutVcState where
  m_time : ℕ
  m_vc_state : VC_state_type
  m_credit_count : ℤ
  m_max_credit_count : ℤ
  deriving DecidableEq

namespace OutVcState

def new (max_credit_count : ℤ) : OutVcState where
  m_time := 0
  m_vc_state := .IDLE_
  m_credit_count := max_credit_count
  m_max_credit_count := max_credit_count

def has_credit (o : OutVcState) : Bool := 0 < o.m_credit_count

def increment_credit (o : OutVcState) : Except Fault OutVcState := do
  let o := { o with m_credit_count := o.m_credit_count + 1 }
  assert (o.m_credit_count ≤ o.m_max_credit_count) .increment_credit
  pure o

def decrement_credit (o : OutVcState) : Except Fault OutVcState := do
  let o := { o with m_credit_count := o.m_credit_count - 1 }
  assert (0 ≤ o.m_credit_count) .decrement_credit
  pure o

def isInState (o : OutVcState) (state : VC_state_type) (request_time : ℕ) : Bool :=
  o.m_vc_state = state && o.m_time ≤ request_time

def setState (o : OutVcState) (state : VC_state_type) (time : ℕ) : OutVcState :=
  { o with m_vc_state := state, m_time := time }

end OutVcState

end Bindu.Garnet
