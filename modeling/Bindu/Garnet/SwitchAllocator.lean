/-
`SwitchAllocator`: the two stages of switch allocation.

In the first stage every input port picks one of its virtual channels whose flit may be
sent, round robin; in the second stage every output port picks one of the input ports that
ask for it, round robin, and the winning flit leaves its virtual channel. `m_port_requests`
and `m_vc_winners` are cleared at the end of every wakeup, so they are values here that the
first stage hands to the second: for every input port the output port it asks for and the
virtual channel it asks for.

Source: `garnet2.0/SwitchAllocator.cc`.
-/
import Bindu.Garnet.Units

open Bindu.Lib

namespace Bindu.Garnet

open InputUnit

/-- The pointer after `winner`: `winner + 1`, or 0 at the end. -/
def nextPointer (winner n : ℕ) : ℕ := if winner + 1 ≥ n then 0 else winner + 1

namespace SwitchAllocator

variable (net : GarnetNetwork)

def get_vnet (invc : ℕ) : Except Fault ℕ := do
  let vnet := invc / net.m_vcs_per_vnet
  assert (vnet < net.m_virtual_networks) .vc_range
  pure vnet

/-- The test of the ordering loop of `send_allowed`: `temp_vc` holds a flit for the same
output port that was enqueued before. -/
def enqueued_before (s : NetState) (l outport t_enqueue_time temp_vc : ℕ) : Except Fault Bool := do
  let ready ← need_stage s l temp_vc .SA_ s.now
  let v := vcAt s l temp_vc
  pure (ready && v.m_output_port = outport && v.m_enqueue_time < t_enqueue_time)

/-- `send_allowed` as it is called, without an output virtual channel: `l` is the link of the
input port. -/
def send_allowed (s : NetState) (r l invc outport : ℕ) : Except Fault Bool := do
  let vnet ← get_vnet net invc
  if !OutputUnit.has_free_vc net s (net.outLink r outport) vnet then
    pure false
  else if net.m_ordered vnet then do
    let t_enqueue_time := (vcAt s l invc).m_enqueue_time
    let other ← firstM (enqueued_before s l outport t_enqueue_time) (vcsOf net vnet)
    pure other.isNone
  else
    pure true

/-- The test of the loop of `arbitrate_inports`. The port number of a flit is an index into
`m_port_requests`. -/
def may_request (s : NetState) (r l invc : ℕ) : Except Fault Bool := do
  let ready ← need_stage s l invc .SA_ s.now
  if ready then do
    let t_flit ← peekTopFlit s l invc
    assert (0 ≤ t_flit.m_outport && t_flit.m_outport < net.num_outports r) .outport_range
    send_allowed net s r l invc t_flit.m_outport.toNat
  else
    pure false

/-- The requests of the first stage: input port to output port and virtual channel. -/
abbrev Requests := ℕ → Option (ℕ × ℕ)

/-- The body of the outer loop of `arbitrate_inports`. -/
def arbitrate_inport (r : ℕ) (st : NetState × Requests) (inport : ℕ) :
    Except Fault (NetState × Requests) := do
  let (s, requests) := st
  let l := net.inLink r inport
  let winner ← firstM (may_request net s r l)
    (roundRobin (s.m_round_robin_invc r inport) net.m_num_vcs)
  match winner with
  | none => pure (s, requests)
  | some invc => do
      let t_flit ← peekTopFlit s l invc
      let pointer := nextPointer invc net.m_num_vcs
      pure ({ s with m_round_robin_invc := setEntry s.m_round_robin_invc r inport pointer },
        Function.update requests inport (some (t_flit.m_outport.toNat, invc)))

def arbitrate_inports (s : NetState) (r : ℕ) : Except Fault (NetState × Requests) :=
  (List.range (net.num_inports r)).foldlM (arbitrate_inport net r) (s, fun _ => none)

/-- `vc_allocate`, with the search for a free virtual channel it makes. -/
def vc_allocate (s : NetState) (lout lin invc : ℕ) : Except Fault (ℕ × NetState) := do
  let vnet ← get_vnet net invc
  match OutputUnit.select_free_vc net s lout vnet with
  | none => throw .no_outvc
  | some (outvc, s) => pure (outvc, grant_outvc s lin invc outvc)

/-- The output virtual channel of an input virtual channel, allocated if it has none. -/
def get_outvc (s : NetState) (lout lin invc : ℕ) : Except Fault (ℕ × NetState) :=
  let outvc := (vcAt s lin invc).m_output_vc
  if outvc = -1 then vc_allocate net s lout lin invc else pure (outvc.toNat, s)

variable [StdHeap]

/-- Free the virtual channel, if the packet has left it, and send a credit. -/
def send_credit (s : NetState) (lin invc : ℕ) (t_flit : flit) : Except Fault NetState :=
  if t_flit.isTail then do
    assert (!(vcAt s lin invc).m_input_buffer.isReady s.now) .granted_vc_ready
    pure (increment_credit (set_vc_idle s lin invc) lin invc true)
  else
    pure (increment_credit s lin invc false)

/-- What `arbitrate_outports` does for the winner of an output port. -/
def grant (s : NetState) (r outport inport invc : ℕ) : Except Fault NetState := do
  let lin := net.inLink r inport
  let lout := net.outLink r outport
  let (outvc, s) ← get_outvc net s lout lin invc
  let (t_flit, s) ← getTopFlit s lin invc
  assert (t_flit.m_outport = outport) .granted_outport
  let t_flit := (((t_flit.set_outport outport).set_outport_dirn
    (net.getOutportDirection r outport)).set_vc outvc).advance_stage .ST_ s.now
  let s ← OutputUnit.decrement_credit s lout outvc
  let s := CrossbarSwitch.update_sw_winner s r inport t_flit
  let s ← send_credit s lin invc t_flit
  let pointer := nextPointer inport (net.num_inports r)
  pure { s with m_round_robin_inport := setEntry s.m_round_robin_inport r outport pointer }

/-- The body of the outer loop of `arbitrate_outports`. -/
def arbitrate_outport (r : ℕ) (requests : Requests) (s : NetState) (outport : ℕ) :
    Except Fault NetState :=
  match (roundRobin (s.m_round_robin_inport r outport) (net.num_inports r)).findSome?
      (fun inport => (requests inport).bind (fun p =>
        if p.1 = outport then some (inport, p.2) else none)) with
  | none => pure s
  | some (inport, invc) => grant net s r outport inport invc

def arbitrate_outports (s : NetState) (r : ℕ) (requests : Requests) : Except Fault NetState :=
  (List.range (net.num_outports r)).foldlM (arbitrate_outport net r requests) s

/-- The input virtual channels of a router, in the order `check_for_wakeup` looks at them. -/
def inputVcs (r : ℕ) : List (ℕ × ℕ) :=
  (List.range (net.num_inports r)).flatMap (fun i =>
    (List.range net.m_num_vcs).map (fun j => (i, j)))

def check_for_wakeup (s : NetState) (r : ℕ) : Except Fault NetState := do
  let nextCycle := s.now + 1
  let ready ← firstM (fun ij => need_stage s (net.inLink r ij.1) ij.2 .SA_ nextCycle)
    (inputVcs net r)
  pure (if ready.isSome then s.schedule (.router r) nextCycle else s)

/-- `SwitchAllocator::wakeup` of router `r`. -/
def wakeup (s : NetState) (r : ℕ) : Except Fault NetState := do
  let (s, requests) ← arbitrate_inports net s r
  let s ← arbitrate_outports net s r requests
  check_for_wakeup net s r

end SwitchAllocator

end Bindu.Garnet
