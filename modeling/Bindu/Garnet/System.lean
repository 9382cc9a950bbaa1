/-
The running network: `Router::wakeup`, and what can happen to a network one event after the
other.

In a run anything that is ever called may be called at any time: the wakeups of the objects in
any order, the bubble moves also on their own, the protocol side, and the clock. What holds in
every state of these runs holds whenever the event queue wakes the objects up.

Sources: `Router.cc`, `mem/ruby/common/Consumer.cc`.
-/
import Bindu.Garnet.SwitchAllocator
import Bindu.Garnet.NetworkInterface
import Bindu.Garnet.Bubble

open Bindu.Lib

namespace Bindu.Garnet

variable [StdHeap] (net : GarnetNetwork)

/-! ## `Router::wakeup` -/

namespace Router

/-- The first router that wakes up places the bubbles. -/
def init_bubbles (s : NetState) : Except Fault NetState :=
  if net.m_enable_bn = 1 && !s.m_bubble_init then
    match net.m_scheme with
    | .bn => init_brownian_bubbles net s
    | .cbs => init_brownian_bubbles_cbs net s
    | .other => throw .bubble_scheme
  else
    pure s

/-- `assert(bubble[id].inport_dirn != "Local")` after a move. -/
def check_inport (s : NetState) (id : ℕ) : Except Fault NetState := do
  let b ← s.getBubble id
  assert (b.inport_dirn ≠ .Local) .bubble_local
  pure s

/-- The body of the loop over the bubbles for moves within a router. -/
def move_intra (s : NetState) (id : ℕ) : Except Fault NetState :=
  match net.m_scheme with
  | .bn => do
      let (_, s) ← move_intra_bubble net s id
      check_inport s id
  | _ => pure s

/-- The body of the loop over the bubbles for moves between routers. -/
def move_inter (s : NetState) (id : ℕ) : Except Fault NetState :=
  match net.m_scheme with
  | .bn => do
      let (_, s) ← move_inter_bubble net s id
      check_inport s id
  | .cbs => do
      let (_, s) ← move_inter_bubble_cbs net s id
      check_inport s id
  | .other => pure s

def move_intra_bubbles (s : NetState) : Except Fault NetState :=
  if net.m_enable_bn = 1 && s.last_intra_bubble_movement < s.now then do
    let s ← (List.range s.bubble.length).foldlM (move_intra net) s
    pure { s with last_intra_bubble_movement := s.now + net.m_intra_bubble_period }
  else
    pure s

def move_inter_bubbles (s : NetState) : Except Fault NetState :=
  if net.m_enable_bn = 1 && s.last_inter_bubble_movement < s.now then do
    let s ← (List.range s.bubble.length).foldlM (move_inter net) s
    pure { s with last_inter_bubble_movement := s.now + net.m_inter_bubble_period }
  else
    pure s

/-- The output unit of port `outport` looks for a credit. -/
def output_wakeup (r : ℕ) (s : NetState) (outport : ℕ) : Except Fault NetState :=
  OutputUnit.wakeup s (net.outLink r outport)

/-- What a router does about its own flits and credits. -/
def switch (s : NetState) (r : ℕ) : Except Fault NetState := do
  let s ← (List.range (net.num_inports r)).foldlM (InputUnit.wakeup net r) s
  let s ← (List.range (net.num_outports r)).foldlM (output_wakeup net r) s
  let s ← SwitchAllocator.wakeup net s r
  CrossbarSwitch.wakeup net s r

/-- `Router::wakeup` of router `r`. -/
def wakeup (s : NetState) (r : ℕ) : Except Fault NetState := do
  let s ← init_bubbles net s
  let s ← move_intra_bubbles net s
  let s ← move_inter_bubbles net s
  switch net s r

end Router

/-- `Consumer::wakeup`. -/
def wakeup (s : NetState) : ConsumerId → Except Fault NetState
  | .router r => Router.wakeup net s r
  | .ni n => NetworkInterface.wakeup net s n
  | .networkLink l => NetworkLink.wakeup net s l
  | .creditLink l => CreditLink.wakeup net s l

/-- The objects of the network: numbers beyond the last router, interface or link name
none. -/
def IsConsumer : ConsumerId → Prop
  | .router r => r < net.num_routers
  | .ni n => n < net.num_nodes
  | .networkLink l => l < net.m_networklinks.length
  | .creditLink l => l < net.m_networklinks.length

/-! ## Runs -/

/-- What a protocol controller does: enqueue a message for the network, or dequeue one that
has arrived. -/
inductive ProtocolStep (s : NetState) : NetState → Prop
  | enqueue (n vnet : ℕ) (msg : Message) (delta : ℕ) (s' : NetState) (hn : n < net.num_nodes) :
      NetworkInterface.protocolEnqueue net s n vnet msg delta = .ok s' → ProtocolStep s s'
  | dequeue (n vnet : ℕ) (s' : NetState) (hn : n < net.num_nodes) :
      NetworkInterface.protocolDequeue s n vnet = .ok s' → ProtocolStep s s'

/-- One step of a run in which anything may be called at any time. -/
inductive AnyStep (s : NetState) : NetState → Prop
  | wakeup (c : ConsumerId) (s' : NetState) (hc : IsConsumer net c) :
      Garnet.wakeup net s c = .ok s' → AnyStep s s'
  | move_intra_bubble (id : ℕ) (moved : Bool) (s' : NetState) (hinit : s.m_bubble_init = true) :
      Garnet.move_intra_bubble net s id = .ok (moved, s') → AnyStep s s'
  | move_inter_bubble (id : ℕ) (moved : Bool) (s' : NetState) (hinit : s.m_bubble_init = true) :
      Garnet.move_inter_bubble net s id = .ok (moved, s') → AnyStep s s'
  | protocol (s' : NetState) : ProtocolStep net s s' → AnyStep s s'
  | clock (t : ℕ) : s.now ≤ t → AnyStep s { s with now := t }

/-- The states of the runs of `AnyStep` from `start`. -/
inductive Reachable (start : NetState) : NetState → Prop
  | start : Reachable start start
  | step (s s' : NetState) : Reachable start s → AnyStep net s s' → Reachable start s'

end Bindu.Garnet
