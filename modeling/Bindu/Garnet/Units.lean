/-
The parts of a router other than the allocator: `OutputUnit`, `InputUnit`, `CrossbarSwitch`,
and the links between routers.

An output unit and an input unit are named by the link they feed or read, a `NetworkLink`
and its `CreditLink` by their common number.

Sources: `OutputUnit.cc/.hh`, `InputUnit.cc/.hh`, `CrossbarSwitch.cc`, `NetworkLink.cc` under
`garnet2.0`.
-/
import Bindu.Garnet.Routing

open Bindu.Lib

namespace Bindu.Garnet

/-- The numbers below `n` from `start` on, going round. -/
def roundRobin (start n : ℕ) : List ℕ := (List.range n).map (fun k => (start + k) % n)

/-! ## `OutputUnit` -/

namespace OutputUnit

def decrement_credit (s : NetState) (l out_vc : ℕ) : Except Fault NetState := do
  let o ← ((s.chan l).m_outvc_state out_vc).decrement_credit
  pure (s.setChan l ((s.chan l).modOutVc out_vc o))

def increment_credit (s : NetState) (l out_vc : ℕ) : Except Fault NetState := do
  let o ← ((s.chan l).m_outvc_state out_vc).increment_credit
  pure (s.setChan l ((s.chan l).modOutVc out_vc o))

def set_vc_state (s : NetState) (state : VC_state_type) (l vc : ℕ) : NetState :=
  s.setChan l ((s.chan l).modOutVc vc (((s.chan l).m_outvc_state vc).setState state s.now))

def has_free_vc (net : GarnetNetwork) (s : NetState) (l vnet : ℕ) : Bool :=
  (vcsOf net vnet).any (is_vc_idle s l)

/-- The first idle virtual channel, made active. The source returns -1 if there is none. -/
def select_free_vc (net : GarnetNetwork) (s : NetState) (l vnet : ℕ) : Option (ℕ × NetState) :=
  ((vcsOf net vnet).find? (is_vc_idle s l)).map (fun vc => (vc, set_vc_state s .ACTIVE_ l vc))

def insert_flit [StdHeap] (s : NetState) (l : ℕ) (t_flit : flit) : NetState :=
  let c := s.chan l
  (s.setChan l { c with m_out_buffer := c.m_out_buffer.insert t_flit }).schedule
    (.networkLink l) (s.now + 1)

def wakeup [StdHeap] (s : NetState) (l : ℕ) : Except Fault NetState :=
  let c := s.chan l
  if c.creditBuffer.isReady s.now then do
    let (t_credit, b) ← c.creditBuffer.getTopFlit
    let s ← increment_credit (s.setChan l { c with creditBuffer := b }) l t_credit.m_vc
    pure (if t_credit.m_is_free_signal then set_vc_state s .IDLE_ l t_credit.m_vc else s)
  else
    pure s

end OutputUnit

/-! ## `InputUnit` -/

namespace InputUnit

/-- `m_vcs[vc]` of the input unit that reads link `l`. -/
def vcAt (s : NetState) (l vc : ℕ) : VirtualChannel := (s.chan l).m_vcs vc

def setVc (s : NetState) (l vc : ℕ) (v : VirtualChannel) : NetState :=
  s.setChan l ((s.chan l).modVc vc v)

def set_vc_idle (s : NetState) (l vc : ℕ) : NetState :=
  setVc s l vc ((vcAt s l vc).set_idle s.now)

def set_vc_active (s : NetState) (l vc : ℕ) : NetState :=
  setVc s l vc ((vcAt s l vc).set_active s.now)

def grant_outport (s : NetState) (l vc outport : ℕ) : NetState :=
  setVc s l vc ((vcAt s l vc).set_outport outport)

def grant_outvc (s : NetState) (l vc outvc : ℕ) : NetState :=
  setVc s l vc ((vcAt s l vc).set_outvc outvc)

def need_stage (s : NetState) (l vc : ℕ) (stage : flit_stage) (time : ℕ) : Except Fault Bool :=
  (vcAt s l vc).need_stage stage time

def vc_isEmpty (s : NetState) (l vc : ℕ) : Bool := (vcAt s l vc).isEmpty

def peekTopFlit (s : NetState) (l vc : ℕ) : Except Fault flit :=
  (vcAt s l vc).m_input_buffer.peekTopFlit

variable [StdHeap]

def getTopFlit (s : NetState) (l vc : ℕ) : Except Fault (flit × NetState) := do
  let v := vcAt s l vc
  let (t_flit, b) ← v.m_input_buffer.getTopFlit
  pure (t_flit, setVc s l vc { v with m_input_buffer := b })

def insertFlit (s : NetState) (l vc : ℕ) (t_flit : flit) : NetState :=
  let v := vcAt s l vc
  setVc s l vc { v with m_input_buffer := v.m_input_buffer.insert t_flit }

/-- `InputUnit::increment_credit`: send a credit back for this virtual channel. -/
def increment_credit (s : NetState) (l in_vc : ℕ) (free_signal : Bool) : NetState :=
  let c := s.chan l
  (s.setChan l { c with creditQueue := c.creditQueue.insert ⟨in_vc, free_signal, s.now⟩ }).schedule
    (.creditLink l) (s.now + 1)

/-- The part of `InputUnit::wakeup` that depends on the type of the flit. -/
def compute_route (net : GarnetNetwork) (s : NetState) (r l vc : ℕ) (t_flit : flit) :
    Except Fault (flit × NetState) :=
  if t_flit.isHead then do
    assert ((vcAt s l vc).m_vc_state.1 = .IDLE_) .vc_not_idle
    let (outport, s) ← outportCompute net (set_vc_active s l vc) r t_flit.m_route
    assert (outport < net.num_outports r) .outport_range
    pure ((t_flit.set_outport outport).set_outport_dirn (net.getOutportDirection r outport),
      grant_outport s l vc outport)
  else do
    assert ((vcAt s l vc).m_vc_state.1 = .ACTIVE_) .vc_not_active
    pure (t_flit, s)

/-- The end of `InputUnit::wakeup`: buffer the flit, and wake the router when it is due for
switch allocation. In the source the flit is put into the buffer first and its stage is set
through the pointer. -/
def buffer_flit (net : GarnetNetwork) (s : NetState) (r l vc : ℕ) (t_flit : flit) :
    Except Fault NetState :=
  let pipe_stages := net.m_latency r
  if pipe_stages = 1 then
    pure (insertFlit s l vc (t_flit.advance_stage .SA_ s.now))
  else do
    assert (1 < pipe_stages) .pipe_stages
    let wait_time := pipe_stages - 1
    pure ((insertFlit s l vc (t_flit.advance_stage .SA_ (s.now + wait_time))).schedule
      (.router r) (s.now + wait_time))

/-- `InputUnit::wakeup` of input port `inport` of router `r`. -/
def wakeup (net : GarnetNetwork) (r : ℕ) (s : NetState) (inport : ℕ) : Except Fault NetState :=
  let l := net.inLink r inport
  let c := s.chan l
  if c.linkBuffer.isReady s.now then do
    let (t_flit, b) ← c.linkBuffer.getTopFlit
    let vc := t_flit.m_vc
    let (t_flit, s) ← compute_route net (s.setChan l { c with linkBuffer := b }) r l vc
      t_flit.increment_hops
    buffer_flit net s r l vc t_flit
  else
    pure s

end InputUnit

/-! ## `CrossbarSwitch` -/

namespace CrossbarSwitch

variable [StdHeap]

def setBuffer (s : NetState) (r inport : ℕ) (b : flitBuffer flit) : NetState :=
  { s with m_switch_buffer := setEntry s.m_switch_buffer r inport b }

def update_sw_winner (s : NetState) (r inport : ℕ) (t_flit : flit) : NetState :=
  setBuffer s r inport ((s.m_switch_buffer r inport).insert t_flit)

/-- The body of the loop of `CrossbarSwitch::wakeup`. -/
def traverse (net : GarnetNetwork) (r : ℕ) (s : NetState) (inport : ℕ) : Except Fault NetState :=
  let b := s.m_switch_buffer r inport
  if b.isReady s.now then do
    let (t_flit, b') ← b.getTopFlit
    if t_flit.is_stage .ST_ s.now then
      pure (OutputUnit.insert_flit (setBuffer s r inport b') (net.outLink r t_flit.m_outport.toNat)
        ((t_flit.advance_stage .LT_ (s.now + 1)).set_time (s.now + 1)))
    else
      pure s
  else
    pure s

def wakeup (net : GarnetNetwork) (s : NetState) (r : ℕ) : Except Fault NetState :=
  (List.range (net.num_inports r)).foldlM (traverse net r) s

end CrossbarSwitch

/-! ## `NetworkLink` and `CreditLink` -/

variable [StdHeap]

/-- `NetworkLink::wakeup` of a network link. -/
def NetworkLink.wakeup (net : GarnetNetwork) (s : NetState) (l : ℕ) : Except Fault NetState :=
  let c := s.chan l
  if c.m_out_buffer.isReady s.now then do
    let (t_flit, b) ← c.m_out_buffer.getTopFlit
    let t := s.now + net.linkLatency l
    pure ((s.setChan l { c with
        m_out_buffer := b
        linkBuffer := c.linkBuffer.insert (t_flit.set_time t) }).scheduleEndpoint
      (net.linkConsumer l) t)
  else
    pure s

/-- `NetworkLink::wakeup` of a credit link. -/
def CreditLink.wakeup (net : GarnetNetwork) (s : NetState) (l : ℕ) : Except Fault NetState :=
  let c := s.chan l
  if c.creditQueue.isReady s.now then do
    let (t_credit, b) ← c.creditQueue.getTopFlit
    let t := s.now + net.linkLatency l
    pure ((s.setChan l { c with
        creditQueue := b
        creditBuffer := c.creditBuffer.insert { t_credit with m_time := t } }).scheduleEndpoint
      (net.creditConsumer l) t)
  else
    pure s

end Bindu.Garnet
