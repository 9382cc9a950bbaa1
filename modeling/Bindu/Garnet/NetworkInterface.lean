/-
`NetworkInterface`: from protocol messages to flits and back.

Source: `garnet2.0/NetworkInterface.cc`, and the counters of `GarnetNetwork.hh` it updates.
The sending half of an interface works on the channel of its link into the network, the
receiving half on the channel of its link out of the network.
-/
import Bindu.Garnet.Units

open Bindu.Lib Function

namespace Bindu.Garnet

/-- `Cycles::operator-`. -/
def cyclesSub (a b : ℕ) : Except Fault ℕ := do
  assert (b ≤ a) .cycles_underflow
  pure (a - b)

/-! ## Statistics -/

namespace NetStats

/-- `GarnetNetwork::check_mrkd_flt`. -/
def check_mrkd_flt (st : NetStats) (num_routers : ℕ) : Bool :=
  if (List.range num_routers).any (fun r => 0 < st.mrkd_flt_ r) then false
  else !(st.marked_flt_received < st.marked_flt_injected)

def increment_injected_flits (st : NetStats) (marked : Bool) : NetStats :=
  if marked then { st with marked_flt_injected := st.marked_flt_injected + 1 } else st

/-- What `increment_received_flits` does when all marked flits have been received. -/
def record_maxima (st : NetStats) : NetStats :=
  { st with
    m_max_flit_latency := st.flit_latency
    m_max_flit_network_latency := st.flit_network_latency
    m_max_flit_queueing_latency := st.flit_queueing_latency
    m_max_marked_flit_latency := st.marked_flit_latency
    m_max_marked_flit_network_latency := st.marked_flit_network_latency
    m_max_marked_flit_queueing_latency := st.marked_flit_queueing_latency
    exits := st.exits ++ [.all_marked_received] }

def increment_received_flits (st : NetStats) (num_routers : ℕ) (marked : Bool) :
    Except Fault NetStats :=
  if marked then
    let st := { st with
      marked_flt_received := st.marked_flt_received + 1
      total_marked_flit_received := st.total_marked_flit_received + 1 }
    if st.check_mrkd_flt num_routers then do
      assert (st.marked_flt_injected = st.marked_flt_received) .marked_flits
      pure st.record_maxima
    else
      pure st
  else
    pure st

/-- `increment_flit_network_latency` and `increment_flit_queueing_latency`. -/
def increment_flit_latency (st : NetStats) (latency : ℕ) (marked : Bool) : NetStats :=
  if marked then { st with total_marked_flit_latency := st.total_marked_flit_latency + latency }
  else st

/-- The three `update_flit_..._histogram` functions, as far as the maxima go. -/
def update_flit_latency (st : NetStats) (total network queueing : ℕ) (marked : Bool) : NetStats :=
  if marked then
    { st with
      marked_flit_latency := max st.marked_flit_latency total
      marked_flit_network_latency := max st.marked_flit_network_latency network
      marked_flit_queueing_latency := max st.marked_flit_queueing_latency queueing }
  else
    { st with
      flit_latency := max st.flit_latency total
      flit_network_latency := max st.flit_network_latency network
      flit_queueing_latency := max st.flit_queueing_latency queueing }

/-- `check_network_saturation`. The average is a quotient of doubles in the source. -/
def check_network_saturation (st : NetStats) (curCycle : ℕ) : NetStats :=
  let st :=
    if st.total_marked_flit_received > 0
        ∧ st.total_marked_flit_latency > 1000 * st.total_marked_flit_received then
      { st with exits := st.exits ++ [.latency_threshold] }
    else st
  if curCycle > 10000000 then { st with exits := st.exits ++ [.cycle_quota] } else st

end NetStats

namespace NetworkInterface

variable (net : GarnetNetwork)

def incrementStats (s : NetState) (t_flit : flit) : Except Fault NetState := do
  assert (net.sim_type = 2 || net.sim_type = 1) .sim_type
  let st ← s.stats.increment_received_flits net.num_routers t_flit.m_marked
  let d ← cyclesSub t_flit.m_dequeue_time t_flit.m_enqueue_time
  let network_delay ← cyclesSub d 1
  let dest_queueing_delay ← cyclesSub s.now t_flit.m_dequeue_time
  let queueing_delay := t_flit.src_delay + dest_queueing_delay
  let total_delay := queueing_delay + network_delay
  let st := st.increment_flit_latency network_delay t_flit.m_marked
  let st := st.increment_flit_latency queueing_delay t_flit.m_marked
  let st := st.update_flit_latency total_delay network_delay queueing_delay t_flit.m_marked
  pure { s with
    stats :=
      if net.sim_type = 2 ∧ s.now > net.warmup_cycles then st.check_network_saturation s.now
      else st }

/-! ## The sending half -/

/-- The search of `calculateVC`: `i` more virtual channels to try. -/
def calculateVC_loop (s : NetState) (n vnet : ℕ) :
    ℕ → NetworkInterface → Option ℕ × NetworkInterface
  | 0, x =>
    let busy := x.vc_busy_counter vnet + 1
    (none, { x with vc_busy_counter := update x.vc_busy_counter vnet busy })
  | i + 1, x =>
    let delta := x.m_vc_allocator vnet
    let next := if delta + 1 = net.m_vcs_per_vnet then 0 else delta + 1
    let x := { x with m_vc_allocator := update x.m_vc_allocator vnet next }
    let vc := vnet * net.m_vcs_per_vnet + delta
    if is_vc_idle s (net.outNetLink n) vc then
      (some vc, { x with vc_busy_counter := update x.vc_busy_counter vnet 0 })
    else
      calculateVC_loop s n vnet i x

/-- `calculateVC`; `none` stands for -1. -/
def calculateVC (s : NetState) (n vnet : ℕ) : Option ℕ × NetState :=
  let (vc, x) := calculateVC_loop net s n vnet net.m_vcs_per_vnet (s.ni n)
  (vc, s.setNI n x)

/-- Is the next flit of interface `n` a marked one? -/
def takesMark (s : NetState) (n : ℕ) : Bool :=
  net.sim_type = 2 && s.now > net.warmup_cycles && 0 < s.stats.mrkd_flt_ (net.m_router_id n)

/-- The route of a packet from interface `n` to node `destID`. -/
def routeTo (n vnet destID : ℕ) (net_dest : NetDest) : RouteInfo where
  vnet := vnet
  net_dest := net_dest
  src_ni := n
  src_router := net.m_router_id n
  dest_ni := destID
  dest_router := net.m_router_id destID
  hops_traversed := -1

variable [StdHeap]

/-- The second half of the loop body of `flitisizeMessage`: create the one flit of the packet
and put it into virtual channel `vc`. `msg` is the message in the protocol buffer and `dest`
the destination set of its clone. -/
def create_flit (s : NetState) (n vnet vc destID : ℕ) (msg : Message) (dest : NetDest) :
    Except Fault NetState := do
  let src_delay ← cyclesSub s.now msg.m_time
  let marked := takesMark net s n
  let route := routeTo net n vnet destID dest
  let fl := flit.new s.next_ptr 0 vc vnet route 1 { msg with m_Destination := dest } s.now marked
    src_delay
  let r := net.m_router_id n
  let mrkd := if marked then s.stats.mrkd_flt_ r - 1 else s.stats.mrkd_flt_ r
  let st := { s.stats with mrkd_flt_ := update s.stats.mrkd_flt_ r mrkd }
  let x := s.ni n
  let x := { x with
    m_ni_out_vcs := update x.m_ni_out_vcs vc ((x.m_ni_out_vcs vc).insert fl)
    m_ni_out_vcs_enqueue_time := update x.m_ni_out_vcs_enqueue_time vc s.now }
  let s := { s with
    ni := update s.ni n x
    stats := st.increment_injected_flits marked
    next_ptr := s.next_ptr + 1
    injected := update s.injected n (s.injected n ++ [fl]) }
  pure (OutputUnit.set_vc_state s .ACTIVE_ (net.outNetLink n) vc)

/-- Remove a node from the destination set of the message at the head of the protocol
buffer. -/
def removeDestination (s : NetState) (n vnet destID : ℕ) : NetState :=
  match (s.ni n).inNode_ptr vnet with
  | none => s
  | some b =>
    match b.m_prio_heap with
    | [] => s
    | m :: _ =>
      let x := s.ni n
      let b := b.setHeadDestination (m.m_Destination.erase destID)
      s.setNI n { x with inNode_ptr := update x.inNode_ptr vnet (some b) }

/-- The loop of `flitisizeMessage` over the destinations that are left. `multicast` says
that the message had more than one destination when the call began. -/
def flitisize_loop (n vnet : ℕ) (msg : Message) (multicast : Bool) :
    List ℕ → NetState → Except Fault (Bool × NetState)
  | [], s => pure (true, s)
  | destID :: rest, s =>
    match calculateVC net s n vnet with
    | (none, s) => pure (false, s)
    | (some vc, s) => do
        let dest := if multicast then {destID} else msg.m_Destination
        let s := if multicast then removeDestination s n vnet destID else s
        let s ← create_flit net s n vnet vc destID msg dest
        flitisize_loop n vnet msg multicast rest s

/-- `flitisizeMessage`: has the whole message been turned into flits? -/
def flitisizeMessage (s : NetState) (n vnet : ℕ) (msg : Message) :
    Except Fault (Bool × NetState) :=
  let dest_nodes := msg.m_Destination.getAllDest
  flitisize_loop net n vnet msg (1 < dest_nodes.length) dest_nodes s

/-- `dequeue` from the protocol buffer of virtual network `vnet`. -/
def dequeueMessage (s : NetState) (n vnet : ℕ) : Except Fault NetState :=
  match (s.ni n).inNode_ptr vnet with
  | none => pure s
  | some b => do
      let b ← b.dequeue s.now
      let x := s.ni n
      pure (s.setNI n { x with inNode_ptr := update x.inNode_ptr vnet (some b) })

/-- The body of the first loop of `NetworkInterface::wakeup`. -/
def takeMessage (n : ℕ) (s : NetState) (vnet : ℕ) : Except Fault NetState :=
  match (s.ni n).inNode_ptr vnet with
  | none => pure s
  | some b =>
    if b.isReady s.now then do
      let msg ← b.peekMsgPtr
      let (done, s) ← flitisizeMessage net s n vnet msg
      if done then dequeueMessage s n vnet else pure s
    else
      pure s

/-- Has the flit of a virtual channel of the same ordered virtual network been waiting
longer than that of `vc`? -/
def older (s : NetState) (n vc t_vc : ℕ) : Bool :=
  let x := s.ni n
  (x.m_ni_out_vcs t_vc).isReady s.now
    && x.m_ni_out_vcs_enqueue_time t_vc < x.m_ni_out_vcs_enqueue_time vc

/-- The test of the loop of `scheduleOutputLink`. -/
def isCandidate (s : NetState) (n vc : ℕ) : Bool :=
  (((s.ni n).m_ni_out_vcs vc).isReady s.now
      && ((s.chan (net.outNetLink n)).m_outvc_state vc).has_credit)
    && !(net.m_ordered (vc / net.m_vcs_per_vnet)
      && (vcsOf net (vc / net.m_vcs_per_vnet)).any (older s n vc))

/-- What `scheduleOutputLink` does for the virtual channel it has picked. -/
def sendFlit (s : NetState) (n vc : ℕ) : Except Fault NetState := do
  let l := net.outNetLink n
  let s ← OutputUnit.decrement_credit s l vc
  let x := s.ni n
  let (t_flit, b) ← (x.m_ni_out_vcs vc).getTopFlit
  let enqueue_time :=
    if t_flit.isTail then update x.m_ni_out_vcs_enqueue_time vc INFINITE_
    else x.m_ni_out_vcs_enqueue_time
  let s := s.setNI n { x with
    m_vc_round_robin := vc
    m_ni_out_vcs := update x.m_ni_out_vcs vc b
    m_ni_out_vcs_enqueue_time := enqueue_time }
  pure (OutputUnit.insert_flit s l (t_flit.set_time (s.now + 1)))

def scheduleOutputLink (s : NetState) (n : ℕ) : Except Fault NetState :=
  match (roundRobin ((s.ni n).m_vc_round_robin + 1) net.m_num_vcs).find? (isCandidate net s n) with
  | none => pure s
  | some vc => sendFlit net s n vc

/-- `checkReschedule`: wake up in the next cycle if something is waiting. -/
def checkReschedule (s : NetState) (n : ℕ) : NetState :=
  let x := s.ni n
  let message := (List.range net.m_virtual_networks).any (fun vnet =>
    match x.inNode_ptr vnet with
    | none => false
    | some b => b.isReady s.now)
  let waiting := (List.range net.m_num_vcs).any (fun vc => (x.m_ni_out_vcs vc).isReady (s.now + 1))
  if message || waiting then s.schedule (.ni n) (s.now + 1) else s

/-! ## The receiving half -/

/-- `outNode_ptr[vnet]`. -/
def outBuffer (s : NetState) (n vnet : ℕ) : Except Fault MessageBuffer :=
  match (s.ni n).outNode_ptr vnet with
  | none => throw .no_message_buffer
  | some b => pure b

def setOutBuffer (s : NetState) (n vnet : ℕ) (b : MessageBuffer) : NetState :=
  let x := s.ni n
  s.setNI n { x with outNode_ptr := update x.outNode_ptr vnet (some b) }

/-- `random_time()`, called if there are random delays. -/
def random_time (s : NetState) (randomized : Bool) : Except Fault (ℕ × NetState) :=
  if !randomized then pure (0, s)
  else do
    let (a, s) ← s.random
    let (b, s) ← s.random
    if b % 8 = 0 then do
      let (c, s) ← s.random
      pure (1 + a % 4 + (100 + (1 + c % 15)), s)
    else
      pure (1 + a % 4, s)

/-- `outNode_ptr[vnet]->enqueue` of the message of a flit. -/
def enqueueMessage (s : NetState) (n vnet : ℕ) (msg : Message) : Except Fault NetState := do
  let b ← outBuffer s n vnet
  let randomized := net.randomization || b.m_randomization
  let (delay, s) ← random_time s randomized
  let (b, _) ← b.enqueue net.warmup_enabled randomized msg s.now 1 delay
  pure (setOutBuffer s n vnet b)

def sendCredit (s : NetState) (n : ℕ) (t_flit : flit) (is_free : Bool) : NetState :=
  let l := net.inNetLink n
  let c := s.chan l
  s.setChan l { c with creditQueue := c.creditQueue.insert ⟨t_flit.m_vc, is_free, s.now⟩ }

/-- Enqueue the message of a flit in the protocol buffer, send a credit back, update the
statistics and delete the flit. -/
def eject (s : NetState) (n : ℕ) (t_flit : flit) : Except Fault NetState := do
  let s ← enqueueMessage net s n t_flit.m_vnet t_flit.m_msg_ptr
  let s ← incrementStats net (sendCredit net s n t_flit true) t_flit
  pure { s with ejected := update s.ejected n (s.ejected n ++ [t_flit]) }

/-- Is there room in the protocol buffer of a stalled flit? -/
def hasRoom (s : NetState) (n : ℕ) (t_flit : flit) : Except Fault Bool := do
  let b ← outBuffer s n t_flit.m_vnet
  pure (b.areNSlotsAvailable 1 s.now)

/-- Take the flit at position `k` out of the stall queue. -/
def unstall (s : NetState) (n k : ℕ) (stallFlit : flit) : Except Fault NetState := do
  let vnet := stallFlit.m_vnet
  let x := s.ni n
  let count := x.m_stall_count vnet - 1
  let s := s.setNI n { x with
    m_stall_queue := x.m_stall_queue.eraseIdx k
    m_stall_count := update x.m_stall_count vnet count }
  if count = 0 then do
    let b ← outBuffer s n vnet
    pure (setOutBuffer s n vnet { b with m_dequeue_callback := false })
  else
    pure s

/-- `checkStallQueue`: has a message been enqueued? -/
def checkStallQueue (s : NetState) (n : ℕ) : Except Fault (Bool × NetState) := do
  let stalled ← firstM (fun p => hasRoom s n p.1) (s.ni n).m_stall_queue.zipIdx
  match stalled with
  | none => pure (false, s)
  | some (stallFlit, k) => do
      let s ← eject net s n stallFlit
      let s ← unstall s n k stallFlit
      pure (true, s)

/-- Put a flit into the stall queue and register the callback. -/
def stall (s : NetState) (n : ℕ) (t_flit : flit) : Except Fault NetState := do
  let vnet := t_flit.m_vnet
  let b ← outBuffer s n vnet
  let x := s.ni n
  let s := s.setNI n { x with
    m_stall_queue := x.m_stall_queue ++ [t_flit]
    m_stall_count := update x.m_stall_count vnet (x.m_stall_count vnet + 1) }
  pure (setOutBuffer s n vnet { b with m_dequeue_callback := true })

/-- What `NetworkInterface::wakeup` does with a flit it has taken from its link. -/
def acceptFlit (s : NetState) (n : ℕ) (messageEnqueued : Bool) (t_flit : flit) :
    Except Fault NetState :=
  if t_flit.isTail then do
    let room ← hasRoom s n t_flit
    if !messageEnqueued && room then eject net s n t_flit else stall s n t_flit
  else
    incrementStats net (sendCredit net s n t_flit false) t_flit

/-- The incoming flit link. -/
def receiveFlit (s : NetState) (n : ℕ) (messageEnqueued : Bool) : Except Fault NetState :=
  let l := net.inNetLink n
  let c := s.chan l
  if c.linkBuffer.isReady s.now then do
    let (t_flit, b) ← c.linkBuffer.getTopFlit
    acceptFlit net (s.setChan l { c with linkBuffer := b }) n messageEnqueued
      (t_flit.set_dequeue_time s.now)
  else
    pure s

/-- `NetworkInterface::wakeup` of interface `n`. The incoming credit link is handled as an
output unit handles its own. -/
def wakeup (s : NetState) (n : ℕ) : Except Fault NetState := do
  let s ← (List.range net.m_virtual_networks).foldlM (takeMessage net n) s
  let s ← scheduleOutputLink net s n
  let s := checkReschedule net s n
  let (messageEnqueued, s) ← checkStallQueue net s n
  let s ← receiveFlit net s n messageEnqueued
  let s ← OutputUnit.wakeup s (net.outNetLink n)
  let l := net.inNetLink n
  pure (if 0 < (s.chan l).creditQueue.getSize then s.schedule (.creditLink l) (s.now + 1) else s)

/-! ## The protocol side -/

/-- A controller enqueues a message for the network. -/
def protocolEnqueue (s : NetState) (n vnet : ℕ) (msg : Message) (delta : ℕ) :
    Except Fault NetState :=
  match (s.ni n).inNode_ptr vnet with
  | none => throw .no_message_buffer
  | some b => do
      let randomized := net.randomization || b.m_randomization
      let (delay, s) ← random_time s randomized
      let (b, arrival_time) ← b.enqueue net.warmup_enabled randomized msg s.now delta delay
      let x := s.ni n
      pure ((s.setNI n { x with inNode_ptr := update x.inNode_ptr vnet (some b) }).schedule
        (.ni n) arrival_time)

/-- A controller dequeues a message that has arrived; `dequeueCallback` wakes the interface
if it asked for it. -/
def protocolDequeue (s : NetState) (n vnet : ℕ) : Except Fault NetState := do
  let b ← outBuffer s n vnet
  let b' ← b.dequeue s.now
  let s := setOutBuffer s n vnet b'
  pure (if b.m_dequeue_callback then s.schedule (.ni n) (s.now + 1) else s)

end NetworkInterface

end Bindu.Garnet
