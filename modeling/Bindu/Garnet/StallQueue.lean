/-
The stall queue of a network interface: who wakes the interface for a flit that waits in it?

A flit that arrives is put into the stall queue if its protocol buffer is full, or if the
interface has already delivered a message in this cycle. In both cases the interface then waits
for the callback that the protocol buffer of this flit makes when a message is dequeued. The
bookkeeping is right: the stall counts are the numbers of the stalled flits, and callbacks are
registered exactly where flits are stalled. But in the second case the callback is the wrong
thing to wait for. The protocol buffer may be empty, and then nobody dequeues from it.

As in the module on multicast messages, everything outside the receiving half of the interface
may change arbitrarily between two steps of a run.

Sources: `garnet2.0/NetworkInterface.cc`, `mem/ruby/network/MessageBuffer.cc`.
-/
import Bindu.Lib.Runs
import Bindu.Garnet.Frames
import Bindu.Garnet.Mesh

open Bindu.Lib Function List

namespace Bindu.Garnet

open NetworkInterface NetState Ok Prod

/-! ## The receiving half of an interface -/

structure Receiver where
  m_stall_queue : List flit
  m_stall_count : ℕ → ℤ
  outNode_ptr : ℕ → Option MessageBuffer

namespace Receiver

/-- The buffer of virtual network `vnet` is now `b`. -/
def setBuffer (x : Receiver) (vnet : ℕ) (b : MessageBuffer) : Receiver :=
  { x with outNode_ptr := update x.outNode_ptr vnet (some b) }

/-- The flit `f` goes to the end of the stall queue, and `b` is now the buffer of its virtual
network. -/
def stall (x : Receiver) (f : flit) (b : MessageBuffer) : Receiver where
  m_stall_queue := x.m_stall_queue ++ [f]
  m_stall_count := update x.m_stall_count f.m_vnet (x.m_stall_count f.m_vnet + 1)
  outNode_ptr := update x.outNode_ptr f.m_vnet (some b)

/-- The flit `f` at position `k` leaves the stall queue, and `b` is now the buffer of its virtual
network. -/
def unstall (x : Receiver) (k : ℕ) (f : flit) (b : MessageBuffer) : Receiver where
  m_stall_queue := x.m_stall_queue.eraseIdx k
  m_stall_count := update x.m_stall_count f.m_vnet (x.m_stall_count f.m_vnet - 1)
  outNode_ptr := update x.outNode_ptr f.m_vnet (some b)

/-- Is a callback left on the buffer `b` of virtual network `vnet` when one of its flits leaves the
stall queue? -/
def callbackLeft (x : Receiver) (vnet : ℕ) (b : MessageBuffer) : Bool :=
  if x.m_stall_count vnet - 1 = 0 then false else b.m_dequeue_callback

/-- Are there `k` free slots in the buffer of virtual network `vnet`? -/
def slots (x : Receiver) (now k vnet : ℕ) : Bool :=
  match x.outNode_ptr vnet with
  | none => false
  | some b => b.areNSlotsAvailable k now

/-- What can happen to the receiving half. The callback flag of a buffer changes only when a flit
is stalled, or when the last one of its virtual network leaves the stall queue. -/
inductive Step (x : Receiver) : Receiver → Prop
  | buffer (vnet : ℕ) (b b' : MessageBuffer) (hb : x.outNode_ptr vnet = some b)
      (hcallback : b'.m_dequeue_callback = b.m_dequeue_callback) : Step x (x.setBuffer vnet b')
  | stall (f : flit) (b : MessageBuffer) (hcallback : b.m_dequeue_callback = true) :
      Step x (x.stall f b)
  | unstall (k : ℕ) (f : flit) (b b' : MessageBuffer) (hk : x.m_stall_queue[k]? = some f)
      (hb : x.outNode_ptr f.m_vnet = some b)
      (hcallback : b'.m_dequeue_callback = x.callbackLeft f.m_vnet b) : Step x (x.unstall k f b')

/-- The stall counts count the stalled flits, and callbacks are registered where there are
some. -/
structure Consistent (x : Receiver) : Prop where
  count : ∀ vnet, x.m_stall_count vnet = (x.m_stall_queue.countP (fun f => f.m_vnet = vnet) : ℤ)
  callback : ∀ vnet b, x.outNode_ptr vnet = some b →
    (b.m_dequeue_callback = true ↔ 0 < x.m_stall_count vnet)

variable {x x' : Receiver}

/-- One virtual network gets a new count and a new buffer. -/
theorem Consistent.set (hx : Consistent x) {queue : List flit} {vnet : ℕ} {count : ℤ}
    {b : MessageBuffer} (hcallback : b.m_dequeue_callback = true ↔ 0 < count)
    (hcount : ∀ v, update x.m_stall_count vnet count v = queue.countP (fun f => f.m_vnet = v)) :
    Consistent ⟨queue, update x.m_stall_count vnet count, update x.outNode_ptr vnet (some b)⟩ := by
  refine ⟨hcount, fun v b' hb' => ?_⟩
  dsimp only at hb' ⊢
  by_cases hv : v = vnet
  · rw [hv, update_self, Option.some.injEq] at hb'
    rw [hv, update_self, ← hb']
    exact hcallback
  · rw [update_of_ne hv] at hb' ⊢
    exact hx.callback v b' hb'

theorem Consistent.step (hx : Consistent x) (h : Step x x') : Consistent x' := by
  cases h with
  | buffer vnet b b' hb hcallback =>
    have hset : Consistent ⟨x.m_stall_queue, _, _⟩ :=
      hx.set (hcallback ▸ hx.callback vnet b hb) (by rw [update_eq_self]; exact hx.count)
    rwa [update_eq_self] at hset
  | stall f b hcallback =>
    refine hx.set (iff_of_true hcallback ?_) (fun v => ?_)
    · rw [hx.count]
      omega
    · rw [countP_append, update_apply, hx.count, hx.count]
      split_ifs with hv
      · simp [hv]
      · simp [Ne.symm hv]
  | unstall k f b b' hk hb hcallback =>
    -- the flit that leaves was counted
    obtain ⟨hlt, hget⟩ := List.getElem?_eq_some_iff.1 hk
    have hperm := List.getElem_cons_eraseIdx_perm hlt
    rw [hget] at hperm
    have hcountP : ∀ v, x.m_stall_count v = ((x.m_stall_queue.eraseIdx k).countP
        (fun g => g.m_vnet = v) + if f.m_vnet = v then 1 else 0 : ℕ) := by
      intro v
      rw [hx.count, ← hperm.countP_eq, countP_cons]
      simp
    refine hx.set ?_ (fun v => ?_)
    · have hpos := hcountP f.m_vnet
      rw [if_pos rfl] at hpos
      rw [hcallback, callbackLeft]
      split_ifs with hzero
      · exact iff_of_false not_false (by omega)
      · exact iff_of_true ((hx.callback _ b hb).2 (by omega)) (by omega)
    · rw [update_apply, hcountP, hcountP]
      split_ifs with hv
      · simp [hv]
      · exact absurd rfl ‹_›
      · exact absurd (Eq.symm ‹_›) hv
      · rfl

end Receiver

/-! ## The free slots of a buffer -/

/-- One more message is in the buffer than before, and no callback has changed. -/
structure Filled (t : ℕ) (b b' : MessageBuffer) : Prop where
  slots : ∀ k, b'.areNSlotsAvailable k t = b.areNSlotsAvailable (k + 1) t
  callback : b'.m_dequeue_callback = b.m_dequeue_callback

theorem enqueue_filled [StdHeap] (b : MessageBuffer) (warmup randomized : Bool) (message : Message)
    (t delta random_time : ℕ) :
    Ok (fun y => Filled t b y.1) ⊤ (b.enqueue warmup randomized message t delta random_time) := by
  unfold MessageBuffer.enqueue
  refine skip (fun _ => skip (fun _ => ?_))
  refine skip (fun _ => skip (fun _ => ⟨fun k => ?_, rfl⟩))
  unfold MessageBuffer.areNSlotsAvailable
  dsimp only
  rw [(StdHeap.push_perm _ _).length_eq, length_append, length_singleton]
  -- in each of the three views of the size it has grown by one
  split_ifs <;> first | rfl | (rw [decide_eq_decide]; omega)

/-! ## What a wakeup does to the receiving half -/

namespace NetState

def receiver (n : ℕ) (s : NetState) : Receiver where
  m_stall_queue := (s.ni n).m_stall_queue
  m_stall_count := (s.ni n).m_stall_count
  outNode_ptr := (s.ni n).outNode_ptr

/-- The receiving half, the flits on the link to it, the clock and the wakeups of the
interface. -/
def incoming (net : GarnetNetwork) (n : ℕ) (s : NetState) :
    Receiver × flitBuffer flit × ℕ × Consumer :=
  (s.receiver n, (s.chan (net.inNetLink n)).linkBuffer, s.now, s.consumer (.ni n))

end NetState

section

variable {net : GarnetNetwork} {n : ℕ} {s s' : NetState}

theorem incoming_setNI {y : NetworkInterface} (hqueue : y.m_stall_queue = (s.ni n).m_stall_queue)
    (hcount : y.m_stall_count = (s.ni n).m_stall_count)
    (hout : y.outNode_ptr = (s.ni n).outNode_ptr) :
    Agrees (incoming net n) s (s.setNI n y) := by
  unfold Agrees incoming receiver
  simp only [setNI, update_self, hqueue, hcount, hout]

theorem incoming_setChan {l : ℕ} {c : Channel} (h : c.linkBuffer = (s.chan l).linkBuffer) :
    Agrees (incoming net n) s (s.setChan l c) := by
  unfold Agrees incoming receiver setChan
  by_cases hl : net.inNetLink n = l
  · simp only [hl, update_self, h]
  · simp only [update_of_ne hl]

theorem incoming_schedule {c : ConsumerId} (hc : c ≠ .ni n) (t : ℕ) :
    Agrees (incoming net n) s (s.schedule c t) := by
  unfold Agrees incoming receiver schedule
  simp only [update_of_ne (Ne.symm hc)]

theorem incoming_taking (net : GarnetNetwork) (n vnet : ℕ) :
    AllowsTaking n vnet (Agrees (incoming net n)) where
  vcs s y h := by
    simp only [protocolSide, Prod.mk.injEq] at h
    exact incoming_setNI h.2.2.1 h.2.2.2 h.2.1
  chan _ _ _ h := incoming_setChan h
  link _ _ _ := incoming_schedule (by simp) _
  inNode _ _ := incoming_setNI rfl rfl rfl
  created _ _ _ _ _ := rfl

/-! ### Delivering, stalling and unstalling a flit -/

theorem receiver_setOutBuffer (s : NetState) (n vnet : ℕ) (b : MessageBuffer) :
    (setOutBuffer s n vnet b).receiver n = (s.receiver n).setBuffer vnet b := by
  simp only [receiver, setOutBuffer, setNI, update_self, Receiver.setBuffer]

theorem incoming_setOutBuffer (s : NetState) (n vnet : ℕ) (b : MessageBuffer) :
    (setOutBuffer s n vnet b).incoming net n
      = ((s.receiver n).setBuffer vnet b, (s.incoming net n).2) := by
  rw [← receiver_setOutBuffer]
  rfl

theorem outBuffer_bind {α : Type} {p : α → Prop} {vnet : ℕ} {k : MessageBuffer → Except Fault α}
    (h : ∀ b, (s.ni n).outNode_ptr vnet = some b → Ok p ⊤ (k b)) :
    Ok p ⊤ (outBuffer s n vnet >>= k) := by
  unfold outBuffer
  cases hb : (s.ni n).outNode_ptr vnet with
  | none => trivial
  | some b => exact h b hb

theorem eject_incoming [StdHeap] (s : NetState) (n : ℕ) (f : flit) :
    Ok (fun s' => ∃ b b', (s.ni n).outNode_ptr f.m_vnet = some b ∧ Filled s.now b b'
        ∧ s'.incoming net n = ((s.receiver n).setBuffer f.m_vnet b', (s.incoming net n).2))
      ⊤ (eject net s n f) := by
  unfold eject enqueueMessage
  rw [bind_assoc]
  refine outBuffer_bind (fun b hb => ?_)
  rw [bind_assoc]
  refine bind (keeps_random_time (fun _ => rfl) _) (fun y (hy : Agrees (incoming net n) s y.2) => ?_)
  have hreceiver : y.2.receiver n = s.receiver n := congrArg fst hy
  have hnow : y.2.now = s.now := congrArg (fun z => z.2.2.1) hy
  rw [bind_assoc, hnow]
  refine (enqueue_filled ..).bind (fun z hz => ?_)
  rw [pure_bind]
  refine bind (keeps_incrementStats (fun _ => rfl) f) (fun s1 (h1 : Agrees (incoming net n)
    _ s1) => ?_)
  refine ⟨b, z.1, hb, hz, ?_⟩
  have hcredit : Agrees (incoming net n) (setOutBuffer y.2 n f.m_vnet z.1)
      (sendCredit net (setOutBuffer y.2 n f.m_vnet z.1) n f true) :=
    incoming_setChan rfl
  change s1.incoming net n = _
  rw [h1, hcredit, incoming_setOutBuffer, hreceiver, show y.2.incoming net n = _ from hy]

theorem unstall_incoming (net : GarnetNetwork) (s : NetState) (n k : ℕ) (f : flit)
    {b : MessageBuffer} (hb : (s.ni n).outNode_ptr f.m_vnet = some b) :
    Ok (fun s' => s'.incoming net n = ((s.receiver n).unstall k f
          { b with m_dequeue_callback := (s.receiver n).callbackLeft f.m_vnet b },
          (s.incoming net n).2))
      ⊤ (unstall s n k f) := by
  unfold unstall Receiver.callbackLeft
  change Ok _ _ (if (s.receiver n).m_stall_count f.m_vnet - 1 = 0 then _ else _)
  split_ifs
  · refine outBuffer_bind (fun b' hb' => ?_)
    simp only [setNI, update_self] at hb'
    rw [hb, Option.some.injEq] at hb'
    rw [← hb', pure_iff, incoming_setOutBuffer]
    simp only [incoming, receiver, setNI, update_self, Receiver.setBuffer, Receiver.unstall]
  · -- nothing is written to the buffer
    have hsame : update (s.ni n).outNode_ptr f.m_vnet (some b) = (s.ni n).outNode_ptr := by
      rw [← hb, update_eq_self]
    rw [pure_iff]
    simp only [incoming, receiver, setNI, update_self, Receiver.unstall, hsame]

theorem stall_incoming (net : GarnetNetwork) (s : NetState) (n : ℕ) (f : flit) :
    Ok (fun s' => ∃ b, (s.ni n).outNode_ptr f.m_vnet = some b
        ∧ s'.incoming net n = ((s.receiver n).stall f { b with m_dequeue_callback := true },
            (s.incoming net n).2))
      ⊤ (stall s n f) := by
  unfold stall
  refine outBuffer_bind (fun b hb => ⟨b, hb, ?_⟩)
  rw [incoming_setOutBuffer]
  simp only [incoming, receiver, setNI, update_self, Receiver.setBuffer, Receiver.stall]

theorem slots_of_hasRoom {f : flit} {r : Bool} (h : hasRoom s n f = .ok r) :
    (s.receiver n).slots s.now 1 f.m_vnet = r := by
  unfold hasRoom outBuffer at h
  unfold Receiver.slots
  change (match (s.ni n).outNode_ptr f.m_vnet with | none => _ | some b => _) = r
  cases hb : (s.ni n).outNode_ptr f.m_vnet with
  | none =>
    rw [hb] at h
    cases h
  | some b =>
    rw [hb] at h
    exact Except.ok.inj h

/-- What becomes of the stall queue: a stalled flit is delivered if there is room for one. -/
def Checked (net : GarnetNetwork) (n : ℕ) (s : NetState) (y : Bool × NetState) : Prop :=
  (y.1 = false ∧ y.2 = s
    ∧ ∀ f ∈ (s.receiver n).m_stall_queue, (s.receiver n).slots s.now 1 f.m_vnet = false)
  ∨ (y.1 = true ∧ ∃ k f b b', (s.receiver n).m_stall_queue[k]? = some f
    ∧ (s.receiver n).outNode_ptr f.m_vnet = some b ∧ b.areNSlotsAvailable 1 s.now = true
    ∧ (∀ j, b'.areNSlotsAvailable j s.now = b.areNSlotsAvailable (j + 1) s.now)
    ∧ b'.m_dequeue_callback = (s.receiver n).callbackLeft f.m_vnet b
    ∧ y.2.incoming net n = ((s.receiver n).unstall k f b', (s.incoming net n).2))

theorem checkStallQueue_incoming [StdHeap] (s : NetState) (n : ℕ) :
    Ok (Checked net n s) ⊤ (checkStallQueue net s n) := by
  unfold checkStallQueue
  refine (firstM_ok (fun p _ => triv _)).bind (fun stalled hstalled => ?_)
  cases stalled with
  | none =>
    refine .inl ⟨rfl, rfl, fun f hf => ?_⟩
    obtain ⟨k, hk⟩ := mem_iff_getElem?.mp hf
    exact slots_of_hasRoom (hstalled (f, k) (mem_zipIdx_iff_getElem?.mpr hk))
  | some p =>
    obtain ⟨f, k⟩ := p
    obtain ⟨j, hj, hroom, -⟩ := hstalled
    rw [getElem?_zipIdx, Option.map_eq_some_iff] at hj
    obtain ⟨g, hg, hgf⟩ := hj
    simp only [zero_add, Prod.mk.injEq] at hgf
    obtain ⟨rfl, rfl⟩ := hgf
    refine (eject_incoming s n g).bind (fun s1 h1 => ?_)
    obtain ⟨b, b1, hb, hfilled, hs1⟩ := h1
    have hreceiver : s1.receiver n = (s.receiver n).setBuffer g.m_vnet b1 := congrArg Prod.fst hs1
    have hb1 : (s1.ni n).outNode_ptr g.m_vnet = some b1 := by
      rw [show (s1.ni n).outNode_ptr = _ from congrArg Receiver.outNode_ptr hreceiver]
      exact update_self ..
    refine (unstall_incoming net s1 n j g hb1).bind (fun s2 hs2 => ?_)
    have hslots : b.areNSlotsAvailable 1 s.now = true := by
      have hroom := slots_of_hasRoom hroom
      unfold Receiver.slots at hroom
      rw [show (s.receiver n).outNode_ptr g.m_vnet = some b from hb] at hroom
      exact hroom
    refine .inr ⟨rfl, j, g, b, { b1 with
      m_dequeue_callback := (s.receiver n).callbackLeft g.m_vnet b }, hg, hb, hslots,
      hfilled.slots, rfl, ?_⟩
    have hleft : (s1.receiver n).callbackLeft g.m_vnet b1
        = (s.receiver n).callbackLeft g.m_vnet b := by
      rw [hreceiver, Receiver.callbackLeft, hfilled.callback]
      rfl
    rw [hs2, hleft, hreceiver, hs1]
    simp only [Receiver.unstall, Receiver.setBuffer, update_idem]

/-- The flit that ends a packet and is on the link, ready to be taken. -/
def arrivingTail (net : GarnetNetwork) (n : ℕ) (s : NetState) : Option flit :=
  match (s.chan (net.inNetLink n)).linkBuffer.m_buffer with
  | [] => none
  | f :: _ => if f.m_time ≤ s.now ∧ f.isTail = true then some (f.set_dequeue_time s.now) else none

/-- What becomes of the flit `f`: it is delivered, unless another one has just been, or stalled. -/
def Accepted (n : ℕ) (messageEnqueued : Bool) (f : flit) (s s' : NetState) : Prop :=
  ∃ b, (s.receiver n).outNode_ptr f.m_vnet = some b
    ∧ ((messageEnqueued = false ∧ b.areNSlotsAvailable 1 s.now = true
        ∧ ∃ b', Filled s.now b b' ∧ s'.receiver n = (s.receiver n).setBuffer f.m_vnet b')
      ∨ ((messageEnqueued = true ∨ b.areNSlotsAvailable 1 s.now = false)
        ∧ s'.receiver n = (s.receiver n).stall f { b with m_dequeue_callback := true }))

theorem acceptFlit_incoming [StdHeap] (s : NetState) (n : ℕ) (messageEnqueued : Bool) (f : flit) :
    Ok (fun s' => (s'.incoming net n).2 = (s.incoming net n).2
        ∧ (f.isTail = false → s'.receiver n = s.receiver n)
        ∧ (f.isTail = true → Accepted n messageEnqueued f s s'))
      ⊤ (acceptFlit net s n messageEnqueued f) := by
  unfold acceptFlit
  split_ifs with htail
  · have hfalse : f.isTail ≠ false := by simp [htail]
    unfold hasRoom
    rw [bind_assoc]
    refine outBuffer_bind (fun b hb => ?_)
    rw [pure_bind]
    split_ifs with hdeliver
    · rw [Bool.and_eq_true, Bool.not_eq_true'] at hdeliver
      refine (eject_incoming s n f).imp ?_
      rintro s' ⟨b0, b', hb0, hfilled, hs'⟩
      rw [hb, Option.some.injEq] at hb0
      rw [← hb0] at hfilled
      exact ⟨by rw [hs'], fun h => absurd h hfalse,
        fun _ => ⟨b, hb, .inl ⟨hdeliver.1, hdeliver.2, b', hfilled, congrArg fst hs'⟩⟩⟩
    · refine (stall_incoming net s n f).imp ?_
      rintro s' ⟨b0, hb0, hs'⟩
      rw [hb, Option.some.injEq] at hb0
      rw [← hb0] at hs'
      refine ⟨by rw [hs'], fun h => absurd h hfalse, fun _ => ⟨b, hb, .inr ⟨?_, congrArg fst hs'⟩⟩⟩
      cases messageEnqueued with
      | false => simpa using hdeliver
      | true => exact .inl rfl
  · refine imp (keeps_incrementStats (fun _ => rfl) f) (fun s' (h : Agrees (incoming net n)
      _ s') => ?_)
    have hcredit : Agrees (incoming net n) s (sendCredit net s n f false) := incoming_setChan rfl
    have hs' : s'.incoming net n = s.incoming net n := h.trans hcredit
    exact ⟨congrArg snd hs', fun _ => congrArg fst hs', fun h => absurd h htail⟩

theorem receiveFlit_incoming [StdHeap] (s : NetState) (n : ℕ) (messageEnqueued : Bool) :
    Ok (fun s' => (s'.incoming net n).2.2 = (s.incoming net n).2.2
        ∧ (arrivingTail net n s = none → s'.receiver n = s.receiver n)
        ∧ ∀ f, arrivingTail net n s = some f → Accepted n messageEnqueued f s s')
      ⊤ (receiveFlit net s n messageEnqueued) := by
  unfold receiveFlit arrivingTail flitBuffer.isReady
  dsimp only
  cases hbuffer : (s.chan (net.inNetLink n)).linkBuffer.m_buffer with
  | nil => exact ⟨rfl, fun _ => rfl, fun f hf => absurd hf (by simp)⟩
  | cons f rest =>
    dsimp only
    by_cases hready : Timed.get_time f ≤ s.now
    · have hle : f.m_time ≤ s.now := hready
      rw [if_pos (decide_eq_true hready), flitBuffer.getTopFlit, hbuffer]
      refine (acceptFlit_incoming _ n messageEnqueued (f.set_dequeue_time s.now)).imp ?_
      rintro s' ⟨hrest, hbody, htail⟩
      refine ⟨by rw [hrest]; rfl, fun hnone => hbody ?_, fun f' hf' => ?_⟩
      · show f.isTail = false
        simpa [hle] using hnone
      · split_ifs at hf' with h
        cases hf'
        exact htail h.2
    · rw [if_neg (fun h => hready (of_decide_eq_true h)), if_neg (fun h => hready h.1)]
      exact ⟨rfl, fun _ => rfl, fun f hf => absurd hf (by simp)⟩

/-! ### Can a stalled flit be delivered after the wakeup? -/

namespace Receiver

/-- The virtual networks of the flits that wait: those in the stall queue, and the one that
arrives. -/
def waiting (x : Receiver) (arriving : Option flit) : List ℕ :=
  (x.m_stall_queue ++ arriving.toList).map flit.m_vnet

/-- Two of the flits that wait could be delivered at once. -/
def TwoDeliverable (x : Receiver) (now : ℕ) (arriving : Option flit) : Prop :=
  ∃ v w, [v, w].Subperm (x.waiting arriving) ∧ x.slots now 1 v = true ∧ x.slots now 1 w = true
    ∧ (v = w → x.slots now 2 v = true)

/-- A stalled flit could be delivered. -/
def OneDeliverable (x : Receiver) (now : ℕ) : Prop :=
  ∃ f ∈ x.m_stall_queue, x.slots now 1 f.m_vnet = true

variable {x x' : Receiver} {now : ℕ}

theorem slots_of_update {vnet : ℕ} {b : MessageBuffer}
    (h : x'.outNode_ptr = update x.outNode_ptr vnet (some b)) (k w : ℕ) :
    x'.slots now k w = if w = vnet then b.areNSlotsAvailable k now else x.slots now k w := by
  unfold slots
  rw [h]
  rw [update_apply]
  split_ifs <;> rfl

theorem slots_of_some {vnet : ℕ} {b : MessageBuffer} (h : x.outNode_ptr vnet = some b) (k : ℕ) :
    x.slots now k vnet = b.areNSlotsAvailable k now := by
  unfold slots
  rw [h]

/-- The stalled flit `f` has been delivered, and the one that arrives has been stalled. -/
theorem oneDeliverable_iff_of_unstall {k : ℕ} {f : flit} {b b' : MessageBuffer}
    {arriving : Option flit} (hk : x.m_stall_queue[k]? = some f)
    (hb : x.outNode_ptr f.m_vnet = some b) (hroom : b.areNSlotsAvailable 1 now = true)
    (hslots : ∀ j, b'.areNSlotsAvailable j now = b.areNSlotsAvailable (j + 1) now)
    (hqueue : x'.m_stall_queue = x.m_stall_queue.eraseIdx k ++ arriving.toList)
    (hx' : ∀ w, x'.slots now 1 w = (x.unstall k f b').slots now 1 w) :
    x'.OneDeliverable now ↔ x.TwoDeliverable now arriving := by
  obtain ⟨hlt, hget⟩ := List.getElem?_eq_some_iff.1 hk
  have hperm : (x.waiting arriving).Perm (f.m_vnet :: x'.m_stall_queue.map flit.m_vnet) := by
    have herase := List.getElem_cons_eraseIdx_perm hlt
    rw [hget] at herase
    rw [hqueue, waiting, ← map_cons, ← cons_append]
    exact ((herase.symm.append_right _).map _)
  -- what is left of the slots
  have hleft : ∀ w, x'.slots now 1 w
      = if w = f.m_vnet then x.slots now 2 f.m_vnet else x.slots now 1 w := by
    intro w
    rw [hx', slots_of_update rfl, hslots, slots_of_some hb]
  have hf : x.slots now 1 f.m_vnet = true := (slots_of_some hb 1).trans hroom
  constructor
  · rintro ⟨g, hg, hgroom⟩
    rw [hleft] at hgroom
    refine ⟨f.m_vnet, g.m_vnet, ?_, hf, ?_, fun heq => ?_⟩
    · rw [hperm.subperm_left, subperm_cons, singleton_subperm_iff]
      exact mem_map_of_mem hg
    · split_ifs at hgroom with hv
      · rw [hv]
        exact hf
      · exact hgroom
    · rw [if_pos heq.symm] at hgroom
      exact hgroom
  · rintro ⟨v, w, hsub, hv, hw, hboth⟩
    rw [hperm.subperm_left] at hsub
    -- one of the two is left in the stall queue, with a slot
    obtain ⟨u, hu, huroom⟩ : ∃ u ∈ x'.m_stall_queue.map flit.m_vnet, x'.slots now 1 u = true := by
      by_cases hvf : v = f.m_vnet
      · rw [hvf, subperm_cons, singleton_subperm_iff] at hsub
        refine ⟨w, hsub, ?_⟩
        rw [hleft]
        split_ifs with hwf
        · rw [← hvf]
          exact hboth (hvf.trans hwf.symm)
        · exact hw
      · refine ⟨v, ?_, ?_⟩
        · have hmem := hsub.subset (mem_cons_self)
          exact (mem_cons.1 hmem).resolve_left hvf
        · rw [hleft, if_neg hvf]
          exact hv
    obtain ⟨g, hg, rfl⟩ := mem_map.1 hu
    exact ⟨g, hg, huroom⟩

/-- No stalled flit has room, so the one that arrives has no rival. -/
theorem not_twoDeliverable (arriving : Option flit)
    (hnone : ∀ f ∈ x.m_stall_queue, x.slots now 1 f.m_vnet = false) :
    ¬ x.TwoDeliverable now arriving := by
  rintro ⟨v, w, hsub, hv, hw, -⟩
  have hqueue : ∀ u, x.slots now 1 u = true → u ∉ x.m_stall_queue.map flit.m_vnet := by
    intro u hu hmem
    obtain ⟨f, hf, rfl⟩ := mem_map.1 hmem
    rw [hnone f hf] at hu
    exact Bool.false_ne_true hu
  unfold waiting at hsub
  rw [map_append] at hsub
  have hlast : ∀ u, u ∈ [v, w] → x.slots now 1 u = true →
      u ∈ arriving.toList.map flit.m_vnet := fun u hu hroom =>
    (mem_append.1 (hsub.subset hu)).resolve_left (hqueue u hroom)
  cases arriving with
  | none => exact absurd (hlast v mem_cons_self hv) not_mem_nil
  | some g =>
    -- both would be the flit that arrives
    have hvg : v = g.m_vnet := mem_singleton.1 (hlast v mem_cons_self hv)
    have hwg : w = g.m_vnet := mem_singleton.1 (hlast w (by simp) hw)
    rw [hvg, hwg] at hsub
    have hsub' : [g.m_vnet].Subperm (x.m_stall_queue.map flit.m_vnet) := by
      rw [← subperm_cons g.m_vnet]
      exact hsub.trans (perm_append_singleton _ _).subperm
    exact hqueue g.m_vnet (hvg ▸ hv) (singleton_subperm_iff.1 hsub')

end Receiver

theorem arrivingTail_congr (h : (s'.incoming net n).2 = (s.incoming net n).2) :
    arrivingTail net n s' = arrivingTail net n s := by
  have hlink : (s'.chan (net.inNetLink n)).linkBuffer = (s.chan (net.inNetLink n)).linkBuffer :=
    congrArg fst h
  have hnow : s'.now = s.now := congrArg (fun z => z.2.1) h
  unfold arrivingTail
  rw [hlink, hnow]

/-- What a wakeup does to the receiving half of the interface. -/
structure Woken (net : GarnetNetwork) (n : ℕ) (s s' : NetState) : Prop where
  now : s'.now = s.now
  events : (s.consumer (.ni n)).events ⊆ (s'.consumer (.ni n)).events
  steps : Relation.ReflTransGen Receiver.Step (s.receiver n) (s'.receiver n)
  deliverable : (s'.receiver n).OneDeliverable s'.now
    ↔ (s.receiver n).TwoDeliverable s.now (arrivingTail net n s)

theorem woken_of_received {s1 s2 : NetState} {y : Bool × NetState} (hy : Checked net n s1 y)
    (hrest : (s2.incoming net n).2.2 = (y.2.incoming net n).2.2)
    (hnone : arrivingTail net n y.2 = none → s2.receiver n = y.2.receiver n)
    (hsome : ∀ f, arrivingTail net n y.2 = some f → Accepted n y.1 f y.2 s2) :
    Woken net n s1 s2 := by
  obtain ⟨enqueued, s⟩ := y
  have hnow' : s2.now = s.now := congrArg fst hrest
  have hconsumer' : s2.consumer (.ni n) = s.consumer (.ni n) := congrArg snd hrest
  rcases hy with ⟨rfl, rfl, hroom⟩ | ⟨rfl, k, f, b, b', hk, hb, hbroom, hslots, hcallback, hs⟩
  · -- no stalled flit could be delivered
    have htwo := fun a => Receiver.not_twoDeliverable a hroom
    cases harr : arrivingTail net n s with
    | none =>
      refine ⟨hnow', hconsumer' ▸ subset_rfl, hnone harr ▸ .refl, iff_of_false ?_ ?_⟩
      · rw [hnone harr, hnow']
        rintro ⟨f, hf, hfroom⟩
        rw [hroom f hf] at hfroom
        exact Bool.false_ne_true hfroom
      · exact htwo _
    | some f =>
      obtain ⟨b, hb, ⟨-, hbroom, b', hfilled, hs2⟩ | ⟨hbroom, hs2⟩⟩ := hsome f harr
      · refine ⟨hnow', hconsumer' ▸ subset_rfl, hs2 ▸ .single (.buffer _ b b' hb hfilled.callback),
          iff_of_false ?_ (htwo _)⟩
        rw [hs2, hnow']
        rintro ⟨g, hg, hgroom⟩
        rw [Receiver.slots_of_update rfl] at hgroom
        have hgnone := hroom g hg
        split_ifs at hgroom with hv
        · rw [hv, Receiver.slots_of_some hb, hbroom] at hgnone
          exact Bool.false_ne_true hgnone.symm
        · rw [hgnone] at hgroom
          exact Bool.false_ne_true hgroom
      · have hbroom := hbroom.resolve_left Bool.false_ne_true
        refine ⟨hnow', hconsumer' ▸ subset_rfl, hs2 ▸ .single (.stall f _ rfl),
          iff_of_false ?_ (htwo _)⟩
        rw [hs2, hnow']
        rintro ⟨g, hg, hgroom⟩
        rw [Receiver.slots_of_update rfl] at hgroom
        split_ifs at hgroom with hv
        · exact Bool.false_ne_true (hbroom.symm.trans hgroom)
        · rcases mem_append.1 hg with hg | hg
          · exact Bool.false_ne_true ((hroom g hg).symm.trans hgroom)
          · exact hv (mem_singleton.1 hg ▸ rfl)
  · -- a stalled flit has been delivered
    have hreceiver : s.receiver n = (s1.receiver n).unstall k f b' := congrArg fst hs
    have hother : (s.incoming net n).2 = (s1.incoming net n).2 := by rw [hs]
    have hnow : s.now = s1.now := congrArg (fun z => z.2.1) hother
    have hconsumer : s.consumer (.ni n) = s1.consumer (.ni n) := congrArg (fun z => z.2.2) hother
    have hevents : (s1.consumer (.ni n)).events ⊆ (s2.consumer (.ni n)).events := by
      rw [hconsumer', hconsumer]
    have hunstall : Receiver.Step (s1.receiver n) (s.receiver n) :=
      hreceiver ▸ .unstall k f b b' hk hb hcallback
    have harriving := arrivingTail_congr hother
    cases harr : arrivingTail net n s with
    | none =>
      refine ⟨hnow'.trans hnow, hevents, hnone harr ▸ .single hunstall, ?_⟩
      rw [hnow', hnow, hnone harr, ← harriving, harr]
      refine Receiver.oneDeliverable_iff_of_unstall hk hb hbroom hslots ?_ (fun w => ?_)
      · rw [hreceiver, Option.toList_none, append_nil]
        rfl
      · rw [hreceiver]
    | some g =>
      obtain ⟨b2, hb2, ⟨hfalse, -, -⟩ | ⟨-, hs2⟩⟩ := hsome g harr
      · simp at hfalse
      · refine ⟨hnow'.trans hnow, hevents, .tail (.single hunstall) (hs2 ▸ .stall g _ rfl), ?_⟩
        rw [hnow', hnow, ← harriving, harr]
        refine Receiver.oneDeliverable_iff_of_unstall hk hb hbroom hslots ?_ (fun w => ?_)
        · rw [hs2, hreceiver]
          rfl
        · rw [hs2, Receiver.slots_of_update rfl, ← hreceiver]
          split_ifs with hw
          · rw [hw, Receiver.slots_of_some hb2]
            rfl
          · rfl

theorem events_checkReschedule (net : GarnetNetwork) (s : NetState) (n : ℕ) :
    (s.consumer (.ni n)).events ⊆ ((checkReschedule net s n).consumer (.ni n)).events := by
  unfold checkReschedule
  dsimp only
  split
  · change _ ⊆ (update s.consumer (.ni n) _ (.ni n)).events
    rw [update_self]
    unfold Consumer.scheduleEventAbsolute
    split
    · exact subset_rfl
    · exact Finset.subset_insert _ _
  · exact subset_rfl

theorem Woken.around {s0 s1 : NetState} (h : Woken net n s s')
    (hreceiver : s.receiver n = s0.receiver n)
    (hlink : (s.chan (net.inNetLink n)).linkBuffer = (s0.chan (net.inNetLink n)).linkBuffer)
    (hnow : s.now = s0.now) (hevents : (s0.consumer (.ni n)).events ⊆ (s.consumer (.ni n)).events)
    (hafter : Agrees (incoming net n) s' s1) : Woken net n s0 s1 := by
  have hreceiver' : s1.receiver n = s'.receiver n := congrArg fst hafter
  have hnow' : s1.now = s'.now := congrArg (fun z => z.2.2.1) hafter
  have hconsumer' : s1.consumer (.ni n) = s'.consumer (.ni n) := congrArg (fun z => z.2.2.2) hafter
  have harriving : arrivingTail net n s0 = arrivingTail net n s := by
    unfold arrivingTail
    rw [hlink, hnow]
  refine ⟨by rw [hnow', h.now, hnow], ?_, ?_, ?_⟩
  · rw [hconsumer']
    exact hevents.trans h.events
  · rw [hreceiver', ← hreceiver]
    exact h.steps
  · rw [hreceiver', hnow', harriving, ← hreceiver, ← hnow]
    exact h.deliverable

theorem wakeup_woken [StdHeap] (s : NetState) (n : ℕ) :
    Ok (Woken net n s) ⊤ (NetworkInterface.wakeup net s n) := by
  unfold NetworkInterface.wakeup
  refine bind (Keeps.foldlM (fun s vnet => (incoming_taking net n vnet).takeMessage s) _ s) (fun s1 (h1 : Agrees _ s s1) => ?_)
  refine bind ((incoming_taking net n 0).scheduleOutputLink s1) (fun s2 (h2 : Agrees _ s1 s2) => ?_)
  have h2 : s2.incoming net n = s.incoming net n := h2.trans h1
  have hresched : (checkReschedule net s2 n).receiver n = s2.receiver n
      ∧ (checkReschedule net s2 n).chan = s2.chan
      ∧ (checkReschedule net s2 n).now = s2.now := by
    unfold checkReschedule
    dsimp only
    split <;> exact ⟨rfl, rfl, rfl⟩
  refine (checkStallQueue_incoming _ n).bind (fun y hy => ?_)
  refine (receiveFlit_incoming y.2 n y.1).bind (fun s3 h3 => ?_)
  refine bind (keeps_output_wakeup ((incoming_taking net n 0).chan _) s3) (fun s4 (h4 : Agrees (incoming net n)
    s3 s4) => ?_)
  refine (woken_of_received hy h3.1 h3.2.1 h3.2.2).around ?_ ?_ ?_ ?_ ?_
  · rw [hresched.1]
    exact congrArg fst h2
  · rw [hresched.2.1]
    exact congrArg (fun z => z.2.1) h2
  · rw [hresched.2.2]
    exact congrArg (fun z => z.2.2.1) h2
  · refine Finset.Subset.trans ?_ (events_checkReschedule net s2 n)
    rw [show s2.consumer (.ni n) = s.consumer (.ni n) from congrArg (fun z => z.2.2.2) h2]
  · split
    · exact IsTrans.trans _ _ _ h4 (incoming_schedule (by simp) _)
    · exact h4

/-! ## Runs -/

variable [StdHeap]

/-- What can happen to the receiving half of interface `n`: a wakeup, or its controller dequeues
a message. Everything else may change at any time: flits arrive on the link, messages are sent,
time passes. -/
inductive DeliveryStep (net : GarnetNetwork) (n : ℕ) (s : NetState) : NetState → Prop
  | wakeup (s' : NetState) : NetworkInterface.wakeup net s n = .ok s' → DeliveryStep net n s s'
  | dequeue (vnet : ℕ) (s' : NetState) :
      protocolDequeue s n vnet = .ok s' → DeliveryStep net n s s'
  | other (s' : NetState) : Agrees (receiver n) s s' → DeliveryStep net n s s'

def DeliveryRun (net : GarnetNetwork) (n : ℕ) : NetState → NetState → Prop :=
  Relation.ReflTransGen (DeliveryStep net n)

theorem protocolDequeue_receiver (s : NetState) (n vnet : ℕ) :
    Ok (fun s' => Receiver.Step (s.receiver n) (s'.receiver n)) ⊤ (protocolDequeue s n vnet) := by
  unfold protocolDequeue
  refine outBuffer_bind (fun b hb => ?_)
  have hcallback : Ok (fun b' => b'.m_dequeue_callback = b.m_dequeue_callback) ⊤
      (b.dequeue s.now) := by
    unfold MessageBuffer.dequeue
    exact skip (fun _ => rfl)
  refine hcallback.bind (fun b' hb' => ?_)
  have hstep : Receiver.Step (s.receiver n) ((setOutBuffer s n vnet b').receiver n) := by
    rw [receiver_setOutBuffer]
    exact .buffer vnet b b' hb hb'
  split
  · exact hstep
  · exact hstep

theorem DeliveryStep.steps (h : DeliveryStep net n s s') :
    Relation.ReflTransGen Receiver.Step (s.receiver n) (s'.receiver n) := by
  cases h with
  | wakeup s' h => exact ((wakeup_woken s n).elim h).steps
  | dequeue vnet s' h => exact .single ((protocolDequeue_receiver s n vnet).elim h)
  | other s' h =>
    rw [show s'.receiver n = s.receiver n from h]

omit [StdHeap] in
theorem Untouched.receiver {P Q : ℕ → Prop} (h : Untouched P Q s s') (hn : Q n) :
    Agrees (NetState.receiver n) s s' := by
  unfold Agrees NetState.receiver
  rw [h.ni n hn]

theorem protocolEnqueue_receiver (s : NetState) (n vnet : ℕ) (msg : Message) (delta : ℕ) :
    Keeps (Agrees (receiver n)) id s (protocolEnqueue net s n vnet msg delta) := by
  unfold protocolEnqueue
  split
  · exact .throw _
  · refine bind (keeps_random_time (fun _ => rfl) _) (fun y (hy : Agrees (incoming net n)
      s y.2) => ?_)
    refine skip (fun z => ?_)
    have hset : Agrees (incoming net n) y.2 (y.2.setNI n { y.2.ni n with
        inNode_ptr := update (y.2.ni n).inNode_ptr vnet (some z.1) }) :=
      incoming_setNI rfl rfl rfl
    exact congrArg fst (Eq.trans hset hy)

theorem AnyStep.deliveryStep (h : AnyStep net s s') (n : ℕ) : DeliveryStep net n s s' := by
  obtain h | h | ⟨vnet, msg, delta, h⟩ | ⟨vnet, h⟩ := h.cases_ni n
  · exact .other s' (h.receiver rfl)
  · exact .wakeup s' h
  · exact .other s' ((protocolEnqueue_receiver s n vnet msg delta).elim h)
  · exact .dequeue vnet s' h

theorem Reachable.deliveryRun {start : NetState} (h : Reachable net start s) (n : ℕ) :
    DeliveryRun net n start s := by
  induction h with
  | start => exact .refl
  | step s s' _ hstep ih => exact ih.tail (hstep.deliveryStep n)

/-- No flit is stalled and no callback is registered. -/
def Unstalled (n : ℕ) (s : NetState) : Prop :=
  (s.ni n).m_stall_queue = [] ∧ (∀ vnet, (s.ni n).m_stall_count vnet = 0)
    ∧ ∀ vnet b, (s.ni n).outNode_ptr vnet = some b → b.m_dequeue_callback = false

omit [StdHeap] in
theorem Unstalled.consistent (h : Unstalled n s) : (s.receiver n).Consistent := by
  refine ⟨fun vnet => ?_, fun vnet b hb => ?_⟩
  · change (s.ni n).m_stall_count vnet = (((s.ni n).m_stall_queue.countP _ : ℕ) : ℤ)
    rw [h.1, h.2.1]
    rfl
  · change _ ↔ 0 < (s.ni n).m_stall_count vnet
    rw [h.2.1, h.2.2 vnet b hb]
    exact iff_of_false Bool.false_ne_true (lt_irrefl 0)

/-- A wakeup of interface `n` is scheduled. -/
def Pending (n : ℕ) (s : NetState) : Prop := ∃ t ∈ (s.consumer (.ni n)).events, s.now < t

/-- **When stalled flits are remembered.** In every state of a run the stall counts count the
stalled flits, and a callback is registered on the buffer of a virtual network exactly when one of
its flits is stalled. After a wakeup, some stalled flit could be delivered if and only if two of
the flits that waited before could have been delivered at once. So if this is not the case, or if
another wakeup was scheduled already, no stalled flit is forgotten. -/
theorem stalled_flits_remembered {start : NetState} (hstart : Unstalled n start)
    (hrun : DeliveryRun net n start s) :
    (∀ vnet, (s.ni n).m_stall_count vnet
      = ((s.ni n).m_stall_queue.countP (fun f => f.m_vnet = vnet) : ℤ))
    ∧ (∀ vnet b, (s.ni n).outNode_ptr vnet = some b →
        (b.m_dequeue_callback = true ↔ 0 < (s.ni n).m_stall_count vnet))
    ∧ ∀ s', NetworkInterface.wakeup net s n = .ok s' → ((s'.receiver n).OneDeliverable s'.now
          ↔ (s.receiver n).TwoDeliverable s.now (arrivingTail net n s))
        ∧ (¬ (s.receiver n).TwoDeliverable s.now (arrivingTail net n s) ∨ Pending n s →
            (s'.receiver n).OneDeliverable s'.now → Pending n s') := by
  have hconsistent : (s.receiver n).Consistent := by
    refine reflTransGen_keeps (I := fun s => (s.receiver n).Consistent) (fun s1 s2 h1 h2 => ?_)
      hstart.consistent hrun
    exact reflTransGen_keeps (fun _ _ => Receiver.Consistent.step) h1 h2.steps
  refine ⟨hconsistent.count, hconsistent.callback, fun s' h => ?_⟩
  have hwoken := (wakeup_woken s n).elim h
  refine ⟨hwoken.deliverable, fun hcond hone => ?_⟩
  rcases hcond with htwo | ⟨t, ht, hlt⟩
  · exact absurd (hwoken.deliverable.1 hone) htwo
  · refine ⟨t, hwoken.events ht, ?_⟩
    rw [hwoken.now]
    exact hlt

end

/-! ## A flit that is forgotten

The interface on its own, driven by the event queue: it wakes up when an event of its is due, and
time passes when none is. -/

inductive DeliveryEvent
  /-- a flit comes out of the link (the end of `NetworkLink::wakeup`) -/
  | arrive (f : flit)
  /-- the controller dequeues a message -/
  | dequeue (vnet : ℕ)
  | wakeup
  | tick

/-- An event that is due leaves the event queue. -/
def takeEvent (n : ℕ) (s : NetState) : NetState :=
  let c := s.consumer (.ni n)
  { s with consumer := update s.consumer (.ni n) { c with events := c.events.erase s.now } }

section

variable [StdHeap]

def arrive (net : GarnetNetwork) (n : ℕ) (s : NetState) (f : flit) : NetState :=
  let l := net.inNetLink n
  let c := s.chan l
  (s.setChan l { c with linkBuffer := c.linkBuffer.insert (f.set_time (s.now + 1)) }).schedule
    (.ni n) (s.now + 1)

def deliveries (net : GarnetNetwork) (n : ℕ) : Machine NetState DeliveryEvent Fault where
  enabled s e :=
    match e with
    | .wakeup => decide (s.now ∈ (s.consumer (.ni n)).events)
    | .tick => decide (s.now ∉ (s.consumer (.ni n)).events)
    | _ => true
  exec s e :=
    match e with
    | .arrive f => pure (arrive net n s f)
    | .dequeue vnet => protocolDequeue s n vnet
    | .wakeup => NetworkInterface.wakeup net (takeEvent n s) n
    | .tick => pure { s with now := s.now + 1 }

/-- Such a run is a run as above. -/
theorem deliveryRun_of_run {net : GarnetNetwork} {n : ℕ} {start s : NetState}
    {es : List DeliveryEvent} (h : (deliveries net n).run start es = some s) :
    DeliveryRun net n start s := by
  refine Machine.run_keeps (fun s1 e s2 hs1 hstep => ?_) .refl h
  obtain ⟨-, hexec⟩ := hstep
  cases e with
  | arrive f =>
    rw [← Except.ok.inj hexec]
    exact hs1.tail (.other _ rfl)
  | dequeue vnet => exact hs1.tail (.dequeue vnet s2 hexec)
  | wakeup => exact (hs1.tail (.other (takeEvent n s1) rfl)).tail (.wakeup s2 hexec)
  | tick =>
    rw [← Except.ok.inj hexec]
    exact hs1.tail (.other _ rfl)

end

instance (x : Receiver) (now : ℕ) : Decidable (x.OneDeliverable now) :=
  inferInstanceAs (Decidable (∃ f ∈ x.m_stall_queue, x.slots now 1 f.m_vnet = true))

instance (n : ℕ) (s : NetState) : Decidable (Pending n s) :=
  inferInstanceAs (Decidable (∃ t ∈ (s.consumer (.ni n)).events, s.now < t))

/-- A packet of one flit from node 1 to node 0. -/
def packetTo0 (vnet : ℕ) : flit :=
  flit.new vnet 0 (4 * vnet) vnet (routeTo pairNet 1 vnet 0 {0}) 1 ⟨0, {0}, 0, 0, 0⟩ 0 false 0

/-- Each protocol buffer of node 0 has room for one message. -/
def oneSlot : NetState :=
  pairNet.init (fun _ _ => none) (fun _ _ => some (.new 1 false false)) []

/-- Two packets of virtual network 0 fill its buffer, and the second is stalled. -/
def oneStalled : List DeliveryEvent :=
  [.arrive (packetTo0 0), .tick, .wakeup, .arrive (packetTo0 0), .tick, .wakeup]

/-- The wakeup for a stalled flit of virtual network 0 stalls one of virtual network 1, whose
buffer is empty: nothing will be dequeued from it, and no wakeup is scheduled. -/
theorem stalled_flit_forgotten :
    let _ : StdHeap := sortedHeap
    ∃ s, (deliveries pairNet 0).run oneSlot
        (oneStalled ++ [.dequeue 0, .arrive (packetTo0 1), .tick, .wakeup]) = some s
      ∧ (s.receiver 0).OneDeliverable s.now ∧ ¬ Pending 0 s
      ∧ (s.ni 0).m_stall_queue.map flit.m_vnet = [1]
      ∧ (s.ni 0).outNode_ptr 1
          = some { MessageBuffer.new 1 false false with m_dequeue_callback := true } := by
  intro _
  exact Machine.exists_of_run_any (deliveries pairNet 0) oneSlot _ _ (by decide +kernel)

/-- The first of these two packets is delivered, and the second is counted. -/
theorem stalled_flits_remembered_one :
    let _ : StdHeap := sortedHeap
    ∃ s, (deliveries pairNet 0).run oneSlot oneStalled = some s ∧ (s.ni 0).m_stall_count 0
        = ((s.ni 0).m_stall_queue.countP (fun f => f.m_vnet = 0) : ℤ) := by
  intro _
  obtain ⟨s, hs, -⟩ := Machine.exists_of_run_any (deliveries pairNet 0) oneSlot oneStalled
    (fun _ => True) (by decide +kernel)
  have hstart : Unstalled 0 oneSlot := by
    refine ⟨rfl, fun _ => rfl, fun vnet b hb => ?_⟩
    rw [← Option.some.inj hb]
    rfl
  exact ⟨s, hs, (stalled_flits_remembered hstart (deliveryRun_of_run hs)).1 0⟩

end Bindu.Garnet
