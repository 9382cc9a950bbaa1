/-
Multicast messages: every destination gets one flit, however often the interface has to try.

`NetworkInterface::flitisizeMessage` turns a message into one flit for each of its destinations.
It stops when `calculateVC` finds no free virtual channel. The destinations it has served by then
are no longer in the message, which stays at the head of its protocol buffer, and the next wakeup
goes on from there.

The proof has two layers. `Sender` is what matters of an interface for the messages of one virtual
network: the heap of its protocol buffer and the flits created so far. It makes three kinds of
steps, and the invariants are about these. Below it, `NIStep` is anything that can happen to the
interface while the rest of the system does as it likes: the virtual channels, and with them the
outcomes of `calculateVC`, change arbitrarily between two wakeups.

Source: `garnet2.0/NetworkInterface.cc`.
-/
import Bindu.Lib.Runs
import Bindu.Garnet.MessageHeap
import Bindu.Garnet.Frames
import Bindu.Garnet.Mesh

open Bindu.Lib Function List

namespace Bindu.Garnet

open NetworkInterface NetState

/-! ## The sender of a virtual network -/

structure Sender where
  /-- the messages in the protocol buffer -/
  heap : List Message
  /-- the counter of the protocol buffer, which numbers its messages -/
  m_msg_counter : ℕ
  /-- the flits created for messages of this virtual network, in order -/
  created : List flit

/-- `f` takes a copy of `m` to node `d`, and to no other node. -/
structure Carries (m : Message) (d : ℕ) (f : flit) : Prop where
  message : f.m_msg_ptr.m_msg_counter = m.m_msg_counter
  dest_ni : f.m_route.dest_ni = d
  net_dest : f.m_route.net_dest = {d}

/-- The nodes to which flits of message number `c` have been created. -/
def sentTo (c : ℕ) (fs : List flit) : List ℕ :=
  (fs.filter (fun f => f.m_msg_ptr.m_msg_counter = c)).map (fun f => f.m_route.dest_ni)

/-- The nodes for which message number `c` still waits. -/
def waitingFor (c : ℕ) (heap : List Message) : List ℕ :=
  (heap.filter (fun m => m.m_msg_counter = c)).flatMap (fun m => m.m_Destination.getAllDest)

theorem sentTo_append (c : ℕ) (fs fs' : List flit) :
    sentTo c (fs ++ fs') = sentTo c fs ++ sentTo c fs' := by
  rw [sentTo, filter_append, map_append]
  rfl

variable {m : Message}

theorem sentTo_carries {ds : List ℕ} {fs : List flit} (h : Forall₂ (Carries m) ds fs) (c : ℕ) :
    sentTo c fs = if m.m_msg_counter = c then ds else [] := by
  induction h with
  | nil => simp [sentTo]
  | @cons d f ds fs hf _ ih =>
    rw [show f :: fs = [f] ++ fs from rfl, sentTo_append, ih]
    by_cases hc : m.m_msg_counter = c
    · simp [sentTo, hf.message, hf.dest_ni, hc]
    · simp [sentTo, hf.message, hc]

theorem waitingFor_cons (c : ℕ) (m : Message) (heap : List Message) :
    waitingFor c (m :: heap)
      = (if m.m_msg_counter = c then m.m_Destination.getAllDest else []) ++ waitingFor c heap := by
  unfold waitingFor
  by_cases hc : m.m_msg_counter = c
  · simp [hc]
  · simp [hc]

theorem waitingFor_perm {c : ℕ} {heap heap' : List Message} (h : heap.Perm heap') :
    (waitingFor c heap).Perm (waitingFor c heap') :=
  (h.filter _).flatMap_right _

theorem waitingFor_of_not_mem {c : ℕ} {heap : List Message}
    (h : c ∉ heap.map Message.m_msg_counter) : waitingFor c heap = [] := by
  have hnil : heap.filter (fun m => m.m_msg_counter = c) = [] := by
    rw [filter_eq_nil_iff]
    intro m hm hc
    exact h (mem_map.2 ⟨m, hm, of_decide_eq_true hc⟩)
  rw [waitingFor, hnil, flatMap_nil]

theorem nodup_getAllDest (D : NetDest) : D.getAllDest.Nodup := Finset.sort_nodup D (· ≤ ·)

theorem toFinset_getAllDest (D : NetDest) : D.getAllDest.toFinset = D :=
  Finset.sort_toFinset D (· ≤ ·)

/-- What is left of a list of destinations is the list of what is left. -/
theorem getAllDest_toFinset {D : NetDest} {sent left : List ℕ}
    (h : D.getAllDest = sent ++ left) : NetDest.getAllDest left.toFinset = left := by
  have hsorted : (sent ++ left).Pairwise (· ≤ ·) := h ▸ Finset.pairwise_sort D (· ≤ ·)
  have hnodup : (sent ++ left).Nodup := h ▸ nodup_getAllDest D
  exact (toFinset_sort (· ≤ ·) hnodup.of_append_right).2 (pairwise_append.1 hsorted).2.1

namespace Sender

/-- One step of a sender: a controller enqueues a message; some destinations of the message at
the head are served and leave its destination set; or the rest of them are, and the message
leaves. -/
inductive Step (x : Sender) : Sender → Prop
  | enqueue (m : Message) (heap : List Message) (hm : m.m_msg_counter = x.m_msg_counter + 1)
      (hheap : heap.Perm (m :: x.heap)) : Step x ⟨heap, x.m_msg_counter + 1, x.created⟩
  | someSent (m : Message) (rest : List Message) (sent left : List ℕ) (fs : List flit)
      (hhead : x.heap = m :: rest) (hdest : m.m_Destination.getAllDest = sent ++ left)
      (hfs : Forall₂ (Carries m) sent fs) :
      Step x ⟨{ m with m_Destination := left.toFinset } :: rest, x.m_msg_counter, x.created ++ fs⟩
  | allSent (m : Message) (rest heap : List Message) (fs : List flit) (hhead : x.heap = m :: rest)
      (hfs : Forall₂ (Carries m) m.m_Destination.getAllDest fs) (hheap : heap.Perm rest) :
      Step x ⟨heap, x.m_msg_counter, x.created ++ fs⟩

/-- The messages in the buffer have different numbers, no number above the counter has been given
out, and every flit goes to one node. -/
structure Counted (x : Sender) : Prop where
  nodup : (x.heap.map Message.m_msg_counter).Nodup
  heap_le : ∀ m ∈ x.heap, m.m_msg_counter ≤ x.m_msg_counter
  created_le : ∀ f ∈ x.created, f.m_msg_ptr.m_msg_counter ≤ x.m_msg_counter
  net_dest : ∀ f ∈ x.created, f.m_route.net_dest = {f.m_route.dest_ni}

/-- Message number `c`, enqueued for the nodes `D`: each of them has a flit or is still waited
for. -/
structure Progress (c : ℕ) (D : NetDest) (x : Sender) : Prop where
  le : c ≤ x.m_msg_counter
  once : (sentTo c x.created ++ waitingFor c x.heap).Perm D.getAllDest

variable {x x' : Sender} {c : ℕ} {D : NetDest}

theorem Counted.append {ds : List ℕ} {fs : List flit} (hx : Counted x)
    (hm : m ∈ x.heap) (h : Forall₂ (Carries m) ds fs) :
    (∀ f ∈ x.created ++ fs, f.m_msg_ptr.m_msg_counter ≤ x.m_msg_counter)
      ∧ ∀ f ∈ x.created ++ fs, f.m_route.net_dest = {f.m_route.dest_ni} := by
  have hcarries : ∀ f ∈ fs, ∃ d, Carries m d f := by
    intro f hf
    obtain ⟨i, hi, rfl⟩ := getElem_of_mem hf
    exact ⟨_, forall₂_iff_get.1 h |>.2 i (h.length_eq ▸ hi) hi⟩
  constructor
  · intro f hf
    rcases mem_append.1 hf with hf | hf
    · exact hx.created_le f hf
    · obtain ⟨d, hd⟩ := hcarries f hf
      rw [hd.message]
      exact hx.heap_le m hm
  · intro f hf
    rcases mem_append.1 hf with hf | hf
    · exact hx.net_dest f hf
    · obtain ⟨d, hd⟩ := hcarries f hf
      rw [hd.net_dest, hd.dest_ni]

theorem Counted.step (hx : Counted x) (h : Step x x') : Counted x' := by
  cases h with
  | enqueue m heap hm hheap =>
    refine ⟨?_, ?_, fun f hf => Nat.le_succ_of_le (hx.created_le f hf), hx.net_dest⟩
    · rw [(hheap.map Message.m_msg_counter).nodup_iff, map_cons, nodup_cons]
      refine ⟨fun hmem => ?_, hx.nodup⟩
      obtain ⟨m', hm', heq⟩ := mem_map.1 hmem
      have := hx.heap_le m' hm'
      omega
    · intro m' hm'
      rcases mem_cons.1 (hheap.mem_iff.1 hm') with rfl | hm'
      · exact hm.le
      · exact Nat.le_succ_of_le (hx.heap_le m' hm')
  | someSent m rest sent left fs hhead hdest hfs =>
    have hm : m ∈ x.heap := hhead ▸ mem_cons_self
    obtain ⟨hle, hnet⟩ := hx.append hm hfs
    have hnodup := hx.nodup
    rw [hhead] at hnodup
    refine ⟨hnodup, ?_, hle, hnet⟩
    intro m' hm'
    rcases mem_cons.1 hm' with rfl | hm'
    · exact hx.heap_le m hm
    · exact hx.heap_le m' (hhead ▸ mem_cons_of_mem m hm')
  | allSent m rest heap fs hhead hfs hheap =>
    obtain ⟨hle, hnet⟩ := hx.append (hhead ▸ mem_cons_self) hfs
    have hnodup := hx.nodup
    rw [hhead, map_cons, nodup_cons] at hnodup
    refine ⟨(hheap.map _).nodup_iff.2 hnodup.2, fun m' hm' => ?_, hle, hnet⟩
    exact hx.heap_le m' (hhead ▸ mem_cons_of_mem m (hheap.mem_iff.1 hm'))

theorem Progress.step (hx : Progress c D x) (h : Step x x') : Progress c D x' := by
  cases h with
  | enqueue m heap hm hheap =>
    -- the number of the new message is not `c`
    have hne : m.m_msg_counter ≠ c := by have := hx.le; omega
    refine ⟨Nat.le_succ_of_le hx.le, Perm.trans ?_ hx.once⟩
    refine ((waitingFor_perm hheap).trans ?_).append_left _
    rw [waitingFor_cons, if_neg hne, nil_append]
  | someSent m rest sent left fs hhead hdest hfs =>
    refine ⟨hx.le, ?_⟩
    have honce := hx.once
    rw [hhead, waitingFor_cons, hdest] at honce
    rw [sentTo_append, sentTo_carries hfs, waitingFor_cons, getAllDest_toFinset hdest]
    dsimp only
    split_ifs at honce ⊢
    · simpa only [append_assoc] using honce
    · simpa only [append_nil, nil_append] using honce
  | allSent m rest heap fs hhead hfs hheap =>
    refine ⟨hx.le, ?_⟩
    have honce := hx.once
    rw [hhead, waitingFor_cons] at honce
    rw [sentTo_append, sentTo_carries hfs, append_assoc]
    exact ((waitingFor_perm hheap).append_left _ |>.append_left _).trans honce

theorem Counted.steps (hx : Counted x) (h : Relation.ReflTransGen Step x x') : Counted x' :=
  reflTransGen_keeps (fun _ _ => Counted.step) hx h

theorem Progress.steps (hx : Progress c D x) (h : Relation.ReflTransGen Step x x') :
    Progress c D x' :=
  reflTransGen_keeps (fun _ _ => Progress.step) hx h

end Sender

/-! ## The interface as a sender -/

/-- The part of an interface that a sender is read off. -/
def NetState.sending (n : ℕ) (s : NetState) : (ℕ → Option MessageBuffer) × List flit :=
  ((s.ni n).inNode_ptr, s.injected n)

def NetState.sender (n vnet : ℕ) (s : NetState) : Option Sender :=
  ((s.ni n).inNode_ptr vnet).map (fun b =>
    ⟨b.m_prio_heap, b.m_msg_counter, (s.injected n).filter (fun f => f.m_vnet = vnet)⟩)

section

variable {P Q : ℕ → Prop} {net : GarnetNetwork} {s s' : NetState} {n vnet : ℕ} {x : Sender}

theorem sender_eq_some :
    s.sender n vnet = some x ↔ ∃ b, (s.ni n).inNode_ptr vnet = some b ∧ b.m_prio_heap = x.heap
      ∧ b.m_msg_counter = x.m_msg_counter
      ∧ (s.injected n).filter (fun f => f.m_vnet = vnet) = x.created := by
  unfold sender
  rw [Option.map_eq_some_iff]
  refine exists_congr (fun b => and_congr_right (fun _ => ?_))
  cases x
  simp only [Sender.mk.injEq]

theorem sender_of_sending (h : Agrees (sending n) s s') (vnet : ℕ) :
    Agrees (sender n vnet) s s' := by
  have h' : ((s'.ni n).inNode_ptr, s'.injected n) = ((s.ni n).inNode_ptr, s.injected n) := h
  rw [Prod.mk.injEq] at h'
  unfold Agrees sender
  rw [h'.1, h'.2]

theorem Untouched.sending (h : Untouched P Q s s') (hn : Q n) :
    Agrees (NetState.sending n) s s' := by
  unfold Agrees NetState.sending
  rw [h.ni n hn, h.injected n hn]

/-- A change of the interface that leaves its protocol buffers towards the network alone. -/
theorem agrees_setNI {y : NetworkInterface} (h : y.inNode_ptr = (s.ni n).inNode_ptr) :
    Agrees (sending n) s (s.setNI n y) := by
  change ((update s.ni n y n).inNode_ptr, s.injected n) = _
  rw [update_self, h]
  rfl

theorem sending_receiving (n : ℕ) : AllowsReceiving n (Agrees (sending n)) where
  other s s' h := by
    have h' : Untouched ⊤ ⊤ s s' := .of_eq h
    exact h'.sending trivial
  ni _ _ h := agrees_setNI h

theorem sender_calculateVC (net : GarnetNetwork) (s : NetState) (n vnet v : ℕ) :
    Agrees (sender n v) s (calculateVC net s n vnet).2 :=
  sender_of_sending ((sending_receiving n).sending.calculateVC s vnet) v

theorem removeDestination_sender (s : NetState) (n vnet destID : ℕ)
    {rest : List Message} (hs : s.sender n vnet = some x) (hheap : x.heap = m :: rest) :
    (removeDestination s n vnet destID).sender n vnet
      = some { x with heap := { m with m_Destination := m.m_Destination.erase destID } :: rest } := by
  obtain ⟨b, hb, hbheap, hcounter, hcreated⟩ := sender_eq_some.1 hs
  rw [hheap] at hbheap
  unfold removeDestination
  rw [hb]
  dsimp only
  rw [hbheap]
  refine sender_eq_some.2 ⟨b.setHeadDestination (m.m_Destination.erase destID), ?_, ?_, ?_, hcreated⟩
  · change (update s.ni n _ n).inNode_ptr vnet = _
    rw [update_self]
    exact update_self ..
  · rw [MessageBuffer.setHeadDestination, hbheap]
  · rw [MessageBuffer.setHeadDestination, hbheap]
    exact hcounter

theorem sender_setInNode (s : NetState) (n vnet : ℕ) (b : MessageBuffer) :
    (s.setNI n { s.ni n with
      inNode_ptr := update (s.ni n).inNode_ptr vnet (some b) }).sender n vnet
      = some ⟨b.m_prio_heap, b.m_msg_counter,
          (s.injected n).filter (fun f => f.m_vnet = vnet)⟩ := by
  change Option.map _ ((update s.ni n _ n).inNode_ptr vnet) = _
  rw [update_self]
  dsimp only
  rw [update_self]
  rfl

/-! ### The messages of the other virtual networks -/

theorem inNode_other (s : NetState) (n : ℕ) (b : MessageBuffer) {v : ℕ} (hv : vnet ≠ v) :
    Agrees (sender n v) s (s.setNI n
      { s.ni n with inNode_ptr := update (s.ni n).inNode_ptr vnet (some b) }) := by
  change Option.map _ ((update s.ni n _ n).inNode_ptr v) = _
  rw [update_self]
  dsimp only
  rw [update_of_ne (Ne.symm hv)]
  rfl

theorem sender_taking (n : ℕ) {v : ℕ} (hv : vnet ≠ v) :
    AllowsTaking n vnet (Agrees (sender n v)) where
  vcs s y h := sender_of_sending (agrees_setNI (congrArg Prod.fst h)) v
  chan _ _ _ _ := rfl
  link _ _ _ := rfl
  inNode s b := inNode_other s n b hv
  created s fl st ptr h := by
    unfold Agrees sender
    dsimp only
    rw [update_self, filter_append, filter_cons_of_neg (by simp [h, hv]), filter_nil, append_nil]

/-! ### Steps of a sender -/

/-- The sender of virtual network `vnet` has made some steps. -/
def Advances (n vnet : ℕ) (s s' : NetState) : Prop :=
  Option.Rel (Relation.ReflTransGen Sender.Step) (s.sender n vnet) (s'.sender n vnet)

theorem advances_of_eq (h : Agrees (sender n vnet) s s') : Advances n vnet s s' := by
  unfold Advances
  rw [show s'.sender n vnet = s.sender n vnet from h]
  cases s.sender n vnet with
  | none => exact .none
  | some x => exact .some .refl

theorem advances_of_step {x' : Sender} (hs : s.sender n vnet = some x)
    (hs' : s'.sender n vnet = some x') (h : Sender.Step x x') : Advances n vnet s s' := by
  unfold Advances
  rw [hs, hs']
  exact .some (.single h)

theorem Advances.forward (h : Advances n vnet s s') (hs : s.sender n vnet = some x) :
    ∃ x', s'.sender n vnet = some x' ∧ Relation.ReflTransGen Sender.Step x x' := by
  unfold Advances at h
  rw [hs] at h
  generalize s'.sender n vnet = y at h
  cases h with
  | some h => exact ⟨_, rfl, h⟩

theorem Advances.backward {x' : Sender} (h : Advances n vnet s s')
    (hs : s'.sender n vnet = some x') :
    ∃ x, s.sender n vnet = some x ∧ Relation.ReflTransGen Sender.Step x x' := by
  unfold Advances at h
  rw [hs] at h
  generalize s.sender n vnet = y at h
  cases h with
  | some h => exact ⟨_, rfl, h⟩

instance (n vnet : ℕ) : Std.Refl (Advances n vnet) := ⟨fun _ => advances_of_eq rfl⟩

instance (n vnet : ℕ) : IsTrans NetState (Advances n vnet) := by
  refine ⟨fun s1 s2 s3 h h' => ?_⟩
  unfold Advances at h h' ⊢
  generalize s1.sender n vnet = a at h ⊢
  generalize s2.sender n vnet = b at h h'
  cases h with
  | none => exact h'
  | some h =>
    generalize s3.sender n vnet = c at h' ⊢
    cases h' with
    | some h' => exact .some (h.trans h')

theorem advances_receiving (n vnet : ℕ) : AllowsReceiving n (Advances n vnet) where
  other s s' h := advances_of_eq (sender_of_sending ((sending_receiving n).other s s' h) vnet)
  ni _ _ h := advances_of_eq (sender_of_sending (agrees_setNI h) vnet)

variable [StdHeap]

/-! ### `flitisizeMessage` -/

theorem create_flit_sender (s : NetState) (n vnet vc destID : ℕ) (msg : Message)
    (hs : s.sender n vnet = some x) :
    Ok (fun s' => ∃ f, Carries msg destID f
        ∧ s'.sender n vnet = some { x with created := x.created ++ [f] })
      ⊤ (create_flit net s n vnet vc destID msg {destID}) := by
  obtain ⟨b, hb, hheap, hcounter, hcreated⟩ := sender_eq_some.1 hs
  unfold create_flit
  refine Ok.skip (fun src_delay => ?_)
  refine ⟨flit.new s.next_ptr 0 vc vnet (routeTo net n vnet destID {destID}) 1
    { msg with m_Destination := {destID} } s.now (takesMark net s n) src_delay,
    ⟨rfl, rfl, rfl⟩, sender_eq_some.2 ⟨b, ?_, hheap, hcounter, ?_⟩⟩
  · change (update s.ni n _ n).inNode_ptr vnet = some b
    rw [update_self]
    exact hb
  · change (update s.injected n _ n).filter _ = _
    rw [update_self, filter_append, hcreated]
    simp [flit.new]

/-- What a call of `flitisizeMessage` for `m`, the message at the head, does: the destinations
`sent` have flits now, and `left` are those that have none yet. -/
structure Flitisized (m : Message) (done : Bool) (x x' : Sender) (rest : List Message)
    (sent left : List ℕ) (fs : List flit) (m' : Message) : Prop where
  head : x.heap = m :: rest
  dests : m.m_Destination.getAllDest = sent ++ left
  done_iff : done = true ↔ left = []
  flits : Forall₂ (Carries m) sent fs
  sender : x' = ⟨m' :: rest, x.m_msg_counter, x.created ++ fs⟩
  message : m'.m_msg_counter = m.m_msg_counter
  stays : done = false → m' = { m with m_Destination := left.toFinset }

/-- The message at the head of the buffer when the destinations `left` have no flit yet. If it had
one destination, it keeps it. -/
def leftOver (msg : Message) (multicast : Bool) (left : List ℕ) : Message :=
  if multicast then { msg with m_Destination := left.toFinset } else msg

/-- The loop. In every round the destination that is served leaves a message with several. -/
theorem flitisize_loop_sender (n vnet : ℕ) (msg : Message) (rest : List Message) (multicast : Bool) :
    ∀ (ds : List ℕ) (s : NetState) (x : Sender), ds.Nodup →
      (multicast = false → ∀ d ∈ ds, msg.m_Destination = {d}) → s.sender n vnet = some x →
      x.heap = leftOver msg multicast ds :: rest →
      Ok (fun y => ∃ sent left fs, ds = sent ++ left ∧ (y.1 = true ↔ left = [])
          ∧ Forall₂ (Carries msg) sent fs
          ∧ y.2.sender n vnet = some ⟨leftOver msg multicast left :: rest, x.m_msg_counter,
              x.created ++ fs⟩)
        ⊤ (flitisize_loop net n vnet msg multicast ds s) := by
  intro ds
  induction ds with
  | nil =>
    intro s x _ _ hs hheap
    refine ⟨[], [], [], rfl, iff_of_true rfl rfl, .nil, ?_⟩
    rw [← hheap, append_nil]
    exact hs
  | cons d ds ih =>
    intro s x hnodup hone hs hheap
    unfold flitisize_loop
    have hvc := sender_calculateVC net s n vnet vnet
    cases hc : calculateVC net s n vnet with
    | mk vc s1 =>
      rw [hc] at hvc
      have hs1 : s1.sender n vnet = some x := hvc.trans hs
      cases vc with
      | none =>
        refine ⟨[], d :: ds, [], rfl, iff_of_false Bool.false_ne_true (by simp), .nil, ?_⟩
        rw [← hheap, append_nil]
        exact hs1
      | some vc =>
        obtain ⟨hd, hnodup⟩ := nodup_cons.1 hnodup
        have hdest : (if multicast then {d} else msg.m_Destination) = ({d} : NetDest) := by
          split_ifs with hm
          · rfl
          · exact hone (by simpa using hm) d mem_cons_self
        have hs2 : (if multicast then removeDestination s1 n vnet d else s1).sender n vnet
            = some { x with heap := leftOver msg multicast ds :: rest } := by
          cases multicast with
          | false => rw [show leftOver msg false ds :: rest = x.heap from hheap.symm, ← hs1]; rfl
          | true =>
            have herase : (d :: ds).toFinset.erase d = ds.toFinset := by
              rw [toFinset_cons, Finset.erase_insert (by simpa using hd)]
            refine (removeDestination_sender s1 n vnet d hs1 hheap).trans ?_
            simp only [leftOver, if_true, herase]
        dsimp only
        rw [hdest]
        refine (create_flit_sender _ n vnet vc d msg hs2).bind (fun s3 h => ?_)
        obtain ⟨f, hf, hs3⟩ := h
        refine (ih s3 _ hnodup (fun hm d hd => hone hm d (mem_cons_of_mem _ hd)) hs3 rfl).imp ?_
        rintro y ⟨sent, left, fs, hds, hdone, hfs, hsy⟩
        refine ⟨d :: sent, left, f :: fs, by rw [hds]; rfl, hdone, .cons hf hfs, ?_⟩
        rw [hsy, append_assoc]
        rfl

theorem flitisizeMessage_sender (s : NetState) (n vnet : ℕ) (m : Message) (rest : List Message)
    (hs : s.sender n vnet = some x) (hheap : x.heap = m :: rest) :
    Ok (fun y => ∃ x' sent left fs m', y.2.sender n vnet = some x'
        ∧ Flitisized m y.1 x x' rest sent left fs m')
      ⊤ (flitisizeMessage net s n vnet m) := by
  unfold flitisizeMessage
  have hall := toFinset_getAllDest m.m_Destination
  generalize hlist : m.m_Destination.getAllDest = ds at hall ⊢
  have hhead : leftOver m (1 < ds.length) ds = m := by
    rw [leftOver, hall, ite_self]
  refine (flitisize_loop_sender n vnet m rest _ ds s x (hlist ▸ nodup_getAllDest _) ?_ hs
    (hhead.symm ▸ hheap)).imp ?_
  · intro hone d hd
    obtain ⟨d', rfl⟩ := length_eq_one_iff.1 (le_antisymm (not_lt.1 (of_decide_eq_false hone))
      (length_pos_of_mem hd))
    rw [← hall, mem_singleton.1 hd]
    rfl
  · rintro y ⟨sent, left, fs, hds, hdone, hfs, hsy⟩
    refine ⟨_, sent, left, fs, _, hsy, hheap, hlist.trans hds, hdone, hfs, rfl, ?_, fun hy => ?_⟩
    · unfold leftOver
      split_ifs <;> rfl
    · unfold leftOver
      split_ifs with hmulti
      · rfl
      · -- the only destination is left
        have hne : left ≠ [] := fun h => by simp [hdone.2 h] at hy
        have hlen := congrArg length hds
        rw [length_append] at hlen
        have hpos := length_pos_iff.2 hne
        obtain rfl : sent = [] := length_eq_zero_iff.1 (by simp at hmulti; omega)
        rw [nil_append] at hds
        rw [← hds, hall]

/-! ### Whole wakeups -/

theorem dequeueMessage_sender (s : NetState) (n vnet : ℕ) {rest : List Message}
    (hs : s.sender n vnet = some x) (hheap : x.heap = m :: rest) :
    Ok (fun s' => ∃ heap, heap.Perm rest ∧ s'.sender n vnet = some { x with heap := heap })
      ⊤ (dequeueMessage s n vnet) := by
  obtain ⟨b, hb, hbheap, hcounter, hcreated⟩ := sender_eq_some.1 hs
  unfold dequeueMessage
  rw [hb]
  refine (b.dequeue_removed s.now).bind (fun b' h => ?_)
  obtain ⟨m', hremoved⟩ := h
  obtain ⟨rest', hhead, hperm⟩ := hremoved.head
  rw [hbheap, hheap, cons.injEq] at hhead
  refine ⟨b'.m_prio_heap, hhead.2 ▸ hperm, ?_⟩
  rw [sender_setInNode, hremoved.counter, hcounter, hcreated]

theorem takeMessage_advances (n : ℕ) (s : NetState) (vnet : ℕ) :
    Keeps (Advances n vnet) id s (takeMessage net n s vnet) := by
  unfold takeMessage
  cases hb : (s.ni n).inNode_ptr vnet with
  | none => exact .pure (advances_of_eq rfl)
  | some b =>
    dsimp only
    split
    case isFalse => exact .pure (advances_of_eq rfl)
    case isTrue hready =>
      have hs : s.sender n vnet = some ⟨b.m_prio_heap, b.m_msg_counter,
        (s.injected n).filter (fun f => f.m_vnet = vnet)⟩ :=
        sender_eq_some.2 ⟨b, hb, rfl, rfl, rfl⟩
      obtain ⟨m, rest, hheap, -⟩ := MessageBuffer.isReady_iff.1 hready
      rw [MessageBuffer.peekMsgPtr_eq_ok.2 ⟨rest, hheap⟩, ok_bind]
      refine (flitisizeMessage_sender s n vnet m rest hs hheap).bind (fun y hy => ?_)
      obtain ⟨x', sent, left, fs, m', hsy, hflit⟩ := hy
      obtain ⟨done, s1⟩ := y
      cases done with
      | false =>
        refine advances_of_step hs hsy ?_
        rw [hflit.sender, hflit.stays rfl]
        exact .someSent m rest sent left fs hheap hflit.dests hflit.flits
      | true =>
        have hhead : x'.heap = m' :: rest := by rw [hflit.sender]
        refine (dequeueMessage_sender s1 n vnet hsy hhead).imp (fun s2 h => ?_)
        obtain ⟨heap, hperm, hs2⟩ := h
        rw [hflit.sender] at hs2
        refine advances_of_step hs hs2 (.allSent m rest heap fs hheap ?_ hperm)
        have hdests := hflit.dests
        rw [hflit.done_iff.1 rfl, append_nil] at hdests
        rw [hdests]
        exact hflit.flits

theorem takeMessages_advances (n vnet : ℕ) (vnets : List ℕ) (s : NetState) :
    Keeps (Advances n vnet) id s (vnets.foldlM (takeMessage net n) s) := by
  refine Keeps.foldlM (fun s1 v => ?_) vnets s
  by_cases hv : v = vnet
  · rw [hv]
    exact takeMessage_advances n s1 vnet
  · exact ((sender_taking n hv).takeMessage s1).imp (fun _ h => advances_of_eq h)

theorem wakeup_advances (s : NetState) (n vnet : ℕ) :
    Keeps (Advances n vnet) id s (NetworkInterface.wakeup net s n) :=
  (advances_receiving n vnet).wakeup (takeMessages_advances n vnet _ s)

/-! ### The protocol side -/

/-- The controller enqueues `msg`: it is in the buffer, with the next number. -/
theorem protocolEnqueue_sender (s : NetState) (n vnet : ℕ) (msg : Message) (delta : ℕ)
    (hs : s.sender n vnet = some x) :
    Ok (fun s' => ∃ m heap, m.m_msg_counter = x.m_msg_counter + 1
        ∧ m.m_Destination = msg.m_Destination ∧ heap.Perm (m :: x.heap)
        ∧ s'.sender n vnet = some ⟨heap, x.m_msg_counter + 1, x.created⟩)
      ⊤ (protocolEnqueue net s n vnet msg delta) := by
  obtain ⟨b, hb, hbheap, hcounter, hcreated⟩ := sender_eq_some.1 hs
  unfold protocolEnqueue
  rw [hb]
  refine Ok.bind (keeps_random_time (R := Agrees injected) (fun _ => rfl) _)
    (fun y (hy : y.2.injected = s.injected) => ?_)
  refine (b.enqueue_added ..).bind (fun z hz => ?_)
  refine ⟨msg.stamped z.2 (b.m_msg_counter + 1), z.1.m_prio_heap, ?_, rfl, ?_, ?_⟩
  · rw [← hcounter]
    rfl
  · rw [← hbheap]
    exact hz.heap
  · rw [← hcounter, ← hcreated, ← hz.counter, ← congrFun hy n]
    exact sender_setInNode y.2 n vnet z.1

theorem protocolEnqueue_advances (s : NetState) (n v : ℕ) (msg : Message) (delta vnet : ℕ) :
    Keeps (Advances n vnet) id s (protocolEnqueue net s n v msg delta) := by
  by_cases hv : v = vnet
  · rw [hv]
    cases hs : s.sender n vnet with
    | none =>
      have hb : (s.ni n).inNode_ptr vnet = none := Option.map_eq_none_iff.1 hs
      unfold protocolEnqueue
      rw [hb]
      exact .throw _
    | some x =>
      refine (protocolEnqueue_sender s n vnet msg delta hs).imp (fun s' h => ?_)
      obtain ⟨m, heap, hm, -, hheap, hs'⟩ := h
      exact advances_of_step hs hs' (.enqueue m heap hm hheap)
  · unfold protocolEnqueue
    split
    · exact .throw _
    · refine (keeps_random_time (fun _ => advances_of_eq rfl) _).bind (fun y => ?_)
      refine Keeps.skip (fun z => .pure ?_)
      exact advances_of_eq (inNode_other y.2 n z.1 hv)

/-! ## Runs of an interface -/

/-- What can happen to interface `n`. Its controller may enqueue a message for any virtual
network, and everything but its protocol buffers and the record of its flits may change: virtual
channels become free or busy, credits and flits arrive, time passes. -/
inductive NIStep (net : GarnetNetwork) (n : ℕ) (s : NetState) : NetState → Prop
  | wakeup (s' : NetState) : NetworkInterface.wakeup net s n = .ok s' → NIStep net n s s'
  | enqueue (vnet : ℕ) (msg : Message) (delta : ℕ) (s' : NetState) :
      protocolEnqueue net s n vnet msg delta = .ok s' → NIStep net n s s'
  | other (s' : NetState) : Agrees (sending n) s s' → NIStep net n s s'

def NIRun (net : GarnetNetwork) (n : ℕ) : NetState → NetState → Prop :=
  Relation.ReflTransGen (NIStep net n)

theorem NIStep.advances (h : NIStep net n s s') (vnet : ℕ) : Advances n vnet s s' := by
  cases h with
  | wakeup s' h => exact (wakeup_advances s n vnet).elim h
  | enqueue v msg delta s' h => exact (protocolEnqueue_advances s n v msg delta vnet).elim h
  | other s' h => exact advances_of_eq (sender_of_sending h vnet)

theorem NIRun.advances (h : NIRun net n s s') (vnet : ℕ) : Advances n vnet s s' := by
  refine reflTransGen_keeps (fun s1 s2 h1 h2 => ?_) (Std.Refl.refl s) h
  exact IsTrans.trans _ _ _ h1 (h2.advances vnet)

/-- Every step of the network is one of these. -/
theorem AnyStep.niStep (h : AnyStep net s s') (n : ℕ) : NIStep net n s s' := by
  obtain h | h | ⟨vnet, msg, delta, h⟩ | ⟨vnet, h⟩ := h.cases_ni n
  · exact .other s' (h.sending rfl)
  · exact .wakeup s' h
  · exact .enqueue vnet msg delta s' h
  · exact .other s' (((sending_receiving n).protocolDequeue s vnet).elim h)

/-- A run of the network is a run of each of its interfaces. -/
theorem Reachable.niRun {start : NetState} (h : Reachable net start s) (n : ℕ) :
    NIRun net n start s := by
  induction h with
  | start => exact .refl
  | step s s' _ hstep ih => exact ih.tail (hstep.niStep n)

/-! ## One flit for each destination -/

/-- Nothing has been sent yet, and nothing waits to be sent. -/
def Unsent (n : ℕ) (s : NetState) : Prop :=
  s.injected n = [] ∧ ∀ vnet b, (s.ni n).inNode_ptr vnet = some b → b.m_prio_heap = []

/-- The flits that interface `n` has created for message number `c` of virtual network `vnet`. -/
def flitsOf (s : NetState) (n vnet c : ℕ) : List flit :=
  (s.injected n).filter (fun f => f.m_vnet = vnet ∧ f.m_msg_ptr.m_msg_counter = c)

omit [StdHeap] in
theorem flitsOf_eq (hs : s.sender n vnet = some x) (c : ℕ) :
    flitsOf s n vnet c = x.created.filter (fun f => f.m_msg_ptr.m_msg_counter = c) := by
  obtain ⟨b, -, -, -, hcreated⟩ := sender_eq_some.1 hs
  rw [← hcreated, filter_filter, flitsOf]
  refine filter_congr (fun f _ => ?_)
  rw [Bool.decide_and, Bool.and_comm]

omit [StdHeap] in
theorem sentTo_eq (hs : s.sender n vnet = some x) (c : ℕ) :
    (flitsOf s n vnet c).map (fun f => f.m_route.dest_ni) = sentTo c x.created := by
  rw [flitsOf_eq hs, sentTo]

omit [StdHeap] in
theorem Unsent.counted (h : Unsent n s) (hs : s.sender n vnet = some x) : x.Counted := by
  obtain ⟨b, hb, hheap, -, hcreated⟩ := sender_eq_some.1 hs
  rw [h.2 vnet b hb] at hheap
  rw [h.1, filter_nil] at hcreated
  refine ⟨?_, ?_, ?_, ?_⟩
  · rw [← hheap]
    exact nodup_nil
  · rw [← hheap]
    exact fun m hm => absurd hm not_mem_nil
  · rw [← hcreated]
    exact fun f hf => absurd hf not_mem_nil
  · rw [← hcreated]
    exact fun f hf => absurd hf not_mem_nil

omit [StdHeap] in
/-- After a call of `flitisizeMessage` for message number `c`, the nodes that have a flit and the
nodes that are left make up the destinations it was enqueued for. -/
theorem Flitisized.dests_once {m m' : Message} {done : Bool} {x' : Sender} {rest : List Message}
    {sent left : List ℕ} {fs : List flit} {D : NetDest}
    (h : Flitisized m done x x' rest sent left fs m') (hx : x.Counted)
    (hD : x.Progress m.m_msg_counter D) :
    (sentTo m.m_msg_counter x'.created ++ left).Perm D.getAllDest := by
  have hnodup := hx.nodup
  rw [h.head, map_cons, nodup_cons] at hnodup
  have honce := hD.once
  rw [h.head, waitingFor_cons, if_pos rfl, waitingFor_of_not_mem hnodup.1, append_nil,
    h.dests] at honce
  rw [h.sender, sentTo_append, sentTo_carries h.flits, if_pos rfl, append_assoc]
  exact honce

theorem protocolEnqueue_progress {msg : Message} {delta : ℕ} (hx : x.Counted)
    (hs : s.sender n vnet = some x)
    (h : protocolEnqueue net s n vnet msg delta = .ok s') :
    ∃ x', s'.sender n vnet = some x' ∧ x'.Counted
      ∧ x'.Progress (x.m_msg_counter + 1) msg.m_Destination := by
  obtain ⟨m, heap, hm, hdest, hheap, hs'⟩ := (protocolEnqueue_sender s n vnet msg delta hs).elim h
  refine ⟨_, hs', hx.step (.enqueue m heap hm hheap), le_refl _, ?_⟩
  -- the number is new: no flit has it, and no other message
  have hsent : sentTo (x.m_msg_counter + 1) x.created = [] := by
    rw [sentTo, map_eq_nil_iff, filter_eq_nil_iff]
    intro f hf hc
    have hle := hx.created_le f hf
    rw [of_decide_eq_true hc] at hle
    omega
  have hwait : waitingFor (x.m_msg_counter + 1) x.heap = [] := by
    refine waitingFor_of_not_mem (fun hmem => ?_)
    obtain ⟨m', hm', heq⟩ := mem_map.1 hmem
    have hle := hx.heap_le m' hm'
    omega
  rw [hsent, nil_append]
  refine (waitingFor_perm hheap).trans ?_
  rw [waitingFor_cons, if_pos hm, hwait, append_nil, hdest]

/-- **Every destination of a message gets exactly one flit.** A message for the nodes
`msg.m_Destination` is enqueued in some state of a run, and in some later state the interface,
on its way through the virtual networks, calls `flitisizeMessage` for it. The flits created for
the message so far each go to one node. If the call returns true, there is one for every
destination and none for any other node. If it returns false, the destinations left in the
message, which stays at the head of the buffer, are those that have no flit yet. -/
theorem multicast_flitisized_once {start s1 s2 s3 s4 : NetState} {b1 b : MessageBuffer}
    {msg m : Message} {delta : ℕ} {done : Bool} (hstart : Unsent n start)
    (hrun : NIRun net n start s1) (hb1 : (s1.ni n).inNode_ptr vnet = some b1)
    (henq : protocolEnqueue net s1 n vnet msg delta = .ok s2)
    (hrun' : NIRun net n s2 s)
    (hloop : (range vnet).foldlM (takeMessage net n) s = .ok s3)
    (hb : (s3.ni n).inNode_ptr vnet = some b) (hhead : b.peekMsgPtr = .ok m)
    (hm : m.m_msg_counter = b1.m_msg_counter + 1)
    (h : flitisizeMessage net s3 n vnet m = .ok (done, s4)) :
    (∀ f ∈ flitsOf s4 n vnet m.m_msg_counter, f.m_route.net_dest = {f.m_route.dest_ni})
    ∧ (done = true → ∀ d, ((flitsOf s4 n vnet m.m_msg_counter).map
        (fun f => f.m_route.dest_ni)).count d = if d ∈ msg.m_Destination then 1 else 0)
    ∧ (done = false → ∃ b' m', (s4.ni n).inNode_ptr vnet = some b' ∧ b'.peekMsgPtr = .ok m'
        ∧ m'.m_msg_counter = m.m_msg_counter
        ∧ ∀ d, d ∈ m'.m_Destination ↔ d ∈ msg.m_Destination
            ∧ ∀ f ∈ flitsOf s4 n vnet m.m_msg_counter, f.m_route.dest_ni ≠ d) := by
  -- up to the enqueue
  have hs1 : s1.sender n vnet = some ⟨b1.m_prio_heap, b1.m_msg_counter,
    (s1.injected n).filter (fun f => f.m_vnet = vnet)⟩ := sender_eq_some.2 ⟨b1, hb1, rfl, rfl, rfl⟩
  obtain ⟨x0, hs0, hsteps0⟩ := (hrun.advances vnet).backward hs1
  obtain ⟨x2, hs2, hx2, hD2⟩ :=
    protocolEnqueue_progress ((hstart.counted hs0).steps hsteps0) hs1 henq
  -- from there to the call
  have hadv : Advances n vnet s2 s3 := IsTrans.trans _ _ _ (hrun'.advances vnet)
    ((takeMessages_advances n vnet (range vnet) s).elim hloop)
  obtain ⟨x, hs3, hsteps⟩ := hadv.forward hs2
  have hx := hx2.steps hsteps
  have hD : x.Progress m.m_msg_counter msg.m_Destination := hm ▸ hD2.steps hsteps
  -- the call
  obtain ⟨rest, hrest⟩ := MessageBuffer.peekMsgPtr_eq_ok.1 hhead
  obtain ⟨b', hb', hheap, -, -⟩ := sender_eq_some.1 hs3
  rw [hb, Option.some.injEq] at hb'
  rw [← hb', hrest] at hheap
  obtain ⟨x', sent, left, fs, m', hs4, hflit⟩ :=
    (flitisizeMessage_sender s3 n vnet m rest hs3 hheap.symm).elim h
  have honce := hflit.dests_once hx hD
  rw [← sentTo_eq hs4] at honce
  refine ⟨fun f hf => ?_, fun hdone d => ?_, fun hdone => ?_⟩
  · rw [flitsOf_eq hs4, hflit.sender] at hf
    have hmem : m ∈ x.heap := hheap ▸ mem_cons_self
    exact (hx.append hmem hflit.flits).2 f (mem_filter.1 hf).1
  · rw [hflit.done_iff.1 hdone, append_nil] at honce
    rw [honce.count_eq, (nodup_getAllDest _).count]
    simp only [← mem_toFinset, toFinset_getAllDest]
  · obtain ⟨b4, hb4, hheap4, -, -⟩ := sender_eq_some.1 hs4
    rw [hflit.sender] at hheap4
    refine ⟨b4, m', hb4, MessageBuffer.peekMsgPtr_eq_ok.2 ⟨rest, hheap4⟩, hflit.message, ?_⟩
    intro d
    have hnodup := honce.nodup_iff.2 (nodup_getAllDest _)
    have hmem := honce.mem_iff (a := d)
    rw [mem_append, ← mem_toFinset (l := NetDest.getAllDest _), toFinset_getAllDest] at hmem
    rw [hflit.stays hdone, mem_toFinset, ← hmem]
    rw [nodup_append] at hnodup
    constructor
    · intro hleft
      refine ⟨.inr hleft, fun f hf hfd => ?_⟩
      exact hnodup.2.2 d (mem_map.2 ⟨f, hf, hfd⟩) d hleft rfl
    · rintro ⟨hsent | hleft, hnone⟩
      · obtain ⟨f, hf, hfd⟩ := mem_map.1 hsent
        exact absurd hfd (hnone f hf)
      · exact hleft

end

/-! A network with one router, two nodes and one virtual channel for each virtual network, and a
message from node 0 to both. -/

def narrowNet : GarnetNetwork :=
  (Mesh_XY .pair 1).network
    { Params.default 1 with m_vcs_per_vnet := 1, vcs_pos := Nat.one_pos } (by decide)

def toBoth : Message := ⟨0, {0, 1}, 0, 0, 0⟩

def quiet : NetState := narrowNet.init (fun _ _ => some (.new 0 false false)) (fun _ _ => none) []

/-- The protocol buffer with the message in it. -/
def bothWaiting : MessageBuffer :=
  { MessageBuffer.new 0 false false with
    m_prio_heap := [toBoth.stamped 1 1]
    m_last_arrival_time := 1
    m_msgs_this_cycle := 1
    m_msg_counter := 1 }

/-- The first attempt serves one of the two destinations. -/
theorem multicast_flitisized_once_partial :
    let _ : StdHeap := sortedHeap
    ∃ s2 s4 b' m', protocolEnqueue narrowNet quiet 0 0 toBoth 1 = .ok s2
      ∧ flitisizeMessage narrowNet { s2 with now := 1 } 0 0 (toBoth.stamped 1 1) = .ok (false, s4)
      ∧ (s4.ni 0).inNode_ptr 0 = some b' ∧ b'.peekMsgPtr = .ok m'
      ∧ ∀ d, d ∈ m'.m_Destination ↔ d ∈ toBoth.m_Destination
          ∧ ∀ f ∈ flitsOf s4 0 0 1, f.m_route.dest_ni ≠ d := by
  intro _
  have heval : (do
      let s2 ← protocolEnqueue narrowNet quiet 0 0 toBoth 1
      let y ← flitisize_loop narrowNet 0 0 (toBoth.stamped 1 1) true [0, 1]
        { s2 with now := 1 }
      pure (s2, y) : Except Fault (NetState × Bool × NetState)).toOption.any (fun r =>
        decide ((r.1.ni 0).inNode_ptr 0 = some bothWaiting ∧ r.2.1 = false)) = true := by
    decide +kernel
  obtain ⟨r, hr, hprop⟩ := exists_ok_of_any heval
  obtain ⟨s2, henq, hr⟩ := bind_eq_ok.1 hr
  obtain ⟨⟨done, s4⟩, hflit, hr⟩ := bind_eq_ok.1 hr
  rw [← Except.ok.inj hr] at hprop
  obtain ⟨hb, hdone⟩ := of_decide_eq_true hprop
  rw [show done = false from hdone] at hflit
  -- the destinations of the message, in order
  have hdests : (toBoth.stamped 1 1).m_Destination.getAllDest = [0, 1] := by
    change Finset.sort ([0, 1] : List ℕ).toFinset = _
    exact (toFinset_sort (· ≤ ·) (by decide)).2 (by decide)
  have hcall : flitisizeMessage narrowNet { s2 with now := 1 } 0 0
      (toBoth.stamped 1 1) = .ok (false, s4) := by
    unfold flitisizeMessage
    rw [hdests]
    exact hflit
  have hidle : Unsent 0 quiet := by
    refine ⟨rfl, fun vnet b hb => ?_⟩
    rw [← Option.some.inj hb]
    rfl
  have hclock : NIRun narrowNet 0 s2 { s2 with now := 1 } := .single (.other _ rfl)
  obtain ⟨b', m', hb', hm', -, hleft⟩ := (multicast_flitisized_once hidle .refl rfl henq hclock rfl
    hb rfl rfl hcall).2.2 rfl
  exact ⟨s2, s4, b', m', henq, hcall, hb', hm', hleft⟩

end Bindu.Garnet
