/-
Who touches what: the switch of a router (the pointers of its output arbiters and the buffers of
its crossbar) and the data of a network interface.

The first are private to `SwitchAllocator` and `CrossbarSwitch`, the second to `NetworkInterface`
and its protocol buffers. So nothing but a wakeup of the router itself changes its switch: not the
other routers, not the links, not the network interfaces, not the bubbles, wherever they move, and
not the protocol side. And nothing but its own wakeups and its controller changes an interface.
-/
import Bindu.Lib.Frame
import Bindu.Garnet.Grants

open Bindu.Lib Keeps

namespace Bindu.Garnet

open NetworkInterface InputUnit Prod

/-- The switches of the routers in `P` and the network interfaces in `Q` are as they were. -/
structure Untouched (P Q : ℕ → Prop) (s s' : NetState) : Prop where
  pointer : ∀ r, P r → s'.m_round_robin_inport r = s.m_round_robin_inport r
  buffer : ∀ r, P r → s'.m_switch_buffer r = s.m_switch_buffer r
  ni : ∀ n, Q n → s'.ni n = s.ni n
  injected : ∀ n, Q n → s'.injected n = s.injected n

/-- All of it. -/
def NetState.switchesAndNIs (s : NetState) :
    (ℕ → ℕ → ℕ) × (ℕ → ℕ → flitBuffer flit) × (ℕ → NetworkInterface) × (ℕ → List flit) :=
  (s.m_round_robin_inport, s.m_switch_buffer, s.ni, s.injected)

/-- A part of the network that touches none of it. -/
abbrev Still {α : Type} (π : α → NetState) (s : NetState) (x : Except Fault α) : Prop :=
  Keeps (Agrees NetState.switchesAndNIs) π s x

section

variable {P Q : ℕ → Prop} {net : GarnetNetwork} {s s' : NetState}

instance : Std.Refl (Untouched P Q) :=
  ⟨fun _ => ⟨fun _ _ => rfl, fun _ _ => rfl, fun _ _ => rfl, fun _ _ => rfl⟩⟩

instance : IsTrans NetState (Untouched P Q) :=
  ⟨fun _ _ _ h h' => ⟨fun r hr => (h'.pointer r hr).trans (h.pointer r hr),
    fun r hr => (h'.buffer r hr).trans (h.buffer r hr), fun n hn => (h'.ni n hn).trans (h.ni n hn),
    fun n hn => (h'.injected n hn).trans (h.injected n hn)⟩⟩

theorem Untouched.of_eq (h : s'.switchesAndNIs = s.switchesAndNIs) : Untouched P Q s s' := by
  unfold NetState.switchesAndNIs at h
  rw [Prod.mk.injEq, Prod.mk.injEq, Prod.mk.injEq] at h
  exact ⟨fun r _ => congrFun h.1 r, fun r _ => congrFun h.2.1 r, fun n _ => congrFun h.2.2.1 n,
    fun n _ => congrFun h.2.2.2 n⟩

theorem Untouched.of_setNI {n : ℕ} {x : NetworkInterface}
    (h : s'.switchesAndNIs = (s.setNI n x).switchesAndNIs) : Untouched P (· ≠ n) s s' := by
  have hn : Untouched P (· ≠ n) s (s.setNI n x) :=
    ⟨fun _ _ => rfl, fun _ _ => rfl, fun _ hm => Function.update_of_ne hm _ _, fun _ _ => rfl⟩
  exact IsTrans.trans _ _ _ hn (.of_eq h)

theorem Untouched.mono {P' Q' : ℕ → Prop} (h : Untouched P Q s s') (hP : ∀ r, P' r → P r)
    (hQ : ∀ n, Q' n → Q n) : Untouched P' Q' s s' :=
  ⟨fun r hr => h.pointer r (hP r hr), fun r hr => h.buffer r (hP r hr),
    fun n hn => h.ni n (hQ n hn), fun n hn => h.injected n (hQ n hn)⟩

theorem switchesAndNIs_scheduleEndpoint (s : NetState) (e : Option Endpoint) (t : ℕ) :
    (s.scheduleEndpoint e t).switchesAndNIs = s.switchesAndNIs := by
  cases e <;> rfl

theorem Still.untouched {α : Type} {π : α → NetState} {x : Except Fault α} (h : Still π s x) :
    Keeps (Untouched P Q) π s x :=
  h.imp fun _ => .of_eq

/-! ## Units and links -/

variable (s)

theorem keeps_decrement_credit (l v : ℕ) :
    Still id s (OutputUnit.decrement_credit s l v) := by
  unfold OutputUnit.decrement_credit
  exact skip (fun _ => .pure rfl)

theorem keeps_increment_credit (l v : ℕ) :
    Still id s (OutputUnit.increment_credit s l v) := by
  unfold OutputUnit.increment_credit
  exact skip (fun _ => .pure rfl)

theorem keeps_outportCompute (r : ℕ) (route : RouteInfo) :
    Still snd s (outportCompute net s r route) := by
  refine (outportCompute_ok net s r route).mono ?_ (fun _ _ => trivial)
  rintro x ⟨g, hx⟩
  rw [hx]
  exact rfl

theorem keeps_compute_route (r l v : ℕ) (f : flit) :
    Still snd s (compute_route net s r l v f) := by
  unfold compute_route
  split
  · refine skip (fun _ => ?_)
    refine after (set_vc_active s l v) rfl ?_
    refine (keeps_outportCompute _ _ _).bind (fun x => skip (fun _ => .pure ?_))
    exact rfl
  · exact skip (fun _ => .pure rfl)

/-! ## Placing bubbles -/

theorem keeps_reserve (up l : ℕ) : Still id s (reserve s up l) := by
  unfold reserve
  exact (keeps_decrement_credit s up 0).bind (fun _ => .pure rfl)

theorem keeps_release (up l : ℕ) : Still id s (release s up l) := by
  unfold release
  exact (keeps_increment_credit s up 0).bind (fun _ => .pure rfl)

theorem keeps_place_bubble (k r inport : ℕ) (b : brownian_bubble) :
    Still id s (place_bubble net s k r inport b) := by
  unfold place_bubble
  refine skip (fun up => (keeps_reserve s up _).bind (fun s1 => ?_))
  exact skip (fun _ => .pure rfl)

theorem keeps_init_bubble (k : ℕ) :
    Still id s (init_bubble net s k) := by
  have hrouter : Still snd s (initial_router net s k) := by
    unfold initial_router
    refine skip (fun _ => ?_)
    split
    · exact skip (fun _ => .pure rfl)
    · exact .pure rfl
  unfold init_bubble
  refine skip (fun b => hrouter.bind (fun x => ?_))
  dsimp only
  split
  · exact keeps_place_bubble ..
  · exact .pure rfl

theorem keeps_init_bubble_cbs (k : ℕ) :
    Still id s (init_bubble_cbs net s k) := by
  unfold init_bubble_cbs
  refine skip (fun b => ?_)
  dsimp only
  split
  · unfold set_bubble_inport
    split
    · exact keeps_place_bubble ..
    · exact .pure rfl
  · exact .pure rfl

theorem keeps_init_bubbles :
    Still id s (Router.init_bubbles net s) := by
  unfold Router.init_bubbles
  split
  · split
    · exact (foldlM keeps_init_bubble _ s).bind (fun _ => .pure rfl)
    · refine skip (fun _ => ?_)
      exact (foldlM keeps_init_bubble_cbs _ s).bind (fun _ => .pure rfl)
    · exact .throw _
  · exact .pure rfl

theorem keeps_exchange_bubble (r inport up : ℕ) (b : brownian_bubble) (orig_up : ℕ) :
    Still id s (exchange_bubble net s r inport up b orig_up) := by
  unfold exchange_bubble
  exact (keeps_reserve s up _).bind (fun s1 => keeps_release s1 orig_up _)

/-! ## Statistics and random delays -/

section

variable {R : NetState → NetState → Prop} {s}

theorem keeps_random_time (h : ∀ g, R s { s with rng := g }) (randomized : Bool) :
    Keeps R snd s (random_time s randomized) := by
  refine (random_time_spec s randomized).mono ?_ (fun _ _ => trivial)
  rintro x ⟨g, hx⟩
  rw [hx]
  exact h g

theorem keeps_incrementStats (h : ∀ st, R s { s with stats := st }) (f : flit) :
    Keeps R id s (incrementStats net s f) := by
  unfold incrementStats
  refine skip (fun _ => skip (fun _ => skip (fun _ => ?_)))
  exact skip (fun _ => skip (fun _ => .pure (h _)))

end

/-! ## What the functions of a network interface change

The functions of an interface change the state in a few ways only. A relation that allows these
is kept by all of the functions, so whoever follows an interface says what the few changes do. -/

/-- What connects an interface with its controller. -/
def NetworkInterface.protocolSide (x : NetworkInterface) :
    (ℕ → Option MessageBuffer) × (ℕ → Option MessageBuffer) × List flit × (ℕ → ℤ) :=
  (x.inNode_ptr, x.outNode_ptr, x.m_stall_queue, x.m_stall_count)

variable {R : NetState → NetState → Prop} {n vnet : ℕ}

/-- What interface `n` does to its virtual channels and to its link. -/
structure AllowsSending (n : ℕ) (R : NetState → NetState → Prop) : Prop where
  vcs : ∀ s y, y.protocolSide = (s.ni n).protocolSide → R s (s.setNI n y)
  chan : ∀ l s c, c.linkBuffer = (s.chan l).linkBuffer → R s (s.setChan l c)
  link : ∀ s l t, R s (s.schedule (.networkLink l) t)

/-- And what it does to a message of virtual network `vnet` that becomes flits. -/
structure AllowsTaking (n vnet : ℕ) (R : NetState → NetState → Prop) : Prop
    extends AllowsSending n R where
  inNode : ∀ s b, R s (s.setNI n
    { s.ni n with inNode_ptr := Function.update (s.ni n).inNode_ptr vnet (some b) })
  created : ∀ s fl st ptr, fl.m_vnet = vnet → R s { s with
    stats := st, next_ptr := ptr, injected := Function.update s.injected n (s.injected n ++ [fl]) }

/-- What the receiving half does: it leaves the protocol buffers towards the network alone. -/
structure AllowsReceiving (n : ℕ) (R : NetState → NetState → Prop) : Prop where
  other : ∀ s s', s'.switchesAndNIs = s.switchesAndNIs → R s s'
  ni : ∀ s y, y.inNode_ptr = (s.ni n).inNode_ptr → R s (s.setNI n y)

theorem AllowsReceiving.sending (h : AllowsReceiving n R) : AllowsSending n R where
  vcs s y hy := h.ni s y (congrArg fst hy)
  chan _ s _ _ := h.other s _ rfl
  link s _ _ := h.other s _ rfl

theorem Untouched.taking (P : ℕ → Prop) (n vnet : ℕ) :
    AllowsTaking n vnet (Untouched P (· ≠ n)) where
  vcs _ _ _ := .of_setNI rfl
  chan _ _ _ _ := .of_eq rfl
  link _ _ _ := .of_eq rfl
  inNode _ _ := .of_setNI rfl
  created _ _ _ _ _ :=
    ⟨fun _ _ => rfl, fun _ _ => rfl, fun _ _ => rfl, fun _ hm => Function.update_of_ne hm _ _⟩

theorem Untouched.receiving (P : ℕ → Prop) (n : ℕ) : AllowsReceiving n (Untouched P (· ≠ n)) where
  other _ _ h := .of_eq h
  ni _ _ _ := .of_setNI rfl

theorem AllowsSending.calculateVC (h : AllowsSending n R) (s : NetState) (vnet : ℕ) :
    R s (calculateVC net s n vnet).2 := by
  have hloop : ∀ (i : ℕ) (y : NetworkInterface),
      (calculateVC_loop net s n vnet i y).2.protocolSide = y.protocolSide := by
    intro i
    induction i with
    | zero => exact fun y => rfl
    | succ i ih =>
      intro y
      unfold calculateVC_loop
      dsimp only
      split
      · rfl
      · exact ih _
  exact h.vcs s _ (hloop net.m_vcs_per_vnet (s.ni n))

variable [StdHeap]

/-! ## Units and links that buffer flits -/

theorem keeps_getTopFlit (l v : ℕ) :
    Still snd s (getTopFlit s l v) := by
  unfold getTopFlit
  exact skip (fun _ => .pure rfl)

theorem keeps_output_wakeup {R : NetState → NetState → Prop} [Std.Refl R] [IsTrans NetState R]
    {l : ℕ} (h : ∀ s c, c.linkBuffer = (s.chan l).linkBuffer → R s (s.setChan l c))
    (s : NetState) : Keeps R id s (OutputUnit.wakeup s l) := by
  unfold OutputUnit.wakeup OutputUnit.increment_credit
  dsimp only
  split
  · refine skip (fun x => ?_)
    refine after (s.setChan l { s.chan l with creditBuffer := x.2 }) (h s _ rfl) ?_
    rw [bind_assoc]
    refine skip (fun o => .pure ?_)
    split
    · refine IsTrans.trans _ _ _ ?_ (h _ _ rfl)
      exact h _ _ rfl
    · exact h _ _ rfl
  · exact .pure (Std.Refl.refl s)

theorem keeps_input_wakeup (r : ℕ) (s : NetState) (inport : ℕ) :
    Still id s (InputUnit.wakeup net r s inport) := by
  unfold InputUnit.wakeup
  dsimp only
  split
  · refine skip (fun x => ?_)
    refine after (s.setChan (net.inLink r inport)
      { s.chan (net.inLink r inport) with linkBuffer := x.2 }) rfl ?_
    refine (keeps_compute_route _ _ _ _ _).bind (fun y => ?_)
    unfold buffer_flit
    dsimp only
    split
    · exact .pure rfl
    · exact skip (fun _ => .pure rfl)
  · exact .pure rfl

theorem keeps_networkLink_wakeup (l : ℕ) :
    Still id s (NetworkLink.wakeup net s l) := by
  unfold NetworkLink.wakeup
  dsimp only
  split
  · exact skip (fun x => .pure (switchesAndNIs_scheduleEndpoint ..))
  · exact .pure rfl

theorem keeps_creditLink_wakeup (l : ℕ) :
    Still id s (CreditLink.wakeup net s l) := by
  unfold CreditLink.wakeup
  dsimp only
  split
  · exact skip (fun x => .pure (switchesAndNIs_scheduleEndpoint ..))
  · exact .pure rfl

/-! ## Moving bubbles -/

/-- What a relation has to allow for the bubbles to move: the two ways to change places, and any
change of the bubbles themselves, the schedule and the outcomes of `random()` that are left. -/
structure AllowsMoves (net : GarnetNetwork) (R : NetState → NetState → Prop) : Prop where
  other : ∀ (s : NetState) g b c t t', R s { s with
    rng := g, bubble := b, consumer := c
    last_intra_bubble_movement := t, last_inter_bubble_movement := t' }
  exchange : ∀ (s : NetState) (r inport : ℕ) (b : brownian_bubble) {up orig_up u v w x},
    upstream_op net u v = .ok up → upstream_op net w x = .ok orig_up →
      Keeps R id s (exchange_bubble net s r inport up b orig_up)
  swap : ∀ {s s1 : NetState} {r i : ℕ} {f : flit} (r' i' : ℕ) (port : ℤ) (d : PortDirection)
    (t : ℕ), getTopFlit s (net.inLink r i) 0 = .ok (f, s1) → R s (insertFlit s1 (net.inLink r' i') 0
      { f with m_outport := port, m_outport_dirn := d, m_time := t })

namespace AllowsMoves

variable {R : NetState → NetState → Prop} (h : AllowsMoves net R)

include h

theorem random : Keeps R snd s s.random := by
  refine s.random_ok.mono ?_ (fun _ _ => trivial)
  rintro x ⟨g, hx⟩
  rw [hx]
  exact h.other s g _ _ _ _

variable [Std.Refl R]

omit h [StdHeap] in
theorem check_inport (id' : ℕ) : Keeps R id s (Router.check_inport s id') := by
  unfold Router.check_inport
  exact skip (fun _ => skip (fun _ => .pure (Std.Refl.refl s)))

variable [IsTrans NetState R]

omit h [StdHeap] in
theorem tryMoves {attempt : NetState → Except Fault (Bool × NetState)}
    (h : ∀ s, Keeps R snd s (attempt s)) :
    ∀ (itr : ℕ) (s : NetState), Keeps R snd s (tryMoves attempt itr s) := by
  intro itr
  induction itr with
  | zero => exact fun s => .pure (Std.Refl.refl s)
  | succ itr ih =>
    intro s
    unfold Garnet.tryMoves
    refine (h s).bind (fun x => ?_)
    dsimp only
    split
    · exact .pure (Std.Refl.refl _)
    · exact ih x.2

theorem intra_move (id' inport : ℕ) (b : brownian_bubble) :
    Keeps R snd s (intra_move net s id' inport b) := by
  unfold Garnet.intra_move
  refine returned (fun up hup => returned (fun orig_up horig => ?_))
  dsimp only
  split_ifs
  · exact .pure (Std.Refl.refl s)
  · refine (h.exchange _ _ _ _ hup horig).bind (fun s1 => skip (fun _ => ?_))
    unfold schedule_next_period
    dsimp only
    split
    · rw [bind_assoc]
      exact skip (fun _ => .pure (h.other ..))
    · exact .pure (h.other ..)
  · refine returned (fun x hx => skip (fun _ => .pure ?_))
    exact IsTrans.trans _ _ _ (h.swap _ _ x.1.m_outport x.1.m_outport_dirn x.1.m_time hx)
      (h.other ..)
  · exact .throw _

theorem move_intra_bubble (id' : ℕ) : Keeps R snd s (move_intra_bubble net s id') := by
  unfold Garnet.move_intra_bubble
  refine skip (fun b => skip (fun _ => ?_))
  split
  · refine tryMoves (fun s1 => ?_) _ s
    unfold intra_try
    refine (h.random s1).bind (fun x => ?_)
    dsimp only
    split_ifs
    · exact .pure (Std.Refl.refl _)
    · exact .pure (Std.Refl.refl _)
    · exact h.intra_move ..
  · exact .pure (Std.Refl.refl s)

theorem inter_move (id' nxt inport : ℕ) (b : brownian_bubble) :
    Keeps R snd s (inter_move net s id' nxt inport b) := by
  unfold Garnet.inter_move swap_packet
  refine returned (fun up hup => returned (fun orig_up horig => ?_))
  dsimp only
  split_ifs
  · refine (h.exchange _ _ _ _ hup horig).bind (fun s1 => skip (fun _ => .pure ?_))
    exact h.other ..
  · exact .pure (Std.Refl.refl s)
  · refine skip (fun f => ?_)
    split
    · exact .pure (Std.Refl.refl s)
    · rw [bind_assoc]
      refine returned (fun x hx => ?_)
      rw [bind_assoc]
      refine (outportCompute_ok ..).bind ?_
      rintro ⟨port, s2⟩ ⟨g, rfl⟩
      rw [bind_assoc]
      refine skip (fun _ => ?_)
      rw [pure_bind]
      exact skip (fun _ => .pure (IsTrans.trans _ _ _ (h.swap _ _ _ _ _ hx) (h.other ..)))
  · exact .pure (Std.Refl.refl s)

theorem move_inter_bubble (id' : ℕ) : Keeps R snd s (move_inter_bubble net s id') := by
  unfold Garnet.move_inter_bubble
  refine skip (fun b => skip (fun _ => ?_))
  split
  · refine skip (fun x => after (s.setBubble id' { b with sense_inc := x.2 }) (h.other ..)
      (tryMoves (fun s1 => ?_) _ _))
    unfold inter_try
    refine (h.random s1).bind (fun y => ?_)
    dsimp only
    split_ifs
    · exact .pure (Std.Refl.refl _)
    · exact h.inter_move ..
  · exact .pure (Std.Refl.refl s)

theorem move_inter_bubble_cbs (id' : ℕ) : Keeps R snd s (move_inter_bubble_cbs net s id') := by
  unfold Garnet.move_inter_bubble_cbs
  refine skip (fun b => skip (fun _ => ?_))
  split
  · exact skip (fun x => tryMoves (fun s1 => h.inter_move ..) _ s)
  · exact .pure (Std.Refl.refl s)

theorem move_intra (id' : ℕ) : Keeps R id s (Router.move_intra net s id') := by
  unfold Router.move_intra
  split
  · exact (h.move_intra_bubble s id').bind (fun x => check_inport x.2 id')
  · exact .pure (Std.Refl.refl s)

theorem move_inter (id' : ℕ) : Keeps R id s (Router.move_inter net s id') := by
  unfold Router.move_inter
  split
  · exact (h.move_inter_bubble s id').bind (fun x => check_inport x.2 id')
  · exact (h.move_inter_bubble_cbs s id').bind (fun x => check_inport x.2 id')
  · exact .pure (Std.Refl.refl s)

theorem move_intra_bubbles : Keeps R id s (Router.move_intra_bubbles net s) := by
  unfold Router.move_intra_bubbles
  split
  · exact (foldlM h.move_intra _ s).bind (fun s1 => .pure (h.other s1 _ _ _ _ _))
  · exact .pure (Std.Refl.refl s)

theorem move_inter_bubbles : Keeps R id s (Router.move_inter_bubbles net s) := by
  unfold Router.move_inter_bubbles
  split
  · exact (foldlM h.move_inter _ s).bind (fun s1 => .pure (h.other s1 _ _ _ _ _))
  · exact .pure (Std.Refl.refl s)

end AllowsMoves

theorem Still.moves : AllowsMoves net (Agrees NetState.switchesAndNIs) where
  other _ _ _ _ _ _ := rfl
  exchange _ _ _ _ _ _ _ _ _ _ _ _ := keeps_exchange_bubble ..
  swap _ _ _ _ _ htop := (keeps_getTopFlit ..).elim htop

/-! ## Network interfaces and the protocol side -/

section

variable [IsTrans NetState R]

theorem AllowsReceiving.eject (h : AllowsReceiving n R) (s : NetState) (f : flit) :
    Keeps R id s (eject net s n f) := by
  unfold NetworkInterface.eject enqueueMessage
  rw [bind_assoc]
  refine skip (fun b => ?_)
  rw [bind_assoc]
  refine (keeps_random_time (fun _ => h.other _ _ rfl) _).bind (fun x => ?_)
  rw [bind_assoc]
  refine skip (fun y => ?_)
  rw [pure_bind]
  refine after _ ?_ ((keeps_incrementStats (fun _ => h.other _ _ rfl) f).bind
    (fun _ => .pure (h.other _ _ rfl)))
  refine IsTrans.trans _ (setOutBuffer x.2 n f.m_vnet y.1) _ ?_ (h.other _ _ rfl)
  exact h.ni _ _ rfl

theorem AllowsReceiving.protocolDequeue (h : AllowsReceiving n R) (s : NetState) (vnet : ℕ) :
    Keeps R id s (protocolDequeue s n vnet) := by
  unfold NetworkInterface.protocolDequeue
  refine skip (fun b => skip (fun b' => .pure ?_))
  split
  · refine IsTrans.trans _ (setOutBuffer s n vnet b') _ ?_ (h.other _ _ rfl)
    exact h.ni s _ rfl
  · exact h.ni s _ rfl

theorem AllowsTaking.create_flit (h : AllowsTaking n vnet R) (s : NetState) (v destID : ℕ)
    (msg : Message) (dest : NetDest) :
    Keeps R id s (create_flit net s n vnet v destID msg dest) := by
  unfold NetworkInterface.create_flit
  refine skip (fun src_delay => .pure ?_)
  refine IsTrans.trans _ _ _ ?_ (h.chan _ _ _ rfl)
  refine IsTrans.trans _ (s.setNI n _) _ ?_ (h.created (s.setNI n _) _ _ _ rfl)
  exact h.vcs s _ rfl

variable [Std.Refl R]

theorem AllowsSending.scheduleOutputLink (h : AllowsSending n R) (s : NetState) :
    Keeps R id s (scheduleOutputLink net s n) := by
  unfold NetworkInterface.scheduleOutputLink sendFlit OutputUnit.decrement_credit
  split
  · exact .pure (Std.Refl.refl s)
  · rw [bind_assoc]
    refine skip (fun o => ?_)
    rw [pure_bind]
    refine skip (fun x => .pure ?_)
    refine IsTrans.trans _ _ _ ?_ (h.link _ _ _)
    refine IsTrans.trans _ _ _ ?_ (h.chan _ _ _ rfl)
    refine IsTrans.trans _ _ _ ?_ (h.vcs _ _ rfl)
    exact h.chan _ _ _ rfl

theorem AllowsTaking.flitisize_loop (h : AllowsTaking n vnet R) (msg : Message)
    (multicast : Bool) : ∀ (dests : List ℕ) (s : NetState),
    Keeps R snd s (flitisize_loop net n vnet msg multicast dests s) := by
  intro dests
  induction dests with
  | nil => exact fun s => .pure (Std.Refl.refl s)
  | cons destID rest ih =>
    intro s
    unfold NetworkInterface.flitisize_loop
    have hvc : R s (calculateVC net s n vnet).2 := h.calculateVC s vnet
    cases hc : calculateVC net s n vnet with
    | mk vc s1 =>
      rw [hc] at hvc
      cases vc with
      | none => exact .pure hvc
      | some vc =>
        refine after s1 hvc ?_
        refine after _ ?_ ((h.create_flit ..).bind (fun s2 => ih s2))
        unfold removeDestination
        repeat' split
        all_goals first | exact Std.Refl.refl _ | exact h.inNode ..

theorem AllowsTaking.takeMessage (h : AllowsTaking n vnet R) (s : NetState) :
    Keeps R id s (takeMessage net n s vnet) := by
  unfold NetworkInterface.takeMessage
  split
  · exact .pure (Std.Refl.refl s)
  split
  · refine skip (fun msg => ?_)
    refine (h.flitisize_loop msg _ _ s).bind (fun x => ?_)
    dsimp only
    split
    · unfold dequeueMessage
      split
      · exact .pure (Std.Refl.refl _)
      · exact skip (fun b => .pure (h.inNode ..))
    · exact .pure (Std.Refl.refl _)
  · exact .pure (Std.Refl.refl s)

theorem AllowsReceiving.checkStallQueue (h : AllowsReceiving n R) (s : NetState) :
    Keeps R snd s (checkStallQueue net s n) := by
  unfold NetworkInterface.checkStallQueue unstall
  refine skip (fun x => ?_)
  split
  · exact .pure (Std.Refl.refl s)
  · refine (h.eject s _).bind (fun s1 => ?_)
    dsimp only
    split
    · rw [bind_assoc]
      refine skip (fun b => .pure ?_)
      refine IsTrans.trans _ _ _ ?_ (h.ni _ _ rfl)
      exact h.ni _ _ rfl
    · exact .pure (h.ni _ _ rfl)

theorem AllowsReceiving.receiveFlit (h : AllowsReceiving n R) (s : NetState)
    (messageEnqueued : Bool) : Keeps R id s (receiveFlit net s n messageEnqueued) := by
  unfold NetworkInterface.receiveFlit
  dsimp only
  split
  · refine skip (fun x => ?_)
    refine after (s.setChan (net.inNetLink n)
      { s.chan (net.inNetLink n) with linkBuffer := x.2 }) (h.other _ _ rfl) ?_
    unfold acceptFlit
    split
    · refine skip (fun room => ?_)
      split
      · exact h.eject ..
      · unfold stall
        refine skip (fun b => .pure ?_)
        refine IsTrans.trans _ _ _ ?_ (h.ni _ _ rfl)
        exact h.ni _ _ rfl
    · refine after _ ?_ (keeps_incrementStats (fun _ => h.other _ _ rfl) _)
      exact h.other _ _ rfl
  · exact .pure (Std.Refl.refl s)

/-- A whole wakeup, given its loop over the virtual networks. -/
theorem AllowsReceiving.wakeup (h : AllowsReceiving n R) {s : NetState}
    (htake : Keeps R id s ((List.range net.m_virtual_networks).foldlM (takeMessage net n) s)) :
    Keeps R id s (NetworkInterface.wakeup net s n) := by
  unfold NetworkInterface.wakeup
  refine htake.bind (fun s1 => (h.sending.scheduleOutputLink s1).bind (fun s2 => ?_))
  have hresched : R s2 (checkReschedule net s2 n) := by
    unfold checkReschedule
    dsimp only
    split <;> exact h.other _ _ rfl
  refine after _ hresched ((h.checkStallQueue _).bind (fun x => ?_))
  refine (h.receiveFlit x.2 x.1).bind (fun s3 => ?_)
  refine (keeps_output_wakeup (h.sending.chan _) s3).bind (fun s4 => .pure ?_)
  split <;> exact h.other _ _ rfl

end

theorem keeps_ni_wakeup (n : ℕ) :
    Keeps (Untouched P (· ≠ n)) id s (NetworkInterface.wakeup net s n) :=
  (Untouched.receiving P n).wakeup
    (foldlM (fun s vnet => (Untouched.taking P n vnet).takeMessage s) _ s)

theorem keeps_protocolEnqueue (n vnet : ℕ) (msg : Message) (delta : ℕ) :
    Keeps (Untouched P (· ≠ n)) id s (protocolEnqueue net s n vnet msg delta) := by
  unfold protocolEnqueue
  split
  · exact .throw _
  · exact (keeps_random_time (fun _ => .of_eq rfl) _).bind
      (fun x => skip (fun _ => .pure (.of_setNI rfl)))

/-! ## The switch itself -/

/-- What a grant does to the switch: the winner's flit is in the crossbar, and the pointer of the
output port is behind the winner. -/
structure GrantSwitch (net : GarnetNetwork) (r outport inport : ℕ) (s s' : NetState) : Prop where
  pointer : s'.m_round_robin_inport
    = setEntry s.m_round_robin_inport r outport (nextPointer inport (net.num_inports r))
  buffer : ∃ f, s'.m_switch_buffer
    = setEntry s.m_switch_buffer r inport ((s.m_switch_buffer r inport).insert f)
  ni : s'.ni = s.ni
  injected : s'.injected = s.injected

variable {s} in
theorem GrantSwitch.elsewhere {r outport inport : ℕ}
    (h : GrantSwitch net r outport inport s s') : Untouched (· ≠ r) Q s s' := by
  obtain ⟨f, hf⟩ := h.buffer
  refine ⟨fun r' hr' => ?_, fun r' hr' => ?_, fun n _ => congrFun h.ni n,
    fun n _ => congrFun h.injected n⟩
  · funext o
    rw [h.pointer, setEntry_apply, if_neg (fun hro => hr' hro.1)]
  · funext i
    rw [hf, setEntry_apply, if_neg (fun hri => hr' hri.1)]

namespace SwitchAllocator

omit [StdHeap] in
theorem keeps_arbitrate_inports (r : ℕ) :
    Still fst s (arbitrate_inports net s r) := by
  refine (arbitrate_inports_spec r).mono ?_ (fun _ _ => trivial)
  rintro x ⟨⟨g, hg⟩, -⟩
  rw [hg]
  exact rfl

omit [StdHeap] in
theorem keeps_get_outvc (lout lin invc : ℕ) :
    Still snd s (get_outvc net s lout lin invc) := by
  unfold get_outvc
  dsimp only
  split
  · unfold vc_allocate
    refine skip (fun vnet => ?_)
    unfold OutputUnit.select_free_vc
    cases (vcsOf net vnet).find? (is_vc_idle s lout) with
    | none => exact .throw _
    | some outvc => exact .pure rfl
  · exact .pure rfl

theorem keeps_send_credit (lin invc : ℕ) (f : flit) :
    Still id s (send_credit s lin invc f) := by
  unfold send_credit
  split
  · exact skip (fun _ => .pure rfl)
  · exact .pure rfl

theorem grant_switch (r outport inport invc : ℕ) :
    Ok (GrantSwitch net r outport inport s) ⊤ (grant net s r outport inport invc) := by
  -- the parts before and after the flit enters the crossbar touch nothing of this
  unfold grant
  refine Ok.bind (keeps_get_outvc ..) (fun x (h1 : Agrees _ s x.2) => ?_)
  refine Ok.bind (keeps_getTopFlit x.2 _ _) (fun y (h2 : Agrees _ x.2 y.2) => ?_)
  refine Ok.skip (fun _ => ?_)
  refine Ok.bind (keeps_decrement_credit y.2 _ _) (fun s3 (h3 : Agrees _ y.2 s3) => ?_)
  refine Ok.bind (keeps_send_credit _ _ _ _) (fun s4 (h4 : Agrees _ _ s4) => ?_)
  have h : s3.switchesAndNIs = s.switchesAndNIs := h3.trans (h2.trans h1)
  simp only [Agrees, NetState.switchesAndNIs, Prod.mk.injEq] at h h4
  refine ⟨?_, ⟨granted net r outport x.1 y.2.now y.1, ?_⟩, h4.2.2.1.trans h.2.2.1,
    h4.2.2.2.trans h.2.2.2⟩
  · change setEntry s4.m_round_robin_inport r outport _ = _
    rw [h4.1, ← h.1]
    rfl
  · rw [← h.2.1]
    exact h4.2.1

/-- The input port and virtual channel that output port `outport` goes to, with its pointer at
`pointer`. -/
def winner (requests : Requests) (n outport pointer : ℕ) : Option (ℕ × ℕ) :=
  (roundRobin pointer n).findSome? (fun inport => (requests inport).bind (fun p =>
    if p.1 = outport then some (inport, p.2) else none))

theorem arbitrate_outport_switch (r outport : ℕ) (requests : Requests) :
    Ok (fun s' => match winner requests (net.num_inports r) outport
          (s.m_round_robin_inport r outport) with
        | none => s' = s
        | some (inport, _) => GrantSwitch net r outport inport s s')
      ⊤ (arbitrate_outport net r requests s outport) := by
  unfold arbitrate_outport
  change Ok _ _ (match winner requests (net.num_inports r) outport
    (s.m_round_robin_inport r outport) with | none => _ | some (inport, invc) => _)
  cases winner requests (net.num_inports r) outport (s.m_round_robin_inport r outport) with
  | none => exact rfl
  | some w => exact grant_switch s r outport w.1 w.2

omit [StdHeap] in
theorem keeps_check_for_wakeup (r : ℕ) :
    Still id s (check_for_wakeup net s r) := by
  unfold check_for_wakeup
  refine skip (fun ready => .pure ?_)
  split <;> exact rfl

theorem keeps_wakeup (r : ℕ) :
    Keeps (Untouched (· ≠ r) Q) id s (SwitchAllocator.wakeup net s r) := by
  unfold SwitchAllocator.wakeup
  refine (keeps_arbitrate_inports s r).untouched.bind (fun x => ?_)
  refine (foldlM (fun s1 outport => ?_) _ x.1).bind
    (fun s1 => (keeps_check_for_wakeup s1 r).untouched)
  refine (arbitrate_outport_switch s1 r outport x.2).imp (fun s2 h => ?_)
  split at h
  · rw [h]
    exact .of_eq rfl
  · exact h.elsewhere

end SwitchAllocator

theorem keeps_crossbar_wakeup (r : ℕ) :
    Keeps (Untouched (· ≠ r) Q) id s (CrossbarSwitch.wakeup net s r) := by
  refine foldlM (fun s1 inport => ?_) _ s
  unfold CrossbarSwitch.traverse
  dsimp only
  split
  · refine skip (fun x => ?_)
    split
    · refine .pure ⟨fun _ _ => rfl, fun r' hr' => ?_, fun _ _ => rfl, fun _ _ => rfl⟩
      funext i
      change setEntry s1.m_switch_buffer r inport x.2 r' i = _
      rw [setEntry_apply, if_neg (fun hri => hr' hri.1)]
    · exact .pure (.of_eq rfl)
  · exact .pure (.of_eq rfl)

theorem crossbar_pointer (r : ℕ) :
    Ok (fun s' => s'.m_round_robin_inport = s.m_round_robin_inport) ⊤
      (CrossbarSwitch.wakeup net s r) := by
  refine Ok.foldlM_inv _ rfl (fun inport _ s1 hs1 => ?_)
  unfold CrossbarSwitch.traverse
  dsimp only
  split
  · refine Ok.skip (fun x => ?_)
    split
    · exact hs1
    · exact hs1
  · exact hs1

/-! ## Whole steps -/

/-- `Router::wakeup` up to the wakeup of the switch allocator. -/
def Router.beforeSwitch (net : GarnetNetwork) (s : NetState) (r : ℕ) : Except Fault NetState := do
  let s ← Router.init_bubbles net s
  let s ← Router.move_intra_bubbles net s
  let s ← Router.move_inter_bubbles net s
  let s ← (List.range (net.num_inports r)).foldlM (InputUnit.wakeup net r) s
  (List.range (net.num_outports r)).foldlM (Router.output_wakeup net r) s

theorem Router.wakeup_eq (r : ℕ) :
    Router.wakeup net s r = (do
      let s ← Router.beforeSwitch net s r
      let s ← SwitchAllocator.wakeup net s r
      CrossbarSwitch.wakeup net s r) := by
  simp only [Router.wakeup, Router.switch, Router.beforeSwitch, bind_assoc]

theorem keeps_beforeSwitch (r : ℕ) :
    Still id s (Router.beforeSwitch net s r) := by
  unfold Router.beforeSwitch
  refine (keeps_init_bubbles s).bind (fun s1 => ?_)
  refine (Still.moves.move_intra_bubbles s1).bind (fun s2 => ?_)
  refine (Still.moves.move_inter_bubbles s2).bind (fun s3 => ?_)
  refine (foldlM (keeps_input_wakeup r) _ s3).bind (fun s4 => ?_)
  exact foldlM (fun s5 outport => keeps_output_wakeup (fun _ _ _ => rfl) s5) _ s4

theorem keeps_router_wakeup (r : ℕ) :
    Keeps (Untouched (· ≠ r) Q) id s (Router.wakeup net s r) := by
  rw [Router.wakeup_eq]
  refine (keeps_beforeSwitch s r).untouched.bind (fun s1 => ?_)
  exact (SwitchAllocator.keeps_wakeup s1 r).bind (fun s2 => keeps_crossbar_wakeup s2 r)

variable {s}

/-- A step other than a wakeup of router `r`. -/
inductive OtherStep (net : GarnetNetwork) (r : ℕ) (s : NetState) : NetState → Prop
  | wakeup (c : ConsumerId) (s' : NetState) (hc : c ≠ .router r) :
      Garnet.wakeup net s c = .ok s' → OtherStep net r s s'
  | move_intra_bubble (id : ℕ) (moved : Bool) (s' : NetState) :
      Garnet.move_intra_bubble net s id = .ok (moved, s') → OtherStep net r s s'
  | move_inter_bubble (id : ℕ) (moved : Bool) (s' : NetState) :
      Garnet.move_inter_bubble net s id = .ok (moved, s') → OtherStep net r s s'
  | protocol (s' : NetState) : ProtocolStep net s s' → OtherStep net r s s'
  | clock (t : ℕ) : OtherStep net r s { s with now := t }

/-- **Only router `r` touches the switch of router `r`.** -/
theorem OtherStep.untouched {r : ℕ} (h : OtherStep net r s s') :
    Untouched (· = r) ⊥ s s' := by
  cases h with
  | wakeup c s' hc h =>
    cases c with
    | router r' =>
      have hne : r ≠ r' := fun hr => hc (by rw [hr])
      exact ((keeps_router_wakeup s r').elim h).mono (fun _ hr => hr ▸ hne) (fun _ => id)
    | ni n => exact ((keeps_ni_wakeup s n).elim h).mono (fun _ => id) (fun _ => False.elim)
    | networkLink l => exact .of_eq ((keeps_networkLink_wakeup s l).elim h)
    | creditLink l => exact .of_eq ((keeps_creditLink_wakeup s l).elim h)
  | move_intra_bubble id' moved s' h => exact .of_eq ((Still.moves.move_intra_bubble s id').elim h)
  | move_inter_bubble id' moved s' h => exact .of_eq ((Still.moves.move_inter_bubble s id').elim h)
  | protocol s' h =>
    cases h with
    | enqueue n vnet msg delta s' hn h =>
      exact ((keeps_protocolEnqueue s n vnet msg delta).elim h).mono (fun _ => id)
        (fun _ => False.elim)
    | dequeue n vnet s' hn h =>
      exact (((Untouched.receiving _ n).protocolDequeue s vnet).elim h).mono (fun _ => id) (fun _ => False.elim)
  | clock t => exact .of_eq rfl

/-- Every step is a wakeup of router `r` or some other step. -/
theorem AnyStep.cases_router (h : AnyStep net s s') (r : ℕ) :
    Router.wakeup net s r = .ok s' ∨ OtherStep net r s s' := by
  cases h with
  | wakeup c s' _ h =>
    by_cases hc : c = .router r
    · rw [hc] at h
      exact .inl h
    · exact .inr (.wakeup c s' hc h)
  | move_intra_bubble id' moved s' _ h => exact .inr (.move_intra_bubble id' moved s' h)
  | move_inter_bubble id' moved s' _ h => exact .inr (.move_inter_bubble id' moved s' h)
  | protocol s' h => exact .inr (.protocol s' h)
  | clock t _ => exact .inr (.clock t)

/-- What a step of the network does to interface `n`: nothing, the interface wakes up, or its
controller enqueues or dequeues a message. -/
theorem AnyStep.cases_ni (h : AnyStep net s s') (n : ℕ) :
    Untouched ⊥ (· = n) s s' ∨ NetworkInterface.wakeup net s n = .ok s'
    ∨ (∃ vnet msg delta, NetworkInterface.protocolEnqueue net s n vnet msg delta = .ok s')
    ∨ ∃ vnet, NetworkInterface.protocolDequeue s n vnet = .ok s' := by
  -- the parts of the network that touch another interface
  have hother : ∀ {m : ℕ} {y : Except Fault NetState}, m ≠ n →
      Keeps (Untouched ⊥ (· ≠ m)) id s y → y = .ok s' →
      Untouched ⊥ (· = n) s s' := fun hm hy ha =>
    (hy.elim ha).mono (fun _ => id) (fun _ hn => hn ▸ Ne.symm hm)
  cases h with
  | wakeup c s' _ h =>
    cases c with
    | router r =>
      exact .inl (((keeps_router_wakeup s r).elim h).mono (fun _ => False.elim) (fun _ => id))
    | ni m =>
      by_cases hm : m = n
      · rw [hm] at h
        exact .inr (.inl h)
      · exact .inl (hother hm (keeps_ni_wakeup s m) h)
    | networkLink l => exact .inl (.of_eq ((keeps_networkLink_wakeup s l).elim h))
    | creditLink l => exact .inl (.of_eq ((keeps_creditLink_wakeup s l).elim h))
  | move_intra_bubble id' moved s' _ h =>
    exact .inl (.of_eq ((Still.moves.move_intra_bubble s id').elim h))
  | move_inter_bubble id' moved s' _ h =>
    exact .inl (.of_eq ((Still.moves.move_inter_bubble s id').elim h))
  | protocol s' h =>
    cases h with
    | enqueue m vnet msg delta s' _ h =>
      by_cases hm : m = n
      · rw [hm] at h
        exact .inr (.inr (.inl ⟨vnet, msg, delta, h⟩))
      · exact .inl (hother hm (keeps_protocolEnqueue s m vnet msg delta) h)
    | dequeue m vnet s' _ h =>
      by_cases hm : m = n
      · rw [hm] at h
        exact .inr (.inr (.inr ⟨vnet, h⟩))
      · exact .inl (hother hm ((Untouched.receiving _ m).protocolDequeue s vnet) h)
  | clock t _ => exact .inl (.of_eq rfl)

end

end Bindu.Garnet
