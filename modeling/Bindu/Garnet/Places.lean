/-
The places of a network: every buffer a flit or a credit can be in, as one function of the
state each, with the state changes that touch them.

The invariants of the network are about where things are, not about which object of the
source owns the buffer, so they are stated with `flits`, `credits`, `outvc` and `vcInfo`. The
lemmas here say what each elementary state change does to each of these, and `Quiet` collects
the changes none of them can see.
-/
import Bindu.Garnet.Units

namespace Bindu.Garnet

/-- Where a flit can be. -/
inductive FlitPlace
  /-- virtual channel `vc` of `NetworkInterface::m_ni_out_vcs` -/
  | niOut (n vc : ℕ)
  /-- `m_out_buffer` of the output unit that feeds a link, or `outFlitQueue` -/
  | outBuffer (l : ℕ)
  /-- `linkBuffer` of a link -/
  | link (l : ℕ)
  /-- virtual channel `vc` of the input unit that reads a link -/
  | vc (l vc : ℕ)
  /-- `m_switch_buffer` of an input port -/
  | switch (r inport : ℕ)
  /-- `m_stall_queue` of a network interface -/
  | stall (n : ℕ)
  deriving DecidableEq

/-- Where a credit can be. -/
inductive CreditPlace
  /-- `creditQueue` of the input unit that reads a link, or `outCreditQueue` -/
  | queue (l : ℕ)
  /-- `linkBuffer` of a credit link -/
  | link (l : ℕ)
  deriving DecidableEq

namespace NetState

/-! ## What is where -/

def flits (s : NetState) : FlitPlace → List flit
  | .niOut n vc => ((s.ni n).m_ni_out_vcs vc).m_buffer
  | .outBuffer l => (s.chan l).m_out_buffer.m_buffer
  | .link l => (s.chan l).linkBuffer.m_buffer
  | .vc l vc => ((s.chan l).m_vcs vc).m_input_buffer.m_buffer
  | .switch r inport => (s.m_switch_buffer r inport).m_buffer
  | .stall n => (s.ni n).m_stall_queue

def credits (s : NetState) : CreditPlace → List Credit
  | .queue l => (s.chan l).creditQueue.m_buffer
  | .link l => (s.chan l).creditBuffer.m_buffer

/-- The state of an output virtual channel. -/
def outvc (s : NetState) (l vc : ℕ) : OutVcState := (s.chan l).m_outvc_state vc

/-- An input virtual channel without its buffer. -/
def vcInfo (s : NetState) (l vc : ℕ) : VirtualChannel :=
  { (s.chan l).m_vcs vc with m_input_buffer := .empty }

/-- When the flit in a virtual channel of a network interface was put there. -/
def niEnqueueTime (s : NetState) (n vc : ℕ) : ℕ := (s.ni n).m_ni_out_vcs_enqueue_time vc

/-- Where the search for a virtual channel of a network interface goes on. -/
def vcAllocator (s : NetState) (n vnet : ℕ) : ℕ := (s.ni n).m_vc_allocator vnet

/-- Where the bubbles are: router, input port and direction. -/
def bubblePos (s : NetState) : List (ℕ × ℕ × PortDirection) :=
  s.bubble.map (fun b => (b.router_id, b.inport_id, b.inport_dirn))

/-! ## Elementary changes -/

def setFlits (s : NetState) : FlitPlace → List flit → NetState
  | .niOut n vc, L =>
    s.setNI n { s.ni n with
      m_ni_out_vcs := Function.update (s.ni n).m_ni_out_vcs vc ⟨L⟩ }
  | .outBuffer l, L => s.setChan l { s.chan l with m_out_buffer := ⟨L⟩ }
  | .link l, L => s.setChan l { s.chan l with linkBuffer := ⟨L⟩ }
  | .vc l vc, L =>
    s.setChan l ((s.chan l).modVc vc { (s.chan l).m_vcs vc with m_input_buffer := ⟨L⟩ })
  | .switch r inport, L =>
    { s with m_switch_buffer := setEntry s.m_switch_buffer r inport ⟨L⟩ }
  | .stall n, L => s.setNI n { s.ni n with m_stall_queue := L }

def setCredits (s : NetState) : CreditPlace → List Credit → NetState
  | .queue l, L => s.setChan l { s.chan l with creditQueue := ⟨L⟩ }
  | .link l, L => s.setChan l { s.chan l with creditBuffer := ⟨L⟩ }

def setOutvc (s : NetState) (l vc : ℕ) (o : OutVcState) : NetState :=
  s.setChan l ((s.chan l).modOutVc vc o)

/-- Replace all of an input virtual channel but its buffer. -/
def setVcInfo (s : NetState) (l vc : ℕ) (v : VirtualChannel) : NetState :=
  s.setChan l ((s.chan l).modVc vc
    { v with m_input_buffer := ((s.chan l).m_vcs vc).m_input_buffer })

variable (s : NetState)

/-! ## What a change does to a view -/

variable {c : Channel}

theorem proj_setChan {β : Type} (g : Channel → β) {l : ℕ} (h : g c = g (s.chan l))
    (l' : ℕ) : g ((s.setChan l c).chan l') = g (s.chan l') := by
  by_cases hl : l' = l
  · subst hl
    simp [setChan, h]
  · simp [setChan, hl]

theorem flits_setChan {l : ℕ} (hout : c.m_out_buffer = (s.chan l).m_out_buffer)
    (hlink : c.linkBuffer = (s.chan l).linkBuffer)
    (hvc : ∀ v, (c.m_vcs v).m_input_buffer = ((s.chan l).m_vcs v).m_input_buffer) :
    (s.setChan l c).flits = s.flits := by
  funext q
  cases q with
  | niOut n v => rfl
  | outBuffer l' => exact congrArg flitBuffer.m_buffer (s.proj_setChan Channel.m_out_buffer hout l')
  | link l' => exact congrArg flitBuffer.m_buffer (s.proj_setChan Channel.linkBuffer hlink l')
  | vc l' v =>
    exact congrArg flitBuffer.m_buffer
      (s.proj_setChan (fun c => (c.m_vcs v).m_input_buffer) (hvc v) l')
  | switch r i => rfl
  | stall n => rfl

theorem credits_setChan {l : ℕ} (hqueue : c.creditQueue = (s.chan l).creditQueue)
    (hlink : c.creditBuffer = (s.chan l).creditBuffer) : (s.setChan l c).credits = s.credits := by
  funext q
  cases q with
  | queue l' => exact congrArg flitBuffer.m_buffer (s.proj_setChan Channel.creditQueue hqueue l')
  | link l' => exact congrArg flitBuffer.m_buffer (s.proj_setChan Channel.creditBuffer hlink l')

theorem outvc_setChan {l : ℕ} (h : c.m_outvc_state = (s.chan l).m_outvc_state) :
    (s.setChan l c).outvc = s.outvc := by
  funext l' v
  exact congrFun (s.proj_setChan Channel.m_outvc_state h l') v

theorem vcInfo_setChan {l : ℕ} (h : ∀ v, { c.m_vcs v with m_input_buffer := .empty }
      = { (s.chan l).m_vcs v with m_input_buffer := flitBuffer.empty }) :
    (s.setChan l c).vcInfo = s.vcInfo := by
  funext l' v
  exact s.proj_setChan (fun c => { c.m_vcs v with m_input_buffer := flitBuffer.empty }) (h v) l'

theorem proj_setNI {β : Type} (g : NetworkInterface → β) {n : ℕ} {x : NetworkInterface}
    (h : g x = g (s.ni n)) (n' : ℕ) : g ((s.setNI n x).ni n') = g (s.ni n') := by
  by_cases hn : n' = n
  · subst hn
    simp [setNI, h]
  · simp [setNI, hn]

theorem niEnqueueTime_setNI {n : ℕ} {x : NetworkInterface}
    (h : x.m_ni_out_vcs_enqueue_time = (s.ni n).m_ni_out_vcs_enqueue_time) :
    (s.setNI n x).niEnqueueTime = s.niEnqueueTime := by
  funext n' v
  exact congrFun (s.proj_setNI NetworkInterface.m_ni_out_vcs_enqueue_time h n') v

theorem vcAllocator_setNI {n : ℕ} {x : NetworkInterface}
    (h : x.m_vc_allocator = (s.ni n).m_vc_allocator) :
    (s.setNI n x).vcAllocator = s.vcAllocator := by
  funext n' v
  exact congrFun (s.proj_setNI NetworkInterface.m_vc_allocator h n') v

@[simp] theorem flits_setFlits (p q : FlitPlace) (L : List flit) :
    (s.setFlits p L).flits q = if q = p then L else s.flits q := by
  by_cases hqp : q = p
  · subst hqp
    cases q <;> simp [setFlits, flits, setNI, setChan, Channel.modVc, setEntry_apply]
  · rw [if_neg hqp]
    cases p <;> cases q <;>
      simp_all [setFlits, flits, setNI, setChan, Channel.modVc, Function.update_apply,
        setEntry_apply] <;> split_ifs <;> simp_all

@[simp] theorem flits_setCredits (p : CreditPlace) (L : List Credit) :
    (s.setCredits p L).flits = s.flits := by
  cases p <;> exact s.flits_setChan rfl rfl (fun _ => rfl)

@[simp] theorem flits_setOutvc (l vc : ℕ) (o : OutVcState) : (s.setOutvc l vc o).flits = s.flits :=
  s.flits_setChan rfl rfl (fun _ => rfl)

@[simp] theorem flits_setVcInfo (l vc : ℕ) (v : VirtualChannel) :
    (s.setVcInfo l vc v).flits = s.flits := by
  refine s.flits_setChan rfl rfl (fun vc' => ?_)
  by_cases h : vc' = vc
  · subst h
    simp [Channel.modVc]
  · simp [Channel.modVc, h]

@[simp] theorem credits_setFlits (p : FlitPlace) (L : List flit) :
    (s.setFlits p L).credits = s.credits := by
  cases p <;> first | rfl | exact s.credits_setChan rfl rfl

@[simp] theorem credits_setCredits (p q : CreditPlace) (L : List Credit) :
    (s.setCredits p L).credits q = if q = p then L else s.credits q := by
  by_cases hqp : q = p
  · subst hqp
    cases q <;> simp [setCredits, credits, setChan]
  · rw [if_neg hqp]
    cases p <;> cases q <;>
      simp_all [setCredits, credits, setChan, Function.update_apply] <;> split_ifs <;> simp_all

@[simp] theorem credits_setOutvc (l vc : ℕ) (o : OutVcState) :
    (s.setOutvc l vc o).credits = s.credits :=
  s.credits_setChan rfl rfl

@[simp] theorem credits_setVcInfo (l vc : ℕ) (v : VirtualChannel) :
    (s.setVcInfo l vc v).credits = s.credits :=
  s.credits_setChan rfl rfl

@[simp] theorem outvc_setFlits (p : FlitPlace) (L : List flit) :
    (s.setFlits p L).outvc = s.outvc := by
  cases p <;> first | rfl | exact s.outvc_setChan rfl

@[simp] theorem outvc_setCredits (p : CreditPlace) (L : List Credit) :
    (s.setCredits p L).outvc = s.outvc := by
  cases p <;> exact s.outvc_setChan rfl

@[simp] theorem outvc_setOutvc (l vc : ℕ) (o : OutVcState) (l' vc' : ℕ) :
    (s.setOutvc l vc o).outvc l' vc' = if l' = l ∧ vc' = vc then o else s.outvc l' vc' := by
  by_cases hl : l' = l
  · subst hl
    simp [setOutvc, outvc, setChan, Channel.modOutVc, Function.update_apply]
  · simp [setOutvc, outvc, setChan, hl]

@[simp] theorem outvc_setVcInfo (l vc : ℕ) (v : VirtualChannel) :
    (s.setVcInfo l vc v).outvc = s.outvc :=
  s.outvc_setChan rfl

@[simp] theorem vcInfo_setFlits (p : FlitPlace) (L : List flit) :
    (s.setFlits p L).vcInfo = s.vcInfo := by
  cases p with
  | vc l v =>
    refine s.vcInfo_setChan (fun v' => ?_)
    by_cases h : v' = v
    · subst h
      simp [Channel.modVc]
    · simp [Channel.modVc, h]
  | _ => first | rfl | exact s.vcInfo_setChan (fun _ => rfl)

@[simp] theorem vcInfo_setCredits (p : CreditPlace) (L : List Credit) :
    (s.setCredits p L).vcInfo = s.vcInfo := by
  cases p <;> exact s.vcInfo_setChan (fun _ => rfl)

@[simp] theorem vcInfo_setOutvc (l vc : ℕ) (o : OutVcState) :
    (s.setOutvc l vc o).vcInfo = s.vcInfo :=
  s.vcInfo_setChan (fun _ => rfl)

@[simp] theorem vcInfo_setVcInfo (l vc : ℕ) (v : VirtualChannel) (l' vc' : ℕ) :
    (s.setVcInfo l vc v).vcInfo l' vc'
      = if l' = l ∧ vc' = vc then { v with m_input_buffer := .empty } else s.vcInfo l' vc' := by
  by_cases hl : l' = l
  · subst hl
    by_cases hv : vc' = vc
    · subst hv
      simp [setVcInfo, vcInfo, setChan, Channel.modVc]
    · simp [setVcInfo, vcInfo, setChan, Channel.modVc, hv]
  · simp [setVcInfo, vcInfo, setChan, hl]

/-! The rest of the state. `niEnqueueTime` and `vcAllocator` are the only parts of a network
interface that are looked at besides its buffers. -/

section Rest

variable (p : FlitPlace) (L : List flit) (q : CreditPlace) (M : List Credit)

@[simp] theorem niEnqueueTime_setFlits : (s.setFlits p L).niEnqueueTime = s.niEnqueueTime := by
  cases p <;> first | rfl | exact s.niEnqueueTime_setNI rfl

@[simp] theorem niEnqueueTime_setCredits :
    (s.setCredits q M).niEnqueueTime = s.niEnqueueTime := by cases q <;> rfl

@[simp] theorem vcAllocator_setFlits : (s.setFlits p L).vcAllocator = s.vcAllocator := by
  cases p <;> first | rfl | exact s.vcAllocator_setNI rfl

@[simp] theorem vcAllocator_setCredits : (s.setCredits q M).vcAllocator = s.vcAllocator := by
  cases q <;> rfl

@[simp] theorem now_setFlits : (s.setFlits p L).now = s.now := by cases p <;> rfl

@[simp] theorem now_setCredits : (s.setCredits q M).now = s.now := by cases q <;> rfl

@[simp] theorem bubble_setFlits : (s.setFlits p L).bubble = s.bubble := by cases p <;> rfl

@[simp] theorem bubble_setCredits : (s.setCredits q M).bubble = s.bubble := by cases q <;> rfl

@[simp] theorem m_bubble_init_setFlits : (s.setFlits p L).m_bubble_init = s.m_bubble_init := by
  cases p <;> rfl

@[simp] theorem m_bubble_init_setCredits : (s.setCredits q M).m_bubble_init = s.m_bubble_init := by
  cases q <;> rfl

@[simp] theorem injected_setFlits : (s.setFlits p L).injected = s.injected := by cases p <;> rfl

@[simp] theorem injected_setCredits : (s.setCredits q M).injected = s.injected := by
  cases q <;> rfl

@[simp] theorem ejected_setFlits : (s.setFlits p L).ejected = s.ejected := by cases p <;> rfl

@[simp] theorem ejected_setCredits : (s.setCredits q M).ejected = s.ejected := by cases q <;> rfl

@[simp] theorem next_ptr_setFlits : (s.setFlits p L).next_ptr = s.next_ptr := by cases p <;> rfl

@[simp] theorem next_ptr_setCredits : (s.setCredits q M).next_ptr = s.next_ptr := by
  cases q <;> rfl

variable (l vc : ℕ) (o : OutVcState) (v : VirtualChannel)

@[simp] theorem niEnqueueTime_setOutvc : (s.setOutvc l vc o).niEnqueueTime = s.niEnqueueTime := rfl

@[simp] theorem niEnqueueTime_setVcInfo : (s.setVcInfo l vc v).niEnqueueTime = s.niEnqueueTime := rfl

@[simp] theorem vcAllocator_setOutvc : (s.setOutvc l vc o).vcAllocator = s.vcAllocator := rfl

@[simp] theorem vcAllocator_setVcInfo : (s.setVcInfo l vc v).vcAllocator = s.vcAllocator := rfl

@[simp] theorem now_setOutvc : (s.setOutvc l vc o).now = s.now := rfl

@[simp] theorem now_setVcInfo : (s.setVcInfo l vc v).now = s.now := rfl

@[simp] theorem bubble_setOutvc : (s.setOutvc l vc o).bubble = s.bubble := rfl

@[simp] theorem bubble_setVcInfo : (s.setVcInfo l vc v).bubble = s.bubble := rfl

@[simp] theorem m_bubble_init_setOutvc : (s.setOutvc l vc o).m_bubble_init = s.m_bubble_init := rfl

@[simp] theorem m_bubble_init_setVcInfo : (s.setVcInfo l vc v).m_bubble_init = s.m_bubble_init := rfl

@[simp] theorem injected_setOutvc : (s.setOutvc l vc o).injected = s.injected := rfl

@[simp] theorem injected_setVcInfo : (s.setVcInfo l vc v).injected = s.injected := rfl

@[simp] theorem ejected_setOutvc : (s.setOutvc l vc o).ejected = s.ejected := rfl

@[simp] theorem ejected_setVcInfo : (s.setVcInfo l vc v).ejected = s.ejected := rfl

@[simp] theorem next_ptr_setOutvc : (s.setOutvc l vc o).next_ptr = s.next_ptr := rfl

@[simp] theorem next_ptr_setVcInfo : (s.setVcInfo l vc v).next_ptr = s.next_ptr := rfl

end Rest

/-! A buffer is its contents. -/

variable {s} {s' : NetState}

theorem vcBuffer_eq {l v : ℕ} (h : s'.flits (.vc l v) = s.flits (.vc l v)) :
    ((s'.chan l).m_vcs v).m_input_buffer = ((s.chan l).m_vcs v).m_input_buffer :=
  congrArg flitBuffer.mk h

theorem creditQueue_eq (h : s'.credits = s.credits) (l : ℕ) :
    (s'.chan l).creditQueue = (s.chan l).creditQueue :=
  congrArg flitBuffer.mk (congrFun h (.queue l))

variable (s)

/-! ## Changes that no view sees -/

/-- `s'` differs from `s` only in what no view shows: the outcomes of `random()`, the round
robin pointers, the statistics, the protocol buffers and counters of the network interfaces,
when and in which sense the bubbles move, and the events that are scheduled. -/
structure Quiet (s s' : NetState) : Prop where
  now : s'.now = s.now
  flits : s'.flits = s.flits
  credits : s'.credits = s.credits
  outvc : s'.outvc = s.outvc
  vcInfo : s'.vcInfo = s.vcInfo
  niEnqueueTime : s'.niEnqueueTime = s.niEnqueueTime
  vcAllocator : s'.vcAllocator = s.vcAllocator
  bubblePos : s'.bubblePos = s.bubblePos
  m_bubble_init : s'.m_bubble_init = s.m_bubble_init
  injected : s'.injected = s.injected
  ejected : s'.ejected = s.ejected
  next_ptr : s'.next_ptr = s.next_ptr

theorem Quiet.refl (s : NetState) : Quiet s s := by constructor <;> rfl

theorem Quiet.trans {s1 s2 s3 : NetState} (h : Quiet s1 s2) (h' : Quiet s2 s3) : Quiet s1 s3 where
  now := h'.now.trans h.now
  flits := h'.flits.trans h.flits
  credits := h'.credits.trans h.credits
  outvc := h'.outvc.trans h.outvc
  vcInfo := h'.vcInfo.trans h.vcInfo
  niEnqueueTime := h'.niEnqueueTime.trans h.niEnqueueTime
  vcAllocator := h'.vcAllocator.trans h.vcAllocator
  bubblePos := h'.bubblePos.trans h.bubblePos
  m_bubble_init := h'.m_bubble_init.trans h.m_bubble_init
  injected := h'.injected.trans h.injected
  ejected := h'.ejected.trans h.ejected
  next_ptr := h'.next_ptr.trans h.next_ptr

theorem Quiet.schedule (c : ConsumerId) (t : ℕ) : Quiet s (s.schedule c t) := by
  constructor <;> rfl

end NetState

end Bindu.Garnet
