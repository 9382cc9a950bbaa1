/-
`WireBuffer`, a wire between two controllers.

A message stays on the wire for a fixed time. The buffer is a vector of messages that `dequeue`
treats as a heap, ordered by arrival time and then by message counter. But `enqueue` neither
moves the new message to its place in the heap nor gives it the counter of the buffer. With
arrival times that do not decrease the vector is still a heap as long as messages with the same
arrival time have increasing counters, and only then is the heap a queue.

Sources: `mem/ruby/structures/WireBuffer.cc`, `mem/ruby/slicc_interface/Message.hh`.
-/
import Bindu.Lib.Runs
import Bindu.Garnet.MessageHeap

open Bindu.Lib List

namespace Bindu.Ruby

open Bindu.Garnet (Message)

/-! ## The buffer -/

/-- The assertions, and the panic for a wire without a consumer. -/
inductive WireFault
  | arrival_time
  | not_ready
  | no_consumer
  deriving DecidableEq

structure WireBuffer where
  m_msg_counter : ℕ
  /-- Is `m_consumer_ptr` set? -/
  m_consumer : Bool
  m_message_queue : List Message

namespace WireBuffer

/-- The constructor, and `setConsumer`. -/
def new : WireBuffer where
  m_msg_counter := 0
  m_consumer := true
  m_message_queue := []

/-- `enqueue`; also returns the time at which the consumer is woken up. -/
def enqueue (b : WireBuffer) (message : Message) (current_time delta : ℕ) :
    Except WireFault (WireBuffer × ℕ) := do
  let m_msg_counter := b.m_msg_counter + 1
  let arrival_time := current_time + delta
  require (current_time < arrival_time) .arrival_time
  let message := { message with m_LastEnqueueTime := arrival_time }
  let b := { b with
    m_msg_counter := m_msg_counter
    m_message_queue := b.m_message_queue ++ [message] }
  require b.m_consumer .no_consumer
  pure (b, arrival_time)

def isReady (b : WireBuffer) (current_time : ℕ) : Bool :=
  match b.m_message_queue with
  | [] => false
  | m :: _ => decide (m.m_LastEnqueueTime ≤ current_time)

/-- `peek`, on a vector that is not empty. -/
def peek (b : WireBuffer) : Option Message := b.m_message_queue.head?

def dequeue [StdHeap] (b : WireBuffer) (current_time : ℕ) : Except WireFault WireBuffer := do
  require (b.isReady current_time) .not_ready
  pure { b with
    m_message_queue := (StdHeap.pop_heap Message.greater b.m_message_queue).dropLast }

end WireBuffer

/-! ## Runs -/

inductive WireCall
  | enqueue (message : Message) (current_time : ℕ)
  | dequeue (current_time : ℕ)

def WireCall.time : WireCall → ℕ
  | .enqueue _ t => t
  | .dequeue t => t

/-- A wire with the messages that were put on it and those that were taken from it, both in the
order of the calls. -/
structure WireRun extends WireBuffer where
  now : ℕ
  sent : List Message
  received : List Message

def WireRun.start : WireRun where
  toWireBuffer := .new
  now := 0
  sent := []
  received := []

/-- The calls of two controllers at the ends of a wire with delay `delta`. Time does not go
back, and only messages that are ready are taken. -/
def wire [StdHeap] (delta : ℕ) : Machine WireRun WireCall WireFault where
  enabled s call := decide (s.now ≤ call.time) &&
    match call with
    | .enqueue .. => true
    | .dequeue t => s.isReady t
  exec s
    | .enqueue message t => do
        let (b, arrival_time) ← s.toWireBuffer.enqueue message t delta
        pure { s with
          toWireBuffer := b
          now := t
          sent := s.sent ++ [{ message with m_LastEnqueueTime := arrival_time }] }
    | .dequeue t => do
        let b ← s.toWireBuffer.dequeue t
        pure { s with
          toWireBuffer := b
          now := t
          received := s.received ++ s.toWireBuffer.peek.toList }

/-- A message that is put on the wire has a greater counter than those that arrive with it. -/
def CounterGrows (delta : ℕ) (s : WireRun) : WireCall → Prop
  | .enqueue message t => ∀ m ∈ s.m_message_queue, m.m_LastEnqueueTime = t + delta →
      m.m_msg_counter < message.m_msg_counter
  | .dequeue _ => True

instance (delta : ℕ) (s : WireRun) : ∀ call, Decidable (CounterGrows delta s call)
  | .enqueue .. => inferInstanceAs (Decidable (∀ m ∈ _, _ → _))
  | .dequeue _ => inferInstanceAs (Decidable True)

/-! ## What the calls keep -/

/-- The vector is a heap of the messages on the wire, which get greater in the order in which
they were sent. -/
structure WireRun.InOrder (delta : ℕ) (s : WireRun) : Prop where
  consumer : s.m_consumer = true
  waiting : ∃ l, s.sent = s.received ++ l ∧ s.m_message_queue.Perm l
    ∧ l.Pairwise (fun a b => b.greater a = true)
  heap : IsHeap Message.greater s.m_message_queue
  times : ∀ m ∈ s.m_message_queue, m.m_LastEnqueueTime ≤ s.now + delta

theorem WireRun.start_inOrder (delta : ℕ) : WireRun.start.InOrder delta where
  consumer := rfl
  waiting := ⟨[], rfl, .refl _, .nil⟩
  heap := fun _ _ _ _ h => nomatch h
  times := fun _ h => nomatch h

section Steps

variable {delta t : ℕ} {s s' : WireRun} {message : Message}

open Bindu.Garnet.Message (greater_strictWeak greater_eq_false)

theorem enqueue_inOrder (hs : s.InOrder delta) (ht : s.now ≤ t)
    (hC : CounterGrows delta s (.enqueue message t)) :
    let m : Message := { message with m_LastEnqueueTime := t + delta }
    WireRun.InOrder delta { s with
      m_msg_counter := s.m_msg_counter + 1
      m_message_queue := s.m_message_queue ++ [m]
      now := t
      sent := s.sent ++ [m] } := by
  intro m
  -- the new message is the greatest
  have hgreater : ∀ m' ∈ s.m_message_queue, m.greater m' = true := by
    intro m' hm'
    have htime := hs.times m' hm'
    rw [← Bool.not_eq_false, greater_eq_false]
    change ¬ (t + delta < _ ∨ t + delta = _ ∧ message.m_msg_counter ≤ _)
    have hcounter := hC m' hm'
    omega
  obtain ⟨l, hsent, hperm, hord⟩ := hs.waiting
  refine ⟨hs.consumer, ⟨l ++ [m], ?_, hperm.append_right [m], ?_⟩, ?_, ?_⟩
  · rw [hsent, append_assoc]
  · rw [pairwise_append]
    refine ⟨hord, pairwise_singleton _ m, fun a ha b hb => ?_⟩
    rw [mem_singleton.1 hb]
    exact hgreater a (hperm.symm.subset ha)
  · exact hs.heap.concat (fun y hy => greater_strictWeak.asymm m y (hgreater y hy))
  · intro m' hm'
    rcases mem_append.1 hm' with hm' | hm'
    · exact (hs.times m' hm').trans (by dsimp only; omega)
    · rw [mem_singleton.1 hm']

theorem dequeue_inOrder [StdHeap] {m : Message} {rest : List Message} (hs : s.InOrder delta)
    (ht : s.now ≤ t) (hqueue : s.m_message_queue = m :: rest) :
    WireRun.InOrder delta { s with
      m_message_queue := (StdHeap.pop_heap Message.greater s.m_message_queue).dropLast
      now := t
      received := s.received ++ [m] } := by
  obtain ⟨l, hsent, hperm, hord⟩ := hs.waiting
  have hheap := hs.heap
  have htimes := hs.times
  rw [hqueue] at hperm hheap htimes ⊢
  obtain ⟨rest', hpop, hrest⟩ := StdHeap.pop_last Message.greater m rest
  rw [hpop, dropLast_concat]
  -- the message in front was sent first
  obtain ⟨first, l', rfl⟩ := exists_cons_of_length_pos
    (hperm.length_eq ▸ Nat.succ_pos rest.length : 0 < l.length)
  obtain ⟨hfirst, hord'⟩ := pairwise_cons.1 hord
  obtain rfl := hheap.front_eq greater_strictWeak hperm hfirst
  refine ⟨hs.consumer, ⟨l', ?_, hrest.trans (perm_cons m |>.1 hperm), hord'⟩,
    StdHeap.pop_isHeap _ m rest rest' greater_strictWeak hheap hpop, ?_⟩
  · rw [hsent, append_assoc]
    rfl
  · intro m' hm'
    have hle := htimes m' (mem_cons_of_mem m (hrest.subset hm'))
    dsimp only
    omega

end Steps

section Runs

variable [StdHeap] {delta : ℕ} {s s' : WireRun} {call : WireCall} {calls : List WireCall}

/-- On a wire with a delay every call returns that may be made. -/
theorem wire_exec (hdelta : 0 < delta) (hs : s.InOrder delta)
    (hen : (wire delta).enabled s call = true) (hC : CounterGrows delta s call) :
    Ok (WireRun.InOrder delta) ⊥ ((wire delta).exec s call) := by
  obtain ⟨ht, hready⟩ := (Bool.and_eq_true _ _).mp hen
  have hle := of_decide_eq_true ht
  cases call with
  | enqueue message t =>
    have hlt : decide (t < t + delta) = true := decide_eq_true (by omega)
    have hconsumer : require s.m_consumer WireFault.no_consumer = .ok () := by
      rw [hs.consumer, require_true]
    dsimp only [wire, WireBuffer.enqueue]
    rw [hlt, hconsumer]
    exact enqueue_inOrder hs hle hC
  | dequeue t =>
    dsimp only at hready
    dsimp only [wire, WireBuffer.dequeue]
    rw [hready]
    cases hqueue : s.m_message_queue with
    | nil => simp [WireBuffer.isReady, hqueue] at hready
    | cons m rest =>
      have hpeek : s.toWireBuffer.peek = some m := by rw [WireBuffer.peek, hqueue]; rfl
      rw [hpeek, ← hqueue]
      exact dequeue_inOrder hs hle hqueue

theorem wire_inOrder (hdelta : 0 < delta)
    (hC : (wire delta).AllSteps (CounterGrows delta) .start calls)
    (h : (wire delta).run .start calls = some s) : s.InOrder delta := by
  refine Machine.run_keeps_of ?_ (WireRun.start_inOrder delta) hC h
  intro s call s' hs hcall hstep
  exact (wire_exec hdelta hs hstep.1 hcall).elim hstep.2

end Runs

/-- **A wire with growing counters is first-in first-out.** The messages taken from it are the
first ones that were put on it, in this order, and no call stops the simulation. -/
theorem wire_buffer_fifo [StdHeap] {delta : ℕ} (hdelta : 0 < delta) {calls : List WireCall}
    {s : WireRun} (hC : (wire delta).AllSteps (CounterGrows delta) .start calls)
    (h : (wire delta).run .start calls = some s) :
    s.received <+: s.sent ∧ ∀ call, (wire delta).enabled s call = true → CounterGrows delta s call →
      ∃ s', (wire delta).exec s call = .ok s' := by
  have hs := wire_inOrder hdelta hC h
  obtain ⟨l, hsent, -⟩ := hs.waiting
  refine ⟨⟨l, hsent.symm⟩, fun call hen hcall => ?_⟩
  exact (wire_exec hdelta hs hen hcall).returns.imp fun _ hr => hr.1

/-! ## Messages that arrive together -/

/-- A message with counter `c`. -/
def counted (c : ℕ) : Message where
  payload := c
  m_Destination := ∅
  m_time := 0
  m_LastEnqueueTime := 0
  m_msg_counter := c

/-- Three messages at tick 0, with counters `a`, `b` and `c`, and two dequeues at tick 1. -/
def threeTogether (a b c : ℕ) : List WireCall :=
  [.enqueue (counted a) 0, .enqueue (counted b) 0, .enqueue (counted c) 0, .dequeue 1, .dequeue 1]

theorem wire_buffer_fifo_together :
    let _ : StdHeap := sortedHeap
    ∃ s, (wire 1).run .start (threeTogether 1 2 3) = some s
      ∧ s.received.length = 2 ∧ s.received <+: s.sent := by
  intro _
  have hC : (wire 1).AllSteps (CounterGrows 1) .start (threeTogether 1 2 3) :=
    .of_check (by decide +kernel)
  obtain ⟨s, hrun, hlen⟩ := Machine.exists_of_run_any (wire 1) .start (threeTogether 1 2 3)
    (fun s => s.received.length = 2) (by decide +kernel)
  exact ⟨s, hrun, hlen, (wire_buffer_fifo Nat.one_pos hC hrun).1⟩

/-- **A wire that is not first-in first-out.** With counters 0, 2 and 1 the message sent last is
taken second, whatever the implementation of the heap does: the two messages that are left after
the first dequeue form a heap. -/
theorem threeTogether_reordered [StdHeap] :
    ∃ s, (wire 1).run .start (threeTogether 0 2 1) = some s ∧ ¬ s.received <+: s.sent := by
  -- the messages as they are on the wire
  let m (c : ℕ) : Message := { counted c with m_LastEnqueueTime := 1 }
  have hheap : IsHeap Message.greater [m 0, m 2, m 1] := by
    intro i hi x y hx hy
    have hlt : i < 3 := (List.getElem?_eq_some_iff.1 hy).1
    interval_cases i <;> cases hx <;> cases hy <;> rfl
  obtain ⟨l, hpop, hperm⟩ := StdHeap.pop_last Message.greater (m 0) [m 2, m 1]
  have hl := StdHeap.pop_isHeap _ _ _ _ Bindu.Garnet.Message.greater_strictWeak hheap hpop
  obtain ⟨first, rest, rfl⟩ := exists_cons_of_length_pos
    (hperm.length_eq ▸ Nat.two_pos : 0 < l.length)
  obtain rfl : first = m 1 := hl.front_eq Bindu.Garnet.Message.greater_strictWeak
    (hperm.trans (Perm.swap _ _ _)) (by decide)
  let s4 : WireRun := ⟨⟨3, true, m 1 :: rest⟩, 1, [m 0, m 2, m 1], [m 0]⟩
  have h4 : (wire 1).run .start [.enqueue (counted 0) 0, .enqueue (counted 2) 0,
      .enqueue (counted 1) 0, .dequeue 1] = some s4 := by
    change some (WireRun.mk ⟨3, true, (StdHeap.pop_heap Message.greater [m 0, m 2, m 1]).dropLast⟩
      1 [m 0, m 2, m 1] [m 0]) = _
    rw [hpop, dropLast_concat]
  refine ⟨_, Machine.run_concat.2 ⟨s4, h4, rfl, rfl⟩, ?_⟩
  change ¬ [m 0, m 1] <+: [m 0, m 2, m 1]
  decide

/-- The same with a heap that is kept sorted. -/
theorem wire_buffer_reorders :
    ∃ s, (@wire sortedHeap 1).run .start (threeTogether 0 2 1) = some s ∧ ¬ s.received <+: s.sent :=
  @threeTogether_reordered sortedHeap

end Bindu.Ruby
