/-
What is in a message buffer: the heap of `MessageBuffer::enqueue` and `MessageBuffer::dequeue`.

An enqueue stamps the message with its arrival time and the next value of the counter of the
buffer, and adds it to the heap. A dequeue takes the message at the head away. The comparison
`operator>` of messages is a strict weak ordering, and a total one on stamped messages, so the
head of the heap is its smallest message.

Sources: `mem/ruby/network/MessageBuffer.cc`, `slicc_interface/Message.hh`.
-/
import Bindu.Garnet.MessageBuffer

open Bindu.Lib

namespace Bindu.Garnet

namespace Message

/-- `message` as `enqueue` leaves it. -/
def stamped (message : Message) (arrival_time counter : ℕ) : Message :=
  { message with m_LastEnqueueTime := arrival_time, m_msg_counter := counter }

/-- The order of the heap, smaller first: by arrival time, then by counter. -/
theorem greater_eq_false {l r : Message} :
    l.greater r = false ↔ l.m_LastEnqueueTime < r.m_LastEnqueueTime
      ∨ (l.m_LastEnqueueTime = r.m_LastEnqueueTime ∧ l.m_msg_counter ≤ r.m_msg_counter) := by
  unfold greater
  split
  · rw [decide_eq_false_iff_not]
    omega
  · rw [decide_eq_false_iff_not]
    omega

theorem greater_strictWeak : StrictWeak greater where
  asymm := by
    intro a b hab
    rw [greater_eq_false]
    by_contra hba
    rw [← Bool.not_eq_false, greater_eq_false] at hab
    omega
  trans := by
    intro a b c hab hbc
    rw [greater_eq_false] at hab hbc ⊢
    omega

end Message

namespace MessageBuffer

variable {b b' : MessageBuffer} {t : ℕ}

theorem isReady_iff :
    b.isReady t = true ↔ ∃ m rest, b.m_prio_heap = m :: rest ∧ m.m_LastEnqueueTime ≤ t := by
  unfold isReady
  cases b.m_prio_heap with
  | nil => simp
  | cons m rest => simp

theorem peekMsgPtr_eq_ok {m : Message} :
    b.peekMsgPtr = .ok m ↔ ∃ rest, b.m_prio_heap = m :: rest := by
  unfold peekMsgPtr
  cases b.m_prio_heap with
  | nil => simp [throw, throwThe, MonadExceptOf.throw]
  | cons m' rest => simp [pure, Except.pure]

/-- What an enqueue of `message` at time `t` does to the heap. -/
structure Added (message : Message) (t : ℕ) (b b' : MessageBuffer) (arrival_time : ℕ) : Prop where
  later : t < arrival_time
  heap : b'.m_prio_heap.Perm (message.stamped arrival_time (b.m_msg_counter + 1) :: b.m_prio_heap)
  counter : b'.m_msg_counter = b.m_msg_counter + 1

variable [StdHeap]

theorem enqueue_added (b : MessageBuffer) (warmup randomized : Bool) (message : Message)
    (t delta random_time : ℕ) :
    Ok (fun x => Added message t b x.1 x.2) ⊤
      (b.enqueue warmup randomized message t delta random_time) := by
  unfold enqueue
  refine Ok.skip (fun _ => ?_)
  dsimp only
  cases hlt : decide (t < b.arrivalTime randomized t delta random_time) with
  | false => trivial
  | true =>
    rw [assert_true, ok_bind]
    refine Ok.skip (fun _ => Ok.skip (fun _ => ?_))
    refine ⟨of_decide_eq_true hlt, ?_, rfl⟩
    exact (StdHeap.push_perm _ _).trans (List.perm_append_singleton _ _)

/-- What a dequeue at time `t` does to the heap: the message at its head is gone. -/
structure Removed (m : Message) (t : ℕ) (b b' : MessageBuffer) : Prop where
  ready : m.m_LastEnqueueTime ≤ t
  head : ∃ rest, b.m_prio_heap = m :: rest ∧ b'.m_prio_heap.Perm rest
  counter : b'.m_msg_counter = b.m_msg_counter

theorem dequeue_removed (b : MessageBuffer) (t : ℕ) :
    Ok (fun b' => ∃ m, Removed m t b b') ⊤ (b.dequeue t) := by
  unfold dequeue
  cases hready : b.isReady t with
  | false => trivial
  | true =>
    obtain ⟨m, rest, hheap, hle⟩ := isReady_iff.1 hready
    obtain ⟨l', hl', hperm⟩ := StdHeap.pop_last Message.greater m rest
    refine ⟨m, hle, ⟨rest, hheap, ?_⟩, rfl⟩
    rw [hheap, hl', List.dropLast_concat]
    exact hperm

theorem dequeue_ready {m : Message} {rest : List Message} (hheap : b.m_prio_heap = m :: rest)
    (hready : m.m_LastEnqueueTime ≤ t) :
    Ok (fun b' => Removed m t b b') ⊥ (b.dequeue t) := by
  have hremoved := dequeue_removed b t
  have hisReady : b.isReady t = true := isReady_iff.2 ⟨m, rest, hheap, hready⟩
  unfold dequeue at hremoved ⊢
  rw [hisReady] at hremoved ⊢
  obtain ⟨m', h⟩ := hremoved
  obtain ⟨rest', hheap', -⟩ := h.head
  rw [hheap, List.cons.injEq] at hheap'
  rw [← hheap'.1] at h
  exact h

end MessageBuffer

end Bindu.Garnet
