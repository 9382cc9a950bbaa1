/-
`MessageBuffer` with its stall map.

A controller that cannot handle the message at the head of a buffer may set it aside under a
line address (`stallMessage`) and put it back later (`reanalyzeMessages`,
`reanalyzeAllMessages`). A stalled message still counts towards the capacity of the buffer.
The buffer reconstructs its size for `areNSlotsAvailable` from three figures: the size of the
heap at the first pop of a cycle, the number of messages enqueued in the cycle, and the number
of stalled messages. Putting messages back changes the last of them but neither of the others.

Source: `mem/ruby/network/MessageBuffer.cc`. Addresses are line addresses, and
`block_size_bits` is `RubySystem::getBlockSizeBits()`.
-/
import Bindu.Garnet.MessageBuffer

open Bindu.Lib List

namespace Bindu.Ruby

open Bindu.Garnet

/-! ## The buffer -/

/-- A message buffer with the messages that have been set aside: a `std::map` from addresses
to lists, as the list of its entries in the order of the keys. -/
structure StallBuffer extends MessageBuffer where
  m_stall_msg_map : List (ℕ × List Message)

namespace StallBuffer

/-- The constructor. -/
def new (buffer_size : ℕ) (ordered randomization : Bool) : StallBuffer where
  toMessageBuffer := .new buffer_size ordered randomization
  m_stall_msg_map := []

/-- The number of messages in the lists of a stall map. -/
def stalled (map : List (ℕ × List Message)) : ℕ := (map.map (fun e => e.2.length)).sum

/-- The number of messages a buffer holds. -/
def held (b : StallBuffer) : ℕ := b.m_prio_heap.length + stalled b.m_stall_msg_map

/-- `m_stall_msg_map[addr].push_back(message)`. -/
def pushStalled (addr : ℕ) (message : Message) : List (ℕ × List Message) → List (ℕ × List Message)
  | [] => [(addr, [message])]
  | e :: map =>
    if addr = e.1 then (e.1, e.2 ++ [message]) :: map
    else if addr < e.1 then (addr, [message]) :: e :: map
    else e :: pushStalled addr message map

variable [StdHeap]

def enqueue (b : StallBuffer) (warmup randomized : Bool) (message : Message)
    (current_time delta random_time : ℕ) : Except Fault StallBuffer := do
  let (m, _) ← b.toMessageBuffer.enqueue warmup randomized message current_time delta random_time
  pure { b with toMessageBuffer := m }

def dequeue (b : StallBuffer) (current_time : ℕ) : Except Fault StallBuffer := do
  let m ← b.toMessageBuffer.dequeue current_time
  pure { b with toMessageBuffer := m }

def stallMessage (block_size_bits : ℕ) (b : StallBuffer) (addr current_time : ℕ) :
    Except Fault StallBuffer := do
  assert (b.isReady current_time) .message_ready
  assert (addr % 2 ^ block_size_bits = 0) .stall_offset
  let message ← b.peekMsgPtr
  let b ← b.dequeue current_time
  pure { b with
    m_stall_msg_map := pushStalled addr message b.m_stall_msg_map
    m_stall_map_size := b.m_stall_map_size + 1 }

/-- The body of the loop of `reanalyzeList`: a stalled message goes back to the heap. -/
def reanalyze (schdTick : ℕ) (b : MessageBuffer) (m : Message) : MessageBuffer :=
  let m_msg_counter := b.m_msg_counter + 1
  let m := { m with m_LastEnqueueTime := schdTick, m_msg_counter := m_msg_counter }
  { b with
    m_prio_heap := StdHeap.push_heap Message.greater (b.m_prio_heap ++ [m])
    m_msg_counter := m_msg_counter }

def reanalyzeList (b : MessageBuffer) (lt : List Message) (schdTick : ℕ) : MessageBuffer :=
  lt.foldl (reanalyze schdTick) b

/-- What `reanalyzeMessages` and the body of the loop of `reanalyzeAllMessages` do with one
list of the map. -/
def putBack (current_time : ℕ) (b : MessageBuffer) (e : ℕ × List Message) :
    Except Fault MessageBuffer := do
  assert (e.2.length ≤ b.m_stall_map_size) .stall_map_size
  pure (reanalyzeList { b with m_stall_map_size := b.m_stall_map_size - e.2.length } e.2
    current_time)

def reanalyzeMessages (b : StallBuffer) (addr current_time : ℕ) : Except Fault StallBuffer :=
  match b.m_stall_msg_map.find? (fun e => e.1 = addr) with
  | none => throw .stall_map_count
  | some e => do
      let m ← putBack current_time b.toMessageBuffer e
      pure { b with
        toMessageBuffer := m
        m_stall_msg_map := b.m_stall_msg_map.eraseP (fun e => e.1 = addr) }

def reanalyzeAllMessages (b : StallBuffer) (current_time : ℕ) : Except Fault StallBuffer := do
  let m ← b.m_stall_msg_map.foldlM (putBack current_time) b.toMessageBuffer
  pure { b with toMessageBuffer := m, m_stall_msg_map := [] }

/-- `recycle`: the message at the head is to come again after `recycle_latency`. -/
def recycle (b : StallBuffer) (current_time recycle_latency : ℕ) : Except Fault StallBuffer := do
  assert (b.isReady current_time) .message_ready
  let node ← b.peekMsgPtr
  let rest := (StdHeap.pop_heap Message.greater b.m_prio_heap).dropLast
  let node := { node with m_LastEnqueueTime := current_time + recycle_latency }
  pure { b with m_prio_heap := StdHeap.push_heap Message.greater (rest ++ [node]) }

/-! ## What each operation does to the figures -/

/-- A message is popped at time `t`. The first pop of a cycle records the size of the heap. -/
structure Popped (t : ℕ) (b b' : MessageBuffer) : Prop where
  heap : b'.m_prio_heap.length + 1 = b.m_prio_heap.length
  last_pop : b'.m_time_last_time_pop
    = if b.m_time_last_time_pop < t then t else b.m_time_last_time_pop
  cycle_start : b'.m_size_at_cycle_start
    = if b.m_time_last_time_pop < t then b.m_prio_heap.length else b.m_size_at_cycle_start
  last_enqueue : b'.m_time_last_time_enqueue = b.m_time_last_time_enqueue
  msgs : b'.m_msgs_this_cycle = b.m_msgs_this_cycle
  max_size : b'.m_max_size = b.m_max_size

/-- `k` messages come back to the heap, which neither of the figures of the cycle shows. -/
structure PutBack (k : ℕ) (b b' : MessageBuffer) : Prop where
  heap : b'.m_prio_heap.length = b.m_prio_heap.length + k
  last_pop : b'.m_time_last_time_pop = b.m_time_last_time_pop
  cycle_start : b'.m_size_at_cycle_start = b.m_size_at_cycle_start
  last_enqueue : b'.m_time_last_time_enqueue = b.m_time_last_time_enqueue
  msgs : b'.m_msgs_this_cycle = b.m_msgs_this_cycle
  stall_size : b'.m_stall_map_size + k = b.m_stall_map_size
  max_size : b'.m_max_size = b.m_max_size

/-- A message is enqueued at time `t`. -/
structure Enqueued (t : ℕ) (b b' : MessageBuffer) : Prop where
  heap : b'.m_prio_heap.length = b.m_prio_heap.length + 1
  last_pop : b'.m_time_last_time_pop = b.m_time_last_time_pop
  cycle_start : b'.m_size_at_cycle_start = b.m_size_at_cycle_start
  last_enqueue : b'.m_time_last_time_enqueue
    = if b.m_time_last_time_enqueue < t then t else b.m_time_last_time_enqueue
  msgs : b'.m_msgs_this_cycle
    = (if b.m_time_last_time_enqueue < t then 0 else b.m_msgs_this_cycle) + 1
  stall_size : b'.m_stall_map_size = b.m_stall_map_size
  max_size : b'.m_max_size = b.m_max_size

theorem length_push_heap (l : List Message) (m : Message) :
    (StdHeap.push_heap Message.greater (l ++ [m])).length = l.length + 1 := by
  rw [(StdHeap.push_perm Message.greater (l ++ [m])).length_eq, length_append]
  rfl

theorem length_pop_heap {l : List Message} (h : l ≠ []) :
    (StdHeap.pop_heap Message.greater l).dropLast.length + 1 = l.length := by
  obtain ⟨m, rest, rfl⟩ := exists_cons_of_ne_nil h
  obtain ⟨l', hl', hperm⟩ := StdHeap.pop_last Message.greater m rest
  rw [hl', dropLast_concat, hperm.length_eq, length_cons]

omit [StdHeap] in
theorem heap_ne_nil {b : MessageBuffer} {t : ℕ} (h : b.isReady t = true) : b.m_prio_heap ≠ [] := by
  intro hnil
  rw [MessageBuffer.isReady, hnil] at h
  cases h

theorem enqueue_spec (b : MessageBuffer) (warmup randomized : Bool) (message : Message)
    (t delta random_time : ℕ) :
    Ok (fun x : MessageBuffer × ℕ => Enqueued t b x.1) ⊤
      (b.enqueue warmup randomized message t delta random_time) := by
  unfold MessageBuffer.enqueue
  refine Ok.skip (fun _ => ?_)
  refine Ok.skip (fun _ => ?_)
  refine Ok.skip (fun _ => ?_)
  refine Ok.skip (fun _ => ?_)
  exact ⟨length_push_heap _ _, rfl, rfl, rfl, rfl, rfl, rfl⟩

theorem dequeue_spec (b : MessageBuffer) (t : ℕ) :
    Ok (fun b' => Popped t b b' ∧ b'.m_stall_map_size = b.m_stall_map_size) ⊤ (b.dequeue t) := by
  unfold MessageBuffer.dequeue
  cases hready : b.isReady t with
  | false => trivial
  | true =>
    exact ⟨⟨length_pop_heap (heap_ne_nil hready), rfl, rfl, rfl, rfl, rfl⟩, rfl⟩

theorem reanalyzeList_spec (t : ℕ) : ∀ (lt : List Message) (b : MessageBuffer),
    (reanalyzeList b lt t).m_prio_heap.length = b.m_prio_heap.length + lt.length
      ∧ (reanalyzeList b lt t).m_time_last_time_pop = b.m_time_last_time_pop
      ∧ (reanalyzeList b lt t).m_size_at_cycle_start = b.m_size_at_cycle_start
      ∧ (reanalyzeList b lt t).m_time_last_time_enqueue = b.m_time_last_time_enqueue
      ∧ (reanalyzeList b lt t).m_msgs_this_cycle = b.m_msgs_this_cycle
      ∧ (reanalyzeList b lt t).m_stall_map_size = b.m_stall_map_size
      ∧ (reanalyzeList b lt t).m_max_size = b.m_max_size := by
  intro lt
  induction lt with
  | nil => intro b; exact ⟨rfl, rfl, rfl, rfl, rfl, rfl, rfl⟩
  | cons m lt ih =>
    intro b
    obtain ⟨hheap, hrest⟩ := ih (reanalyze t b m)
    refine ⟨?_, hrest⟩
    rw [show reanalyzeList b (m :: lt) t = reanalyzeList (reanalyze t b m) lt t from rfl, hheap]
    simp only [reanalyze, length_push_heap, length_cons]
    omega

theorem putBack_spec (t : ℕ) (b : MessageBuffer) (e : ℕ × List Message) :
    Ok (PutBack e.2.length b) ⊤ (putBack t b e) := by
  unfold putBack
  by_cases hle : e.2.length ≤ b.m_stall_map_size
  · rw [decide_eq_true hle, assert_true, ok_bind]
    obtain ⟨hheap, hpop, hstart, henq, hmsgs, hstall, hmax⟩ := reanalyzeList_spec t e.2
      { b with m_stall_map_size := b.m_stall_map_size - e.2.length }
    refine ⟨hheap, hpop, hstart, henq, hmsgs, ?_, hmax⟩
    rw [hstall]
    exact Nat.sub_add_cancel hle
  · rw [decide_eq_false hle]
    trivial

omit [StdHeap] in
theorem PutBack.trans {j k : ℕ} {b b' b'' : MessageBuffer} (h : PutBack j b b')
    (h' : PutBack k b' b'') : PutBack (j + k) b b'' where
  heap := by rw [h'.heap, h.heap, Nat.add_assoc]
  last_pop := h'.last_pop.trans h.last_pop
  cycle_start := h'.cycle_start.trans h.cycle_start
  last_enqueue := h'.last_enqueue.trans h.last_enqueue
  msgs := h'.msgs.trans h.msgs
  stall_size := by rw [← h.stall_size, ← h'.stall_size]; omega
  max_size := h'.max_size.trans h.max_size

theorem putBack_all_spec (t : ℕ) : ∀ (map : List (ℕ × List Message)) (b : MessageBuffer),
    Ok (PutBack (stalled map) b) ⊤ (map.foldlM (putBack t) b) := by
  intro map
  induction map with
  | nil => intro b; exact ⟨rfl, rfl, rfl, rfl, rfl, rfl, rfl⟩
  | cons e map ih =>
    intro b
    rw [foldlM_cons]
    refine (putBack_spec t b e).bind (fun b' h => ?_)
    refine (ih b').imp (fun b'' h' => ?_)
    have hsum : stalled (e :: map) = e.2.length + stalled map := by
      rw [stalled, map_cons, sum_cons, stalled]
    rw [hsum]
    exact h.trans h'

omit [StdHeap] in
theorem stalled_pushStalled (addr : ℕ) (message : Message) (map : List (ℕ × List Message)) :
    stalled (pushStalled addr message map) = stalled map + 1 := by
  induction map with
  | nil => rfl
  | cons e map ih =>
    unfold pushStalled
    split_ifs
    · simp only [stalled, map_cons, sum_cons, length_append, length_singleton]
      omega
    · simp only [stalled, map_cons, sum_cons, length_singleton]
      omega
    · simp only [stalled, map_cons, sum_cons] at ih ⊢
      omega

omit [StdHeap] in
theorem stalled_eraseP {addr : ℕ} {e : ℕ × List Message} {map : List (ℕ × List Message)}
    (h : map.find? (fun e => e.1 = addr) = some e) :
    stalled (map.eraseP (fun e => e.1 = addr)) + e.2.length = stalled map := by
  induction map with
  | nil => exact absurd h (by simp)
  | cons x map ih =>
    by_cases hx : x.1 = addr
    · rw [find?_cons_of_pos (by simpa using hx), Option.some.injEq] at h
      rw [eraseP_cons_of_pos (by simpa using hx), ← h]
      simp only [stalled, map_cons, sum_cons]
      omega
    · rw [find?_cons_of_neg (by simpa using hx)] at h
      rw [eraseP_cons_of_neg (by simpa using hx)]
      have hih := ih h
      simp only [stalled, map_cons, sum_cons] at hih ⊢
      omega

end StallBuffer

/-! ## Runs -/

/-- The operations on a buffer. The outcomes of `RubySystem::getWarmupEnabled()`, of the
randomization flags and of `random_time()` are given with an enqueue. -/
inductive BufferOp
  | enqueue (warmup randomized : Bool) (message : Message) (delta random_time : ℕ)
  | dequeue
  | stallMessage (addr : ℕ)
  | reanalyzeMessages (addr : ℕ)
  | reanalyzeAllMessages
  | recycle (recycle_latency : ℕ)

namespace BufferOp

def isEnqueue : BufferOp → Bool
  | .enqueue .. => true
  | _ => false

/-- The operation at time `t`. -/
def apply [StdHeap] (block_size_bits : ℕ) (b : StallBuffer) (t : ℕ) :
    BufferOp → Except Fault StallBuffer
  | .enqueue warmup randomized message delta random_time =>
    b.enqueue warmup randomized message t delta random_time
  | .dequeue => b.dequeue t
  | .stallMessage addr => b.stallMessage block_size_bits addr t
  | .reanalyzeMessages addr => b.reanalyzeMessages addr t
  | .reanalyzeAllMessages => b.reanalyzeAllMessages t
  | .recycle recycle_latency => b.recycle t recycle_latency

end BufferOp

/-- What has happened since the first pop of the cycle in which a message was last popped: how
many messages have been popped, and how many have been put back. -/
structure Tally where
  popped : ℕ
  putBack : ℕ

/-- The tally after an operation at time `t` that made `b'` of `b`. -/
def Tally.after (tally : Tally) (t : ℕ) (b b' : StallBuffer) : BufferOp → Tally
  | .dequeue | .stallMessage _ =>
    if b.m_time_last_time_pop < t then ⟨1, 0⟩ else ⟨tally.popped + 1, tally.putBack⟩
  | .reanalyzeMessages _ | .reanalyzeAllMessages =>
    ⟨tally.popped, tally.putBack + (b'.m_prio_heap.length - b.m_prio_heap.length)⟩
  | .enqueue .. | .recycle _ => tally

/-- A sequence of calls with non-decreasing times in which every enqueue finds a slot, up to
buffer `b` at time `t`, all of whose calls meet `C`. -/
inductive BufferRun [StdHeap] (C : Tally → StallBuffer → ℕ → BufferOp → Prop)
    (block_size_bits buffer_size : ℕ) (ordered randomization : Bool) :
    StallBuffer → Tally → ℕ → Prop
  | start : BufferRun C block_size_bits buffer_size ordered randomization
      (.new buffer_size ordered randomization) ⟨0, 0⟩ 0
  | call (b b' : StallBuffer) (tally : Tally) (t t' : ℕ) (op : BufferOp)
      (run : BufferRun C block_size_bits buffer_size ordered randomization b tally t)
      (time : t ≤ t')
      (slot : op.isEnqueue = true → b.areNSlotsAvailable 1 t' = true)
      (cond : C tally b t' op) (returns : op.apply block_size_bits b t' = .ok b') :
      BufferRun C block_size_bits buffer_size ordered randomization b' (tally.after t' b b' op) t'

/-- An enqueue in a cycle in which messages have been popped comes when no more of them have
been put back since than popped. -/
def Balanced (tally : Tally) (b : StallBuffer) (t : ℕ) (op : BufferOp) : Prop :=
  op.isEnqueue = true → b.m_time_last_time_pop = t → tally.putBack ≤ tally.popped

instance (tally : Tally) (b : StallBuffer) (t : ℕ) (op : BufferOp) :
    Decidable (Balanced tally b t op) :=
  inferInstanceAs (Decidable (_ → _ → _))

/-! ## The capacity -/

/-- The figures of a buffer in the cycle of the last pop: the heap has grown by no more than
what was put back or enqueued since. The figures say nothing once a later cycle has seen an
enqueue, and nothing is read off them then. -/
structure Figures (buffer_size : ℕ) (b : StallBuffer) (tally : Tally) (t : ℕ) : Prop where
  max_size : b.m_max_size = buffer_size
  stall_size : b.m_stall_map_size = StallBuffer.stalled b.m_stall_msg_map
  last_pop_le : b.m_time_last_time_pop ≤ t
  last_enqueue_le : b.m_time_last_time_enqueue ≤ t
  no_enqueue : b.m_time_last_time_enqueue < b.m_time_last_time_pop →
    b.m_prio_heap.length + tally.popped ≤ b.m_size_at_cycle_start + tally.putBack
  enqueue : b.m_time_last_time_enqueue = b.m_time_last_time_pop →
    b.m_prio_heap.length + tally.popped
      ≤ b.m_size_at_cycle_start + tally.putBack + b.m_msgs_this_cycle
  held_le : b.held ≤ buffer_size

section Capacity

variable {b b' : StallBuffer} {tally : Tally} {t t' buffer_size : ℕ}

/-- A slot that `areNSlotsAvailable` sees is there, if the cycle is balanced. -/
theorem Figures.slot (h : Figures buffer_size b tally t) (ht : t ≤ t') (hpos : 0 < buffer_size)
    (hslot : b.areNSlotsAvailable 1 t' = true)
    (hbal : b.m_time_last_time_pop = t' → tally.putBack ≤ tally.popped) :
    b.held + 1 ≤ buffer_size := by
  have hmax := h.max_size
  have hpop := h.last_pop_le
  have henq := h.last_enqueue_le
  have hno := h.no_enqueue
  have heq := h.enqueue
  unfold StallBuffer.held
  rw [← h.stall_size]
  unfold MessageBuffer.areNSlotsAvailable at hslot
  rw [hmax, if_neg hpos.ne'] at hslot
  split_ifs at hslot with hlt hlt'
  · rw [decide_eq_true_eq] at hslot
    omega
  · -- the last pop was in this cycle, and no message has been enqueued in it
    rw [decide_eq_true_eq] at hslot
    have hnow : b.m_time_last_time_pop = t' := by omega
    have hle := hno (by omega)
    have := hbal hnow
    omega
  · rw [decide_eq_true_eq] at hslot
    have hnow : b.m_time_last_time_pop = t' := by omega
    have := hbal hnow
    omega

theorem Figures.popped (h : Figures buffer_size b tally t) (ht : t ≤ t')
    (hp : StallBuffer.Popped t' b.toMessageBuffer b'.toMessageBuffer)
    (hstall : b'.m_stall_map_size = StallBuffer.stalled b'.m_stall_msg_map)
    (hheld : b'.held ≤ b.held) :
    Figures buffer_size b'
      (if b.m_time_last_time_pop < t' then ⟨1, 0⟩ else ⟨tally.popped + 1, tally.putBack⟩) t' := by
  have hheap := hp.heap
  have hpop := h.last_pop_le
  have henq := h.last_enqueue_le
  have hno := h.no_enqueue
  have heq := h.enqueue
  refine ⟨hp.max_size.trans h.max_size, hstall, ?_, ?_, ?_, ?_, hheld.trans h.held_le⟩
  · rw [hp.last_pop]
    split_ifs <;> omega
  · rw [hp.last_enqueue]
    omega
  · rw [hp.last_pop, hp.last_enqueue, hp.cycle_start]
    split_ifs with hlt <;> intro hlt' <;> dsimp only <;> omega
  · rw [hp.last_pop, hp.last_enqueue, hp.cycle_start, hp.msgs]
    split_ifs with hlt <;> intro hlt' <;> dsimp only <;> omega

theorem Figures.putBack (h : Figures buffer_size b tally t) (ht : t ≤ t') {k : ℕ}
    (hp : StallBuffer.PutBack k b.toMessageBuffer b'.toMessageBuffer)
    (hk : StallBuffer.stalled b'.m_stall_msg_map + k = StallBuffer.stalled b.m_stall_msg_map) :
    Figures buffer_size b'
      ⟨tally.popped, tally.putBack + (b'.m_prio_heap.length - b.m_prio_heap.length)⟩ t' := by
  have hheap := hp.heap
  have hstall := hp.stall_size
  have hstall' := h.stall_size
  have hno := h.no_enqueue
  have heq := h.enqueue
  have hcap := h.held_le
  refine ⟨hp.max_size.trans h.max_size, by omega, ?_, ?_, ?_, ?_, ?_⟩
  · rw [hp.last_pop]
    exact h.last_pop_le.trans ht
  · rw [hp.last_enqueue]
    exact h.last_enqueue_le.trans ht
  · rw [hp.last_pop, hp.last_enqueue, hp.cycle_start]
    intro hlt
    have := hno hlt
    dsimp only
    omega
  · rw [hp.last_pop, hp.last_enqueue, hp.cycle_start, hp.msgs]
    intro hlt
    have := heq hlt
    dsimp only
    omega
  · unfold StallBuffer.held at hcap ⊢
    omega

theorem Figures.enqueued (h : Figures buffer_size b tally t) (ht : t ≤ t')
    (hp : StallBuffer.Enqueued t' b.toMessageBuffer b'.toMessageBuffer)
    (hmap : b'.m_stall_msg_map = b.m_stall_msg_map) (hslot : b.held + 1 ≤ buffer_size) :
    Figures buffer_size b' tally t' := by
  have hheap := hp.heap
  have hpop := h.last_pop_le
  have henq := h.last_enqueue_le
  have hno := h.no_enqueue
  have heq := h.enqueue
  refine ⟨hp.max_size.trans h.max_size, ?_, ?_, ?_, ?_, ?_, ?_⟩
  · rw [hp.stall_size, h.stall_size, hmap]
  · rw [hp.last_pop]
    omega
  · rw [hp.last_enqueue]
    split_ifs <;> omega
  · rw [hp.last_pop, hp.last_enqueue, hp.cycle_start]
    split_ifs with hlt <;> intro hlt' <;> omega
  · rw [hp.last_pop, hp.last_enqueue, hp.cycle_start, hp.msgs]
    -- the first enqueue of the cycle starts the count afresh
    split_ifs with hlt
    · intro hlt'
      have := hno (by omega)
      omega
    · intro hlt'
      have := heq hlt'
      omega
  · unfold StallBuffer.held at hslot ⊢
    rw [hmap]
    omega

variable [StdHeap]

/-- **One call.** An operation keeps the figures, if an enqueue finds a slot. -/
theorem Figures.apply (h : Figures buffer_size b tally t) (ht : t ≤ t') {block_size_bits : ℕ}
    {op : BufferOp} (hslot : op.isEnqueue = true → b.held + 1 ≤ buffer_size)
    (hret : op.apply block_size_bits b t' = .ok b') :
    Figures buffer_size b' (tally.after t' b b' op) t' := by
  cases op with
  | enqueue warmup randomized message delta random_time =>
    obtain ⟨x, hx, hb'⟩ := bind_eq_ok.mp hret
    cases hb'
    exact h.enqueued ht ((StallBuffer.enqueue_spec ..).elim hx) rfl (hslot rfl)
  | dequeue =>
    obtain ⟨m, hm, hb'⟩ := bind_eq_ok.mp hret
    cases hb'
    obtain ⟨hpop, hsize⟩ := (StallBuffer.dequeue_spec b.toMessageBuffer t').elim hm
    have hheap := hpop.heap
    refine h.popped ht hpop (hsize.trans h.stall_size) ?_
    unfold StallBuffer.held
    dsimp only
    omega
  | stallMessage addr =>
    obtain ⟨_, -, hret⟩ := bind_eq_ok.mp hret
    obtain ⟨_, -, hret⟩ := bind_eq_ok.mp hret
    obtain ⟨message, -, hret⟩ := bind_eq_ok.mp hret
    obtain ⟨b1, hb1, hb'⟩ := bind_eq_ok.mp hret
    obtain ⟨m, hm, hb1'⟩ := bind_eq_ok.mp hb1
    cases hb1'
    cases hb'
    obtain ⟨hpop, hsize⟩ := (StallBuffer.dequeue_spec b.toMessageBuffer t').elim hm
    have hheap := hpop.heap
    have hpush := StallBuffer.stalled_pushStalled addr message b.m_stall_msg_map
    refine h.popped ht ⟨hheap, hpop.last_pop, hpop.cycle_start, hpop.last_enqueue, hpop.msgs,
      hpop.max_size⟩ ?_ ?_
    · dsimp only
      rw [hpush, hsize, h.stall_size]
    · unfold StallBuffer.held
      dsimp only
      omega
  | reanalyzeMessages addr =>
    simp only [BufferOp.apply, StallBuffer.reanalyzeMessages] at hret
    split at hret
    · cases hret
    · rename_i e hfind
      obtain ⟨m, hm, hb'⟩ := bind_eq_ok.mp hret
      cases hb'
      exact h.putBack ht ((StallBuffer.putBack_spec t' b.toMessageBuffer e).elim hm)
        (StallBuffer.stalled_eraseP hfind)
  | reanalyzeAllMessages =>
    obtain ⟨m, hm, hb'⟩ := bind_eq_ok.mp hret
    cases hb'
    refine h.putBack ht
      ((StallBuffer.putBack_all_spec t' b.m_stall_msg_map b.toMessageBuffer).elim hm) ?_
    exact Nat.zero_add _
  | recycle recycle_latency =>
    obtain ⟨_, hready, hret⟩ := bind_eq_ok.mp hret
    obtain ⟨node, -, hb'⟩ := bind_eq_ok.mp hret
    cases hb'
    have hheap := StallBuffer.length_pop_heap (StallBuffer.heap_ne_nil (assert_ok_iff.mp hready))
    have hlen : ∀ m, (StdHeap.push_heap Message.greater
        ((StdHeap.pop_heap Message.greater b.m_prio_heap).dropLast ++ [m])).length
          = b.m_prio_heap.length := by
      intro m
      rw [StallBuffer.length_push_heap, hheap]
    refine ⟨h.max_size, h.stall_size, h.last_pop_le.trans ht, h.last_enqueue_le.trans ht, ?_, ?_,
      ?_⟩
    · dsimp only
      rw [hlen]
      exact h.no_enqueue
    · dsimp only
      rw [hlen]
      exact h.enqueue
    · unfold StallBuffer.held
      rw [hlen]
      exact h.held_le

/-- **The capacity.** A buffer of which every enqueue is preceded by a successful
`areNSlotsAvailable` never holds more than `m_max_size` messages, if its cycles are balanced. -/
theorem held_le_max_size {block_size_bits buffer_size : ℕ} {ordered randomization : Bool}
    (hpos : 0 < buffer_size) {b : StallBuffer} {tally : Tally} {t : ℕ}
    (run : BufferRun Balanced block_size_bits buffer_size ordered randomization b tally t) :
    b.held ≤ b.m_max_size ∧ b.m_max_size = buffer_size := by
  have h : Figures buffer_size b tally t := by
    induction run with
    | start =>
      refine ⟨rfl, rfl, le_refl 0, le_refl 0, fun _ => le_refl 0, fun _ => le_refl 0, ?_⟩
      exact Nat.zero_le _
    | call b b' tally t t' op run time slot cond returns ih =>
      exact ih.apply time (fun henq => ih.slot time hpos (slot henq) (cond henq)) returns
  exact ⟨h.max_size ▸ h.held_le, h.max_size⟩

end Capacity

/-! ## Concrete runs -/

section Concrete

variable [StdHeap]

/-- Make the calls one after the other, if each of them is allowed and returns. -/
def runCalls (C : Tally → StallBuffer → ℕ → BufferOp → Prop) [∀ tl b t op, Decidable (C tl b t op)]
    (block_size_bits : ℕ) :
    List (ℕ × BufferOp) → StallBuffer × Tally × ℕ → Option (StallBuffer × Tally × ℕ)
  | [], st => some st
  | (t', op) :: calls, (b, tally, t) =>
    if t ≤ t' ∧ (op.isEnqueue = true → b.areNSlotsAvailable 1 t' = true) ∧ C tally b t' op then
      match op.apply block_size_bits b t' with
      | .error _ => none
      | .ok b' => runCalls C block_size_bits calls (b', tally.after t' b b' op, t')
    else
      none

theorem bufferRun_of_runCalls {C : Tally → StallBuffer → ℕ → BufferOp → Prop}
    [∀ tl b t op, Decidable (C tl b t op)] {block_size_bits buffer_size : ℕ}
    {ordered randomization : Bool} :
    ∀ (calls : List (ℕ × BufferOp)) (st st' : StallBuffer × Tally × ℕ),
      BufferRun C block_size_bits buffer_size ordered randomization st.1 st.2.1 st.2.2 →
      runCalls C block_size_bits calls st = some st' →
      BufferRun C block_size_bits buffer_size ordered randomization st'.1 st'.2.1 st'.2.2 := by
  intro calls
  induction calls with
  | nil =>
    intro st st' run h
    injection h with h
    rw [← h]
    exact run
  | cons call calls ih =>
    rintro ⟨b, tally, t⟩ st' run h
    unfold runCalls at h
    split at h
    · rename_i hallowed
      split at h
      · simp at h
      · rename_i b' hret
        exact ih _ _ (.call b b' tally t _ _ run hallowed.1 hallowed.2.1 hallowed.2.2 hret) h
    · simp at h

end Concrete

/-- A message that has just been made, at time `t`. -/
def plainMessage (t : ℕ) : Message := ⟨0, ∅, t, 0, 0⟩

/-- A message is enqueued with a delay of one cycle and no randomization. -/
def plainEnqueue (t : ℕ) : BufferOp := .enqueue false false (plainMessage t) 1 0

/-- Three messages arrive, two of them are set aside, and in cycle 2 the third is popped, the
two are put back and two more are enqueued. -/
def overfilling : List (ℕ × BufferOp) :=
  [(0, plainEnqueue 0), (0, plainEnqueue 0), (0, plainEnqueue 0), (1, .stallMessage 0),
    (1, .stallMessage 0), (2, .dequeue), (2, .reanalyzeMessages 0), (2, plainEnqueue 2),
    (2, plainEnqueue 2)]

/-- **The failure.** A buffer for three messages comes to hold four, although every enqueue
is preceded by a successful `areNSlotsAvailable`. -/
theorem overfilled_buffer :
    ∃ (b : StallBuffer) (tally : Tally) (t : ℕ),
      @BufferRun sortedHeap (fun _ _ _ _ => True) 6 3 false false b tally t ∧ b.m_max_size = 3
        ∧ b.held = 4 := by
  have h : ((@runCalls sortedHeap (fun _ _ _ _ => True) _ 6 overfilling
      (StallBuffer.new 3 false false, ⟨0, 0⟩, 0)).map
        (fun st => (st.1.m_max_size, st.1.held))) = some (3, 4) := by decide +kernel
  obtain ⟨st, hst, heq⟩ := Option.map_eq_some_iff.mp h
  rw [Prod.mk.injEq] at heq
  have run : @BufferRun sortedHeap (fun _ _ _ _ => True) 6 3 false false st.1 st.2.1 st.2.2 :=
    @bufferRun_of_runCalls sortedHeap _ _ _ _ _ _ _ _ _ (@BufferRun.start sortedHeap ..) hst
  exact ⟨st.1, st.2.1, st.2.2, run, heq.1, heq.2⟩

/-- The same calls with one enqueue instead of two, and that in the next cycle, in which
nothing has been popped. -/
def filling : List (ℕ × BufferOp) := overfilling.take 7 ++ [(3, plainEnqueue 3)]

theorem held_le_max_size_filling :
    ∃ (b : StallBuffer) (tally : Tally) (t : ℕ),
      @BufferRun sortedHeap Balanced 6 3 false false b tally t ∧ b.held = 3
        ∧ b.held ≤ b.m_max_size ∧ b.m_max_size = 3 := by
  have h : ((@runCalls sortedHeap Balanced _ 6 filling
      (StallBuffer.new 3 false false, ⟨0, 0⟩, 0)).map (fun st => st.1.held)) = some 3 := by
    decide +kernel
  obtain ⟨st, hst, heq⟩ := Option.map_eq_some_iff.mp h
  have run : @BufferRun sortedHeap Balanced 6 3 false false st.1 st.2.1 st.2.2 :=
    @bufferRun_of_runCalls sortedHeap _ _ _ _ _ _ _ _ _ (@BufferRun.start sortedHeap ..) hst
  exact ⟨st.1, st.2.1, st.2.2, run, heq, @held_le_max_size sortedHeap _ _ _ _ (by decide) _ _ _ run⟩

end Bindu.Ruby
