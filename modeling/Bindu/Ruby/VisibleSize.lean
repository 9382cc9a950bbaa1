/-
The size of a `MessageBuffer` within a cycle.

`areNSlotsAvailable` is meant to see the messages that were in the heap at the start of the cycle
and those enqueued in it, whatever has been popped. It gets there from the size of the heap at the
first pop of the cycle and the number of messages enqueued in it. A message that is enqueued
before the first pop is in both figures, so it counts twice. That is the whole difference: the
size `areNSlotsAvailable` works with is the intended one plus the number of messages enqueued in
the cycle before its first pop.

The sum it compares with the capacity is an `unsigned int`, and wraps.
-/
import Mathlib.Data.List.TakeWhile
import Bindu.Lib.Runs
import Bindu.Ruby.StallMap

open Bindu.Lib List Machine

namespace Bindu.Ruby

open Bindu.Garnet StallBuffer

/-! ## The comparison in 32 bits -/

/-- `current_size`. -/
def currentSize (b : MessageBuffer) (current_time : ℕ) : ℕ :=
  if b.m_time_last_time_pop < current_time then b.m_prio_heap.length
  else if b.m_time_last_time_enqueue < current_time then b.m_size_at_cycle_start
  else b.m_size_at_cycle_start + b.m_msgs_this_cycle

/-- `areNSlotsAvailable`, with the sum in the 32 bits the source has for it. -/
def areNSlotsAvailable32 (b : MessageBuffer) (n current_time : ℕ) : Bool :=
  if b.m_max_size = 0 then true
  else decide ((currentSize b current_time + b.m_stall_map_size + n) % 2 ^ 32 ≤ b.m_max_size)

/-- Where the sum does not wrap the two agree. -/
theorem areNSlotsAvailable32_eq {b : MessageBuffer} {n t : ℕ}
    (h : currentSize b t + b.m_stall_map_size + n < 2 ^ 32) :
    areNSlotsAvailable32 b n t = b.areNSlotsAvailable n t := by
  rw [areNSlotsAvailable32, Nat.mod_eq_of_lt h]
  rfl

/-! ## Calls -/

inductive QueueCall
  | enqueue (time : ℕ) (warmup randomized : Bool) (message : Message) (delta random_time : ℕ)
  | dequeue (time : ℕ)

namespace QueueCall

def time : QueueCall → ℕ
  | .enqueue t .. => t
  | .dequeue t => t

def isEnqueue : QueueCall → Bool
  | .enqueue .. => true
  | .dequeue _ => false

def isDequeue (c : QueueCall) : Bool := !c.isEnqueue

end QueueCall

/-- A buffer that is only enqueued to and dequeued from. -/
def queue [StdHeap] : Machine MessageBuffer QueueCall Fault where
  enabled _ _ := true
  exec b
    | .enqueue t warmup randomized message delta random_time => do
        let (b', _) ← b.enqueue warmup randomized message t delta random_time
        pure b'
    | .dequeue t => b.dequeue t

def enqueues (calls : List QueueCall) : ℕ := calls.countP QueueCall.isEnqueue

def pops (calls : List QueueCall) : Bool := calls.any QueueCall.isDequeue

/-- The messages enqueued before the first pop, if there is a pop. -/
def enqueuesBeforePop (calls : List QueueCall) : ℕ :=
  if pops calls then (calls.takeWhile QueueCall.isEnqueue).length else 0

section Counting

variable {calls : List QueueCall} {c : QueueCall}

theorem enqueues_concat_enqueue (hc : c.isEnqueue = true) :
    enqueues (calls ++ [c]) = enqueues calls + 1 := by
  rw [enqueues, countP_append, countP_singleton, if_pos hc]
  rfl

theorem enqueues_concat_dequeue (hc : c.isEnqueue = false) :
    enqueues (calls ++ [c]) = enqueues calls := by
  rw [enqueues, countP_append, countP_singleton, if_neg (by simp [hc])]
  rfl

theorem pops_concat : pops (calls ++ [c]) = (pops calls || c.isDequeue) := by
  rw [pops, any_append, any_cons, any_nil, Bool.or_false]
  rfl

theorem isEnqueue_of_not_pops (h : pops calls = false) : ∀ c ∈ calls, c.isEnqueue = true := by
  intro c hc
  have hno := any_eq_false.1 h c hc
  simpa [QueueCall.isDequeue] using hno

theorem enqueues_of_not_pops (h : pops calls = false) : enqueues calls = calls.length :=
  countP_eq_length.2 (isEnqueue_of_not_pops h)

/-- What comes after the first pop does not matter. -/
theorem enqueuesBeforePop_concat_of_pops (h : pops calls = true) :
    enqueuesBeforePop (calls ++ [c]) = enqueuesBeforePop calls := by
  have hpops : pops (calls ++ [c]) = true := by rw [pops_concat, h, Bool.true_or]
  have hlt : (calls.takeWhile QueueCall.isEnqueue).length ≠ calls.length := by
    intro heq
    obtain ⟨d, hd, hdeq⟩ := any_eq_true.1 h
    have hall := takeWhile_eq_self_iff.1 (( takeWhile_prefix _).eq_of_length heq) d hd
    rw [QueueCall.isDequeue, hall] at hdeq
    cases hdeq
  rw [enqueuesBeforePop, enqueuesBeforePop, if_pos hpops, if_pos h, takeWhile_append, if_neg hlt]

theorem enqueuesBeforePop_first (h : pops calls = false) (hc : c.isEnqueue = false) :
    enqueuesBeforePop (calls ++ [c]) = enqueues calls := by
  have hpops : pops (calls ++ [c]) = true := by
    rw [pops_concat, h, QueueCall.isDequeue, hc]
    rfl
  have hself : calls.takeWhile QueueCall.isEnqueue = calls :=
    takeWhile_eq_self_iff.2 (isEnqueue_of_not_pops h)
  rw [enqueuesBeforePop, if_pos hpops, enqueues_of_not_pops h, takeWhile_append, hself,
    if_pos rfl, takeWhile_cons_of_neg (by simp [hc]), append_nil]

theorem enqueuesBeforePop_of_not_pops (h : pops calls = false) : enqueuesBeforePop calls = 0 :=
  if_neg (by simp [h])

end Counting

/-! ## One cycle -/

variable {b b' : MessageBuffer} {t t' S buffer_size : ℕ}

/-- What holds of a buffer at any time. -/
structure Sound (buffer_size : ℕ) (b : MessageBuffer) : Prop where
  max_size : b.m_max_size = buffer_size
  stall_size : b.m_stall_map_size = 0
  arrival : ∀ m ∈ b.m_prio_heap, 0 < m.m_LastEnqueueTime

/-- The figures of a buffer after the calls `calls` of cycle `t`, which began with `S` messages.
In cycle 0 no message is ready, and the time of the last pop is 0 all the same. -/
structure InCycle (t S : ℕ) (calls : List QueueCall) (b : MessageBuffer) : Prop where
  pop_le : b.m_time_last_time_pop ≤ t
  enqueue_le : b.m_time_last_time_enqueue ≤ t
  no_pop : b.m_time_last_time_pop < t →
    b.m_prio_heap.length = S + enqueues calls ∧ pops calls = false
  pop : b.m_time_last_time_pop = t →
    b.m_size_at_cycle_start = S + enqueuesBeforePop calls ∧ (pops calls = false → t = 0)
  no_enqueue : b.m_time_last_time_enqueue < t → enqueues calls = 0
  enqueue : b.m_time_last_time_enqueue = t → b.m_msgs_this_cycle = enqueues calls

variable {calls : List QueueCall} {c : QueueCall}

/-- **The size `areNSlotsAvailable` works with.** -/
theorem InCycle.currentSize_eq (h : InCycle t S calls b) :
    currentSize b t = S + enqueues calls + enqueuesBeforePop calls := by
  have hpop := h.pop_le
  have henq := h.enqueue_le
  unfold currentSize
  split_ifs with hlt hlt'
  · obtain ⟨hheap, hno⟩ := h.no_pop hlt
    rw [hheap, enqueuesBeforePop_of_not_pops hno, Nat.add_zero]
  · rw [(h.pop (by omega)).1, h.no_enqueue hlt', Nat.add_zero]
  · rw [(h.pop (by omega)).1, h.enqueue (by omega)]
    omega

theorem InCycle.enqueued (h : InCycle t S calls b)
    (hc : c.isEnqueue = true) (he : Enqueued t b b') :
    InCycle t S (calls ++ [c]) b' := by
  have hpop := h.pop_le
  have henq := h.enqueue_le
  have hcount : enqueues (calls ++ [c]) = enqueues calls + 1 := enqueues_concat_enqueue hc
  have hpops : pops (calls ++ [c]) = pops calls := by
    rw [pops_concat, QueueCall.isDequeue, hc, Bool.not_true, Bool.or_false]
  have hlast : b'.m_time_last_time_enqueue = t := by
    rw [he.last_enqueue]
    split_ifs <;> omega
  refine ⟨?_, hlast.le, ?_, ?_, fun hlt => by omega, ?_⟩
  · rw [he.last_pop]
    exact hpop
  · intro hlt
    rw [he.last_pop] at hlt
    obtain ⟨hheap, hno⟩ := h.no_pop hlt
    rw [he.heap, hheap, hcount, hpops]
    exact ⟨Nat.add_assoc .., hno⟩
  · intro heq
    rw [he.last_pop] at heq
    obtain ⟨hstart, hzero⟩ := h.pop heq
    rw [he.cycle_start, hstart, hpops]
    refine ⟨?_, hzero⟩
    -- the count up to the first pop is settled, or there is none
    cases hp : pops calls with
    | true => rw [enqueuesBeforePop_concat_of_pops hp]
    | false =>
      rw [enqueuesBeforePop_of_not_pops hp, enqueuesBeforePop_of_not_pops (hpops.trans hp)]
  · intro _
    rw [he.msgs, hcount]
    split_ifs with hlt
    · rw [h.no_enqueue hlt]
    · rw [h.enqueue (by omega)]

/-- A pop of the cycle. The first one takes the size of the heap, enqueues of the cycle
included. -/
theorem InCycle.popped (h : InCycle t S calls b)
    (hc : c.isEnqueue = false) (hpos : 0 < t) (hp : Popped t b b') :
    InCycle t S (calls ++ [c]) b' := by
  have hpop := h.pop_le
  have henq := h.enqueue_le
  have hcount : enqueues (calls ++ [c]) = enqueues calls := enqueues_concat_dequeue hc
  have hlast : b'.m_time_last_time_pop = t := by
    rw [hp.last_pop]
    split_ifs <;> omega
  have hpops : pops (calls ++ [c]) = true := by
    rw [pops_concat, QueueCall.isDequeue, hc, Bool.not_false, Bool.or_true]
  refine ⟨hlast.le, ?_, fun hlt => by omega, ?_, ?_, ?_⟩
  · rw [hp.last_enqueue]
    exact henq
  · intro _
    refine ⟨?_, fun hno => absurd (hpops.symm.trans hno) (by decide)⟩
    rw [hp.cycle_start]
    split_ifs with hlt
    · obtain ⟨hheap, hno⟩ := h.no_pop hlt
      rw [hheap, enqueuesBeforePop_first hno hc]
    · obtain ⟨hstart, hzero⟩ := h.pop (by omega)
      have hbefore : pops calls = true := by
        by_contra hno
        exact absurd (hzero (Bool.eq_false_iff.2 hno)) hpos.ne'
      rw [hstart, enqueuesBeforePop_concat_of_pops hbefore]
  · rw [hp.last_enqueue, hcount]
    exact h.no_enqueue
  · rw [hp.last_enqueue, hp.msgs, hcount]
    exact h.enqueue

theorem Sound.new (buffer_size : ℕ) (ordered randomization : Bool) :
    Sound buffer_size (.new buffer_size ordered randomization) :=
  ⟨rfl, rfl, fun _ hm => absurd hm not_mem_nil⟩

section Heap

variable [StdHeap]

theorem enqueue_arrival {warmup randomized : Bool} {message : Message} {delta random_time : ℕ}
    {x : MessageBuffer × ℕ} (h : b.enqueue warmup randomized message t delta random_time = .ok x)
    (hb : ∀ m ∈ b.m_prio_heap, 0 < m.m_LastEnqueueTime) :
    ∀ m ∈ x.1.m_prio_heap, 0 < m.m_LastEnqueueTime := by
  unfold MessageBuffer.enqueue at h
  obtain ⟨_, -, h⟩ := bind_eq_ok.mp h
  obtain ⟨_, htime, h⟩ := bind_eq_ok.mp h
  obtain ⟨_, -, h⟩ := bind_eq_ok.mp h
  obtain ⟨_, -, h⟩ := bind_eq_ok.mp h
  obtain rfl := Except.ok.inj h
  have hlt := of_decide_eq_true (assert_ok_iff.mp htime)
  intro m hm
  rcases mem_append.1 ((StdHeap.push_perm _ _).mem_iff.1 hm) with hold | hnew
  · exact hb m hold
  · rw [mem_singleton.1 hnew]
    exact Nat.zero_lt_of_lt hlt

theorem dequeue_arrival (h : b.dequeue t = .ok b')
    (hb : ∀ m ∈ b.m_prio_heap, 0 < m.m_LastEnqueueTime) :
    0 < t ∧ ∀ m ∈ b'.m_prio_heap, 0 < m.m_LastEnqueueTime := by
  unfold MessageBuffer.dequeue at h
  obtain ⟨_, hready, h⟩ := bind_eq_ok.mp h
  obtain rfl := Except.ok.inj h
  have hready := assert_ok_iff.mp hready
  obtain ⟨m, rest, heq⟩ := exists_cons_of_ne_nil (heap_ne_nil hready)
  rw [heq] at hb
  constructor
  · rw [MessageBuffer.isReady, heq] at hready
    exact lt_of_lt_of_le (hb m mem_cons_self) (of_decide_eq_true hready)
  · obtain ⟨l', hl', hperm⟩ := StdHeap.pop_last Message.greater m rest
    intro m' hm'
    rw [heq, hl', dropLast_concat] at hm'
    exact hb m' (mem_cons_of_mem m (hperm.mem_iff.1 hm'))

/-- What one call does, read off the specifications of the two functions. -/
theorem step_cases (h : queue.Step b c b') :
    (c.isEnqueue = true ∧ Enqueued c.time b b')
    ∨ (c.isEnqueue = false ∧ Popped c.time b b' ∧ b'.m_stall_map_size = b.m_stall_map_size) := by
  cases c with
  | enqueue time warmup randomized message delta random_time =>
    obtain ⟨x, hx, hb'⟩ := bind_eq_ok.mp h.2
    obtain rfl := Except.ok.inj hb'
    exact .inl ⟨rfl, (enqueue_spec ..).elim hx⟩
  | dequeue time => exact .inr ⟨rfl, (dequeue_spec b time).elim h.2⟩

/-- A message is ready only after it has arrived, so nothing is popped in cycle 0. -/
theorem Sound.step (hb : Sound buffer_size b) (h : queue.Step b c b') :
    Sound buffer_size b' ∧ (c.isEnqueue = false → 0 < c.time) := by
  cases c with
  | enqueue time warmup randomized message delta random_time =>
    obtain ⟨x, hx, hb'⟩ := bind_eq_ok.mp h.2
    obtain rfl := Except.ok.inj hb'
    have henq := (enqueue_spec ..).elim hx
    refine ⟨⟨henq.max_size.trans hb.max_size, henq.stall_size.trans hb.stall_size,
      enqueue_arrival hx hb.arrival⟩, fun hno => absurd hno Bool.noConfusion⟩
  | dequeue time =>
    obtain ⟨hpop, hstall⟩ := (dequeue_spec b time).elim h.2
    obtain ⟨hpos, harrival⟩ := dequeue_arrival h.2 hb.arrival
    exact ⟨⟨hpop.max_size.trans hb.max_size, hstall.trans hb.stall_size, harrival⟩, fun _ => hpos⟩

/-- **The calls of one cycle.** -/
theorem InCycle.run {b0 : MessageBuffer} (h : InCycle t S [] b0) (hb : Sound buffer_size b0) (htime : ∀ c ∈ calls, c.time = t)
    (hrun : queue.run b0 calls = some b) : InCycle t S calls b ∧ Sound buffer_size b := by
  induction calls using reverseRecOn generalizing b with
  | nil =>
    rw [run_nil, Option.some.injEq] at hrun
    exact hrun ▸ ⟨h, hb⟩
  | append_singleton calls c ih =>
    obtain ⟨b1, hrun1, hstep⟩ := run_concat.1 hrun
    obtain ⟨hcycle, hsound⟩ := ih (fun c hc => htime c (mem_append_left _ hc)) hrun1
    obtain ⟨hsound', hpos⟩ := hsound.step hstep
    have htc := htime c (mem_append_right _ mem_cons_self)
    refine ⟨?_, hsound'⟩
    rcases step_cases hstep with ⟨hc, henq⟩ | ⟨hc, hpop, -⟩
    · rw [htc] at henq
      exact hcycle.enqueued hc henq
    · rw [htc] at hpop
      exact hcycle.popped hc (htc ▸ hpos hc) hpop

/-! ## The cycles before -/

variable {ordered randomization : Bool}

/-- Calls before cycle `t` leave figures that are of earlier cycles. -/
theorem earlier_run (hpos : 0 < t) (htime : ∀ c ∈ calls, c.time < t)
    (hrun : queue.run (.new buffer_size ordered randomization) calls = some b) :
    b.m_time_last_time_pop < t ∧ b.m_time_last_time_enqueue < t := by
  refine run_keeps_of
    (I := fun b => b.m_time_last_time_pop < t ∧ b.m_time_last_time_enqueue < t) ?_ ⟨hpos, hpos⟩
    (AllSteps.of_mem htime) hrun
  rintro b c b' ⟨hpop, henq⟩ hlt hstep
  rcases step_cases hstep with ⟨-, he⟩ | ⟨-, hp, -⟩
  · rw [he.last_pop, he.last_enqueue]
    refine ⟨hpop, ?_⟩
    split_ifs <;> assumption
  · rw [hp.last_pop, hp.last_enqueue]
    refine ⟨?_, henq⟩
    split_ifs <;> assumption

theorem inCycle_start (htime : ∀ c ∈ calls, c.time < t)
    (hrun : queue.run (.new buffer_size ordered randomization) calls = some b) :
    InCycle t b.m_prio_heap.length [] b := by
  rcases Nat.eq_zero_or_pos t with hzero | hpos
  · -- nothing comes before cycle 0
    have hnil : calls = [] := by
      rw [eq_nil_iff_forall_not_mem]
      intro c hc
      have hlt := htime c hc
      omega
    rw [hnil, run_nil, Option.some.injEq] at hrun
    subst hrun hzero
    exact ⟨le_refl 0, le_refl 0, fun hlt => absurd hlt (Nat.lt_irrefl 0), fun _ => ⟨rfl, fun _ => rfl⟩,
      fun hlt => absurd hlt (Nat.lt_irrefl 0), fun _ => rfl⟩
  · obtain ⟨hpop, henq⟩ := earlier_run hpos htime hrun
    exact ⟨hpop.le, henq.le, fun _ => ⟨rfl, rfl⟩, fun heq => by omega, fun _ => rfl,
      fun heq => by omega⟩

theorem sound_run
    (hrun : queue.run (.new buffer_size ordered randomization) calls = some b) :
    Sound buffer_size b :=
  run_keeps (fun _ _ _ hb hstep => (hb.step hstep).1)
    (Sound.new buffer_size ordered randomization) hrun

/-! ## The visible size -/

/-- The calls before cycle `t`, and those of cycle `t`. -/
def callsBefore (t : ℕ) (calls : List QueueCall) : List QueueCall :=
  calls.takeWhile (fun c => decide (c.time < t))

def callsOf (t : ℕ) (calls : List QueueCall) : List QueueCall :=
  calls.dropWhile (fun c => decide (c.time < t))

omit [StdHeap] in
theorem time_eq_of_mem_callsOf
    (hsorted : calls.Pairwise (fun c d => c.time ≤ d.time)) (ht : ∀ c ∈ calls, c.time ≤ t) :
    ∀ c ∈ callsOf t calls, c.time = t := by
  induction calls with
  | nil => exact fun c hc => absurd hc not_mem_nil
  | cons c calls ih =>
    rw [pairwise_cons] at hsorted
    unfold callsOf
    by_cases hlt : c.time < t
    · rw [dropWhile_cons_of_pos (by simpa using hlt)]
      exact ih hsorted.2 (fun d hd => ht d (mem_cons_of_mem c hd))
    · rw [dropWhile_cons_of_neg (by simpa using hlt)]
      intro d hd
      have hle := ht d hd
      rcases mem_cons.1 hd with rfl | hd
      · omega
      · have hge := hsorted.1 d hd
        omega

/-- **What `areNSlotsAvailable` answers.** After any calls with non-decreasing times, the size it
works with is the size of the heap at the start of the cycle, and the messages enqueued in the
cycle, and once more those enqueued before its first pop. -/
theorem areNSlotsAvailable32_run
    (hpos : 0 < buffer_size) (hsorted : calls.Pairwise (fun c d => c.time ≤ d.time))
    (ht : ∀ c ∈ calls, c.time ≤ t)
    (hrun : queue.run (.new buffer_size ordered randomization) calls = some b) (n : ℕ) :
    ∃ b0, queue.run (.new buffer_size ordered randomization) (callsBefore t calls) = some b0
      ∧ areNSlotsAvailable32 b n t = decide ((b0.m_prio_heap.length + enqueues (callsOf t calls)
            + enqueuesBeforePop (callsOf t calls) + n) % 2 ^ 32 ≤ buffer_size) := by
  have hsplit : calls = callsBefore t calls ++ callsOf t calls :=
    (takeWhile_append_dropWhile ..).symm
  rw [hsplit, run_append, Option.bind_eq_some_iff] at hrun
  obtain ⟨b0, hrun0, hrun⟩ := hrun
  have hbefore : ∀ c ∈ callsBefore t calls, c.time < t :=
    fun c hc => by simpa using mem_takeWhile_imp hc
  obtain ⟨hcycle, hsound⟩ := (inCycle_start hbefore hrun0).run (sound_run hrun0)
    (time_eq_of_mem_callsOf hsorted ht) hrun
  refine ⟨b0, hrun0, ?_⟩
  rw [areNSlotsAvailable32, hsound.max_size, if_neg hpos.ne', hsound.stall_size,
    hcycle.currentSize_eq, Nat.add_zero]

/-- **The visible size.** The answer is the intended one, for the messages at the start of the
cycle and those enqueued in it, exactly when counting those before the first pop once more, in 32
bits, does not move the sum across the capacity. -/
theorem visible_size_iff {calls : List QueueCall} {ordered randomization : Bool}
    (hpos : 0 < buffer_size) (hsorted : calls.Pairwise (fun c d => c.time ≤ d.time))
    (ht : ∀ c ∈ calls, c.time ≤ t)
    (hrun : queue.run (.new buffer_size ordered randomization) calls = some b) (n : ℕ) :
    ∃ b0, queue.run (.new buffer_size ordered randomization) (callsBefore t calls) = some b0
      ∧ ((areNSlotsAvailable32 b n t = true
            ↔ b0.m_prio_heap.length + enqueues (callsOf t calls) + n ≤ buffer_size)
          ↔ ((b0.m_prio_heap.length + enqueues (callsOf t calls)
                + enqueuesBeforePop (callsOf t calls) + n) % 2 ^ 32 ≤ buffer_size
              ↔ b0.m_prio_heap.length + enqueues (callsOf t calls) + n ≤ buffer_size)) := by
  obtain ⟨b0, hrun0, hanswer⟩ := areNSlotsAvailable32_run hpos hsorted ht hrun n
  refine ⟨b0, hrun0, ?_⟩
  rw [hanswer, decide_eq_true_iff]

end Heap

/-- A message is enqueued at time `t` with a delay of one cycle. -/
def plainCall (t : ℕ) : QueueCall := .enqueue t false false (plainMessage t) 1 0

/-- A message is popped in cycle 1, and another one is enqueued after that. -/
theorem visible_size_pop_first :
    ∃ b b0, (@queue sortedHeap).run (.new 3 false false) [plainCall 0, .dequeue 1, plainCall 1]
        = some b
      ∧ (@queue sortedHeap).run (.new 3 false false) [plainCall 0] = some b0
      ∧ (areNSlotsAvailable32 b 1 1 = true ↔ b0.m_prio_heap.length + 1 + 1 ≤ 3) := by
  obtain ⟨b, hrun, -⟩ := exists_of_run_any (@queue sortedHeap) (.new 3 false false)
    [plainCall 0, .dequeue 1, plainCall 1] (fun b => b.m_prio_heap.length = 1) (by decide +kernel)
  obtain ⟨b1, hrun1, hlen⟩ := exists_of_run_any (@queue sortedHeap) (.new 3 false false)
    [plainCall 0] (fun b => b.m_prio_heap.length = 1) (by decide +kernel)
  obtain ⟨b0, hrun0, hiff⟩ := @visible_size_iff b 1 3 sortedHeap _ false false (by decide)
    (by decide) (by decide) hrun 1
  obtain rfl : b0 = b1 := Option.some.inj (hrun0.symm.trans hrun1)
  refine ⟨b, b0, hrun, hrun1, hiff.2 ?_⟩
  rw [hlen]
  decide

/-- **Messages count twice, and the sum wraps.** In a buffer for three, one message is there at
the start of cycle 1, one is enqueued and then one is popped: there is no slot, although the two
and one more are three. With one message in the buffer there are `2 ^ 32 - 1` slots. -/
theorem visible_size_counts_twice :
    (∃ b b0, (@queue sortedHeap).run (.new 3 false false) [plainCall 0, plainCall 1, .dequeue 1]
        = some b
      ∧ (@queue sortedHeap).run (.new 3 false false) [plainCall 0] = some b0
      ∧ areNSlotsAvailable32 b 1 1 = false ∧ b0.m_prio_heap.length + 1 + 1 ≤ 3)
    ∧ ∃ b, (@queue sortedHeap).run (.new 3 false false) [plainCall 0] = some b
      ∧ areNSlotsAvailable32 b (2 ^ 32 - 1) 1 = true
      ∧ 3 < b.m_prio_heap.length + (2 ^ 32 - 1) := by
  constructor
  · obtain ⟨b, hrun, hanswer⟩ := exists_of_run_any (@queue sortedHeap)
      (.new 3 false false) [plainCall 0, plainCall 1, .dequeue 1]
      (fun b => areNSlotsAvailable32 b 1 1 = false) (by decide +kernel)
    obtain ⟨b0, hrun0, hlen⟩ := exists_of_run_any (@queue sortedHeap)
      (.new 3 false false) [plainCall 0] (fun b => b.m_prio_heap.length + 1 + 1 ≤ 3)
      (by decide +kernel)
    exact ⟨b, b0, hrun, hrun0, hanswer, hlen⟩
  · exact exists_of_run_any (@queue sortedHeap) _ _
      (fun b => areNSlotsAvailable32 b (2 ^ 32 - 1) 1 = true
        ∧ 3 < b.m_prio_heap.length + (2 ^ 32 - 1)) (by decide +kernel)

end Bindu.Ruby
