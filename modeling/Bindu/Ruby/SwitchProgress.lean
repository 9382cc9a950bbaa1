/-
A switch of the simple network forgets no message: `PerfectSwitch::wakeup`.

`m_pending_message_count` counts the messages of a virtual network in the input buffers: an
enqueue adds one through `storeEventInfo`, and a round of `operateMessageBuffer` that takes a
message subtracts one. `operateVnet` skips a virtual network without pending messages, so the
count has to be right for the switch not to stop. After a wakeup a message that is ready and still
in its buffer waits for a slot, and the round that found no slot has scheduled the next wakeup.

Sources: `PerfectSwitch.cc`, `MessageBuffer::enqueue` in `mem/ruby/network/MessageBuffer.cc`.
-/
import Bindu.Lib.RoundRobin
import Bindu.Lib.Runs
import Bindu.Ruby.SwitchDelivery

open Bindu.Lib Bindu.Garnet Function List MessageBuffer

namespace Bindu.Ruby

open SwitchState

variable {P : SwitchParams} {s s' s'' : SwitchState} {incoming vnet p v : ℕ}

variable {b : MessageBuffer}

namespace SwitchState

/-- The number of messages in `m_in[p][v]`. -/
def inLength (s : SwitchState) (v p : ℕ) : ℕ :=
  ((s.inQueue p v).map (fun b => b.m_prio_heap.length)).getD 0

/-- The number of messages in the input buffers of virtual network `v`. -/
def inCount (s : SwitchState) (v : ℕ) : ℕ := ∑ p ∈ Finset.range s.m_in.length, s.inLength v p

theorem lt_of_inQueue (h : s.inQueue p v = some b) : p < s.m_in.length := by
  by_contra hge
  unfold inQueue at h
  rw [getElem?_eq_none (Nat.le_of_not_lt hge)] at h
  cases h

theorem inLength_eq (h : s.inQueue p v = some b) :
    s.inLength v p = b.m_prio_heap.length := by
  unfold inLength
  rw [h]
  rfl

/-- Replacing the buffer of one input port changes the count by the difference. -/
theorem inCount_of_set {b b' : MessageBuffer} (hb : s.inQueue incoming vnet = some b)
    (hset : ∀ p v, s'.inQueue p v = if p = incoming ∧ v = vnet then some b' else s.inQueue p v)
    (hsize : s'.m_in.length = s.m_in.length) (v : ℕ) :
    s'.inCount v + (if v = vnet then b.m_prio_heap.length else 0)
      = s.inCount v + (if v = vnet then b'.m_prio_heap.length else 0) := by
  unfold inCount
  rw [hsize]
  have hother : ∀ p, ¬ (p = incoming ∧ v = vnet) → s'.inLength v p = s.inLength v p := by
    intro p hp
    unfold inLength
    rw [hset, if_neg hp]
  by_cases hv : v = vnet
  · subst hv
    have hmem : incoming ∈ Finset.range s.m_in.length := Finset.mem_range.2 (lt_of_inQueue hb)
    have hrest : ∑ p ∈ (Finset.range s.m_in.length).erase incoming, s'.inLength v p
        = ∑ p ∈ (Finset.range s.m_in.length).erase incoming, s.inLength v p :=
      Finset.sum_congr rfl (fun p hp => hother p (fun h => Finset.ne_of_mem_erase hp h.1))
    have hnew : s'.inQueue incoming v = some b' := by rw [hset, if_pos ⟨rfl, rfl⟩]
    rw [if_pos rfl, if_pos rfl, ← Finset.add_sum_erase _ _ hmem, ← Finset.add_sum_erase _ _ hmem,
      hrest, inLength_eq hnew, inLength_eq hb]
    omega
  · rw [if_neg hv, if_neg hv]
    exact congrArg (· + 0) (Finset.sum_congr rfl (fun p _ => hother p (fun h => hv h.2)))

theorem heap_eq_nil_of_inCount (hcount : s.inCount v = 0)
    (hb : s.inQueue p v = some b) : b.m_prio_heap = [] := by
  have hzero := Finset.sum_eq_zero_iff.1 hcount p (Finset.mem_range.2 (lt_of_inQueue hb))
  rw [inLength_eq hb] at hzero
  exact length_eq_zero_iff.1 hzero

/-- A message of `m_in[p][v]` that is ready does not wait without a wakeup in the next cycle. -/
def Settled (P : SwitchParams) (s : SwitchState) (p v : ℕ) : Prop :=
  ∀ b, s.inQueue p v = some b → b.isReady s.now = true →
    s.now + P.clockPeriod ∈ s.m_scheduled_wakeups

end SwitchState

/-- What holds in every state of a switch. -/
structure Counted (P : SwitchParams) (s : SwitchState) : Prop where
  wellFormed : WellFormed P s
  rows : ∀ p v b, s.inQueue p v = some b → v < P.m_virtual_networks
  count : ∀ v, s.m_pending_message_count v = s.inCount v

/-! ## What a part of a wakeup keeps -/

/-- `s'` is a later state of the same wakeup. -/
structure Advances (P : SwitchParams) (s s' : SwitchState) : Prop where
  counted : Counted P s'
  now : s'.now = s.now
  in_size : s'.m_in.length = s.m_in.length
  settled : ∀ p v, s.Settled P p v → s'.Settled P p v

theorem Advances.refl (h : Counted P s) : Advances P s s := ⟨h, rfl, rfl, fun _ _ hs => hs⟩

theorem Advances.trans (h : Advances P s s') (h' : Advances P s' s'') : Advances P s s'' where
  counted := h'.counted
  now := h'.now.trans h.now
  in_size := h'.in_size.trans h.in_size
  settled p v hs := h'.settled p v (h.settled p v hs)

theorem mem_scheduleEventAbsolute {now evt_time t : ℕ} {wakeups : Finset ℕ} :
    t ∈ scheduleEventAbsolute now wakeups evt_time ↔ (t = evt_time ∨ t ∈ wakeups) ∧ now ≤ t := by
  unfold scheduleEventAbsolute
  rw [Finset.mem_filter, Finset.mem_insert]

theorem Blocked.advances {copies : List (ℕ × NetDest)} (h : Blocked P vnet copies s s')
    (hs : Counted P s) (hwf : WellFormed P s') :
    Advances P s s' ∧ ∀ p v, s'.Settled P p v := by
  have hin : ∀ p v, s'.inQueue p v = s.inQueue p v := by
    intro p v
    unfold inQueue
    rw [h.m_in]
  have hlength : ∀ v p, s'.inLength v p = s.inLength v p := by
    intro v p
    unfold inLength
    rw [hin]
  have hwakeup : s'.now + P.clockPeriod ∈ s'.m_scheduled_wakeups := by
    rw [h.m_scheduled_wakeups, h.now, mem_scheduleEventAbsolute]
    exact ⟨.inl rfl, Nat.le_add_right _ _⟩
  have hsettled : ∀ p v, s'.Settled P p v := fun p v b _ _ => hwakeup
  refine ⟨⟨⟨hwf, fun p v b hb => hs.rows p v b ((hin p v).symm.trans hb), fun v => ?_⟩, h.now,
    congrArg length h.m_in, fun p v _ => hsettled p v⟩, hsettled⟩
  rw [h.m_pending_message_count, hs.count]
  unfold inCount
  rw [h.m_in]
  exact congrArg Nat.cast (Finset.sum_congr rfl (fun p _ => (hlength v p).symm))

theorem Moved.advances {copies : List (ℕ × NetDest)} {message : Message}
    (h : Moved incoming vnet message copies s s') (hs : Counted P s) (hwf : WellFormed P s') :
    Advances P s s' ∧ s'.inLength vnet incoming + 1 = s.inLength vnet incoming := by
  obtain ⟨b, b', hb, hremoved, hset⟩ := h.dequeued
  obtain ⟨rest, hheap, hperm⟩ := hremoved.head
  have hlen : b'.m_prio_heap.length + 1 = b.m_prio_heap.length := by
    rw [hheap, hperm.length_eq, length_cons]
  have hnew : s'.inQueue incoming vnet = some b' := by rw [hset, if_pos ⟨rfl, rfl⟩]
  refine ⟨⟨⟨hwf, ?_, ?_⟩, h.now, h.in_size, ?_⟩, ?_⟩
  · intro p v b1 hb1
    rw [hset] at hb1
    by_cases hpv : p = incoming ∧ v = vnet
    · rw [hpv.2]
      exact hs.rows _ _ _ hb
    · rw [if_neg hpv] at hb1
      exact hs.rows p v b1 hb1
  · intro v
    have hcount := inCount_of_set hb hset h.in_size v
    rw [h.m_pending_message_count]
    by_cases hv : v = vnet
    · subst hv
      rw [update_self, hs.count]
      rw [if_pos rfl, if_pos rfl] at hcount
      omega
    · rw [update_of_ne hv, hs.count]
      rw [if_neg hv, if_neg hv] at hcount
      omega
  · intro p v hsettled b1 hb1 hready
    rw [h.m_scheduled_wakeups, h.now]
    rw [h.now] at hready
    rw [hset] at hb1
    by_cases hpv : p = incoming ∧ v = vnet
    · -- the message that was taken was ready, so the wakeup was scheduled before
      refine hsettled b (hpv.1 ▸ hpv.2 ▸ hb) ?_
      exact isReady_iff.2 ⟨message, rest, hheap, hremoved.ready⟩
    · rw [if_neg hpv] at hb1
      exact hsettled b1 hb1 hready
  · rw [inLength_eq hnew, inLength_eq hb, hlen]

/-! ## A wakeup -/

/-- The two ways in which a wakeup can stop: a destination behind no link, or a row of `m_out` that
is too short. -/
def Unconnected (e : SwitchFault) : Prop := e = .unrouted ∨ e = .m_out_range

/-- The ports of the round robin: each of them comes up. -/
theorem mem_iterate_nextPort {ports start : ℕ} (hp : p < ports) :
    p ∈ iterate (nextPort ports) (nextPort ports start) ports := by
  have hnext : ∀ i, nextPort ports i < ports := by
    intro i
    unfold nextPort
    split <;> omega
  have hiterate : ∀ k a, a < ports → (nextPort ports)^[k] a = (a + k) % ports := by
    intro k
    induction k with
    | zero => exact fun a ha => (Nat.mod_eq_of_lt ha).symm
    | succ k ih =>
      intro a ha
      rw [iterate_succ_apply, ih _ (hnext a)]
      unfold nextPort
      split_ifs with hlast
      · have hsum : a + (k + 1) = k + ports := by omega
        rw [hsum, Nat.add_mod_right, Nat.zero_add]
      · rw [Nat.add_right_comm, Nat.add_assoc]
  rw [mem_iterate]
  refine ⟨ahead (nextPort ports start) p ports, ahead_lt _ hp, ?_⟩
  rw [hiterate _ _ (hnext start), add_ahead_mod _ hp]

section Wakeup

variable [StdHeap] [StdSort]

theorem forward_advances (hs : Counted P s)
    (hb : s.inQueue incoming vnet = some b) (hready : b.isReady s.now = true) :
    Ok (fun r => Advances P s r.2
        ∧ if r.1 then r.2.inLength vnet incoming + 1 = s.inLength vnet incoming
          else r.2.Settled P incoming vnet)
      Unconnected (forward P s incoming vnet b) := by
  obtain ⟨message, rest, hheap, hle⟩ := isReady_iff.1 hready
  refine (forward_ok hs.wellFormed hb hheap hle (hs.rows _ _ _ hb)).mono ?_ ?_
  · rintro ⟨again, s'⟩ ⟨-, hwf, copies, -, ⟨ragain, hblocked⟩ | ⟨ragain, hmoved⟩⟩
    · obtain ⟨hadvances, hsettled⟩ := hblocked.advances hs hwf
      rw [ragain, if_neg Bool.false_ne_true]
      exact ⟨hadvances, hsettled incoming vnet⟩
    · rw [ragain, if_pos rfl]
      exact hmoved.advances hs hwf
  · exact fun e he => he.imp And.left And.left

/-- The loop ends with the buffer settled: it has as many rounds as there are messages. -/
theorem forwardAll_advances (incoming vnet : ℕ) :
    ∀ (rounds : ℕ) (s : SwitchState), Counted P s → s.inLength vnet incoming ≤ rounds →
      Ok (fun s' => Advances P s s' ∧ s'.Settled P incoming vnet) Unconnected
        (forwardAll P incoming vnet rounds s) := by
  intro rounds
  induction rounds with
  | zero =>
    intro s hs hlen
    refine ⟨.refl hs, fun b hb hready => ?_⟩
    -- a buffer without messages is not ready
    rw [inLength_eq hb, Nat.le_zero, length_eq_zero_iff] at hlen
    obtain ⟨m, rest, hheap, -⟩ := isReady_iff.1 hready
    rw [hlen] at hheap
    cases hheap
  | succ rounds ih =>
    intro s hs hlen
    unfold forwardAll
    cases hb : s.inQueue incoming vnet with
    | none =>
      refine ⟨.refl hs, fun b hb' => ?_⟩
      rw [hb] at hb'
      cases hb'
    | some b =>
      dsimp only
      by_cases hready : b.isReady s.now = true
      · rw [if_pos hready]
        refine (forward_advances hs hb hready).bind ?_
        rintro ⟨again, s'⟩ ⟨hadvances, hagain⟩
        cases again with
        | false => exact ⟨hadvances, hagain⟩
        | true =>
          rw [if_pos rfl] at hagain
          dsimp only at hagain hadvances
          refine (ih s' hadvances.counted (by omega)).imp ?_
          exact fun s'' h => ⟨hadvances.trans h.1, h.2⟩
      · rw [if_neg hready]
        refine ⟨.refl hs, fun b' hb' hready' => ?_⟩
        rw [hb, Option.some.injEq] at hb'
        exact absurd (hb' ▸ hready') hready

theorem operateMessageBuffer_advances (vnet : ℕ) (hs : Counted P s) (incoming : ℕ) :
    Ok (fun s' => Advances P s s' ∧ s'.Settled P incoming vnet) Unconnected
      (operateMessageBuffer P vnet s incoming) := by
  unfold operateMessageBuffer
  cases hb : s.inQueue incoming vnet with
  | none =>
    refine ⟨.refl hs, fun b hb' => ?_⟩
    rw [hb] at hb'
    cases hb'
  | some b => exact forwardAll_advances incoming vnet _ s hs (inLength_eq hb).le

theorem operateVnet_advances (hs : Counted P s) (vnet : ℕ) :
    Ok (fun s' => Advances P s s' ∧ ∀ p, s'.Settled P p vnet) Unconnected
      (operateVnet P s vnet) := by
  unfold operateVnet
  -- the round robin pointer is no part of the invariant
  have hstart : Advances P s { s with
      m_round_robin_start := nextPort s.m_in.length s.m_round_robin_start } :=
    ⟨⟨⟨hs.wellFormed.out_size, hs.wellFormed.links, hs.wellFormed.onTime⟩, hs.rows, hs.count⟩,
      rfl, rfl, fun _ _ h => h⟩
  by_cases hpending : s.m_pending_message_count vnet > 0
  · rw [if_pos hpending]
    refine (Ok.foldlM_each (Advances P s) (fun p s' => s'.Settled P p vnet) _ _ hstart ?_).imp ?_
    · intro p s' hadvances
      refine (operateMessageBuffer_advances vnet hadvances.counted p).imp ?_
      rintro s'' ⟨hadvances', hp⟩
      exact ⟨hadvances.trans hadvances', hp, fun q => hadvances'.settled q vnet⟩
    · rintro s' ⟨hadvances, hsettled, -⟩
      refine ⟨hadvances, fun p b hb => ?_⟩
      have hp : p < s.m_in.length := hadvances.in_size ▸ lt_of_inQueue hb
      exact hsettled p (mem_iterate_nextPort hp) b hb
  · -- without pending messages every buffer is empty
    rw [if_neg hpending]
    refine ⟨hstart, fun p b hb hready => ?_⟩
    have hcount : s.inCount vnet = 0 := by
      have h := hs.count vnet
      omega
    obtain ⟨m, rest, hheap, -⟩ := isReady_iff.1 hready
    rw [heap_eq_nil_of_inCount hcount hb] at hheap
    cases hheap

theorem wakeup_advances (hs : Counted P s) :
    Ok (fun s' => Advances P s s' ∧ ∀ p v, s'.Settled P p v) Unconnected (s.wakeup P) := by
  -- both orders go through all virtual networks
  have hloop : ∀ (vnets : List ℕ) (s0 : SwitchState), Advances P s s0 →
      (∀ v < P.m_virtual_networks, v ∈ vnets) →
      Ok (fun s' => Advances P s s' ∧ ∀ p v, s'.Settled P p v) Unconnected
        (vnets.foldlM (operateVnet P) s0) := by
    intro vnets s0 hs0 hall
    refine (Ok.foldlM_each (Advances P s) (fun v s' => ∀ p, s'.Settled P p v) _ _ hs0 ?_).imp ?_
    · intro v s' hadvances
      refine (operateVnet_advances hadvances.counted v).imp ?_
      rintro s'' ⟨hadvances', hv⟩
      exact ⟨hadvances.trans hadvances', hv, fun w hw p => hadvances'.settled p w (hw p)⟩
    · rintro s' ⟨hadvances, hsettled, -⟩
      refine ⟨hadvances, fun p v b hb => ?_⟩
      exact hsettled v (hall v (hadvances.counted.rows p v b hb)) p b hb
  have hcounted : ∀ n, Advances P s { s with m_wakeups_wo_switch := n } := fun n =>
    ⟨⟨⟨hs.wellFormed.out_size, hs.wellFormed.links, hs.wellFormed.onTime⟩, hs.rows, hs.count⟩,
      rfl, rfl, fun _ _ h => h⟩
  unfold SwitchState.wakeup
  split_ifs
  · exact hloop _ _ (hcounted 0) (fun v hv => mem_range.2 hv)
  · exact hloop _ _ (hcounted _) (fun v hv => mem_reverse.2 (mem_range.2 hv))

end Wakeup

/-! ## Runs -/

/-- `m_in[incoming][vnet]` is now `b`, with one message more that arrives at `arrival_time`: the
buffer schedules the switch and calls `storeEventInfo`. -/
def SwitchState.receive (s : SwitchState) (incoming vnet : ℕ) (b : MessageBuffer)
    (arrival_time : ℕ) : SwitchState :=
  { s.setIn incoming vnet b with
    m_pending_message_count := update s.m_pending_message_count vnet
      (s.m_pending_message_count vnet + 1)
    m_scheduled_wakeups := scheduleEventAbsolute s.now s.m_scheduled_wakeups arrival_time }

/-- What can happen to a switch. The queues of its links change in any way that keeps the arrival
times of a strict FIFO in order. -/
inductive SwitchStep [StdHeap] [StdSort] (P : SwitchParams) (s : SwitchState) : SwitchState → Prop
  | arrive {incoming vnet : ℕ} {b b' : MessageBuffer} {arrival_time : ℕ} (message : Message)
      (current_time delta delay : ℕ) : s.inQueue incoming vnet = some b →
      b.enqueue P.warmup_enabled (P.randomization || b.m_randomization) message current_time delta
        delay = .ok (b', arrival_time) → SwitchStep P s (s.receive incoming vnet b' arrival_time)
  | wakeup (s' : SwitchState) : s.wakeup P = .ok s' → SwitchStep P s s'
  | outputs (m_out : List (List PortBuffer)) : WellFormed P { s with m_out := m_out } →
      SwitchStep P s { s with m_out := m_out }
  | clock (t : ℕ) : s.now ≤ t → SwitchStep P s { s with now := t }

/-- The ports of a switch that was just connected. `checkNetworkAllocation` stops the simulation
for a virtual network beyond the last. -/
structure Wiring (P : SwitchParams) (m_in : List (List (Option MessageBuffer)))
    (m_out : List (List PortBuffer)) : Prop where
  out_size : m_out.length = P.m_routing_table.length
  in_rows : ∀ row ∈ m_in, row.length ≤ P.m_virtual_networks
  in_empty : ∀ row ∈ m_in, ∀ b, some b ∈ row → b.m_prio_heap = []
  out_new : ∀ row ∈ m_out, ∀ b ∈ row, b.m_last_arrival_time = 0

theorem Wiring.counted {m_in : List (List (Option MessageBuffer))} {m_out : List (List PortBuffer)}
    (h : Wiring P m_in m_out) (rng : ℕ → ℕ) : Counted P (.connected m_in m_out rng) := by
  -- the row and the element that `m_in[p][v]` is read from
  have hin : ∀ p v b, (connected m_in m_out rng).inQueue p v = some b →
      ∃ row ∈ m_in, row[v]? = some (some b) := by
    intro p v b hb
    obtain ⟨row, hrow, hget⟩ := Option.bind_eq_some_iff.1 (Option.join_eq_some_iff.1 hb)
    exact ⟨row, mem_of_getElem? hrow, hget⟩
  refine ⟨⟨h.out_size, ?_, ?_⟩, ?_, ?_⟩
  · have hlinks : links ((range m_out.length).map (fun link => ⟨link, 0⟩))
        = range m_out.length := by
      unfold links
      rw [map_map]
      exact map_id _
    change (links ((range m_out.length).map (fun link => ⟨link, 0⟩))).Perm _
    rw [hlinks, h.out_size]
  · intro link v b hb hfifo hr
    obtain ⟨p, hp, rfl⟩ := portBuffer_eq_some hb
    obtain ⟨row, hrow, hget⟩ := Option.bind_eq_some_iff.1 hp
    rw [h.out_new row (mem_of_getElem? hrow) p (mem_of_getElem? hget)]
    exact Nat.zero_le _
  · intro p v b hb
    obtain ⟨row, hrow, hget⟩ := hin p v b hb
    obtain ⟨hlt, -⟩ := List.getElem?_eq_some_iff.1 hget
    exact lt_of_lt_of_le hlt (h.in_rows row hrow)
  · intro v
    refine congrArg Nat.cast (Finset.sum_eq_zero (fun p _ => ?_)).symm
    unfold inLength
    cases hb : (connected m_in m_out rng).inQueue p v with
    | none => rfl
    | some b =>
      obtain ⟨row, hrow, hget⟩ := hin p v b hb
      rw [Option.map_some, h.in_empty row hrow b (mem_of_getElem? hget)]
      rfl

theorem Counted.receive {b b' : MessageBuffer} {arrival_time : ℕ} (hs : Counted P s)
    (hb : s.inQueue incoming vnet = some b)
    (hlen : b'.m_prio_heap.length = b.m_prio_heap.length + 1) :
    Counted P (s.receive incoming vnet b' arrival_time) := by
  have hsome : (s.inQueue incoming vnet).isSome = true := by
    rw [hb]
    rfl
  have hset : ∀ p v, (s.receive incoming vnet b' arrival_time).inQueue p v
      = if p = incoming ∧ v = vnet then some b' else s.inQueue p v :=
    inQueue_setIn hsome
  have hsize : (s.receive incoming vnet b' arrival_time).m_in.length = s.m_in.length :=
    setIn_length b'
  refine ⟨⟨hs.wellFormed.out_size, hs.wellFormed.links, hs.wellFormed.onTime⟩, ?_, ?_⟩
  · intro p v b1 hb1
    rw [hset] at hb1
    by_cases hpv : p = incoming ∧ v = vnet
    · rw [hpv.2]
      exact hs.rows _ _ _ hb
    · rw [if_neg hpv] at hb1
      exact hs.rows p v b1 hb1
  · intro v
    have hcount := inCount_of_set hb hset hsize v
    change update s.m_pending_message_count vnet _ v = _
    by_cases hv : v = vnet
    · subst hv
      rw [update_self, hs.count]
      rw [if_pos rfl, if_pos rfl] at hcount
      omega
    · rw [update_of_ne hv, hs.count]
      rw [if_neg hv, if_neg hv] at hcount
      omega

section Runs

variable [StdHeap] [StdSort]

theorem SwitchStep.counted (h : SwitchStep P s s') (hs : Counted P s) : Counted P s' := by
  cases h with
  | arrive message current_time delta delay hb henqueue =>
    have hadded := (enqueue_added _ _ _ message current_time delta delay).elim henqueue
    refine hs.receive hb ?_
    rw [hadded.heap.length_eq, length_cons]
  | wakeup s' hwakeup => exact ((wakeup_advances hs).elim hwakeup).1.counted
  | outputs m_out hwf => exact ⟨hwf, hs.rows, hs.count⟩
  | clock t ht =>
    refine ⟨⟨hs.wellFormed.out_size, hs.wellFormed.links, ?_⟩, hs.rows, hs.count⟩
    intro link v b hb hfifo hr
    exact (hs.wellFormed.onTime link v b hb hfifo hr).trans (Nat.add_le_add_right ht _)

/-- **A switch forgets no message.** In every state of a run the count of a virtual network is the
number of its messages in the input buffers. A wakeup that ends leaves a ready message only with a
wakeup in the next cycle or later, and it ends unless a destination is behind no link or a row of
`m_out` is too short. -/
theorem switch_forgets_no_message (P : SwitchParams) {m_in : List (List (Option MessageBuffer))}
    {m_out : List (List PortBuffer)} {rng : ℕ → ℕ} {s : SwitchState} (hwiring : Wiring P m_in m_out)
    (hrun : Relation.ReflTransGen (SwitchStep P) (.connected m_in m_out rng) s) :
    (∀ v, s.m_pending_message_count v = s.inCount v)
      ∧ (∀ s', s.wakeup P = .ok s' → ∀ p v b, s'.inQueue p v = some b →
          b.isReady s'.now = true → ∃ t ∈ s'.m_scheduled_wakeups, s'.now + P.clockPeriod ≤ t)
      ∧ Ok (fun _ => True) Unconnected (s.wakeup P) := by
  have hs : Counted P s :=
    reflTransGen_keeps (fun _ _ h hstep => SwitchStep.counted hstep h) (hwiring.counted rng) hrun
  refine ⟨hs.count, ?_, (wakeup_advances hs).imp (fun _ _ => trivial)⟩
  intro s' hwakeup p v b hb hready
  have hsettled := ((wakeup_advances hs).elim hwakeup).2 p v b hb hready
  exact ⟨_, hsettled, le_rfl⟩

end Runs

/-! ## A switch that waits for a slot -/

/-- Messages for node 0 come in on one port. The queues of the links have one slot. -/
def onePort : SwitchState :=
  .connected [[some (new 0 true false)]] [replicate 3 emptyPort, replicate 3 emptyPort] (fun _ => 0)

def messageTo0 : Message :=
  { payload := 0, m_Destination := {0}, m_time := 0, m_LastEnqueueTime := 0, m_msg_counter := 0 }

/-- A buffer of `onePort` with `n` messages that arrive at time 1. -/
def filledBuffer (n : ℕ) : MessageBuffer :=
  { new 0 true false with
    m_prio_heap := (range n).map (fun k => messageTo0.stamped 1 (k + 1))
    m_last_arrival_time := if n = 0 then 0 else 1
    m_msgs_this_cycle := n
    m_msg_counter := n }

/-- Two messages have arrived. -/
def bothArrived : SwitchState :=
  { (onePort.receive 0 0 (filledBuffer 1) 1).receive 0 0 (filledBuffer 2) 1 with now := 1 }

theorem onePort_wiring : Wiring overlapping [[some (new 0 true false)]]
    [replicate 3 emptyPort, replicate 3 emptyPort] where
  out_size := rfl
  in_rows := by decide
  in_empty row hrow b hb := by
    rw [mem_singleton] at hrow
    rw [hrow, mem_singleton, Option.some.injEq] at hb
    rw [hb]
    rfl
  out_new row hrow b hb := by
    rw [mem_pair, or_self] at hrow
    rw [hrow] at hb
    rw [eq_of_mem_replicate hb]
    rfl

/-- One message moves, the other finds no slot and the switch is scheduled for the next cycle. -/
theorem switch_forgets_no_message_blocked :
    let _ : StdHeap := sortedHeap
    let _ : StdSort := insertionStdSort
    ∃ s', bothArrived.wakeup overlapping = .ok s'
      ∧ (∃ b, s'.inQueue 0 0 = some b ∧ b.isReady s'.now = true)
      ∧ ∃ t ∈ s'.m_scheduled_wakeups, s'.now + overlapping.clockPeriod ≤ t := by
  intro _ _
  have hfirst : SwitchStep overlapping onePort (onePort.receive 0 0 (filledBuffer 1) 1) :=
    .arrive messageTo0 0 1 0 rfl rfl
  have hsecond : SwitchStep overlapping (onePort.receive 0 0 (filledBuffer 1) 1)
      ((onePort.receive 0 0 (filledBuffer 1) 1).receive 0 0 (filledBuffer 2) 1) :=
    .arrive messageTo0 0 1 0 rfl rfl
  have hrun : Relation.ReflTransGen (SwitchStep overlapping) onePort bothArrived :=
    ((Relation.ReflTransGen.single hfirst).tail hsecond).tail (.clock 1 (Nat.zero_le 1))
  have heval : (bothArrived.wakeup overlapping).toOption.any
      (fun s' => (s'.inQueue 0 0).any (fun b => b.isReady s'.now)) = true := by
    decide +kernel
  obtain ⟨s', hs', hready⟩ := exists_ok_of_any heval
  obtain ⟨b, hb, hready⟩ := Option.any_eq_true _ _ |>.1 hready
  refine ⟨s', hs', ⟨b, hb, hready⟩, ?_⟩
  exact (switch_forgets_no_message overlapping onePort_wiring hrun).2.1 s' hs' 0 0 b hb hready

end Bindu.Ruby
