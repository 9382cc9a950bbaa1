/-
How a switch of the simple network splits a multicast: the loop of `operateMessageBuffer`.

The link order may be any permutation of the links, and the entries of the routing table may
overlap. A round of the loop either finds a queue without a slot and changes no queue, or takes
the message and puts a copy on every link that has a destination left. The destinations of the
copies are the shares of `greedySplit`.

With adaptive routing the loop first asks for the length of every queue of every link. It asks for
as many as there are virtual networks, but a row of `m_out` ends at the last virtual network that
the receiver listens to: `operateVnet` looks at the length of a row of `m_in` before it reads it,
this loop does not. So a round is defined only if the rows are long enough.

Sources: `PerfectSwitch.cc`, `NetDest.cc`.
-/
import Bindu.Lib.GreedySplit
import Bindu.Garnet.MessageHeap
import Bindu.Ruby.PerfectSwitch

open Bindu.Lib Bindu.Garnet MessageBuffer

namespace Bindu.Ruby

open SwitchState
open List hiding Disjoint

/-! ## Routing -/

section Route

variable {P : SwitchParams}

theorem pickLink_eq (copies : List (ℕ × NetDest)) (d : NetDest) (link : ℕ) :
    pickLink P (copies, d) link
      = (if (d ∩ P.entry link).Nonempty then copies ++ [(link, d ∩ P.entry link)] else copies,
          d \ P.entry link) := by
  unfold pickLink NetDest.intersectionIsNotEmpty NetDest.AND NetDest.removeNetDest
  by_cases hne : (d ∩ P.entry link).Nonempty
  · simp [hne]
  · simp [hne, sdiff_of_no_share hne]

/-- The loop over the links is a greedy split along the link order. -/
theorem route_eq (m_link_order : List LinkOrder) (d : NetDest) :
    route P m_link_order d = (greedySplit P.entry (m_link_order.map LinkOrder.m_link) d,
      leftOver P.entry (m_link_order.map LinkOrder.m_link) d) := by
  have hloop : ∀ (l : List LinkOrder) (copies : List (ℕ × NetDest)) (d : NetDest),
      l.foldl (fun acc l => pickLink P acc l.m_link) (copies, d)
        = (copies ++ greedySplit P.entry (l.map LinkOrder.m_link) d,
            leftOver P.entry (l.map LinkOrder.m_link) d) := by
    intro l
    induction l with
    | nil =>
      intro copies d
      rw [map_nil, greedySplit, append_nil]
      rfl
    | cons k l ih =>
      intro copies d
      rw [foldl_cons, pickLink_eq, ih, map_cons, greedySplit_cons]
      split_ifs
      · rw [append_assoc, singleton_append]
        rfl
      · rfl
  rw [route, hloop, nil_append]

end Route

/-! ## Reading and writing the queues -/

variable {b : MessageBuffer}

namespace SwitchState

variable {s s' : SwitchState} {link vnet incoming : ℕ}

/-- Is there a `m_out[link][vnet]`? -/
def HasQueue (s : SwitchState) (link vnet : ℕ) : Prop := (s.outQueue link vnet).isSome = true

theorem hasQueue_of_eq (h : s.outQueue link vnet = some b) : s.HasQueue link vnet := by
  rw [HasQueue, h]
  rfl

/-- Reading a table of rows after one element of it was set. -/
theorem getElem?_modify_set {α : Type} {rows : List (List α)} {i j : ℕ} (x : α)
    (h : (rows[i]?.bind (·[j]?)).isSome = true) (k m : ℕ) :
    (rows.modify i (·.set j x))[k]?.bind (·[m]?)
      = if k = i ∧ m = j then some x else rows[k]?.bind (·[m]?) := by
  by_cases hk : k = i
  · subst hk
    cases hrow : rows[k]? with
    | none => simp [hrow] at h
    | some row =>
      have hlt : j < row.length := by simpa [hrow] using h
      have hget : (rows.modify k (·.set j x))[k]? = some (row.set j x) := by
        rw [getElem?_modify_eq, hrow]
        rfl
      rw [hget, Option.bind_some, Option.bind_some, getElem?_set, if_pos hlt]
      simp only [true_and, eq_comm]
  · rw [getElem?_modify_ne _ _ (Ne.symm hk), if_neg (fun hc => hk hc.1)]

theorem portBuffer_setOut {b : PortBuffer} (h : (s.portBuffer link vnet).isSome = true)
    (l v : ℕ) : (s.setOut link vnet b).portBuffer l v
      = if l = link ∧ v = vnet then some b else s.portBuffer l v :=
  getElem?_modify_set b h l v

theorem outQueue_setOut {b : PortBuffer} (h : s.HasQueue link vnet) (l v : ℕ) :
    (s.setOut link vnet b).outQueue l v
      = if l = link ∧ v = vnet then some b.toMessageBuffer else s.outQueue l v := by
  have hsome : (s.portBuffer link vnet).isSome = true := by
    simpa [HasQueue, outQueue] using h
  unfold outQueue
  rw [portBuffer_setOut hsome]
  split_ifs <;> rfl

theorem inQueue_setIn (h : (s.inQueue incoming vnet).isSome = true)
    (p v : ℕ) : (s.setIn incoming vnet b).inQueue p v
      = if p = incoming ∧ v = vnet then some b else s.inQueue p v := by
  unfold inQueue at h
  have hsome : (s.m_in[incoming]?.bind (·[vnet]?)).isSome = true := by
    cases hget : s.m_in[incoming]?.bind (·[vnet]?) with
    | none => rwa [hget] at h
    | some x => rfl
  unfold inQueue setIn
  rw [getElem?_modify_set (some b) hsome]
  split_ifs <;> rfl

theorem setOut_length (b : PortBuffer) : (s.setOut link vnet b).m_out.length = s.m_out.length :=
  length_modify _ _ _

theorem setIn_length (b : MessageBuffer) : (s.setIn incoming vnet b).m_in.length = s.m_in.length :=
  length_modify _ _ _

theorem portBuffer_eq_some (h : s.outQueue link vnet = some b) :
    ∃ p : PortBuffer, s.portBuffer link vnet = some p ∧ p.toMessageBuffer = b :=
  Option.map_eq_some_iff.1 h

theorem getOut_ok (s : SwitchState) (link vnet : ℕ) :
    Ok (fun p => s.portBuffer link vnet = some p ∧ s.outQueue link vnet = some p.toMessageBuffer)
      (fun e => e = .m_out_range ∧ ¬ s.HasQueue link vnet) (s.getOut link vnet) := by
  unfold getOut HasQueue outQueue
  cases s.portBuffer link vnet with
  | none => exact ⟨rfl, Bool.false_ne_true⟩
  | some p => exact ⟨rfl, rfl⟩

end SwitchState

/-! ## The link order -/

/-- `s'` differs from `s` in the link order, in what `getSize` remembers and in the outcomes of
`random_mt` that are left. -/
structure SameQueues (s s' : SwitchState) : Prop where
  now : s'.now = s.now
  m_in : s'.m_in = s.m_in
  out_size : s'.m_out.length = s.m_out.length
  outQueue : ∀ link v, s'.outQueue link v = s.outQueue link v
  m_pending_message_count : s'.m_pending_message_count = s.m_pending_message_count
  m_scheduled_wakeups : s'.m_scheduled_wakeups = s.m_scheduled_wakeups

namespace SameQueues

variable {s s' s'' : SwitchState}

theorem refl (s : SwitchState) : SameQueues s s := ⟨rfl, rfl, rfl, fun _ _ => rfl, rfl, rfl⟩

theorem trans (h : SameQueues s s') (h' : SameQueues s' s'') : SameQueues s s'' where
  now := h'.now.trans h.now
  m_in := h'.m_in.trans h.m_in
  out_size := h'.out_size.trans h.out_size
  outQueue link v := (h'.outQueue link v).trans (h.outQueue link v)
  m_pending_message_count := h'.m_pending_message_count.trans h.m_pending_message_count
  m_scheduled_wakeups := h'.m_scheduled_wakeups.trans h.m_scheduled_wakeups

theorem hasQueue (h : SameQueues s s') (link v : ℕ) : s'.HasQueue link v ↔ s.HasQueue link v := by
  unfold HasQueue
  rw [h.outQueue]

theorem inQueue (h : SameQueues s s') (p v : ℕ) : s'.inQueue p v = s.inQueue p v := by
  unfold SwitchState.inQueue
  rw [h.m_in]

end SameQueues

section LinkOrder

variable {P : SwitchParams} {s : SwitchState}

theorem addQueueLength_ok {out : ℕ} (acc : ℕ × SwitchState) (v : ℕ) (h : SameQueues s acc.2) :
    Ok (fun r => (SameQueues s r.2 ∧ r.2.m_link_order = acc.2.m_link_order) ∧ s.HasQueue out v)
      (fun e => e = .m_out_range ∧ ¬ s.HasQueue out v) (addQueueLength out acc v) := by
  unfold addQueueLength
  refine ((acc.2.getOut_ok out v).mono (fun _ h => h) ?_).bind ?_
  · exact fun e he => ⟨he.1, fun hq => he.2 ((h.hasQueue out v).2 hq)⟩
  · rintro b ⟨-, hb⟩
    have hq := hasQueue_of_eq hb
    refine ⟨⟨h.trans ⟨rfl, rfl, setOut_length _, ?_, rfl, rfl⟩, rfl⟩, (h.hasQueue out v).1 hq⟩
    intro link v'
    rw [outQueue_setOut hq]
    split_ifs with hlv
    · rw [hlv.1, hlv.2, hb]
    · rw [hlv.1, hlv.2, hb]
    · rfl

/-- The links of a link order. -/
def links (m_link_order : List LinkOrder) : List ℕ := m_link_order.map LinkOrder.m_link

theorem measureLink_ok {s' : SwitchState} (out : ℕ) (h : SameQueues s s') :
    Ok (fun s'' => (SameQueues s s'' ∧ links s''.m_link_order = (links s'.m_link_order).set out out)
        ∧ ∀ v ∈ range P.m_virtual_networks, s.HasQueue out v)
      (fun e => e = .m_out_range ∧ ¬ ∀ v ∈ range P.m_virtual_networks, s.HasQueue out v)
      (measureLink P s' out) := by
  unfold measureLink
  have hloop := Ok.foldlM_all (E := fun e => e = SwitchFault.m_out_range) (f := addQueueLength out)
    (fun _ r => SameQueues s r.2 ∧ r.2.m_link_order = s'.m_link_order) (s.HasQueue out)
    (range P.m_virtual_networks) (0, s') ⟨h, rfl⟩ ?_
  · refine hloop.bind ?_
    rintro r ⟨⟨hsame, horder⟩, hqueues⟩
    refine ⟨⟨hsame.trans ⟨rfl, rfl, rfl, fun _ _ => rfl, rfl, rfl⟩, ?_⟩, hqueues⟩
    unfold links
    rw [map_set, horder]
  · rintro v rest acc ⟨hsame, horder⟩
    refine (addQueueLength_ok acc v hsame).imp ?_
    rintro r ⟨⟨hsame', horder'⟩, hq⟩
    exact ⟨⟨hsame', horder'.trans horder⟩, hq⟩

/-- The loop of the measurements over all links leaves the link order with every link. -/
theorem measureLinks_ok (hsize : s.m_link_order.length = s.m_out.length) :
    Ok (fun s' => (SameQueues s s' ∧ links s'.m_link_order = range s.m_out.length)
        ∧ ∀ out ∈ range s.m_out.length, ∀ v ∈ range P.m_virtual_networks,
          s.HasQueue out v)
      (fun e => e = .m_out_range ∧ ¬ ∀ out ∈ range s.m_out.length,
        ∀ v ∈ range P.m_virtual_networks, s.HasQueue out v)
      ((range s.m_out.length).foldlM (measureLink P) s) := by
  -- the links that were measured stand at their own places
  let I : List ℕ → SwitchState → Prop := fun rest s' => SameQueues s s' ∧
    ∃ done, done ++ rest = range s.m_out.length
      ∧ links s'.m_link_order = done ++ (links s.m_link_order).drop done.length
  have hlen : (links s.m_link_order).length = s.m_out.length := by
    unfold links
    rw [length_map, hsize]
  have hloop := Ok.foldlM_all (E := fun e => e = SwitchFault.m_out_range) (f := measureLink P) I
    (fun out => ∀ v ∈ range P.m_virtual_networks, s.HasQueue out v)
    (range s.m_out.length) s ⟨.refl s, [], rfl, rfl⟩ ?_
  · refine hloop.imp ?_
    rintro s' ⟨⟨hsame, done, hdone, hlinks⟩, hqueues⟩
    rw [append_nil] at hdone
    refine ⟨⟨hsame, ?_⟩, hqueues⟩
    rw [hlinks, hdone, length_range, drop_eq_nil_of_le hlen.le, append_nil]
  · rintro out rest s' ⟨hsame, done, hdone, hlinks⟩
    refine (measureLink_ok out hsame).imp ?_
    rintro s'' ⟨⟨hsame', hset⟩, hqueues⟩
    have hout : (range s.m_out.length)[done.length]? = some out := by
      rw [← hdone, getElem?_append_right le_rfl, Nat.sub_self]
      rfl
    obtain ⟨hlt, hget⟩ := List.getElem?_eq_some_iff.1 hout
    rw [getElem_range] at hget
    rw [length_range] at hlt
    refine ⟨⟨hsame', done ++ [out], ?_, ?_⟩, hqueues⟩
    · rw [append_assoc, singleton_append, hdone]
    · rw [hset, hlinks, ← hget, set_append_right _ _ le_rfl, Nat.sub_self,
        drop_eq_getElem_cons (by rw [hlen]; exact hlt), set_cons_zero,
        append_assoc, length_append]
      rfl

/-- A buffer that is a strict FIFO without random delays gets its messages in the order of their
arrival, so the last one arrives after a cycle at the latest. -/
def OnTime (P : SwitchParams) (now : ℕ) (b : MessageBuffer) : Prop :=
  b.m_strict_fifo = true → (P.randomization || b.m_randomization) = false →
    b.m_last_arrival_time ≤ now + P.clockPeriod

/-- What `addOutPort` builds and `operateMessageBuffer` keeps. -/
structure WellFormed (P : SwitchParams) (s : SwitchState) : Prop where
  out_size : s.m_out.length = P.m_routing_table.length
  links : (links s.m_link_order).Perm (range P.m_routing_table.length)
  onTime : ∀ link v b, s.outQueue link v = some b → OnTime P s.now b

theorem WellFormed.order_size (h : WellFormed P s) :
    s.m_link_order.length = P.m_routing_table.length := by
  have hlen := h.links.length_eq
  rwa [length_range, Ruby.links, length_map] at hlen

/-- The order in which the links are looked at, if it is not adaptive. -/
def fixedOrder (P : SwitchParams) (s : SwitchState) : List ℕ :=
  if P.m_adaptive_routing then range s.m_out.length else links s.m_link_order

variable [StdSort]

theorem orderLinks_ok (hwf : WellFormed P s) (vnet : ℕ) :
    Ok (fun s' => SameQueues s s'
        ∧ (links s'.m_link_order).Perm (range P.m_routing_table.length)
        ∧ if P.m_adaptive_routing && !P.m_ordered vnet then
            ∀ link < s.m_out.length, ∀ v < P.m_virtual_networks, s.HasQueue link v
          else links s'.m_link_order = fixedOrder P s)
      (fun e => e = .m_out_range ∧ (P.m_adaptive_routing && !P.m_ordered vnet) = true
        ∧ ¬ ∀ link < s.m_out.length, ∀ v < P.m_virtual_networks, s.HasQueue link v)
      (orderLinks P s vnet) := by
  have hranges : (∀ out ∈ range s.m_out.length, ∀ v ∈ range P.m_virtual_networks,
      s.HasQueue out v) ↔ ∀ link < s.m_out.length, ∀ v < P.m_virtual_networks,
        s.HasQueue link v := by
    simp only [mem_range]
  unfold orderLinks fixedOrder
  cases P.m_adaptive_routing with
  | false => exact ⟨.refl s, hwf.links, rfl⟩
  | true =>
    cases P.m_ordered vnet with
    | true =>
      have hlinks : links ((range s.m_out.length).map (fun out => ⟨out, 0⟩))
          = range s.m_out.length := by
        unfold links
        rw [map_map]
        exact map_id _
      refine ⟨⟨rfl, rfl, rfl, fun _ _ => rfl, rfl, rfl⟩, ?_, hlinks⟩
      rw [hlinks, hwf.out_size]
    | false =>
      have hsize := hwf.order_size.trans hwf.out_size.symm
      refine ((measureLinks_ok hsize).mono (fun _ h => h) ?_).bind ?_
      · exact fun e he => ⟨he.1, rfl, fun hall => he.2 (hranges.2 hall)⟩
      · rintro s' ⟨⟨hsame, hlinks⟩, hqueues⟩
        refine ⟨hsame.trans ⟨rfl, rfl, rfl, fun _ _ => rfl, rfl, rfl⟩, ?_, hranges.1 hqueues⟩
        -- sorting moves the links around
        have hperm : (links (StdSort.sort LinkOrder.lt s'.m_link_order)).Perm
            (links s'.m_link_order) := (StdSort.sort_perm _ _).map _
        rw [hlinks, hwf.out_size] at hperm
        exact hperm

end LinkOrder

/-! ## The queues of the links that get a copy -/

variable {order : List ℕ} {dests : NetDest}

section Queues

variable {P : SwitchParams} {s : SwitchState}

/-- `link` is the first link of the order that has a certain destination behind it. -/
def FirstFor (P : SwitchParams) (order : List ℕ) (dests : NetDest) (link : ℕ) : Prop :=
  ∃ before after, order = before ++ link :: after
    ∧ ∃ d ∈ dests, d ∈ P.entry link ∧ ∀ l ∈ before, d ∉ P.entry l

/-- The links that get a copy are those that come first for a destination. -/
theorem firstFor_iff {link : ℕ} :
    FirstFor P order dests link ↔ ∃ c ∈ greedySplit P.entry order dests, c.1 = link := by
  constructor
  · rintro ⟨before, after, horder, d, hd, hlink, hbefore⟩
    refine ⟨(link, leftOver P.entry before dests ∩ P.entry link), mem_greedySplit.2 ?_, rfl⟩
    refine ⟨before, after, horder, rfl, d, ?_⟩
    exact Finset.mem_inter.2 ⟨mem_leftOver.2 ⟨hd, hbefore⟩, hlink⟩
  · rintro ⟨c, hc, rfl⟩
    obtain ⟨before, after, horder, hshare, d, hd⟩ := mem_greedySplit.1 hc
    rw [hshare, Finset.mem_inter, mem_leftOver] at hd
    exact ⟨before, after, horder, d, hd.1.1, hd.2, hd.1.2⟩

/-- All the elements of `m_out` that a round reads are there. With adaptive routing it reads the
queue of every link for every virtual network, otherwise those that get a copy. -/
def QueuesInRange (P : SwitchParams) (s : SwitchState) (vnet : ℕ) (dests : NetDest) : Prop :=
  if P.m_adaptive_routing && !P.m_ordered vnet then
    ∀ link < s.m_out.length, ∀ v < P.m_virtual_networks, s.HasQueue link v
  else
    ∀ link, FirstFor P (fixedOrder P s) dests link → s.HasQueue link vnet

/-- Once the links are in order, the queues that are still to be read are those of the copies. -/
theorem queuesInRange_iff {vnet : ℕ} (hvnet : vnet < P.m_virtual_networks)
    (hlt : ∀ c ∈ greedySplit P.entry order dests, c.1 < s.m_out.length)
    (horder : if P.m_adaptive_routing && !P.m_ordered vnet then
        ∀ link < s.m_out.length, ∀ v < P.m_virtual_networks, s.HasQueue link v
      else order = fixedOrder P s) :
    QueuesInRange P s vnet dests ↔ ∀ c ∈ greedySplit P.entry order dests, s.HasQueue c.1 vnet := by
  unfold QueuesInRange
  split_ifs at horder ⊢
  · exact iff_of_true horder (fun c hc => horder c.1 (hlt c hc) vnet hvnet)
  · rw [← horder]
    simp only [firstFor_iff]
    exact ⟨fun h c hc => h c.1 ⟨c, hc, rfl⟩, fun h link ⟨c, hc, heq⟩ => heq ▸ h c hc⟩

def SwitchState.HasSlot (s : SwitchState) (link vnet : ℕ) : Prop :=
  ∃ b, s.outQueue link vnet = some b ∧ b.areNSlotsAvailable 1 s.now = true

theorem checkSlots_ok (s : SwitchState) (vnet : ℕ) (copies : List (ℕ × NetDest)) :
    Ok (fun enough => (enough = true ↔ ∀ c ∈ copies, s.HasSlot c.1 vnet)
        ∧ ∀ c ∈ copies, s.HasQueue c.1 vnet)
      (fun e => e = .m_out_range ∧ ¬ ∀ c ∈ copies, s.HasQueue c.1 vnet)
      (copies.foldlM (checkSlot s vnet) true) := by
  let I : List (ℕ × NetDest) → Bool → Prop := fun rest enough =>
    ∃ done, done ++ rest = copies ∧ (enough = true ↔ ∀ c ∈ done, s.HasSlot c.1 vnet)
  have hloop := Ok.foldlM_all (E := fun e => e = SwitchFault.m_out_range) (f := checkSlot s vnet)
    I (fun c => s.HasQueue c.1 vnet) copies true
    ⟨[], rfl, fun _ c hc => absurd hc not_mem_nil, fun _ => rfl⟩ ?_
  · refine hloop.imp ?_
    rintro enough ⟨⟨done, hdone, henough⟩, hqueues⟩
    rw [append_nil] at hdone
    rw [hdone] at henough
    exact ⟨henough, hqueues⟩
  · rintro c rest enough ⟨done, hdone, henough⟩
    unfold checkSlot
    refine (s.getOut_ok c.1 vnet).bind ?_
    rintro b ⟨-, hb⟩
    have hslot : s.HasSlot c.1 vnet ↔ b.areNSlotsAvailable 1 s.now = true := by
      unfold HasSlot
      rw [hb]
      exact ⟨fun ⟨b', heq, h⟩ => Option.some.inj heq ▸ h, fun h => ⟨_, rfl, h⟩⟩
    refine ⟨⟨done ++ [c], ?_, ?_⟩, hasQueue_of_eq hb⟩
    · rw [append_assoc, singleton_append, hdone]
    · rw [forall_mem_append, forall_mem_singleton, hslot, ← henough]
      cases b.areNSlotsAvailable 1 s.now with
      | false => exact ⟨fun h => absurd h Bool.false_ne_true, fun h => h.2⟩
      | true => exact ⟨fun h => ⟨h, rfl⟩, fun h => h.1⟩

end Queues

/-! ## Enqueuing the copies -/

section Enqueue

variable {P : SwitchParams} {s : SwitchState} {vnet : ℕ} {message : Message}

theorem random_time_eq (s : SwitchState) (randomized : Bool) :
    ∃ rng, (s.random_time randomized).2 = { s with rng := rng } := by
  unfold random_time random
  cases randomized with
  | false => exact ⟨s.rng, rfl⟩
  | true =>
    dsimp only
    rw [Bool.not_true, if_neg Bool.false_ne_true]
    split
    · exact ⟨_, rfl⟩
    · exact ⟨_, rfl⟩

theorem SwitchState.random_time_pos (s : SwitchState) : 0 < (s.random_time true).1 := by
  unfold random_time random
  dsimp only
  rw [Bool.not_true, if_neg Bool.false_ne_true]
  split
  · exact Nat.add_pos_left (Nat.add_pos_left Nat.one_pos _) _
  · exact Nat.add_pos_left Nat.one_pos _

/-- What the enqueue of a copy leaves alone. -/
structure CopyFrame (s s' : SwitchState) : Prop where
  now : s'.now = s.now
  m_in : s'.m_in = s.m_in
  out_size : s'.m_out.length = s.m_out.length
  m_link_order : s'.m_link_order = s.m_link_order
  m_pending_message_count : s'.m_pending_message_count = s.m_pending_message_count
  m_scheduled_wakeups : s'.m_scheduled_wakeups = s.m_scheduled_wakeups

theorem CopyFrame.trans {s s' s'' : SwitchState} (h : CopyFrame s s') (h' : CopyFrame s' s'') :
    CopyFrame s s'' where
  now := h'.now.trans h.now
  m_in := h'.m_in.trans h.m_in
  out_size := h'.out_size.trans h.out_size
  m_link_order := h'.m_link_order.trans h.m_link_order
  m_pending_message_count := h'.m_pending_message_count.trans h.m_pending_message_count
  m_scheduled_wakeups := h'.m_scheduled_wakeups.trans h.m_scheduled_wakeups

variable [StdHeap]

theorem enqueue_onTime {now delay : ℕ} (hb : OnTime P now b)
    (hlast : message.m_LastEnqueueTime ≤ now)
    (hdelay : (P.randomization || b.m_randomization) = true → 0 < delay) :
    Ok (fun x => Added message now b x.1 x.2 ∧ OnTime P now x.1) ⊥
      (b.enqueue P.warmup_enabled (P.randomization || b.m_randomization) message now
        P.clockPeriod delay) := by
  have hperiod := P.clockPeriod_pos
  have hadded := enqueue_added b P.warmup_enabled
    (P.randomization || b.m_randomization) message now P.clockPeriod delay
  -- the arrival time is later than now and not before the last one of a strict FIFO
  have harrival : now < b.arrivalTime (P.randomization || b.m_randomization) now P.clockPeriod delay
      ∧ (b.m_strict_fifo = true → b.m_last_arrival_time
        ≤ b.arrivalTime (P.randomization || b.m_randomization) now P.clockPeriod delay) := by
    unfold arrivalTime
    unfold OnTime at hb
    cases hr : P.randomization || b.m_randomization with
    | false =>
      rw [Bool.not_false, if_pos rfl]
      exact ⟨by omega, fun hfifo => hb hfifo hr⟩
    | true =>
      have hpos := hdelay hr
      rw [Bool.not_true, if_neg Bool.false_ne_true]
      cases b.m_strict_fifo with
      | false => exact ⟨Nat.lt_add_of_pos_right hpos, fun h => absurd h Bool.false_ne_true⟩
      | true =>
        rw [if_pos rfl]
        exact ⟨by omega, fun _ => by omega⟩
  have horder : (!(b.m_strict_fifo && decide (b.arrivalTime
      (P.randomization || b.m_randomization) now P.clockPeriod delay < b.m_last_arrival_time)))
        = true := by
    cases hfifo : b.m_strict_fifo with
    | false => rfl
    | true =>
      rw [Bool.true_and, Bool.not_eq_true', decide_eq_false_iff_not]
      exact Nat.not_lt.2 (harrival.2 hfifo)
  unfold enqueue at hadded ⊢
  dsimp only at hadded ⊢
  rw [decide_eq_true hperiod, decide_eq_true harrival.1, horder, decide_eq_true hlast] at hadded ⊢
  refine ⟨hadded, ?_⟩
  intro hfifo hr
  have hr' : (P.randomization || b.m_randomization) = false := hr
  unfold lastArrivalTime arrivalTime
  rw [hr']
  cases P.warmup_enabled with
  | false => exact le_rfl
  | true => exact hb hfifo hr'

theorem enqueueCopy_ok {c : ℕ × NetDest} (hb : s.outQueue c.1 vnet = some b)
    (honTime : OnTime P s.now b) (hlast : message.m_LastEnqueueTime ≤ s.now) :
    Ok (fun s' => CopyFrame s s' ∧ ∃ b' arrival_time,
        Added { message with m_Destination := c.2 } s.now b b' arrival_time
        ∧ OnTime P s.now b'
        ∧ ∀ link v, s'.outQueue link v
          = if link = c.1 ∧ v = vnet then some b' else s.outQueue link v)
      ⊥ (enqueueCopy P vnet message s c) := by
  obtain ⟨p, hp, rfl⟩ := portBuffer_eq_some hb
  have hget : s.getOut c.1 vnet = .ok p := by
    unfold getOut
    rw [hp]
    rfl
  unfold enqueueCopy
  rw [hget, ok_bind]
  obtain ⟨rng, hrng⟩ := random_time_eq s (P.randomization || p.m_randomization)
  have hpos : (P.randomization || p.m_randomization) = true →
      0 < (s.random_time (P.randomization || p.m_randomization)).1 := by
    intro hr
    rw [hr]
    exact s.random_time_pos
  dsimp only
  rw [hrng]
  refine Ok.bind (Ok.mapError (enqueue_onTime honTime hlast hpos)) ?_
  rintro ⟨b', arrival_time⟩ ⟨hadded, honTime'⟩
  exact ⟨⟨rfl, rfl, setOut_length _, rfl, rfl, rfl⟩, b', arrival_time, hadded, honTime',
    outQueue_setOut (s := { s with rng := rng }) (hasQueue_of_eq hb)⟩

/-- The copies are in the queues of their links, and no other queue has changed. -/
structure Forked (vnet : ℕ) (message : Message) (copies : List (ℕ × NetDest))
    (s s' : SwitchState) : Prop where
  added : ∀ c ∈ copies, ∃ b b' arrival_time, s.outQueue c.1 vnet = some b
    ∧ s'.outQueue c.1 vnet = some b'
    ∧ Added { message with m_Destination := c.2 } s.now b b' arrival_time
  other : ∀ link v, (v = vnet → link ∉ copies.map Prod.fst) → s'.outQueue link v = s.outQueue link v

theorem enqueueCopies_ok (s : SwitchState) (vnet : ℕ) (message : Message)
    {copies : List (ℕ × NetDest)} (hnodup : (copies.map Prod.fst).Nodup)
    (hqueues : ∀ c ∈ copies, s.HasQueue c.1 vnet)
    (honTime : ∀ link v b, s.outQueue link v = some b → OnTime P s.now b)
    (hlast : message.m_LastEnqueueTime ≤ s.now) :
    Ok (fun s' => CopyFrame s s' ∧ Forked vnet message copies s s'
        ∧ ∀ link v b, s'.outQueue link v = some b → OnTime P s'.now b)
      ⊥ (copies.foldlM (enqueueCopy P vnet message) s) := by
  let I : List (ℕ × NetDest) → SwitchState → Prop := fun rest s' =>
    CopyFrame s s' ∧ (∃ done, done ++ rest = copies ∧ Forked vnet message done s s')
      ∧ ∀ link v b, s'.outQueue link v = some b → OnTime P s'.now b
  have hloop := Ok.foldlM (E := fun _ : SwitchFault => False) (f := enqueueCopy P vnet message) I
    copies s ⟨⟨rfl, rfl, rfl, rfl, rfl, rfl⟩, ⟨[], rfl, ?_, fun _ _ _ => rfl⟩, honTime⟩ ?_
  · refine hloop.imp ?_
    rintro s' ⟨hframe, ⟨done, hdone, hforked⟩, honTime'⟩
    rw [append_nil] at hdone
    exact ⟨hframe, hdone ▸ hforked, honTime'⟩
  · exact fun c hc => absurd hc not_mem_nil
  · rintro c rest s' ⟨hframe, ⟨done, hdone, hforked⟩, honTime'⟩
    -- no copy for this link is in its queue yet
    have hfresh : c.1 ∉ done.map Prod.fst := by
      rw [← hdone, map_append, map_cons, nodup_append] at hnodup
      exact fun hmem => hnodup.2.2 _ hmem _ mem_cons_self rfl
    have hsame : s'.outQueue c.1 vnet = s.outQueue c.1 vnet := hforked.other _ _ (fun _ => hfresh)
    have hc : c ∈ copies := hdone ▸ mem_append_right _ mem_cons_self
    obtain ⟨b, hb⟩ := Option.isSome_iff_exists.1 (hqueues c hc)
    have hb' : s'.outQueue c.1 vnet = some b := hsame.trans hb
    refine (enqueueCopy_ok hb' (honTime' _ _ _ hb') (hframe.now ▸ hlast)).imp ?_
    rintro s'' ⟨hframe', b', arrival_time, hadded, honTime'', hout⟩
    refine ⟨hframe.trans hframe', ⟨done ++ [c], ?_, ?_, ?_⟩, ?_⟩
    · rw [append_assoc, singleton_append, hdone]
    · rw [forall_mem_append, forall_mem_singleton]
      constructor
      · intro k hk
        obtain ⟨b1, b2, arrival, h1, h2, hadd⟩ := hforked.added k hk
        refine ⟨b1, b2, arrival, h1, ?_, hadd⟩
        rw [hout, if_neg ?_, h2]
        exact fun hkc => hfresh (hkc.1 ▸ mem_map_of_mem hk)
      · refine ⟨b, b', arrival_time, hb, ?_, hframe.now ▸ hadded⟩
        rw [hout, if_pos ⟨rfl, rfl⟩]
    · intro link v hno
      rw [hout, if_neg ?_]
      · refine hforked.other link v (fun hv hmem => hno hv ?_)
        rw [map_append]
        exact mem_append_left _ hmem
      · rintro ⟨rfl, rfl⟩
        refine hno rfl ?_
        rw [map_append]
        exact mem_append_right _ (mem_singleton_self _)
    · intro link v b1 hb1
      rw [hframe'.now]
      rw [hout] at hb1
      split_ifs at hb1
      · exact Option.some.inj hb1 ▸ honTime''
      · exact honTime' link v b1 hb1

end Enqueue

/-! ## A round of the loop -/

section Forward

variable {P : SwitchParams} {s : SwitchState} {incoming vnet : ℕ} {message : Message}

/-- Is every destination behind some link? -/
def Covered (P : SwitchParams) (dests : NetDest) : Prop :=
  ∀ d ∈ dests, ∃ link < P.m_routing_table.length, d ∈ P.entry link

/-- The copies of a message: at most one for a link, each for some of the nodes behind it, and
each destination on exactly one of them. -/
structure ExactSplit (P : SwitchParams) (dests : NetDest) (copies : List (ℕ × NetDest)) :
    Prop where
  links_nodup : (copies.map Prod.fst).Nodup
  links_lt : ∀ c ∈ copies, c.1 < P.m_routing_table.length
  nonempty : ∀ c ∈ copies, c.2.Nonempty
  disjoint : copies.Pairwise (fun c c' => Disjoint c.2 c'.2)
  routed : ∀ c ∈ copies, c.2 ⊆ P.entry c.1
  union : ∀ d, d ∈ dests ↔ ∃ c ∈ copies, d ∈ c.2

theorem exactSplit_greedySplit (hperm : order.Perm (range P.m_routing_table.length))
    (hleft : leftOver P.entry order dests = ∅) :
    ExactSplit P dests (greedySplit P.entry order dests) where
  links_nodup := greedySplit_keys_sublist.nodup (hperm.nodup_iff.2 nodup_range)
  links_lt c hc := by
    have hmem := greedySplit_keys_sublist.subset (mem_map_of_mem hc)
    exact mem_range.1 (hperm.mem_iff.1 hmem)
  nonempty c hc := greedySplit_nonempty hc
  disjoint := greedySplit_disjoint
  routed c hc := greedySplit_subset_entry hc
  union d := by
    have hmem : d ∈ dests ↔ d ∈ leftOver P.entry order dests
        ∨ ∃ c ∈ greedySplit P.entry order dests, d ∈ c.2 := mem_iff_leftOver_or_share
    rw [hmem, hleft]
    exact or_iff_right (Finset.notMem_empty d)

/-- Nothing is left over if and only if every destination is behind a link. -/
theorem covered_iff (hperm : order.Perm (range P.m_routing_table.length)) :
    Covered P dests ↔ leftOver P.entry order dests = ∅ := by
  rw [leftOver_eq_empty]
  have hmem : ∀ link, link ∈ order ↔ link < P.m_routing_table.length := by
    intro link
    rw [hperm.mem_iff, mem_range]
  simp only [hmem]
  rfl

/-- No queue has changed, and the switch tries again in the next cycle. -/
structure Blocked (P : SwitchParams) (vnet : ℕ) (copies : List (ℕ × NetDest))
    (s s' : SwitchState) : Prop where
  full : ∃ c ∈ copies, ¬ s.HasSlot c.1 vnet
  now : s'.now = s.now
  m_in : s'.m_in = s.m_in
  out_size : s'.m_out.length = s.m_out.length
  outQueue : ∀ link v, s'.outQueue link v = s.outQueue link v
  m_pending_message_count : s'.m_pending_message_count = s.m_pending_message_count
  m_scheduled_wakeups : s'.m_scheduled_wakeups
    = scheduleEventAbsolute s.now s.m_scheduled_wakeups (s.now + P.clockPeriod)

/-- The message has left its buffer and the copies are in the queues of their links. -/
structure Moved (incoming vnet : ℕ) (message : Message) (copies : List (ℕ × NetDest))
    (s s' : SwitchState) : Prop extends Forked vnet message copies s s' where
  slots : ∀ c ∈ copies, s.HasSlot c.1 vnet
  dequeued : ∃ b b', s.inQueue incoming vnet = some b ∧ Removed message s.now b b'
    ∧ ∀ p v, s'.inQueue p v = if p = incoming ∧ v = vnet then some b' else s.inQueue p v
  now : s'.now = s.now
  in_size : s'.m_in.length = s.m_in.length
  out_size : s'.m_out.length = s.m_out.length
  m_pending_message_count : s'.m_pending_message_count
    = Function.update s.m_pending_message_count vnet (s.m_pending_message_count vnet - 1)
  m_scheduled_wakeups : s'.m_scheduled_wakeups = s.m_scheduled_wakeups

/-- What a round of the loop has done. -/
def Outcome (P : SwitchParams) (incoming vnet : ℕ) (message : Message) (s : SwitchState)
    (r : Bool × SwitchState) : Prop :=
  ∃ copies, ExactSplit P message.m_Destination copies ∧ (r.1 = false ∧ Blocked P vnet copies s r.2
      ∨ r.1 = true ∧ Moved incoming vnet message copies s r.2)

variable [StdHeap] [StdSort]

/-- A round of the loop reads the elements of `m_out` it needs, splits the message exactly, and
then either waits for a slot or moves the message. Without these elements, or with a destination
behind no link, it faults. -/
theorem forward_ok {rest : List Message} (hwf : WellFormed P s)
    (hb : s.inQueue incoming vnet = some b) (hheap : b.m_prio_heap = message :: rest)
    (hready : message.m_LastEnqueueTime ≤ s.now) (hvnet : vnet < P.m_virtual_networks) :
    Ok (fun r => QueuesInRange P s vnet message.m_Destination ∧ WellFormed P r.2
        ∧ Outcome P incoming vnet message s r)
      (fun e => e = .unrouted ∧ ¬ Covered P message.m_Destination
        ∨ e = .m_out_range ∧ ¬ QueuesInRange P s vnet message.m_Destination)
      (forward P s incoming vnet b) := by
  have hpeek : b.peekMsgPtr = .ok message := peekMsgPtr_eq_ok.2 ⟨rest, hheap⟩
  have hsize := hwf.order_size
  unfold forward
  rw [hpeek]
  change Ok _ _ (Except.ok message >>= _)
  rw [ok_bind, hsize, hwf.out_size, beq_self_eq_true, require_true, ok_bind, ok_bind]
  refine ((orderLinks_ok hwf vnet).mono (fun _ h => h) ?_).bind ?_
  · -- a row of `m_out` is too short for adaptive routing
    rintro e ⟨he, hadaptive, hno⟩
    refine .inr ⟨he, ?_⟩
    unfold QueuesInRange
    rw [if_pos hadaptive]
    exact hno
  · rintro s1 ⟨hsame, hperm, horder⟩
    rw [route_eq]
    refine Ok.require_bind ?_ ?_
    · -- a destination is behind no link
      intro hcount
      refine .inl ⟨rfl, ?_⟩
      rw [covered_iff hperm, ← Finset.card_eq_zero]
      rw [beq_eq_false_iff_ne] at hcount
      exact hcount
    · intro hcount
      rw [beq_iff_eq] at hcount
      have hsplit : ExactSplit P message.m_Destination
          (greedySplit P.entry (links s1.m_link_order) message.m_Destination) :=
        exactSplit_greedySplit hperm (Finset.card_eq_zero.1 hcount)
      have hrange := queuesInRange_iff hvnet
        (fun c hc => hwf.out_size ▸ hsplit.links_lt c hc) horder
      have hqueue : ∀ c : ℕ × NetDest, s1.HasQueue c.1 vnet ↔ s.HasQueue c.1 vnet :=
        fun c => hsame.hasQueue c.1 vnet
      have hslot : ∀ c : ℕ × NetDest, s1.HasSlot c.1 vnet ↔ s.HasSlot c.1 vnet := by
        intro c
        unfold HasSlot
        rw [hsame.outQueue, hsame.now]
      have honTime : ∀ link v b, s1.outQueue link v = some b → OnTime P s1.now b := by
        intro link v b hb
        rw [hsame.now]
        exact hwf.onTime link v b ((hsame.outQueue link v).symm.trans hb)
      refine ((checkSlots_ok s1 vnet _).mono (fun _ h => h) ?_).bind ?_
      · -- a link that gets a copy has no queue for this virtual network
        rintro e ⟨he, hno⟩
        refine .inr ⟨he, fun hin => hno (fun c hc => ?_)⟩
        exact (hqueue c).2 (hrange.1 hin c hc)
      · rintro enough ⟨henough, hqueues⟩
        have hin : QueuesInRange P s vnet message.m_Destination :=
          hrange.2 (fun c hc => (hqueue c).1 (hqueues c hc))
        cases enough with
        | false =>
          -- some queue has no slot
          refine ⟨hin, ⟨hsame.out_size.trans hwf.out_size, hperm, honTime⟩, _, hsplit,
            .inl ⟨rfl, ?_, hsame.now, hsame.m_in, hsame.out_size, hsame.outQueue,
              hsame.m_pending_message_count, ?_⟩⟩
          · by_contra hno
            push Not at hno
            have hall := henough.2 (fun c hc => (hslot c).2 (hno c hc))
            exact Bool.false_ne_true hall
          · rw [hsame.now, hsame.m_scheduled_wakeups]
        | true =>
          rw [hsame.now]
          refine Ok.bind (Ok.mapError ((dequeue_ready hheap hready).mono
            (fun _ h => h) (fun _ h => h.elim))) ?_
          intro b' hremoved
          have hin1 : (s1.inQueue incoming vnet).isSome = true := by
            rw [hsame.inQueue, hb]
            rfl
          have hcopies := enqueueCopies_ok
            { s1.setIn incoming vnet b' with
              m_pending_message_count := Function.update s1.m_pending_message_count vnet
                (s1.m_pending_message_count vnet - 1) }
            vnet message hsplit.links_nodup hqueues honTime (hsame.now.symm ▸ hready)
          refine Ok.bind (hcopies.mono (fun _ h => h) (fun _ h => h.elim)) ?_
          rintro s2 ⟨hframe, hforked, honTime2⟩
          have hout := hframe.out_size.trans hsame.out_size
          refine ⟨hin, ⟨hout.trans hwf.out_size, hframe.m_link_order ▸ hperm, honTime2⟩, _, hsplit,
            .inr ⟨rfl, ⟨?_, ?_⟩, ?_, ?_, hframe.now.trans hsame.now, ?_, hout, ?_,
              hframe.m_scheduled_wakeups.trans hsame.m_scheduled_wakeups⟩⟩
          · intro c hc
            obtain ⟨b1, b2, arrival_time, h1, h2, hadded⟩ := hforked.added c hc
            refine ⟨b1, b2, arrival_time, ?_, h2, hsame.now ▸ hadded⟩
            exact (hsame.outQueue c.1 vnet).symm.trans h1
          · intro link v hno
            exact (hforked.other link v hno).trans (hsame.outQueue link v)
          · exact fun c hc => (hslot c).1 (henough.1 rfl c hc)
          · refine ⟨b, b', hb, hremoved, fun p v => ?_⟩
            have hget : s2.inQueue p v = (s1.setIn incoming vnet b').inQueue p v := by
              unfold inQueue
              rw [hframe.m_in]
            rw [hget, inQueue_setIn hin1, hsame.inQueue]
          · rw [hframe.m_in]
            exact (setIn_length b').trans (congrArg length hsame.m_in)
          · rw [hframe.m_pending_message_count, hsame.m_pending_message_count]

/-- A switch with its invariant. -/
structure PerfectSwitch (P : SwitchParams) extends SwitchState where
  wellFormed : WellFormed P toSwitchState

/-- For every switch and every message whose destinations are behind its links, a round of
`operateMessageBuffer` that reads only elements of `m_out` splits the message exactly, and then
either changes no queue because one of those it needs has no slot, or moves the message. The
round reads only elements of `m_out` if the rows are long enough, and only then. -/
theorem multicast_split_exact (P : SwitchParams) (s : PerfectSwitch P) {incoming vnet : ℕ}
    {b : MessageBuffer} {message : Message} {rest : List Message}
    (hb : s.inQueue incoming vnet = some b) (hheap : b.m_prio_heap = message :: rest)
    (hready : message.m_LastEnqueueTime ≤ s.now) (hvnet : vnet < P.m_virtual_networks)
    (hcover : Covered P message.m_Destination) :
    (∃ r, forward P s.toSwitchState incoming vnet b = .ok r
      ∧ Outcome P incoming vnet message s.toSwitchState r)
      ↔ QueuesInRange P s.toSwitchState vnet message.m_Destination := by
  have hok := forward_ok s.wellFormed hb hheap hready hvnet
  cases hforward : forward P s.toSwitchState incoming vnet b with
  | error e =>
    rw [hforward] at hok
    refine iff_of_false (fun ⟨r, hr, _⟩ => by cases hr) ?_
    rcases hok with ⟨-, hno⟩ | ⟨-, hno⟩
    · exact absurd hcover hno
    · exact hno
  | ok r =>
    rw [hforward] at hok
    exact iff_of_true ⟨r, rfl, hok.2.2⟩ hok.1

end Forward

/-! ## Two switches

The directory of a protocol with three virtual networks listens to the first two of them, so the
link to it has two queues. -/

section Examples

/-- A message for the nodes `dests`, at the head of its buffer since time 1. -/
def waitingMessage (dests : NetDest) : Message :=
  { payload := 0, m_Destination := dests, m_time := 0, m_LastEnqueueTime := 1, m_msg_counter := 1 }

def waitingBuffer (dests : NetDest) : MessageBuffer :=
  { new 0 true false with m_prio_heap := [waitingMessage dests], m_msg_counter := 1 }

def emptyPort : PortBuffer :=
  { new 1 true false with
    m_time_last_time_size_checked := 0, m_size_last_time_size_checked := 0 }

/-- Two links whose entries overlap, and three virtual networks. -/
def overlapping : SwitchParams where
  m_routing_table := [{0, 1}, {1, 2}]
  m_virtual_networks := 3
  m_adaptive_routing := true
  m_ordered := fun _ => false
  randomization := false
  warmup_enabled := false
  clockPeriod := 1
  clockPeriod_pos := Nat.one_pos

/-- The switch at time 1, with `queues` queues on the second link. -/
def twoLinks (queues : ℕ) : SwitchState :=
  { connected [[some (waitingBuffer {0, 1, 2})]]
      [replicate 3 emptyPort, replicate queues emptyPort] (fun _ => 0) with now := 1 }

theorem twoLinks_outQueue {queues link v : ℕ}
    (h : (twoLinks queues).outQueue link v = some b) : b = emptyPort.toMessageBuffer := by
  obtain ⟨p, hp, rfl⟩ := portBuffer_eq_some h
  unfold portBuffer at hp
  obtain ⟨row, hrow, hget⟩ := Option.bind_eq_some_iff.1 hp
  have hmem : row ∈ [replicate 3 emptyPort, replicate queues emptyPort] :=
    mem_of_getElem? hrow
  rw [mem_pair] at hmem
  have hport : p = emptyPort := by
    rcases hmem with rfl | rfl
    · exact eq_of_mem_replicate (mem_of_getElem? hget)
    · exact eq_of_mem_replicate (mem_of_getElem? hget)
  rw [hport]

theorem twoLinks_wellFormed (queues : ℕ) : WellFormed overlapping (twoLinks queues) where
  out_size := rfl
  links := List.Perm.refl [0, 1]
  onTime link v b hb := by
    rw [twoLinks_outQueue hb]
    exact fun _ _ => Nat.zero_le _

theorem overlapping_covered : Covered overlapping {0, 1, 2} := by
  intro d hd
  simp only [Finset.mem_insert, Finset.mem_singleton] at hd
  rcases hd with rfl | rfl | rfl
  · exact ⟨0, by decide, by decide⟩
  · exact ⟨0, by decide, by decide⟩
  · exact ⟨1, by decide, by decide⟩

/-- With adaptive routing the loop over the virtual networks reads beyond the end of the row of
the directory, whatever the destinations are. -/
theorem adaptive_round_beyond_row :
    let _ : StdHeap := sortedHeap
    let _ : StdSort := insertionStdSort
    Covered overlapping {0, 1, 2}
      ∧ forward overlapping (twoLinks 2) 0 0 (waitingBuffer {0, 1, 2}) = .error .m_out_range
      ∧ ¬ ∃ r, forward overlapping (twoLinks 2) 0 0 (waitingBuffer {0, 1, 2}) = .ok r
        ∧ Outcome overlapping 0 0 (waitingMessage {0, 1, 2}) (twoLinks 2) r := by
  intro _ _
  have hfault : forward overlapping (twoLinks 2) 0 0 (waitingBuffer {0, 1, 2})
      = .error .m_out_range := by rfl
  refine ⟨overlapping_covered, hfault, ?_⟩
  rintro ⟨r, hr, -⟩
  rw [hfault] at hr
  cases hr

/-- With a queue for every virtual network on both links the message is split: the link that is
looked at first takes the node behind both of them. -/
theorem multicast_split_exact_overlapping :
    let _ : StdHeap := sortedHeap
    let _ : StdSort := insertionStdSort
    ∃ r, forward overlapping (twoLinks 3) 0 0 (waitingBuffer {0, 1, 2}) = .ok r
      ∧ Outcome overlapping 0 0 (waitingMessage {0, 1, 2}) (twoLinks 3) r := by
  intro _ _
  refine (multicast_split_exact overlapping ⟨twoLinks 3, twoLinks_wellFormed 3⟩ rfl rfl
    (le_refl 1) (by decide) (overlapping_covered)).2 ?_
  change ∀ link < 2, ∀ v < 3, ((twoLinks 3).outQueue link v).isSome = true
  decide

end Examples

end Bindu.Ruby
