/-
The queue of deferred packets of a port (`mem/packet_queue.cc`).

Packets wait in `transmitList` until their tick and are then offered to the peer, one at a
time. The peer accepts a packet, and may call back into the queue while it does so, or refuses
it and owes a retry. A send event is kept scheduled for the front of the list; while a retry is
owed there is none.

The state of the queue is the list, the flag `waitingOnRetry` and the time of the send event,
and everything rests on how these three fit together (`Live`): with a retry owed, the front
packet has already been offered, so nothing can be inserted in front of it; with an event
scheduled, the event is not earlier than the front packet is ready.

`MaxTick` is the code's own mark for "nothing to send": `schedSendEvent(MaxTick)` schedules no
event. A packet with that tick would wait for an event that never comes
(`stuck_packet`), so the results are about packets with other ticks.
-/
import Bindu.Lib.SortedBy
import Bindu.Mem.Packet

namespace Bindu.Mem

open Bindu.Lib List Ok

/-- A `DeferredPacket`. `nr` is not in the source: it counts the calls of `schedSendTiming`, to
tell apart two entries for the same packet. -/
structure DeferredPacket where
  tick : ℕ
  pkt : Packet
  nr : ℕ
  deriving DecidableEq, Repr

/-- A `PacketQueue`. The send event is scheduled at `sendEvent`, if at all. -/
structure PacketQueue where
  transmitList : List DeferredPacket := []
  sendEvent : Option ℕ := none
  _disableSanityCheck : Bool := false
  forceOrder : Bool := false
  waitingOnRetry : Bool := false
  numCalls : ℕ := 0
  deriving DecidableEq, Repr

namespace PacketQueue

def deferredPacketReady (q : PacketQueue) (now : ℕ) : Bool :=
  match q.transmitList with
  | [] => false
  | dp :: _ => decide (dp.tick ≤ now)

def deferredPacketReadyTime (q : PacketQueue) : ℕ :=
  match q.transmitList with
  | [] => MaxTick
  | dp :: _ => dp.tick

/-- `schedSendEvent` at tick `now`. -/
def schedSendEvent (q : PacketQueue) (now when : ℕ) : Except Fault PacketQueue := do
  if q.waitingOnRetry then
    require q.sendEvent.isNone .event_scheduled
    pure q
  else if when = MaxTick then
    -- there is no more to send
    pure q
  else
    let when := max when (now + 1)
    match q.sendEvent with
    | none => pure { q with sendEvent := some when }
    | some scheduled =>
      if when < scheduled then pure { q with sendEvent := some when } else pure q

/-- What a new packet with address `addr` and tick `when` must not overtake. -/
def holdsBack (q : PacketQueue) (addr when : ℕ) (it : DeferredPacket) : Bool :=
  (q.forceOrder && decide (it.pkt.getAddr = addr)) || decide (it.tick ≤ when)

/-- `schedSendTiming` at tick `now`. -/
def schedSendTiming (q : PacketQueue) (now : ℕ) (pkt : Packet) (when : ℕ) :
    Except Fault PacketQueue := do
  require (decide (now ≤ when)) .send_in_the_past
  require (!pkt.isExpressSnoop) .express_snoop
  require (q._disableSanityCheck || decide (q.transmitList.length ≤ 100)) .queue_size
  let dp : DeferredPacket := ⟨when, pkt, q.numCalls⟩
  match insertBehind (q.holdsBack pkt.getAddr when) dp q.transmitList with
  | some transmitList => pure { q with transmitList := transmitList, numCalls := q.numCalls + 1 }
  | none =>
    schedSendEvent
      { q with
        transmitList := dp :: q.transmitList
        numCalls := q.numCalls + 1 } now when

/-- What the peer does with a packet: it refuses it, or accepts it and makes calls of
`schedSendTiming` before `sendTiming` returns. -/
inductive Reaction where
  | refuses
  | accepts (calls : List (Packet × ℕ))
  deriving DecidableEq, Repr

/-- The calls that the peer makes while it accepts a packet. -/
def nestedCalls (now : ℕ) (q : PacketQueue) (calls : List (Packet × ℕ)) :
    Except Fault PacketQueue :=
  calls.foldlM (fun q call => q.schedSendTiming now call.1 call.2) q

/-- `sendDeferredPacket` at tick `now`, with what the peer does in `sendTiming`. The packet that
was offered is returned as well. -/
def sendDeferredPacket (q : PacketQueue) (now : ℕ) (reaction : Reaction) :
    Except Fault (DeferredPacket × PacketQueue) := do
  require (!q.waitingOnRetry) .waiting_on_retry
  match q.transmitList with
  | [] => throw .no_deferred_packet
  | dp :: rest => do
      require (decide (dp.tick ≤ now)) .no_deferred_packet
      match reaction with
      | .accepts calls => do
          let q ← nestedCalls now { q with transmitList := rest } calls
          let q := { q with waitingOnRetry := false }
          let q ← q.schedSendEvent now q.deferredPacketReadyTime
          pure (dp, q)
      | .refuses => pure (dp, { q with waitingOnRetry := true })

/-- `processSendEvent`. The event queue takes an event off before it processes it. -/
def processSendEvent (q : PacketQueue) (now : ℕ) (reaction : Reaction) :
    Except Fault (DeferredPacket × PacketQueue) := do
  require (!q.waitingOnRetry) .waiting_on_retry
  sendDeferredPacket { q with sendEvent := none } now reaction

def retry (q : PacketQueue) (now : ℕ) (reaction : Reaction) :
    Except Fault (DeferredPacket × PacketQueue) := do
  require q.waitingOnRetry .not_waiting_on_retry
  sendDeferredPacket { q with waitingOnRetry := false } now reaction

/-- The constructor, with the sanity check on the size of the list disabled. -/
def new (force_order : Bool) : PacketQueue :=
  { forceOrder := force_order, _disableSanityCheck := true }

end PacketQueue

/-! ## Runs -/

/-- A call of `schedSendTiming` that meets what the function asks of its callers. -/
def ValidCall (now : ℕ) (call : Packet × ℕ) : Prop :=
  now ≤ call.2 ∧ call.1.isExpressSnoop = false

/-- The entries that calls make, the first of them as number `nr`. -/
def entries (nr : ℕ) : List (Packet × ℕ) → List DeferredPacket
  | [] => []
  | call :: rest => ⟨call.2, call.1, nr⟩ :: entries (nr + 1) rest

/-- The calls of `schedSendTiming` that come with a reaction. -/
def PacketQueue.Reaction.calls : PacketQueue.Reaction → List (Packet × ℕ)
  | .refuses => []
  | .accepts calls => calls

/-- What the peer accepts of a packet that is offered at `now`. -/
def PacketQueue.Reaction.accepted (now : ℕ) (dp : DeferredPacket) :
    PacketQueue.Reaction → List (DeferredPacket × ℕ)
  | .refuses => []
  | .accepts _ => [(dp, now)]

def PacketQueue.Reaction.isRefusal : PacketQueue.Reaction → Bool
  | .refuses => true
  | .accepts _ => false

/-- What a run has done: the queue, the tick, whether the peer owes a retry, the entries made by
`schedSendTiming` in the order of the calls, and the packets accepted by the peer with the tick
at which they were. -/
structure PortState where
  queue : PacketQueue
  now : ℕ
  owed : Bool
  inserted : List DeferredPacket
  accepted : List (DeferredPacket × ℕ)

/-- The state after the front packet was offered to the peer, which left `out`. -/
def PortState.offered (s : PortState) (reaction : PacketQueue.Reaction)
    (out : DeferredPacket × PacketQueue) : PortState where
  queue := out.2
  now := s.now
  owed := reaction.isRefusal
  inserted := s.inserted ++ entries s.queue.numCalls reaction.calls
  accepted := s.accepted ++ reaction.accepted s.now out.1

/-- The runs of a port. Packets are handed in at any time; the send event is processed when its
time has come, and time does not pass it; the peer retries when it owes a retry. -/
inductive PortRun (force_order : Bool) : PortState → Prop
  | start : PortRun force_order ⟨PacketQueue.new force_order, 0, false, [], []⟩
  | time {s : PortState} (now' : ℕ) (run : PortRun force_order s) (later : s.now ≤ now')
      (event : ∀ t, s.queue.sendEvent = some t → now' ≤ t) :
      PortRun force_order { s with now := now' }
  | schedSendTiming {s : PortState} (q' : PacketQueue) (pkt : Packet) (when : ℕ)
      (run : PortRun force_order s) (valid : ValidCall s.now (pkt, when))
      (returns : s.queue.schedSendTiming s.now pkt when = .ok q') :
      PortRun force_order
        { s with
          queue := q'
          inserted := s.inserted ++ [⟨when, pkt, s.queue.numCalls⟩] }
  | processSendEvent {s : PortState} (reaction : PacketQueue.Reaction)
      (out : DeferredPacket × PacketQueue) (run : PortRun force_order s)
      (valid : ∀ call ∈ reaction.calls, ValidCall s.now call)
      (event : s.queue.sendEvent = some s.now)
      (returns : s.queue.processSendEvent s.now reaction = .ok out) :
      PortRun force_order (s.offered reaction out)
  | retry {s : PortState} (reaction : PacketQueue.Reaction)
      (out : DeferredPacket × PacketQueue) (run : PortRun force_order s)
      (valid : ∀ call ∈ reaction.calls, ValidCall s.now call)
      (owed : s.owed = true) (returns : s.queue.retry s.now reaction = .ok out) :
      PortRun force_order (s.offered reaction out)

/-! ## What holds along a run -/

/-- The order in which a queue lets two packets go: by tick, and among equal ticks by insertion;
with `forceOrder`, packets with the same address by insertion. -/
def Precedes (forceOrder : Bool) (a b : DeferredPacket) : Prop :=
  if forceOrder then
    a.pkt.getAddr = b.pkt.getAddr → a.nr < b.nr
  else
    a.tick < b.tick ∨ a.tick = b.tick ∧ a.nr < b.nr

/-- The entries so far are those that were sent and those that wait, each once and in an order
that the queue allows. -/
structure Kept (q : PacketQueue) (now : ℕ) (inserted sent : List DeferredPacket) : Prop where
  sanity : q._disableSanityCheck = true
  perm : (sent ++ q.transmitList).Perm inserted
  numbers : inserted.map DeferredPacket.nr = range inserted.length
  numCalls : q.numCalls = inserted.length
  sent_le : ∀ dp ∈ sent, dp.tick ≤ now
  ordered : (sent ++ q.transmitList).Pairwise (Precedes q.forceOrder)

/-- An event that is scheduled finds a packet that is ready, and no retry is owed. -/
structure Live (q : PacketQueue) (now : ℕ) : Prop where
  event : ∀ t, q.sendEvent = some t →
    q.waitingOnRetry = false ∧ now ≤ t ∧ ∃ dp rest, q.transmitList = dp :: rest ∧ dp.tick ≤ t
  waiting : q.waitingOnRetry = true → ∃ dp rest, q.transmitList = dp :: rest ∧ dp.tick ≤ now

/-- If there is something to send, something will make the queue send it. -/
def Moving (q : PacketQueue) : Prop :=
  q.transmitList ≠ [] → q.waitingOnRetry = true ∨ q.sendEvent.isSome = true

/-- The parts of a queue that `schedSendTiming` and `schedSendEvent` leave alone. -/
structure SameMode (q q' : PacketQueue) : Prop where
  sanity : q'._disableSanityCheck = q._disableSanityCheck
  forceOrder : q'.forceOrder = q.forceOrder
  waiting : q'.waitingOnRetry = q.waitingOnRetry

variable {q q' : PacketQueue} {now : ℕ} {inserted sent : List DeferredPacket}

/-- `schedSendEvent` moves the event to the given time, or leaves it where it is. -/
theorem PacketQueue.schedSendEvent_ok {when : ℕ}
    (hwaiting : q.waitingOnRetry = true → q.sendEvent = none) :
    Ok (fun q' => ∃ e, q' = { q with sendEvent := e }
        ∧ (e = q.sendEvent ∨ q.waitingOnRetry = false ∧ when ≠ MaxTick
            ∧ e = some (max when (now + 1)))
        ∧ (q.waitingOnRetry = false → when ≠ MaxTick → e.isSome = true))
      ⊥ (q.schedSendEvent now when) := by
  unfold schedSendEvent
  by_cases hw : q.waitingOnRetry = true
  · rw [if_pos hw]
    refine passes (by rw [hwaiting hw]; simp) ?_
    exact ⟨_, rfl, .inl rfl, fun hfalse => absurd (hfalse.symm.trans hw) Bool.false_ne_true⟩
  rw [if_neg hw]
  rw [Bool.not_eq_true] at hw
  by_cases hmax : when = MaxTick
  · rw [if_pos hmax]
    exact ⟨_, rfl, .inl rfl, fun _ hne => absurd hmax hne⟩
  rw [if_neg hmax]
  cases hevent : q.sendEvent with
  | none => exact ⟨_, rfl, .inr ⟨hw, hmax, rfl⟩, fun _ _ => rfl⟩
  | some scheduled =>
    by_cases hlt : max when (now + 1) < scheduled
    · simp only [if_pos hlt]
      exact ⟨_, rfl, .inr ⟨hw, hmax, rfl⟩, fun _ _ => rfl⟩
    · simp only [if_neg hlt]
      exact ⟨some scheduled, hevent ▸ rfl, .inl rfl, fun _ _ => rfl⟩

variable {dp : DeferredPacket}

namespace Kept

theorem nr_lt (h : Kept q now inserted sent)
    (hdp : dp ∈ sent ++ q.transmitList) : dp.nr < q.numCalls := by
  have hmem : dp.nr ∈ inserted.map DeferredPacket.nr :=
    mem_map_of_mem (h.perm.mem_iff.mp hdp)
  rw [h.numbers, mem_range] at hmem
  rw [h.numCalls]
  exact hmem

/-- A new entry comes between two parts of the list, where nothing in the first part is later
and everything in the second part may be overtaken. -/
theorem insert (h : Kept q now inserted sent) (front back : List DeferredPacket)
    (hnr : dp.nr = q.numCalls) (hnow : now ≤ dp.tick)
    (hlist : q.transmitList = front ++ back) (hlist' : q'.transmitList = front ++ dp :: back)
    (hmode : SameMode q q') (hcalls : q'.numCalls = q.numCalls + 1)
    (hfront : q.forceOrder = false → ∀ b ∈ front, b.tick ≤ dp.tick)
    (hback : ∀ b ∈ back, q.holdsBack dp.pkt.getAddr dp.tick b = false) :
    Kept q' now (inserted ++ [dp]) sent where
  sanity := hmode.sanity.trans h.sanity
  perm := by
    have hperm := h.perm
    rw [hlist, ← append_assoc] at hperm
    rw [hlist', ← append_assoc]
    exact perm_middle.trans ((hperm.cons dp).trans (perm_append_singleton dp inserted).symm)
  numbers := by
    rw [map_append, h.numbers, length_append, length_singleton, range_succ,
      map_singleton, hnr, h.numCalls]
  numCalls := by
    rw [hcalls, h.numCalls, length_append, length_singleton]
  sent_le := h.sent_le
  ordered := by
    have hordered := h.ordered
    have hlt : ∀ b ∈ sent ++ front, b.nr < dp.nr := by
      intro b hb
      rw [hnr]
      refine h.nr_lt ?_
      rw [hlist, ← append_assoc]
      exact mem_append_left back hb
    rw [hlist, ← append_assoc] at hordered
    rw [hlist', ← append_assoc, hmode.forceOrder]
    refine pairwise_between hordered (fun b hb => ?_) (fun b hb => ?_)
    · unfold Precedes
      by_cases hforce : q.forceOrder = true
      · rw [if_pos hforce]
        exact fun _ => hlt b hb
      · rw [if_neg hforce]
        rw [Bool.not_eq_true] at hforce
        -- what was sent is not later than now, and the new packet not earlier
        have hle : b.tick ≤ dp.tick := by
          rcases mem_append.mp hb with hb | hb
          · exact le_trans (h.sent_le b hb) hnow
          · exact hfront hforce b hb
        have hnrlt := hlt b hb
        omega
    · have hfree := hback b hb
      rw [PacketQueue.holdsBack, Bool.or_eq_false_iff, decide_eq_false_iff_not] at hfree
      unfold Precedes
      by_cases hforce : q.forceOrder = true
      · rw [if_pos hforce]
        intro haddr
        rw [hforce, Bool.true_and, decide_eq_false_iff_not] at hfree
        exact absurd haddr.symm hfree.1
      · rw [if_neg hforce]
        exact .inl (not_le.mp hfree.2)

theorem send (h : Kept q now inserted sent) {rest : List DeferredPacket}
    (hlist : q.transmitList = dp :: rest) (hready : dp.tick ≤ now)
    (hlist' : q'.transmitList = rest) (hsanity : q'._disableSanityCheck = q._disableSanityCheck)
    (hforce : q'.forceOrder = q.forceOrder) (hcalls : q'.numCalls = q.numCalls) :
    Kept q' now inserted (sent ++ [dp]) where
  sanity := hsanity.trans h.sanity
  perm := by
    rw [hlist', append_assoc, singleton_append, ← hlist]
    exact h.perm
  numbers := h.numbers
  numCalls := hcalls.trans h.numCalls
  sent_le := forall_mem_append.2 ⟨h.sent_le, forall_mem_singleton.2 hready⟩
  ordered := by
    rw [hlist', append_assoc, singleton_append, ← hlist, hforce]
    exact h.ordered

end Kept

/-- **One call of `schedSendTiming`**, from outside or from inside `sendTiming`. None of its
assertions can fail. -/
theorem PacketQueue.schedSendTiming_ok {call : Packet × ℕ} (hkept : Kept q now inserted sent)
    (hlive : Live q now) (hvalid : ValidCall now call) :
    Ok (fun q' => Kept q' now (inserted ++ [⟨call.2, call.1, q.numCalls⟩]) sent ∧ Live q' now
        ∧ SameMode q q' ∧ q'.numCalls = q.numCalls + 1
        ∧ (call.2 ≠ MaxTick → Moving q → Moving q'))
      ⊥ (q.schedSendTiming now call.1 call.2) := by
  unfold schedSendTiming
  refine passes (decide_eq_true hvalid.1) (passes (by rw [hvalid.2]; rfl) ?_)
  refine passes (by simp [hkept.sanity]) ?_
  cases hsearch : insertBehind (q.holdsBack call.1.getAddr call.2) ⟨call.2, call.1, q.numCalls⟩
      q.transmitList with
  | some transmitList =>
    obtain ⟨front, b, back, hlist, hlist', hb, hback⟩ := insertBehind_eq_some hsearch
    simp only [hsearch]
    have hmode : SameMode q
        { q with transmitList := transmitList, numCalls := q.numCalls + 1 } := ⟨rfl, rfl, rfl⟩
    refine ⟨?_, ?_, hmode, rfl, ?_⟩
    · refine hkept.insert (front ++ [b]) back rfl hvalid.1 ?_ ?_ hmode rfl ?_ hback
      · rw [hlist, append_assoc, singleton_append]
      · rw [hlist', append_assoc, singleton_append]
      · -- nothing in front of `b` is later than `b`
        intro hforce c hc
        rw [PacketQueue.holdsBack, hforce, Bool.false_and, Bool.false_or, decide_eq_true_eq] at hb
        have hordered := (pairwise_append.mp hkept.ordered).2.1
        rw [hlist, hforce, pairwise_append] at hordered
        rcases mem_append.mp hc with hc | hc
        · have hbefore := hordered.2.2 c hc b mem_cons_self
          simp only [Precedes, Bool.false_eq_true, if_false] at hbefore
          dsimp only
          omega
        · rw [mem_singleton.mp hc]
          exact hb
    · -- the first packet stays the first one
      have hhead : ∀ dp rest, q.transmitList = dp :: rest →
          ∃ rest', transmitList = dp :: rest' := by
        intro dp rest hfirst
        rw [hlist'] at hsearch ⊢
        cases front with
        | nil =>
          obtain ⟨rfl, -⟩ := cons.inj (hlist.symm.trans hfirst)
          exact ⟨_, rfl⟩
        | cons c front =>
          obtain ⟨rfl, -⟩ := cons.inj (hlist.symm.trans hfirst)
          exact ⟨_, rfl⟩
      constructor
      · intro t ht
        obtain ⟨hw, hnow, dp, rest, hfirst, hle⟩ := hlive.event t ht
        obtain ⟨rest', hrest'⟩ := hhead dp rest hfirst
        exact ⟨hw, hnow, dp, rest', hrest', hle⟩
      · intro hw
        obtain ⟨dp, rest, hfirst, hle⟩ := hlive.waiting hw
        obtain ⟨rest', hrest'⟩ := hhead dp rest hfirst
        exact ⟨dp, rest', hrest', hle⟩
    · intro _ hmoving _
      refine hmoving ?_
      rw [hlist]
      simp
  | none =>
    have hfree := insertBehind_eq_none hsearch
    have hlater : ∀ dp ∈ q.transmitList, call.2 < dp.tick := by
      intro dp hdp
      have hdp := hfree dp hdp
      rw [PacketQueue.holdsBack, Bool.or_eq_false_iff, decide_eq_false_iff_not] at hdp
      exact not_le.mp hdp.2
    -- a packet that waits for a retry was ready before, so it is not overtaken
    have hw : q.waitingOnRetry = false := by
      by_contra hw
      rw [Bool.not_eq_false] at hw
      obtain ⟨dp, rest, hfirst, hle⟩ := hlive.waiting hw
      have hlt := hlater dp (by rw [hfirst]; exact mem_cons_self)
      have hnow : now ≤ call.2 := hvalid.1
      omega
    simp only [hsearch]
    have hidle {P : Prop} (hwait : q.waitingOnRetry = true) : P :=
      absurd (hw.symm.trans hwait) Bool.false_ne_true
    refine (schedSendEvent_ok (fun hwait => ?_)).imp ?_
    · exact hidle hwait
    rintro _ ⟨e, rfl, hevent, hsome⟩
    refine ⟨?_, ⟨fun t ht => ⟨hw, ?_⟩, hidle⟩, ⟨rfl, rfl, rfl⟩, rfl,
      fun hmax _ _ => .inr (hsome hw hmax)⟩
    · exact hkept.insert [] q.transmitList rfl hvalid.1 rfl rfl ⟨rfl, rfl, rfl⟩ rfl
        (fun _ b hb => absurd hb not_mem_nil) hfree
    · rcases hevent with rfl | ⟨-, -, rfl⟩
      · -- the event stays: it is not before the packet that was the first one
        obtain ⟨-, hnow, dp, rest, hfirst, hle⟩ := hlive.event t ht
        have hlt := hlater dp (by rw [hfirst]; exact mem_cons_self)
        exact ⟨hnow, _, _, rfl, by dsimp only; omega⟩
      · obtain rfl := Option.some.inj ht
        exact ⟨by omega, _, _, rfl, by dsimp only; omega⟩

/-- **The calls made from inside `sendTiming`.** Until the first of them, the list may be without
an event. -/
theorem PacketQueue.nestedCalls_ok {calls : List (Packet × ℕ)}
    (hkept : Kept q now inserted sent) (hlive : Live q now)
    (hvalid : ∀ call ∈ calls, ValidCall now call) :
    Ok (fun q' => Kept q' now (inserted ++ entries q.numCalls calls) sent ∧ Live q' now
        ∧ SameMode q q')
      ⊥ (nestedCalls now q calls) := by
  induction calls generalizing q inserted with
  | nil =>
    rw [nestedCalls, foldlM_nil, pure_iff, entries, append_nil]
    exact ⟨hkept, hlive, rfl, rfl, rfl⟩
  | cons call rest ih =>
    rw [nestedCalls, foldlM_cons]
    refine bind (schedSendTiming_ok hkept hlive (hvalid call mem_cons_self)) (fun q' hq' => ?_)
    obtain ⟨hkept', hlive', hmode, hcalls, -⟩ := hq'
    refine (ih hkept' hlive' (fun c hc => hvalid c (mem_cons_of_mem _ hc))).imp ?_
    rintro q'' ⟨hkept'', hlive'', hmode'⟩
    rw [hcalls, append_assoc, singleton_append] at hkept''
    exact ⟨hkept'', hlive'', hmode'.sanity.trans hmode.sanity,
      hmode'.forceOrder.trans hmode.forceOrder, hmode'.waiting.trans hmode.waiting⟩

/-- **The front packet is offered**, when it is ready, no retry is owed and no event is
scheduled: no assertion fails, and the queue is live and moving again. -/
theorem PacketQueue.sendDeferredPacket_ok {rest : List DeferredPacket}
    {reaction : Reaction} (hkept : Kept q now inserted sent) (hw : q.waitingOnRetry = false)
    (hevent : q.sendEvent = none) (hlist : q.transmitList = dp :: rest) (hready : dp.tick ≤ now)
    (hvalid : ∀ call ∈ reaction.calls, ValidCall now call) :
    Ok (fun out => out.1 = dp ∧ Kept out.2 now (inserted ++ entries q.numCalls reaction.calls)
            (sent ++ (reaction.accepted now dp).map Prod.fst)
        ∧ Live out.2 now ∧ out.2.waitingOnRetry = reaction.isRefusal
        ∧ out.2.forceOrder = q.forceOrder
        ∧ ((∀ b ∈ out.2.transmitList, b.tick ≠ MaxTick) → Moving out.2))
      ⊥ (q.sendDeferredPacket now reaction) := by
  unfold sendDeferredPacket
  refine passes (by rw [hw]; rfl) ?_
  simp only [hlist]
  refine passes (decide_eq_true hready) ?_
  cases reaction with
  | refuses =>
    -- the packet goes back to the front, and the peer owes a retry
    refine ⟨rfl, ?_, ⟨?_, ?_⟩, rfl, rfl, fun _ _ => .inl rfl⟩
    · rw [Reaction.calls, Reaction.accepted, entries, append_nil, map_nil, append_nil]
      exact { hkept with perm := hlist ▸ hkept.perm, ordered := hlist ▸ hkept.ordered }
    · intro t ht
      cases hevent.symm.trans ht
    · exact fun _ => ⟨dp, rest, rfl, hready⟩
  | accepts calls =>
    have hsent : Kept { q with transmitList := rest } now inserted (sent ++ [dp]) :=
      hkept.send hlist hready rfl rfl rfl rfl
    have hlive : Live { q with transmitList := rest } now := by
      constructor
      · intro t ht
        cases hevent.symm.trans ht
      · intro hwait
        cases hw.symm.trans hwait
    refine bind (nestedCalls_ok hsent hlive hvalid) ?_
    rintro q1 ⟨hkept1, hlive1, hmode1⟩
    refine bind (schedSendEvent_ok nofun) ?_
    rintro _ ⟨e, rfl, hevent2, hsome2⟩
    refine ⟨rfl, { hkept1 with }, ⟨fun t ht => ⟨rfl, ?_⟩, nofun⟩, rfl, hmode1.forceOrder, ?_⟩
    · rcases hevent2 with rfl | ⟨-, hmax, rfl⟩
      · exact (hlive1.event t ht).2
      · -- the event is for the packet that is now the first one
        have ht := Option.some.inj ht
        cases hfirst : q1.transmitList with
        | nil =>
          rw [deferredPacketReadyTime] at hmax
          simp only [hfirst] at hmax
          exact absurd rfl hmax
        | cons b rest' =>
          rw [deferredPacketReadyTime] at ht
          simp only [hfirst] at ht
          exact ⟨by omega, b, rest', rfl, by omega⟩
    · intro hticks hne
      refine .inr (hsome2 rfl ?_)
      unfold deferredPacketReadyTime
      cases hfirst : q1.transmitList with
      | nil => exact absurd hfirst hne
      | cons b rest' => exact hticks b (by rw [hfirst]; exact mem_cons_self)

/-- What holds in every state of a run. -/
structure PortInv (force_order : Bool) (s : PortState) : Prop where
  kept : Kept s.queue s.now s.inserted (s.accepted.map Prod.fst)
  live : Live s.queue s.now
  owed : s.queue.waitingOnRetry = s.owed
  force : s.queue.forceOrder = force_order
  early : ∀ a ∈ s.accepted, a.1.tick ≤ a.2
  moving : (∀ dp ∈ s.inserted, dp.tick ≠ MaxTick) → Moving s.queue

namespace PortInv

variable {force_order : Bool} {s : PortState}

theorem start (force_order : Bool) :
    PortInv force_order ⟨PacketQueue.new force_order, 0, false, [], []⟩ where
  kept := ⟨rfl, Perm.refl _, rfl, rfl, fun _ h => absurd h not_mem_nil, Pairwise.nil⟩
  live := ⟨fun t ht => absurd ht (by simp [PacketQueue.new]),
    fun hw => absurd hw (by simp [PacketQueue.new])⟩
  owed := rfl
  force := rfl
  early a h := absurd h not_mem_nil
  moving _ h := absurd rfl h

theorem time (h : PortInv force_order s) {now' : ℕ} (later : s.now ≤ now')
    (event : ∀ t, s.queue.sendEvent = some t → now' ≤ t) :
    PortInv force_order { s with now := now' } := by
  refine { h with
    kept := { h.kept with sent_le := fun dp hdp => (h.kept.sent_le dp hdp).trans later }
    live := ⟨fun t ht => ?_, fun hw => ?_⟩ }
  · obtain ⟨hw, -, hfront⟩ := h.live.event t ht
    exact ⟨hw, event t ht, hfront⟩
  · obtain ⟨dp, rest, hfirst, hle⟩ := h.live.waiting hw
    exact ⟨dp, rest, hfirst, hle.trans later⟩

theorem schedSendTiming_ok (h : PortInv force_order s) {pkt : Packet} {when : ℕ}
    (valid : ValidCall s.now (pkt, when)) :
    Ok (fun q' => PortInv force_order
        { s with
          queue := q'
          inserted := s.inserted ++ [⟨when, pkt, s.queue.numCalls⟩] })
      ⊥ (s.queue.schedSendTiming s.now pkt when) := by
  refine (PacketQueue.schedSendTiming_ok h.kept h.live valid).imp (fun q' hq' => ?_)
  obtain ⟨hkept, hlive, hmode, -, hmoving⟩ := hq'
  refine ⟨hkept, hlive, hmode.waiting.trans h.owed, hmode.forceOrder.trans h.force, h.early, ?_⟩
  intro hticks
  refine hmoving ?_ (h.moving (fun dp hdp => hticks dp (mem_append_left _ hdp)))
  exact hticks _ (mem_append_right _ (mem_singleton_self _))

/-- The front packet is offered, once the queue has left the state `s` in which it was waiting
for this moment. -/
theorem offered (h : PortInv force_order s) {reaction : PacketQueue.Reaction}
    (hkept : Kept q s.now s.inserted (s.accepted.map Prod.fst)) (hforce : q.forceOrder = force_order)
    (hcalls : q.numCalls = s.queue.numCalls) (hw : q.waitingOnRetry = false)
    (hevent : q.sendEvent = none)
    (hfront : ∃ dp rest, q.transmitList = dp :: rest ∧ dp.tick ≤ s.now)
    (valid : ∀ call ∈ reaction.calls, ValidCall s.now call) :
    Ok (fun out => PortInv force_order (s.offered reaction out)) ⊥
      (q.sendDeferredPacket s.now reaction) := by
  obtain ⟨dp, rest, hlist, hready⟩ := hfront
  refine (PacketQueue.sendDeferredPacket_ok hkept hw hevent hlist hready valid).imp ?_
  rintro ⟨dp', q'⟩ ⟨rfl, hkept', hlive', hw', hforce', hmoving'⟩
  refine ⟨?_, hlive', hw', hforce'.trans hforce, ?_, fun hticks => hmoving' (fun b hb => ?_)⟩
  · rw [hcalls] at hkept'
    simp only [PortState.offered, map_append]
    exact hkept'
  · refine forall_mem_append.2 ⟨h.early, ?_⟩
    cases reaction with
    | refuses => exact fun _ ha => absurd ha not_mem_nil
    | accepts calls =>
      rw [PacketQueue.Reaction.accepted, forall_mem_singleton]
      exact hready
  · refine hticks b ?_
    rw [hcalls] at hkept'
    exact hkept'.perm.mem_iff.mp (mem_append_right _ hb)

theorem processSendEvent_ok (h : PortInv force_order s) {reaction : PacketQueue.Reaction}
    (valid : ∀ call ∈ reaction.calls, ValidCall s.now call)
    (event : s.queue.sendEvent = some s.now) :
    Ok (fun out => PortInv force_order (s.offered reaction out)) ⊥
      (s.queue.processSendEvent s.now reaction) := by
  obtain ⟨hw, -, hfront⟩ := h.live.event s.now event
  unfold PacketQueue.processSendEvent
  refine passes (by rw [hw]; rfl) ?_
  exact h.offered { h.kept with } h.force rfl hw rfl hfront valid

theorem retry_ok (h : PortInv force_order s) {reaction : PacketQueue.Reaction}
    (valid : ∀ call ∈ reaction.calls, ValidCall s.now call) (owed : s.owed = true) :
    Ok (fun out => PortInv force_order (s.offered reaction out)) ⊥
      (s.queue.retry s.now reaction) := by
  have hw : s.queue.waitingOnRetry = true := h.owed.trans owed
  -- while a retry is owed no event is scheduled
  have hevent : s.queue.sendEvent = none := by
    cases hevent : s.queue.sendEvent with
    | none => rfl
    | some t => exact absurd (hw.symm.trans (h.live.event t hevent).1) (by simp)
  unfold PacketQueue.retry
  refine passes (by rw [hw]) ?_
  exact h.offered { h.kept with } h.force rfl rfl hevent (h.live.waiting hw) valid

theorem of_run (run : PortRun force_order s) : PortInv force_order s := by
  induction run with
  | start => exact start force_order
  | time now' run later event ih => exact ih.time later event
  | schedSendTiming q' pkt when run valid returns ih =>
    exact (ih.schedSendTiming_ok valid).elim returns
  | processSendEvent reaction out run valid event returns ih =>
    exact (ih.processSendEvent_ok valid event).elim returns
  | retry reaction out run valid owed returns ih => exact (ih.retry_ok valid owed).elim returns

end PortInv

/-- **Nothing lost, nothing early, always moving.** In every state of every run of a packet
queue: the packets accepted by the peer and the packets in the list are the packets handed in,
each once; none was accepted before its tick; without `forceOrder` packets leave in order of
tick, and with equal ticks in insertion order; with `forceOrder` packets with the same address
leave in insertion order; as long as no packet has the tick `MaxTick`, exactly one of
`waitingOnRetry` and the send event stands whenever the list is not empty; a scheduled event is
not earlier than the front packet's tick; and whatever comes next, no assertion fails: every
valid call of `schedSendTiming`, the send event when its time has come, and a retry that is
owed, whatever the peer does then, return. -/
theorem packet_queue_delivers {force_order : Bool} {s : PortState} (run : PortRun force_order s) :
    (s.accepted.map Prod.fst ++ s.queue.transmitList).Perm s.inserted
      ∧ s.inserted.map DeferredPacket.nr = range s.inserted.length
      ∧ (∀ a ∈ s.accepted, a.1.tick ≤ a.2)
      ∧ (force_order = false → (s.accepted.map Prod.fst).Pairwise
          (fun a b => a.tick < b.tick ∨ a.tick = b.tick ∧ a.nr < b.nr))
      ∧ (force_order = true → (s.accepted.map Prod.fst).Pairwise
          (fun a b => a.pkt.getAddr = b.pkt.getAddr → a.nr < b.nr))
      ∧ ((∀ dp ∈ s.inserted, dp.tick ≠ MaxTick) → s.queue.transmitList ≠ [] →
          s.queue.waitingOnRetry = !s.queue.sendEvent.isSome)
      ∧ (∀ t dp, s.queue.sendEvent = some t → s.queue.transmitList.head? = some dp → dp.tick ≤ t)
      ∧ (∀ pkt when, ValidCall s.now (pkt, when) →
          ∃ q', s.queue.schedSendTiming s.now pkt when = .ok q')
      ∧ (∀ reaction : PacketQueue.Reaction, (∀ call ∈ reaction.calls, ValidCall s.now call) →
          (s.queue.sendEvent = some s.now →
            ∃ out, s.queue.processSendEvent s.now reaction = .ok out)
          ∧ (s.owed = true → ∃ out, s.queue.retry s.now reaction = .ok out)) := by
  have h := PortInv.of_run run
  have hordered := (pairwise_append.mp h.kept.ordered).1
  rw [h.force] at hordered
  refine ⟨h.kept.perm, h.kept.numbers, h.early, ?_, ?_, ?_, ?_, ?_, ?_⟩
  · rintro rfl
    exact hordered
  · rintro rfl
    exact hordered
  · intro hticks hne
    cases hevent : s.queue.sendEvent with
    | none =>
      rcases h.moving hticks hne with hw | hsome
      · exact hw
      · rw [hevent] at hsome
        simp at hsome
    | some t => exact (h.live.event t hevent).1
  · intro t dp ht hhead
    obtain ⟨-, -, b, rest, hfirst, hle⟩ := h.live.event t ht
    rw [hfirst, head?_cons, Option.some.injEq] at hhead
    rw [← hhead]
    exact hle
  · intro pkt when valid
    exact (h.schedSendTiming_ok valid).returns.imp fun _ hr => hr.1
  · intro reaction valid
    exact ⟨fun event => (h.processSendEvent_ok valid event).returns.imp fun _ hr => hr.1,
      fun owed => (h.retry_ok valid owed).returns.imp fun _ hr => hr.1⟩

/-- **The tick that schedules nothing.** A packet with the tick `MaxTick` waits in the list with
neither a send event nor a retry to come. -/
theorem stuck_packet :
    ∃ s, PortRun false s ∧ s.queue.transmitList ≠ [] ∧ s.queue.waitingOnRetry = false
      ∧ s.queue.sendEvent = none := by
  have hvalid : ValidCall 0 (({ id := 1, cmd := .ReadResp } : Packet), MaxTick) :=
    ⟨Nat.zero_le _, rfl⟩
  obtain ⟨q', hq'⟩ : ∃ q', (PacketQueue.new false).schedSendTiming 0
      { id := 1, cmd := .ReadResp } MaxTick = .ok q' := ⟨_, rfl⟩
  refine ⟨_, PortRun.schedSendTiming q' _ MaxTick PortRun.start hvalid hq', ?_⟩
  cases hq'
  exact ⟨by simp, rfl, rfl⟩

/-- A packet that is refused at tick 5 and accepted at tick 8, while the peer hands in another
one: at tick 9 that one goes too. -/
theorem packet_queue_delivers_retry :
    ∃ s, PortRun false s ∧ s.accepted.map (fun a => (a.1.tick, a.2)) = [(5, 8), (8, 9)]
      ∧ (∀ a ∈ s.accepted, a.1.tick ≤ a.2) := by
  let p : Packet := { id := 1, cmd := .ReadResp, addr := 64 }
  have run0 : PortRun false _ := PortRun.start
  have run1 := PortRun.schedSendTiming _ p 5 run0 ⟨Nat.zero_le _, rfl⟩ rfl
  have run2 := PortRun.time 5 run1 (Nat.zero_le _) (fun t ht => by cases ht; exact le_refl _)
  have run3 := PortRun.processSendEvent .refuses _ run2 (fun call h => absurd h not_mem_nil) rfl rfl
  have run4 := PortRun.time 8 run3 (by decide) (fun t ht => by cases ht)
  have run5 := PortRun.retry (.accepts [(p, 8)]) _ run4
    (fun call h => by rw [mem_singleton.mp h]; exact ⟨le_refl _, rfl⟩) rfl rfl
  have run6 := PortRun.time 9 run5 (by decide) (fun t ht => by cases ht; exact le_refl _)
  have run7 := PortRun.processSendEvent (.accepts []) _ run6
    (fun call h => absurd h not_mem_nil) rfl rfl
  exact ⟨_, run7, rfl, (packet_queue_delivers run7).2.2.1⟩

end Bindu.Mem
