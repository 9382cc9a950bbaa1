/-
The event queue (`sim/eventq.cc`, `sim/eventq_impl.hh`).

The queue is a linked list of linked lists. A bin is the stack of the events with one time and
priority, linked by `nextInBin`; the tops of the bins are linked by `nextBin`, in increasing order
of time and priority. The code keeps `nextBin` right for the top of a bin only: an event that
another one is pushed onto keeps a pointer that may go stale, and gets a fresh one when it is the
top again.

Events are objects with an identity, so the pointers are modelled as pointers: `events` maps
identities to objects, and the functions below walk and change the links as the source does. The
loops take an amount of fuel, which is enough as soon as it exceeds the number of events in the
queue. `Represents` relates the links to the list of bins of `Bindu.Lib.Bins`, and each operation
is shown to do to the bins what `pushBin` and `takeBin` do.

One queue and one thread; `Managed` events, tracing and the asynchronous queue are left out.
What `process()` of an event does to the queue, it does after `serviceOne` has taken the event off,
so its calls are the next calls of a run.
-/
import Mathlib.Data.Prod.Lex
import Bindu.Lib.Bins
import Bindu.Lib.Fallible

namespace Bindu.Sim

open Bindu.Lib Nat
open List (length_cons mem_append mem_cons mem_cons_self nodup_append nodup_cons not_mem_nil)

/-- An `Event`: its links, time and priority, and the two flags that the queue works with. -/
structure Event where
  nextBin : Option ℕ := none
  nextInBin : Option ℕ := none
  _when : ℕ := 0
  _priority : ℤ := 0
  Scheduled : Bool := false
  Squashed : Bool := false
  deriving DecidableEq, Repr

namespace Event

/-- `operator<`. -/
def lt (l r : Event) : Bool :=
  decide (l._when < r._when) || (decide (l._when = r._when) && decide (l._priority < r._priority))

/-- `operator<=`. -/
def le (l r : Event) : Bool :=
  decide (l._when < r._when) || (decide (l._when = r._when) && decide (l._priority ≤ r._priority))

/-- `operator==`. -/
def eq (l r : Event) : Bool :=
  decide (l._when = r._when) && decide (l._priority = r._priority)

/-- Time and priority, in this order. -/
def key (e : Event) : ℕ ×ₗ ℤ := toLex (e._when, e._priority)

theorem lt_iff {l r : Event} : l.lt r = true ↔ l.key < r.key := by
  simp [lt, key, Prod.Lex.toLex_lt_toLex]

theorem le_iff {l r : Event} : l.le r = true ↔ l.key ≤ r.key := by
  simp [le, key, Prod.Lex.toLex_le_toLex]

theorem eq_iff {l r : Event} : l.eq r = true ↔ l.key = r.key := by
  simp [eq, key]

end Event

/-- The panics and assertions of the queue, and loops that run out of fuel. -/
inductive Fault where
  | event_not_found | in_the_past | scheduled | not_scheduled | empty_queue | fuel
  deriving DecidableEq, Repr

/-- The event objects. -/
abbrev Events := ℕ → Event

namespace Events

/-- `e->nextBin = p`. -/
def setNextBin (ev : Events) (e : ℕ) (p : Option ℕ) : Events :=
  Function.update ev e { ev e with nextBin := p }

/-- `e->nextInBin = p`. -/
def setNextInBin (ev : Events) (e : ℕ) (p : Option ℕ) : Events :=
  Function.update ev e { ev e with nextInBin := p }

/-- `Event::insertBefore`. The event is returned by the source and is not here. -/
def insertBefore (ev : Events) (event : ℕ) (curr : Option ℕ) : Events :=
  match curr with
  | none => (ev.setNextBin event none).setNextInBin event none
  | some c =>
    if (ev event).lt (ev c) then
      (ev.setNextBin event (some c)).setNextInBin event none
    else
      (ev.setNextBin event (ev c).nextBin).setNextInBin event (some c)

/-- The loop of `insert` and `remove`: the last bin before `event` and the bin after that. -/
def findBin (ev : Events) (event : ℕ) : ℕ → ℕ → Option ℕ → Except Fault (ℕ × Option ℕ)
  | 0, _, _ => throw .fuel
  | fuel + 1, prev, curr =>
    match curr with
    | none => pure (prev, none)
    | some c =>
      if (ev c).lt (ev event) then
        findBin ev event fuel c (ev c).nextBin
      else
        pure (prev, some c)

/-- The loop of `removeItem`: the event above `event` in its bin. -/
def findInBin (ev : Events) (event : ℕ) : ℕ → ℕ → Option ℕ → Except Fault ℕ
  | 0, _, _ => throw .fuel
  | fuel + 1, curr, next =>
    match next with
    | none => throw .event_not_found
    | some n => if event = n then pure curr else findInBin ev event fuel n (ev n).nextInBin

/-- `Event::removeItem`: the links without `event`, and the new top of its bin. -/
def removeItem (fuel : ℕ) (ev : Events) (event top : ℕ) :
    Except Fault (Events × Option ℕ) :=
  if event = top then
    match (ev top).nextInBin with
    | none => pure (ev, (ev top).nextBin)
    | some next => pure (ev.setNextBin next (ev top).nextBin, some next)
  else do
    let curr ← findInBin ev event fuel top (ev top).nextInBin
    pure (ev.setNextInBin curr (ev event).nextInBin, some top)

/-- The end of `remove`: the loop has stopped at `r`. -/
def removeFrom (fuel : ℕ) (ev : Events) (event : ℕ) (r : ℕ × Option ℕ) : Except Fault Events :=
  match r.2 with
  | none => throw .event_not_found
  | some curr =>
    if (ev curr).eq (ev event) then do
      let r' ← ev.removeItem fuel event curr
      pure (r'.1.setNextBin r.1 r'.2)
    else
      throw .event_not_found

end Events

/-- An `EventQueue`, with the event objects. -/
structure EventQueue where
  head : Option ℕ := none
  _curTick : ℕ := 0
  events : Events

namespace EventQueue

def insert (fuel : ℕ) (q : EventQueue) (event : ℕ) : Except Fault EventQueue :=
  match q.head with
  | none => pure { q with events := q.events.insertBefore event none, head := some event }
  | some h =>
    if (q.events event).le (q.events h) then
      pure { q with events := q.events.insertBefore event (some h), head := some event }
    else do
      let r ← q.events.findBin event fuel h (q.events h).nextBin
      pure { q with events := (q.events.insertBefore event r.2).setNextBin r.1 (some event) }

def remove (fuel : ℕ) (q : EventQueue) (event : ℕ) : Except Fault EventQueue :=
  match q.head with
  | none => throw .event_not_found
  | some h =>
    if (q.events h).eq (q.events event) then do
      let r ← q.events.removeItem fuel event h
      pure { q with events := r.1, head := r.2 }
    else do
      let r ← q.events.findBin event fuel h (q.events h).nextBin
      let events ← q.events.removeFrom fuel event r
      pure { q with events := events }

/-- The queue with one event object changed. -/
def setEvent (q : EventQueue) (e : ℕ) (event : Event) : EventQueue :=
  { q with events := Function.update q.events e event }

def schedule (fuel : ℕ) (q : EventQueue) (event when : ℕ) : Except Fault EventQueue := do
  require (decide (q._curTick ≤ when)) .in_the_past
  require (!(q.events event).Scheduled) .scheduled
  let q ← (q.setEvent event { q.events event with _when := when }).insert fuel event
  pure (q.setEvent event { q.events event with Scheduled := true })

def deschedule (fuel : ℕ) (q : EventQueue) (event : ℕ) : Except Fault EventQueue := do
  require (q.events event).Scheduled .not_scheduled
  let q ← q.remove fuel event
  pure (q.setEvent event { q.events event with Squashed := false, Scheduled := false })

/-- The first half of `reschedule`: an event that is scheduled is taken off. -/
def removeIfScheduled (fuel : ℕ) (q : EventQueue) (event : ℕ) : Except Fault EventQueue :=
  if (q.events event).Scheduled then q.remove fuel event else pure q

def reschedule (fuel : ℕ) (q : EventQueue) (event when : ℕ) (always : Bool) :
    Except Fault EventQueue := do
  require (decide (q._curTick ≤ when)) .in_the_past
  require (always || (q.events event).Scheduled) .not_scheduled
  let q ← q.removeIfScheduled fuel event
  let q ← (q.setEvent event { q.events event with _when := when }).insert fuel event
  pure (q.setEvent event { q.events event with Squashed := false, Scheduled := true })

/-- The first half of `serviceOne`: the head is taken off its bin. -/
def popHead (q : EventQueue) (event : ℕ) : EventQueue :=
  match (q.events event).nextInBin with
  | some next =>
    { q with events := q.events.setNextBin next (q.events event).nextBin, head := some next }
  | none => { q with head := (q.events event).nextBin }

/-- `serviceOne`, up to the call of `process()`: the event that is taken off, and whether it is
processed. -/
def serviceOne (q : EventQueue) : Except Fault (ℕ × Bool × EventQueue) :=
  match q.head with
  | none => throw .empty_queue
  | some event =>
    let q := (q.setEvent event { q.events event with Scheduled := false }).popHead event
    if (q.events event).Squashed then
      pure (event, false, q.setEvent event { q.events event with Squashed := false })
    else
      pure (event, true, { q with _curTick := (q.events event)._when })

end EventQueue

/-- The loops ran out of fuel, and there was too little of it for `n` events. -/
def OutOfFuel (fuel n : ℕ) (f : Fault) : Prop := f = .fuel ∧ fuel ≤ n

theorem OutOfFuel.mono {fuel fuel' n n' : ℕ} {f : Fault} (h : OutOfFuel fuel n f)
    (hle : fuel ≤ n → fuel' ≤ n') : OutOfFuel fuel' n' f :=
  ⟨h.1, hle h.2⟩

/-! ## The links and the bins -/

/-- The events below a pointer in its bin. -/
def InBin (ev : Events) (p : Option ℕ) (l : List ℕ) : Prop :=
  Chain (fun e => (ev e).nextInBin) p l

/-- The links of the queue stand for these bins. -/
def Represents (ev : Events) (p : Option ℕ) (bins : List (List ℕ)) : Prop :=
  Linked (fun e => (ev e).nextBin) (fun e => (ev e).nextInBin) p bins

variable {x : ℕ} {ev ev' : Events} {bins : List (List ℕ)} {p : Option ℕ} {l rest : List ℕ}

theorem inBin_cons :
    InBin ev p (x :: l) ↔ p = some x ∧ InBin ev (ev x).nextInBin l := Iff.rfl

theorem InBin.congr (h : InBin ev p l)
    (heq : ∀ x ∈ l, (ev' x).nextInBin = (ev x).nextInBin) : InBin ev' p l :=
  Chain.congr h heq

theorem represents_cons :
    Represents ev p ((x :: rest) :: bins)
      ↔ p = some x ∧ InBin ev (ev x).nextInBin rest ∧ Represents ev (ev x).nextBin bins := Iff.rfl

theorem Represents.uncons {b : List ℕ}
    (h : Represents ev p (b :: bins)) :
    ∃ x rest, b = x :: rest ∧ p = some x ∧ InBin ev (ev x).nextInBin rest
      ∧ Represents ev (ev x).nextBin bins := by
  cases b with
  | nil => exact absurd h id
  | cons x rest => exact ⟨x, rest, rfl, represents_cons.mp h⟩

/-- The bin with top `x` stays as it is, whatever becomes of the bins behind it. -/
theorem Represents.behind
    (hrest : InBin ev (ev x).nextInBin rest)
    (hin : ∀ y ∈ x :: rest, (ev' y).nextInBin = (ev y).nextInBin)
    (h : Represents ev' (ev' x).nextBin bins) :
    Represents ev' (some x) ((x :: rest) :: bins) := by
  refine represents_cons.mpr ⟨rfl, ?_, h⟩
  rw [hin x mem_cons_self]
  exact hrest.congr (fun y hy => hin y (List.mem_cons_of_mem x hy))

theorem Represents.congr
    (h : Represents ev p bins) (heq : ∀ x ∈ bins.flatten, ev' x = ev x) :
    Represents ev' p bins :=
  Linked.congr h (fun x hx => congrArg Event.nextBin (heq x hx))
    (fun x hx => congrArg Event.nextInBin (heq x hx))

/-- Everything but the links of the events is the same. -/
structure SameEvents (ev ev' : Events) : Prop where
  when : ∀ e, (ev' e)._when = (ev e)._when
  priority : ∀ e, (ev' e)._priority = (ev e)._priority
  scheduled : ∀ e, (ev' e).Scheduled = (ev e).Scheduled
  squashed : ∀ e, (ev' e).Squashed = (ev e).Squashed

namespace SameEvents

theorem refl (ev : Events) : SameEvents ev ev :=
  ⟨fun _ => rfl, fun _ => rfl, fun _ => rfl, fun _ => rfl⟩

theorem trans {ev1 ev2 ev3 : Events} (h : SameEvents ev1 ev2) (h' : SameEvents ev2 ev3) :
    SameEvents ev1 ev3 :=
  ⟨fun e => (h'.when e).trans (h.when e), fun e => (h'.priority e).trans (h.priority e),
    fun e => (h'.scheduled e).trans (h.scheduled e), fun e => (h'.squashed e).trans (h.squashed e)⟩

theorem key (h : SameEvents ev ev') (e : ℕ) : (ev' e).key = (ev e).key := by
  rw [Event.key, Event.key, h.when, h.priority]

end SameEvents

namespace Events

variable (ev : Events) (e : ℕ) (p : Option ℕ)

theorem setNextBin_same : SameEvents ev (ev.setNextBin e p) := by
  constructor <;> intro x <;> by_cases hx : x = e <;> simp [setNextBin, hx]

theorem setNextInBin_same : SameEvents ev (ev.setNextInBin e p) := by
  constructor <;> intro x <;> by_cases hx : x = e <;> simp [setNextInBin, hx]

@[simp] theorem setNextBin_nextBin_self : (ev.setNextBin e p e).nextBin = p := by
  simp [setNextBin]

theorem setNextBin_of_ne (hx : x ≠ e) : ev.setNextBin e p x = ev x := by
  simp [setNextBin, hx]

@[simp] theorem setNextBin_nextInBin (x : ℕ) :
    (ev.setNextBin e p x).nextInBin = (ev x).nextInBin := by
  by_cases hx : x = e <;> simp [setNextBin, hx]

@[simp] theorem setNextInBin_nextInBin_self : (ev.setNextInBin e p e).nextInBin = p := by
  simp [setNextInBin]

theorem setNextInBin_of_ne (hx : x ≠ e) : ev.setNextInBin e p x = ev x := by
  simp [setNextInBin, hx]

@[simp] theorem setNextInBin_nextBin (x : ℕ) :
    (ev.setNextInBin e p x).nextBin = (ev x).nextBin := by
  by_cases hx : x = e <;> simp [setNextInBin, hx]

theorem insertBefore_same : SameEvents ev (ev.insertBefore e p) := by
  cases p with
  | none => exact (ev.setNextBin_same e _).trans (setNextInBin_same _ e _)
  | some c =>
    rw [insertBefore]
    split
    · exact (ev.setNextBin_same e _).trans (setNextInBin_same _ e _)
    · exact (ev.setNextBin_same e _).trans (setNextInBin_same _ e _)

theorem insertBefore_of_ne (hx : x ≠ e) : ev.insertBefore e p x = ev x := by
  cases p with
  | none => rw [insertBefore, setNextInBin_of_ne _ _ _ hx, setNextBin_of_ne _ _ _ hx]
  | some c =>
    rw [insertBefore]
    split
    · rw [setNextInBin_of_ne _ _ _ hx, setNextBin_of_ne _ _ _ hx]
    · rw [setNextInBin_of_ne _ _ _ hx, setNextBin_of_ne _ _ _ hx]

end Events

/-- Putting an event in front of, or on top of, the first bin. -/
theorem Events.insertBefore_represents {e : ℕ} (h : Represents ev p bins) (he : e ∉ bins.flatten)
    (hle : ∀ c, p = some c → (ev e).key ≤ (ev c).key) :
    Represents (ev.insertBefore e p) (some e) (pushBin (fun x => (ev x).key) e bins) := by
  have hframe : ∀ x ∈ bins.flatten, ev.insertBefore e p x = ev x := by
    intro x hx
    refine insertBefore_of_ne ev e p ?_
    rintro rfl
    exact he hx
  have hbins := h.congr hframe
  cases bins with
  | nil =>
    have hp : p = none := h
    subst hp
    refine represents_cons.mpr ⟨rfl, ?_, ?_⟩
    · simp [insertBefore, InBin, Chain]
    · simp [insertBefore, Represents, Linked]
  | cons b bins =>
    obtain ⟨x, rest, rfl, rfl, hchain, hlinked⟩ := hbins.uncons
    have hxe : ¬ (ev x).key < (ev e).key := not_lt.mpr (hle x rfl)
    have hx := hframe x (List.mem_append_left _ mem_cons_self)
    rw [hx] at hlinked hchain
    rw [pushBin]
    by_cases hex : (ev e).key < (ev x).key
    · rw [if_pos hex]
      refine represents_cons.mpr ⟨rfl, ?_, ?_⟩
      · simp [insertBefore, Event.lt_iff.mpr hex, InBin, Chain]
      · have hnext : (ev.insertBefore e (some x) e).nextBin = some x := by
          simp [insertBefore, Event.lt_iff.mpr hex]
        rw [hnext]
        exact h.congr hframe
    · rw [if_neg hex, if_neg hxe]
      have hlt : (ev e).lt (ev x) = false := by
        rw [Bool.eq_false_iff, Ne, Event.lt_iff]
        exact hex
      have hnext : (ev.insertBefore e (some x) e).nextBin = (ev x).nextBin := by
        simp [insertBefore, hlt]
      have hin : (ev.insertBefore e (some x) e).nextInBin = some x := by
        simp [insertBefore, hlt]
      refine represents_cons.mpr ⟨rfl, ?_, ?_⟩
      · rw [hin]
        refine inBin_cons.mpr ⟨rfl, ?_⟩
        rw [hx]
        exact hchain
      · rw [hnext]
        exact hlinked

/-- What `insert` does behind the bin with top `prev`, once `curr` is the bin for the event: of the
objects outside the bins that follow, only `prev` gets another pointer. -/
structure InsertedBehind (ev ev' : Events) (e prev : ℕ) (bins : List (List ℕ)) : Prop where
  represents : Represents ev' (ev' prev).nextBin (pushBin (fun x => (ev x).key) e bins)
  other : ∀ x, x ≠ prev → x ∉ bins.flatten → x ≠ e → ev' x = ev x
  nextInBin : ∀ x, x ≠ e → (ev' x).nextInBin = (ev x).nextInBin

theorem Events.insert_here {e prev : ℕ}
    (h : Represents ev (ev prev).nextBin bins) (hprev : prev ∉ bins.flatten) (hne : e ≠ prev)
    (he : e ∉ bins.flatten)
    (hle : ∀ c, (ev prev).nextBin = some c → (ev e).key ≤ (ev c).key) :
    InsertedBehind ev ((ev.insertBefore e (ev prev).nextBin).setNextBin prev (some e)) e prev
      bins := by
  constructor
  · rw [setNextBin_nextBin_self]
    refine (insertBefore_represents h he hle).congr (fun x hx => setNextBin_of_ne _ _ _ ?_)
    rintro rfl
    rcases mem_pushBin.mp hx with heq | hx
    · exact hne heq.symm
    · exact hprev hx
  · intro x hx _ hxe
    rw [setNextBin_of_ne _ _ _ hx, insertBefore_of_ne _ _ _ hxe]
  · intro x hxe
    rw [setNextBin_nextInBin, insertBefore_of_ne _ _ _ hxe]

/-- `insert` behind the head: the loop ends, and the event goes into its bin. -/
theorem Events.insert_represents (fuel : ℕ) {e prev : ℕ} (h : Represents ev (ev prev).nextBin bins) (hnodup : (prev :: bins.flatten).Nodup)
    (hne : e ≠ prev) (he : e ∉ bins.flatten) :
    Ok (fun r => InsertedBehind ev ((ev.insertBefore e r.2).setNextBin r.1 (some e)) e prev bins)
      (OutOfFuel fuel bins.length) (ev.findBin e fuel prev (ev prev).nextBin) := by
  induction bins generalizing prev fuel with
  | nil =>
    have hnone : (ev prev).nextBin = none := h
    have hhere := insert_here h not_mem_nil hne he (by simp [hnone])
    rw [hnone] at hhere ⊢
    cases fuel with
    | zero => exact ⟨rfl, zero_le _⟩
    | succ fuel => exact hhere
  | cons b bins ih =>
    obtain ⟨x, rest, rfl, hx, hrest, hbins⟩ := h.uncons
    obtain ⟨hprev, hnodup⟩ := nodup_cons.mp hnodup
    by_cases hzero : fuel = 0
    · rw [hzero]
      exact ⟨rfl, zero_le _⟩
    obtain ⟨fuel, rfl⟩ := exists_eq_succ_of_ne_zero hzero
    by_cases hlt : (ev x).key < (ev e).key
    · -- the loop goes on behind `x`
      rw [hx, findBin, if_pos (Event.lt_iff.mpr hlt)]
      have hflat : ((x :: rest) :: bins).flatten = x :: (rest ++ bins.flatten) := rfl
      rw [hflat, mem_cons, mem_append, not_or, not_or] at hprev he
      rw [hflat, nodup_cons, mem_append, not_or, nodup_append] at hnodup
      have hxbins : (x :: bins.flatten).Nodup :=
        nodup_cons.mpr ⟨hnodup.1.2, hnodup.2.2.1⟩
      refine (ih fuel hbins hxbins he.1 he.2.2).mono ?_ (fun f hf => hf.mono succ_le_succ)
      intro r hr
      have hframe := hr.other prev hprev.1 hprev.2.2 hne.symm
      constructor
      · rw [hframe, hx, pushBin, if_neg (not_lt.mpr (le_of_lt hlt)), if_pos hlt]
        refine .behind hrest (fun y hy => hr.nextInBin y ?_) hr.represents
        rintro rfl
        exact (mem_cons.mp hy).elim he.1 he.2.1
      · intro y hy hybins hye
        rw [hflat, mem_cons, mem_append, not_or, not_or] at hybins
        exact hr.other y hybins.1 hybins.2.2 hye
      · exact hr.nextInBin
    · have hhere := insert_here h hprev hne he (by
        rintro c hc
        rw [hx, Option.some.injEq] at hc
        rw [← hc]
        exact not_lt.mp hlt)
      rw [hx] at hhere
      rw [hx, findBin, if_neg (by rw [Event.lt_iff]; exact hlt)]
      exact hhere

/-! ## Taking an event out -/

/-- `event` is below `curr` in a bin: the loop of `removeItem` finds the event above it, and with
the pointer of that one changed the bin goes on without `event`. -/
theorem Events.findInBin_spec (fuel : ℕ) {e curr : ℕ}
    (h : InBin ev (ev curr).nextInBin l) (hnodup : (curr :: l).Nodup) (he : e ∈ l) :
    Ok (fun c =>
      c ∈ curr :: l.erase e ∧ InBin (ev.setNextInBin c (ev e).nextInBin)
          (ev.setNextInBin c (ev e).nextInBin curr).nextInBin (l.erase e))
      (OutOfFuel fuel l.length) (ev.findInBin e fuel curr (ev curr).nextInBin) := by
  induction l generalizing curr fuel with
  | nil => exact absurd he not_mem_nil
  | cons x l ih =>
    obtain ⟨hx, hl⟩ := inBin_cons.mp h
    obtain ⟨hcurr, hnodup⟩ := nodup_cons.mp hnodup
    by_cases hzero : fuel = 0
    · rw [hzero]
      exact ⟨rfl, zero_le _⟩
    obtain ⟨fuel, rfl⟩ := exists_eq_succ_of_ne_zero hzero
    rw [hx, findInBin]
    by_cases hex : e = x
    · subst hex
      rw [if_pos rfl, List.erase_cons_head]
      refine ⟨mem_cons_self, ?_⟩
      rw [setNextInBin_nextInBin_self]
      refine hl.congr (fun y hy => ?_)
      rw [setNextInBin_of_ne]
      rintro rfl
      exact hcurr (List.mem_cons_of_mem _ hy)
    · rw [if_neg hex, List.erase_cons_tail (by simpa using Ne.symm hex)]
      have hel := (mem_cons.mp he).resolve_left hex
      refine (ih fuel hl hnodup hel).mono ?_ (fun f hf => hf.mono succ_le_succ)
      rintro c ⟨hc, hin⟩
      refine ⟨List.mem_cons_of_mem _ hc, ?_⟩
      have hne : curr ≠ c := by
        rintro rfl
        refine hcurr (mem_cons.mpr ?_)
        exact (mem_cons.mp hc).imp_right List.mem_of_mem_erase
      rw [setNextInBin_of_ne _ _ _ hne, hx]
      exact inBin_cons.mpr ⟨rfl, hin⟩

/-- `removeItem` takes the event out of its bin; only objects of this bin change. -/
theorem Events.removeItem_spec (fuel : ℕ) {e top : ℕ} (h : Represents ev (some top) ((top :: rest) :: bins))
    (hnodup : ((top :: rest) :: bins).flatten.Nodup) (he : e ∈ top :: rest) :
    Ok (fun r => Represents r.1 r.2 (takeBin e ((top :: rest) :: bins))
        ∧ SameEvents ev r.1 ∧ ∀ x, x ∉ top :: rest → r.1 x = ev x)
      (OutOfFuel fuel rest.length) (ev.removeItem fuel e top) := by
  obtain ⟨-, hrest, hbins⟩ := represents_cons.mp h
  rw [List.flatten_cons, nodup_append] at hnodup
  obtain ⟨hbin, -, hdisjoint⟩ := hnodup
  rw [removeItem, takeBin, if_pos he]
  by_cases htop : e = top
  · subst htop
    rw [if_pos rfl, List.erase_cons_head]
    cases rest with
    | nil =>
      have hnone : (ev e).nextInBin = none := hrest
      rw [hnone]
      exact ⟨hbins, SameEvents.refl ev, fun _ _ => rfl⟩
    | cons y rest =>
      obtain ⟨hy, hrest⟩ := inBin_cons.mp hrest
      rw [hy, if_neg (by simp)]
      refine ⟨represents_cons.mpr ⟨rfl, ?_, ?_⟩, ev.setNextBin_same y _, ?_⟩
      · rw [setNextBin_nextInBin]
        exact hrest.congr (fun z _ => setNextBin_nextInBin ev y _ z)
      · rw [setNextBin_nextBin_self]
        refine hbins.congr (fun z hz => setNextBin_of_ne ev y _ ?_)
        rintro rfl
        exact hdisjoint z (by simp) z hz rfl
      · intro x hx
        refine setNextBin_of_ne ev y _ ?_
        rintro rfl
        exact hx (by simp)
  · rw [if_neg htop, List.erase_cons_tail (by simpa using Ne.symm htop), if_neg (by simp)]
    have hel := (mem_cons.mp he).resolve_left htop
    refine (findInBin_spec fuel hrest hbin hel).bind ?_
    rintro c ⟨hc, hin⟩
    have hc' : c ∈ top :: rest :=
      mem_cons.mpr ((mem_cons.mp hc).imp_right List.mem_of_mem_erase)
    refine ⟨represents_cons.mpr ⟨rfl, hin, ?_⟩, ev.setNextInBin_same c _, ?_⟩
    · rw [setNextInBin_nextBin]
      refine hbins.congr (fun z hz => setNextInBin_of_ne ev c _ ?_)
      rintro rfl
      exact hdisjoint z hc' z hz rfl
    · intro x hx
      refine setNextInBin_of_ne ev c _ ?_
      rintro rfl
      exact hx hc'

/-- What `remove` does behind the bin with top `prev`: of the objects outside the bins that follow,
only `prev` gets another pointer. -/
structure RemovedBehind (ev ev' : Events) (e prev : ℕ) (bins : List (List ℕ)) : Prop where
  represents : Represents ev' (ev' prev).nextBin (takeBin e bins)
  same : SameEvents ev ev'
  other : ∀ x, x ≠ prev → x ∉ bins.flatten → ev' x = ev x
  nextInBin : ∀ x, x ∉ bins.flatten → (ev' x).nextInBin = (ev x).nextInBin

/-- `remove` behind the head: the loop ends at the bin of the event, and `removeItem` finds it. -/
theorem Events.remove_represents (fuel fuel' : ℕ) {e prev : ℕ} (h : Represents ev (ev prev).nextBin bins)
    (hord : OrderedBins (fun x => (ev x).key) bins) (hprev : prev ∉ bins.flatten)
    (he : e ∈ bins.flatten) :
    Ok (fun r => Ok (fun ev' => RemovedBehind ev ev' e prev bins)
        (OutOfFuel fuel' bins.flatten.length) (ev.removeFrom fuel' e r))
      (OutOfFuel fuel bins.length) (ev.findBin e fuel prev (ev prev).nextBin) := by
  induction bins generalizing prev fuel with
  | nil => exact absurd he not_mem_nil
  | cons b bins ih =>
    obtain ⟨x, rest, rfl, hx, hrest, hbins⟩ := h.uncons
    by_cases hzero : fuel = 0
    · rw [hzero]
      exact ⟨rfl, zero_le _⟩
    obtain ⟨fuel, rfl⟩ := exists_eq_succ_of_ne_zero hzero
    obtain ⟨-, hbin, hsame, hlater, hord'⟩ := OrderedBins.cons_iff.mp hord
    have hnodup := hord.nodup
    have hflat : ((x :: rest) :: bins).flatten = (x :: rest) ++ bins.flatten := rfl
    have hlen : rest.length ≤ ((x :: rest) :: bins).flatten.length
        ∧ bins.flatten.length ≤ ((x :: rest) :: bins).flatten.length := by
      rw [hflat, List.length_append, length_cons]
      omega
    rw [hx, findBin]
    by_cases hlt : (ev x).key < (ev e).key
    · -- the event is not in this bin
      rw [if_pos (Event.lt_iff.mpr hlt)]
      have hnot : e ∉ x :: rest := fun hmem =>
        absurd (hsame x mem_cons_self e hmem) (ne_of_lt hlt)
      rw [hflat, mem_append] at he
      rw [hflat, mem_append, not_or, mem_cons, not_or] at hprev
      rw [hflat, nodup_append] at hnodup
      have hxbins : x ∉ bins.flatten :=
        fun hmem => hnodup.2.2 x mem_cons_self x hmem rfl
      refine (ih fuel hbins hord' hxbins (he.resolve_left hnot)).mono
        (fun r hr => hr.mono (fun ev' hev => ?_) (fun f hf => hf.mono (le_trans · hlen.2)))
        (fun f hf => hf.mono succ_le_succ)
      constructor
      · rw [hev.other prev hprev.1.1 hprev.2, hx, takeBin, if_neg hnot]
        refine .behind hrest (fun y hy => hev.nextInBin y ?_) hev.represents
        exact fun hmem => hnodup.2.2 y hy y hmem rfl
      · exact hev.same
      · intro y hy hybins
        rw [hflat, mem_append, not_or, mem_cons, not_or] at hybins
        exact hev.other y hybins.1.1 hybins.2
      · intro y hybins
        rw [hflat, mem_append, not_or] at hybins
        exact hev.nextInBin y hybins.2
    · -- it is in this one: the later bins have greater keys
      rw [if_neg (by rw [Event.lt_iff]; exact hlt)]
      have hmem : e ∈ x :: rest := by
        rw [hflat, mem_append] at he
        exact he.resolve_right (fun hmem => hlt (hlater x mem_cons_self e hmem))
      have heq : (ev x).eq (ev e) = true :=
        Event.eq_iff.mpr (hsame x mem_cons_self e hmem)
      rw [Ok.pure_iff]
      simp only [removeFrom, heq, if_true]
      rw [hx] at h
      have hitem := removeItem_spec fuel' h hnodup hmem
      refine (hitem.mono (fun _ hr => hr) (fun f hf => hf.mono (le_trans · hlen.1))).bind ?_
      rintro r ⟨hr, hrsame, hother⟩
      have hout : ∀ y, y ∉ ((x :: rest) :: bins).flatten → r.1 y = ev y := by
        intro y hy
        rw [hflat, mem_append, not_or] at hy
        exact hother y hy.1
      constructor
      · rw [setNextBin_nextBin_self]
        refine hr.congr (fun y hy => setNextBin_of_ne _ _ _ ?_)
        rintro rfl
        exact hprev (mem_of_mem_takeBin hy)
      · exact hrsame.trans (setNextBin_same _ _ _)
      · intro y hy hybins
        rw [setNextBin_of_ne _ _ _ hy, hout y hybins]
      · intro y hybins
        rw [setNextBin_nextInBin, hout y hybins]

/-! ## The operations of the queue -/

/-- The queue holds these bins, in order. -/
structure Holds (q : EventQueue) (bins : List (List ℕ)) : Prop where
  represents : Represents q.events q.head bins
  ordered : OrderedBins (fun e => (q.events e).key) bins

namespace Holds

variable {q : EventQueue} {bins : List (List ℕ)}

/-- A queue whose events differ in their flags only. -/
theorem of_flags {q' : EventQueue} (h : Holds q bins) (hhead : q'.head = q.head)
    (hbin : ∀ e ∈ bins.flatten, (q'.events e).nextBin = (q.events e).nextBin)
    (hin : ∀ e ∈ bins.flatten, (q'.events e).nextInBin = (q.events e).nextInBin)
    (hkey : ∀ e ∈ bins.flatten, (q'.events e).key = (q.events e).key) : Holds q' bins where
  represents := by
    rw [hhead]
    exact Linked.congr h.represents hbin hin
  ordered := h.ordered.congr hkey

theorem length_le (h : Holds q bins) : bins.length ≤ bins.flatten.length := by
  rw [List.length_flatten]
  have hone : ∀ n ∈ bins.map List.length, 1 ≤ n := by
    intro n hn
    obtain ⟨b, hb, rfl⟩ := List.mem_map.mp hn
    exact List.length_pos_of_ne_nil (h.ordered.nonempty b hb)
  have hsum := List.card_nsmul_le_sum _ 1 hone
  rwa [List.length_map, smul_eq_mul, mul_one] at hsum

theorem head_of_mem (h : Holds q bins) {e : ℕ} (he : e ∈ bins.flatten) : ∃ t, q.head = some t := by
  have hrep := h.represents
  cases bins with
  | nil => exact absurd he not_mem_nil
  | cons b bins =>
    obtain ⟨t, -, -, ht, -⟩ := hrep.uncons
    exact ⟨t, ht⟩

theorem bins_of_head (h : Holds q bins) {t : ℕ} (hhead : q.head = some t) :
    ∃ rest bins', bins = (t :: rest) :: bins' := by
  have hrep := h.represents
  rw [hhead] at hrep
  cases bins with
  | nil => exact absurd hrep (by simp [Represents, Linked])
  | cons b bins =>
    obtain ⟨x, rest, rfl, hx, -⟩ := hrep.uncons
    rw [Option.some.inj hx]
    exact ⟨rest, bins, rfl⟩

end Holds

namespace EventQueue

variable {q : EventQueue} {bins : List (List ℕ)} {e fuel : ℕ}

/-- `insert` returns, with the event in its place and everything but the links as before. -/
theorem insert_spec (h : Holds q bins) (he : e ∉ bins.flatten) :
    Ok (fun q' => Holds q' (pushBin (fun x => (q.events x).key) e bins)
        ∧ SameEvents q.events q'.events ∧ q'._curTick = q._curTick)
      (OutOfFuel fuel bins.flatten.length) (q.insert fuel e) := by
  have hord := h.ordered.push he
  have hlen := h.length_le
  have hrep := h.represents
  rw [insert]
  cases hhead : q.head with
  | none =>
    rw [hhead] at hrep
    have hsame := q.events.insertBefore_same e none
    refine ⟨⟨Events.insertBefore_represents hrep he (by simp), ?_⟩, hsame, rfl⟩
    exact hord.congr (fun x _ => hsame.key x)
  | some t =>
    rw [hhead] at hrep
    by_cases hle : (q.events e).le (q.events t) = true
    · simp only [hle, if_true]
      have hsame := q.events.insertBefore_same e (some t)
      refine ⟨⟨Events.insertBefore_represents hrep he ?_, ?_⟩, hsame, rfl⟩
      · rintro c hc
        rw [Option.some.injEq] at hc
        rw [← hc]
        exact Event.le_iff.mp hle
      · exact hord.congr (fun x _ => hsame.key x)
    · simp only [hle]
      have hlt : (q.events t).key < (q.events e).key := by
        rw [← not_le, ← Event.le_iff]
        exact hle
      obtain ⟨rest, bins, rfl⟩ := h.bins_of_head hhead
      obtain ⟨-, hrest, hbins⟩ := represents_cons.mp hrep
      have hflat : ((t :: rest) :: bins).flatten = t :: (rest ++ bins.flatten) := rfl
      have hnodup := h.ordered.nodup
      rw [hflat, nodup_cons, mem_append, not_or, nodup_append] at hnodup
      rw [hflat, mem_cons, mem_append, not_or, not_or] at he
      have hbound : bins.length ≤ ((t :: rest) :: bins).flatten.length :=
        (le_succ _).trans hlen
      have hfind := Events.insert_represents fuel hbins
        (nodup_cons.mpr ⟨hnodup.1.2, hnodup.2.2.1⟩) he.1 he.2.2
      refine (hfind.mono (fun _ hr => hr)
        (fun f hf => hf.mono (le_trans · hbound))).bind (fun r hr => ?_)
      have hsame := (q.events.insertBefore_same e r.2).trans (Events.setNextBin_same _ r.1 (some e))
      refine ⟨⟨?_, hord.congr (fun x _ => hsame.key x)⟩, hsame, rfl⟩
      rw [pushBin, if_neg (not_lt.mpr (le_of_lt hlt)), if_pos hlt]
      refine .behind hrest (fun y hy => hr.nextInBin y ?_) hr.represents
      rintro rfl
      exact (mem_cons.mp hy).elim he.1 he.2.1

/-- `remove` does not panic on an event that is in the queue, and takes it out. -/
theorem remove_spec (h : Holds q bins) (he : e ∈ bins.flatten) :
    Ok (fun q' => Holds q' (takeBin e bins) ∧ SameEvents q.events q'.events
        ∧ q'._curTick = q._curTick)
      (OutOfFuel fuel bins.flatten.length) (q.remove fuel e) := by
  have hord := h.ordered.take e
  have hlen := h.length_le
  have hrep := h.represents
  rw [remove]
  cases bins with
  | nil => exact absurd he not_mem_nil
  | cons b bins =>
    obtain ⟨t, rest, rfl, hhead, hrest, hbins⟩ := hrep.uncons
    obtain ⟨-, -, hsame, hlater, hord'⟩ := OrderedBins.cons_iff.mp h.ordered
    have hflat : ((t :: rest) :: bins).flatten = (t :: rest) ++ bins.flatten := rfl
    have hlens : rest.length ≤ ((t :: rest) :: bins).flatten.length
        ∧ bins.flatten.length ≤ ((t :: rest) :: bins).flatten.length
        ∧ bins.length ≤ ((t :: rest) :: bins).flatten.length := by
      rw [length_cons] at hlen
      rw [hflat, List.length_append, length_cons] at hlen ⊢
      omega
    have hnodup := h.ordered.nodup
    rw [hhead] at hrep ⊢
    by_cases heq : (q.events t).eq (q.events e) = true
    · -- the event has the time and priority of the head
      simp only [heq, if_true]
      have hmem : e ∈ t :: rest := (h.ordered.first he).2 (Event.eq_iff.mp heq).symm
      have hitem := Events.removeItem_spec fuel hrep hnodup hmem
      refine (hitem.mono (fun _ hr => hr) (fun f hf => hf.mono (le_trans · hlens.1))).bind ?_
      rintro r ⟨hr, hrsame, -⟩
      exact ⟨⟨hr, hord.congr (fun x _ => hrsame.key x)⟩, hrsame, rfl⟩
    · simp only [heq]
      have hnot : e ∉ t :: rest := fun hmem =>
        heq (Event.eq_iff.mpr (hsame t mem_cons_self e hmem))
      rw [hflat, nodup_append] at hnodup
      rw [hflat, mem_append] at he
      have hfind := Events.remove_represents fuel fuel hbins hord'
        (fun hmem => hnodup.2.2 t mem_cons_self t hmem rfl) (he.resolve_left hnot)
      refine (hfind.mono (fun _ hr => hr)
        (fun f hf => hf.mono (le_trans · hlens.2.2))).bind (fun r hr => ?_)
      refine (hr.mono (fun _ hev => hev)
        (fun f hf => hf.mono (le_trans · hlens.2.1))).bind (fun ev' hev => ?_)
      refine ⟨⟨?_, hord.congr (fun x _ => hev.same.key x)⟩, hev.same, rfl⟩
      rw [takeBin, if_neg hnot]
      refine .behind hrest (fun y hy => hev.nextInBin y ?_) hev.represents
      exact fun hmem => hnodup.2.2 y hy y hmem rfl

/-- What `serviceOne` does to the links is what `removeItem` does to the top of a bin. -/
theorem removeItem_head (t : ℕ) :
    q.events.removeItem fuel t t = .ok ((q.popHead t).events, (q.popHead t).head) := by
  rw [Events.removeItem, if_pos rfl, popHead]
  cases (q.events t).nextInBin with
  | none => rfl
  | some next => rfl

theorem popHead_spec {t : ℕ} (h : Holds q bins) (hhead : q.head = some t) :
    Holds (q.popHead t) (takeBin t bins) ∧ SameEvents q.events (q.popHead t).events := by
  obtain ⟨rest, bins, rfl⟩ := h.bins_of_head hhead
  have hrep := h.represents
  rw [hhead] at hrep
  have hitem := Events.removeItem_spec 0 hrep h.ordered.nodup mem_cons_self
  obtain ⟨hr, hsame, -⟩ := hitem.elim (removeItem_head t)
  exact ⟨⟨hr, (h.ordered.take t).congr (fun x _ => hsame.key x)⟩, hsame⟩

end EventQueue

end Bindu.Sim
