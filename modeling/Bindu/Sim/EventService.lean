/-
What holds in every run of the event queue: whatever is scheduled, descheduled and rescheduled, by
whom and in whatever order, the queue holds the scheduled events and nothing else, serves the least
one first, and serves each insertion at most once.

To say "the one inserted last" and "not twice", a run carries a history. Every insertion into the
queue gets a number, its stamp; the history has the stamp of the last insertion of each event, and
the lists of the insertions that were served and that were taken back.
-/
import Bindu.Sim.EventQueue

namespace Bindu.Sim

open Bindu.Lib Function List EventQueue

/-! ## Runs and their history -/

/-- The calls into a queue. `squash` marks an event that `serviceOne` is not to process. -/
inductive EventCall where
  | schedule (event when : ℕ)
  | deschedule (event : ℕ)
  | reschedule (event when : ℕ) (always : Bool)
  | squash (event : ℕ)
  | serviceOne
  deriving DecidableEq, Repr

namespace EventCall

def apply (fuel : ℕ) (q : EventQueue) : EventCall → Except Fault EventQueue
  | schedule event when => q.schedule fuel event when
  | deschedule event => q.deschedule fuel event
  | reschedule event when always => q.reschedule fuel event when always
  | squash event => pure (q.setEvent event { q.events event with Squashed := true })
  | serviceOne => do
      let out ← q.serviceOne
      pure out.2.2

/-- What the code asserts before the call. The simulation loop calls `serviceOne` for a queue that
is not empty. -/
def Asserted (q : EventQueue) : EventCall → Prop
  | schedule event when => q._curTick ≤ when ∧ (q.events event).Scheduled = false
  | deschedule event => (q.events event).Scheduled = true
  | reschedule event when always =>
    q._curTick ≤ when ∧ (always = true ∨ (q.events event).Scheduled = true)
  | squash _ => True
  | serviceOne => q.head ≠ none

end EventCall

/-- Which insertions there were and what became of them. -/
structure History where
  count : ℕ := 0
  stamp : ℕ → ℕ := fun _ => 0
  served : List ℕ := []
  removed : List ℕ := []

namespace History

def insert (h : History) (e : ℕ) : History :=
  { h with count := h.count + 1, stamp := update h.stamp e h.count }

def remove (h : History) (e : ℕ) : History := { h with removed := h.stamp e :: h.removed }

def serve (h : History) (e : ℕ) : History := { h with served := h.stamp e :: h.served }

/-- The history after a call that is made in `q`. -/
def after (h : History) (q : EventQueue) : EventCall → History
  | .schedule event _ => h.insert event
  | .deschedule event => h.remove event
  | .reschedule event _ _ =>
    if (q.events event).Scheduled then (h.remove event).insert event else h.insert event
  | .squash _ => h
  | .serviceOne =>
    match q.head with
    | none => h
    | some event => h.serve event

end History

/-- The states of a queue that starts empty. -/
inductive EventRun : EventQueue → History → Prop
  | start (events : Events) : (∀ e, (events e).Scheduled = false) → EventRun { events := events } {}
  | call {q q' : EventQueue} {h : History} {fuel : ℕ} (c : EventCall) : EventRun q h →
      c.apply fuel q = .ok q' → EventRun q' (h.after q c)

/-- A sequence of calls. -/
def runEvents (fuel : ℕ) : EventQueue → History → List EventCall →
    Except Fault (EventQueue × History)
  | q, h, [] => pure (q, h)
  | q, h, c :: calls => do
      let q' ← c.apply fuel q
      runEvents fuel q' (h.after q c) calls

theorem EventRun.of_calls (fuel : ℕ) (calls : List EventCall) {q : EventQueue} {h : History}
    {out : EventQueue × History} (run : EventRun q h)
    (hcalls : runEvents fuel q h calls = .ok out) : EventRun out.1 out.2 := by
  induction calls generalizing q h with
  | nil =>
    cases hcalls
    exact run
  | cons c calls ih =>
    obtain ⟨q', hc, hrest⟩ := bind_eq_ok.mp hcalls
    exact ih (run.call c hc) hrest

/-! ## The invariant

`Keeps` is what the queue operations keep. The `Scheduled` flags are set by their callers, so that
they agree with the queue between calls only. -/

/-- The queue holds `bins`; in a bin the later insertion is on top; nothing in the queue is in the
past; and every insertion is in exactly one of three places: served, taken back, or queued. -/
structure Keeps (q : EventQueue) (h : History) (bins : List (List ℕ)) : Prop where
  holds : Holds q bins
  stacked : Stacked h.stamp bins
  timely : ∀ e ∈ bins.flatten, q._curTick ≤ (q.events e)._when
  once : (h.served ++ h.removed ++ bins.flatten.map h.stamp).Perm (range h.count)

namespace Keeps

variable {q q' : EventQueue} {h : History} {bins : List (List ℕ)} {e fuel : ℕ}

theorem stamp_lt (k : Keeps q h bins) {x : ℕ} (hx : x ∈ bins.flatten) : h.stamp x < h.count := by
  rw [← mem_range, ← k.once.mem_iff]
  exact mem_append_right _ (mem_map_of_mem hx)

/-- The object of an event that is not in the queue does not matter. -/
theorem setEvent_out (k : Keeps q h bins) (he : e ∉ bins.flatten) (event : Event) :
    Keeps (q.setEvent e event) h bins := by
  have hsame : ∀ x ∈ bins.flatten, (q.setEvent e event).events x = q.events x := by
    intro x hx
    refine update_of_ne ?_ _ _
    rintro rfl
    exact he hx
  refine ⟨k.holds.of_flags rfl ?_ ?_ ?_, k.stacked, ?_, k.once⟩
  · exact fun x hx => congrArg Event.nextBin (hsame x hx)
  · exact fun x hx => congrArg Event.nextInBin (hsame x hx)
  · exact fun x hx => congrArg Event.key (hsame x hx)
  · intro x hx
    rw [hsame x hx]
    exact k.timely x hx

/-- Neither do the flags of any event. -/
theorem setEvent_flags (k : Keeps q h bins) (e : ℕ) (scheduled squashed : Bool) :
    Keeps (q.setEvent e { q.events e with Scheduled := scheduled, Squashed := squashed }) h
      bins := by
  have hsame : ∀ x, ∃ s s', (q.setEvent e { q.events e with
      Scheduled := scheduled, Squashed := squashed }).events x
        = { q.events x with Scheduled := s, Squashed := s' } := by
    intro x
    by_cases hx : x = e
    · subst hx
      exact ⟨scheduled, squashed, update_self ..⟩
    · exact ⟨_, _, update_of_ne hx ..⟩
  refine ⟨k.holds.of_flags rfl ?_ ?_ ?_, k.stacked, ?_, k.once⟩
  all_goals
    intro x hx
    obtain ⟨s, s', hx'⟩ := hsame x
    rw [hx']
  · rfl
  · exact k.timely x hx

theorem insert (k : Keeps q h bins) (he : e ∉ bins.flatten)
    (hwhen : q._curTick ≤ (q.events e)._when) :
    Ok (fun q' => Keeps q' (h.insert e) (pushBin (fun x => (q.events x).key) e bins)
        ∧ SameEvents q.events q'.events)
      (OutOfFuel fuel bins.flatten.length) (q.insert fuel e) := by
  have hself : (h.insert e).stamp e = h.count := update_self ..
  have hne : ∀ x ∈ bins.flatten, (h.insert e).stamp x = h.stamp x := by
    intro x hx
    refine update_of_ne ?_ _ _
    rintro rfl
    exact he hx
  refine (insert_spec k.holds he).imp ?_
  rintro q' ⟨hholds, hsame, htick⟩
  refine ⟨⟨hholds, ?_, ?_, ?_⟩, hsame⟩
  · refine (k.stacked.congr hne).push (fun x hx => ?_)
    rw [hne x hx, hself]
    exact k.stamp_lt hx
  · intro x hx
    rw [htick, hsame.when]
    rcases mem_pushBin.mp hx with rfl | hx
    · exact hwhen
    · exact k.timely x hx
  · -- the new insertion is in the queue, the others are where they were
    have hqueue := (pushBin_perm (fun x => (q.events x).key) e bins).map (h.insert e).stamp
    rw [map_cons, hself, map_congr_left hne] at hqueue
    have hall := (hqueue.append_left (h.served ++ h.removed)).trans perm_middle
    have hcount : (h.insert e).count = h.count + 1 := rfl
    rw [hcount, range_succ]
    exact (hall.trans (k.once.cons h.count)).trans (perm_append_singleton _ _).symm

/-- An event that leaves the queue: its insertion is in one of the two lists from then on. -/
theorem take (k : Keeps q h bins) (he : e ∈ bins.flatten) (hholds : Holds q' (takeBin e bins))
    (htimely : ∀ x ∈ (takeBin e bins).flatten, q'._curTick ≤ (q'.events x)._when) {h' : History}
    (hcount : h'.count = h.count) (hstamp : h'.stamp = h.stamp)
    (hlists : (h'.served ++ h'.removed).Perm (h.stamp e :: (h.served ++ h.removed))) :
    Keeps q' h' (takeBin e bins) := by
  refine ⟨hholds, ?_, htimely, ?_⟩
  · rw [hstamp]
    exact k.stacked.take e
  · rw [hstamp, hcount]
    refine Perm.trans ?_ k.once
    have hqueue := (takeBin_perm he).map h.stamp
    rw [map_cons] at hqueue
    exact (hlists.append_right _).trans
      (perm_middle.symm.trans (hqueue.symm.append_left (h.served ++ h.removed)))

theorem remove (fuel : ℕ) (k : Keeps q h bins) (he : e ∈ bins.flatten) :
    Ok (fun q' => Keeps q' (h.remove e) (takeBin e bins) ∧ SameEvents q.events q'.events
        ∧ q'._curTick = q._curTick)
      (OutOfFuel fuel bins.flatten.length) (q.remove fuel e) := by
  refine (remove_spec k.holds he).imp ?_
  rintro q' ⟨hholds, hsame, htick⟩
  refine ⟨k.take he hholds ?_ rfl rfl perm_middle, hsame, htick⟩
  intro x hx
  rw [htick, hsame.when]
  exact k.timely x (mem_of_mem_takeBin hx)

/-- The head has the least time and priority, and the greatest stamp of those that share them. -/
theorem head_first (k : Keeps q h bins) {t : ℕ} (hhead : q.head = some t) :
    t ∈ bins.flatten ∧ ∀ y ∈ bins.flatten, (q.events t).key ≤ (q.events y).key
      ∧ ((q.events y).key = (q.events t).key → y ≠ t → h.stamp y < h.stamp t) := by
  obtain ⟨rest, bins, rfl⟩ := k.holds.bins_of_head hhead
  refine ⟨mem_append_left _ mem_cons_self, fun y hy => ?_⟩
  obtain ⟨hle, hbin⟩ := k.holds.ordered.first hy
  refine ⟨hle, fun hkey hne => ?_⟩
  have hmem := (mem_cons.mp (hbin hkey)).resolve_left hne
  exact (pairwise_cons.mp (k.stacked _ mem_cons_self)).1 y hmem

end Keeps

/-! ## The calls -/

/-- The queue keeps its order, and its events are those that are flagged as scheduled. -/
structure Agrees (q : EventQueue) (h : History) (bins : List (List ℕ)) : Prop extends
    Keeps q h bins where
  scheduled : ∀ e, e ∈ bins.flatten ↔ (q.events e).Scheduled = true

namespace Agrees

variable {q q' : EventQueue} {h : History} {bins : List (List ℕ)} {e fuel when : ℕ}

theorem insert (fuel : ℕ) (k : Keeps q h bins) (he : e ∉ bins.flatten)
    (hothers : ∀ x ≠ e, (x ∈ bins.flatten ↔ (q.events x).Scheduled = true))
    (hwhen : q._curTick ≤ when) (squashed : EventQueue → Bool) :
    Ok (fun q' => ∃ bins', Agrees q' (h.insert e) bins') (OutOfFuel fuel bins.flatten.length) (do
        let q ← (q.setEvent e { q.events e with _when := when }).insert fuel e
        pure (q.setEvent e
          { q.events e with Scheduled := true, Squashed := squashed q })) := by
  have kout := k.setEvent_out he { q.events e with _when := when }
  have hself : ((q.setEvent e { q.events e with _when := when }).events e)._when = when := by
    simp [setEvent]
  refine (kout.insert he (by rw [hself]; exact hwhen)).bind ?_
  rintro q1 ⟨k1, hsame⟩
  refine ⟨_, k1.setEvent_flags e true (squashed q1), ?_⟩
  intro x
  rw [mem_pushBin]
  by_cases hx : x = e
  · subst hx
    simp [setEvent]
  · have hflag := hsame.scheduled x
    simp only [setEvent, update_of_ne hx] at hflag ⊢
    rw [hflag, ← hothers x hx]
    simp [hx]

/-- The events other than `e` agree with their flags once `e` has been taken out. -/
theorem others_of_take (a : Agrees q h bins) (he : e ∈ bins.flatten)
    (hsame : ∀ x ≠ e, (q'.events x).Scheduled = (q.events x).Scheduled) :
    e ∉ (takeBin e bins).flatten
      ∧ ∀ x ≠ e, (x ∈ (takeBin e bins).flatten ↔ (q'.events x).Scheduled = true) := by
  have hperm := takeBin_perm he
  have hnodup := hperm.nodup_iff.mp a.holds.ordered.nodup
  refine ⟨(nodup_cons.mp hnodup).1, fun x hx => ?_⟩
  rw [hsame x hx, ← a.scheduled, hperm.mem_iff, mem_cons]
  simp [hx]

theorem take (a : Agrees q h bins) (he : e ∈ bins.flatten) {h' : History}
    (k : Keeps q' h' (takeBin e bins)) (hsame : SameEvents q.events q'.events) (squashed : Bool) :
    Agrees (q'.setEvent e { q'.events e with Scheduled := false, Squashed := squashed }) h'
      (takeBin e bins) := by
  obtain ⟨hout, hothers⟩ := a.others_of_take he (fun x _ => hsame.scheduled x)
  refine ⟨k.setEvent_flags e false squashed, fun x => ?_⟩
  by_cases hx : x = e
  · subst hx
    simp [setEvent, hout]
  · rw [hothers x hx]
    simp [setEvent, update_of_ne hx]

theorem schedule (a : Agrees q h bins) :
    Ok (fun q' => ∃ bins', Agrees q' (h.insert e) bins')
      (fun f => OutOfFuel fuel bins.flatten.length f ∨ ¬ (EventCall.schedule e when).Asserted q)
      (q.schedule fuel e when) := by
  rw [EventQueue.schedule]
  refine Ok.require_bind (fun hfail => .inr (fun hpre => ?_)) (fun hwhen => ?_)
  · simp [hpre.1] at hfail
  refine Ok.require_bind (fun hfail => .inr (fun hpre => ?_)) (fun hfree => ?_)
  · simp [hpre.2] at hfail
  have he : e ∉ bins.flatten := by
    rw [a.scheduled]
    simpa using hfree
  have hins := insert fuel a.toKeeps he (fun x _ => a.scheduled x)
    (of_decide_eq_true hwhen) (fun q => (q.events e).Squashed)
  exact hins.mono (fun _ hq => hq) (fun f hf => .inl hf)

theorem deschedule (a : Agrees q h bins) :
    Ok (fun q' => ∃ bins', Agrees q' (h.remove e) bins')
      (fun f => OutOfFuel fuel bins.flatten.length f ∨ ¬ (EventCall.deschedule e).Asserted q)
      (q.deschedule fuel e) := by
  rw [EventQueue.deschedule]
  refine Ok.require_bind (fun hfail => .inr (fun hpre => ?_)) (fun hsched => ?_)
  · exact Bool.false_ne_true (hfail.symm.trans hpre)
  have he : e ∈ bins.flatten := (a.scheduled e).mpr hsched
  refine ((a.toKeeps.remove fuel he).mono (fun _ hq => hq) (fun f hf => .inl hf)).bind ?_
  rintro q' ⟨k, hsame, -⟩
  exact ⟨_, a.take he k hsame false⟩

theorem reschedule (a : Agrees q h bins) {always : Bool} :
    Ok (fun q' => ∃ bins', Agrees q' (h.after q (.reschedule e when always)) bins')
      (fun f => OutOfFuel fuel bins.flatten.length f
        ∨ ¬ (EventCall.reschedule e when always).Asserted q)
      (q.reschedule fuel e when always) := by
  rw [EventQueue.reschedule]
  refine Ok.require_bind (fun hfail => .inr (fun hpre => ?_)) (fun hwhen => ?_)
  · simp [hpre.1] at hfail
  refine Ok.require_bind (fun hfail => .inr (fun hpre => ?_)) (fun _ => ?_)
  · rw [Bool.or_eq_false_iff] at hfail
    have := hpre.2
    simp [hfail.1, hfail.2] at this
  have hwhen := of_decide_eq_true hwhen
  rw [removeIfScheduled, History.after]
  by_cases hsched : (q.events e).Scheduled = true
  · -- the event is taken out first, and goes in again as a new insertion
    rw [if_pos hsched, if_pos hsched]
    have he : e ∈ bins.flatten := (a.scheduled e).mpr hsched
    refine ((a.toKeeps.remove fuel he).mono (fun _ hq => hq) (fun f hf => .inl hf)).bind ?_
    rintro q' ⟨k, hsame, htick⟩
    obtain ⟨hout, hothers⟩ := a.others_of_take he (fun x _ => hsame.scheduled x)
    refine (insert fuel k hout hothers (by rw [htick]; exact hwhen) (fun _ => false)).mono
      (fun _ hq => hq) (fun f hf => .inl (hf.mono (fun hle => hle.trans ?_)))
    rw [(takeBin_perm he).length_eq, length_cons]
    exact Nat.le_succ _
  · rw [if_neg hsched, if_neg hsched]
    have he : e ∉ bins.flatten := fun hmem => hsched ((a.scheduled e).mp hmem)
    exact (insert fuel a.toKeeps he (fun x _ => a.scheduled x) hwhen (fun _ => false)).mono
      (fun _ hq => hq) (fun f hf => .inl hf)

/-- `serviceOne` takes the head off. Time does not pass the events that stay. -/
theorem serviceOne (a : Agrees q h bins) {t : ℕ} (hhead : q.head = some t) :
    ∃ processed q', q.serviceOne = .ok (t, processed, q') ∧ Agrees q' (h.serve t) (takeBin t bins)
      ∧ ∀ x, (q'.events x).Scheduled = if x = t then false else (q.events x).Scheduled := by
  obtain ⟨ht, hfirst⟩ := a.toKeeps.head_first hhead
  -- the queue after the flag is cleared and the head is taken off
  have k0 := a.toKeeps.setEvent_flags t false (q.events t).Squashed
  obtain ⟨hholds, hsame⟩ := popHead_spec k0.holds hhead
  generalize hq1 : (q.setEvent t { q.events t with Scheduled := false }).popHead t = q1
    at hholds hsame
  have hout : q.serviceOne = if (q1.events t).Squashed then
      pure (t, false, q1.setEvent t { q1.events t with Squashed := false })
      else pure (t, true, { q1 with _curTick := (q1.events t)._when }) := by
    rw [EventQueue.serviceOne, hhead, ← hq1]
  have hwhen : ∀ x, (q1.events x)._when = (q.events x)._when := by
    intro x
    rw [hsame.when]
    by_cases hx : x = t <;> simp [setEvent, hx]
  have hflag : ∀ x, (q1.events x).Scheduled = if x = t then false else (q.events x).Scheduled := by
    intro x
    rw [hsame.scheduled]
    by_cases hx : x = t <;> simp [setEvent, hx]
  have htick : q1._curTick = q._curTick := by
    rw [← hq1, popHead]
    split <;> rfl
  obtain ⟨hnot, hothers⟩ := a.others_of_take ht (fun x hx => (hflag x).trans (if_neg hx))
  have hagree : ∀ x, x ∈ (takeBin t bins).flatten ↔ (q1.events x).Scheduled = true := by
    intro x
    by_cases hx : x = t
    · subst hx
      simp [hflag, hnot]
    · exact hothers x hx
  have hserve : ∀ tick, (∀ x ∈ (takeBin t bins).flatten, tick ≤ (q1.events x)._when) →
      Keeps { q1 with _curTick := tick } (h.serve t) (takeBin t bins) := by
    intro tick hle
    have hholds' : Holds { q1 with _curTick := tick } (takeBin t bins) :=
      hholds.of_flags rfl (fun _ _ => rfl) (fun _ _ => rfl) (fun _ _ => rfl)
    have hlists : ((h.serve t).served ++ (h.serve t).removed).Perm
      (h.stamp t :: (h.served ++ h.removed)) := Perm.refl _
    exact k0.take ht hholds' hle rfl rfl hlists
  by_cases hsquashed : (q1.events t).Squashed = true
  · have k1 := hserve q1._curTick (fun x hx => by
      rw [htick, hwhen]
      exact a.timely x (mem_of_mem_takeBin hx))
    have hkeep : ∀ x, ((q1.setEvent t { q1.events t with Squashed := false }).events x).Scheduled
        = (q1.events x).Scheduled := by
      intro x
      by_cases hx : x = t <;> simp [setEvent, hx]
    refine ⟨false, _, hout.trans (if_pos hsquashed),
      ⟨k1.setEvent_flags t (q1.events t).Scheduled false, ?_⟩, ?_⟩
    · intro x
      rw [hagree, ← hkeep]
    · intro x
      rw [hkeep, hflag]
  · refine ⟨true, _, hout.trans (if_neg hsquashed),
      ⟨hserve (q1.events t)._when (fun x hx => ?_), hagree⟩, hflag⟩
    -- the time of the head is the least
    rw [hwhen, hwhen]
    exact Prod.Lex.monotone_fst _ _ (hfirst x (mem_of_mem_takeBin hx)).1

/-- Every call keeps the queue in order. With enough fuel it returns, if what the code asserts is
true. -/
theorem call (fuel : ℕ) (a : Agrees q h bins) (c : EventCall) :
    Ok (fun q' => ∃ bins', Agrees q' (h.after q c) bins')
      (fun f => OutOfFuel fuel bins.flatten.length f ∨ ¬ c.Asserted q) (c.apply fuel q) := by
  cases c with
  | schedule event when => exact a.schedule
  | deschedule event => exact a.deschedule
  | reschedule event when always => exact a.reschedule
  | squash event =>
    refine ⟨bins, a.toKeeps.setEvent_flags event (q.events event).Scheduled true, fun x => ?_⟩
    rw [a.scheduled]
    by_cases hx : x = event <;> simp [setEvent, hx]
  | serviceOne =>
    rw [EventCall.apply, History.after]
    cases hhead : q.head with
    | none =>
      rw [EventQueue.serviceOne, hhead]
      exact .inr (fun hpre => hpre hhead)
    | some t =>
      obtain ⟨processed, q', hserve, a', -⟩ := a.serviceOne hhead
      rw [hserve]
      exact ⟨_, a'⟩

end Agrees

theorem EventRun.agrees {q : EventQueue} {h : History} (run : EventRun q h) :
    ∃ bins, Agrees q h bins := by
  induction run with
  | start events hfree =>
    refine ⟨[], ⟨⟨rfl, OrderedBins.nil _⟩, ?_, ?_, Perm.refl _⟩, ?_⟩
    · exact fun b hb => absurd hb not_mem_nil
    · exact fun e he => absurd he not_mem_nil
    · intro e
      simp [hfree e]
  | call c _ hcall ih =>
    obtain ⟨bins, a⟩ := ih
    exact (a.call _ c).elim hcall

/-- **The event queue.** In every run, the two-level list that starts at `head` holds exactly the
scheduled events, each once, in bins that increase strictly by time and priority. `serviceOne`
takes an event that is least among the scheduled ones and, among equals, was inserted last. Every
insertion is in exactly one of three places: served, taken back by `deschedule` or `reschedule`, or
still in the queue. `remove` finds every scheduled event, and all calls whose assertions hold
return. -/
theorem event_queue_in_order {q : EventQueue} {h : History} (run : EventRun q h) :
    ∃ bins : List (List ℕ), Represents q.events q.head bins
      ∧ OrderedBins (fun e => (q.events e).key) bins
      ∧ (∀ e, e ∈ bins.flatten ↔ (q.events e).Scheduled = true)
      ∧ (∀ e, (q.events e).Scheduled = true → ∃ t processed q',
          q.serviceOne = .ok (t, processed, q') ∧ (q.events t).Scheduled = true
          ∧ (∀ y, (q.events y).Scheduled = true → (q.events t).key ≤ (q.events y).key
            ∧ ((q.events y).key = (q.events t).key → y ≠ t → h.stamp y < h.stamp t))
          ∧ (∀ x, (q'.events x).Scheduled = if x = t then false else (q.events x).Scheduled))
      ∧ (h.served ++ h.removed ++ bins.flatten.map h.stamp).Perm (range h.count)
      ∧ (∀ fuel, bins.flatten.length < fuel →
          (∀ e, (q.events e).Scheduled = true → ∃ q', q.remove fuel e = .ok q')
          ∧ (∀ c : EventCall, c.Asserted q → ∃ q', c.apply fuel q = .ok q')) := by
  obtain ⟨bins, a⟩ := run.agrees
  have hfuel : ∀ {fuel : ℕ} {f : Fault}, bins.flatten.length < fuel →
      ¬ OutOfFuel fuel bins.flatten.length f :=
    fun hlt hf => absurd hf.2 (not_le.mpr hlt)
  refine ⟨bins, a.holds.represents, a.holds.ordered, a.scheduled, ?_, a.once, ?_⟩
  · intro e he
    obtain ⟨t, hhead⟩ := a.holds.head_of_mem ((a.scheduled e).mpr he)
    obtain ⟨processed, q', hserve, -, hflag⟩ := a.serviceOne hhead
    obtain ⟨ht, hfirst⟩ := a.toKeeps.head_first hhead
    refine ⟨t, processed, q', hserve, (a.scheduled t).mp ht, ?_, hflag⟩
    intro y hy
    exact hfirst y ((a.scheduled y).mpr hy)
  · intro fuel hlt
    constructor
    · intro e he
      have hremove := a.toKeeps.remove fuel ((a.scheduled e).mpr he)
      cases hq : q.remove fuel e with
      | ok q' => exact ⟨q', rfl⟩
      | error f => exact absurd (hremove.elim_error hq) (hfuel hlt)
    · intro c hc
      have hcall := a.call fuel c
      cases hq : c.apply fuel q with
      | ok q' => exact ⟨q', rfl⟩
      | error f =>
        rcases hcall.elim_error hq with hf | hf
        · exact absurd hf (hfuel hlt)
        · exact absurd hc hf

/-- Two events at tick 10, one at tick 5: after one service the second of the two is next. -/
theorem event_queue_in_order_lastFirst :
    ∃ out, runEvents 4 { events := fun _ => {} } {}
        [.schedule 0 10, .schedule 1 10, .schedule 2 5, .serviceOne] = .ok out
      ∧ out.1.head = some 1 ∧ out.2.served = [2]
      ∧ ∃ bins : List (List ℕ), Represents out.1.events out.1.head bins
        ∧ OrderedBins (fun e => (out.1.events e).key) bins
        ∧ (∀ e, e ∈ bins.flatten ↔ (out.1.events e).Scheduled = true) := by
  refine ⟨_, rfl, rfl, rfl, ?_⟩
  have start : EventRun { events := fun _ => {} } {} := .start _ (fun _ => rfl)
  have run := start.of_calls 4 [.schedule 0 10, .schedule 1 10, .schedule 2 5, .serviceOne] rfl
  obtain ⟨bins, hrep, hord, hsched, -⟩ := event_queue_in_order run
  exact ⟨bins, hrep, hord, hsched⟩

end Bindu.Sim
