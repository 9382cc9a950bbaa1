/-
The queue of miss status registers of a cache (`mem/cache/mshr_queue.cc` over
`mem/cache/queue.hh`): which register is worked on next.

The registers that wait to be sent are in `readyList`. The cache asks the queue for the time at
which the first of them is ready (`nextReadyTime`) and for that register once the time has come
(`getNext`); both look at the front of the list and rely on its being sorted by `readyTime`.

`addToReadyList` inserts in order. `delay` is the other function that has to keep the order: it
makes a register ready at a later time and means to move it behind the registers that are now
earlier. Its search starts at the register itself and stops at the first one that is not later
than the delayed one, which is the register itself, so nothing is moved
(`delay_readyList`). The list stays sorted as long as no delay reaches past the next register;
`delayed_past_next` is a run in which one does.
-/
import Bindu.Lib.SortedBy
import Bindu.Mem.Mshr

namespace Bindu.Mem

open MSHR

open Bindu.Lib List Ok

/-- A `Queue<MSHR>`. The lists hold the positions of the registers in `entries`; an iterator
into a list is the position it stands at. -/
structure MSHRQueue where
  numEntries : ℕ
  numReserve : ℕ
  entries : ℕ → MSHR
  allocatedList : List ℕ
  readyList : List ℕ
  freeList : List ℕ
  _numInService : ℤ
  allocated : ℤ

namespace MSHRQueue

/-- The constructor. -/
def new (num_entries reserve : ℕ) : MSHRQueue where
  numEntries := num_entries + reserve
  numReserve := reserve
  entries := fun _ => {}
  allocatedList := []
  readyList := []
  freeList := range (num_entries + reserve)
  _numInService := 0
  allocated := 0

/-- When a register is ready. -/
def readyTime (q : MSHRQueue) (i : ℕ) : Tick := (q.entries i).readyTime

/-- The queue with register `i` changed to `m`. -/
def setEntry (q : MSHRQueue) (i : ℕ) (m : MSHR) : MSHRQueue :=
  { q with entries := Function.update q.entries i m }

/-- The loop of `addToReadyList`. -/
def insertReady (time : ℕ → Tick) (entry : ℕ) : List ℕ → Except Fault (List ℕ)
  | [] => throw .ready_list
  | i :: rest =>
    if time i > time entry then
      pure (entry :: i :: rest)
    else do
      let rest ← insertReady time entry rest
      pure (i :: rest)

def addToReadyList (q : MSHRQueue) (entry : ℕ) : Except Fault MSHRQueue :=
  match q.readyList.getLast? with
  | none => pure { q with readyList := q.readyList ++ [entry] }
  | some back =>
    if q.readyTime back ≤ q.readyTime entry then
      pure { q with readyList := q.readyList ++ [entry] }
    else do
      let readyList ← insertReady q.readyTime entry q.readyList
      pure { q with readyList := readyList }

def isFull (q : MSHRQueue) : Bool := decide (q.allocated ≥ (q.numEntries : ℤ) - q.numReserve)

def getNext (q : MSHRQueue) (now : Tick) : Option ℕ :=
  match q.readyList with
  | [] => none
  | i :: _ => if q.readyTime i > now then none else some i

def nextReadyTime (q : MSHRQueue) : Tick :=
  match q.readyList with
  | [] => MaxTick
  | i :: _ => q.readyTime i

/-- `Queue::deallocate`. -/
def deallocate (q : MSHRQueue) (i : ℕ) : Except Fault MSHRQueue := do
  let inService := (q.entries i).inService
  let m ← (q.entries i).deallocate
  pure
    { q.setEntry i m with
      allocatedList := q.allocatedList.erase i
      freeList := i :: q.freeList
      allocated := q.allocated - 1
      _numInService := if inService then q._numInService - 1 else q._numInService
      readyList := if inService then q.readyList else q.readyList.erase i }

def allocate (up : Upstream) (q : MSHRQueue) (now : Tick) (blk_addr blk_size : ℕ) (pkt : Packet)
    (when_ready : Tick) (order : ℕ) (alloc_on_fill : Bool) :
    Except Fault (Upstream × MSHRQueue) :=
  match q.freeList with
  | [] => throw .free_list_empty
  | i :: free => do
      require ((q.entries i).getNumTargets == 0) .targets_left
      let r ← (q.entries i).allocate up now blk_addr blk_size pkt when_ready order alloc_on_fill
      let q ← { q.setEntry i r.2 with
        freeList := free
        allocatedList := q.allocatedList ++ [i] }.addToReadyList i
      pure (r.1, { q with allocated := q.allocated + 1 })

/-- The search of `delay`: from the register on, the first one that is not later. -/
def delayPosition (q : MSHRQueue) (i : ℕ) : Option ℕ :=
  (q.readyList.dropWhile (fun j => j != i)).find? (fun j => decide (q.readyTime i ≥ q.readyTime j))

/-- `std::list::splice` of one element: `i` goes in front of `it`, or to the end if there is no
such element. -/
def splice (l : List ℕ) (it : Option ℕ) (i : ℕ) : List ℕ :=
  match it with
  | none => l.erase i ++ [i]
  | some j =>
    if j = i then
      l
    else
      (l.erase i).takeWhile (fun k => k != j) ++ i :: (l.erase i).dropWhile (fun k => k != j)

def delay (q : MSHRQueue) (now : Tick) (i : ℕ) (delay_ticks : ℕ) : Except Fault MSHRQueue := do
  let m ← (q.entries i).delay now delay_ticks
  let q := q.setEntry i m
  pure { q with readyList := splice q.readyList (q.delayPosition i) i }

def markInService (up : Upstream) (q : MSHRQueue) (i : ℕ) (pending_modified_resp : Bool) :
    Except Fault (Upstream × MSHRQueue) := do
  let r ← (q.entries i).markInService up pending_modified_resp
  pure (r.1,
    { q.setEntry i r.2 with
      readyList := q.readyList.erase i
      _numInService := q._numInService + 1 })

def markPending (q : MSHRQueue) (i : ℕ) : Except Fault MSHRQueue := do
  require (q.entries i).inService .not_in_service
  { q.setEntry i { q.entries i with inService := false } with
    _numInService := q._numInService - 1 }.addToReadyList i

/-- `forceDeallocateTarget`: a squashed prefetch leaves its register. -/
def forceDeallocateTarget (q : MSHRQueue) (now : Tick) (i : ℕ) : Except Fault MSHRQueue := do
  require (q.entries i).hasTargets .empty_targets
  let m := (q.entries i).popTarget
  if m.hasTargets then
    pure (q.setEntry i m)
  else
    let r ← m.promoteDeferredTargets now
    if r.1 then pure (q.setEntry i r.2) else (q.setEntry i r.2).deallocate i

end MSHRQueue

/-! ## The calls of the cache -/

/-- What a cache does with its queue of registers. -/
inductive QueueCall where
  | allocate (blk_addr blk_size : ℕ) (pkt : Packet) (when_ready : Tick) (order : ℕ)
      (alloc_on_fill : Bool)
  | markInService (i : ℕ) (pending_modified_resp : Bool)
  | markPending (i : ℕ)
  | delay (i : ℕ) (delay_ticks : ℕ)
  | deallocate (i : ℕ)
  | forceDeallocateTarget (i : ℕ)
  /-- A call on one of the registers. -/
  | mshr (i : ℕ) (c : MshrCall)

/-- The calls on a register that are not made through the queue. They leave its ready time
alone, all but `promoteDeferredTargets`. -/
def MshrCall.onRegister : MshrCall → Bool
  | .allocate .. | .markInService .. | .markPending | .deallocate => false
  | _ => true

def MshrCall.isPromoteDeferred : MshrCall → Bool
  | .promoteDeferredTargets => true
  | _ => false

namespace QueueCall

/-- The call at tick `now`. -/
def apply (up : Upstream) (now : Tick) (q : MSHRQueue) :
    QueueCall → Except Fault (Upstream × MSHRQueue)
  | allocate blk_addr blk_size pkt when_ready order alloc_on_fill =>
    q.allocate up now blk_addr blk_size pkt when_ready order alloc_on_fill
  | markInService i resp => q.markInService up i resp
  | markPending i => do
      let q ← q.markPending i
      pure (up, q)
  | delay i delay_ticks => do
      let q ← q.delay now i delay_ticks
      pure (up, q)
  | deallocate i => do
      let q ← q.deallocate i
      pure (up, q)
  | forceDeallocateTarget i => do
      let q ← q.forceDeallocateTarget now i
      pure (up, q)
  | mshr i c => do
      let out ← c.apply up now (q.entries i)
      pure (out.up, q.setEntry i out.mshr)

/-- The calls as the cache makes them: on registers that are allocated. A register is delayed
or squashed when it was picked to be sent, so it is in the ready list; `recvTimingResp` promotes
the deferred targets of a register that is in service. -/
def Made (q : MSHRQueue) : QueueCall → Prop
  | allocate .. => True
  | markInService i _ => i ∈ q.allocatedList
  | markPending i => i ∈ q.allocatedList
  | delay i _ => i ∈ q.readyList
  | deallocate i => i ∈ q.allocatedList
  | forceDeallocateTarget i => i ∈ q.readyList
  | mshr i c =>
    i ∈ q.allocatedList ∧ c.onRegister = true
      ∧ (c.isPromoteDeferred = true → (q.entries i).inService = true)

instance (q : MSHRQueue) (c : QueueCall) : Decidable (c.Made q) := by
  cases c <;> unfold Made <;> infer_instance

/-- The register that comes after `i` in the ready list. -/
def nextReady (q : MSHRQueue) (i : ℕ) : Option ℕ :=
  (q.readyList.dropWhile (fun j => j != i)).tail.head?

/-- A call that does not have to move a register within the ready list: a delay ends before the
next register is ready, and a squashed prefetch has no deferred targets behind it that would
take its place. -/
def InPlace (now : Tick) (q : MSHRQueue) : QueueCall → Prop
  | delay i delay_ticks => ∀ j, nextReady q i = some j → now + delay_ticks ≤ q.readyTime j
  | forceDeallocateTarget i =>
    (q.entries i).targets.list.length = 1 → (q.entries i).deferredTargets.list = []
  | _ => True

end QueueCall

/-- A run of the queue of a cache: calls that return, at times that do not decrease, each of
which meets `C`. -/
inductive QueueRun (C : Tick → MSHRQueue → QueueCall → Prop) (num_entries reserve : ℕ) :
    MSHRQueue → Tick → Prop
  | start : QueueRun C num_entries reserve (MSHRQueue.new num_entries reserve) 0
  | call {q q' : MSHRQueue} {t t' : Tick} (up up' : Upstream) (c : QueueCall)
      (run : QueueRun C num_entries reserve q t) (time : t ≤ t') (made : c.Made q)
      (cond : C t' q c) (returns : c.apply up t' q = .ok (up', q')) :
      QueueRun C num_entries reserve q' t'

theorem MSHRQueue.setEntry_entries_self (q : MSHRQueue) (i : ℕ) (m : MSHR) :
    (q.setEntry i m).entries i = m := by
  simp only [setEntry, Function.update_self]

theorem MSHRQueue.setEntry_entries_of_ne (q : MSHRQueue) (m : MSHR) {i j : ℕ} (hj : j ≠ i) :
    (q.setEntry i m).entries j = q.entries j := by
  simp only [setEntry, Function.update_of_ne hj]

/-! ## The order of the ready list -/

/-- The ready list has the allocated registers that are not in service, in the order of their
ready times. -/
structure Ordered (q : MSHRQueue) : Prop where
  nodup : (q.allocatedList ++ q.freeList).Nodup
  ready_nodup : q.readyList.Nodup
  mem_ready : ∀ i, i ∈ q.readyList ↔ i ∈ q.allocatedList ∧ (q.entries i).inService = false
  sorted : SortedBy q.readyTime q.readyList

namespace MSHRQueue

/-- `insertReady` finds a place if the last register is later. -/
theorem insertReady_eq {time : ℕ → Tick} {entry : ℕ} {l : List ℕ}
    (h : ∃ i ∈ l, time entry < time i) :
    insertReady time entry l = .ok (insertByKey time entry l) := by
  induction l with
  | nil =>
    obtain ⟨i, hi, _⟩ := h
    cases hi
  | cons i rest ih =>
    rw [insertReady, insertByKey, orderedInsert_cons]
    by_cases hlt : time entry < time i
    · rw [if_pos hlt, if_pos hlt]
      rfl
    · rw [if_neg hlt, if_neg hlt, ih]
      · rfl
      · obtain ⟨j, hj, hlt'⟩ := h
        rcases mem_cons.mp hj with rfl | hj
        · exact absurd hlt' hlt
        · exact ⟨j, hj, hlt'⟩

theorem addToReadyList_ok {q : MSHRQueue} {entry : ℕ} (hsorted : SortedBy q.readyTime q.readyList) :
    Ok (fun q' => q' = { q with readyList := insertByKey q.readyTime entry q.readyList })
      ⊥ (q.addToReadyList entry) := by
  unfold addToReadyList
  cases hlast : q.readyList.getLast? with
  | none =>
    rw [getLast?_eq_none_iff.mp hlast]
    exact rfl
  | some back =>
    by_cases hle : q.readyTime back ≤ q.readyTime entry
    · -- not earlier than the last register: the end of the list is the place
      rw [insertByKey_eq_concat (fun i hi => le_trans (hsorted.le_getLast hlast hi) hle)]
      simp only [if_pos hle]
      exact rfl
    · have hback : back ∈ q.readyList := mem_of_getLast? hlast
      simp only [if_neg hle]
      rw [insertReady_eq ⟨back, hback, not_le.mp hle⟩]
      exact rfl

theorem list_cut {l : List ℕ} {i : ℕ} (hi : i ∈ l) :
    ∃ front back, l = front ++ i :: back ∧ l.dropWhile (fun j => j != i) = i :: back := by
  obtain ⟨front, back, hlist, hfront⟩ := eq_append_cons_of_mem hi
  refine ⟨front, back, hlist, ?_⟩
  rw [hlist, dropWhile_append_of_pos]
  · simp
  · intro j hj
    rw [bne_iff_ne]
    rintro rfl
    exact hfront hj

/-- A search that starts at the element to be moved and stops there: the splice leaves the list
as it is. -/
theorem splice_find {l : List ℕ} {i : ℕ} (hi : i ∈ l) {p : ℕ → Bool} (hp : p i = true) :
    splice l ((l.dropWhile (fun j => j != i)).find? p) i = l := by
  obtain ⟨front, back, -, hdrop⟩ := list_cut hi
  rw [hdrop, find?_cons_of_pos hp, splice, if_pos rfl]

/-- **The search of `delay` stops where it starts**, whatever the ready times are. -/
theorem delay_readyList (q : MSHRQueue) {i : ℕ} (hi : i ∈ q.readyList) :
    splice q.readyList (q.delayPosition i) i = q.readyList :=
  splice_find hi (decide_eq_true le_rfl)

end MSHRQueue

/-- A call on a register itself keeps it in service or out of it, and only the promotion of
deferred targets changes its ready time. -/
theorem MshrCall.sameEntry (up : Upstream) (now : Tick) (m : MSHR) {c : MshrCall}
    (hc : c.onRegister = true) :
    Ok (fun out => out.mshr.inService = m.inService
        ∧ (c.isPromoteDeferred = false → out.mshr.readyTime = m.readyTime)) TargetList.Any
      (c.apply up now m) := by
  cases c with
  | allocate | markInService | markPending | deallocate => exact absurd hc (by simp [onRegister])
  | allocateTarget pkt whenReady order alloc =>
    refine bind (allocateTarget_conserves up m now pkt whenReady order alloc) (fun r hr => ?_)
    exact ⟨hr.2.inService, fun _ => hr.2.readyTime⟩
  | handleSnoop pkt order cp_pkt =>
    refine bind (handleSnoop_ok up m now pkt order cp_pkt) (fun r hr => ?_)
    exact ⟨hr.entry.inService, fun _ => hr.entry.readyTime⟩
  | promoteReadable =>
    refine bind (promoteReadable_held up m) (fun r hr => ?_)
    exact ⟨hr.2.inService, fun _ => hr.2.readyTime⟩
  | promoteWritable =>
    refine bind (promoteWritable_held up m) (fun r hr => ?_)
    exact ⟨hr.2.inService, fun _ => hr.2.readyTime⟩
  | extractServiceableTargets cmd =>
    refine bind (extractServiceableTargets_conserves m cmd) (fun r hr => ?_)
    exact ⟨hr.2.2.inService, fun _ => hr.2.2.readyTime⟩
  | promoteDeferredTargets =>
    refine bind (promoteDeferredTargets_held m now) (fun r hr => ?_)
    exact ⟨hr.2.1, fun h => absurd h (by simp [isPromoteDeferred])⟩
  | setDownstreamPending =>
    exact assert (fun _ => ⟨rfl, fun _ => rfl⟩)
  | clearDownstreamPending =>
    refine bind (clearDownstreamPending_held up m) (fun r hr => ?_)
    exact ⟨hr.2.inService, fun _ => hr.2.readyTime⟩
  | setForward isForward => exact ⟨rfl, fun _ => rfl⟩

namespace Ordered

variable {q q' : MSHRQueue} {i : ℕ} {m : MSHR}

/-- A register changes and is neither taken into service nor released by that. It may become
ready at another time only if it is not in the ready list. -/
theorem setEntry (h : Ordered q) (hservice : m.inService = (q.entries i).inService)
    (htime : i ∈ q.readyList → m.readyTime = q.readyTime i) : Ordered (q.setEntry i m) where
  nodup := h.nodup
  ready_nodup := h.ready_nodup
  mem_ready := by
    intro j
    refine (h.mem_ready j).trans (and_congr_right (fun _ => ?_))
    by_cases hj : j = i
    · rw [hj, MSHRQueue.setEntry_entries_self, hservice]
    · rw [MSHRQueue.setEntry_entries_of_ne q m hj]
  sorted := by
    refine h.sorted.congr (fun j hj => ?_)
    by_cases hji : j = i
    · rw [MSHRQueue.readyTime, hji, MSHRQueue.setEntry_entries_self]
      exact htime (hji ▸ hj)
    · rw [MSHRQueue.readyTime, MSHRQueue.setEntry_entries_of_ne q m hji]
      rfl

/-- A register leaves the ready list and is in service, or not allocated, from then on. -/
theorem leave (h : Ordered q)
    (halloc : (q'.allocatedList ++ q'.freeList).Perm (q.allocatedList ++ q.freeList))
    (hready : q'.readyList = q.readyList.erase i)
    (hother : ∀ j ≠ i, q'.entries j = q.entries j)
    (hmem : ∀ j ≠ i, (j ∈ q'.allocatedList ↔ j ∈ q.allocatedList))
    (hi : ¬(i ∈ q'.allocatedList ∧ (q'.entries i).inService = false)) : Ordered q' where
  nodup := halloc.nodup_iff.mpr h.nodup
  ready_nodup := by
    rw [hready]
    exact h.ready_nodup.erase i
  mem_ready := by
    intro j
    rw [hready, h.ready_nodup.mem_erase_iff]
    by_cases hj : j = i
    · subst hj
      exact iff_of_false (fun hmem => hmem.1 rfl) hi
    · rw [h.mem_ready, hmem j hj, hother j hj]
      exact and_iff_right hj
  sorted := by
    rw [hready]
    refine (h.sorted.sublist erase_sublist).congr (fun j hj => ?_)
    rw [MSHRQueue.readyTime, MSHRQueue.readyTime, hother j]
    rintro rfl
    exact h.ready_nodup.not_mem_erase hj

/-- A register comes to the ready list, at the place that its ready time gives it. -/
theorem enter (h : Ordered q) (halloc : (q'.allocatedList ++ q'.freeList).Nodup)
    (hready : q'.readyList = insertByKey q'.readyTime i q.readyList)
    (hother : ∀ j ≠ i, q'.entries j = q.entries j)
    (hmem : ∀ j ≠ i, (j ∈ q'.allocatedList ↔ j ∈ q.allocatedList))
    (hnew : i ∉ q.readyList)
    (hi : i ∈ q'.allocatedList ∧ (q'.entries i).inService = false) : Ordered q' where
  nodup := halloc
  ready_nodup := by
    rw [hready, (insertByKey_perm _ _ _).nodup_iff, nodup_cons]
    exact ⟨hnew, h.ready_nodup⟩
  mem_ready := by
    intro j
    rw [hready, mem_insertByKey]
    by_cases hj : j = i
    · subst hj
      exact iff_of_true (.inl rfl) hi
    · rw [h.mem_ready, hmem j hj, hother j hj]
      exact or_iff_right hj
  sorted := by
    rw [hready]
    refine SortedBy.insert (h.sorted.congr (fun j hj => ?_))
    rw [MSHRQueue.readyTime, MSHRQueue.readyTime, hother j]
    rintro rfl
    exact hnew hj

theorem new (num_entries reserve : ℕ) : Ordered (MSHRQueue.new num_entries reserve) where
  nodup := nodup_range
  ready_nodup := nodup_nil
  mem_ready i := by
    refine iff_of_false not_mem_nil (fun h => ?_)
    exact absurd h.1 not_mem_nil
  sorted := SortedBy.nil _

/-- The ready times that matter do not change with a register that is not in the list. -/
theorem sorted_setEntry (h : Ordered q) (hnew : i ∉ q.readyList) :
    SortedBy (q.setEntry i m).readyTime q.readyList := by
  refine h.sorted.congr (fun j hj => ?_)
  rw [MSHRQueue.readyTime, MSHRQueue.setEntry_entries_of_ne]
  · rfl
  · rintro rfl
    exact hnew hj

/-! ### One call -/

theorem deallocate (h : Ordered q) (hi : i ∈ q.allocatedList) :
    Ok Ordered TargetList.Any (q.deallocate i) := by
  unfold MSHRQueue.deallocate
  refine skip (fun m => ?_)
  have hnodup : q.allocatedList.Nodup := (nodup_append.mp h.nodup).1
  refine h.leave ?_ ?_ (fun j hj => q.setEntry_entries_of_ne m hj) ?_ ?_
  · -- the register moves from one list to the other
    exact perm_middle.trans ((perm_cons_erase hi).symm.append_right q.freeList)
  · -- a register in service is not in the ready list anyway
    cases hservice : (q.entries i).inService with
    | false => rfl
    | true =>
      have hnew : i ∉ q.readyList := by
        rw [h.mem_ready, hservice]
        simp
      exact (erase_of_not_mem hnew).symm
  · intro j hj
    rw [hnodup.mem_erase_iff]
    exact and_iff_right hj
  · intro hmem
    exact hnodup.not_mem_erase hmem.1

theorem markInService (h : Ordered q) (up : Upstream) (resp : Bool) :
    Ok (fun r => Ordered r.2) TargetList.Any (q.markInService up i resp) := by
  unfold MSHRQueue.markInService
  refine bind (markInService_kept up (q.entries i) resp) (fun r hr => ?_)
  refine h.leave (Perm.refl _) rfl (fun j hj => q.setEntry_entries_of_ne r.2 hj)
    (fun j _ => Iff.rfl) ?_
  rintro ⟨-, hservice⟩
  have hin := hr.2.1
  rw [← q.setEntry_entries_self i r.2] at hin
  exact absurd (hin.symm.trans hservice) (by simp)

theorem markPending (h : Ordered q) (hi : i ∈ q.allocatedList) :
    Ok Ordered TargetList.Any (q.markPending i) := by
  unfold MSHRQueue.markPending
  refine assert (fun hservice => ?_)
  -- in service, so not in the ready list, and its ready time is free to be what it is
  have hnew : i ∉ q.readyList := by
    rw [h.mem_ready, hservice]
    simp
  refine (MSHRQueue.addToReadyList_ok ?_).mono (fun q' hq' => ?_) (fun _ _ => trivial)
  · exact h.sorted_setEntry hnew
  subst hq'
  refine h.enter h.nodup rfl (fun j hj => q.setEntry_entries_of_ne _ hj)
    (fun j _ => Iff.rfl) hnew ⟨hi, ?_⟩
  exact congrArg inService (q.setEntry_entries_self i _)

theorem allocate (h : Ordered q) (up : Upstream) (now : Tick) (blk_addr blk_size : ℕ)
    (pkt : Packet) (when_ready : Tick) (order : ℕ) (alloc : Bool) :
    Ok (fun r => Ordered r.2) TargetList.Any
      (q.allocate up now blk_addr blk_size pkt when_ready order alloc) := by
  unfold MSHRQueue.allocate
  cases hfree : q.freeList with
  | nil => exact trivial
  | cons i free =>
    refine assert (fun hempty => ?_)
    refine bind (allocate_conserves up (q.entries i) now blk_addr blk_size pkt when_ready
      order alloc (beq_iff_eq.mp hempty)) (fun r hr => ?_)
    have hnodup := h.nodup
    rw [hfree] at hnodup
    have hnew : i ∉ q.readyList := by
      rw [h.mem_ready]
      intro hmem
      exact (nodup_append.mp hnodup).2.2 i hmem.1 i mem_cons_self rfl
    refine bind ((MSHRQueue.addToReadyList_ok ?_).mono (fun q' hq' => hq')
      (fun _ _ => trivial)) (fun q' hq' => ?_)
    · exact h.sorted_setEntry hnew
    subst hq'
    refine h.enter ?_ rfl (fun j hj => q.setEntry_entries_of_ne _ hj) ?_ hnew ⟨?_, ?_⟩
    · rw [append_assoc]
      exact hnodup
    · intro j hj
      rw [mem_append, mem_singleton]
      exact or_iff_left hj
    · exact mem_append_right _ (mem_singleton_self i)
    · exact (congrArg inService (q.setEntry_entries_self i _)).trans hr.2.2

/-- A delay that ends before the next register is ready. -/
theorem delay (h : Ordered q) (now : Tick) (delay_ticks : ℕ) (hi : i ∈ q.readyList)
    (hnext : ∀ j, QueueCall.nextReady q i = some j → now + delay_ticks ≤ q.readyTime j) :
    Ok Ordered TargetList.Any (q.delay now i delay_ticks) := by
  unfold MSHRQueue.delay MSHR.delay
  rw [bind_assoc]
  refine assert (fun hready => ?_)
  rw [decide_eq_true_eq] at hready
  rw [pure_bind, pure_iff, MSHRQueue.delay_readyList (q.setEntry i _) hi]
  obtain ⟨front, back, hlist, hdrop⟩ := MSHRQueue.list_cut hi
  have hnodup := h.ready_nodup
  rw [hlist, nodup_middle, nodup_cons] at hnodup
  constructor
  · exact h.nodup
  · exact h.ready_nodup
  · intro j
    refine (h.mem_ready j).trans (and_congr_right (fun _ => ?_))
    by_cases hj : j = i
    · rw [hj, MSHRQueue.setEntry_entries_self]
    · rw [MSHRQueue.setEntry_entries_of_ne q _ hj]
  · have hsorted := h.sorted
    have htime : ∀ m : MSHR, (q.setEntry i m).readyTime i = m.readyTime := by
      intro m
      rw [MSHRQueue.readyTime, MSHRQueue.setEntry_entries_self]
    rw [hlist] at hsorted
    show SortedBy _ q.readyList
    rw [hlist]
    refine hsorted.raise (fun j hj => ?_) ?_ (fun j hj => ?_)
    · rw [MSHRQueue.readyTime, MSHRQueue.setEntry_entries_of_ne]
      · rfl
      · rintro rfl
        exact hnodup.1 hj
    · -- it was ready by now, and a delay does not go back
      rw [htime]
      exact le_trans hready (Nat.le_add_right now delay_ticks)
    · rw [htime]
      refine hnext j ?_
      rw [QueueCall.nextReady, hdrop]
      exact hj

theorem forceDeallocateTarget (h : Ordered q) (now : Tick) (hi : i ∈ q.readyList)
    (hlast : (q.entries i).targets.list.length = 1 → (q.entries i).deferredTargets.list = []) :
    Ok Ordered TargetList.Any (q.forceDeallocateTarget now i) := by
  unfold MSHRQueue.forceDeallocateTarget
  refine assert (fun htargets => ?_)
  by_cases hmore : (q.entries i).popTarget.hasTargets = true
  · rw [if_pos hmore, pure_iff]
    exact h.setEntry rfl (fun _ => rfl)
  · rw [if_neg hmore]
    -- the last target is gone and nothing is deferred, so nothing is promoted
    have hempty : (q.entries i).popTarget.targets.list = []
        ∧ (q.entries i).popTarget.deferredTargets.list = [] := by
      have htail : (q.entries i).targets.list.tail = [] := by
        rw [hasTargets, Bool.not_eq_true, Bool.not_eq_false', List.isEmpty_iff] at hmore
        exact hmore
      refine ⟨htail, hlast ?_⟩
      have hlength := congrArg List.length htail
      rw [length_tail, length_nil] at hlength
      have hpos : (q.entries i).targets.list.length ≠ 0 := by
        rw [hasTargets, Bool.not_eq_true', isEmpty_eq_false_iff] at htargets
        exact fun h0 => htargets (length_eq_zero_iff.mp h0)
      omega
    rw [promoteDeferredTargets, hempty.1, hempty.2]
    refine Ordered.deallocate ?_ ((h.mem_ready i).mp hi).1
    exact h.setEntry rfl (fun _ => rfl)

/-- **One call** that need not move a register within the list keeps the list sorted. -/
theorem apply (h : Ordered q) (up : Upstream) (now : Tick) {c : QueueCall} (hmade : c.Made q)
    (hplace : c.InPlace now q) :
    Ok (fun r => Ordered r.2) TargetList.Any (c.apply up now q) := by
  cases c with
  | allocate blk_addr blk_size pkt when_ready order alloc =>
    exact h.allocate up now blk_addr blk_size pkt when_ready order alloc
  | markInService i resp => exact h.markInService up resp
  | markPending i => exact bind (h.markPending hmade) (fun q' hq' => hq')
  | delay i delay_ticks =>
    exact bind (h.delay now delay_ticks hmade hplace) (fun q' hq' => hq')
  | deallocate i => exact bind (h.deallocate hmade) (fun q' hq' => hq')
  | forceDeallocateTarget i =>
    exact bind (h.forceDeallocateTarget now hmade hplace) (fun q' hq' => hq')
  | mshr i c =>
    obtain ⟨_, hreg, hpromote⟩ := hmade
    refine bind (MshrCall.sameEntry up now (q.entries i) hreg) (fun out hout => ?_)
    refine h.setEntry hout.1 (fun hmem => hout.2 ?_)
    -- a register whose deferred targets are promoted is in service
    by_contra hp
    rw [Bool.not_eq_false] at hp
    rw [h.mem_ready, hpromote hp] at hmem
    exact absurd hmem.2 (by simp)

end Ordered

/-- **The miss queue works on the earliest ready entry.** In every run of the cache in which no
call has to move a register within the ready list: the ready list is sorted by ready time;
`nextReadyTime` is the least ready time of the allocated registers that are not in service, or
`MaxTick` if there is none; and `getNext` returns such a register, with the least ready time,
whenever one of them is ready. -/
theorem ready_list_sorted {num_entries reserve : ℕ} {q : MSHRQueue} {t : Tick}
    (run : QueueRun QueueCall.InPlace num_entries reserve q t) :
    SortedBy q.readyTime q.readyList ∧ (∀ i ∈ q.allocatedList, (q.entries i).inService = false →
          q.nextReadyTime ≤ q.readyTime i)
      ∧ ((∃ i ∈ q.allocatedList, (q.entries i).inService = false ∧ q.nextReadyTime = q.readyTime i)
          ∨ (∀ i ∈ q.allocatedList, (q.entries i).inService = true) ∧ q.nextReadyTime = MaxTick)
      ∧ (∀ now, (∃ i ∈ q.allocatedList, (q.entries i).inService = false ∧ q.readyTime i ≤ now) →
          ∃ i ∈ q.allocatedList, q.getNext now = some i ∧ (q.entries i).inService = false
            ∧ q.readyTime i = q.nextReadyTime ∧ q.readyTime i ≤ now) := by
  have h : Ordered q := by
    induction run with
    | start => exact Ordered.new num_entries reserve
    | call up up' c run time made cond returns ih => exact (ih.apply up _ made cond).elim returns
  have hmin : ∀ i ∈ q.allocatedList, (q.entries i).inService = false →
      q.nextReadyTime ≤ q.readyTime i := by
    intro i hi hservice
    have hmem := (h.mem_ready i).mpr ⟨hi, hservice⟩
    have hsorted := h.sorted
    unfold MSHRQueue.nextReadyTime
    cases hlist : q.readyList with
    | nil => rw [hlist] at hmem; exact absurd hmem not_mem_nil
    | cons first rest =>
      rw [hlist] at hmem hsorted
      exact hsorted.head_le hmem
  refine ⟨h.sorted, hmin, ?_, ?_⟩
  · cases hlist : q.readyList with
    | nil =>
      refine .inr ⟨fun i hi => ?_, ?_⟩
      · by_contra hservice
        rw [Bool.not_eq_true] at hservice
        have hmem := (h.mem_ready i).mpr ⟨hi, hservice⟩
        rw [hlist] at hmem
        cases hmem
      · rw [MSHRQueue.nextReadyTime, hlist]
    | cons first rest =>
      have hfirst := (h.mem_ready first).mp (by rw [hlist]; exact mem_cons_self)
      refine .inl ⟨first, hfirst.1, hfirst.2, ?_⟩
      rw [MSHRQueue.nextReadyTime, hlist]
  · rintro now ⟨i, hi, hservice, hready⟩
    have hmem := (h.mem_ready i).mpr ⟨hi, hservice⟩
    have hle := hmin i hi hservice
    cases hlist : q.readyList with
    | nil => rw [hlist] at hmem; exact absurd hmem not_mem_nil
    | cons first rest =>
      have hfirst := (h.mem_ready first).mp (by rw [hlist]; exact mem_cons_self)
      have hnext : q.readyTime first = q.nextReadyTime := by
        rw [MSHRQueue.nextReadyTime, hlist]
      have hnow : q.readyTime first ≤ now := by
        rw [hnext]
        exact le_trans hle hready
      refine ⟨first, hfirst.1, ?_, hfirst.2, hnext, hnow⟩
      rw [MSHRQueue.getNext, hlist]
      simp only
      rw [if_neg (not_lt.mpr hnow)]

/-- The calls of a list, one after the other, as long as each of them is one the cache makes and
meets `C`. -/
def runQueueCalls (C : Tick → MSHRQueue → QueueCall → Prop) [∀ t q c, Decidable (C t q c)] :
    List (Tick × QueueCall) → MSHRQueue × Tick → Option (MSHRQueue × Tick)
  | [], st => some st
  | (t, c) :: rest, (q, now) =>
    if now ≤ t ∧ c.Made q ∧ C t q c then
      match c.apply (fun _ => false) t q with
      | .error _ => none
      | .ok out => runQueueCalls C rest (out.2, t)
    else
      none

theorem queueRun_of_runQueueCalls {C : Tick → MSHRQueue → QueueCall → Prop}
    [∀ t q c, Decidable (C t q c)] {num_entries reserve : ℕ} {calls : List (Tick × QueueCall)}
    {st st' : MSHRQueue × Tick} (run : QueueRun C num_entries reserve st.1 st.2)
    (h : runQueueCalls C calls st = some st') : QueueRun C num_entries reserve st'.1 st'.2 := by
  induction calls generalizing st with
  | nil =>
    rw [runQueueCalls, Option.some.injEq] at h
    rw [← h]
    exact run
  | cons call rest ih =>
    obtain ⟨t, c⟩ := call
    rw [runQueueCalls] at h
    by_cases hcond : st.2 ≤ t ∧ c.Made st.1 ∧ C t st.1 c
    · rw [if_pos hcond] at h
      cases hout : c.apply (fun _ => false) t st.1 with
      | error e => simp [hout] at h
      | ok out =>
        simp only [hout] at h
        have run' : QueueRun C num_entries reserve out.2 t :=
          QueueRun.call _ out.1 c run hcond.1 hcond.2.1 hcond.2.2 hout
        exact ih run' h
    · rw [if_neg hcond] at h
      simp at h

instance (now : Tick) (q : MSHRQueue) (c : QueueCall) : Decidable (c.InPlace now q) :=
  match c with
  | .delay i delay_ticks =>
    match h : QueueCall.nextReady q i with
    | none => isTrue (fun j hj => absurd (h.symm.trans hj) (by simp))
    | some j =>
      decidable_of_iff (now + delay_ticks ≤ q.readyTime j) (by
        refine ⟨fun hle k hk => ?_, fun hall => hall j h⟩
        rw [h, Option.some.injEq] at hk
        rw [← hk]
        exact hle)
  | .forceDeallocateTarget i =>
    inferInstanceAs (Decidable ((q.entries i).targets.list.length = 1 →
      (q.entries i).deferredTargets.list = []))
  | .allocate .. | .markInService .. | .markPending _ | .deallocate _ | .mshr .. => isTrue trivial

/-- A write of 8 bytes to block `blk`, as packet `id`. -/
def partialWrite (id blk : ℕ) : Packet := { id := id, cmd := .WriteReq, addr := blk, size := 8 }

/-- Two misses, ready at ticks 10 and 15. The first one is delayed, at tick 10, by `d` ticks. -/
def delayFirst (d : ℕ) : List (Tick × QueueCall) :=
  [(5, .allocate 0 64 (partialWrite 1 0) 10 0 true),
   (6, .allocate 64 64 (partialWrite 2 64) 15 1 true),
   (10, .delay 0 d)]

/-- **A delay past the next register.** The first of two misses is delayed from tick 10 to tick
30 while the second one is ready at tick 15. The list is then out of order: `nextReadyTime` is
30 instead of 15, and at tick 20 the queue has nothing to send although the second miss is
ready. -/
theorem delayed_past_next :
    ∃ q t, QueueRun (fun _ _ _ => True) 4 0 q t ∧ ¬ SortedBy q.readyTime q.readyList
      ∧ q.nextReadyTime = 30
      ∧ 1 ∈ q.allocatedList ∧ (q.entries 1).inService = false ∧ q.readyTime 1 = 15
      ∧ q.getNext 20 = none := by
  have h : ((runQueueCalls (fun _ _ _ => True) (delayFirst 20) (MSHRQueue.new 4 0, 0)).map
      (fun st => decide (¬ SortedBy st.1.readyTime st.1.readyList ∧ st.1.nextReadyTime = 30
        ∧ 1 ∈ st.1.allocatedList ∧ (st.1.entries 1).inService = false ∧ st.1.readyTime 1 = 15
        ∧ st.1.getNext 20 = none))) = some true := by
    decide +kernel
  obtain ⟨st, hst, heq⟩ := Option.map_eq_some_iff.mp h
  exact ⟨st.1, st.2, queueRun_of_runQueueCalls QueueRun.start hst, of_decide_eq_true heq⟩

/-- A delay of 3 ticks, which ends at tick 13, leaves the first miss in front. -/
theorem ready_list_sorted_delayFirst :
    ∃ q t, QueueRun QueueCall.InPlace 4 0 q t ∧ q.readyList = [0, 1] ∧ q.readyTime 0 = 13
      ∧ SortedBy q.readyTime q.readyList := by
  have h : ((runQueueCalls QueueCall.InPlace (delayFirst 3) (MSHRQueue.new 4 0, 0)).map
      (fun st => decide (st.1.readyList = [0, 1] ∧ st.1.readyTime 0 = 13))) = some true := by
    decide +kernel
  obtain ⟨st, hst, heq⟩ := Option.map_eq_some_iff.mp h
  have run := queueRun_of_runQueueCalls QueueRun.start hst
  have hst := of_decide_eq_true heq
  exact ⟨st.1, st.2, run, hst.1, hst.2, (ready_list_sorted run).1⟩

end Bindu.Mem
