/-
The memory checker raises no false alarm.

A history is what the checker is told: reads and writes of ranges of bytes that start, complete or
are aborted, at ticks that do not decrease. `History` keeps the operations that were not aborted;
the operations on one byte are those whose range has the byte. If for every byte these operations
are linearizable, then every call of `completeRead` returns true.

There is one exception. When nothing is known about the byte, `inExpectedData` asserts that the
first write cluster started before the read completes, and this assertion fails for a first write
in the very tick in which the read completes. The theorem is for histories in which that does not
happen, and `same_tick_assertion` is a history in which it does. Without linearizability reads may
be rejected, and still no assertion fails (`calls_return`).
-/
import Bindu.Mem.ByteTracker

namespace Bindu.Mem.MemChecker

open Bindu.Lib Function List

/-! ## Histories -/

/-- A read or write of the bytes `addr`, …, `addr + size - 1`. -/
structure MemOp where
  id : ℕ
  write : Bool
  addr : ℕ
  size : ℕ
  start : ℕ
  complete : Option ℕ
  data : List UInt8
  deriving DecidableEq, Repr

namespace MemOp

def covers (a : ℕ) (o : MemOp) : Bool := decide (o.addr ≤ a ∧ a < o.addr + o.size)

theorem covers_iff {a : ℕ} {o : MemOp} : o.covers a = true ↔ o.addr ≤ a ∧ a < o.addr + o.size :=
  decide_eq_true_iff

/-- The operation on one of its bytes. -/
def byte (a : ℕ) (o : MemOp) : Op :=
  ⟨o.id, o.write, o.start, o.complete, o.data.getD (a - o.addr) DATA_INITIAL⟩

def finish (serial tick : ℕ) (data : Option (List UInt8)) (o : MemOp) : MemOp :=
  if o.id = serial then { o with complete := some tick, data := data.getD o.data } else o

end MemOp

/-- The operations on a byte. -/
def byteOps (a : ℕ) (ops : List MemOp) : List Op :=
  (ops.filter (MemOp.covers a)).map (MemOp.byte a)

/-- The calls that tell the checker what happens. -/
inductive Call where
  | startRead (tick addr size : ℕ)
  | startWrite (tick addr : ℕ) (data : List UInt8)
  | completeRead (serial tick addr : ℕ) (data : List UInt8)
  | completeWrite (serial tick addr size : ℕ)
  | abortWrite (serial addr size : ℕ)
  deriving DecidableEq, Repr

/-- What has happened: the operations that were not aborted, the time of the last call, the first
write to each byte, and the number of operations. -/
structure History where
  ops : List MemOp := []
  now : ℕ := 0
  firstWrite : ℕ → Option ℕ := fun _ => none
  serials : ℕ := 0

namespace History

def after (h : History) : Call → History
  | .startRead tick addr size =>
    { h with
      ops := h.ops ++ [⟨h.serials, false, addr, size, tick, none, []⟩]
      now := tick
      serials := h.serials + 1 }
  | .startWrite tick addr data =>
    { ops := h.ops ++ [⟨h.serials, true, addr, data.length, tick, none, data⟩]
      now := tick
      firstWrite := fun a =>
        if addr ≤ a ∧ a < addr + data.length then (h.firstWrite a).or (some tick)
        else h.firstWrite a
      serials := h.serials + 1 }
  | .completeRead serial tick _ data =>
    { h with ops := h.ops.map (MemOp.finish serial tick (some data)), now := tick }
  | .completeWrite serial tick _ _ =>
    { h with ops := h.ops.map (MemOp.finish serial tick none), now := tick }
  | .abortWrite serial _ _ => { h with ops := h.ops.filter (fun o => o.id ≠ serial) }

/-- An operation of this kind and range is under way. -/
def UnderWay (h : History) (serial : ℕ) (write : Bool) (addr size : ℕ) : Prop :=
  ∃ o ∈ h.ops, o.id = serial ∧ o.write = write ∧ o.addr = addr ∧ o.size = size ∧ o.complete = none

end History

namespace Call

def apply (m : MemChecker) : Call → Except Fault (List Bool × MemChecker)
  | startRead tick addr size => do
      let r ← m.startRead tick addr size
      pure ([], r.2)
  | startWrite tick addr data => do
      let r ← m.startWrite tick addr data
      pure ([], r.2)
  | completeRead serial tick addr data => do
      let r ← m.completeRead tick serial tick addr data
      pure ([r.1], r.2)
  | completeWrite serial tick addr size => do
      let m ← m.completeWrite tick serial tick addr size
      pure ([], m)
  | abortWrite serial addr size => do
      let m ← m.abortWrite serial addr size
      pure ([], m)

/-- The call can come next: time does not go back, and what completes is under way. -/
def Valid (h : History) : Call → Prop
  | startRead tick _ _ => h.now ≤ tick
  | startWrite tick _ _ => h.now ≤ tick
  | completeRead serial tick addr data =>
    h.now ≤ tick ∧ h.UnderWay serial false addr data.length
  | completeWrite serial tick addr size => h.now ≤ tick ∧ h.UnderWay serial true addr size
  | abortWrite serial addr size => h.UnderWay serial true addr size

/-- No read completes in the tick in which the first write to one of its bytes started, and the
ticks are less than the largest tick, which stands for the future. -/
def Apart (h : History) : Call → Prop
  | startRead tick _ _ => tick < TICK_FUTURE
  | startWrite tick _ _ => tick < TICK_FUTURE
  | completeRead _ tick addr data => tick < TICK_FUTURE
      ∧ ∀ a, addr ≤ a → a < addr + data.length → ∀ t, h.firstWrite a = some t → t < tick
  | completeWrite _ tick _ _ => tick < TICK_FUTURE
  | abortWrite _ _ _ => True

end Call

/-- `P` holds for each call at the point where it is made. -/
def Along (P : History → Call → Prop) : History → List Call → Prop
  | _, [] => True
  | h, c :: calls => P h c ∧ Along P (h.after c) calls

/-- The history after a sequence of calls. -/
def History.run (h : History) (calls : List Call) : History := calls.foldl History.after h

/-- The results of `completeRead` in a sequence of calls. -/
def runCalls : MemChecker → List Call → Except Fault (List Bool × MemChecker)
  | m, [] => pure ([], m)
  | m, c :: calls => do
      let r ← c.apply m
      let r' ← runCalls r.2 calls
      pure (r.1 ++ r'.1, r'.2)

/-! ## Loops over bytes -/

/-- A loop that goes through the bytes from `addr` on and changes one tracker at each step. -/
theorem bytes_foldlM {S : Type} (trackers : S → ℕ → ByteTracker) (R : S → Prop)
    (Q : ℕ → ByteTracker → Prop) {g : S → ℕ → Except Fault S} {s : S} (hs : R s) (addr n : ℕ)
    (hg : ∀ i < n, ∀ s', R s' → trackers s' (addr + i) = trackers s (addr + i) →
      Ok (fun s'' => R s'' ∧ Q (addr + i) (trackers s'' (addr + i))
        ∧ ∀ a, a ≠ addr + i → trackers s'' a = trackers s' a) ⊥ (g s' i))
    (hout : ∀ a, ¬ (addr ≤ a ∧ a < addr + n) → Q a (trackers s a)) :
    Ok (fun s' => R s' ∧ ∀ a, Q a (trackers s' a)) ⊥ ((range n).foldlM g s) := by
  have hloop : ∀ k ≤ n, Ok (fun s' => R s' ∧ ∀ a, if addr ≤ a ∧ a < addr + k
      then Q a (trackers s' a) else trackers s' a = trackers s a) ⊥ ((range k).foldlM g s) := by
    intro k hk
    induction k with
    | zero => exact ⟨hs, fun a => by rw [if_neg (by omega)]⟩
    | succ k ih =>
      rw [range_succ, foldlM_append]
      refine (ih (by omega)).bind ?_
      rintro s' ⟨hs', hall⟩
      have hk' := hall (addr + k)
      rw [if_neg (by omega)] at hk'
      rw [foldlM_cons]
      refine (hg k hk s' hs' hk').bind ?_
      rintro s'' ⟨hs'', hq, hsame⟩
      refine ⟨hs'', fun a => ?_⟩
      by_cases hak : a = addr + k
      · rw [hak, if_pos (by omega)]
        exact hq
      · rw [hsame a hak]
        convert hall a using 2
        omega
  refine (hloop n le_rfl).imp fun s' hs' => ⟨hs'.1, fun a => ?_⟩
  have ha := hs'.2 a
  split_ifs at ha with hin
  · exact ha
  · rw [ha]
    exact hout a hin

/-- What a loop over bytes does to all trackers. -/
theorem forBytes_spec {m : MemChecker} {addr size : ℕ}
    {f : ℕ → ByteTracker → Except Fault ByteTracker} {Q : ℕ → ByteTracker → Prop}
    (hin : ∀ i < size, Ok (Q (addr + i)) ⊥ (f i (m.byte_trackers (addr + i))))
    (hout : ∀ a, ¬ (addr ≤ a ∧ a < addr + size) → Q a (m.byte_trackers a)) :
    Ok (fun m' => (∀ a, Q a (m'.byte_trackers a)) ∧ m'.nextSerial = m.nextSerial)
      ⊥ (m.forBytes addr size f) := by
  refine (bytes_foldlM MemChecker.byte_trackers (fun m' => m'.nextSerial = m.nextSerial) Q rfl addr
    size ?_ hout).imp fun _ h => h.symm
  intro i hi m' hm' htr
  rw [htr]
  refine (hin i hi).bind (fun tr htr' => ?_)
  refine ⟨hm', ?_, fun a ha => update_of_ne ha _ _⟩
  simp only [update_self]
  exact htr'

theorem completeRead_spec {m : MemChecker} {tick serial addr : ℕ} {data : List UInt8}
    (fits : Prop) {Q : ℕ → ByteTracker → Prop}
    (hin : ∀ i < data.length, Ok (fun r => (fits → r.1 = true) ∧ Q (addr + i) r.2) ⊥
      ((m.byte_trackers (addr + i)).completeRead tick serial tick (data.getD i DATA_INITIAL)))
    (hout : ∀ a, ¬ (addr ≤ a ∧ a < addr + data.length) → Q a (m.byte_trackers a)) :
    Ok (fun r => (fits → r.1 = true) ∧ (∀ a, Q a (r.2.byte_trackers a))
        ∧ r.2.nextSerial = m.nextSerial)
      ⊥ (m.completeRead tick serial tick addr data) := by
  refine (bytes_foldlM (fun s : Bool × MemChecker => s.2.byte_trackers)
    (fun s => (fits → s.1 = true) ∧ s.2.nextSerial = m.nextSerial) Q ⟨fun _ => rfl, rfl⟩ addr
      data.length ?_ hout).imp fun _ h => ⟨h.1.1, h.2, h.1.2⟩
  rintro i hi s ⟨hs, hserial⟩ htr
  rw [completeByte, htr]
  refine (hin i hi).bind ?_
  rintro ⟨result, tr⟩ ⟨hresult, htr'⟩
  have hupdate : ∀ a, a ≠ addr + i →
      update s.2.byte_trackers (addr + i) tr a = s.2.byte_trackers a :=
    fun a ha => update_of_ne ha _ _
  have hself : Q (addr + i) (update s.2.byte_trackers (addr + i) tr (addr + i)) := by
    rw [update_self]
    exact htr'
  cases result with
  | true => exact ⟨⟨hs, hserial⟩, hself, hupdate⟩
  | false =>
    have hfail : fits → False := fun hfits => Bool.false_ne_true (hresult hfits)
    cases hs1 : s.1 <;> exact ⟨⟨fun hfits => absurd hfits hfail, hserial⟩, hself, hupdate⟩

/-! ## The operations on a byte, call by call -/

theorem byteOps_append (a : ℕ) (ops : List MemOp) (o : MemOp) :
    byteOps a (ops ++ [o]) = byteOps a ops ++ if o.covers a then [o.byte a] else [] := by
  rw [byteOps, filter_append, map_append, ← byteOps, filter_singleton]
  by_cases ho : o.covers a = true <;> simp [ho]

variable {a : ℕ}

theorem mem_byteOps {ops : List MemOp} {x : Op} :
    x ∈ byteOps a ops ↔ ∃ o ∈ ops, o.covers a = true ∧ o.byte a = x := by
  rw [byteOps, mem_map]
  simp only [mem_filter, and_assoc]

/-- The operation that completes is the one with range from `addr` on. -/
theorem byteOps_finish (a serial tick addr : ℕ) (data : Option (List UInt8)) {ops : List MemOp}
    (haddr : ∀ o ∈ ops, o.id = serial → o.addr = addr) :
    byteOps a (ops.map (MemOp.finish serial tick data)) = (byteOps a ops).map (finishOp serial tick
        (data.map (fun d => d.getD (a - addr) DATA_INITIAL))) := by
  have hcovers : MemOp.covers a ∘ MemOp.finish serial tick data = MemOp.covers a := by
    funext o
    rw [comp_apply, MemOp.finish]
    split <;> rfl
  rw [byteOps, filter_map, hcovers, map_map, byteOps, map_map]
  refine map_congr_left (fun o ho => ?_)
  rw [comp_apply, comp_apply, MemOp.finish, finishOp]
  by_cases hid : o.id = serial
  · rw [if_pos hid, if_pos (show (o.byte a).id = serial from hid),
      ← haddr o (mem_of_mem_filter ho) hid]
    cases data with
    | none => rfl
    | some d => rfl
  · rw [if_neg hid, if_neg (show ¬ (o.byte a).id = serial from hid)]

theorem byteOps_filter (a serial : ℕ) (ops : List MemOp) :
    byteOps a (ops.filter (fun o => o.id ≠ serial))
      = (byteOps a ops).filter (fun x => x.id ≠ serial) := by
  rw [byteOps, byteOps, filter_map, filter_filter, filter_filter]
  congr 1
  refine filter_congr (fun o _ => ?_)
  rw [Bool.and_comm]
  rfl

/-- The operations of a history are numbered in the order of their start. -/
structure Numbered (h : History) : Prop where
  ids : h.ops.Pairwise (fun o o' => o.id < o'.id)
  bound : ∀ o ∈ h.ops, o.id < h.serials

variable {o : MemOp}

namespace Numbered

variable {h : History}

theorem add (k : Numbered h) (ho : o.id = h.serials) (now : ℕ)
    (first : ℕ → Option ℕ) : Numbered ⟨h.ops ++ [o], now, first, h.serials + 1⟩ := by
  refine ⟨pairwise_concat.2 ⟨k.ids, fun x hx => ho ▸ k.bound x hx⟩, forall_mem_append.2
    ⟨fun x hx => (k.bound x hx).trans (Nat.lt_succ_self _), forall_mem_singleton.2 ?_⟩⟩
  exact ho ▸ Nat.lt_succ_self _

theorem finish (k : Numbered h) (serial tick : ℕ) (data : Option (List UInt8)) :
    Numbered { h with ops := h.ops.map (MemOp.finish serial tick data), now := tick } := by
  have hsame : ∀ x : MemOp, (MemOp.finish serial tick data x).id = x.id := by
    intro x
    rw [MemOp.finish]
    split <;> rfl
  constructor
  · rw [pairwise_map]
    simpa only [hsame] using k.ids
  · exact forall_mem_map.2 fun x hx => (hsame x).trans_lt (k.bound x hx)

theorem after (k : Numbered h) (c : Call) : Numbered (h.after c) := by
  cases c with
  | startRead tick addr size => exact k.add rfl _ _
  | startWrite tick addr data => exact k.add rfl _ _
  | completeRead serial tick addr data => exact k.finish _ _ _
  | completeWrite serial tick addr size => exact k.finish _ _ _
  | abortWrite serial addr size =>
    exact ⟨k.ids.sublist filter_sublist, fun x hx => k.bound x (mem_of_mem_filter hx)⟩

theorem eq_of_id (k : Numbered h) {o o' : MemOp} (ho : o ∈ h.ops) (ho' : o' ∈ h.ops)
    (hid : o.id = o'.id) : o = o' := by
  have hnodup : (h.ops.map MemOp.id).Nodup :=
    pairwise_map.mpr (k.ids.imp (fun hlt => ne_of_lt hlt))
  exact inj_on_of_nodup_map hnodup ho ho' hid

theorem not_mem_byte (k : Numbered h) (ho : o ∈ h.ops)
    (ha : ¬ (o.addr ≤ a ∧ a < o.addr + o.size)) : ∀ x ∈ byteOps a h.ops, x.id ≠ o.id := by
  intro x hx hid
  obtain ⟨o', ho', hcov, rfl⟩ := mem_byteOps.mp hx
  rw [k.eq_of_id ho' ho hid] at hcov
  exact ha (MemOp.covers_iff.mp hcov)

/-- When it completes, nothing changes there. -/
theorem map_unreached (k : Numbered h) (ho : o ∈ h.ops)
    (ha : ¬ (o.addr ≤ a ∧ a < o.addr + o.size)) (tick : ℕ) (data : Option UInt8) :
    (byteOps a h.ops).map (finishOp o.id tick data) = byteOps a h.ops := by
  conv_rhs => rw [← map_id (byteOps a h.ops)]
  refine map_congr_left (fun x hx => ?_)
  rw [finishOp, if_neg (k.not_mem_byte ho ha x hx)]
  rfl

/-- The operations on a byte after one of the history's completes. -/
theorem byteOps_finish (k : Numbered h) (ho : o ∈ h.ops) (a tick : ℕ) (data : Option (List UInt8)) :
    byteOps a (h.ops.map (MemOp.finish o.id tick data)) = (byteOps a h.ops).map (finishOp o.id tick
        (data.map (fun d => d.getD (a - o.addr) DATA_INITIAL))) :=
  MemChecker.byteOps_finish a o.id tick o.addr data
    (fun _ hx hid => congrArg MemOp.addr (k.eq_of_id hx ho hid))

/-- The operations on a byte with the serial of this one. -/
theorem byte_eq_of_id (k : Numbered h) (ho : o ∈ h.ops) (a : ℕ) :
    ∀ x ∈ byteOps a h.ops, x.id = o.id → x = o.byte a := by
  intro x hx hid
  obtain ⟨o', ho', -, rfl⟩ := mem_byteOps.mp hx
  rw [k.eq_of_id ho' ho hid]

theorem grown (k : Numbered h) {c : Call} (hvalid : c.Valid h) (a : ℕ) :
    Grown (byteOps a h.ops) (byteOps a (h.after c).ops) h.now ∧ h.now ≤ (h.after c).now := by
  have hadd : ∀ o : MemOp, h.now ≤ o.start →
      Grown (byteOps a h.ops) (byteOps a (h.ops ++ [o])) h.now := by
    intro o ho
    rw [byteOps_append]
    split_ifs
    · exact Grown.add ho
    · rw [append_nil]
      exact Grown.refl _ _
  cases c with
  | startRead tick addr size => exact ⟨hadd _ hvalid, hvalid⟩
  | startWrite tick addr data => exact ⟨hadd _ hvalid, hvalid⟩
  | completeRead serial tick addr data =>
    obtain ⟨hnow, o, ho, rfl, hread, -, -, hpending⟩ := hvalid
    refine ⟨?_, hnow⟩
    rw [History.after, k.byteOps_finish ho]
    refine Grown.finish (r := o.byte a) (k.byte_eq_of_id ho a) hpending _ (fun hw => ?_) tick
    exact absurd (hread.symm.trans hw) Bool.false_ne_true
  | completeWrite serial tick addr size =>
    obtain ⟨hnow, o, ho, rfl, -, -, -, hpending⟩ := hvalid
    refine ⟨?_, hnow⟩
    rw [History.after, k.byteOps_finish ho]
    exact Grown.finish (r := o.byte a) (k.byte_eq_of_id ho a) hpending _ (fun _ => rfl) tick
  | abortWrite serial addr size =>
    obtain ⟨o, ho, rfl, -, -, -, hpending⟩ := hvalid
    refine ⟨?_, le_rfl⟩
    rw [History.after, byteOps_filter]
    exact Grown.abort (w := o.byte a) (k.byte_eq_of_id ho a) hpending

theorem run_grown {calls : List Call} (k : Numbered h) (hvalid : Along (fun h c => c.Valid h) h calls)
    (a : ℕ) : Grown (byteOps a h.ops) (byteOps a (h.run calls).ops) h.now := by
  induction calls generalizing h with
  | nil => exact Grown.refl _ _
  | cons c calls ih =>
    obtain ⟨hc, hrest⟩ := hvalid
    obtain ⟨hstep, hnow⟩ := k.grown hc a
    exact hstep.trans (ih (k.after c) hrest) hnow

end Numbered

/-- The checker knows the history. -/
structure Follows (m : MemChecker) (h : History) : Prop extends Numbered h where
  tracks : ∀ a, Tracks (m.byte_trackers a) (byteOps a h.ops) h.now (h.firstWrite a)
  serial : m.nextSerial = h.serials

namespace Follows

variable {m : MemChecker} {h : History}

theorem start : Follows {} {} :=
  ⟨⟨Pairwise.nil, fun _ ho => absurd ho not_mem_nil⟩, fun _ => Tracks.start, rfl⟩

theorem byte_bound (k : Follows m h) (a : ℕ) : ∀ x ∈ byteOps a h.ops, x.id < m.nextSerial := by
  intro x hx
  obtain ⟨o, ho, -, rfl⟩ := mem_byteOps.mp hx
  rw [k.serial]
  exact k.bound o ho

/-- A new operation: the trackers of its bytes are told, and the others only get older. -/
theorem started (k : Follows m h) (ho : o.id = h.serials) (hnow : h.now ≤ o.start)
    (htick : o.start < TICK_FUTURE) {first : ℕ → Option ℕ}
    {f : ℕ → ByteTracker → Except Fault ByteTracker}
    (hin : ∀ i < o.size, Ok (fun tr => Tracks tr (byteOps (o.addr + i) h.ops
        ++ [o.byte (o.addr + i)]) o.start (first (o.addr + i))) ⊥ (f i (m.byte_trackers (o.addr + i))))
    (hout : ∀ a, ¬ (o.addr ≤ a ∧ a < o.addr + o.size) → first a = h.firstWrite a) :
    Ok (fun m' => Follows { m' with nextSerial := m'.nextSerial + 1 }
      ⟨h.ops ++ [o], o.start, first, h.serials + 1⟩) ⊥ (m.forBytes o.addr o.size f) := by
  refine (forBytes_spec (Q := fun a tr => Tracks tr (byteOps a (h.ops ++ [o])) o.start (first a))
    (fun i hi => ?_) (fun a ha => ?_)).imp (fun m' hm' => ?_)
  · have hcov : o.covers (o.addr + i) = true :=
      MemOp.covers_iff.mpr ⟨Nat.le_add_right .., Nat.add_lt_add_left hi o.addr⟩
    rw [byteOps_append, if_pos hcov]
    exact hin i hi
  · have hcov : ¬ o.covers a = true := fun h => ha (MemOp.covers_iff.mp h)
    rw [byteOps_append, if_neg hcov, append_nil, hout a ha]
    exact (k.tracks a).mono hnow htick
  · exact ⟨k.toNumbered.add ho _ first, hm'.1, by rw [hm'.2, k.serial]⟩

theorem startRead (k : Follows m h) {tick addr size : ℕ} (hnow : h.now ≤ tick)
    (htick : tick < TICK_FUTURE) :
    Ok (fun r => Follows r.2 (h.after (.startRead tick addr size))) ⊥
      (m.startRead tick addr size) := by
  refine (k.started (o := ⟨h.serials, false, addr, size, tick, none, []⟩) rfl hnow htick
    (fun i _ => ?_) (fun _ _ => rfl)).bind (fun m' hm' => hm')
  rw [Ok.pure_iff, k.serial]
  exact (k.tracks (addr + i)).startRead hnow htick (k.serial ▸ k.byte_bound _)

theorem startWrite (k : Follows m h) {tick addr : ℕ} {data : List UInt8} (hnow : h.now ≤ tick)
    (htick : tick < TICK_FUTURE) :
    Ok (fun r => Follows r.2 (h.after (.startWrite tick addr data))) ⊥
      (m.startWrite tick addr data) := by
  refine (k.started (o := ⟨h.serials, true, addr, data.length, tick, none, data⟩) rfl hnow htick
    (fun i hi => ?_) (fun a ha => if_neg ha)).bind (fun m' hm' => hm')
  have hin : addr ≤ addr + i ∧ addr + i < addr + data.length :=
    ⟨Nat.le_add_right .., Nat.add_lt_add_left hi addr⟩
  simp only [hin, k.serial, MemOp.byte, Nat.add_sub_cancel_left]
  exact (k.tracks (addr + i)).startWrite hnow htick (k.serial ▸ k.byte_bound _) _

theorem finish (k : Follows m h) {m' : MemChecker} (ho : o ∈ h.ops) {tick : ℕ}
    (data : Option (List UInt8))
    (htracks : ∀ a, Tracks (m'.byte_trackers a) ((byteOps a h.ops).map (finishOp o.id tick
      (data.map (fun d => d.getD (a - o.addr) DATA_INITIAL)))) tick (h.firstWrite a))
    (hserial : m'.nextSerial = m.nextSerial) :
    Follows m' { h with ops := h.ops.map (MemOp.finish o.id tick data), now := tick } := by
  refine ⟨k.toNumbered.finish _ _ _, fun a => ?_, hserial.trans k.serial⟩
  rw [k.byteOps_finish ho]
  exact htracks a

theorem unreached (k : Follows m h) (ho : o ∈ h.ops) {tick : ℕ} (hnow : h.now ≤ tick)
    (htick : tick < TICK_FUTURE) (ha : ¬ (o.addr ≤ a ∧ a < o.addr + o.size)) (data : Option UInt8) :
    Tracks (m.byte_trackers a) ((byteOps a h.ops).map (finishOp o.id tick data)) tick
      (h.firstWrite a) := by
  rw [k.map_unreached ho ha]
  exact (k.tracks a).mono hnow htick

theorem reached (ho : o ∈ h.ops) (ha : o.addr ≤ a ∧ a < o.addr + o.size) :
    o.byte a ∈ byteOps a h.ops :=
  mem_byteOps.mpr ⟨o, ho, decide_eq_true ha, rfl⟩

theorem completeWrite (k : Follows m h) {serial tick addr size : ℕ} (hnow : h.now ≤ tick)
    (htick : tick < TICK_FUTURE) (hunder : h.UnderWay serial true addr size) :
    Ok (fun m' => Follows m' (h.after (.completeWrite serial tick addr size))) ⊥
      (m.completeWrite tick serial tick addr size) := by
  obtain ⟨o, ho, rfl, hwrite, rfl, rfl, hpending⟩ := hunder
  rw [MemChecker.completeWrite]
  refine (forBytes_spec (Q := fun a tr => Tracks tr
    ((byteOps a h.ops).map (finishOp o.id tick none)) tick (h.firstWrite a)) ?_ ?_).imp ?_
  · intro i hi
    have hmem := reached ho ⟨Nat.le_add_right .., Nat.add_lt_add_left hi o.addr⟩
    exact (k.tracks _).completeWrite hnow htick hmem hwrite hpending
  · exact fun a ha => k.unreached ho hnow htick ha none
  · rintro m' ⟨htracks, hserial⟩
    exact k.finish ho none htracks hserial

theorem abortWrite (k : Follows m h) {serial addr size : ℕ}
    (hunder : h.UnderWay serial true addr size) :
    Ok (fun m' => Follows m' (h.after (.abortWrite serial addr size))) ⊥
      (m.abortWrite serial addr size) := by
  obtain ⟨o, ho, rfl, hwrite, rfl, rfl, hpending⟩ := hunder
  rw [MemChecker.abortWrite]
  refine (forBytes_spec (Q := fun a tr => Tracks tr
    ((byteOps a h.ops).filter (fun x => x.id ≠ o.id)) h.now (h.firstWrite a)) ?_ ?_).imp ?_
  · intro i hi
    have hmem := reached ho ⟨Nat.le_add_right .., Nat.add_lt_add_left hi o.addr⟩
    exact (k.tracks _).abortWrite hmem hwrite hpending
  · intro a ha
    have hfilter : (byteOps a h.ops).filter (fun x => x.id ≠ o.id) = byteOps a h.ops :=
      filter_eq_self.mpr (fun x hx => decide_eq_true (k.not_mem_byte ho ha x hx))
    rw [hfilter]
    exact k.tracks a
  · rintro m' ⟨htracks, hserial⟩
    refine ⟨k.toNumbered.after _, fun a => ?_, hserial.trans k.serial⟩
    rw [History.after, byteOps_filter]
    exact htracks a

/-- Some order of the operations on each byte, now or later, has every read return what was written
last. -/
def Fits (h : History) : Prop :=
  ∀ a, ∃ v0 order, Linearizes v0 order ∧ Grown (byteOps a h.ops) order h.now

/-- A read completes. It is accepted if the values fit a linearizable history. -/
theorem completeRead (k : Follows m h) {serial tick addr : ℕ} {data : List UInt8}
    (hnow : h.now ≤ tick) (hunder : h.UnderWay serial false addr data.length)
    (hapart : (Call.completeRead serial tick addr data).Apart h) :
    Ok (fun r => (Fits (h.after (.completeRead serial tick addr data)) → r.1 = true)
        ∧ Follows r.2 (h.after (.completeRead serial tick addr data)))
      ⊥ (m.completeRead tick serial tick addr data) := by
  obtain ⟨o, ho, rfl, hread, rfl, hsize, hpending⟩ := hunder
  obtain ⟨htick, hfirst⟩ := hapart
  refine (completeRead_spec (Fits (h.after (.completeRead o.id tick o.addr data)))
    (Q := fun a tr => Tracks tr ((byteOps a h.ops).map (finishOp o.id tick
      (some (data.getD (a - o.addr) DATA_INITIAL)))) tick (h.firstWrite a)) ?_ ?_).imp ?_
  · intro i hi
    have hin : o.addr ≤ o.addr + i ∧ o.addr + i < o.addr + o.size :=
      ⟨Nat.le_add_right .., by rw [hsize]; exact Nat.add_lt_add_left hi o.addr⟩
    have hmem := reached ho hin
    have hfirst := hfirst _ hin.1 (by rw [← hsize]; exact hin.2)
    rw [Nat.add_sub_cancel_left]
    refine (k.tracks _).completeRead hnow htick hfirst hmem hread hpending (fun hfits => ?_)
    obtain ⟨v0, order, hlin, hgrown⟩ := hfits (o.addr + i)
    rw [History.after, k.byteOps_finish ho] at hgrown
    simp only [Option.map_some, Nat.add_sub_cancel_left] at hgrown
    have hcompleting : Completing (m.byte_trackers (o.addr + i)) (byteOps (o.addr + i) h.ops)
        h.now (h.firstWrite (o.addr + i)) (o.byte (o.addr + i)) tick
        (data.getD i DATA_INITIAL) order :=
      ⟨k.tracks _, hmem, hread, hpending, hnow, hfirst, hgrown⟩
    exact fun dropped last_obs rest hobs hstop => hcompleting.expected hlin hobs hstop
  · intro a ha
    rw [← hsize] at ha
    exact k.unreached ho hnow htick ha _
  · rintro ⟨result, m'⟩ ⟨hresult, htracks, hserial⟩
    exact ⟨hresult, k.finish ho (some data) htracks hserial⟩

/-- Every call returns and keeps the checker up to date. If the operations are linearizable in the
end, then a read that completes is accepted. -/
theorem call (k : Follows m h) {c : Call} (hvalid : c.Valid h) (hapart : c.Apart h) :
    Ok (fun r => (Fits (h.after c) → ∀ b ∈ r.1, b = true) ∧ Follows r.2 (h.after c))
      ⊥ (c.apply m) := by
  have hnil {fits : Prop} : fits → ∀ b ∈ ([] : List Bool), b = true :=
    fun _ _ hb => absurd hb not_mem_nil
  cases c with
  | startRead tick addr size =>
    exact (k.startRead hvalid hapart).bind (fun r hr => ⟨hnil, hr⟩)
  | startWrite tick addr data =>
    exact (k.startWrite hvalid hapart).bind (fun r hr => ⟨hnil, hr⟩)
  | completeRead serial tick addr data =>
    refine (k.completeRead hvalid.1 hvalid.2 hapart).bind ?_
    rintro r ⟨hresult, hr⟩
    exact ⟨fun hfits => forall_mem_singleton.2 (hresult hfits), hr⟩
  | completeWrite serial tick addr size =>
    exact (k.completeWrite hvalid.1 hapart hvalid.2).bind (fun r hr => ⟨hnil, hr⟩)
  | abortWrite serial addr size =>
    exact (k.abortWrite hvalid).bind (fun r hr => ⟨hnil, hr⟩)

end Follows

/-- A sequence of calls from a state in which the checker knows the history. -/
theorem runCalls_spec {calls : List Call} {m : MemChecker} {h : History} (k : Follows m h)
    (hvalid : Along (fun h c => c.Valid h) h calls)
    (hapart : Along (fun h c => c.Apart h) h calls) :
    Ok (fun r => (∀ a, Linearizable (byteOps a (h.run calls).ops)) → ∀ b ∈ r.1, b = true)
      ⊥ (runCalls m calls) := by
  induction calls generalizing m h with
  | nil => exact fun _ b hb => absurd hb not_mem_nil
  | cons c calls ih =>
    refine (k.call hvalid.1 hapart.1).bind ?_
    rintro r ⟨hr, k'⟩
    refine (ih k' hvalid.2 hapart.2).bind (fun r' hr' => ?_)
    intro hlin b hb
    rcases mem_append.mp hb with hb | hb
    · refine hr (fun a => ?_) b hb
      have hgrown := (k.toNumbered.after c).run_grown hvalid.2 a
      obtain ⟨v0, order, hperm, hlinear⟩ := hlin a
      refine ⟨v0, order, hlinear, fun o ho => hgrown.later o (hperm.mem_iff.mp ho), ?_⟩
      exact fun o ho hdone => hperm.mem_iff.mpr (hgrown.kept o ho hdone)
    · exact hr' hlin b hb

/-- **No false alarm.** If the calls are those of a history that is linearizable byte by byte, and
no read completes in the tick in which the first write to one of its bytes started, then all calls
return and every `completeRead` returns true. -/
theorem no_false_alarm (calls : List Call) (hvalid : Along (fun h c => c.Valid h) {} calls)
    (hapart : Along (fun h c => c.Apart h) {} calls)
    (hlin : ∀ a, Linearizable (byteOps a (({} : History).run calls).ops)) :
    ∃ results m, runCalls {} calls = .ok (results, m) ∧ ∀ b ∈ results, b = true := by
  obtain ⟨r, hrun, hall⟩ := (runCalls_spec Follows.start hvalid hapart).returns
  exact ⟨r.1, r.2, hrun, hall hlin⟩

/-- A read that starts after the only write and completes before it. -/
theorem no_false_alarm_overlap :
    ∃ results m, runCalls {} [.startWrite 1 0 [3], .startRead 2 0 1, .completeRead 1 4 0 [3],
        .completeWrite 0 6 0 1] = .ok (results, m)
      ∧ ∀ b ∈ results, b = true := by
  refine no_false_alarm _ ?_ ?_ ?_
  · simp [Along, Call.Valid, History.after, History.UnderWay, MemOp.finish]
  · simp [Along, Call.Apart, History.after, TICK_FUTURE, MaxTick]
  · intro a
    by_cases ha : a = 0
    · subst ha
      refine ⟨0, [⟨0, true, 1, some 6, 3⟩, ⟨1, false, 2, some 4, 3⟩], ?_, ?_⟩
      · exact Perm.of_eq (by decide)
      · refine .cons (by simp) ?_ (.cons (by simp) (by simp) (.nil _))
        simp [RegOp.Precedes]
    · refine ⟨0, [], ?_, .nil _⟩
      have hcov : ∀ o ∈ (({} : History).run [.startWrite 1 0 [3], .startRead 2 0 1,
          .completeRead 1 4 0 [3], .completeWrite 0 6 0 1]).ops, ¬ o.covers a = true := by
        simp [History.run, History.after, MemOp.finish, MemOp.covers]
        omega
      rw [byteOps, filter_eq_nil_iff.mpr hcov]
      exact Perm.refl _

/-- A read starts at tick 5 and completes at tick 10 with the value 7. The first write to the byte
starts at tick 10 as well. The history is linearizable, with the read first; `completeRead` stops
with the assertion that the write cluster overlaps the read. -/
theorem same_tick_assertion :
    Along (fun h c => c.Valid h) {} [.startRead 5 0 1, .startWrite 10 0 [1], .completeRead 0 10 0 [7]]
      ∧ (∀ a, Linearizable (byteOps a (({} : History).run
        [.startRead 5 0 1, .startWrite 10 0 [1], .completeRead 0 10 0 [7]]).ops))
      ∧ ∀ r, runCalls {} [.startRead 5 0 1, .startWrite 10 0 [1], .completeRead 0 10 0 [7]]
        ≠ .ok r := by
  refine ⟨?_, fun a => ?_, ?_⟩
  · simp [Along, Call.Valid, History.after, History.UnderWay]
  · by_cases ha : a = 0
    · subst ha
      refine ⟨7, [⟨0, false, 5, some 10, 7⟩, ⟨1, true, 10, none, 1⟩], ?_, ?_⟩
      · exact Perm.of_eq (by decide)
      · refine .cons (by simp) ?_ (.cons (by simp) (by simp) (.nil _))
        simp [RegOp.Precedes]
    · refine ⟨0, [], ?_, .nil _⟩
      have hcov : ∀ o ∈ (({} : History).run [.startRead 5 0 1, .startWrite 10 0 [1],
          .completeRead 0 10 0 [7]]).ops, ¬ o.covers a = true := by
        simp [History.run, History.after, MemOp.finish, MemOp.covers]
        omega
      rw [byteOps, filter_eq_nil_iff.mpr hcov]
      exact Perm.refl _
  · have herror : runCalls {} [.startRead 5 0 1, .startWrite 10 0 [1], .completeRead 0 10 0 [7]]
        = .error .no_overlap := rfl
    intro r hr
    rw [herror] at hr
    simp at hr

/-- **No assertion fails**, whatever the reads return: if the calls complete or abort what is under
way, and no read completes in the tick in which the first write to one of its bytes started, then
all calls return. -/
theorem calls_return (calls : List Call) (hvalid : Along (fun h c => c.Valid h) {} calls)
    (hapart : Along (fun h c => c.Apart h) {} calls) :
    ∃ results m, runCalls {} calls = .ok (results, m) := by
  obtain ⟨r, hrun, -⟩ := (runCalls_spec Follows.start hvalid hapart).returns
  exact ⟨r.1, r.2, hrun⟩

/-- The first write is aborted and another one completes in the tick in which it starts. Of two
reads that complete in that tick, the second returns a value that nobody wrote. -/
theorem calls_return_sameTick :
    ∃ results m, runCalls {} [.startRead 1 0 1, .startWrite 2 0 [3], .abortWrite 1 0 1,
        .startWrite 4 0 [5], .completeWrite 2 4 0 1, .completeRead 0 4 0 [5], .startRead 4 0 1,
        .completeRead 3 4 0 [9]] = .ok (results, m) := by
  refine calls_return _ ?_ ?_
  · simp [Along, Call.Valid, History.after, History.UnderWay, MemOp.finish]
  · simp [Along, Call.Apart, History.after, TICK_FUTURE, MaxTick]

/-- The read completes in the tick of the first write, in which that write is aborted again. -/
theorem read_at_first_write :
    Along (fun h c => c.Valid h) {}
        [.startRead 3 0 1, .startWrite 4 0 [1], .abortWrite 1 0 1, .completeRead 0 4 0 [0]]
      ∧ ∃ f, runCalls {}
        [.startRead 3 0 1, .startWrite 4 0 [1], .abortWrite 1 0 1, .completeRead 0 4 0 [0]]
          = .error f := by
  refine ⟨?_, .no_overlap, rfl⟩
  simp [Along, Call.Valid, History.after, History.UnderWay]

end Bindu.Mem.MemChecker
