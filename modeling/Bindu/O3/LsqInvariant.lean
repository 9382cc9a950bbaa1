/-
What the load and store queues stand for, and their invariant.

In program order a load reads, at every byte, what the last store before it wrote there. That is
`programValue`, the last of the writes of the program. It speaks of the addresses that memory
is accessed with, `tr` being the translation.

The unit has three views of the same writes. Memory holds those of the packets that were sent.
A load that executes sees those of the older stores that have executed, whether they are in
memory or still in the queue. In program order it would see those of all older stores. The
invariant says that memory is the first view, and that what a load has got so far is the
second, unless an older store came too late for it.
-/
import Bindu.Lib.LastWrite
import Bindu.O3.LsqPackets

open Bindu.Lib

namespace Bindu.O3

namespace Lsq

/-! ## Program order -/

/-- What the first `c` bytes of a store put at an address. -/
def StoreOp.writesUpTo (tr : ℕ → ℕ) (op : StoreOp) : ℕ → ℕ → Option Byte
  | 0, _ => none
  | c + 1, a => if tr (op.addr + c) = a then some (op.byte c) else op.writesUpTo tr c a

def StoreOp.writes (tr : ℕ → ℕ) (op : StoreOp) (a : ℕ) : Option Byte := op.writesUpTo tr op.size a

def MemInst.writes (tr : ℕ → ℕ) : MemInst → ℕ → Option Byte
  | .load _, _ => none
  | .store op, a => op.writes tr a

/-- What an address holds before instruction `n` of the program. -/
def programValue (tr : ℕ → ℕ) (prog : ℕ → MemInst) (init : ℕ → Byte) (n a : ℕ) : Byte :=
  lastWrite (fun k => (prog k).writes tr) init n a

def MemInst.access : MemInst → Access
  | .load a => a
  | .store op => op.toAccess

/-- A byte that an access touches. -/
def Access.Touches (a : Access) (b : ℕ) : Prop := a.addr ≤ b ∧ b < a.addr + a.size

/-- Two accesses with a byte in common. -/
def Access.Overlaps (a a' : Access) : Prop := a.addr < a'.addr + a'.size ∧ a'.addr < a.addr + a.size

/-- Different bytes that the program touches are different bytes of memory. -/
def NoSynonyms (tr : ℕ → ℕ) (prog : ℕ → MemInst) : Prop :=
  ∀ n n' b b', (prog n).access.Touches b → (prog n').access.Touches b' → tr b = tr b' → b = b'

/-- The size of every store fits into its queue entry. -/
def SizesFit (prog : ℕ → MemInst) : Prop := ∀ n op, prog n = .store op → op.size < 256

namespace StoreOp

variable {tr : ℕ → ℕ} {op : StoreOp}

theorem writesUpTo_eq_none {c a : ℕ} (h : ∀ i < c, tr (op.addr + i) ≠ a) :
    op.writesUpTo tr c a = none := by
  induction c with
  | zero => rfl
  | succ c ih =>
    rw [writesUpTo, if_neg (h c (Nat.lt_succ_self c))]
    exact ih (fun i hi => h i (Nat.lt_succ_of_lt hi))

theorem writesUpTo_eq_some {c i a : ℕ} (hi : i < c) (ha : tr (op.addr + i) = a)
    (h : ∀ j < c, tr (op.addr + j) = a → j = i) :
    op.writesUpTo tr c a = some (op.byte i) := by
  induction c with
  | zero => exact absurd hi (Nat.not_lt_zero i)
  | succ c ih =>
    rw [writesUpTo]
    split_ifs with hc
    · rw [h c (Nat.lt_succ_self c) hc]
    · have hne : i ≠ c := fun heq => hc (heq ▸ ha)
      exact ih (by omega) (fun j hj => h j (Nat.lt_succ_of_lt hj))

/-- The bytes of a packet, which lie next to each other from `q` on. -/
theorem writesUpTo_add {c n q : ℕ} (hq : ∀ i < n, q + i = tr (op.addr + c + i)) (a : ℕ) :
    op.writesUpTo tr (c + n) a
      = if q ≤ a ∧ a < q + n then some (op.byte (c + (a - q))) else op.writesUpTo tr c a := by
  induction n with
  | zero => rw [Nat.add_zero, if_neg (by omega)]
  | succ n ih =>
    have hlast := hq n (Nat.lt_succ_self n)
    rw [← Nat.add_assoc, writesUpTo, ← Nat.add_assoc, ← hlast,
      ih (fun i hi => hq i (Nat.lt_succ_of_lt hi))]
    split_ifs <;> first | omega | rfl | rw [show c + (a - q) = c + n by omega]

theorem writes_eq_none {a : Access} {b c : ℕ} (hb : a.Touches b) (hc : c ≤ op.size)
    (hinj : ∀ i < op.size, tr (op.addr + i) = tr b → op.addr + i = b)
    (hapart : ¬ op.toAccess.Overlaps a) : op.writesUpTo tr c (tr b) = none := by
  refine writesUpTo_eq_none ?_
  intro i hi heq
  have hbyte := hinj i (by omega) heq
  refine hapart ⟨?_, ?_⟩
  · have h := hb.2; omega
  · have h := hb.1; omega

theorem writes_eq_some {i : ℕ} (hi : i < op.size)
    (hinj : ∀ j < op.size, tr (op.addr + j) = tr (op.addr + i) → op.addr + j = op.addr + i) :
    op.writes tr (tr (op.addr + i)) = some (op.byte i) := by
  refine writesUpTo_eq_some hi rfl ?_
  intro j hj heq
  have h := hinj j hj heq
  omega

end StoreOp

/-! ## The invariant -/

/-- How many packets of a request were sent. -/
def sentPackets : Option Request → ℕ
  | none => 0
  | some r => r.numReceivedPackets + r.numOutstandingPackets

/-- How many bytes of a store were sent. -/
def StoreInst.sentBytes (P : Params) (st : StoreInst) : ℕ :=
  P.bytesSent st.op.toAccess (sentPackets st.request)

/-- How many bytes a load has got. -/
def LoadInst.gotBytes (P : Params) (l : LoadInst) : ℕ :=
  if l.writebackScheduled then l.access.size else P.bytesSent l.access (sentPackets l.request)

/-- The byte that a queue entry holds. -/
def StoreInst.entryByte (st : StoreInst) (i : ℕ) : Byte := if st.isAllZeros then 0 else st.data i

/-- What holds of a store alone. -/
structure StoreOk (P : Params) (st : StoreInst) : Prop where
  effAddr_of : st.executed = true → st.effAddrValid = true ∧ st.effAddr = st.op.addr
    ∧ st.effSize = st.op.size
  entry_of : st.executed = true → st.size = st.op.size
    ∧ ∀ i, i < st.op.size → st.entryByte i = st.op.byte i
  idle : st.executed = false → st.size = 0 ∧ st.request = none
  canWB_of : st.canWB = true → st.executed = true
  committed_of : st.committed = true → st.canWB = true
    ∧ ∀ i, i < st.op.size → st.memData i = st.op.byte i
  sent_le : sentPackets st.request ≤ (P.packets st.op.toAccess).length
  sent_of : 0 < sentPackets st.request → st.committed = true

/-- What holds of a load alone. `seen` is what it sees in memory and in the store queue. -/
structure LoadOk (P : Params) (seen : ℕ → Byte) (caught : Prop) (l : LoadInst) : Prop where
  effAddr_of : l.effAddrValid = true → l.effAddr = l.access.addr ∧ l.effSize = l.access.size
  idle : l.effAddrValid = false → l.request = none ∧ l.writebackScheduled = false
    ∧ l.executed = false
  issued_of : l.writebackScheduled = true → l.issued = true
  executed_of : l.result.isSome = true → l.executed = true
  sent_le : sentPackets l.request ≤ (P.packets l.access).length
  got : ¬ caught → ∀ i, i < l.gotBytes P → l.memData i = seen (P.paddr (l.access.addr + i))
  result_eq : ¬ caught → ∀ v, l.result = some v → ∀ i, i < l.access.size →
    v i = seen (P.paddr (l.access.addr + i))

section Views

variable (P : Params) (init : ℕ → Byte) (s : LSQUnit)

/-- The writes that have reached memory. -/
def sentWrites (k a : ℕ) : Option Byte :=
  (s.stores k).op.writesUpTo P.paddr ((s.stores k).sentBytes P) a

/-- The writes of the stores that have executed. -/
def executedWrites (k a : ℕ) : Option Byte :=
  if (s.stores k).executed then (s.stores k).op.writes P.paddr a else none

/-- What a load sees that has the first `n` stores before it. -/
def seen (n a : ℕ) : Byte := lastWrite (executedWrites P s) init n a

end Views

/-- The queues hold the program, in order. -/
structure Order (P : Params) (prog : ℕ → MemInst) (init : ℕ → Byte) (s : LSQUnit) : Prop where
  load_inst : ∀ p, p < s.loadTail → prog (s.loads p).seqNum = .load (s.loads p).access
  store_inst : ∀ k, k < s.storeTail → prog (s.stores k).seqNum = .store (s.stores k).op
  load_lt : ∀ p, p < s.loadTail → (s.loads p).seqNum < s.inserted
  store_lt : ∀ k, k < s.storeTail → (s.stores k).seqNum < s.inserted
  load_mono : ∀ p q, p < q → q < s.loadTail → (s.loads p).seqNum < (s.loads q).seqNum
  sqIt_le : ∀ p, p < s.loadTail → (s.loads p).sqIt ≤ s.storeTail
  lqIt_le : ∀ k, k < s.storeTail → (s.stores k).lqIt ≤ s.loadTail
  older_iff : ∀ p k, p < s.loadTail → k < s.storeTail →
    (k < (s.loads p).sqIt ↔ (s.stores k).seqNum < (s.loads p).seqNum)
  younger_iff : ∀ p k, p < s.loadTail → k < s.storeTail →
    ((s.stores k).lqIt ≤ p ↔ (s.stores k).seqNum < (s.loads p).seqNum)
  value_eq : ∀ p, p < s.loadTail → ∀ a, programValue P.paddr prog init (s.loads p).seqNum a
    = lastWrite (fun k => (s.stores k).op.writes P.paddr) init (s.loads p).sqIt a
  value_all : ∀ a, programValue P.paddr prog init s.inserted a
    = lastWrite (fun k => (s.stores k).op.writes P.paddr) init s.storeTail a

/-- The stores, and memory. -/
structure StoresOk (P : Params) (init : ℕ → Byte) (s : LSQUnit) : Prop where
  ok : ∀ k, k < s.storeTail → StoreOk P (s.stores k)
  wb_le : s.storeWBIt ≤ s.storeTail
  sent : ∀ k, k < s.storeWBIt →
    sentPackets (s.stores k).request = (P.packets (s.stores k).op.toAccess).length
  waiting : ∀ k, s.storeWBIt < k → k < s.storeTail → (s.stores k).committed = false
  /-- A store is blocked if some of its packets could not be sent. -/
  blocked : s.isStoreBlocked = true →
    s.storeWBIt < s.storeTail ∧ (s.stores s.storeWBIt).committed = true
      ∧ sentPackets (s.stores s.storeWBIt).request
        < (P.packets (s.stores s.storeWBIt).op.toAccess).length
  /-- A store commits after the loads before it. -/
  loads_executed : ∀ k p, k < s.storeTail → p < s.loadTail → (s.stores k).canWB = true →
    (s.loads p).sqIt ≤ k → (s.loads p).executed = true
  memory_eq : ∀ a, s.memory a = lastWrite (sentWrites P s) init s.storeTail a

/-- The loads; `caught p` if an older store came too late for load `p`. -/
structure LoadsOk (P : Params) (init : ℕ → Byte) (caught : ℕ → Prop) (s : LSQUnit) : Prop where
  ok : ∀ p, p < s.loadTail → LoadOk P (seen P init s (s.loads p).sqIt) (caught p) (s.loads p)
  head_le : s.loadHead ≤ s.loadTail
  popped : ∀ p, p < s.loadHead → (s.loads p).executed = true

structure Inv (P : Params) (prog : ℕ → MemInst) (init : ℕ → Byte) (caught : ℕ → Prop)
    (s : LSQUnit) : Prop where
  order : Order P prog init s
  stores : StoresOk P init s
  loads : LoadsOk P init caught s

theorem LoadOk.mono {P : Params} {seen : ℕ → Byte} {c c' : Prop} {l : LoadInst}
    (h : LoadOk P seen c l) (hc : c → c') : LoadOk P seen c' l :=
  { h with
    got := fun hn => h.got (fun hc' => hn (hc hc'))
    result_eq := fun hn => h.result_eq (fun hc' => hn (hc hc')) }

/-! ## Steps that keep the program -/

/-- The unit without what the invariant does not read. -/
def LSQUnit.view (s : LSQUnit) : LSQUnit :=
  { s with
    storeHead := 0, storesToWB := 0, stalled := false, stallingStoreIsn := 0
    stallingLoadIdx := 0, storeInFlight := false, memDepViolator := none, answers := [] }

/-- Two states with the same instructions in the queues. -/
structure SameProgram (s s' : LSQUnit) : Prop where
  loads : ∀ p, (s'.loads p).seqNum = (s.loads p).seqNum ∧ (s'.loads p).access = (s.loads p).access
    ∧ (s'.loads p).sqIt = (s.loads p).sqIt
  stores : ∀ k, (s'.stores k).seqNum = (s.stores k).seqNum ∧ (s'.stores k).op = (s.stores k).op
    ∧ (s'.stores k).lqIt = (s.stores k).lqIt
  loadTail : s'.loadTail = s.loadTail
  storeTail : s'.storeTail = s.storeTail
  inserted : s'.inserted = s.inserted

namespace SameProgram

variable {s s' s'' : LSQUnit}

theorem refl (s : LSQUnit) : SameProgram s s :=
  ⟨fun _ => ⟨rfl, rfl, rfl⟩, fun _ => ⟨rfl, rfl, rfl⟩, rfl, rfl, rfl⟩

theorem trans (h : SameProgram s s') (h' : SameProgram s' s'') : SameProgram s s'' where
  loads p := by
    obtain ⟨h1, h2, h3⟩ := h.loads p
    obtain ⟨h1', h2', h3'⟩ := h'.loads p
    exact ⟨h1'.trans h1, h2'.trans h2, h3'.trans h3⟩
  stores k := by
    obtain ⟨h1, h2, h3⟩ := h.stores k
    obtain ⟨h1', h2', h3'⟩ := h'.stores k
    exact ⟨h1'.trans h1, h2'.trans h2, h3'.trans h3⟩
  loadTail := h'.loadTail.trans h.loadTail
  storeTail := h'.storeTail.trans h.storeTail
  inserted := h'.inserted.trans h.inserted

theorem setLoad {p : ℕ} {l : LoadInst} (h : l.seqNum = (s.loads p).seqNum
    ∧ l.access = (s.loads p).access ∧ l.sqIt = (s.loads p).sqIt) :
    SameProgram s (s.setLoad p l) where
  loads q := by
    rw [LSQUnit.setLoad_apply]
    split_ifs with hq
    · exact hq ▸ h
    · exact ⟨rfl, rfl, rfl⟩
  stores k := ⟨rfl, rfl, rfl⟩
  loadTail := rfl
  storeTail := rfl
  inserted := rfl

theorem setStore {k : ℕ} {st : StoreInst} (h : st.seqNum = (s.stores k).seqNum
    ∧ st.op = (s.stores k).op ∧ st.lqIt = (s.stores k).lqIt) :
    SameProgram s (s.setStore k st) where
  loads p := ⟨rfl, rfl, rfl⟩
  stores j := by
    rw [LSQUnit.setStore_apply]
    split_ifs with hj
    · exact hj ▸ h
    · exact ⟨rfl, rfl, rfl⟩
  loadTail := rfl
  storeTail := rfl
  inserted := rfl

theorem of_view (hv : s'.view = s.view) : SameProgram s s' := by
  have h : SameProgram s s'.view := by
    rw [hv]
    exact { refl s with }
  exact { h with }

end SameProgram

variable {P : Params} {prog : ℕ → MemInst} {init : ℕ → Byte} {caught : ℕ → Prop}
variable {s s' : LSQUnit}

theorem Order.of_same (h : Order P prog init s) (hs : SameProgram s s') :
    Order P prog init s' := by
  have hloads := hs.loads
  have hstores := hs.stores
  constructor
  all_goals simp only [hloads, hstores, hs.loadTail, hs.storeTail, hs.inserted]
  · exact h.load_inst
  · exact h.store_inst
  · exact h.load_lt
  · exact h.store_lt
  · exact h.load_mono
  · exact h.sqIt_le
  · exact h.lqIt_le
  · exact h.older_iff
  · exact h.younger_iff
  · exact h.value_eq
  · exact h.value_all

/-- No synonyms, for the instructions in the queues. -/
theorem Order.inj (h : Order P prog init s) (hsyn : NoSynonyms P.paddr prog) {p k b i : ℕ}
    (hp : p < s.loadTail) (hk : k < s.storeTail) (hb : (s.loads p).access.Touches b)
    (hi : i < (s.stores k).op.size)
    (heq : P.paddr ((s.stores k).op.addr + i) = P.paddr b) : (s.stores k).op.addr + i = b := by
  refine hsyn (s.stores k).seqNum (s.loads p).seqNum _ _ ?_ ?_ heq
  · rw [h.store_inst k hk]
    exact ⟨Nat.le_add_right _ _, Nat.add_lt_add_left hi _⟩
  · rw [h.load_inst p hp]
    exact hb

theorem Order.writes_eq_none (h : Order P prog init s) (hsyn : NoSynonyms P.paddr prog)
    {p k b c : ℕ} (hp : p < s.loadTail) (hk : k < s.storeTail)
    (hb : (s.loads p).access.Touches b) (hc : c ≤ (s.stores k).op.size)
    (hapart : ¬ (s.stores k).op.toAccess.Overlaps (s.loads p).access) :
    (s.stores k).op.writesUpTo P.paddr c (P.paddr b) = none :=
  StoreOp.writes_eq_none hb hc (fun _ hi heq => h.inj hsyn hp hk hb hi heq) hapart

end Lsq

end Bindu.O3
