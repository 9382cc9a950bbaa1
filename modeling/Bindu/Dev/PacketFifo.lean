import Mathlib.Data.List.Basic
import Bindu.Lib.Fallible

/-!
# The packet FIFO of the Ethernet devices

`dev/net/pktfifo.{hh,cc}`: a list of packets with the number of bytes it holds. `copyout` reads
`len` bytes at `offset` of the queued stream without removing anything. It binds the packet it
reads from when a round of its outer loop begins; the inner loop that skips packets moves the
iterator and leaves that binding where it is, and `memcpy` starts at the first byte of the
packet whatever the offset in it.

Not modelled: `_counter`, `number` and `priv`, which neither of the three functions reads back,
and `remove`, the only writer of a slack other than zero.
-/

namespace Bindu.Dev

open Lib

/-- The packet is its `data`, of `length` bytes. -/
structure PacketFifoEntry where
  packet : List UInt8
  slack : ℕ := 0

/-- A FIFO as `push` and `pop` leave it: the sizes are `unsigned`, and what is held and reserved
fits `_maxsize`, so that `avail` never wraps. -/
structure PacketFifo where
  fifo : List PacketFifoEntry
  _maxsize : ℕ
  _size : ℕ
  _reserved : ℕ
  packet_ne : ∀ e ∈ fifo, e.packet ≠ []
  slack_eq : ∀ e ∈ fifo, e.slack = 0
  size_eq : _size = (fifo.flatMap (·.packet)).length
  fits : _size + _reserved ≤ _maxsize
  maxsize_lt : _maxsize < 2 ^ 32

inductive FifoFault
  | no_length
  | over_reserved
  /-- The iterator is used at or past `fifo.end()`: undefined, or the panic "invalid fifo". -/
  | past_end
  deriving DecidableEq

namespace PacketFifo

/-- The bytes queued, in order. -/
def stream (f : PacketFifo) : List UInt8 := f.fifo.flatMap (·.packet)

/-- `PacketFifo(int max)`. -/
def new (max : Fin (2 ^ 32)) : PacketFifo where
  fifo := []
  _maxsize := max
  _size := 0
  _reserved := 0
  packet_ne := by simp
  slack_eq := by simp
  size_eq := rfl
  fits := by simp
  maxsize_lt := max.isLt

def avail (f : PacketFifo) : ℕ := f._maxsize - f._size - f._reserved

def push (f : PacketFifo) (ptr : List UInt8) : Except FifoFault (Bool × PacketFifo) :=
  if hlen : ptr = [] then throw .no_length
  else if ptr.length < f._reserved then throw .over_reserved
  else if hfull : f.avail < ptr.length - f._reserved then pure (false, f)
  else pure (true,
    { fifo := f.fifo ++ [{ packet := ptr }]
      _maxsize := f._maxsize
      _size := f._size + ptr.length
      _reserved := 0
      packet_ne := by simpa [or_imp, forall_and] using ⟨f.packet_ne, hlen⟩
      slack_eq := by simpa [or_imp, forall_and] using f.slack_eq
      size_eq := by simp [f.size_eq, List.flatMap_append]
      fits := by
        have := f.fits
        unfold avail at hfull
        omega
      maxsize_lt := f.maxsize_lt })

def pop (f : PacketFifo) : PacketFifo :=
  if f._size = 0 then f
  else match h : f.fifo with
  | [] => f
  | entry :: rest =>
    { fifo := rest
      _maxsize := f._maxsize
      _size := f._size - entry.packet.length - entry.slack
      _reserved := f._reserved
      packet_ne := fun e he => f.packet_ne e (by simp [h, he])
      slack_eq := fun e he => f.slack_eq e (by simp [h, he])
      size_eq := by
        have hs := f.slack_eq entry (by simp [h])
        simp [f.size_eq, h, hs]
      fits := by have := f.fits; omega
      maxsize_lt := f.maxsize_lt }

/-- The two loops of `copyout` over the entries from the iterator on. `pkt` is the packet that
the round is bound to; `none` where a new round is about to bind the one at the iterator. -/
def copyLoop : List PacketFifoEntry → Option (List UInt8) → ℕ → ℕ → Except FifoFault (List UInt8)
  | [], _, _, len => if len = 0 then pure [] else throw .past_end
  | entry :: rest, pkt, offset, len =>
    if len = 0 then pure []
    else
      let bound := pkt.getD entry.packet
      if bound.length ≤ offset then
        -- the inner loop: `++i`, and the same packet is tested again
        copyLoop rest (some bound) (offset - bound.length) len
      else do
        let size := min (bound.length - offset) len
        return bound.take size ++ (← copyLoop rest none 0 (len - size))

/-- `PacketFifo::copyout`: what it returns and the bytes it writes. The test adds two
`unsigned`. -/
def copyout (f : PacketFifo) (offset len : ℕ) : Except FifoFault (Bool × List UInt8) :=
  if f._size ≤ (offset + len) % 2 ^ 32 then pure (false, [])
  else do return (true, ← copyLoop f.fifo none offset len)

/-! ## Which reads return the stream -/

/-- What a read at `offset` is for: the bytes there when all of them are queued, else nothing. -/
def ReadsStream (f : PacketFifo) (offset len : ℕ) : Prop :=
  f.copyout offset len = .ok
    (if offset + len ≤ f._size then (true, (f.stream.drop offset).take len) else (false, []))

/-- From the start of a packet the rounds copy packet after packet, each from its first byte. -/
theorem copyLoop_start {l : List PacketFifoEntry} (hl : ∀ e ∈ l, e.packet ≠ []) {len : ℕ}
    (h : len ≤ (l.flatMap (·.packet)).length) :
    copyLoop l none 0 len = .ok ((l.flatMap (·.packet)).take len) := by
  induction l generalizing len with
  | nil =>
    obtain rfl : len = 0 := by simpa using h
    rfl
  | cons e l ih =>
    have he : 0 < e.packet.length := List.length_pos_iff.mpr (hl e (by simp))
    have hrest : copyLoop l none 0 (len - e.packet.length) =
        .ok ((l.flatMap (·.packet)).take (len - e.packet.length)) :=
      ih (fun e he => hl e (by simp [he]))
        (by simp only [List.flatMap_cons, List.length_append] at h; omega)
    simp only [copyLoop, Option.getD_none, he.not_ge, if_false]
    split_ifs with h0
    · simp [h0, pure, Except.pure]
    · simp only [Nat.sub_zero, List.flatMap_cons, List.take_append]
      rcases Nat.le_total e.packet.length len with hle | hle
      · rw [Nat.min_eq_left hle, hrest, List.take_of_length_le hle, List.take_length]
        rfl
      · rw [Nat.min_eq_right hle, Nat.sub_self, Nat.sub_eq_zero_of_le hle] at *
        rw [hrest]
        rfl

/-- Whatever is skipped, the first byte written is the first byte of the packet the round was
bound to. -/
theorem head_copyLoop {l : List PacketFifoEntry} {p : List UInt8} {offset len : ℕ}
    {out : List UInt8} (hlen : len ≠ 0) (h : copyLoop l (some p) offset len = .ok out) :
    out.head? = p.head? := by
  induction l generalizing offset with
  | nil => simp [copyLoop, hlen, throw, throwThe, MonadExceptOf.throw] at h
  | cons e l ih =>
    simp only [copyLoop, hlen, if_false, Option.getD_some] at h
    split_ifs at h with hskip
    · exact ih h
    · obtain ⟨bytes, -, hout⟩ := bind_eq_ok.mp h
      obtain rfl := Except.ok.inj hout
      obtain ⟨k, hk⟩ : ∃ k, min (p.length - offset) len = k + 1 :=
        Nat.exists_eq_succ_of_ne_zero (by omega)
      cases p with
      | nil => simp at hskip
      | cons b p => rw [hk, List.take_succ_cons, List.cons_append, List.head?_cons, List.head?_cons]

/-- Binding the first packet is what the first round does. -/
theorem copyLoop_bind (e : PacketFifoEntry) (l : List PacketFifoEntry) (offset len : ℕ) :
    copyLoop (e :: l) none offset len = copyLoop (e :: l) (some e.packet) offset len := by
  simp [copyLoop]

theorem stream_length (f : PacketFifo) : f.stream.length = f._size := f.size_eq.symm

theorem size_lt (f : PacketFifo) : f._size < 2 ^ 32 := by
  have := f.fits
  have := f.maxsize_lt
  omega

theorem size_of_lengths {f g : PacketFifo}
    (h : g.fifo.map (·.packet.length) = f.fifo.map (·.packet.length)) : g._size = f._size := by
  rw [g.size_eq, f.size_eq, List.length_flatMap, List.length_flatMap, h]

/-- The FIFO with the same packet lengths whose first queued byte is one and every other zero. -/
def marked (f : PacketFifo) : PacketFifo where
  fifo := match f.fifo with
    | [] => []
    | e :: l => { e with packet := 1 :: List.replicate (e.packet.length - 1) 0 } ::
        l.map fun e => { e with packet := List.replicate e.packet.length 0 }
  _maxsize := f._maxsize
  _size := f._size
  _reserved := f._reserved
  packet_ne := by
    have := f.packet_ne
    cases h : f.fifo <;> simp_all
  slack_eq := by
    have := f.slack_eq
    cases h : f.fifo <;> simp_all
  size_eq := by
    have := f.packet_ne
    have := f.size_eq
    cases h : f.fifo with
    | nil => simp_all
    | cons e l =>
      have he : 0 < e.packet.length := List.length_pos_iff.mpr (by simp_all)
      simp_all [List.length_flatMap, Function.comp_def]
      omega
  fits := f.fits
  maxsize_lt := f.maxsize_lt

theorem lengths_marked (f : PacketFifo) :
    f.marked.fifo.map (·.packet.length) = f.fifo.map (·.packet.length) := by
  have hne := f.packet_ne
  cases hf : f.fifo with
  | nil => simp [marked, hf]
  | cons e l =>
    have he : 0 < e.packet.length := List.length_pos_iff.mpr (hne e (by simp [hf]))
    simp [marked, hf, Nat.sub_add_cancel he, Function.comp_def]

theorem head_marked {f : PacketFifo} {offset len : ℕ} {out : List UInt8} (hlen : len ≠ 0)
    (h : copyLoop f.marked.fifo none offset len = .ok out) : out.head? = some 1 := by
  cases hf : f.fifo with
  | nil => simp [marked, hf, copyLoop, hlen, throw, throwThe, MonadExceptOf.throw] at h
  | cons e l =>
    simp only [marked, hf, copyLoop_bind] at h
    simpa using head_copyLoop hlen h

theorem stream_marked {f : PacketFifo} {k : ℕ} (hk : 0 < k) :
    f.marked.stream[k]? ≠ some 1 := by
  intro h
  cases hf : f.fifo with
  | nil => simp [stream, marked, hf] at h
  | cons e l =>
    obtain ⟨k, rfl⟩ := Nat.exists_eq_succ_of_ne_zero hk.ne'
    simp only [stream, marked, hf, List.flatMap_cons, List.cons_append,
      List.getElem?_cons_succ] at h
    have hmem := List.mem_of_getElem? h
    simp [List.mem_replicate] at hmem

/-- **`copyout` returns the stream only from its start, and not up to its end.** Over all the
bytes the packets can hold, a read of queued bytes is right exactly when it ends before the last
queued byte does and starts at the first byte (or reads none); a read beyond the end is refused
exactly when the sum of the two `unsigned` does not wrap below the size. -/
theorem copyout_reads_stream_iff (f : PacketFifo) (offset len : Fin (2 ^ 32)) :
    (∀ g : PacketFifo, g.fifo.map (·.packet.length) = f.fifo.map (·.packet.length) →
      g.ReadsStream offset len) ↔
    if offset.val + len ≤ f._size then offset.val + len < f._size ∧ (offset.val = 0 ∨ len.val = 0)
    else offset.val + len < 2 ^ 32 ∨ f._size + 2 ^ 32 ≤ offset.val + len := by
  obtain ⟨offset, ho⟩ := offset
  obtain ⟨len, hl⟩ := len
  have hf := f.size_lt
  dsimp only
  constructor
  · intro h
    have hread := h f.marked f.lengths_marked
    simp only [ReadsStream, copyout, size_of_lengths f.lengths_marked] at hread
    split_ifs at hread ⊢ with hin hend hend
    · cases hread
    · refine ⟨by omega, ?_⟩
      by_contra hne
      obtain ⟨out, hout, heq⟩ := bind_eq_ok.mp hread
      obtain rfl := (Prod.mk.inj (Except.ok.inj heq)).2
      have hhead := head_marked (by omega) hout
      rw [List.head?_take, if_neg (by omega), List.head?_drop] at hhead
      exact stream_marked (by omega) hhead
    · omega
    · obtain ⟨out, -, heq⟩ := bind_eq_ok.mp hread
      cases heq
  · intro h g hg
    simp only [ReadsStream, copyout, size_of_lengths hg]
    split_ifs at h ⊢ with hin hend hend
    · omega
    · rfl
    · obtain ⟨hlt, rfl | rfl⟩ := h
      · have hlen : len ≤ g.stream.length := by
          rw [g.stream_length, size_of_lengths hg]
          omega
        rw [copyLoop_start g.packet_ne hlen]
        rfl
      · cases g.fifo <;> rfl
    · omega

/-- A FIFO filled by two pushes. A read that starts inside the first packet copies that packet's
first byte, and the whole stream cannot be read at all. -/
theorem copyout_misreads_two :
    ∃ f g, (new 64).push [1, 2] = .ok (true, f) ∧ f.push [3, 4, 5] = .ok (true, g) ∧
      g.copyout 1 2 = .ok (true, [1, 3]) ∧ ¬ g.ReadsStream 1 2 ∧
      g.copyout 0 5 = .ok (false, []) ∧ ¬ g.ReadsStream 0 5 := by
  refine ⟨_, _, rfl, rfl, rfl, ?_, rfl, ?_⟩ <;> intro h <;> cases h

end PacketFifo

end Bindu.Dev
