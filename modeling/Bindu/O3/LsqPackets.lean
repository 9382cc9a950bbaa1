/-
The packets of an access.

An access is cut into requests at the cache lines, and each request is one packet. The packets
together are the bytes of the access, in order, and the bytes of one packet lie next to each
other in memory. So the bytes that the first packets carry are the first bytes of the access,
and `bytesSent` counts them.
-/
import Bindu.Lib.Blocks
import Bindu.O3.LsqUnit

open Bindu.Lib List Nat

namespace Bindu.O3

namespace Lsq

namespace Params

variable (P : Params)

theorem cacheLineSize_pos : 0 < P.cacheLineSize := Nat.two_pow_pos _

theorem wholeBlocks_cut {e : ℕ} {tail : List (ℕ × ℕ)} (n q : ℕ) (he : (q + n) * P.cacheLineSize ≤ e)
    (htail : Cut P.cacheLineSize e ((q + n) * P.cacheLineSize) tail) :
    Cut P.cacheLineSize e (q * P.cacheLineSize)
      (P.wholeBlocks n (q * P.cacheLineSize) ++ tail) := by
  induction n generalizing q with
  | zero => exact htail
  | succ n ih =>
    have hL := P.cacheLineSize_pos
    have hnext : q * P.cacheLineSize + P.cacheLineSize = (q + 1) * P.cacheLineSize := by ring
    have hend : blockEnd P.cacheLineSize (q * P.cacheLineSize) = (q + 1) * P.cacheLineSize := by
      rw [blockEnd, Nat.mul_div_cancel q hL]
    rw [show q + (n + 1) = q + 1 + n by omega] at he htail
    have hle : (q + 1) * P.cacheLineSize ≤ e :=
      le_trans (Nat.mul_le_mul_right _ (Nat.le_add_right (q + 1) n)) he
    have hcut := Cut.cons (e := e) (x := q * P.cacheLineSize) (by omega)
      (by rw [hend]; exact ih (q + 1) he htail)
    rw [hend, min_eq_left hle, ← hnext, Nat.add_sub_cancel_left] at hcut
    rw [wholeBlocks, cons_append]
    exact hcut

theorem tail_cut {x e : ℕ} (hx : x ≤ e / P.cacheLineSize * P.cacheLineSize) :
    Cut P.cacheLineSize e (e / P.cacheLineSize * P.cacheLineSize)
      (if e / P.cacheLineSize * P.cacheLineSize - x < e - x then
        [(e / P.cacheLineSize * P.cacheLineSize,
          e - x - (e / P.cacheLineSize * P.cacheLineSize - x))]
      else []) := by
  have hL := P.cacheLineSize_pos
  by_cases hmore : e / P.cacheLineSize * P.cacheLineSize - x < e - x
  · rw [if_pos hmore]
    have hend : blockEnd P.cacheLineSize (e / P.cacheLineSize * P.cacheLineSize)
        = blockEnd P.cacheLineSize e := by
      rw [blockEnd, blockEnd, Nat.mul_div_cancel _ hL]
    have hlt := lt_blockEnd hL e
    have hcut := Cut.cons (B := P.cacheLineSize) (e := e)
      (x := e / P.cacheLineSize * P.cacheLineSize) (by omega) (Cut.nil (by omega))
    rw [hend, min_eq_right hlt.le] at hcut
    rw [show e - x - (e / P.cacheLineSize * P.cacheLineSize - x)
      = e - e / P.cacheLineSize * P.cacheLineSize by omega]
    exact hcut
  · rw [if_neg hmore]
    exact Cut.nil (by omega)

variable {a : Access}

/-- An access that crosses a boundary is cut into its part before the first boundary, whole
lines, and what lies after the last one. -/
theorem splitRequests_cut (hlong : P.cacheLineSize < a.addr % P.cacheLineSize + a.size) :
    Cut P.cacheLineSize (a.addr + a.size) a.addr (P.splitRequests a) := by
  have hL := P.cacheLineSize_pos
  have hlt := lt_blockEnd hL a.addr
  have hnext : P.addrBlockAlign (a.addr + P.cacheLineSize)
      = (a.addr / P.cacheLineSize + 1) * P.cacheLineSize := by
    rw [addrBlockAlign, add_div_right _ hL]
  -- the last boundary is not before the first one, but `n` lines after it
  have hle : a.addr / P.cacheLineSize + 1 ≤ (a.addr + a.size) / P.cacheLineSize := by
    have hdiv := div_add_mod a.addr P.cacheLineSize
    rw [Nat.le_div_iff_mul_le hL, Nat.add_mul, Nat.one_mul, Nat.mul_comm]
    omega
  obtain ⟨n, hn⟩ := Nat.exists_eq_add_of_le hle
  have hfinal := Nat.div_mul_le_self (a.addr + a.size) P.cacheLineSize
  have hlines := Nat.add_mul (a.addr / P.cacheLineSize + 1) n P.cacheLineSize
  have hfirst : (a.addr / P.cacheLineSize + 1) * P.cacheLineSize
      = blockEnd P.cacheLineSize a.addr := rfl
  have htail := P.tail_cut (x := a.addr) (by rw [hn]; omega)
  rw [Nat.add_sub_cancel_left, hn] at htail
  rw [hn] at hfinal
  have hrest := P.wholeBlocks_cut n (a.addr / P.cacheLineSize + 1) hfinal htail
  have hcut := Cut.cons (x := a.addr) (by omega) hrest
  rw [min_eq_left (by omega)] at hcut
  have hblocks : (P.addrBlockAlign (a.addr + a.size)
      - P.addrBlockAlign (a.addr + P.cacheLineSize)) / P.cacheLineSize = n := by
    rw [hnext, addrBlockAlign, hn, hlines, Nat.add_sub_cancel_left, Nat.mul_div_cancel n hL]
  have hsofar : (a.addr / P.cacheLineSize + 1) * P.cacheLineSize - a.addr + n * P.cacheLineSize
      = (a.addr / P.cacheLineSize + 1 + n) * P.cacheLineSize - a.addr := by
    omega
  simp only [splitRequests, hblocks]
  rw [hnext, hsofar, addrBlockAlign, hn]
  exact hcut

/-- **The requests of an access are the access, cut at the cache lines.** -/
theorem requests_cut (a : Access) :
    Cut P.cacheLineSize (a.addr + a.size) a.addr (P.requests a) := by
  unfold requests
  by_cases hburst : P.transferNeedsBurst a.addr a.size = true
  · rw [if_pos hburst]
    exact P.splitRequests_cut (of_decide_eq_true hburst)
  · rw [if_neg hburst]
    have hshort : a.addr % P.cacheLineSize + a.size ≤ P.cacheLineSize :=
      Nat.le_of_not_lt (fun h => hburst (decide_eq_true h))
    have hpos := a.size_pos
    have hdiv := Nat.div_add_mod a.addr P.cacheLineSize
    have hend : blockEnd P.cacheLineSize a.addr
        = P.cacheLineSize * (a.addr / P.cacheLineSize) + P.cacheLineSize := by
      rw [blockEnd]; ring
    have hcut := Cut.cons (B := P.cacheLineSize) (e := a.addr + a.size) (x := a.addr)
      (by omega) (Cut.nil (by omega))
    rw [min_eq_right (by omega), Nat.add_sub_cancel_left] at hcut
    exact hcut

/-- `c` bytes of the access come before the packets `l`, which carry the others up to `e`. -/
def Carry (addr : ℕ) : ℕ → ℕ → List Packet → Prop
  | c, e, [] => c = e
  | c, e, pkt :: rest =>
    pkt.offset = c ∧ (∀ i, i < pkt.size → pkt.paddr + i = P.paddr (addr + c + i))
      ∧ Carry addr (c + pkt.size) e rest

/-- The bytes of a piece lie next to each other, since it is in one cache line. -/
theorem paddr_piece {x n i : ℕ} (hn : x + n ≤ blockEnd P.cacheLineSize x) (hi : i < n) :
    P.paddr x + i = P.paddr (x + i) := by
  symm
  apply P.paddr_add
  have hdiv := div_add_mod x P.cacheLineSize
  have hend : blockEnd P.cacheLineSize x
      = P.cacheLineSize * (x / P.cacheLineSize) + P.cacheLineSize := by
    rw [blockEnd]; ring
  have h : x % P.cacheLineSize + i < P.cacheLineSize := by omega
  exact h

theorem buildPackets_carry {addr size c x : ℕ} {l : List (ℕ × ℕ)} (hx : x = addr + c)
    (hle : c ≤ size) (h : Cut P.cacheLineSize (addr + size) x l) :
    P.Carry addr c size (P.buildPackets c l) := by
  induction h generalizing c with
  | nil hend =>
    rw [buildPackets, Carry]
    omega
  | @cons x rest hlt hrest ih =>
    have hL := lt_blockEnd P.cacheLineSize_pos x
    rw [buildPackets, Carry]
    refine ⟨rfl, ?_, ?_⟩
    · intro i hi
      have hpiece := P.paddr_piece (x := x)
        (n := min (blockEnd P.cacheLineSize x) (addr + size) - x) (by omega) hi
      rw [← hx]
      exact hpiece
    · by_cases hend : addr + size ≤ blockEnd P.cacheLineSize x
      · -- the last packet: nothing is left to cut
        rw [min_eq_right hend]
        have hnil : rest = [] := by
          cases hrest with
          | nil => rfl
          | cons hlt' => exact absurd hend (not_le.mpr hlt')
        rw [hnil, buildPackets, Carry]
        dsimp only
        omega
      · rw [min_eq_left (Nat.le_of_not_le hend)]
        exact ih (by dsimp only; omega) (by dsimp only; omega)

/-- **The packets of an access carry its bytes.** -/
theorem packets_carry (a : Access) : P.Carry a.addr 0 a.size (P.packets a) :=
  P.buildPackets_carry rfl (zero_le _) (P.requests_cut a)

theorem packets_ne_nil (a : Access) : P.packets a ≠ [] := by
  intro h
  have hcarry := P.packets_carry a
  rw [h, Carry] at hcarry
  have hpos := a.size_pos
  omega

/-- How many bytes the first `n` packets of an access carry. -/
def bytesSent (a : Access) (n : ℕ) : ℕ := (((P.packets a).take n).map Packet.size).sum

@[simp] theorem bytesSent_zero (a : Access) : P.bytesSent a 0 = 0 := rfl

theorem Carry.sum {addr c e : ℕ} {l : List Packet} (h : P.Carry addr c e l) :
    c + (l.map Packet.size).sum = e := by
  induction l generalizing c with
  | nil => rw [Carry] at h; rw [map_nil, sum_nil, add_zero, h]
  | cons pkt rest ih =>
    rw [map_cons, sum_cons, ← add_assoc]
    exact ih h.2.2

theorem bytesSent_length (a : Access) : P.bytesSent a (P.packets a).length = a.size := by
  have h := Carry.sum P (P.packets_carry a)
  rw [bytesSent, take_length]
  omega

theorem Carry.drop {addr c e : ℕ} {l : List Packet} (n : ℕ) (h : P.Carry addr c e l) :
    P.Carry addr (c + ((l.take n).map Packet.size).sum) e (l.drop n) := by
  induction n generalizing c l with
  | zero => exact h
  | succ n ih =>
    cases l with
    | nil => exact h
    | cons pkt rest =>
      rw [take_succ_cons, map_cons, sum_cons, ← add_assoc, drop_succ_cons]
      exact ih h.2.2

theorem drop_carry (a : Access) (n : ℕ) :
    P.Carry a.addr (P.bytesSent a n) a.size ((P.packets a).drop n) := by
  have h := Carry.drop P n (P.packets_carry a)
  rw [zero_add] at h
  exact h

variable {rest : List Packet} {pkt : Packet}

theorem next_packet {n : ℕ} (h : (P.packets a).drop n = pkt :: rest) :
    pkt.offset = P.bytesSent a n
      ∧ (∀ i < pkt.size, pkt.paddr + i = P.paddr (a.addr + P.bytesSent a n + i))
      ∧ P.bytesSent a n + pkt.size ≤ a.size := by
  have hcarry := P.drop_carry a n
  rw [h] at hcarry
  obtain ⟨hoff, haddr, hrest⟩ := hcarry
  have hsum := Carry.sum P hrest
  exact ⟨hoff, haddr, by omega⟩

theorem lt_length_of_drop {n : ℕ}
    (h : (P.packets a).drop n = pkt :: rest) : n < (P.packets a).length := by
  by_contra hge
  rw [drop_eq_nil_of_le (Nat.le_of_not_lt hge)] at h
  cases h

theorem drop_succ {n : ℕ}
    (h : (P.packets a).drop n = pkt :: rest) : (P.packets a).drop (n + 1) = rest := by
  rw [← tail_drop, h, tail_cons]

theorem bytesSent_succ {n : ℕ} (h : (P.packets a).drop n = pkt :: rest) :
    P.bytesSent a (n + 1) = P.bytesSent a n + pkt.size := by
  have hlt := P.lt_length_of_drop h
  have hget : (P.packets a)[n] = pkt := by
    rw [drop_eq_getElem_cons hlt, cons.injEq] at h
    exact h.1
  rw [bytesSent, bytesSent, take_succ_eq_append_getElem hlt, hget, map_append,
    sum_append_nat, map_singleton, sum_singleton]

theorem bytesSent_mono (a : Access) {n m : ℕ} (h : n ≤ m) :
    P.bytesSent a n ≤ P.bytesSent a m := by
  unfold bytesSent
  exact ((take_sublist_take_left h).map Packet.size).sum_le_sum (fun _ _ => zero_le _)

theorem bytesSent_le (a : Access) (n : ℕ) : P.bytesSent a n ≤ a.size := by
  have h := Carry.sum P (P.drop_carry a n)
  omega

end Params

end Lsq

end Bindu.O3
