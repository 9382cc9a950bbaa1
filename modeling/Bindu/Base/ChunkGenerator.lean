/-
Cutting a region into chunks (`base/chunk_generator.hh`).

The first chunk ends at the next multiple of the chunk size, the others are whole chunks but for
the last one. The constructor finds the first end by rounding up, `next` finds the later ones by
adding; both give the end of the block that the chunk starts in, so the chunks are the pieces of
`Bindu.Lib.Cut`. A chunk size of zero stands for one chunk.

Addresses are 64 bits wide, sizes 32 bits.
-/
import Bindu.Lib.Blocks
import Bindu.Lib.Fallible

open Bindu.Lib Nat List

namespace Bindu.Base

/-- `isPowerOf2`, on sizes. -/
def isPowerOf2 (n : ℕ) : Bool := n != 0 && n &&& (2 ^ 32 - 1 - (n - 1)) == n

/-- `roundUp`, on addresses. -/
def roundUp (val align : ℕ) : ℕ :=
  (val + (align - 1)) % 2 ^ 64 &&& (2 ^ 64 - 1 - (align - 1))

structure ChunkGenerator where
  curAddr : ℕ
  nextAddr : ℕ
  curSize : ℕ
  sizeLeft : ℕ
  startAddr : ℕ
  chunkSize : ℕ
  deriving DecidableEq, Repr

namespace ChunkGenerator

/-- The assertion of the constructor. -/
inductive Fault where
  | not_power_of_two
  deriving DecidableEq, Repr

/-- `nextAddr` as the constructor sets it. -/
def firstEnd (startAddr totalSize chunkSize : ℕ) : ℕ :=
  if chunkSize = 0 then
    (startAddr + totalSize) % 2 ^ 64
  else if startAddr = roundUp startAddr chunkSize then
    (roundUp startAddr chunkSize + chunkSize) % 2 ^ 64
  else
    roundUp startAddr chunkSize

/-- The generator at its first chunk. -/
def first (startAddr totalSize chunkSize : ℕ) : ChunkGenerator :=
  let nextAddr := firstEnd startAddr totalSize chunkSize
  let left_in_chunk := (nextAddr + 2 ^ 64 - startAddr) % 2 ^ 64 % 2 ^ 32
  let curSize := min totalSize left_in_chunk
  let sizeLeft := totalSize - curSize
  { curAddr := startAddr, nextAddr, curSize, sizeLeft, startAddr, chunkSize }

/-- The constructor. -/
def new (startAddr totalSize chunkSize : ℕ) : Except Fault ChunkGenerator := do
  require (chunkSize == 0 || isPowerOf2 chunkSize) .not_power_of_two
  pure (first startAddr totalSize chunkSize)

variable (g : ChunkGenerator)

def addr : ℕ := g.curAddr

def size : ℕ := g.curSize

def complete : ℕ := (g.curAddr + 2 ^ 64 - g.startAddr) % 2 ^ 64 % 2 ^ 32

def done : Bool := g.curSize == 0

def last : Bool := g.sizeLeft == 0

def next : ChunkGenerator × Bool :=
  if g.sizeLeft = 0 then
    ({ g with curSize := 0 }, false)
  else
    let curSize := min g.sizeLeft g.chunkSize
    ({ g with
        curAddr := g.nextAddr
        curSize := curSize
        sizeLeft := g.sizeLeft - curSize
        nextAddr := (g.nextAddr + curSize) % 2 ^ 64 }, true)

/-- The chunks that the loop `for gen; !gen.done(); gen.next()` visits; `none` if it takes more
than `fuel` tests. -/
def visited : ℕ → ChunkGenerator → Option (List ChunkGenerator)
  | 0, _ => none
  | fuel + 1, g => if g.done then some [] else (visited fuel g.next.1).map (g :: ·)

/-! ## The first chunk -/

variable {start k : ℕ}

theorem two_pow_eq (hk : k < 32) : 2 ^ 64 = 2 ^ (64 - k) * 2 ^ k := by
  rw [← pow_add, Nat.sub_add_cancel (by omega)]

theorem roundUp_eq (hk : k < 32) :
    roundUp start (2 ^ k) = (start + (2 ^ k - 1)) / 2 ^ k * 2 ^ k % 2 ^ 64 := by
  rw [roundUp, and_high (mod_lt _ (by norm_num)) (by omega), shiftLeft_eq, two_pow_eq hk,
    mod_mul_left_div_self, mul_mod_mul_right]

/-- The end of the block of `start`, which may be the end of the address space. -/
theorem blockEnd_le (hstart : start < 2 ^ 64) (hk : k < 32) : blockEnd (2 ^ k) start ≤ 2 ^ 64 := by
  rw [two_pow_eq hk] at hstart ⊢
  exact Nat.mul_le_mul_right _ (Nat.div_lt_of_lt_mul (by rwa [Nat.mul_comm] at hstart))

theorem blockEnd_eq (B x : ℕ) : blockEnd B x = B * (x / B) + B := by
  rw [blockEnd, Nat.add_mul, one_mul, Nat.mul_comm]

theorem firstEnd_eq (total : ℕ) (hstart : start < 2 ^ 64) (hk : k < 32) :
    firstEnd start total (2 ^ k) = blockEnd (2 ^ k) start % 2 ^ 64 := by
  have hpos : 0 < 2 ^ k := by positivity
  have hdiv := div_add_mod start (2 ^ k)
  rw [firstEnd, if_neg hpos.ne', roundUp_eq hk, blockEnd_eq]
  by_cases haligned : start % 2 ^ k = 0
  · -- rounding up gives `start` itself
    have hsum : start + (2 ^ k - 1) = 2 ^ k - 1 + 2 ^ k * (start / 2 ^ k) := by omega
    have hround : (start + (2 ^ k - 1)) / 2 ^ k * 2 ^ k % 2 ^ 64 = start := by
      rw [hsum, add_mul_div_left _ _ hpos, div_eq_of_lt (by omega), zero_add,
        mul_comm, mod_eq_of_lt] <;> omega
    rw [hround, if_pos rfl]
    congr 1
    omega
  · have hsum : start + (2 ^ k - 1) = start % 2 ^ k - 1 + 2 ^ k * (start / 2 ^ k + 1) := by
      rw [mul_add, mul_one]
      omega
    have hround : (start + (2 ^ k - 1)) / 2 ^ k * 2 ^ k = 2 ^ k * (start / 2 ^ k) + 2 ^ k := by
      rw [hsum, add_mul_div_left _ _ hpos, div_eq_of_lt (by omega), zero_add,
        mul_comm, mul_add, mul_one]
    have hend := blockEnd_le hstart hk
    rw [blockEnd_eq] at hend
    rw [hround, if_neg]
    omega

/-! ## The loop -/

/-- The current chunk is the piece of the region up to `e` that starts at `curAddr`. -/
structure Cutting (B e : ℕ) (g : ChunkGenerator) : Prop where
  lt : g.curAddr < e
  size_eq : g.curSize = min (blockEnd B g.curAddr) e - g.curAddr
  left_eq : g.curAddr + g.curSize + g.sizeLeft = e
  more : 0 < g.sizeLeft → g.chunkSize = B ∧ g.nextAddr = blockEnd B g.curAddr

variable {g : ChunkGenerator} {B e : ℕ}

theorem Cutting.next (hB : 0 < B) (h : Cutting B e g) (he : e ≤ 2 ^ 64) (hleft : g.sizeLeft ≠ 0) :
    Cutting B e g.next.1 ∧ g.next.1.curAddr = blockEnd B g.curAddr := by
  have hblock := lt_blockEnd hB g.curAddr
  obtain ⟨hchunk, hnext⟩ := h.more (pos_of_ne_zero hleft)
  have hsize := h.size_eq
  have hsum := h.left_eq
  have hend : blockEnd B (blockEnd B g.curAddr) = blockEnd B g.curAddr + B := by
    rw [blockEnd, blockEnd, Nat.mul_div_cancel _ hB, Nat.succ_mul]
  rw [ChunkGenerator.next, if_neg hleft]
  refine ⟨⟨?_, ?_, ?_, ?_⟩, hnext⟩
  · dsimp only
    omega
  · dsimp only
    rw [hnext, hend, hchunk]
    omega
  · dsimp only
    rw [hnext]
    omega
  · dsimp only
    intro hmore
    rw [hnext, hend]
    rw [hchunk] at hmore ⊢
    refine ⟨rfl, ?_⟩
    omega

/-- The loop cuts the rest of the region at the blocks. -/
theorem visited_cut (fuel : ℕ) (hB : 0 < B) (he : e ≤ 2 ^ 64) (h : Cutting B e g)
    (hfuel : e - g.curAddr < fuel) :
    ∃ l, visited fuel g = some l ∧ Cut B e g.curAddr (l.map (fun c => (c.addr, c.size)))
      ∧ ∀ c ∈ l, c.startAddr = g.startAddr ∧ g.curAddr ≤ c.curAddr
        ∧ c.curAddr + c.curSize + c.sizeLeft = e := by
  induction fuel generalizing g with
  | zero => exact absurd hfuel (not_lt_zero _)
  | succ fuel ih =>
    have hblock := lt_blockEnd hB g.curAddr
    have hlt := h.lt
    have hsize := h.size_eq
    have hsum := h.left_eq
    have hdone : g.done = false := by
      rw [done, beq_eq_false_iff_ne]
      omega
    simp only [visited, hdone, Bool.false_eq_true, if_false]
    by_cases hleft : g.sizeLeft = 0
    · -- the last chunk; the next test ends the loop
      have hnext : g.next.1.done = true := by rw [next, if_pos hleft]; rfl
      obtain ⟨fuel, rfl⟩ : ∃ n, fuel = n + 1 := ⟨fuel - 1, by omega⟩
      simp only [visited, hnext, if_true, Option.map_some]
      refine ⟨[g], rfl, ?_, ?_⟩
      · rw [map_singleton, addr, size, hsize]
        exact Cut.cons hlt (Cut.nil (by omega))
      · rintro c hc
        rw [mem_singleton.mp hc]
        exact ⟨rfl, le_rfl, hsum⟩
    · obtain ⟨hcut, haddr⟩ := h.next hB he hleft
      obtain ⟨l, hl, hpieces, hall⟩ := ih hcut (by omega)
      rw [haddr] at hpieces
      refine ⟨g :: l, by rw [hl, Option.map_some], ?_, ?_⟩
      · rw [map_cons, addr, size, hsize]
        exact Cut.cons hlt hpieces
      · rintro c hc
        rcases mem_cons.mp hc with rfl | hc
        · exact ⟨rfl, le_rfl, hsum⟩
        · obtain ⟨hstart, hle, hc⟩ := hall c hc
          refine ⟨hstart.trans ?_, by omega, hc⟩
          rw [next, if_neg hleft]

/-- The first chunk, once its size and the start of the next one are known. -/
theorem Cutting.first {total chunk : ℕ} (hpos : 0 < total) (hlt : start < blockEnd B start)
    (hsize : (first start total chunk).curSize = min total (blockEnd B start - start))
    (hmore : blockEnd B start < start + total →
      chunk = B ∧ firstEnd start total chunk = blockEnd B start) :
    Cutting B (start + total) (first start total chunk) := by
  have haddr : (ChunkGenerator.first start total chunk).curAddr = start := rfl
  have hleft : (ChunkGenerator.first start total chunk).sizeLeft
      = total - (ChunkGenerator.first start total chunk).curSize := rfl
  constructor
  · omega
  · rw [hsize, haddr]
    omega
  · omega
  · rw [hleft, hsize]
    exact fun h => hmore (by omega)

/-- The constructor cuts off the first piece; without a chunk size, everything is one piece. -/
theorem first_cutting {start total chunk : ℕ} (hstart : start < 2 ^ 64) (htotal : total < 2 ^ 32)
    (hchunk : chunk = 0 ∨ ∃ k < 32, chunk = 2 ^ k) (hfit : start + total ≤ 2 ^ 64)
    (hpos : 0 < total) :
    ∃ B, 0 < B ∧ (chunk ≠ 0 → B = chunk) ∧ Cutting B (start + total) (first start total chunk) := by
  rcases hchunk with rfl | ⟨k, hk, rfl⟩
  · have hend : blockEnd (start + total + 1) start = start + total + 1 := by
      rw [blockEnd, div_eq_of_lt (by omega), zero_add, one_mul]
    refine ⟨start + total + 1, Nat.succ_pos _, fun h => absurd rfl h, .first hpos ?_ ?_ ?_⟩
    · omega
    · simp only [first, firstEnd, if_true, hend]
      omega
    · omega
  · have hlt := lt_blockEnd (B := 2 ^ k) (by positivity) start
    have hwidth : blockEnd (2 ^ k) start ≤ start + 2 ^ k := by
      rw [blockEnd_eq]
      have := Nat.mul_div_le start (2 ^ k)
      omega
    have hk32 : 2 ^ k < 2 ^ 32 := Nat.pow_lt_pow_right (by norm_num) hk
    refine ⟨2 ^ k, by positivity, fun _ => rfl, .first hpos hlt ?_ fun hmore => ⟨rfl, ?_⟩⟩
    · simp only [first, firstEnd_eq total hstart hk]
      omega
    · exact (firstEnd_eq total hstart hk).trans (mod_eq_of_lt (by omega))

/-- **The chunks tile the region.** The loop ends; the chunks it visits are not empty, cover the
region one after the other and do not cross a multiple of the chunk size; `complete` counts the
bytes before a chunk, and `last` holds at the last one only. -/
theorem chunks_tile_region (start total chunk : ℕ) (hstart : start < 2 ^ 64) (htotal : total < 2 ^ 32)
    (hchunk : chunk = 0 ∨ ∃ k < 32, chunk = 2 ^ k) (hfit : start + total ≤ 2 ^ 64) :
    ∃ g l, new start total chunk = .ok g ∧ visited (total + 1) g = some l ∧ (∀ c ∈ l, 0 < c.size)
      ∧ l.flatMap (fun c => range' c.addr c.size) = range' start total
      ∧ (chunk ≠ 0 → ∀ c ∈ l, (c.addr + c.size - 1) / chunk = c.addr / chunk)
      ∧ ∀ pre c post, l = pre ++ c :: post →
          c.complete = (pre.map size).sum ∧ (c.last = true ↔ post = []) := by
  have hnew : new start total chunk = .ok (first start total chunk) := by
    rcases hchunk with rfl | ⟨k, hk, rfl⟩
    · rfl
    · have hpow : ∀ k < 32, isPowerOf2 (2 ^ k) = true := by decide
      rw [new, hpow k hk, Bool.or_true]
      rfl
  by_cases hpos : total = 0
  · subst hpos
    have hdone : (first start 0 chunk).done = true := by simp [done, first]
    refine ⟨_, [], hnew, by rw [visited, if_pos hdone], by simp, rfl, by simp, ?_⟩
    rintro pre c post hl
    exact absurd hl.symm (append_ne_nil_of_right_ne_nil _ (cons_ne_nil _ _))
  obtain ⟨B, hB, hchunkB, hcutting⟩ :=
    first_cutting hstart htotal hchunk hfit (pos_of_ne_zero hpos)
  obtain ⟨l, hl, hcut, hall⟩ := visited_cut (total + 1) hB hfit hcutting
    (by change start + total - start < total + 1; omega)
  change Cut B (start + total) start _ at hcut
  have hpiece : ∀ c ∈ l, _ := fun c hc => hcut.piece hB (mem_map_of_mem hc)
  refine ⟨_, l, hnew, hl, fun c hc => (hpiece c hc).1, ?_, ?_, ?_⟩
  · have htiles := hcut.tiles hB
    rwa [flatMap_map, Nat.add_sub_cancel_left] at htiles
  · intro hne c hc
    rw [← hchunkB hne]
    exact (hpiece c hc).2
  · rintro pre c post rfl
    rw [map_append, map_cons] at hcut
    obtain ⟨haddr, hle, hlast⟩ := hcut.start_eq hB
    obtain ⟨hstartc, hge, hsum⟩ := hall c (by simp)
    change c.startAddr = start at hstartc
    change c.curAddr = start + _ at haddr
    change c.curAddr + c.curSize = _ ↔ _ at hlast
    rw [map_map] at haddr
    rw [map_eq_nil_iff] at hlast
    refine ⟨?_, ?_⟩
    · rw [complete, hstartc, haddr]
      change _ = (pre.map (Prod.snd ∘ fun c => (c.addr, c.size))).sum
      omega
    · rw [← hlast, last, beq_iff_eq]
      omega

/-- A region whose first chunk is cut short by its alignment and whose last one by its end. -/
theorem chunks_tile_unaligned :
    visited 21 (first 13 20 8) = some
        [⟨13, 16, 3, 17, 13, 8⟩, ⟨16, 24, 8, 9, 13, 8⟩, ⟨24, 32, 8, 1, 13, 8⟩, ⟨32, 33, 1, 0, 13, 8⟩]
      ∧ ∃ g l, new 13 20 8 = .ok g ∧ visited 21 g = some l
        ∧ l.flatMap (fun c => range' c.addr c.size) = range' 13 20 := by
  obtain ⟨g, l, hnew, hl, -, htiles, -⟩ :=
    chunks_tile_region 13 20 8 (by norm_num) (by norm_num) (.inr ⟨3, by norm_num, rfl⟩) (by norm_num)
  exact ⟨by decide +kernel, g, l, hnew, hl, htiles⟩

end ChunkGenerator

end Bindu.Base
