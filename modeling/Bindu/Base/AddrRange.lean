/-
Address ranges: an interval of addresses, of which an interleaved range has only those whose
interleaving bits, possibly hashed with other bits, have the value `intlvMatch`.

Addresses are natural numbers below 2 ^ 64; `size` wraps around as the `uint64_t` of the
source does. The fields that carry proofs are the checks of the constructor and the bounds
without which the shifts in `bits` are undefined.

Source: `base/addr_range.hh`, `bits` of `base/bitfield.hh`.
-/
import Mathlib.Data.Prod.Lex
import Bindu.Lib.Fallible

namespace Bindu.Base

/-- `bits`: the bits of `val` from position `first` down to `last`. -/
def bits (val first last : ℕ) : ℕ := (val >>> last) &&& (2 ^ (first + 1 - last) - 1)

theorem bits_eq (val first last : ℕ) : bits val first last = val / 2 ^ last % 2 ^ (first + 1 - last) := by
  rw [bits, Nat.shiftRight_eq_div_pow, Nat.and_two_pow_sub_one_eq_mod]

/-- `insertBits`: `val` with the bits from position `first` down to `last` set to `bit_val`. -/
def insertBits (val : ℕ) (first : ℤ) (last bit_val : ℕ) : ℕ :=
  let bmask := (2 ^ (first - last + 1).toNat - 1) <<< last
  ((bit_val <<< last) &&& bmask) ||| (val &&& (2 ^ 64 - 1 - bmask))

structure AddrRange where
  _start : ℕ
  _end : ℕ
  intlvHighBit : ℕ
  xorHighBit : ℕ
  intlvBits : ℕ
  intlvMatch : ℕ
  start_lt : _start < 2 ^ 64
  end_lt : _end < 2 ^ 64
  -- a `uint8_t`, as the others are, but the only one that a slice of the address can exceed
  match_byte : intlvMatch < 2 ^ 8
  -- the slices that are taken lie within an address
  intlv_slice : intlvBits ≠ 0 → intlvBits ≤ intlvHighBit + 1 ∧ intlvHighBit < 64
  xor_slice : intlvBits ≠ 0 → xorHighBit ≠ 0 → intlvBits ≤ xorHighBit + 1 ∧ xorHighBit < 64
  -- the checks of the constructor
  match_lt : intlvBits ≠ 0 → intlvMatch < 2 ^ intlvBits
  xor_apart : intlvBits ≠ 0 → xorHighBit ≠ 0 →
    intlvHighBit + intlvBits ≤ xorHighBit ∨ xorHighBit + intlvBits ≤ intlvHighBit
deriving DecidableEq

namespace AddrRange

/-- Where the functions below stop with a `panic`. -/
inductive Fault
  | cannot_test_intersection (r r' : AddrRange)
  | cannot_test_subset (r : AddrRange)
deriving DecidableEq

variable (r r' : AddrRange)

/-- The constructor for a range without interleaving. -/
def plain (_start _end : ℕ) (hs : _start < 2 ^ 64) (he : _end < 2 ^ 64) : AddrRange where
  _start := _start
  _end := _end
  intlvHighBit := 0
  xorHighBit := 0
  intlvBits := 0
  intlvMatch := 0
  start_lt := hs
  end_lt := he
  match_byte := by decide
  intlv_slice h := absurd rfl h
  xor_slice h := absurd rfl h
  match_lt h := absurd rfl h
  xor_apart h := absurd rfl h

/-- `RangeSize(a, 1)`: the sum `a + 1 - 1` is `a` again, also where `a + 1` wraps around. -/
def rangeOne (a : ℕ) (ha : a < 2 ^ 64) : AddrRange := plain a a ha ha

def interleaved : Bool := r.intlvBits ≠ 0

def hashed : Bool := r.interleaved && (r.xorHighBit ≠ 0)

def size : ℕ := ((r._end + 2 ^ 64 - r._start + 1) % 2 ^ 64) >>> r.intlvBits

def granularity : ℕ :=
  if r.interleaved then
    let intlv_low_bit := r.intlvHighBit + 1 - r.intlvBits
    if r.hashed then
      let xor_low_bit := r.xorHighBit + 1 - r.intlvBits
      1 <<< min intlv_low_bit xor_low_bit
    else
      1 <<< intlv_low_bit
  else
    r.size

def stripes : ℕ := 1 <<< r.intlvBits

def valid : Bool := r._start ≤ r._end

def contains (a : ℕ) : Bool :=
  let in_range := r._start ≤ a && a ≤ r._end
  if !r.interleaved then
    in_range
  else if in_range then
    let slice := bits a r.intlvHighBit (r.intlvHighBit + 1 - r.intlvBits)
    if !r.hashed then
      slice == r.intlvMatch
    else
      (slice ^^^ bits a r.xorHighBit (r.xorHighBit + 1 - r.intlvBits)) == r.intlvMatch
  else
    false

def removeIntlvBits (a : ℕ) : ℕ :=
  let intlv_low_bit := r.intlvHighBit + 1 - r.intlvBits
  insertBits (a >>> r.intlvBits) (intlv_low_bit - 1) 0 a

def getOffset (a : ℕ) : ℕ :=
  let in_range := r._start ≤ a && a ≤ r._end
  if !in_range then
    2 ^ 64 - 1
  else if r.interleaved then
    (r.removeIntlvBits a + 2 ^ 64 - r.removeIntlvBits r._start) % 2 ^ 64
  else
    a - r._start

def mergesWith : Bool :=
  r'._start == r._start && r'._end == r._end && r'.intlvHighBit == r.intlvHighBit
    && r'.xorHighBit == r.xorHighBit && r'.intlvBits == r.intlvBits

def intersects : Except Fault Bool :=
  if r._start > r'._end ∨ r._end < r'._start then
    return false
  else if !r.interleaved && !r'.interleaved then
    return true
  else if r'.size = 1 then
    return r.contains r'._start
  else if r.mergesWith r' then
    return r.intlvMatch == r'.intlvMatch
  else
    throw (.cannot_test_intersection r r')

def isSubset : Except Fault Bool :=
  if r.interleaved then
    throw (.cannot_test_subset r)
  else if r'.interleaved then
    return r'.contains r._start && r'.contains r._end && decide (r.size ≤ r'.granularity)
  else
    return decide (r'._start ≤ r._start) && decide (r._end ≤ r'._end)

/-- `operator<`. -/
def lt : Bool :=
  if r._start ≠ r'._start then
    r._start < r'._start
  else
    r.intlvMatch < r'.intlvMatch

/-- What `operator<` orders by. -/
def key : ℕ ×ₗ ℕ := toLex (r._start, r.intlvMatch)

variable {r r'}

theorem key_le_iff : r.key ≤ r'.key
    ↔ r._start < r'._start ∨ (r._start = r'._start ∧ r.intlvMatch ≤ r'.intlvMatch) := by
  rw [key, key, Prod.Lex.toLex_le_toLex]

theorem mergesWith_iff : r.mergesWith r' = true
    ↔ r'._start = r._start ∧ r'._end = r._end ∧ r'.intlvHighBit = r.intlvHighBit
      ∧ r'.xorHighBit = r.xorHighBit ∧ r'.intlvBits = r.intlvBits := by
  simp only [mergesWith, Bool.and_eq_true, beq_iff_eq, and_assoc]

theorem mergesWith_equivalence : Equivalence (fun r r' : AddrRange => r.mergesWith r' = true) where
  refl r := by
    rw [mergesWith_iff]
    exact ⟨rfl, rfl, rfl, rfl, rfl⟩
  symm h := by
    rw [mergesWith_iff] at h ⊢
    exact ⟨h.1.symm, h.2.1.symm, h.2.2.1.symm, h.2.2.2.1.symm, h.2.2.2.2.symm⟩
  trans h h' := by
    rw [mergesWith_iff] at h h' ⊢
    exact ⟨h'.1.trans h.1, h'.2.1.trans h.2.1, h'.2.2.1.trans h.2.2.1,
      h'.2.2.2.1.trans h.2.2.2.1, h'.2.2.2.2.trans h.2.2.2.2⟩

theorem mem_interval {a : ℕ} (h : r.contains a = true) : r._start ≤ a ∧ a ≤ r._end := by
  simp only [contains] at h
  split_ifs at h with h1 h2 <;> simp_all

theorem granularity_pos (h : r.interleaved = true) : 1 ≤ r.granularity := by
  rw [granularity, if_pos h]
  split_ifs <;> rw [Nat.one_shiftLeft] <;> exact Nat.one_le_two_pow

/-- The subset test for a single address is the test whether the range contains it. -/
theorem rangeOne_isSubset {a : ℕ} (ha : a < 2 ^ 64) (r : AddrRange) :
    (rangeOne a ha).isSubset r = .ok (r.contains a) := by
  have hsize : (rangeOne a ha).size = 1 := by
    simp [size, rangeOne, plain]
  rw [isSubset, if_neg (by simp [interleaved, rangeOne, plain])]
  by_cases hr : r.interleaved = true
  · rw [if_pos hr, hsize]
    have hg := granularity_pos hr
    simp only [rangeOne, plain, hg, decide_true, Bool.and_true, Bool.and_self]
    rfl
  · rw [if_neg hr]
    simp only [contains, hr, rangeOne, plain]
    simp
    rfl

end AddrRange

end Bindu.Base
