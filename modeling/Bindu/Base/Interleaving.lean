/-
Interleaved ranges: which addresses a range has, which of its siblings has the others, and where
in the range an address stands.

An address is three digits: what is above the interleaving bits, these bits, and what is below.
The bits that the hash takes lie above or below, so for given outer digits each value of the
matched slice occurs for exactly one value of the interleaving bits.

Source: `base/addr_range.hh`.
-/
import Bindu.Base.AddrRange
import Bindu.Lib.Blocks

open Bindu.Lib Nat

namespace Bindu.Base

open Nat (div_add_mod' mul_le_mul_right sub_mul)

namespace AddrRange

variable {r : AddrRange} {a a' : ℕ}

/-- The lowest interleaving bit. -/
def low (r : AddrRange) : ℕ := r.intlvHighBit + 1 - r.intlvBits

/-- The interleaving bits of an address, and the bits they are hashed with. -/
def slice (r : AddrRange) (a : ℕ) : ℕ := a / 2 ^ r.low % 2 ^ r.intlvBits

def hash (r : AddrRange) (a : ℕ) : ℕ :=
  if r.hashed then a / 2 ^ (r.xorHighBit + 1 - r.intlvBits) % 2 ^ r.intlvBits else 0

theorem low_add (r : AddrRange) : r.low + r.intlvBits = r.intlvHighBit + 1 := by
  have := r.intlv_slice
  unfold low
  omega

theorem contains_iff (hmatch : r.intlvMatch < 2 ^ r.intlvBits) :
    r.contains a = true ↔ (r._start ≤ a ∧ a ≤ r._end) ∧ r.slice a ^^^ r.hash a = r.intlvMatch := by
  by_cases hbits : r.intlvBits = 0
  · have hzero : r.intlvMatch = 0 := by simpa [hbits] using hmatch
    simp [contains, slice, hash, hashed, interleaved, hbits, hzero, mod_one]
  · have hwidth := r.intlv_slice hbits
    have hint : r.intlvHighBit + 1 - (r.intlvHighBit + 1 - r.intlvBits) = r.intlvBits := by omega
    by_cases hxor : r.xorHighBit = 0
    · simp [contains, slice, hash, low, hashed, interleaved, hbits, hxor, bits_eq, hint]
    · have hslice := r.xor_slice hbits hxor
      have hx : r.xorHighBit + 1 - (r.xorHighBit + 1 - r.intlvBits) = r.intlvBits := by omega
      simp [contains, slice, hash, low, hashed, interleaved, hbits, hxor, bits_eq, hint, hx]

/-! ## The three digits -/

theorem hash_congr (hhi : a / 2 ^ (r.intlvHighBit + 1) = a' / 2 ^ (r.intlvHighBit + 1))
    (hlo : a % 2 ^ r.low = a' % 2 ^ r.low) : r.hash a = r.hash a' := by
  unfold hash
  split
  case isFalse => rfl
  case isTrue hh =>
    have hbit : ∀ j, j < r.low ∨ r.intlvHighBit < j → a.testBit j = a'.testBit j := by
      rintro j (hj | hj)
      · have := congrArg (fun x => x.testBit j) hlo
        simpa [Nat.testBit_mod_two_pow, hj] using this
      · have := congrArg (fun x => x.testBit (j - (r.intlvHighBit + 1))) hhi
        simpa [Nat.testBit_div_two_pow, Nat.sub_add_cancel hj] using this
    simp only [hashed, interleaved, Bool.and_eq_true, decide_eq_true_eq] at hh
    have hapart := r.xor_apart hh.1 hh.2
    have hslice := r.xor_slice hh.1 hh.2
    have hlow := r.low_add
    refine eq_of_testBit_eq (fun j => ?_)
    simp only [testBit_mod_two_pow, testBit_div_two_pow]
    by_cases hj : j < r.intlvBits
    · rw [hbit _ (by omega)]
    · simp [hj]

theorem eq_digits (r : AddrRange) (a : ℕ) :
    a = (a / 2 ^ (r.intlvHighBit + 1) * 2 ^ r.intlvBits + r.slice a) * 2 ^ r.low
      + a % 2 ^ r.low := by
  rw [slice, ← r.low_add, pow_add, ← Nat.div_div_eq_div_mul, div_add_mod', div_add_mod']

theorem digits (hi : ℕ) {x lo : ℕ} (hx : x < 2 ^ r.intlvBits) (hlo : lo < 2 ^ r.low)
    (ha : a = (hi * 2 ^ r.intlvBits + x) * 2 ^ r.low + lo) :
    a / 2 ^ (r.intlvHighBit + 1) = hi ∧ r.slice a = x ∧ a % 2 ^ r.low = lo := by
  have hdiv : a / 2 ^ r.low = hi * 2 ^ r.intlvBits + x := by
    rw [ha, add_comm, add_mul_div_right _ _ (by positivity), div_eq_of_lt hlo, Nat.zero_add]
  refine ⟨?_, ?_, ?_⟩
  · rw [← r.low_add, pow_add, ← Nat.div_div_eq_div_mul, hdiv, Nat.add_comm,
      Nat.add_mul_div_right _ _ (by positivity), Nat.div_eq_of_lt hx, Nat.zero_add]
  · rw [slice, hdiv, Nat.mul_add_mod', Nat.mod_eq_of_lt hx]
  · rw [ha, Nat.mul_add_mod', Nat.mod_eq_of_lt hlo]

theorem slice_lt (r : AddrRange) (a : ℕ) : r.slice a < 2 ^ r.intlvBits :=
  mod_lt _ (by positivity)

theorem hash_lt (r : AddrRange) (a : ℕ) : r.hash a < 2 ^ r.intlvBits := by
  unfold hash
  split
  · exact mod_lt _ (by positivity)
  · positivity

/-- The outer digits and the value that is matched can be chosen, … -/
theorem exists_address {m lo : ℕ} (hm : m < 2 ^ r.intlvBits) (hi : ℕ) (hlo : lo < 2 ^ r.low) :
    ∃ a, a / 2 ^ (r.intlvHighBit + 1) = hi ∧ a % 2 ^ r.low = lo ∧ r.slice a ^^^ r.hash a = m := by
  obtain ⟨hhi0, -, hlo0⟩ := digits hi (by positivity) hlo rfl
  generalize (hi * 2 ^ r.intlvBits + 0) * 2 ^ r.low + lo = a0 at hhi0 hlo0
  obtain ⟨hhi', hx, hlo'⟩ :=
    digits hi (Nat.xor_lt_two_pow hm (r.hash_lt a0)) hlo rfl
  refine ⟨_, hhi', hlo', ?_⟩
  rw [hx, hash_congr (hhi'.trans hhi0.symm) (hlo'.trans hlo0.symm), Nat.xor_assoc, Nat.xor_self,
    Nat.xor_zero]

/-- … and they determine the address. -/
theorem eq_of_digits (hhi : a / 2 ^ (r.intlvHighBit + 1) = a' / 2 ^ (r.intlvHighBit + 1))
    (hlo : a % 2 ^ r.low = a' % 2 ^ r.low)
    (hkey : r.slice a ^^^ r.hash a = r.slice a' ^^^ r.hash a') : a = a' := by
  rw [hash_congr hhi hlo] at hkey
  have hslice := congrArg (· ^^^ r.hash a') hkey
  simp only [Nat.xor_assoc, Nat.xor_self, Nat.xor_zero] at hslice
  rw [r.eq_digits a, r.eq_digits a', hhi, hlo, hslice]

/-! ## Offsets -/

theorem removeIntlvBits_eq (hword : r.intlvHighBit + 1 ≤ 63) (ha : a < 2 ^ 64) :
    r.removeIntlvBits a = a / 2 ^ (r.intlvHighBit + 1) * 2 ^ r.low + a % 2 ^ r.low := by
  have hlow := r.low_add
  have hshift : a >>> r.intlvBits < 2 ^ 64 := (shiftRight_le a _).trans_lt ha
  have hcount : (((r.low : ℤ) - 1) - (0 : ℕ) + 1).toNat = r.low := by omega
  change insertBits (a >>> r.intlvBits) ((r.low : ℤ) - 1) 0 a = _
  rw [insertBits, hcount]
  simp only [Nat.shiftLeft_zero]
  rw [Nat.and_two_pow_sub_one_eq_mod, and_high hshift (by omega), Nat.or_comm,
    ← Nat.shiftLeft_add_eq_or_of_lt (Nat.mod_lt _ (by positivity)), Nat.shiftLeft_eq,
    Nat.shiftRight_eq_div_pow, Nat.div_div_eq_div_mul, ← pow_add, Nat.add_comm r.intlvBits, hlow]

/-- A range whose bounds are multiples of the interleaving period: it consists of the periods from
`lo` up to, but not including, `hi`. -/
structure Aligned (r : AddrRange) (lo hi : ℕ) : Prop where
  word : r.intlvHighBit + 1 ≤ 63
  start_eq : r._start = lo * 2 ^ (r.intlvHighBit + 1)
  end_eq : r._end + 1 = hi * 2 ^ (r.intlvHighBit + 1)

variable {lo hi : ℕ}

theorem Aligned.interval (h : r.Aligned lo hi) : (r._start ≤ a ∧ a ≤ r._end)
    ↔ lo ≤ a / 2 ^ (r.intlvHighBit + 1) ∧ a / 2 ^ (r.intlvHighBit + 1) < hi := by
  rw [← Nat.lt_add_one_iff (n := r._end), h.start_eq, h.end_eq,
    Nat.le_div_iff_mul_le (by positivity), Nat.div_lt_iff_lt_mul (by positivity)]

theorem Aligned.getOffset_eq (h : r.Aligned lo hi) (hmem : r._start ≤ a ∧ a ≤ r._end) :
    r.getOffset a = (a / 2 ^ (r.intlvHighBit + 1) - lo) * 2 ^ r.low + a % 2 ^ r.low := by
  have hdigits := h.interval.1 hmem
  have ha : a < 2 ^ 64 := hmem.2.trans_lt r.end_lt
  have hdvd : 2 ^ r.low ∣ 2 ^ (r.intlvHighBit + 1) := pow_dvd_pow 2 (by rw [← r.low_add]; omega)
  have hmod : r._start % 2 ^ r.low = 0 := by
    rw [h.start_eq]
    exact Nat.mod_eq_zero_of_dvd (hdvd.mul_left lo)
  have hdiv : r._start / 2 ^ (r.intlvHighBit + 1) = lo := by
    rw [h.start_eq, Nat.mul_div_cancel _ (by positivity)]
  have hle := mul_le_mul_right (2 ^ r.low) hdigits.1
  rw [getOffset, if_neg (by simp [hmem])]
  by_cases hint : r.intlvBits = 0
  · have hlow : r.low = r.intlvHighBit + 1 := by simp [← r.low_add, hint]
    rw [if_neg (by simp [interleaved, hint]), h.start_eq, hlow, sub_mul]
    have := div_add_mod' a (2 ^ (r.intlvHighBit + 1))
    rw [hlow] at hle
    omega
  · rw [if_pos (by simp [interleaved, hint]), removeIntlvBits_eq h.word ha,
      removeIntlvBits_eq h.word r.start_lt, hdiv, hmod, sub_mul]
    have hmono : a / 2 ^ (r.intlvHighBit + 1) ≤ a / 2 ^ r.low :=
      Nat.div_le_div_left (Nat.le_of_dvd (by positivity) hdvd) (by positivity)
    have hsmall := mul_le_mul_right (2 ^ r.low) hmono
    have := div_add_mod' a (2 ^ r.low)
    omega

theorem Aligned.size_eq (h : r.Aligned lo hi) (hle : lo ≤ hi)
    (hfull : r._end + 1 - r._start < 2 ^ 64) : r.size = (hi - lo) * 2 ^ r.low := by
  have hlen : r._end + 1 - r._start = (hi - lo) * 2 ^ (r.intlvHighBit + 1) := by
    rw [h.start_eq, h.end_eq, sub_mul]
  have hmono := mul_le_mul_right (2 ^ (r.intlvHighBit + 1)) hle
  rw [← h.start_eq, ← h.end_eq] at hmono
  have hwrap : (r._end + 2 ^ 64 - r._start + 1) % 2 ^ 64 = r._end + 1 - r._start := by
    have := r.end_lt
    omega
  rw [size, hwrap, hlen, ← r.low_add, pow_add, ← Nat.mul_assoc, Nat.shiftRight_eq_div_pow,
    Nat.mul_div_cancel _ (by positivity)]

/-! ## Siblings -/

/-- The range that differs from `r` in its match value only. -/
def withMatch (r : AddrRange) (m : ℕ) (hm : m < 2 ^ r.intlvBits) (hbyte : m < 2 ^ 8) :
    AddrRange :=
  { r with intlvMatch := m, match_byte := hbyte, match_lt := fun _ => hm }

variable {m : ℕ} {hm : m < 2 ^ r.intlvBits} {hbyte : m < 2 ^ 8}

theorem Aligned.withMatch (h : r.Aligned lo hi) : (r.withMatch m hm hbyte).Aligned lo hi :=
  ⟨h.word, h.start_eq, h.end_eq⟩

theorem contains_withMatch : (r.withMatch m hm hbyte).contains a = true
    ↔ (r._start ≤ a ∧ a ≤ r._end) ∧ r.slice a ^^^ r.hash a = m :=
  contains_iff hm

theorem Aligned.exists_mem (h : r.Aligned lo hi) (hlt : lo < hi) (hm : m < 2 ^ r.intlvBits) :
    ∃ a, (r._start ≤ a ∧ a ≤ r._end) ∧ r.slice a ^^^ r.hash a = m := by
  obtain ⟨a, hhi, -, hkey⟩ := exists_address hm lo (show 0 < 2 ^ r.low by positivity)
  exact ⟨a, h.interval.2 (by omega), hkey⟩

theorem Aligned.bijOn (h : r.Aligned lo hi) (hle : lo ≤ hi)
    (hfull : r._end + 1 - r._start < 2 ^ 64) (hmatch : r.intlvMatch < 2 ^ r.intlvBits) :
    Set.BijOn r.getOffset {a | r.contains a = true} (Set.Iio r.size) := by
  have hpos : 0 < 2 ^ r.low := by positivity
  rw [h.size_eq hle hfull]
  refine ⟨fun a ha => ?_, fun a ha a' ha' heq => ?_, fun y hy => ?_⟩
  · obtain ⟨hmem, -⟩ := (contains_iff hmatch).1 ha
    have hdigits := h.interval.1 hmem
    have hmul := mul_le_mul_right (2 ^ r.low)
      (show a / 2 ^ (r.intlvHighBit + 1) - lo + 1 ≤ hi - lo by omega)
    have hmod := mod_lt a hpos
    rw [add_mul] at hmul
    rw [Set.mem_Iio, h.getOffset_eq hmem]
    omega
  · obtain ⟨hmem, hkey⟩ := (contains_iff hmatch).1 ha
    obtain ⟨hmem', hkey'⟩ := (contains_iff hmatch).1 ha'
    rw [h.getOffset_eq hmem, h.getOffset_eq hmem'] at heq
    have hdiv := congrArg (· / 2 ^ r.low) heq
    have hmod := congrArg (· % 2 ^ r.low) heq
    simp only [mul_add_mod', mod_mod] at hmod
    simp only [add_comm _ (_ % _), add_mul_div_right _ _ hpos,
      div_eq_of_lt (mod_lt _ hpos), zero_add] at hdiv
    have hlo := (h.interval.1 hmem).1
    have hlo' := (h.interval.1 hmem').1
    exact eq_of_digits (by omega) hmod (hkey.trans hkey'.symm)
  · obtain ⟨a, hhi, hlo, hkey⟩ := exists_address hmatch (lo + y / 2 ^ r.low) (mod_lt y hpos)
    have hlt : y / 2 ^ r.low < hi - lo := (div_lt_iff_lt_mul hpos).2 hy
    have hmem := h.interval.2 ⟨hhi ▸ Nat.le_add_right lo _, hhi ▸ Nat.add_lt_of_lt_sub' hlt⟩
    refine ⟨a, (contains_iff hmatch).2 ⟨hmem, hkey⟩, ?_⟩
    rw [h.getOffset_eq hmem, hhi, hlo, Nat.add_sub_cancel_left, div_add_mod']

/-- An inverted range has no address, but its size wraps around. -/
theorem Aligned.size_pos (h : r.Aligned lo hi) (hlt : hi < lo) : 0 < r.size := by
  have hword := h.word
  have hstart := r.start_lt
  obtain ⟨k, hk⟩ : ∃ k, k * 2 ^ (r.intlvHighBit + 1) = 2 ^ 64 :=
    ⟨2 ^ (64 - (r.intlvHighBit + 1)), by rw [← pow_add, Nat.sub_add_cancel (by omega)]⟩
  rw [h.start_eq, ← hk] at hstart
  have hlok := Nat.lt_of_mul_lt_mul_right hstart
  have hmul := mul_le_mul_right (2 ^ (r.intlvHighBit + 1)) (show lo - hi + 1 ≤ k by omega)
  have hpow : 2 ^ r.intlvBits ≤ 2 ^ (r.intlvHighBit + 1) :=
    Nat.pow_le_pow_right (by norm_num) (by rw [← r.low_add]; omega)
  have hmono := mul_le_mul_right (2 ^ (r.intlvHighBit + 1)) (show hi + 1 ≤ lo from hlt)
  rw [Nat.add_mul, sub_mul, ← h.start_eq, ← h.end_eq, hk] at hmul
  rw [Nat.add_mul, ← h.start_eq, ← h.end_eq] at hmono
  rw [size, Nat.shiftRight_eq_div_pow, Nat.div_pos_iff]
  have := r.start_lt
  exact ⟨by positivity, by omega⟩

/-- The ranges that differ only in their match value share the addresses among them, and each of
them numbers its own from 0, exactly if the match values fit into a byte, the bounds are not
inverted and the range is not the whole address space, whose size is 0. -/
theorem interleaved_partition (r : AddrRange) (hword : r.intlvHighBit + 1 ≤ 63)
    (hstart : 2 ^ (r.intlvHighBit + 1) ∣ r._start) (hend : 2 ^ (r.intlvHighBit + 1) ∣ r._end + 1) :
    ((∀ a, r._start ≤ a → a ≤ r._end → ∃! m, ∃ (hm : m < 2 ^ r.intlvBits) (hbyte : m < 2 ^ 8),
        (r.withMatch m hm hbyte).contains a = true)
      ∧ ∀ (m : ℕ) (hm : m < 2 ^ r.intlvBits) (hbyte : m < 2 ^ 8),
        Set.BijOn (r.withMatch m hm hbyte).getOffset
          {a | (r.withMatch m hm hbyte).contains a = true}
          (Set.Iio (r.withMatch m hm hbyte).size))
    ↔ (r._start ≤ r._end → r.intlvBits ≤ 8) ∧ r._start ≤ r._end + 1
      ∧ r._end + 1 - r._start < 2 ^ 64 := by
  obtain ⟨lo, hlo⟩ := hstart
  obtain ⟨hi, hhi⟩ := hend
  rw [mul_comm] at hlo hhi
  have h : r.Aligned lo hi := ⟨hword, hlo, hhi⟩
  have hle : r._start ≤ r._end + 1 ↔ lo ≤ hi := by
    rw [hlo, hhi, Nat.mul_le_mul_right_iff (by positivity)]
  have hlt : r._start ≤ r._end ↔ lo < hi := by
    rw [← Nat.lt_add_one_iff, hlo, hhi, Nat.mul_lt_mul_right (by positivity)]
  constructor
  · rintro ⟨hpart, hbij⟩
    specialize hbij 0 (by positivity) (by positivity)
    have hordered : lo ≤ hi := by
      by_contra hcon
      obtain ⟨a, ha, -⟩ := hbij.surjOn (h.withMatch.size_pos (not_le.1 hcon))
      have := h.interval.1 (contains_withMatch.1 ha).1
      omega
    refine ⟨fun hne => ?_, hle.2 hordered, ?_⟩
    · by_contra hbits
      have hbig : 2 ^ 8 < 2 ^ r.intlvBits := Nat.pow_lt_pow_right (by norm_num) (not_le.1 hbits)
      obtain ⟨a, hmem, hkey⟩ := h.exists_mem (hlt.1 hne) hbig
      obtain ⟨m, ⟨hm, hbyte, ha⟩, -⟩ := hpart a hmem.1 hmem.2
      have := (contains_withMatch.1 ha).2
      omega
    · by_contra hfull
      have hend := r.end_lt
      have hsize : r.size = 0 := by
        rw [size, show (r._end + 2 ^ 64 - r._start + 1) % 2 ^ 64 = 0 by omega, zero_shiftRight]
      obtain ⟨a, hmem⟩ := h.exists_mem (hlt.1 (by omega)) (by positivity)
      have hoffset := hbij.mapsTo (contains_withMatch.2 hmem)
      rw [Set.mem_Iio, show (r.withMatch 0 _ _).size = r.size from rfl, hsize] at hoffset
      exact not_lt_zero _ hoffset
  · rintro ⟨hbits, hordered, hfull⟩
    refine ⟨fun a hs he => ?_, fun m hm hbyte => h.withMatch.bijOn (hle.1 hordered) hfull hm⟩
    have hkey := Nat.xor_lt_two_pow (r.slice_lt a) (r.hash_lt a)
    have hbyte := hkey.trans_le (Nat.pow_le_pow_right (by norm_num) (hbits (hs.trans he)))
    refine ⟨_, ⟨hkey, hbyte, contains_withMatch.2 ⟨⟨hs, he⟩, rfl⟩⟩, ?_⟩
    rintro m ⟨hm, hbyte', ha⟩
    exact (contains_withMatch.1 ha).2.symm

/-- Four stripes, hashed with the two bits above them. -/
def hashedStripe : AddrRange where
  _start := 0
  _end := 1023
  intlvHighBit := 7
  xorHighBit := 9
  intlvBits := 2
  intlvMatch := 1
  start_lt := by norm_num
  end_lt := by norm_num
  match_byte := by norm_num
  intlv_slice _ := by decide
  xor_slice _ _ := by decide
  match_lt _ := by decide
  xor_apart _ _ := by decide

theorem interleaved_partition_hashed : 2 ^ 8 ∣ hashedStripe._start ∧ 2 ^ 8 ∣ hashedStripe._end + 1
    ∧ Set.BijOn hashedStripe.getOffset {a | hashedStripe.contains a = true} (Set.Iio 256) := by
  refine ⟨by decide, by decide, ?_⟩
  have h := interleaved_partition hashedStripe (by decide) (by decide) (by decide)
  exact (h.2 ⟨fun _ => by decide, by decide, by decide⟩).2 1 (by decide) (by decide)

/-- The whole address space in 512 stripes. -/
def wholeSpace : AddrRange where
  _start := 0
  _end := 2 ^ 64 - 1
  intlvHighBit := 8
  xorHighBit := 0
  intlvBits := 9
  intlvMatch := 0
  start_lt := by norm_num
  end_lt := by norm_num
  match_byte := by norm_num
  intlv_slice _ := by decide
  xor_slice _ h := absurd rfl h
  match_lt _ := by decide
  xor_apart _ h := absurd rfl h

theorem wholeSpace_not_partitioned : 2 ^ 9 ∣ wholeSpace._start ∧ 2 ^ 9 ∣ wholeSpace._end + 1
    ∧ (wholeSpace.contains 0 = true ∧ wholeSpace.getOffset 0 = 0 ∧ wholeSpace.size = 0)
    ∧ ∀ m hm hbyte, (wholeSpace.withMatch m hm hbyte).contains 256 = false := by
  refine ⟨by decide, by decide, by decide, fun m hm hbyte => ?_⟩
  rw [Bool.eq_false_iff]
  intro h
  have hkey := (contains_withMatch.1 h).2
  rw [show wholeSpace.slice 256 ^^^ wholeSpace.hash 256 = 256 by decide] at hkey
  omega

/-! ## The subset test -/

/-- What is matched only depends on the granule of the address. -/
theorem key_congr {g : ℕ} (hg : g ≤ r.low)
    (hx : r.hashed = true → g ≤ r.xorHighBit + 1 - r.intlvBits) (h : a / 2 ^ g = a' / 2 ^ g) :
    r.slice a ^^^ r.hash a = r.slice a' ^^^ r.hash a' := by
  have hdiv : ∀ k, g ≤ k → a / 2 ^ k = a' / 2 ^ k := by
    intro k hk
    rw [← Nat.sub_add_cancel hk, Nat.add_comm, pow_add, ← Nat.div_div_eq_div_mul, h,
      Nat.div_div_eq_div_mul]
  unfold slice hash
  rw [hdiv _ hg]
  by_cases hh : r.hashed = true
  · rw [if_pos hh, if_pos hh, hdiv _ (hx hh)]
  · rw [if_neg hh, if_neg hh]

theorem granularity_eq (h : r.interleaved = true) : ∃ g, r.granularity = 2 ^ g ∧ g ≤ r.low
    ∧ (r.hashed = true → g ≤ r.xorHighBit + 1 - r.intlvBits) ∧ (r.hashed = false → g = r.low) := by
  rw [granularity, if_pos h]
  by_cases hh : r.hashed = true
  · refine ⟨min r.low (r.xorHighBit + 1 - r.intlvBits), ?_, min_le_left _ _,
      fun _ => min_le_right _ _, fun h => absurd hh (by simp [h])⟩
    rw [if_pos hh, one_shiftLeft, low]
  · refine ⟨r.low, ?_, le_rfl, fun h => absurd h hh, fun _ => rfl⟩
    rw [if_neg hh, one_shiftLeft, low]

/-- Addresses a granule apart are in different stripes. -/
theorem slice_add_ne (h : r.intlvBits ≠ 0) (a : ℕ) : r.slice (a + 2 ^ r.low) ≠ r.slice a := by
  rw [slice, slice, add_div_right _ (by positivity)]
  intro heq
  have hone : 1 ≡ 0 [MOD 2 ^ r.intlvBits] := Nat.ModEq.add_left_cancel' (a / 2 ^ r.low) heq
  have hlt : 1 < 2 ^ r.intlvBits := Nat.one_lt_two_pow h
  rw [Nat.ModEq, Nat.mod_eq_of_lt hlt, Nat.zero_mod] at hone
  exact one_ne_zero hone

/-- The subset test of a plain range, other than the whole address space, always gives an answer.
If it is positive, the addresses of the one range are all in the other, and if the other is not
hashed it is positive only then. -/
theorem isSubset_iff_contains (q r : AddrRange) (hvalid : q.valid = true)
    (hplain : q.interleaved = false) (hfull : q._end + 1 - q._start < 2 ^ 64) :
    ∃ subset, q.isSubset r = .ok subset
      ∧ (subset = true → ∀ a, q.contains a = true → r.contains a = true)
      ∧ (r.hashed = false → (∀ a, q.contains a = true → r.contains a = true) → subset = true) := by
  have hle : q._start ≤ q._end := by simpa [valid] using hvalid
  have hmem : ∀ a, q.contains a = true ↔ q._start ≤ a ∧ a ≤ q._end := by simp [contains, hplain]
  simp only [hmem]
  rw [isSubset, if_neg (by simp [hplain])]
  by_cases hr : r.interleaved = true
  · obtain ⟨g, hgran, hg, hgx, hglow⟩ := granularity_eq hr
    have hsize : q.size = q._end + 1 - q._start := by
      have hbits : q.intlvBits = 0 := by simpa [interleaved] using hplain
      rw [size, hbits, shiftRight_zero]
      have := q.end_lt
      omega
    have hbits : r.intlvBits ≠ 0 := by simpa [interleaved] using hr
    have hmatch := r.match_lt hbits
    rw [if_pos hr]
    refine ⟨_, rfl, fun h a ha => ?_, fun hh h => ?_⟩
    · simp only [Bool.and_eq_true, decide_eq_true_eq, hgran, hsize, contains_iff hmatch] at h
      obtain ⟨⟨⟨hs, hskey⟩, he, hekey⟩, hsz⟩ := h
      refine (contains_iff hmatch).2 ⟨⟨hs.1.trans ha.1, ha.2.trans he.2⟩, ?_⟩
      -- at most two granules are touched, and the bounds are in the first and in the last
      have hfirst := Nat.div_le_div_right (c := 2 ^ g) ha.1
      have hlast := Nat.div_le_div_right (c := 2 ^ g) ha.2
      have hnext : q._end / 2 ^ g ≤ q._start / 2 ^ g + 1 := by
        rw [← Nat.add_div_right _ (by positivity)]
        exact Nat.div_le_div_right (by omega)
      by_cases hsame : a / 2 ^ g = q._start / 2 ^ g
      · rw [key_congr hg hgx hsame, hskey]
      · rw [key_congr hg hgx (show a / 2 ^ g = q._end / 2 ^ g by omega), hekey]
    · simp only [Bool.and_eq_true, decide_eq_true_eq, hgran, hglow hh, hsize]
      refine ⟨⟨h _ ⟨le_rfl, hle⟩, h _ ⟨hle, le_rfl⟩⟩, ?_⟩
      by_contra hbig
      have hs := ((contains_iff hmatch).1 (h _ ⟨le_rfl, hle⟩)).2
      have hnext := ((contains_iff hmatch).1 (h (q._start + 2 ^ r.low)
        ⟨le_add_right _ _, by omega⟩)).2
      simp only [hash, hh, Bool.false_eq_true, if_false, xor_zero] at hs hnext
      exact slice_add_ne hbits _ (hnext.trans hs.symm)
  · have hmem' : ∀ a, r.contains a = true ↔ r._start ≤ a ∧ a ≤ r._end := by simp [contains, hr]
    simp only [hmem']
    rw [if_neg hr]
    refine ⟨_, rfl, fun h a ha => ?_, fun _ h => ?_⟩
    · simp only [Bool.and_eq_true, decide_eq_true_eq] at h
      exact ⟨h.1.trans ha.1, ha.2.trans h.2⟩
    · simp only [Bool.and_eq_true, decide_eq_true_eq]
      exact ⟨(h _ ⟨le_rfl, hle⟩).1, (h _ ⟨hle, le_rfl⟩).2⟩

theorem isSubset_hashedStripe : ∃ subset,
    (plain 64 127 (by decide) (by decide)).isSubset hashedStripe = .ok subset
      ∧ (subset = true → ∀ a, (plain 64 127 (by decide) (by decide)).contains a = true →
        hashedStripe.contains a = true) := by
  obtain ⟨subset, h, hsound, -⟩ := isSubset_iff_contains (plain 64 127 (by decide) (by decide))
    hashedStripe (by decide) (by decide) (by decide)
  exact ⟨subset, h, hsound⟩

end AddrRange

end Bindu.Base
