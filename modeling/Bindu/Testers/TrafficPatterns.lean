/-
The traffic patterns are permutations.

With `4 ^ k` destinations the injectors stand in a square of side `2 ^ k`, and their numbers have
`2 * k` bits. Four of the patterns move the two coordinates: each is a one-to-one map of the
square. `BIT_REVERSE_` reverses the bits of the number. `SHUFFLE_` and `BIT_ROTATION_` turn them
by one place, in opposite directions.
-/
import Bindu.Lib.GridMaps
import Bindu.Testers.SyntheticTraffic

open Bindu.Lib Nat

namespace Bindu.Testers

/-! ## The size of the network -/

theorem four_pow_eq_mul (k : ℕ) : 4 ^ k = 2 ^ k * 2 ^ k :=
  mul_pow 2 2 k

theorem sqrt_four_pow (k : ℕ) : sqrt (4 ^ k) = 2 ^ k := by
  rw [four_pow_eq_mul, sqrt_eq]

theorem log2_four_pow (k : ℕ) : log2 (4 ^ k) = 2 * k := by
  rw [show (4 : ℕ) = 2 ^ 2 from rfl, ← pow_mul, log2_two_pow]

theorem four_pow_eq_double {k : ℕ} (hk : 1 ≤ k) : ∃ h, 4 ^ k = 2 * h := by
  obtain ⟨j, rfl⟩ := Nat.exists_eq_add_of_le hk
  refine ⟨2 * 4 ^ j, ?_⟩
  rw [pow_add]
  ring

/-! ## The bit-reversal loop -/

/-- One pass of the loop moves one bit. -/
theorem shift_or_and_one (reverse straight : ℕ) :
    (reverse <<< 1) ||| (straight &&& 1) = reverse * 2 + straight % 2 := by
  have hbit : straight % 2 < 2 ^ 1 := mod_lt straight (by decide)
  rw [and_one_is_mod, ← shiftLeft_add_eq_or_of_lt hbit, shiftLeft_eq, pow_one]

/-- The loop invariant: after `i` passes `straight` has lost `i` bits, and `reverse` holds the
`i + 1` bits seen so far. -/
theorem reverseLoop_eq (m i a : ℕ) :
    reverseLoop m (a / 2 ^ i) (reverseBits (i + 1) a) = reverseBits (i + 1 + m) a := by
  induction m generalizing i with
  | zero => rfl
  | succ m ih =>
    have hstraight : (a / 2 ^ i) >>> 1 = a / 2 ^ (i + 1) := by
      rw [Nat.shiftRight_eq_div_pow, pow_one, Nat.div_div_eq_div_mul, pow_succ]
    rw [reverseLoop, hstraight, shift_or_and_one, ← reverseBits_succ, ih]
    congr 1
    omega

section Patterns

variable {k : ℕ} {d : ℤ}

/-! ## Coordinates -/

/-- What each pattern of the coordinates does to a place. -/
def complementPlace (R : ℕ) (c : ℕ × ℕ) : ℕ × ℕ := (R - c.1 - 1, R - c.2 - 1)

theorem complementPlace_mapsTo (R : ℕ) :
    Set.MapsTo (complementPlace R) (gridBox R) (gridBox R) := by
  rintro ⟨x, y⟩ ⟨hx, hy⟩
  constructor
  · show R - x - 1 < R
    omega
  · show R - y - 1 < R
    omega

theorem complementPlace_twice {R : ℕ} {c : ℕ × ℕ} (h : c ∈ gridBox R) :
    complementPlace R (complementPlace R c) = c := by
  obtain ⟨x, y⟩ := c
  obtain ⟨hx, hy⟩ : x < R ∧ y < R := h
  refine Prod.ext ?_ ?_
  · show R - (R - x - 1) - 1 = x
    omega
  · show R - (R - y - 1) - 1 = y
    omega

theorem swap_mapsTo (R : ℕ) : Set.MapsTo Prod.swap (gridBox R) (gridBox R) :=
  fun _ h => ⟨h.2, h.1⟩

theorem bitComplement_eq (hd : d < 0) (id r : ℕ) :
    destination d .BIT_COMPLEMENT_ (4 ^ k) id r
      = gridIndex (2 ^ k) (complementPlace (2 ^ k) (gridPlace (2 ^ k) id)) := by
  simp only [destination, if_neg (not_le.2 hd), sqrt_four_pow]
  rfl

theorem transpose_eq (hd : d < 0) (id r : ℕ) :
    destination d .TRANSPOSE_ (4 ^ k) id r
      = gridIndex (2 ^ k) (Prod.swap (gridPlace (2 ^ k) id)) := by
  simp only [destination, if_neg (not_le.2 hd), sqrt_four_pow]
  rfl

theorem neighbor_eq (hd : d < 0) (id r : ℕ) :
    destination d .NEIGHBOR_ (4 ^ k) id r
      = gridIndex (2 ^ k) ((fun q : ℕ × ℕ => ((q.1 + 1) % 2 ^ k, q.2)) (gridPlace (2 ^ k) id)) := by
  simp only [destination, if_neg (not_le.2 hd), sqrt_four_pow]
  rfl

theorem tornado_eq (hd : d < 0) (id r : ℕ) :
    destination d .TORNADO_ (4 ^ k) id r = gridIndex (2 ^ k)
          ((fun q : ℕ × ℕ => ((q.1 + (2 ^ k / 2 - 1)) % 2 ^ k, q.2)) (gridPlace (2 ^ k) id)) := by
  have hshift : id % 2 ^ k + 2 ^ k / 2 - 1 = id % 2 ^ k + (2 ^ k / 2 - 1) := by omega
  simp only [destination, if_neg (not_le.2 hd), sqrt_four_pow, hshift]
  rfl

/-! ## Bits -/

theorem bitReverse_eq (hk : 1 ≤ k) (hd : d < 0) (id r : ℕ) :
    destination d .BIT_REVERSE_ (4 ^ k) id r = reverseBits (2 * k) id := by
  have hfirst : id &&& 1 = reverseBits (0 + 1) id := by
    rw [Nat.and_one_is_mod, reverseBits_succ, pow_zero, Nat.div_one]
    simp only [reverseBits, Nat.zero_mul, Nat.zero_add]
  have hloop := reverseLoop_eq (2 * k - 1) 0 id
  rw [pow_zero, Nat.div_one, show 0 + 1 + (2 * k - 1) = 2 * k by omega] at hloop
  simp only [destination, if_neg (not_le.2 hd), log2_four_pow, hfirst]
  exact hloop

variable {id : ℕ}

theorem shuffle_bitRotation_lt (hk : 1 ≤ k) (hd : d < 0) (r : ℕ) (hid : id < 4 ^ k) :
    destination d .SHUFFLE_ (4 ^ k) id r < 4 ^ k
      ∧ destination d .BIT_ROTATION_ (4 ^ k) id r < 4 ^ k := by
  obtain ⟨h, hh⟩ := four_pow_eq_double hk
  simp only [destination, if_neg (not_le.2 hd)]
  rw [hh] at hid ⊢
  constructor <;> split <;> omega

/-- The lower half goes to the even numbers, and an even number goes back to the lower half. -/
theorem shuffle_bitRotation (hk : 1 ≤ k) (hd : d < 0) (r r' : ℕ) (hid : id < 4 ^ k) :
    destination d .SHUFFLE_ (4 ^ k) (destination d .BIT_ROTATION_ (4 ^ k) id r) r' = id := by
  obtain ⟨h, hh⟩ := four_pow_eq_double hk
  simp only [destination, if_neg (not_le.2 hd)]
  rw [hh] at hid ⊢
  by_cases heven : id % 2 = 0
  · rw [if_pos heven, if_pos (by omega)]
    omega
  · rw [if_neg heven, if_neg (by omega)]
    omega

theorem bitRotation_shuffle (hk : 1 ≤ k) (hd : d < 0) (id r r' : ℕ) :
    destination d .BIT_ROTATION_ (4 ^ k) (destination d .SHUFFLE_ (4 ^ k) id r) r' = id := by
  obtain ⟨h, hh⟩ := four_pow_eq_double hk
  simp only [destination, if_neg (not_le.2 hd)]
  rw [hh]
  by_cases hlow : id < 2 * h / 2
  · rw [if_pos hlow, if_pos (by omega)]
    omega
  · rw [if_neg hlow, if_neg (by omega)]
    omega

/-! ## Permutations -/

/-- A pattern that is a map of the places. -/
theorem bijOn_of_places {σ : ℕ × ℕ → ℕ × ℕ} {f : ℕ → ℕ}
    (hσ : Set.BijOn σ (gridBox (2 ^ k)) (gridBox (2 ^ k)))
    (hf : ∀ id, f id = gridIndex (2 ^ k) (σ (gridPlace (2 ^ k) id))) :
    Set.BijOn f (Set.Iio (4 ^ k)) (Set.Iio (4 ^ k)) := by
  rw [four_pow_eq_mul, funext hf]
  exact bijOn_grid hσ

theorem bitReverse_mapsTo (k : ℕ) :
    Set.MapsTo (reverseBits (2 * k)) (Set.Iio (4 ^ k)) (Set.Iio (4 ^ k)) := by
  intro id _
  have hlt := reverseBits_lt (2 * k) id
  rwa [pow_mul] at hlt

theorem bitReverse_twice (hid : id < 4 ^ k) :
    reverseBits (2 * k) (reverseBits (2 * k) id) = id := by
  apply reverseBits_reverseBits
  rwa [pow_mul]

/-- **Every pattern but the random one sends the injectors one-to-one onto the destinations.** -/
theorem destination_bijOn (hk : 1 ≤ k) (hd : d < 0) (r : ℕ) {t : TrafficType}
    (ht : t ≠ .UNIFORM_RANDOM_) :
    Set.BijOn (fun id => destination d t (4 ^ k) id r) (Set.Iio (4 ^ k)) (Set.Iio (4 ^ k)) := by
  cases t with
  | UNIFORM_RANDOM_ => exact absurd rfl ht
  | BIT_COMPLEMENT_ =>
    apply bijOn_of_places _ (fun id => bitComplement_eq hd id r)
    exact bijOn_of_involutive (complementPlace_mapsTo _) (fun c hc => complementPlace_twice hc)
  | TRANSPOSE_ =>
    apply bijOn_of_places _ (fun id => transpose_eq hd id r)
    exact bijOn_of_involutive (swap_mapsTo _) (fun c _ => Prod.swap_swap c)
  | NEIGHBOR_ => exact bijOn_of_places (bijOn_shift _ _) (fun id => neighbor_eq hd id r)
  | TORNADO_ => exact bijOn_of_places (bijOn_shift _ _) (fun id => tornado_eq hd id r)
  | BIT_REVERSE_ =>
    rw [funext (fun id => bitReverse_eq hk hd id r)]
    exact bijOn_of_involutive (bitReverse_mapsTo k) (fun id hid => bitReverse_twice hid)
  | SHUFFLE_ =>
    have hinv : Set.InvOn (fun id => destination d .BIT_ROTATION_ (4 ^ k) id r)
        (fun id => destination d .SHUFFLE_ (4 ^ k) id r) (Set.Iio (4 ^ k)) (Set.Iio (4 ^ k)) :=
      ⟨fun id _ => bitRotation_shuffle hk hd id r r,
        fun id hid => shuffle_bitRotation hk hd r r hid⟩
    exact hinv.bijOn (fun id hid => (shuffle_bitRotation_lt hk hd r hid).1)
      (fun id hid => (shuffle_bitRotation_lt hk hd r hid).2)
  | BIT_ROTATION_ =>
    have hinv : Set.InvOn (fun id => destination d .SHUFFLE_ (4 ^ k) id r)
        (fun id => destination d .BIT_ROTATION_ (4 ^ k) id r) (Set.Iio (4 ^ k))
        (Set.Iio (4 ^ k)) :=
      ⟨fun id hid => shuffle_bitRotation hk hd r r hid,
        fun id _ => bitRotation_shuffle hk hd id r r⟩
    exact hinv.bijOn (fun id hid => (shuffle_bitRotation_lt hk hd r hid).2)
      (fun id hid => (shuffle_bitRotation_lt hk hd r hid).1)

/-- **Three patterns undo themselves.** -/
theorem destination_twice (hk : 1 ≤ k) (hd : d < 0) (r : ℕ) {t : TrafficType}
    (ht : t = .BIT_COMPLEMENT_ ∨ t = .BIT_REVERSE_ ∨ t = .TRANSPOSE_)
    (hid : id < 4 ^ k) : destination d t (4 ^ k) (destination d t (4 ^ k) id r) r = id := by
  have hgrid : id < 2 ^ k * 2 ^ k := by rwa [← four_pow_eq_mul]
  rcases ht with rfl | rfl | rfl
  · rw [bitComplement_eq hd, bitComplement_eq hd]
    exact gridIndex_twice (complementPlace_mapsTo _) (fun c hc => complementPlace_twice hc) hgrid
  · rw [bitReverse_eq hk hd, bitReverse_eq hk hd]
    exact bitReverse_twice hid
  · rw [transpose_eq hd, transpose_eq hd]
    exact gridIndex_twice (swap_mapsTo _) (fun c _ => Prod.swap_swap c) hgrid

/-- **The deterministic patterns are permutations**, for every square network of `4 ^ k`
destinations; complement, reversal and transposition undo themselves, and the shuffle undoes the
rotation. -/
theorem patterns_are_permutations (hk : 1 ≤ k) (hd : d < 0) (r : ℕ) :
    (∀ t, t ≠ .UNIFORM_RANDOM_ →
      Set.BijOn (fun id => destination d t (4 ^ k) id r) (Set.Iio (4 ^ k)) (Set.Iio (4 ^ k)))
    ∧ (∀ t, t = .BIT_COMPLEMENT_ ∨ t = .BIT_REVERSE_ ∨ t = .TRANSPOSE_ → ∀ id < 4 ^ k,
      destination d t (4 ^ k) (destination d t (4 ^ k) id r) r = id)
    ∧ ∀ id < 4 ^ k,
      destination d .SHUFFLE_ (4 ^ k) (destination d .BIT_ROTATION_ (4 ^ k) id r) r = id
      ∧ destination d .BIT_ROTATION_ (4 ^ k) (destination d .SHUFFLE_ (4 ^ k) id r) r = id :=
  ⟨fun _ ht => destination_bijOn hk hd r ht, fun _ ht _ hid => destination_twice hk hd r ht hid,
    fun id hid => ⟨shuffle_bitRotation hk hd r r hid, bitRotation_shuffle hk hd id r r⟩⟩

end Patterns

/-- The injectors of a network of sixteen, and where the reversal sends the second of them. -/
theorem patterns_are_permutations_sixteen :
    Set.BijOn (fun id => destination (-1) .BIT_REVERSE_ (4 ^ 2) id 0) (Set.Iio (4 ^ 2))
      (Set.Iio (4 ^ 2)) ∧ destination (-1) .BIT_REVERSE_ (4 ^ 2) 1 0 = 8 :=
  ⟨(patterns_are_permutations (by decide) (by decide) 0).1 _ (by decide), by decide +kernel⟩

end Bindu.Testers
