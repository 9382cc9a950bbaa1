/-
Where a burst lies in the DRAM: `DRAMCtrl::decodeAddr`, with the checks that `init` makes of the
interleaving.

The number of a burst is taken apart by divisions. The three mappings differ in the order of the
digits: row, rank, bank, channel and column, and the column may be cut in two by the channel. All
bounds are powers of two, the capacity being one, so the digits below the row make up a window of
addresses exactly, and every row of every bank gets as many bursts as it has columns.

A bound can be zero, though. Nothing checks that there is a channel or that a row buffer holds a
burst, and the number of rows is kept in 32 bits; `decodeAddr` then divides by zero.

Source: `mem/dram_ctrl.cc`.
-/
import Bindu.Lib.MixedRadix
import Bindu.Base.AddrRange
import Bindu.Mem.DramCtrl

namespace Bindu.Mem

open Bindu.Lib Bindu.Base Nat

namespace DRAMCtrl

/-! ## Decoding -/

def quotient (a b : ℕ) : Except DRAMFault ℕ :=
  if b = 0 then throw .division_by_zero else pure (a / b)

def remainder (a b : ℕ) : Except DRAMFault ℕ :=
  if b = 0 then throw .division_by_zero else pure (a % b)

variable (p : DRAMCtrlParams)

/-- The number of a burst as rank, bank and row. -/
def decodeBurst (addr : ℕ) : Except DRAMFault (ℕ × ℕ × ℕ) :=
  match p.addr_mapping with
  | .RoRaBaChCo => do
      let addr ← quotient addr p.columnsPerRowBuffer
      let addr ← quotient addr p.channels
      let bank ← remainder addr p.banks_per_rank
      let addr ← quotient addr p.banks_per_rank
      let rank ← remainder addr p.ranks_per_channel
      let addr ← quotient addr p.ranks_per_channel
      let row ← remainder addr p.rowsPerBank
      pure (rank, bank, row)
  | .RoRaBaCoCh => do
      let addr ← quotient addr p.columnsPerStripe
      let addr ← quotient addr p.channels
      let columns ← quotient p.columnsPerRowBuffer p.columnsPerStripe
      let addr ← quotient addr columns
      let bank ← remainder addr p.banks_per_rank
      let addr ← quotient addr p.banks_per_rank
      let rank ← remainder addr p.ranks_per_channel
      let addr ← quotient addr p.ranks_per_channel
      let row ← remainder addr p.rowsPerBank
      pure (rank, bank, row)
  | .RoCoRaBaCh => do
      let addr ← quotient addr p.columnsPerStripe
      let addr ← quotient addr p.channels
      let bank ← remainder addr p.banks_per_rank
      let addr ← quotient addr p.banks_per_rank
      let rank ← remainder addr p.ranks_per_channel
      let addr ← quotient addr p.ranks_per_channel
      let columns ← quotient p.columnsPerRowBuffer p.columnsPerStripe
      let addr ← quotient addr columns
      let row ← remainder addr p.rowsPerBank
      pure (rank, bank, row)

/-- Rank, bank and row of an address. Rank and bank are `uint8_t`. -/
def decode (dramPktAddr : ℕ) : Except DRAMFault (ℕ × ℕ × ℕ) := do
  let addr ← quotient dramPktAddr p.burstSize
  let (rank, bank, row) ← decodeBurst p addr
  let rank := rank % 2 ^ 8
  let bank := bank % 2 ^ 8
  require (decide (rank < p.ranks_per_channel)) .decode
  require (decide (bank < p.banks_per_rank)) .decode
  require (decide (row < p.rowsPerBank)) .decode
  require (decide (row < Bank.NO_ROW)) .decode
  pure (rank, bank, row)

/-- `decodeAddr`: a new `DRAMPacket`, the one with number `c.new`. -/
def decodeAddr (c : DRAMCtrl) (now : ℕ) (pkt : MemPacket) (dramPktAddr size : ℕ) (isRead : Bool) :
    Except DRAMFault DRAMPacket := do
  let (rank, bank, row) ← decode p dramPktAddr
  pure
    { id := c.new
      entryTime := now
      readyTime := now
      pkt := pkt
      masterId := pkt.masterId
      read := isRead
      rank := rank
      bank := bank
      row := row
      bankId := (p.banks_per_rank * rank + bank) % 2 ^ 16
      addr := dramPktAddr
      size := size
      qosValue := pkt.qosValue }

/-- The checks of `init`. -/
def init (range : AddrRange) (cacheLineSize : ℕ) : Except DRAMFault Unit :=
  if range.interleaved then do
    require (p.channels == range.stripes) .interleaving
    match p.addr_mapping with
    | .RoRaBaChCo => require (p.rowBufferSize == range.granularity) .interleaving
    | _ =>
      require (decide (1 ≤ p.columnsPerStripe)) .interleaving
      require (!decide (cacheLineSize > range.granularity)) .interleaving
      require (!decide (p.rowBufferSize < range.granularity)) .interleaving
      require (decide (p.columnsPerStripe ≤ p.columnsPerRowBuffer)) .interleaving
  else
    pure ()

/-- A configuration with which the constructor and `init` return. The constructor divides the
capacity by the bytes of one row of all banks, a 32-bit number. -/
structure Accepted (range : AddrRange) (cacheLineSize : ℕ) : Prop where
  range_size : p.range_size = range.size
  range_interleaved : p.range_interleaved = range.interleaved
  range_granularity : p.range_granularity = range.granularity
  check : p.check = .ok ()
  rows : p.rowBufferSize * p.banks_per_rank * p.ranks_per_channel % 2 ^ 32 ≠ 0
  init : init p range cacheLineSize = .ok ()

/-! ## What the rows are filled with -/

/-- The bursts of a channel's stripe of addresses, or of a row buffer: what lies below the
channel. -/
def columnsBelowChannel : ℕ :=
  match p.addr_mapping with
  | .RoRaBaChCo => p.columnsPerRowBuffer
  | _ => p.columnsPerStripe

/-- The channel of an address: the interleaving bits if there are some, and otherwise the digit
that `decodeAddr` drops. -/
def channelOf (range : AddrRange) (a : ℕ) : ℕ :=
  if range.interleaved then bits a range.intlvHighBit (range.intlvHighBit + 1 - range.intlvBits)
  else a / p.burstSize / columnsBelowChannel p % p.channels

/-- The bursts of window `w` that belong to channel `ch` and that `decodeAddr` takes to a row. -/
def burstsOfRow (range : AddrRange) (w ch : ℕ) (place : ℕ × ℕ × ℕ) : Finset ℕ :=
  (Finset.Ico (w * (p.capacity * p.channels)) ((w + 1) * (p.capacity * p.channels))).filter
    (fun a => a % p.burstSize = 0 ∧ channelOf p range a = ch ∧ (decode p a).toOption = some place)

/-- Every address has a place, and every place in each window the bursts of one row. -/
def FillsRows (range : AddrRange) : Prop :=
  (∀ a, ∃ rank bank row, decode p a = .ok (rank, bank, row) ∧ rank < p.ranks_per_channel
    ∧ bank < p.banks_per_rank ∧ row < p.rowsPerBank)
  ∧ ∀ w, ∀ ch < p.channels, ∀ rank < p.ranks_per_channel, ∀ bank < p.banks_per_rank,
    ∀ row < p.rowsPerBank, (burstsOfRow p range w ch (rank, bank, row)).card = p.columnsPerRowBuffer

/-! ## Bounds -/

variable {p}

theorem exists_two_pow_of_isPowerOf2 {n : ℕ} (h : isPowerOf2 n = true) : ∃ k, n = 2 ^ k := by
  simp only [isPowerOf2, Bool.and_eq_true, bne_iff_ne, beq_iff_eq] at h
  exact (and_sub_one_eq_zero_iff_isPowerOfTwo h.1).mp h.2

variable {cacheLineSize : ℕ} {range : AddrRange}

theorem Accepted.burst_two_pow (h : Accepted p range cacheLineSize) : ∃ b, p.burstSize = 2 ^ b:= by
  have hcheck := h.check
  unfold DRAMCtrlParams.check at hcheck
  obtain ⟨_, -, hcheck⟩ := bind_eq_ok.1 hcheck
  obtain ⟨_, hburst, -⟩ := bind_eq_ok.1 hcheck
  exact exists_two_pow_of_isPowerOf2 (of_require hburst)

theorem two_pow_dvd_of_div_pos {m n : ℕ} (h : 0 < 2 ^ n / 2 ^ m) : 2 ^ m ∣ 2 ^ n :=
  Nat.pow_dvd_pow 2 ((Nat.pow_le_pow_iff_right Nat.one_lt_two).1 (Nat.div_pos_iff.1 h).2)

theorem two_pow_lt_of_mod {k : ℕ} (h : 2 ^ k % 2 ^ 32 ≠ 0) : 2 ^ k < 2 ^ 32 := by
  by_contra hge
  have hle := (Nat.pow_le_pow_iff_right Nat.one_lt_two).1 (Nat.le_of_not_lt hge)
  exact h (Nat.mod_eq_zero_of_dvd (Nat.pow_dvd_pow 2 hle))

/-- The rows of the banks make up the capacity, a power of two, so their number is one as well. -/
theorem Accepted.rowsPerBank_eq (h : Accepted p range cacheLineSize)
    (hcap : p.rowBufferSize * p.banks_per_rank * p.ranks_per_channel ∣ p.capacity) :
    0 < p.rowBufferSize * p.banks_per_rank * p.ranks_per_channel ∧ ∃ n,
      p.capacity = p.rowBufferSize * p.banks_per_rank * p.ranks_per_channel * 2 ^ n
      ∧ p.rowsPerBank = 2 ^ n % 2 ^ 32 := by
  obtain ⟨m, -, hm⟩ := (Nat.dvd_prime_pow Nat.prime_two).1 hcap
  obtain ⟨q, hq⟩ := hcap
  obtain ⟨n, -, hn⟩ := (Nat.dvd_prime_pow Nat.prime_two).1 (Dvd.intro_left _ hq.symm)
  have hproduct := h.rows
  rw [hm] at hproduct hq
  rw [DRAMCtrlParams.rowsPerBank, hm, Nat.mod_eq_of_lt (two_pow_lt_of_mod hproduct), hq, hn,
    Nat.mul_div_cancel_left _ (Nat.two_pow_pos m)]
  exact ⟨Nat.two_pow_pos m, n, rfl, rfl⟩

/-- What holds of a configuration that is accepted, in which nothing is divided by zero. -/
structure Bounds (p : DRAMCtrlParams) : Prop where
  burst : 0 < p.burstSize
  columns : 0 < p.columnsPerRowBuffer
  stripe : 0 < p.columnsPerStripe
  stripes : p.columnsPerStripe * (p.columnsPerRowBuffer / p.columnsPerStripe)
    = p.columnsPerRowBuffer
  channels : 0 < p.channels
  banks : 0 < p.banks_per_rank ∧ p.banks_per_rank ≤ 256
  ranks : 0 < p.ranks_per_channel ∧ p.ranks_per_channel ≤ 256
  rows : 0 < p.rowsPerBank ∧ p.rowsPerBank < Bank.NO_ROW
  row_buffer : p.rowBufferSize = p.burstSize * p.columnsPerRowBuffer
  capacity : p.capacity = p.rowBufferSize * p.banks_per_rank * p.ranks_per_channel * p.rowsPerBank

theorem Accepted.bounds (h : Accepted p range cacheLineSize)
    (hchannels : 0 < p.channels) (hstripe : p.columnsPerStripe ∣ p.columnsPerRowBuffer)
    (hcap : p.rowBufferSize * p.banks_per_rank * p.ranks_per_channel ∣ p.capacity)
    (hbanks : p.banks_per_rank ≤ 256) (hranks : p.ranks_per_channel ≤ 256)
    (hcolumns : 0 < p.columnsPerRowBuffer) (hrows : 0 < p.rowsPerBank) : Bounds p := by
  obtain ⟨b, hb⟩ := h.burst_two_pow
  obtain ⟨hpos, n, hq, hrowsEq⟩ := h.rowsPerBank_eq hcap
  have hn : 2 ^ n < 2 ^ 32 := two_pow_lt_of_mod (hrowsEq ▸ hrows.ne')
  rw [mod_eq_of_lt hn] at hrowsEq
  -- the capacity is a power of two, so everything that divides it is one
  obtain ⟨r, -, hr⟩ := (dvd_prime_pow prime_two).1
    ((Dvd.intro _ (mul_assoc _ _ _).symm).trans hcap : p.rowBufferSize ∣ 2 ^ _)
  constructor
  case burst => rw [hb]; exact Nat.two_pow_pos b
  case columns => exact hcolumns
  case stripe => exact Nat.pos_of_dvd_of_pos hstripe hcolumns
  case stripes => exact Nat.mul_div_cancel' hstripe
  case channels => exact hchannels
  case banks => exact ⟨Nat.pos_of_mul_pos_left (Nat.pos_of_mul_pos_right hpos), hbanks⟩
  case ranks => exact ⟨Nat.pos_of_mul_pos_left hpos, hranks⟩
  case rows =>
    refine ⟨hrows, ?_⟩
    have hn32 := (Nat.pow_lt_pow_iff_right Nat.one_lt_two).1 hn
    have hle := Nat.pow_le_pow_right Nat.zero_lt_two (Nat.le_of_lt_succ hn32)
    rw [hrowsEq, Bank.NO_ROW]
    omega
  case row_buffer =>
    rw [DRAMCtrlParams.columnsPerRowBuffer, hr, hb] at hcolumns ⊢
    exact (Nat.mul_div_cancel' (two_pow_dvd_of_div_pos hcolumns)).symm
  case capacity => rw [hrowsEq, hq]

theorem granularity_eq (h : Accepted p range cacheLineSize)
    (hb : Bounds p) (hint : range.interleaved = true) (hpow : ∃ g, range.granularity = 2 ^ g) :
    range.granularity = p.burstSize * columnsBelowChannel p := by
  have hinit := h.init
  unfold init at hinit
  rw [if_pos hint] at hinit
  obtain ⟨_, -, hrest⟩ := bind_eq_ok.1 hinit
  have hstripe : range.granularity = p.burstSize * p.columnsPerStripe := by
    obtain ⟨g, hg⟩ := hpow
    obtain ⟨b, hburst⟩ := h.burst_two_pow
    have hpos := hb.stripe
    rw [DRAMCtrlParams.columnsPerStripe, h.range_interleaved, if_pos hint, h.range_granularity, hg,
      hburst] at hpos ⊢
    exact (Nat.mul_div_cancel' (two_pow_dvd_of_div_pos hpos)).symm
  unfold columnsBelowChannel
  cases hmap : p.addr_mapping with
  | RoRaBaChCo =>
    rw [hmap] at hrest
    rw [← hb.row_buffer]
    exact (beq_iff_eq.1 (of_require hrest)).symm
  | RoRaBaCoCh => exact hstripe
  | RoCoRaBaCh => exact hstripe

/-- The interleaving bits are the digit that `decodeAddr` drops. -/
theorem channelOf_eq (h : Accepted p range cacheLineSize)
    (hb : Bounds p) (hhash : range.hashed = false) (a : ℕ) :
    channelOf p range a = a / p.burstSize / columnsBelowChannel p % p.channels := by
  unfold channelOf
  split_ifs with hint
  · obtain ⟨hslice, -⟩ := range.intlv_slice (of_decide_eq_true hint)
    have hgran : range.granularity = 2 ^ (range.intlvHighBit + 1 - range.intlvBits) := by
      rw [AddrRange.granularity, if_pos hint]
      rw [hhash, if_neg Bool.false_ne_true, one_shiftLeft]
    have hchannels : p.channels = 2 ^ range.intlvBits := by
      have hinit := h.init
      unfold init at hinit
      rw [if_pos hint] at hinit
      obtain ⟨_, hstripes, -⟩ := bind_eq_ok.1 hinit
      rw [beq_iff_eq.1 (of_require hstripes), AddrRange.stripes, Nat.one_shiftLeft]
    rw [bits_eq, hchannels, Nat.div_div_eq_div_mul, ← granularity_eq h hb hint ⟨_, hgran⟩, hgran]
    congr 2
    omega
  · rfl

/-- The digits of an address, with those given that `decodeAddr` gives a meaning. -/
def layout (p : DRAMCtrlParams) (ch rank bank row : ℕ) : List (ℕ × Option ℕ) :=
  match p.addr_mapping with
  | .RoRaBaChCo =>
    [(p.burstSize, some 0), (p.columnsPerRowBuffer, none), (p.channels, some ch),
      (p.banks_per_rank, some bank), (p.ranks_per_channel, some rank), (p.rowsPerBank, some row)]
  | .RoRaBaCoCh =>
    [(p.burstSize, some 0), (p.columnsPerStripe, none), (p.channels, some ch),
      (p.columnsPerRowBuffer / p.columnsPerStripe, none), (p.banks_per_rank, some bank),
      (p.ranks_per_channel, some rank), (p.rowsPerBank, some row)]
  | .RoCoRaBaCh =>
    [(p.burstSize, some 0), (p.columnsPerStripe, none), (p.channels, some ch),
      (p.banks_per_rank, some bank), (p.ranks_per_channel, some rank),
      (p.columnsPerRowBuffer / p.columnsPerStripe, none), (p.rowsPerBank, some row)]

theorem size_layout (hb : Bounds p) (ch rank bank row : ℕ) :
    Hits.size (layout p ch rank bank row) = p.capacity * p.channels := by
  rw [hb.capacity, hb.row_buffer]
  have hstripes := hb.stripes
  unfold layout Hits.size
  generalize p.columnsPerRowBuffer / p.columnsPerStripe = columns at hstripes ⊢
  cases p.addr_mapping <;>
    simp only [List.map_cons, List.map_nil, List.prod_cons, List.prod_nil, ← hstripes] <;> ring

theorem choices_layout (hb : Bounds p) (ch rank bank row : ℕ) :
    Hits.choices (layout p ch rank bank row) = p.columnsPerRowBuffer := by
  have hstripes := hb.stripes
  unfold layout Hits.choices
  cases p.addr_mapping <;> simp [hstripes]

theorem layout_pos (hb : Bounds p) (ch rank bank row : ℕ) :
    ∀ e ∈ layout p ch rank bank row, 0 < e.1 := by
  have hcolumns : 0 < p.columnsPerRowBuffer / p.columnsPerStripe :=
    Nat.pos_of_mul_pos_left (hb.stripes.symm ▸ hb.columns)
  have hpos := And.intro hb.burst (And.intro hb.stripe (And.intro hb.channels
    (And.intro hb.banks.1 (And.intro hb.ranks.1 hb.rows.1))))
  unfold layout
  cases p.addr_mapping <;> simp [hb.columns, hcolumns, hpos]

theorem layout_given (hb : Bounds p) {ch rank bank row : ℕ} (hch : ch < p.channels)
    (hrank : rank < p.ranks_per_channel) (hbank : bank < p.banks_per_rank)
    (hrow : row < p.rowsPerBank) :
    ∀ e ∈ layout p ch rank bank row, ∀ x ∈ e.2, x < e.1 := by
  unfold layout
  cases p.addr_mapping <;> simp [hch, hrank, hbank, hrow, hb.burst]

theorem quotient_pos {a b : ℕ} (hb : 0 < b) : quotient a b = .ok (a / b) := if_neg hb.ne'

theorem remainder_pos {a b : ℕ} (hb : 0 < b) : remainder a b = .ok (a % b) := if_neg hb.ne'

/-- What a burst's number is taken apart into are the given digits of the address. -/
theorem decodeBurst_ok (hb : Bounds p) (a : ℕ) :
    ∃ rank < p.ranks_per_channel, ∃ bank < p.banks_per_rank, ∃ row < p.rowsPerBank,
      decodeBurst p (a / p.burstSize) = .ok (rank, bank, row)
      ∧ ∀ ch rank' bank' row', Hits (layout p ch rank' bank' row') a
        ↔ a % p.burstSize = 0 ∧ a / p.burstSize / columnsBelowChannel p % p.channels = ch
          ∧ bank = bank' ∧ rank = rank' ∧ row = row' := by
  have hcolumns : 0 < p.columnsPerRowBuffer / p.columnsPerStripe :=
    Nat.pos_of_mul_pos_left (hb.stripes.symm ▸ hb.columns)
  unfold decodeBurst layout columnsBelowChannel
  cases p.addr_mapping <;>
    simp only [quotient_pos, remainder_pos, hb.columns, hb.stripe, hb.channels, hb.banks.1,
      hb.ranks.1, hb.rows.1, hcolumns, ok_bind] <;>
    refine ⟨_, mod_lt _ hb.ranks.1, _, mod_lt _ hb.banks.1, _, mod_lt _ hb.rows.1,
      rfl, fun ch rank' bank' row' => ?_⟩ <;>
    simp [Hits]

theorem decode_ok (hb : Bounds p) (a : ℕ) :
    ∃ rank < p.ranks_per_channel, ∃ bank < p.banks_per_rank, ∃ row < p.rowsPerBank,
      decode p a = .ok (rank, bank, row)
      ∧ ∀ ch rank' bank' row', Hits (layout p ch rank' bank' row') a
        ↔ a % p.burstSize = 0 ∧ a / p.burstSize / columnsBelowChannel p % p.channels = ch
          ∧ bank = bank' ∧ rank = rank' ∧ row = row' := by
  obtain ⟨rank, hrank, bank, hbank, row, hrow, hdecode, hhits⟩ := decodeBurst_ok hb a
  refine ⟨rank, hrank, bank, hbank, row, hrow, ?_, hhits⟩
  have hrank8 : rank % 2 ^ 8 = rank := mod_eq_of_lt (by have := hb.ranks.2; omega)
  have hbank8 : bank % 2 ^ 8 = bank := mod_eq_of_lt (by have := hb.banks.2; omega)
  rw [decode, quotient_pos hb.burst, ok_bind, hdecode, ok_bind]
  dsimp only
  rw [hrank8, hbank8, decide_eq_true hrank, decide_eq_true hbank, decide_eq_true hrow,
    decide_eq_true (hrow.trans hb.rows.2)]
  rfl

/-! ## Rows are filled exactly where nothing is divided by zero -/

theorem quotient_eq_ok {a b c : ℕ} : quotient a b = .ok c ↔ 0 < b ∧ a / b = c := by
  rw [quotient]
  split_ifs with h <;> simp [h, pos_iff_ne_zero, pure, Except.pure]

theorem remainder_eq_ok {a b c : ℕ} : remainder a b = .ok c ↔ 0 < b ∧ a % b = c := by
  rw [remainder]
  split_ifs with h <;> simp [h, pos_iff_ne_zero, pure, Except.pure]

/-- An address with a place has been divided by the channels, the columns and the rows. -/
theorem bounds_of_decode {a : ℕ} {place : ℕ × ℕ × ℕ} (h : decode p a = .ok place) :
    0 < p.channels ∧ 0 < p.columnsPerRowBuffer ∧ 0 < p.rowsPerBank := by
  rw [decode] at h
  obtain ⟨addr, -, h⟩ := bind_eq_ok.1 h
  obtain ⟨place', h, -⟩ := bind_eq_ok.1 h
  unfold decodeBurst at h
  cases hmap : p.addr_mapping <;> rw [hmap] at h <;>
    simp only [bind_eq_ok, quotient_eq_ok, remainder_eq_ok] at h
  case RoRaBaChCo =>
    obtain ⟨_, ⟨hcolumns, -⟩, _, ⟨hchannels, -⟩, _, -, _, -, _, -, _, -, _, ⟨hrows, -⟩, -⟩ := h
    exact ⟨hchannels, hcolumns, hrows⟩
  case RoRaBaCoCh =>
    obtain ⟨_, -, _, ⟨hchannels, -⟩, _, ⟨-, rfl⟩, _, ⟨hcolumns, -⟩, _, -, _, -, _, -, _, -, _,
      ⟨hrows, -⟩, -⟩ := h
    exact ⟨hchannels, pos_of_div_pos hcolumns, hrows⟩
  case RoCoRaBaCh =>
    obtain ⟨_, -, _, ⟨hchannels, -⟩, _, -, _, -, _, -, _, -, _, ⟨-, rfl⟩, _, ⟨hcolumns, -⟩, _,
      ⟨hrows, -⟩, -⟩ := h
    exact ⟨hchannels, pos_of_div_pos hcolumns, hrows⟩

theorem Accepted.columns_pos_iff (h : Accepted p range cacheLineSize) :
    0 < p.columnsPerRowBuffer ↔ p.burstSize ≤ p.rowBufferSize := by
  obtain ⟨b, hb⟩ := h.burst_two_pow
  rw [DRAMCtrlParams.columnsPerRowBuffer, Nat.div_pos_iff, hb]
  exact and_iff_right (Nat.two_pow_pos b)

/-- The number of rows is zero in 32 bits if there are `2 ^ 32` of them or more. -/
theorem Accepted.rows_pos_iff (h : Accepted p range cacheLineSize)
    (hcap : p.rowBufferSize * p.banks_per_rank * p.ranks_per_channel ∣ p.capacity) :
    0 < p.rowsPerBank
      ↔ p.capacity < 2 ^ 32 * (p.rowBufferSize * p.banks_per_rank * p.ranks_per_channel) := by
  obtain ⟨hm, n, hq, hrows⟩ := h.rowsPerBank_eq hcap
  rw [hrows, hq, mul_comm, Nat.mul_lt_mul_right hm, Nat.pos_iff_ne_zero]
  refine ⟨two_pow_lt_of_mod, fun hlt => ?_⟩
  rw [Nat.mod_eq_of_lt hlt]
  exact (Nat.two_pow_pos n).ne'

/-- **Decoding fills the rows exactly**, unless it divides by zero. -/
theorem decode_fills_rows {range : AddrRange} {cacheLineSize : ℕ}
    (h : Accepted p range cacheLineSize) (hhash : range.hashed = false)
    (hstripe : p.columnsPerStripe ∣ p.columnsPerRowBuffer)
    (hcap : p.rowBufferSize * p.banks_per_rank * p.ranks_per_channel ∣ p.capacity)
    (hbanks : p.banks_per_rank ≤ 256) (hranks : p.ranks_per_channel ≤ 256) :
    FillsRows p range ↔ 0 < p.channels ∧ p.burstSize ≤ p.rowBufferSize
      ∧ p.capacity < 2 ^ 32 * (p.rowBufferSize * p.banks_per_rank * p.ranks_per_channel) := by
  rw [← h.columns_pos_iff, ← h.rows_pos_iff hcap]
  refine ⟨fun hfills => ?_, ?_⟩
  · obtain ⟨_, _, _, hdecode, -⟩ := hfills.1 0
    exact bounds_of_decode hdecode
  · rintro ⟨hchannels, hcolumns, hrows⟩
    have hb := h.bounds hchannels hstripe hcap hbanks hranks hcolumns hrows
    refine ⟨fun a => ?_, fun w ch hch rank hrank bank hbank row hrow => ?_⟩
    · obtain ⟨rank, hrank, bank, hbank, row, hrow, hdecode, -⟩ := decode_ok hb a
      exact ⟨rank, bank, row, hdecode, hrank, hbank, hrow⟩
    · rw [← choices_layout hb ch rank bank row, ← Hits.card (layout_pos hb ch rank bank row)
        (layout_given hb hch hrank hbank hrow) w, size_layout hb]
      refine congrArg Finset.card (Finset.filter_congr fun a _ => ?_)
      obtain ⟨rank', -, bank', -, row', -, hdecode, hhits⟩ := decode_ok hb a
      rw [hhits, channelOf_eq h hb hhash, hdecode]
      simp only [Except.toOption, Option.some.injEq, Prod.mk.injEq]
      tauto

/-- A small configuration: two channels, stripes of 64 bytes, one rank of four banks. -/
def twoChannels (device_rowbuffer_size : ℕ) : DRAMCtrlParams where
  range_size := 1024
  range_interleaved := true
  range_granularity := 64
  device_bus_width := 64
  burst_length := 8
  device_rowbuffer_size := device_rowbuffer_size
  devices_per_rank := 1
  ranks_per_channel := 1
  banks_per_rank := 4
  channels := 2
  tRTW := 1
  tCS := 1
  tBURST := 5
  tRCD := 13
  tCL := 13
  tRP := 13
  tRAS := 35
  tWR := 15
  tWTR := 7
  tRTP := 7
  tRFC := 260
  tREFI := 7800
  tRRD := 6
  tXAW := 30
  tCK := 1
  activation_limit := 4

/-- The stripes of the first of two channels in 2048 bytes. -/
def firstStripes : AddrRange where
  _start := 0
  _end := 2047
  intlvHighBit := 6
  xorHighBit := 0
  intlvBits := 1
  intlvMatch := 0
  start_lt := Nat.two_pow_pos 64
  end_lt := by norm_num
  match_byte := Nat.two_pow_pos 8
  intlv_slice := by decide
  xor_slice _ h := absurd rfl h
  match_lt := by decide
  xor_apart _ h := absurd rfl h

theorem twoChannels_accepted : Accepted (twoChannels 128) firstStripes 64 where
  range_size := by decide
  range_interleaved := by decide
  range_granularity := by decide
  check := by rfl
  rows := by decide
  init := by rfl

theorem decode_fills_rows_twoChannels : FillsRows (twoChannels 128) firstStripes :=
  (decode_fills_rows twoChannels_accepted (by decide) (by decide) (by decide +kernel) (by decide)
    (by decide)).2 (by decide +kernel)

/-- The same mapping without interleaving, and with a row buffer that is smaller than a burst. -/
def smallRows : DRAMCtrlParams :=
  { twoChannels 32 with range_interleaved := false, channels := 1, range_granularity := 1024 }

/-- Such a configuration is accepted, and no address can be decoded. -/
theorem decode_divides_by_zero :
    Accepted smallRows (AddrRange.plain 0 1023 (by decide) (by decide)) 64
    ∧ smallRows.columnsPerStripe ∣ smallRows.columnsPerRowBuffer
    ∧ smallRows.rowBufferSize * smallRows.banks_per_rank * smallRows.ranks_per_channel
      ∣ smallRows.capacity
    ∧ smallRows.banks_per_rank ≤ 256 ∧ smallRows.ranks_per_channel ≤ 256
    ∧ decode smallRows 0 = .error .division_by_zero
    ∧ ¬ FillsRows smallRows (AddrRange.plain 0 1023 (by decide) (by decide)) := by
  have hdecode : decode smallRows 0 = .error .division_by_zero := by rfl
  refine ⟨?_, by decide, by decide +kernel, by decide, by decide, hdecode, fun hfills => ?_⟩
  · exact ⟨by decide, by decide, by decide, by rfl, by decide, by rfl⟩
  · obtain ⟨_, _, _, hok, -⟩ := hfills.1 0
    rw [hdecode] at hok
    cases hok

end DRAMCtrl

end Bindu.Mem
