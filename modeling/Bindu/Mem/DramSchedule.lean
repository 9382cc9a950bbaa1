/-
First-ready, first-come-first-served scheduling: `DRAMCtrl::chooseNextFRFCFS` and the search for
the banks that can be opened first, `DRAMCtrl::minBankPrep`.

The scan of the queue keeps four flags and asks for the banks only when it meets a packet that is
no row hit. That it finds a packet whenever there is one for an available rank rests on the mask of
`minBankPrep`: a bank is set in it only if a packet waits for it, and it is never left empty. Were
none of the packets that wait for a bank of the mask a row miss, one of them would have been
selected as a hit.

Banks are told apart by 16-bit numbers. With more than `2 ^ 16` of them two banks share one, and
a packet for one makes the search look at the other, whose rank may be refreshing.

Ticks are `uint64_t`; sums and differences of them wrap around.

Source: `mem/dram_ctrl.cc`.
-/
import Bindu.Mem.DramDecode

namespace Bindu.Mem

open Bindu.Lib List Option Nat

namespace DRAMCtrl

variable (p : DRAMCtrlParams) (c : DRAMCtrl) (now min_col_at : ℕ) (queue : List DRAMPacket)

/-! ## The banks that can be opened first -/

/-- "check if rank is not doing a refresh and thus is available" -/
def available (d : DRAMPacket) : Bool := (c.ranks d.rank).inRefIdleState

/-- The variables of the search in `minBankPrep`. The mask has a bit for each bank, of which a rank
has at most 32. -/
structure BankSearch where
  min_act_at : ℕ := MaxTick
  bank_mask : ℕ → ℕ → Bool := fun _ _ => false
  found_seamless_bank : Bool := false
  hidden_bank_prep : Bool := false

def got_waiting (bank_id : ℕ) : Bool := queue.any (fun d => available c d && d.bankId == bank_id)

/-- When the bank can issue an activate. -/
def actAt (bank : Bank) : ℕ :=
  if bank.openRow == Bank.NO_ROW then max bank.actAllowedAt now
  else (max bank.preAllowedAt now + p.tRP) % 2 ^ 64

/-- A bank with waiting packets that can issue an activate at `act_at`. -/
def noteBank (s : BankSearch) (i j act_at : ℕ) (new_seamless_bank hidden : Bool) : BankSearch :=
  if new_seamless_bank || (!s.found_seamless_bank && decide (act_at ≤ s.min_act_at)) then
    let reset := !s.found_seamless_bank && (new_seamless_bank || decide (act_at < s.min_act_at))
    let mask := if reset then fun _ _ => false else s.bank_mask
    { min_act_at := act_at
      bank_mask := Function.update mask i (Function.update (mask i) j true)
      found_seamless_bank := s.found_seamless_bank || new_seamless_bank
      hidden_bank_prep := hidden }
  else
    s

/-- The body of the loop of `minBankPrep`, for bank `j` of rank `i`. -/
def searchBank (s : BankSearch) (ij : ℕ × ℕ) : Except DRAMFault BankSearch :=
  let (i, j) := ij
  if got_waiting c queue ((i * p.banks_per_rank + j) % 2 ^ 16) then do
    require (c.ranks i).inRefIdleState .rank_refreshing
    let bank := (c.ranks i).banks j
    let act_at := actAt p now bank
    let col_allowed_at := if c.busState = .READ then bank.rdAllowedAt else bank.wrAllowedAt
    let col_at := max col_allowed_at ((act_at + p.tRCD) % 2 ^ 64)
    let hidden_act_max := max ((min_col_at + 2 ^ 64 - p.tRCD) % 2 ^ 64) now
    pure (noteBank s i j act_at (decide (col_at ≤ min_col_at)) (decide (act_at ≤ hidden_act_max)))
  else
    pure s

/-- Ranks and banks in the order of the two loops. -/
def allBanks : List (ℕ × ℕ) :=
  (range p.ranks_per_channel).flatMap (fun i => (range p.banks_per_rank).map (fun j => (i, j)))

def minBankPrep : Except DRAMFault BankSearch :=
  (allBanks p).foldlM (searchBank p c now min_col_at queue) {}

/-! ## The scan of the queue -/

/-- The variables of the loop of `chooseNextFRFCFS`. `earliest` is what `minBankPrep` returned, if
it has been called. -/
structure Choice where
  earliest : Option BankSearch := none
  found_hidden_bank : Bool := false
  found_prepped_pkt : Bool := false
  found_earliest_pkt : Bool := false
  selected : Option ℕ := none

def rowHit (d : DRAMPacket) : Bool := ((c.ranks d.rank).banks d.bank).openRow == d.row

/-- A row hit whose column command can be issued by `min_col_at`. -/
def seamless (d : DRAMPacket) : Bool :=
  let bank := (c.ranks d.rank).banks d.bank
  let col_allowed_at := if d.read then bank.rdAllowedAt else bank.wrAllowedAt
  available c d && rowHit c d && decide (col_allowed_at ≤ min_col_at)

/-- A packet that is not a row hit: is its bank among the earliest? -/
def considerBank (s : Choice) (banks : BankSearch) (i : ℕ) (d : DRAMPacket) : Choice :=
  let s := { s with earliest := some banks }
  if banks.bank_mask d.rank d.bank then
    { s with
      found_earliest_pkt := true
      found_hidden_bank := banks.hidden_bank_prep
      selected := if banks.hidden_bank_prep || !s.found_prepped_pkt then some i else s.selected }
  else
    s

/-- "if we have not initialised the bank status, do it now, and only once" -/
def earliestBanks (s : Choice) : Except DRAMFault BankSearch :=
  match s.earliest with
  | some banks => pure banks
  | none => minBankPrep p c now min_col_at queue

/-- The body of the loop, for the packet at position `i` if it does not end the search. -/
def consider (s : Choice) (i : ℕ) (d : DRAMPacket) : Except DRAMFault Choice :=
  if available c d then
    if rowHit c d then
      if !s.found_hidden_bank && !s.found_prepped_pkt then
        pure { s with selected := some i, found_prepped_pkt := true }
      else
        pure s
    else if !s.found_earliest_pkt then do
      let banks ← earliestBanks p c now min_col_at queue s
      pure (considerBank s banks i d)
    else
      pure s
  else
    pure s

/-- The loop of `chooseNextFRFCFS`, from position `i` on. A seamless row hit ends it. -/
def frfcfsLoop : ℕ → List DRAMPacket → Choice → Except DRAMFault (Option ℕ)
  | _, [], s => pure s.selected
  | i, d :: rest, s =>
    if seamless c min_col_at d then
      pure (some i)
    else do
      let s ← consider p c now min_col_at queue s i d
      frfcfsLoop (i + 1) rest s

/-- "time we need to issue a column command to be seamless" -/
def minColAt (extra_col_delay : ℕ) : ℕ := max ((c.nextBurstAt + extra_col_delay) % 2 ^ 64) now

def chooseNextFRFCFS (extra_col_delay : ℕ) : Except DRAMFault (Option ℕ) :=
  frfcfsLoop p c now (minColAt c now extra_col_delay) queue 0 queue {}

/-! ## What is asked of a scheduler -/

/-- Packets as `decodeAddr` makes them, and ticks of 64 bits. -/
structure Decoded : Prop where
  rank : ∀ d ∈ queue, d.rank < p.ranks_per_channel
  bank : ∀ d ∈ queue, d.bank < p.banks_per_rank
  bankId : ∀ d ∈ queue, d.bankId = (p.banks_per_rank * d.rank + d.bank) % 2 ^ 16
  now : now ≤ MaxTick
  actAllowedAt : ∀ i j, ((c.ranks i).banks j).actAllowedAt ≤ MaxTick

/-- The position `r` is a good choice from the queue. -/
structure HitFirst (r : Option ℕ) : Prop where
  conserving : r = none → ∀ d ∈ queue, available c d = false
  available : ∀ k ∈ r, ∃ d, queue[k]? = some d ∧ available c d = true
  seamless : ∀ k ∈ queue.findIdx? (seamless c min_col_at), r = some k
  hit : queue.findIdx? (DRAMCtrl.seamless c min_col_at) = none →
    ∀ banks, minBankPrep p c now min_col_at queue = .ok banks → banks.hidden_bank_prep = false →
      ∀ k ∈ queue.findIdx? (fun d => DRAMCtrl.available c d && rowHit c d), r = some k

/-! ## The mask is never left empty -/

variable {p c now min_col_at queue}

theorem mem_allBanks {ij : ℕ × ℕ} :
    ij ∈ allBanks p ↔ ij.1 < p.ranks_per_channel ∧ ij.2 < p.banks_per_rank := by
  obtain ⟨i, j⟩ := ij
  simp [allBanks]

theorem actAt_le (h : Decoded p c now queue) (i j : ℕ) :
    actAt p now ((c.ranks i).banks j) ≤ MaxTick := by
  unfold actAt
  split_ifs
  · exact max_le (h.actAllowedAt i j) h.now
  · exact le_of_lt_succ (mod_lt _ (by norm_num))

/-- With no more than `2 ^ 16` banks a number stands for one of them. -/
theorem eq_of_bankId {i j i' j' n m : ℕ} (hfit : m * n ≤ 2 ^ 16) (hi : i < m) (hj : j < n)
    (hi' : i' < m) (hj' : j' < n) (h : (n * i' + j') % 2 ^ 16 = (i * n + j) % 2 ^ 16) :
    i' = i ∧ j' = j := by
  have hlt : ∀ {a b}, a < m → b < n → n * a + b < 2 ^ 16 := by
    intro a b ha hb
    calc n * a + b < n * a + n := by omega
      _ = (a + 1) * n := by ring
      _ ≤ m * n := mul_le_mul_right n ha
      _ ≤ 2 ^ 16 := hfit
  rw [mul_comm i n, mod_eq_of_lt (hlt hi' hj'), mod_eq_of_lt (hlt hi hj)] at h
  have hpos : 0 < n := by omega
  have hdiv := congrArg (· / n) h
  have hmod := congrArg (· % n) h
  rw [mul_add_div hpos, mul_add_div hpos, div_eq_of_lt hj', div_eq_of_lt hj] at hdiv
  rw [mul_add_mod, mul_add_mod, mod_eq_of_lt hj', mod_eq_of_lt hj] at hmod
  exact ⟨hdiv, hmod⟩

/-- The search while `rest` is still to be looked at: a bank with a waiting packet is in the mask,
or the search is as at its start and all such banks are yet to come. -/
structure Searching (c : DRAMCtrl) (queue : List DRAMPacket) (rest : List (ℕ × ℕ))
    (s : BankSearch) : Prop where
  found : (∃ d ∈ queue, available c d = true ∧ s.bank_mask d.rank d.bank = true)
    ∨ (s.min_act_at = MaxTick ∧ s.found_seamless_bank = false
      ∧ ∀ d ∈ queue, available c d = true → (d.rank, d.bank) ∈ rest)

/-- A bank enters the mask, or the mask stays; it enters if the search is as at its start. -/
theorem noteBank_mask (s : BankSearch) (i j act_at : ℕ) (seamless hidden : Bool) :
    (noteBank s i j act_at seamless hidden).bank_mask i j = true
    ∨ noteBank s i j act_at seamless hidden = s
      ∧ ¬ (s.found_seamless_bank = false ∧ act_at ≤ s.min_act_at) := by
  unfold noteBank
  split
  case isTrue h => exact .inl (by simp)
  case isFalse h =>
    refine .inr ⟨rfl, fun ⟨hfound, hle⟩ => h ?_⟩
    rw [hfound, decide_eq_true hle]
    exact Bool.or_true _

theorem searchBank_searching (hfit : p.ranks_per_channel * p.banks_per_rank ≤ 2 ^ 16)
    (h : Decoded p c now queue) {i j : ℕ} {rest : List (ℕ × ℕ)} {s : BankSearch}
    (hij : (i, j) ∈ allBanks p) (hs : Searching c queue ((i, j) :: rest) s) :
    Ok (Searching c queue rest) ⊥ (searchBank p c now min_col_at queue s (i, j)) := by
  rw [mem_allBanks] at hij
  unfold searchBank
  dsimp only
  by_cases hwait : got_waiting c queue ((i * p.banks_per_rank + j) % 2 ^ 16) = true
  · obtain ⟨d, hd, hwaits⟩ := any_eq_true.1 hwait
    rw [Bool.and_eq_true, beq_iff_eq, h.bankId d hd] at hwaits
    obtain ⟨rfl, rfl⟩ := eq_of_bankId hfit hij.1 hij.2 (h.rank d hd) (h.bank d hd) hwaits.2
    have hidle : (c.ranks d.rank).inRefIdleState = true := hwaits.1
    rw [if_pos hwait, hidle, require_true, ok_bind]
    obtain hin | ⟨heq, hnot⟩ := noteBank_mask s d.rank d.bank _ _ _
    · exact ⟨.inl ⟨d, hd, hwaits.1, hin⟩⟩
    · rw [heq]
      refine ⟨.inl (hs.found.resolve_right fun ⟨hmin, hseam, _⟩ => hnot ⟨hseam, ?_⟩)⟩
      rw [hmin]
      exact actAt_le h d.rank d.bank
  · rw [if_neg hwait]
    obtain hfound | ⟨hmin, hseam, hrest⟩ := hs.found
    · exact ⟨.inl hfound⟩
    · refine ⟨.inr ⟨hmin, hseam, fun d hd havail => ?_⟩⟩
      refine (mem_cons.1 (hrest d hd havail)).resolve_left fun heq => hwait ?_
      obtain ⟨rfl, rfl⟩ := Prod.mk.inj heq
      refine any_eq_true.2 ⟨d, hd, ?_⟩
      rw [havail, h.bankId d hd, mul_comm, Bool.true_and, beq_self_eq_true]

theorem minBankPrep_ok (hfit : p.ranks_per_channel * p.banks_per_rank ≤ 2 ^ 16)
    (h : Decoded p c now queue) :
    ∃ banks, minBankPrep p c now min_col_at queue = .ok banks ∧ ((∃ d ∈ queue, available c d = true)
      → ∃ d ∈ queue, available c d = true ∧ banks.bank_mask d.rank d.bank = true) := by
  have hloop : Ok (fun s => Searching c queue [] s ∧ True) ⊥
      (minBankPrep p c now min_col_at queue) := by
    refine (Ok.foldlM (fun rest s => Searching c queue rest s ∧ ∀ ij ∈ rest, ij ∈ allBanks p) _ _
      ⟨⟨.inr ⟨rfl, rfl, fun d hd _ => ?_⟩⟩, fun _ hij => hij⟩ ?_).imp fun s hs => ⟨hs.1, trivial⟩
    · exact mem_allBanks.2 ⟨h.rank d hd, h.bank d hd⟩
    · rintro ⟨i, j⟩ rest s ⟨hs, hrest⟩
      rw [forall_mem_cons] at hrest
      exact (searchBank_searching hfit h hrest.1 hs).imp fun s' hs' => ⟨hs', hrest.2⟩
  obtain ⟨banks, hbanks, hsearch, -⟩ := hloop.returns
  refine ⟨banks, hbanks, fun ⟨d, hd, havail⟩ => ?_⟩
  obtain hfound | ⟨-, -, hnone⟩ := hsearch.found
  · exact hfound
  · exact absurd (hnone d hd havail) not_mem_nil

/-! ## The scan -/

/-- The scan behind the packets `pre`, none of them a seamless hit; `B` is what `minBankPrep`
returns. -/
structure Scan (c : DRAMCtrl) (B : BankSearch) (pre : List DRAMPacket) (s : Choice) : Prop where
  earliest : ∀ banks ∈ s.earliest, banks = B
  selected : ∀ k ∈ s.selected, ∃ d, pre[k]? = some d ∧ available c d = true
  nothing : s.selected = none → s.found_earliest_pkt = false ∧ s.found_prepped_pkt = false
    ∧ s.found_hidden_bank = false
    ∧ ∀ d ∈ pre, available c d = true → B.bank_mask d.rank d.bank = false
  hit : B.hidden_bank_prep = false → s.found_hidden_bank = false
    ∧ s.found_prepped_pkt = (pre.findIdx? (fun d => available c d && rowHit c d)).isSome
    ∧ ∀ k ∈ pre.findIdx? (fun d => available c d && rowHit c d), s.selected = some k

variable {pre : List DRAMPacket} {B : BankSearch}

theorem Scan.skip {s : Choice} {d : DRAMPacket} (h : Scan c B pre s)
    (hmask : available c d = true → s.selected = none → B.bank_mask d.rank d.bank = false)
    (hhit : (available c d && rowHit c d) = true → s.found_prepped_pkt = true
      ∨ B.hidden_bank_prep = true) : Scan c B (pre ++ [d]) s := by
  constructor
  case earliest => exact h.earliest
  case selected =>
    intro k hk
    obtain ⟨e, he, havail⟩ := h.selected k hk
    exact ⟨e, by rw [List.getElem?_append_left (List.getElem?_eq_some_iff.1 he).1, he], havail⟩
  case nothing =>
    intro hnone
    obtain ⟨hearliest, hprepped, hhidden, hpre⟩ := h.nothing hnone
    refine ⟨hearliest, hprepped, hhidden, fun e he havail => ?_⟩
    obtain he | he := mem_append.1 he
    · exact hpre e he havail
    · rw [mem_singleton] at he
      subst he
      exact hmask havail hnone
  case hit =>
    intro hno
    obtain ⟨hhidden, hprepped, hselected⟩ := h.hit hno
    have heq : (pre ++ [d]).findIdx? (fun d => available c d && rowHit c d)
        = pre.findIdx? (fun d => available c d && rowHit c d) := by
      rw [findIdx?_append]
      cases hfirst : pre.findIdx? (fun d => available c d && rowHit c d) with
      | some k => rfl
      | none =>
        rw [hfirst] at hprepped
        have hd : (available c d && rowHit c d) ≠ true := fun hd => by
          simpa [hno, hprepped] using hhit hd
        simp [findIdx?_cons, hd]
    rw [heq]
    exact ⟨hhidden, hprepped, hselected⟩

theorem Scan.select {s s' : Choice} {d : DRAMPacket}
    (h : Scan c B pre s) (havail : available c d = true)
    (hearliest : ∀ banks ∈ s'.earliest, banks = B) (hselected : s'.selected = some pre.length)
    (hhit : B.hidden_bank_prep = false → s.found_prepped_pkt = false
      ∧ s'.found_hidden_bank = false ∧ s'.found_prepped_pkt = rowHit c d) :
    Scan c B (pre ++ [d]) s' := by
  constructor
  case earliest => exact hearliest
  case selected =>
    intro k hk
    rw [hselected, mem_some_iff] at hk
    exact ⟨d, by rw [← hk, getElem?_concat_length], havail⟩
  case nothing =>
    intro hnone
    rw [hselected] at hnone
    cases hnone
  case hit =>
    intro hno
    obtain ⟨hnotprepped, hhidden, hprepped⟩ := hhit hno
    have hpre : pre.findIdx? (fun d => available c d && rowHit c d) = none := by
      rw [← not_isSome_iff_eq_none, ← (h.hit hno).2.1, hnotprepped]
      exact Bool.false_ne_true
    rw [findIdx?_append, hpre, hprepped, hhidden, hselected]
    cases hd : rowHit c d <;> simp [findIdx?_cons, havail, hd]

theorem considerBank_scan {s : Choice} {d : DRAMPacket}
    (h : Scan c B pre s) (havail : available c d = true) (hmiss : rowHit c d = false) :
    Scan c B (pre ++ [d]) (considerBank s B pre.length d) := by
  have hnohit : ¬ (available c d && rowHit c d) = true := by
    rw [hmiss, Bool.and_false]
    exact Bool.false_ne_true
  unfold considerBank
  dsimp only
  split_ifs with hmask hselect
  · -- the first packet for one of the earliest banks
    refine h.select havail (fun banks hbanks => (some.inj hbanks).symm) rfl fun hno => ?_
    rw [hno, Bool.false_or, Bool.not_eq_true'] at hselect
    exact ⟨hselect, hno, hselect.trans hmiss.symm⟩
  · -- a row hit found before stays selected
    rw [Bool.or_eq_true, not_or, Bool.not_eq_true, Bool.not_eq_true, Bool.not_eq_false'] at hselect
    have hsome : s.selected ≠ none := fun hnone => by
      rw [(h.nothing hnone).2.1] at hselect
      cases hselect.2
    have hskip := h.skip (fun _ hnone => absurd hnone hsome) fun hd => absurd hd hnohit
    exact ⟨fun banks hbanks => (some.inj hbanks).symm, hskip.selected,
      fun hnone => absurd hnone hsome, fun hno => ⟨hno, (hskip.hit hno).2⟩⟩
  · have hskip := h.skip (fun _ _ => Bool.not_eq_true _ ▸ hmask) fun hd => absurd hd hnohit
    exact ⟨fun banks hbanks => (some.inj hbanks).symm, hskip.selected, hskip.nothing, hskip.hit⟩

theorem consider_scan {s : Choice} (d : DRAMPacket)
    (hB : minBankPrep p c now min_col_at queue = .ok B) (h : Scan c B pre s) :
    ∃ s', consider p c now min_col_at queue s pre.length d = .ok s' ∧ Scan c B (pre ++ [d]) s' := by
  unfold consider
  split_ifs with havail hhit hflags hearliest
  · rw [Bool.and_eq_true, Bool.not_eq_true', Bool.not_eq_true'] at hflags
    exact ⟨_, rfl, h.select havail h.earliest rfl fun _ => ⟨hflags.2, hflags.1, hhit.symm⟩⟩
  · refine ⟨_, rfl, h.skip (fun _ hnone => ?_) fun _ => ?_⟩
    · obtain ⟨-, hprepped, hhidden, -⟩ := h.nothing hnone
      rw [hprepped, hhidden] at hflags
      exact absurd rfl hflags
    · refine or_iff_not_imp_right.2 fun hno => ?_
      rw [(h.hit (Bool.not_eq_true _ ▸ hno)).1] at hflags
      simpa using hflags
  · have hbanks : earliestBanks p c now min_col_at queue s = .ok B := by
      unfold earliestBanks
      cases hs : s.earliest with
      | none => exact hB
      | some banks => exact congrArg Except.ok (h.earliest banks hs)
    rw [hbanks, ok_bind]
    exact ⟨_, rfl, considerBank_scan h havail (Bool.not_eq_true _ ▸ hhit)⟩
  · refine ⟨_, rfl, h.skip (fun _ hnone => ?_) fun hd => ?_⟩
    · rw [(h.nothing hnone).1] at hearliest
      exact absurd rfl hearliest
    · exact absurd (Bool.and_eq_true_iff.1 hd).2 hhit
  · exact ⟨_, rfl, h.skip (fun hd => absurd hd havail) fun hd =>
      absurd (Bool.and_eq_true_iff.1 hd).1 havail⟩

/-- The scan from `rest` on. It ends at the first seamless hit or behind the last packet. -/
theorem frfcfsLoop_ok (hB : minBankPrep p c now min_col_at queue = .ok B)
    (hmask : (∃ d ∈ queue, available c d = true)
      → ∃ d ∈ queue, available c d = true ∧ B.bank_mask d.rank d.bank = true)
    (rest : List DRAMPacket) : ∀ (pre : List DRAMPacket) (s : Choice), pre ++ rest = queue →
      pre.findIdx? (seamless c min_col_at) = none → Scan c B pre s →
      ∃ r, frfcfsLoop p c now min_col_at queue pre.length rest s = .ok r
        ∧ HitFirst p c now min_col_at queue r := by
  induction rest with
  | nil =>
    intro pre s hqueue hnone hs
    rw [append_nil] at hqueue
    subst hqueue
    refine ⟨s.selected, rfl, ?_, hs.selected, ?_, ?_⟩
    · intro hselected d hd
      by_contra havail
      obtain ⟨e, he, heavail, hin⟩ := hmask ⟨d, hd, Bool.not_eq_false _ ▸ havail⟩
      rw [(hs.nothing hselected).2.2.2 e he heavail] at hin
      cases hin
    · intro k hk
      rw [hnone] at hk
      cases hk
    · intro _ banks hbanks hno
      rw [hB] at hbanks
      cases hbanks
      exact (hs.hit hno).2.2
  | cons d rest ih =>
    intro pre s hqueue hnone hs
    rw [frfcfsLoop]
    split_ifs with hseamless
    · have hfirst : queue.findIdx? (seamless c min_col_at) = some pre.length := by
        rw [← hqueue, findIdx?_append, hnone, findIdx?_cons, if_pos hseamless]
        simp
      refine ⟨some pre.length, rfl, ?_, ?_, ?_, ?_⟩
      · exact fun hno => absurd hno (some_ne_none _)
      · intro k hk
        rw [mem_some_iff] at hk
        refine ⟨d, by rw [← hqueue, ← hk]; simp, ?_⟩
        exact (Bool.and_eq_true_iff.1 (Bool.and_eq_true_iff.1 hseamless).1).1
      · intro k hk
        rw [hfirst] at hk
        exact hk
      · intro hno
        rw [hfirst] at hno
        cases hno
    · obtain ⟨s', hconsider, hs'⟩ := consider_scan d hB hs
      rw [hconsider, ok_bind]
      have hnext := ih (pre ++ [d]) s' (by rw [append_assoc]; exact hqueue)
        (by rw [findIdx?_append, hnone, findIdx?_cons, if_neg hseamless]; rfl) hs'
      rwa [length_append, length_singleton] at hnext

/-! ## Work-conserving and hit-first -/

/-- The search stops at a bank whose number is that of a waiting packet but whose rank is
refreshing. -/
theorem minBankPrep_stops {i j : ℕ} (hij : (i, j) ∈ allBanks p)
    (hwait : got_waiting c queue ((i * p.banks_per_rank + j) % 2 ^ 16) = true)
    (hbusy : (c.ranks i).inRefIdleState = false) :
    minBankPrep p c now min_col_at queue = .error .rank_refreshing := by
  have hloop : Ok (fun _ => (i, j) ∈ ([] : List (ℕ × ℕ))) (· = DRAMFault.rank_refreshing)
      (minBankPrep p c now min_col_at queue) := by
    refine Ok.foldlM (fun rest _ => (i, j) ∈ rest) _ _ hij fun a rest s hmem => ?_
    obtain rfl | hmem := mem_cons.1 hmem
    · simp only [searchBank, hwait, hbusy]
      exact rfl
    · unfold searchBank
      dsimp only
      split
      · cases (c.ranks a.1).inRefIdleState with
        | true => exact hmem
        | false => exact rfl
      · exact hmem
  cases hsearch : minBankPrep p c now min_col_at queue with
  | ok banks => exact absurd (hloop.elim hsearch) not_mem_nil
  | error e => exact congrArg Except.error (hloop.elim_error hsearch)

variable (p) in
/-- Rank 0 is idle, the other ranks refresh; no bank has an open row. -/
def onlyRankZero : DRAMCtrl where
  readQueue := []
  writeQueue := []
  ranks i := { Rank.new p with refreshState := if i = 0 then .REF_IDLE else .REF_RUN }
  nextBurstAt := p.tRCD

/-- A read of row 0 of the first bank. -/
def firstRead : DRAMPacket where
  id := 0
  entryTime := 0
  readyTime := 0
  pkt := { id := 0, cmd := .ReadReq, addr := 0 }
  masterId := 0
  read := true
  rank := 0
  bank := 0
  row := 0
  bankId := 0
  addr := 0
  size := 64
  qosValue := 0

theorem onlyRankZero_decoded (hranks : 0 < p.ranks_per_channel) (hbanks : 0 < p.banks_per_rank) :
    Decoded p (onlyRankZero p) 0 [firstRead] := by
  constructor
  case rank => simpa [firstRead] using hranks
  case bank => simpa [firstRead] using hbanks
  case bankId => simp [firstRead]
  case now => exact zero_le _
  case actAllowedAt => exact fun i j => zero_le _

theorem onlyRankZero_stops (hbanks : p.banks_per_rank ≤ 32)
    (hmany : 2 ^ 16 < p.ranks_per_channel * p.banks_per_rank) (extra_col_delay : ℕ) :
    chooseNextFRFCFS p (onlyRankZero p) 0 [firstRead] extra_col_delay
      = .error .rank_refreshing := by
  have hpos : 0 < p.banks_per_rank := pos_of_ne_zero fun hzero => by
    rw [hzero, mul_zero] at hmany
    omega
  -- the bank with number `2 ^ 16`
  have hsearch : ∀ m, minBankPrep p (onlyRankZero p) 0 m [firstRead] = .error .rank_refreshing := by
    intro m
    refine minBankPrep_stops (j := 2 ^ 16 % p.banks_per_rank)
      (mem_allBanks.2 ⟨(div_lt_iff_lt_mul hpos).2 hmany, mod_lt _ hpos⟩) ?_ ?_
    · rw [Nat.div_add_mod']
      rfl
    · have hne : 2 ^ 16 / p.banks_per_rank ≠ 0 := Nat.div_ne_zero_iff.2 ⟨hpos.ne', by omega⟩
      rw [onlyRankZero, Rank.inRefIdleState]
      dsimp only
      rw [if_neg hne]
      rfl
  have hmiss : seamless (onlyRankZero p) (minColAt (onlyRankZero p) 0 extra_col_delay) firstRead
      = false := rfl
  have hconsider : ∀ m, consider p (onlyRankZero p) 0 m [firstRead] {} 0 firstRead
      = earliestBanks p (onlyRankZero p) 0 m [firstRead] {}
        >>= fun banks => pure (considerBank {} banks 0 firstRead) := fun _ => rfl
  rw [chooseNextFRFCFS, frfcfsLoop, hmiss, if_neg Bool.false_ne_true, hconsider]
  show (minBankPrep _ _ _ _ _ >>= _) >>= _ = _
  rw [hsearch]
  rfl

/-- The largest number of banks a mask has room for, in 4096 ranks. -/
def manyRanks : DRAMCtrlParams :=
  { twoChannels 128 with ranks_per_channel := 4096, banks_per_rank := 32 }

end DRAMCtrl

end Bindu.Mem
