/-
`PseudoLRUPolicy`, tree-based pseudo-LRU replacement.

A set has a complete binary tree over its ways, with one bit in each inner node, all in one
64-bit word: the children of node `n` are `2 * n + 1` and `2 * n + 2`. A touch sets the bits on the
path of the way to the directions it takes, and the victim is found by going against the bits.
An associativity that is not a power of two is rounded up, and a victim beyond the last way is
replaced by the last way.

Sources: `mem/ruby/structures/PseudoLRUPolicy.cc`, `AbstractReplacementPolicy.cc`.
-/
import Bindu.Lib.Fallible
import Bindu.Lib.RecencyTree

open Bindu.Lib List Nat

namespace Bindu.Ruby

/-! ## The policy -/

inductive PlruFault
  | way_range
  | set_range
  | victim_range
  deriving DecidableEq

/-- What the constructor asserts. -/
structure PseudoLRUParams where
  m_num_sets : ℕ
  m_assoc : ℕ
  num_sets_pos : 0 < m_num_sets
  one_lt_assoc : 1 < m_assoc
  assoc_le : m_assoc ≤ 32

namespace PseudoLRUParams

/-- `while (m_effective_assoc < m_assoc) m_effective_assoc <<= 1`. The loop has ended after
`assoc` rounds. -/
def effectiveAssoc (assoc : ℕ) : ℕ := (fun e => if e < assoc then e <<< 1 else e)^[assoc] 1

/-- The loop that counts how often `tmp_assoc` can be halved. -/
def countLevels : ℕ → ℕ → ℕ
  | 0, _ => 0
  | fuel + 1, tmp_assoc => if tmp_assoc / 2 = 0 then 0 else countLevels fuel (tmp_assoc / 2) + 1

def m_effective_assoc (p : PseudoLRUParams) : ℕ := effectiveAssoc p.m_assoc

def m_num_levels (p : PseudoLRUParams) : ℕ := countLevels p.m_effective_assoc p.m_effective_assoc

end PseudoLRUParams

structure PseudoLRUPolicy where
  m_trees : ℕ → BitVec 64
  m_last_ref_ptr : ℕ → ℕ → ℕ

namespace PseudoLRUPolicy

def new : PseudoLRUPolicy where
  m_trees _ := 0
  m_last_ref_ptr _ _ := 0

/-- The loop of `touch` over `i`, from the top to the bottom of the tree. `node_val` and `1` are
of type `int`, so they are shifted as 32-bit numbers. -/
def touchTree (index : ℕ) : ℕ → BitVec 64 → ℕ → BitVec 64
  | 0, tree, _ => tree
  | i + 1, tree, tree_index =>
    let node_val := (index >>> i) &&& 1
    if node_val ≠ 0 then
      touchTree index i (tree ||| (BitVec.ofNat 32 node_val <<< tree_index).signExtend 64)
        (tree_index * 2 + 2)
    else
      touchTree index i (tree &&& (~~~(1#32 <<< tree_index)).signExtend 64) (tree_index * 2 + 1)

def touch (p : PseudoLRUParams) (s : PseudoLRUPolicy) (set index time : ℕ) :
    Except PlruFault PseudoLRUPolicy := do
  require (index < p.m_assoc) .way_range
  require (set < p.m_num_sets) .set_range
  pure {
    m_trees := Function.update s.m_trees set (touchTree index p.m_num_levels (s.m_trees set) 0)
    m_last_ref_ptr := Function.update s.m_last_ref_ptr set
      (Function.update (s.m_last_ref_ptr set) index time) }

/-- One round of the loop of `getVictim`, on `index` and `tree_index`. -/
def victimStep (p : PseudoLRUParams) (tree : BitVec 64) (x : ℕ × ℕ) (i : ℕ) : ℕ × ℕ :=
  let node_val := (tree >>> x.2) &&& 1
  (x.1 + if node_val ≠ 0 then 0 else p.m_effective_assoc >>> (i + 1),
    if node_val ≠ 0 then x.2 * 2 + 1 else x.2 * 2 + 2)

def getVictim (p : PseudoLRUParams) (s : PseudoLRUPolicy) (set : ℕ) : Except PlruFault ℕ := do
  let index := ((range p.m_num_levels).foldl (victimStep p (s.m_trees set)) (0, 0)).1
  require (index < p.m_effective_assoc) .victim_range
  pure (if p.m_assoc - 1 < index then p.m_assoc - 1 else index)

end PseudoLRUPolicy

/-! ## The shape of the tree -/

theorem PseudoLRUParams.shape (p : PseudoLRUParams) :
    p.m_effective_assoc = 2 ^ p.m_num_levels ∧ p.m_assoc ≤ 2 ^ p.m_num_levels
      ∧ 2 ^ (p.m_num_levels - 1) < p.m_assoc ∧ 0 < p.m_num_levels ∧ p.m_num_levels ≤ 5 := by
  have hall : ∀ assoc ∈ range 33, 1 < assoc →
      let eff := effectiveAssoc assoc
      let L := countLevels eff eff
      eff = 2 ^ L ∧ assoc ≤ 2 ^ L ∧ 2 ^ (L - 1) < assoc ∧ 0 < L ∧ L ≤ 5 := by decide +kernel
  exact hall p.m_assoc (mem_range.2 (lt_succ_of_le p.assoc_le)) p.one_lt_assoc

/-- The position in the word of the node at height `i` above the leaves whose number starts with
`q`, in a tree with `L` levels. -/
def nodeIndex (L i q : ℕ) : ℕ := 2 ^ (L - 1 - i) + q - 1

theorem nodeIndex_inj {L i i' q q' : ℕ} (hi : i < L) (hi' : i' < L) (hq : q < 2 ^ (L - 1 - i))
    (hq' : q' < 2 ^ (L - 1 - i')) (h : nodeIndex L i q = nodeIndex L i' q') : i = i' ∧ q = q' := by
  unfold nodeIndex at h
  -- the greatest power of two in the position is that of the level
  have hle : ∀ {a b x y : ℕ}, x < 2 ^ a → 2 ^ a + x = 2 ^ b + y → b ≤ a := by
    intro a b x y hx hxy
    by_contra hab
    have hdouble := Nat.pow_le_pow_right (Nat.zero_lt_two) (Nat.lt_of_not_le hab)
    rw [pow_succ] at hdouble
    omega
  have h1 : 2 ^ (L - 1 - i) + q = 2 ^ (L - 1 - i') + q' := by omega
  have hlevel : L - 1 - i = L - 1 - i' := le_antisymm (hle hq' h1.symm) (hle hq h1)
  rw [hlevel] at h1
  omega

theorem nodeIndex_lt {L i q : ℕ} (hL : L ≤ 5) (hi : i < L) (hq : q < 2 ^ (L - 1 - i)) :
    nodeIndex L i q < 31 := by
  have hle : 2 ^ (L - 1 - i) ≤ 2 ^ 4 := Nat.pow_le_pow_right Nat.zero_lt_two (by omega)
  unfold nodeIndex
  omega

theorem shiftRight_lt {L i w : ℕ} (hi : i < L) (hw : w < 2 ^ L) :
    w >>> (i + 1) < 2 ^ (L - 1 - i) := by
  rw [Nat.shiftRight_eq_div_pow, Nat.div_lt_iff_lt_mul (Nat.two_pow_pos _), ← pow_add]
  rwa [show L - 1 - i + (i + 1) = L by omega]

/-! ## Touches -/

theorem getLsbD_set_bit (tree : BitVec 64) (k : ℕ) {x : ℕ} (hx : x < 31) :
    (tree ||| (1#32 <<< k).signExtend 64).getLsbD x = (decide (x = k) || tree.getLsbD x) := by
  rw [BitVec.getLsbD_or, BitVec.getLsbD_signExtend, BitVec.getLsbD_shiftLeft]
  simp
  grind

theorem getLsbD_clear_bit (tree : BitVec 64) (k : ℕ) {x : ℕ} (hx : x < 31) :
    (tree &&& (~~~(1#32 <<< k)).signExtend 64).getLsbD x = (!decide (x = k) && tree.getLsbD x) := by
  rw [BitVec.getLsbD_and, BitVec.getLsbD_signExtend, BitVec.getLsbD_not, BitVec.getLsbD_shiftLeft]
  simp
  grind

namespace PseudoLRUPolicy

/-- The bits of a tree, by height and leading bits. -/
def dir (L : ℕ) (tree : BitVec 64) (i q : ℕ) : Bool := tree.getLsbD (nodeIndex L i q)

/-- What the last `n` rounds of `touch` do to the bits. -/
theorem dir_touchTree {L index : ℕ} (hL : L ≤ 5) (hindex : index < 2 ^ L) {i q : ℕ} (hi : i < L)
    (hq : q < 2 ^ (L - 1 - i)) :
    ∀ (n : ℕ) (tree : BitVec 64) (tree_index : ℕ), n ≤ L →
      tree_index + 1 = 2 ^ (L - n) + index >>> n →
      dir L (touchTree index n tree tree_index) i q
        = if i < n ∧ q = index >>> (i + 1) then index.testBit i else dir L tree i q := by
  intro n
  induction n with
  | zero =>
    intro tree tree_index _ _
    rw [touchTree, if_neg (by omega)]
  | succ n ih =>
    intro tree tree_index hn htree
    have hnode : tree_index = nodeIndex L n (index >>> (n + 1)) := by
      unfold nodeIndex
      rw [show L - 1 - n = L - (n + 1) by omega]
      omega
    have hat : nodeIndex L i q = tree_index ↔ i = n ∧ q = index >>> (i + 1) := by
      rw [hnode]
      constructor
      · intro h
        obtain ⟨rfl, hq'⟩ := nodeIndex_inj hi hn hq (shiftRight_lt hn hindex) h
        exact ⟨rfl, hq'⟩
      · rintro ⟨rfl, rfl⟩
        rfl
    have hbit : (index >>> n) &&& 1 = (index.testBit n).toNat := by
      rw [and_one_is_mod, toNat_testBit, shiftRight_eq_div_pow]
    -- the child that comes next
    have hchild : index >>> n = 2 * (index >>> (n + 1)) + (index.testBit n).toNat := by
      rw [← hbit, and_one_is_mod, shiftRight_succ]
      omega
    have hpow : 2 ^ (L - n) = 2 * 2 ^ (L - (n + 1)) := by
      rw [show L - n = L - (n + 1) + 1 by omega, pow_succ']
    have hlt := nodeIndex_lt hL hi hq
    unfold touchTree
    rw [hbit]
    cases hdir : index.testBit n with
    | true =>
      rw [if_pos (by decide), ih _ _ (by omega) (by rw [hchild, hdir, hpow, Bool.toNat_true]; omega)]
      rw [dir, dir, Bool.toNat_true, getLsbD_set_bit tree tree_index hlt]
      grind
    | false =>
      rw [if_neg (by decide), ih _ _ (by omega) (by rw [hchild, hdir, hpow, Bool.toNat_false]; omega)]
      rw [dir, dir, getLsbD_clear_bit tree tree_index hlt]
      grind

theorem touchTree_used (p : PseudoLRUParams) (tree : BitVec 64) {index : ℕ}
    (hindex : index < p.m_assoc) :
    RecencyTree.Used p.m_num_levels index (dir p.m_num_levels tree)
      (dir p.m_num_levels (touchTree index p.m_num_levels tree 0)) := by
  obtain ⟨-, hle, -, -, hL⟩ := p.shape
  have hlt : index < 2 ^ p.m_num_levels := by omega
  have hroot : 0 + 1 = 2 ^ (p.m_num_levels - p.m_num_levels) + index >>> p.m_num_levels := by
    rw [Nat.sub_self, Nat.shiftRight_eq_div_pow, Nat.div_eq_of_lt hlt]
    rfl
  constructor
  · intro i hi
    rw [dir_touchTree hL hlt hi (shiftRight_lt hi hlt) _ tree 0 le_rfl hroot, if_pos ⟨hi, rfl⟩]
  · intro i hi x hx hne
    rw [dir_touchTree hL hlt hi (shiftRight_lt hi hx) _ tree 0 le_rfl hroot,
      if_neg (fun h => hne h.2)]

/-! ## The victim -/

theorem bit_ne_zero_iff (tree : BitVec 64) (k : ℕ) :
    (tree >>> k) &&& 1 ≠ 0 ↔ tree.getLsbD k = true := by
  have hbit := BitVec.and_one_eq_setWidth_ofBool_getLsbD (x := tree >>> k)
  rw [BitVec.getLsbD_ushiftRight, add_zero] at hbit
  change (tree >>> k) &&& 1#64 ≠ 0 ↔ _
  rw [hbit]
  cases tree.getLsbD k <;> decide

/-- `getVictim` goes against the bits. After `j` rounds `q` is the number that the leading `j`
bits of the victim make. -/
theorem victim_rounds (p : PseudoLRUParams) (tree : BitVec 64) :
    ∀ j ≤ p.m_num_levels, ∃ q < 2 ^ j, (range j).foldl (victimStep p tree) (0, 0)
        = (q * 2 ^ (p.m_num_levels - j), 2 ^ j + q - 1)
      ∧ ∀ i < j, q.testBit i
        = !dir p.m_num_levels tree (p.m_num_levels - j + i) (q >>> (i + 1)) := by
  obtain ⟨heff, -⟩ := p.shape
  intro j
  induction j with
  | zero =>
    intro _
    exact ⟨0, one_pos, by simp, fun i hi => absurd hi (not_lt_zero i)⟩
  | succ j ih =>
    intro hj
    obtain ⟨q, hq, hfold, hbits⟩ := ih (by omega)
    set L := p.m_num_levels
    have hnode : 2 ^ j + q - 1 = nodeIndex L (L - (j + 1)) q := by
      rw [nodeIndex, show L - 1 - (L - (j + 1)) = j by omega]
    let b := !dir L tree (L - (j + 1)) q
    have hpow : 2 ^ (L - j) = 2 * 2 ^ (L - (j + 1)) := by
      rw [show L - j = L - (j + 1) + 1 by omega, pow_succ']
    have hdouble : (2 * q + b.toNat) >>> 1 = q := by
      rw [shiftRight_one]
      have hb := Bool.toNat_lt b
      omega
    refine ⟨2 * q + b.toNat, ?_, ?_, ?_⟩
    · have hb := Bool.toNat_lt b
      rw [pow_succ]
      omega
    · rw [range_succ, foldl_append, hfold, foldl_cons, foldl_nil, victimStep]
      rw [heff, Nat.shiftRight_eq_div_pow, Nat.pow_div (by omega) Nat.zero_lt_two, hpow]
      simp only [bit_ne_zero_iff]
      have hbit : tree.getLsbD (2 ^ j + q - 1) = !b := by rw [Bool.not_not, hnode, dir]
      rw [hbit, pow_succ]
      cases b with
      | true =>
        simp only [Bool.not_true, Bool.false_eq_true, if_false, Bool.toNat_true, Prod.mk.injEq]
        exact ⟨by ring, by omega⟩
      | false =>
        simp only [Bool.not_false, if_true, Bool.toNat_false, Prod.mk.injEq]
        exact ⟨by ring, by omega⟩
    · intro i hi
      cases i with
      | zero =>
        rw [hdouble, testBit_zero, add_zero]
        change _ = b
        cases b <;> simp
      | succ i =>
        rw [testBit_succ, ← shiftRight_one, hdouble, add_comm (i + 1) 1,
          shiftRight_add, hdouble, show L - (j + 1) + (i + 1) = L - j + i by omega]
        exact hbits i (by omega)

/-- The way that the loop of `getVictim` finds. -/
theorem victim_away (p : PseudoLRUParams) (tree : BitVec 64) :
    ∃ index < 2 ^ p.m_num_levels, RecencyTree.Away p.m_num_levels (dir p.m_num_levels tree) index
      ∧ ((range p.m_num_levels).foldl (victimStep p tree) (0, 0)).1 = index := by
  obtain ⟨index, hlt, hfold, hbits⟩ := victim_rounds p tree p.m_num_levels le_rfl
  refine ⟨index, hlt, fun i hi => ?_, ?_⟩
  · rw [hbits i hi, Nat.sub_self, Nat.zero_add]
  · rw [hfold, Nat.sub_self, pow_zero, mul_one]

end PseudoLRUPolicy

/-! ## Touch sequences -/

structure Touch where
  set : ℕ
  way : ℕ
  time : ℕ

namespace PseudoLRUPolicy

def run (p : PseudoLRUParams) (touches : List Touch) : Except PlruFault PseudoLRUPolicy :=
  touches.foldlM (fun s t => s.touch p t.set t.way t.time) .new

/-- The ways touched in a set, the last one first. -/
def ways (set : ℕ) (touches : List Touch) : List ℕ :=
  ((touches.filter (fun t => t.set = set)).map Touch.way).reverse

/-- The ways are ways, and each tree records those touched in its set. -/
structure Recorded (p : PseudoLRUParams) (touches : List Touch) (s : PseudoLRUPolicy) : Prop where
  way_lt : ∀ set, ∀ w ∈ ways set touches, w < p.m_assoc
  records : ∀ set, RecencyTree.Records p.m_num_levels (dir p.m_num_levels (s.m_trees set))
    (ways set touches)

theorem touch_recorded {p : PseudoLRUParams} {touches : List Touch} {s : PseudoLRUPolicy}
    (h : Recorded p touches s) {t : Touch} (hset : t.set < p.m_num_sets)
    (hway : t.way < p.m_assoc) :
    Ok (Recorded p (touches ++ [t])) ⊥ (s.touch p t.set t.way t.time) := by
  have hways : ∀ set, ways set (touches ++ [t])
      = if t.set = set then t.way :: ways set touches else ways set touches := by
    intro set
    unfold ways
    by_cases heq : t.set = set <;> simp [filter_append, heq]
  obtain ⟨-, hle, -⟩ := p.shape
  unfold touch
  rw [decide_eq_true hway, decide_eq_true hset]
  refine ⟨fun set w hw => ?_, fun set => ?_⟩
  · rw [hways set] at hw
    split_ifs at hw with heq
    · rcases mem_cons.1 hw with rfl | hw
      · exact hway
      · exact h.way_lt set w hw
    · exact h.way_lt set w hw
  · rw [hways set]
    by_cases heq : t.set = set
    · subst heq
      rw [if_pos rfl]
      dsimp only
      rw [Function.update_self]
      exact (h.records t.set).used (touchTree_used p (s.m_trees t.set) hway)
        (fun w hw => (h.way_lt t.set w hw).trans_le hle)
    · rw [if_neg heq]
      dsimp only
      rw [Function.update_of_ne (Ne.symm heq)]
      exact h.records set

theorem run_recorded {p : PseudoLRUParams} {touches : List Touch}
    (hrange : ∀ t ∈ touches, t.set < p.m_num_sets ∧ t.way < p.m_assoc) :
    Ok (Recorded p touches) ⊥ (run p touches) := by
  induction touches using reverseRecOn with
  | nil =>
    exact ⟨fun _ _ hw => absurd hw not_mem_nil, fun _ => RecencyTree.Records.nil⟩
  | append_singleton touches t ih =>
    unfold run at ih ⊢
    rw [foldlM_append]
    have hlast := hrange t (mem_append_right touches mem_cons_self)
    refine (ih (fun x hx => hrange x (mem_append_left [t] hx))).bind (fun s hs => ?_)
    exact (touch_recorded hs hlast.1 hlast.2).bind (fun s' hs' => hs')

end PseudoLRUPolicy

open PseudoLRUPolicy in
/-- **Pseudo-LRU protects the ways touched last.** After any touches the victim is a way of the
set and not the one touched last; with an associativity that is a power of two it is none of the
`m_num_levels` ways touched last. -/
theorem pseudo_lru_protects (p : PseudoLRUParams) (touches : List Touch)
    (hrange : ∀ t ∈ touches, t.set < p.m_num_sets ∧ t.way < p.m_assoc) (set : ℕ) :
    ∃ s victim, run p touches = .ok s ∧ getVictim p s set = .ok victim ∧ victim < p.m_assoc
      ∧ (∀ w, (ways set touches).head? = some w → victim ≠ w)
      ∧ ∀ k, p.m_assoc = 2 ^ k → p.m_num_levels = k
        ∧ ¬ AmongLast p.m_num_levels (ways set touches) victim := by
  obtain ⟨s, hs, h⟩ := (run_recorded hrange).returns
  obtain ⟨heff, hle, hhalf, hpos, -⟩ := p.shape
  have hassoc := p.one_lt_assoc
  obtain ⟨index, hlt, haway, hfold⟩ := victim_away p (s.m_trees set)
  refine ⟨s, if p.m_assoc - 1 < index then p.m_assoc - 1 else index, hs, ?_, ?_, ?_, ?_⟩
  · unfold getVictim
    rw [hfold, heff]
    dsimp only
    rw [decide_eq_true hlt]
    rfl
  · split_ifs <;> omega
  · intro w hw
    obtain ⟨history, hhistory⟩ := head?_eq_some_iff.1 hw
    have hrecords := h.records set
    have hwlt := h.way_lt set w (mem_of_mem_head? hw)
    rw [hhistory] at hrecords
    have hhalves := hrecords.other_half haway hpos (hwlt.trans_le hle) hlt
    -- a victim beyond the last way is in the upper half
    split_ifs <;> omega
  · intro k hk
    have hlevels : p.m_num_levels = k := by
      rw [hk] at hle hhalf
      have h1 := (Nat.pow_le_pow_iff_right (Nat.one_lt_two)).1 hle
      have h2 := (Nat.pow_lt_pow_iff_right (Nat.one_lt_two)).1 hhalf
      omega
    refine ⟨hlevels, ?_⟩
    rw [if_neg (by rw [hk, ← hlevels]; omega)]
    exact (h.records set).not_amongLast haway

/-- Eight ways, of which ways 0, 5 and 3 have been touched last. -/
theorem pseudo_lru_protects_eight :
    let p : PseudoLRUParams := ⟨4, 8, by decide, by decide, by decide⟩
    let touches : List Touch := [⟨1, 7, 10⟩, ⟨2, 6, 11⟩, ⟨1, 0, 12⟩, ⟨1, 5, 13⟩, ⟨1, 3, 14⟩]
    ∃ s victim, PseudoLRUPolicy.run p touches = .ok s ∧ s.getVictim p 1 = .ok victim ∧ victim ≠ 3
      ∧ ¬ AmongLast 3 [3, 5, 0, 7] victim := by
  intro p touches
  obtain ⟨s, victim, hrun, hvictim, -, hlast, hpow⟩ :=
    pseudo_lru_protects p touches (by decide) 1
  obtain ⟨hlevels, hnot⟩ := hpow 3 rfl
  have hways : PseudoLRUPolicy.ways 1 touches = [3, 5, 0, 7] := by decide
  rw [hlevels, hways] at hnot
  exact ⟨s, victim, hrun, hvictim, hlast 3 (by decide), hnot⟩

end Bindu.Ruby
