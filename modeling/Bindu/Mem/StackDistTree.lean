/-
The tree of the stack distance calculator.

Node `k` of layer `i + 1` stands for block `k` of that layer: the leaves from `k * 2 ^ (i + 1)`
on. Its two sums are those of the halves of the block. It may only be missing when all of
the block's indices were given out and nothing is left below it, and the discard flag of a
half says the same of that half. A walk from a leaf to the root keeps this when the mark of the
leaf changes, whether it deletes nodes on its way or not, and adds up the sums to the right.
-/
import Bindu.Lib.DyadicSums
import Bindu.Mem.StackDist

open Bindu.Lib

namespace Bindu.Mem

namespace StackDist

/-- A node of layer `i + 1` that stands for block `k`, in a tree of depth `depth`. -/
structure NodeOk (live : ℕ → Bool) (n depth i k : ℕ) (node : Node) : Prop where
  nodeIndex : node.nodeIndex = k
  isLeftNode : node.isLeftNode = (k % 2 == 0)
  parent : node.parent = if i + 1 < depth then some (i + 1 + 1, k / 2) else none
  sumLeft : node.sumLeft = blockSum live i (2 * k)
  sumRight : node.sumRight = blockSum live i (2 * k + 1)
  discardLeft : node.discardLeft = true → Gone live n i (2 * k)
  discardRight : node.discardRight = true → Gone live n i (2 * k + 1)

/-- What is at place `k` of layer `i + 1`: only the root may never be missing. -/
def PlaceOk (live : ℕ → Bool) (n depth i k : ℕ) : Option Node → Prop
  | some node => NodeOk live n depth i k node
  | none => i + 1 < depth ∧ Gone live n (i + 1) k

section Places

variable {live live' : ℕ → Bool} {n n' j depth i k : ℕ} {node : Node}

theorem NodeOk.sum_eq (h : NodeOk live n depth i k node) :
    node.sumLeft + node.sumRight = blockSum live (i + 1) k := by
  rw [h.sumLeft, h.sumRight, blockSum]

theorem NodeOk.of_ne (h : NodeOk live n depth i k node) (M : Marking live live' n n' j)
    (hk : j / 2 ^ (i + 1) ≠ k) : NodeOk live' n' depth i k node := by
  rw [div_two_pow_succ] at hk
  refine ⟨h.nodeIndex, h.isLeftNode, h.parent, ?_, ?_, ?_, ?_⟩
  · rw [M.sum_eq i (2 * k) (by omega)]
    exact h.sumLeft
  · rw [M.sum_eq i (2 * k + 1) (by omega)]
    exact h.sumRight
  · exact fun hd => M.gone i _ (h.discardLeft hd)
  · exact fun hd => M.gone i _ (h.discardRight hd)

theorem PlaceOk.of_ne {o : Option Node} (h : PlaceOk live n depth i k o)
    (M : Marking live live' n n' j) (hk : j / 2 ^ (i + 1) ≠ k) :
    PlaceOk live' n' depth i k o := by
  cases o with
  | none => exact ⟨h.1, M.gone (i + 1) k h.2⟩
  | some node => exact NodeOk.of_ne h M hk

/-- The node on the way up from `j` takes the new sum of the block below it. -/
theorem NodeOk.updatedNode (h : NodeOk live n depth i (j / 2 ^ (i + 1)) node)
    (M : Marking live live' n n' j) {discard_node : Bool}
    (hd : discard_node = true → Gone live' n' i (j / 2 ^ i)) :
    NodeOk live' n' depth i (j / 2 ^ (i + 1))
      (StackDistCalc.updatedNode node (j / 2 ^ i % 2 == 0) (blockSum live' i (j / 2 ^ i))
        discard_node) := by
  have hhalf := div_two_pow_succ j i
  rcases Nat.mod_two_eq_zero_or_one (j / 2 ^ i) with hj | hj
  · -- from the left
    have hsame : 2 * (j / 2 ^ (i + 1)) = j / 2 ^ i := by omega
    have hother := M.sum_eq i (2 * (j / 2 ^ (i + 1)) + 1) (by omega)
    rw [StackDistCalc.updatedNode, if_pos (by rw [hj]; rfl)]
    refine ⟨h.nodeIndex, h.isLeftNode, h.parent, by rw [hsame], ?_, ?_, ?_⟩
    · rw [hother]
      exact h.sumRight
    · intro hdl
      rw [Bool.or_eq_true, Bool.and_eq_true] at hdl
      rcases hdl with hold | hnew
      · exact M.gone i _ (h.discardLeft hold)
      · rw [hsame]
        exact hd hnew.1
    · exact fun hdr => M.gone i _ (h.discardRight hdr)
  · have hsame : 2 * (j / 2 ^ (i + 1)) + 1 = j / 2 ^ i := by omega
    have hother := M.sum_eq i (2 * (j / 2 ^ (i + 1))) (by omega)
    rw [StackDistCalc.updatedNode, if_neg (by rw [hj]; simp)]
    refine ⟨h.nodeIndex, h.isLeftNode, h.parent, ?_, by rw [hsame], ?_, ?_⟩
    · rw [hother]
      exact h.sumLeft
    · exact fun hdl => M.gone i _ (h.discardLeft hdl)
    · intro hdr
      rw [Bool.or_eq_true, Bool.and_eq_true] at hdr
      rcases hdr with hold | hnew
      · exact M.gone i _ (h.discardRight hold)
      · rw [hsame]
        exact hd hnew.1

/-- A node is only deleted when its block is over, and the root is not. -/
theorem NodeOk.gone_of_deletes (h : NodeOk live n depth i k node) {sum_from_below : ℕ}
    {discard_node : Bool} (hdel : StackDistCalc.deletes node sum_from_below discard_node = true) :
    i + 1 < depth ∧ Gone live n (i + 1) k := by
  simp only [StackDistCalc.deletes, Bool.and_eq_true] at hdel
  obtain ⟨⟨⟨⟨hl, hr⟩, -⟩, hparent⟩, -⟩ := hdel
  refine ⟨?_, (h.discardLeft hl).of_halves (h.discardRight hr)⟩
  by_contra htop
  rw [h.parent, if_neg htop] at hparent
  simp at hparent

end Places

namespace StackDistCalc

variable {Addr : Type} {live live' : ℕ → Bool} {n n' j : ℕ}

/-! ## Following pointers -/

variable {s : StackDistCalc Addr}

theorem deref_eq {i k : ℕ} {node : Node} (h : s.tree i k = some node) : s.deref (i, k) = .ok node:= by
  rw [deref, h]
  rfl

theorem parentOf_eq {node : Node} {q : NodePtr} (h : node.parent = some q) :
    parentOf node = .ok q := by
  rw [parentOf, h]
  rfl

theorem shiftLeftOne_eq {i : ℕ} (h : i < 31) : shiftLeftOne i = .ok (2 ^ i) := by
  rw [shiftLeftOne, if_pos h]
  rfl

theorem setNode_tree (s : StackDistCalc Addr) (i k l m : ℕ) (o : Option Node) :
    (s.setNode (i, k) o).tree l m = if l = i ∧ m = k then o else s.tree l m := by
  by_cases hl : l = i <;> by_cases hm : m = k <;> simp [setNode, hl, hm]

theorem checkSums_eq {depth i k : ℕ} {node : Node}
    (hnode : NodeOk live n depth i k node) (hi : s.verifyStack = true → i < 31) :
    s.checkSums (i + 1) node = .ok () := by
  rw [checkSums]
  split_ifs with hv
  · have hl : blockSum live i (2 * k) ≤ 2 ^ i := blockSum_le i (2 * k)
    have hr : blockSum live i (2 * k + 1) ≤ 2 ^ i := blockSum_le i (2 * k + 1)
    rw [Nat.add_sub_cancel, shiftLeftOne_eq (hi hv), ok_bind, hnode.sumLeft, hnode.sumRight,
      if_neg (by omega), if_neg (by omega)]
    rfl
  · rfl

/-! ## The walk to the root -/

/-- All nodes above leaf `j` from layer `i + 1` on are there. -/
def PathOk (live : ℕ → Bool) (n j i : ℕ) (s : StackDistCalc Addr) : Prop :=
  ∀ l, i ≤ l → l < s.treeDepth → ∃ node, s.tree (l + 1) (j / 2 ^ (l + 1)) = some node
    ∧ NodeOk live n s.treeDepth l (j / 2 ^ (l + 1)) node

/-- What a walk from layer `i + 1` does: the nodes above `j` have the sums of `live'`, and
nothing else changed. -/
structure Walked (live' : ℕ → Bool) (n' j i : ℕ) (s : StackDistCalc Addr)
    (tree' : ℕ → ℕ → Option Node) : Prop where
  other : ∀ l k, l ≤ i ∨ s.treeDepth < l ∨ k ≠ j / 2 ^ l → tree' l k = s.tree l k
  path : ∀ l, i ≤ l → l < s.treeDepth →
    PlaceOk live' n' s.treeDepth l (j / 2 ^ (l + 1)) (tree' (l + 1) (j / 2 ^ (l + 1)))

theorem right_eq {depth i dist : ℕ} {node : Node}
    (h : NodeOk live n depth i (j / 2 ^ (i + 1)) node) :
    (if (j / 2 ^ i % 2 == 0) = true then dist + node.sumRight else dist)
      = dist + (if j / 2 ^ i % 2 = 0 then blockSum live i (j / 2 ^ i + 1) else 0) := by
  have hhalf := div_two_pow_succ j i
  by_cases hj : j / 2 ^ i % 2 = 0
  · rw [if_pos (by rw [hj]; rfl), if_pos hj, h.sumRight,
      show 2 * (j / 2 ^ (i + 1)) = j / 2 ^ i by omega]
  · rw [if_neg (by rw [beq_iff_eq]; exact hj), if_neg hj, Nat.add_zero]

/-- One turn of `updateSum`: the node of layer `i + 1` is updated or deleted, and the walk goes
on above it unless it is the root. -/
theorem updateSum_turn (M : Marking live live' n n' j) {i : ℕ}
    {node : Node} (hplace : s.tree (i + 1) (j / 2 ^ (i + 1)) = some node)
    (hnode : NodeOk live n s.treeDepth i (j / 2 ^ (i + 1)) node)
    (hv : s.verifyStack = true → i < 31) (t dist : ℕ) {discard_node : Bool}
    (hd : discard_node = true → Gone live' n' i (j / 2 ^ i)) :
    ∃ o discard', PlaceOk live' n' s.treeDepth i (j / 2 ^ (i + 1)) o
      ∧ (discard' = true → Gone live' n' (i + 1) (j / 2 ^ (i + 1)))
      ∧ updateSum (t + 1) (i + 1, j / 2 ^ (i + 1)) (j / 2 ^ i % 2 == 0)
          (blockSum live' i (j / 2 ^ i)) i dist discard_node s
        = if i + 1 < s.treeDepth then
            updateSum t (i + 1 + 1, j / 2 ^ (i + 1 + 1)) (j / 2 ^ (i + 1) % 2 == 0)
              (blockSum live' (i + 1) (j / 2 ^ (i + 1))) (i + 1)
              (dist + (if j / 2 ^ i % 2 = 0 then blockSum live i (j / 2 ^ i + 1) else 0)) discard'
              (s.setNode (i + 1, j / 2 ^ (i + 1)) o)
          else
            .ok (dist + (if j / 2 ^ i % 2 = 0 then blockSum live i (j / 2 ^ i + 1) else 0),
              s.setNode (i + 1, j / 2 ^ (i + 1)) o) := by
  have hnew := hnode.updatedNode M hd
  rw [updateSum, deref_eq hplace, ok_bind, checkSums_eq hnode hv, ok_bind]
  dsimp only
  rw [right_eq hnode, hnew.parent, hnew.sum_eq, hnew.isLeftNode, hnew.nodeIndex,
    div_two_pow_succ j (i + 1)]
  generalize hdel : deletes (updatedNode node (j / 2 ^ i % 2 == 0) (blockSum live' i (j / 2 ^ i))
    discard_node) (blockSum live' i (j / 2 ^ i)) discard_node = deleted
  cases deleted with
  | true =>
    have hgone := hnew.gone_of_deletes hdel
    refine ⟨none, true, hgone, fun _ => hgone.2, ?_⟩
    rw [if_pos rfl, if_pos hgone.1, if_pos hgone.1]
  | false =>
    refine ⟨some _, false, hnew, fun h => absurd h Bool.false_ne_true, ?_⟩
    rw [if_neg Bool.false_ne_true]
    by_cases htop : i + 1 < s.treeDepth
    · rw [if_pos htop, if_pos htop]
    · rw [if_neg htop, if_neg htop]
      rfl

theorem PathOk.setNode {i k : ℕ} (h : PathOk live n j i s)
    (o : Option Node) : PathOk live n j (i + 1) (s.setNode (i + 1, k) o) := by
  intro l hl hlt
  obtain ⟨node, hplace, hnode⟩ := h l (by omega) hlt
  refine ⟨node, ?_, hnode⟩
  rw [setNode_tree, if_neg (by omega)]
  exact hplace

/-- The walk adds up the sums to the right of the blocks that `j` is in. The induction is on
the number of layers above. -/
theorem updateSum_eq (M : Marking live live' n n' j) (t : ℕ) :
    ∀ (i dist : ℕ) (discard_node : Bool) (s : StackDistCalc Addr), s.treeDepth = i + (t + 1) →
      (s.verifyStack = true → s.treeDepth ≤ 31) → PathOk live n j i s →
      (discard_node = true → Gone live' n' i (j / 2 ^ i)) →
      ∃ tree', updateSum (t + 1) (i + 1, j / 2 ^ (i + 1)) (j / 2 ^ i % 2 == 0)
          (blockSum live' i (j / 2 ^ i)) i dist discard_node s
        = .ok (dist + rightSum live (t + 1) i (j / 2 ^ i), { s with tree := tree' })
        ∧ Walked live' n' j i s tree' := by
  induction t with
  | zero =>
    intro i dist discard_node s hdepth hv hpath hd
    obtain ⟨node, hplace, hnode⟩ := hpath i le_rfl (by omega)
    obtain ⟨o, _, hok, _, hturn⟩ :=
      updateSum_turn M hplace hnode (fun h => by have := hv h; omega) 0 dist hd
    rw [if_neg (by omega)] at hturn
    refine ⟨(s.setNode (i + 1, j / 2 ^ (i + 1)) o).tree, hturn, ?_, ?_⟩
    · intro l k hk
      rw [setNode_tree, if_neg]
      rintro ⟨rfl, rfl⟩
      omega
    · intro l hl hlt
      obtain rfl : l = i := by omega
      rw [setNode_tree, if_pos ⟨rfl, rfl⟩]
      exact hok
  | succ t ih =>
    intro i dist discard_node s hdepth hv hpath hd
    obtain ⟨node, hplace, hnode⟩ := hpath i le_rfl (by omega)
    obtain ⟨o, discard', hok, hgone, hturn⟩ :=
      updateSum_turn M hplace hnode (fun h => by have := hv h; omega) (t + 1) dist hd
    rw [if_pos (by omega)] at hturn
    have hdepth' : s.treeDepth = i + 1 + (t + 1) := by omega
    obtain ⟨tree', hrest, hwalk⟩ := ih (i + 1)
      (dist + (if j / 2 ^ i % 2 = 0 then blockSum live i (j / 2 ^ i + 1) else 0)) discard'
      (s.setNode (i + 1, j / 2 ^ (i + 1)) o) hdepth' hv (hpath.setNode o) hgone
    refine ⟨tree', ?_, ?_, ?_⟩
    · rw [hturn, hrest, rightSum_succ (t + 1) i j, Nat.add_assoc]
      rfl
    · intro l k hk
      rw [hwalk.other l k (by simp only [setNode]; omega), setNode_tree, if_neg]
      rintro ⟨rfl, rfl⟩
      omega
    · intro l hl hlt
      by_cases hli : l = i
      · -- the walk above left this layer alone
        subst hli
        rw [hwalk.other _ _ (.inl le_rfl), setNode_tree, if_pos ⟨rfl, rfl⟩]
        exact hok
      · exact hwalk.path l (by omega) hlt

theorem getSum_eq (t : ℕ) :
    ∀ (i dist : ℕ) (s : StackDistCalc Addr), s.treeDepth = i + (t + 1) → PathOk live n j i s →
      s.getSum (t + 1) (i + 1, j / 2 ^ (i + 1)) (j / 2 ^ i % 2 == 0) dist
        = .ok (dist + rightSum live (t + 1) i (j / 2 ^ i)) := by
  induction t with
  | zero =>
    intro i dist s hdepth hpath
    obtain ⟨node, hplace, hnode⟩ := hpath i le_rfl (by omega)
    rw [getSum, deref_eq hplace, ok_bind]
    dsimp only
    rw [right_eq hnode, hnode.parent, if_neg (by omega), rightSum, rightSum, Nat.add_zero]
    rfl
  | succ t ih =>
    intro i dist s hdepth hpath
    obtain ⟨node, hplace, hnode⟩ := hpath i le_rfl (by omega)
    rw [getSum, deref_eq hplace, ok_bind]
    dsimp only
    rw [right_eq hnode, hnode.parent, if_pos (by omega), hnode.isLeftNode,
      ← div_two_pow_succ]
    dsimp only
    rw [ih (i + 1) _ s (by omega) (fun l hl => hpath l (by omega)),
      rightSum_succ (t + 1) i j, Nat.add_assoc]

theorem ancestor_eq (t : ℕ) :
    ∀ (i : ℕ) (s : StackDistCalc Addr), s.treeDepth = i + (t + 1) → PathOk live n j i s →
      s.ancestor t (i + 1, j / 2 ^ (i + 1)) = .ok (s.treeDepth, j / 2 ^ s.treeDepth) := by
  induction t with
  | zero =>
    intro i s hdepth _
    rw [ancestor, hdepth]
    rfl
  | succ t ih =>
    intro i s hdepth hpath
    obtain ⟨node, hplace, hnode⟩ := hpath i le_rfl (by omega)
    rw [ancestor, deref_eq hplace, ok_bind, hnode.parent, if_pos (by omega),
      ← div_two_pow_succ]
    exact ih (i + 1) s (by omega) (fun l hl => hpath l (by omega))

end StackDistCalc

end StackDist

end Bindu.Mem
