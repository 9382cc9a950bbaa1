/-
Leaves that come and go, and the growth of the tree.

`TreeOk live n last s`: the indices below `n` were given out, those in `live` have a leaf, and
the layers have a node for every block up to the one of index `last`. Removing a leaf and adding
one keep this by the walk to the root. Between the two, the tree grows from `n - 1` to `n`:
in every layer in which a block starts at `n` a node is added, and a new root when the old one
is full.
-/
import Bindu.Mem.StackDistTree

open Bindu.Lib Function Nat

namespace Bindu.Mem

namespace StackDist

def LeafOk (live : ℕ → Bool) (j : ℕ) : Option Node → Prop
  | some node => live j = true ∧ node.isLeftNode = (j % 2 == 0) ∧ node.parent = some (1, j / 2)
  | none => live j = false

/-- The layers above the leaves, up to node `top i` of layer `i`. -/
structure Layers (live : ℕ → Bool) (n : ℕ) (top : ℕ → ℕ) (tree : ℕ → ℕ → Option Node)
    (depth : ℕ) (nextIndex : ℕ → ℕ) : Prop where
  nextIndex : ∀ i, i < depth → nextIndex (i + 1) = top (i + 1) + 1
  place : ∀ i k, i < depth → k ≤ top (i + 1) → PlaceOk live n depth i k (tree (i + 1) k)

structure Leaves (live : ℕ → Bool) (n : ℕ) (tree : ℕ → ℕ → Option Node) : Prop where
  leaf : ∀ j, LeafOk live j (tree 0 j)
  live_lt : ∀ j, live j = true → j < n

/-- The depth is the least one, but at least 1, with a leaf for `last`. -/
structure Depth (last depth : ℕ) : Prop where
  pos : 1 ≤ depth
  covers : last < 2 ^ depth
  least : depth = 1 ∨ 2 ^ (depth - 1) ≤ last

structure TreeOk (live : ℕ → Bool) (n last : ℕ) (tree : ℕ → ℕ → Option Node) (depth : ℕ)
    (nextIndex : ℕ → ℕ) : Prop where
  layers : Layers live n (fun i => last / 2 ^ i) tree depth nextIndex
  leaves : Leaves live n tree
  depth : Depth last depth
  le : n ≤ last + 1

/-- What the layers are read from. Nothing else looks at the leaf layer. -/
theorem Layers.congr {live : ℕ → Bool} {n depth : ℕ} {top top' nextIndex nextIndex' : ℕ → ℕ}
    {tree tree' : ℕ → ℕ → Option Node} (h : Layers live n top tree depth nextIndex)
    (htop : ∀ i < depth, top' (i + 1) = top (i + 1))
    (htree : ∀ i k, tree' (i + 1) k = tree (i + 1) k)
    (hnext : ∀ i, nextIndex' (i + 1) = nextIndex (i + 1)) :
    Layers live n top' tree' depth nextIndex' := by
  refine ⟨fun i hi => by rw [hnext, htop i hi]; exact h.nextIndex i hi, ?_⟩
  intro i k hi hk
  rw [htop i hi] at hk
  rw [htree]
  exact h.place i k hi hk

theorem Depth.le_31 {last depth : ℕ} (h : Depth last depth) (hlast : last < 2 ^ 31) :
    depth ≤ 31 := by
  rcases h.least with hone | hleast
  · omega
  · have hlt : depth - 1 < 31 := (Nat.pow_lt_pow_iff_right (by omega)).mp (hleast.trans_lt hlast)
    omega

namespace StackDistCalc

variable {Addr : Type} {live live' : ℕ → Bool} {n n' last j depth : ℕ} {top : ℕ → ℕ}

/-! ## Paths that are there -/

variable {s : StackDistCalc Addr}

theorem path_of_layers (h : Layers live n top s.tree s.treeDepth s.nextIndex)
    (htop : ∀ i < s.treeDepth, j / 2 ^ (i + 1) ≤ top (i + 1))
    (hgone : ∀ i, ¬ Gone live n i (j / 2 ^ i)) : PathOk live n j 0 s := by
  intro l _ hl
  have hplace := h.place l (j / 2 ^ (l + 1)) hl (htop l hl)
  cases hnode : s.tree (l + 1) (j / 2 ^ (l + 1)) with
  | none =>
    rw [hnode] at hplace
    exact absurd hplace.2 (hgone (l + 1))
  | some node =>
    rw [hnode] at hplace
    exact ⟨node, rfl, hplace⟩

theorem not_gone_of_live (h : live j = true) (i : ℕ) : ¬ Gone live n i (j / 2 ^ i) := by
  intro hgone
  have hpos := blockSum_pos h i
  have hzero := hgone.2
  omega

/-- The block of the next index is not over. -/
theorem not_gone_next (i : ℕ) : ¬ Gone live n i (n / 2 ^ i) := by
  intro hgone
  have hlt : n < n / 2 ^ i * 2 ^ i + 2 ^ i := lt_div_mul_add (by positivity)
  have hle := hgone.1
  rw [add_mul, one_mul] at hle
  omega

/-! ## Adding and removing leaves -/

theorem layers_walked (s : StackDistCalc Addr) {tree' : ℕ → ℕ → Option Node}
    (h : Layers live n top s.tree s.treeDepth s.nextIndex) (M : Marking live live' n n' j)
    (w : Walked live' n' j 0 s tree') : Layers live' n' top tree' s.treeDepth s.nextIndex := by
  refine ⟨h.nextIndex, ?_⟩
  intro i k hi hk
  by_cases hj : k = j / 2 ^ (i + 1)
  · rw [hj]
    exact w.path i (zero_le i) hi
  · rw [w.other (i + 1) k (.inr (.inr hj))]
    exact (h.place i k hi hk).of_ne M (fun h => hj h.symm)

/-- The walk from a leaf whose mark changes. -/
theorem updateSum_leaf (M : Marking live live' n n' j) (s : StackDistCalc Addr)
    (hdepth : 1 ≤ s.treeDepth) (hv : s.treeDepth ≤ 31) (hpath : PathOk live n j 0 s)
    {discard_node : Bool} (hd : discard_node = true → Gone live' n' 0 j) :
    ∃ tree', updateSum s.treeDepth (1, j / 2) (j % 2 == 0) (if live' j then 1 else 0) 0 0
        discard_node s
      = .ok (rightSum live s.treeDepth 0 j, { s with tree := tree' })
      ∧ Walked live' n' j 0 s tree' := by
  obtain ⟨t, ht⟩ := Nat.exists_eq_add_of_le' hdepth
  have h := updateSum_eq M t 0 0 discard_node s (by omega) (fun _ => hv) hpath
    (by rw [pow_zero, Nat.div_one]; exact hd)
  rw [pow_zero, Nat.div_one, Nat.zero_add, Nat.zero_add, pow_one, ← ht] at h
  exact h

theorem updateSumsLeavesToRoot_eq {leaf : Node} {q : NodePtr}
    (hnode : s.tree 0 j = some leaf) (hparent : leaf.parent = some q) (is_new_leaf : Bool) :
    s.updateSumsLeavesToRoot (0, j) is_new_leaf
      = updateSum s.treeDepth q leaf.isLeftNode (if is_new_leaf then 1 else 0) 0 0 (!is_new_leaf)
          (s.setNode (0, j) (some { leaf with sumLeft := if is_new_leaf then 1 else 0 }))
        >>= fun r => .ok (if is_new_leaf then none else some r.1, r.2) := by
  rw [updateSumsLeavesToRoot, deref_eq hnode, ok_bind, parentOf_eq hparent, ok_bind]
  cases is_new_leaf with
  | false => rfl
  | true => rfl

/-- The walk from leaf `j`, which is set to `leaf'` first. -/
theorem walk_from_leaf (M : Marking live live' n n' j)
    (h : Layers live n top s.tree s.treeDepth s.nextIndex) (hdepth : 1 ≤ s.treeDepth)
    (hv : s.treeDepth ≤ 31) (htop : ∀ i < s.treeDepth, j / 2 ^ (i + 1) ≤ top (i + 1))
    (hpresent : ∀ i, ¬ Gone live n i (j / 2 ^ i)) (discard_node : Bool)
    (hd : discard_node = true → Gone live' n' 0 j) (leaf' : Node) :
    ∃ tree', updateSum s.treeDepth (1, j / 2) (j % 2 == 0) (if live' j then 1 else 0) 0 0
        discard_node (s.setNode (0, j) (some leaf'))
      = .ok (rightSum live s.treeDepth 0 j, { s with tree := tree' })
      ∧ Layers live' n' top tree' s.treeDepth s.nextIndex
      ∧ tree' 0 = update (s.tree 0) j (some leaf') := by
  have hlayers : Layers live n top (s.setNode (0, j) (some leaf')).tree
      (s.setNode (0, j) (some leaf')).treeDepth (s.setNode (0, j) (some leaf')).nextIndex :=
    h.congr (fun _ _ => rfl) (fun i k => by rw [setNode_tree, if_neg (by omega)]) (fun _ => rfl)
  have hpath : PathOk live n j 0 (s.setNode (0, j) (some leaf')) :=
    path_of_layers hlayers htop hpresent
  obtain ⟨tree', hrun, hw⟩ :=
    updateSum_leaf M (s.setNode (0, j) (some leaf')) hdepth hv hpath hd
  refine ⟨tree', hrun, layers_walked (s.setNode (0, j) (some leaf')) hlayers M hw, ?_⟩
  funext k
  rw [hw.other 0 k (.inl le_rfl), setNode_tree, update_apply]
  simp

theorem leaves_update {tree tree' : ℕ → ℕ → Option Node} (h : Leaves live n tree) {b : Bool}
    {o : Option Node} (hn : n ≤ n') (htree : tree' 0 = update (tree 0) j o)
    (ho : LeafOk (update live j b) j o) (hj : b = true → j < n') :
    Leaves (update live j b) n' tree' := by
  refine ⟨?_, ?_⟩
  · intro k
    rw [htree]
    by_cases hk : k = j
    · rw [hk, update_self]
      exact ho
    · have hleaf := h.leaf k
      rw [update_of_ne hk]
      generalize tree 0 k = o at hleaf
      cases o <;> simpa only [LeafOk, update_of_ne hk] using hleaf
  · intro k hk
    by_cases hkj : k = j
    · rw [hkj, update_self] at hk
      rw [hkj]
      exact hj hk
    · rw [update_of_ne hkj] at hk
      exact (h.live_lt k hk).trans_le hn

/-- A leaf is taken out: the walk finds the number of leaves to the right of it. -/
theorem removeLeaf_eq
    (h : TreeOk live n last s.tree s.treeDepth s.nextIndex) (hlast : last < 2 ^ 31)
    (hj : live j = true) :
    ∃ mark tree', s.removeLeaf j
        = .ok ((some (rightSum live s.treeDepth 0 j), mark), { s with tree := tree' })
      ∧ TreeOk (update live j false) n last tree' s.treeDepth s.nextIndex := by
  have hjn := h.leaves.live_lt j hj
  have hle := h.le
  have hleaf := h.leaves.leaf j
  cases hnode : s.tree 0 j with
  | none =>
    rw [hnode] at hleaf
    exact absurd (hj.symm.trans hleaf) (by simp)
  | some leaf =>
    rw [hnode] at hleaf
    obtain ⟨-, hleft, hparent⟩ := hleaf
    have hgone : Gone (update live j false) n 0 j := by
      refine ⟨by rw [pow_zero]; omega, ?_⟩
      rw [blockSum, update_self]
      rfl
    obtain ⟨tree', hwalk, hlayers, hleaves⟩ := walk_from_leaf (Marking.remove live n j)
      h.layers h.depth.pos (h.depth.le_31 hlast) (fun i _ => Nat.div_le_div_right (by omega))
      (not_gone_of_live hj) true (fun _ => hgone) { leaf with sumLeft := 0 }
    rw [update_self, ← hleft] at hwalk
    have hstill : ({ s with tree := tree' } : StackDistCalc Addr).tree 0 j
        = some { leaf with sumLeft := 0 } :=
      (congrFun hleaves j).trans (update_self ..)
    refine ⟨leaf.isMarked,
      (({ s with tree := tree' } : StackDistCalc Addr).setNode (0, j) none).tree, ?_, ?_⟩
    · have hsums : s.updateSumsLeavesToRoot (0, j) false
          = .ok (some (rightSum live s.treeDepth 0 j), { s with tree := tree' }) := by
        rw [updateSumsLeavesToRoot_eq hnode hparent]
        exact congrArg (fun r => r >>= _) hwalk
      rw [removeLeaf, hsums, ok_bind]
      dsimp only
      rw [deref_eq hstill]
      rfl
    · refine ⟨hlayers.congr (fun _ _ => rfl) (fun i k => by rw [setNode_tree, if_neg (by omega)])
        (fun _ => rfl), ?_, h.depth, h.le⟩
      refine leaves_update (o := none) h.leaves le_rfl ?_ (update_self ..) (by simp)
      funext k
      rw [setNode_tree, update_apply]
      by_cases hk : k = j
      · rw [if_pos ⟨rfl, hk⟩, if_pos hk]
      · rw [if_neg (by simp [hk]), if_neg hk]
        exact (congrFun hleaves k).trans (update_of_ne hk ..)

theorem pointerTo_eq {i k : ℕ} {node : Node}
    (h : s.tree i k = some node) : s.pointerTo i k = some (i, k) := by
  rw [pointerTo, h]
  rfl

theorem addLeaf_eq
    (h : TreeOk live s.index s.index s.tree s.treeDepth s.nextIndex) (hn : s.index < 2 ^ 31) :
    ∃ tree' nextIndex', s.addLeaf = .ok { s with tree := tree', nextIndex := nextIndex' }
      ∧ TreeOk (update live s.index true) (s.index + 1) s.index tree' s.treeDepth nextIndex' := by
  have hpos := h.depth.pos
  have hpath : PathOk live s.index s.index 0 s :=
    path_of_layers h.layers (fun _ _ => le_rfl) (fun i => not_gone_next i)
  obtain ⟨parent, hparent, -⟩ := hpath 0 le_rfl hpos
  rw [Nat.zero_add, pow_one] at hparent
  have hlast : s.nextIndex 1 - 1 = s.index / 2 := by
    rw [h.layers.nextIndex 0 hpos, Nat.zero_add, pow_one, Nat.add_sub_cancel]
  -- the state in which the walk starts
  let leaf : Node :=
    { nodeIndex := s.index, isLeftNode := s.index % 2 == 0, parent := some (1, s.index / 2) }
  let s1 := (s.setNextIndex 0 (s.nextIndex 0 + 1)).setNode (0, s.index) (some leaf)
  have hlayers : Layers live s.index (fun i => s.index / 2 ^ i) s1.tree s1.treeDepth
      s1.nextIndex := by
    refine h.layers.congr (fun _ _ => rfl) (fun i k => ?_) (fun i => ?_)
    · rw [setNode_tree, if_neg (by omega)]
      rfl
    · exact update_of_ne (succ_ne_zero i) (s.nextIndex 0 + 1) s.nextIndex
  obtain ⟨tree', hwalk, hlayers', hleaves⟩ := walk_from_leaf (Marking.add live s.index) hlayers
    hpos (h.depth.le_31 hn) (fun _ _ => le_rfl) (fun i => not_gone_next i) false (by simp)
    { leaf with sumLeft := 1 }
  rw [update_self] at hwalk
  have hplace : s1.tree 0 s.index = some leaf := by rw [setNode_tree, if_pos ⟨rfl, rfl⟩]
  refine ⟨tree', s1.nextIndex, ?_, hlayers', ?_, h.depth, le_rfl⟩
  · have hsums : s1.updateSumsLeavesToRoot (0, s.index) true
        = .ok (none, { s1 with tree := tree' }) := by
      rw [updateSumsLeavesToRoot_eq hplace rfl]
      exact congrArg (fun r => r >>= _) hwalk
    rw [addLeaf, hlast, pointerTo_eq hparent]
    show s1.updateSumsLeavesToRoot (0, s.index) true >>= _ = _
    rw [hsums]
    rfl
  · refine leaves_update (o := some { leaf with sumLeft := 1 }) h.leaves (le_succ s.index) ?_
      ⟨update_self .., rfl, rfl⟩ (fun _ => lt_succ_self s.index)
    rw [hleaves]
    funext k
    by_cases hk : k = s.index
    · rw [hk, update_self, update_self]
    · rw [update_of_ne hk, update_of_ne hk, setNode_tree, if_neg (by simp [hk])]
      rfl

/-! ## Growth

In the loops of `updateTree`, which go down from the root, the layers above `i` have a node for
every block up to that of `p + 1`, the others only up to that of `p`. -/

/-- The greatest index of layer `l` when the loop is at layer `i`. -/
def grown (p i l : ℕ) : ℕ := if l ≤ i then p / 2 ^ l else (p + 1) / 2 ^ l

theorem addNode_tree (s : StackDistCalc Addr) (i l k : ℕ) (hl : l ≠ i ∨ k ≠ s.nextIndex i) :
    (s.addNode i).tree l k = s.tree l k := by
  rw [addNode, setNode_tree, if_neg (by omega)]
  rfl

theorem addNode_tree_self (s : StackDistCalc Addr) (i : ℕ) :
    (s.addNode i).tree i (s.nextIndex i) = some
      { isLeftNode := s.nextIndex i % 2 == 0
        parent := s.pointerTo (i + 1) (s.nextIndex (i + 1) - 1)
        nodeIndex := s.nextIndex i } := by
  rw [addNode, setNode_tree, if_pos ⟨rfl, rfl⟩]

theorem addNode_nextIndex (s : StackDistCalc Addr) (i l : ℕ) :
    (s.addNode i).nextIndex l = if l = i then s.nextIndex i + 1 else s.nextIndex l :=
  update_apply ..

theorem blockSum_next (h : ∀ j, live j = true → j < n) {i k : ℕ} (hk : n ≤ k * 2 ^ i) :
    blockSum live i k = 0 := by
  refine blockSum_eq_zero (fun x hx => ?_)
  by_contra hlive
  have hlt := h x (by simpa using hlive)
  omega

theorem addNode_layers {p i : ℕ} (hi : i + 1 < s.treeDepth)
    (h : Layers live (p + 1) (grown p (i + 1)) s.tree s.treeDepth s.nextIndex)
    (hlive : ∀ j, live j = true → j < p + 1) (hdvd : 2 ^ (i + 1) ∣ p + 1) :
    Layers live (p + 1) (grown p i) (s.addNode (i + 1)).tree s.treeDepth
      (s.addNode (i + 1)).nextIndex := by
  have hnew : s.nextIndex (i + 1) = (p + 1) / 2 ^ (i + 1) := by
    rw [h.nextIndex i (by omega), grown, if_pos le_rfl, succ_div_of_dvd hdvd]
  have hstart : 2 * ((p + 1) / 2 ^ (i + 1)) * 2 ^ i = p + 1 := by
    calc 2 * ((p + 1) / 2 ^ (i + 1)) * 2 ^ i
        = (p + 1) / 2 ^ (i + 1) * 2 ^ (i + 1) := by rw [pow_succ]; ring
      _ = p + 1 := Nat.div_mul_cancel hdvd
  have habove : s.nextIndex (i + 1 + 1) - 1 = (p + 1) / 2 ^ (i + 1 + 1) := by
    rw [h.nextIndex (i + 1) hi, grown, if_neg (by omega), Nat.add_sub_cancel]
  refine ⟨?_, ?_⟩
  · intro l hl
    rw [addNode_nextIndex]
    by_cases hli : l + 1 = i + 1
    · rw [if_pos hli, hnew, hli, grown, if_neg (by omega)]
    · rw [if_neg hli, h.nextIndex l hl]
      simp only [grown]
      split_ifs <;> first | rfl | omega
  · intro l k hl hk
    by_cases hplace : l = i ∧ k = s.nextIndex (i + 1)
    · obtain ⟨rfl, rfl⟩ := hplace
      rw [addNode_tree_self, habove]
      -- the parent is there, because its block is not over
      have hparent := h.place (l + 1) ((p + 1) / 2 ^ (l + 1 + 1)) hi (by
        rw [grown, if_neg (by omega)])
      cases hnode : s.tree (l + 1 + 1) ((p + 1) / 2 ^ (l + 1 + 1)) with
      | none =>
        rw [hnode] at hparent
        exact absurd hparent.2 (not_gone_next _)
      | some node =>
        rw [pointerTo_eq hnode, hnew]
        refine ⟨rfl, rfl, ?_, ?_, ?_, by simp, by simp⟩
        · rw [if_pos hi, div_two_pow_succ (p + 1) (l + 1)]
        · exact (blockSum_next hlive hstart.ge).symm
        · refine (blockSum_next hlive (hstart.ge.trans ?_)).symm
          exact mul_le_mul_right _ (le_succ _)
    · rw [addNode_tree s (i + 1) (l + 1) k (by omega)]
      refine h.place l k hl ?_
      by_cases hli : l = i
      · -- all nodes of this layer but the new one
        subst hli
        rw [grown, if_neg (by omega)] at hk
        rw [grown, if_pos le_rfl]
        have hsucc := succ_div_of_dvd hdvd
        omega
      · simp only [grown] at hk ⊢
        split_ifs at hk ⊢ <;> omega

/-- The loop adds a node in every layer in which a block starts at `p + 1`. -/
theorem addNodes_eq (needs : ℕ → Except Fault Bool) {p : ℕ}
    (hlive : ∀ j, live j = true → j < p + 1) (i : ℕ) :
    ∀ s : StackDistCalc Addr, i < s.treeDepth →
      (∀ l < i, needs (l + 1) = .ok ((p + 1) % 2 ^ (l + 1) == 0)) →
      Layers live (p + 1) (grown p i) s.tree s.treeDepth s.nextIndex →
      ∃ tree' nextIndex', addNodes needs i s = .ok { s with tree := tree', nextIndex := nextIndex' }
        ∧ Layers live (p + 1) (fun l => (p + 1) / 2 ^ l) tree' s.treeDepth nextIndex'
        ∧ tree' 0 = s.tree 0 := by
  induction i with
  | zero =>
    intro s _ _ h
    refine ⟨s.tree, s.nextIndex, rfl, h.congr (fun l _ => ?_) (fun _ _ => rfl) (fun _ => rfl), rfl⟩
    rw [grown, if_neg (by omega)]
  | succ i ih =>
    intro s hi hneeds h
    rw [addNodes, hneeds i (lt_succ_self i), ok_bind]
    by_cases hdvd : (p + 1) % 2 ^ (i + 1) = 0
    · rw [if_pos (by rw [hdvd]; rfl)]
      obtain ⟨tree', nextIndex', hrest, hlayers, hleaves⟩ := ih (s.addNode (i + 1))
        (lt_of_succ_lt hi) (fun l hl => hneeds l (by omega))
        (addNode_layers hi h hlive (dvd_of_mod_eq_zero hdvd))
      refine ⟨tree', nextIndex', hrest, hlayers, ?_⟩
      rw [hleaves]
      funext k
      exact addNode_tree s (i + 1) 0 k (.inl (succ_ne_zero i).symm)
    · rw [if_neg (by rw [beq_iff_eq]; exact hdvd)]
      refine ih s (lt_of_succ_lt hi) (fun l hl => hneeds l (by omega)) (h.congr ?_ (fun _ _ => rfl) (fun _ => rfl))
      -- no block of this layer starts here
      have hsame : (p + 1) / 2 ^ (i + 1) = p / 2 ^ (i + 1) :=
        succ_div_of_not_dvd (fun hd => hdvd (mod_eq_zero_of_dvd hd))
      intro l _
      by_cases hli : l = i
      · rw [hli, grown, if_neg (by omega), grown, if_pos le_rfl, hsame]
      · simp only [grown]
        split_ifs <;> first | rfl | omega

/-- A node keeps its place when a layer is put above the root. -/
theorem place_deeper {i k : ℕ} {o : Option Node} (h : PlaceOk live n depth i k o)
    (hi : i + 1 < depth) : PlaceOk live n (depth + 1) i k o := by
  cases o with
  | none => exact ⟨lt_succ_of_lt hi, h.2⟩
  | some node =>
    refine ⟨h.nodeIndex, h.isLeftNode, ?_, h.sumLeft, h.sumRight, h.discardLeft, h.discardRight⟩
    rw [h.parent, if_pos hi, if_pos (lt_succ_of_lt hi)]

theorem root_deeper {i : ℕ} {node : Node} (h : NodeOk live n (i + 1) i 0 node) :
    NodeOk live n (i + 1 + 1) i 0 { node with parent := some (i + 1 + 1, 0) } := by
  refine ⟨h.nodeIndex, h.isLeftNode, ?_, h.sumLeft, h.sumRight, h.discardLeft, h.discardRight⟩
  rw [if_pos (lt_succ_self _)]

theorem root_above {i : ℕ} {node : Node} (h : NodeOk live n (i + 1) i 0 node)
    (hright : blockSum live (i + 1) 1 = 0) :
    NodeOk live n (i + 1 + 1) (i + 1) 0
      { sumLeft := node.sumRight + node.sumLeft
        discardLeft := node.discardLeft && node.discardRight } := by
  refine ⟨rfl, rfl, ?_, ?_, hright.symm, ?_, by simp⟩
  · rw [if_neg (lt_irrefl _)]
  · rw [mul_zero, ← h.sum_eq, add_comm]
  · intro hd
    rw [Bool.and_eq_true] at hd
    exact (h.discardLeft hd.1).of_halves (h.discardRight hd.2)

/-- The tree is full: a new root is put above the old one. -/
theorem addRoot_eq {p d : ℕ} (hdepth : s.treeDepth = d + 1) (hfull : p + 1 = 2 ^ (d + 1))
    (h : Layers live (p + 1) (fun i => p / 2 ^ i) s.tree s.treeDepth s.nextIndex)
    (hlive : ∀ j, live j = true → j < p + 1) :
    ∃ tree' nextIndex', s.addRoot = .ok
        { s with tree := tree', nextIndex := nextIndex', treeDepth := s.treeDepth + 1 }
      ∧ Layers live (p + 1) (grown p s.treeDepth) tree' (s.treeDepth + 1) nextIndex'
      ∧ tree' 0 = s.tree 0 := by
  have hroot := h.place d 0 (by omega) (zero_le _)
  rw [hdepth] at h hroot ⊢
  cases hnode : s.tree (d + 1) 0 with
  | none =>
    rw [hnode] at hroot
    exact absurd hroot.1 (lt_irrefl _)
  | some old =>
    rw [hnode] at hroot
    have hright : blockSum live (d + 1) 1 = 0 := blockSum_next hlive (by omega)
    let s1 := (s.setNode (d + 1, 0) (some { old with parent := some (d + 1 + 1, 0) })).setNode
      (d + 1 + 1, 0) (some { sumLeft := old.sumRight + old.sumLeft
                             discardLeft := old.discardLeft && old.discardRight })
    have htree : ∀ l k, s1.tree l k = if l = d + 1 + 1 ∧ k = 0 then
            some { sumLeft := old.sumRight + old.sumLeft
                   discardLeft := old.discardLeft && old.discardRight }
          else if l = d + 1 ∧ k = 0 then some { old with parent := some (d + 1 + 1, 0) }
          else s.tree l k := by
      intro l k
      rw [setNode_tree, setNode_tree]
    refine ⟨s1.tree, update s.nextIndex (d + 1 + 1) 1, ?_, ⟨?_, ?_⟩, ?_⟩
    · rw [addRoot, hdepth, deref_eq hnode, ok_bind]
      simp only [setNode, setNextIndex, hdepth]
      rfl
    · intro l hl
      by_cases hnew : l = d + 1
      · rw [hnew, update_self, grown, if_neg (by omega), hfull, pow_succ 2 (d + 1),
          Nat.div_eq_of_lt (by have := Nat.two_pow_pos (d + 1); omega)]
      · rw [update_of_ne (by omega), h.nextIndex l (by omega), grown, if_pos (by omega)]
    · intro l k hl hk
      have hp : p < 2 ^ (d + 1) := by omega
      by_cases hnew : l = d + 1
      · -- the new root
        rw [hnew, grown, if_neg (by omega), hfull, pow_succ 2 (d + 1),
          Nat.div_eq_of_lt (by have := Nat.two_pow_pos (d + 1); omega)] at hk
        rw [hnew, Nat.le_zero.mp hk, htree, if_pos ⟨rfl, rfl⟩]
        exact root_above hroot hright
      · rw [grown, if_pos (by omega)] at hk
        rw [htree, if_neg (by omega)]
        by_cases hold : l = d
        · -- the old root, the only node of its layer
          rw [hold, div_eq_of_lt hp] at hk
          rw [hold, le_zero.mp hk, if_pos ⟨rfl, rfl⟩]
          exact root_deeper hroot
        · rw [if_neg (by omega)]
          exact place_deeper (h.place l k (by omega) hk) (by omega)
    · funext k
      rw [htree, if_neg (by omega), if_neg (by omega)]

/-! ### When the tree grows -/

theorem leastSigBit_eq_iff (b : BitVec 64) : leastSigBit b = b ↔ b &&& (b - 1) = 0 := by
  rw [leastSigBit, BitVec.eq_of_getLsbD_eq_iff, BitVec.eq_of_getLsbD_eq_iff]
  refine forall_congr' fun i => forall_congr' fun hi => ?_
  simp [hi]

theorem isPowerOf2_iff {m : ℕ} (hpos : 0 < m) (hm : m < 2 ^ 64) :
    isPowerOf2 (BitVec.ofNat 64 m) = true ↔ ∃ k, m = 2 ^ k := by
  have hval : (BitVec.ofNat 64 m).toNat = m := mod_eq_of_lt hm
  have hpred : (BitVec.ofNat 64 m - 1).toNat = m - 1 := by
    rw [BitVec.toNat_sub, hval]
    simp only [BitVec.reduceToNat, reducePow]
    omega
  have hne : BitVec.ofNat 64 m ≠ 0 := by
    intro h
    rw [← BitVec.toNat_inj, hval] at h
    exact absurd h hpos.ne'
  rw [isPowerOf2, Bool.and_eq_true, bne_iff_ne, beq_iff_eq, leastSigBit_eq_iff,
    ← BitVec.toNat_inj, BitVec.toNat_and, hval, hpred]
  exact (and_iff_right hne).trans (and_sub_one_eq_zero_iff_isPowerOfTwo hpos.ne')

theorem depth_of_power {p k : ℕ} (h : Depth p depth) (hodd : p % 2 = 1) (hk : p + 1 = 2 ^ k) :
    k = depth := by
  have hk0 : k ≠ 0 := by
    rintro rfl
    omega
  have hle : k ≤ depth := by
    have hlt : 2 ^ k < 2 ^ (depth + 1) := by
      have := h.covers
      rw [pow_succ]
      omega
    exact Nat.le_of_lt_succ ((Nat.pow_lt_pow_iff_right (by omega)).mp hlt)
  rcases h.least with hone | hleast
  · omega
  · have hlt : 2 ^ (depth - 1) < 2 ^ k := by omega
    have := (Nat.pow_lt_pow_iff_right (by omega)).mp hlt
    omega

theorem leaves_congr {tree tree' : ℕ → ℕ → Option Node} (h : Leaves live n tree)
    (htree : tree' 0 = tree 0) : Leaves live n tree' :=
  ⟨fun j => by rw [htree]; exact h.leaf j, h.live_lt⟩

/-- At a power of two the tree gets a new root and a chain of nodes below it. -/
theorem updateTree_power {p : ℕ} (hindex : s.index = p + 1)
    (hfull : p + 1 = 2 ^ s.treeDepth) (hp : p + 1 < 2 ^ 31)
    (h : TreeOk live (p + 1) p s.tree s.treeDepth s.nextIndex) :
    ∃ tree' depth' nextIndex', s.updateTree
        = .ok { s with tree := tree', treeDepth := depth', nextIndex := nextIndex' }
      ∧ TreeOk live (p + 1) (p + 1) tree' depth' nextIndex' := by
  obtain ⟨d, hd⟩ := Nat.exists_eq_add_of_le' h.depth.pos
  obtain ⟨tree1, nextIndex₁, hroot, hlayers1, hleaves1⟩ :=
    addRoot_eq hd (by rw [← hd]; exact hfull) h.layers h.leaves.live_lt
  have hall : ∀ l < s.treeDepth, (fun _ => return true : ℕ → Except Fault Bool) (l + 1)
      = .ok ((p + 1) % 2 ^ (l + 1) == 0) := by
    intro l hl
    have hdvd : 2 ^ (l + 1) ∣ p + 1 := by
      rw [hfull]
      exact pow_dvd_pow 2 hl
    rw [mod_eq_zero_of_dvd hdvd]
    rfl
  obtain ⟨tree', nextIndex', hloop, hlayers, hleaves⟩ := addNodes_eq
    (fun _ => return true) h.leaves.live_lt s.treeDepth
    ({ s with tree := tree1, nextIndex := nextIndex₁, treeDepth := s.treeDepth + 1 })
    (lt_succ_self _) hall hlayers1
  refine ⟨tree', s.treeDepth + 1, nextIndex', ?_, hlayers,
    leaves_congr h.leaves (hleaves.trans hleaves1), ⟨?_, ?_, ?_⟩, le_succ _⟩
  · rw [updateTree, if_pos, hroot, ok_bind]
    · exact hloop
    · rw [hindex]
      exact (isPowerOf2_iff (succ_pos p) (hp.trans (by norm_num))).mpr ⟨_, hfull⟩
  · omega
  · rw [hfull]
    exact Nat.pow_lt_pow_succ (by omega)
  · rw [Nat.add_sub_cancel]
    exact .inr hfull.ge

/-- At any other even index nodes are added below the root. -/
theorem updateTree_other {p : ℕ} (hindex : s.index = p + 1)
    (hnot : ∀ k, p + 1 ≠ 2 ^ k) (hp : p + 1 < 2 ^ 31)
    (h : TreeOk live (p + 1) p s.tree s.treeDepth s.nextIndex) :
    ∃ tree' nextIndex', s.updateTree = .ok { s with tree := tree', nextIndex := nextIndex' }
      ∧ TreeOk live (p + 1) (p + 1) tree' s.treeDepth nextIndex' := by
  have hcovers : p + 1 < 2 ^ s.treeDepth := by
    have hlt := h.depth.covers
    have hne := hnot s.treeDepth
    omega
  have hdepth := h.depth.le_31 (by omega)
  have hpos := h.depth.pos
  have hneeds : ∀ l, l < s.treeDepth - 1 →
      (fun i => do return s.index % (← shiftLeftOne i) == 0 : ℕ → Except Fault Bool) (l + 1)
        = .ok ((p + 1) % 2 ^ (l + 1) == 0) := by
    intro l hl
    dsimp only
    rw [shiftLeftOne_eq (by omega), ok_bind, hindex]
    rfl
  -- the root stands for both `p` and `p + 1`
  have hlayers : Layers live (p + 1) (grown p (s.treeDepth - 1)) s.tree s.treeDepth
      s.nextIndex := by
    refine h.layers.congr (fun l hl => ?_) (fun _ _ => rfl) (fun _ => rfl)
    rw [grown]
    split_ifs with hle
    · rfl
    · rw [show l + 1 = s.treeDepth by omega, div_eq_of_lt hcovers, div_eq_of_lt h.depth.covers]
  obtain ⟨tree', nextIndex', hloop, hlayers', hleaves⟩ :=
    addNodes_eq (fun i => do return s.index % (← shiftLeftOne i) == 0) h.leaves.live_lt
      (s.treeDepth - 1) s (by omega) hneeds hlayers
  refine ⟨tree', nextIndex', ?_, hlayers', leaves_congr h.leaves hleaves,
    ⟨hpos, hcovers, h.depth.least.imp_right (fun hle => hle.trans (le_succ p))⟩,
    le_succ _⟩
  rw [updateTree, if_neg]
  · exact hloop
  · rw [hindex, isPowerOf2_iff (succ_pos p) (hp.trans (by norm_num))]
    rintro ⟨k, hk⟩
    exact hnot k hk

/-- At an odd index the tree stays as it is: every block of the next index has begun. -/
theorem treeOk_odd {tree : ℕ → ℕ → Option Node} {nextIndex : ℕ → ℕ} {p : ℕ} (hp : p % 2 = 0)
    (h : TreeOk live (p + 1) p tree depth nextIndex) :
    TreeOk live (p + 1) (p + 1) tree depth nextIndex := by
  have hpos := h.depth.pos
  obtain ⟨d, rfl⟩ := Nat.exists_eq_add_of_le' hpos
  refine ⟨h.layers.congr (fun i _ => ?_) (fun _ _ => rfl) (fun _ => rfl), h.leaves, ⟨hpos, ?_, ?_⟩, Nat.le_succ _⟩
  · refine Nat.succ_div_of_not_dvd (fun hdvd => ?_)
    have htwo : 2 ∣ p + 1 := (dvd_pow_self 2 (Nat.succ_ne_zero i)).trans hdvd
    omega
  · have hlt := h.depth.covers
    rw [pow_succ] at hlt ⊢
    omega
  · exact h.depth.least.imp_right (fun hle => hle.trans (le_succ p))

/-- Before the first index the tree is a root without leaves. -/
theorem updateTree_first (hindex : s.index = 0) (hdepth : s.treeDepth = 1) : s.updateTree = .ok s:= by
  rw [updateTree, hindex, hdepth]
  rfl

/-- The tree grows so that the next index has a place for its leaf. -/
theorem growTree_eq (hindex : s.index = n) (hn : n < 2 ^ 31)
    (h : TreeOk live n (n - 1) s.tree s.treeDepth s.nextIndex) :
    ∃ tree' depth' nextIndex', s.growTree
        = .ok { s with tree := tree', treeDepth := depth', nextIndex := nextIndex' }
      ∧ TreeOk live n n tree' depth' nextIndex' := by
  cases n with
  | zero =>
    have hdepth : s.treeDepth = 1 := by
      rcases h.depth.least with hone | hleast
      · exact hone
      · have := Nat.two_pow_pos (s.treeDepth - 1)
        omega
    refine ⟨s.tree, s.treeDepth, s.nextIndex, ?_, h⟩
    rw [growTree, if_pos (by rw [hindex]), updateTree_first hindex hdepth]
  | succ p =>
    rw [Nat.add_sub_cancel] at h
    rcases Nat.mod_two_eq_zero_or_one p with hp | hp
    · refine ⟨s.tree, s.treeDepth, s.nextIndex, ?_, treeOk_odd hp h⟩
      rw [growTree, if_neg (by omega)]
      rfl
    · rw [growTree, if_pos (by omega)]
      by_cases hpower : ∃ k, p + 1 = 2 ^ k
      · obtain ⟨k, hk⟩ := hpower
        have hfull : p + 1 = 2 ^ s.treeDepth := by rw [← depth_of_power h.depth hp hk, hk]
        exact updateTree_power hindex hfull hn h
      · obtain ⟨tree', nextIndex', hrun, hok⟩ :=
          updateTree_other hindex (fun k hk => hpower ⟨k, hk⟩) hn h
        exact ⟨tree', s.treeDepth, nextIndex', hrun, hok⟩

end StackDistCalc

end StackDist

end Bindu.Mem
