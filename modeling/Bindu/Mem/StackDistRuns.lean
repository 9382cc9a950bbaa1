/-
Calls of the stack distance calculator against a plain list.

The list holds the addresses that are in the stack, the one accessed last at the front.
`Follows s l debug`: the tree and the map of `s` stand for the list `l`, and the list for
verification is `debug`. The calculator finds the distance of every call in `l`. When the
stack is verified it also looks the address up in `debug`, from which a call with
`addNewNode = false` takes nothing away, and it panics when the two distances differ.
-/
import Bindu.Lib.Recency
import Bindu.Mem.StackDistGrowth

open Bindu.Lib Bindu.Lib.Recency Function Nat

namespace Bindu.Mem

namespace StackDist

namespace StackDistCalc

variable {Addr : Type} {live : ℕ → Bool} {n j : ℕ}

structure Follows (s : StackDistCalc Addr) (l debug : List Addr) : Prop where
  tree : ∃ live, TreeOk live s.index (s.index - 1) s.tree s.treeDepth s.nextIndex
    ∧ Stamped s.aiMap live l
  stack : s.verifyStack = true → s.stack = debug

/-! ## The checks -/

/-- The parents of the leaf that was just added lead to the root. -/
theorem sanityCheckTree_eq {s : StackDistCalc Addr}
    (h : TreeOk live n (n - 1) s.tree s.treeDepth s.nextIndex) (hj : live j = true) :
    s.sanityCheckTree (0, j) = .ok () := by
  rw [sanityCheckTree]
  split_ifs with hv
  · have hjn := h.leaves.live_lt j hj
    obtain ⟨d, hd⟩ := Nat.exists_eq_add_of_le' h.depth.pos
    have hpath : PathOk live n j 0 s := path_of_layers h.layers
      (fun i _ => Nat.div_le_div_right (by omega)) (not_gone_of_live hj)
    have hleaf := h.leaves.leaf j
    cases hnode : s.tree 0 j with
    | none =>
      rw [hnode] at hleaf
      exact absurd (hj.symm.trans hleaf) (by simp)
    | some leaf =>
      rw [hnode] at hleaf
      have htop := ancestor_eq d 0 s (by omega) hpath
      obtain ⟨root, hroot, hok⟩ := hpath d (zero_le d) (by omega)
      rw [zero_add, pow_one] at htop
      rw [← hd] at hroot
      have hparent := hok.parent
      rw [if_neg (by omega)] at hparent
      rw [deref_eq hnode, ok_bind, parentOf_eq hleaf.2.2, ok_bind, hd, Nat.add_sub_cancel, htop,
        ok_bind, deref_eq hroot, ok_bind, hparent]
      rfl
  · rfl

variable [DecidableEq Addr]

theorem verifyStackDist_eq (s : StackDistCalc Addr) (a : Addr) (update_stack : Bool) :
    s.verifyStackDist a update_stack = (distance s.stack a,
      { s with stack := if update_stack then touch s.stack a else s.stack }) := by
  rw [verifyStackDist, distance, touch]
  by_cases hmem : a ∈ s.stack
  · rw [if_pos hmem, if_pos hmem]
    cases update_stack <;> rfl
  · rw [if_neg hmem, if_neg hmem, List.erase_of_not_mem hmem]
    cases update_stack <;> rfl

/-- The distance is the one in the list for verification, if there is one. -/
def Passes (s : StackDistCalc Addr) (a : Addr) (dist : Distance) : Prop :=
  s.verifyStack = true → distance s.stack a = dist

variable {s : StackDistCalc Addr} {l debug : List Addr} {a : Addr} {dist : Distance}

theorem verify_of_passes (s : StackDistCalc Addr)
    (h : s.Passes a dist) (update_stack : Bool) :
    ∃ stack', s.verify a update_stack dist = .ok { s with stack := stack' }
      ∧ (s.verifyStack = true → stack' = if update_stack then touch s.stack a else s.stack) := by
  rw [verify, verifyStackDist_eq]
  by_cases hv : s.verifyStack = true
  · refine ⟨if update_stack then touch s.stack a else s.stack, ?_, fun _ => rfl⟩
    rw [if_pos hv, if_neg (not_not.mpr (h hv))]
    rfl
  · refine ⟨s.stack, ?_, fun h => absurd h hv⟩
    rw [if_neg hv]
    rfl

theorem verify_of_not_passes (s : StackDistCalc Addr)
    (h : ¬ s.Passes a dist) (update_stack : Bool) :
    s.verify a update_stack dist = .error .expected_distance := by
  rw [Passes, Classical.not_imp] at h
  rw [verify, verifyStackDist_eq, if_pos h.1, if_pos h.2]
  rfl

/-! ## The three kinds of calls -/

/-- The tree takes the next index before the distance is checked. -/
theorem addAccess_tree (a : Addr) (dist : Distance) (hn : s.index < 2 ^ 31)
    (h : TreeOk live s.index (s.index - 1) s.tree s.treeDepth s.nextIndex) :
    ∃ tree' depth' nextIndex',
      TreeOk (update live s.index true) (s.index + 1) s.index tree' depth' nextIndex'
      ∧ s.addAccess a dist = (do
          let s' ← ({ s with tree := tree', treeDepth := depth', nextIndex := nextIndex' } :
            StackDistCalc Addr).verify a true dist
          return { s' with index := s'.index + 1 }) := by
  obtain ⟨tree1, depth1, nextIndex₁, hgrow, hok1⟩ := growTree_eq rfl hn h
  obtain ⟨tree2, nextIndex₂, hleaf, hok2⟩ := addLeaf_eq
    (s := { s with tree := tree1, treeDepth := depth1, nextIndex := nextIndex₁ }) hok1 hn
  have hsane := sanityCheckTree_eq
    (s := { s with tree := tree2, treeDepth := depth1, nextIndex := nextIndex₂ })
    hok2 (update_self ..)
  refine ⟨tree2, depth1, nextIndex₂, hok2, ?_⟩
  rw [addAccess, hgrow, ok_bind, hleaf, ok_bind, hsane, ok_bind]

theorem addAccess_of_passes (hn : s.index < 2 ^ 31) (hpass : s.Passes a dist)
    (htree : TreeOk live s.index (s.index - 1) s.tree s.treeDepth s.nextIndex)
    (hstamp : Stamped s.aiMap (update live s.index true) (touch l a))
    (hstack : s.verifyStack = true → s.stack = debug) :
    ∃ s', s.addAccess a dist = .ok s' ∧ Follows s' (touch l a) (touch debug a)
      ∧ s'.index = s.index + 1 ∧ s'.verifyStack = s.verifyStack := by
  obtain ⟨tree', depth', nextIndex', hok, hrun⟩ := addAccess_tree a dist hn htree
  obtain ⟨stack', hcheck, hnew⟩ := verify_of_passes
    { s with tree := tree', treeDepth := depth', nextIndex := nextIndex' } hpass true
  rw [hcheck, ok_bind] at hrun
  refine ⟨_, hrun, ⟨⟨update live s.index true, hok, hstamp⟩, ?_⟩, rfl, rfl⟩
  intro hv
  rw [← hstack hv]
  exact hnew hv

theorem addAccess_of_not_passes
    (hn : s.index < 2 ^ 31) (hpass : ¬ s.Passes a dist)
    (htree : TreeOk live s.index (s.index - 1) s.tree s.treeDepth s.nextIndex) :
    s.addAccess a dist = .error .expected_distance := by
  obtain ⟨tree', depth', nextIndex', -, hrun⟩ := addAccess_tree a dist hn htree
  have hcheck := verify_of_not_passes
    { s with tree := tree', treeDepth := depth', nextIndex := nextIndex' } hpass true
  rw [hrun, hcheck, error_bind]

/-- The number of leaves to the right of that of an address is its position. -/
theorem distance_eq
    (htree : TreeOk live s.index (s.index - 1) s.tree s.treeDepth s.nextIndex)
    (hstamp : Stamped s.aiMap live l) (ha : s.aiMap a = some j) :
    distance l a = some (rightSum live s.treeDepth 0 j) := by
  have hlive : ∀ x, live x = true → x < 2 ^ s.treeDepth := by
    intro x hx
    have hlt := htree.leaves.live_lt x hx
    have hcovers := htree.depth.covers
    omega
  have hj := (hstamp.live_iff j).mpr ⟨a, ha⟩
  rw [distance, if_pos (hstamp.mem ha), rightSum_zero (hlive j hj), hstamp.idxOf_eq ha hlive]

theorem distance_eq_none
    (hstamp : Stamped s.aiMap live l) (ha : s.aiMap a = none) : distance l a = none := by
  rw [distance, if_neg]
  rw [hstamp.mem_iff, ha]
  simp

/-- What a call that adds a node hands to `addAccess`: the map has the new index, the old leaf is
gone, and the distance is that in the list. -/
theorem calcStackDistAndUpdate_add (a : Addr)
    (h : Follows s l debug) (hn : s.index < 2 ^ 31) :
    ∃ live' mark tree', TreeOk live' s.index (s.index - 1) tree' s.treeDepth s.nextIndex
      ∧ Stamped (update s.aiMap a (some s.index)) (update live' s.index true) (touch l a)
      ∧ s.calcStackDistAndUpdate a true = (do
          let s' ← ({ s with
            tree := tree', aiMap := update s.aiMap a (some s.index) } :
              StackDistCalc Addr).addAccess a (distance l a)
          return ((distance l a, mark), s')) := by
  obtain ⟨live, htree, hstamp⟩ := h.tree
  have hlt := htree.leaves.live_lt
  cases ha : s.aiMap a with
  | none =>
    refine ⟨live, false, s.tree, htree, ?_, ?_⟩
    · have hnot : a ∉ l := by
        rw [hstamp.mem_iff, ha]
        simp
      rw [touch, List.erase_of_not_mem hnot]
      exact hstamp.push ha hlt
    · rw [calcStackDistAndUpdate, ha, distance_eq_none hstamp ha]
      rfl
  | some r_index =>
    have hlive := (hstamp.live_iff r_index).mpr ⟨a, ha⟩
    obtain ⟨mark, tree', hremove, hok⟩ := removeLeaf_eq
      (s := s.setAddress a (some s.index)) htree (by omega) hlive
    refine ⟨update live r_index false, mark, tree', hok, ?_, ?_⟩
    · have hpush := (hstamp.remove ha).push (update_self ..) (fun x hx => hok.leaves.live_lt x hx)
      rw [update_idem] at hpush
      exact hpush
    · rw [calcStackDistAndUpdate, ha, distance_eq htree hstamp ha]
      dsimp only
      rw [if_pos rfl, hremove]
      rfl

/-- A call that adds no node takes the address out of the tree. -/
theorem calcStackDistAndUpdate_remove (a : Addr)
    (h : Follows s l debug) (hn : s.index < 2 ^ 31) :
    ∃ mark s', s.calcStackDistAndUpdate a false = .ok ((distance l a, mark), s')
      ∧ Follows s' (l.erase a) debug ∧ s'.index = s.index ∧ s'.verifyStack = s.verifyStack := by
  obtain ⟨live, htree, hstamp⟩ := h.tree
  cases ha : s.aiMap a with
  | none =>
    refine ⟨false, s, ?_, ⟨⟨live, htree, ?_⟩, h.stack⟩, rfl, rfl⟩
    · rw [calcStackDistAndUpdate, ha, distance_eq_none hstamp ha]
      rfl
    · have hnot : a ∉ l := by
        rw [hstamp.mem_iff, ha]
        simp
      rw [List.erase_of_not_mem hnot]
      exact hstamp
  | some r_index =>
    have hlive := (hstamp.live_iff r_index).mpr ⟨a, ha⟩
    obtain ⟨mark, tree', hremove, hok⟩ := removeLeaf_eq
      (s := s.setAddress a none) htree (by omega) hlive
    refine ⟨mark, { s with tree := tree', aiMap := update s.aiMap a none }, ?_,
      ⟨⟨update live r_index false, hok, hstamp.remove ha⟩, h.stack⟩, rfl, rfl⟩
    rw [calcStackDistAndUpdate, ha, distance_eq htree hstamp ha]
    dsimp only
    rw [if_neg Bool.false_ne_true, hremove]
    rfl

/-- The mark of a leaf is not part of what the tree stands for. -/
theorem treeOk_mark {tree : ℕ → ℕ → Option Node} {nextIndex : ℕ → ℕ} {last depth : ℕ} {leaf : Node}
    (h : TreeOk live n last tree depth nextIndex) (hleaf : tree 0 j = some leaf) (mark : Bool) :
    TreeOk live n last (update tree 0 (update (tree 0) j
      (some { leaf with isMarked := mark }))) depth nextIndex := by
  have hold := h.leaves.leaf j
  rw [hleaf] at hold
  refine ⟨h.layers.congr (fun _ _ => rfl) (fun i k => ?_) (fun _ => rfl), ⟨?_, h.leaves.live_lt⟩, h.depth, h.le⟩
  · rw [update_of_ne (succ_ne_zero i)]
  · intro k
    rw [update_self]
    by_cases hk : k = j
    · rw [hk, update_self]
      exact hold
    · rw [update_of_ne hk]
      exact h.leaves.leaf k

/-- What `calcStackDist` checks: the tree only changed in a mark. -/
theorem calcStackDist_tree (a : Addr) (mark : Bool)
    (h : Follows s l debug) :
    ∃ wasMarked tree', Follows { s with tree := tree' } l debug ∧ s.calcStackDist a mark = (do
          let s' ← ({ s with tree := tree' } : StackDistCalc Addr).verify a false (distance l a)
          return ((distance l a, wasMarked), s')) := by
  obtain ⟨live, htree, hstamp⟩ := h.tree
  cases ha : s.aiMap a with
  | none =>
    refine ⟨false, s.tree, h, ?_⟩
    rw [calcStackDist, ha, distance_eq_none hstamp ha]
  | some r_index =>
    have hlive := (hstamp.live_iff r_index).mpr ⟨a, ha⟩
    have hlt := htree.leaves.live_lt r_index hlive
    have hleaf := htree.leaves.leaf r_index
    cases hnode : s.tree 0 r_index with
    | none =>
      rw [hnode] at hleaf
      exact absurd (hlive.symm.trans hleaf) (by simp)
    | some leaf =>
      rw [hnode] at hleaf
      have hmarked := treeOk_mark htree hnode mark
      let s1 := s.setNode (0, r_index) (some { leaf with isMarked := mark })
      have hplace : s1.tree 0 r_index = some { leaf with isMarked := mark } := by
        rw [setNode_tree, if_pos ⟨rfl, rfl⟩]
      have hpath : PathOk live s.index r_index 0 s1 := path_of_layers hmarked.layers
        (fun i _ => Nat.div_le_div_right (by omega)) (not_gone_of_live hlive)
      obtain ⟨d, hd⟩ := Nat.exists_eq_add_of_le' htree.depth.pos
      have hsum : s1.getSumsLeavesToRoot (0, r_index)
          = .ok (rightSum live s.treeDepth 0 r_index) := by
        have hwalk := getSum_eq d 0 0 s1 (by rw [Nat.zero_add]; exact hd) hpath
        rw [pow_zero, Nat.div_one, Nat.zero_add, Nat.zero_add, pow_one, ← hd] at hwalk
        have hparent : ({ leaf with isMarked := mark } : Node).parent = some (1, r_index / 2) :=
          hleaf.2.2
        rw [getSumsLeavesToRoot, deref_eq hplace, ok_bind, parentOf_eq hparent, ok_bind]
        rw [hleaf.2.1]
        exact hwalk
      refine ⟨leaf.isMarked, s1.tree, ⟨⟨live, hmarked, hstamp⟩, h.stack⟩, ?_⟩
      rw [calcStackDist, ha, distance_eq htree hstamp ha]
      dsimp only
      rw [deref_eq hnode, ok_bind, hsum]
      rfl

end StackDistCalc

/-! ## Runs -/

inductive Call (Addr : Type) where
  | calcStackDistAndUpdate (r_address : Addr) (addNewNode : Bool)
  | calcStackDist (r_address : Addr) (mark : Bool)

namespace Call

variable {Addr : Type} [DecidableEq Addr]

def address : Call Addr → Addr
  | calcStackDistAndUpdate a _ => a
  | calcStackDist a _ => a

def exec (s : StackDistCalc Addr) :
    Call Addr → Except Fault ((Distance × Bool) × StackDistCalc Addr)
  | calcStackDistAndUpdate a addNewNode => s.calcStackDistAndUpdate a addNewNode
  | calcStackDist a mark => s.calcStackDist a mark

/-- The list of the addresses in the stack after a call. -/
def naive (l : List Addr) : Call Addr → List Addr
  | calcStackDistAndUpdate a true => touch l a
  | calcStackDistAndUpdate a false => l.erase a
  | calcStackDist _ _ => l

/-- The list for verification after a call: nothing is taken out of it. -/
def debug (l : List Addr) : Call Addr → List Addr
  | calcStackDistAndUpdate a true => touch l a
  | calcStackDistAndUpdate _ false => l
  | calcStackDist _ _ => l

/-- Whether the distance of a call is checked when the stack is verified. -/
def checked : Call Addr → Bool
  | calcStackDistAndUpdate _ addNewNode => addNewNode
  | calcStackDist _ _ => true

end Call

variable {Addr : Type} [DecidableEq Addr]

/-- The distances that a calculator returns for a sequence of calls. -/
def distances (s : StackDistCalc Addr) : List (Call Addr) → Except Fault (List Distance)
  | [] => return []
  | c :: calls => do
      let (result, s) ← c.exec s
      let rest ← distances s calls
      return result.1 :: rest

/-- The distances in a plain list. -/
def naiveDistances (l : List Addr) : List (Call Addr) → List Distance
  | [] => []
  | c :: calls => distance l c.address :: naiveDistances (c.naive l) calls

/-- Every call that is checked finds the same distance in both lists. -/
def Agrees (l debug : List Addr) : List (Call Addr) → Prop
  | [] => True
  | c :: calls => (c.checked = true → distance debug c.address = distance l c.address)
      ∧ Agrees (c.naive l) (c.debug debug) calls

open StackDistCalc

/-- One call: it returns the distance in the list, unless the check finds another one. -/
theorem exec_of_passes {s : StackDistCalc Addr} {l debug : List Addr} (c : Call Addr)
    (h : Follows s l debug) (hn : s.index < 2 ^ 31)
    (hpass : s.verifyStack = true → c.checked = true →
      distance debug c.address = distance l c.address) :
    ∃ mark s', c.exec s = .ok ((distance l c.address, mark), s')
      ∧ Follows s' (c.naive l) (c.debug debug) ∧ s'.index ≤ s.index + 1
      ∧ s'.verifyStack = s.verifyStack := by
  have hsame : c.checked = true → ∀ tree' aiMap', StackDistCalc.Passes
      { s with tree := tree', aiMap := aiMap' } c.address (distance l c.address) := by
    intro hc tree' aiMap' hv
    rw [← hpass hv hc, ← h.stack hv]
  cases c with
  | calcStackDistAndUpdate a addNewNode =>
    cases addNewNode with
    | true =>
      obtain ⟨live', mark, tree', htree, hstamp, hrun⟩ := calcStackDistAndUpdate_add a h hn
      obtain ⟨s', hadd, hfollows, hindex, hv⟩ := addAccess_of_passes
        (s := { s with tree := tree', aiMap := update s.aiMap a (some s.index) })
        hn (hsame rfl tree' _) htree hstamp h.stack
      rw [Call.address] at hadd
      rw [hadd] at hrun
      exact ⟨mark, s', hrun, hfollows, hindex.le, hv⟩
    | false =>
      obtain ⟨mark, s', hrun, hfollows, hindex, hv⟩ := calcStackDistAndUpdate_remove a h hn
      exact ⟨mark, s', hrun, hfollows, hindex.le.trans (le_succ _), hv⟩
  | calcStackDist a mark =>
    obtain ⟨wasMarked, tree', hfollows, hrun⟩ := calcStackDist_tree a mark h
    obtain ⟨stack', hcheck, hstack⟩ :=
      verify_of_passes { s with tree := tree' } (hsame rfl tree' s.aiMap) false
    rw [Call.address] at hcheck
    rw [hcheck] at hrun
    refine ⟨wasMarked, _, hrun, ⟨hfollows.tree, fun hv => ?_⟩, le_succ _, rfl⟩
    rw [Call.debug, ← hfollows.stack hv]
    exact hstack hv

theorem exec_of_not_passes {s : StackDistCalc Addr} {l debug : List Addr} (c : Call Addr)
    (h : Follows s l debug) (hn : s.index < 2 ^ 31) (hv : s.verifyStack = true)
    (hc : c.checked = true) (hne : distance debug c.address ≠ distance l c.address) :
    c.exec s = .error .expected_distance := by
  have hfail : ∀ tree' aiMap', ¬ StackDistCalc.Passes { s with tree := tree', aiMap := aiMap' }
      c.address (distance l c.address) := by
    intro tree' aiMap' hpass
    refine hne ?_
    rw [← hpass hv, ← h.stack hv]
  cases c with
  | calcStackDistAndUpdate a addNewNode =>
    obtain rfl : addNewNode = true := hc
    obtain ⟨live', mark, tree', htree, hstamp, hrun⟩ := calcStackDistAndUpdate_add a h hn
    have herror := addAccess_of_not_passes
      (s := { s with tree := tree', aiMap := update s.aiMap a (some s.index) }) hn
      (hfail tree' _) htree
    rw [Call.address] at herror
    rw [herror] at hrun
    exact hrun
  | calcStackDist a mark =>
    obtain ⟨wasMarked, tree', -, hrun⟩ := calcStackDist_tree a mark h
    have herror := verify_of_not_passes { s with tree := tree' } (hfail tree' s.aiMap) false
    rw [Call.address] at herror
    rw [herror] at hrun
    exact hrun

omit [DecidableEq Addr] in
theorem follows_new (verify_stack : Bool) :
    Follows (StackDistCalc.new verify_stack : StackDistCalc Addr) [] [] := by
  refine ⟨⟨fun _ => false, ⟨⟨?_, ?_⟩, ⟨fun j => rfl, by simp⟩, ⟨le_rfl, by simp [new],
    .inl rfl⟩, zero_le _⟩, Stamped.nil⟩, fun _ => rfl⟩
  · intro i hi
    obtain rfl : i = 0 := lt_one_iff.mp hi
    simp [new]
  · intro i k hi hk
    obtain rfl : i = 0 := lt_one_iff.mp hi
    obtain rfl : k = 0 := le_zero.mp (hk.trans (by simp [new]))
    exact ⟨rfl, rfl, rfl, rfl, rfl, by simp, by simp⟩

/-- A calculator that follows a list gives the distances of the list exactly if it does not
check them or finds the same ones in the list for verification. The induction is on the calls,
with `exec_of_passes` and `exec_of_not_passes` for the first one. -/
theorem distances_eq_iff (calls : List (Call Addr)) :
    ∀ (s : StackDistCalc Addr) (l debug : List Addr), Follows s l debug →
      s.index + calls.length ≤ 2 ^ 31 →
      (distances s calls = .ok (naiveDistances l calls)
        ↔ s.verifyStack = false ∨ Agrees l debug calls) := by
  induction calls with
  | nil => exact fun s l debug _ _ => ⟨fun _ => .inr trivial, fun _ => rfl⟩
  | cons c calls ih =>
    intro s l debug h hn
    rw [List.length_cons] at hn
    by_cases hpass : s.verifyStack = true → c.checked = true →
        distance debug c.address = distance l c.address
    · obtain ⟨mark, s', hexec, hfollows, hindex, hv⟩ := exec_of_passes c h (by omega) hpass
      have hrest := ih s' (c.naive l) (c.debug debug) hfollows (by omega)
      rw [hv] at hrest
      rw [distances, hexec, ok_bind, naiveDistances, Agrees]
      dsimp only
      constructor
      · intro hrun
        obtain ⟨rest, hrest', hcons⟩ := bind_eq_ok.mp hrun
        obtain rfl : rest = naiveDistances (c.naive l) calls :=
          (List.cons.inj (Except.ok.inj hcons)).2
        rcases hrest.mp hrest' with hoff | hagrees
        · exact .inl hoff
        · by_cases hoff : s.verifyStack = false
          · exact .inl hoff
          · exact .inr ⟨hpass (by simpa using hoff), hagrees⟩
      · intro hcond
        rw [hrest.mpr (hcond.imp_right (fun h => h.2)), ok_bind]
        rfl
    · -- the check fails at this call
      obtain ⟨hv, hc, hne⟩ : s.verifyStack = true ∧ c.checked = true
          ∧ distance debug c.address ≠ distance l c.address := by
        push Not at hpass
        exact hpass
      rw [distances, exec_of_not_passes c h (by omega) hv hc hne, error_bind, Agrees, hv]
      constructor
      · intro hrun
        simp at hrun
      · rintro (hoff | hagrees)
        · simp at hoff
        · exact absurd (hagrees.1 hc) hne

/-- No call takes an address out of the stack. -/
def Keeps (l : List Addr) : List (Call Addr) → Prop
  | [] => True
  | c :: calls => (c.checked = false → c.address ∉ l) ∧ Keeps (c.naive l) calls

/-- Then the two lists are one. -/
theorem agrees_of_keeps {l : List Addr} {calls : List (Call Addr)} (h : Keeps l calls) :
    Agrees l l calls := by
  induction calls generalizing l with
  | nil => trivial
  | cons c calls ih =>
    have hsame : c.debug l = c.naive l := by
      cases c with
      | calcStackDistAndUpdate a addNewNode =>
        cases addNewNode with
        | true => rfl
        | false => exact (List.erase_of_not_mem (h.1 rfl)).symm
      | calcStackDist a mark => rfl
    refine ⟨fun _ => rfl, ?_⟩
    rw [hsame]
    exact ih h.2

/-- For fewer than 2 ^ 31 calls, each call returns the distance in the plain list exactly if the
stack is not verified, or every call that is checked has the same distance in the list from
which removed addresses are not taken. -/
theorem stack_distances_iff (verify_stack : Bool) (calls : List (Call Addr))
    (hcalls : calls.length < 2 ^ 31) :
    distances (StackDistCalc.new verify_stack) calls = .ok (naiveDistances [] calls)
      ↔ verify_stack = false ∨ Agrees [] [] calls :=
  distances_eq_iff calls (StackDistCalc.new verify_stack) [] [] (follows_new verify_stack)
    ((zero_add _).le.trans hcalls.le)

/-- With the check off, an address that was removed can be added again. -/
theorem stack_distances_iff_readded :
    distances (StackDistCalc.new false) [Call.calcStackDistAndUpdate 7 true,
        .calcStackDistAndUpdate 8 true, .calcStackDistAndUpdate 7 false, .calcStackDist 8 true,
        .calcStackDistAndUpdate 7 true, .calcStackDist 8 false]
      = .ok [none, none, some 1, some 0, none, some 1] :=
  (stack_distances_iff false _ (by decide)).mpr (.inl rfl)

/-- With the check on, the list for verification still holds the address that was removed: the
third call finds it there and stops. -/
theorem removed_address_panics :
    distances (StackDistCalc.new true) [Call.calcStackDistAndUpdate 7 true,
        .calcStackDistAndUpdate 7 false, .calcStackDistAndUpdate 7 true]
      = .error .expected_distance
    ∧ naiveDistances [] [Call.calcStackDistAndUpdate 7 true, .calcStackDistAndUpdate 7 false,
        .calcStackDistAndUpdate 7 true] = [none, some 0, none] :=
  ⟨rfl, rfl⟩

end StackDist

end Bindu.Mem
