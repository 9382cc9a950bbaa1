/-
A sorted sequence of stacks: elements with the same key share a bin, the bins are in strictly
increasing order of their keys, and within a bin the element that came last is on top.

The first half is the sequence as a value: a list of bins, with what it means to be in order and
two operations, `push` and `take`. The second half is its representation with pointers: the top
of every bin points to the top of the next bin, and every element to the one below it in its bin.
The pointers to the next bin of the elements below the top are not part of the representation;
they may hold anything.
-/
import Mathlib.Tactic

namespace Bindu.Lib

open List

variable {α κ : Type}

/-! ## The bins as a value -/

section Value

variable [LinearOrder κ] {key : α → κ}

/-- The bins are in order: none is empty, no element occurs twice, all elements of a bin have one
key, and the keys increase from bin to bin. -/
structure OrderedBins (key : α → κ) (bins : List (List α)) : Prop where
  nonempty : ∀ b ∈ bins, b ≠ []
  nodup : bins.flatten.Nodup
  same : ∀ b ∈ bins, ∀ x ∈ b, ∀ y ∈ b, key x = key y
  increasing : bins.Pairwise (fun b c => ∀ x ∈ b, ∀ y ∈ c, key x < key y)

/-- In every bin the element with the greatest stamp is on top, and so on down. -/
def Stacked (stamp : α → ℕ) (bins : List (List α)) : Prop :=
  ∀ b ∈ bins, b.Pairwise (fun x y => stamp y < stamp x)

/-- `e` goes on top of the bin with its key, or gets a bin of its own. -/
def pushBin (key : α → κ) (e : α) : List (List α) → List (List α)
  | [] => [[e]]
  | [] :: bins => [] :: pushBin key e bins
  | (x :: rest) :: bins =>
    if key e < key x then [e] :: (x :: rest) :: bins
    else if key x < key e then (x :: rest) :: pushBin key e bins
    else (e :: x :: rest) :: bins

/-- `e` is taken out, and its bin with it if it was the only element there. -/
def takeBin [DecidableEq α] (e : α) : List (List α) → List (List α)
  | [] => []
  | b :: bins =>
    if e ∈ b then
      if b.erase e = [] then bins else b.erase e :: bins
    else
      b :: takeBin e bins

theorem pushBin_perm (key : α → κ) (e : α) (bins : List (List α)) :
    (pushBin key e bins).flatten.Perm (e :: bins.flatten) := by
  fun_induction pushBin key e bins with
  | case2 bins ih => exact ih
  | case4 x rest bins hex hxe ih => exact (ih.append_left _).trans perm_middle
  | _ => exact Perm.refl _

theorem mem_pushBin {e y : α} {bins : List (List α)} :
    y ∈ (pushBin key e bins).flatten ↔ y = e ∨ y ∈ bins.flatten := by
  rw [(pushBin_perm key e bins).mem_iff, mem_cons]

theorem takeBin_perm [DecidableEq α] {e : α} {bins : List (List α)} (he : e ∈ bins.flatten) :
    bins.flatten.Perm (e :: (takeBin e bins).flatten) := by
  fun_induction takeBin e bins with
  | case1 => exact absurd he not_mem_nil
  | case2 b bins hb hempty =>
    have hperm := perm_cons_erase hb
    rw [hempty] at hperm
    exact hperm.append_right _
  | case3 b bins hb hempty => exact (perm_cons_erase hb).append_right _
  | case4 b bins hb ih =>
    rw [flatten_cons, mem_append] at he
    exact ((ih (he.resolve_left hb)).append_left b).trans perm_middle

theorem mem_of_mem_takeBin [DecidableEq α] {e y : α} {bins : List (List α)}
    (hy : y ∈ (takeBin e bins).flatten) : y ∈ bins.flatten := by
  fun_induction takeBin e bins with
  | case1 => exact hy
  | case2 b bins hb hempty => exact mem_append_right b hy
  | case3 b bins hb hempty =>
    rw [flatten_cons, mem_append] at hy ⊢
    exact hy.imp_left mem_of_mem_erase
  | case4 b bins hb ih =>
    rw [flatten_cons, mem_append] at hy ⊢
    exact hy.imp_right ih

namespace OrderedBins

variable {bins : List (List α)} {b : List α}

theorem nil (key : α → κ) : OrderedBins key [] where
  nonempty _ hb := absurd hb not_mem_nil
  nodup := nodup_nil
  same _ hb := absurd hb not_mem_nil
  increasing := Pairwise.nil

theorem cons_iff :
    OrderedBins key (b :: bins) ↔ b ≠ [] ∧ b.Nodup ∧ (∀ x ∈ b, ∀ y ∈ b, key x = key y)
        ∧ (∀ x ∈ b, ∀ y ∈ bins.flatten, key x < key y) ∧ OrderedBins key bins := by
  constructor
  · rintro ⟨hne, hnodup, hsame, hinc⟩
    rw [forall_mem_cons] at hne hsame
    rw [flatten_cons, nodup_append] at hnodup
    rw [pairwise_cons] at hinc
    refine ⟨hne.1, hnodup.1, hsame.1, fun x hx y hy => ?_, hne.2, hnodup.2.1, hsame.2, hinc.2⟩
    obtain ⟨c, hc, hy⟩ := mem_flatten.mp hy
    exact hinc.1 c hc x hx y hy
  · rintro ⟨hne, hnodup, hsame, hlt, h⟩
    refine ⟨forall_mem_cons.2 ⟨hne, h.nonempty⟩, ?_, forall_mem_cons.2 ⟨hsame, h.same⟩,
      pairwise_cons.2 ⟨fun c hc x hx y hy => ?_, h.increasing⟩⟩
    · rw [flatten_cons, nodup_append]
      refine ⟨hnodup, h.nodup, ?_⟩
      rintro x hx y hy rfl
      exact absurd (hlt x hx x hy) (lt_irrefl _)
    · exact hlt x hx y (mem_flatten.mpr ⟨c, hc, hy⟩)

/-- The top of the first bin is least, and what is as small is in the first bin. -/
theorem first {x : α} {rest : List α} (h : OrderedBins key ((x :: rest) :: bins)) {y : α}
    (hy : y ∈ ((x :: rest) :: bins).flatten) : key x ≤ key y ∧ (key y = key x → y ∈ x :: rest) := by
  obtain ⟨-, -, hsame, hlt, -⟩ := cons_iff.mp h
  rw [flatten_cons, mem_append] at hy
  rcases hy with hy | hy
  · exact ⟨le_of_eq (hsame x mem_cons_self y hy), fun _ => hy⟩
  · have hxy := hlt x mem_cons_self y hy
    exact ⟨le_of_lt hxy, fun heq => absurd heq (ne_of_gt hxy)⟩

theorem congr {key' : α → κ} (h : OrderedBins key bins)
    (heq : ∀ x ∈ bins.flatten, key' x = key x) : OrderedBins key' bins := by
  have hmem : ∀ b ∈ bins, ∀ x ∈ b, key' x = key x :=
    fun b hb x hx => heq x (mem_flatten.mpr ⟨b, hb, hx⟩)
  refine ⟨h.nonempty, h.nodup, ?_, ?_⟩
  · intro b hb x hx y hy
    rw [hmem b hb x hx, hmem b hb y hy]
    exact h.same b hb x hx y hy
  · refine Pairwise.imp_of_mem (fun {b c} hb hc hlt x hx y hy => ?_) h.increasing
    rw [hmem b hb x hx, hmem c hc y hy]
    exact hlt x hx y hy

theorem push (h : OrderedBins key bins) {e : α} (he : e ∉ bins.flatten) :
    OrderedBins key (pushBin key e bins) := by
  fun_induction pushBin key e bins with
  | case1 => exact cons_iff.mpr ⟨by simp, by simp, by simp, by simp, OrderedBins.nil key⟩
  | case2 bins ih => exact absurd rfl (cons_iff.mp h).1
  | case3 x rest bins hex =>
    -- a new bin in front of all others
    refine cons_iff.mpr ⟨by simp, by simp, by simp, fun y hy z hz => ?_, h⟩
    rw [mem_singleton.mp hy]
    exact lt_of_lt_of_le hex (h.first hz).1
  | case4 x rest bins hex hxe ih =>
    obtain ⟨hne, hnodup, hsame, hlt, hbins⟩ := cons_iff.mp h
    rw [flatten_cons, mem_append, not_or] at he
    refine cons_iff.mpr ⟨hne, hnodup, hsame, fun y hy z hz => ?_, ih hbins he.2⟩
    rcases mem_pushBin.mp hz with rfl | hz
    · rw [hsame y hy x mem_cons_self]
      exact hxe
    · exact hlt y hy z hz
  | case5 x rest bins hex hxe =>
    -- on top of this bin
    obtain ⟨-, hnodup, hsame, hlt, hbins⟩ := cons_iff.mp h
    rw [flatten_cons, mem_append, not_or] at he
    have hkeys : ∀ y ∈ e :: x :: rest, key y = key x := forall_mem_cons.2
      ⟨le_antisymm (not_lt.mp hxe) (not_lt.mp hex), fun y hy => hsame y hy x mem_cons_self⟩
    refine cons_iff.mpr ⟨by simp, nodup_cons.mpr ⟨he.1, hnodup⟩, fun y hy z hz => ?_,
      fun y hy z hz => ?_, hbins⟩
    · rw [hkeys y hy, hkeys z hz]
    · rw [hkeys y hy]
      exact hlt x mem_cons_self z hz

theorem take [DecidableEq α] (h : OrderedBins key bins) (e : α) :
    OrderedBins key (takeBin e bins) := by
  fun_induction takeBin e bins with
  | case1 => exact h
  | case2 b bins hb hempty => exact (cons_iff.mp h).2.2.2.2
  | case3 b bins hb hempty =>
    obtain ⟨-, hnodup, hsame, hlt, hbins⟩ := cons_iff.mp h
    refine cons_iff.mpr ⟨hempty, hnodup.erase e, ?_, ?_, hbins⟩
    · exact fun x hx y hy => hsame x (mem_of_mem_erase hx) y (mem_of_mem_erase hy)
    · exact fun x hx y hy => hlt x (mem_of_mem_erase hx) y hy
  | case4 b bins hb ih =>
    obtain ⟨hne, hnodup, hsame, hlt, hbins⟩ := cons_iff.mp h
    refine cons_iff.mpr ⟨hne, hnodup, hsame, ?_, ih hbins⟩
    exact fun x hx y hy => hlt x hx y (mem_of_mem_takeBin hy)

end OrderedBins

namespace Stacked

variable {stamp : α → ℕ} {bins : List (List α)}

theorem push (h : Stacked stamp bins) {e : α} (hlast : ∀ x ∈ bins.flatten, stamp x < stamp e) :
    Stacked stamp (pushBin key e bins) := by
  fun_induction pushBin key e bins with
  | case1 => exact forall_mem_singleton.2 (pairwise_singleton _ e)
  | case2 bins ih =>
    rw [Stacked, forall_mem_cons] at h ⊢
    exact ⟨h.1, ih h.2 hlast⟩
  | case3 x rest bins hex => exact forall_mem_cons.2 ⟨pairwise_singleton _ e, h⟩
  | case4 x rest bins hex hxe ih =>
    rw [Stacked, forall_mem_cons] at h ⊢
    exact ⟨h.1, ih h.2 fun y hy => hlast y (mem_append_right _ hy)⟩
  | case5 x rest bins hex hxe =>
    rw [Stacked, forall_mem_cons] at h ⊢
    exact ⟨pairwise_cons.mpr ⟨fun y hy => hlast y (mem_append_left _ hy), h.1⟩, h.2⟩

theorem take [DecidableEq α] (h : Stacked stamp bins) (e : α) : Stacked stamp (takeBin e bins) := by
  fun_induction takeBin e bins with
  | case1 => exact h
  | case2 c bins hc hempty => exact (forall_mem_cons.1 h).2
  | case3 c bins hc hempty =>
    rw [Stacked, forall_mem_cons] at h ⊢
    exact ⟨h.1.sublist erase_sublist, h.2⟩
  | case4 c bins hc ih =>
    rw [Stacked, forall_mem_cons] at h ⊢
    exact ⟨h.1, ih h.2⟩

theorem congr {stamp' : α → ℕ} (h : Stacked stamp bins)
    (heq : ∀ x ∈ bins.flatten, stamp' x = stamp x) : Stacked stamp' bins := by
  intro b hb
  refine Pairwise.imp_of_mem (fun {x y} hx hy hlt => ?_) (h b hb)
  rw [heq x (mem_flatten.mpr ⟨b, hb, hx⟩), heq y (mem_flatten.mpr ⟨b, hb, hy⟩)]
  exact hlt

end Stacked

end Value

/-! ## The bins in memory

`nextBin` and `nextInBin` are the two pointers of every element. -/

/-- The elements of `l` are linked one after the other, from the pointer `p` on. -/
def Chain (next : α → Option α) : Option α → List α → Prop
  | p, [] => p = none
  | p, x :: l => p = some x ∧ Chain next (next x) l

/-- The bins are linked from the pointer `p` on: each bin is a chain, and the top of a bin points
to the next bin. -/
def Linked (nextBin nextInBin : α → Option α) : Option α → List (List α) → Prop
  | p, [] => p = none
  | _, [] :: _ => False
  | p, (x :: rest) :: bins =>
    p = some x ∧ Chain nextInBin (nextInBin x) rest ∧ Linked nextBin nextInBin (nextBin x) bins

theorem Chain.congr {next next' : α → Option α} {p : Option α} {l : List α}
    (h : Chain next p l) (heq : ∀ x ∈ l, next' x = next x) : Chain next' p l := by
  induction l generalizing p with
  | nil => exact h
  | cons x l ih =>
    refine ⟨h.1, ?_⟩
    rw [heq x mem_cons_self]
    exact ih h.2 (fun y hy => heq y (mem_cons_of_mem _ hy))

theorem Linked.congr {nextBin nextInBin nextBin' nextInBin' : α → Option α} {p : Option α}
    {bins : List (List α)} (h : Linked nextBin nextInBin p bins)
    (hbin : ∀ x ∈ bins.flatten, nextBin' x = nextBin x)
    (hin : ∀ x ∈ bins.flatten, nextInBin' x = nextInBin x) :
    Linked nextBin' nextInBin' p bins := by
  induction bins generalizing p with
  | nil => exact h
  | cons b bins ih =>
    cases b with
    | nil => exact h
    | cons x rest =>
      obtain ⟨hp, hchain, hlinked⟩ := h
      have hx : x ∈ ((x :: rest) :: bins).flatten := mem_append_left _ mem_cons_self
      refine ⟨hp, ?_, ?_⟩
      · rw [hin x hx]
        refine hchain.congr (fun y hy => hin y ?_)
        exact mem_append_left _ (mem_cons_of_mem _ hy)
      · rw [hbin x hx]
        exact ih hlinked (fun y hy => hbin y (mem_append_right _ hy))
          (fun y hy => hin y (mem_append_right _ hy))

end Bindu.Lib
