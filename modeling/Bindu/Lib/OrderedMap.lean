/-
Ordered maps with a search that starts at a bound.

A `std::map` is a list of entries that is sorted strictly by a key. Its `upper_bound` cuts the
list in two: the entries with a key up to the bound and those behind. A map of intervals is
searched from there: the first entry behind the bound is tried, then the entries below it,
downwards, for as long as neighbours belong together.

The search finds the one entry with the wanted property exactly if that entry is the first
one behind the bound, or if everything from it up to the bound belongs together with it. That
holds for every property, every order of keys and every equivalence that says what belongs
together.
-/
import Mathlib.Data.List.TakeWhile
import Bindu.Lib.Fallible
import Bindu.Lib.SortedBy

namespace Bindu.Lib

open List

/-- The entries of a map, sorted strictly by `key`. -/
structure OrderedMap {κ β : Type} [LinearOrder β] (key : κ → β) (V : Type) where
  entries : List (κ × V)
  sorted : entries.Pairwise (fun e e' => key e.1 < key e'.1)

namespace OrderedMap

variable {κ β V : Type} [LinearOrder β] {key : κ → β}

def empty : OrderedMap key V := ⟨[], Pairwise.nil⟩

/-- The entries with `p`. -/
def filter (m : OrderedMap key V) (p : κ × V → Bool) : OrderedMap key V :=
  ⟨m.entries.filter p, m.sorted.filter p⟩

variable (m : OrderedMap key V) (b : β)

/-- The entries before `upper_bound`. -/
def below : List (κ × V) := m.entries.takeWhile (fun e => key e.1 ≤ b)

/-- The entries from `upper_bound` on. -/
def above : List (κ × V) := m.entries.dropWhile (fun e => key e.1 ≤ b)

theorem below_append_above : m.below b ++ m.above b = m.entries :=
  takeWhile_append_dropWhile

variable {m b}

variable {e : κ × V}

theorem le_of_mem_below (h : e ∈ m.below b) : key e.1 ≤ b := by
  have := mem_takeWhile_imp h
  simpa using this

theorem lt_of_mem_above (h : e ∈ m.above b) : b < key e.1 := by
  have hsorted : (m.above b).Pairwise (fun e e' => key e.1 < key e'.1) :=
    m.sorted.sublist (dropWhile_sublist _)
  -- the first entry of the part is behind the bound, the others come after it
  cases habove : m.above b with
  | nil => exact absurd (habove ▸ h) not_mem_nil
  | cons n rest =>
    have hn : b < key n.1 := by
      have hhead : (m.above b).head? = some n := by rw [habove]; rfl
      have := head?_dropWhile_not (fun e : κ × V => decide (key e.1 ≤ b)) m.entries
      rw [above] at hhead
      rw [hhead] at this
      simpa using this
    rw [habove] at h hsorted
    rcases mem_cons.mp h with rfl | h
    · exact hn
    · exact hn.trans (rel_of_pairwise_cons hsorted h)

theorem mem_below : e ∈ m.below b ↔ e ∈ m.entries ∧ key e.1 ≤ b := by
  rw [← m.below_append_above b, mem_append]
  refine ⟨fun h => ⟨.inl h, le_of_mem_below h⟩, fun h => ?_⟩
  rcases h.1 with hb | ha
  · exact hb
  · exact absurd (lt_of_mem_above ha) (not_lt.mpr h.2)

theorem mem_above : e ∈ m.above b ↔ e ∈ m.entries ∧ b < key e.1 := by
  rw [← m.below_append_above b, mem_append]
  refine ⟨fun h => ⟨.inr h, lt_of_mem_above h⟩, fun h => ?_⟩
  rcases h.1 with hb | ha
  · exact absurd (le_of_mem_below hb) (not_le.mpr h.2)
  · exact ha

theorem eq_of_key_eq {e e' : κ × V} (he : e ∈ m.entries) (he' : e' ∈ m.entries)
    (h : key e.1 = key e'.1) : e = e' := by
  have hnodup : (m.entries.map (fun e => key e.1)).Nodup :=
    pairwise_map.mpr (m.sorted.imp ne_of_lt)
  exact inj_on_of_nodup_map hnodup he he' h

/-- The first entry behind the bound has the least key there. -/
theorem head_above_le {next x : κ × V} (h : (m.above b).head? = some next) (hx : x ∈ m.entries)
    (hlt : b < key x.1) : key next.1 ≤ key x.1 := by
  have hsorted : (m.above b).Pairwise (fun e e' => key e.1 < key e'.1) :=
    m.sorted.sublist (dropWhile_sublist _)
  have hmem := mem_above.mpr ⟨hx, hlt⟩
  obtain ⟨rest, hrest⟩ := head?_eq_some_iff.mp h
  rw [hrest] at hsorted hmem
  rcases mem_cons.mp hmem with rfl | hmem
  · exact le_rfl
  · exact (rel_of_pairwise_cons hsorted hmem).le

/-! ## Insertion -/

variable (m) in
/-- `std::map::insert`: an entry with an equivalent key stays as it is. Returns the entry that
now has the key. -/
def insert (k : κ) (v : V) : OrderedMap key V × (κ × V) :=
  match h : m.entries.find? (fun e => key e.1 = key k) with
  | some e => (m, e)
  | none =>
    (⟨m.below (key k) ++ (k, v) :: m.above (key k), by
      refine pairwise_between ?_ (fun e he => ?_) (fun e he => lt_of_mem_above he)
      · rw [below_append_above]
        exact m.sorted
      · refine lt_of_le_of_ne (le_of_mem_below he) ?_
        have := find?_eq_none.mp h e (mem_below.mp he).1
        simpa using this⟩, (k, v))

/-- If `insert` returns the entry it was given, the map has that entry and its old ones. -/
theorem mem_insert {k : κ} {v : V} (h : (m.insert k v).2 = (k, v)) :
    e ∈ (m.insert k v).1.entries ↔ e = (k, v) ∨ e ∈ m.entries := by
  rw [insert] at h ⊢
  split at h
  · next e' he' =>
      have hmem := mem_of_find?_eq_some he'
      rw [show e' = (k, v) from h] at hmem
      exact ⟨.inr, fun h => h.elim (fun h => h ▸ hmem) id⟩
  · have hsplit : e ∈ m.entries ↔ e ∈ m.below (key k) ∨ e ∈ m.above (key k) := by
      rw [← mem_append, below_append_above]
    rw [hsplit, mem_append, mem_cons]
    tauto

theorem mem_insert_of_mem {k : κ} {v : V} (h : e ∈ m.entries) : e ∈ (m.insert k v).1.entries := by
  rw [insert]
  split
  · exact h
  · rw [← m.below_append_above (key k), mem_append] at h
    exact mem_append.2 (h.imp_right (mem_cons_of_mem _))

/-! ## The search -/

section Search

variable {ε α : Type}

/-- The elements are tried one after the other, as long as the next one belongs together with
the one before. -/
def searchBack (rel : α → α → Bool) (cond : α → Except ε Bool) : List α → Except ε (Option α)
  | [] => pure none
  | i :: rest => do
      if ← cond i then
        return some i
      match rest.head? with
      | none => return none
      | some next => if rel next i then searchBack rel cond rest else return none

variable {rel : α → α → Bool} {cond : α → Except ε Bool} {p : α → Bool}

theorem searchBack_cons_of_true {i : α} {rest : List α} (h : cond i = .ok true) :
    searchBack rel cond (i :: rest) = .ok (some i) := by
  rw [searchBack, h]
  rfl

theorem searchBack_singleton_of_false {i : α} (h : cond i = .ok false) :
    searchBack rel cond [i] = .ok none := by
  rw [searchBack, h]
  rfl

theorem searchBack_cons_of_false {i next : α} {rest : List α} (h : cond i = .ok false) :
    searchBack rel cond (i :: next :: rest)
      = if rel next i then searchBack rel cond (next :: rest) else .ok none := by
  rw [searchBack, h]
  rfl

theorem mem_of_searchBack_eq_some {l : List α} {x : α}
    (h : searchBack rel cond l = .ok (some x)) : x ∈ l ∧ cond x = .ok true := by
  induction l with
  | nil => cases h
  | cons i rest ih =>
    obtain ⟨c, hc, h⟩ := bind_eq_ok.mp h
    cases c with
    | true =>
      cases h
      exact ⟨mem_cons_self, hc⟩
    | false =>
      cases rest with
      | nil => cases h
      | cons next rest =>
        rw [if_neg Bool.false_ne_true, head?_cons] at h
        dsimp only at h
        split_ifs at h
        · exact (ih h).imp_left (mem_cons_of_mem _)
        · cases h

/-- A condition that can be tested without a fault: the search returns. -/
theorem searchBack_returns {l : List α} (hcond : ∀ x ∈ l, cond x = .ok (p x)) :
    ∃ res, searchBack rel cond l = .ok res := by
  induction l with
  | nil => exact ⟨none, rfl⟩
  | cons i rest ih =>
    obtain ⟨res, hres⟩ := ih (fun x hx => hcond x (mem_cons_of_mem _ hx))
    have hi := hcond i mem_cons_self
    cases hp : p i with
    | true => exact ⟨some i, searchBack_cons_of_true (hp ▸ hi)⟩
    | false =>
      cases rest with
      | nil => exact ⟨none, searchBack_singleton_of_false (hp ▸ hi)⟩
      | cons next rest =>
        rw [searchBack_cons_of_false (hp ▸ hi)]
        split_ifs
        · exact ⟨res, hres⟩
        · exact ⟨none, rfl⟩

/-- **Searching downwards.** In a list sorted downwards the one element with the property is
found exactly if all elements above it belong together with it. -/
theorem searchBack_eq_some_iff (hrel : Equivalence (fun x y => rel x y = true)) {rank : α → β}
    {l : List α} (hsorted : l.Pairwise (fun x y => rank y < rank x))
    (hcond : ∀ x ∈ l, cond x = .ok (p x)) {e : α} (he : e ∈ l) (hp : p e = true)
    (huniq : ∀ x ∈ l, p x = true → x = e) :
    searchBack rel cond l = .ok (some e) ↔ ∀ x ∈ l, rank e ≤ rank x → rel x e = true := by
  induction l with
  | nil => exact absurd he not_mem_nil
  | cons i rest ih =>
    have hi := hcond i mem_cons_self
    rw [pairwise_cons] at hsorted
    by_cases hpi : p i = true
    · -- the first element is the one
      rw [hpi] at hi
      have hie : i = e := huniq i mem_cons_self hpi
      subst hie
      rw [searchBack_cons_of_true hi]
      refine ⟨fun _ x hx hle => ?_, fun _ => rfl⟩
      rcases mem_cons.mp hx with rfl | hx
      · exact hrel.refl x
      · exact absurd (hsorted.1 x hx) (not_lt.mpr hle)
    rw [Bool.not_eq_true] at hpi
    rw [hpi] at hi
    have her : e ∈ rest := by
      rcases mem_cons.mp he with rfl | her
      · exact absurd hp (by simp [hpi])
      · exact her
    cases rest with
    | nil => exact absurd her not_mem_nil
    | cons next rest =>
      have hnext : rank e ≤ rank next := by
        rcases mem_cons.mp her with rfl | her'
        · exact le_rfl
        · exact ((pairwise_cons.mp hsorted.2).1 e her').le
      have hrank : rank e ≤ rank i := hnext.trans (hsorted.1 next mem_cons_self).le
      have hih := ih hsorted.2 (fun x hx => hcond x (mem_cons_of_mem _ hx)) her
        (fun x hx => huniq x (mem_cons_of_mem _ hx))
      rw [searchBack_cons_of_false hi]
      by_cases hmerge : rel next i = true
      · rw [if_pos hmerge, hih]
        refine ⟨fun h x hx hle => ?_, fun h x hx => h x (mem_cons_of_mem _ hx)⟩
        rcases mem_cons.mp hx with rfl | hx
        · exact hrel.trans (hrel.symm hmerge) (h next mem_cons_self hnext)
        · exact h x hx hle
      · -- the walk stops here, above the element
        rw [if_neg hmerge]
        refine ⟨fun h => absurd h (by simp), fun h => absurd ?_ hmerge⟩
        exact hrel.trans (h next (by simp) hnext) (hrel.symm (h i mem_cons_self hrank))

end Search

section Search

variable {ε : Type} (m b) (rel : κ → κ → Bool) (cond : κ → Except ε Bool)

/-- The search from `upper_bound`: first the entry there, then the entries below. -/
def search : Except ε (Option (κ × V)) :=
  let back := searchBack (fun e e' => rel e.1 e'.1) (fun e => cond e.1) (m.below b).reverse
  match (m.above b).head? with
  | none => back
  | some next => do
      if ← cond next.1 then
        return some next
      back

variable {m b rel cond} {p : κ → Bool}

/-- `e` is found from the bound `b`: it is the first entry behind the bound, or everything
from `e` up to the bound belongs together with it. -/
def Reached (m : OrderedMap key V) (rel : κ → κ → Bool) (b : β) (e : κ × V) : Prop :=
  (b < key e.1 ∧ ∀ x ∈ m.entries, b < key x.1 → key e.1 ≤ key x.1)
    ∨ (key e.1 ≤ b ∧ ∀ x ∈ m.entries, key e.1 ≤ key x.1 → key x.1 ≤ b → rel x.1 e.1 = true)

variable (m b rel cond) in
/-- The part of the search below the bound. -/
def searchBelow : Except ε (Option (κ × V)) :=
  searchBack (fun e e' => rel e.1 e'.1) (fun e => cond e.1) (m.below b).reverse

theorem mem_of_searchBelow_eq_some (h : m.searchBelow b rel cond = .ok (some e)) :
    e ∈ m.below b ∧ cond e.1 = .ok true :=
  (mem_of_searchBack_eq_some h).imp_left mem_reverse.mp

theorem search_eq_searchBelow
    (h : ∀ next, (m.above b).head? = some next → cond next.1 = .ok false) :
    m.search b rel cond = m.searchBelow b rel cond := by
  rw [search]
  cases habove : (m.above b).head? with
  | none => rfl
  | some next =>
    simp only [h next habove]
    rfl

theorem search_of_above_true {next : κ × V} (h : (m.above b).head? = some next)
    (hc : cond next.1 = .ok true) : m.search b rel cond = .ok (some next) := by
  simp only [search, h, hc]
  rfl

theorem mem_of_search_eq_some (h : m.search b rel cond = .ok (some e)) :
    e ∈ m.entries ∧ cond e.1 = .ok true := by
  have hback (h : m.searchBelow b rel cond = .ok (some e)) :=
    (mem_of_searchBelow_eq_some h).imp_left fun h => (mem_below.mp h).1
  rw [search] at h
  cases habove : (m.above b).head? with
  | none =>
    rw [habove] at h
    exact hback h
  | some next =>
    rw [habove] at h
    obtain ⟨c, hc, h⟩ := bind_eq_ok.mp h
    cases c with
    | true =>
      cases h
      exact ⟨(mem_above.mp (mem_of_mem_head? habove)).1, hc⟩
    | false => exact hback h

theorem search_returns (hcond : ∀ e ∈ m.entries, cond e.1 = .ok (p e.1)) :
    ∃ res, m.search b rel cond = .ok res := by
  by_cases hall : ∀ next, (m.above b).head? = some next → cond next.1 = .ok false
  · rw [search_eq_searchBelow hall]
    exact searchBack_returns (fun x hx => hcond x (mem_below.mp (mem_reverse.mp hx)).1)
  · push Not at hall
    obtain ⟨next, habove, hne⟩ := hall
    have hnext := hcond next (mem_above.mp (mem_of_mem_head? habove)).1
    cases hp : p next.1 with
    | true => exact ⟨some next, search_of_above_true habove (hp ▸ hnext)⟩
    | false => exact absurd (hp ▸ hnext) hne

/-- **What the search finds.** The one entry with the property is found exactly if it is
reached from the bound. -/
theorem search_eq_some_iff (hrel : Equivalence (fun x y => rel x y = true))
    (hcond : ∀ e ∈ m.entries, cond e.1 = .ok (p e.1)) (he : e ∈ m.entries)
    (hp : p e.1 = true) (huniq : ∀ x ∈ m.entries, p x.1 = true → x = e) :
    m.search b rel cond = .ok (some e) ↔ m.Reached rel b e := by
  by_cases hkey : key e.1 ≤ b
  · -- below the bound: the entry behind it does not have the property
    have hsearch : m.search b rel cond = m.searchBelow b rel cond := by
      refine search_eq_searchBelow (fun next habove => ?_)
      obtain ⟨hmem, hlt⟩ := mem_above.mp (mem_of_mem_head? habove)
      rw [hcond next hmem, Except.ok.injEq, ← Bool.not_eq_true]
      intro hpn
      rw [huniq next hmem hpn] at hlt
      exact absurd hlt (not_lt.mpr hkey)
    have hentries : ∀ x ∈ (m.below b).reverse, x ∈ m.entries :=
      fun x hx => (mem_below.mp (mem_reverse.mp hx)).1
    have hsorted : (m.below b).reverse.Pairwise (fun x y => key y.1 < key x.1) := by
      rw [pairwise_reverse]
      exact m.sorted.sublist (takeWhile_sublist _)
    have hequiv : Equivalence (fun x y : κ × V => rel x.1 y.1 = true) :=
      ⟨fun x => hrel.refl x.1, fun h => hrel.symm h, fun h h' => hrel.trans h h'⟩
    rw [hsearch, searchBelow, searchBack_eq_some_iff hequiv hsorted (fun x hx => hcond x (hentries x hx))
      (mem_reverse.mpr (mem_below.mpr ⟨he, hkey⟩)) hp
      (fun x hx => huniq x (hentries x hx)), Reached]
    constructor
    · intro h
      refine .inr ⟨hkey, fun x hx hle hb => ?_⟩
      exact h x (mem_reverse.mpr (mem_below.mpr ⟨hx, hb⟩)) hle
    · rintro (⟨hlt, -⟩ | ⟨-, h⟩) x hx hle
      · exact absurd hlt (not_lt.mpr hkey)
      · exact h x (hentries x hx) hle (mem_below.mp (mem_reverse.mp hx)).2
  · -- behind the bound: only the first entry there is tried
    rw [not_le] at hkey
    have hreached : m.Reached rel b e ↔ ∀ x ∈ m.entries, b < key x.1 → key e.1 ≤ key x.1 := by
      rw [Reached, and_iff_right hkey]
      exact or_iff_left (fun h => absurd h.1 (not_le.mpr hkey))
    rw [hreached]
    cases habove : (m.above b).head? with
    | none =>
      have hmem := mem_above.mpr ⟨he, hkey⟩
      rw [head?_eq_none_iff] at habove
      exact absurd (habove ▸ hmem) not_mem_nil
    | some next =>
      obtain ⟨hmem, hlt⟩ := mem_above.mp (mem_of_mem_head? habove)
      by_cases hne : next = e
      · subst hne
        rw [search_of_above_true habove (by rw [hcond next hmem, hp])]
        exact ⟨fun _ x hx hx' => head_above_le habove hx hx', fun _ => rfl⟩
      · have hsearch : m.search b rel cond = m.searchBelow b rel cond := by
          refine search_eq_searchBelow (fun x hx => ?_)
          rw [← Option.some.inj (habove.symm.trans hx), hcond next hmem, Except.ok.injEq,
            ← Bool.not_eq_true]
          exact fun hpn => hne (huniq next hmem hpn)
        rw [hsearch]
        constructor
        · intro h
          -- what is found then is below the bound
          have hbelow := (mem_of_searchBelow_eq_some h).1
          exact absurd (mem_below.mp hbelow).2 (not_le.mpr hkey)
        · intro h
          have hle := h next hmem hlt
          exact absurd (eq_of_key_eq hmem he (le_antisymm (head_above_le habove he hkey) hle)) hne

end Search

end OrderedMap

end Bindu.Lib
