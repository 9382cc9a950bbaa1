/-
Address maps: a `std::map` of address ranges with a small cache in front of it.

`find` is the search of all queries. It tries the cached entries, then the entry at
`upper_bound` and the entries below it for as long as they merge. The order of the tree is
that of start and interleaving match, so a query for the address at which an interleaved
group starts comes in between the stripes of the group: the ones with a greater match than
the first behind match 0 are never looked at. They are not needed as long as the start of a
group belongs to stripe 0, which holds for an aligned start without hashing and not otherwise.

Source: `base/addr_range_map.hh`.
-/
import Bindu.Lib.OrderedMap
import Bindu.Base.AddrRange

open Bindu.Lib List

namespace Bindu.Base

open AddrRange

open AddrRange (Fault)

/-- An iterator is the entry it points to. -/
structure AddrRangeMap (V : Type) where
  max_cache_size : ℕ
  tree : OrderedMap key V
  cache : List (AddrRange × V)

namespace AddrRangeMap

variable {V : Type}

def empty (max_cache_size : ℕ) : AddrRangeMap V := ⟨max_cache_size, .empty, []⟩

/-- The first cached entry that meets the condition, and the cache without it. -/
def cacheHit (cond : AddrRange → Except Fault Bool) :
    List (AddrRange × V) → Except Fault (Option ((AddrRange × V) × List (AddrRange × V)))
  | [] => return none
  | it :: rest => do
      if ← cond it.1 then
        return some (it, rest)
      match ← cacheHit cond rest with
      | some (it', rest') => return some (it', it :: rest')
      | none => return none

variable (m : AddrRangeMap V)

/-- When the cache is full, its last element is overwritten and moved to the front. -/
def addNewEntryToCache (it : AddrRange × V) : AddrRangeMap V :=
  if m.max_cache_size ≠ 0 then
    if m.max_cache_size ≤ m.cache.length then
      if m.max_cache_size > 1 then
        { m with cache := it :: m.cache.dropLast }
      else
        { m with cache := m.cache.dropLast ++ [it] }
    else
      { m with cache := it :: m.cache }
  else
    m

/-- Returns `none` for `end()`. -/
def find (r : AddrRange) (cond : AddrRange → Except Fault Bool) :
    Except Fault (AddrRangeMap V × Option (AddrRange × V)) := do
  match ← cacheHit cond m.cache with
  | some (it, rest) => return ({ m with cache := it :: rest }, some it)
  | none =>
    match ← m.tree.search r.key mergesWith cond with
    | some it => return (m.addNewEntryToCache it, some it)
    | none => return (m, none)

/-- `contains` for a range. -/
def containsRange (r : AddrRange) : Except Fault (AddrRangeMap V × Option (AddrRange × V)) :=
  m.find r (fun r1 => r.isSubset r1)

/-- `contains` for an address. -/
def contains (a : ℕ) (ha : a < 2 ^ 64) :
    Except Fault (AddrRangeMap V × Option (AddrRange × V)) :=
  m.containsRange (rangeOne a ha)

def intersects (r : AddrRange) : Except Fault (AddrRangeMap V × Option (AddrRange × V)) :=
  m.find r (fun r1 => r.intersects r1)

/-- Returns the entry that has the key of `r` afterwards, `none` if a stored range intersects
`r`. -/
def insert (r : AddrRange) (d : V) :
    Except Fault (AddrRangeMap V × Option (AddrRange × V)) := do
  let (m, found) ← m.intersects r
  if found.isSome then
    return (m, none)
  let (tree, it) := m.tree.insert r d
  return ({ m with tree := tree }, some it)

/-! ## One search -/

variable {m' : AddrRangeMap V} {it : AddrRange × V}

section Find

variable {m} {r : AddrRange} {cond : AddrRange → Except Fault Bool} {p : AddrRange → Bool}
  {l : List (AddrRange × V)}

theorem cacheHit_cons_of_true (h : cond it.1 = .ok true) :
    cacheHit cond (it :: l) = .ok (some (it, l)) := by
  rw [cacheHit, h]
  rfl

theorem cacheHit_cons_of_false (h : cond it.1 = .ok false) :
    cacheHit cond (it :: l) = do
      match ← cacheHit cond l with
      | some (it', rest') => return some (it', it :: rest')
      | none => return none := by
  rw [cacheHit, h]
  rfl

theorem cacheHit_cons_of_error {e : Fault} (h : cond it.1 = .error e) :
    cacheHit cond (it :: l) = .error e := by
  rw [cacheHit, h]
  rfl

/-- The cache is the entry that was hit and the others. -/
theorem cacheHit_perm {rest : List (AddrRange × V)}
    (h : cacheHit cond l = .ok (some (it, rest))) : (it :: rest).Perm l := by
  induction l generalizing it rest with
  | nil => exact absurd h (by simp [cacheHit, pure, Except.pure])
  | cons a l ih =>
    cases hc : cond a.1 with
    | error e =>
      rw [cacheHit_cons_of_error hc] at h
      simp at h
    | ok c =>
      cases c with
      | true =>
        rw [cacheHit_cons_of_true hc, Except.ok.injEq, Option.some.injEq, Prod.mk.injEq] at h
        rw [h.1, h.2]
      | false =>
        rw [cacheHit_cons_of_false hc] at h
        obtain ⟨res, hres, h⟩ := bind_eq_ok.mp h
        cases res with
        | none => exact absurd h (by simp [pure, Except.pure])
        | some x =>
          obtain ⟨it', rest'⟩ := x
          simp only [pure, Except.pure, Except.ok.injEq, Option.some.injEq, Prod.mk.injEq] at h
          rw [← h.1, ← h.2]
          exact (Perm.swap _ _ _).trans ((ih hres).cons a)

/-- A condition that can be tested without a fault: without a hit no cached entry meets it. -/
theorem cacheHit_ok (hcond : ∀ e ∈ l, cond e.1 = .ok (p e.1)) :
    (cacheHit cond l = .ok none ∧ ∀ e ∈ l, p e.1 = false)
      ∨ ∃ it rest, cacheHit cond l = .ok (some (it, rest)) ∧ p it.1 = true := by
  induction l with
  | nil => exact .inl ⟨rfl, fun e he => absurd he not_mem_nil⟩
  | cons a l ih =>
    have ha := hcond a mem_cons_self
    by_cases hp : p a.1 = true
    · rw [hp] at ha
      exact .inr ⟨a, l, cacheHit_cons_of_true ha, hp⟩
    rw [Bool.not_eq_true] at hp
    rw [hp] at ha
    rw [cacheHit_cons_of_false ha]
    rcases ih (fun e he => hcond e (mem_cons_of_mem _ he)) with
      ⟨hnone, hall⟩ | ⟨it, rest, hsome, hit⟩
    · refine .inl ⟨by rw [hnone]; rfl, fun e he => ?_⟩
      rcases mem_cons.mp he with rfl | he
      · exact hp
      · exact hall e he
    · exact .inr ⟨it, a :: rest, by rw [hsome]; rfl, hit⟩

/-- What a search does to the map: only the cache changes, and it gets nothing that is not in
the tree. -/
structure Looked (m m' : AddrRangeMap V) : Prop where
  tree : m'.tree = m.tree
  cache : ∀ e ∈ m'.cache, e ∈ m.cache ∨ e ∈ m.tree.entries

theorem addNewEntryToCache_looked (h : it ∈ m.tree.entries) :
    Looked m (m.addNewEntryToCache it) := by
  refine ⟨?_, fun e he => ?_⟩
  · rw [addNewEntryToCache]
    split_ifs <;> rfl
  · have hcases : e ∈ m.cache ∨ e = it := by
      rw [addNewEntryToCache] at he
      split_ifs at he
      · exact (mem_cons.mp he).symm.imp_left mem_of_mem_dropLast
      · rw [mem_append, mem_singleton] at he
        exact he.imp_left mem_of_mem_dropLast
      · exact (mem_cons.mp he).symm
      · exact .inl he
    rcases hcases with hmem | rfl
    · exact .inl hmem
    · exact .inr h

/-- A search hits a cached entry, or it returns what the tree does. -/
theorem find_cases {res : Option (AddrRange × V)} (h : m.find r cond = .ok (m', res)) :
    (∃ it rest, cacheHit cond m.cache = .ok (some (it, rest)) ∧ res = some it
        ∧ m' = { m with cache := it :: rest })
      ∨ cacheHit cond m.cache = .ok none ∧ m.tree.search r.key mergesWith cond = .ok res
        ∧ m' = res.elim m m.addNewEntryToCache := by
  obtain ⟨hit, hhit, h⟩ := bind_eq_ok.mp h
  cases hit with
  | some x =>
    cases h
    exact .inl ⟨x.1, x.2, hhit, rfl, rfl⟩
  | none =>
    obtain ⟨found, hfound, h⟩ := bind_eq_ok.mp h
    cases found <;> cases h <;> exact .inr ⟨hhit, hfound, rfl⟩

theorem find_looked {res : Option (AddrRange × V)} (h : m.find r cond = .ok (m', res)) :
    Looked m m' := by
  rcases find_cases h with ⟨it, rest, hhit, -, rfl⟩ | ⟨-, hsearch, rfl⟩
  · exact ⟨rfl, fun e he => .inl ((cacheHit_perm hhit).mem_iff.mp he)⟩
  · cases res with
    | none => exact ⟨rfl, fun e he => .inl he⟩
    | some it => exact addNewEntryToCache_looked (OrderedMap.mem_of_search_eq_some hsearch).1

/-- A search that finds nothing changes nothing, and the two neighbours of the key were
tried. -/
theorem find_eq_none (h : m.find r cond = .ok (m', none)) :
    m' = m ∧ m.tree.search r.key mergesWith cond = .ok none := by
  rcases find_cases h with ⟨it, rest, -, hnone, -⟩ | ⟨-, hsearch, hm⟩
  · cases hnone
  · exact ⟨hm, hsearch⟩

end Find

/-! ## Looking up an address -/

section Lookup

variable {m} {a : ℕ}

/-- The search for `a` gets to the stored entry `e`. -/
def Reached (m : AddrRangeMap V) (a : ℕ) (e : AddrRange × V) : Prop :=
  (e.1._start = a ∧ 0 < e.1.intlvMatch ∧ ∀ x ∈ m.tree.entries, x.1._start = a → 0 < x.1.intlvMatch →
        e.1.intlvMatch ≤ x.1.intlvMatch)
    ∨ ((e.1._start < a ∨ e.1.intlvMatch = 0)
      ∧ ∀ x ∈ m.tree.entries, e.1.key ≤ x.1.key → x.1.key ≤ toLex (a, 0) →
        x.1.mergesWith e.1 = true)

instance [DecidableEq V] (m : AddrRangeMap V) (a : ℕ) (e : AddrRange × V) :
    Decidable (m.Reached a e) :=
  inferInstanceAs (Decidable (_ ∨ _))

theorem le_key_iff {r : AddrRange} : r.key ≤ toLex (a, 0)
    ↔ r._start < a ∨ (r._start = a ∧ r.intlvMatch = 0) := by
  rw [key, Prod.Lex.toLex_le_toLex]
  simp only [Nat.le_zero]

theorem lt_key_iff {r : AddrRange} : toLex (a, 0) < r.key
    ↔ a < r._start ∨ (r._start = a ∧ 0 < r.intlvMatch) := by
  rw [key, Prod.Lex.toLex_lt_toLex]
  simp only [eq_comm]

/-- For an entry whose interval has the address this is what the search of the ordered map
reaches. -/
theorem reached_iff {e : AddrRange × V} (hstart : e.1._start ≤ a) :
    m.tree.Reached mergesWith (toLex (a, 0)) e ↔ m.Reached a e := by
  rw [OrderedMap.Reached, Reached, le_key_iff, lt_key_iff]
  constructor
  · rintro (⟨hlt, hfirst⟩ | ⟨hle, hmerge⟩)
    · obtain ⟨heq, hpos⟩ := hlt.resolve_left (by omega)
      refine .inl ⟨heq, hpos, fun x hx hxa hxpos => ?_⟩
      have := key_le_iff.mp (hfirst x hx (lt_key_iff.mpr (.inr ⟨hxa, hxpos⟩)))
      omega
    · exact .inr ⟨hle.imp_right And.right, hmerge⟩
  · rintro (⟨heq, hpos, hfirst⟩ | ⟨hle, hmerge⟩)
    · refine .inl ⟨.inr ⟨heq, hpos⟩, fun x hx hlt => key_le_iff.mpr ?_⟩
      rcases lt_key_iff.mp hlt with hlt | ⟨hxa, hxpos⟩
      · exact .inl (by omega)
      · exact .inr ⟨by omega, hfirst x hx hxa hxpos⟩
    · refine .inr ⟨?_, hmerge⟩
      rcases hle with hlt | hzero
      · exact .inl hlt
      · exact (Nat.lt_or_eq_of_le hstart).imp_right (fun h => ⟨h, hzero⟩)

/-- **A lookup.** It always returns, what it returns is a stored entry that contains the
address, and the one stored entry that contains the address is returned exactly if it is
cached or reached. -/
theorem contains_spec (hcached : ∀ e ∈ m.cache, e ∈ m.tree.entries)
    (huniq : ∀ e ∈ m.tree.entries, ∀ e' ∈ m.tree.entries, e.1.contains a = true →
      e'.1.contains a = true → e = e') (ha : a < 2 ^ 64) :
    ∃ m' res, m.contains a ha = .ok (m', res)
      ∧ (∀ e, res = some e → e ∈ m.tree.entries ∧ e.1.contains a = true)
      ∧ ∀ e ∈ m.tree.entries, e.1.contains a = true →
        (res = some e ↔ e ∈ m.cache ∨ m.Reached a e) := by
  let cond : AddrRange → Except Fault Bool := fun r1 => (rangeOne a ha).isSubset r1
  have hcond : ∀ r : AddrRange, cond r = .ok (r.contains a) := rangeOne_isSubset ha
  have hcache : (cacheHit cond m.cache = .ok none ∧ ∀ e ∈ m.cache, e.1.contains a = false)
      ∨ ∃ it rest, cacheHit cond m.cache = .ok (some (it, rest)) ∧ it.1.contains a = true :=
    cacheHit_ok (p := fun r => r.contains a) (fun e _ => hcond e.1)
  rcases hcache with ⟨hmiss, hnone⟩ | ⟨it, rest, hhit, hit⟩
  · -- nothing in the cache has the address: the tree is searched
    obtain ⟨res, hres⟩ : ∃ res, m.tree.search (toLex (a, 0)) mergesWith cond = .ok res :=
      OrderedMap.search_returns (p := fun r => r.contains a) (fun e _ => hcond e.1)
    have hcontains : ∃ m', m.contains a ha = .ok (m', res) := by
      have hfind : m.contains a ha = (cacheHit cond m.cache >>= fun hit =>
          match hit with
          | some (it, rest) => return ({ m with cache := it :: rest }, some it)
          | none => do
              match ← m.tree.search (toLex (a, 0)) mergesWith cond with
              | some it => return (m.addNewEntryToCache it, some it)
              | none => return (m, none)) := rfl
      rw [hfind, hmiss, ok_bind, hres, ok_bind]
      cases res with
      | none => exact ⟨m, rfl⟩
      | some it => exact ⟨m.addNewEntryToCache it, rfl⟩
    obtain ⟨m', hm'⟩ := hcontains
    refine ⟨m', res, hm', fun e he => ?_, fun e he hea => ?_⟩
    · rw [he] at hres
      obtain ⟨hmem, hc⟩ := OrderedMap.mem_of_search_eq_some hres
      rw [hcond, Except.ok.injEq] at hc
      exact ⟨hmem, hc⟩
    · have hsearch := OrderedMap.search_eq_some_iff (b := toLex (a, 0))
        (p := fun r => r.contains a) mergesWith_equivalence (fun e _ => hcond e.1) he hea
        (fun x hx hxa => huniq x hx e he hxa hea)
      rw [hres, Except.ok.injEq, reached_iff (mem_interval hea).1] at hsearch
      rw [hsearch]
      refine ⟨.inr, fun h => h.resolve_left (fun hmem => ?_)⟩
      exact absurd (hnone e hmem) (by rw [hea]; simp)
  · -- the cached entry is the one that contains the address
    have hmem : it ∈ m.cache := (cacheHit_perm hhit).mem_iff.mp mem_cons_self
    refine ⟨{ m with cache := it :: rest }, some it, ?_, fun e he => ?_, fun e he hea => ?_⟩
    · rw [contains, containsRange, find, show cacheHit _ m.cache = _ from hhit]
      rfl
    · rw [← Option.some.inj he]
      exact ⟨hcached it hmem, hit⟩
    · have heq := huniq it (hcached it hmem) e he hit hea
      subst heq
      exact ⟨fun _ => .inl hmem, fun _ => rfl⟩

end Lookup

/-! ## Maps that were built by insertions -/

/-- `m` was built by insertions of `calls`, latest first, all of which returned the new entry.
In between there may be any queries and any insertions that were refused. -/
inductive Built (max_cache_size : ℕ) : List (AddrRange × V) → AddrRangeMap V → Prop
  | empty : Built max_cache_size [] (empty max_cache_size)
  | insert {calls m m'} {r : AddrRange} {d : V} : Built max_cache_size calls m →
      m.insert r d = .ok (m', some (r, d)) → Built max_cache_size ((r, d) :: calls) m'
  | refused {calls m m'} {r : AddrRange} {d : V} : Built max_cache_size calls m →
      m.insert r d = .ok (m', none) → Built max_cache_size calls m'
  | containsRange {calls m m'} {r : AddrRange} {res} : Built max_cache_size calls m →
      m.containsRange r = .ok (m', res) → Built max_cache_size calls m'
  | intersects {calls m m'} {r : AddrRange} {res} : Built max_cache_size calls m →
      m.intersects r = .ok (m', res) → Built max_cache_size calls m'

variable {max_cache_size : ℕ} {calls : List (AddrRange × V)} {m}

theorem insert_eq_none {r : AddrRange} {d : V} (h : m.insert r d = .ok (m', none)) : Looked m m':= by
  rw [insert] at h
  obtain ⟨⟨m1, found⟩, hfound, h⟩ := bind_eq_ok.mp h
  cases found with
  | some x =>
    simp only [Option.isSome_some, if_true, pure, Except.pure, Except.ok.injEq, Prod.mk.injEq] at h
    rw [← h.1]
    exact find_looked hfound
  | none => exact absurd h (by simp [pure, Except.pure])

/-- An insertion that returns an entry found no intersection and changes only the tree. -/
theorem insert_eq_some {r : AddrRange} {d : V} (h : m.insert r d = .ok (m', some it)) :
    m.tree.search r.key mergesWith (fun r1 => r.intersects r1) = .ok none
      ∧ m'.cache = m.cache ∧ m'.tree = (m.tree.insert r d).1 ∧ it = (m.tree.insert r d).2 := by
  rw [insert] at h
  obtain ⟨⟨m1, found⟩, hfound, h⟩ := bind_eq_ok.mp h
  cases found with
  | some x => exact absurd h (by simp [pure, Except.pure])
  | none =>
    obtain ⟨heq, hsearch⟩ := find_eq_none hfound
    rw [heq] at h
    simp only [Option.isSome_none, Bool.false_eq_true, if_false, pure, Except.pure,
      Except.ok.injEq, Prod.mk.injEq, Option.some.injEq] at h
    obtain ⟨hm', hit⟩ := h
    rw [← hm']
    exact ⟨hsearch, rfl, rfl, hit.symm⟩

/-- The stored entries are the inserted ones, and the cached ones are among them. -/
structure Stores (calls : List (AddrRange × V)) (m : AddrRangeMap V) : Prop where
  stored : ∀ e, e ∈ m.tree.entries ↔ e ∈ calls
  cached : ∀ e ∈ m.cache, e ∈ m.tree.entries

theorem Stores.looked (h : Stores calls m) (hl : Looked m m') :
    Stores calls m' := by
  refine ⟨fun e => ?_, fun e he => ?_⟩
  · rw [hl.tree]
    exact h.stored e
  · rw [hl.tree]
    exact (hl.cache e he).elim (h.cached e) id

theorem Stores.insert {r : AddrRange} {d : V} (h : Stores calls m)
    (hi : m.insert r d = .ok (m', some (r, d))) : Stores ((r, d) :: calls) m' := by
  obtain ⟨-, hcache, htree, hit⟩ := insert_eq_some hi
  have hmem : ∀ e, e ∈ m'.tree.entries ↔ e = (r, d) ∨ e ∈ m.tree.entries := by
    intro e
    rw [htree]
    exact OrderedMap.mem_insert hit.symm
  refine ⟨fun e => ?_, fun e he => ?_⟩
  · rw [hmem, h.stored, mem_cons]
  · rw [hcache] at he
    exact (hmem e).mpr (.inr (h.cached e he))

theorem Stores.owner_unique (h : Stores calls m)
    (hdisj : calls.Pairwise (fun e e' => ∀ a, ¬ (e.1.contains a = true ∧ e'.1.contains a = true)))
    (a : ℕ) (e) (he : e ∈ m.tree.entries) (e') (he' : e' ∈ m.tree.entries)
    (hea : e.1.contains a = true) (hea' : e'.1.contains a = true) : e = e' := by
  by_contra hne
  have hsymm : Std.Symm (fun e e' : AddrRange × V =>
      ∀ a, ¬ (e.1.contains a = true ∧ e'.1.contains a = true)) :=
    ⟨fun e e' h a hc => h a hc.symm⟩
  exact hdisj.forall ((h.stored e).mp he) ((h.stored e').mp he') hne a ⟨hea, hea'⟩

theorem Built.stores (h : Built max_cache_size calls m) : Stores calls m := by
  induction h with
  | empty =>
    exact ⟨fun e => ⟨fun h => absurd h not_mem_nil, fun h => absurd h not_mem_nil⟩,
      fun e h => absurd h not_mem_nil⟩
  | insert _ hi ih => exact ih.insert hi
  | refused _ hi ih => exact ih.looked (insert_eq_none hi)
  | containsRange _ hc ih => exact ih.looked (find_looked hc)
  | intersects _ hc ih => exact ih.looked (find_looked hc)

/-- The lookup of `a` returns the stored entry whose range contains `a`, and `end()` if there
is none. -/
def Complete (calls : List (AddrRange × V)) (m : AddrRangeMap V) (a : ℕ) (ha : a < 2 ^ 64) : Prop :=
  ∃ m' res, m.contains a ha = .ok (m', res) ∧ ∀ e, res = some e ↔ e ∈ calls ∧ e.1.contains a = true

/-- **When address lookup is complete.** After every sequence of successful insertions of
pairwise disjoint ranges, with any queries in between, and for every address: the lookup
returns the entry whose range contains the address, and `end()` if no stored range does,
exactly if that entry is cached, or lies at or below the key of the address and merges with
all stored ranges in between, or starts at the address and has the least positive match of
those that do. -/
theorem contains_complete_iff (hm : Built max_cache_size calls m)
    (hdisj : calls.Pairwise (fun e e' => ∀ a, ¬ (e.1.contains a = true ∧ e'.1.contains a = true)))
    (a : ℕ) (ha : a < 2 ^ 64) :
    Complete calls m a ha ↔ ∀ e ∈ calls, e.1.contains a = true → e ∈ m.cache ∨ m.Reached a e := by
  have hstores := hm.stores
  obtain ⟨m', res, hres, hsound, hfound⟩ :=
    contains_spec hstores.cached (hstores.owner_unique hdisj a) ha
  constructor
  · rintro ⟨m'', res', hres', hcomplete⟩ e he hea
    rw [hres, Except.ok.injEq, Prod.mk.injEq] at hres'
    refine (hfound e ((hstores.stored e).mpr he) hea).mp ?_
    rw [hres'.2]
    exact (hcomplete e).mpr ⟨he, hea⟩
  · intro h
    refine ⟨m', res, hres, fun e => ⟨fun hsome => ?_, fun he => ?_⟩⟩
    · obtain ⟨hmem, hea⟩ := hsound e hsome
      exact ⟨(hstores.stored e).mp hmem, hea⟩
    · exact (hfound e ((hstores.stored e).mpr he.1) he.2).mpr (h e he.1 he.2)

/-- One of four stripes of 64 bytes in the kibibyte from `s`. -/
def fourStripes (s : ℕ) (hs : s + 1023 < 2 ^ 64) (i : Fin 4) : AddrRange where
  _start := s
  _end := s + 1023
  intlvHighBit := 7
  xorHighBit := 0
  intlvBits := 2
  intlvMatch := i
  start_lt := by omega
  end_lt := hs
  match_byte := by omega
  intlv_slice _ := (by decide : 2 ≤ 8 ∧ 7 < 64)
  xor_slice _ h := absurd rfl h
  match_lt _ := i.isLt
  xor_apart _ h := absurd rfl h

theorem fourStripes_disjoint {s : ℕ} {hs : s + 1023 < 2 ^ 64} {i j : Fin 4} (hij : i ≠ j) (a : ℕ) :
    ¬ ((fourStripes s hs i).contains a = true ∧ (fourStripes s hs j).contains a = true) := by
  rintro ⟨hi, hj⟩
  simp [fourStripes, AddrRange.contains, AddrRange.interleaved, AddrRange.hashed] at hi hj
  exact hij (Fin.ext (hi.2.symm.trans hj.2))

/-- The four stripes from address `s`, as they are inserted one after the other. -/
def fourStripesCalls (s : ℕ) (hs : s + 1023 < 2 ^ 64) : List (AddrRange × ℕ) :=
  [(fourStripes s hs 3, 3), (fourStripes s hs 2, 2), (fourStripes s hs 1, 1),
    (fourStripes s hs 0, 0)]

theorem fourStripesCalls_disjoint {s : ℕ} {hs : s + 1023 < 2 ^ 64} :
    (fourStripesCalls s hs).Pairwise
      (fun e e' => ∀ a, ¬ (e.1.contains a = true ∧ e'.1.contains a = true)) := by
  simp only [fourStripesCalls, pairwise_cons, forall_mem_cons]
  refine ⟨⟨?_, ?_, ?_, ?_⟩, ⟨?_, ?_, ?_⟩, ⟨?_, ?_⟩, ?_, Pairwise.nil⟩
  all_goals first
    | exact fourStripes_disjoint (by decide)
    | exact fun e he => absurd he not_mem_nil

/-- With the stripes from address 0 the lookup of address 200 is complete. -/
theorem contains_complete_iff_aligned :
    ∃ m, Built 1 (fourStripesCalls 0 (by decide)) m
      ∧ Complete (fourStripesCalls 0 (by decide)) m 200 (by decide) := by
  have hbuilt : Built 1 (fourStripesCalls 0 (by decide)) _ :=
    .insert (.insert (.insert (.insert .empty rfl) rfl) rfl) rfl
  exact ⟨_, hbuilt, (contains_complete_iff hbuilt fourStripesCalls_disjoint 200 (by decide)).mpr
    (by decide)⟩

/-- **Missed addresses.** Four stripes start at address 128, which belongs to stripe 2: the
lookup of 128 ends at stripe 1 and stripe 0. And a range with the one address 64 lies in a gap
of a stripe that is inserted after it: the lookup of an address of the stripe behind 64 ends
at that range. -/
theorem stripe_lookup_missed :
    (∃ m, Built 0 (fourStripesCalls 128 (by decide)) m
      ∧ (fourStripes 128 (by decide) 2).contains 128 = true
      ∧ m.contains 128 (by decide) = .ok (m, none))
    ∧ ∃ m : AddrRangeMap ℕ, Built 0 [(fourStripes 0 (by decide) 0, 1),
        (rangeOne 64 (by decide), 0)] m
      ∧ (fourStripes 0 (by decide) 0).contains 256 = true
      ∧ m.contains 256 (by decide) = .ok (m, none) :=
  ⟨⟨_, .insert (.insert (.insert (.insert .empty rfl) rfl) rfl) rfl, rfl, rfl⟩,
    ⟨_, .insert (.insert .empty rfl) rfl, rfl, rfl⟩⟩

end AddrRangeMap

end Bindu.Base
