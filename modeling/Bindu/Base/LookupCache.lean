/-
The lookup cache of an address map, which should not be noticed from outside.

Two things can give it away. `erase(p, q)` goes through the erased entries but removes `p` from the
cache each time, so the other ones stay cached after they have left the tree. And a search that
hits a cached entry returns it without a look at the tree, whose own search may not get there
(`contains_complete_iff`): then a map with a cache answers differently from one without, and an
insertion may be refused by the one and not by the other.

Source: `base/addr_range_map.hh`.
-/
import Bindu.Lib.Runs
import Bindu.Base.AddrRangeMap

open Bindu.Lib List

namespace Bindu.Base

open Prod

open AddrRange (Fault mergesWith rangeOne)

namespace AddrRangeMap

variable {V : Type}

/-! ## Removals -/

/-- `cache.remove(p)`. Two iterators of the tree are the same if their keys are. -/
def uncache (p : AddrRange × V) (cache : List (AddrRange × V)) : List (AddrRange × V) :=
  cache.filter (fun e => e.1.key ≠ p.1.key)

def erase (m : AddrRangeMap V) (p : AddrRange × V) : AddrRangeMap V :=
  { m with cache := uncache p m.cache, tree := m.tree.filter (fun e => e.1.key ≠ p.1.key) }

/-- Is `e` one of the entries from `p` up to and without `q`, which may be `end()`? -/
def inRange (p : AddrRange × V) (q : Option (AddrRange × V)) (e : AddrRange × V) : Bool :=
  p.1.key ≤ e.1.key && q.all (fun q => e.1.key < q.1.key)

/-- `erase(p, q)`. -/
def eraseRange (m : AddrRangeMap V) (p : AddrRange × V) (q : Option (AddrRange × V)) :
    AddrRangeMap V :=
  { m with
    cache := (m.tree.entries.filter (inRange p q)).foldl (fun cache _ => uncache p cache) m.cache
    tree := m.tree.filter (fun e => !inRange p q e) }

def clear (m : AddrRangeMap V) : AddrRangeMap V := { m with cache := [], tree := .empty }

/-- The calls on a map. -/
inductive Call (V : Type) where
  | insert (r : AddrRange) (d : V)
  | contains (a : ℕ) (ha : a < 2 ^ 64)
  | containsRange (r : AddrRange)
  | intersects (r : AddrRange)
  | erase (p : AddrRange × V)
  | eraseRange (p : AddrRange × V) (q : Option (AddrRange × V))
  | clear

/-- The map after a call, and the iterator it returns, if any. -/
def apply (m : AddrRangeMap V) : Call V → Except Fault (AddrRangeMap V × Option (AddrRange × V))
  | .insert r d => m.insert r d
  | .contains a ha => m.contains a ha
  | .containsRange r => m.containsRange r
  | .intersects r => m.intersects r
  | .erase p => pure (m.erase p, none)
  | .eraseRange p q => pure (m.eraseRange p q, none)
  | .clear => pure (m.clear, none)

/-- What a call returns. -/
def result (m : AddrRangeMap V) (c : Call V) : Except Fault (Option (AddrRange × V)) :=
  (m.apply c).map snd

/-- What a search returns without a look at the tree. -/
def hit (m : AddrRangeMap V) (cond : AddrRange → Except Fault Bool) :
    Except Fault (Option (AddrRange × V)) :=
  (cacheHit cond m.cache).map (Option.map fst)

/-- **The calls that do not give the cache away**: a search that is answered from the cache is
answered as by the tree, where for an insertion it only matters whether there is an entry; and
among the entries that are erased no other than the first is cached. -/
def Hidden (m : AddrRangeMap V) : Call V → Prop
  | .insert r _ => m.hit (r.intersects ·) = .ok none ∨ (m.hit (r.intersects ·)).map Option.isSome
        = (m.tree.search r.key mergesWith (r.intersects ·)).map Option.isSome
  | .contains a ha => Answers (rangeOne a ha) ((rangeOne a ha).isSubset ·)
  | .containsRange r => Answers r (r.isSubset ·)
  | .intersects r => Answers r (r.intersects ·)
  | .eraseRange p q => ∀ e ∈ m.cache, inRange p q e = true → e.1.key = p.1.key
  | _ => True
where
  Answers (r : AddrRange) (cond : AddrRange → Except Fault Bool) : Prop :=
    m.hit cond = .ok none ∨ m.hit cond = m.tree.search r.key mergesWith cond

instance [DecidableEq V] (m : AddrRangeMap V) : (c : Call V) → Decidable (m.Hidden c)
  | .insert _ _ | .contains _ _ | .containsRange _ | .intersects _ =>
    inferInstanceAs (Decidable (_ ∨ _))
  | .eraseRange _ _ => inferInstanceAs (Decidable (∀ e ∈ m.cache, _))
  | .erase _ | .clear => inferInstanceAs (Decidable True)

/-! ## The list in the cache -/

/-- Iterators of the tree, without duplicates and not too many. -/
structure CacheOk (k : ℕ) (m : AddrRangeMap V) : Prop where
  valid : ∀ e ∈ m.cache, e ∈ m.tree.entries
  nodup : m.cache.Nodup
  length : m.cache.length ≤ k
  size : m.max_cache_size = k

/-- The map without its cache. -/
def plain (m : AddrRangeMap V) : AddrRangeMap V := ⟨0, m.tree, []⟩

variable {k : ℕ} {m m' : AddrRangeMap V} {r : AddrRange} {cond : AddrRange → Except Fault Bool}
  {res : Option (AddrRange × V)}

theorem cacheHit_eq_none {l : List (AddrRange × V)} (h : cacheHit cond l = .ok none) :
    ∀ e ∈ l, cond e.1 = .ok false := by
  induction l with
  | nil => exact fun e he => absurd he not_mem_nil
  | cons a l ih =>
    obtain ⟨b, hb, h⟩ := bind_eq_ok.1 h
    cases b with
    | true => cases h
    | false =>
      obtain ⟨x, hx, h⟩ := bind_eq_ok.1 h
      cases x with
      | some x => cases h
      | none => exact forall_mem_cons.2 ⟨hb, ih hx⟩

theorem CacheOk.find (h : CacheOk k m) (hf : m.find r cond = .ok (m', res)) : CacheOk k m' := by
  have hvalid : ∀ e ∈ m'.cache, e ∈ m'.tree.entries := fun e he => by
    rw [(find_looked hf).tree]
    exact ((find_looked hf).cache e he).elim (h.valid e) id
  rcases find_cases hf with ⟨it, rest, hhit, -, rfl⟩ | ⟨hmiss, hsearch, rfl⟩
  · have hperm := cacheHit_perm hhit
    exact ⟨hvalid, hperm.nodup_iff.2 h.nodup, hperm.length_eq.trans_le h.length, h.size⟩
  · cases res with
    | none => exact h
    | some it =>
      -- what the tree returns meets the condition, what is cached does not
      have hnew : it ∉ m.cache := fun hmem => by
        have hfalse := cacheHit_eq_none hmiss it hmem
        rw [(OrderedMap.mem_of_search_eq_some hsearch).2] at hfalse
        cases hfalse
      have hlast : it ∉ m.cache.dropLast := fun hmem => hnew (mem_of_mem_dropLast hmem)
      have hnodup := h.nodup.sublist (dropLast_sublist m.cache)
      have hle := h.length
      have hk := h.size
      rw [Option.elim_some] at hvalid ⊢
      refine ⟨hvalid, ?_, ?_, ?_⟩
      · rw [addNewEntryToCache]
        split_ifs
        · exact nodup_cons.2 ⟨hlast, hnodup⟩
        · exact hnodup.append (nodup_singleton it) (disjoint_singleton.2 hlast)
        · exact nodup_cons.2 ⟨hnew, h.nodup⟩
        · exact h.nodup
      · rw [addNewEntryToCache]
        split_ifs
        · rw [length_cons, length_dropLast]
          omega
        · rw [length_append, length_dropLast, length_singleton]
          omega
        · rw [length_cons]
          omega
        · exact hle
      · rw [addNewEntryToCache]
        split_ifs <;> exact hk

theorem mem_foldl_uncache {p e : AddrRange × V} (l : List (AddrRange × V)) :
    ∀ cache, e ∈ l.foldl (fun cache _ => uncache p cache) cache
      ↔ e ∈ cache ∧ (l = [] ∨ e.1.key ≠ p.1.key) := by
  induction l with
  | nil => simp
  | cons a l ih =>
    intro cache
    rw [foldl_cons, ih]
    simp only [uncache, mem_filter, decide_eq_true_eq]
    tauto

theorem foldl_uncache_sublist {p : AddrRange × V} (l : List (AddrRange × V)) :
    ∀ cache, (l.foldl (fun cache _ => uncache p cache) cache).Sublist cache := by
  induction l with
  | nil => exact Sublist.refl
  | cons a l ih => exact fun cache => (ih _).trans (filter_sublist ..)

/-- After `erase(p, q)` the cache is in order exactly if no erased entry but `p` was cached. -/
theorem CacheOk.eraseRange_iff (h : CacheOk k m) (p : AddrRange × V) (q : Option (AddrRange × V)) :
    CacheOk k (m.eraseRange p q) ↔ m.Hidden (.eraseRange p q) := by
  have hsub : (m.eraseRange p q).cache.Sublist m.cache := foldl_uncache_sublist _ m.cache
  have hmem : ∀ e, e ∈ (m.eraseRange p q).cache
      ↔ e ∈ m.cache ∧ (m.tree.entries.filter (inRange p q) = [] ∨ e.1.key ≠ p.1.key) :=
    fun e => mem_foldl_uncache _ m.cache
  constructor
  · intro h' e he hin
    by_contra hne
    have htree := (mem_filter.1 (h'.valid e ((hmem e).2 ⟨he, .inr hne⟩))).2
    rw [hin] at htree
    cases htree
  · refine fun hhid => ⟨fun e he => ?_, h.nodup.sublist hsub, hsub.length_le.trans h.length, h.size⟩
    obtain ⟨hcache, hleft⟩ := (hmem e).1 he
    refine mem_filter.2 ⟨h.valid e hcache, ?_⟩
    rw [Bool.not_eq_true', ← Bool.not_eq_true]
    intro hin
    obtain hnone | hne := hleft
    · exact absurd (mem_filter.2 ⟨h.valid e hcache, hin⟩) (hnone ▸ not_mem_nil)
    · exact hne (hhid e hcache hin)

/-! ## The same answers -/

theorem find_plain : m.plain.find r cond
    = (m.tree.search r.key mergesWith cond).map (fun res => (m.plain, res)) := by
  cases h : m.tree.search r.key mergesWith cond with
  | error e => rw [find, show m.plain.tree = m.tree from rfl, h]; rfl
  | ok res =>
    rw [find, show m.plain.tree = m.tree from rfl, h]
    cases res <;> rfl

/-- A search answers as the tree does exactly if what is cached is no obstacle. -/
theorem find_result_iff : (m.find r cond).map snd = (m.plain.find r cond).map snd
    ↔ m.hit cond = .ok none ∨ m.hit cond = m.tree.search r.key mergesWith cond := by
  have hplain : (m.plain.find r cond).map snd = m.tree.search r.key mergesWith cond := by
    rw [find_plain]
    cases m.tree.search r.key mergesWith cond <;> rfl
  rw [hplain, find, hit]
  cases hc : cacheHit cond m.cache with
  | error e => exact ⟨.inr, fun h => h.resolve_left (by rintro ⟨⟩)⟩
  | ok x =>
    cases x with
    | some x => exact ⟨.inr, fun h => h.resolve_left (by rintro ⟨⟩)⟩
    | none =>
      refine iff_of_true ?_ (.inl rfl)
      cases m.tree.search r.key mergesWith cond with
      | error e => rfl
      | ok res => cases res <;> rfl

theorem insert_result (d : V) : (m.insert r d).map snd
    = ((m.intersects r).map (fun x => x.2.isSome)).map
      (fun found => if found then none else some (m.tree.insert r d).2) := by
  rw [insert]
  cases h : m.intersects r with
  | error e => rfl
  | ok x =>
    obtain ⟨m1, found⟩ := x
    cases found with
    | some it => rfl
    | none =>
      obtain ⟨rfl, -⟩ := find_eq_none h
      rfl

theorem insert_result_iff (d : V) :
    (m.insert r d).map snd = (m.plain.insert r d).map snd ↔ m.Hidden (.insert r d) := by
  rw [insert_result, insert_result, intersects, intersects, find_plain, Hidden, hit, find,
    show m.plain.tree = m.tree from rfl]
  cases hs : m.tree.search r.key mergesWith (fun r1 => r.intersects r1) with
  | error e =>
    cases cacheHit (fun r1 => r.intersects r1) m.cache with
    | error e' => simp [Except.map]
    | ok x => rcases x with _ | x <;> simp [Except.map, pure, Except.pure]
  | ok res =>
    cases cacheHit (fun r1 => r.intersects r1) m.cache with
    | error e' => simp [Except.map]
    | ok x =>
      rcases x with _ | x <;> rcases res with _ | res <;> simp [Except.map, pure, Except.pure]

/-! ## One call, and a run -/

theorem CacheOk.insert {d : V} (h : CacheOk k m) (hi : m.insert r d = .ok (m', res)) :
    CacheOk k m' := by
  obtain ⟨⟨m1, found⟩, hfound, hpure⟩ := bind_eq_ok.1 hi
  cases found with
  | some it =>
    cases hpure
    exact h.find hfound
  | none =>
    obtain ⟨rfl, -⟩ := find_eq_none hfound
    cases hpure
    exact ⟨fun e he => OrderedMap.mem_insert_of_mem (h.valid e he), h.nodup, h.length, h.size⟩

/-- **One call.** It returns what it returns without a cache, and leaves the cache in order,
exactly if it does not give the cache away. -/
theorem CacheOk.apply_iff (h : CacheOk k m) (c : Call V) :
    (m.result c = m.plain.result c ∧ ∀ m' res, m.apply c = .ok (m', res) → CacheOk k m')
      ↔ m.Hidden c := by
  cases c with
  | insert r d => exact (and_iff_left fun m' res => h.insert).trans (insert_result_iff d)
  | contains a ha => exact (and_iff_left fun m' res => h.find).trans find_result_iff
  | containsRange r => exact (and_iff_left fun m' res => h.find).trans find_result_iff
  | intersects r => exact (and_iff_left fun m' res => h.find).trans find_result_iff
  | erase p =>
    refine iff_of_true ⟨rfl, ?_⟩ trivial
    rintro m' res ⟨⟩
    refine ⟨fun e he => ?_, h.nodup.filter _, (length_filter_le ..).trans h.length, h.size⟩
    exact mem_filter.2 ⟨h.valid e (mem_filter.1 he).1, (mem_filter.1 he).2⟩
  | eraseRange p q =>
    rw [← h.eraseRange_iff]
    refine ⟨fun hall => hall.2 _ _ rfl, fun hok => ⟨rfl, ?_⟩⟩
    rintro m' res ⟨⟩
    exact hok
  | clear =>
    refine iff_of_true ⟨rfl, ?_⟩ trivial
    rintro m' res ⟨⟩
    exact ⟨fun e he => absurd he not_mem_nil, nodup_nil, Nat.zero_le k, h.size⟩

theorem find_plain_of (h : m.hit cond = .ok none ∨ m.hit cond = m.tree.search r.key mergesWith cond)
    (hf : m.find r cond = .ok (m', res)) : m.plain.find r cond = .ok (m'.plain, res) := by
  have hres := find_result_iff.2 h
  rw [hf, find_plain] at hres
  rw [find_plain, plain, plain, (find_looked hf).tree]
  cases hs : m.tree.search r.key mergesWith cond with
  | error e => rw [hs] at hres; cases hres
  | ok x => rw [hs] at hres; cases hres; rfl

/-- The same call on the map without a cache. -/
theorem apply_plain {c : Call V} (h : m.Hidden c) (hc : m.apply c = .ok (m', res)) :
    m.plain.apply c = .ok (m'.plain, res) := by
  cases c with
  | insert r d =>
    have hres := (insert_result_iff d).2 h
    change m.insert r d = _ at hc
    change m.plain.insert r d = _
    rw [hc] at hres
    obtain ⟨⟨m1, found⟩, hfound, hpure⟩ := bind_eq_ok.1 hc
    rw [insert, intersects, find_plain] at hres ⊢
    cases hs : m.tree.search r.key mergesWith (fun r1 => r.intersects r1) with
    | error e => rw [hs] at hres; cases hres
    | ok x =>
      rw [hs] at hres
      cases found with
      | some it =>
        cases hpure
        cases x with
        | none => cases hres
        | some x => rw [show m'.plain = m.plain from by rw [plain, (find_looked hfound).tree]; rfl]; rfl
      | none =>
        obtain ⟨rfl, -⟩ := find_eq_none hfound
        cases hpure
        cases x with
        | none => rfl
        | some x => cases hres
  | contains a ha => exact find_plain_of h hc
  | containsRange r => exact find_plain_of h hc
  | intersects r => exact find_plain_of h hc
  | erase p => cases hc; rfl
  | eraseRange p q =>
    cases hc
    have hnil : ∀ l : List (AddrRange × V), l.foldl (fun cache _ => uncache p cache) [] = [] :=
      fun l => sublist_nil.1 (foldl_uncache_sublist l [])
    simp only [apply, eraseRange, plain, hnil]
    rfl
  | clear => cases hc; rfl

def callMachine : Machine (AddrRangeMap V) (Call V) Fault where
  enabled _ _ := true
  exec m c := (m.apply c).map fst

theorem apply_of_step {c : Call V} (h : callMachine.Step m c m') :
    ∃ res, m.apply c = .ok (m', res) := by
  obtain ⟨-, h⟩ := h
  change (m.apply c).map fst = _ at h
  cases hc : m.apply c with
  | error e => rw [hc] at h; cases h
  | ok x => rw [hc] at h; cases h; exact ⟨x.2, rfl⟩

/-- Three ranges, the last two of which are cached, and the removal of these two. -/
def eraseCached (two : Bool) : List (Call ℕ) :=
  [.insert (rangeOne 0 (by decide)) 0, .insert (rangeOne 16 (by decide)) 1,
    .insert (rangeOne 32 (by decide)) 2, .contains 16 (by decide), .contains (if two then 32 else 0)
      (by cases two <;> decide),
    .eraseRange (rangeOne 16 (by decide), 1) none]

end AddrRangeMap

end Bindu.Base
