/-
The tag lookup of a Ruby cache (`mem/ruby/structures/CacheMemory.cc`).

A cache keeps its blocks twice: `m_cache` has an entry, or nothing, in every way of every set,
and `m_tag_index` maps the address of a block to the way it is in. A lookup goes through the
index and trusts it: it does not compare the address in the entry that it finds.

`allocate` takes the first open way of the set, and a way is open when it is empty or when its
entry has the permission `NotPresent`. In the second case the index still has the block that the
old entry was for, and nothing removes it: once the way holds another block, a lookup of the old
one finds the new one's entry (`stale_index`). `deallocate` empties the way and removes the index
entry together, so the index is right as long as `allocate` is never made to take the way of
another block, nor handed an entry object that is already in the cache.

An entry is an object with an identity, since the protocol keeps a pointer to it and changes its
permission behind the cache's back. The replacement policy and the statistics are left out.
-/
import Bindu.Lib.Fallible

namespace Bindu.Ruby

open Bindu.Lib Function

inductive AccessPermission where
  | Read_Only | Read_Write | Maybe_Stale | Backing_Store | Invalid | NotPresent | Busy
  deriving DecidableEq, Repr

/-- The assertions and panics of `CacheMemory`, and a null pointer that is followed. -/
inductive CacheFault where
  | not_line_address | tag_present | not_available | no_open_entry | tag_not_present | null_entry
  deriving DecidableEq, Repr

/-- `AbstractCacheEntry`. -/
structure CacheEntry where
  m_Address : ℕ := 0
  m_Permission : AccessPermission := .NotPresent
  m_locked : ℤ := -1
  m_set_index : ℕ := 0
  m_way_index : ℕ := 0
  deriving DecidableEq, Repr

def CacheEntry.changePermission (e : CacheEntry) (new_perm : AccessPermission) : CacheEntry :=
  if new_perm = .Invalid ∨ new_perm = .NotPresent then
    { e with m_Permission := new_perm, m_locked := -1 }
  else
    { e with m_Permission := new_perm }

/-- A `CacheMemory`. `m_cache set way` is a pointer to an entry, or null; `entries` are the
objects that such pointers point to. `block_size_bits` is `RubySystem::getBlockSizeBits()`. -/
structure CacheMemory where
  block_size_bits : ℕ
  m_cache_assoc : ℕ
  m_cache_num_set_bits : ℕ
  m_start_index_bit : ℕ
  m_tag_index : ℕ → Option ℕ
  m_cache : ℕ → ℕ → Option ℕ
  entries : ℕ → CacheEntry

namespace CacheMemory

/-- An empty cache. -/
def new (block_size_bits assoc num_set_bits start_index_bit : ℕ) : CacheMemory where
  block_size_bits := block_size_bits
  m_cache_assoc := assoc
  m_cache_num_set_bits := num_set_bits
  m_start_index_bit := start_index_bit
  m_tag_index := fun _ => none
  m_cache := fun _ _ => none
  entries := fun _ => {}

def bitSelect (addr small big : ℕ) : ℕ :=
  if big ≥ 63 then addr >>> small else (addr % 2 ^ (big + 1)) >>> small

def addressToCacheSet (c : CacheMemory) (address : ℕ) : ℕ :=
  bitSelect address c.m_start_index_bit (c.m_start_index_bit + c.m_cache_num_set_bits - 1)

/-- `address == makeLineAddress(address)`. -/
def isLineAddress (c : CacheMemory) (address : ℕ) : Bool :=
  decide (address % 2 ^ c.block_size_bits = 0)

/-- `findTagInSet`, with `none` for -1. -/
def findTagInSet (c : CacheMemory) (cacheSet tag : ℕ) : Except CacheFault (Option ℕ) := do
  require (c.isLineAddress tag) .not_line_address
  match c.m_tag_index tag with
  | none => pure none
  | some way =>
    match c.m_cache cacheSet way with
    | none => throw .null_entry
    | some e => pure (if (c.entries e).m_Permission ≠ .NotPresent then some way else none)

def isTagPresent (c : CacheMemory) (address : ℕ) : Except CacheFault Bool := do
  require (c.isLineAddress address) .not_line_address
  let loc ← c.findTagInSet (c.addressToCacheSet address) address
  pure loc.isSome

/-- A way that `allocate` may take: it is empty or its entry is `NotPresent`. -/
def isOpen (c : CacheMemory) (cacheSet way : ℕ) : Bool :=
  match c.m_cache cacheSet way with
  | none => true
  | some e => decide ((c.entries e).m_Permission = .NotPresent)

def cacheAvail (c : CacheMemory) (address : ℕ) : Bool :=
  (List.range c.m_cache_assoc).any (fun i =>
    match c.m_cache (c.addressToCacheSet address) i with
    | none => true
    | some e =>
      decide ((c.entries e).m_Address = address)
        || decide ((c.entries e).m_Permission = .NotPresent))

/-- The way that the loop of `allocate` stops at. -/
def openWay (c : CacheMemory) (address : ℕ) : Option ℕ :=
  (List.range c.m_cache_assoc).find? (c.isOpen (c.addressToCacheSet address))

/-- `m_cache[cacheSet][way] = p`. -/
def setSlot (c : CacheMemory) (cacheSet way : ℕ) (p : Option ℕ) : CacheMemory :=
  { c with m_cache := fun s w => if s = cacheSet ∧ w = way then p else c.m_cache s w }

def allocate (c : CacheMemory) (address entry : ℕ) : Except CacheFault CacheMemory := do
  require (c.isLineAddress address) .not_line_address
  let present ← c.isTagPresent address
  require (!present) .tag_present
  require (c.cacheAvail address) .not_available
  let cacheSet := c.addressToCacheSet address
  match c.openWay address with
  | none => throw .no_open_entry
  | some i =>
    pure
      { c.setSlot cacheSet i (some entry) with
        entries := update c.entries entry ⟨address, .Invalid, -1, cacheSet, i⟩
        m_tag_index := update c.m_tag_index address (some i) }

def deallocate (c : CacheMemory) (address : ℕ) : Except CacheFault CacheMemory := do
  require (c.isLineAddress address) .not_line_address
  let present ← c.isTagPresent address
  require present .tag_not_present
  let cacheSet := c.addressToCacheSet address
  let loc ← c.findTagInSet cacheSet address
  match loc with
  | none => pure c
  | some way =>
    pure
      { c.setSlot cacheSet way none with
        m_tag_index := update c.m_tag_index address none }

def lookup (c : CacheMemory) (address : ℕ) : Except CacheFault (Option ℕ) := do
  require (c.isLineAddress address) .not_line_address
  let cacheSet := c.addressToCacheSet address
  let loc ← c.findTagInSet cacheSet address
  match loc with
  | none => pure none
  | some way => pure (c.m_cache cacheSet way)

/-- The protocol changes the permission of an entry. -/
def changePermission (c : CacheMemory) (entry : ℕ) (new_perm : AccessPermission) : CacheMemory :=
  { c with
    entries := update c.entries entry ((c.entries entry).changePermission new_perm) }

end CacheMemory

/-! ## What a controller does to its cache -/

inductive CacheOp where
  | allocate (address entry : ℕ)
  | deallocate (address : ℕ)
  | changePermission (entry : ℕ) (new_perm : AccessPermission)

namespace CacheOp

def apply (c : CacheMemory) : CacheOp → Except CacheFault CacheMemory
  | allocate address entry => c.allocate address entry
  | deallocate address => c.deallocate address
  | changePermission entry new_perm => pure (c.changePermission entry new_perm)

/-- The entry given to the last `allocate` of each block, with its way, as long as the block has
not been deallocated and the way not been given to another block. -/
def given (c : CacheMemory) (last : ℕ → Option (ℕ × ℕ)) : CacheOp → ℕ → Option (ℕ × ℕ)
  | allocate address entry => fun b =>
    if b = address then
      (c.openWay address).map (fun way => (entry, way))
    else
      (last b).filter (fun p =>
        decide (¬(c.addressToCacheSet b = c.addressToCacheSet address
          ∧ c.openWay address = some p.2)))
  | deallocate address => fun b => if b = address then none else last b
  | changePermission _ _ => last

/-- An `allocate` that is handed an entry which is not in another way, and that finds an open way
which the index has for no other block. -/
def Untangled (c : CacheMemory) : CacheOp → Prop
  | allocate address entry =>
    (∀ s w, c.m_cache s w = some entry →
      s = c.addressToCacheSet address ∧ c.openWay address = some w)
    ∧ ∀ a w, a ≠ address → c.m_tag_index a = some w → c.openWay address = some w →
        c.addressToCacheSet a ≠ c.addressToCacheSet address
  | _ => True

end CacheOp

/-- A sequence of operations on an empty cache that all return and all meet `C`, with the entries
given to the last `allocate` of each block. -/
inductive CacheRun (C : CacheMemory → CacheOp → Prop)
    (block_size_bits assoc num_set_bits start_index_bit : ℕ) :
    CacheMemory → (ℕ → Option (ℕ × ℕ)) → Prop
  | start : CacheRun C block_size_bits assoc num_set_bits start_index_bit
      (.new block_size_bits assoc num_set_bits start_index_bit) (fun _ => none)
  | op {c c' : CacheMemory} {last : ℕ → Option (ℕ × ℕ)} (o : CacheOp)
      (run : CacheRun C block_size_bits assoc num_set_bits start_index_bit c last)
      (cond : C c o) (returns : o.apply c = .ok c') :
      CacheRun C block_size_bits assoc num_set_bits start_index_bit c' (o.given c last)

/-! ## The index and the ways agree -/

/-- The two representations of a cache. -/
structure Indexed (c : CacheMemory) (last : ℕ → Option (ℕ × ℕ)) : Prop where
  /-- The index of a block leads to an entry for that block. -/
  index : ∀ a w, c.m_tag_index a = some w →
    ∃ e, c.m_cache (c.addressToCacheSet a) w = some e ∧ (c.entries e).m_Address = a
  /-- No entry is in two ways. -/
  distinct : ∀ s w s' w' e, c.m_cache s w = some e → c.m_cache s' w' = some e → s = s' ∧ w = w'
  /-- The entry that was given to a block is where the index leads to. -/
  last : ∀ b e w, last b = some (e, w) →
    c.m_tag_index b = some w ∧ c.m_cache (c.addressToCacheSet b) w = some e

namespace CacheMemory

variable {c : CacheMemory} {last : ℕ → Option (ℕ × ℕ)}

/-- `findTagInSet` of a block follows no null pointer, and returns the way that the index has
unless the entry there is `NotPresent`. -/
theorem findTagInSet_ok (h : Indexed c last) {address : ℕ} (hline : c.isLineAddress address = true) :
    Ok (fun loc => (c.m_tag_index address = none ∧ loc = none)
        ∨ ∃ w e, c.m_tag_index address = some w ∧ c.m_cache (c.addressToCacheSet address) w = some e
          ∧ (c.entries e).m_Address = address
          ∧ loc = if (c.entries e).m_Permission ≠ .NotPresent then some w else none)
      ⊥ (c.findTagInSet (c.addressToCacheSet address) address) := by
  unfold findTagInSet
  rw [hline, require_true, ok_bind]
  cases hindex : c.m_tag_index address with
  | none => exact .inl ⟨rfl, rfl⟩
  | some w =>
    obtain ⟨e, hslot, haddr⟩ := h.index address w hindex
    simp only [hslot]
    exact .inr ⟨w, e, rfl, hslot, haddr, rfl⟩

/-- `lookup` returns the entry that the index leads to, unless that one is `NotPresent`. -/
theorem lookup_ok (h : Indexed c last) {address : ℕ} (hline : c.isLineAddress address = true) :
    Ok (fun r => (c.m_tag_index address = none ∧ r = none) ∨ ∃ w e, c.m_tag_index address = some w
          ∧ c.m_cache (c.addressToCacheSet address) w = some e
          ∧ (c.entries e).m_Address = address
          ∧ r = if (c.entries e).m_Permission ≠ .NotPresent then some e else none)
      ⊥ (c.lookup address) := by
  unfold lookup
  rw [hline, require_true, ok_bind]
  refine Ok.bind (findTagInSet_ok h hline) (fun loc hloc => ?_)
  rcases hloc with ⟨hindex, rfl⟩ | ⟨w, e, hindex, hslot, haddr, rfl⟩
  · exact .inl ⟨hindex, rfl⟩
  · by_cases hperm : (c.entries e).m_Permission ≠ .NotPresent
    · rw [if_pos hperm]
      refine .inr ⟨w, e, hindex, hslot, haddr, ?_⟩
      rw [if_pos hperm]
      exact hslot
    · rw [if_neg hperm]
      refine .inr ⟨w, e, hindex, hslot, haddr, ?_⟩
      rw [if_neg hperm]

/-- `c'` is `c` with the object `entry`, made the entry of block `address`, in way `i` of its
set. -/
structure Filled (c c' : CacheMemory) (address entry i : ℕ) : Prop where
  sets : ∀ a, c'.addressToCacheSet a = c.addressToCacheSet a
  index_self : c'.m_tag_index address = some i
  index_other : ∀ a, a ≠ address → c'.m_tag_index a = c.m_tag_index a
  slot_self : c'.m_cache (c.addressToCacheSet address) i = some entry
  slot_other : ∀ s w, ¬(s = c.addressToCacheSet address ∧ w = i) → c'.m_cache s w = c.m_cache s w
  entry_self : (c'.entries entry).m_Address = address
  entry_other : ∀ e, e ≠ entry → c'.entries e = c.entries e

theorem allocate_filled (c : CacheMemory) (address entry : ℕ) :
    Ok (fun c' => ∃ i, c.openWay address = some i ∧ Filled c c' address entry i) ⊤
      (c.allocate address entry) := by
  unfold allocate
  refine Ok.assert (fun _ => ?_)
  refine Ok.skip (fun present => ?_)
  refine Ok.assert (fun _ => ?_)
  refine Ok.assert (fun _ => ?_)
  cases hopen : c.openWay address with
  | none => exact trivial
  | some i =>
    refine ⟨i, rfl, fun _ => rfl, ?_, ?_, ?_, ?_, ?_, ?_⟩
    · exact update_self ..
    · exact fun a ha => update_of_ne ha ..
    · simp [setSlot]
    · intro s w hne
      simp [setSlot, hne]
    · simp
    · exact fun e he => update_of_ne he ..

/-- `c'` is `c` without the entry that block `address` had in way `i`. -/
structure Emptied (c c' : CacheMemory) (address i : ℕ) : Prop where
  sets : ∀ a, c'.addressToCacheSet a = c.addressToCacheSet a
  found : c.m_tag_index address = some i
  index_self : c'.m_tag_index address = none
  index_other : ∀ a, a ≠ address → c'.m_tag_index a = c.m_tag_index a
  slot_self : c'.m_cache (c.addressToCacheSet address) i = none
  slot_other : ∀ s w, ¬(s = c.addressToCacheSet address ∧ w = i) → c'.m_cache s w = c.m_cache s w
  entry : c'.entries = c.entries

theorem deallocate_emptied (h : Indexed c last) (address : ℕ) :
    Ok (fun c' => ∃ i, Emptied c c' address i) ⊤ (c.deallocate address) := by
  unfold deallocate isTagPresent
  refine Ok.assert (fun hline => ?_)
  rw [bind_assoc]
  refine Ok.assert (fun _ => ?_)
  rw [bind_assoc]
  have hfind := (findTagInSet_ok h hline).mono (fun _ hloc => hloc) (fun _ _ => trivial)
  cases hloc : c.findTagInSet (c.addressToCacheSet address) address with
  | error e => exact trivial
  | ok loc =>
    rw [ok_bind, pure_bind]
    refine Ok.assert (fun hsome => ?_)
    simp only [hloc, ok_bind]
    cases loc with
    | none => exact absurd hsome (by simp)
    | some i =>
      have hindex : c.m_tag_index address = some i := by
        rcases hfind.elim hloc with ⟨_, hnone⟩ | ⟨w, e, hindex, -, -, heq⟩
        · simp at hnone
        · rw [hindex]
          split at heq
          · exact heq.symm
          · simp at heq
      refine ⟨i, fun _ => rfl, hindex, ?_, ?_, ?_, ?_, rfl⟩
      · exact update_self ..
      · exact fun a ha => update_of_ne ha ..
      · simp [setSlot]
      · intro s w hne
        simp [setSlot, hne]

end CacheMemory

namespace Indexed

open CacheMemory

variable {c c' : CacheMemory} {last : ℕ → Option (ℕ × ℕ)}

theorem new (block_size_bits assoc num_set_bits start_index_bit : ℕ) :
    Indexed (.new block_size_bits assoc num_set_bits start_index_bit) (fun _ => none) where
  index a w h := absurd h (by simp [CacheMemory.new])
  distinct s w s' w' e h := absurd h (by simp [CacheMemory.new])
  last b e w h := absurd h (by simp)

theorem changePermission (h : Indexed c last) (entry : ℕ) (perm : AccessPermission) :
    Indexed (c.changePermission entry perm) last where
  index := by
    intro a w hindex
    obtain ⟨e, hslot, haddr⟩ := h.index a w hindex
    refine ⟨e, hslot, ?_⟩
    simp only [CacheMemory.changePermission]
    by_cases he : e = entry
    · rw [he, update_self, ← he, CacheEntry.changePermission]
      split <;> exact haddr
    · rw [update_of_ne he]
      exact haddr
  distinct := h.distinct
  last := h.last

theorem filled (h : Indexed c last) {address entry i : ℕ} (hopen : c.openWay address = some i)
    (hcond : (CacheOp.allocate address entry).Untangled c) (hfill : Filled c c' address entry i) :
    Indexed c' ((CacheOp.allocate address entry).given c last) := by
  obtain ⟨hentry, hway⟩ := hcond
  -- the way of another block is not the one that is taken
  have hother : ∀ a w, a ≠ address → c.m_tag_index a = some w →
      ¬(c.addressToCacheSet a = c.addressToCacheSet address ∧ w = i) := by
    rintro a w ha hindex ⟨hset, rfl⟩
    exact hway a w ha hindex hopen hset
  -- and the ways that are not taken hold other objects
  have hobject : ∀ s w e, ¬(s = c.addressToCacheSet address ∧ w = i) →
      c.m_cache s w = some e → e ≠ entry := by
    rintro s w e hne hslot rfl
    obtain ⟨hs, hw⟩ := hentry s w hslot
    rw [hopen, Option.some.injEq] at hw
    exact hne ⟨hs, hw.symm⟩
  constructor
  · intro a w hindex
    rw [hfill.sets]
    by_cases ha : a = address
    · rw [ha, hfill.index_self, Option.some.injEq] at hindex
      rw [ha, ← hindex]
      exact ⟨entry, hfill.slot_self, hfill.entry_self⟩
    · rw [hfill.index_other a ha] at hindex
      obtain ⟨e, hslot, haddr⟩ := h.index a w hindex
      have hne := hother a w ha hindex
      refine ⟨e, (hfill.slot_other _ _ hne).trans hslot, ?_⟩
      rw [hfill.entry_other e (hobject _ _ e hne hslot)]
      exact haddr
  · intro s w s' w' e hslot hslot'
    by_cases hne : s = c.addressToCacheSet address ∧ w = i
    · by_cases hne' : s' = c.addressToCacheSet address ∧ w' = i
      · exact ⟨hne.1.trans hne'.1.symm, hne.2.trans hne'.2.symm⟩
      · rw [hfill.slot_other _ _ hne'] at hslot'
        rw [hne.1, hne.2, hfill.slot_self, Option.some.injEq] at hslot
        exact absurd hslot.symm (hobject _ _ e hne' hslot')
    · rw [hfill.slot_other _ _ hne] at hslot
      by_cases hne' : s' = c.addressToCacheSet address ∧ w' = i
      · rw [hne'.1, hne'.2, hfill.slot_self, Option.some.injEq] at hslot'
        exact absurd hslot'.symm (hobject _ _ e hne hslot)
      · rw [hfill.slot_other _ _ hne'] at hslot'
        exact h.distinct s w s' w' e hslot hslot'
  · intro b e w hlast
    rw [hfill.sets]
    by_cases hb : b = address
    · simp only [CacheOp.given, if_pos hb, hopen, Option.map_some, Option.some.injEq,
        Prod.mk.injEq] at hlast
      rw [hb, ← hlast.1, ← hlast.2]
      exact ⟨hfill.index_self, hfill.slot_self⟩
    · simp only [CacheOp.given, if_neg hb] at hlast
      obtain ⟨hindex, hslot⟩ := h.last b e w (Option.eq_some_of_filter_eq_some hlast)
      refine ⟨(hfill.index_other b hb).trans hindex, ?_⟩
      exact (hfill.slot_other _ _ (hother b w hb hindex)).trans hslot

theorem emptied (h : Indexed c last) {address i : ℕ} (hempty : Emptied c c' address i) :
    Indexed c' ((CacheOp.deallocate address).given c last) := by
  -- the way of another block holds that block's entry, so it is not the one that is emptied
  have hother : ∀ a w, a ≠ address → c.m_tag_index a = some w →
      ¬(c.addressToCacheSet a = c.addressToCacheSet address ∧ w = i) := by
    rintro a w ha hindex ⟨hset, rfl⟩
    obtain ⟨e, hslot, haddr⟩ := h.index a w hindex
    obtain ⟨e', hslot', haddr'⟩ := h.index address w hempty.found
    rw [hset, hslot', Option.some.injEq] at hslot
    rw [← hslot, haddr'] at haddr
    exact ha haddr.symm
  constructor
  · intro a w hindex
    rw [hempty.sets]
    by_cases ha : a = address
    · rw [ha, hempty.index_self] at hindex
      simp at hindex
    · rw [hempty.index_other a ha] at hindex
      obtain ⟨e, hslot, haddr⟩ := h.index a w hindex
      refine ⟨e, (hempty.slot_other _ _ (hother a w ha hindex)).trans hslot, ?_⟩
      rw [hempty.entry]
      exact haddr
  · -- a way that holds something now is not the one that was emptied
    have hold : ∀ s w e, c'.m_cache s w = some e → c.m_cache s w = some e := by
      intro s w e hslot
      rw [← hempty.slot_other s w]
      · exact hslot
      · rintro ⟨rfl, rfl⟩
        rw [hempty.slot_self] at hslot
        simp at hslot
    intro s w s' w' e hslot hslot'
    exact h.distinct s w s' w' e (hold s w e hslot) (hold s' w' e hslot')
  · intro b e w hlast
    rw [hempty.sets]
    by_cases hb : b = address
    · simp only [CacheOp.given, if_pos hb] at hlast
      simp at hlast
    · simp only [CacheOp.given, if_neg hb] at hlast
      obtain ⟨hindex, hslot⟩ := h.last b e w hlast
      refine ⟨(hempty.index_other b hb).trans hindex, ?_⟩
      exact (hempty.slot_other _ _ (hother b w hb hindex)).trans hslot

/-- **One operation.** -/
theorem apply (h : Indexed c last) {o : CacheOp} (hcond : o.Untangled c)
    (hreturns : o.apply c = .ok c') : Indexed c' (o.given c last) := by
  cases o with
  | allocate address entry =>
    obtain ⟨i, hopen, hfill⟩ := (c.allocate_filled address entry).elim hreturns
    exact h.filled hopen hcond hfill
  | deallocate address =>
    obtain ⟨i, hempty⟩ := (deallocate_emptied h address).elim hreturns
    exact h.emptied hempty
  | changePermission entry perm =>
    cases hreturns
    exact h.changePermission entry perm

end Indexed

/-- The operations of a list, one after the other, as long as each of them returns. -/
def runCacheOps : List CacheOp → CacheMemory → Option CacheMemory
  | [], c => some c
  | o :: rest, c =>
    match o.apply c with
    | .error _ => none
    | .ok c' => runCacheOps rest c'

theorem cacheRun_of_runCacheOps {block_size_bits assoc num_set_bits start_index_bit : ℕ}
    {ops : List CacheOp} {c c' : CacheMemory} {last : ℕ → Option (ℕ × ℕ)}
    (run : CacheRun (fun _ _ => True) block_size_bits assoc num_set_bits start_index_bit c last)
    (h : runCacheOps ops c = some c') :
    ∃ last', CacheRun (fun _ _ => True) block_size_bits assoc num_set_bits start_index_bit c'
      last' := by
  induction ops generalizing c last with
  | nil =>
    rw [runCacheOps, Option.some.injEq] at h
    rw [← h]
    exact ⟨last, run⟩
  | cons o rest ih =>
    rw [runCacheOps] at h
    cases hout : o.apply c with
    | error e => simp [hout] at h
    | ok c1 =>
      simp only [hout] at h
      exact ih (CacheRun.op o run trivial hout) h

end Bindu.Ruby
