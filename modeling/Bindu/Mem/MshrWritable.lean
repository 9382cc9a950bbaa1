/-
The assertion of `MSHR::promoteWritable`: when deferred targets that need a writable copy are
promoted, the current targets do not need one themselves.

The comment beside it has one case in mind, a read that was answered with a writable copy while a
write waits behind it. But a target may also be deferred because of a cache maintenance request:
then a write can be among the targets and another one behind the maintenance request, and the
response to the first trips the assertion.

The results below are about a register between the calls of its cache. What has to be known of
the targets is their order: the requests that need a writable copy, and the maintenance requests
among them (`line`). As long as no request that needs a writable copy comes behind a maintenance
request which itself is behind another such request, both lists need one only while a snoop has
taken the copy away or a cache invalidate is in progress, and then nothing is promoted.

Source: `mem/cache/mshr.cc`, `mem/cache/base.cc`.
-/
import Bindu.Lib.Runs
import Bindu.Mem.Mshr

namespace Bindu.Mem

open Target List Bool

open Bindu.Lib TargetList

/-! ## A register and its cache -/

namespace MSHR

/-- The first part of `recvTimingResp`: a cache clean that leaves the block valid. -/
def promoteReads (up : Upstream) (m : MSHR) (cmd : MemCmd) (valid : Bool) :
    Except Fault (Upstream × MSHR) :=
  if valid && cmd.isClean && !cmd.isInvalidate then m.promoteReadable up else pure (up, m)

/-- The second part: a writable block, and a response that is not a cache invalidate. The response
has the request of the first target, for which the register was sent. -/
def promoteWrites (up : Upstream) (m : MSHR) (initial_tgt : Target) (valid writable : Bool) :
    Except Fault (Upstream × MSHR) :=
  if valid && writable && !initial_tgt.pkt.req.isCacheInvalidate then m.promoteWritable up
  else pure (up, m)

/-- `recvTimingResp`, as far as it concerns the register: `cmd` is the command of the response,
and the block it finds or fills is `valid` and `writable` or not. -/
def recvTimingResp (up : Upstream) (m : MSHR) (now : Tick) (cmd : MemCmd) (valid writable : Bool) :
    Except Fault (Upstream × MSHR) := do
  let initial_tgt ← m.front
  let (up, m) ← m.promoteReads up cmd valid
  let (up, m) ← m.promoteWrites up initial_tgt valid writable
  let (_, m) ← m.extractServiceableTargets cmd
  let (promoted, m) ← m.promoteDeferredTargets now
  if promoted then
    require m.inService .not_in_service
    pure (up, { m with inService := false })
  else
    pure (up, ← m.deallocate)

end MSHR

/-- What happens to a register. -/
inductive CacheEvent where
  | call (now : Tick) (c : MshrCall)
  | recvTimingResp (now : Tick) (cmd : MemCmd) (valid writable : Bool)

/-- A cache clean that does not invalidate is a `CleanSharedReq`, which needs no writable copy. -/
def Packet.sound (pkt : Packet) : Bool :=
  !(pkt.cmd.needsWritable && pkt.req.isCacheMaintenance) || pkt.req.isCacheInvalidate

/-- The calls that are made outside of `recvTimingResp`. -/
def MshrCall.outside : MshrCall → Bool
  | allocate _ _ target _ _ _ => target.sound
  | allocateTarget pkt _ _ _ => pkt.sound
  | markInService _ | handleSnoop _ _ _ | setDownstreamPending | clearDownstreamPending
  | setForward _ => true
  | _ => false

def registerMachine : Machine (Upstream × MSHR) CacheEvent Fault where
  enabled _
    | .call _ c => c.outside
    | .recvTimingResp _ _ _ _ => true
  exec s
    | .call now c => do
        let r ← c.apply s.1 now s.2
        pure (r.up, r.mshr)
    | .recvTimingResp now cmd valid writable => s.2.recvTimingResp s.1 now cmd valid writable

/-! ## The targets in their order -/

abbrev Role := Source × Bool × Request

def maintains (r : Role) : Bool := r.2.2.isCacheMaintenance

namespace MSHR

/-- The targets that do not come from snoops. -/
def line (m : MSHR) : List Role :=
  (m.targets.list.map role).filter (fun r => decide (r.1 ≠ .FromSnoop))
    ++ m.deferredTargets.list.map role

/-- Is a cache invalidate in progress? -/
def invalidating (m : MSHR) : Bool :=
  (m.targets.list.map role).head?.any (fun r => r.2.2.isCacheInvalidate)

/-- Nothing is promoted when the response comes. -/
def excused (m : MSHR) : Bool :=
  (m.inService && (m.postInvalidate || m.postDowngrade)) || m.invalidating

end MSHR

/-- No maintenance request comes behind a request that needs a writable copy. -/
def Unbarred (l : List Role) : Prop :=
  l.Pairwise (fun x c => ¬ (needs x = true ∧ maintains c = true))

instance (l : List Role) : Decidable (Unbarred l) := inferInstanceAs (Decidable (l.Pairwise _))

/-- The packet that joins the register. -/
def CacheEvent.joins : CacheEvent → Option Packet
  | .call _ (.allocateTarget pkt _ _ _) => some pkt
  | _ => none

/-- A request that needs a writable copy does not join behind a maintenance request which is
behind another such request, nor is it deferred while the current targets need a writable copy too,
unless a snoop takes the copy away or a cache invalidate is in progress. -/
def Unmixed (s : Upstream × MSHR) (e : CacheEvent) : Prop :=
  ∀ pkt ∈ e.joins, pkt.cmd.needsWritable = true → Unbarred (s.2.line ++ [(.FromCPU, true, pkt.req)])
    ∧ (s.2.defers pkt = true → s.2.targets.needsWritable = true → s.2.excused = true)

instance (s : Upstream × MSHR) (e : CacheEvent) : Decidable (Unmixed s e) :=
  inferInstanceAs (Decidable (∀ pkt ∈ e.joins, _))

/-- A request that needs a writable copy is at the end of a sequence without such a pair. -/
def Orderly (l : List Role) : Prop :=
  ∀ P y, (P ++ [y]).Sublist l → needs y = true → Unbarred (P ++ [y])

theorem Orderly.sublist {l l' : List Role} (h : Orderly l) (hl : l'.Sublist l) : Orderly l' :=
  fun P y hP hy => h P y (hP.trans hl) hy

theorem Orderly.concat {l : List Role} {r : Role} (h : Orderly l)
    (hr : needs r = true → Unbarred (l ++ [r])) : Orderly (l ++ [r]) := by
  intro P y hP hy
  obtain ⟨P1, P2, hsplit, h1, h2⟩ := sublist_append_iff.1 hP
  obtain rfl | rfl := sublist_singleton.1 h2
  · rw [append_nil] at hsplit
    exact h P y (hsplit ▸ h1) hy
  · obtain ⟨rfl, hyr⟩ := append_inj' hsplit rfl
    rw [cons.injEq] at hyr
    obtain ⟨rfl, -⟩ := hyr
    exact (hr hy).sublist (h1.append_right _)

/-- Two requests that need a writable copy have no maintenance request between them. -/
theorem Orderly.apart {l rest : List Role} {c : Role} (h : Orderly (l ++ c :: rest))
    (hc : maintains c = true) (hl : l.any needs = true) : (c :: rest).any needs = false := by
  obtain ⟨x, hx, hneeds⟩ := any_eq_true.1 hl
  by_contra hany
  obtain ⟨y, hy, hyneeds⟩ := any_eq_true.1 (not_eq_false _ ▸ hany)
  have hxl : [x].Sublist l := singleton_sublist.2 hx
  obtain rfl | hy := mem_cons.1 hy
  · have hpair := h [x] y (hxl.append (singleton_sublist.2 mem_cons_self)) hyneeds
    exact (pairwise_pair.1 hpair) ⟨hneeds, hc⟩
  · have htriple := h [x, c] y (hxl.append ((singleton_sublist.2 hy).cons_cons c)) hyneeds
    exact (pairwise_cons.1 htriple).1 c mem_cons_self ⟨hneeds, hc⟩

namespace MSHR

/-! ## What holds of a register -/

/-- What the handling of a response keeps. -/
structure Ready (m : MSHR) : Prop where
  deferred : m.deferredTargets.needsWritable = (m.deferredTargets.list.map role).any needs
  cpu : ∀ r ∈ m.deferredTargets.list.map role, r.1 = .FromCPU
  orderly : Orderly m.line
  sound : ∀ r ∈ m.line, needs r = true → maintains r = true → r.2.2.isCacheInvalidate = true

/-- What holds between the calls. -/
structure Steady (m : MSHR) : Prop extends Ready m where
  targets : m.targets.needsWritable = (m.targets.list.map role).any needs
  both : m.targets.needsWritable = true → m.deferredTargets.needsWritable = true → m.excused = true

variable {m m' : MSHR}

/-- The same targets, and at least the same excuse. -/
theorem Steady.congr (h : Steady m) (ht : Kept m.targets m'.targets)
    (hd : Kept m.deferredTargets m'.deferredTargets)
    (hpost : (m.inService && (m.postInvalidate || m.postDowngrade)) = true
      → (m'.inService && (m'.postInvalidate || m'.postDowngrade)) = true) : Steady m' := by
  have hline : m'.line = m.line := by rw [line, line, ht.roles, hd.roles]
  constructor
  case toReady =>
    exact ⟨by rw [hd.needsWritable, hd.roles, h.deferred], hd.roles ▸ h.cpu, hline ▸ h.orderly,
      hline ▸ h.sound⟩
  case targets => rw [ht.needsWritable, ht.roles, h.targets]
  case both =>
    intro h1 h2
    have hex := h.both (ht.needsWritable ▸ h1) (hd.needsWritable ▸ h2)
    rw [excused, or_eq_true] at hex ⊢
    refine hex.imp hpost fun hinv => ?_
    rwa [invalidating, ht.roles]

theorem invalidating_append {l : List Role} (l' : List Role)
    (h : l.head?.any (fun r => r.2.2.isCacheInvalidate) = true) :
    (l ++ l').head?.any (fun r => r.2.2.isCacheInvalidate) = true := by
  cases l with
  | nil => cases h
  | cons r l => exact h

/-- Targets that do not need a writable copy join the current ones. -/
theorem Steady.append {new : List Role} (h : Steady m)
    (ht : m'.targets.list.map role = m.targets.list.map role ++ new)
    (hnew : new.any needs = false) (htf : m'.targets.needsWritable = m.targets.needsWritable)
    (hready : Ready m')
    (hdf : m'.deferredTargets.needsWritable = true → m.deferredTargets.needsWritable = true)
    (hservice : m'.inService = m.inService)
    (hpost : (m.postInvalidate || m.postDowngrade) = true
      → (m'.postInvalidate || m'.postDowngrade) = true) : Steady m' := by
  refine ⟨hready, ?_, fun h1 h2 => ?_⟩
  · rw [htf, h.targets, ht, any_append, hnew, Bool.or_false]
  · have hex := h.both (htf ▸ h1) (hdf h2)
    rw [excused, Bool.or_eq_true, Bool.and_eq_true] at hex ⊢
    obtain ⟨hin, hp⟩ | hinv := hex
    · exact .inl ⟨hservice ▸ hin, hpost hp⟩
    · exact .inr (by rw [invalidating, ht]; exact invalidating_append new hinv)

theorem Ready.join (pkt : Packet) (source : Source) (hline : m'.line = m.line
      ++ [(source, pkt.cmd.needsWritable, pkt.req)]) (h : Ready m) (hsound : pkt.sound = true)
    (hr : pkt.cmd.needsWritable = true
      → Unbarred (m.line ++ [(source, pkt.cmd.needsWritable, pkt.req)]))
    (hd : m'.deferredTargets.needsWritable = (m'.deferredTargets.list.map role).any needs)
    (hcpu : ∀ r ∈ m'.deferredTargets.list.map role, r.1 = .FromCPU) : Ready m' := by
  refine ⟨hd, hcpu, ?_, fun r hmem hneeds hmaint => ?_⟩
  · rw [hline]
    exact h.orderly.concat fun hneeds => hr (and_eq_true_iff.1 hneeds).2
  · rw [hline, mem_append, mem_singleton] at hmem
    obtain hmem | rfl := hmem
    · exact h.sound r hmem hneeds hmaint
    · have hw : pkt.cmd.needsWritable = true := (and_eq_true_iff.1 hneeds).2
      have hm : pkt.req.isCacheMaintenance = true := hmaint
      simpa [Packet.sound, hw, hm] using hsound

/-! ## The calls of the cache -/

theorem Ready.empty (ht : m.targets.list = []) (hd : m.deferredTargets.list = [])
    (hf : m.deferredTargets.needsWritable = false) : Ready m := by
  have hline : m.line = [] := by rw [line, ht, hd]; rfl
  refine ⟨by rw [hf, hd]; rfl, ?_, ?_, ?_⟩
  · rw [hd]
    exact fun r hr => absurd hr not_mem_nil
  · rw [hline]
    exact fun P y hP => absurd (sublist_nil.1 hP) (by simp)
  · rw [hline]
    exact fun r hr => absurd hr not_mem_nil

theorem allocate_steady (up : Upstream) (now : Tick) (blk_addr blk_size : ℕ) (target : Packet)
    (when_ready : Tick) (order : ℕ) (alloc : Bool) (hempty : m.getNumTargets = 0)
    (hsound : target.sound = true) :
    Ok (fun r => Steady r.2) Any
      (m.allocate up now blk_addr blk_size target when_ready order alloc) := by
  rw [getNumTargets, Nat.add_eq_zero_iff, length_eq_zero_iff, length_eq_zero_iff] at hempty
  unfold allocate
  refine Ok.bind (add_ok ..) (fun r hr => ?_)
  obtain ⟨marked, hadd⟩ := hr
  have hlist : r.2.list = [_] := hadd.list.trans (by rw [init, resetFlags, hempty.1]; rfl)
  have hsource : (if target.cmd = .HardPFReq then Source.FromPrefetcher else .FromCPU)
      ≠ .FromSnoop := by split <;> decide
  refine ⟨Ready.join (m := { m with targets := {}, deferredTargets := {} }) target
    (if target.cmd = .HardPFReq then .FromPrefetcher else .FromCPU) ?_ (Ready.empty rfl rfl rfl)
    hsound (fun _ => pairwise_singleton _ _) ?_ ?_, ?_, ?_⟩
  · simp [line, hlist, init, resetFlags, hempty.2, role, hsource]
  · simp [init, resetFlags, hempty.2]
  · simp [init, resetFlags, hempty.2]
  · refine (hadd.flag .needsWritable).trans ?_
    rw [hlist]
    simp [init, resetFlags, flag, sets]
  · intro _ hdf
    cases hdf

theorem allocateTarget_steady (up : Upstream) (now : Tick) (pkt : Packet) (whenReady : Tick)
    (order : ℕ) (alloc : Bool) (h : Steady m) (hsound : pkt.sound = true)
    (hmix : pkt.cmd.needsWritable = true → Unbarred (m.line ++ [(.FromCPU, true, pkt.req)])
      ∧ (m.defers pkt = true → m.targets.needsWritable = true → m.excused = true)) :
    Ok (fun r => Steady r.2) Any (m.allocateTarget up now pkt whenReady order alloc) := by
  refine (allocateTarget_ok up m now pkt whenReady order alloc).imp ?_
  rintro r ⟨t, hlasting, l, hr⟩
  have hrole : t.role = (.FromCPU, pkt.cmd.needsWritable, pkt.req) := congrArg Prod.snd hlasting
  have hbar : pkt.cmd.needsWritable = true
      → Unbarred (m.line ++ [(.FromCPU, pkt.cmd.needsWritable, pkt.req)]) := fun hw => by
    rw [hw]
    exact (hmix hw).1
  have hjoins : ∀ {l0 : TargetList}, Added l0 t l →
      l0.needsWritable = (l0.list.map role).any needs →
      l.list.map role = l0.list.map role ++ [t.role]
        ∧ l.needsWritable = (l.list.map role).any needs := by
    intro l0 hadd hflag
    have hroles : l.list.map role = l0.list.map role ++ [t.role] := by
      rw [hadd.list, map_append, map_singleton]
    refine ⟨hroles, (hadd.flag .needsWritable).trans ?_⟩
    rw [hroles, any_append, ← hflag, any_cons, any_nil, Bool.or_false]
    rfl
  rcases hr with ⟨hdefer, hadd, hm⟩ | ⟨hnone, hadd, hm⟩
  · obtain ⟨hroles, hflag⟩ := hjoins hadd h.deferred
    rw [hm]
    refine ⟨Ready.join pkt .FromCPU ?_ h.toReady hsound hbar hflag ?_, h.targets, ?_⟩
    · rw [line, line, hroles, hrole, append_assoc]
    · rw [hroles, hrole]
      intro role hmem
      obtain hmem | hmem := mem_append.1 hmem
      · exact h.cpu role hmem
      · rw [mem_singleton.1 hmem]
    · intro ht hd
      have hd' := (hadd.flag .needsWritable).symm.trans hd
      rw [or_eq_true] at hd'
      obtain hd' | hneeds := hd'
      · exact h.both ht hd'
      · rw [sets, hrole] at hneeds
        exact (hmix (and_eq_true_iff.1 hneeds).2).2 hdefer ht
  · obtain ⟨hroles, hflag⟩ := hjoins hadd h.targets
    rw [hm]
    refine ⟨Ready.join pkt .FromCPU ?_ h.toReady hsound hbar h.deferred h.cpu, hflag, ?_⟩
    · rw [line, line, hroles, hrole, hnone, filter_append]
      simp
    · intro _ hd
      have hd' : m.deferredTargets.needsWritable = true := hd
      rw [h.deferred, hnone] at hd'
      cases hd'

theorem Steady.snooped (h : Steady m) (hs : Snooped m m') : Steady m' := by
  rcases hs.targets with ht | ⟨t, hsource, hadd⟩
  · refine h.congr ht hs.deferred fun hpost => ?_
    rw [and_eq_true] at hpost ⊢
    exact ⟨hs.entry.inService ▸ hpost.1, hs.post hpost.2⟩
  · have hroles : m'.targets.list.map role = m.targets.list.map role ++ [t.role] := by
      rw [hadd.list, map_append, map_singleton]
    have hneeds : needs t.role = false := by simp [needs, role, hsource]
    refine h.append hroles (by rw [any_cons, hneeds]; rfl) ?_ ?_ ?_ hs.entry.inService hs.post
    · refine (hadd.flag .needsWritable).trans ?_
      rw [sets, hneeds, Bool.or_false]
      rfl
    · have hline : m'.line = m.line := by
        rw [line, line, hroles, hs.deferred.roles, filter_append]
        simp [role, hsource]
      have hd := hs.deferred
      exact ⟨by rw [hd.needsWritable, hd.roles, h.deferred], hd.roles ▸ h.cpu, hline ▸ h.orderly,
        hline ▸ h.sound⟩
    · exact fun hd => hs.deferred.needsWritable ▸ hd

/-! ## The response -/

theorem promoteIf_ready (up : Upstream) (pred : Target → Except Fault Bool) (h : Ready m) :
    Ok (fun r => Ready r.2 ∧ ∃ first : List Target, (∀ t ∈ first, pred t = .ok true)
        ∧ r.2.targets.list.map role = m.targets.list.map role ++ first.map role
        ∧ r.2.targets.needsWritable = m.targets.needsWritable
        ∧ (r.2.deferredTargets.needsWritable = true → m.deferredTargets.needsWritable = true)
        ∧ r.2.inService = m.inService ∧ r.2.postInvalidate = m.postInvalidate
        ∧ r.2.postDowngrade = m.postDowngrade) Any (m.promoteIf up pred) := by
  refine (promoteIf_ok up m pred).imp ?_
  rintro r ⟨first, left, deferred, hsplit, hdeferred, hm⟩
  obtain ⟨hlist, hpred⟩ := (splitDeferred_ok pred m.deferredTargets.list).elim hsplit
  rw [hm]
  have hroles : m.deferredTargets.list.map role = first.map role ++ left.map role := by
    rw [← hlist, map_append]
  have hcpu := h.cpu
  rw [hroles, forall_mem_append] at hcpu
  have htargets : (m.targets.list ++ first.map unmarked).map role
      = m.targets.list.map role ++ first.map role := by
    rw [map_append, map_map]
    rfl
  have hline : line { m with
      targets := { m.targets with list := m.targets.list ++ first.map unmarked }
      deferredTargets := deferred } = m.line := by
    have hkeep : (first.map role).filter (fun r => decide (r.1 ≠ Source.FromSnoop))
        = first.map role :=
      filter_eq_self.2 fun r hr => by rw [hcpu.1 r hr]; rfl
    rw [line, line, htargets, hdeferred.1, filter_append, hkeep, hroles, append_assoc]
  have hflag : deferred.needsWritable = (left.map role).any needs := by
    rw [any_map]
    exact hdeferred.2 .needsWritable
  refine ⟨⟨?_, ?_, hline ▸ h.orderly, hline ▸ h.sound⟩, first, hpred, htargets, rfl, ?_, rfl,
    rfl, rfl⟩
  · rw [hflag, hdeferred.1]
  · rw [hdeferred.1]
    exact hcpu.2
  · intro hd
    have hd' : deferred.needsWritable = true := hd
    rw [hflag] at hd'
    rw [h.deferred, hroles, any_append, hd', Bool.or_true]

theorem promoteReads_steady (up : Upstream) (cmd : MemCmd) (valid : Bool) (h : Steady m) :
    Ok (fun r => Steady r.2 ∧ ∃ first, r.2.targets.list.map role
      = m.targets.list.map role ++ first) Any (m.promoteReads up cmd valid) := by
  have hsame : Steady m ∧ ∃ first, m.targets.list.map role
      = m.targets.list.map role ++ first := ⟨h, [], (append_nil _).symm⟩
  unfold promoteReads promoteReadable
  split
  · split
    · exact hsame
    refine Ok.skip (fun post => ?_)
    cases post with
    | true => exact hsame
    | false =>
      refine (promoteIf_ready up _ h.toReady).imp ?_
      rintro r ⟨hready, first, hfirst, ht, htf, hdf, hin, hpi, hpd⟩
      refine ⟨h.append ht ?_ htf hready hdf hin (by rw [hpi, hpd]; exact id), _, ht⟩
      -- what is promoted needs no writable copy
      rw [any_eq_false]
      intro role hrole
      obtain ⟨t, hmem, rfl⟩ := mem_map.1 hrole
      have hpred := hfirst t hmem
      obtain ⟨-, -, hpred⟩ := bind_eq_ok.1 hpred
      cases hinv : t.pkt.req.isCacheInvalidate
      · rw [hinv] at hpred
        obtain ⟨w, hw, hpred⟩ := bind_eq_ok.1 hpred
        obtain ⟨-, -, hw⟩ := bind_eq_ok.1 hw
        cases hw
        cases hneeds : t.pkt.cmd.needsWritable
        · simp [needs, role, hneeds]
        · rw [hneeds] at hpred
          cases hpred
      · rw [hinv] at hpred
        cases hpred
  · exact hsame

theorem promoteWritable_ready (up : Upstream) (h : Ready m) :
    Ok (fun r => Ready r.2) Any (m.promoteWritable up) := by
  unfold promoteWritable
  split
  · exact h
  refine Ok.skip (fun postInvalidate => ?_)
  refine Ok.skip (fun postDowngrade => ?_)
  split
  · exact h
  refine Ok.assert (fun _ => ?_)
  refine (promoteIf_ready up _ (m := { m with targets := { m.targets with needsWritable := true } })
    ⟨h.deferred, h.cpu, h.orderly, h.sound⟩).imp fun r hr => hr.1

theorem takeOthers_sublist (l : List Target) :
    Ok (fun r => r.2.Sublist l) Any (takeOthers l) := by
  induction l with
  | nil => exact Sublist.refl []
  | cons t rest ih =>
    unfold takeOthers
    split
    · exact Ok.bind ih (fun r hr => hr.cons_cons t)
    · exact Ok.assert (fun _ => Ok.bind ih (fun r hr => hr.cons t))

theorem extractServiceableTargets_ready (cmd : MemCmd) (h : Ready m) :
    Ok (fun r => Ready r.2 ∧ r.2.targets.needsWritable = (r.2.targets.list.map role).any needs) Any
      (m.extractServiceableTargets cmd) := by
  have hless : ∀ targets : TargetList, targets.list.Sublist m.targets.list →
      Ready { m with targets := targets } := by
    intro targets hsub
    have hline : (line { m with targets := targets }).Sublist m.line :=
      ((hsub.map role).filter _).append_right _
    exact ⟨h.deferred, h.cpu, h.orderly.sublist hline, fun r hr => h.sound r (hline.subset hr)⟩
  unfold extractServiceableTargets
  split
  · cases hlist : m.targets.list with
    | nil => exact trivial
    | cons first rest =>
      refine Ok.assert (fun _ => ?_)
      refine Ok.bind (takeOthers_sublist rest) (fun r hr => ?_)
      refine Ok.skip (fun ready => ?_)
      refine Ok.bind (populateFlags_list _) (fun targets htargets => ?_)
      refine ⟨hless targets ?_, by rw [htargets.2, htargets.1]⟩
      rw [htargets.1, hlist]
      exact hr.cons first
  · refine Ok.bind (populateFlags_list _) (fun targets htargets => ?_)
    refine ⟨hless targets ?_, by rw [htargets.2, htargets.1]⟩
    rw [htargets.1]
    exact nil_sublist _

/-- The deferred targets that stay begin with a maintenance request, or are behind one that was
promoted alone. -/
theorem spliceDeferred_cases (targets deferred : List Target) :
    (spliceDeferred targets deferred).2.Sublist deferred
    ∧ ((∀ t rest, (spliceDeferred targets deferred).2 = t :: rest
        → t.pkt.req.isCacheMaintenance = true)
      ∨ ∃ t, (spliceDeferred targets deferred).1 = [t] ∧ t.pkt.req.isCacheMaintenance = true) := by
  unfold spliceDeferred
  cases deferred with
  | nil => exact ⟨Sublist.refl _, .inl fun t rest h => by cases h⟩
  | cons t rest =>
    dsimp only
    split_ifs with hahead hempty
    · refine ⟨dropWhile_sublist _, .inl fun c rest' hc => ?_⟩
      have hhead := head?_dropWhile_not (fun t : Target => !t.pkt.req.isCacheMaintenance)
        (t :: rest)
      dsimp only at hc
      rw [hc] at hhead
      simpa using hhead
    · exact ⟨sublist_cons_self t rest, .inr ⟨t, rfl, by simpa using hahead⟩⟩
    · refine ⟨Sublist.refl _, .inl fun c rest' hc => ?_⟩
      cases hc
      simpa using hahead

/-- Targets and deferred targets as one list. -/
theorem line_eq_filter (hcpu : ∀ r ∈ m.deferredTargets.list.map role, r.1 = .FromCPU) :
    m.line = ((m.targets.list ++ m.deferredTargets.list).map role).filter
      (fun r => decide (r.1 ≠ .FromSnoop)) := by
  rw [line, map_append, filter_append]
  congr 1
  exact (filter_eq_self.2 fun r hr => by rw [hcpu r hr]; rfl).symm

theorem promoteDeferredTargets_ready (now : Tick) (h : Ready m)
    (ht : m.targets.needsWritable = (m.targets.list.map role).any needs) :
    Ok (fun r => Ready r.2 ∧ r.2.targets.needsWritable = (r.2.targets.list.map role).any needs
      ∧ (r.2.targets.needsWritable = true → r.2.deferredTargets.needsWritable = true
        → r.2.invalidating = true)) Any (m.promoteDeferredTargets now) := by
  unfold promoteDeferredTargets
  split
  case isTrue hempty =>
    rw [and_eq_true, List.isEmpty_iff, List.isEmpty_iff] at hempty
    refine ⟨h, ht, fun _ hd => ?_⟩
    rw [h.deferred, hempty.2] at hd
    cases hd
  case isFalse =>
    refine Ok.bind (populateFlags_list _) (fun deferred hdeferred => ?_)
    refine Ok.bind (populateFlags_list _) (fun targets htargets => ?_)
    refine Ok.skip (fun front => ?_)
    have happend := spliceDeferred_append m.targets.list m.deferredTargets.list
    obtain ⟨hsub, hcases⟩ := spliceDeferred_cases m.targets.list m.deferredTargets.list
    have ht1 : targets.list = (spliceDeferred m.targets.list m.deferredTargets.list).1 := htargets.1
    have hd1 : deferred.list = (spliceDeferred m.targets.list m.deferredTargets.list).2 :=
      hdeferred.1
    rw [← ht1, ← hd1] at happend hcases
    rw [← hd1] at hsub
    have hcpu : ∀ r ∈ deferred.list.map role, r.1 = .FromCPU :=
      fun r hr => h.cpu r ((hsub.map role).subset hr)
    have hline : line { m with targets := targets, deferredTargets := deferred } = m.line := by
      rw [line_eq_filter hcpu, line_eq_filter h.cpu, happend]
    have htf : targets.needsWritable = (targets.list.map role).any needs := by
      rw [htargets.2, htargets.1]
    have hdf : deferred.needsWritable = (deferred.list.map role).any needs := by
      rw [hdeferred.2, hdeferred.1]
    refine ⟨⟨hdf, hcpu, hline ▸ h.orderly, hline ▸ h.sound⟩, htf, fun ht' hd' => ?_⟩
    have ht'' : (targets.list.map role).any needs = true := htf ▸ ht'
    have hd'' : (deferred.list.map role).any needs = true := hdf ▸ hd'
    obtain hhead | ⟨t, hone, hmaint⟩ := hcases
    · -- the orderly line excludes the case
      cases hlist : deferred.list with
      | nil => rw [hlist] at hd''; cases hd''
      | cons c rest =>
        have horderly := hline ▸ h.orderly
        rw [line, hlist, map_cons] at horderly
        rw [hlist, map_cons, horderly.apart (hhead c rest hlist) ?_] at hd''
        · cases hd''
        · obtain ⟨r, hr, hneeds⟩ := any_eq_true.1 ht''
          exact any_eq_true.2 ⟨r, mem_filter.2 ⟨hr, (Bool.and_eq_true_iff.1 hneeds).1⟩, hneeds⟩
    · -- a cache invalidate alone
      rw [hone, map_singleton, any_cons, any_nil, Bool.or_false] at ht''
      have hmem : t.role ∈ m.line := by
        rw [← hline, line]
        refine mem_append_left _ (mem_filter.2 ⟨?_, (Bool.and_eq_true_iff.1 ht'').1⟩)
        rw [hone]
        exact mem_singleton_self _
      rw [invalidating]
      rw [hone]
      exact h.sound t.role hmem ht'' hmaint

theorem recvTimingResp_steady (up : Upstream) (now : Tick) (cmd : MemCmd) (valid writable : Bool)
    (h : Steady m) :
    Ok (fun r => Steady r.2) Any (m.recvTimingResp up now cmd valid writable) := by
  unfold recvTimingResp
  refine Ok.skip (fun initial_tgt => ?_)
  refine Ok.bind (promoteReads_steady up cmd valid h) (fun r1 h1 => ?_)
  refine Ok.bind (Q := fun r : Upstream × MSHR => Ready r.2) ?_ (fun r2 h2 => ?_)
  · unfold promoteWrites
    split
    · exact promoteWritable_ready r1.1 h1.1.toReady
    · exact h1.1.toReady
  refine Ok.bind (extractServiceableTargets_ready cmd h2) (fun r3 h3 => ?_)
  refine Ok.bind (promoteDeferredTargets_ready now h3.1 h3.2) (fun r4 h4 => ?_)
  obtain ⟨promoted, m'⟩ := r4
  obtain ⟨hready, hflag, hboth⟩ := h4
  cases promoted with
  | true =>
    refine Ok.assert (fun _ => ?_)
    exact ⟨⟨hready.deferred, hready.cpu, hready.orderly, hready.sound⟩, hflag, hboth⟩
  | false =>
    refine Ok.bind ?_ (fun m' hm' => hm')
    unfold deallocate
    refine Ok.assert (fun hempty => ?_)
    refine Ok.assert (fun _ => ?_)
    refine ⟨⟨hready.deferred, hready.cpu, hready.orderly, hready.sound⟩, ?_, ?_⟩
    · rw [resetFlags, isEmpty_iff.1 hempty]
      rfl
    · exact fun hfalse => by cases hfalse

/-! ## The assertion -/

/-- A computation that does not fail the assertion of `promoteWritable`. -/
def Calm {α : Type} (x : Except Fault α) : Prop :=
  Ok (fun _ => True) (fun e => e ≠ .targets_writable) x

theorem promoteIf_calm (up : Upstream) (pred : Target → Except Fault Bool)
    (hpred : ∀ t, Calm (pred t)) : Calm (m.promoteIf up pred) := by
  have hsplit : ∀ l, Calm (splitDeferred pred l) := by
    intro l
    induction l with
    | nil => exact trivial
    | cons t rest ih =>
      unfold splitDeferred
      refine Ok.bind (hpred t) (fun b _ => ?_)
      split
      · exact Ok.bind ih (fun _ _ => trivial)
      · exact trivial
  have hclear : ∀ (l : List Target) (up : Upstream),
      Calm (TargetList.clearDownstreamPending up l) := by
    intro l
    induction l with
    | nil => exact fun _ => trivial
    | cons t rest ih =>
      intro up
      unfold TargetList.clearDownstreamPending clearSender
      refine Ok.bind (Q := fun _ => True) ?_ (fun r _ => Ok.bind (ih r.1) (fun _ _ => trivial))
      split
      · exact Ok.require_bind (fun _ => by decide) (fun _ => trivial)
      · exact trivial
      · exact trivial
  have hpopulate : ∀ l : TargetList, Calm l.populateFlags := by
    intro l
    refine Ok.foldlM_inv ⊤ trivial fun t _ l' _ => ?_
    unfold updateFlags
    split
    · exact trivial
    · refine Ok.bind (Q := fun _ => True) (Ok.require_bind (fun _ => by decide) (fun _ => trivial))
        (fun _ _ => ?_)
      split <;> exact trivial
  unfold promoteIf
  refine Ok.require_bind (fun _ => by decide) (fun _ => ?_)
  refine Ok.bind (hsplit _) (fun split _ => ?_)
  refine Ok.bind (hclear _ _) (fun cleared _ => ?_)
  exact Ok.bind (hpopulate _) (fun _ _ => trivial)

/-- The assertion holds unless both lists need a writable copy and nothing excuses it. -/
theorem promoteWritable_calm (up : Upstream)
    (h : m.deferredTargets.needsWritable = true → m.targets.needsWritable = true
      → m.inService = true → (m.postInvalidate || m.postDowngrade) = true) :
    Calm (m.promoteWritable up) := by
  unfold promoteWritable hasPostInvalidate hasPostDowngrade
  cases hd : m.deferredTargets.needsWritable with
  | false => exact trivial
  | true =>
  cases hin : m.inService with
  | false => exact (by decide : Fault.not_in_service ≠ .targets_writable)
  | true =>
  cases hpost : (m.postInvalidate || m.postDowngrade) with
  | true =>
    change Calm (if (m.postInvalidate || m.postDowngrade) = true then _ else _)
    rw [if_pos hpost]
    exact trivial
  | false =>
    change Calm (if (m.postInvalidate || m.postDowngrade) = true then _ else _)
    rw [if_neg (by rw [hpost]; exact false_ne_true)]
    refine Ok.require_bind (fun htargets => ?_) (fun _ => ?_)
    · rw [not_eq_false'] at htargets
      rw [h hd htargets hin] at hpost
      cases hpost
    · exact promoteIf_calm up _ fun t => Ok.require_bind (fun _ => by decide) (fun _ => trivial)

end MSHR

open MSHR

theorem apply_steady {up : Upstream} {now : Tick} {m : MSHR} {c : MshrCall}
    (hc : c.outside = true) (hmix : Unmixed (up, m) (.call now c)) (h : Steady m) :
    Ok (fun r => Steady r.mshr) Any (c.apply up now m) := by
  cases c with
  | allocate blk_addr blk_size target when_ready order alloc =>
    refine Ok.assert (fun hempty => ?_)
    exact Ok.bind (allocate_steady up now blk_addr blk_size target when_ready order alloc
      (beq_iff_eq.1 hempty) hc) (fun r hr => hr)
  | allocateTarget pkt whenReady order alloc =>
    exact Ok.bind (allocateTarget_steady up now pkt whenReady order alloc h hc (hmix pkt rfl))
      (fun r hr => hr)
  | markInService resp =>
    refine Ok.bind (markInService_kept up m resp) (fun r hr => ?_)
    -- without a request in service only a cache invalidate is an excuse
    exact h.congr hr.2.2.2.1 hr.2.2.2.2 fun hpost => by rw [hr.1] at hpost; cases hpost
  | handleSnoop pkt order cp_pkt =>
    exact Ok.bind (handleSnoop_ok up m now pkt order cp_pkt) (fun r hr => h.snooped hr)
  | setDownstreamPending =>
    refine Ok.assert (fun _ => ?_)
    exact h.congr (Kept.rfl' _) (Kept.rfl' _) id
  | clearDownstreamPending =>
    refine Ok.bind (MSHR.clearDownstreamPending_kept up m) ?_
    rintro r ⟨targets, ht, hm⟩
    rw [Ok.pure_iff, hm]
    exact h.congr ht (Kept.rfl' _) id
  | setForward isForward => exact h.congr (Kept.rfl' _) (Kept.rfl' _) id
  | _ => cases hc

/-- **The assertion of `promoteWritable` holds** in every run in which requests that need a
writable copy are not deferred behind one another because of a cache maintenance request. -/
theorem promoteWritable_asserts {up : Upstream} {events : List CacheEvent} {s : Upstream × MSHR}
    (hmix : registerMachine.AllSteps Unmixed (up, {}) events)
    (hrun : registerMachine.run (up, {}) events = some s) (cmd : MemCmd) (valid writable : Bool)
    {initial_tgt : Target} {r : Upstream × MSHR} (hfront : s.2.front = .ok initial_tgt)
    (hreads : s.2.promoteReads s.1 cmd valid = .ok r) :
    r.2.promoteWrites r.1 initial_tgt valid writable ≠ .error .targets_writable := by
  have hs : Steady s.2 := by
    refine Machine.run_keeps_of (I := fun s : Upstream × MSHR => Steady s.2) ?_ ?_ hmix hrun
    · rintro ⟨up, m⟩ e s' h hC ⟨hen, hexec⟩
      cases e with
      | call now c =>
        obtain ⟨o, ho, hpure⟩ := bind_eq_ok.1 hexec
        cases hpure
        exact (apply_steady hen hC h).elim ho
      | recvTimingResp now cmd valid writable =>
        exact (recvTimingResp_steady up now cmd valid writable h).elim hexec
    · exact ⟨Ready.empty rfl rfl rfl, rfl, fun hfalse => by cases hfalse⟩
  obtain ⟨hsteady, first, hroles⟩ := (promoteReads_steady s.1 cmd valid hs).elim hreads
  -- the front of the targets is the one that was sent
  have hhead : r.2.invalidating = initial_tgt.pkt.req.isCacheInvalidate := by
    unfold front at hfront
    cases hlist : s.2.targets.list with
    | nil => rw [hlist] at hfront; cases hfront
    | cons t rest =>
      rw [hlist] at hfront hroles
      cases hfront
      rw [invalidating, hroles]
      rfl
  unfold promoteWrites
  split
  case isTrue hguard =>
    intro herror
    refine (promoteWritable_calm r.1 fun hd ht hin => ?_).elim_error herror rfl
    rw [Bool.and_eq_true, Bool.not_eq_true'] at hguard
    have hex := hsteady.both ht hd
    rwa [excused, hin, Bool.true_and, hhead, hguard.2, Bool.or_false] at hex
  case isFalse => exact nofun

/-- A write that misses, a clean of the block and another write behind it. -/
def writeCleanWrite : List CacheEvent :=
  [.call 10 (.allocate 64 64 { id := 1, cmd := .WriteReq, addr := 64, size := 8 } 12 0 true),
   .call 11 (.allocateTarget { id := 2, cmd := .CleanSharedReq, req := { CLEAN := true } } 13 1 true),
   .call 12 (.markInService false),
   .call 13 (.allocateTarget { id := 3, cmd := .WriteReq, addr := 72, size := 8 } 15 2 true)]

/-- The response to the first write brings a writable copy and fails the assertion. -/
theorem promoteWritable_assertion_fails :
    ∃ s, registerMachine.run (fun _ => false, {}) writeCleanWrite = some s
      ∧ (∃ initial_tgt, s.2.front = .ok initial_tgt ∧ initial_tgt.pkt.req.isCacheInvalidate = false)
      ∧ s.2.recvTimingResp s.1 20 .ReadExResp true true = .error .targets_writable := by
  refine ⟨_, rfl, ⟨_, rfl, rfl⟩, rfl⟩

/-- A read that misses and a write behind it, to which the read's writable copy is promoted. -/
def readWrite : List CacheEvent :=
  [.call 10 (.allocate 64 64 { id := 1, cmd := .ReadSharedReq, addr := 64, size := 64 } 12 0 true),
   .call 12 (.markInService false),
   .call 13 (.allocateTarget { id := 2, cmd := .WriteReq, addr := 64, size := 8 } 15 1 true)]

theorem promoteWritable_asserts_readWrite :
    ∃ s initial_tgt r, registerMachine.run (fun _ => false, {}) readWrite = some s
      ∧ s.2.deferredTargets.needsWritable = true ∧ s.2.front = .ok initial_tgt
      ∧ s.2.promoteReads s.1 .ReadExResp true = .ok r
      ∧ r.2.promoteWrites r.1 initial_tgt true true ≠ .error .targets_writable := by
  refine ⟨_, _, _, rfl, rfl, rfl, rfl, ?_⟩
  have hmix : registerMachine.AllSteps Unmixed (fun _ => false, {}) readWrite :=
    Machine.AllSteps.of_check (by decide +kernel)
  exact promoteWritable_asserts hmix rfl .ReadExResp true true rfl rfl

end Bindu.Mem
