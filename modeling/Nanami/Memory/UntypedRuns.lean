import Nanami.Memory.Sources

/-!
# Runs of the memory manager

Every operation that derives capabilities from untyped memory or gives memory back keeps the
manager's invariant, whatever the kernel refuses on the way.
-/

namespace Nanami.Memory
open Nanami.Lib List SortedMap PhysicalAllocator Delegation

lemma bytesToPages_of_dvd {bytes} (hd : pageSize ∣ bytes) (hlt : bytes + pageSize ≤ wordSize) :
    bytesToPages bytes * pageSize = bytes := by
  obtain ⟨q, rfl⟩ := hd
  rw [bytesToPages_eq hlt, Nat.mul_add_div (by decide), Nat.div_eq_of_lt (by decide), add_zero, mul_comm]

namespace Delegation.Shaped

variable {d : Delegation}

lemma bytes_dvd (h : d.Shaped) : pageSize ∣ d.info.bytes := by
  obtain ⟨radix, h1, _, h2⟩ := h.size
  rw [h2]
  exact pow_dvd_pow 2 (by
    have : pageBits = 12 := rfl
    omega)

lemma bytes_pos (h : d.Shaped) : 0 < d.info.bytes := by
  obtain ⟨radix, _, _, h2⟩ := h.size
  rw [h2]
  exact Nat.two_pow_pos _

lemma bytes_le (h : d.Shaped) : d.info.bytes + pageSize ≤ wordSize := by
  obtain ⟨radix, _, h1, h2⟩ := h.size
  have : 2 ^ radix ≤ 2 ^ 63 := Nat.pow_le_pow_right (by decide) (Nat.le_of_lt_succ h1)
  have e : (2 : Nat) ^ 63 + pageSize ≤ wordSize := by decide
  omega

end Delegation.Shaped

namespace MemoryManager

variable {s t : MemoryManager} {fl : List Holding}

structure Rest (s t : MemoryManager) : Prop where
  frames : t.physicalFrames = s.physicalFrames
  delegations : t.delegations = s.delegations
  heap : t.bootstrapFrames = s.bootstrapFrames
  generics : t.initialGenerics = s.initialGenerics

lemma Rest.refl : Rest s s := ⟨rfl, rfl, rfl, rfl⟩

variable {u : MemoryManager} {start page : Nat} {range : FrameRange}

lemma Rest.trans (h : Rest s t) (h' : Rest t u) : Rest s u where
  frames := h'.frames.trans h.frames
  delegations := h'.delegations.trans h.delegations
  heap := h'.heap.trans h.heap
  generics := h'.generics.trans h.generics

lemma Kept.rest (K : Kept s t) : Rest s t := ⟨K.frames, K.delegations, K.heap, K.generics⟩

def Steady (s t : MemoryManager) : Prop := Inv t [] ∧ Rest s t

lemma Steady.refl (I : Inv s []) : Steady s s := ⟨I, .refl⟩

lemma Steady.trans {u} (h : Steady s t) (h' : Steady t u) : Steady s u :=
  ⟨h'.1, h.2.trans h'.2⟩

lemma Settled.steady (h : Settled s t) : Steady s t := ⟨h.1, h.2.rest⟩

lemma Quiet.steady (h : Quiet [] s t) : Steady s t := ⟨h.1, h.2.toKept.rest⟩

def Continues (s t : MemoryManager) : Prop := Inv t [] ∧ t.initialGenerics = s.initialGenerics

lemma Continues.refl (I : Inv s []) : Continues s s := ⟨I, rfl⟩

lemma Continues.trans (h : Continues s t) (h' : Continues t u) : Continues s u :=
  ⟨h'.1, h'.2.trans h.2⟩

lemma Steady.continues (h : Steady s t) : Continues s t := ⟨h.1, h.2.generics⟩

/-! ## The allocator -/

lemma wp_callAllocator {α m} {Q : Except PhysicalAllocError α → MemoryManager → Prop} {E}
    {a : PhysicalAllocator} (ha : s.physicalAllocator = some a)
    (h : wp m (fun v b => Q (.ok v) { s with physicalAllocator := some b })
      (fun e b => Q (.error e) { s with physicalAllocator := some b }) a) :
    wp (callAllocator m) Q E s := by
  rw [callAllocator, wp_read, wp_bind, ha, okOr_some, wp_pure]
  rw [wp] at h
  cases hm : m a with
  | ok v b => rw [hm] at h; exact h
  | error e b => rw [hm] at h; exact h

lemma Inv.reallocate {b} (I : Inv s fl) (hv : b.Valid)
    (hsub : (s.delegations.filterMap record?).Subperm b.allocations) :
    Inv { s with physicalAllocator := some b } fl :=
  { I with
    reserves := ⟨b, rfl, hv, hsub⟩ }

lemma Steady.reallocate {b} (I : Inv s []) (hv : b.Valid)
    (hsub : (s.delegations.filterMap record?).Subperm b.allocations) :
    Steady s { s with physicalAllocator := some b } :=
  ⟨I.reallocate hv hsub, ⟨rfl, rfl, rfl, rfl⟩⟩

lemma callAllocator_records {m} {P : PhysicalAllocation → Prop} (I : Inv s [])
    (h : ∀ a : PhysicalAllocator, a.Valid → wp m
      (fun v b => PhysicalAllocator.Keeps a b ∧ b.allocations = a.allocations ++ [v.record] ∧ P v)
      (fun _ b => b = a) a) :
    sure (callAllocator m) (fun r t => Steady s t ∧ ∀ v, r = .ok v → P v ∧
        ∃ b, t.physicalAllocator = some b ∧ b.Valid ∧
          (s.delegations.filterMap record? ++ [v.record]).Subperm b.allocations) s := by
  obtain ⟨a, ha, hv, hsub⟩ := I.reserves
  refine wp_callAllocator ha (wp_mono (h a hv) ?_ ?_)
  · rintro v b ⟨hk, hb, hP⟩
    refine ⟨.reallocate I hk.valid ?_, ?_⟩
    · rw [hb]
      exact hsub.trans (sublist_append_left _ _).subperm
    · intro v' hv'
      cases hv'
      refine ⟨hP, b, rfl, hk.valid, ?_⟩
      rw [hb]
      exact (subperm_append_right _).mpr hsub
  · rintro e b rfl
    exact ⟨.reallocate I hv hsub, nofun⟩

/-! ## Freeing -/

lemma record?_eq_some {d : Delegation} {r} :
    d.record? = some r ↔ d.info.state ≠ .reclaimed ∧
      r = ⟨d.info.address >>> pageBits, bytesToPages d.info.bytes, false, false⟩ := by
  unfold record?
  split
  · simp_all
  · simp_all [eq_comm]

lemma record_extent {d : Delegation} {r} (S : d.Shaped) (h : d.record? = some r) :
    r.basePage * pageSize = d.info.address ∧ r.pageCount * pageSize = d.info.bytes ∧
      r.pageCount ≠ 0 ∧ r.reserved = false := by
  obtain ⟨_, rfl⟩ := record?_eq_some.mp h
  have hb := bytesToPages_of_dvd S.bytes_dvd S.bytes_le
  refine ⟨shiftRight_of_dvd S.aligned, hb, fun h0 => ?_, rfl⟩
  have h0 : bytesToPages d.info.bytes = 0 := h0
  have hpos := S.bytes_pos
  rw [h0] at hb
  omega

variable {address bytes base : Nat}

/-- A range the public guard lets through is taken out of a delegation's record only at its end. -/
lemma not_overlaps_end {d : Delegation} {r} (S : d.Shaped) (hr : d.record? = some r)
    (hno : d.overlaps address bytes = false) (ha : isPageAligned address = true) (h0 : bytes ≠ 0)
    (hbase : r.basePage ≤ address >>> pageBits) :
    r.basePage + r.pageCount ≤ address >>> pageBits := by
  obtain ⟨e1, e2, _, _⟩ := record_extent S hr
  obtain ⟨hstate, _⟩ := record?_eq_some.mp hr
  rw [isPageAligned_iff] at ha
  have e3 := shiftRight_of_dvd (Nat.dvd_of_mod_eq_zero ha)
  have hfit := S.fits
  have hno : address < saturatingAdd d.info.address d.info.bytes →
      saturatingAdd address bytes ≤ d.info.address := by
    simpa [overlaps, hstate, Bool.and_eq_false_iff] using hno
  simp only [saturatingAdd, show pageSize = 4096 from rfl,
    show wordSize = 18446744073709551616 from rfl] at e1 e2 e3 hfit hno
  omega

/-- `free_physical` never takes from a delegation. -/
lemma freePhysical_spec (I : Inv s []) :
    wp (freePhysical address bytes) (fun _ => Steady s) (fun e t => e ≠ .panic ∧ Steady s t) s := by
  refine wp_guard ⟨nofun, .refl I⟩ fun hguard => ?_
  have hguard : ∀ d ∈ s.delegations, d.overlaps address bytes = false := by
    simpa using hguard
  obtain ⟨a, ha, hv, hsub⟩ := I.reserves
  rw [wp_bind]
  refine wp_callAllocator ha (wp_mono (free_spec hv) ?_ ?_)
  · rintro _ b ⟨hk, haligned, h0, r, rest, hperm, hholds, hb⟩
    refine .reallocate I hk.valid ?_
    have hsub' := hsub.trans hperm.subperm
    rw [hb]
    by_cases hr : r ∈ s.delegations.filterMap record?
    · -- the range was empty and at the end of the record
      obtain ⟨d, hd, hrec⟩ := mem_filterMap.mp hr
      have S := I.shaped d hd
      obtain ⟨_, _, hcount, hres⟩ := record_extent S hrec
      have hbound := hv.bounded r (hperm.mem_iff.mpr mem_cons_self)
      obtain ⟨_, hbase, hstop⟩ := (holdsRange_iff hbound).mp hholds
      rw [leftOver_end hres hcount
        (not_overlaps_end S hrec (hguard d hd) haligned h0 hbase) hstop]
      exact hsub'.trans (perm_append_singleton r rest).symm.subperm
    · have := hsub'.erase r
      rw [erase_of_not_mem hr, erase_cons_head] at this
      exact this.trans (sublist_append_left _ _).subperm
  · rintro e b ⟨rfl, _⟩
    exact ⟨nofun, .reallocate I hv hsub⟩

/-! ## Metadata pools -/

lemma Inv.landPool {d root} (I : Inv s [⟨d, base, base + bytes⟩])
    (hd : Designates s.kernel.cap d base bytes root) :
    Inv { s with nodePool := .new d, pools := d :: s.pools } [] :=
  { I with
    ledger := by
      obtain ⟨c, hc, _, hb, hsz, _⟩ := hd
      have e : poolHolding s.kernel.cap d = ⟨d, base, base + bytes⟩ := by
        rw [poolHolding, hc, ← hb, ← hsz]
        rfl
      have L := I.ledger
      rw [singleton_append, ← e] at L
      refine L.perm ?_
      exact ((perm_middle.append_left _).trans perm_middle).symm
    pool := mem_cons_self }

lemma scanChunks_spec (I : Inv s []) :
    sure (scanChunks start base) (fun _ => Steady s) s := by
  induction base using Nat.strong_induction_on generalizing s with
  | _ base ih =>
    rw [scanChunks]
    refine wp_ite (fun _ => ?_) (fun _ => .refl I)
    refine wp_seq (callAllocator_records (P := fun _ => True) I fun a hv =>
      wp_post (allocateAt_spec hv) (fun _ _ h => ⟨h.1, h.2.1, trivial⟩)) ?_
    rintro r t ⟨ht, _⟩
    cases r with
    | ok v => exact ht
    | error e =>
      dsimp only
      split
      · refine wp_post (ih _ ?_ ht.1) (fun _ _ => ht.trans)
        have : 0 < physicalChunkSize := Nat.two_pow_pos _
        omega
      · exact ht

lemma selectChunk_spec {l} (I : Inv s []) :
    sure (selectChunk l) (fun _ => Steady s) s := by
  induction l generalizing s with
  | nil => exact .refl I
  | cons e l ih =>
    refine wp_ite (fun _ => ih I) (fun _ => ?_)
    split
    · exact ih I
    · refine wp_seq (scanChunks_spec I) fun r t ht => ?_
      cases r with
      | some base => exact ht
      | none => exact wp_post (ih ht.1) (fun _ _ => ht.trans)

/-- `refill_metadata_pool` ends with a pool of its own or with the tables as they were. -/
lemma refillMetadataPool_spec (I : Inv s []) :
    wp refillMetadataPool (fun _ => Steady s) (fun e t => e ≠ .panic ∧ Steady s t) s := by
  rw [refillMetadataPool, wp_read]
  refine wp_sure (selectChunk_spec I) (fun selected t ht => ?_)
  refine wp_lookup ⟨nofun, ht⟩ fun range _ => ?_
  rw [wp_try, takePhysicalSource]
  refine wp_then (takePhysicalSourceSlot_spec ht.1 (by decide)) ?_ ?_
  · rintro slot u ⟨hI, hK, _, _, hd⟩
    exact ht.trans ⟨hI.landPool hd, ⟨hK.frames, hK.delegations, hK.heap, hK.generics⟩⟩
  · rintro e u ⟨he, hu⟩
    have hsu := ht.trans hu.steady
    cases e with
    | panic => exact absurd rfl he
    | error e =>
      refine wp_then (freePhysical_spec hu.1) (fun _ v hv => ⟨nofun, hsu.trans hv⟩) ?_
      exact fun e v hv => ⟨hv.1, hsu.trans hv.2⟩

lemma ensureMetadataCapacity_spec (I : Inv s []) :
    wp ensureMetadataCapacity (fun _ => Steady s) (fun e t => e ≠ .panic ∧ Steady s t) s := by
  exact wp_ite (fun _ => .refl I) (fun _ => refillMetadataPool_spec I)

/-! ## Frames -/

lemma Inv.reframe {fl' l m} (I : Inv s fl)
    (p : (fl ++ s.physicalFrames.entries.map (fun e => frameHolding e.2)).Perm
      (l ++ (fl' ++ m.entries.map (fun e => frameHolding e.2))))
    (hm : ∀ e ∈ m.entries, e.2.basePage = e.1) : Inv { s with physicalFrames := m } fl' :=
  { I with
    ledger := by
      have q : (fl ++ s.holdings).Perm
          (l ++ (fl' ++ ({ s with physicalFrames := m } : MemoryManager).holdings)) := by
        have r := p.append_right (s.physicalSources.entries.map sourceHolding ++
          (s.pools.map (poolHolding s.kernel.cap) ++ s.delegations.filterMap holding?))
        simp only [append_assoc] at r
        refine ((perm_append_comm_assoc _ _ _).append_left fl).trans (r.trans ?_)
        exact ((perm_append_comm_assoc _ _ _).append_left fl').append_left l
      exact (I.ledger.perm q).drop
    keyed := hm }

lemma keyed_insert {r} (h : ∀ e ∈ s.physicalFrames.entries, e.2.basePage = e.1) :
    ∀ e ∈ (s.physicalFrames.insert r.basePage r).entries, e.2.basePage = e.1 := by
  intro e he
  rcases mem_insert.mp he with rfl | ⟨hm, _⟩
  · rfl
  · exact h e hm

lemma Inv.landFrame {r} (I : Inv s (frameHolding r :: fl)) : Inv (insertFrameRange r s) fl := by
  have p := (insert_perm (m := s.physicalFrames) (k := r.basePage) (a := r)).map
    (fun e => frameHolding e.2)
  cases hr : s.physicalFrames.get? r.basePage with
  | none =>
    rw [erase_of_get?_none hr] at p
    refine I.reframe (l := []) ?_ (keyed_insert I.keyed)
    exact perm_middle.symm.trans (p.symm.append_left fl)
  | some r' =>
    have q := (erase_perm (get?_eq_some.mp hr)).map (fun e => frameHolding e.2)
    refine I.reframe (l := [frameHolding r']) ?_ (keyed_insert I.keyed)
    refine (q.append_left _).trans (perm_middle.trans (List.Perm.cons _ ?_))
    exact perm_middle.symm.trans (p.symm.append_left fl)

def Listed (s : MemoryManager) (r : FrameRange) : Prop :=
  ∃ r', s.physicalFrames.get? r.basePage = some r' ∧ frameHolding r' = frameHolding r

lemma Listed.source {r} (h : Listed s r) :
    frameHolding r ∈ s.physicalFrames.entries.map (fun e => frameHolding e.2) := by
  obtain ⟨r', hr, e⟩ := h
  exact mem_map.mpr ⟨_, get?_eq_some.mp hr, e⟩

lemma Inv.rewriteFrame {r} (I : Inv s fl) (h : Listed s r) :
    Inv (insertFrameRange r s) fl ∧ Listed (insertFrameRange r s) r := by
  obtain ⟨r', hr, e⟩ := h
  constructor
  · refine I.reframe (l := []) ?_ (keyed_insert I.keyed)
    have p := (insert_perm (m := s.physicalFrames) (k := r.basePage) (a := r)).map
      (fun e => frameHolding e.2)
    have q := (erase_perm (get?_eq_some.mp hr)).map (fun e => frameHolding e.2)
    rw [map_cons, e] at q
    exact (q.trans p.symm).append_left fl
  · exact ⟨r, by simp [insertFrameRange, get?_insert], rfl⟩

lemma Inv.frameRange_some {r} (I : Inv s fl) (h : s.frameRange page = some r) :
    r.ready = true ∨ Listed s r := by
  unfold frameRange at h
  split at h
  · rename_i range hb
    cases h
    rw [Option.filter_eq_some_iff] at hb
    exact .inl (I.heap r hb.1).1
  · rw [Option.filter_eq_some_iff, Option.map_eq_some_iff] at h
    obtain ⟨⟨e, he, rfl⟩, _⟩ := h
    have hm := (lastBetween_some he).1
    refine .inr ⟨e.2, ?_, rfl⟩
    rw [I.keyed e hm]
    exact get?_eq_some.mpr hm

lemma ensureFrameNode_spec (I : Inv s []) (h : Listed s range) :
    wp (ensureFrameNode range) (fun r t => Continues s t ∧ Listed t r)
      (fun e t => e ≠ .panic ∧ Continues s t) s := by
  unfold ensureFrameNode
  split
  · exact ⟨.refl I, h⟩
  · refine wp_then (ensureMetadataCapacity_spec I) (fun _ t ht => ?_)
      (fun _ _ h => ⟨h.1, h.2.continues⟩)
    refine wp_then (allocateSlot_spec ht.1) (fun slot u hu => ?_)
      (fun _ _ h => ⟨h.1, (ht.trans h.2.steady).continues⟩)
    refine wp_then (createNode_spec hu.1) (fun _ v hv => ?_)
      (fun _ _ h => ⟨h.1, (ht.trans (hu.trans h.2).steady).continues⟩)
    have hl : Listed v { range with node := some slot.descriptor } := by
      obtain ⟨r', hr, e⟩ := h
      exact ⟨r', by rw [hv.2.frames, hu.2.frames, ht.2.frames]; exact hr, e⟩
    obtain ⟨J, hl'⟩ := hv.1.rewriteFrame hl
    exact ⟨⟨J, (ht.trans (hu.trans hv).steady).continues.2⟩, hl'⟩

lemma completeFrameRange_spec (I : Inv s []) (h : range.ready = true ∨ Listed s range) :
    wp (completeFrameRange range) (fun _ => Continues s)
      (fun e t => e ≠ .panic ∧ Continues s t) s := by
  refine wp_ite (fun _ => .refl I)
    (fun hready => wp_ite (fun _ => ⟨nofun, .refl I⟩) (fun _ => ?_))
  refine wp_seq (ensureFrameNode_spec I (h.resolve_left hready)) ?_
  rintro r t ⟨⟨J, hgen⟩, hl⟩
  rw [wp_try]
  have hne : ∀ e ∈ t.physicalSources.entries, e.2.descriptor ≠ r.source := fun e he =>
    J.source_ne he (.inr (mem_append_left _ hl.source))
  refine wp_onKernel.mpr (wp_mono (convertFrames_grows J.ledger.nested) ?_ ?_)
  · rintro _ k ⟨N, G⟩
    exact ⟨((J.refine .kernel hne N G).rewriteFrame (r := { r with ready := true, failed := false })
      hl).1, hgen⟩
  · rintro e k ⟨N, G⟩
    refine ⟨nofun, ?_, hgen⟩
    exact ((J.refine .kernel hne N G).rewriteFrame (r := { r with ready := false, failed := true }) hl).1

lemma containingBlockIn_some {stop radix radixes}
    (h : containingBlockIn start stop address radixes = some (base, radix)) : radix ∈ radixes := by
  induction radixes with
  | nil => cases h
  | cons r rs ih =>
    unfold containingBlockIn at h
    dsimp only at h
    split at h
    · cases h
      exact mem_cons_self
    · exact mem_cons_of_mem _ (ih h)

lemma materializeFrameRange_spec {index} (I : Inv s []) :
    wp (materializeFrameRange index address) (fun _ => Continues s)
      (fun e t => e ≠ .panic ∧ Continues s t) s := by
  rw [materializeFrameRange, wp_read]
  split
  · rename_i range hrange
    exact completeFrameRange_spec I (I.frameRange_some hrange)
  · refine wp_then (ensureMetadataCapacity_spec I) (fun _ t ht => ?_)
      (fun _ _ h => ⟨h.1, h.2.continues⟩)
    refine wp_lookup ⟨nofun, ht.continues⟩ fun range _ => ?_
    refine wp_lookup ⟨nofun, ht.continues⟩ fun block hblock => ?_
    obtain ⟨base, radix⟩ := block
    have hr : pageBits ≤ radix := by
      have := containingBlockIn_some hblock
      simp only [mem_reverse, mem_range'_1] at this
      exact this.1
    rw [wp_bind, takePhysicalSource]
    refine wp_then (takePhysicalSourceSlot_spec ht.1 hr) ?_
      (fun _ _ h => ⟨h.1, (ht.trans h.2.steady).continues⟩)
    rintro slot u ⟨J, K, _, hd, _⟩
    rw [wp_pure, wp_update]
    have hpage : base >>> pageBits * pageSize = base :=
      shiftRight_of_dvd ((pow_dvd_pow 2 hr).trans hd)
    have hcount : 2 ^ (radix - pageBits) * pageSize = 2 ^ radix := pow_sub_mul_pow 2 hr
    have hf : frameHolding ⟨base >>> pageBits, 2 ^ (radix - pageBits), max (radix - pageBits) 1,
        slot.descriptor, none, false, false⟩ = ⟨slot.descriptor, base, base + 2 ^ radix⟩ := by
      rw [frameHolding, add_mul, hpage, hcount]
    rw [← hf] at J
    have hnow : Continues s (insertFrameRange _ u) := ⟨J.landFrame, K.generics.trans ht.2.generics⟩
    refine wp_mono (completeFrameRange_spec J.landFrame (.inr ⟨_, ?_, rfl⟩))
      (fun _ _ => hnow.trans) (fun _ _ h => ⟨h.1, hnow.trans h.2⟩)
    rw [insertFrameRange, get?_insert, if_pos rfl]

lemma ensureAlphaFrame_spec (I : Inv s []) :
    wp (ensureAlphaFrameAtPhysicalIndex page) (fun _ => Continues s)
      (fun e t => e ≠ .panic ∧ Continues s t) s := by
  rw [ensureAlphaFrameAtPhysicalIndex, wp_read]
  split
  · rename_i range hrange
    exact completeFrameRange_spec I (I.frameRange_some hrange)
  · rw [wp_bind]
    refine wp_okOr (fun address _ => ?_) (fun _ => ⟨nofun, .refl I⟩)
    refine wp_guard ⟨nofun, .refl I⟩ fun _ => ?_
    exact wp_lookup ⟨nofun, .refl I⟩ fun index _ => materializeFrameRange_spec I

end MemoryManager

end Nanami.Memory
