import Nanami.Memory.DelegationRuns
import Nanami.Memory.Launch

/-!
# No byte of untyped memory is used twice

The guarantee of the memory manager over whole runs, from boot and through any calls, with any
kernel call refused: the sources, the frame ranges, the metadata pools and the live delegations of
an initial Generic are disjoint parts of it, a source starts where the kernel will carve next, and
the Generic that is taken out of a source is the one that was asked for.
-/

namespace Nanami.Memory
open Nanami.Lib List Holding

def Delegation.live (d : Delegation) : Bool := d.info.state != .reclaimed && d.authority.isSome

namespace MemoryManager

variable {s t : MemoryManager}

/-! ## Calls -/

/-- The calls on the memory manager that move untyped memory. -/
inductive Call where
  | materializeFrameRange (index address : Nat)
  | ensureAlphaFrameAtPhysicalIndex (page : Nat)
  | refillMetadataPool
  | reserveAlphaMemory (radix : Nat)
  | takeDelegatedResources (id : Nat)
  | reclaimDelegation (id : Nat)
  | allocatePhysicalAt (physicalAddress sizeBytes : Nat) (allowDevice : Bool)
  | allocatePhysicalAny (sizeBytes : Nat)
  | freePhysical (physicalAddress sizeBytes : Nat)
  deriving DecidableEq, Repr

def step (s : MemoryManager) : Call → MemoryManager
  | .materializeFrameRange index address => stateAfter (materializeFrameRange index address) s
  | .ensureAlphaFrameAtPhysicalIndex page => stateAfter (ensureAlphaFrameAtPhysicalIndex page) s
  | .refillMetadataPool => stateAfter refillMetadataPool s
  | .reserveAlphaMemory radix => stateAfter (reserveAlphaMemory radix) s
  | .takeDelegatedResources id => stateAfter (takeDelegatedResources id) s
  | .reclaimDelegation id => stateAfter (reclaimDelegation id) s
  | .allocatePhysicalAt address bytes allow => stateAfter (allocatePhysicalAt address bytes allow) s
  | .allocatePhysicalAny bytes => stateAfter (allocatePhysicalAny bytes) s
  | .freePhysical address bytes => stateAfter (freePhysical address bytes) s

def run (s : MemoryManager) (calls : List Call) : MemoryManager := calls.foldl step s

variable {bytes root x index : Nat} {α : Type} {l : List α} {p : α → Bool}

lemma allocatePhysicalAt_spec {address allow} (I : Inv s []) :
    ends (allocatePhysicalAt address bytes allow) (Steady s) s := by
  refine wp_sure (callAllocator_records (P := fun _ => True) I fun a hv => ?_) ?_
  · exact wp_post (PhysicalAllocator.allocateAt_spec hv) (fun _ _ h => ⟨h.1, h.2.1, trivial⟩)
  · rintro r t ⟨ht, -⟩
    split
    · exact ht
    · exact wp_ite (fun _ => ht) (fun _ => ht)
    · exact ht

lemma allocatePhysicalAny_spec (I : Inv s []) :
    ends (allocatePhysicalAny bytes) (Steady s) s := by
  refine wp_sure (callAllocator_records (P := fun _ => True) I fun a hv => ?_) ?_
  · exact wp_post (PhysicalAllocator.allocateAny_spec hv) (fun _ _ h => ⟨h.1, h.2.1, trivial⟩)
  · rintro r t ⟨ht, -⟩
    cases r with
    | ok a => exact ht
    | error e => exact ht

lemma step_continues (I : Inv s []) (call : Call) : Continues s (s.step call) := by
  have steady : ∀ {α : Type} {m : EStateM Failure MemoryManager α},
      wp m (fun _ => Steady s) (fun e t => e ≠ .panic ∧ Steady s t) s →
      Continues s (stateAfter m s) := fun h =>
    stateAfter_of_wp (wp_mono h (fun _ _ h => h.continues) (fun _ _ h => h.2.continues))
  have continues : ∀ {α : Type} {m : EStateM Failure MemoryManager α},
      wp m (fun _ => Continues s) (fun e t => e ≠ .panic ∧ Continues s t) s →
      Continues s (stateAfter m s) := fun h =>
    stateAfter_of_wp (wp_mono h (fun _ _ h => h) (fun _ _ h => h.2))
  cases call with
  | materializeFrameRange index address => exact continues (materializeFrameRange_spec I)
  | ensureAlphaFrameAtPhysicalIndex page => exact continues (ensureAlphaFrame_spec I)
  | refillMetadataPool => exact steady (refillMetadataPool_spec I)
  | reserveAlphaMemory radix => exact continues (reserveAlphaMemory_spec I)
  | takeDelegatedResources id => exact continues (takeDelegatedResources_spec I)
  | reclaimDelegation id => exact continues (reclaimDelegation_spec I)
  | allocatePhysicalAt address bytes allow =>
    exact (stateAfter_of_wp (allocatePhysicalAt_spec I)).continues
  | allocatePhysicalAny bytes => exact (stateAfter_of_wp (allocatePhysicalAny_spec I)).continues
  | freePhysical address bytes => exact steady (freePhysical_spec I)

lemma run_continues (I : Inv s []) (calls : List Call) : Continues s (s.run calls) := by
  induction calls generalizing s with
  | nil => exact .refl I
  | cons call calls ih =>
    have h := step_continues I call
    exact h.trans (ih h.1)

/-! ## Extents -/

def sourceExtents (s : MemoryManager) (index : Nat) : List (Nat × Nat) :=
  (s.physicalSources.entries.filter fun e => (ofLex e.1).1 == index).map
    fun e => ((ofLex e.1).2, e.2.stop - (ofLex e.1).2)

def frameExtents (s : MemoryManager) (index : Nat) : List (Nat × Nat) :=
  ((s.bootstrapFrames.toList ++ s.physicalFrames.entries.map Prod.snd).filter
    fun r => rootOf s.kernel.cap r.source == (s.initialGeneric index).capability).map
      fun r => (r.basePage * pageSize, r.pageCount * pageSize)

def poolExtents (s : MemoryManager) (index : Nat) : List (Nat × Nat) :=
  (s.pools.filter fun d => rootOf s.kernel.cap d == (s.initialGeneric index).capability).map
    fun d => ((poolHolding s.kernel.cap d).start,
      (poolHolding s.kernel.cap d).stop - (poolHolding s.kernel.cap d).start)

def delegationExtents (s : MemoryManager) (index : Nat) : List (Nat × Nat) :=
  (s.delegations.filter fun d => d.live && d.initialIndex == index).map
    fun d => (d.info.address, d.info.bytes)

/-- All that the manager has a use for in an initial Generic, as start and length. -/
def extents (s : MemoryManager) (index : Nat) : List (Nat × Nat) :=
  s.sourceExtents index ++
    (s.frameExtents index ++ (s.poolExtents index ++ s.delegationExtents index))

lemma cover_filter_le {g c} (h : ∀ a ∈ l, p a = true → c a = some (root, g a)) :
    cover ((l.filter p).map g) x ≤ claimed (l.filterMap c) root x := by
  induction l with
  | nil => exact le_refl _
  | cons a l ih =>
    have ih := ih fun b hb => h b (mem_cons_of_mem _ hb)
    by_cases hp : p a = true
    · rw [filter_cons_of_pos hp, filterMap_cons, h a mem_cons_self hp, map_cons,
        cover_cons]
      rw [claimed_cons, if_pos rfl]
      exact Nat.add_le_add_left ih _
    · rw [filter_cons_of_neg hp, filterMap_cons]
      cases c a with
      | none => exact ih
      | some b =>
        rw [claimed_cons]
        exact Nat.le_add_left_of_le ih

lemma cover_filter_le_map {g c} (h : ∀ a ∈ l, p a = true → c a = (root, g a)) :
    cover ((l.filter p).map g) x ≤ claimed (l.map c) root x := by
  rw [← filterMap_eq_map (f := c)]
  exact cover_filter_le fun a ha hp => congrArg some (h a ha hp)

lemma claim_delegation {d} (I : Inv s []) (hd : d ∈ s.delegations) (hlive : d.live = true) :
    d.holding?.map (claim s.kernel.cap) =
      some ((s.initialGeneric d.initialIndex).capability, (d.info.address, d.info.bytes)) := by
  simp only [Delegation.live, Bool.and_eq_true, bne_iff_ne, ne_eq, Option.isSome_iff_exists] at hlive
  obtain ⟨hst, slot, hslot⟩ := hlive
  have hh : d.holding? = some ⟨slot.descriptor, d.info.address, d.info.address + d.info.bytes⟩ := by
    simp [Delegation.holding?, hst, hslot]
  obtain ⟨_, c, hc, _, hroot⟩ := I.delegated d hd _ hh
  have hc : s.kernel.cap slot.descriptor = some c := hc
  rw [hh, Option.map_some, claim, rootOf, hc, ← hroot, Nat.add_sub_cancel_left]
  rfl

lemma cover_extents_le (I : Inv s []) :
    cover (s.extents index) x ≤ claimed (s.fixedClaims ++ s.holdings.map (claim s.kernel.cap))
      (s.initialGeneric index).capability x := by
  have hsource : cover (s.sourceExtents index) x ≤
      claimed ((s.physicalSources.entries.map sourceHolding).map (claim s.kernel.cap))
        (s.initialGeneric index).capability x := by
    rw [map_map]
    refine cover_filter_le_map fun e he hp => ?_
    rw [← beq_iff_eq.mp hp, ← I.rooted e he]
    rfl
  have hheap : cover ((s.bootstrapFrames.toList.filter fun r =>
        rootOf s.kernel.cap r.source == (s.initialGeneric index).capability).map
        fun r => (r.basePage * pageSize, r.pageCount * pageSize)) x ≤
      claimed s.fixedClaims (s.initialGeneric index).capability x := by
    refine cover_filter_le_map fun r _ hp => ?_
    rw [← beq_iff_eq.mp hp]
  have hframe : cover (((s.physicalFrames.entries.map Prod.snd).filter fun r =>
        rootOf s.kernel.cap r.source == (s.initialGeneric index).capability).map
        fun r => (r.basePage * pageSize, r.pageCount * pageSize)) x ≤
      claimed ((s.physicalFrames.entries.map (fun e => frameHolding e.2)).map
        (claim s.kernel.cap)) (s.initialGeneric index).capability x := by
    have e : (s.physicalFrames.entries.map (fun e => frameHolding e.2)).map
        (claim s.kernel.cap) = (s.physicalFrames.entries.map Prod.snd).map
          fun r => (frameHolding r).claim s.kernel.cap := by
      rw [map_map, map_map]
      rfl
    rw [e]
    refine cover_filter_le_map fun r _ hp => ?_
    rw [← beq_iff_eq.mp hp, frameHolding, claim, Nat.add_mul, Nat.add_sub_cancel_left]
  have hpool : cover (s.poolExtents index) x ≤ claimed ((s.pools.map (poolHolding s.kernel.cap)).map
      (claim s.kernel.cap)) (s.initialGeneric index).capability x := by
    rw [map_map]
    refine cover_filter_le_map fun d _ hp => ?_
    rw [← beq_iff_eq.mp hp, Function.comp, claim, descriptor_poolHolding]
  have hdelegation : cover (s.delegationExtents index) x ≤
      claimed ((s.delegations.filterMap Delegation.holding?).map (claim s.kernel.cap))
        (s.initialGeneric index).capability x := by
    rw [map_filterMap]
    refine cover_filter_le fun d hd hp => ?_
    obtain ⟨hlive, hindex⟩ := Bool.and_eq_true_iff.mp hp
    rw [claim_delegation I hd hlive, beq_iff_eq.mp hindex]
  rw [extents, frameExtents, holdings, filter_append]
  simp only [map_append, cover_append, claimed_append]
  omega

lemma within_of_holding {g h} (I : Inv s []) (hg : g ∈ s.initialGenerics) (hh : h ∈ s.holdings)
    (hroot : rootOf s.kernel.cap h.descriptor = g.capability) :
    g.address ≤ h.start ∧ h.start + (h.stop - h.start) ≤ g.address + 2 ^ g.sizeRadix := by
  obtain ⟨c, hc, _, hbase, hlt, hstop⟩ := I.backed hh
  have := I.inside hg hc hroot
  omega

lemma within_of_heap {g r} (I : Inv s []) (hg : g ∈ s.initialGenerics)
    (hr : s.bootstrapFrames = some r) (hroot : rootOf s.kernel.cap r.source = g.capability) :
    r.Within g := by
  obtain ⟨_, g', hg', e, hin⟩ := I.heap r hr
  obtain ⟨_, c, hc, h1, _, h2, h3⟩ := I.initial g hg
  obtain ⟨_, c', hc', h1', _, h2', h3'⟩ := I.initial g' hg'
  rw [rootOf, e, hc'] at hroot
  have hroot : c'.root = g.capability := hroot
  rw [← h1', hroot, hc] at hc'
  cases hc'
  rw [FrameRange.Within, ← h2', ← h3', h2, h3] at hin
  exact hin

lemma extents_within {r} (I : Inv s []) (hi : index < s.initialGenerics.length)
    (hr : r ∈ s.extents index) :
    (s.initialGeneric index).address ≤ r.1 ∧
      r.1 + r.2 ≤ (s.initialGeneric index).address + 2 ^ (s.initialGeneric index).sizeRadix := by
  have hg := initialGeneric_mem hi
  rcases mem_append.mp hr with hr | hr
  · obtain ⟨e, he, rfl⟩ := mem_map.mp hr
    obtain ⟨he, hp⟩ := mem_filter.mp he
    refine within_of_holding (h := sourceHolding e) I hg (mem_holdings_source he) ?_
    rw [← beq_iff_eq.mp hp]
    exact I.rooted e he
  rcases mem_append.mp hr with hr | hr
  · obtain ⟨range, hrange, rfl⟩ := mem_map.mp hr
    obtain ⟨hrange, hp⟩ := mem_filter.mp hrange
    rcases mem_append.mp hrange with hrange | hrange
    · exact within_of_heap I hg (Option.mem_toList.mp hrange) (beq_iff_eq.mp hp)
    · obtain ⟨e, he, rfl⟩ := mem_map.mp hrange
      have hin := within_of_holding (h := frameHolding e.2) I hg
        (mem_append_right _ (mem_append_left _ (mem_map_of_mem he)))
        (beq_iff_eq.mp hp)
      rwa [frameHolding, Nat.add_mul, Nat.add_sub_cancel_left] at hin
  rcases mem_append.mp hr with hr | hr
  · obtain ⟨d, hd, rfl⟩ := mem_map.mp hr
    obtain ⟨hd, hp⟩ := mem_filter.mp hd
    refine within_of_holding I hg (mem_holdings_pool hd) ?_
    rw [descriptor_poolHolding]
    exact beq_iff_eq.mp hp
  · obtain ⟨d, hd, rfl⟩ := mem_map.mp hr
    obtain ⟨hd, hp⟩ := mem_filter.mp hd
    obtain ⟨hlive, hindex⟩ := Bool.and_eq_true_iff.mp hp
    have hclaim := claim_delegation I hd hlive
    obtain ⟨h, hh, he⟩ := Option.map_eq_some_iff.mp hclaim
    rw [beq_iff_eq.mp hindex] at he
    have hmem : h ∈ s.holdings := mem_append_right _ (mem_append_right _
      (mem_append_right _ (mem_filterMap.mpr ⟨d, hd, hh⟩)))
    have hin := within_of_holding I hg hmem (congrArg Prod.fst he)
    rw [← congrArg (fun c : Claim => c.2.1) he, ← congrArg (fun c : Claim => c.2.2) he]
    exact hin

/-- Every use of untyped memory belongs to an initial Generic, the uses of one are disjoint parts of
it, a source starts where the kernel carves next, and what is taken is what was asked for. -/
structure Untangled (resources : List MemoryResource) (s : MemoryManager) : Prop where
  generics : s.initialGenerics = resources
  source : ∀ e ∈ s.physicalSources.entries, (ofLex e.1).1 < resources.length
  frame : ∀ e ∈ s.physicalFrames.entries, ∃ index < resources.length,
    rootOf s.kernel.cap e.2.source = (s.initialGeneric index).capability
  pool : ∀ d ∈ s.pools, ∃ index < resources.length,
    rootOf s.kernel.cap d = (s.initialGeneric index).capability
  delegation : ∀ d ∈ s.delegations, d.live = true → d.initialIndex < resources.length
  disjoint : ∀ index < resources.length,
    (s.extents index).Pairwise fun r q => Disjoint (pagesOf r) (pagesOf q)
  within : ∀ index < resources.length, ∀ r ∈ s.extents index,
    (s.initialGeneric index).address ≤ r.1 ∧
      r.1 + r.2 ≤ (s.initialGeneric index).address + 2 ^ (s.initialGeneric index).sizeRadix
  /-- Of an initial Generic bytes may be in use that are not whole pages; it starts at the next. -/
  start : ∀ e ∈ s.physicalSources.entries, ∃ g, s.kernel.cap e.2.descriptor = some g ∧
    (g.watermark = (ofLex e.1).2 ∨
      e.2.descriptor = (s.initialGeneric (ofLex e.1).1).capability ∧
      g.base + firstAligned (g.watermark - g.base) pageSize = (ofLex e.1).2)
  taken : ∀ index address radix slot t, pageBits ≤ radix →
    takePhysicalSourceSlot index address radix s = .ok slot t →
    ∃ c, t.kernel.cap slot.descriptor = some c ∧ c.kind = .generic ∧ c.base = address ∧
      c.size = 2 ^ radix ∧ c.root = (s.initialGeneric index).capability

lemma Inv.root_index {d} (I : Inv s []) (h : ∃ c, s.kernel.cap d = some c) :
    ∃ index < s.initialGenerics.length,
      rootOf s.kernel.cap d = (s.initialGeneric index).capability := by
  obtain ⟨c, hc⟩ := h
  obtain ⟨g, hg, e⟩ := I.roots d c hc
  obtain ⟨index, hi, rfl⟩ := getElem_of_mem hg
  refine ⟨index, hi, ?_⟩
  rw [rootOf, hc, initialGeneric, getD_eq_getElem _ _ hi, ← e]
  rfl

lemma Inv.untangled (I : Inv s []) : Untangled s.initialGenerics s where
  generics := rfl
  source := I.indexed
  frame e he := by
    obtain ⟨c, hc, _⟩ := I.backed (mem_append_right _ (mem_append_left _
      (mem_map_of_mem (f := fun e => frameHolding e.2) he)))
    exact I.root_index ⟨c, hc⟩
  pool d hd := I.root_index (I.pool_cap hd)
  delegation d hd hlive := by
    obtain ⟨h, hh, _⟩ := Option.map_eq_some_iff.mp (claim_delegation I hd hlive)
    exact (I.delegated d hd h hh).1
  disjoint index _ :=
    pairwise_disjoint_of_cover fun x => (cover_extents_le I).trans (I.ledger.once _ x)
  within index hi r hr := extents_within I hi hr
  start e he := by
    obtain ⟨g, hg, hle, hlt, hdvd, hexact⟩ := I.marked e he
    refine ⟨g, hg, hexact.imp_right fun hline => ?_⟩
    have hlow := I.ledger.nested.low _ g hg
    have hroot := I.rooted e he
    have hg' : s.kernel.cap e.2.descriptor = some g := hg
    rw [rootOf, hg'] at hroot
    constructor
    · rcases I.ledger.nested.rooted _ g hg with h | h
      · exact h.symm.trans hroot
      · rw [hline] at h
        cases h
    · have hstart : (sourceHolding e).start = (ofLex e.1).2 := rfl
      rw [firstAligned_eq hdvd (by omega) (by omega)]
      omega
  taken index address radix slot t hr ht := by
    obtain ⟨_, _, _, _, hd⟩ := wp_ok (takePhysicalSourceSlot_spec I hr) ht
    exact hd

/-- From a boot on, whatever is called and whatever the kernel refuses, no untyped memory of an
initial Generic has two uses. -/
theorem untyped_memory_untangled {e : AlphaEnvironment} {answers : Nat → KernelAnswer}
    {heap : Nat × Nat × Nat} (h : boot e answers heap = some s) (hD : RamApart e.resources)
    (calls : List Call) : Untangled e.resources (s.run calls) := by
  obtain ⟨I₀, hgen₀⟩ := boot_inv h hD
  obtain ⟨I, hgen⟩ := run_continues I₀ calls
  rw [← hgen₀, ← hgen]
  exact I.untangled

/-! ## Boots -/

def refusingFrom (n : Nat) : Nat → KernelAnswer := fun call =>
  ⟨if n ≤ call then some .invalidArgument else none, 0⟩

def environment : AlphaEnvironment :=
  ⟨1, 12, [⟨7, 0x40000000, 30, 0, 0⟩, ⟨8, 0x100000000, 20, 0, 1⟩], 0⟩

def heap : Nat × Nat × Nat := (0, 0x48808000, 16)

/-- A boot with two regions, a reservation, a frame range and a reclaimed delegation. -/
theorem untyped_memory_untangled_reserve_and_reclaim :
    RamApart environment.resources ∧ ∃ s, boot environment (refusingFrom 40) heap = some s ∧
      Untangled environment.resources
        (s.run [.reserveAlphaMemory 29, .materializeFrameRange 0 0x50000000, .reclaimDelegation 1]) := by
  have hD : RamApart environment.resources := by decide
  obtain ⟨s, hs⟩ := Option.isSome_iff_exists.mp
    (by decide +kernel : (boot environment (refusingFrom 40) heap).isSome = true)
  exact ⟨hD, s, hs, untyped_memory_untangled hs hD _⟩

def describedTwice : AlphaEnvironment :=
  ⟨1, 12, [⟨7, 0x40000000, 28, 0, 0⟩, ⟨8, 0x80000000, 31, 0, 0⟩, ⟨9, 0x80000000, 30, 0, 0⟩], 0⟩

def meets (r q : Nat × Nat) : Bool := r.1 < q.1 + q.2 && q.1 < r.1 + r.2

def sourceMeets (s : MemoryManager) (p : Delegation → Bool) : Bool :=
  s.delegations.any fun d => d.info.state != .reclaimed && p d &&
    (s.sourceExtents d.initialIndex).any (meets · (d.info.address, d.info.bytes))

/-- Where the guarantee ends. A launcher that has used a part of a page leaves a source that starts
behind its watermark, and a block smaller than a page is then carved elsewhere. A reservation whose
conversion is refused stays recorded over the source it was selected from. And where two Generics
describe the same memory, reclaiming a partition of one can find its allocation in pieces: the
source is back and the delegation stays. -/
theorem untyped_memory_entangled :
    ((boot environment (refusingFrom 40) heap).any fun s =>
      s.physicalSources.entries.any fun e => (s.kernel.cap e.2.descriptor).any fun g =>
        g.watermark != (ofLex e.1).2) = true ∧
    ((boot environment (refusingFrom 40) heap).any fun s =>
      match takePhysicalSourceSlot 1 0x100001000 8 s with
      | .ok slot t => (t.kernel.cap slot.descriptor).any fun c => c.base != 0x100001000
      | .error _ _ => false) = true ∧
    ((boot environment (refusingFrom 8) heap).any fun s =>
      (s.run [.reserveAlphaMemory 29]).sourceMeets fun d => d.authority.isNone) = true ∧
    ((boot describedTwice (refusingFrom 400) heap).any fun s =>
      (s.run [.reserveAlphaMemory 30, .reserveAlphaMemory 30, .reserveAlphaMemory 29,
        .reclaimDelegation 3, .reclaimDelegation 1]).sourceMeets Delegation.live) = true := by
  refine ⟨?_, ?_, ?_, ?_⟩ <;> decide +kernel

end MemoryManager

end Nanami.Memory
