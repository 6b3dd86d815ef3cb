import Nanami.Memory.Ledger
import Nanami.Memory.Frames
import Nanami.Memory.Partition

/-!
# The untyped memory Alpha accounts for

What the tables of the memory manager say about untyped memory: the sources, the frame ranges, the
metadata pools and the delegations whose authority was taken are the holdings of a ledger. `Inv` is
the invariant of the manager. Between two statements of an operation a holding may be in no table;
it is then in flight, and the rules at the end of this module move holdings between the tables and
the list of those in flight.
-/

namespace Nanami.Memory
open Nanami.Lib List

namespace Delegation

/-- What a delegation holds once its authority was taken and until it is reclaimed. -/
def holding? (d : Delegation) : Option Holding :=
  if d.info.state = .reclaimed then none
  else d.authority.map fun slot =>
    ⟨slot.descriptor, d.info.address, d.info.address + d.info.bytes⟩

/-- The allocation a delegation keeps from its reservation until it is reclaimed. -/
def record? (d : Delegation) : Option AllocationRecord :=
  if d.info.state = .reclaimed then none
  else some ⟨d.info.address >>> pageBits, bytesToPages d.info.bytes, false, false⟩

/-- A partition is a power of two of bytes, page aligned, inside the address space. -/
structure Shaped (d : Delegation) : Prop where
  aligned : pageSize ∣ d.info.address
  size : ∃ radix, 29 ≤ radix ∧ radix < wordBits ∧ d.info.bytes = 2 ^ radix
  fits : d.info.address + d.info.bytes ≤ wordSize

end Delegation

def FrameRange.Within (r : FrameRange) (g : MemoryResource) : Prop :=
  g.address ≤ r.basePage * pageSize ∧
    r.basePage * pageSize + r.pageCount * pageSize ≤ g.address + 2 ^ g.sizeRadix

/-- The start of a source is its Generic's watermark, rounded up to a page of the Generic. Only the
watermark of an initial Generic may need rounding. -/
def Marked (caps : Caps) (h : Holding) : Prop :=
  ∃ g, caps h.descriptor = some g ∧ g.watermark ≤ h.start ∧ h.start < g.watermark + pageSize ∧
    pageSize ∣ h.start - g.base ∧ (g.watermark = h.start ∨ g.lineage = [])

namespace MemoryManager

def sourceHolding (e : (Nat ×ₗ Nat) × PhysicalSource) : Holding :=
  ⟨e.2.descriptor, (ofLex e.1).2, e.2.stop⟩

def frameHolding (r : FrameRange) : Holding :=
  ⟨r.source, r.basePage * pageSize, (r.basePage + r.pageCount) * pageSize⟩

def poolHolding (caps : Caps) (d : CapabilityDescriptor) : Holding :=
  match caps d with
  | some c => ⟨d, c.base, c.stop⟩
  | none => ⟨d, 0, 0⟩

def holdings (s : MemoryManager) : List Holding :=
  s.physicalSources.entries.map sourceHolding ++
    (s.physicalFrames.entries.map (fun e => frameHolding e.2) ++
      (s.pools.map (poolHolding s.kernel.cap) ++ s.delegations.filterMap Delegation.holding?))

def fixedClaims (s : MemoryManager) : List Claim :=
  s.bootstrapFrames.toList.map fun r =>
    (rootOf s.kernel.cap r.source, (r.basePage * pageSize, r.pageCount * pageSize))

structure Initial (caps : Caps) (g : MemoryResource) : Prop where
  fits : g.address + 2 ^ g.sizeRadix < wordSize
  cap : ∃ c, caps g.capability = some c ∧ c.root = g.capability ∧ c.lineage = [] ∧
    c.base = g.address ∧ c.size = 2 ^ g.sizeRadix

def Reserves (s : MemoryManager) : Prop :=
  ∃ a, s.physicalAllocator = some a ∧ a.Valid ∧
    (s.delegations.filterMap Delegation.record?).Subperm a.allocations

/-- The invariant of the manager, with the holdings in flight. -/
structure Inv (s : MemoryManager) (flight : List Holding) : Prop where
  ledger : Ledger s.fixedClaims s.kernel.cap (flight ++ s.holdings)
  marked : ∀ e ∈ s.physicalSources.entries, Marked s.kernel.cap (sourceHolding e)
  indexed : ∀ e ∈ s.physicalSources.entries, (ofLex e.1).1 < s.initialGenerics.length
  rooted : ∀ e ∈ s.physicalSources.entries,
    rootOf s.kernel.cap e.2.descriptor = (s.initialGeneric (ofLex e.1).1).capability
  delegated : ∀ d ∈ s.delegations, ∀ h, d.holding? = some h →
    d.initialIndex < s.initialGenerics.length ∧ ∃ c, s.kernel.cap h.descriptor = some c ∧
      c.base = h.start ∧ c.root = (s.initialGeneric d.initialIndex).capability
  shaped : ∀ d ∈ s.delegations, d.Shaped
  pool : s.nodePool.descriptor ∈ s.pools
  keyed : ∀ e ∈ s.physicalFrames.entries, e.2.basePage = e.1
  heap : ∀ r, s.bootstrapFrames = some r → r.ready = true ∧
    ∃ g ∈ s.initialGenerics, r.source = g.capability ∧ r.Within g
  initial : ∀ g ∈ s.initialGenerics, Initial s.kernel.cap g
  roots : ∀ d c, s.kernel.cap d = some c → ∃ g ∈ s.initialGenerics, c.root = g.capability
  reserves : s.Reserves

/-- Everything but the kernel, the directory, the use of the pool and the sources is the same. -/
structure Kept (s t : MemoryManager) : Prop where
  frames : t.physicalFrames = s.physicalFrames
  delegations : t.delegations = s.delegations
  pools : t.pools = s.pools
  pool : t.nodePool.descriptor = s.nodePool.descriptor
  heap : t.bootstrapFrames = s.bootstrapFrames
  generics : t.initialGenerics = s.initialGenerics
  allocator : t.physicalAllocator = s.physicalAllocator

variable {d : CapabilityDescriptor} {radix : Nat} {slot : Slot}

lemma Kept.refl {s} : Kept s s := ⟨rfl, rfl, rfl, rfl, rfl, rfl, rfl⟩

lemma Kept.trans {s t u} (h : Kept s t) (h' : Kept t u) : Kept s u where
  frames := h'.frames.trans h.frames
  delegations := h'.delegations.trans h.delegations
  pools := h'.pools.trans h.pools
  pool := h'.pool.trans h.pool
  heap := h'.heap.trans h.heap
  generics := h'.generics.trans h.generics
  allocator := h'.allocator.trans h.allocator

/-- Neither have the sources changed. -/
structure Same (s t : MemoryManager) : Prop extends Kept s t where
  sources : t.physicalSources = s.physicalSources

lemma Same.refl {s} : Same s s := ⟨⟨rfl, rfl, rfl, rfl, rfl, rfl, rfl⟩, rfl⟩

lemma Same.kernel {s} {k : Kernel} : Same s { s with kernel := k } :=
  ⟨⟨rfl, rfl, rfl, rfl, rfl, rfl, rfl⟩, rfl⟩

lemma Same.trans {s t u} (h : Same s t) (h' : Same t u) : Same s u :=
  ⟨h.toKept.trans h'.toKept, h'.sources.trans h.sources⟩

variable {s t : MemoryManager} {fl : List Holding}

lemma mem_holdings_source {e} (h : e ∈ s.physicalSources.entries) : sourceHolding e ∈ s.holdings :=
  mem_append_left _ (mem_map_of_mem h)

lemma mem_holdings_pool (h : d ∈ s.pools) : poolHolding s.kernel.cap d ∈ s.holdings :=
  mem_append_right _ (mem_append_right _ (mem_append_left _ (mem_map_of_mem h)))

lemma descriptor_poolHolding {caps} : (poolHolding caps d).descriptor = d := by
  unfold poolHolding
  split <;> rfl

namespace Inv

lemma backed {h} (I : Inv s fl) (hh : h ∈ s.holdings) : h.Backed s.kernel.cap :=
  I.ledger.backed h (mem_append_right _ hh)

lemma pool_cap (I : Inv s fl) (h : d ∈ s.pools) : ∃ c, s.kernel.cap d = some c := by
  obtain ⟨c, hc, _⟩ := I.backed (mem_holdings_pool h)
  rw [descriptor_poolHolding] at hc
  exact ⟨c, hc⟩

lemma source_ne {e h} (I : Inv s fl) (he : e ∈ s.physicalSources.entries)
    (hh : h ∈ fl ∨ h ∈ s.physicalFrames.entries.map (fun e => frameHolding e.2) ++
      (s.pools.map (poolHolding s.kernel.cap) ++ s.delegations.filterMap Delegation.holding?)) :
    e.2.descriptor ≠ h.descriptor := by
  obtain ⟨l, r, hlr⟩ := append_of_mem he
  have p : (fl ++ s.holdings).Perm (sourceHolding e :: (fl ++ (l.map sourceHolding ++
      (r.map sourceHolding ++ (s.physicalFrames.entries.map (fun e => frameHolding e.2) ++
      (s.pools.map (poolHolding s.kernel.cap) ++ s.delegations.filterMap Delegation.holding?)))))) := by
    rw [holdings, hlr, map_append, map_cons, append_assoc, cons_append]
    exact (perm_middle.append_left fl).trans perm_middle
  have hm : h ∈ fl ++ (l.map sourceHolding ++ (r.map sourceHolding ++
      (s.physicalFrames.entries.map (fun e => frameHolding e.2) ++
      (s.pools.map (poolHolding s.kernel.cap) ++ s.delegations.filterMap Delegation.holding?)))) := by
    rcases hh with hh | hh
    · exact mem_append_left _ hh
    · exact mem_append_right _ (mem_append_right _ (mem_append_right _ hh))
  exact ((I.ledger.perm p).descriptor_ne hm).symm

lemma pool_ne (I : Inv s fl) :
    ∀ e ∈ s.physicalSources.entries, e.2.descriptor ≠ s.nodePool.descriptor := by
  intro e he
  have := I.source_ne he (.inr (mem_append_right _ (mem_append_left _
    (mem_map_of_mem I.pool))))
  rwa [descriptor_poolHolding] at this

/-- A kernel call that only moves the watermark of a Generic other than the sources'. -/
lemma refine {x} (I : Inv s fl) (K : Same s t)
    (hx : ∀ e ∈ s.physicalSources.entries, e.2.descriptor ≠ x) (N : Nested t.kernel.cap)
    (G : Grows x s.kernel.cap t.kernel.cap) : Inv t fl := by
  have hpools : s.pools.map (poolHolding t.kernel.cap) = s.pools.map (poolHolding s.kernel.cap) := by
    refine map_congr_left fun d hd => ?_
    obtain ⟨c, hc⟩ := I.pool_cap hd
    obtain ⟨w, hw, _⟩ := G.keeps d c hc
    rw [poolHolding, poolHolding, hc, hw]
    rfl
  have hhold : t.holdings = s.holdings := by
    rw [holdings, holdings, K.sources, K.frames, K.pools, K.delegations, hpools]
  have hfixed : t.fixedClaims = s.fixedClaims := by
    rw [fixedClaims, K.heap]
    refine map_congr_left fun r hr => ?_
    obtain ⟨_, g, hg, e, _⟩ := I.heap r (Option.mem_toList.mp hr)
    obtain ⟨_, c, hc, _⟩ := I.initial g hg
    rw [e, G.rootOf hc]
  have hgen : ∀ i, t.initialGeneric i = s.initialGeneric i := fun i => by
    rw [initialGeneric, initialGeneric, K.generics]
  constructor
  · rw [hhold, hfixed]
    exact I.ledger.grow G N
  · intro e he
    rw [K.sources] at he
    obtain ⟨g, hg, h⟩ := I.marked e he
    obtain ⟨w, hw, h0⟩ := G.keeps _ g hg
    rcases h0 with h0 | rfl
    · exact absurd h0 (hx e he)
    · exact ⟨_, hw, h⟩
  · rw [K.sources, K.generics]
    exact I.indexed
  · intro e he
    rw [K.sources] at he
    obtain ⟨c, hc, _⟩ := I.backed (mem_holdings_source he)
    rw [hgen, ← I.rooted e he]
    exact G.rootOf hc
  · intro d hd h hh
    rw [K.delegations] at hd
    obtain ⟨hi, c, hc, h1, h2⟩ := I.delegated d hd h hh
    obtain ⟨w, hw, _⟩ := G.keeps _ c hc
    exact ⟨by rw [K.generics]; exact hi, _, hw, h1, by rw [hgen]; exact h2⟩
  · rw [K.delegations]
    exact I.shaped
  · rw [K.pool, K.pools]
    exact I.pool
  · rw [K.frames]
    exact I.keyed
  · rw [K.heap, K.generics]
    exact I.heap
  · intro g hg
    rw [K.generics] at hg
    obtain ⟨hf, c, hc, h⟩ := I.initial g hg
    obtain ⟨w, hw, _⟩ := G.keeps _ c hc
    exact ⟨hf, _, hw, h⟩
  · intro d c hc
    obtain ⟨d', c', hc', e⟩ := G.roots d c hc
    rw [K.generics, ← e]
    exact I.roots d' c' hc'
  · obtain ⟨a, ha, h⟩ := I.reserves
    exact ⟨a, by rw [K.allocator, ha], by rw [K.delegations]; exact h⟩

end Inv

/-! ## Metadata -/

lemma wp_onKernel {α} {m : EStateM CapabilityError Kernel α} {Q : α → MemoryManager → Prop}
    {E : Failure → MemoryManager → Prop} : wp (onKernel m) Q E s ↔
      wp m (fun a k => Q a { s with kernel := k }) (fun e k => E (.error e) { s with kernel := k })
        s.kernel := by
  rw [onKernel, wp_adapt, wp_zoom]

def Quiet (fl : List Holding) (s t : MemoryManager) : Prop := Inv t fl ∧ Same s t

lemma Quiet.trans {u} (h : Quiet fl s t) (h' : Quiet fl t u) : Quiet fl s u :=
  ⟨h'.1, h.2.trans h'.2⟩

lemma Inv.same (I : Inv s fl) (K : Same s t) (hk : t.kernel.cap = s.kernel.cap) : Inv t fl :=
  I.refine (x := s.nodePool.descriptor) K I.pool_ne (hk ▸ I.ledger.nested) (hk ▸ Grows.refl)

lemma poolConvert_spec {kind} {bytes : Nat} (I : Inv s fl) :
    wp (poolConvert kind radix bytes slot) (fun _ => Quiet fl s)
      (fun e t => e ≠ .panic ∧ Quiet fl s t) s := by
  simp only [poolConvert, wp_bind]
  refine wp_okOr (fun stop _ => ?_) (fun _ => ⟨by rintro ⟨⟩, I, .refl⟩)
  refine wp_onKernel.mpr (wp_mono (convert_carves I.ledger.nested) ?_ ?_)
  · rintro _ k ⟨g, C⟩
    exact ⟨I.refine ⟨⟨rfl, rfl, rfl, rfl, rfl, rfl, rfl⟩, rfl⟩ I.pool_ne C.nested C.grows,
      ⟨⟨rfl, rfl, rfl, rfl, rfl, rfl, rfl⟩, rfl⟩⟩
  · intro e k hk
    exact ⟨by rintro ⟨⟩, I.same .kernel hk, .kernel⟩

lemma createNode_spec (I : Inv s fl) :
    wp (createNode radix slot) (fun _ => Quiet fl s) (fun e t => e ≠ .panic ∧ Quiet fl s t) s := by
  exact poolConvert_spec I

lemma growSpine_spec {levels} (I : Inv s fl) :
    wp (growSpine levels) (fun _ => Quiet fl s) (fun e t => e ≠ .panic ∧ Quiet fl s t) s := by
  induction levels generalizing s with
  | nil => exact ⟨I, .refl⟩
  | cons level levels ih =>
    refine wp_ite (fun _ => ?_) (fun _ => ih I)
    simp only [wp_bind, wp_modify]
    refine wp_post (createNode_spec I) (fun _ t ht => ?_)
    have K (d : CapabilityDirectory) : Same t { t with capabilityDirectory := d } :=
      ⟨⟨rfl, rfl, rfl, rfl, rfl, rfl, rfl⟩, rfl⟩
    have ht' (d : CapabilityDirectory) := ht.trans ⟨ht.1.same (K d) rfl, K d⟩
    refine wp_mono (ih (ht' _).1) (fun _ u hu => (ht' _).trans hu) ?_
    exact fun _ u hu => ⟨hu.1, (ht' _).trans hu.2⟩

lemma allocateSlot_spec (I : Inv s fl) :
    wp allocateSlot (fun _ => Quiet fl s) (fun e t => e ≠ .panic ∧ Quiet fl s t) s := by
  refine wp_guard ⟨nofun, I, .refl⟩ fun _ => ?_
  refine wp_seq (growSpine_spec I) fun _ t ht => ?_
  have K : Same t { t with capabilityDirectory := { t.capabilityDirectory with
    next := t.capabilityDirectory.next + 1 } } := ⟨⟨rfl, rfl, rfl, rfl, rfl, rfl, rfl⟩, rfl⟩
  exact ⟨ht.1.same K rfl, ht.2.trans K⟩

end MemoryManager

end Nanami.Memory
