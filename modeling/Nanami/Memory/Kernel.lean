import Nanami.Nun
import Nanami.Lib.SortedMap
import Nanami.Memory.Buddy

/-!
# Generic capabilities

The part of the A9N kernel the memory manager converts memory through. A Generic is untyped memory
with a watermark: a conversion carves the first suitably aligned block at or above it, and revoking
the Generic deletes what was derived from it and resets the watermark to its base.

Any call may be refused. The refusals of a run are an arbitrary sequence, one answer for each call;
a refused batch of frames may have installed some of them. The sizes of kernel objects are those of
`kernel_object.rs`, and descriptors are built as in `descriptor.rs`.
-/

namespace Nanami.Memory
open Nanami.Lib Function

abbrev CapabilityDescriptor := Nat

inductive CapabilityType where
  | node
  | generic
  deriving DecidableEq, Repr

/-! ## Object sizes and descriptors -/

/-- `radix_ceil`: the width of `value - 1`. -/
def radixCeil (value : Nat) : Nat := if value ≤ 1 then 0 else Nat.log2 (value - 1) + 1

def alignUp (value alignment : Nat) : Nat :=
  if alignment = 0 then value
  else wrappingAdd value (alignment - 1) &&& complement (alignment - 1)

def wordBytes : Nat := 8
def entryDataMax : Nat := 3

def capabilitySlotSize : Nat :=
  alignUp (wordBytes + wordBytes + entryDataMax * wordBytes + wordBytes + wordBytes + wordBytes)
    wordBits

def capabilityNodeSize : Nat := wordBytes + wordBytes + wordBytes + wordBytes

@[irreducible] def nodeMemorySizeBits (radixBits : Nat) : Nat :=
  let nodeAlignment := 2 ^ radixCeil capabilityNodeSize
  let slotAlignment := 2 ^ radixCeil capabilitySlotSize
  let alignedNodeSize := alignUp capabilityNodeSize nodeAlignment
  let slotArrayBase := alignUp alignedNodeSize slotAlignment
  let slotArraySize := capabilitySlotSize * 2 ^ radixBits
  radixCeil (slotArrayBase + slotArraySize)

/-- `memory_size_bits`, for the two kinds of object the manager creates one at a time. -/
def memorySizeBits : CapabilityType → Nat → Nat
  | .node, specificBits => nodeMemorySizeBits specificBits
  | .generic, specificBits => specificBits

def byteBits : Nat := 8

def descriptorDepth (descriptor : CapabilityDescriptor) : Nat :=
  ((descriptor >>> (wordBits - byteBits)) &&& (2 ^ byteBits - 1)) + byteBits

def makeRootSlotDescriptor (rootRadix slotIndex : Nat) : CapabilityDescriptor :=
  wrappingShl rootRadix (wordBits - byteBits) |||
    wrappingShl slotIndex (wordBits - byteBits - rootRadix)

def makeChildSlotDescriptor (nodeDescriptor nodeRadix slotIndex : Nat) : CapabilityDescriptor :=
  let commonOffsetBit := wordBits - byteBits
  let newDepth := descriptorDepth nodeDescriptor + nodeRadix
  let slotShift := wordBits - newDepth
  let depthMask := complement (wrappingShl (2 ^ byteBits - 1) commonOffsetBit)
  let slotMask := complement (wrappingShl (2 ^ nodeRadix - 1) slotShift)
  (nodeDescriptor &&& depthMask &&& slotMask) |||
    wrappingShl (newDepth - byteBits) commonOffsetBit ||| wrappingShl slotIndex slotShift

/-! ## Capabilities -/

/-- A capability to the memory `[base, base + size)`. `lineage` lists the capabilities it was
derived from, and `root` is the first of them, a Generic the system started with. -/
structure Capability where
  kind : CapabilityType
  base : Nat
  size : Nat
  watermark : Nat
  root : CapabilityDescriptor
  lineage : List CapabilityDescriptor
  deriving DecidableEq, Repr

namespace Capability

def stop (c : Capability) : Nat := c.base + c.size

end Capability

def firstAligned (value unit : Nat) : Nat := (value + (unit - 1)) / unit * unit

lemma le_firstAligned {value unit} (h : 0 < unit) : value ≤ firstAligned value unit := by
  have hd := Nat.div_add_mod (value + (unit - 1)) unit
  have hm := Nat.mod_lt (value + (unit - 1)) h
  rw [mul_comm] at hd
  unfold firstAligned
  omega

lemma firstAligned_eq {value unit start} (hd : unit ∣ start) (hle : value ≤ start)
    (hlt : start < value + unit) : firstAligned value unit = start := by
  obtain ⟨q, rfl⟩ := hd
  have hu : 0 < unit := by
    rcases eq_zero_or_pos unit with rfl | h
    · omega
    · exact h
  have e : (value + (unit - 1)) / unit = q := by
    rw [Nat.div_eq_iff hu, Nat.mul_comm]
    omega
  rw [firstAligned, e, mul_comm]

/-- The answer to one call: a refusal, and how many frames a refused batch has installed. -/
structure KernelAnswer where
  refusal : Option CapabilityError
  installed : Nat
  deriving DecidableEq, Repr

structure Kernel where
  slots : SortedMap CapabilityDescriptor Capability
  answers : Nat → KernelAnswer
  calls : Nat

namespace Kernel

def cap (k : Kernel) (d : CapabilityDescriptor) : Option Capability := k.slots.get? d

def answer (k : Kernel) : KernelAnswer := k.answers k.calls

def tick (k : Kernel) : Kernel := { k with calls := k.calls + 1 }

def put (d : CapabilityDescriptor) (c : Capability) (k : Kernel) : Kernel :=
  { k with slots := k.slots.insert d c }

def generic (k : Kernel) (d : CapabilityDescriptor) : Option Capability :=
  (k.cap d).filter (·.kind = .generic)

/-- `arch::generic::convert` of a single object into an empty slot. -/
def convert (source : CapabilityDescriptor) (kind : CapabilityType) (radix : Nat)
    (destination : CapabilityDescriptor) : EStateM CapabilityError Kernel Unit := do
  let k ← get
  set k.tick
  match k.answer.refusal with
  | some e => throw e
  | none =>
    let g ← okOr (k.generic source) .invalidDescriptor
    if (k.cap destination).isSome then throw .invalidArgument
    else
      let bytes := 2 ^ memorySizeBits kind radix
      let start := firstAligned g.watermark bytes
      if start + bytes ≤ g.stop then
        modify (put source { g with watermark := start + bytes })
        modify (put destination ⟨kind, start, bytes, start, g.root, source :: g.lineage⟩)
      else throw .invalidArgument

/-- `arch::generic::convert` of a batch of frames. A refused batch has used up the frames it has
installed. -/
def convertFrames (source : CapabilityDescriptor) (count : Nat) :
    EStateM CapabilityError Kernel Unit := do
  let k ← get
  set k.tick
  let g ← okOr (k.generic source) .invalidDescriptor
  let start := firstAligned g.watermark pageSize
  match k.answer.refusal with
  | some e =>
    let bytes := min k.answer.installed count * pageSize
    modify fun k => if start + bytes ≤ g.stop then put source { g with watermark := start + bytes } k
      else k
    throw e
  | none =>
    if start + count * pageSize ≤ g.stop then
      modify (put source { g with watermark := start + count * pageSize })
    else throw .invalidArgument

/-- `arch::node::revoke`: what was derived from the Generic is gone, and all of it is untyped
again. -/
def revoke (d : CapabilityDescriptor) : EStateM CapabilityError Kernel Unit := do
  let k ← get
  set k.tick
  match k.answer.refusal with
  | some e => throw e
  | none =>
    let g ← okOr (k.generic d) .invalidDescriptor
    modify fun k => { k with slots := k.slots.filter fun _ c => d ∉ c.lineage }
    modify (put d { g with watermark := g.base })

/-! ## What a call changes -/

variable {k : Kernel} {d : CapabilityDescriptor}

@[simp] lemma cap_tick : k.tick.cap = k.cap := rfl

@[simp] lemma cap_put {c} : (k.put d c).cap = update k.cap d (some c) := by
  funext d'
  simp only [cap, put, SortedMap.get?_insert, update_apply]

lemma generic_some {g} (h : k.generic d = some g) : k.cap d = some g ∧ g.kind = .generic := by
  simpa [generic, Option.filter_eq_some_iff] using h

/-- A conversion that succeeds has carved the first aligned block into an empty slot; one that
fails has changed nothing. -/
lemma convert_spec {source destination kind radix} :
    wp (convert source kind radix destination)
      (fun _ t => ∃ g, k.cap source = some g ∧ g.kind = .generic ∧ k.cap destination = none ∧
        firstAligned g.watermark (2 ^ memorySizeBits kind radix) + 2 ^ memorySizeBits kind radix
          ≤ g.stop ∧
        t.cap = update (update k.cap source (some { g with
            watermark := firstAligned g.watermark (2 ^ memorySizeBits kind radix) +
              2 ^ memorySizeBits kind radix })) destination
          (some ⟨kind, firstAligned g.watermark (2 ^ memorySizeBits kind radix),
            2 ^ memorySizeBits kind radix,
            firstAligned g.watermark (2 ^ memorySizeBits kind radix), g.root,
            source :: g.lineage⟩))
      (fun _ t => t.cap = k.cap) k := by
  simp only [convert, wp_bind, wp_get, wp_set]
  split
  · exact cap_tick
  · rw [wp_bind]
    refine wp_okOr (fun g hg => ?_) (fun _ => cap_tick)
    obtain ⟨hcap, hkind⟩ := generic_some hg
    refine wp_guard cap_tick fun hempty => wp_ite (fun hfit => ?_) (fun _ => cap_tick)
    exact ⟨g, hcap, hkind, by simpa using hempty, hfit, by simp⟩

lemma convertFrames_spec {source count} :
    wp (convertFrames source count)
      (fun _ t => ∃ g, k.cap source = some g ∧ t.cap = update k.cap source (some { g with
          watermark := firstAligned g.watermark pageSize + count * pageSize }))
      (fun _ t => t.cap = k.cap ∨ ∃ g w, k.cap source = some g ∧ g.watermark ≤ w ∧
        t.cap = update k.cap source (some { g with watermark := w })) k := by
  simp only [convertFrames, wp_bind]
  refine wp_okOr (fun g hg => ?_) (fun _ => .inl cap_tick)
  obtain ⟨hcap, _⟩ := generic_some hg
  have hle : g.watermark ≤ firstAligned g.watermark pageSize := le_firstAligned (by decide)
  split
  · split
    · exact .inr ⟨g, _, hcap, Nat.le_add_right_of_le hle, by rw [cap_put]; rfl⟩
    · exact .inl cap_tick
  · exact wp_ite (fun _ => ⟨g, hcap, by simp⟩) (fun _ => .inl cap_tick)

/-- Revoking removes the derived capabilities and resets the watermark. -/
lemma revoke_spec :
    wp (revoke d)
      (fun _ t => ∃ g, k.cap d = some g ∧ g.kind = .generic ∧
        t.cap = update (fun d' => (k.cap d').filter fun c => d ∉ c.lineage) d
          (some { g with watermark := g.base }))
      (fun _ t => t.cap = k.cap) k := by
  simp only [revoke, wp_bind, wp_get, wp_set]
  split
  · exact cap_tick
  · rw [wp_bind]
    refine wp_okOr (fun g hg => ?_) (fun _ => cap_tick)
    obtain ⟨hcap, hkind⟩ := generic_some hg
    refine ⟨g, hcap, hkind, ?_⟩
    rw [cap_put]
    congr 1
    funext d'
    exact SortedMap.get?_filter

end Kernel

end Nanami.Memory
