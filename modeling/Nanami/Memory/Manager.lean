import Nanami.Memory.Kernel
import Nanami.Memory.PhysicalAllocator

/-!
# The memory manager

Model of `MemoryManager` (`memory.rs`) as far as it derives capabilities from untyped memory: the
capability directory and the metadata pools (`memory/directory.rs`), the untyped sources
(`memory/sources.rs`), the frame ranges (`memory/frames.rs`) and the partitions of child Alphas
(`memory/delegation.rs`). Page tables and process arenas are left out.

The kernel is a field of the manager's state, so that a run has its capabilities beside the tables
that describe them. `pools` remembers every metadata pool the manager has had; the code keeps the
last one only. A lookup the code would panic on fails with `Failure.panic`.
-/

namespace Nanami.Memory
open Nanami.Lib

inductive Failure where
  | error (e : CapabilityError)
  | panic
  deriving DecidableEq, Repr

/-! ## Data -/

def physicalLeafRadix : Nat := 11
def physicalChunkRadix : Nat := pageBits + physicalLeafRadix
def physicalChunkSize : Nat := 2 ^ physicalChunkRadix
def frameLeafPoolRadix : Nat := physicalChunkRadix

def directoryRadix : Nat := 8
def directoryLevels : Nat := 4
def directorySlots : Nat := 2 ^ directoryRadix
def directoryNodeBytes : Nat := 2 ^ nodeMemorySizeBits directoryRadix

def refillReserveBytes : Nat :=
  2 * directoryLevels * directoryNodeBytes + 2 * 2 ^ nodeMemorySizeBits physicalLeafRadix

def resourceDevice : Nat := 1

structure MemoryResource where
  capability : CapabilityDescriptor
  address : Nat
  sizeRadix : Nat
  flags : Nat
  consumedBytes : Nat
  deriving DecidableEq, Repr

namespace MemoryResource

def empty : MemoryResource := ⟨0, 0, 0, 0, 0⟩

def isDevice (r : MemoryResource) : Bool := r.flags &&& resourceDevice != 0

end MemoryResource

structure Slot where
  node : CapabilityDescriptor
  index : Nat
  deriving DecidableEq, Repr

def Slot.descriptor (slot : Slot) : CapabilityDescriptor :=
  makeChildSlotDescriptor slot.node directoryRadix slot.index

structure CapabilityDirectory where
  spine : List CapabilityDescriptor
  prefixes : List (Option Nat)
  next : Nat
  deriving DecidableEq, Repr

def CapabilityDirectory.new (root : CapabilityDescriptor) : CapabilityDirectory :=
  ⟨[root, 0, 0, 0], [some 0, none, none, none], 0⟩

structure NodePool where
  descriptor : CapabilityDescriptor
  consumed : Nat
  deriving DecidableEq, Repr

structure PhysicalSource where
  stop : Nat
  descriptor : CapabilityDescriptor
  deriving DecidableEq, Repr

structure FrameRange where
  basePage : Nat
  pageCount : Nat
  radix : Nat
  source : CapabilityDescriptor
  node : Option CapabilityDescriptor
  ready : Bool
  failed : Bool
  deriving DecidableEq, Repr

def FrameRange.contains (range : FrameRange) (page : Nat) : Bool :=
  range.basePage ≤ page && page - range.basePage < range.pageCount

inductive DelegationState where
  | reserved
  | prepared
  | handedOff
  | reclaimed
  deriving DecidableEq, Repr

structure DelegationInfo where
  address : Nat
  bytes : Nat
  state : DelegationState
  deriving DecidableEq, Repr

structure Delegation where
  info : DelegationInfo
  initialIndex : Nat
  authority : Option Slot
  resources : List MemoryResource
  deriving DecidableEq, Repr

def Delegation.overlaps (d : Delegation) (address bytes : Nat) : Bool :=
  d.info.state != .reclaimed && address < saturatingAdd d.info.address d.info.bytes &&
    d.info.address < saturatingAdd address bytes

structure MemoryManager where
  rootDescriptor : CapabilityDescriptor
  rootRadix : Nat
  kernelObjectGeneric : CapabilityDescriptor
  capabilityDirectory : CapabilityDirectory
  nodePool : NodePool
  pools : List CapabilityDescriptor
  bootstrapFrames : Option FrameRange
  physicalFrames : SortedMap Nat FrameRange
  physicalSources : SortedMap (Nat ×ₗ Nat) PhysicalSource
  physicalAllocator : Option PhysicalAllocator
  initialGenerics : List MemoryResource
  initialGenericConsumedBytes : List Nat
  initialGenericDelegatedBytes : List Nat
  delegations : List Delegation
  kernel : Kernel

def checkedAlignUp (value align : Nat) : Option Nat :=
  (checkedAdd value (align - 1)).map (· &&& complement (align - 1))

def checkedPow2 (bits : Nat) : Option Nat := checkedShl 1 bits

def mapPhysicalAllocError : PhysicalAllocError → CapabilityError
  | .invalidArgument => .invalidArgument
  | .permissionDenied => .permissionDenied
  | .outOfMemory => .invalidArgument

namespace MemoryManager

def onKernel {α : Type} (m : EStateM CapabilityError Kernel α) : EStateM Failure MemoryManager α :=
  adapt .error (zoom kernel (fun k s => { s with kernel := k }) m)

/-- A call on the allocator once there is one; its result is a value. -/
def callAllocator {α : Type} (m : EStateM PhysicalAllocError PhysicalAllocator α) :
    EStateM Failure MemoryManager (Except PhysicalAllocError α) := do
  let allocator ← okOr (← get).physicalAllocator (.error .invalidArgument)
  match m allocator with
  | .ok a t =>
    modify fun s => { s with physicalAllocator := some t }
    return .ok a
  | .error e t =>
    modify fun s => { s with physicalAllocator := some t }
    return .error e

/-- `map_err(map_physical_alloc_error)?`. -/
def orFail {α : Type} : Except PhysicalAllocError α → EStateM Failure MemoryManager α
  | .ok a => pure a
  | .error e => throw (.error (mapPhysicalAllocError e))

def initialGeneric (s : MemoryManager) (index : Nat) : MemoryResource :=
  s.initialGenerics.getD index .empty

end MemoryManager

/-! ## Metadata: pools and the directory -/

namespace NodePool

def new (descriptor : CapabilityDescriptor) : NodePool := ⟨descriptor, 0⟩

def remaining (pool : NodePool) : Nat := 2 ^ frameLeafPoolRadix - pool.consumed

def allocationEnd (pool : NodePool) (bytes : Nat) : Option Nat :=
  (((checkedAlignUp pool.consumed bytes).bind (checkedAdd · bytes))).filter
    (· ≤ 2 ^ frameLeafPoolRadix)

end NodePool

namespace MemoryManager

/-- `NodePool::convert`. -/
def poolConvert (kind : CapabilityType) (radix bytes : Nat) (slot : Slot) :
    EStateM Failure MemoryManager Unit := do
  let s ← get
  let stop ← okOr (s.nodePool.allocationEnd bytes) (.error .invalidArgument)
  onKernel (Kernel.convert s.nodePool.descriptor kind radix slot.descriptor)
  modify fun s => { s with nodePool := { s.nodePool with consumed := stop } }

def createNode (radix : Nat) (slot : Slot) : EStateM Failure MemoryManager Unit :=
  poolConvert .node radix (2 ^ nodeMemorySizeBits radix) slot

/-- The loop of `CapabilityDirectory::allocate` that grows the spine, over the levels to visit. -/
def growSpine : List Nat → EStateM Failure MemoryManager Unit
  | [] => pure ()
  | level :: levels => do
    let directory := (← get).capabilityDirectory
    let shift := (directoryLevels - level) * directoryRadix
    let branch := directory.next >>> shift
    if directory.prefixes.getD level none ≠ some branch then
      let slot : Slot := ⟨directory.spine.getD (level - 1) 0, branch &&& (directorySlots - 1)⟩
      createNode directoryRadix slot
      modify fun s => { s with capabilityDirectory := { s.capabilityDirectory with
        spine := s.capabilityDirectory.spine.set level slot.descriptor
        prefixes := s.capabilityDirectory.prefixes.set level (some branch) } }
      growSpine levels
    else growSpine levels

/-- `CapabilityDirectory::allocate`. -/
def allocateSlot : EStateM Failure MemoryManager Slot := do
  let directory := (← get).capabilityDirectory
  let depth := descriptorDepth (directory.spine.getD 0 0)
  if depth + directoryLevels * directoryRadix + physicalLeafRadix > wordBits ||
      directory.next ≥ 2 ^ (directoryLevels * directoryRadix) then
    throw (.error .invalidArgument)
  else
    growSpine [1, 2, 3]
    let directory := (← get).capabilityDirectory
    modify fun s => { s with capabilityDirectory := { s.capabilityDirectory with
      next := s.capabilityDirectory.next + 1 } }
    return ⟨directory.spine.getD (directoryLevels - 1) 0, directory.next &&& (directorySlots - 1)⟩

/-! ## Untyped sources -/

/-- `self.physical_sources.insert(..)`. -/
def insertSource (index start : Nat) (source : PhysicalSource) (s : MemoryManager) : MemoryManager :=
  { s with physicalSources := s.physicalSources.insert (toLex (index, start)) source }

def retainSource (index start : Nat) (source : PhysicalSource) (s : MemoryManager) : MemoryManager :=
  if start < source.stop then insertSource index start source s else s

/-- `self.physical_sources.remove(..)`. -/
def removeSource (index start : Nat) (s : MemoryManager) : MemoryManager :=
  { s with physicalSources := s.physicalSources.erase (toLex (index, start)) }

def sourceRange (s : MemoryManager) (index address : Nat) : Option (Nat × Nat) :=
  match s.physicalSources.lastBetween (toLex (index, 0)) (toLex (index, address)) with
  | none => none
  | some (key, source) => if address < source.stop then some ((ofLex key).2, source.stop) else none

end MemoryManager

/-- `usize::trailing_zeros`, over the given number of bits. -/
def trailingZeros : Nat → Nat → Nat
  | 0, _ => 0
  | bits + 1, value => if value % 2 = 1 then 0 else trailingZeros bits (value / 2) + 1

def prefixRadix (start stop : Nat) : Option Nat :=
  match checkedSub stop start with
  | none => none
  | some remaining =>
    if remaining < pageSize || start &&& (pageSize - 1) != 0 || stop &&& (pageSize - 1) != 0 then none
    else some (min (trailingZeros wordBits start) (Nat.log2 remaining))

/-- The loop of `containing_block`, over the radixes to try. -/
def containingBlockIn (start stop address : Nat) : List Nat → Option (Nat × Nat)
  | [] => none
  | radix :: radixes =>
    let bytes := 2 ^ radix
    let base := address &&& complement (bytes - 1)
    if base ≥ start && (checkedAdd base bytes).any (· ≤ stop) then some (base, radix)
    else containingBlockIn start stop address radixes

def containingBlock (start stop address : Nat) : Option (Nat × Nat) :=
  containingBlockIn start stop address
    (List.range' pageBits (physicalChunkRadix + 1 - pageBits)).reverse

namespace MemoryManager

/-- The loop of `take_physical_source_slot`: what lies before `address` is split off in aligned
blocks, and each block is a source again. -/
def takePrefixes (index address cursor : Nat) : EStateM Failure MemoryManager Nat :=
  if _h : cursor < address then
    match prefixRadix cursor address with
    | none => throw (.error .invalidArgument)
    | some radix => do
      let source ← okOr ((← get).physicalSources.get? (toLex (index, cursor))) .panic
      let slot ← allocateSlot
      onKernel (Kernel.convert source.descriptor .generic radix slot.descriptor)
      let next := cursor + 2 ^ radix
      modify (removeSource index cursor)
      modify (retainSource index cursor ⟨next, slot.descriptor⟩)
      modify (retainSource index next source)
      takePrefixes index address next
  else pure cursor
termination_by address - cursor
decreasing_by
  have := Nat.two_pow_pos radix
  omega

def takePhysicalSourceSlot (index address radix : Nat) : EStateM Failure MemoryManager Slot := do
  let bytes ← okOr (checkedPow2 radix) (.error .invalidArgument)
  let (cursor, stop) ← okOr ((← get).sourceRange index address) (.error .invalidArgument)
  if address &&& (bytes - 1) != 0 || (checkedAdd address bytes).all (stop < ·) then
    throw (.error .invalidArgument)
  else
    let cursor ← takePrefixes index address cursor
    let source ← okOr ((← get).physicalSources.get? (toLex (index, cursor))) .panic
    let slot ← allocateSlot
    onKernel (Kernel.convert source.descriptor .generic radix slot.descriptor)
    modify (removeSource index cursor)
    modify (retainSource index (cursor + bytes) source)
    return slot

def takePhysicalSource (index address radix : Nat) :
    EStateM Failure MemoryManager CapabilityDescriptor := do
  return (← takePhysicalSourceSlot index address radix).descriptor

def freePhysical (physicalAddress sizeBytes : Nat) : EStateM Failure MemoryManager Unit := do
  if (← get).delegations.any (·.overlaps physicalAddress sizeBytes) then
    throw (.error .permissionDenied)
  else orFail (← callAllocator (PhysicalAllocator.free physicalAddress sizeBytes))

/-- The inner loop of `refill_metadata_pool`: the chunks of one source, from the last. -/
def scanChunks (start base : Nat) : EStateM Failure MemoryManager (Option Nat) :=
  if base ≥ start then do
    match ← callAllocator (PhysicalAllocator.allocateAt base physicalChunkSize false) with
    | .ok _ => return some base
    | .error _ =>
      if _h : base ≥ physicalChunkSize then scanChunks start (base - physicalChunkSize)
      else return none
  else return none
termination_by base
decreasing_by
  have : 0 < physicalChunkSize := Nat.two_pow_pos _
  omega

/-- The outer loop of `refill_metadata_pool`, over the sources to visit. -/
def selectChunk : List ((Nat ×ₗ Nat) × PhysicalSource) →
    EStateM Failure MemoryManager (Option (Nat × Nat))
  | [] => return none
  | (key, source) :: rest => do
    let (index, start) := ofLex key
    if ((← get).initialGeneric index).isDevice then selectChunk rest
    else
      match checkedSub source.stop physicalChunkSize with
      | none => selectChunk rest
      | some value =>
        match ← scanChunks start (value &&& complement (physicalChunkSize - 1)) with
        | some base => return some (index, base)
        | none => selectChunk rest

def refillMetadataPool : EStateM Failure MemoryManager Unit := do
  let selected ← selectChunk (← get).physicalSources.entries.reverse
  let (index, base) ← okOr selected (.error .invalidArgument)
  match ← attempt (takePhysicalSource index base frameLeafPoolRadix) with
  | .ok descriptor =>
    modify fun s => { s with nodePool := .new descriptor, pools := descriptor :: s.pools }
  | .error .panic => throw .panic
  | .error (.error e) =>
    freePhysical base physicalChunkSize
    throw (.error e)

def ensureMetadataCapacity : EStateM Failure MemoryManager Unit := do
  if (← get).nodePool.remaining ≥ refillReserveBytes then pure ()
  else refillMetadataPool

end MemoryManager

end Nanami.Memory
