import Nanami.Memory.Manager

/-!
# Frame ranges and delegations

The operations of the memory manager that take untyped memory out of the sources for good: a frame
range is materialized on demand around an address (`memory/frames.rs`), and a partition is reserved
for a child Alpha, handed over once, and reclaimed by revoking its outer Generic
(`memory/delegation.rs`).
-/

namespace Nanami.Memory
open Nanami.Lib

namespace MemoryManager

/-! ## Frames -/

def frameRange (s : MemoryManager) (page : Nat) : Option FrameRange :=
  match s.bootstrapFrames.filter (·.contains page) with
  | some range => some range
  | none => ((s.physicalFrames.lastBetween 0 page).map Prod.snd).filter (·.contains page)

/-- `self.physical_frames.insert(range.base_page, range)`. -/
def insertFrameRange (range : FrameRange) (s : MemoryManager) : MemoryManager :=
  { s with physicalFrames := s.physicalFrames.insert range.basePage range }

/-- The first half of `complete_frame_range`: the node that will hold the frames. -/
def ensureFrameNode (range : FrameRange) : EStateM Failure MemoryManager FrameRange :=
  match range.node with
  | some _ => return range
  | none => do
    ensureMetadataCapacity
    let slot ← allocateSlot
    createNode range.radix slot
    let range := { range with node := some slot.descriptor }
    modify (insertFrameRange range)
    return range

/-- `complete_frame_range`. A batch that failed is not tried again. -/
def completeFrameRange (range : FrameRange) : EStateM Failure MemoryManager Unit := do
  if range.ready then pure ()
  else if range.failed then throw (.error .invalidArgument)
  else
    let range ← ensureFrameNode range
    match ← attempt (onKernel (Kernel.convertFrames range.source range.pageCount)) with
    | .ok () => modify (insertFrameRange { range with ready := true, failed := false })
    | .error e =>
      modify (insertFrameRange { range with ready := false, failed := true })
      throw e

def materializeFrameRange (index address : Nat) : EStateM Failure MemoryManager Unit := do
  match (← get).frameRange (address >>> pageBits) with
  | some range => completeFrameRange range
  | none =>
    ensureMetadataCapacity
    let (start, stop) ← okOr ((← get).sourceRange index address) (.error .invalidArgument)
    let (base, radix) ← okOr (containingBlock start stop address) (.error .invalidArgument)
    let source ← takePhysicalSource index base radix
    let range : FrameRange :=
      ⟨base >>> pageBits, 2 ^ (radix - pageBits), max (radix - pageBits) 1, source, none, false, false⟩
    modify (insertFrameRange range)
    completeFrameRange range

def delegatedRange (s : MemoryManager) (address bytes : Nat) : Bool :=
  s.delegations.any (·.overlaps address bytes)

/-- `min_by_key`: the first index with the smallest key. -/
def minByKey (key : Nat → Nat) : List Nat → Option Nat
  | [] => none
  | index :: rest =>
    match minByKey key rest with
    | none => some index
    | some best => if key best < key index then some best else some index

def ensureAlphaFrameAtPhysicalIndex (page : Nat) : EStateM Failure MemoryManager Unit := do
  let s ← get
  match s.frameRange page with
  | some range => completeFrameRange range
  | none =>
    let address ← okOr (checkedMul page pageSize) (.error .invalidArgument)
    if s.delegatedRange address pageSize then throw (.error .permissionDenied)
    else
      let candidates := (List.range s.initialGenerics.length).filter fun index =>
        !(s.initialGeneric index).isDevice && (s.sourceRange index address).isSome
      let index ← okOr (minByKey (fun index => (s.initialGeneric index).sizeRadix) candidates)
        (.error .invalidArgument)
      materializeFrameRange index address

/-! ## Physical allocation -/

/-- `initial_range_is_device`, from the generics still to visit. -/
def rangeIsDevice (physicalAddress sizeBytes : Nat) : List MemoryResource → Bool
  | [] => false
  | g :: rest =>
    if physicalAddress ≥ g.address &&
        saturatingAdd physicalAddress sizeBytes ≤ saturatingAdd g.address (2 ^ g.sizeRadix) then
      g.isDevice
    else rangeIsDevice physicalAddress sizeBytes rest

def initialRangeIsDevice (s : MemoryManager) (physicalAddress sizeBytes : Nat) : Bool :=
  sizeBytes != 0 && rangeIsDevice physicalAddress sizeBytes s.initialGenerics

def allocatePhysicalAt (physicalAddress sizeBytes : Nat) (allowDevice : Bool) :
    EStateM Failure MemoryManager Nat := do
  match ← callAllocator (PhysicalAllocator.allocateAt physicalAddress sizeBytes allowDevice) with
  | .ok allocation => return allocation.basePage
  | .error .outOfMemory =>
    if allowDevice && (← get).initialRangeIsDevice physicalAddress sizeBytes then
      return physicalAddress >>> pageBits
    else throw (.error .invalidArgument)
  | .error e => throw (.error (mapPhysicalAllocError e))

def allocatePhysicalAny (sizeBytes : Nat) : EStateM Failure MemoryManager Nat := do
  return (← orFail (← callAllocator (PhysicalAllocator.allocateAny sizeBytes))).basePage

/-! ## Delegations -/

/-- The loop of `reserve_alpha_memory` that selects an extent, over the sources to visit. -/
def selectExtent (bytes : Nat) : List ((Nat ×ₗ Nat) × PhysicalSource) →
    EStateM Failure MemoryManager (Option (Nat × Nat))
  | [] => return none
  | (key, source) :: rest => do
    let (index, start) := ofLex key
    if ((← get).initialGeneric index).isDevice then selectExtent bytes rest
    else
      match ← callAllocator (PhysicalAllocator.allocateAlignedInRange start source.stop bytes) with
      | .ok allocation => return some (index, wrappingShl allocation.basePage pageBits)
      | .error _ => selectExtent bytes rest

def alterDelegation (index : Nat) (f : Delegation → Delegation) (s : MemoryManager) : MemoryManager :=
  { s with delegations := s.delegations.modify index f }

/-- The loop of `reserve_alpha_memory` that cuts the partition into resources. -/
def cutResources (index : Nat) (authority : Slot) :
    List Nat → Nat → EStateM Failure MemoryManager Unit
  | [], _ => pure ()
  | radix :: radixes, address => do
    let slot ← allocateSlot
    onKernel (Kernel.convert authority.descriptor .generic radix slot.descriptor)
    modify (alterDelegation index fun d =>
      { d with resources := d.resources ++ [⟨slot.descriptor, address, radix, 0, 0⟩] })
    cutResources index authority radixes (address + 2 ^ radix)

/-- `reserve_alpha_memory`. The record is there before any conversion can fail. -/
def reserveAlphaMemory (radix : Nat) : EStateM Failure MemoryManager Nat := do
  if radix < 29 || radix ≥ wordBits then throw (.error .invalidArgument)
  else
    let bytes := 2 ^ radix
    ensureMetadataCapacity
    let selected ← selectExtent bytes (← get).physicalSources.entries
    let (initialIndex, address) ← okOr selected (.error .invalidArgument)
    let index := (← get).delegations.length
    modify fun s => { s with
      delegations := s.delegations ++ [⟨⟨address, bytes, .reserved⟩, initialIndex, none, []⟩] }
    let authority ← takePhysicalSourceSlot initialIndex address radix
    modify (alterDelegation index fun d => { d with authority := some authority })
    cutResources index authority (28 :: List.range' 28 (radix - 28)) address
    modify (alterDelegation index fun d => { d with info := { d.info with state := .prepared } })
    return index + 1

def takeDelegatedResources (id : Nat) : EStateM Failure MemoryManager (List MemoryResource) := do
  let index ← okOr (checkedSub id 1) (.error .invalidArgument)
  let record ← okOr (← get).delegations[index]? (.error .invalidArgument)
  if record.info.state ≠ .prepared then throw (.error .illegalOperation)
  else
    modify (alterDelegation index fun d => { d with info := { d.info with state := .handedOff } })
    return record.resources

def reclaimDelegation (id : Nat) : EStateM Failure MemoryManager Unit := do
  let index ← okOr (checkedSub id 1) (.error .invalidArgument)
  let record ← okOr (← get).delegations[index]? (.error .invalidArgument)
  if record.info.state = .reclaimed then throw (.error .illegalOperation)
  else
    let authority ← okOr record.authority (.error .illegalOperation)
    onKernel (Kernel.revoke authority.descriptor)
    modify (insertSource record.initialIndex record.info.address
      ⟨record.info.address + record.info.bytes, authority.descriptor⟩)
    orFail (← callAllocator (PhysicalAllocator.free record.info.address record.info.bytes))
    modify (alterDelegation index fun d => { d with info := { d.info with state := .reclaimed } })

end MemoryManager

end Nanami.Memory
