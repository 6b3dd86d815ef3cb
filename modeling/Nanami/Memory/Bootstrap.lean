import Nanami.Memory.Frames

/-!
# Boot

How the memory manager comes into being: the environment a launcher passes (`uapi/alpha.rs`), the
pools `MemoryManager::bootstrap` carves out of the bootstrap Generic, the frames of Alpha's heap
(`prepare_bootstrap_frames`), and the tables `initialize_physical_allocator` sets up. Of the
environment only the resources and what `bootstrap` reads are modelled.
-/

namespace Nanami.Memory
open Nanami.Lib

/-! ## The environment -/

namespace MemoryResource

def sizeBytes (r : MemoryResource) : Option Nat :=
  if r.sizeRadix ≥ wordBits then none else some (2 ^ r.sizeRadix)

def validate (r : MemoryResource) : Bool :=
  match r.sizeBytes with
  | none => false
  | some size =>
    !(r.capability == 0 || r.flags &&& complement resourceDevice != 0 ||
      (checkedAdd r.address size).isNone || r.consumedBytes > size)

end MemoryResource

structure AlphaEnvironment where
  capabilitySpace : CapabilityDescriptor
  rootRadix : Nat
  resources : List MemoryResource
  bootstrapResource : Nat
  deriving DecidableEq, Repr

namespace AlphaEnvironment

/-- The loop of `validate` over the resources: each is valid, and none repeats a capability. -/
def validateResources : List CapabilityDescriptor → List MemoryResource → Bool
  | _, [] => true
  | seen, r :: rest =>
    r.validate && !seen.contains r.capability && validateResources (r.capability :: seen) rest

def validate (e : AlphaEnvironment) : Bool :=
  !(e.capabilitySpace == 0 || e.rootRadix == 0 || e.rootRadix > wordBits - byteBits) &&
    validateResources [] e.resources &&
    match e.resources[e.bootstrapResource]? with
    | none => false
    | some r => !(r.isDevice || some r.consumedBytes == r.sizeBytes)

end AlphaEnvironment

/-- The capability the launcher has installed for a resource: what it has consumed is below the
watermark. -/
def MemoryResource.installed (r : MemoryResource) : Capability :=
  ⟨.generic, r.address, 2 ^ r.sizeRadix, r.address + r.consumedBytes, r.capability, []⟩

def initialSlots : List MemoryResource → SortedMap CapabilityDescriptor Capability
  | [] => .empty
  | r :: rest => (initialSlots rest).insert r.capability r.installed

/-! ## `MemoryManager::bootstrap` -/

def kernelObjectPoolRadix : Nat := 27
def pageTablePoolRadix : Nat := 10
def processArenaDirectoryRadix : Nat := 12

def physicalGenericDirectorySlotCandidates : List Nat := [1024, 1025, 1026, 1027]
def kernelObjectPoolSlotCandidates : List Nat := [1028, 1029, 1030, 1031]
def initialFrameLeafPoolSlotCandidates : List Nat := [1040, 1041, 1042, 1043]
def physicalFrameDirectorySlotCandidates : List Nat := [1100, 1101, 1102, 1103]
def pageTablePoolSlotCandidates : List Nat := [1200, 1201, 1202, 1203]
def pageTableGenericSlotCandidates : List Nat := [1204, 1205, 1206, 1207]
def processArenaDirectorySlotCandidates : List Nat := [1210, 1211, 1212, 1213]

def nextInitialGenericAllocation (generic : MemoryResource) (consumedBytes requiredSizeBits : Nat) :
    Option (Nat × Nat) := do
  let base := generic.address
  let size ← checkedPow2 generic.sizeRadix
  let stop ← checkedAdd base size
  let unit ← checkedPow2 requiredSizeBits
  let current ← checkedAdd base (min consumedBytes size)
  let allocationBase ← checkedAlignUp current unit
  let allocationEnd ← checkedAdd allocationBase unit
  if allocationEnd > stop then none else some (allocationBase, allocationEnd - base)

/-- The loop over slot candidates: an `InvalidArgument` moves on to the next one. -/
def convertIntoRoot (rootRadix : Nat) (source : CapabilityDescriptor) (kind : CapabilityType)
    (radix : Nat) : List Nat → EStateM CapabilityError Kernel CapabilityDescriptor
  | [] => throw .invalidArgument
  | slot :: rest => do
    let descriptor := makeRootSlotDescriptor rootRadix slot
    match ← attempt (Kernel.convert source kind radix descriptor) with
    | .ok () => return descriptor
    | .error .invalidArgument => convertIntoRoot rootRadix source kind radix rest
    | .error e => throw e

def createRootNode (rootRadix : Nat) (generic : CapabilityDescriptor) (nodeRadix : Nat)
    (slotCandidates : List Nat) : EStateM CapabilityError Kernel CapabilityDescriptor :=
  convertIntoRoot rootRadix generic .node nodeRadix slotCandidates

/-- `create_generic_from_initial_generic` and `create_root_node_from_initial_generic`: the object
is carved out of an initial Generic, and what that Generic has consumed is recorded. -/
def createFromInitialGeneric (kind : CapabilityType) (resources : List MemoryResource)
    (rootRadix genericIndex radix : Nat) (slotCandidates consumed : List Nat) :
    EStateM CapabilityError Kernel (CapabilityDescriptor × List Nat) := do
  let requiredSizeBits := memorySizeBits kind radix
  let g ← okOr resources[genericIndex]? .invalidArgument
  if g.isDevice || g.sizeRadix < requiredSizeBits then throw .invalidArgument
  else
    let (_, newConsumedBytes) ← okOr
      (nextInitialGenericAllocation g (consumed.getD genericIndex 0) requiredSizeBits)
      .invalidArgument
    let descriptor ← convertIntoRoot rootRadix g.capability kind radix slotCandidates
    return (descriptor, consumed.set genericIndex newConsumedBytes)

/-- The prefix of a resource that `bootstrap` counts as consumed: whole pages, unless the resource
is smaller than a page. -/
def consumedPrefix (r : MemoryResource) : Option Nat :=
  if r.sizeRadix ≥ pageBits then
    (checkedAdd r.consumedBytes (pageSize - 1)).map (· &&& complement (pageSize - 1))
  else some r.consumedBytes

/-- The loop of `bootstrap` over the resources. -/
def consumedPrefixes : List MemoryResource → Option (List Nat)
  | [] => some []
  | r :: rest =>
    if r.validate then
      match consumedPrefix r, consumedPrefixes rest with
      | some c, some cs => some (c :: cs)
      | _, _ => none
    else none

def bootstrap (e : AlphaEnvironment) : EStateM CapabilityError Kernel MemoryManager := do
  let root := e.capabilitySpace
  if e.bootstrapResource ≥ e.resources.length then throw .invalidArgument
  else
    let consumed ← okOr (consumedPrefixes e.resources) .invalidArgument
    let (kernelObjectGeneric, consumed) ← createFromInitialGeneric .generic e.resources e.rootRadix
      e.bootstrapResource kernelObjectPoolRadix kernelObjectPoolSlotCandidates consumed
    let (initialFrameLeafPool, consumed) ← createFromInitialGeneric .generic e.resources e.rootRadix
      e.bootstrapResource frameLeafPoolRadix initialFrameLeafPoolSlotCandidates consumed
    let (physicalGenericDirectory, consumed) ← createFromInitialGeneric .node e.resources e.rootRadix
      e.bootstrapResource directoryRadix physicalGenericDirectorySlotCandidates consumed
    let _ ← createRootNode e.rootRadix kernelObjectGeneric pageTablePoolRadix
      pageTablePoolSlotCandidates
    let _ ← createRootNode e.rootRadix kernelObjectGeneric pageTablePoolRadix
      pageTableGenericSlotCandidates
    let _ ← createRootNode e.rootRadix kernelObjectGeneric processArenaDirectoryRadix
      processArenaDirectorySlotCandidates
    return {
      rootDescriptor := root
      rootRadix := e.rootRadix
      kernelObjectGeneric
      capabilityDirectory := .new physicalGenericDirectory
      nodePool := .new initialFrameLeafPool
      pools := [initialFrameLeafPool]
      bootstrapFrames := none
      physicalFrames := .empty
      physicalSources := .empty
      physicalAllocator := none
      initialGenerics := e.resources
      initialGenericConsumedBytes := consumed
      initialGenericDelegatedBytes := consumed
      delegations := []
      kernel := ← get }

/-! ## Frames of the heap, allocator and sources -/

namespace MemoryManager

def prepareBootstrapFrames (index address pages : Nat) : EStateM Failure MemoryManager Unit := do
  let s ← get
  if s.bootstrapFrames.isSome || pages == 0 || index ≥ s.initialGenerics.length then
    throw (.error .invalidArgument)
  else
    let generic := s.initialGeneric index
    let base := generic.address
    let bytes ← okOr (checkedMul pages pageSize) (.error .invalidArgument)
    let stop ← okOr (checkedAdd address bytes) (.error .invalidArgument)
    let size ← okOr (checkedPow2 generic.sizeRadix) (.error .invalidArgument)
    let sourceEnd ← okOr (checkedAdd base size) (.error .invalidArgument)
    if generic.isDevice || address &&& (pageSize - 1) != 0 ||
        address != base + s.initialGenericDelegatedBytes.getD index 0 || stop > sourceEnd then
      throw (.error .invalidArgument)
    else
      let radix ← okOr (ceilLog2 pages) (.error .invalidArgument)
      let node ← onKernel (createRootNode s.rootRadix s.kernelObjectGeneric radix
        physicalFrameDirectorySlotCandidates)
      onKernel (Kernel.convertFrames generic.capability pages)
      modify fun s => { s with
        initialGenericDelegatedBytes := s.initialGenericDelegatedBytes.set index (stop - base)
        bootstrapFrames := some
          ⟨address >>> pageBits, pages, radix, generic.capability, some node, true, false⟩ }

/-- One round of the loop of `initialize_physical_allocator`. -/
def addGeneric (g : MemoryResource) (consumedBytes : Nat) :
    EStateM PhysicalAllocError PhysicalAllocator Unit := do
  if g.sizeRadix < pageBits || g.isDevice then pure ()
  else
    let sizeBytes := 2 ^ g.sizeRadix
    let consumed := min consumedBytes sizeBytes
    if consumed ≠ 0 then PhysicalAllocator.addRegion g.address consumed g.isDevice true
    if consumed < sizeBytes then
      let freeStart := saturatingAdd g.address consumed
      let freeSize := sizeBytes - consumed
      if freeStart = 0 then
        let reserved := min pageSize freeSize
        PhysicalAllocator.addRegion 0 reserved g.isDevice true
        if freeSize - reserved ≠ 0 then
          PhysicalAllocator.addRegion reserved (freeSize - reserved) g.isDevice false
      else PhysicalAllocator.addRegion freeStart freeSize g.isDevice false

/-- The loop of `initialize_physical_allocator`. -/
def addGenerics : List MemoryResource → List Nat → EStateM PhysicalAllocError PhysicalAllocator Unit
  | [], _ => pure ()
  | g :: generics, consumed => do
    addGeneric g (consumed.headD 0)
    addGenerics generics consumed.tail

/-- The loop of `initialize_physical_sources`, from an index on. -/
def addSources : Nat → List MemoryResource → List Nat → EStateM Failure MemoryManager Unit
  | _, [], _ => pure ()
  | index, g :: generics, delegated => do
    if g.sizeRadix < pageBits then addSources (index + 1) generics delegated.tail
    else
      let size ← okOr (checkedPow2 g.sizeRadix) (.error .invalidArgument)
      let stop ← okOr (checkedAdd g.address size) (.error .invalidArgument)
      let start ← okOr (checkedAdd g.address (delegated.headD 0)) (.error .invalidArgument)
      modify (retainSource index start ⟨stop, g.capability⟩)
      addSources (index + 1) generics delegated.tail

def initializePhysicalAllocator : EStateM Failure MemoryManager Unit := do
  let s ← get
  match addGenerics s.initialGenerics s.initialGenericConsumedBytes PhysicalAllocator.new with
  | .error e _ => throw (.error (mapPhysicalAllocError e))
  | .ok () allocator =>
    addSources 0 s.initialGenerics s.initialGenericDelegatedBytes
    modify fun s => { s with physicalAllocator := some allocator }

end MemoryManager

/-- Alpha's boot: the environment is checked, the manager bootstraps, the heap gets its frames, and
the allocator and the sources are set up. The heap is described by the index of its Generic, its
address and its pages. -/
def boot (e : AlphaEnvironment) (answers : Nat → KernelAnswer) (heap : Nat × Nat × Nat) :
    Option MemoryManager :=
  if e.validate then
    match bootstrap e ⟨initialSlots e.resources, answers, 0⟩ with
    | .error _ _ => none
    | .ok manager _ =>
      match (do
        MemoryManager.prepareBootstrapFrames heap.1 heap.2.1 heap.2.2
        MemoryManager.initializePhysicalAllocator : EStateM Failure MemoryManager Unit) manager with
      | .error _ _ => none
      | .ok () s => some s
  else none

end Nanami.Memory
