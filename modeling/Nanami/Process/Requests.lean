import Nanami.Process.References
import Nanami.Memory.Frames

/-!
# The requests that move physical memory

Model of the requests of Alpha (`alpha/memory_requests.rs`, `alpha/memory_pages.rs`,
`alpha/shared_memory.rs`, `alpha/process_requests.rs`) that allocate physical extents, refer to
them and give them back. What the kernel and the virtual memory tables answer is an argument: an
`Option CapabilityError` is the first error of a group of calls, or none.

Two fields are not in the source. `allocated` lists the extents that the memory manager has
returned, `handed` those that were handed to `free_physical`. No product of a page count wraps: an
extent lies inside the address space.
-/

namespace Nanami.Process
open Nanami.Lib Nanami.Memory ProcessManager

structure Alpha where
  memory : MemoryManager
  processes : ProcessManager
  allocated : List (Nat × Nat)
  handed : List (Nat × Nat)

/-- `align_up` to a page. -/
def alignUp (value : Nat) : Nat := Memory.alignUp value pageSize

def osMappingReleaseAllowHoles : Nat := 1

namespace Alpha

def onMemory {α : Type} (m : EStateM Failure MemoryManager α) : EStateM Failure Alpha α :=
  zoom Alpha.memory (fun t s => { s with memory := t }) m

def onProcesses {α : Type} (m : EStateM Failure ProcessManager α) : EStateM Failure Alpha α :=
  zoom Alpha.processes (fun t s => { s with processes := t }) m

def answer (failure : Option CapabilityError) : EStateM Failure Alpha Unit :=
  failure.elim (pure ()) fun e => throw (.error e)

def allocatePhysicalAny (sizeBytes : Nat) : EStateM Failure Alpha Nat := do
  let page ← onMemory (MemoryManager.allocatePhysicalAny sizeBytes)
  modify fun s => { s with allocated := (page, bytesToPages sizeBytes) :: s.allocated }
  return page

def freePhysical (basePage pageCount : Nat) : EStateM Failure Alpha Unit := do
  modify fun s => { s with handed := (basePage, pageCount) :: s.handed }
  onMemory (MemoryManager.freePhysical (basePage * pageSize) (pageCount * pageSize))

/-- `memory.allocate_process_frame`: a frame that cannot be copied to the process is given back. -/
def allocateProcessFrame (copied : Option CapabilityError) : EStateM Failure Alpha Nat := do
  let page ← allocatePhysicalAny pageSize
  match copied with
  | none => return page
  | some e =>
    let _ ← attempt (freePhysical page 1)
    throw (.error e)

/-! ## Private memory -/

def handleDmaRequest (pid sizeBytes : Nat) (place : Option (Nat × Nat))
    (installed : Option CapabilityError) : EStateM Failure Alpha (Nat × Nat) :=
  if pid = 0 then throw (.error .permissionDenied)
  else if sizeBytes = 0 then throw (.error .invalidArgument)
  else do
    let mappedSize := alignUp sizeBytes
    let _ ← okOr ((← get).processes.memoryEntry pid) (.error .invalidArgument)
    let (baseVa, startSlot) ← okOr place (.error .invalidArgument)
    let basePage ← allocatePhysicalAny mappedSize
    onProcesses (registerPhysicalAllocation pid baseVa startSlot basePage
      (mappedSize / pageSize))
    answer installed
    return (basePage * pageSize, baseVa)

def materializeLazyPage (pid pageVa frameSlot : Nat) (copied mapped : Option CapabilityError) :
    EStateM Failure Alpha Unit := do
  let page ← allocateProcessFrame copied
  onProcesses (registerPhysicalAllocation pid pageVa frameSlot page 1)
  answer mapped

/-- A page of an image or of a stack, and what the kernel answers to its frame and to its mapping. -/
structure LazyPage where
  pageVa : Nat
  frameSlot : Nat
  copied : Option CapabilityError
  mapped : Option CapabilityError
  deriving DecidableEq, Repr

/-- The pages of a new process, before it is in the table. -/
def materializeEach (pid : Nat) : List LazyPage → EStateM Failure Alpha Unit
  | [] => pure ()
  | page :: rest => do
    materializeLazyPage pid page.pageVa page.frameSlot page.copied page.mapped
    materializeEach pid rest

/-- `try_handle_demand_page_fault`, and each page of the new image in an `exec`. -/
def tryHandleDemandPageFault (pid pageVa frameSlot : Nat) (copied mapped : Option CapabilityError) :
    EStateM Failure Alpha Unit :=
  if pid = 0 then throw (.error .illegalOperation)
  else do
    let _ ← okOr ((← get).processes.findEntryByPid pid) (.error .invalidArgument)
    materializeLazyPage pid pageVa frameSlot copied mapped

/-! ## Shared memory -/

/-- `reserve_shared_mapping`: the owner of the memory and its reservation. -/
def reserveSharedMapping (pid pages : Nat) (place : Option (Nat × Nat)) :
    EStateM Failure Alpha (Nat × SharedMemoryReservation) := do
  let entry ← okOr ((← get).processes.memoryEntry pid) (.error .invalidArgument)
  let reservation ← onProcesses (reserveSharedMemoryAt pid pages place)
  return (entry.pid, reservation)

/-- `remove_shared_mapping`: the mapping and the frames first, then the reference, then the memory
if no other active reference is left. -/
def removeSharedMapping (pid : Nat) (r : SharedMemoryReservation)
    (removed : Option CapabilityError) : EStateM Failure Alpha Unit := do
  answer removed
  let (allocation, last) ←
    onProcesses (releasePhysicalAllocationReference pid r.baseVa r.pageCount)
  if last then freePhysical allocation.basePage r.pageCount
  onProcesses (recycleSharedMemory pid r)

/-- The reservation of the peer, if there is one; a failure gives up the caller's. -/
def reservePeer (pid peerPid pages : Nat) (reservation : SharedMemoryReservation)
    (place : Option (Nat × Nat)) : EStateM Failure Alpha (Option (Nat × SharedMemoryReservation)) :=
  if peerPid = 0 then pure none
  else do
    match ← attempt (reserveSharedMapping peerPid pages place) with
    | .ok peer => return some peer
    | .error e =>
      onProcesses (recycleSharedMemory pid reservation)
      throw e

def forMappings (f : Nat × SharedMemoryReservation → EStateM Failure Alpha Unit) :
    List (Nat × SharedMemoryReservation) → EStateM Failure Alpha Unit
  | [] => pure ()
  | m :: rest => do
    f m
    forMappings f rest

/-- The memory behind the mappings; a failure gives up their reservations. -/
def allocateShared (mappings : List (Nat × SharedMemoryReservation)) (bytes : Nat) :
    EStateM Failure Alpha Nat := do
  match ← attempt (allocatePhysicalAny bytes) with
  | .ok page => return page
  | .error e =>
    forMappings (fun m => onProcesses (recycleSharedMemory m.1 m.2)) mappings
    throw e

/-- `handle_shared_memory_request`; `removed` answers the rollback of each mapping. -/
def handleSharedMemoryRequest (pid peerPid sizeBytes : Nat) (place peerPlace : Option (Nat × Nat))
    (installed : Option CapabilityError)
    (removed : Nat × SharedMemoryReservation → Option CapabilityError) : EStateM Failure Alpha Unit :=
  if pid = 0 then throw (.error .permissionDenied)
  else if peerPid = pid || sizeBytes = 0 then throw (.error .invalidArgument)
  else do
    let sum ← okOr (checkedAdd sizeBytes (pageSize - 1)) (.error .invalidArgument)
    let bytes := sum &&& complement (pageSize - 1)
    let pages := bytes / pageSize
    let caller ← reserveSharedMapping pid pages place
    let peer ← reservePeer pid peerPid pages caller.2 peerPlace
    let mappings := caller :: peer.toList
    let basePage ← allocateShared mappings bytes
    forMappings (fun m => onProcesses (registerPhysicalAllocation m.1 m.2.baseVa
      m.2.startSlot basePage pages)) mappings
    match installed with
    | none => return
    | some e =>
      forMappings (fun m => do let _ ← attempt (removeSharedMapping m.1 m.2 (removed m))) mappings
      throw (.error e)

/-- Where the peer's mapping goes: at a free place, or where the peer's reaper asks for it. -/
def reserveShare (pid peerPid pages peerVa : Nat) (peer : ProcessEntry)
    (place : Option (Nat × Nat)) (vacant : Option CapabilityError) :
    EStateM Failure Alpha (Nat × SharedMemoryReservation) :=
  if peerVa = 0 then reserveSharedMapping peerPid pages place
  else if peer.reaperPid ≠ pid then throw (.error .permissionDenied)
  else do
    let entry ← okOr ((← get).processes.memoryEntry peerPid) (.error .invalidArgument)
    answer vacant
    let r ← onProcesses (reserveSharedMemoryAt peerPid pages
      (place.map fun place => (peerVa, place.2)))
    return (entry.pid, r)

def handleMappingShareRequest (pid peerPid sourceVa sizeBytes peerVa : Nat)
    (peerPlace : Option (Nat × Nat)) (present vacant installed removed : Option CapabilityError) :
    EStateM Failure Alpha Unit :=
  if pid = 0 then throw (.error .permissionDenied)
  else if peerPid = 0 || peerPid = pid || sourceVa = 0 || sourceVa &&& (pageSize - 1) != 0 ||
      sizeBytes = 0 || peerVa &&& (pageSize - 1) != 0 then
    throw (.error .invalidArgument)
  else do
    let sum ← okOr (checkedAdd sizeBytes (pageSize - 1)) (.error .invalidArgument)
    let pages := sum / pageSize
    let p := (← get).processes
    let allocation ← okOr (p.findActivePhysicalAllocationReference pid sourceVa pages)
      (.error .permissionDenied)
    let source ← okOr (p.findEntryByPid pid) (.error .invalidArgument)
    let peer ← okOr (p.findEntryByPid peerPid) (.error .invalidArgument)
    if source.exited || peer.exited then throw (.error .invalidArgument)
    else
      let _ ← okOr (p.memoryEntry pid) (.error .invalidArgument)
      answer present
      let (owner, reservation) ← reserveShare pid peerPid pages peerVa peer peerPlace vacant
      match ← attempt (onProcesses (registerPhysicalAllocation peerPid
          reservation.baseVa reservation.startSlot allocation.basePage pages)) with
      | .error e =>
        onProcesses (recycleSharedMemory peerPid reservation)
        throw e
      | .ok () =>
        match installed with
        | none => return
        | some e =>
          let _ ← attempt (removeSharedMapping owner reservation removed)
          throw (.error e)

/-! ## Releasing and mapping again -/

/-- The pages of a range that have references of their own, if the others may be holes. -/
def collectPages (p : ProcessManager) (pid baseVa : Nat) (allowHoles : Bool) (framed : Nat → Bool) :
    List Nat → Option (List ProcessPhysicalAllocation)
  | [] => some []
  | page :: pages =>
    let va := wrappingAdd baseVa (page * pageSize)
    match p.findActivePhysicalAllocationReference pid va 1 with
    | some allocation => (collectPages p pid baseVa allowHoles framed pages).map (allocation :: ·)
    | none =>
      if !allowHoles || framed va then none
      else collectPages p pid baseVa allowHoles framed pages

def releaseAndDefer (pid baseVa pageCount : Nat) : EStateM Failure Alpha Unit := do
  let (allocation, _) ←
    onProcesses (releasePhysicalAllocationReference pid baseVa pageCount)
  onProcesses (modify (deferPhysicalAllocationForPid pid allocation))

def releasePages (pid : Nat) : List ProcessPhysicalAllocation → EStateM Failure Alpha Unit
  | [] => pure ()
  | allocation :: rest => do
    releaseAndDefer pid allocation.baseVa 1
    releasePages pid rest

def handleMappingReleaseRequest (callerPid arg0 arg1 arg2 arg3 : Nat) (framed : Nat → Bool)
    (unmapped : Option CapabilityError) : EStateM Failure Alpha Unit :=
  if callerPid = 0 then throw (.error .permissionDenied)
  else do
    let targetPid := if arg2 = 0 then callerPid else arg2
    let baseVa := arg0
    let allowHoles := arg3 == osMappingReleaseAllowHoles
    if arg3 != 0 && !allowHoles then throw (.error .invalidArgument)
    else if arg1 = 0 || baseVa &&& (pageSize - 1) != 0 then throw (.error .invalidArgument)
    else
      let pageCount := alignUp arg1 / pageSize
      let p := (← get).processes
      let entry ← okOr (p.findEntryByPid targetPid) (.error .invalidArgument)
      if callerPid ≠ targetPid && entry.reaperPid ≠ callerPid then throw (.error .permissionDenied)
      else
        let exactAllocation := p.findActivePhysicalAllocationReference targetPid baseVa pageCount
        let entry ← okOr (p.memoryEntry targetPid) (.error .invalidArgument)
        match p.sharedMemoryReservation targetPid baseVa pageCount with
        | some reservation => removeSharedMapping entry.pid reservation unmapped
        | none =>
          match exactAllocation with
          | some _ =>
            answer unmapped
            releaseAndDefer targetPid baseVa pageCount
          | none =>
            let allocations ← okOr
              (collectPages p targetPid baseVa allowHoles framed (List.range pageCount))
              (.error .invalidArgument)
            answer unmapped
            releasePages targetPid allocations

/-- What the kernel answers for one page: to the copy of its frame, and to its mapping. -/
structure PageAnswer where
  copied : Option CapabilityError
  mapped : Option CapabilityError
  deriving DecidableEq, Repr

/-- A reused extent is registered again, page by page. -/
def registerPages (pid baseVa startSlot basePage : Nat) : List Nat → EStateM Failure Alpha Unit
  | [] => pure ()
  | i :: rest => do
    onProcesses (registerPhysicalAllocation pid (wrappingAdd baseVa (i * pageSize))
      (startSlot + i) (basePage + i) 1)
    registerPages pid baseVa startSlot basePage rest

/-- The loop of `map_process_initialized_pages`. -/
def mapPages (pid baseVa startSlot : Nat) (reused : Bool) (answers : Nat → PageAnswer) :
    List Nat → EStateM Failure Alpha Unit
  | [] => pure ()
  | i :: rest => do
    if reused then answer (answers i).copied
    else
      let page ← allocateProcessFrame (answers i).copied
      onProcesses (registerPhysicalAllocation pid (wrappingAdd baseVa (i * pageSize))
        (startSlot + i) page 1)
    answer (answers i).mapped
    mapPages pid baseVa startSlot reused answers rest

def mapProcessInitializedPages (pid : Nat) (place : Option (Nat × Nat)) (pageCount : Nat)
    (chunks : Option CapabilityError) (answers : Nat → PageAnswer) (framed : Nat → Bool)
    (unmapped : Option CapabilityError) : EStateM Failure Alpha Nat := do
  let bytes ← okOr (checkedMul pageCount pageSize) (.error .invalidArgument)
  if pid == 0 || pageCount == 0 then throw (.error .invalidArgument)
  else
    let _ ← okOr ((← get).processes.memoryEntry pid) (.error .invalidArgument)
    let (baseVa, startSlot) ← okOr place (.error .invalidArgument)
    answer chunks
    let reuse ← onProcesses (takeDeferredPhysicalAllocation pid baseVa pageCount)
    reuse.elim (pure ()) fun allocation =>
      registerPages pid baseVa startSlot allocation.basePage (List.range pageCount)
    match ← attempt (mapPages pid baseVa startSlot reuse.isSome answers (List.range pageCount)) with
    | .ok () => return baseVa
    | .error e =>
      handleMappingReleaseRequest pid baseVa bytes pid osMappingReleaseAllowHoles framed unmapped
      throw e

/-- A page of a fork: its place in the child, and what the kernel answers. -/
structure ClonedPage where
  place : Option (Nat × Nat)
  chunks : Option CapabilityError
  page : PageAnswer
  framed : Nat → Bool
  unmapped : Option CapabilityError
  restricted : Option CapabilityError

/-- `clone_process_vm`: the child has no page yet, so each backed page of the parent is mapped. -/
def cloneProcessVm (pid : Nat) : List ClonedPage → EStateM Failure Alpha Unit
  | [] => pure ()
  | clone :: rest => do
    let _ ← mapProcessInitializedPages pid clone.place 1 clone.chunks (fun _ => clone.page) clone.framed
      clone.unmapped
    answer clone.restricted
    cloneProcessVm pid rest

/-! ## The end of a process image -/

/-- `free_deferred_process_allocations`: errors are ignored. -/
def freeIgnoring : List ProcessPhysicalAllocation → EStateM Failure Alpha Unit
  | [] => pure ()
  | a :: rest => do
    let _ ← attempt (freePhysical a.basePage a.pageCount)
    freeIgnoring rest

def freeDeferredProcessAllocations (pid : Nat) : EStateM Failure Alpha Unit := do
  freeIgnoring ((← get).processes.releasableDeferredPhysicalAllocationsForPid pid)
  onProcesses (modify (dropDeferredPhysicalAllocationsForPid pid))

def freeEach : List ProcessPhysicalAllocation → EStateM Failure Alpha Unit
  | [] => pure ()
  | a :: rest => do
    freePhysical a.basePage a.pageCount
    freeEach rest

def dropProcessRuntimeMappings (pid : Nat) (invalidated : Option CapabilityError) :
    EStateM Failure Alpha Unit := do
  answer invalidated
  let removed ← onProcesses (resetRuntimeMemoryForExec pid)
  freeEach ((removed.filter fun r => r.2).map Prod.fst)
  freeDeferredProcessAllocations pid

/-- `handle_process_exec_memory_request`, up to the new image, whose pages are requests of their
own. -/
def handleProcessExecMemoryRequest (callerPid targetPid : Nat)
    (readable invalidated : Option CapabilityError) : EStateM Failure Alpha Unit :=
  if callerPid = 0 || targetPid = 0 then throw (.error .invalidArgument)
  else do
    let p := (← get).processes
    let target ← okOr (p.findEntryByPid targetPid) (.error .invalidArgument)
    if target.reaperPid ≠ callerPid && targetPid ≠ callerPid then throw (.error .permissionDenied)
    else if target.memoryOwner ≠ target.pid || p.hasMemoryPeers target.pid then
      throw (.error .illegalOperation)
    else
      answer readable
      dropProcessRuntimeMappings targetPid invalidated

/-- What `handle_process_reap_request` does to the memory of a task and to its references. -/
def releaseReaped (pid : Nat) : EStateM Failure Alpha Unit := do
  freeEach ((← get).processes.releasablePhysicalAllocationsForPid pid)
  freeDeferredProcessAllocations pid
  onProcesses (modify (dropPhysicalAllocationsForPid pid))

/-- What `cleanup_failed_spawn` does to them; the references are dropped with the task. -/
def releaseFailed (pid : Nat) : EStateM Failure Alpha Unit := do
  freeIgnoring ((← get).processes.releasablePhysicalAllocationsForPid pid)
  freeDeferredProcessAllocations pid

/-! ## The requests -/

/-- The requests of Alpha that move physical memory. -/
inductive Request where
  | sessionBuffer (pages : Nat)
  | dma (pid sizeBytes : Nat) (place : Option (Nat × Nat)) (installed : Option CapabilityError)
  | pageFault (pid pageVa frameSlot : Nat) (copied mapped : Option CapabilityError)
  | sharedMemory (pid peerPid sizeBytes : Nat) (place peerPlace : Option (Nat × Nat))
      (installed : Option CapabilityError)
      (removed : Nat × SharedMemoryReservation → Option CapabilityError)
  | mappingShare (pid peerPid sourceVa sizeBytes peerVa : Nat) (peerPlace : Option (Nat × Nat))
      (present vacant installed removed : Option CapabilityError)
  | mappingRelease (callerPid arg0 arg1 arg2 arg3 : Nat) (framed : Nat → Bool)
      (unmapped : Option CapabilityError)
  | mapPages (pid : Nat) (place : Option (Nat × Nat)) (pageCount : Nat)
      (chunks : Option CapabilityError) (answers : Nat → PageAnswer) (framed : Nat → Bool)
      (unmapped : Option CapabilityError)

def step (s : Alpha) : Request → Alpha
  | .sessionBuffer pages => stateAfter (allocatePhysicalAny (pages * pageSize)) s
  | .dma pid bytes place installed => stateAfter (handleDmaRequest pid bytes place installed) s
  | .pageFault pid va slot copied mapped =>
    stateAfter (tryHandleDemandPageFault pid va slot copied mapped) s
  | .sharedMemory pid peer bytes place peerPlace installed removed =>
    stateAfter (handleSharedMemoryRequest pid peer bytes place peerPlace installed removed) s
  | .mappingShare pid peer va bytes peerVa place present vacant installed removed =>
    stateAfter (handleMappingShareRequest pid peer va bytes peerVa place present vacant installed
      removed) s
  | .mappingRelease caller arg0 arg1 arg2 arg3 framed unmapped =>
    stateAfter (handleMappingReleaseRequest caller arg0 arg1 arg2 arg3 framed unmapped) s
  | .mapPages pid place n chunks answers framed unmapped =>
    stateAfter (mapProcessInitializedPages pid place n chunks answers framed unmapped) s

/-! ## What is handed back -/

variable {s : Alpha} {l : List ProcessPhysicalAllocation}

lemma freePhysical_handed {k} :
    ends (freePhysical k.1 k.2) (fun t => t.handed = k :: s.handed ∧ t.processes = s.processes) s := by
  rw [ends, freePhysical, wp_update, onMemory, wp_zoom]
  exact wp_of_run (fun _ _ _ => ⟨rfl, rfl⟩) (fun _ _ _ => ⟨rfl, rfl⟩)

lemma freeEach_handed :
    wp (freeEach l) (fun _ t => t.handed = (l.map (·.key)).reverse ++ s.handed ∧
      t.processes = s.processes) (fun _ t => t.processes = s.processes) s := by
  induction l generalizing s with
  | nil => exact ⟨rfl, rfl⟩
  | cons a l ih =>
    refine wp_then (freePhysical_handed (k := a.key)) (fun _ t ht => ?_) (fun _ _ h => h.2)
    refine wp_mono ih (fun _ u hu => ⟨?_, hu.2.trans ht.2⟩) (fun _ _ hu => hu.trans ht.2)
    simp [hu.1, ht.1]

lemma freeIgnoring_handed :
    sure (freeIgnoring l) (fun _ t => t.handed = (l.map (·.key)).reverse ++ s.handed ∧
      t.processes = s.processes) s := by
  induction l generalizing s with
  | nil => exact ⟨rfl, rfl⟩
  | cons a l ih =>
    rw [sure, freeIgnoring, wp_try]
    refine wp_mono (freePhysical_handed (k := a.key)) (fun _ t ht => ?_) (fun _ t ht => ?_) <;>
    · refine wp_post ih (fun _ u hu => ⟨?_, hu.2.trans ht.2⟩)
      simp [hu.1, ht.1]

end Alpha

end Nanami.Process
