import Nanami.Memory.Manager

/-!
# References to physical memory

Model of `PhysicalAllocations` (`process/physical_allocations.rs`) and of the part of
`ProcessManager` (`process.rs`, `process/shared_memory.rs`) that counts references to physical
extents. A reference says that a process has an extent mapped (active) or has released its mapping
and may map it again (deferred). References to one extent are those with one base page and one page
count; the two tables count them separately.

The linked lists and the hash index of the source are a list of entries here, newest first. The
addresses and the frame slots that a reservation is given are arguments.
-/

namespace Nanami.Process
open Nanami.Lib Nanami.Memory

structure ProcessPhysicalAllocation where
  baseVa : Nat
  startSlot : Nat
  basePage : Nat
  pageCount : Nat
  deriving DecidableEq, Repr

def ProcessPhysicalAllocation.key (a : ProcessPhysicalAllocation) : Nat × Nat :=
  (a.basePage, a.pageCount)

structure PhysicalAllocations where
  entries : List (Nat × ProcessPhysicalAllocation)
  deriving DecidableEq, Repr

namespace PhysicalAllocations

/-- `insert`: the new entry is the first of its process. -/
def insert (pid : Nat) (allocation : ProcessPhysicalAllocation) (t : PhysicalAllocations) :
    PhysicalAllocations := ⟨(pid, allocation) :: t.entries⟩

def forPid (t : PhysicalAllocations) (pid : Nat) : List ProcessPhysicalAllocation :=
  (t.entries.filter fun e => e.1 == pid).map Prod.snd

/-- `count`: the references of all processes to the extent. -/
def count (t : PhysicalAllocations) (allocation : ProcessPhysicalAllocation) : Nat :=
  t.entries.countP fun e => e.2.key == allocation.key

def isAt (pid baseVa pageCount : Nat) (e : Nat × ProcessPhysicalAllocation) : Bool :=
  e.1 == pid && (e.2.baseVa == baseVa && e.2.pageCount == pageCount)

def find (t : PhysicalAllocations) (pid baseVa pageCount : Nat) : Option ProcessPhysicalAllocation :=
  (t.entries.find? (isAt pid baseVa pageCount)).map Prod.snd

/-- `take`: the reference and whether it was the last one of this table. -/
def take (pid baseVa pageCount : Nat) (t : PhysicalAllocations) :
    Option ((ProcessPhysicalAllocation × Bool) × PhysicalAllocations) :=
  (t.find pid baseVa pageCount).map fun allocation =>
    ((allocation, t.count allocation == 1), ⟨t.entries.eraseP (isAt pid baseVa pageCount)⟩)

/-- The loop of `remove_pid` over the references of a process. -/
def removeEach (pid : Nat) : List ProcessPhysicalAllocation → PhysicalAllocations →
    List (ProcessPhysicalAllocation × Bool) × PhysicalAllocations
  | [], t => ([], t)
  | a :: rest, t =>
    let (removed, u) := removeEach pid rest ⟨t.entries.erase (pid, a)⟩
    ((a, t.count a == 1) :: removed, u)

def removePid (pid : Nat) (t : PhysicalAllocations) :
    List (ProcessPhysicalAllocation × Bool) × PhysicalAllocations :=
  removeEach pid (t.forPid pid) t

end PhysicalAllocations

structure SharedMemoryReservation where
  baseVa : Nat
  startSlot : Nat
  pageCount : Nat
  deriving DecidableEq, Repr

structure ProcessEntry where
  pid : Nat
  reaperPid : Nat
  memoryOwner : Nat
  exited : Bool
  deriving DecidableEq, Repr

structure ProcessManager where
  entries : SortedMap Nat ProcessEntry
  nextPid : Nat
  physicalAllocations : PhysicalAllocations
  deferredPhysicalAllocations : PhysicalAllocations
  sharedMemory : SortedMap (Nat ×ₗ Nat) SharedMemoryReservation

namespace ProcessManager

def findEntryByPid (p : ProcessManager) (pid : Nat) : Option ProcessEntry := p.entries.get? pid

def memoryOwnerPid (p : ProcessManager) (pid : Nat) : Nat :=
  (p.findEntryByPid pid).elim pid (·.memoryOwner)

def memoryEntry (p : ProcessManager) (pid : Nat) : Option ProcessEntry :=
  p.findEntryByPid (p.memoryOwnerPid pid)

def hasMemoryPeers (p : ProcessManager) (pid : Nat) : Bool :=
  p.entries.entries.any fun e => e.2.pid != pid && e.2.memoryOwner == p.memoryOwnerPid pid

/-! ## Processes -/

def shareAddressSpace (pid source : Nat) : EStateM Failure ProcessManager Unit := do
  let p ← get
  let entry ← okOr (p.findEntryByPid pid) (.error .invalidArgument)
  set { p with entries := p.entries.insert pid { entry with memoryOwner := p.memoryOwnerPid source } }

def markExited (pid : Nat) : EStateM Failure ProcessManager Unit := do
  let p ← get
  let entry ← okOr (p.findEntryByPid pid) (.error .invalidArgument)
  set { p with entries := p.entries.insert pid { entry with exited := true } }

/-! ## References -/

def registerPhysicalAllocation (pid baseVa startSlot basePage pageCount : Nat) :
    EStateM Failure ProcessManager Unit := do
  let p ← get
  let pid := p.memoryOwnerPid pid
  if pid == 0 || pageCount == 0 then throw (.error .invalidArgument)
  else
    set { p with physicalAllocations :=
      p.physicalAllocations.insert pid ⟨baseVa, startSlot, basePage, pageCount⟩ }

def findActivePhysicalAllocationReference (p : ProcessManager) (pid baseVa pageCount : Nat) :
    Option ProcessPhysicalAllocation :=
  p.physicalAllocations.find (p.memoryOwnerPid pid) baseVa pageCount

def releasePhysicalAllocationReference (pid baseVa pageCount : Nat) :
    EStateM Failure ProcessManager (ProcessPhysicalAllocation × Bool) := do
  let p ← get
  let (taken, table) ← okOr (p.physicalAllocations.take (p.memoryOwnerPid pid) baseVa pageCount)
    (.error .invalidArgument)
  set { p with physicalAllocations := table }
  return taken

def deferPhysicalAllocationForPid (pid : Nat) (allocation : ProcessPhysicalAllocation)
    (p : ProcessManager) : ProcessManager :=
  { p with deferredPhysicalAllocations :=
      p.deferredPhysicalAllocations.insert (p.memoryOwnerPid pid) allocation }

def takeDeferredPhysicalAllocation (pid baseVa pageCount : Nat) :
    EStateM Failure ProcessManager (Option ProcessPhysicalAllocation) := do
  let p ← get
  match p.deferredPhysicalAllocations.take (p.memoryOwnerPid pid) baseVa pageCount with
  | none => return none
  | some ((allocation, _), table) =>
    set { p with deferredPhysicalAllocations := table }
    return some allocation

def releasablePhysicalAllocationsForPid (p : ProcessManager) (pid : Nat) :
    List ProcessPhysicalAllocation :=
  (p.physicalAllocations.forPid pid).filter fun a => p.physicalAllocations.count a == 1

def releasableDeferredPhysicalAllocationsForPid (p : ProcessManager) (pid : Nat) :
    List ProcessPhysicalAllocation :=
  (p.deferredPhysicalAllocations.forPid pid).filter fun a =>
    p.physicalAllocations.count a + p.deferredPhysicalAllocations.count a == 1

def dropDeferredPhysicalAllocationsForPid (pid : Nat) (p : ProcessManager) : ProcessManager :=
  { p with deferredPhysicalAllocations := (p.deferredPhysicalAllocations.removePid pid).2 }

/-- The reservations of a process are forgotten: `shared_memory.remove(&pid)`. -/
def removeSharedMemory (pid : Nat) (p : ProcessManager) : ProcessManager :=
  { p with sharedMemory := p.sharedMemory.filter fun k _ => (ofLex k).1 != pid }

def dropPhysicalAllocationsForPid (pid : Nat) (p : ProcessManager) : ProcessManager :=
  { p.removeSharedMemory pid with
    physicalAllocations := (p.physicalAllocations.removePid pid).2
    deferredPhysicalAllocations := (p.deferredPhysicalAllocations.removePid pid).2 }

/-- `reset_runtime_memory_for_exec`: the references of the process with their last flags. -/
def resetRuntimeMemoryForExec (pid : Nat) :
    EStateM Failure ProcessManager (List (ProcessPhysicalAllocation × Bool)) := do
  let p ← get
  let entry ← okOr (p.findEntryByPid pid) (.error .invalidArgument)
  let (removed, table) := p.physicalAllocations.removePid pid
  set { p.removeSharedMemory pid with
    entries := p.entries.insert pid { entry with exited := false }
    physicalAllocations := table }
  return removed

/-! ## Shared mappings -/

/-- `reserve_shared_memory_at`, with the address and the frame slot that are free, if any are. -/
def reserveSharedMemoryAt (pid pageCount : Nat) (place : Option (Nat × Nat)) :
    EStateM Failure ProcessManager SharedMemoryReservation := do
  let p ← get
  let pid := p.memoryOwnerPid pid
  let _ ← okOr (p.findEntryByPid pid) (.error .invalidArgument)
  if pid == 0 || pageCount == 0 then throw (.error .invalidArgument)
  else
    let (baseVa, startSlot) ← okOr place (.error .invalidArgument)
    let endVa ← okOr ((checkedMul pageCount pageSize).bind (checkedAdd baseVa)) (.error .invalidArgument)
    -- the last reservation that starts below the end of the new one
    if (p.sharedMemory.lastBetween (toLex (pid, 0)) (toLex (pid, endVa - 1))).any fun e =>
        baseVa < e.2.baseVa + e.2.pageCount * pageSize then
      throw (.error .illegalOperation)
    else
      let reservation := ⟨baseVa, startSlot, pageCount⟩
      set { p with sharedMemory := p.sharedMemory.insert (toLex (pid, baseVa)) reservation }
      return reservation

def sharedMemoryReservation (p : ProcessManager) (pid baseVa pageCount : Nat) :
    Option SharedMemoryReservation :=
  (p.sharedMemory.get? (toLex (p.memoryOwnerPid pid, baseVa))).filter (·.pageCount == pageCount)

/-- `recycle_shared_memory`; a reservation that is not there is a panic. -/
def recycleSharedMemory (pid : Nat) (reservation : SharedMemoryReservation) :
    EStateM Failure ProcessManager Unit := do
  let p ← get
  let key := toLex (p.memoryOwnerPid pid, reservation.baseVa)
  if p.sharedMemory.get? key = some reservation then
    set { p with sharedMemory := p.sharedMemory.erase key }
  else throw .panic

end ProcessManager

end Nanami.Process
