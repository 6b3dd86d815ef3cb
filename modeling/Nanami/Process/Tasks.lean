import Nanami.Process.Requests
import Nanami.Memory.Bootstrap

/-!
# The tasks of an address space

Model of the life of a task (`alpha/process_requests.rs`, `alpha/threads.rs`, `process.rs`): a
process is spawned with a memory of its own, a raw task is a fork or a thread over the memory of
another task, and a task is killed, exits, replaces its image and is reaped. The model of Alpha's
memory is below it: `alpha` holds the process table and the references.

What the kernel answers is an argument, as before. The checks of sessions and of managed mappings
are an argument too. Two fields are the kernel's own state: `rootNodes` says whether a root slot holds
a root node, with the address space of the task in it, and `arenasUsed` whether anything was made
from the arena of a slot since it was reset. The page tables of an address space stand under the
root slot of its task, since the descriptor of the address space is a function of that slot.

Three fields are not in the source. `members` lists the tasks that were in the table after a request,
each with the owner of its memory, `reaped` the tasks whose reap was answered with success, and
`broken` the tasks whose teardown failed once the kernel had revoked their root node.
-/

namespace Nanami.Process
open Nanami.Lib Nanami.Memory ProcessManager

def processRootSlotBase : Nat := 200
def processArenaDirectorySlots : Nat := 2 ^ processArenaDirectoryRadix

/-- The fields of a `ProcessEntry` that the life of a task depends on, besides those of the model of
references. -/
structure TaskInfo where
  rootSlot : Nat
  deferredVmReap : Bool
  resourceQuarantined : Bool
  deriving DecidableEq, Repr

structure Tasks where
  alpha : Alpha
  info : Nat → TaskInfo
  rootSlotLimit : Nat
  reservedRootSlots : List Nat
  usedRootSlots : List Nat
  arenasReady : Nat → Bool
  rootNodes : Nat → Bool
  arenasUsed : Nat → Bool
  pageTables : Nat → List Nat
  freePageTables : List Nat
  members : List (Nat × Nat)
  reaped : List Nat
  broken : List Nat

/-- What the kernel and the communication tables answer to a teardown. -/
structure TearDownAnswers where
  bound : Bool
  invalidated : Option CapabilityError
  revoked : Option CapabilityError
  removed : Option CapabilityError
  table : Nat → Option CapabilityError
  reset : Option CapabilityError

/-- What the kernel answers to the creation of a task, and to its clean-up if it fails. -/
structure CreateAnswers where
  arena : Option CapabilityError
  rooted : Option CapabilityError
  built : Option CapabilityError
  malformed : Option CapabilityError
  attached : Option CapabilityError
  cleanup : TearDownAnswers

def validateProcessObserver (callerPid targetPid reaperPid : Nat) : Bool :=
  callerPid = targetPid || reaperPid = 0 || callerPid = reaperPid

namespace Tasks

def processes (s : Tasks) : ProcessManager := s.alpha.processes

def setProcesses (p : ProcessManager) (s : Tasks) : Tasks :=
  { s with alpha := { s.alpha with processes := p } }

def onAlpha {α : Type} (m : EStateM Failure Alpha α) : EStateM Failure Tasks α :=
  zoom Tasks.alpha (fun t s => { s with alpha := t }) m

def onProcesses {α : Type} (m : EStateM Failure ProcessManager α) : EStateM Failure Tasks α :=
  zoom Tasks.processes setProcesses m

def answer (failure : Option CapabilityError) : EStateM Failure Tasks Unit :=
  failure.elim (pure ()) fun e => throw (.error e)

def setInfo (pid : Nat) (i : TaskInfo) (s : Tasks) : Tasks :=
  { s with info := Function.update s.info pid i }

/-! ## Teardown -/

def removeRootNode (slot : Nat) (s : Tasks) : Tasks :=
  { s with rootNodes := Function.update s.rootNodes slot false }

def emptyArena (slot : Nat) (s : Tasks) : Tasks :=
  { s with arenasUsed := Function.update s.arenasUsed slot false }

def freeTable (slot table : Nat) (rest : List Nat) (s : Tasks) : Tasks :=
  { s with
    pageTables := Function.update s.pageTables slot rest
    freePageTables := table :: s.freePageTables }

/-- The loop of `PageTables::release`, over the slots of an address space from the last one. -/
def releaseTables (slot : Nat) (table : Nat → Option CapabilityError) :
    List Nat → EStateM Failure Tasks Unit
  | [] => pure ()
  | t :: rest => do
    -- a table that the kernel keeps stays with the address space
    answer (table t)
    modify (freeTable slot t rest)
    releaseTables slot table rest

def releasePageTables (slot : Nat) (table : Nat → Option CapabilityError) :
    EStateM Failure Tasks Unit := do
  releaseTables slot table ((← get).pageTables slot)

def resetProcessArena (slot : Nat) (reset : Option CapabilityError) : EStateM Failure Tasks Unit := do
  if slot ≥ processArenaDirectorySlots || !(← get).arenasReady slot then return
  else
    answer reset
    modify (emptyArena slot)

def removeEntry (pid : Nat) (s : Tasks) : Tasks :=
  { s.setProcesses (dropPhysicalAllocationsForPid pid
      { s.processes with entries := s.processes.entries.erase pid }) with
    usedRootSlots := s.usedRootSlots.erase (s.info pid).rootSlot }

def reapProcess (pid : Nat) : EStateM Failure Tasks Unit :=
  if pid = 0 then throw (.error .permissionDenied)
  else do
    let s ← get
    let entry ← okOr (s.processes.findEntryByPid pid) (.error .invalidArgument)
    if !entry.exited then throw (.error .illegalOperation)
    else if (s.info pid).resourceQuarantined then throw (.error .fatal)
    else modify (removeEntry pid)

def breaking {α : Type} (pid : Nat) (m : EStateM Failure Tasks α) : EStateM Failure Tasks α := do
  match ← attempt m with
  | .ok a => return a
  | .error e =>
    modify fun s => { s with broken := pid :: s.broken }
    throw e

/-- The part of `handle_process_reap_request` after the kernel has revoked the root node. -/
def tearDown (pid slot : Nat) (k : TearDownAnswers) : EStateM Failure Tasks Unit := do
  answer k.removed
  modify (removeRootNode slot)
  releasePageTables slot k.table
  onAlpha (Alpha.releaseReaped pid)
  resetProcessArena slot k.reset
  reapProcess pid

/-! ## Reaping -/

def deferVmReap (pid : Nat) (s : Tasks) : Tasks :=
  s.setInfo pid { s.info pid with deferredVmReap := true }

/-- The owner whose reap was deferred until its last peer was reaped, if the task was that peer. -/
def deferredOwner (pid : Nat) (entry : ProcessEntry) (s : Tasks) : Option Nat :=
  if entry.memoryOwner = pid then none
  else ((s.processes.findEntryByPid entry.memoryOwner).filter fun owner =>
    (s.info owner.pid).deferredVmReap && !s.processes.hasMemoryPeers owner.pid).map (·.pid)

/-- `handle_process_reap_request` up to its call of itself: the owner to reap next, if any. -/
def reapTask (callerPid pid : Nat) (k : TearDownAnswers) : EStateM Failure Tasks (Option Nat) :=
  if callerPid = 0 then throw (.error .permissionDenied)
  else if pid = 0 then throw (.error .invalidArgument)
  else do
    let s ← get
    let entry ← okOr (s.processes.findEntryByPid pid) (.error .invalidArgument)
    if !validateProcessObserver callerPid entry.pid entry.reaperPid then
      throw (.error .permissionDenied)
    else if !entry.exited then throw (.error .illegalOperation)
    else if entry.memoryOwner = pid && s.processes.hasMemoryPeers pid then
      modify (deferVmReap pid)
      return none
    else if (s.info pid).resourceQuarantined || k.bound then throw (.error .fatal)
    else
      answer k.invalidated
      answer k.revoked
      breaking pid (tearDown pid (s.info pid).rootSlot k)
      return deferredOwner pid entry (← get)

/-- `handle_process_reap_request`: the reap of the last peer is followed by that of the owner, under
the same caller. The owner of a memory has no other owner, so it ends there. -/
def handleProcessReapRequest (callerPid pid : Nat) (k ownerAnswers : TearDownAnswers) :
    EStateM Failure Tasks Unit := do
  match ← reapTask callerPid pid k with
  | none => return
  | some owner =>
    match ← reapTask callerPid owner ownerAnswers with
    | none => return
    | some _ => throw .panic

/-! ## Creation -/

@[irreducible] def freeRootSlot (s : Tasks) : Option Nat :=
  (List.range' processRootSlotBase (s.rootSlotLimit - processRootSlotBase)).find? fun slot =>
    !s.reservedRootSlots.contains slot && !s.usedRootSlots.contains slot

def allocProcessSlot : EStateM Failure Tasks (Nat × Nat) := do
  let s ← get
  let slot ← okOr s.freeRootSlot (.error .invalidArgument)
  modify fun s => { s with usedRootSlots := slot :: s.usedRootSlots }
  let next ← okOr (checkedAdd s.processes.nextPid 1) (.error .invalidArgument)
  modify fun s => s.setProcesses { s.processes with nextPid := next }
  return (s.processes.nextPid, slot)

def ensureProcessArena (slot : Nat) (made : Option CapabilityError) : EStateM Failure Tasks Unit := do
  if slot ≥ processArenaDirectorySlots then throw (.error .invalidArgument)
  else if (← get).arenasReady slot then return
  else
    answer made
    modify fun s => { s with arenasReady := Function.update s.arenasReady slot true }

def makeRootNode (slot : Nat) (s : Tasks) : Tasks :=
  { s with
    rootNodes := Function.update s.rootNodes slot true
    arenasUsed := Function.update s.arenasUsed slot true }

def installProcess (pid reaperPid slot : Nat) (s : Tasks) : Tasks :=
  (s.setProcesses { s.processes with
    entries := s.processes.entries.insert pid ⟨pid, reaperPid, pid, false⟩ }).setInfo pid
      ⟨slot, false, false⟩

def discardProcessArtifacts (pid slot : Nat) (s : Tasks) : Tasks :=
  { s.setProcesses (dropPhysicalAllocationsForPid pid s.processes) with
    usedRootSlots := s.usedRootSlots.erase slot }

/-- `cleanup_failed_spawn` once the kernel has revoked or removed the root node. -/
def cleanUp (pid slot : Nat) (k : TearDownAnswers) : EStateM Failure Tasks Unit := do
  modify fun s => if k.removed.isNone then s.removeRootNode slot else s
  answer k.revoked
  answer k.removed
  releasePageTables slot k.table
  resetProcessArena slot k.reset
  onAlpha (Alpha.releaseFailed pid)
  if ((← get).processes.findEntryByPid pid).isSome then
    let _ ← attempt (onProcesses (markExited pid))
    let _ ← attempt (reapProcess pid)
  else modify (discardProcessArtifacts pid slot)

/-- `cleanup_failed_spawn`: the node is removed whatever its revocation answers, and nothing else
happens unless both succeed. -/
def cleanupFailedSpawn (pid slot : Nat) (k : TearDownAnswers) : EStateM Failure Tasks Unit :=
  if k.invalidated.isSome || (k.revoked.isSome && k.removed.isSome) then return
  else do
    let _ ← attempt (breaking pid (cleanUp pid slot k))

def orCleanUp (pid slot : Nat) (k : TearDownAnswers) (m : EStateM Failure Tasks Unit) :
    EStateM Failure Tasks Unit := do
  match ← attempt m with
  | .ok _ => return
  | .error e =>
    cleanupFailedSpawn pid slot k
    throw e

/-- The root node of a new task and the objects in it. -/
def createObjects (slot : Nat) (k : CreateAnswers) : EStateM Failure Tasks Unit := do
  ensureProcessArena slot k.arena
  answer k.rooted
  modify (makeRootNode slot)
  answer k.built

/-- `spawn_process_from_elf`, with what its callers do to the new process. -/
def spawnProcessFromElf (reaperPid : Nat) (pages : List Alpha.LazyPage) (k : CreateAnswers) :
    EStateM Failure Tasks Nat := do
  let (pid, slot) ← allocProcessSlot
  orCleanUp pid slot k.cleanup (createObjects slot k)
  -- an image with bad addresses is refused without a clean-up
  answer k.malformed
  orCleanUp pid slot k.cleanup do
    onAlpha (Alpha.materializeEach pid pages)
    modify (installProcess pid reaperPid slot)
    answer k.attached
  return pid

/-- The requests that spawn a process, and the boot, where Alpha is the caller. The kernel puts the pid
of the caller on a request, so it is one that was given out. -/
def handleProcessSpawnRequest (callerPid : Nat) (pages : List Alpha.LazyPage) (k : CreateAnswers) :
    EStateM Failure Tasks Nat := do
  if (← get).processes.nextPid ≤ callerPid then throw .panic
  else spawnProcessFromElf callerPid pages k

def createRawTask (pid slot source callerPid : Nat) (sharedVm : Bool) (clones : List Alpha.ClonedPage)
    (k : CreateAnswers) : EStateM Failure Tasks Unit := do
  createObjects slot k
  let _ ← okOr ((← get).processes.memoryEntry source) (.error .invalidArgument)
  modify (installProcess pid callerPid slot)
  if sharedVm then onProcesses (shareAddressSpace pid source)
  else onAlpha (Alpha.cloneProcessVm pid clones)
  answer k.attached

/-- `handle_raw_task_create`; `accepted` answers for the destination slot. -/
def handleRawTaskCreate (callerPid source : Nat) (sharedVm : Bool) (clones : List Alpha.ClonedPage)
    (accepted : Option CapabilityError) (k : CreateAnswers) : EStateM Failure Tasks Nat := do
  let s ← get
  let source ← okOr ((s.processes.findEntryByPid source).filter fun entry =>
    !entry.exited && entry.reaperPid == callerPid) (.error .permissionDenied)
  let caller ← okOr ((s.processes.findEntryByPid callerPid).filter fun entry =>
    !entry.exited && entry.pid != 0) (.error .permissionDenied)
  answer accepted
  let (pid, slot) ← allocProcessSlot
  orCleanUp pid slot k.cleanup (createRawTask pid slot source.pid caller.pid sharedVm clones k)
  return pid

/-! ## The end of a task -/

def quarantineResources (pid : Nat) : EStateM Failure Tasks Unit := do
  let s ← get
  let _ ← okOr (s.processes.findEntryByPid pid) (.error .invalidArgument)
  set (s.setInfo pid { s.info pid with resourceQuarantined := true })

def handleProcessKillRequest (callerPid pid : Nat) (suspended : Option CapabilityError) :
    EStateM Failure Tasks Unit :=
  if callerPid = 0 then throw (.error .permissionDenied)
  else if pid = 0 then throw (.error .invalidArgument)
  else do
    let entry ← okOr ((← get).processes.findEntryByPid pid) (.error .invalidArgument)
    if !validateProcessObserver callerPid entry.pid entry.reaperPid then
      throw (.error .permissionDenied)
    else if entry.exited then return
    else
      answer suspended
      onProcesses (markExited pid)

/-- `handle_exit_request`; a process with live sessions, or a retired provider, is quarantined. -/
def handleExitRequest (pid : Nat) (suspended : Option CapabilityError) (quarantined : Bool) :
    EStateM Failure Tasks Unit :=
  if pid = 0 then throw (.error .permissionDenied)
  else do
    let _ ← okOr ((← get).processes.findEntryByPid pid) (.error .invalidArgument)
    answer suspended
    onProcesses (markExited pid)
    if quarantined then quarantineResources pid

/-- `handle_process_exec_memory_request`: the old memory goes, and then the page tables of the old
address space. The pages of the new image are requests of their own. -/
def handleProcessExecMemoryRequest (callerPid targetPid : Nat)
    (readable invalidated recreated : Option CapabilityError) (table : Nat → Option CapabilityError) :
    EStateM Failure Tasks Unit := do
  onAlpha (Alpha.handleProcessExecMemoryRequest callerPid targetPid readable invalidated)
  answer recreated
  releasePageTables ((← get).info targetPid).rootSlot table

/-! ## Runs -/

/-- What a request about memory leaves behind: the memory, the references and the page tables change,
the tasks do not. -/
def withMemoryOf (t s : Tasks) : Tasks :=
  { s with
    alpha := { t.alpha with processes :=
      { t.processes with entries := s.processes.entries, nextPid := s.processes.nextPid } }
    pageTables := t.pageTables
    freePageTables := t.freePageTables }

inductive Event where
  | spawn (callerPid : Nat) (pages : List Alpha.LazyPage) (k : CreateAnswers)
  | rawTask (callerPid source : Nat) (sharedVm : Bool) (clones : List Alpha.ClonedPage)
      (accepted : Option CapabilityError) (k : CreateAnswers)
  | kill (callerPid pid : Nat) (suspended : Option CapabilityError)
  | exit (pid : Nat) (suspended : Option CapabilityError) (quarantined : Bool)
  | quarantine (pid : Nat)
  | exec (callerPid targetPid : Nat) (readable invalidated recreated : Option CapabilityError)
      (table : Nat → Option CapabilityError)
  | reap (callerPid pid : Nat) (k ownerAnswers : TearDownAnswers)
  | request (r : Alpha.Request)
  /-- A request about memory that is not modelled. -/
  | memory (request : Tasks → Tasks)

def enrol (s : Tasks) : Tasks :=
  { s with members := s.processes.entries.entries.map (fun e => (e.1, e.2.memoryOwner)) ++ s.members }

def afterReap (callerPid pid : Nat) (k ownerAnswers : TearDownAnswers) (s : Tasks) : Tasks :=
  match handleProcessReapRequest callerPid pid k ownerAnswers s with
  | .ok _ t => { t with reaped := pid :: t.reaped }
  | .error _ t => t

def handle (s : Tasks) : Event → Tasks
  | .spawn callerPid pages k => stateAfter (handleProcessSpawnRequest callerPid pages k) s
  | .rawTask callerPid source sharedVm clones accepted k =>
    stateAfter (handleRawTaskCreate callerPid source sharedVm clones accepted k) s
  | .kill callerPid pid suspended => stateAfter (handleProcessKillRequest callerPid pid suspended) s
  | .exit pid suspended quarantined => stateAfter (handleExitRequest pid suspended quarantined) s
  | .quarantine pid => stateAfter (quarantineResources pid) s
  | .exec callerPid targetPid readable invalidated recreated table =>
    stateAfter (handleProcessExecMemoryRequest callerPid targetPid readable invalidated recreated table) s
  | .reap callerPid pid k ownerAnswers => afterReap callerPid pid k ownerAnswers s
  | .request r => withMemoryOf { s with alpha := s.alpha.step r } s
  | .memory request => withMemoryOf (request s) s

def step (s : Tasks) (event : Event) : Tasks := (s.handle event).enrol

def run (s : Tasks) (events : List Event) : Tasks := events.foldl step s

/-- Alpha after its boot. Its own root slot is below those that tasks are given. -/
def start (memory : MemoryManager) (rootSlotLimit : Nat) (reservedRootSlots : List Nat) : Tasks where
  alpha := ⟨memory, ⟨SortedMap.empty.insert 0 ⟨0, 0, 0, false⟩, 1, ⟨[]⟩, ⟨[]⟩, SortedMap.empty⟩, [], []⟩
  info := fun _ => ⟨0, false, false⟩
  rootSlotLimit := rootSlotLimit
  reservedRootSlots := reservedRootSlots
  usedRootSlots := []
  arenasReady := fun _ => false
  rootNodes := fun _ => false
  arenasUsed := fun _ => false
  pageTables := fun _ => []
  freePageTables := []
  members := [(0, 0)]
  reaped := []
  broken := []

end Tasks

end Nanami.Process
