import Nanami.Alter.Signals

/-!
# Descriptor tables

Model of the descriptor tables of Alter's tasks (`common/state/file_table.rs`,
`common/state/descriptors.rs`, `personality/linux/descriptors.rs`) and of the calls that create a
task with a table of its own (`fork.rs`, `threads.rs`).

A table stands under its address, and tasks that share it hold the same address. The descriptors
that Alter holds with the posix server are a table of open files of that server. Any request to the
server may fail before it has an effect: `refusals` says how the next requests end.
What the other parts of a call answer (the kernel, Alpha, guest memory, the mappings) is an argument.
-/

namespace Nanami.Alter
open Nanami.Lib Function

def linuxFdMax : Nat := 64
def linuxPipeMax : Nat := 16
def linuxONonblock : BitVec 64 := 0x800
def virtualNodeRoot : Nat := 1

/-- The size of a table of descriptors in the posix server. -/
def maxFds : Nat := 32

inductive LinuxFileKind where
  | empty
  | posix
  | terminal
  | ptyMaster
  | ptySlave
  | pipeRead
  | pipeWrite
  | socketUdp
  | socketTcp
  | socketTcpListener
  | socketIcmp
  | socketNetlink
  | socketUnix
  | virtualDirectory
  | virtualFile
  | evdevKeyboard
  | evdevMouse
  | framebuffer
  | eventFd
  | timerFd
  | signalFd
  | memoryFile
  | epoll
  | ioUring
  deriving DecidableEq, Repr

structure LinuxFile where
  kind : LinuxFileKind
  posixFd : Nat
  flags : BitVec 64
  localPort : Nat
  peerPort : Nat
  peerIp : Nat
  offset : Nat
  resource : Nat
  deriving DecidableEq, Repr

namespace LinuxFile

def empty : LinuxFile := ⟨.empty, 0, 0, 0, 0, 0, 0, 0⟩

def terminal : LinuxFile := { empty with kind := .terminal }

def isOpen (file : LinuxFile) : Bool := file.kind ≠ .empty

def isRootDirectory (file : LinuxFile) : Bool :=
  file.kind = .virtualDirectory && file.resource = virtualNodeRoot

def hasPosixBackend (file : LinuxFile) : Bool := file.kind = .posix || file.isRootDirectory

end LinuxFile

/-- The fields of a `LinuxPipe` that count the references to its two ends. -/
structure PipeEnds where
  active : Bool
  readers : Nat
  writers : Nat
  deriving DecidableEq, Repr

def PipeEnds.empty : PipeEnds := ⟨false, 0, 0⟩

/-- The fields of a `ManagedProcess` that its descriptors depend on. -/
structure FileTask where
  files : Nat
  terminalId : Nat
  exited : Bool
  deriving DecidableEq, Repr

structure FileRuntime where
  slots : List Nat
  task : Nat → FileTask
  tables : Nat → Nat → LinuxFile
  pipes : Nat → PipeEnds
  posixFds : Nat → Option Nat
  refusals : List (Option Errno)

def defaultFiles (terminalId fd : Nat) : LinuxFile :=
  if terminalId ≠ 0 ∧ fd < 3 then .terminal else .empty

namespace FileRuntime

/-- A call that leaves the model as it is, followed by `?`. -/
def answer (failure : Option Errno) : EStateM Errno FileRuntime Unit :=
  failure.elim (pure ()) throw

/-! ## The posix server -/

def posixRequest : EStateM Errno FileRuntime Unit := do
  let s ← get
  set { s with refusals := s.refusals.tail }
  answer s.refusals.head?.join

def openFile (s : FileRuntime) (fd : Nat) : Option Nat :=
  if fd < maxFds then s.posixFds fd else none

def setPosixFd (fd : Nat) (file : Option Nat) (s : FileRuntime) : FileRuntime :=
  { s with posixFds := update s.posixFds fd file }

def lowestFreeFd (s : FileRuntime) : Option Nat :=
  (List.range maxFds).find? fun fd => (s.posixFds fd).isNone

def posixDup (oldFd : Nat) : EStateM Errno FileRuntime Nat := do
  posixRequest
  let file ← okOr ((← get).openFile oldFd) .eio
  let fd ← okOr (← get).lowestFreeFd .eio
  modify (setPosixFd fd (some file))
  return fd

def posixClose (fd : Nat) : EStateM Errno FileRuntime Unit := do
  posixRequest
  let _ ← okOr ((← get).openFile fd) .eio
  modify (setPosixFd fd none)

def posixCloseEach : List Nat → EStateM Errno FileRuntime Unit
  | [] => pure ()
  | fd :: rest => do
    let _ ← attempt (posixClose fd)
    posixCloseEach rest

/-- The loop of `duplicate_posix_backend_fd`, with room for so many more low descriptors. -/
def duplicateAbove (oldFd : Nat) : Nat → List Nat → EStateM Errno FileRuntime Nat
  | room, low => do
    let fd ← posixDup oldFd
    if fd ≥ 3 then
      posixCloseEach low
      return fd
    else match room with
      | 0 => do
        posixCloseEach (fd :: low)
        throw .emfile
      | room + 1 => duplicateAbove oldFd room (low ++ [fd])

def duplicatePosixBackendFd (oldFd : Nat) : EStateM Errno FileRuntime Nat :=
  duplicateAbove oldFd 3 []

/-! ## Pipes -/

/-- `pipe_mut`. -/
def pipe (s : FileRuntime) (id : Nat) : Option PipeEnds :=
  if id < linuxPipeMax ∧ (s.pipes id).active then some (s.pipes id) else none

def setPipe (id : Nat) (pipe : PipeEnds) (s : FileRuntime) : FileRuntime :=
  { s with pipes := update s.pipes id pipe }

def releasePipeFile (file : LinuxFile) (s : FileRuntime) : FileRuntime :=
  match s.pipe file.posixFd with
  | none => s
  | some pipe =>
    let pipe := if file.kind = .pipeRead then { pipe with readers := pipe.readers - 1 }
      else { pipe with writers := pipe.writers - 1 }
    s.setPipe file.posixFd (if pipe.readers = 0 ∧ pipe.writers = 0 then .empty else pipe)

/-! ## Tables -/

/-- `managed_process`. -/
def managedTask (s : FileRuntime) (pid : Nat) : Option FileTask :=
  if pid ≠ 0 ∧ pid ∈ s.slots then some (s.task pid) else none

def file (s : FileRuntime) (pid fd : Nat) : LinuxFile := s.tables (s.task pid).files fd

def linuxFile (s : FileRuntime) (pid fd : Nat) : Option LinuxFile :=
  if fd ≥ linuxFdMax then none
  else (s.managedTask pid).bind fun _ => if (s.file pid fd).isOpen then some (s.file pid fd) else none

def write (address fd : Nat) (file : LinuxFile) (s : FileRuntime) : FileRuntime :=
  { s with
    tables := update s.tables address (update (s.tables address) fd file) }

def setLinuxFile (pid fd : Nat) (file : LinuxFile) : EStateM Errno FileRuntime Bool := do
  if fd ≥ linuxFdMax then return false
  else match (← get).managedTask pid with
    | none => return false
    | some task => do
      modify (write task.files fd file)
      return true

def clearLinuxFile (pid fd : Nat) (s : FileRuntime) : FileRuntime :=
  if fd ≥ linuxFdMax then s
  else match s.managedTask pid with
    | none => s
    | some task => s.write task.files fd .empty

def duplicateLinuxFile (file : LinuxFile) : EStateM Errno FileRuntime LinuxFile :=
  if file.hasPosixBackend then do
    let fd ← duplicatePosixBackendFd file.posixFd
    return { file with posixFd := fd }
  else match file.kind with
    | .empty => throw .ebadf
    | .pipeRead => do
      let pipe ← okOr ((← get).pipe file.posixFd) .ebadf
      modify (setPipe file.posixFd { pipe with readers := pipe.readers + 1 })
      return file
    | .pipeWrite => do
      let pipe ← okOr ((← get).pipe file.posixFd) .ebadf
      modify (setPipe file.posixFd { pipe with writers := pipe.writers + 1 })
      return file
    | _ => return file

/-- `release_file_description`, for a file without a descriptor of the posix server. -/
def releaseDescription (file : LinuxFile) (s : FileRuntime) : FileRuntime :=
  if file.kind = .pipeRead ∨ file.kind = .pipeWrite then s.releasePipeFile file else s

def closeLinuxFd (pid fd : Nat) : EStateM Errno FileRuntime Unit := do
  match (← get).linuxFile pid fd with
  | none => return
  | some file =>
    if file.hasPosixBackend then
      -- the entry stays if the server does not close its descriptor
      posixClose file.posixFd
      modify (clearLinuxFile pid fd)
    else modify fun s => (s.clearLinuxFile pid fd).releaseDescription file

def filesSharedWithLiveTask (s : FileRuntime) (pid : Nat) : Bool :=
  (s.managedTask pid).any fun task => s.slots.any fun other =>
    other ≠ pid && other ≠ 0 && !(s.task other).exited && (s.task other).files = task.files

/-- The loop of `close_process_files`, which goes on after an error. -/
def closeEach (pid : Nat) : List Nat → EStateM Errno FileRuntime Unit
  | [] => pure ()
  | fd :: rest => do
    let _ ← attempt (closeLinuxFd pid fd)
    closeEach pid rest

def closeProcessFiles (pid : Nat) : EStateM Errno FileRuntime Unit := do
  if (← get).filesSharedWithLiveTask pid then return
  else closeEach pid (List.range linuxFdMax)

/-! ## Tasks -/

def freshTable (s : FileRuntime) : Nat := (s.slots.map fun pid => (s.task pid).files).foldr max 0 + 1

def addTask (pid terminalId : Nat) (s : FileRuntime) : FileRuntime :=
  { s with
    slots := s.slots.set (s.slots.findIdx (· = 0)) pid
    task := update s.task pid ⟨s.freshTable, terminalId, false⟩
    tables := update s.tables s.freshTable (defaultFiles terminalId) }

def installManagedChildProcess (pid terminalId : Nat) : EStateM Errno FileRuntime Bool := do
  if 0 ∈ (← get).slots then
    modify (addTask pid terminalId)
    return true
  else return false

/-- `remove_process`: the slot is free, and the table is released with its last task. -/
def removeProcess (pid : Nat) (s : FileRuntime) : FileRuntime :=
  { s with slots := s.slots.set (s.slots.findIdx (· = pid)) 0 }

/-- The loop of `inherit_linux_files` over the descriptors of the table at `source`. -/
def inheritEach (source child : Nat) : List Nat → EStateM Errno FileRuntime Unit
  | [] => pure ()
  | fd :: rest => do
    let file := (← get).tables source fd
    if !file.isOpen then inheritEach source child rest
    else match ← attempt (duplicateLinuxFile file) with
      | .error error => do
        closeProcessFiles child
        throw error
      | .ok copy => do
        if ← setLinuxFile child fd copy then inheritEach source child rest
        else
          if copy.hasPosixBackend then
            let _ ← attempt (posixClose copy.posixFd)
          closeProcessFiles child
          throw .emfile

/-- `inherit_linux_files`; `cwd` is the answer of `set_cwd`. -/
def inheritLinuxFiles (parent child : Nat) (cwd : Option Errno) : EStateM Errno FileRuntime Unit := do
  let task ← okOr ((← get).managedTask parent) .esrch
  answer cwd
  inheritEach task.files child (List.range linuxFdMax)

/-- What the other parts of a fork or a clone answer. -/
structure CloneAnswers where
  refused : Option Errno
  spawned : Option Errno
  registers : Option Errno
  tidPointers : Option Errno
  cwd : Option Errno
  mappings : Option Errno
  clearTid : Option Errno
  resumed : Option Errno

def orRemove (child : Nat) (m : EStateM Errno FileRuntime Unit) : EStateM Errno FileRuntime Unit := do
  match ← attempt m with
  | .ok _ => return
  | .error error => do
    modify (removeProcess child)
    throw error

def orDiscard (child : Nat) (m : EStateM Errno FileRuntime Unit) : EStateM Errno FileRuntime Unit :=
  orRemove child do
    match ← attempt m with
    | .ok _ => return
    | .error error => do
      closeProcessFiles child
      throw error

/-- `sys_fork` without a shared memory; `child` is the pid that Alpha gives. -/
def sysFork (parent child : Nat) (k : CloneAnswers) : EStateM Errno FileRuntime Nat := do
  answer k.refused
  let task ← okOr ((← get).managedTask parent) .esrch
  answer k.spawned
  answer k.registers
  if !(← installManagedChildProcess child task.terminalId) then throw .enomem
  else
    orRemove child (answer k.tidPointers)
    orRemove child (inheritLinuxFiles parent child k.cwd)
    orDiscard child (answer k.mappings)
    orDiscard child (answer k.clearTid)
    orDiscard child (answer k.resumed)
    return child

def shareFiles (parent child : Nat) (s : FileRuntime) : FileRuntime :=
  { s with
    task := update s.task child { s.task child with files := (s.task parent).files } }

/-- The body of `clone_vm` once the thread is created; `shared` is CLONE_FILES. -/
def cloneBody (parent child terminalId : Nat) (shared : Bool) (k : CloneAnswers) :
    EStateM Errno FileRuntime Unit := do
  answer k.registers
  if !(← installManagedChildProcess child terminalId) then throw .enomem
  else
    if shared then pure () else inheritLinuxFiles parent child k.cwd
    answer k.mappings
    modify fun s => if shared then s.shareFiles parent child else s
    answer k.tidPointers
    answer k.clearTid
    answer k.resumed

def cloneVm (parent child : Nat) (shared : Bool) (k : CloneAnswers) : EStateM Errno FileRuntime Nat := do
  answer k.refused
  let task ← okOr ((← get).managedTask parent) .esrch
  answer k.spawned
  orDiscard child (cloneBody parent child task.terminalId shared k)
  return child

end FileRuntime

end Nanami.Alter
