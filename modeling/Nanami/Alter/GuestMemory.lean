import Nanami.Alter.Files
import Nanami.Alter.MappingTable

/-!
# The memory calls of a guest

Model of `personality/linux/vm.rs`, with what it calls in `memfd.rs`, `io_uring.rs`, `framebuffer.rs`,
`file_mapping.rs` and `memory_copy.rs`: mmap, munmap, mprotect, mremap and brk of the tasks of one
address space. Those tasks share one table of mappings and one program break.

Alpha's part of the address space is the set of its pages. What a request is answered is taken from a
list: Alpha grants memory only where it maps nothing, and a request that fails may have done a part of
its range. `placed` collects the ranges that a call enters into the table.
-/

namespace Nanami.Alter
open Nanami.Lib

def linuxProtNone : Nat := 0
def linuxProtRead : Nat := 1
def linuxProtWrite : Nat := 2
def linuxProtAll : Nat := 7
def linuxMapFixed : Nat := 0x10
def linuxMapAnonymous : Nat := 0x20
def linuxMremapMaymove : Nat := 1
def linuxMremapFixed : Nat := 2
def linuxMremapSupportedFlags : Nat := 3
def linuxOAccmode : Nat := 3
def linuxOWronly : Nat := 1
def linuxVirtualReservationBase : Nat := 0x100000000
def linuxVirtualReservationLimit : Nat := 0x400000000000
def posixFileTypeRegular : Nat := 1
def objectLimit : Nat := 256
def isizeMax : Nat := 2 ^ 63 - 1

def sealSeal : Nat := 1
def sealShrink : Nat := 2
def sealGrow : Nat := 4
def sealWrite : Nat := 8
def seals : Nat := 15

/-- `x & !(LINUX_PAGE_SIZE - 1)`. -/
def pageFloor (x : Nat) : Nat := x / pageSize * pageSize

/-- A length rounded up to pages, if the sum is a word. -/
@[irreducible] def pageCeil (x : Nat) : Option Nat :=
  (checkedAdd x (pageSize - 1)).map pageFloor

/-- `align_up_word` with the page size, whose sum wraps. -/
def alignUpWord (x : Nat) : Nat := pageFloor (wrappingAdd x (pageSize - 1))

/-- `x & (LINUX_PAGE_SIZE - 1) != 0`. -/
def unaligned (x : Nat) : Bool := x % pageSize ≠ 0

/-- `(0..bytes).step_by(LINUX_PAGE_SIZE)`. -/
def pageOffsets (bytes : Nat) : List Nat :=
  (List.range ((bytes + (pageSize - 1)) / pageSize)).map (· * pageSize)

structure MemoryMapping where
  pid : Nat
  base : Nat
  bytes : Nat
  offset : Nat
  prot : Nat
  shared : Bool
  attachment : Option Nat
  readonlyAttachment : Bool
  deriving DecidableEq, Repr

/-- A RAM file. Of its System V segment only whether it was removed matters here. -/
structure MemoryFile where
  sysv : Option Bool
  anonymous : Bool
  backing : Option Nat
  pages : List (Nat × Nat)
  size : Nat
  seals : Nat
  maps : List MemoryMapping
  deriving DecidableEq, Repr

structure IoUring where
  memory : Nat
  sqes : Nat
  ringBytes : Nat
  sqeBytes : Nat
  deriving DecidableEq, Repr

structure GraphicsSession where
  active : Bool
  framebuffer : Nat
  framebufferBytes : Nat
  guestPid : Nat
  guestFramebuffer : Nat
  guestFramebufferBytes : Nat
  deriving DecidableEq, Repr

/-- What a request is answered: memory at an address, numbers, success, or a failure after some of its
pages were dealt with. -/
inductive Answer where
  | granted (base size : Nat)
  | values (first second : Nat)
  | done
  | refused (errno : Errno) (touched : Nat → Bool)

structure VmRuntime where
  tasks : List Nat
  mappings : MappingTable
  programBreak : Nat
  mappedBreak : Nat
  linuxFile : Nat → Option LinuxFile
  rings : Nat → Option IoUring
  objects : List (Nat × MemoryFile)
  nextId : Nat
  /-- A descriptor, a queued right or a ring names the object. -/
  referenced : Nat → Bool
  graphics : List GraphicsSession
  posixShmSize : Nat
  posixReadBufferSize : Nat
  /-- The heap of the server can serve what is asked of it. -/
  heap : Bool
  pages : Nat → Bool
  answers : List Answer
  placed : List (Nat × Nat)

abbrev VmM := EStateM Errno VmRuntime

namespace VmRuntime

def backed (s : VmRuntime) (x : Nat) : Bool := s.pages (x / pageSize)

def inRange (base size page : Nat) : Bool :=
  base / pageSize ≤ page && page * pageSize < base + size

def pageFree (s : VmRuntime) (base size : Nat) : Bool :=
  (List.range (size / pageSize)).all fun i => !s.pages (base / pageSize + i)

/-! ## Requests -/

def nextAnswer : VmM Answer := do
  let s ← get
  set { s with answers := s.answers.tail }
  return s.answers.headD (.refused .eio fun _ => false)

def request : VmM Unit := do
  match ← nextAnswer with
  | .refused e _ => throw e
  | _ => return

def requestIf (c : Bool) : VmM (Except Errno Unit) := if c then attempt request else return .ok ()

def requestValues : VmM (Nat × Nat) := do
  match ← nextAnswer with
  | .values a b => return (a, b)
  | .refused e _ => throw e
  | _ => throw .eio

def mapPages (which : Nat → Bool) (s : VmRuntime) : VmRuntime :=
  { s with pages := fun page => s.pages page || which page }

def unmapPages (which : Nat → Bool) (s : VmRuntime) : VmRuntime :=
  { s with pages := fun page => s.pages page && !which page }

/-- A change of pages that belong to the address space of a task. The tasks of another address space
have pages of their own. -/
def pagesOfTask (pid : Nat) (change : VmRuntime → VmRuntime) (s : VmRuntime) : VmRuntime :=
  if pid ∈ s.tasks then change s else s

/-- Alpha maps `size` bytes where its answer says, if it maps nothing there. -/
def grant (requested size : Nat) : VmM (Nat × Nat) := do
  match ← nextAnswer with
  | .granted base granted =>
    let s ← get
    if base ≠ 0 ∧ unaligned base = false ∧ granted = size ∧
        base + alignUpWord size < wordSize ∧ s.pageFree base (alignUpWord size) then
      modify (mapPages (inRange base (alignUpWord size)))
      return (base, granted)
    else throw .einval
  | .refused e touched =>
    modify (mapPages fun page => inRange requested (alignUpWord size) page && touched page)
    throw e
  | _ => throw .eio

/-- `request_process_map_anonymous`, and `request_process_map_anonymous_at` for a requested base. -/
def requestProcessMapAnonymous (pid : Nat) (requested : Option Nat) (size : Nat) : VmM (Nat × Nat) := do
  if size = 0 ∨ requested = some 0 then throw .einval
  else
    let mapped ← okOr (pageCeil size) .einval
    let s ← get
    if pid ∈ s.tasks then grant (requested.getD 0) mapped
    else
      request
      return (requested.getD 0, mapped)

def requestProcessMapInitializedAt (base mapped : Nat) : VmM Unit := do
  if base = 0 ∨ mapped = 0 ∨ unaligned base ∨ unaligned mapped then throw .einval
  else
    let (address, bytes) ← grant base mapped
    if address ≠ base ∨ bytes ≠ mapped then throw .einval

/-- `request_process_mapping_release` and `request_process_mapping_release_sparse`. -/
def requestProcessMappingRelease (pid base size : Nat) : VmM Unit := do
  if base = 0 ∨ size = 0 then throw .einval
  else
    match ← nextAnswer with
    | .refused e touched =>
      modify (pagesOfTask pid (unmapPages fun page => inRange base size page && touched page))
      throw e
    | _ => modify (pagesOfTask pid (unmapPages (inRange base size)))

def requestProcessMappingProtect (base bytes prot : Nat) : VmM Unit := do
  if unaligned base ∨ bytes = 0 ∨ prot &&& complement 7 ≠ 0 then throw .einval
  else request

def requestMappingShareAt (pid source bytes target : Nat) : VmM Unit := do
  if source = 0 ∨ target = 0 ∨ unaligned source ∨ unaligned target ∨ bytes = 0 then throw .einval
  else
    match ← nextAnswer with
    | .refused e touched =>
      modify (pagesOfTask pid (mapPages fun page => inRange target bytes page && touched page))
      throw e
    | _ => modify (pagesOfTask pid (mapPages (inRange target bytes)))

/-! ## The table of mappings -/

def onTable (pid : Nat) (f : MappingTable → Bool × MappingTable) : VmM Bool := do
  let s ← get
  if pid ∈ s.tasks then
    set { s with mappings := (f s.mappings).2 }
    return (f s.mappings).1
  else return false

/-- `add_mapping` at the places that bring a range into the table. -/
def addMapping (pid base size prot : Nat) : VmM Bool := do
  let done ← onTable pid (·.addMapping base size prot)
  if done then
    modify fun s => { s with placed := (base, size) :: s.placed }
    return true
  else return false

def removeMapping (pid base size : Nat) : VmM Bool := onTable pid (·.removeMapping base size)

def protectMapping (pid base size prot : Nat) : VmM Bool := onTable pid (·.protectMapping base size prot)

def managed (s : VmRuntime) (pid : Nat) : Bool := pid ∈ s.tasks

def mappingAt (s : VmRuntime) (pid address : Nat) : Option ProcessMapping :=
  if s.managed pid then s.mappings.mappingAt address else none

def nextMapping (s : VmRuntime) (pid address stop : Nat) : Option ProcessMapping :=
  if s.managed pid then s.mappings.nextMapping address stop else none

/-! ## RAM files -/

def object (s : VmRuntime) (id : Nat) : Option MemoryFile :=
  (s.objects.find? (·.1 = id)).map (·.2)

/-- `object_mut`, for an object that is there. -/
def setObject (id : Nat) (f : MemoryFile → MemoryFile) (s : VmRuntime) : VmRuntime :=
  { s with objects := s.objects.map fun (k, file) => if k = id then (k, f file) else (k, file) }

def getObject (id : Nat) : VmM MemoryFile := do
  let s ← get
  okOr (s.object id) .ebadf

/-- `try_reserve(1)`. -/
def tryReserve : VmM Unit := do
  let s ← get
  if s.heap then return else throw .enomem

/-- `poll_objects.insert`. -/
def insertObject (file : MemoryFile) : VmM Nat := do
  let s ← get
  if s.objects.length = objectLimit ∨ s.nextId = wordSize - 1 ∨ s.heap = false then throw .enomem
  else
    set { s with objects := s.objects ++ [(s.nextId, file)], nextId := s.nextId + 1 }
    return s.nextId

namespace Memfd

def page (id index : Nat) : VmM Nat := do
  let file ← getObject id
  match file.pages.find? (·.1 = index) with
  | some (_, address) => return address
  | none =>
    let (address, _) ← requestValues
    modify (setObject id fun file => { file with pages := file.pages ++ [(index, address)] })
    return address

def protAt (s : VmRuntime) (mapping : MemoryMapping) (target : Nat) : Nat :=
  (s.mappingAt mapping.pid target).elim mapping.prot (·.prot)

def aliasPage (id : Nat) (mapping : MemoryMapping) (pageOffset : Nat) : VmM Unit := do
  let source ← page id ((mapping.offset + pageOffset) / pageSize)
  requestMappingShareAt mapping.pid source pageSize (mapping.base + pageOffset)
  let s ← get
  requestProcessMappingProtect (mapping.base + pageOffset) pageSize
    (protAt s mapping (mapping.base + pageOffset))

def mappings (s : VmRuntime) (pid : Nat) : List (Nat × MemoryMapping) :=
  s.objects.flatMap fun (id, file) =>
    (file.maps.filter fun m => s.managed m.pid).map fun m => (id, { m with pid := pid })

def mappingAt (s : VmRuntime) (pid address : Nat) : Option (Nat × MemoryMapping) :=
  (mappings s pid).find? fun (_, m) => address ≥ m.base && address - m.base < m.bytes

def unmapReadPage (id index : Nat) (backing : Option Nat) : VmM (Except Errno Unit) :=
  if backing.isSome then do
    modify (setObject id fun file =>
      { file with pages := file.pages.map fun p => if p.1 = index then (index, 0) else p })
    attempt request
  else return .ok ()

def collectPages (id : Nat) (backing : Option Nat) : List (Nat × Nat) → VmM Bool
  | [] => return true
  | (index, address) :: rest => do
    match ← requestIf (address ≠ 0) with
    | .error _ => return false
    | .ok _ =>
      match ← unmapReadPage id index backing with
      | .error _ => return false
      | .ok _ =>
        modify (setObject id fun file => { file with pages := file.pages.filter (·.1 ≠ index) })
        collectPages id backing rest

def collect (id : Nat) : VmM Unit := do
  let s ← get
  match s.object id with
  | none => return
  | some file =>
    if file.sysv = some false ∨ file.maps ≠ [] ∨ s.referenced id then return
    else
      let done ← collectPages id file.backing file.pages
      if done then
        match ← requestIf file.backing.isSome with
        | .error _ => return
        | .ok _ => modify fun s => { s with objects := s.objects.filter (·.1 ≠ id) }
      else return

/-- One step of `unmap`: take `[base, stop)` out of a mapping of a RAM file. -/
def unmapOne (pid base stop : Nat) (entry : Nat × MemoryMapping) : VmM Unit := do
  let (id, mapping) := entry
  let start := max base mapping.base
  let last := min stop (mapping.base + mapping.bytes)
  if start ≥ last then return
  else
    let _ ← getObject id
    tryReserve
    forEach (fun offset => requestProcessMappingRelease pid (start + offset) pageSize)
      (pageOffsets (last - start))
    let s ← get
    let file ← getObject id
    let owner ← okOr (file.maps.find? fun m => m.base = mapping.base && s.managed m.pid) .einval
    modify (setObject id fun file =>
      { file with maps := file.maps.filter (fun m => m.pid ≠ owner.pid || m.base ≠ mapping.base) ++
        (if mapping.base < start then [{ mapping with bytes := start - mapping.base }] else []) ++
        (if last < mapping.base + mapping.bytes then
          [{ mapping with
              base := last
              bytes := mapping.base + mapping.bytes - last
              offset := mapping.offset + last - mapping.base }]
        else []) })
    collect id

def unmap (pid base bytes : Nat) : VmM Unit := do
  let stop ← okOr (checkedAdd base bytes) .einval
  let s ← get
  forEach (unmapOne pid base stop) (mappings s pid)

def protectUpdates (s : VmRuntime) (pid stop : Nat) (maps : List (Nat × MemoryMapping)) :
    Nat → Nat → Except Errno (List (Nat × Nat × Nat))
  | 0, _ => .ok []
  | rounds + 1, cursor =>
    if cursor < stop then
      match s.mappingAt pid cursor with
      | none => .error .enomem
      | some vma =>
        let vmaEnd := min stop (vma.base + vma.size)
        match maps.find? fun (_, m) => cursor ≥ m.base && cursor < m.base + m.bytes with
        | some (id, m) =>
          match s.object id with
          | none => .error .ebadf
          | some file =>
            let next := min vmaEnd (m.base + m.bytes)
            let fileEnd := saturatingAdd m.base (alignUpWord (file.size - m.offset))
            (protectUpdates s pid stop maps rounds next).map fun rest =>
              if cursor < fileEnd then (cursor, min next fileEnd - cursor, vma.prot) :: rest else rest
        | none =>
          let next := ((maps.filter fun (_, m) => m.base > cursor).map (·.2.base)).foldr min vmaEnd
          (protectUpdates s pid stop maps rounds next).map ((cursor, next - cursor, vma.prot) :: ·)
    else .ok []

/-- Change the protection of each range; when one cannot be changed, those before it are changed
back. -/
def protectEach (prot : Nat) (before : List (Nat × Nat × Nat)) :
    List (Nat × Nat × Nat) → VmM Unit
  | [] => return
  | (address, bytes, previous) :: rest => do
    match ← attempt (requestProcessMappingProtect address bytes prot) with
    | .ok _ => protectEach prot ((address, bytes, previous) :: before) rest
    | .error e =>
      forEach (fun (address, bytes, previous) => requestProcessMappingProtect address bytes previous)
        before
      throw e

def sealed (s : VmRuntime) (base stop prot : Nat) (entry : Nat × MemoryMapping) : Bool :=
  let (id, m) := entry
  m.base < stop && m.base + m.bytes > base && prot &&& linuxProtWrite ≠ 0 &&
    (m.readonlyAttachment ||
      m.shared && (s.object id).elim false fun file => file.seals &&& sealWrite ≠ 0)

def protect (pid base bytes prot : Nat) : VmM Unit := do
  let stop ← okOr (checkedAdd base bytes) .enomem
  let s ← get
  if (mappings s pid).any (sealed s base stop prot) then throw .eacces
  else
    let updates ← fromResult (protectUpdates s pid stop (mappings s pid) bytes base)
    protectEach prot [] updates

def resizePage (id : Nat) (shrink : Bool) (mapping : MemoryMapping) (offset : Nat) : VmM Unit := do
  if shrink then requestProcessMappingRelease mapping.pid (mapping.base + offset) pageSize
  else if mapping.shared then aliasPage id mapping offset
  else
    let _ ← requestProcessMapAnonymous mapping.pid (some (mapping.base + offset)) pageSize
    let s ← get
    requestProcessMappingProtect (mapping.base + offset) pageSize
      (protAt s mapping (mapping.base + offset))

def resizeMapping (id old length : Nat) (mapping : MemoryMapping) : VmM Unit :=
  let first := min (min (alignUpWord old) (alignUpWord length) - mapping.offset) mapping.bytes
  let last := min (max (alignUpWord old) (alignUpWord length) - mapping.offset) mapping.bytes
  forEach (fun offset => resizePage id (length < old) mapping (first + offset))
    (pageOffsets (last - first))

def truncate (id length : Nat) : VmM Unit := do
  if length > isizeMax then throw .einval
  else
    let file ← getObject id
    if length < file.size ∧ file.seals &&& sealShrink ≠ 0 ∨
        length > file.size ∧ file.seals &&& sealGrow ≠ 0 then throw .eperm
    else
      forEach (resizeMapping id file.size length) file.maps
      let _ ← getObject id
      modify (setObject id fun file => { file with size := length })

end Memfd

/-! ## munmap, mprotect and brk -/

/-- The loop of `release_present_mapping_pages` from `cursor` on. -/
def releaseFrom (pid stop : Nat) : Nat → Nat → VmM Unit
  | 0, _ => return
  | rounds + 1, cursor => do
    if cursor < stop then
      let s ← get
      let mapping ← okOr (s.mappingAt pid cursor) .enomem
      let mappingEnd ← okOr (checkedAdd mapping.base mapping.size) .enomem
      requestProcessMappingRelease pid cursor (min stop mappingEnd - cursor)
      releaseFrom pid stop rounds (min stop mappingEnd)
    else return

def releasePresentMappingPages (pid base size : Nat) : VmM Unit := do
  let stop ← okOr (checkedAdd base size) .enomem
  releaseFrom pid stop size base

/-- The loop of `sys_munmap`. -/
def unmapFrom (pid stop : Nat) : Nat → Nat → VmM Unit
  | 0, _ => return
  | rounds + 1, cursor => do
    let s ← get
    match s.nextMapping pid cursor stop with
    | none => return
    | some mapping =>
      let start := max cursor mapping.base
      let mappingEnd ← okOr (checkedAdd mapping.base mapping.size) .einval
      let next := min stop mappingEnd
      releasePresentMappingPages pid start (next - start)
      if ← removeMapping pid start (next - start) then unmapFrom pid stop rounds next
      else throw .enomem

def framebufferIndex (s : VmRuntime) (pid addr mapped : Nat) : Option Nat :=
  s.graphics.findIdx? fun session =>
    session.active && session.guestPid = pid && session.guestFramebuffer = addr &&
      alignUpWord session.guestFramebufferBytes = mapped

def forgetFramebuffer (index : Nat) (s : VmRuntime) : VmRuntime :=
  { s with
    graphics := s.graphics.modify index fun session =>
      { session with guestPid := 0, guestFramebuffer := 0, guestFramebufferBytes := 0, framebuffer := 0 } }

def sysMunmap (pid addr len : Nat) : VmM Nat := do
  if unaligned addr then throw .einval
  else
    let mapped ← okOr (pageCeil len) .enomem
    let s ← get
    let framebuffer := s.framebufferIndex pid addr mapped
    let _ ← requestIf framebuffer.isSome
    let stop ← okOr (checkedAdd addr mapped) .einval
    let s ← get
    if !(s.managed pid && s.mappings.canRemoveMapping addr mapped) then throw .enomem
    else
      Memfd.unmap pid addr mapped
      unmapFrom pid stop (mapped + 1) addr
      match framebuffer with
      | none => return 0
      | some index =>
        request
        modify (forgetFramebuffer index)
        return 0

def sysMprotect (pid addr len prot : Nat) : VmM Nat := do
  if addr = 0 ∨ len = 0 ∨ unaligned addr then throw .einval
  else if prot &&& complement linuxProtAll ≠ 0 then throw .einval
  else
    let mapped ← okOr (pageCeil len) .enomem
    let s ← get
    if !(s.managed pid && s.mappings.hasMapping addr mapped) then throw .enomem
    else if s.mappings.mappingProt addr mapped = some prot then return 0
    else if !s.mappings.canProtectMapping addr mapped then throw .enomem
    else
      Memfd.protect pid addr mapped prot
      if ← protectMapping pid addr mapped prot then return 0 else throw .enomem

def setHardwareProtection (base size prot : Nat) : VmM Unit := requestProcessMappingProtect base size prot

def mapAnonymousTracked (pid len prot : Nat) : VmM (Nat × Nat) := do
  let (base, mapped) ← requestProcessMapAnonymous pid none len
  if ← addMapping pid base mapped prot then
    match ← attempt (setHardwareProtection base mapped prot) with
    | .ok _ => return (base, mapped)
    | .error e =>
      let _ ← attempt (sysMunmap pid base mapped)
      throw e
  else
    requestProcessMappingRelease pid base mapped
    throw .enomem

def openBreak (pid : Nat) : VmM Unit := do
  let s ← get
  if s.programBreak = 0 then
    let (base, mapped) ← mapAnonymousTracked pid 4096 (linuxProtRead ||| linuxProtWrite)
    modify fun s => { s with programBreak := base, mappedBreak := base + mapped }
  else return

def sysBrk (pid requested : Nat) : VmM Nat := do
  let s ← get
  if !s.managed pid then throw .esrch
  else
    openBreak pid
    let s ← get
    if requested = 0 ∨ requested ≤ s.programBreak then return s.programBreak
    else if requested > s.mappedBreak then
      let (base, size) ← mapAnonymousTracked pid (alignUpWord (requested - s.mappedBreak))
        (linuxProtRead ||| linuxProtWrite)
      if base ≠ s.mappedBreak then return s.programBreak
      else
        modify fun t => { t with mappedBreak := s.mappedBreak + size, programBreak := requested }
        return requested
    else
      modify fun t => { t with programBreak := requested }
      return requested

/-! ## mmap -/

def conflictEnd (base stop : Nat) : List ProcessMapping → Nat → Option Nat
  | [], far => some far
  | m :: rest, far =>
    if m.base ≠ 0 then
      match checkedAdd m.base m.size with
      | none => none
      | some mappingEnd =>
        conflictEnd base stop rest (if base < mappingEnd ∧ m.base < stop then max far mappingEnd else far)
    else conflictEnd base stop rest far

/-- The loop of `reserve_none_mapping`. The base grows in each round, so that after the last one it
has passed the limit, which is the code's own reason to fail. -/
def findGap (entries : List ProcessMapping) (mapped : Nat) : Nat → Nat → Option Nat
  | 0, _ => none
  | rounds + 1, base =>
    match checkedAdd base mapped with
    | none => none
    | some stop =>
      if stop > linuxVirtualReservationLimit then none
      else
        match conflictEnd base stop entries base with
        | none => none
        | some far =>
          if far = base then some base
          else
            match pageCeil far with
            | none => none
            | some next => findGap entries mapped rounds next

def reserveNoneMapping (pid len : Nat) : VmM (Nat × Nat) := do
  let mapped ← okOr (pageCeil len) .enomem
  let s ← get
  if !s.managed pid then throw .esrch
  else
    let base ← okOr (findGap s.mappings.entries mapped (linuxVirtualReservationLimit + 1)
      linuxVirtualReservationBase) .enomem
    if ← addMapping pid base mapped linuxProtNone then return (base, mapped) else throw .enomem

/-- The checks that `sys_mmap` starts with. -/
def mmapChecks (addr len prot flags : Nat) : VmM Unit := do
  if len = 0 ∨ prot &&& complement linuxProtAll ≠ 0 ∨
      flags &&& linuxMapFixed ≠ 0 ∧ unaligned addr then throw .einval
  else return

/-- `MAP_FIXED` of `sys_mmap`: every overlap is replaced. -/
def mmapFixed (pid addr len prot : Nat) : VmM Nat := do
  let base := pageFloor addr
  let bytes ← okOr (checkedAdd len (addr - base)) .enomem
  let mapped := alignUpWord bytes
  let _ ← sysMunmap pid base mapped
  if prot = linuxProtNone then
    if ← addMapping pid base mapped prot then return addr else throw .enomem
  else
    let (placed, granted) ← requestProcessMapAnonymous pid (some base) mapped
    if placed ≠ base ∨ granted < mapped then
      let _ ← attempt (requestProcessMappingRelease pid placed granted)
      throw .enomem
    else if ← addMapping pid placed granted prot then
      setHardwareProtection placed granted prot
      return addr
    else
      let _ ← attempt (requestProcessMappingRelease pid placed granted)
      throw .enomem

/-- What `sys_mmap` does for private anonymous memory. -/
def mmapPrivate (pid addr len prot flags : Nat) : VmM Nat := do
  if addr ≠ 0 ∧ flags &&& linuxMapFixed ≠ 0 then mmapFixed pid addr len prot
  else if prot = linuxProtNone then
    let (base, _) ← reserveNoneMapping pid len
    return base
  else
    let (base, _) ← mapAnonymousTracked pid len prot
    return base

/-- A call of `sys_mmap` for private anonymous memory. -/
def mmapAnonymous (pid addr len prot flags : Nat) : VmM Nat := do
  mmapChecks addr len prot flags
  mmapPrivate pid addr len prot flags

/-- `if let Err(e) = m { let _ = sys_munmap(base, bytes); return Err(e) }`. -/
def orUnmap {α : Type} (pid base bytes : Nat) (m : VmM α) : VmM α := do
  match ← attempt m with
  | .ok a => return a
  | .error e =>
    let _ ← attempt (sysMunmap pid base bytes)
    throw e

namespace Memfd

def populate (id : Nat) (mapping : MemoryMapping) (pageOffset : Nat) : VmM Unit := do
  if mapping.shared then aliasPage id mapping pageOffset
  else
    let _ ← requestProcessMapAnonymous mapping.pid (some (mapping.base + pageOffset)) pageSize
    let file ← getObject id
    let copied ← requestIf (file.pages.find? (·.1 = (mapping.offset + pageOffset) / pageSize)).isSome
    fromResult copied
    requestProcessMappingProtect (mapping.base + pageOffset) pageSize mapping.prot

def reserve (pid address bytes flags : Nat) : VmM Nat :=
  if flags &&& linuxMapFixed ≠ 0 then
    mmapAnonymous pid address bytes linuxProtNone ((flags &&& complement 3) ||| 2 ||| linuxMapAnonymous)
  else (·.1) <$> reserveNoneMapping pid bytes

def map (pid address bytes prot flags : Nat) (id : Nat) (readonly : Bool) (offset : Nat) : VmM Nat := do
  if unaligned offset ∨ offset > isizeMax ∨ (checkedAdd offset bytes).isNone then throw .einval
  else if flags &&& 3 ≠ 1 ∧ flags &&& 3 ≠ 2 then throw .einval
  else
    let shared : Bool := flags &&& 3 = 1
    let file ← getObject id
    if shared ∧ prot &&& linuxProtWrite ≠ 0 ∧ file.seals &&& sealWrite ≠ 0 then throw .eperm
    else
      tryReserve
      let bytes ← okOr (pageCeil bytes) .enomem
      let base ← reserve pid address bytes flags
      if ← protectMapping pid base bytes prot then
        let file ← getObject id
        let mapping : MemoryMapping :=
          { pid := pid, base := base, bytes := bytes, offset := offset, prot := prot, shared := shared
            attachment := if file.sysv.isSome then some base else none
            readonlyAttachment := file.sysv.isSome && readonly }
        modify (setObject id fun file => { file with maps := file.maps ++ [mapping] })
        orUnmap pid base bytes (forEach (populate id mapping)
          (pageOffsets (min bytes (alignUpWord (file.size - offset)))))
        return base
      else
        let _ ← attempt (sysMunmap pid base bytes)
        throw .enomem

/-- `if result.is_err() { collect(runtime, id); }`. -/
def orCollect {α : Type} (id : Nat) (m : VmM α) : VmM α := do
  match ← attempt m with
  | .ok a => return a
  | .error e =>
    collect id
    throw e

def mapReadFile (pid address bytes prot flags size offset : Nat) : VmM Nat := do
  if prot &&& linuxProtWrite ≠ 0 then throw .eopnotsupp
  else if offset ≥ size ∨ bytes > size - offset then throw .eopnotsupp
  else
    let (fd, _) ← requestValues
    let file : MemoryFile :=
      { sysv := none, anonymous := false, backing := some fd, pages := [], size := size
        seals := Alter.seals, maps := [] }
    match ← attempt (insertObject file) with
    | .error e =>
      let _ ← attempt request
      throw e
    | .ok id => orCollect id (map pid address bytes prot flags id true offset)

def mapAnonymous (pid address bytes prot flags : Nat) : VmM Nat := do
  let id ← insertObject
    { sysv := none, anonymous := true, backing := none, pages := [], size := bytes
      seals := sealSeal, maps := [] }
  orCollect id (map pid address bytes prot flags id true 0)

end Memfd

/-- The region of a ring that an offset names, with its size. -/
def ringRegion (ring : IoUring) (offset : Nat) : Option (Nat × Nat) :=
  if offset = 0 ∨ offset = 0x08000000 then some (ring.memory, ring.ringBytes)
  else if offset = 0x10000000 then some (ring.sqes, ring.sqeBytes)
  else none

/-- `io_uring::map`. -/
def ioUringMap (pid address bytes prot flags : Nat) (file : LinuxFile) (offset : Nat) : VmM Nat := do
  if flags &&& 3 ≠ 1 then throw .einval
  else
    let s ← get
    let ring ← okOr (s.rings file.resource) .ebadf
    let (id, limit) ← okOr (ringRegion ring offset) .einval
    if bytes > limit then throw .einval else Memfd.map pid address bytes prot flags id true 0

def graphicsSession (id : Nat) : VmM GraphicsSession := do
  let s ← get
  let index ← okOr (checkedSub id 1) .enodev
  let session ← okOr s.graphics[index]? .enodev
  if session.active then return session else throw .enodev

/-- `honoka_attach_logical_framebuffer_to_process`: the shared memory is mapped where Alpha maps
nothing, or there is no address in the answer. -/
def attachLogicalFramebuffer : VmM (Nat × Nat) := do
  match ← nextAnswer with
  | .granted base bytes =>
    let s ← get
    if base ≠ 0 ∧ unaligned base = false ∧ base + alignUpWord bytes < wordSize ∧
        s.pageFree base (alignUpWord bytes) then
      modify (mapPages (inRange base (alignUpWord bytes)))
      return (base, bytes)
    else throw .eio
  | .values _ bytes => return (0, bytes)
  | .done => throw .eio
  | .refused e _ => throw e

def giveBackFramebuffer (pid shared bytes : Nat) : VmM Unit := do
  let _ ← attempt (requestProcessMappingRelease pid shared bytes)
  let _ ← attempt request

def ensureFramebufferMapping (pid id prot : Nat) : VmM Nat := do
  let session ← graphicsSession id
  if session.guestFramebuffer ≠ 0 then
    if session.guestPid = pid then return session.guestFramebuffer else throw .eacces
  else
    request
    let (shared, bytes) ← attachLogicalFramebuffer
    if bytes ≠ session.framebufferBytes ∨ shared = 0 then
      -- the release of nothing is refused without a request
      giveBackFramebuffer pid shared bytes
      throw .eio
    else if ← addMapping pid shared (alignUpWord bytes) prot then
      modify fun s =>
        { s with
          graphics := s.graphics.modify (id - 1) fun session =>
            { session with
              framebuffer := shared
              framebufferBytes := bytes
              guestPid := pid
              guestFramebuffer := shared
              guestFramebufferBytes := bytes } }
      request
      return shared
    else
      giveBackFramebuffer pid shared bytes
      throw .enomem

def sysFramebufferMmap (pid : Nat) (file : LinuxFile) (len prot offset : Nat) : VmM Nat := do
  let session ← graphicsSession file.resource
  if offset ≠ 0 ∨ len > alignUpWord session.framebufferBytes then throw .einval
  else ensureFramebufferMapping pid file.resource prot

/-- `request_process_map_initialized_at` for the pages that are there to map. -/
def mapInitialized (base bytes : Nat) : VmM Unit :=
  if bytes ≠ 0 then requestProcessMapInitializedAt base bytes else return

/-- The reads of `file_mapping::initialize`. `initialized` bytes have their pages, and `buffered`
bytes of a page wait for the rest of it. -/
def readInto (base bytes : Nat) : Nat → Nat → Nat → Nat → VmM (Nat × Nat)
  | 0, _, buffered, initialized => return (buffered, initialized)
  | rounds + 1, copied, buffered, initialized => do
    if copied < bytes then
      let s ← get
      let chunk := min (bytes - copied) s.posixReadBufferSize
      if chunk = 0 then throw .eio
      else
        let (read, _) ← requestValues
        if read = 0 then return (buffered, initialized)
        else if read > chunk then throw .eio
        else
          -- first the rest of the page that was begun, then whole pages, then a new beginning
          let consumed := if buffered ≠ 0 then min read (pageSize - buffered) else 0
          let filled := if buffered ≠ 0 ∧ buffered + consumed = pageSize then pageSize else 0
          let full := pageFloor (read - consumed)
          mapInitialized (base + initialized) filled
          mapInitialized (base + initialized + filled) full
          readInto base bytes rounds (copied + read)
            (buffered + consumed - filled + (read - consumed - full)) (initialized + filled + full)
    else return (buffered, initialized)

/-- `file_mapping::initialize`. -/
def initializePages (base mapped bytes : Nat) : VmM Unit := do
  let (buffered, initialized) ← readInto base bytes bytes 0 0 0
  let last := if buffered ≠ 0 then pageSize else 0
  mapInitialized (base + initialized) last
  mapInitialized (base + initialized + last) (mapped - (initialized + last))

def fileMappingSource (bytes : Nat) : VmM Bool :=
  if bytes ≠ 0 then do
    let (source, _) ← requestValues
    return source ≠ 0
  else return false

def fillPages (base mapped bytes : Nat) : VmM Unit := do
  if ← fileMappingSource bytes then requestProcessMapInitializedAt base mapped
  else initializePages base mapped bytes

/-- What `sys_file_mmap` does once it has reserved the range. -/
def fillPrivate (pid base mapped bytes prot : Nat) : VmM Unit := do
  let s ← get
  if !(s.managed pid && s.mappings.canProtectMapping base mapped) then throw .enomem
  else
    fillPages base mapped bytes
    setHardwareProtection base mapped prot
    if ← protectMapping pid base mapped prot then return else throw .enomem

def sysFileMmap (pid addr len prot flags : Nat) (file : LinuxFile) (offset : Nat) : VmM Nat := do
  if unaligned offset ∨ offset > isizeMax then throw .einval
  else if flags &&& 3 ≠ 1 ∧ flags &&& 3 ≠ 2 then throw .eopnotsupp
  else if file.resource &&& linuxOAccmode = linuxOWronly then throw .eacces
  else
    let (fileSize, kind) ← requestValues
    if kind ≠ posixFileTypeRegular then throw .enodev
    else if flags &&& 3 = 1 then Memfd.mapReadFile pid addr len prot flags fileSize offset
    else if prot = linuxProtNone then throw .eopnotsupp
    else
      let mapped ← okOr (pageCeil len) .enomem
      let base ← mmapAnonymous pid addr mapped linuxProtNone (flags ||| linuxMapAnonymous)
      orUnmap pid base mapped (fillPrivate pid base mapped (min mapped (fileSize - offset)) prot)
      return base

def sysMmap (pid addr len prot flags fd offset : Nat) : VmM Nat := do
  mmapChecks addr len prot flags
  if flags &&& linuxMapAnonymous = 0 then
    let s ← get
    let file ← okOr (s.linuxFile fd) .ebadf
    match file.kind with
    | .ioUring => ioUringMap pid addr len prot flags file offset
    | .memoryFile =>
      Memfd.map pid addr len prot flags file.resource (file.flags &&& 3 = 0) offset
    | .framebuffer =>
      if addr ≠ 0 ∧ flags &&& linuxMapFixed ≠ 0 then throw .einval
      else sysFramebufferMmap pid file len prot offset
    | .posix => sysFileMmap pid addr len prot flags file offset
    | _ => throw .enodev
  else if flags &&& 3 = 1 then Memfd.mapAnonymous pid addr len prot flags
  else mmapPrivate pid addr len prot flags

/-! ## mremap -/

/-- The copy by chunks of `copy_same_process_range`. -/
def copyFrom (size chunk : Nat) : Nat → Nat → VmM Unit
  | 0, _ => return
  | rounds + 1, copied => do
    if copied < size then
      request
      request
      copyFrom size chunk rounds (copied + min chunk (size - copied))
    else return

def forkCopyChunk (s : VmRuntime) : Nat :=
  let limit := min s.posixShmSize 0x10000
  if limit < pageSize then pageSize else pageFloor limit

def copySameProcessRange (size : Nat) : VmM Unit := do
  if size = 0 then return
  else
    match ← attempt request with
    | .ok _ => return
    | .error _ =>
      let s ← get
      copyFrom size (forkCopyChunk s) size 0

namespace Memfd

def growFile (id length : Nat) : VmM Unit := do
  let file ← getObject id
  if file.anonymous ∧ length > file.size then truncate id length else return

def copyPrivate (pid id : Nat) (mapping : MemoryMapping) (offset target oldSize newSize : Nat) :
    VmM Unit :=
  if mapping.shared then return
  else do
    let file ← getObject id
    orUnmap pid target newSize
      (copySameProcessRange (min (min oldSize newSize) (alignUpWord (file.size - offset))))

def remap (pid old oldSize newSize flags newAddress prot : Nat) : VmM (Option Nat) := do
  let s ← get
  match mappingAt s pid old with
  | none => return none
  | some (id, mapping) =>
    if mapping.attachment.isSome then throw .eopnotsupp
    else if (checkedAdd old oldSize).elim true (· > mapping.base + mapping.bytes) then throw .einval
    else if flags &&& linuxMremapMaymove = 0 then throw .enomem
    else
      let offset := mapping.offset + old - mapping.base
      if flags &&& linuxMremapFixed ≠ 0 ∧
          (checkedAdd newAddress newSize).elim true
            (fun stop => newAddress < old + oldSize ∧ old < stop) then throw .einval
      else
        growFile id (offset + newSize)
        let target ← map pid newAddress newSize prot
          ((if mapping.shared then 1 else 2) |||
            (if flags &&& linuxMremapFixed ≠ 0 then linuxMapFixed else 0)) id true offset
        copyPrivate pid id mapping offset target oldSize newSize
        let _ ← sysMunmap pid old oldSize
        return some target

end Memfd

def growInPlace (pid oldEnd extra prot : Nat) : VmM Bool := do
  match ← attempt (requestProcessMapAnonymous pid (some oldEnd) extra) with
  | .error _ => return false
  | .ok (base, granted) =>
    if base = oldEnd ∧ granted ≥ extra then
      if ← addMapping pid base granted prot then
        setHardwareProtection base granted prot
        return true
      else return false
    else return false

def grownInPlace (pid oldEnd extra flags prot : Nat) : VmM Bool :=
  if flags &&& linuxMremapFixed = 0 ∧ extra ≠ 0 then growInPlace pid oldEnd extra prot
  else return false

def moveTarget (pid newMapped flags newAddr prot : Nat) : VmM Nat :=
  if flags &&& linuxMremapFixed ≠ 0 then
    mmapAnonymous pid newAddr newMapped prot (linuxMapFixed ||| linuxMapAnonymous)
  else mmapAnonymous pid 0 newMapped prot linuxMapAnonymous

def moveMapping (pid oldAddr oldMapped newMapped flags newAddr prot : Nat) : VmM Nat := do
  let target ← moveTarget pid newMapped flags newAddr prot
  orUnmap pid target newMapped (copySameProcessRange (min oldMapped newMapped))
  let _ ← sysMunmap pid oldAddr oldMapped
  return target

def sysMremap (pid oldAddr oldSize newSize flags newAddr : Nat) : VmM Nat := do
  if oldAddr = 0 ∨ oldSize = 0 ∨ newSize = 0 ∨ unaligned oldAddr then throw .einval
  else if flags &&& complement linuxMremapSupportedFlags ≠ 0 then throw .einval
  else if flags &&& linuxMremapFixed ≠ 0 ∧
      (flags &&& linuxMremapMaymove = 0 ∨ newAddr = 0 ∨ unaligned newAddr) then throw .einval
  else
    let oldMapped ← okOr (pageCeil oldSize) .enomem
    let newMapped ← okOr (pageCeil newSize) .enomem
    let s ← get
    let prot ← okOr (if s.managed pid then s.mappings.mappingProt oldAddr oldMapped else none) .einval
    if newMapped = oldMapped ∧ flags &&& linuxMremapFixed = 0 then return oldAddr
    else if newMapped < oldMapped ∧ flags &&& linuxMremapFixed = 0 then
      let _ ← sysMunmap pid (oldAddr + newMapped) (oldMapped - newMapped)
      return oldAddr
    else
      let oldEnd ← okOr (checkedAdd oldAddr oldMapped) .enomem
      match ← Memfd.remap pid oldAddr oldMapped newMapped flags newAddr prot with
      | some target => return target
      | none =>
        if ← grownInPlace pid oldEnd (newMapped - oldMapped) flags prot then return oldAddr
        else if flags &&& linuxMremapMaymove = 0 then throw .enomem
        else moveMapping pid oldAddr oldMapped newMapped flags newAddr prot

end VmRuntime

end Nanami.Alter
