import Nanami.Nun
import Nanami.Lib.Wp
import Nanami.Block.Gpt

/-!
# The block devices

The READ and WRITE requests of the four servers that offer a block device: the RAM disk, `virtio-blk`,
AHCI and USB mass storage. A run records the bytes of the medium that a command names, as the device
reads them from the command's fields, and the bytes of shared memory that are copied. Sums are those of
the release profile: they wrap unless the code checks them.

What a device answers is given from outside. A disk is its capacity and its bytes; the partition that a
server offers is found on it when the server starts.
-/

namespace Nanami.Block

open Lib Gpt

def blockSize : Nat := 1024
def sectorBytes : Nat := 512

/-- `BLOCK_DEVICE_DEFAULT_SHM_BYTES`, the most that one request transfers. -/
def maxTransferBytes : Nat := 0x10000

/-- `BLOCK_COUNT` of the RAM disk. -/
def ramdiskBlocks : Nat := 64

structure ClientSession where
  active : Bool
  pid : Nat
  shmSize : Word

/-- A READ or WRITE request: the first block, the number of blocks and the offset in shared memory. -/
structure Request where
  identifier : Nat
  arg0 : Word
  arg1 : Word
  arg2 : Word
  write : Bool

structure Span where
  start : Nat
  length : Nat
  deriving DecidableEq, Repr

structure Trace where
  media : List Span
  shm : List Span

abbrev Driver := EStateM RequestError Trace

/-- What the device does with a command: it may not take it, and what it answers. For USB the answer has
the bytes that were transferred. -/
structure Device where
  ready : Bool
  answer : Except RequestError (Bool × Nat)

def issue (lba sectors : Nat) : Driver Unit :=
  modify fun t => { t with media := ⟨lba * sectorBytes, sectors * sectorBytes⟩ :: t.media }

def copyShm (offset bytes : Nat) : Driver Unit :=
  modify fun t => { t with shm := ⟨offset, bytes⟩ :: t.shm }

/-- `map_or(true, |end| end > limit)`. -/
def beyond (last : Option Nat) (limit : Nat) : Bool := last.elim true (· > limit)

def ClientSession.owns (session : ClientSession) (request : Request) : Bool :=
  session.active && session.pid == request.identifier

/-! ### RAM disk -/

/-- `handle_read` and `handle_write` of the RAM disk, whose sums wrap. -/
def handleRamdisk (session : ClientSession) (request : Request) : Driver Nat := do
  if !session.owns request then throw .invalidArgument
  else
    let block := request.arg0.toNat
    let count := request.arg1.toNat
    let offset := request.arg2.toNat
    if count = 0 ∨ block ≥ ramdiskBlocks ∨ wrappingAdd block count > ramdiskBlocks then
      throw .invalidArgument
    else
      let bytes := count * blockSize % wordSize
      if wrappingAdd offset bytes > session.shmSize.toNat then throw .invalidArgument
      else
        modify fun t => { t with media := ⟨block * blockSize, bytes⟩ :: t.media }
        copyShm offset bytes
        return bytes

/-! ### Disks -/

/-- A disk: its sectors, what is on them, and which of them can be read. -/
structure Disk where
  capacity : Nat
  fits : capacity < wordSize
  content : Nat → UInt8
  readable : Nat → Bool

def Disk.read (disk : Disk) (lba sectors : Nat) : List UInt8 :=
  (List.range (sectors * sectorBytes)).map fun i => disk.content (lba * sectorBytes + i)

/-- What `virtio-blk` and AHCI keep about their disk. -/
structure BlockRuntime where
  diskCapacitySectors : Nat
  partitionStartSector : Nat
  partitionSectors : Nat
  deriving DecidableEq, Repr

def partitionSector (block : Nat) : Option Nat := checkedMul block (blockSize / sectorBytes)

def tableError {α : Type} (e : RequestError) (r : Except Error α) : Except RequestError α :=
  match r with
  | .ok a => .ok a
  | .error _ => .error e

/-! ### virtio -/

/-- The check of `submit_blk_request_dma`. -/
def virtioRejects (capacity sector bytes : Nat) : Bool :=
  bytes = 0 || bytes > maxTransferBytes || bytes % sectorBytes ≠ 0 ||
    beyond (checkedAdd sector (bytes / sectorBytes)) capacity

/-- `submit_blk_request_dma` for a read or a write. -/
def submitBlkRequestDma (runtime : BlockRuntime) (device : Device) (sector bytes : Nat) :
    Driver Unit := do
  if virtioRejects runtime.diskCapacitySectors sector bytes then throw .invalidArgument
  else
    issue sector (bytes / sectorBytes)
    match device.answer with
    | .ok _ => return
    | .error e => throw e

def submitPartitionRequestDma (runtime : BlockRuntime) (device : Device) (blockIndex bytes : Nat) :
    Driver Unit := do
  let sector ← okOr (partitionSector blockIndex) .invalidArgument
  if beyond (checkedAdd sector (bytes / sectorBytes)) runtime.partitionSectors then
    throw .invalidArgument
  else
    let sector ← okOr (checkedAdd runtime.partitionStartSector sector) .invalidArgument
    submitBlkRequestDma runtime device sector bytes

/-- `handle_read` and `handle_write`: the shared memory is copied after a read and before a write. -/
def handleVirtio (runtime : BlockRuntime) (device : Device) (session : ClientSession)
    (request : Request) : Driver Nat := do
  if !session.owns request then throw .invalidArgument
  else
    let count := request.arg1.toNat
    let offset := request.arg2.toNat
    let bytes ← okOr (checkedMul count blockSize) .invalidArgument
    if count = 0 ∨ beyond (checkedAdd offset bytes) session.shmSize.toNat ∨ bytes > maxTransferBytes then
      throw .invalidArgument
    else if request.write then
      copyShm offset bytes
      submitPartitionRequestDma runtime device request.arg0.toNat bytes
      return bytes
    else
      submitPartitionRequestDma runtime device request.arg0.toNat bytes
      copyShm offset bytes
      return bytes

/-- The sectors that `select_nanami_root` reads. -/
def virtioRead (disk : Disk) (lba bytes : Nat) : Except RequestError (List UInt8) :=
  if virtioRejects disk.capacity lba bytes then .error .invalidArgument
  else if disk.readable lba then .ok (disk.read lba (bytes / sectorBytes))
  else .error .unsupported

def selectNanamiRoot (disk : Disk) : Except RequestError BlockRuntime := do
  let sector ← virtioRead disk 1 sectorBytes
  let header ← tableError .protocol (parsePrimaryHeader sector disk.capacity)
  let entryBytes ← tableError .unsupported header.partitionEntryBytes
  let entries ← virtioRead disk header.partitionEntryLba (entrySectors entryBytes * sectorBytes)
  let partition ← tableError .protocol (findNanamiRoot header entries)
  return ⟨disk.capacity, partition.firstLba, partition.sectorCount⟩

/-- Without a partition table, as on the platform that has none: the whole disk. -/
def wholeDisk (disk : Disk) : BlockRuntime := ⟨disk.capacity, 0, disk.capacity⟩

/-! ### AHCI -/

def fisLba (lba : Nat) : Nat := lba % 2 ^ 48

def fisSectors (sectors : Nat) : Nat := sectors % 2 ^ 16

/-- The check of `transfer_absolute`. -/
def ahciRejects (capacity lba bytes : Nat) : Bool :=
  bytes = 0 || bytes > maxTransferBytes || bytes % sectorBytes ≠ 0 ||
    bytes / sectorBytes > 0xffff || beyond (checkedAdd lba (bytes / sectorBytes)) capacity

/-- `prepare_command` and `submit`. -/
def ahciCommand (device : Device) (lba sectors bytes : Nat) : Driver Unit := do
  if bytes > maxTransferBytes ∨ bytes > 0x00400000 ∨ (bytes ≠ 0 ∧ fisSectors sectors = 0) then
    throw .invalidArgument
  else if !device.ready then throw .transport
  else
    issue (fisLba lba) (fisSectors sectors)
    match device.answer with
    | .ok _ => return
    | .error e => throw e

def transferAbsolute (runtime : BlockRuntime) (device : Device) (lba bytes : Nat) : Driver Unit :=
  if ahciRejects runtime.diskCapacitySectors lba bytes then throw .invalidArgument
  else ahciCommand device lba (bytes / sectorBytes) bytes

def transfer (runtime : BlockRuntime) (device : Device) (blockIndex bytes : Nat) : Driver Unit := do
  if bytes = 0 ∨ bytes > maxTransferBytes ∨ bytes % sectorBytes ≠ 0 then throw .invalidArgument
  else
    let sector ← okOr (partitionSector blockIndex) .invalidArgument
    if bytes / sectorBytes > 0xffff ∨
        beyond (checkedAdd sector (bytes / sectorBytes)) runtime.partitionSectors then
      throw .invalidArgument
    else
      let lba ← okOr (checkedAdd runtime.partitionStartSector sector) .invalidArgument
      transferAbsolute runtime device lba bytes

/-- `handle_transfer`. -/
def handleAhci (runtime : BlockRuntime) (device : Device) (session : ClientSession)
    (request : Request) : Driver Nat := do
  if !session.owns request then throw .invalidArgument
  else
    let offset := request.arg2.toNat
    let bytes ← okOr (checkedMul request.arg1.toNat blockSize) .invalidArgument
    if request.arg1 = 0 ∨ beyond (checkedAdd offset bytes) session.shmSize.toNat ∨
        bytes > maxTransferBytes then
      throw .invalidArgument
    else if request.write then
      copyShm offset bytes
      transfer runtime device request.arg0.toNat bytes
      return bytes
    else
      transfer runtime device request.arg0.toNat bytes
      copyShm offset bytes
      return bytes

/-- The sectors that `find_root_partition` reads. -/
def ahciRead (disk : Disk) (lba bytes : Nat) : Except RequestError (List UInt8) :=
  if ahciRejects disk.capacity lba bytes then .error .invalidArgument
  else if disk.readable (fisLba lba) then .ok (disk.read (fisLba lba) (fisSectors (bytes / sectorBytes)))
  else .error .transport

/-- `find_root_partition`, and what `initialize` keeps of it. -/
def findRootPartition (disk : Disk) : Except RequestError BlockRuntime := do
  let sector ← ahciRead disk 1 sectorBytes
  let header ← tableError .unsupported (parsePrimaryHeader sector disk.capacity)
  let entryBytes ← tableError .unsupported header.partitionEntryBytes
  let entries ← ahciRead disk header.partitionEntryLba (entrySectors entryBytes * sectorBytes)
  match findNanamiRoot header entries with
  | .ok partition => return ⟨disk.capacity, partition.firstLba, partition.sectorCount⟩
  | .error .ambiguous => throw .protocol
  | .error _ => throw .unsupported

/-! ### USB mass storage -/

def blockRange (first sectors block count : Nat) : Option (Nat × Nat) := do
  let relative ← checkedMul block 2
  let length ← checkedMul count 2
  let bytes ← checkedMul count 1024
  if count = 0 || bytes > maxTransferBytes || (← checkedAdd relative length) > sectors then none
  else some (← checkedAdd first relative, bytes)

/-- The fields of a READ or WRITE command, of ten bytes or of sixteen. -/
structure Cdb where
  length : Nat
  lba : Nat
  sectors : Nat

def readWrite (lba sectors : Nat) : Option Cdb := do
  let last ← checkedAdd lba (← checkedSub sectors 1)
  if last ≤ 0xffffffff && sectors ≤ 0xffff then some ⟨10, lba % 2 ^ 32, sectors % 2 ^ 16⟩
  else some ⟨16, lba, sectors % 2 ^ 32⟩

/-- `scsi` with a READ or WRITE command: a disk that is gone takes none. -/
def scsi (device : Device) (cdb : Cdb) : Driver (Bool × Nat) := do
  if !device.ready then throw .transport
  else
    issue cdb.lba cdb.sectors
    match device.answer with
    | .ok answer => return answer
    | .error e => throw e

/-- The part of `handle` for a READ or WRITE request; without a session nobody owns the request. -/
def handleUsb (partition : Partition) (device : Device) (session : ClientSession) (request : Request) :
    Driver Nat := do
  if !device.ready then throw .transport
  else if !session.owns request then throw .invalidArgument
  else
    let (lba, bytes) ← okOr
      (blockRange partition.firstLba partition.sectorCount request.arg0.toNat request.arg1.toNat)
      .invalidArgument
    if beyond (checkedAdd request.arg2.toNat bytes) session.shmSize.toNat then throw .invalidArgument
    else
      copyShm request.arg2.toNat bytes
      let cdb ← okOr (readWrite lba (bytes / sectorBytes % 2 ^ 32)) .invalidArgument
      let (passed, transferred) ← scsi device cdb
      if !passed ∨ transferred ≠ bytes then throw .protocol
      else return bytes

/-- The sectors that `probe_disk` reads. -/
def usbRead (disk : Disk) (lba sectors : Nat) : Except RequestError (List UInt8) :=
  match readWrite lba (sectors % 2 ^ 32) with
  | none => .error .invalidArgument
  | some cdb => if disk.readable cdb.lba then .ok (disk.read cdb.lba cdb.sectors) else .error .protocol

/-- The end of `probe_disk`, for a disk whose sectors have 512 bytes. -/
def probeDisk (disk : Disk) : Except RequestError (Option Partition) := do
  if disk.capacity < 3 then return none
  else
    let sector ← usbRead disk 1 1
    match parsePrimaryHeader sector disk.capacity with
    | .error _ => return none
    | .ok header =>
      let entryBytes ← tableError .protocol header.partitionEntryBytes
      let entries ← usbRead disk header.partitionEntryLba (entrySectors entryBytes)
      match findNanamiRoot header entries with
      | .ok partition => return some partition
      | .error .ambiguous => throw .protocol
      | .error _ => return none

/-! ### The backends -/

/-- A server that offers a block device: one with a disk has found its partition when it started. -/
inductive Backend where
  | ramdisk
  | virtioWhole (disk : Disk)
  | virtio (disk : Disk) (runtime : BlockRuntime) (found : selectNanamiRoot disk = .ok runtime)
  | ahci (disk : Disk) (runtime : BlockRuntime) (found : findRootPartition disk = .ok runtime)
  | usb (disk : Disk) (partition : Partition) (found : probeDisk disk = .ok (some partition))

namespace Backend

def handle (b : Backend) (device : Device) (session : ClientSession) (request : Request) : Driver Nat :=
  match b with
  | ramdisk => handleRamdisk session request
  | virtioWhole disk => handleVirtio (wholeDisk disk) device session request
  | virtio _ runtime _ => handleVirtio runtime device session request
  | ahci _ runtime _ => handleAhci runtime device session request
  | usb _ partition _ => handleUsb partition device session request

def exportedBlocks : Backend → Nat
  | ramdisk => ramdiskBlocks
  | virtioWhole disk => disk.capacity / (blockSize / sectorBytes)
  | virtio _ runtime _ => runtime.partitionSectors / (blockSize / sectorBytes)
  | ahci _ runtime _ => runtime.partitionSectors / (blockSize / sectorBytes)
  | usb _ partition _ => partition.sectorCount / 2

def base : Backend → Nat
  | ramdisk => 0
  | virtioWhole _ => 0
  | virtio _ runtime _ => runtime.partitionStartSector * sectorBytes
  | ahci _ runtime _ => runtime.partitionStartSector * sectorBytes
  | usb _ partition _ => partition.firstLba * sectorBytes

end Backend

end Nanami.Block
