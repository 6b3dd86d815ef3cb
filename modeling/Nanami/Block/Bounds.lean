import Nanami.Block.Drivers

/-!
# Block requests stay inside the device

A READ or WRITE request reaches the medium only if its blocks lie inside what the server offers and its
bytes inside the client's shared memory, and it reaches exactly those blocks. On a disk they lie inside
the partition, which lies in the usable sectors of a partition table with correct checksums.

`virtio-blk` and USB check every sum. The RAM disk does not: its sums wrap. AHCI checks them, but the
sector number in its commands has 48 bits.
-/

namespace Nanami.Block

open Lib Gpt Option Request

def Request.bytes (request : Request) : Nat := request.arg1.toNat * blockSize

def Span.Within (a b : Span) : Prop := b.start ≤ a.start ∧ a.start + a.length ≤ b.start + b.length

/-- The partition is the root partition of a table on the disk whose checksums match. `address` is where
the driver's commands read a sector. -/
def Located (address : Nat → Nat) (disk : Disk) (p : Partition) : Prop :=
  ∃ header entryBytes entries sectors,
    parsePrimaryHeader (disk.read 1 1) disk.capacity = .ok header ∧ HeaderCrcMatches (disk.read 1 1) ∧
    header.lastUsableLba < disk.capacity ∧
    entries = disk.read (address header.partitionEntryLba) sectors ∧ EntryCrcMatches header entries ∧
    header.partitionEntryBytes = .ok entryBytes ∧
    UniqueRoot header (chunksExact header.partitionEntrySize (entries.take entryBytes)) p ∧
    header.Holds p

namespace Backend

def extent : Backend → Span
  | ramdisk => ⟨0, ramdiskBlocks * blockSize⟩
  | virtioWhole disk => ⟨0, disk.capacity * sectorBytes⟩
  | virtio _ runtime _ =>
    ⟨runtime.partitionStartSector * sectorBytes, runtime.partitionSectors * sectorBytes⟩
  | ahci _ runtime _ =>
    ⟨runtime.partitionStartSector * sectorBytes, runtime.partitionSectors * sectorBytes⟩
  | usb _ partition _ => ⟨partition.firstLba * sectorBytes, partition.sectorCount * sectorBytes⟩

def OnTable : Backend → Prop
  | ramdisk => True
  | virtioWhole _ => True
  | virtio disk runtime _ => Located id disk ⟨runtime.partitionStartSector, runtime.partitionSectors⟩
  | ahci disk runtime _ => Located fisLba disk ⟨runtime.partitionStartSector, runtime.partitionSectors⟩
  | usb disk partition _ => Located id disk partition

variable (b : Backend) (session : ClientSession) (request : Request)

/-- The range of a request is inside the device and inside the client's shared memory. -/
structure Valid : Prop where
  owner : session.owns request = true
  nonempty : request.arg1.toNat ≠ 0
  blocks : request.arg0.toNat + request.arg1.toNat ≤ b.exportedBlocks
  shm : request.arg2.toNat + request.bytes ≤ session.shmSize.toNat

def requested : Span := ⟨b.base + request.arg0.toNat * blockSize, request.bytes⟩

structure Inside (t : Trace) : Prop where
  requested : ∀ m ∈ t.media, m.Within (b.requested request)
  extent : ∀ m ∈ t.media, m.Within b.extent
  shm : ∀ m ∈ t.shm, m.start + m.length ≤ session.shmSize.toNat

/-- Whatever the device answers, the request is executed only if it is valid, and touches nothing else;
and the device is the root partition of its disk. -/
def Obeys : Prop :=
  b.OnTable ∧ ∀ device,
    let t := stateAfter (b.handle device session request) ⟨[], []⟩
    (succeeds (b.handle device session request) ⟨[], []⟩ = true ∨ t.media ≠ [] →
      b.Valid session request) ∧ b.Inside session request t

/-- Where the sums of the RAM disk do not wrap and the sectors of AHCI have 48 bits. -/
def Fits : Prop :=
  match b with
  | ramdisk =>
    session.owns request = true → request.arg1.toNat ≠ 0 → request.arg0.toNat < ramdiskBlocks →
      wrappingAdd request.arg0.toNat request.arg1.toNat ≤ ramdiskBlocks →
      wrappingAdd request.arg2.toNat (request.bytes % wordSize) ≤ session.shmSize.toNat →
      request.arg0.toNat + request.arg1.toNat < wordSize ∧
        request.arg2.toNat + request.bytes < wordSize
  | ahci disk runtime found =>
    (ahci disk runtime found).Valid session request → request.bytes ≤ maxTransferBytes →
      runtime.partitionStartSector + 2 * request.arg0.toNat < 2 ^ 48
  | _ => True

end Backend

/-! ### Partition tables -/

section Tables

variable {disk : Disk} {runtime : BlockRuntime} {p : Partition}

lemma tableError_ok {α} {e : RequestError} {r : Except Error α} {a : α}
    (h : tableError e r = .ok a) : r = .ok a := by
  cases r with
  | ok a' =>
    cases h
    rfl
  | error e' => cases h

lemma located {address header entryBytes sectors}
    (hheader : parsePrimaryHeader (disk.read 1 1) disk.capacity = .ok header)
    (hbytes : header.partitionEntryBytes = .ok entryBytes)
    (hroot : findNanamiRoot header (disk.read (address header.partitionEntryLba) sectors) = .ok p) :
    Located address disk p := by
  obtain ⟨hcrc, hlast⟩ := parsePrimaryHeader_spec hheader
  obtain ⟨n, hn, hentries, hunique, hholds⟩ := findNanamiRoot_spec hroot
  obtain rfl : n = entryBytes := Except.ok.inj (hn.symm.trans hbytes)
  exact ⟨header, n, _, sectors, hheader, hcrc, hlast, rfl, hentries, hbytes, hunique, hholds⟩

variable {lba bytes sectors : Nat} {data : List UInt8}

lemma virtioRead_ok (h : virtioRead disk lba bytes = .ok data) :
    data = disk.read lba (bytes / sectorBytes) := by
  rw [virtioRead] at h
  split at h
  · cases h
  · split at h
    · cases h
      rfl
    · cases h

lemma ahciRead_ok (h : ahciRead disk lba bytes = .ok data) :
    data = disk.read (fisLba lba) (fisSectors (bytes / sectorBytes)) := by
  rw [ahciRead] at h
  split at h
  · cases h
  · split at h
    · cases h
      rfl
    · cases h

lemma readWrite_some {cdb} (h : readWrite lba sectors = some cdb) (hs : sectors < 2 ^ 32) :
    cdb.lba = lba ∧ cdb.sectors = sectors := by
  obtain ⟨before, hbefore, h⟩ := bind_eq_some_iff.mp h
  obtain ⟨last, hlast, h⟩ := bind_eq_some_iff.mp h
  rw [checkedAdd_eq_some] at hlast
  split at h
  · next hsmall =>
    cases h
    rw [Bool.and_eq_true, decide_eq_true_eq, decide_eq_true_eq] at hsmall
    exact ⟨Nat.mod_eq_of_lt (by omega), Nat.mod_eq_of_lt (by omega)⟩
  · cases h
    exact ⟨rfl, Nat.mod_eq_of_lt hs⟩

lemma selectNanamiRoot_located (h : selectNanamiRoot disk = .ok runtime) :
    Located id disk ⟨runtime.partitionStartSector, runtime.partitionSectors⟩ := by
  obtain ⟨sector, hsector, h⟩ := bind_ok h
  obtain ⟨header, hheader, h⟩ := bind_ok h
  obtain ⟨entryBytes, hbytes, h⟩ := bind_ok h
  obtain ⟨entries, hentries, h⟩ := bind_ok h
  obtain ⟨partition, hroot, h⟩ := bind_ok h
  cases h
  rw [virtioRead_ok hsector] at hheader
  have hroot := tableError_ok hroot
  rw [virtioRead_ok hentries] at hroot
  exact @located disk _ id _ _ _ (tableError_ok hheader) (tableError_ok hbytes) hroot

lemma findRootPartition_located (h : findRootPartition disk = .ok runtime) :
    Located fisLba disk ⟨runtime.partitionStartSector, runtime.partitionSectors⟩ ∧
      runtime.diskCapacitySectors = disk.capacity := by
  obtain ⟨sector, hsector, h⟩ := bind_ok h
  obtain ⟨header, hheader, h⟩ := bind_ok h
  obtain ⟨entryBytes, hbytes, h⟩ := bind_ok h
  obtain ⟨entries, hentries, h⟩ := bind_ok h
  rw [ahciRead_ok hsector] at hheader
  split at h
  · next partition hroot =>
    cases h
    rw [ahciRead_ok hentries] at hroot
    exact ⟨located (tableError_ok hheader) (tableError_ok hbytes) hroot, rfl⟩
  · cases h
  · cases h

lemma usbRead_ok (h : usbRead disk lba sectors = .ok data) :
    data = disk.read lba (sectors % 2 ^ 32) := by
  rw [usbRead] at h
  split at h
  · cases h
  · next cdb hcdb =>
    obtain ⟨hlba, hsectors⟩ := readWrite_some hcdb (Nat.mod_lt _ (by norm_num))
    split at h
    · cases h
      rw [hlba, hsectors]
    · cases h

lemma probeDisk_located (h : probeDisk disk = .ok (some p)) : Located id disk p := by
  rw [probeDisk] at h
  split at h
  · cases h
  · obtain ⟨sector, hsector, h⟩ := bind_ok h
    have hfirst := usbRead_ok hsector
    split at h
    · cases h
    · next header hheader =>
      obtain ⟨entryBytes, hbytes, h⟩ := bind_ok h
      obtain ⟨entries, hentries, h⟩ := bind_ok h
      split at h
      · next partition hroot =>
        cases h
        rw [hfirst] at hheader
        rw [usbRead_ok hentries] at hroot
        exact @located disk _ id _ _ _ hheader (tableError_ok hbytes) hroot
      · cases h
      · cases h

lemma Backend.onTable (b : Backend) : b.OnTable := by
  cases b with
  | ramdisk => trivial
  | virtioWhole disk => trivial
  | virtio disk runtime found => exact selectNanamiRoot_located found
  | ahci disk runtime found => exact (findRootPartition_located found).1
  | usb disk partition found => exact probeDisk_located found

lemma Located.le {address} (h : Located address disk p) :
    p.firstLba + p.sectorCount ≤ disk.capacity := by
  obtain ⟨header, entryBytes, entries, sectors, -, -, hlast, -, -, -, -, hholds⟩ := h
  obtain ⟨-, -, hle⟩ := hholds
  omega

end Tables

/-! ### The checks of the drivers -/

section Drivers

variable {runtime : BlockRuntime} {device : Device} {session : ClientSession} {request : Request}
  {t : Trace} {block bytes : Nat} {a b limit : Nat}

lemma not_beyond (h : ¬beyond (checkedAdd a b) limit = true) : a + b ≤ limit := by
  cases hsum : checkedAdd a b with
  | none =>
    rw [hsum] at h
    exact absurd rfl h
  | some last =>
    rw [hsum] at h
    rw [checkedAdd_eq_some] at hsum
    simp only [beyond, elim_some, decide_eq_true_eq] at h
    omega

lemma beyond_eq_false (h : a + b ≤ limit) (hlimit : limit < wordSize) :
    beyond (checkedAdd a b) limit = false := by
  rw [checkedAdd_of_lt (lt_of_le_of_lt h hlimit), beyond, elim_some, decide_eq_false_iff_not]
  omega

/-- A command was issued for the sectors of some blocks, as its fields name them. -/
structure Issued (address : Nat → Nat) (runtime : BlockRuntime) (block bytes : Nat) (t u : Trace) :
    Prop where
  media : u.media = ⟨address (runtime.partitionStartSector + 2 * block) * sectorBytes,
    bytes / sectorBytes * sectorBytes⟩ :: t.media
  shm : u.shm = t.shm
  le : 2 * block + bytes / sectorBytes ≤ runtime.partitionSectors

lemma issued_of_checks {address sector lba sectors} (hsector : partitionSector block = some sector)
    (hle : ¬beyond (checkedAdd sector (bytes / sectorBytes)) runtime.partitionSectors = true)
    (hlba : checkedAdd runtime.partitionStartSector sector = some lba)
    (hsectors : sectors = bytes / sectorBytes) :
    Issued address runtime block bytes t
      { t with media := ⟨address lba * sectorBytes, sectors * sectorBytes⟩ :: t.media } := by
  rw [partitionSector, checkedMul_eq_some] at hsector
  rw [checkedAdd_eq_some] at hlba
  obtain rfl : sector = 2 * block := hsector.1.symm.trans (mul_comm _ _)
  rw [← hlba.1, hsectors]
  exact ⟨rfl, rfl, not_beyond hle⟩

lemma submitPartition_spec :
    wp (submitPartitionRequestDma runtime device block bytes)
      (fun _ => Issued id runtime block bytes t)
      (fun _ u => u = t ∨ Issued id runtime block bytes t u) t := by
  refine wp_lookup (.inl rfl) fun sector hsector => wp_guard (.inl rfl) fun hle => ?_
  refine wp_lookup (.inl rfl) fun lba hlba => wp_guard (.inl rfl) fun _ => ?_
  have hissued : Issued id runtime block bytes t _ := issued_of_checks hsector hle hlba rfl
  split
  · exact hissued
  · exact .inr hissued

lemma transfer_spec :
    wp (transfer runtime device block bytes) (fun _ => Issued fisLba runtime block bytes t)
      (fun _ u => u = t ∨ Issued fisLba runtime block bytes t u) t := by
  refine wp_guard (.inl rfl) fun _ => ?_
  refine wp_lookup (.inl rfl) fun sector hsector => wp_guard (.inl rfl) fun hle => ?_
  rw [not_or] at hle
  refine wp_lookup (.inl rfl) fun lba hlba => wp_guard (.inl rfl) fun _ => ?_
  have hcount : fisSectors (bytes / sectorBytes) = bytes / sectorBytes :=
    Nat.mod_eq_of_lt (by omega)
  have hissued : Issued fisLba runtime block bytes t _ := issued_of_checks hsector hle.2 hlba hcount
  refine wp_guard (.inl rfl) fun _ => wp_guard (.inl rfl) fun _ => ?_
  split
  · exact hissued
  · exact .inr hissued

def willing : Device := ⟨true, .ok (true, 0)⟩

/-- A transfer inside the partition is done by a device that is willing. -/
lemma transfer_succeeds (hpos : bytes ≠ 0) (hmax : bytes ≤ maxTransferBytes)
    (hwhole : bytes % sectorBytes = 0)
    (hle : 2 * block + bytes / sectorBytes ≤ runtime.partitionSectors)
    (hend : runtime.partitionStartSector + runtime.partitionSectors ≤ runtime.diskCapacitySectors)
    (hcap : runtime.diskCapacitySectors < wordSize) :
    sure (transfer runtime willing block bytes) (fun _ => Issued fisLba runtime block bytes t)
      t := by
  have hruns : sure (transfer runtime willing block bytes) (fun _ _ => True) t := by
    have hcount : bytes / sectorBytes ≤ 0xffff := by
      simp only [maxTransferBytes, sectorBytes] at *
      omega
    have hfirst : 2 * block ≤ runtime.partitionSectors := le_trans (Nat.le_add_right _ _) hle
    have hsector : partitionSector block = some (2 * block) := by
      rw [partitionSector, checkedMul_eq_some]
      exact ⟨mul_comm _ _, by omega⟩
    have hlba : checkedAdd runtime.partitionStartSector (2 * block) =
        some (runtime.partitionStartSector + 2 * block) := checkedAdd_of_lt (by omega)
    have hinside : beyond (checkedAdd (2 * block) (bytes / sectorBytes)) runtime.partitionSectors = false :=
      beyond_eq_false hle (by omega)
    have hdisk : beyond (checkedAdd (runtime.partitionStartSector + 2 * block) (bytes / sectorBytes))
        runtime.diskCapacitySectors = false := beyond_eq_false (by omega) hcap
    have hfis : fisSectors (bytes / sectorBytes) ≠ 0 := by
      rw [fisSectors, Nat.mod_eq_of_lt (by omega)]
      simp only [sectorBytes] at *
      omega
    have hrejects : ahciRejects runtime.diskCapacitySectors (runtime.partitionStartSector + 2 * block)
        bytes = false := by
      simp [ahciRejects, hdisk, hpos, hwhole, Nat.not_lt.mpr hmax, Nat.not_lt.mpr hcount]
    rw [transfer, if_neg (by simp [hpos, hmax, hwhole]), hsector, okOr_some, pure_bind,
      if_neg (by simp [hinside, hcount]), hlba, okOr_some, pure_bind, transferAbsolute, hrejects]
    rw [if_neg Bool.false_ne_true, ahciCommand, if_neg ?_]
    · trivial
    · simp only [maxTransferBytes] at *
      omega
  exact wp_mono (wp_and transfer_spec hruns) (fun _ _ hu => hu.1) (fun _ _ hno => hno.2)

end Drivers

/-! ### The requests -/

namespace Backend

variable {b : Backend} {disk : Disk} {runtime : BlockRuntime} {partition : Partition} {device : Device}
  {session : ClientSession} {request : Request}

structure Sound (b : Backend) (session : ClientSession) (request : Request) (t : Trace) : Prop where
  media : t.media = [] ∨ b.Valid session request ∧ t.media = [b.requested request]
  shm : t.shm = [] ∨ request.arg2.toNat + request.bytes ≤ session.shmSize.toNat ∧
    t.shm = [⟨request.arg2.toNat, request.bytes⟩]

lemma Valid.within_extent (h : b.Valid session request) : (b.requested request).Within b.extent := by
  have hblocks := h.blocks
  cases b <;>
    simp only [requested, Span.Within, extent, base, exportedBlocks, bytes, blockSize, sectorBytes,
      ramdiskBlocks] at hblocks ⊢ <;>
    omega

lemma obeys_of_sound
    (h : ∀ device, wp (b.handle device session request)
      (fun _ t => b.Sound session request t ∧ t.media ≠ []) (fun _ => b.Sound session request)
      ⟨[], []⟩) : b.Obeys session request := by
  refine ⟨b.onTable, fun device => ?_⟩
  have hsound : b.Sound session request (stateAfter (b.handle device session request) ⟨[], []⟩) :=
    stateAfter_of_wp (wp_post (h device) (fun _ _ ht => ht.1))
  have hvalid : ∀ m ∈ (stateAfter (b.handle device session request) ⟨[], []⟩).media,
      b.Valid session request ∧ m = b.requested request := by
    intro m hm
    obtain hnone | ⟨hvalid, hone⟩ := hsound.media
    · rw [hnone] at hm
      cases hm
    · rw [hone, List.mem_singleton] at hm
      exact ⟨hvalid, hm⟩
  refine ⟨fun hexecuted => ?_, ⟨fun m hm => ?_, fun m hm => ?_, fun m hm => ?_⟩⟩
  · have hmedia : (stateAfter (b.handle device session request) ⟨[], []⟩).media ≠ [] := by
      refine hexecuted.elim (fun hok => ?_) id
      obtain ⟨a, t, hrun⟩ := exists_ok_of_succeeds hok
      rw [stateAfter, hrun]
      exact (wp_ok (h device) hrun).2
    obtain ⟨m, hm⟩ := List.exists_mem_of_ne_nil _ hmedia
    exact (hvalid m hm).1
  · rw [(hvalid m hm).2]
    exact ⟨le_rfl, le_rfl⟩
  · rw [(hvalid m hm).2]
    exact (hvalid m hm).1.within_extent
  · obtain hnone | ⟨hle, hone⟩ := hsound.shm
    · rw [hnone] at hm
      cases hm
    · rw [hone, List.mem_singleton] at hm
      rw [hm]
      exact hle

lemma sound_empty : b.Sound session request ⟨[], []⟩ := ⟨.inl rfl, .inl rfl⟩

variable {count block : Nat} {t u : Trace} {address : Nat → Nat}

lemma blocks_in_sectors :
    count * blockSize / sectorBytes = 2 * count ∧
      count * blockSize / sectorBytes * sectorBytes = count * blockSize := by
  simp only [blockSize, sectorBytes]
  omega

lemma block_start {start} :
    (start + 2 * block) * sectorBytes = start * sectorBytes + block * blockSize := by
  simp only [blockSize, sectorBytes]
  omega

structure Reaches (b : Backend) (session : ClientSession) (request : Request) (t u : Trace) : Prop where
  valid : b.Valid session request
  media : u.media = [b.requested request]
  shm : u.shm = t.shm

lemma Reaches.media_ne_nil (h : Reaches b session request t u) : u.media ≠ [] :=
  h.media ▸ List.cons_ne_nil _ _

section Partitions

variable (hbase : b.base = runtime.partitionStartSector * sectorBytes)
  (hblocks : b.exportedBlocks = runtime.partitionSectors / (blockSize / sectorBytes))
include hbase hblocks

/-- A command for the range of a request that passed the checks makes it valid, and reaches its range. -/
lemma reaches_of_issued (hu : Issued address runtime request.arg0.toNat request.bytes t u)
    (ht : t.media = [])
    (hvalid : request.arg0.toNat + request.arg1.toNat ≤ b.exportedBlocks → b.Valid session request)
    (haddress : b.Valid session request →
      address (runtime.partitionStartSector + 2 * request.arg0.toNat) =
        runtime.partitionStartSector + 2 * request.arg0.toNat) : Reaches b session request t u := by
  have hvalid : b.Valid session request := by
    apply hvalid
    have hle := hu.le
    rw [bytes, blocks_in_sectors.1] at hle
    rw [hblocks]
    simp only [blockSize, sectorBytes]
    omega
  refine ⟨hvalid, ?_, hu.shm⟩
  have hmedia := hu.media
  rw [haddress hvalid, ht, bytes, blocks_in_sectors.2, block_start] at hmedia
  rw [hmedia, requested, hbase, bytes]

/-- The handlers of `virtio-blk` and AHCI, around the command of the driver. Shared memory is copied
before the command of a write and after the command of a read. -/
lemma transfer_sound {c : Prop} [Decidable c] {m : Nat → Driver Unit} (hc : ¬c → request.arg1.toNat ≠ 0)
    (haddress : b.Valid session request → request.bytes ≤ maxTransferBytes →
      address (runtime.partitionStartSector + 2 * request.arg0.toNat) =
        runtime.partitionStartSector + 2 * request.arg0.toNat)
    (hm : ∀ t, wp (m request.bytes) (fun _ => Issued address runtime request.arg0.toNat request.bytes t)
      (fun _ u => u = t ∨ Issued address runtime request.arg0.toNat request.bytes t u) t) :
    wp (if (!session.owns request) = true then throw .invalidArgument else do
        let bytes ← okOr (checkedMul request.arg1.toNat blockSize) .invalidArgument
        if c ∨ beyond (checkedAdd request.arg2.toNat bytes) session.shmSize.toNat = true ∨
            bytes > maxTransferBytes then
          throw .invalidArgument
        else if request.write = true then do
          copyShm request.arg2.toNat bytes
          m bytes
          return bytes
        else do
          m bytes
          copyShm request.arg2.toNat bytes
          return bytes)
      (fun _ t => b.Sound session request t ∧ t.media ≠ []) (fun _ => b.Sound session request)
      ⟨[], []⟩ := by
  refine wp_guard sound_empty fun howner => ?_
  refine wp_lookup sound_empty fun bytes hbytes => ?_
  rw [checkedMul_eq_some] at hbytes
  obtain ⟨rfl, -⟩ := hbytes
  refine wp_guard sound_empty fun hchecks => ?_
  rw [not_or, not_or, not_lt] at hchecks
  obtain ⟨hcount, hshm, hmax⟩ := hchecks
  have hshm := not_beyond hshm
  have hreaches : ∀ t u : Trace, t.media = [] →
      Issued address runtime request.arg0.toNat request.bytes t u → Reaches b session request t u :=
    fun t u ht hu => reaches_of_issued hbase hblocks hu ht
      (fun hle => ⟨by simpa using howner, hc hcount, hle, hshm⟩) fun hvalid => haddress hvalid hmax
  refine wp_ite (fun _ => ?_) (fun _ => ?_)
  · rw [wp_bind, copyShm]
    refine wp_then (hm _) (fun _ u hu => ?_) (fun _ u hu => ?_)
    · have hu := hreaches _ u rfl hu
      exact ⟨⟨.inr ⟨hu.valid, hu.media⟩, .inr ⟨hshm, hu.shm⟩⟩, hu.media_ne_nil⟩
    · obtain rfl | hu := hu
      · exact ⟨.inl rfl, .inr ⟨hshm, rfl⟩⟩
      · have hu := hreaches _ u rfl hu
        exact ⟨.inr ⟨hu.valid, hu.media⟩, .inr ⟨hshm, hu.shm⟩⟩
  · refine wp_then (hm _) (fun _ u hu => ?_) (fun _ u hu => ?_)
    · have hu := hreaches _ u rfl hu
      rw [wp_bind, copyShm, wp_modify, hu.shm]
      exact ⟨⟨.inr ⟨hu.valid, hu.media⟩, .inr ⟨hshm, rfl⟩⟩, hu.media_ne_nil⟩
    · obtain rfl | hu := hu
      · exact sound_empty
      · have hu := hreaches _ u rfl hu
        exact ⟨.inr ⟨hu.valid, hu.media⟩, .inl hu.shm⟩

lemma handleVirtio_obeys
    (hhandle : ∀ device, b.handle device session request = handleVirtio runtime device session request) :
    b.Obeys session request := by
  refine obeys_of_sound fun device => ?_
  rw [hhandle]
  exact @transfer_sound b runtime _ _ id hbase hblocks _ _ _ id (fun _ _ => rfl) fun _ => submitPartition_spec

end Partitions

lemma handleAhci_obeys {found} (hfits : (ahci disk runtime found).Fits session request) :
    (ahci disk runtime found).Obeys session request := by
  refine obeys_of_sound fun device => ?_
  refine transfer_sound rfl rfl ?_ (fun hvalid hmax => ?_) fun _ => transfer_spec
  · exact fun hcount hzero => hcount (UInt64.toNat_inj.mp hzero)
  · exact Nat.mod_eq_of_lt (hfits hvalid hmax)

lemma blockRange_some {first sectors lba bytes}
    (h : blockRange first sectors block count = some (lba, bytes)) :
    count ≠ 0 ∧ bytes = count * blockSize ∧ bytes ≤ maxTransferBytes ∧ lba = first + 2 * block ∧
      2 * block + 2 * count ≤ sectors := by
  obtain ⟨relative, hrelative, h⟩ := bind_eq_some_iff.mp h
  obtain ⟨length, hlength, h⟩ := bind_eq_some_iff.mp h
  obtain ⟨bytes', hbytes, h⟩ := bind_eq_some_iff.mp h
  obtain ⟨last, hlast, h⟩ := bind_eq_some_iff.mp h
  rw [checkedMul_eq_some] at hrelative hlength hbytes
  rw [checkedAdd_eq_some] at hlast
  split at h
  · cases h
  · next hchecks =>
    obtain ⟨lba', hlba, h⟩ := bind_eq_some_iff.mp h
    rw [checkedAdd_eq_some] at hlba
    cases h
    simp only [Bool.or_eq_true, decide_eq_true_eq, not_or] at hchecks
    simp only [blockSize]
    omega

lemma handleUsb_obeys {found} : (usb disk partition found).Obeys session request := by
  refine obeys_of_sound fun device => ?_
  refine wp_guard sound_empty fun _ => wp_guard sound_empty fun howner => ?_
  refine wp_lookup sound_empty fun range hrange => ?_
  obtain ⟨lba, bytes⟩ := range
  obtain ⟨hcount, rfl, hmax, rfl, hle⟩ := blockRange_some hrange
  refine wp_guard sound_empty fun hshm => ?_
  have hshm := not_beyond hshm
  have hvalid : (usb disk partition found).Valid session request := by
    refine ⟨by simpa using howner, hcount, ?_, hshm⟩
    simp only [exportedBlocks]
    omega
  rw [wp_bind, copyShm, wp_modify, wp_bind]
  have hstaged : (usb disk partition found).Sound session request
      ⟨[], [⟨request.arg2.toNat, request.bytes⟩]⟩ := ⟨.inl rfl, .inr ⟨hshm, rfl⟩⟩
  refine wp_okOr (fun cdb hcdb => ?_) (fun _ => hstaged)
  -- the command names the blocks of the request
  have hsectors : request.arg1.toNat * blockSize / sectorBytes % 2 ^ 32 = 2 * request.arg1.toNat := by
    rw [blocks_in_sectors.1]
    simp only [maxTransferBytes, blockSize] at hmax
    omega
  obtain ⟨hlba, hcdb⟩ := readWrite_some hcdb (Nat.mod_lt _ (by norm_num))
  have hsound : (usb disk partition found).Sound session request
      ⟨[⟨cdb.lba * sectorBytes, cdb.sectors * sectorBytes⟩], [⟨request.arg2.toNat, request.bytes⟩]⟩ := by
    refine ⟨.inr ⟨hvalid, ?_⟩, .inr ⟨hshm, rfl⟩⟩
    have hlength : 2 * request.arg1.toNat * sectorBytes = request.bytes := by
      rw [← blocks_in_sectors.1, blocks_in_sectors.2, bytes]
    rw [hlba, hcdb, hsectors, block_start, hlength]
    rfl
  rw [wp_bind, scsi]
  refine wp_guard hstaged fun _ => ?_
  split
  · exact wp_guard hsound fun _ => ⟨hsound, List.cons_ne_nil _ _⟩
  · exact hsound

lemma handleRamdisk_obeys (hfits : ramdisk.Fits session request) : ramdisk.Obeys session request := by
  refine obeys_of_sound fun device => ?_
  refine wp_guard sound_empty fun howner => ?_
  have howner : session.owns request = true := by simpa using howner
  refine wp_guard sound_empty fun hchecks => ?_
  rw [not_or, not_or, not_le, not_lt] at hchecks
  obtain ⟨hcount, hblock, hsum⟩ := hchecks
  refine wp_guard sound_empty fun hshm => ?_
  rw [not_lt] at hshm
  obtain ⟨hsmall, hoffset⟩ := hfits howner hcount hblock hsum hshm
  rw [wrappingAdd, Nat.mod_eq_of_lt hsmall] at hsum
  have hbytes : request.bytes % wordSize = request.bytes := Nat.mod_eq_of_lt (by omega)
  rw [← bytes, hbytes] at hshm ⊢
  rw [wrappingAdd, Nat.mod_eq_of_lt hoffset] at hshm
  have hvalid : ramdisk.Valid session request := ⟨howner, hcount, hsum, hshm⟩
  refine ⟨⟨.inr ⟨hvalid, ?_⟩, .inr ⟨hshm, rfl⟩⟩, List.cons_ne_nil _ _⟩
  rw [requested, base, zero_add]

/-- A request whose sums wrap, and that the wrapped sums let pass, is executed. -/
lemma fits_of_ramdisk_obeys (h : ramdisk.Obeys session request) : ramdisk.Fits session request := by
  intro howner hcount hblock hsum hshm
  have hrun : sure (ramdisk.handle ⟨true, .ok (true, 0)⟩ session request) (fun _ t => t.media ≠ [])
      ⟨[], []⟩ := by
    rw [handle, handleRamdisk, howner]
    refine wp_ite (fun hno => by simp at hno) (fun _ => wp_ite (fun hbad => ?_) (fun _ => ?_))
    · obtain hzero | hhigh | hover := hbad
      · exact hcount hzero
      · omega
      · omega
    · refine wp_ite (fun hbad => absurd hshm (Nat.not_le.mpr hbad)) (fun _ => ?_)
      exact List.cons_ne_nil _ _
  have hmedia := stateAfter_of_wp
    (wp_mono hrun (fun _ _ ht => ht) (fun _ _ hno => hno.elim))
  have hvalid := (h.2 _).1 (.inr hmedia)
  have hblocks := hvalid.blocks
  have hinside := hvalid.shm
  have hsize := session.shmSize.toNat_lt
  simp only [exportedBlocks, ramdiskBlocks, wordSize, wordBits] at hblocks ⊢
  omega

/-- A valid request whose sector needs more than 48 bits reaches another sector. -/
lemma fits_of_ahci_obeys {found} (h : (ahci disk runtime found).Obeys session request) :
    (ahci disk runtime found).Fits session request := by
  intro hvalid hmax
  obtain ⟨hlocated, hcapacity⟩ := findRootPartition_located found
  have hend := hlocated.le
  have hblocks := hvalid.blocks
  have hcount := hvalid.nonempty
  have hpos : request.bytes ≠ 0 := by
    simp only [bytes, blockSize]
    omega
  have hle : 2 * request.arg0.toNat + request.bytes / sectorBytes ≤ runtime.partitionSectors := by
    rw [bytes, blocks_in_sectors.1]
    simp only [exportedBlocks, blockSize, sectorBytes] at hblocks
    omega
  have hwhole : request.bytes % sectorBytes = 0 := by
    simp only [bytes, blockSize, sectorBytes]
    omega
  have hmul : checkedMul request.arg1.toNat blockSize = some request.bytes := by
    rw [checkedMul_eq_some]
    refine ⟨rfl, ?_⟩
    simp only [maxTransferBytes] at hmax
    simp only [wordSize, wordBits]
    omega
  have hshm : beyond (checkedAdd request.arg2.toNat request.bytes) session.shmSize.toNat = false :=
    beyond_eq_false hvalid.shm session.shmSize.toNat_lt
  have hzero : request.arg1 ≠ 0 := fun hzero => hcount (by rw [hzero]; rfl)
  have htransfer : ∀ t, sure (transfer runtime willing request.arg0.toNat request.bytes)
      (fun _ => Issued fisLba runtime request.arg0.toNat request.bytes t) t :=
    fun t => transfer_succeeds hpos hmax hwhole hle (hcapacity ▸ hend) (hcapacity ▸ disk.fits)
  have hrun : sure ((ahci disk runtime found).handle willing session request)
      (fun _ u => ∃ m ∈ u.media, m.start =
        fisLba (runtime.partitionStartSector + 2 * request.arg0.toNat) * sectorBytes) ⟨[], []⟩ := by
    rw [handle, handleAhci, hvalid.owner, hmul]
    refine wp_ite (fun hno => by simp at hno) (fun _ => ?_)
    refine wp_ite (fun hbad => ?_) (fun _ => wp_ite (fun _ => ?_) (fun _ => ?_))
    · obtain hno | hno | hno := hbad
      · exact hzero hno
      · rw [hshm] at hno
        cases hno
      · omega
    · rw [wp_bind, copyShm]
      refine wp_seq (htransfer _) (fun _ u hu => ?_)
      exact ⟨_, hu.media ▸ List.mem_cons_self, rfl⟩
    · refine wp_seq (htransfer _) fun _ u hu => ?_
      exact ⟨_, hu.media ▸ List.mem_cons_self, rfl⟩
  obtain ⟨m, hm, hstart⟩ := stateAfter_of_wp
    (wp_mono hrun (fun _ _ ht => ht) (fun _ _ hno => hno.elim))
  have hwithin := ((h.2 willing).2.requested m hm).1
  have hsector : fisLba (runtime.partitionStartSector + 2 * request.arg0.toNat) < 2 ^ 48 :=
    Nat.mod_lt _ (by norm_num)
  rw [hstart, requested, base, ← block_start] at hwithin
  simp only [sectorBytes] at hwithin
  omega

/-- For every server, session and request: whatever the device answers, the request is executed only if
it is inside the device and the shared memory, and touches only that, exactly if the sums of the RAM
disk do not wrap and the sector of AHCI has 48 bits. -/
theorem obeys_iff (b : Backend) (session : ClientSession) (request : Request) :
    b.Obeys session request ↔ b.Fits session request := by
  cases b with
  | ramdisk => exact ⟨fits_of_ramdisk_obeys, handleRamdisk_obeys⟩
  | virtioWhole disk =>
    exact ⟨fun _ => trivial, fun _ =>
      @handleVirtio_obeys _ (wholeDisk disk) _ _ (Nat.zero_mul _).symm rfl fun _ => rfl⟩
  | virtio disk runtime found =>
    exact ⟨fun _ => trivial, fun _ => handleVirtio_obeys rfl rfl fun _ => rfl⟩
  | ahci disk runtime found => exact ⟨fits_of_ahci_obeys, handleAhci_obeys⟩
  | usb disk partition found => exact ⟨fun _ => trivial, fun _ => handleUsb_obeys⟩

def sampleHeader : List UInt8 :=
  [0x45, 0x46, 0x49, 0x20, 0x50, 0x41, 0x52, 0x54, 0, 0, 1, 0, 0x5c, 0, 0, 0, 0x93, 0x0a, 0x34, 0x24,
    0, 0, 0, 0, 1, 0, 0, 0, 0, 0, 0, 0, 0x63, 0, 0, 0, 0, 0, 0, 0, 3, 0, 0, 0, 0, 0, 0, 0,
    0x62, 0, 0, 0, 0, 0, 0, 0, 0, 0, 0, 0, 0, 0, 0, 0, 0, 0, 0, 0, 0, 0, 0, 0, 2, 0, 0, 0, 0, 0, 0, 0,
    1, 0, 0, 0, 0x80, 0, 0, 0, 0xf0, 0x02, 0x3e, 0xe2]

def sampleEntry : List UInt8 :=
  nanamiRootTypeGuid ++ List.replicate 16 0 ++ [4, 0, 0, 0, 0, 0, 0, 0, 0x43, 0, 0, 0, 0, 0, 0, 0]

def sampleDisk : Disk where
  capacity := 100
  fits := by decide
  content i := if i < 1024 then sampleHeader.getD (i - 512) 0 else sampleEntry.getD (i - 1024) 0
  readable _ := true

lemma sampleDisk_root : findRootPartition sampleDisk = .ok ⟨100, 4, 64⟩ :=
  ok_of_toOption (by decide +kernel)

/-- The last block of the partition is read. -/
theorem obeys_iff_last_block :
    let session : ClientSession := ⟨true, 7, 0x10000⟩
    let request : Request := ⟨7, 31, 1, 0, false⟩
    let b := ahci sampleDisk ⟨100, 4, 64⟩ sampleDisk_root
    b.Obeys session request ∧
      (stateAfter (b.handle willing session request) ⟨[], []⟩).media = [⟨66 * 512, 1024⟩] :=
  ⟨(obeys_iff _ _ _).mpr fun _ _ => by decide +kernel, by decide +kernel⟩

/-- One block short of all of them, behind the first: the sums wrap to 0, and the request is executed
with almost the whole address space as its length. -/
theorem ramdisk_copies_beyond :
    let session : ClientSession := ⟨true, 7, 0x10000⟩
    let request : Request := ⟨7, 1, 0xffffffffffffffff, 1024, false⟩
    (stateAfter (ramdisk.handle willing session request) ⟨[], []⟩).media =
        [⟨1024, 0xfffffffffffffc00⟩] ∧ ¬ramdisk.Obeys session request := by
  refine ⟨by decide +kernel, fun h => ?_⟩
  have hvalid := (h.2 willing).1 (.inl (by decide +kernel))
  exact absurd hvalid.blocks (by decide +kernel)

end Backend

end Nanami.Block
