import Nanami.Lib.Machine
import Nanami.Lib.Result

/-!
# The GUID partition table

The library `gpt`: the primary header and the entries of a partition table, checked by their CRCs, and
the search for the one partition that holds the root file system. Numbers of the table are natural
numbers below the width of their fields.
-/

namespace Nanami.Block.Gpt

open Lib

def logicalSectorBytes : Nat := 512
def partitionEntryBytesMax : Nat := 16 * 1024

def nanamiRootTypeGuid : List UInt8 :=
  [0x61, 0x6e, 0x61, 0x6e, 0x69, 0x6d, 0x53, 0x4f, 0xa0, 0x00, 0x4e, 0x41, 0x4e, 0x41, 0x4d, 0x49]

def signature : List UInt8 := [0x45, 0x46, 0x49, 0x20, 0x50, 0x41, 0x52, 0x54]

inductive Error where
  | invalid | unsupported | ambiguous
  deriving DecidableEq, Repr

structure Header where
  firstUsableLba : Nat
  lastUsableLba : Nat
  partitionEntryLba : Nat
  partitionEntryCount : Nat
  partitionEntrySize : Nat
  partitionEntriesCrc32 : UInt32
  deriving DecidableEq, Repr

structure Partition where
  firstLba : Nat
  sectorCount : Nat
  deriving DecidableEq, Repr

/-! ### Numbers and checksums -/

def fromLeBytes (bytes : List UInt8) : Nat :=
  bytes.foldr (fun byte n => byte.toNat + 256 * n) 0

/-- `bytes.get(offset..offset + width)`. -/
def field (bytes : List UInt8) (offset width : Nat) : Except Error (List UInt8) :=
  if offset + width ≤ bytes.length then .ok ((bytes.drop offset).take width) else .error .invalid

def readU32 (bytes : List UInt8) (offset : Nat) : Except Error Nat := do
  let value ← field bytes offset 4
  return fromLeBytes value

def readU64 (bytes : List UInt8) (offset : Nat) : Except Error Nat := do
  let value ← field bytes offset 8
  return fromLeBytes value

def crcRound (crc : UInt32) : UInt32 := (crc >>> 1) ^^^ (0xedb88320 &&& (0 - (crc &&& 1)))

/-- `Crc32::update`. -/
def crcUpdate (crc : UInt32) (bytes : List UInt8) : UInt32 :=
  bytes.foldl (fun crc byte => crcRound^[8] (crc ^^^ byte.toUInt32)) crc

/-- `Crc32::new`. -/
def crcNew : UInt32 := 0xffffffff

def crc32 (bytes : List UInt8) : UInt32 := ~~~(crcUpdate crcNew bytes)

/-- The checksum of a header, with its own field as 0. -/
def headerCrc (sector : List UInt8) (headerSize : Nat) : UInt32 :=
  ~~~(crcUpdate (crcUpdate (crcUpdate crcNew (sector.take 16)) [0, 0, 0, 0])
    ((sector.take headerSize).drop 20))

/-! ### The header -/

def Header.partitionEntryBytes (h : Header) : Except Error Nat :=
  match checkedMul h.partitionEntryCount h.partitionEntrySize with
  | none => .error .unsupported
  | some bytes => if bytes = 0 ∨ bytes > partitionEntryBytesMax then .error .unsupported else .ok bytes

def entrySectors (entryBytes : Nat) : Nat := (entryBytes + logicalSectorBytes - 1) / logicalSectorBytes

def parsePrimaryHeader (sector : List UInt8) (diskSectors : Nat) : Except Error Header := do
  if sector.length < logicalSectorBytes ∨ sector.take 8 ≠ signature then throw .invalid
  else
    let revision ← readU32 sector 8
    let headerSize ← readU32 sector 12
    if revision ≠ 0x00010000 ∨ headerSize < 92 ∨ logicalSectorBytes < headerSize then throw .unsupported
    else
      let recordedCrc ← readU32 sector 16
      if (headerCrc sector headerSize).toNat ≠ recordedCrc then throw .invalid
      else
        let currentLba ← readU64 sector 24
        let backupLba ← readU64 sector 32
        let firstUsableLba ← readU64 sector 40
        let lastUsableLba ← readU64 sector 48
        let partitionEntryLba ← readU64 sector 72
        let partitionEntryCount ← readU32 sector 80
        let partitionEntrySize ← readU32 sector 84
        let partitionEntriesCrc32 ← readU32 sector 88
        if diskSectors < 2 ∨ currentLba ≠ 1 ∨ diskSectors ≤ backupLba ∨ lastUsableLba < firstUsableLba ∨
            diskSectors ≤ lastUsableLba ∨ partitionEntryLba < 2 ∨ partitionEntrySize < 128 ∨
            partitionEntrySize % 8 ≠ 0 then throw .invalid
        else
          let header : Header :=
            ⟨firstUsableLba, lastUsableLba, partitionEntryLba, partitionEntryCount, partitionEntrySize,
              UInt32.ofNat partitionEntriesCrc32⟩
          let entryBytes ← header.partitionEntryBytes
          match checkedAdd partitionEntryLba (entrySectors entryBytes) with
          | none => throw .invalid
          | some last =>
            if last > firstUsableLba ∨ last > diskSectors then throw .invalid
            else return header

/-! ### The root partition -/

def isNanamiRoot (entry : List UInt8) : Bool := entry.take 16 == nanamiRootTypeGuid

def entryPartition (header : Header) (entry : List UInt8) : Except Error Partition := do
  let firstLba ← readU64 entry 32
  let lastLba ← readU64 entry 40
  if firstLba < header.firstUsableLba ∨ lastLba < firstLba ∨ header.lastUsableLba < lastLba then
    throw .invalid
  else
    match (checkedSub lastLba firstLba).bind (checkedAdd · 1) with
    | none => throw .invalid
    | some sectorCount => return ⟨firstLba, sectorCount⟩

/-- The loop of `find_nanami_root` over the entries. -/
def findRootIn (header : Header) : Option Partition → List (List UInt8) → Except Error (Option Partition)
  | found, [] => .ok found
  | found, entry :: entries =>
    if isNanamiRoot entry then do
      let partition ← entryPartition header entry
      if found.isSome then throw .ambiguous
      else findRootIn header (some partition) entries
    else findRootIn header found entries

/-- `chunks_exact(size)`. -/
def chunksExact (size : Nat) (bytes : List UInt8) : List (List UInt8) :=
  (List.range (bytes.length / size)).map fun i => (bytes.drop (i * size)).take size

def findNanamiRoot (header : Header) (entries : List UInt8) : Except Error Partition := do
  let entryBytes ← header.partitionEntryBytes
  if entries.length < entryBytes ∨ crc32 (entries.take entryBytes) ≠ header.partitionEntriesCrc32 then
    throw .invalid
  else
    match ← findRootIn header none (chunksExact header.partitionEntrySize (entries.take entryBytes)) with
    | none => throw .invalid
    | some partition => return partition

/-! ### What is accepted -/

def HeaderCrcMatches (sector : List UInt8) : Prop :=
  ∃ headerSize recorded, readU32 sector 12 = .ok headerSize ∧ readU32 sector 16 = .ok recorded ∧
    (headerCrc sector headerSize).toNat = recorded

def EntryCrcMatches (header : Header) (entries : List UInt8) : Prop :=
  ∃ entryBytes, header.partitionEntryBytes = .ok entryBytes ∧ entryBytes ≤ entries.length ∧
    crc32 (entries.take entryBytes) = header.partitionEntriesCrc32

def Header.Holds (header : Header) (p : Partition) : Prop :=
  header.firstUsableLba ≤ p.firstLba ∧ 0 < p.sectorCount ∧
    p.firstLba + p.sectorCount ≤ header.lastUsableLba + 1

/-- One entry alone has the type of the root partition, and it describes the partition. -/
def UniqueRoot (header : Header) (entries : List (List UInt8)) (p : Partition) : Prop :=
  ∃ entry, entries.filter isNanamiRoot = [entry] ∧ entryPartition header entry = .ok p

section Accepted

variable {sector entries : List UInt8} {diskSectors : Nat} {header : Header} {p : Partition}

lemma parsePrimaryHeader_spec (h : parsePrimaryHeader sector diskSectors = .ok header) :
    HeaderCrcMatches sector ∧ header.lastUsableLba < diskSectors := by
  obtain ⟨-, h⟩ := guard_ok h
  obtain ⟨revision, -, h⟩ := bind_ok h
  obtain ⟨headerSize, hsize, h⟩ := bind_ok h
  obtain ⟨-, h⟩ := guard_ok h
  obtain ⟨recorded, hrecorded, h⟩ := bind_ok h
  obtain ⟨hcrc, h⟩ := guard_ok h
  refine ⟨⟨headerSize, recorded, hsize, hrecorded, not_not.mp hcrc⟩, ?_⟩
  obtain ⟨currentLba, -, h⟩ := bind_ok h
  obtain ⟨backupLba, -, h⟩ := bind_ok h
  obtain ⟨firstUsableLba, -, h⟩ := bind_ok h
  obtain ⟨lastUsableLba, -, h⟩ := bind_ok h
  obtain ⟨partitionEntryLba, -, h⟩ := bind_ok h
  obtain ⟨partitionEntryCount, -, h⟩ := bind_ok h
  obtain ⟨partitionEntrySize, -, h⟩ := bind_ok h
  obtain ⟨partitionEntriesCrc32, -, h⟩ := bind_ok h
  obtain ⟨hchecks, h⟩ := guard_ok h
  obtain ⟨entryBytes, -, h⟩ := bind_ok h
  split at h
  · cases h
  · obtain ⟨-, h⟩ := guard_ok h
    cases h
    dsimp only
    omega

lemma entryPartition_holds {entry} (h : entryPartition header entry = .ok p) : header.Holds p := by
  obtain ⟨firstLba, -, h⟩ := bind_ok h
  obtain ⟨lastLba, -, h⟩ := bind_ok h
  obtain ⟨hrange, h⟩ := guard_ok h
  split at h
  · cases h
  · next sectorCount hcount =>
    cases h
    obtain ⟨difference, hsub, hadd⟩ := Option.bind_eq_some_iff.mp hcount
    rw [checkedAdd_eq_some] at hadd
    rw [checkedSub] at hsub
    split at hsub
    · cases hsub
      refine ⟨?_, ?_, ?_⟩ <;> dsimp only <;> omega
    · cases hsub

/-- What the loop returns, from what it has found before. -/
lemma findRootIn_spec {chunks} :
    ∀ {found : Option Partition}, findRootIn header found chunks = .ok (some p) →
      (found = some p ∧ chunks.filter isNanamiRoot = []) ∨
        (found = none ∧ UniqueRoot header chunks p) := by
  induction chunks with
  | nil =>
    intro found h
    cases h
    exact .inl ⟨rfl, rfl⟩
  | cons entry chunks ih =>
    intro found h
    rw [findRootIn] at h
    split at h
    · next hroot =>
      obtain ⟨partition, hpartition, h⟩ := bind_ok h
      obtain ⟨hfound, h⟩ := guard_ok h
      have hnone : found = none := by simpa using hfound
      obtain ⟨hsame, hrest⟩ | ⟨hno, -⟩ := ih h
      · cases hsame
        refine .inr ⟨hnone, entry, ?_, hpartition⟩
        rw [List.filter_cons_of_pos hroot, hrest]
      · cases hno
    · next hother =>
      rw [UniqueRoot, List.filter_cons_of_neg hother]
      exact ih h

lemma findNanamiRoot_spec (h : findNanamiRoot header entries = .ok p) :
    ∃ entryBytes, header.partitionEntryBytes = .ok entryBytes ∧ EntryCrcMatches header entries ∧
      UniqueRoot header (chunksExact header.partitionEntrySize (entries.take entryBytes)) p ∧
      header.Holds p := by
  obtain ⟨entryBytes, hbytes, h⟩ := bind_ok h
  obtain ⟨hchecks, h⟩ := guard_ok h
  rw [not_or, not_not, Nat.not_lt] at hchecks
  obtain ⟨found, hfound, h⟩ := bind_ok h
  cases found with
  | none => cases h
  | some partition =>
    cases h
    obtain ⟨hno, -⟩ | ⟨-, hunique⟩ := findRootIn_spec hfound
    · cases hno
    · refine ⟨entryBytes, hbytes, ⟨entryBytes, hbytes, hchecks.1, hchecks.2⟩, hunique, ?_⟩
      obtain ⟨entry, -, hentry⟩ := hunique
      exact entryPartition_holds hentry

end Accepted

end Nanami.Block.Gpt
