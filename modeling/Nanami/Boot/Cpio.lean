import Nanami.Lib.Bytes
import Nanami.Lib.Result
import Nanami.Nun

/-!
# The boot archive

The build tool writes the boot archive in the newc format (`xtask`, `cpio.rs`) and Alpha reads it
back (`nanami_core/cpio.rs`). The two programs share nothing but the format. Slices are checked, so
that a read outside the archive is a panic of the model, and the vectors of the writer carry the
bound every vector has.
-/

namespace Nanami.Boot

open Lib

def asBytes (name : String) : List UInt8 := name.toByteArray.data.toList

def fromUtf8 (raw : List UInt8) : Option String := String.fromUTF8? ⟨raw.toArray⟩

@[simp] lemma fromUtf8_asBytes {name} : fromUtf8 (asBytes name) = some name := by
  have e : (⟨(asBytes name).toArray⟩ : ByteArray) = name.toByteArray := by
    rw [asBytes, Array.toArray_toList]
  rw [fromUtf8, e, String.fromUTF8?, dif_pos name.isValidUTF8]
  rfl

def trailer : String := "TRAILER!!!"

/-! ### Writing -/

inductive ArchiveError where
  /-- `newc entry is invalid or too large` -/
  | invalidEntry
  | capacityOverflow
  deriving DecidableEq, Repr

def u32Max : Nat := 2 ^ 32 - 1

/-- One element of the list `archive` takes: name, mode and contents. -/
structure Record where
  name : String
  mode : UInt32
  data : List UInt8
  deriving DecidableEq

/-- `b"070701"`. -/
def newcMagic : List UInt8 := [0x30, 0x37, 0x30, 0x37, 0x30, 0x31]

/-- `b"070702"`. -/
def newcCrcMagic : List UInt8 := [0x30, 0x37, 0x30, 0x37, 0x30, 0x32]

def extend (out : Bytes) (more : List UInt8) : Except ArchiveError Bytes :=
  match out.extend more with
  | some out => .ok out
  | none => .error .capacityOverflow

/-- `out.resize(out.len().div_ceil(unit) * unit, 0)`. -/
def align (unit : Nat) (out : Bytes) : Except ArchiveError Bytes :=
  extend out (padding unit out.length)

def headerFields (inode : UInt32) (name : String) (mode : UInt32) (data : List UInt8) :
    List UInt32 :=
  [inode, mode, 0, 0, 1, 0, UInt32.ofNat data.length, 0, 0, 0, 0,
    UInt32.ofNat (asBytes name).length + 1, 0]

/-- `for value in fields { out.extend_from_slice(format!("{value:08x}").as_bytes()) }`. -/
def writeFields : List UInt32 → Bytes → Except ArchiveError Bytes
  | [], out => .ok out
  | value :: fields, out => do
    let out ← extend out (hexField 8 value.toNat)
    writeFields fields out

def entry (out : Bytes) (inode : UInt32) (name : String) (mode : UInt32) (data : List UInt8) :
    Except ArchiveError Bytes :=
  if ¬(0 ∉ asBytes name ∧ data.length ≤ u32Max ∧ (asBytes name).length < u32Max) then
    throw .invalidEntry
  else do
    let out ← extend out newcMagic
    let out ← writeFields (headerFields inode name mode data) out
    let out ← extend out (asBytes name)
    let out ← extend out [0]
    let out ← align 4 out
    let out ← extend out data
    align 4 out

/-- The loop of `archive`, at its `i`-th entry. -/
def entriesFrom : Nat → List Record → Bytes → Except ArchiveError Bytes
  | _, [], out => .ok out
  | i, record :: records, out => do
    let out ← entry out (UInt32.ofNat i + 1) record.name record.mode record.data
    entriesFrom (i + 1) records out

def archive (entries : List Record) : Except ArchiveError Bytes := do
  let bytes ← entriesFrom 0 entries Bytes.empty
  let bytes ← entry bytes 0 trailer 0 []
  align 512 bytes

/-! ### Reading -/

structure CpioEntry where
  name : String
  data : List UInt8
  deriving DecidableEq

/-- How the parser stops before the end: with an error it returns, or at a slice outside the
archive. -/
inductive Stop where
  | error (error : CapabilityError)
  | panic (panic : Panic)
  deriving DecidableEq, Repr

def newcHeaderSize : Nat := 110

def align4 (value : Nat) : Nat := wrappingAdd value 3 &&& complement 3

/-- `&xs[lo..hi]`. -/
def read (xs : List UInt8) (lo hi : Nat) : Except Stop (List UInt8) :=
  match slice xs lo hi with
  | .ok ys => .ok ys
  | .error p => .error (.panic p)

/-- `ok_or(CapabilityError::InvalidArgument)`. -/
def orInvalid {α : Type} (o : Option α) : Except Stop α :=
  match o with
  | some a => .ok a
  | none => .error (.error .invalidArgument)

def hexValue (c : UInt8) : Option UInt32 :=
  if 0x30 ≤ c ∧ c ≤ 0x39 then some (c - 0x30).toUInt32
  else if 0x61 ≤ c ∧ c ≤ 0x66 then some (c - 0x61 + 10).toUInt32
  else if 0x41 ≤ c ∧ c ≤ 0x46 then some (c - 0x41 + 10).toUInt32
  else none

/-- The loop of `parse_hex_u32`. -/
def parseHexFrom (out : UInt32) : List UInt8 → Except Stop UInt32
  | [] => .ok out
  | c :: cs => do
    let digit ← orInvalid (hexValue c)
    parseHexFrom (out <<< 4 ||| digit) cs

def parseHexU32 (slice : List UInt8) : Except Stop UInt32 := parseHexFrom 0 slice

/-- What one round of the parser's loop finds: the trailer, or an entry and where the next one
starts. -/
inductive Round where
  | finished
  | entry (entry : CpioEntry) (next : Nat)
  deriving DecidableEq

/-- The body of the parser's loop up to the call of the visitor. -/
def newcRound (archive : Bytes) (offset : Nat) : Except Stop Round := do
  let header ← read archive.toList offset (offset + newcHeaderSize)
  let magic ← read header 0 6
  if magic ≠ newcMagic ∧ magic ≠ newcCrcMagic then throw (.error .invalidArgument) else
  let fileSize ← parseHexU32 (← read header 54 62)
  let nameSize ← parseHexU32 (← read header 94 102)
  if nameSize = 0 then throw (.error .invalidArgument) else
  let nameStart := offset + newcHeaderSize
  let nameEnd ← orInvalid (checkedAdd nameStart nameSize.toNat)
  if nameEnd > archive.length then throw (.error .invalidArgument) else
  let nameRaw ← read archive.toList nameStart (nameEnd - 1)
  let name ← orInvalid (fromUtf8 nameRaw)
  let dataStart := align4 nameEnd
  let dataEnd ← orInvalid (checkedAdd dataStart fileSize.toNat)
  if dataEnd > archive.length then throw (.error .invalidArgument) else
  if name = trailer then return .finished else
  let data ← read archive.toList dataStart dataEnd
  return .entry ⟨name, data⟩ (align4 dataEnd)

/-- On the lengths a slice can have, `align4` rounds up to a multiple of four. -/
lemma align4_eq {value} (h : value + 3 < wordSize) : align4 value = roundUp 4 value := by
  have e : complement 3 = complement (2 ^ 2 - 1) := rfl
  rw [align4, wrappingAdd, Nat.mod_eq_of_lt h, e, and_complement_mask h (by decide)]
  rfl

lemma orInvalid_ok {α} {o : Option α} {a : α} (h : orInvalid o = .ok a) : o = some a := by
  cases o with
  | none => cases h
  | some b => cases h; rfl

lemma read_ok {xs ys lo hi} (h : read xs lo hi = .ok ys) : slice xs lo hi = .ok ys := by
  unfold read at h
  split at h
  · cases h
    assumption
  · cases h

def Found (archive : Bytes) (offset : Nat) (found : CpioEntry) (next : Nat) : Prop :=
  ∃ nameEnd dataEnd, offset + newcHeaderSize < nameEnd ∧
    slice archive.toList (offset + newcHeaderSize) (nameEnd - 1) = .ok (asBytes found.name) ∧
    slice archive.toList (roundUp 4 nameEnd) dataEnd = .ok found.data ∧
    roundUp 4 nameEnd ≤ dataEnd ∧ dataEnd ≤ archive.length ∧ next = roundUp 4 dataEnd

lemma fromUtf8_eq_some {raw name} (h : fromUtf8 raw = some name) : asBytes name = raw := by
  unfold fromUtf8 String.fromUTF8? at h
  split at h
  · cases h
    rfl
  · cases h

lemma newcRound_entry {archive} {offset next : Nat} {found : CpioEntry}
    (h : newcRound archive offset = .ok (.entry found next)) : Found archive offset found next := by
  obtain ⟨header, _, h⟩ := bind_ok h
  obtain ⟨magic, _, h⟩ := bind_ok h
  obtain ⟨_, h⟩ := guard_ok h
  obtain ⟨sizeField, _, h⟩ := bind_ok h
  obtain ⟨fileSize, _, h⟩ := bind_ok h
  obtain ⟨nameField, _, h⟩ := bind_ok h
  obtain ⟨nameSize, _, h⟩ := bind_ok h
  obtain ⟨hname0, h⟩ := guard_ok h
  obtain ⟨nameEnd, hnameEnd, h⟩ := bind_ok h
  obtain ⟨hnameLe, h⟩ := guard_ok h
  obtain ⟨nameRaw, hraw, h⟩ := bind_ok h
  obtain ⟨name, hname, h⟩ := bind_ok h
  obtain ⟨dataEnd, hdataEnd, h⟩ := bind_ok h
  obtain ⟨hdataLe, h⟩ := guard_ok h
  split at h
  · cases h
  · obtain ⟨data, hdata, h⟩ := bind_ok h
    cases h
    have hn := checkedAdd_eq_some.mp (orInvalid_ok hnameEnd)
    have hd := checkedAdd_eq_some.mp (orInvalid_ok hdataEnd)
    have hsmall := archive.length_lt_wordSize
    have hpos : 0 < nameSize.toNat := by
      rcases Nat.eq_zero_or_pos nameSize.toNat with h0 | h0
      · exact absurd (UInt32.toNat_inj.mp h0) hname0
      · exact h0
    have e : align4 nameEnd = roundUp 4 nameEnd := align4_eq (by omega)
    have e' : align4 dataEnd = roundUp 4 dataEnd := align4_eq (by omega)
    rw [e] at hd hdata
    refine ⟨nameEnd, dataEnd, by omega, ?_, read_ok hdata, by omega, by omega, e'⟩
    rw [fromUtf8_eq_some (orInvalid_ok hname)]
    exact read_ok hraw

lemma Found.advances {archive offset next found} (h : Found archive offset found next) :
    offset < next := by
  obtain ⟨nameEnd, dataEnd, hlt, _, _, hle, _, rfl⟩ := h
  have h1 := @le_roundUp_four nameEnd
  have h2 := @le_roundUp_four dataEnd
  omega

/-- The parser's loop from `offset` on. -/
def forEachFrom {σ : Type} (archive : Bytes) (f : CpioEntry → EStateM CapabilityError σ PUnit)
    (offset : Nat) : EStateM Stop σ PUnit :=
  if _h : offset + newcHeaderSize ≤ archive.length then
    match _hr : newcRound archive offset with
    | .error stop => throw stop
    | .ok .finished => pure ⟨⟩
    | .ok (.entry found next) => do
      adapt Stop.error (f found)
      forEachFrom archive f next
  else throw (.error .invalidArgument)
termination_by archive.length - offset
decreasing_by
  have := (newcRound_entry _hr).advances
  unfold newcHeaderSize at _h
  omega

def forEachNewcEntry {σ : Type} (archive : Bytes)
    (f : CpioEntry → EStateM CapabilityError σ PUnit) : EStateM Stop σ PUnit :=
  forEachFrom archive f 0

end Nanami.Boot
