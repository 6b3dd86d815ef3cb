import Nanami.Memory.BuddyCover

/-!
# The physical allocator

Model of `PhysicalAllocator` (`physical_allocator.rs`): two buddy pools, ordinary and device
memory, and a vector of allocation records. Addresses and sizes are `usize` values; the page count
of a size wraps as `usize` addition does.

A record is `reserved` when its region was already in use at boot. Only records that are not
reserved are found by `free`, which may give back a part of a record and keep what stands before
and after it as records of their own.
-/

namespace Nanami.Memory
open Nanami.Lib BuddyPool

structure PhysicalAllocation where
  basePage : Nat
  pageCount : Nat
  isDevice : Bool
  deriving DecidableEq, Repr

structure PhysicalMemoryInfo where
  totalPages : Nat
  freePages : Nat
  deriving DecidableEq, Repr

structure AllocationRecord where
  basePage : Nat
  pageCount : Nat
  isDevice : Bool
  reserved : Bool
  deriving DecidableEq, Repr

structure PhysicalAllocator where
  normal : BuddyPool
  device : BuddyPool
  allocations : List AllocationRecord
  deriving DecidableEq, Repr

/-- `bytes_to_pages`; the sum wraps for the last page of the address space. -/
def bytesToPages (sizeBytes : Nat) : Nat := wrappingAdd sizeBytes (pageSize - 1) / pageSize

lemma bytesToPages_eq {n} (h : n + pageSize ≤ wordSize) :
    bytesToPages n = (n + (pageSize - 1)) / pageSize := by
  have hpos : 0 < pageSize := by decide
  rw [bytesToPages, wrappingAdd, Nat.mod_eq_of_lt (by omega)]

lemma bytesToPages_mul {n} (h : n < maxPages) : bytesToPages (n * pageSize) = n := by
  have hle : (n + 1) * pageSize ≤ wordSize := Nat.mul_le_mul_right pageSize h
  rw [add_mul, one_mul] at hle
  rw [bytesToPages_eq hle, mul_comm, Nat.mul_add_div (by decide), Nat.div_eq_of_lt (by decide), add_zero]

lemma wrappingShl_page {n} (h : n * pageSize < wordSize) : wrappingShl n pageBits = n * pageSize := by
  rw [wrappingShl, Nat.shiftLeft_eq]
  exact Nat.mod_eq_of_lt h

lemma shiftRight_page {n} : (n * pageSize) >>> pageBits = n := by
  rw [Nat.shiftRight_eq_div_pow]
  exact Nat.mul_div_cancel _ (by decide)

lemma shiftRight_of_dvd {address} (hd : pageSize ∣ address) :
    address >>> pageBits * pageSize = address := by
  rw [Nat.shiftRight_eq_div_pow]
  exact Nat.div_mul_cancel hd

def isPageAligned (address : Nat) : Bool := address &&& (pageSize - 1) == 0

namespace PhysicalAllocator

def new : PhysicalAllocator := ⟨BuddyPool.new, BuddyPool.new, []⟩

/-- `pool_mut`, read. -/
def pool (s : PhysicalAllocator) (isDevice : Bool) : BuddyPool :=
  if isDevice then s.device else s.normal

/-- `pool_mut`, written. -/
def setPool (isDevice : Bool) (p : BuddyPool) (s : PhysicalAllocator) : PhysicalAllocator :=
  if isDevice then { s with device := p } else { s with normal := p }

def onPool {α : Type} (isDevice : Bool) (m : EStateM PhysicalAllocError BuddyPool α) :
    EStateM PhysicalAllocError PhysicalAllocator α :=
  zoom (fun s => s.pool isDevice) (setPool isDevice) m

def recordAllocation (basePage pageCount : Nat) (isDevice : Bool) (s : PhysicalAllocator) :
    PhysicalAllocator :=
  { s with allocations := s.allocations ++ [⟨basePage, pageCount, isDevice, false⟩] }

def addRegion (baseAddress sizeBytes : Nat) (isDevice used : Bool) :
    EStateM PhysicalAllocError PhysicalAllocator Unit :=
  if !isPageAligned baseAddress || sizeBytes == 0 then throw .invalidArgument
  else
    let pageCount := bytesToPages sizeBytes
    if pageCount = 0 then throw .invalidArgument
    else
      let basePage := baseAddress >>> pageBits
      if used then
        modify fun s => { s with
          allocations := s.allocations ++ [⟨basePage, pageCount, isDevice, true⟩] }
      else onPool isDevice (addRange basePage pageCount)

/-- `allocate_at`: ordinary memory first, then device memory if the caller may have it. -/
def allocateAt (baseAddress sizeBytes : Nat) (allowDevice : Bool) :
    EStateM PhysicalAllocError PhysicalAllocator PhysicalAllocation :=
  if !isPageAligned baseAddress || sizeBytes == 0 then throw .invalidArgument
  else do
    let reqBase := baseAddress >>> pageBits
    let reqCount := bytesToPages sizeBytes
    match ← attempt (onPool false (allocateRange reqBase reqCount)) with
    | .ok () =>
      modify (recordAllocation reqBase reqCount false)
      return ⟨reqBase, reqCount, false⟩
    | .error _ =>
      let s ← get
      if s.device.containsRange reqBase reqCount && !allowDevice then throw .permissionDenied
      else if allowDevice then
        match ← attempt (onPool true (allocateRange reqBase reqCount)) with
        | .ok () =>
          modify (recordAllocation reqBase reqCount true)
          return ⟨reqBase, reqCount, true⟩
        | .error _ => throw .outOfMemory
      else throw .outOfMemory

def allocateAny (sizeBytes : Nat) : EStateM PhysicalAllocError PhysicalAllocator PhysicalAllocation :=
  if sizeBytes = 0 then throw .invalidArgument
  else do
    let reqCount := bytesToPages sizeBytes
    let s ← get
    let basePage ← okOr (s.normal.findFirstFit reqCount) .outOfMemory
    allocateAt (wrappingShl basePage pageBits) (wrappingShl reqCount pageBits) false

/-- The inner loop of `allocate_aligned_in_range`: the lowest aligned address among the blocks of
one free list, or the one selected before. -/
def selectInList (start stop bytes blockBytes : Nat) : List Nat → Option Nat → Option Nat
  | [], selected => selected
  | page :: pages, selected =>
    let base := wrappingShl page pageBits
    let next :=
      match checkedAdd base blockBytes with
      | none => selected
      | some blockEnd =>
        match checkedAdd (max base start) (bytes - 1) with
        | none => selected
        | some value =>
          let address := value &&& complement (bytes - 1)
          let fits := (checkedAdd address bytes).any fun limit => limit ≤ min stop blockEnd
          let lower := selected.all fun best => address < best
          if fits && lower then some address else selected
    selectInList start stop bytes blockBytes pages next

/-- The outer loop of `allocate_aligned_in_range`, from the order of the first list on. -/
def selectFrom (start stop bytes : Nat) :
    List (List Nat) → Nat → Option Nat → Except PhysicalAllocError (Option Nat)
  | [], _, selected => .ok selected
  | list :: lists, order, selected =>
    match blockPages order with
    | .error e => .error e
    | .ok count =>
      match checkedMul count pageSize with
      | none => .error .invalidArgument
      | some blockBytes =>
        selectFrom start stop bytes lists (order + 1)
          (selectInList start stop bytes blockBytes list selected)

def allocateAlignedInRange (start stop bytes : Nat) :
    EStateM PhysicalAllocError PhysicalAllocator PhysicalAllocation :=
  if bytes < pageSize || !isPowerOfTwo bytes || start ≥ stop then throw .invalidArgument
  else do
    let wantedOrder := Nat.log2 (bytes >>> pageBits)
    let s ← get
    let selected ← fromResult
      (selectFrom start stop bytes (s.normal.freeLists.drop wantedOrder) wantedOrder none)
    let address ← okOr selected .outOfMemory
    allocateAt address bytes false

/-- The record `free` takes a range out of: not reserved, and containing the whole range. -/
def holdsRange (reqBase reqEnd : Nat) (a : AllocationRecord) : Bool :=
  if a.reserved then false
  else a.basePage ≤ reqBase && reqEnd ≤ wrappingAdd a.basePage a.pageCount

def free (baseAddress sizeBytes : Nat) : EStateM PhysicalAllocError PhysicalAllocator Unit :=
  if !isPageAligned baseAddress || sizeBytes == 0 then throw .invalidArgument
  else do
    let reqBase := baseAddress >>> pageBits
    let reqCount := bytesToPages sizeBytes
    let reqEnd ← okOr (checkedAdd reqBase reqCount) .invalidArgument
    let s ← get
    let (allocation, rest) ←
      okOr (swapRemoveFirst (holdsRange reqBase reqEnd) s.allocations) .invalidArgument
    set { s with allocations := rest }
    let allocationEnd ← okOr (checkedAdd allocation.basePage allocation.pageCount) .invalidArgument
    modify fun s =>
      if allocation.basePage < reqBase then
        s.recordAllocation allocation.basePage (reqBase - allocation.basePage) allocation.isDevice
      else s
    modify fun s =>
      if reqEnd < allocationEnd then
        s.recordAllocation reqEnd (allocationEnd - reqEnd) allocation.isDevice
      else s
    onPool allocation.isDevice (addRange reqBase reqCount)

def memoryInfo (s : PhysicalAllocator) : PhysicalMemoryInfo :=
  let freePages := s.normal.freePageCount
  let allocatedPages := s.allocations.foldl
    (fun pages a => if !a.isDevice then saturatingAdd pages a.pageCount else pages) 0
  ⟨saturatingAdd freePages allocatedPages, freePages⟩

end PhysicalAllocator

end Nanami.Memory
