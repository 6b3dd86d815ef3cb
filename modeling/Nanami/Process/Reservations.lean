import Nanami.Process.FreeRanges
import Nanami.Process.References

/-!
# Reservations in an address space

Model of `reserve_shared_memory_at`, `recycle_shared_memory`, `exclude_shared_virtual_range`
(`process/shared_memory.rs`), `reserve_process_heap`, `reserve_process_heap_at`,
`reserve_process_virtual_gap` and `reset_runtime_memory_for_exec` (`process.rs`). The tables of
`ProcessManager` are keyed by the pid that owns the memory, and these functions read and write the
entries of one owner only, so the state is the part of the tables that belongs to one address space.

Frame slots come from a counter and from the slots of recycled reservations; pages come from the
heap watermark, from the pages of recycled reservations, or from the caller. Nothing records where
heap reservations and gaps are. A space that has no entry yet in the table of shared memory is an
empty one: both behave in the same way.
-/

namespace Nanami.Process
open Nanami.Lib FreeRanges

/-- `PROCESS_FRAME_TOTAL_PAGES`, the limit that every caller passes. -/
def processFrameTotalPages : Nat := 2 ^ 10 * 2 ^ 9

inductive ReserveError where
  | invalidArgument
  | illegalOperation
  | panicked
  deriving DecidableEq, Repr

structure SharedMemorySpace where
  slots : FreeRanges
  pages : FreeRanges
  active : SortedMap Nat SharedMemoryReservation
  deriving DecidableEq

namespace SharedMemorySpace

def empty : SharedMemorySpace := ⟨FreeRanges.empty, FreeRanges.empty, SortedMap.empty⟩

def takeSlots (space : SharedMemorySpace) (freeSlot : Option Nat) (pageCount : Nat) :
    Option FreeRanges :=
  match freeSlot with
  | some slot => space.slots.take slot pageCount
  | none => some space.slots

def takePages (space : SharedMemorySpace) (freePage : Option Nat)
    (requestedVa baseVa pageCount : Nat) : Option FreeRanges :=
  match freePage with
  | some page => space.pages.take page pageCount
  | none =>
    if requestedVa ≠ 0 then space.pages.exclude (baseVa / pageSize) pageCount
    else some space.pages

/-- The last reservation that begins before `endVa` reaches past `baseVa`. -/
def meetsActive (space : SharedMemorySpace) (baseVa endVa : Nat) : Bool :=
  (space.active.before endVa).any fun e => baseVa < e.2.baseVa + e.2.pageCount * pageSize

end SharedMemorySpace

structure AddressSpace where
  pid : Nat
  nextFrameSlot : Nat
  userHeapNextVa : Nat
  userHeapLimitVa : Nat
  shared : SharedMemorySpace
  deriving DecidableEq

namespace AddressSpace

/-- `reserve_shared_memory_at`; `requested_va` is zero for `reserve_shared_memory`. -/
def reserveSharedMemoryAt (pageCount maxFrameSlots requestedVa : Nat) :
    EStateM ReserveError AddressSpace SharedMemoryReservation := do
  let s ← get
  if s.pid = 0 ∨ pageCount = 0 ∨ requestedVa &&& (pageSize - 1) ≠ 0 then throw .invalidArgument
  else
    let freeSlot := s.shared.slots.find pageCount
    let freePage := if requestedVa = 0 then s.shared.pages.find pageCount else none
    let startSlot := freeSlot.getD s.nextFrameSlot
    let slotEnd ← okOr ((checkedAdd startSlot pageCount).filter (· ≤ maxFrameSlots)) .invalidArgument
    let baseVa := if requestedVa ≠ 0 then requestedVa
      else (freePage.map (· * pageSize)).getD s.userHeapNextVa
    let bytes ← okOr (checkedMul pageCount pageSize) .invalidArgument
    let endVa ← okOr ((checkedAdd baseVa bytes).filter fun stop =>
      baseVa ≠ 0 && (requestedVa ≠ 0 || stop ≤ s.userHeapLimitVa)) .invalidArgument
    if s.shared.meetsActive baseVa endVa then throw .illegalOperation
    else
      let slots ← okOr (s.shared.takeSlots freeSlot pageCount) .panicked
      let pages ← okOr (s.shared.takePages freePage requestedVa baseVa pageCount) .panicked
      let reservation := ⟨baseVa, startSlot, pageCount⟩
      set { s with
        nextFrameSlot := if freeSlot.isNone then slotEnd else s.nextFrameSlot
        userHeapNextVa := if freePage.isNone ∧ requestedVa = 0 then endVa else s.userHeapNextVa
        shared := ⟨slots, pages, s.shared.active.insert baseVa reservation⟩ }
      return reservation

/-- `recycle_shared_memory`; it panics unless the reservation is a live one. -/
def recycleSharedMemory (reservation : SharedMemoryReservation) :
    EStateM ReserveError AddressSpace Unit := do
  let s ← get
  if s.shared.active.get? reservation.baseVa = some reservation then
    set { s with
      shared := ⟨s.shared.slots.insert reservation.startSlot reservation.pageCount,
        s.shared.pages.insert (reservation.baseVa / pageSize) reservation.pageCount,
        s.shared.active.erase reservation.baseVa⟩ }
  else throw .panicked

/-- `reserve_process_heap`: the base address and the first slot. -/
def reserveProcessHeap (pageCount pageSize maxFrameSlots : Nat) :
    EStateM ReserveError AddressSpace (Nat × Nat) := do
  let s ← get
  if pageCount = 0 ∨ pageSize = 0 then throw .invalidArgument
  else
    let bytes ← okOr (checkedMul pageCount pageSize) .invalidArgument
    if wrappingAdd s.nextFrameSlot pageCount > maxFrameSlots then throw .invalidArgument
    else if s.userHeapNextVa = 0 ∨ s.userHeapLimitVa ≤ s.userHeapNextVa then throw .invalidArgument
    else
      let heapEnd ← okOr (checkedAdd s.userHeapNextVa bytes) .invalidArgument
      if heapEnd > s.userHeapLimitVa then throw .invalidArgument
      else
        set { s with
          nextFrameSlot := wrappingAdd s.nextFrameSlot pageCount
          userHeapNextVa := heapEnd }
        return (s.userHeapNextVa, s.nextFrameSlot)

/-- `reserve_process_heap_at`: the first slot. -/
def reserveProcessHeapAt (baseVa pageCount pageSize maxFrameSlots : Nat) :
    EStateM ReserveError AddressSpace Nat := do
  let s ← get
  if baseVa = 0 ∨ pageCount = 0 ∨ pageSize = 0 ∨ baseVa &&& (pageSize - 1) ≠ 0 then
    throw .invalidArgument
  else
    let bytes ← okOr (checkedMul pageCount pageSize) .invalidArgument
    let _ ← okOr (checkedAdd baseVa bytes) .invalidArgument
    if wrappingAdd s.nextFrameSlot pageCount > maxFrameSlots then throw .invalidArgument
    else
      let pages ← okOr (s.shared.pages.exclude (baseVa / pageSize) pageCount) .panicked
      set { s with
        nextFrameSlot := wrappingAdd s.nextFrameSlot pageCount
        shared := { s.shared with pages := pages } }
      return s.nextFrameSlot

/-- `reserve_process_virtual_gap`: the base address. -/
def reserveProcessVirtualGap (pageCount pageSize : Nat) : EStateM ReserveError AddressSpace Nat := do
  let s ← get
  if pageCount = 0 ∨ pageSize = 0 then throw .invalidArgument
  else
    let bytes ← okOr (checkedMul pageCount pageSize) .invalidArgument
    if s.userHeapNextVa = 0 ∨ s.userHeapLimitVa ≤ s.userHeapNextVa then throw .invalidArgument
    else
      let gapEnd ← okOr (checkedAdd s.userHeapNextVa bytes) .invalidArgument
      if gapEnd > s.userHeapLimitVa then throw .invalidArgument
      else
        set { s with userHeapNextVa := gapEnd }
        return s.userHeapNextVa

def resetRuntimeMemoryForExec (nextFrameSlot userHeapNextVa userHeapLimitVa : Nat)
    (s : AddressSpace) : AddressSpace :=
  { s with
    nextFrameSlot := nextFrameSlot
    userHeapNextVa := userHeapNextVa
    userHeapLimitVa := userHeapLimitVa
    shared := SharedMemorySpace.empty }

/-! ## What a reservation does -/

/-- Where a shared reservation's slots come from: recycled ones or the counter. -/
inductive SlotsFrom (s t : AddressSpace) (start count : Nat) : Prop
  | recycled (cover : ∀ x, cover t.shared.slots.ranges x + ind start count x =
      cover s.shared.slots.ranges x) (counter : t.nextFrameSlot = s.nextFrameSlot)
  | fresh (slots : t.shared.slots = s.shared.slots) (start_eq : start = s.nextFrameSlot)
      (counter : t.nextFrameSlot = start + count)

/-- Where a shared reservation's pages come from: recycled ones, the watermark or the caller. -/
inductive PagesFrom (s t : AddressSpace) (requestedVa base count : Nat) : Prop
  | recycled (page : Nat) (automatic : requestedVa = 0) (base_eq : base = page * pageSize)
      (cover : ∀ x, cover t.shared.pages.ranges x + ind page count x =
        cover s.shared.pages.ranges x)
      (limit : base + count * pageSize ≤ s.userHeapLimitVa)
      (watermark : t.userHeapNextVa = s.userHeapNextVa)
  | fresh (automatic : requestedVa = 0) (pages : t.shared.pages = s.shared.pages)
      (base_eq : base = s.userHeapNextVa) (limit : base + count * pageSize ≤ s.userHeapLimitVa)
      (watermark : t.userHeapNextVa = base + count * pageSize)
  | requested (chosen : requestedVa ≠ 0) (base_eq : base = requestedVa)
      (aligned : base % pageSize = 0)
      (cover : ∀ x, cover t.shared.pages.ranges x =
        if base / pageSize ≤ x ∧ x < base / pageSize + count then 0
        else cover s.shared.pages.ranges x)
      (watermark : t.userHeapNextVa = s.userHeapNextVa)

structure Granted (s t : AddressSpace) (requestedVa count : Nat) (r : SharedMemoryReservation) :
    Prop where
  nonempty : count ≠ 0
  pageCount : r.pageCount = count
  base : r.baseVa ≠ 0
  slots : SlotsFrom s t r.startSlot count
  pages : PagesFrom s t requestedVa r.baseVa count
  slotsValid : t.shared.slots.Valid
  pagesValid : t.shared.pages.Valid
  apart : s.shared.meetsActive r.baseVa (r.baseVa + count * pageSize) = false
  slotsEnd : r.startSlot + count ≤ processFrameTotalPages
  active : t.shared.active = s.shared.active.insert r.baseVa r
  limit : t.userHeapLimitVa = s.userHeapLimitVa
  pid : t.pid = s.pid

lemma takeSlots_spec {s : AddressSpace} {count} (h : s.shared.slots.Valid) (h0 : count ≠ 0) :
    ∃ slots, s.shared.takeSlots (s.shared.slots.find count) count = some slots ∧ slots.Valid ∧
      ((∀ x, cover slots.ranges x + ind ((s.shared.slots.find count).getD s.nextFrameSlot) count x =
        cover s.shared.slots.ranges x) ∧ (s.shared.slots.find count).isNone = false ∨
      slots = s.shared.slots ∧ s.shared.slots.find count = none) := by
  cases hf : s.shared.slots.find count with
  | none => exact ⟨_, rfl, h, .inr ⟨rfl, rfl⟩⟩
  | some slot =>
    obtain ⟨length, hle, hm⟩ := find_some h hf
    obtain ⟨g, hg, hv, hc⟩ := take_spec h h0 hm hle
    exact ⟨g, hg, hv, .inl ⟨hc, rfl⟩⟩

/-- The recycled pages after a reservation, for each place its address can come from. -/
lemma takePages_spec {s : AddressSpace} {requestedVa base count} (h : s.shared.pages.Valid)
    (h0 : count ≠ 0) {freePage : Option Nat}
    (hfree : freePage = if requestedVa = 0 then s.shared.pages.find count else none)
    (hbase : base = if requestedVa ≠ 0 then requestedVa
      else (freePage.map (· * pageSize)).getD s.userHeapNextVa) :
    ∃ pages, s.shared.takePages freePage requestedVa base count = some pages ∧ pages.Valid ∧
      ((requestedVa = 0 ∧ ∃ page, freePage = some page ∧ base = page * pageSize ∧
        ∀ x, cover pages.ranges x + ind page count x = cover s.shared.pages.ranges x) ∨
      (requestedVa = 0 ∧ freePage = none ∧ base = s.userHeapNextVa ∧ pages = s.shared.pages) ∨
      (requestedVa ≠ 0 ∧ freePage = none ∧ base = requestedVa ∧ ∀ x, cover pages.ranges x =
        if base / pageSize ≤ x ∧ x < base / pageSize + count then 0
        else cover s.shared.pages.ranges x)) := by
  by_cases hr : requestedVa = 0
  · rw [if_pos hr] at hfree
    rw [if_neg (by simpa using hr)] at hbase
    cases hf : s.shared.pages.find count with
    | none =>
      rw [hf] at hfree
      subst hfree
      refine ⟨s.shared.pages, ?_, h, .inr (.inl ⟨hr, rfl, hbase, rfl⟩)⟩
      exact if_neg (by simpa using hr)
    | some page =>
      rw [hf] at hfree
      subst hfree
      obtain ⟨length, hle, hm⟩ := find_some h hf
      obtain ⟨g, hg, hv, hc⟩ := take_spec h h0 hm hle
      exact ⟨g, hg, hv, .inl ⟨hr, page, rfl, hbase, hc⟩⟩
  · rw [if_neg hr] at hfree
    rw [if_pos hr] at hbase
    subst hfree
    obtain ⟨g, hg, hv, hc⟩ := @FreeRanges.exclude_spec _ (base / pageSize) count h h0
    refine ⟨g, ?_, hv, .inr (.inr ⟨hr, rfl, hbase, hc⟩)⟩
    exact (if_pos hr).trans hg

lemma and_page_mask {va} : va &&& (pageSize - 1) = va % pageSize := by
  rw [pageSize, Nat.and_two_pow_sub_one_eq_mod]

/-- A shared reservation is granted in full or changes nothing. -/
lemma reserveSharedMemoryAt_spec {s : AddressSpace} {count requestedVa} (hs : s.shared.slots.Valid)
    (hp : s.shared.pages.Valid) :
    wp (reserveSharedMemoryAt count processFrameTotalPages requestedVa)
      (fun r t => Granted s t requestedVa count r) (fun _ t => t = s) s := by
  unfold reserveSharedMemoryAt
  refine wp_guard rfl fun hargs => ?_
  obtain ⟨hpid, h0, hal⟩ : s.pid ≠ 0 ∧ count ≠ 0 ∧ requestedVa % pageSize = 0 := by
    simpa only [not_or, ne_eq, Decidable.not_not, and_page_mask] using hargs
  refine wp_lookup rfl fun slotEnd hslot => wp_lookup rfl fun bytes hbytes =>
    wp_lookup rfl fun endVa hend => ?_
  obtain ⟨hslot, hmax⟩ := Option.filter_eq_some_iff.mp hslot
  obtain ⟨hend, hlim⟩ := Option.filter_eq_some_iff.mp hend
  obtain ⟨rfl, -⟩ := checkedAdd_eq_some.mp hslot
  obtain ⟨rfl, -⟩ := checkedMul_eq_some.mp hbytes
  generalize hfree : (if requestedVa = 0 then s.shared.pages.find count else none) = freePage at *
  generalize hbase : (if requestedVa ≠ 0 then requestedVa
    else (freePage.map (· * pageSize)).getD s.userHeapNextVa) = base at *
  obtain ⟨rfl, -⟩ := checkedAdd_eq_some.mp hend
  simp only [Bool.and_eq_true, Bool.or_eq_true, decide_eq_true_eq] at hlim hmax
  refine wp_guard rfl fun hmeet => ?_
  obtain ⟨slots, hslots, hsv, hsfrom⟩ := takeSlots_spec hs h0
  obtain ⟨pages, hpages, hpv, hpfrom⟩ := takePages_spec hp h0 hfree.symm hbase.symm
  simp only [hslots, hpages, okOr_some]
  refine ⟨h0, rfl, hlim.1, ?_, ?_, hsv, hpv, by simpa using hmeet, hmax, rfl, rfl, rfl⟩
  · rcases hsfrom with ⟨hc, hsome⟩ | ⟨heq, hnone⟩
    · refine .recycled hc ?_
      simp [hsome]
    · refine .fresh heq ?_ ?_
      · simp [hnone]
      · simp [hnone]
  · rcases hpfrom with ⟨hr, page, hf, hb, hc⟩ | ⟨hr, hf, hb, heq⟩ | ⟨hr, hf, hb, hc⟩
    · refine .recycled page hr hb hc ?_ ?_
      · simpa [hr] using hlim.2
      · simp [hf]
    · refine .fresh hr heq hb ?_ ?_
      · simpa [hr] using hlim.2
      · simp [hf, hr]
    · refine .requested hr hb (hb ▸ hal) hc ?_
      simp [hr]

structure Recycled (s t : AddressSpace) (r : SharedMemoryReservation) : Prop where
  live : (r.baseVa, r) ∈ s.shared.active.entries
  slotsValid : t.shared.slots.Valid
  pagesValid : t.shared.pages.Valid
  slots : ∀ x, cover t.shared.slots.ranges x =
    cover s.shared.slots.ranges x + ind r.startSlot r.pageCount x
  pages : ∀ x, cover t.shared.pages.ranges x =
    cover s.shared.pages.ranges x + ind (r.baseVa / pageSize) r.pageCount x
  active : t.shared.active = s.shared.active.erase r.baseVa
  counter : t.nextFrameSlot = s.nextFrameSlot
  watermark : t.userHeapNextVa = s.userHeapNextVa
  limit : t.userHeapLimitVa = s.userHeapLimitVa
  pid : t.pid = s.pid

lemma recycleSharedMemory_spec {s r} (hs : s.shared.slots.Valid) (hp : s.shared.pages.Valid)
    (hclear : (r.baseVa, r) ∈ s.shared.active.entries → r.pageCount ≠ 0 ∧
      s.shared.slots.Clear r.startSlot r.pageCount ∧
      s.shared.pages.Clear (r.baseVa / pageSize) r.pageCount) :
    wp (recycleSharedMemory r) (fun _ t => Recycled s t r) (fun _ t => t = s) s := by
  unfold recycleSharedMemory
  refine wp_ite (fun hlive => ?_) (fun _ => rfl)
  have hlive := SortedMap.get?_eq_some.mp hlive
  obtain ⟨h0, hcs, hcp⟩ := hclear hlive
  obtain ⟨hsv, hsc⟩ := insert_spec hs h0 hcs
  obtain ⟨hpv, hpc⟩ := insert_spec hp h0 hcp
  exact ⟨hlive, hsv, hpv, hsc, hpc, rfl, rfl, rfl, rfl, rfl⟩

def frameBound : Nat := 2 ^ 53

lemma wrappingAdd_counter {slot count} (hs : slot ≤ frameBound)
    (hc : count * pageSize < wordSize) : wrappingAdd slot count = slot + count := by
  refine Nat.mod_eq_of_lt ?_
  simp only [frameBound, pageSize, pageBits, wordSize, wordBits] at *
  omega

lemma reserveProcessHeap_spec {s count} (hb : s.nextFrameSlot ≤ frameBound) :
    wp (reserveProcessHeap count pageSize processFrameTotalPages)
      (fun r t => r = (s.userHeapNextVa, s.nextFrameSlot) ∧ count ≠ 0 ∧
        s.nextFrameSlot + count ≤ processFrameTotalPages ∧
        s.userHeapNextVa + count * pageSize ≤ s.userHeapLimitVa ∧
        t = { s with
          nextFrameSlot := s.nextFrameSlot + count
          userHeapNextVa := s.userHeapNextVa + count * pageSize })
      (fun _ t => t = s) s := by
  unfold reserveProcessHeap
  refine wp_guard rfl fun hargs => ?_
  refine wp_lookup rfl fun bytes hbytes => ?_
  obtain ⟨rfl, hlt⟩ := checkedMul_eq_some.mp hbytes
  rw [wrappingAdd_counter hb hlt]
  refine wp_guard rfl fun hmax => ?_
  refine wp_guard rfl fun _ => ?_
  refine wp_lookup rfl fun heapEnd hend => ?_
  obtain ⟨rfl, -⟩ := checkedAdd_eq_some.mp hend
  refine wp_guard rfl fun hlim => ?_
  exact ⟨rfl, by omega, by omega, by omega, rfl⟩

lemma reserveProcessHeapAt_spec {s base count} (hb : s.nextFrameSlot ≤ frameBound)
    (hp : s.shared.pages.Valid) :
    wp (reserveProcessHeapAt base count pageSize processFrameTotalPages)
      (fun r t => r = s.nextFrameSlot ∧ count ≠ 0 ∧ base % pageSize = 0 ∧
        s.nextFrameSlot + count ≤ processFrameTotalPages ∧
        ∃ pages : FreeRanges, pages.Valid ∧
          (∀ x, cover pages.ranges x =
            if base / pageSize ≤ x ∧ x < base / pageSize + count then 0
            else cover s.shared.pages.ranges x) ∧
          t = { s with
            nextFrameSlot := s.nextFrameSlot + count
            shared := { s.shared with pages := pages } })
      (fun _ t => t = s) s := by
  unfold reserveProcessHeapAt
  refine wp_guard rfl fun hargs => ?_
  obtain ⟨-, h0, -, hal⟩ : base ≠ 0 ∧ count ≠ 0 ∧ pageSize ≠ 0 ∧ base % pageSize = 0 := by
    simpa only [not_or, ne_eq, Decidable.not_not, and_page_mask] using hargs
  refine wp_lookup rfl fun bytes hbytes => ?_
  obtain ⟨rfl, hlt⟩ := checkedMul_eq_some.mp hbytes
  refine wp_lookup rfl fun _ _ => ?_
  rw [wrappingAdd_counter hb hlt]
  refine wp_guard rfl fun hmax => ?_
  obtain ⟨pages, hpages, hv, hc⟩ := @FreeRanges.exclude_spec _ (base / pageSize) count hp h0
  simp only [wp_bind, hpages, okOr_some, wp_pure]
  exact ⟨trivial, h0, hal, by omega, pages, hv, hc, rfl⟩

lemma reserveProcessVirtualGap_spec {s count} :
    wp (reserveProcessVirtualGap count pageSize)
      (fun r t => r = s.userHeapNextVa ∧ count ≠ 0 ∧
        s.userHeapNextVa + count * pageSize ≤ s.userHeapLimitVa ∧
        t = { s with userHeapNextVa := s.userHeapNextVa + count * pageSize })
      (fun _ t => t = s) s := by
  unfold reserveProcessVirtualGap
  refine wp_guard rfl fun hargs => ?_
  refine wp_lookup rfl fun bytes hbytes => ?_
  obtain ⟨rfl, hlt⟩ := checkedMul_eq_some.mp hbytes
  refine wp_guard rfl fun _ => ?_
  refine wp_lookup rfl fun gapEnd hend => ?_
  obtain ⟨rfl, -⟩ := checkedAdd_eq_some.mp hend
  refine wp_guard rfl fun hlim => ?_
  exact ⟨rfl, by omega, by omega, rfl⟩

end AddressSpace

end Nanami.Process
