import Nanami.Process.Reservations

/-!
# Runs of reservations

A run starts from a launched address space and makes any reservations, recycles and exec resets.
Heap reservations and gaps leave no record in the address space, so a journal keeps them beside it.

The indexes of the recycled ranges agree and every slot has one owner at most, as long as no page is
recycled while it is free (`Tracked`). A page in front of the watermark can be: it is recycled from a
reservation at a requested address, the watermark then passes over it, and it is recycled again with
the reservation it belongs to since.
-/

namespace Nanami.Process
open Nanami.Lib AddressSpace

/-- What a launch or an exec sets up: the frames of the image and the stack take the first slots, and
the heap begins on a page (`align_up`). An image has less than `2 ^ 52` pages. -/
structure Launch where
  nextFrameSlot : Nat
  heapPage : Nat
  userHeapLimitVa : Nat
  frames_le : nextFrameSlot ≤ frameBound
  limit_lt : userHeapLimitVa < wordSize

/-- An address space with its live heap reservations, and its gaps as base and page count. -/
structure Journal where
  space : AddressSpace
  heaps : List SharedMemoryReservation
  gaps : List (Nat × Nat)

/-- A call on the address space; a shared reservation without a requested address has address 0. -/
inductive Reserve where
  | shared (pageCount requestedVa : Nat)
  | recycle (reservation : SharedMemoryReservation)
  | heap (pageCount : Nat)
  | heapAt (baseVa pageCount : Nat)
  | gap (pageCount : Nat)
  | exec (launch : Launch)

def answer {ε σ α : Type} (m : EStateM ε σ α) (s : σ) : Option α :=
  match m s with
  | .ok a _ => some a
  | .error _ _ => none

variable {ε σ α} {m : EStateM ε σ α} {Q : α → σ → Prop} {E : ε → σ → Prop} {s : σ}

lemma answer_of_wp (h : wp m Q E s) :
    (∃ a, answer m s = some a ∧ Q a (stateAfter m s)) ∨
      answer m s = none ∧ ∃ e, E e (stateAfter m s) := by
  unfold wp at h
  unfold answer stateAfter
  cases hm : m s with
  | ok a t =>
    rw [hm] at h
    exact .inl ⟨a, rfl, h⟩
  | error e t =>
    rw [hm] at h
    exact .inr ⟨rfl, e, h⟩

lemma wp_of_answer {a} (h : wp m Q E s) (ha : answer m s = some a) : Q a (stateAfter m s) := by
  obtain ⟨b, hb, hQ⟩ | ⟨hnone, -⟩ := answer_of_wp h
  · cases ha.symm.trans hb
    exact hQ
  · cases ha.symm.trans hnone

namespace Journal

def held (j : Journal) : List (Nat × Nat) := j.heaps.map (fun h => (h.baseVa, h.pageCount)) ++ j.gaps

def live (j : Journal) : List (Nat × Nat) :=
  j.space.shared.active.entries.map (fun e => (e.2.baseVa, e.2.pageCount)) ++ j.held

def activeSlots (s : AddressSpace) : List (Nat × Nat) :=
  s.shared.active.entries.map fun e => (e.2.startSlot, e.2.pageCount)

def slotRanges (j : Journal) : List (Nat × Nat) :=
  j.space.shared.slots.ranges ++ (activeSlots j.space ++ j.heaps.map fun h => (h.startSlot, h.pageCount))

def reserveShared (pageCount requestedVa : Nat) :
    EStateM ReserveError AddressSpace SharedMemoryReservation :=
  reserveSharedMemoryAt pageCount processFrameTotalPages requestedVa

def reserveHeap (pageCount : Nat) : EStateM ReserveError AddressSpace (Nat × Nat) :=
  reserveProcessHeap pageCount pageSize processFrameTotalPages

def reserveHeapAt (baseVa pageCount : Nat) : EStateM ReserveError AddressSpace Nat :=
  reserveProcessHeapAt baseVa pageCount pageSize processFrameTotalPages

def reserveGap (pageCount : Nat) : EStateM ReserveError AddressSpace Nat :=
  reserveProcessVirtualGap pageCount pageSize

def step (j : Journal) : Reserve → Journal
  | .shared n va => { j with space := stateAfter (reserveShared n va) j.space }
  | .recycle r => { j with space := stateAfter (recycleSharedMemory r) j.space }
  | .heap n =>
    { j with
      space := stateAfter (reserveHeap n) j.space
      heaps := (answer (reserveHeap n) j.space).toList.map (fun r => ⟨r.1, r.2, n⟩) ++ j.heaps }
  | .heapAt va n =>
    { j with
      space := stateAfter (reserveHeapAt va n) j.space
      heaps := (answer (reserveHeapAt va n) j.space).toList.map (fun slot => ⟨va, slot, n⟩) ++ j.heaps }
  | .gap n =>
    { j with
      space := stateAfter (reserveGap n) j.space
      gaps := (answer (reserveGap n) j.space).toList.map (fun base => (base, n)) ++ j.gaps }
  | .exec l =>
    ⟨j.space.resetRuntimeMemoryForExec l.nextFrameSlot (l.heapPage * pageSize) l.userHeapLimitVa,
      [], []⟩

def run (j : Journal) (es : List Reserve) : Journal := es.foldl step j

def launched (pid : Nat) (l : Launch) : Journal :=
  ⟨⟨pid, l.nextFrameSlot, l.heapPage * pageSize, l.userHeapLimitVa, SharedMemorySpace.empty⟩, [], []⟩

def Along (P : Journal → Reserve → Prop) : Journal → List Reserve → Prop
  | _, [] => True
  | j, e :: es => P j e ∧ Along P (j.step e) es

variable {j k : Journal} {t : AddressSpace} {r : SharedMemoryReservation}
  {P : Journal → Reserve → Prop} {es : List Reserve} {pid next n : Nat} {e : Reserve}

lemma Along.invariant {I : Journal → Prop} (hstep : ∀ {j e}, I j → P j e → I (j.step e)) (hj : I j)
    (h : Along P j es) : I (j.run es) := by
  induction es generalizing j with
  | nil => exact hj
  | cons e es ih => exact ih (hstep hj h.1) h.2

lemma along_append {es'} : Along P j (es ++ es') ↔ Along P j es ∧ Along P (j.run es) es' := by
  induction es generalizing j with
  | nil => exact ⟨fun h => ⟨trivial, h⟩, fun h => h.2⟩
  | cons e es ih =>
    rw [List.cons_append, Along, ih, Along, and_assoc]
    rfl

/-! ## Slots -/

/-- The indexes of recycled slots and pages agree, their ranges are apart, and every slot is free or
owned once at most. -/
structure Consistent (j : Journal) : Prop where
  slots : j.space.shared.slots.Valid
  pages : j.space.shared.pages.Valid
  owned : ∀ x, cover j.slotRanges x ≤ 1

/-- What keeps a run consistent: slots that are free or owned lie below the counter. -/
structure Tracked (j : Journal) : Prop extends Consistent j where
  below : ∀ x, 0 < cover j.slotRanges x → x < j.space.nextFrameSlot
  within : ∀ x, 0 < cover (j.space.shared.slots.ranges ++ activeSlots j.space) x →
    x < processFrameTotalPages
  keyed : ∀ e ∈ j.space.shared.active.entries, e.2.baseVa = e.1 ∧ e.2.pageCount ≠ 0
  bound : j.space.nextFrameSlot ≤ frameBound

lemma cover_slotRanges {x} : cover j.slotRanges x =
    cover j.space.shared.slots.ranges x + cover (activeSlots j.space) x +
      cover (j.heaps.map fun h => (h.startSlot, h.pageCount)) x := by
  rw [slotRanges, cover_append, cover_append]
  omega

lemma tracked_empty {nextFrameSlot limit} (hb : nextFrameSlot ≤ frameBound) :
    Tracked ⟨⟨pid, nextFrameSlot, next, limit, SharedMemorySpace.empty⟩, [], []⟩ where
  slots := .empty
  pages := .empty
  owned x := Nat.zero_le _
  below x hx := by cases hx
  within x hx := by cases hx
  keyed e he := by cases he
  bound := hb

lemma cover_active_insert {s t r k x} (h : t.shared.active = s.shared.active.insert k r) :
    cover (activeSlots t) x ≤ ind r.startSlot r.pageCount x + cover (activeSlots s) x := by
  rw [activeSlots, h, cover_perm (SortedMap.insert_perm.map _), List.map_cons, cover_cons]
  refine Nat.add_le_add_left ?_ _
  exact (List.Sublist.map _ List.filter_sublist).countP_le

lemma cover_active_erase {s t r x} (hm : (r.baseVa, r) ∈ s.shared.active.entries)
    (h : t.shared.active = s.shared.active.erase r.baseVa) :
    cover (activeSlots t) x + ind r.startSlot r.pageCount x = cover (activeSlots s) x := by
  rw [activeSlots, activeSlots, h, cover_perm ((SortedMap.erase_perm hm).map _), List.map_cons,
    cover_cons]
  exact add_comm _ _

section

variable (h : j.Tracked)
include h

lemma Tracked.moved {m} (hslots : k.space.shared.slots.Valid)
    (hpages : k.space.shared.pages.Valid) (hcounter : k.space.nextFrameSlot = j.space.nextFrameSlot + m)
    (hmax : m ≠ 0 → j.space.nextFrameSlot + m ≤ processFrameTotalPages)
    (hall : ∀ x, cover k.slotRanges x ≤ ind j.space.nextFrameSlot m x + cover j.slotRanges x)
    (hshared : ∀ x, cover (k.space.shared.slots.ranges ++ activeSlots k.space) x ≤
      ind j.space.nextFrameSlot m x + cover (j.space.shared.slots.ranges ++ activeSlots j.space) x)
    (hkeyed : ∀ e ∈ k.space.shared.active.entries, e.2.baseVa = e.1 ∧ e.2.pageCount ≠ 0) :
    k.Tracked := by
  refine ⟨⟨hslots, hpages, fun x => ?_⟩, fun x hx => ?_, fun x hx => ?_, hkeyed, ?_⟩
  · -- a slot at the counter is new
    refine le_trans (hall x) ?_
    have h1 := h.owned x
    have h2 := h.below x
    unfold ind
    split <;> omega
  · have hle := hall x
    have h2 := h.below x
    unfold ind at hle
    split at hle <;> omega
  · have hle := hshared x
    have h2 := h.within x
    unfold ind at hle
    split at hle <;> omega
  · have htotal : processFrameTotalPages ≤ frameBound := by decide
    have hb := h.bound
    omega

lemma Tracked.granted {va} (hg : AddressSpace.Granted j.space t va n r) :
    Tracked { j with space := t } := by
  have hactive := fun x => @cover_active_insert j.space t r r.baseVa x hg.active
  rw [hg.pageCount] at hactive
  have hend := hg.slotsEnd
  have hmoved : ∃ m, t.nextFrameSlot = j.space.nextFrameSlot + m ∧
      (m ≠ 0 → j.space.nextFrameSlot + m ≤ processFrameTotalPages) ∧
      ∀ x, cover t.shared.slots.ranges x + cover (activeSlots t) x ≤ ind j.space.nextFrameSlot m x +
        (cover j.space.shared.slots.ranges x + cover (activeSlots j.space) x) := by
    cases hg.slots with
    | recycled hcov hcounter =>
      refine ⟨0, hcounter, absurd rfl, fun x => ?_⟩
      have h1 := hactive x
      have h2 := hcov x
      omega
    | fresh hslots hstart hcounter =>
      rw [hstart] at hactive hcounter hend
      refine ⟨n, hcounter, fun _ => hend, fun x => ?_⟩
      have h1 := hactive x
      rw [hslots]
      omega
  obtain ⟨m, hcounter, hmax, hle⟩ := hmoved
  refine h.moved hg.slotsValid hg.pagesValid hcounter hmax (fun x => ?_) (fun x => ?_) fun e he => ?_
  · have := hle x
    rw [cover_slotRanges, cover_slotRanges]
    simp only
    omega
  · rw [cover_append, cover_append]
    exact hle x
  · simp only [hg.active] at he
    obtain rfl | ⟨he, -⟩ := SortedMap.mem_insert.mp he
    · exact ⟨rfl, hg.pageCount ▸ hg.nonempty⟩
    · exact h.keyed e he

lemma Tracked.recycled (hr : AddressSpace.Recycled j.space t r) :
    Tracked { j with space := t } := by
  have hsum : ∀ x, cover t.shared.slots.ranges x + cover (activeSlots t) x =
      cover j.space.shared.slots.ranges x + cover (activeSlots j.space) x := by
    intro x
    have h1 := hr.slots x
    have h2 := @cover_active_erase j.space t r x hr.live hr.active
    omega
  refine h.moved (m := 0) hr.slotsValid hr.pagesValid hr.counter (absurd rfl) (fun x => ?_)
    (fun x => ?_) fun e he => ?_
  · rw [cover_slotRanges, cover_slotRanges]
    simp only [hsum x]
    exact Nat.le_add_left _ _
  · rw [cover_append, cover_append, hsum x]
    exact Nat.le_add_left _ _
  · simp only [hr.active] at he
    exact h.keyed e (SortedMap.mem_erase.mp he).1

lemma Tracked.slots_clear (hm : (r.baseVa, r) ∈ j.space.shared.active.entries) :
    j.space.shared.slots.Clear r.startSlot r.pageCount := by
  refine FreeRanges.clear_of_cover h.slots (h.keyed _ hm).2 fun x h1 h2 => ?_
  have hmem : (r.startSlot, r.pageCount) ∈ activeSlots j.space := List.mem_map.mpr ⟨_, hm, rfl⟩
  have hpos : 0 < cover (activeSlots j.space) x := cover_pos.mpr ⟨_, hmem, h1, h2⟩
  have := h.owned x
  rw [cover_slotRanges] at this
  omega

lemma Tracked.heap {base} (hpages : t.shared.pages.Valid)
    (hslots : t.shared.slots = j.space.shared.slots)
    (hactive : t.shared.active = j.space.shared.active)
    (hcounter : t.nextFrameSlot = j.space.nextFrameSlot + n)
    (hmax : j.space.nextFrameSlot + n ≤ processFrameTotalPages) :
    Tracked { j with
      space := t
      heaps := ⟨base, j.space.nextFrameSlot, n⟩ :: j.heaps } := by
  refine h.moved (hslots ▸ h.slots) hpages hcounter (fun _ => hmax) (fun x => ?_) (fun x => ?_)
    fun e he => ?_
  · rw [cover_slotRanges, cover_slotRanges, List.map_cons, cover_cons, activeSlots, activeSlots]
    simp only [hslots, hactive]
    omega
  · simp only [activeSlots, hslots, hactive]
    exact Nat.le_add_left _ _
  · simp only [hactive] at he
    exact h.keyed e he

lemma Tracked.watermark {gaps} :
    Tracked { j with
      space := { j.space with userHeapNextVa := next }
      gaps := gaps } :=
  ⟨⟨h.slots, h.pages, h.owned⟩, h.below, h.within, h.keyed, h.bound⟩

end

/-- A live reservation that is recycled has no page that was recycled before and is still free. -/
def PagesNotFree (j : Journal) : Reserve → Prop
  | .recycle r => (r.baseVa, r) ∈ j.space.shared.active.entries →
    j.space.shared.pages.Clear (r.baseVa / pageSize) r.pageCount
  | _ => True

inductive Effect (j : Journal) : Reserve → Journal → Prop where
  | refused {e : Reserve} : Effect j e j
  | granted {n va : Nat} {t : AddressSpace} {r : SharedMemoryReservation}
    (hg : AddressSpace.Granted j.space t va n r) : Effect j (.shared n va) { j with space := t }
  | recycled {t : AddressSpace} {r : SharedMemoryReservation}
    (hr : AddressSpace.Recycled j.space t r) : Effect j (.recycle r) { j with space := t }
  | heap {n : Nat} (h0 : n ≠ 0) (hmax : j.space.nextFrameSlot + n ≤ processFrameTotalPages)
    (hlim : j.space.userHeapNextVa + n * pageSize ≤ j.space.userHeapLimitVa) :
    Effect j (.heap n) { j with
      space := { j.space with
        nextFrameSlot := j.space.nextFrameSlot + n
        userHeapNextVa := j.space.userHeapNextVa + n * pageSize }
      heaps := ⟨j.space.userHeapNextVa, j.space.nextFrameSlot, n⟩ :: j.heaps }
  | heapAt {va n : Nat} {pages : FreeRanges} (h0 : n ≠ 0) (hal : va % pageSize = 0)
    (hmax : j.space.nextFrameSlot + n ≤ processFrameTotalPages) (hv : pages.Valid)
    (hcov : ∀ x, cover pages.ranges x =
      if va / pageSize ≤ x ∧ x < va / pageSize + n then 0
      else cover j.space.shared.pages.ranges x) :
    Effect j (.heapAt va n) { j with
      space := { j.space with
        nextFrameSlot := j.space.nextFrameSlot + n
        shared := { j.space.shared with pages := pages } }
      heaps := ⟨va, j.space.nextFrameSlot, n⟩ :: j.heaps }
  | gap {n : Nat} (h0 : n ≠ 0)
    (hlim : j.space.userHeapNextVa + n * pageSize ≤ j.space.userHeapLimitVa) :
    Effect j (.gap n) { j with
      space := { j.space with userHeapNextVa := j.space.userHeapNextVa + n * pageSize }
      gaps := (j.space.userHeapNextVa, n) :: j.gaps }
  | exec (l : Launch) : Effect j (.exec l)
    ⟨⟨j.space.pid, l.nextFrameSlot, l.heapPage * pageSize, l.userHeapLimitVa,
      SharedMemorySpace.empty⟩, [], []⟩

lemma step_effect (h : j.Tracked) (he : PagesNotFree j e) : Effect j e (j.step e) := by
  cases e with
  | shared n va =>
    obtain ⟨r, -, hg⟩ | ⟨-, e, heq⟩ := answer_of_wp
      (@AddressSpace.reserveSharedMemoryAt_spec j.space n va h.slots h.pages)
    · exact .granted hg
    · rw [step, reserveShared, heq]
      exact .refused
  | recycle r =>
    obtain ⟨u, -, hr⟩ | ⟨-, e, heq⟩ := answer_of_wp (recycleSharedMemory_spec
      h.slots h.pages fun hm => ⟨(h.keyed _ hm).2, h.slots_clear hm, he hm⟩)
    · exact .recycled hr
    · rw [step, heq]
      exact .refused
  | heap n =>
    obtain ⟨r, hans, rfl, h0, hmax, hlim, ht⟩ | ⟨hans, e, heq⟩ := answer_of_wp
      (@AddressSpace.reserveProcessHeap_spec j.space n h.bound)
    · rw [step, reserveHeap, hans, ht]
      exact .heap h0 hmax hlim
    · rw [step, reserveHeap, hans, heq]
      exact .refused
  | heapAt va n =>
    obtain ⟨r, hans, rfl, h0, hal, hmax, pages, hv, hcov, ht⟩ | ⟨hans, e, heq⟩ := answer_of_wp
      (@AddressSpace.reserveProcessHeapAt_spec j.space va n h.bound h.pages)
    · rw [step, reserveHeapAt, hans, ht]
      exact .heapAt h0 hal hmax hv hcov
    · rw [step, reserveHeapAt, hans, heq]
      exact .refused
  | gap n =>
    obtain ⟨r, hans, rfl, h0, hlim, ht⟩ | ⟨hans, e, heq⟩ := answer_of_wp
      (@AddressSpace.reserveProcessVirtualGap_spec j.space n)
    · rw [step, reserveGap, hans, ht]
      exact .gap h0 hlim
    · rw [step, reserveGap, hans, heq]
      exact .refused
  | exec l => exact .exec l

lemma step_tracked (h : j.Tracked) (he : PagesNotFree j e) : (j.step e).Tracked := by
  have heff := step_effect h he
  generalize j.step e = k at heff ⊢
  cases heff with
  | refused => exact h
  | granted hg => exact h.granted hg
  | recycled hr => exact h.recycled hr
  | heap h0 hmax hlim => exact h.heap h.pages rfl rfl rfl hmax
  | heapAt h0 hal hmax hv hcov => exact h.heap hv rfl rfl rfl hmax
  | gap h0 hlim => exact h.watermark
  | exec l => exact tracked_empty l.frames_le

lemma tracked_launched {l} : Tracked (launched pid l) := tracked_empty l.frames_le

/-- In every run in which no page is recycled while it is free, every state reached is consistent. -/
theorem slots_consistent (pid : Nat) (l : Launch) {es es' : List Reserve}
    (h : Along PagesNotFree (launched pid l) (es ++ es')) : Consistent ((launched pid l).run es) :=
  ((along_append.mp h).1.invariant step_tracked tracked_launched).toConsistent

def smallLaunch : Launch := ⟨100, 0x10000, 0x70000000, by decide, by decide⟩

/-- One reservation at a requested address, recycled and made again. -/
theorem slots_consistent_twice :
    let es : List Reserve := [.shared 1 0x10000000, .recycle ⟨0x10000000, 100, 1⟩, .shared 1 0]
    Consistent ((launched 1 smallLaunch).run es) := by
  refine @slots_consistent 1 smallLaunch _ [] ?_
  refine ⟨trivial, fun _ => ?_, trivial, trivial⟩
  decide +kernel

/-- A page in front of the watermark is reserved and recycled, then the watermark passes over it for
a larger reservation, and this one is recycled as well. -/
def crossedRun : List Reserve :=
  [.shared 1 0x10000000, .recycle ⟨0x10000000, 100, 1⟩, .shared 2 0, .recycle ⟨0x10000000, 101, 2⟩]

/-- The index by size then has a range that the index by address has not. -/
theorem crossedRun_inconsistent : ¬Consistent ((launched 1 smallLaunch).run crossedRun) := by
  intro h
  have hsize : (toLex (1, 0x10000), ()) ∈
      ((launched 1 smallLaunch).run crossedRun).space.shared.pages.bySize.entries := by decide +kernel
  have haddress : (0x10000, 1) ∉
      ((launched 1 smallLaunch).run crossedRun).space.shared.pages.ranges := by decide +kernel
  exact haddress ((h.pages.mirror _ _).mp hsize)

end Journal

end Nanami.Process
