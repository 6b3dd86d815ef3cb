import Nanami.Memory.PhysicalAllocator

/-!
# The allocator partitions physical memory

Each pool's free blocks and the records of that pool cover every page that was added to the pool
once, and no other page. Every operation on the allocator preserves this whatever its arguments
and its outcome: what it takes from a pool it records, and what it drops from a record it gives
back.
-/

namespace Nanami.Memory
open Nanami.Lib List BuddyPool

def AllocationRecord.extent (a : AllocationRecord) : Nat × Nat := (a.basePage, a.pageCount)

def PhysicalAllocation.record (a : PhysicalAllocation) : AllocationRecord :=
  ⟨a.basePage, a.pageCount, a.isDevice, false⟩

namespace PhysicalAllocator

def extents (s : PhysicalAllocator) (isDevice : Bool) : List (Nat × Nat) :=
  (s.allocations.filter (·.isDevice == isDevice)).map AllocationRecord.extent

def ranges (s : PhysicalAllocator) (isDevice : Bool) : List (Nat × Nat) :=
  (s.pool isDevice).blocks ++ s.extents isDevice

def reservedRecords (s : PhysicalAllocator) : List AllocationRecord :=
  s.allocations.filter (·.reserved)

variable {d d' dev : Bool} {p q : BuddyPool} {s t : PhysicalAllocator}
  {b c x count baseAddress sizeBytes : Nat} {a : AllocationRecord}

@[simp] lemma pool_setPool_self : (setPool d p s).pool d = p := by
  cases d <;> rfl

lemma pool_setPool_of_ne (h : d' ≠ d) : (setPool d p s).pool d' = s.pool d' := by
  cases d <;> cases d' <;> first | rfl | exact absurd rfl h

@[simp] lemma allocations_setPool : (setPool d p s).allocations = s.allocations := by
  cases d <;> rfl

@[simp] lemma pool_recordAllocation : (recordAllocation b c d s).pool d' = s.pool d' := rfl

/-- Sound pools, records inside the address space, and no page covered twice. -/
structure Valid (s : PhysicalAllocator) : Prop where
  sound : ∀ d, (s.pool d).Sound
  bounded : ∀ a ∈ s.allocations, a.basePage + a.pageCount ≤ maxPages
  once : ∀ d x, cover (s.ranges d) x ≤ 1

/-- From `s` to `t` no page was gained or lost, and the reserved records stayed. -/
structure Keeps (s t : PhysicalAllocator) : Prop where
  valid : t.Valid
  cover : ∀ d x, Lib.cover (t.ranges d) x = Lib.cover (s.ranges d) x
  reserved : t.reservedRecords.Perm s.reservedRecords

@[simp] lemma ranges_new (d : Bool) : PhysicalAllocator.new.ranges d = [] := by cases d <;> rfl

lemma Valid.new : PhysicalAllocator.new.Valid where
  sound d := by cases d <;> exact .new
  bounded a h := by cases h
  once d x := by cases d <;> exact Nat.zero_le _

lemma Keeps.refl {s} (h : s.Valid) : Keeps s s :=
  ⟨h, fun _ _ => rfl, List.Perm.refl _⟩

lemma Keeps.trans {u} (h : Keeps s t) (h' : Keeps t u) : Keeps s u :=
  ⟨h'.valid, fun d x => (h'.cover d x).trans (h.cover d x), h'.reserved.trans h.reserved⟩

lemma cover_push (hp : t.pool d = s.pool d) (ha : t.allocations.Perm (a :: s.allocations)) :
    Lib.cover (t.ranges d) x = Lib.cover (s.ranges d) x +
      (if a.isDevice = d then ind a.basePage a.pageCount x else 0) := by
  rw [ranges, ranges, cover_append, cover_append, hp, extents, extents,
    cover_perm ((ha.filter _).map _), cover_filter_cons (f := AllocationRecord.isDevice)]
  show _ + ((if a.isDevice = d then ind a.basePage a.pageCount x else 0) + _) = _
  omega

lemma cover_setPool {e} :
    Lib.cover ((setPool d p s).ranges e) x + (if d = e then Lib.cover (s.pool d).blocks x else 0) =
      Lib.cover (s.ranges e) x + (if d = e then Lib.cover p.blocks x else 0) := by
  rw [ranges, ranges, cover_append, cover_append, extents, extents, allocations_setPool]
  by_cases hd : d = e
  · subst hd
    rw [pool_setPool_self, if_pos rfl, if_pos rfl]
    omega
  · rw [pool_setPool_of_ne (Ne.symm hd), if_neg hd, if_neg hd]

lemma cover_setPool_adds (h : BuddyPool.Adds (s.pool d) q b c) :
    Lib.cover ((setPool d q s).ranges d') x =
      Lib.cover (s.ranges d') x + (if d = d' then ind b c x else 0) := by
  have hset := cover_setPool (s := s) (p := q) (d := d) (e := d') (x := x)
  have ha := h.cover x
  split_ifs at hset ⊢ <;> omega

lemma cover_setPool_removes (h : BuddyPool.Removes (s.pool d) q b c) :
    Lib.cover ((setPool d q s).ranges d') x + (if d = d' then ind b c x else 0) =
      Lib.cover (s.ranges d') x := by
  have hset := cover_setPool (s := s) (p := q) (d := d) (e := d') (x := x)
  have hr := h.cover x
  split_ifs at hset ⊢ <;> omega

lemma forall_pool_setPool {P : Bool → BuddyPool → Prop} (h : ∀ d, P d (s.pool d)) (hp : P d p) (d') :
    P d' ((setPool d p s).pool d') := by
  by_cases hd : d' = d
  · subst hd
    rw [pool_setPool_self]
    exact hp
  · rw [pool_setPool_of_ne hd]
    exact h d'

lemma setPool_sound (h : ∀ d, (s.pool d).Sound) (hp : p.Sound) :
    ∀ d', ((setPool d p s).pool d').Sound :=
  forall_pool_setPool h hp

lemma Valid.keeps (h : s.Valid) (sound : ∀ d, (t.pool d).Sound)
    (bounded : ∀ a ∈ t.allocations, a.basePage + a.pageCount ≤ maxPages)
    (cov : ∀ d x, Lib.cover (t.ranges d) x = Lib.cover (s.ranges d) x)
    (reserved : t.reservedRecords.Perm s.reservedRecords) : Keeps s t :=
  ⟨⟨sound, bounded, fun d x => by rw [cov]; exact h.once d x⟩, cov, reserved⟩

lemma Valid.take {base} (h : s.Valid) (hr : BuddyPool.Removes (s.pool d) q base count)
    (hb : base + count ≤ maxPages) : Keeps s (recordAllocation base count d (setPool d q s)) := by
  apply h.keeps
  · exact setPool_sound h.sound hr.sound
  · intro a ha
    simp only [recordAllocation, allocations_setPool, mem_append, mem_singleton] at ha
    rcases ha with ha | rfl
    · exact h.bounded a ha
    · exact hb
  · intro d' x
    have hpush := cover_push (s := setPool d q s) (t := recordAllocation base count d (setPool d q s))
      (d := d') (x := x) (a := ⟨base, count, d, false⟩) rfl (perm_append_singleton _ _)
    rw [hpush]
    exact cover_setPool_removes hr
  · simp [reservedRecords, recordAllocation]

lemma wp_onPool {α} {m : EStateM PhysicalAllocError BuddyPool α} {Q E} :
    wp (onPool d m) Q E s ↔
      wp m (fun a p => Q a (setPool d p s)) (fun e p => E e (setPool d p s)) (s.pool d) :=
  wp_zoom

/-- From `s` to `t` the pages of `a` went from their pool to one new record. -/
structure Taken (s t : PhysicalAllocator) (a : PhysicalAllocation) : Prop where
  keeps : Keeps s t
  pool : BuddyPool.Removes (s.pool a.isDevice) (t.pool a.isDevice) a.basePage a.pageCount
  other : ∀ d, d ≠ a.isDevice → t.pool d = s.pool d
  allocations : t.allocations = s.allocations ++ [a.record]

lemma onPool_allocateRange {base : Nat} (h : s.Valid) :
    wp (onPool d (allocateRange base count))
      (fun _ t => Taken s (recordAllocation base count d t) ⟨base, count, d⟩ ∧ count ≠ 0)
      (fun _ t => t = s ∧ ¬(s.pool d).Holds base count) s := by
  refine wp_onPool.mpr ?_
  rcases @BuddyPool.allocateRange_iff _ base count (h.sound d) with
    ⟨q, hq, hrem, h0, hb⟩ | ⟨⟨e, he⟩, hno⟩
  · refine wp_of_ok hq ⟨⟨h.take hrem hb, ?_, fun d' hd => ?_, ?_⟩, h0⟩
    · rw [pool_recordAllocation, pool_setPool_self]
      exact hrem
    · rw [pool_recordAllocation, pool_setPool_of_ne hd]
    · rw [recordAllocation, allocations_setPool]
      rfl
  · exact wp_of_error he ⟨by cases d <;> rfl, hno⟩

/-- When `allocate_at` grants a request, and what it then does. -/
lemma allocateAt_iff {s baseAddress sizeBytes allowDevice} (h : s.Valid) :
    let base := baseAddress >>> pageBits
    let count := bytesToPages sizeBytes
    wp (allocateAt baseAddress sizeBytes allowDevice)
      (fun a t => Taken s t a ∧ a.basePage = base ∧ a.pageCount = count ∧ count ≠ 0 ∧
        isPageAligned baseAddress = true ∧ sizeBytes ≠ 0 ∧ (a.isDevice = true → allowDevice = true))
      (fun _ t => t = s ∧ (isPageAligned baseAddress = true → sizeBytes ≠ 0 →
        ¬(s.pool false).Holds base count ∧ (allowDevice = true → ¬(s.pool true).Holds base count)))
      s := by
  intro base count
  refine wp_ite (fun hargs => ⟨rfl, fun ha h0 => ?_⟩) (fun hargs => ?_)
  · simp [ha, h0] at hargs
  obtain ⟨ha, h0⟩ : isPageAligned baseAddress = true ∧ sizeBytes ≠ 0 := by
    simpa only [Bool.or_eq_true, not_or, Bool.not_eq_true', Bool.not_eq_false, beq_iff_eq] using hargs
  simp only [wp_bind, wp_attempt]
  refine wp_mono (onPool_allocateRange h) (fun _ t ht => ?_) ?_
  · exact ⟨ht.1, rfl, rfl, ht.2, ha, h0, fun hd => by cases hd⟩
  rintro _ _ ⟨rfl, hno⟩
  refine wp_ite (fun hc => ⟨rfl, fun _ _ => ⟨hno, fun hallow => ?_⟩⟩) (fun _ => ?_)
  · simp [hallow] at hc
  refine wp_ite (fun hallow => ?_) (fun hallow => ?_)
  · simp only [wp_bind, wp_attempt]
    refine wp_mono (onPool_allocateRange h) (fun _ t ht => ?_) ?_
    · exact ⟨ht.1, rfl, rfl, ht.2, ha, h0, fun _ => hallow⟩
    · rintro _ _ ⟨rfl, hno'⟩
      exact ⟨rfl, fun _ _ => ⟨hno, fun _ => hno'⟩⟩
  · exact ⟨rfl, fun _ _ => ⟨hno, fun hc => absurd hc hallow⟩⟩

/-- `allocate_at` records what it returns, which is what was asked for, and changes nothing when it
fails. -/
lemma allocateAt_spec {allowDevice} (h : s.Valid) :
    wp (allocateAt baseAddress sizeBytes allowDevice)
      (fun a t => Keeps s t ∧ t.allocations = s.allocations ++ [a.record] ∧
        a.pageCount = bytesToPages sizeBytes ∧ (allowDevice = false → a.isDevice = false))
      (fun _ t => t = s) s := by
  refine wp_mono (allocateAt_iff h) ?_ (fun _ _ ht => ht.1)
  rintro a t ⟨ht, -, hc, -, -, -, hdev⟩
  refine ⟨ht.keeps, ht.allocations, hc, fun hno => ?_⟩
  cases hd : a.isDevice with
  | false => rfl
  | true => exact nomatch hno.symm.trans (hdev hd)

lemma bytesToPages_lt {bytes} : bytesToPages bytes < maxPages := by
  refine Nat.div_lt_of_lt_mul ?_
  exact Nat.mod_lt _ (by decide)

lemma bytesToPages_shl (h : count < maxPages) :
    bytesToPages (wrappingShl count pageBits) = count := by
  rw [wrappingShl_page (Nat.mul_lt_mul_of_pos_right h (by decide)), bytesToPages_mul h]

/-- `allocate_any` records what it returns, ordinary memory of the size asked for. -/
lemma allocateAny_spec (h : s.Valid) :
    wp (allocateAny sizeBytes)
      (fun a t => Keeps s t ∧ t.allocations = s.allocations ++ [a.record] ∧
        a.pageCount = bytesToPages sizeBytes ∧ a.pageCount ≠ 0 ∧ a.isDevice = false)
      (fun _ t => t = s) s := by
  refine wp_guard rfl fun _ => ?_
  simp only [wp_bind]
  refine wp_okOr (fun _ hfit => ?_) (fun _ => rfl)
  have h0 : bytesToPages sizeBytes ≠ 0 := by
    intro h0
    rw [findFirstFit, if_pos h0] at hfit
    cases hfit
  refine wp_post (allocateAt_spec h) ?_
  rintro a t ⟨hk, ha, hcount, hdev⟩
  rw [bytesToPages_shl bytesToPages_lt] at hcount
  exact ⟨hk, ha, hcount, hcount ▸ h0, hdev rfl⟩

/-- `allocate_aligned_in_range` records what it returns, ordinary memory of the size asked for. -/
lemma allocateAlignedInRange_spec {start stop bytes} (h : s.Valid) :
    wp (allocateAlignedInRange start stop bytes)
      (fun a t => Keeps s t ∧ t.allocations = s.allocations ++ [a.record] ∧
        a.pageCount = bytesToPages bytes ∧ a.isDevice = false)
      (fun _ t => t = s) s := by
  refine wp_guard rfl fun _ => ?_
  simp only [wp_bind]
  refine wp_fromResult (fun _ _ => ?_) (fun _ _ => rfl)
  refine wp_okOr (fun _ _ => ?_) (fun _ => rfl)
  exact wp_post (allocateAt_spec h) (fun _ _ ht => ⟨ht.1, ht.2.1, ht.2.2.1, ht.2.2.2 rfl⟩)

def leftOver (reqBase reqEnd : Nat) (a : AllocationRecord) : List AllocationRecord :=
  (if a.basePage < reqBase then [⟨a.basePage, reqBase - a.basePage, a.isDevice, false⟩] else []) ++
    if reqEnd < a.basePage + a.pageCount then
      [⟨reqEnd, a.basePage + a.pageCount - reqEnd, a.isDevice, false⟩]
    else []

lemma recordAllocation_side {e v} : (if b < e then recordAllocation b (e - b) v s else s) =
    { s with allocations := s.allocations ++ if b < e then [⟨b, e - b, v, false⟩] else [] } := by
  split
  · rfl
  · rw [append_nil]

lemma forall_mem_leftOver {e} {P : AllocationRecord → Prop}
    (hfirst : P ⟨a.basePage, b - a.basePage, a.isDevice, false⟩)
    (hlast : P ⟨e, a.basePage + a.pageCount - e, a.isDevice, false⟩) : ∀ r ∈ leftOver b e a, P r := by
  refine forall_mem_append.mpr ⟨?_, ?_⟩ <;> split <;> simp [hfirst, hlast]

lemma cover_leftOver (h1 : a.basePage ≤ b) (h2 : b + c ≤ a.basePage + a.pageCount) :
    Lib.cover (((leftOver b (b + c) a).filter (·.isDevice == d)).map AllocationRecord.extent) x +
      (if a.isDevice = d then ind b c x else 0) =
      if a.isDevice = d then ind a.basePage a.pageCount x else 0 := by
  by_cases hd : a.isDevice = d
  · rw [if_pos hd, if_pos hd, leftOver]
    split <;> split <;> simp [hd, AllocationRecord.extent, ind] <;> grind
  · rw [if_neg hd, if_neg hd, filter_eq_nil_iff.mpr]
    · rfl
    · exact forall_mem_leftOver (by simpa using hd) (by simpa using hd)

lemma leftOver_end (hr : a.reserved = false) (h0 : a.pageCount ≠ 0)
    (hend : a.basePage + a.pageCount ≤ b) (hc : b + c ≤ a.basePage + a.pageCount) :
    leftOver b (b + c) a = [a] := by
  rw [leftOver, if_pos (by omega), if_neg (by omega), append_nil,
    show b - a.basePage = a.pageCount from by omega, ← hr]

lemma leftOver_apart {e b' c'} (h : a.basePage ≤ b') (h' : b' + c' ≤ a.basePage + a.pageCount)
    (h0 : c' ≠ 0) (hapart : b' + c' ≤ b ∨ e ≤ b') :
    ∃ r ∈ leftOver b e a, r.reserved = false ∧ r.isDevice = a.isDevice ∧ r.basePage ≤ b' ∧
      b' + c' ≤ r.basePage + r.pageCount := by
  rcases hapart with hapart | hapart
  · refine ⟨⟨a.basePage, b - a.basePage, a.isDevice, false⟩, ?_, rfl, rfl, h, ?_⟩
    · exact mem_append_left _ (by rw [if_pos (by omega)]; exact mem_cons_self)
    · show b' + c' ≤ a.basePage + (b - a.basePage)
      omega
  · refine ⟨⟨e, a.basePage + a.pageCount - e, a.isDevice, false⟩, ?_, rfl, rfl, hapart, ?_⟩
    · exact mem_append_right _ (by rw [if_pos (by omega)]; exact mem_cons_self)
    · show b' + c' ≤ e + (a.basePage + a.pageCount - e)
      omega

lemma holdsRange_iff {e} (ha : a.basePage + a.pageCount ≤ maxPages) :
    holdsRange b e a = true ↔
      a.reserved = false ∧ a.basePage ≤ b ∧ e ≤ a.basePage + a.pageCount := by
  have hlt := maxPages_lt
  rw [holdsRange, wrappingAdd, Nat.mod_eq_of_lt (by omega)]
  cases a.reserved <;> simp

def Freeable (s : PhysicalAllocator) (baseAddress sizeBytes : Nat) : Prop :=
  isPageAligned baseAddress = true ∧ sizeBytes ≠ 0 ∧
    baseAddress >>> pageBits + bytesToPages sizeBytes < wordSize ∧
    ∃ a ∈ s.allocations, holdsRange (baseAddress >>> pageBits)
      (baseAddress >>> pageBits + bytesToPages sizeBytes) a = true

/-- `free` takes the range out of one record that holds it and gives it back to the pool; the other
records and what is left of that one stay. It fails only when there is no such record. -/
lemma free_spec (h : s.Valid) :
    wp (free baseAddress sizeBytes)
      (fun _ t => Keeps s t ∧ isPageAligned baseAddress = true ∧ sizeBytes ≠ 0 ∧
        ∃ a rest, s.allocations.Perm (a :: rest) ∧ holdsRange (baseAddress >>> pageBits)
          (baseAddress >>> pageBits + bytesToPages sizeBytes) a = true ∧
        t.allocations = rest ++ leftOver (baseAddress >>> pageBits)
          (baseAddress >>> pageBits + bytesToPages sizeBytes) a)
      (fun _ t => t = s ∧ ¬s.Freeable baseAddress sizeBytes) s := by
  refine wp_ite (fun hargs => ⟨rfl, fun hf => ?_⟩) (fun hargs => ?_)
  · simp [hf.1, hf.2.1] at hargs
  have hargs : isPageAligned baseAddress = true ∧ sizeBytes ≠ 0 := by
    simpa only [Bool.or_eq_true, not_or, Bool.not_eq_true', Bool.not_eq_false, beq_iff_eq] using hargs
  simp only [wp_bind, wp_modify]
  refine wp_okOr (fun reqEnd hend => ?_) (fun hend => ⟨rfl, fun hf => ?_⟩)
  swap
  · rw [checkedAdd_of_lt hf.2.2.1] at hend
    cases hend
  refine wp_okOr (fun r hr => ?_) (fun hr => ⟨rfl, fun hf => ?_⟩)
  swap
  · obtain ⟨rfl, _⟩ := checkedAdd_eq_some.mp hend
    obtain ⟨a, ha, hholds⟩ := hf.2.2.2
    exact absurd hholds (by simpa using swapRemoveFirst_none hr a ha)
  obtain ⟨a, rest⟩ := r
  obtain ⟨hholds, hperm⟩ := swapRemoveFirst_some hr
  obtain ⟨rfl, _⟩ := checkedAdd_eq_some.mp hend
  have ha := h.bounded a (hperm.mem_iff.mpr mem_cons_self)
  have hlt := maxPages_lt
  obtain ⟨hr0, hb1, hb2⟩ := (holdsRange_iff ha).mp hholds
  refine wp_okOr (fun stop hstop => ?_) (fun hn => ?_)
  · obtain ⟨rfl, _⟩ := checkedAdd_eq_some.mp hstop
    rw [recordAllocation_side, recordAllocation_side, append_assoc]
    generalize baseAddress >>> pageBits = reqBase at hb1 hb2 hholds ⊢
    generalize bytesToPages sizeBytes = reqCount at hb2 hholds ⊢
    change wp _ _ _ ({ s with allocations := rest ++ leftOver reqBase (reqBase + reqCount) a } :
      PhysicalAllocator)
    generalize ht : ({ s with allocations := rest ++ leftOver reqBase (reqBase + reqCount) a } :
      PhysicalAllocator) = t
    have hpool : ∀ d, t.pool d = s.pool d := fun d => by rw [← ht]; cases d <;> rfl
    have hall : t.allocations = rest ++ leftOver reqBase (reqBase + reqCount) a := by rw [← ht]
    -- the freed pages are missing from the ranges and nothing else is
    have hcov : ∀ d x, Lib.cover (t.ranges d) x +
        (if a.isDevice = d then ind reqBase reqCount x else 0) = Lib.cover (s.ranges d) x := by
      intro d x
      have hleft := cover_leftOver (d := d) (x := x) hb1 hb2
      rw [cover_push (s := { s with allocations := rest }) (by cases d <;> rfl) hperm, ranges, hpool,
        extents, hall, filter_append, map_append, cover_append, cover_append, ranges, cover_append]
      change _ + (Lib.cover (extents { s with allocations := rest } d) x + _) + _ =
        Lib.cover (s.pool d).blocks x + _ + _
      omega
    have hfit : ∀ x, Lib.cover (t.pool a.isDevice).blocks x + ind reqBase reqCount x ≤ 1 := by
      intro x
      have h1 := hcov a.isDevice x
      have h2 := h.once a.isDevice x
      rw [if_pos rfl, ranges, cover_append] at h1
      omega
    have hsound : ∀ d, (t.pool d).Sound := fun d => hpool d ▸ h.sound d
    obtain ⟨q, hq, hadd⟩ := addRange_spec (hsound a.isDevice) (by omega) hfit
    refine wp_onPool.mpr (wp_of_ok hq ⟨?_, hargs.1, hargs.2, a, rest, hperm, hholds, ?_⟩)
    · refine h.keeps (setPool_sound hsound hadd.sound) ?_ (fun d x => ?_) ?_
      · rw [allocations_setPool, hall]
        refine forall_mem_append.mpr ⟨fun r hr => ?_, forall_mem_leftOver ?_ ?_⟩
        · exact h.bounded r (hperm.mem_iff.mpr (mem_cons_of_mem _ hr))
        · simp only
          omega
        · simp only
          omega
      · rw [cover_setPool_adds hadd]
        exact hcov d x
      · have hp := hperm.filter (·.reserved)
        rw [filter_cons_of_neg (by simp [hr0])] at hp
        rw [reservedRecords, allocations_setPool, hall, filter_append,
          filter_eq_nil_iff.mpr (forall_mem_leftOver Bool.false_ne_true Bool.false_ne_true), append_nil]
        exact hp.symm
    · rw [allocations_setPool, hall]
  · rw [checkedAdd_of_lt (show a.basePage + a.pageCount < wordSize by omega)] at hn
    cases hn

lemma bounded_ranges (h : s.Valid) (d : Bool) : ∀ r ∈ s.ranges d, r.1 + r.2 ≤ maxPages := by
  intro r hr
  rcases mem_append.mp hr with hr | hr
  · exact (h.sound d).bounded r hr
  · obtain ⟨a, ha, rfl⟩ := mem_map.mp hr
    exact h.bounded a (mem_filter.mp ha).1

lemma allocatedPages_eq {l : List AllocationRecord} {n}
    (hs : n + (((l.filter (·.isDevice == false)).map AllocationRecord.extent).map Prod.snd).sum
      < wordSize) :
    l.foldl (fun n a => if !a.isDevice then saturatingAdd n a.pageCount else n) n =
      n + (((l.filter (·.isDevice == false)).map AllocationRecord.extent).map Prod.snd).sum := by
  induction l generalizing n with
  | nil => rfl
  | cons a l ih =>
    rw [foldl_cons]
    cases ha : a.isDevice with
    | true =>
      rw [filter_cons_of_neg (by simp [ha])] at hs ⊢
      simpa using ih hs
    | false =>
      rw [filter_cons_of_pos (by simp [ha]), map_cons, map_cons, sum_cons] at hs ⊢
      have e : a.extent.2 = a.pageCount := rfl
      simp only [Bool.not_false, if_true]
      rw [saturatingAdd, min_eq_left (by omega), ih (by omega)]
      omega

/-- `memory_info().total_pages` is the size of the ordinary pool with its records. -/
lemma totalPages_eq (h : s.Valid) :
    s.memoryInfo.totalPages = ((s.ranges false).map Prod.snd).sum := by
  have hle := sum_counts_le (h.once false) (bounded_ranges h false)
  have hlt := maxPages_lt
  have hfree := freePageCount_eq (h.sound false)
  rw [ranges, map_append, sum_append] at hle ⊢
  have halloc := allocatedPages_eq (l := s.allocations) (n := 0)
    (by rw [extents] at hle; omega)
  simp only [memoryInfo]
  rw [show s.normal = s.pool false from rfl, hfree, saturatingAdd, extents]
  rw [extents] at hle
  omega

lemma Keeps.totalPages {s t} (hs : s.Valid) (h : Keeps s t) :
    t.memoryInfo.totalPages = s.memoryInfo.totalPages := by
  rw [totalPages_eq hs, totalPages_eq h.valid, sum_counts_eq_sum_cover (bounded_ranges h.valid false),
    sum_counts_eq_sum_cover (bounded_ranges hs false)]
  exact Finset.sum_congr rfl fun x _ => h.cover false x

end PhysicalAllocator

/-! ## Runs -/

structure Region where
  baseAddress : UInt64
  sizeBytes : UInt64
  isDevice : Bool
  used : Bool

namespace Region

def extent (r : Region) : Nat × Nat :=
  (r.baseAddress.toNat >>> pageBits, bytesToPages r.sizeBytes.toNat)

def Fits (r : Region) : Prop :=
  isPageAligned r.baseAddress.toNat = true ∧ r.baseAddress.toNat + r.sizeBytes.toNat ≤ wordSize

instance (r : Region) : Decidable r.Fits := inferInstanceAs (Decidable (_ ∧ _))

end Region

open Region

def addedPages (regions : List Region) (isDevice : Bool) : Set Nat :=
  ⋃ r ∈ regions.filter (·.isDevice == isDevice), pagesOf r.extent

inductive AllocOp where
  | allocateAt (baseAddress sizeBytes : UInt64) (allowDevice : Bool)
  | allocateAny (sizeBytes : UInt64)
  | allocateAlignedInRange (start stop bytes : UInt64)
  | free (baseAddress sizeBytes : UInt64)

namespace PhysicalAllocator

def addRegions (regions : List Region) : PhysicalAllocator :=
  regions.foldl (fun s r => stateAfter
    (addRegion r.baseAddress.toNat r.sizeBytes.toNat r.isDevice r.used) s) new

def step (s : PhysicalAllocator) : AllocOp → PhysicalAllocator
  | .allocateAt b n allow => stateAfter (PhysicalAllocator.allocateAt b.toNat n.toNat allow) s
  | .allocateAny n => stateAfter (PhysicalAllocator.allocateAny n.toNat) s
  | .allocateAlignedInRange a b n =>
    stateAfter (PhysicalAllocator.allocateAlignedInRange a.toNat b.toNat n.toNat) s
  | .free b n => stateAfter (PhysicalAllocator.free b.toNat n.toNat) s

def run (s : PhysicalAllocator) (ops : List AllocOp) : PhysicalAllocator := ops.foldl step s

lemma isPageAligned_iff {address} : isPageAligned address = true ↔ address % pageSize = 0 := by
  rw [isPageAligned, beq_iff_eq, pageSize, Nat.and_two_pow_sub_one_eq_mod]

variable {r : Region} {s : PhysicalAllocator} {regions : List Region}

/-- The pages of a region that fits lie in the address space; a size whose page count wraps has
no pages. -/
lemma extent_le (h : r.Fits) : r.extent.1 + r.extent.2 ≤ maxPages := by
  obtain ⟨ha, hb⟩ := h
  simp only [extent, bytesToPages, wrappingAdd, Nat.shiftRight_eq_div_pow]
  simp only [wordSize, wordBits, pageSize, pageBits, maxPages] at *
  omega

/-- What a call of `add_region` does, on a region that meets none of the pages held before. -/
structure Gains (s t : PhysicalAllocator) (r : Region) : Prop where
  valid : t.Valid
  cover : ∀ d x, Lib.cover (t.ranges d) x =
    Lib.cover (s.ranges d) x + (if r.isDevice = d then ind r.extent.1 r.extent.2 x else 0)

def Lacks (s : PhysicalAllocator) (r : Region) : Prop :=
  ∀ d x, Lib.cover (s.ranges d) x + (if r.isDevice = d then ind r.extent.1 r.extent.2 x else 0) ≤ 1

/-- What `add_region` does with a region that is new to its pool. -/
inductive Added (s : PhysicalAllocator) (r : Region) : PhysicalAllocator → Prop
  | nothing (empty : r.extent.2 = 0) : Added s r s
  | record (used : r.used = true) : Added s r
      { s with allocations := s.allocations ++ [⟨r.extent.1, r.extent.2, r.isDevice, true⟩] }
  | blocks {q : BuddyPool} (free : r.used = false)
      (adds : BuddyPool.Adds (s.pool r.isDevice) q r.extent.1 r.extent.2) :
      Added s r (setPool r.isDevice q s)

lemma addRegion_added (h : s.Valid) (hr : r.Fits) (hl : s.Lacks r) :
    ends (addRegion r.baseAddress.toNat r.sizeBytes.toNat r.isDevice r.used) (Added s r) s := by
  refine wp_ite (fun hc => .nothing ?_) (fun _ => wp_ite .nothing (fun _ => ?_))
  · -- a region without bytes has no pages
    rw [hr.1, Bool.not_true, Bool.false_or, beq_iff_eq] at hc
    rw [extent, hc]
    rfl
  refine wp_ite .record (fun hfree => wp_onPool.mpr ?_)
  have hfit : ∀ x, Lib.cover (s.pool r.isDevice).blocks x + ind r.extent.1 r.extent.2 x ≤ 1 := by
    intro x
    have := hl r.isDevice x
    rw [if_pos rfl, ranges, cover_append] at this
    omega
  obtain ⟨q, hq, hadd⟩ := addRange_spec (h.sound r.isDevice) (extent_le hr) hfit
  exact wp_of_ok hq (.blocks (by simpa using hfree) hadd)

lemma Added.gains {t} (ha : Added s r t) (h : s.Valid) (hr : r.Fits) (hl : s.Lacks r) :
    Gains s t r := by
  suffices hnew : (∀ d, (t.pool d).Sound) ∧ (∀ a ∈ t.allocations, a.basePage + a.pageCount ≤ maxPages) ∧
      ∀ d x, Lib.cover (t.ranges d) x =
        Lib.cover (s.ranges d) x + (if r.isDevice = d then ind r.extent.1 r.extent.2 x else 0) by
    obtain ⟨hsound, hbounded, hcover⟩ := hnew
    exact ⟨⟨hsound, hbounded, fun d x => by rw [hcover]; exact hl d x⟩, hcover⟩
  cases ha with
  | nothing empty =>
    refine ⟨h.sound, h.bounded, fun d x => ?_⟩
    rw [empty, ind_zero, ite_self, add_zero]
  | record used =>
    refine ⟨h.sound, forall_mem_append.mpr ⟨h.bounded, forall_mem_singleton.mpr (extent_le hr)⟩,
      fun d x => ?_⟩
    exact cover_push (a := ⟨r.extent.1, r.extent.2, r.isDevice, true⟩) rfl (perm_append_singleton _ _)
  | blocks free adds =>
    rw [allocations_setPool]
    exact ⟨setPool_sound h.sound adds.sound, h.bounded, fun d x => cover_setPool_adds adds⟩

lemma mem_addedPages {d x} :
    x ∈ addedPages regions d ↔
      0 < Lib.cover ((regions.filter (·.isDevice == d)).map extent) x := by
  rw [cover_pos]
  simp only [addedPages, Set.mem_iUnion, exists_prop, mem_map, exists_exists_and_eq_and]

lemma cover_filter_add {x} :
    Lib.cover ((regions.filter (·.isDevice == false)).map extent) x +
      Lib.cover ((regions.filter (·.isDevice == true)).map extent) x =
      Lib.cover (regions.map extent) x := by
  induction regions with
  | nil => rfl
  | cons r regions ih =>
    rw [cover_filter_cons (f := isDevice), cover_filter_cons (f := isDevice),
      map_cons, cover_cons]
    cases r.isDevice <;> simp only [reduceCtorEq, if_true, if_false] <;> omega

lemma cover_new_le
    (hdisj : regions.Pairwise fun r q => Disjoint (pagesOf r.extent) (pagesOf q.extent)) (d : Bool)
    (x : Nat) : Lib.cover (new.ranges d) x +
      Lib.cover ((regions.filter (·.isDevice == d)).map extent) x ≤ 1 := by
  have h1 := cover_le_one_of_pairwise (pairwise_map.mpr hdisj) x
  rw [← cover_filter_add] at h1
  rw [ranges_new, cover_nil]
  cases d <;> omega

lemma addRegions_induct {I : PhysicalAllocator → Prop} {l : List Region} (hfits : ∀ r ∈ l, r.Fits)
    (hvalid : ∀ {s}, I s → s.Valid) (h : I s)
    (hstep : ∀ {s t r}, I s → r ∈ l → Added s r t → Gains s t r → I t)
    (fit : ∀ d x, Lib.cover (s.ranges d) x +
      Lib.cover ((l.filter (·.isDevice == d)).map extent) x ≤ 1) :
    let t := l.foldl (fun s r => stateAfter
      (addRegion r.baseAddress.toNat r.sizeBytes.toNat r.isDevice r.used) s) s
    I t ∧ ∀ d x, Lib.cover (t.ranges d) x = Lib.cover (s.ranges d) x +
      Lib.cover ((l.filter (·.isDevice == d)).map extent) x := by
  induction l generalizing s with
  | nil => exact ⟨h, fun d x => rfl⟩
  | cons r l ih =>
    simp only [cover_filter_cons (f := isDevice), ← add_assoc] at fit ⊢
    have hr := hfits r mem_cons_self
    have hl : s.Lacks r := fun d x => (Nat.le_add_right _ _).trans (fit d x)
    have hadded := stateAfter_of_wp (addRegion_added (hvalid h) hr hl)
    have hg := hadded.gains (hvalid h) hr hl
    obtain ⟨hv, hc⟩ := ih (fun r hr => hfits r (mem_cons_of_mem _ hr)) (hstep h mem_cons_self hadded hg)
      (fun hs hr => hstep hs (mem_cons_of_mem _ hr)) (fun d x => by
        rw [hg.cover]
        exact fit d x)
    refine ⟨hv, fun d x => ?_⟩
    rw [foldl_cons, hc, hg.cover]

/-- Adding regions that do not overlap makes each pool hold exactly their pages. -/
lemma addRegions_valid (hfits : ∀ r ∈ regions, r.Fits)
    (hdisj : regions.Pairwise fun r q => Disjoint (pagesOf r.extent) (pagesOf q.extent)) :
    (addRegions regions).Valid ∧ ∀ d x, Lib.cover ((addRegions regions).ranges d) x =
      Lib.cover ((regions.filter (·.isDevice == d)).map extent) x := by
  have h := addRegions_induct hfits id Valid.new (fun _ _ _ hg => hg.valid) (cover_new_le hdisj)
  simp only [ranges_new, cover_nil, zero_add] at h
  exact h

lemma step_keeps (h : s.Valid) (op : AllocOp) : Keeps s (s.step op) := by
  have hfail : ∀ t, t = s → Keeps s t := by
    rintro t rfl
    exact .refl h
  cases op with
  | allocateAt b n allow =>
    exact stateAfter_of_wp (wp_mono (allocateAt_spec h) (fun _ _ ht => ht.1) fun _ => hfail)
  | allocateAny n =>
    exact stateAfter_of_wp (wp_mono (allocateAny_spec h) (fun _ _ ht => ht.1) fun _ => hfail)
  | allocateAlignedInRange a b n =>
    exact stateAfter_of_wp (wp_mono (allocateAlignedInRange_spec h) (fun _ _ ht => ht.1) fun _ => hfail)
  | free b n =>
    exact stateAfter_of_wp (wp_mono (free_spec h) (fun _ _ ht => ht.1) fun _ t ht => hfail t ht.1)

lemma run_keeps (h : s.Valid) (ops : List AllocOp) : Keeps s (s.run ops) := by
  induction ops generalizing s with
  | nil => exact .refl h
  | cons op ops ih =>
    have hstep := step_keeps h op
    exact hstep.trans (ih hstep.valid)

/-- The allocator's guarantee in a state `t` reached from `s`, the state after the last
`add_region`: every range of a pool is accounted for once, and only reserved records are fixed. -/
structure Accounted (regions : List Region) (s t : PhysicalAllocator) : Prop where
  aligned : ∀ d, ∀ r ∈ (t.pool d).blocks, r.2 ∣ r.1
  partition : ∀ d, IsPartition (t.ranges d) (addedPages regions d)
  disjoint : (t.ranges false ++ t.ranges true).Pairwise fun r q => Disjoint (pagesOf r) (pagesOf q)
  reserved : t.reservedRecords.Perm s.reservedRecords
  totalPages : t.memoryInfo.totalPages = s.memoryInfo.totalPages

/-- From `new()`, after adding regions that do not overlap and after any calls at all, the free
blocks and the records of each pool partition exactly the pages added to it. -/
theorem pages_accounted {regions : List Region} (hfits : ∀ r ∈ regions, r.Fits)
    (hdisj : regions.Pairwise fun r q => Disjoint (pagesOf r.extent) (pagesOf q.extent))
    (ops : List AllocOp) :
    Accounted regions (addRegions regions) ((addRegions regions).run ops) := by
  have hone : ∀ x, Lib.cover (regions.map extent) x ≤ 1 :=
    cover_le_one_of_pairwise (pairwise_map.mpr hdisj)
  obtain ⟨hvalid, hcover⟩ := addRegions_valid hfits hdisj
  have hkeeps := run_keeps hvalid ops
  have hcov : ∀ d x, Lib.cover (((addRegions regions).run ops).ranges d) x =
      Lib.cover ((regions.filter (·.isDevice == d)).map extent) x := by
    intro d x
    rw [hkeeps.cover, hcover]
  refine ⟨fun d => (hkeeps.valid.sound d).aligned, fun d => ?_, ?_, hkeeps.reserved,
    hkeeps.totalPages hvalid⟩
  · rw [isPartition_iff_cover]
    refine ⟨hkeeps.valid.once d, fun x => ?_⟩
    rw [mem_addedPages, ← hcov]
  · apply pairwise_disjoint_of_cover
    intro x
    rw [cover_append, hcov, hcov, cover_filter_add]
    exact hone x

/-- Three ordinary pages and one device page in use: taking a page and giving it back. -/
theorem pages_accounted_take_and_free :
    let regions : List Region := [⟨0x1000, 0x3000, false, false⟩, ⟨0x10000, 0x1000, true, true⟩]
    (∀ r ∈ regions, r.Fits) ∧ Accounted regions (addRegions regions)
      ((addRegions regions).run [.allocateAny 0x1000, .free 0x1000 0x1000]) := by
  have hfits : ∀ r ∈ ([⟨0x1000, 0x3000, false, false⟩, ⟨0x10000, 0x1000, true, true⟩] : List Region),
      r.Fits := by decide
  have hd : Disjoint (pagesOf (1, 3)) (pagesOf (16, 1)) := by
    apply Set.disjoint_left.mpr
    intro x hx hy
    rw [mem_pagesOf] at hx hy
    omega
  refine ⟨hfits, pages_accounted hfits ?_ _⟩
  exact pairwise_pair.mpr hd

end PhysicalAllocator

end Nanami.Memory
