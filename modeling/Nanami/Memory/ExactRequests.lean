import Nanami.Memory.PhysicalAllocator
import Nanami.Memory.Partition

/-!
# Requests for a given range

`allocate_at` first asks whether the whole range is free and carves only then, in two separate
walks over the blocks. In every state that calls on the allocator can reach, the second walk cannot
fail after the first one succeeded: a request is granted exactly when its pages are free in a pool
the caller may use, it then takes those pages and no others, and a request that is refused changes
nothing.

The page count of a size wraps for sizes within a page of `2 ^ 64`; such a request is refused as a
request for no pages, whatever is free.
-/

namespace Nanami.Memory
open Nanami.Lib

def bytePages (base size : Nat) : Set Nat :=
  {x | x * pageSize < base + size ∧ base < (x + 1) * pageSize}

variable {size : Nat}

lemma bytePages_eq {base} (ha : base % pageSize = 0) (hs : size + (pageSize - 1) < wordSize) :
    bytePages base size = pagesOf (base >>> pageBits, bytesToPages size) := by
  ext x
  rw [mem_pagesOf, bytesToPages_eq hs, Nat.shiftRight_eq_div_pow]
  simp only [bytePages, Set.mem_ofPred_eq, pageSize, pageBits] at ha ⊢
  omega

lemma bytesToPages_wraps (hlt : size < wordSize) (hs : wordSize ≤ size + (pageSize - 1)) :
    bytesToPages size = 0 := by
  simp only [bytesToPages, wrappingAdd, wordSize, wordBits, pageSize, pageBits] at *
  omega

lemma bytesToPages_pos (h0 : size ≠ 0) (hs : size + (pageSize - 1) < wordSize) :
    bytesToPages size ≠ 0 := by
  rw [bytesToPages_eq hs]
  simp only [pageSize, pageBits]
  omega

namespace PhysicalAllocator

def freePages (s : PhysicalAllocator) (isDevice : Bool) : Set Nat :=
  ⋃ r ∈ (s.pool isDevice).blocks, pagesOf r

variable {s : PhysicalAllocator} {d : Bool} {base : Nat}

lemma mem_freePages {x} : x ∈ s.freePages d ↔ 0 < Lib.cover (s.pool d).blocks x := by
  rw [cover_pos]
  simp only [freePages, Set.mem_iUnion, exists_prop]

lemma holds_iff_bytePages (ha : base % pageSize = 0) (h0 : size ≠ 0)
    (hs : size + (pageSize - 1) < wordSize) :
    (s.pool d).Holds (base >>> pageBits) (bytesToPages size) ↔
      bytePages base size ⊆ s.freePages d := by
  rw [bytePages_eq ha hs]
  constructor
  · rintro ⟨-, hall⟩ x hx
    exact mem_freePages.mpr (hall x hx.1 hx.2)
  · intro hsub
    exact ⟨bytesToPages_pos h0 hs, fun x h1 h2 => mem_freePages.mp (hsub ⟨h1, h2⟩)⟩

/-- What an answer of `allocate_at` says about the pages of the request. -/
structure Answered (s : PhysicalAllocator) (base size : Nat) (allowDevice : Bool) : Prop where
  granted : succeeds (allocateAt base size allowDevice) s = true ↔
    base % pageSize = 0 ∧ size ≠ 0 ∧ (bytePages base size ⊆ s.freePages false ∨
      allowDevice = true ∧ bytePages base size ⊆ s.freePages true)
  taken : ∀ {a t}, allocateAt base size allowDevice s = .ok a t →
    pagesOf a.record.extent = bytePages base size ∧ t.allocations = s.allocations ++ [a.record] ∧
      bytePages base size ⊆ s.freePages a.isDevice ∧
      t.freePages a.isDevice = s.freePages a.isDevice \ bytePages base size ∧
      ∀ d, d ≠ a.isDevice → t.freePages d = s.freePages d
  refused : ∀ {e t}, allocateAt base size allowDevice s = .error e t → t = s

lemma Taken.freePages_eq {t a} (h : s.Valid) (ht : Taken s t a) :
    t.freePages a.isDevice = s.freePages a.isDevice \ pagesOf a.record.extent := by
  ext x
  have hc := ht.pool.cover x
  have h1 := (h.sound a.isDevice).disjoint x
  rw [Set.mem_sdiff, mem_freePages, mem_freePages]
  by_cases hx : x ∈ pagesOf a.record.extent
  · have hone : ind a.basePage a.pageCount x = 1 := if_pos hx
    simp only [hx, not_true_eq_false, and_false, iff_false]
    omega
  · have hz : ind a.basePage a.pageCount x = 0 := if_neg hx
    simp only [hx, not_false_eq_true, and_true]
    omega

lemma Valid.answered (h : s.Valid) (hs : size + (pageSize - 1) < wordSize) (allowDevice : Bool) :
    Answered s base size allowDevice := by
  have hspec := @allocateAt_iff s base size allowDevice h
  constructor
  · refine succeeds_iff_of_wp (wp_mono hspec ?_ ?_)
    · rintro a t ⟨ht, hb, hc, hne, ha, h0, hdev⟩
      rw [isPageAligned_iff] at ha
      have hold := ht.pool.holds (hc ▸ hne)
      rw [hb, hc, holds_iff_bytePages ha h0 hs] at hold
      refine ⟨ha, h0, ?_⟩
      cases hd : a.isDevice with
      | false =>
        rw [hd] at hold
        exact .inl hold
      | true =>
        rw [hd] at hold
        exact .inr ⟨hdev hd, hold⟩
    · rintro e t ⟨-, hno⟩ ⟨ha, h0, hfree⟩
      obtain ⟨hnormal, hdevice⟩ := hno (isPageAligned_iff.mpr ha) h0
      rw [holds_iff_bytePages ha h0 hs] at hnormal hdevice
      obtain hfree | ⟨hallow, hfree⟩ := hfree
      · exact absurd hfree hnormal
      · exact absurd hfree (hdevice hallow)
  · intro a t hrun
    obtain ⟨ht, hb, hc, hne, ha, h0, -⟩ := wp_ok hspec hrun
    rw [isPageAligned_iff] at ha
    have hpages : pagesOf a.record.extent = bytePages base size := by
      rw [bytePages_eq ha hs, ← hb, ← hc]
      rfl
    have hold := ht.pool.holds (hc ▸ hne)
    rw [hb, hc, holds_iff_bytePages ha h0 hs] at hold
    refine ⟨hpages, ht.allocations, hold, hpages ▸ ht.freePages_eq h, fun d hd => ?_⟩
    rw [freePages, ht.other d hd]
    rfl
  · intro e t hrun
    exact (wp_error hspec hrun).1

/-- A size whose page count wraps asks for no pages. -/
lemma Valid.refuses_wrapped (h : s.Valid) (hlt : size < wordSize)
    (hs : wordSize ≤ size + (pageSize - 1)) (allowDevice : Bool) :
    ∃ e, allocateAt base size allowDevice s = .error e s := by
  have hspec := @allocateAt_iff s base size allowDevice h
  cases hrun : allocateAt base size allowDevice s with
  | ok a t => exact absurd (bytesToPages_wraps hlt hs) (wp_ok hspec hrun).2.2.2.1
  | error e t => exact ⟨e, by rw [(wp_error hspec hrun).1]⟩

/-- In every state reached from regions that do not overlap, a request for a range whose page count
does not wrap is granted exactly when its pages are free in a pool the caller may use. It then takes
those pages, and otherwise changes nothing. A request whose page count wraps is refused and changes
nothing. -/
theorem allocate_at_exact {regions : List Region} (hfits : ∀ r ∈ regions, r.Fits)
    (hdisj : regions.Pairwise fun r q => Disjoint (pagesOf r.extent) (pagesOf q.extent))
    (ops : List AllocOp) (base size : UInt64) (allowDevice : Bool) :
    (size.toNat + (pageSize - 1) < wordSize →
      Answered ((addRegions regions).run ops) base.toNat size.toNat allowDevice) ∧
    (wordSize ≤ size.toNat + (pageSize - 1) →
      ∃ e, allocateAt base.toNat size.toNat allowDevice ((addRegions regions).run ops) =
        .error e ((addRegions regions).run ops)) := by
  have hvalid := (run_keeps (addRegions_valid hfits hdisj).1 ops).valid
  exact ⟨fun hsize => hvalid.answered hsize allowDevice,
    fun hsize => hvalid.refuses_wrapped size.toNat_lt hsize allowDevice⟩

/-- Asking for the second of three pages. -/
theorem allocate_at_exact_three_pages :
    let regions : List Region := [⟨0x1000, 0x3000, false, false⟩]
    (∀ r ∈ regions, r.Fits) ∧ Answered ((addRegions regions).run []) 0x2000 0x1000 false := by
  have hfits : ∀ r ∈ ([⟨0x1000, 0x3000, false, false⟩] : List Region), r.Fits := by decide
  exact ⟨hfits, (allocate_at_exact hfits (List.pairwise_singleton _ _) [] 0x2000 0x1000 false).1
    (by decide)⟩

/-! ## Giving back -/

/-- Freeing the allocation puts everything back. -/
def Undone (s : PhysicalAllocator) (a : PhysicalAllocation) (t : PhysicalAllocator) : Prop :=
  ∃ u, free (a.basePage * pageSize) (a.pageCount * pageSize) t = .ok () u ∧
    u.allocations.Perm s.allocations ∧ ∀ d, u.freePages d = s.freePages d

lemma two_le_cover {t : PhysicalAllocator} {a q rest x} (h : t.allocations.Perm (q :: rest)) (ha : a ∈ rest)
    (hx : x ∈ pagesOf q.extent) (hx' : x ∈ pagesOf a.extent) :
    2 ≤ cover (t.ranges false) x + cover (t.ranges true) x := by
  have hsplit : ∀ d, cover (t.extents d) x = (if q.isDevice = d then 1 else 0) +
      cover ((rest.filter (·.isDevice == d)).map AllocationRecord.extent) x := by
    intro d
    rw [extents, cover_perm ((h.filter _).map _), cover_filter_cons (f := AllocationRecord.isDevice)]
    rw [ind_eq_one.mpr hx]
  have hpos : 0 < cover ((rest.filter (·.isDevice == a.isDevice)).map AllocationRecord.extent) x :=
    cover_pos.mpr ⟨a.extent, List.mem_map_of_mem (List.mem_filter.mpr ⟨ha, beq_self_eq_true _⟩), hx'⟩
  rw [ranges, ranges, cover_append, cover_append, hsplit, hsplit]
  cases hd : q.isDevice <;> cases ha' : a.isDevice <;> rw [ha'] at hpos <;>
    simp only [reduceCtorEq, if_true, if_false] <;> omega

lemma Taken.undone {t a} (ht : Taken s t a) (h0 : a.pageCount ≠ 0) (hlt : a.pageCount < maxPages)
    (hone : ∀ x, cover (s.ranges false) x + cover (s.ranges true) x ≤ 1) : Undone s a t := by
  have hspec := @free_spec t (a.basePage * pageSize) (a.pageCount * pageSize) ht.keeps.valid
  have hmem : a.record ∈ t.allocations := by
    rw [ht.allocations]
    exact List.mem_append_right _ (List.mem_singleton_self _)
  have hbound := ht.keeps.valid.bounded _ hmem
  rw [shiftRight_page, bytesToPages_mul hlt] at hspec
  cases hfree : free (a.basePage * pageSize) (a.pageCount * pageSize) t with
  | error e u =>
    refine absurd ⟨isPageAligned_iff.mpr (Nat.mul_mod_left _ _), ?_, ?_, a.record, hmem, ?_⟩
      (wp_error hspec hfree).2
    · exact Nat.mul_ne_zero h0 (by decide)
    · rw [shiftRight_page, bytesToPages_mul hlt]
      exact hbound.trans_lt maxPages_lt
    · rw [shiftRight_page, bytesToPages_mul hlt]
      exact (holdsRange_iff hbound).mpr ⟨rfl, le_rfl, le_rfl⟩
  | ok _ u =>
    obtain ⟨hk, -, -, q, rest, hperm, hholds, halloc⟩ := wp_ok hspec hfree
    have hq := (holdsRange_iff (ht.keeps.valid.bounded q (hperm.mem_iff.mpr List.mem_cons_self))).mp
      hholds
    have hsame : a.record = q := by
      refine (List.mem_cons.mp (hperm.mem_iff.mp hmem)).resolve_right fun hrest => ?_
      have htwo := two_le_cover (x := a.basePage) hperm hrest (mem_pagesOf.mpr ⟨hq.2.1, ?_⟩)
        (mem_pagesOf.mpr ⟨le_rfl, Nat.lt_add_of_pos_right (Nat.pos_of_ne_zero h0)⟩)
      · rw [ht.keeps.cover, ht.keeps.cover] at htwo
        exact absurd (hone a.basePage) (Nat.not_le.mpr htwo)
      · exact lt_of_lt_of_le (Nat.lt_add_of_pos_right (Nat.pos_of_ne_zero h0)) hq.2.2
    subst hsame
    have hleft : leftOver a.basePage (a.basePage + a.pageCount) a.record = [] := by
      simp [leftOver, PhysicalAllocation.record]
    rw [hleft, List.append_nil] at halloc
    have hback : u.allocations.Perm s.allocations := by
      rw [halloc]
      rw [ht.allocations] at hperm
      exact (List.Perm.cons_inv ((List.perm_append_singleton _ _).symm.trans hperm)).symm
    refine ⟨u, hfree, hback, fun d => Set.ext fun x => ?_⟩
    have hcover := (hk.cover d x).trans (ht.keeps.cover d x)
    rw [ranges, ranges, cover_append, cover_append, extents, extents,
      cover_perm ((hback.filter _).map _)] at hcover
    rw [mem_freePages, mem_freePages, Nat.add_right_cancel hcover]

lemma allocateAt_undone {allowDevice} (h : s.Valid)
    (hone : ∀ x, cover (s.ranges false) x + cover (s.ranges true) x ≤ 1) :
    ifOk (allocateAt base size allowDevice) (Undone s) s := by
  refine wp_mono (allocateAt_iff h) ?_ fun _ _ _ => trivial
  rintro a t ⟨ht, -, hc, hne, -⟩
  exact ht.undone (hc ▸ hne) (hc ▸ bytesToPages_lt) hone

/-- In every state reached from regions that do not overlap, an allocation that is freed again leaves the
records and the free pages as they were, whichever way it was asked for. -/
theorem allocation_undone {regions : List Region} (hfits : ∀ r ∈ regions, r.Fits)
    (hdisj : regions.Pairwise fun r q => Disjoint (pagesOf r.extent) (pagesOf q.extent))
    (ops : List AllocOp) (base size start stop bytes : Nat) (allowDevice : Bool) :
    let s := (addRegions regions).run ops
    ifOk (allocateAt base size allowDevice) (Undone s) s ∧ ifOk (allocateAny size) (Undone s) s ∧
      ifOk (allocateAlignedInRange start stop bytes) (Undone s) s := by
  obtain ⟨hvalid, hcover⟩ := addRegions_valid hfits hdisj
  have hkeeps := run_keeps hvalid ops
  intro s
  have hone : ∀ x, cover (s.ranges false) x + cover (s.ranges true) x ≤ 1 := by
    intro x
    rw [hkeeps.cover, hkeeps.cover, hcover, hcover, cover_filter_add]
    exact cover_le_one_of_pairwise (List.pairwise_map.mpr hdisj) x
  refine ⟨allocateAt_undone hkeeps.valid hone, wp_guard trivial fun _ => ?_,
    wp_guard trivial fun _ => ?_⟩
  · simp only [wp_bind]
    exact wp_okOr (fun _ _ => allocateAt_undone hkeeps.valid hone) fun _ => trivial
  · simp only [wp_bind]
    refine wp_fromResult (fun _ _ => ?_) fun _ _ => trivial
    exact wp_okOr (fun _ _ => allocateAt_undone hkeeps.valid hone) fun _ => trivial

/-- The last of three pages is asked for. -/
theorem allocation_undone_three_pages :
    let s := (addRegions [⟨0x1000, 0x3000, false, false⟩]).run []
    succeeds (allocateAt 0x3000 0x1000 false) s = true ∧
      ifOk (allocateAt 0x3000 0x1000 false) (Undone s) s :=
  ⟨by decide +kernel, (allocation_undone (by decide) (List.pairwise_singleton _ _) [] _ _ 0 0 0 _).1⟩

/-! ## The requests that are left out -/

lemma block_free {k b x} (hb : b ∈ s.normal.listAt k) (h1 : b ≤ x) (h2 : x < b + 2 ^ k) :
    x ∈ s.freePages false :=
  mem_freePages.mpr (cover_pos.mpr ⟨(b, 2 ^ k), BuddyPool.mem_blocks_iff.mpr hb, h1, h2⟩)

def wholeSpace : List Region :=
  [⟨0, 0xFFFFFFFFFFFFF000, false, false⟩, ⟨0xFFFFFFFFFFFFF000, 0xFFF, false, false⟩]

def overlapping : List Region := [⟨0, 0x2000, false, false⟩, ⟨0, 0x1000, false, false⟩]

lemma wholeSpace_disjoint :
    wholeSpace.Pairwise fun r q => Disjoint (pagesOf r.extent) (pagesOf q.extent) := by
  refine List.pairwise_pair.mpr (Set.disjoint_left.mpr fun x hx hy => ?_)
  have e1 : Region.extent ⟨0, 0xFFFFFFFFFFFFF000, false, false⟩ = (0, 2 ^ 52 - 1) := by decide
  have e2 : Region.extent ⟨0xFFFFFFFFFFFFF000, 0xFFF, false, false⟩ = (2 ^ 52 - 1, 1) := by decide
  rw [e1, mem_pagesOf] at hx
  rw [e2, mem_pagesOf] at hy
  omega

/-- With the whole address space free, the request for all of its bytes but one is refused: its page
count wraps to zero. And where regions overlap, a page can still be free after it was taken. -/
theorem allocate_at_inexact :
    ((∀ r ∈ wholeSpace, r.Fits) ∧
      wholeSpace.Pairwise (fun r q => Disjoint (pagesOf r.extent) (pagesOf q.extent)) ∧
      bytePages 0 0xFFFFFFFFFFFFFFFF ⊆ (addRegions wholeSpace).freePages false ∧
      succeeds (allocateAt 0 0xFFFFFFFFFFFFFFFF false) (addRegions wholeSpace) = false) ∧
    (∀ r ∈ overlapping, r.Fits) ∧
      ∃ a t, allocateAt 0 0x1000 false (addRegions overlapping) = .ok a t ∧
        0 ∈ bytePages 0 0x1000 ∧ 0 ∈ t.freePages false := by
  refine ⟨⟨by decide, wholeSpace_disjoint, fun x hx => ?_, by decide +kernel⟩, by decide, ?_⟩
  · -- the two regions have become one block
    have hblock : 0 ∈ (addRegions wholeSpace).normal.listAt 52 := by decide +kernel
    refine block_free hblock (Nat.zero_le x) ?_
    simp only [bytePages, Set.mem_ofPred_eq, pageSize, pageBits] at hx
    omega
  · -- the page is listed twice, and only its own block is taken
    have hblock : 0 ∈ (stateAfter (allocateAt 0 0x1000 false)
        (addRegions overlapping)).normal.listAt 1 := by decide +kernel
    obtain ⟨a, t, hrun⟩ := exists_ok_of_succeeds (m := allocateAt 0 0x1000 false)
      (s := addRegions overlapping) (by decide +kernel)
    rw [stateAfter, hrun] at hblock
    exact ⟨a, t, hrun, ⟨by decide, by decide⟩, block_free hblock (Nat.le_refl 0) (by decide)⟩

end PhysicalAllocator

end Nanami.Memory
