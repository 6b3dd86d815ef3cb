import Nanami.Process.Requests
import Nanami.Memory.Extents

/-!
# Accounts of physical memory

What the memory manager guarantees about an extent that is in use: it lies in one record of the
allocator, so a later allocation stands apart from it and giving back another extent leaves it in
use. `Accounts` relates the allocator to the extents that were allocated, those that were handed
back and those that are referred to.
-/

namespace Nanami.Memory
open Nanami.Lib List Set

namespace PhysicalAllocator

variable {a : PhysicalAllocator} {q q' r : AllocationRecord}

lemma Valid.apart {l} (h : a.Valid) (hp : a.allocations.Perm (r :: l)) (hq : q ∈ l)
    (hd : q.isDevice = r.isDevice) : Disjoint (pagesOf r.extent) (pagesOf q.extent) := by
  refine disjoint_left.mpr fun x hr hx => ?_
  have hc := h.once r.isDevice x
  have hp' := hp.trans ((perm_cons_erase hq).cons r)
  rw [ranges, cover_append, extents, cover_perm ((hp'.filter _).map _), cover_filter_cons,
    cover_filter_cons, if_pos rfl, if_pos hd] at hc
  have h1 : ind r.extent.1 r.extent.2 x = 1 := ind_eq_one.mpr hr
  have h2 : ind q.extent.1 q.extent.2 x = 1 := ind_eq_one.mpr hx
  omega

lemma Valid.record_unique {x} (h : a.Valid) (hq : q ∈ a.allocations) (hr : r ∈ a.allocations)
    (hd : q.isDevice = r.isDevice) (hx : x ∈ pagesOf q.extent) (hx' : x ∈ pagesOf r.extent) :
    q = r := by
  by_contra hne
  have hmem := (mem_erase_of_ne hne).mpr hq
  exact disjoint_left.mp (h.apart (perm_cons_erase hr) hmem hd) hx' hx

end PhysicalAllocator

open PhysicalAllocator

namespace MemoryManager

variable {s t : MemoryManager} {r q : Nat × Nat}

/-- The pages lie in one record of ordinary memory in use that is not the record of a delegation. -/
def Holds (s : MemoryManager) (r : Nat × Nat) : Prop :=
  ∃ a, s.physicalAllocator = some a ∧ ∃ w ∈ a.allocations, w.reserved = false ∧
    w.isDevice = false ∧ w ∉ s.delegations.filterMap Delegation.record? ∧
    w.basePage ≤ r.1 ∧ r.1 + r.2 ≤ w.basePage + w.pageCount

lemma Holds.part (h : s.Holds r) (h1 : r.1 ≤ q.1) (h2 : q.1 + q.2 ≤ r.1 + r.2) : s.Holds q := by
  obtain ⟨a, ha, w, hw, hres, hdev, hdel, hb, he⟩ := h
  exact ⟨a, ha, w, hw, hres, hdev, hdel, hb.trans h1, h2.trans he⟩

/-- An allocation is held, stands apart from all that was held, and keeps it. -/
structure Allocates (s t : MemoryManager) (r : Nat × Nat) : Prop where
  inv : Inv t []
  fresh : ∀ q, s.Holds q → Disjoint (pagesOf r) (pagesOf q)
  holds : t.Holds r
  keeps : ∀ q, s.Holds q → t.Holds q

lemma allocatePhysicalAny_holds {bytes} (I : Inv s []) :
    wp (allocatePhysicalAny bytes)
      (fun page t => bytesToPages bytes ≠ 0 ∧ Allocates s t (page, bytesToPages bytes))
      (fun _ t => t = s) s := by
  obtain ⟨a, ha, hv, hsub⟩ := I.reserves
  rw [allocatePhysicalAny, wp_bind]
  refine wp_callAllocator ha (wp_mono (allocateAny_spec hv) ?_ ?_)
  · rintro v b ⟨hk, hb, hcount, h0, hdev⟩
    rw [hcount] at h0
    have hr : v.record = ⟨v.basePage, bytesToPages bytes, false, false⟩ := by
      rw [PhysicalAllocation.record, hcount, hdev]
    rw [hr] at hb
    have hperm : b.allocations.Perm
        (⟨v.basePage, bytesToPages bytes, false, false⟩ :: a.allocations) := by
      rw [hb]
      exact perm_append_singleton _ _
    have happart : ∀ w ∈ a.allocations, w.isDevice = false →
        Disjoint (pagesOf (v.basePage, bytesToPages bytes)) (pagesOf w.extent) := fun w hw hwd =>
      hk.valid.apart hperm hw hwd
    refine ⟨h0, I.reallocate hk.valid ?_, ?_, ?_, ?_⟩
    · rw [hb]
      exact hsub.trans (sublist_append_left _ _).subperm
    · rintro q ⟨a', ha', w, hw, _, hwd, _, h1, h2⟩
      obtain rfl := Option.some.inj (ha.symm.trans ha')
      refine disjoint_left.mpr fun x hx hx' => disjoint_left.mp (happart w hw hwd) hx ?_
      exact ⟨h1.trans hx'.1, lt_of_lt_of_le hx'.2 h2⟩
    · refine ⟨b, rfl, _, by rw [hb]; exact mem_append_right _ mem_cons_self, rfl, rfl, ?_,
        le_refl _, le_refl _⟩
      -- the records of the delegations were there before
      intro hmem
      have hx : v.basePage ∈ pagesOf (v.basePage, bytesToPages bytes) :=
        ⟨Nat.le_refl _, Nat.lt_add_of_pos_right (Nat.pos_of_ne_zero h0)⟩
      exact disjoint_left.mp (happart _ (hsub.subset hmem) rfl) hx hx
    · rintro q ⟨a', ha', w, hw, hres, hwd, hdel, h⟩
      obtain rfl := Option.some.inj (ha.symm.trans ha')
      exact ⟨b, rfl, w, by rw [hb]; exact mem_append_left _ hw, hres, hwd, hdel, h⟩
  · rintro e b rfl
    show ({ s with physicalAllocator := some b } : MemoryManager) = s
    rw [← ha]

lemma Holds.not_overlaps {d} (I : Inv s []) (h : s.Holds r) (h0 : r.2 ≠ 0)
    (hd : d ∈ s.delegations) : d.overlaps (r.1 * pageSize) (r.2 * pageSize) = false := by
  obtain ⟨a, ha, w, hw, _, hdev, hdel, hb, he⟩ := h
  obtain ⟨a', ha', hv, hsub⟩ := I.reserves
  obtain rfl := Option.some.inj (ha.symm.trans ha')
  by_contra hover
  have hover : d.info.state ≠ .reclaimed ∧
      r.1 * pageSize < saturatingAdd d.info.address d.info.bytes ∧
      d.info.address < saturatingAdd (r.1 * pageSize) (r.2 * pageSize) := by
    simpa [Delegation.overlaps, and_assoc] using hover
  have hrec := record?_eq_some.mpr ⟨hover.1, rfl⟩
  have hmem := mem_filterMap.mpr ⟨d, hd, hrec⟩
  obtain ⟨e1, e2, hcount, _⟩ := record_extent (I.shaped d hd) hrec
  have hcount : bytesToPages d.info.bytes ≠ 0 := hcount
  have e1 : d.info.address >>> pageBits * pageSize = d.info.address := e1
  have e2 : bytesToPages d.info.bytes * pageSize = d.info.bytes := e2
  generalize d.info.address >>> pageBits = page, bytesToPages d.info.bytes = count at *
  -- they share the later of the two first pages
  have hw0 := hv.bounded w hw
  have hfit := (I.shaped d hd).fits
  simp only [saturatingAdd, show pageSize = 4096 from rfl,
    show wordSize = 18446744073709551616 from rfl] at e1 e2 hover hfit
  refine hdel (hv.record_unique (x := max r.1 page) hw (hsub.subset hmem) hdev ?_ ?_ ▸ hmem)
  · simp only [mem_pagesOf, AllocationRecord.extent]
    omega
  · simp only [mem_pagesOf, AllocationRecord.extent]
    omega

lemma freePhysical_holds (I : Inv s []) (h : s.Holds r) (h0 : r.2 ≠ 0) (hlt : r.2 < maxPages) :
    wp (freePhysical (r.1 * pageSize) (r.2 * pageSize))
      (fun _ t => Inv t [] ∧ ∀ q, q.2 ≠ 0 → s.Holds q → Disjoint (pagesOf r) (pagesOf q) → t.Holds q)
      (fun _ _ => False) s := by
  have hguard : s.delegations.any (·.overlaps (r.1 * pageSize) (r.2 * pageSize)) = false := by
    simpa using fun d => h.not_overlaps I h0
  have hbase : (r.1 * pageSize) >>> pageBits = r.1 := shiftRight_page
  have hcount := bytesToPages_mul hlt
  suffices hkeep : wp (freePhysical (r.1 * pageSize) (r.2 * pageSize)) (fun _ t => ∀ q, q.2 ≠ 0 →
      s.Holds q → Disjoint (pagesOf r) (pagesOf q) → t.Holds q) (fun _ _ => False) s from
    wp_mono (wp_and (freePhysical_spec I) hkeep) (fun _ _ ht => ⟨ht.1.1, ht.2⟩) (fun _ _ ht => ht.2)
  obtain ⟨a, ha, w, hw, hres, hdev, hdel, hb, he⟩ := h
  obtain ⟨a', ha', hv, hsub⟩ := I.reserves
  obtain rfl := Option.some.inj (ha.symm.trans ha')
  rw [freePhysical, wp_read, hguard, if_neg (by decide), wp_bind]
  refine wp_callAllocator ha (wp_mono (free_spec hv) ?_ ?_)
  · rintro _ b ⟨_, _, _, v, rest, hperm, hholds, hb'⟩ q hq0 ⟨a', ha', z, hz, hzres, hzdev, hzdel, h1, h2⟩ hap
    obtain rfl := Option.some.inj (ha.symm.trans ha')
    rw [hbase, hcount] at hb'
    rcases mem_cons.mp (hperm.mem_iff.mp hz) with rfl | hz'
    · -- what is held stays in what is left of the record
      have hap' : q.1 + q.2 ≤ r.1 ∨ r.1 + r.2 ≤ q.1 := by
        by_contra hno
        have hx : max r.1 q.1 ∈ pagesOf r := ⟨by omega, by omega⟩
        exact disjoint_left.mp hap hx ⟨by omega, by omega⟩
      obtain ⟨y, hy, hyres, hydev, y1, y2⟩ := leftOver_apart h1 h2 hq0 hap'
      refine ⟨b, rfl, y, by rw [hb']; exact mem_append_right _ hy, hyres, hydev.trans hzdev, ?_, y1, y2⟩
      intro hmem
      refine hzdel (hv.record_unique (x := q.1) hz (hsub.subset hmem) (hzdev.trans (hydev.trans hzdev).symm)
        ⟨h1, ?_⟩ ⟨y1, ?_⟩ ▸ hmem)
      · exact Nat.lt_of_lt_of_le (Nat.lt_add_of_pos_right (Nat.pos_of_ne_zero hq0)) h2
      · exact Nat.lt_of_lt_of_le (Nat.lt_add_of_pos_right (Nat.pos_of_ne_zero hq0)) y2
    · exact ⟨b, rfl, z, by rw [hb']; exact mem_append_left _ hz', hzres, hzdev, hzdel, h1, h2⟩
  · rintro e b ⟨rfl, hfree⟩
    refine hfree ⟨?_, ?_, ?_, w, hw, ?_⟩
    · exact isPageAligned_iff.mpr (Nat.mul_mod_left _ _)
    · exact mul_ne_zero h0 (by decide)
    · rw [hbase, hcount]
      exact lt_of_le_of_lt (he.trans (hv.bounded w hw)) maxPages_lt
    · rw [hbase, hcount]
      exact (holdsRange_iff (hv.bounded w hw)).mpr ⟨hres, hb, he⟩

end MemoryManager

end Nanami.Memory

namespace Nanami.Process
open Nanami.Lib Nanami.Memory

/-- The extents that are referred to are in use: they are the same or stand apart, each was
allocated once more than it was handed back, and so was each page that is not free. -/
structure Accounts (m : MemoryManager) (allocated handed refs : List (Nat × Nat)) : Prop where
  inv : m.Inv []
  sized : ∀ r ∈ refs, r.2 ≠ 0 ∧ r.2 < maxPages
  apart : ∀ r ∈ refs, ∀ q ∈ refs, r = q ∨ Disjoint (pagesOf r) (pagesOf q)
  held : ∀ r ∈ refs, m.Holds r
  outstanding : ∀ r ∈ refs, ∀ x ∈ pagesOf r, cover handed x < cover allocated x
  once : ∀ x, cover handed x ≤ cover allocated x ∧ cover allocated x ≤ cover handed x + 1
  recorded : ∀ x, cover handed x < cover allocated x → m.Holds (x, 1)

namespace Accounts

variable {m : MemoryManager} {allocated handed refs refs' : List (Nat × Nat)} {k : Nat × Nat}

lemma subset (A : Accounts m allocated handed refs) (h : refs' ⊆ refs) :
    Accounts m allocated handed refs' where
  inv := A.inv
  sized := fun r hr => A.sized r (h hr)
  apart := fun r hr q hq => A.apart r (h hr) q (h hq)
  held := fun r hr => A.held r (h hr)
  outstanding := fun r hr => A.outstanding r (h hr)
  once := A.once
  recorded := A.recorded

lemma initial (I : m.Inv []) : Accounts m [] [] [] :=
  ⟨I, nofun, nofun, nofun, nofun, fun _ => ⟨Nat.le_refl _, Nat.zero_le _⟩,
    fun _ h => absurd h (Nat.lt_irrefl _)⟩

lemma allocate {t} (A : Accounts m allocated handed refs) (h0 : k.2 ≠ 0) (hlt : k.2 < maxPages)
    (T : MemoryManager.Allocates m t k) : Accounts t (k :: allocated) handed (k :: refs) := by
  have hapart : ∀ q ∈ refs, Disjoint (pagesOf k) (pagesOf q) := fun q hq => T.fresh q (A.held q hq)
  -- no page of the new extent was outstanding
  have hnew : ∀ x ∈ pagesOf k, cover allocated x = cover handed x := by
    intro x hx
    by_contra hne
    have h1 := (A.once x).1
    have hheld := A.recorded x (by omega)
    exact Set.disjoint_left.mp (T.fresh _ hheld) hx ⟨le_refl _, Nat.lt_succ_self _⟩
  have hcov : ∀ x, cover (k :: allocated) x = ind k.1 k.2 x + cover allocated x := fun x => cover_cons
  refine ⟨T.inv, ?_, ?_, ?_, ?_, fun x => ?_, fun x hx => ?_⟩
  · rintro r (_ | ⟨_, hr⟩)
    · exact ⟨h0, hlt⟩
    · exact A.sized r hr
  · rintro r (_ | ⟨_, hr⟩) q (_ | ⟨_, hq⟩)
    · exact .inl rfl
    · exact .inr (hapart q hq)
    · exact .inr (hapart r hr).symm
    · exact A.apart r hr q hq
  · rintro r (_ | ⟨_, hr⟩)
    · exact T.holds
    · exact T.keeps r (A.held r hr)
  · rintro r (_ | ⟨_, hr⟩) x hx
    · rw [hcov, ind_eq_one.mpr hx, hnew x hx]
      omega
    · have := A.outstanding r hr x hx
      rw [hcov]
      omega
  · rw [hcov]
    have h1 := A.once x
    by_cases hx : x ∈ pagesOf k
    · rw [ind_eq_one.mpr hx, hnew x hx]
      omega
    · rw [show ind k.1 k.2 x = 0 from if_neg hx]
      omega
  · by_cases hk : x ∈ pagesOf k
    · exact T.holds.part hk.1 (Nat.succ_le_of_lt hk.2)
    · rw [hcov, show ind k.1 k.2 x = 0 from if_neg hk, zero_add] at hx
      exact T.keeps _ (A.recorded x hx)

variable (A : Accounts m allocated handed (k :: refs))
include A

lemma apart_cons (hk : k ∉ refs) :
    ∀ q ∈ refs, Disjoint (pagesOf k) (pagesOf q) := fun q hq =>
  (A.apart k List.mem_cons_self q (List.mem_cons_of_mem _ hq)).resolve_left fun h => hk (h ▸ hq)

lemma free (hk : k ∉ refs) :
    sure (MemoryManager.freePhysical (k.1 * pageSize) (k.2 * pageSize))
      (fun _ t => Accounts t allocated (k :: handed) refs) m := by
  obtain ⟨h0, hlt⟩ := A.sized k List.mem_cons_self
  refine wp_post (MemoryManager.freePhysical_holds A.inv (A.held k List.mem_cons_self) h0 hlt)
    ?_
  rintro _ t ⟨I, hkeep⟩
  have B := A.subset (List.subset_cons_self k refs)
  have hapart := A.apart_cons hk
  have hcov : ∀ x, cover (k :: handed) x = ind k.1 k.2 x + cover handed x := fun x => cover_cons
  have hout : ∀ x ∈ pagesOf k, cover handed x < cover allocated x := fun x hx =>
    A.outstanding k List.mem_cons_self x hx
  refine ⟨I, B.sized, B.apart, fun q hq => hkeep q (B.sized q hq).1 (B.held q hq) (hapart q hq), ?_,
    fun x => ?_, fun x hx => ?_⟩
  · intro q hq x hx
    have hno : x ∉ pagesOf k := fun h => Set.disjoint_left.mp (hapart q hq) h hx
    rw [hcov, show ind k.1 k.2 x = 0 from if_neg hno, zero_add]
    exact B.outstanding q hq x hx
  · rw [hcov]
    have h1 := A.once x
    by_cases hx : x ∈ pagesOf k
    · have := hout x hx
      rw [ind_eq_one.mpr hx]
      omega
    · rw [show ind k.1 k.2 x = 0 from if_neg hx]
      omega
  · rw [hcov] at hx
    by_cases hxk : x ∈ pagesOf k
    · rw [ind_eq_one.mpr hxk] at hx
      have := (A.once x).2
      omega
    · rw [show ind k.1 k.2 x = 0 from if_neg hxk, zero_add] at hx
      refine hkeep _ one_ne_zero (A.recorded x hx) (Set.disjoint_left.mpr fun y hy hy' => hxk ?_)
      have : y = x := le_antisymm (Nat.le_of_lt_succ hy'.2) hy'.1
      exact this ▸ hy

def singles (k : Nat × Nat) : List (Nat × Nat) := (List.range k.2).map fun i => (k.1 + i, 1)

/-- An extent that is referred to once may be referred to page by page. -/
lemma split (hk : k.2 = 1 ∨ k ∉ refs) :
    Accounts m allocated handed (singles k ++ refs) := by
  rcases hk with h1 | hk
  · refine A.subset ?_
    have : singles k = [k] := by
      obtain ⟨b, c⟩ := k
      obtain rfl : c = 1 := h1
      rfl
    rw [this]
    exact fun _ h => h
  have hmem : ∀ r ∈ singles k, ∃ i < k.2, r = (k.1 + i, 1) := by
    intro r hr
    obtain ⟨i, hi, rfl⟩ := List.mem_map.mp hr
    exact ⟨i, List.mem_range.mp hi, rfl⟩
  have hpages : ∀ r ∈ singles k, pagesOf r ⊆ pagesOf k := by
    intro r hr x hx
    obtain ⟨i, hi, rfl⟩ := hmem r hr
    simp only [mem_pagesOf] at hx ⊢
    omega
  have hapart := A.apart_cons hk
  have B := A.subset (List.subset_cons_self k refs)
  refine ⟨A.inv, ?_, ?_, ?_, ?_, A.once, A.recorded⟩
  · intro r hr
    rcases List.mem_append.mp hr with hr | hr
    · obtain ⟨i, _, rfl⟩ := hmem r hr
      exact ⟨one_ne_zero, show 1 < maxPages by decide⟩
    · exact B.sized r hr
  · intro r hr q hq
    rcases List.mem_append.mp hr with hr | hr <;> rcases List.mem_append.mp hq with hq | hq
    · obtain ⟨i, _, rfl⟩ := hmem r hr
      obtain ⟨j, _, rfl⟩ := hmem q hq
      by_cases hij : i = j
      · exact .inl (by rw [hij])
      · refine .inr (Set.disjoint_left.mpr fun x hx hx' => hij ?_)
        simp only [mem_pagesOf] at hx hx'
        omega
    · exact .inr ((hapart q hq).mono_left (hpages r hr))
    · exact .inr ((hapart r hr).mono_left (hpages q hq)).symm
    · exact B.apart r hr q hq
  · intro r hr
    rcases List.mem_append.mp hr with hr | hr
    · obtain ⟨i, hi, rfl⟩ := hmem r hr
      exact (A.held k List.mem_cons_self).part (Nat.le_add_right _ _) (by dsimp only; omega)
    · exact B.held r hr
  · intro r hr x hx
    rcases List.mem_append.mp hr with hr | hr
    · exact A.outstanding k List.mem_cons_self x (hpages r hr hx)
    · exact B.outstanding r hr x hx

end Accounts

end Nanami.Process
