import Nanami.Process.ReservationRuns

/-!
# Where reservations lie

Reservations without a requested address take recycled pages or the pages at the heap watermark.
Neither place is checked against heap reservations and gaps, and the watermark is not checked
against recycled pages, so what keeps such reservations clear of everything live is where requested
addresses were allowed to lie.

As long as requested ranges avoid what is live and the part of the heap that the watermark has yet to
pass, automatic reservations meet nothing live (`automatic_clear`). As long as they lie below the
watermark and the limit, a shared reservation is refused only for want of slots or pages
(`reserve_succeeds`).
-/

namespace Nanami.Process
open Nanami.Lib Option SortedMap

namespace AddressSpace

/-- A range that the watermark has passed; past the limit of the heap it never comes to a range.
Under `strict` only ranges below the limit count. -/
def Settled (strict : Bool) (s : AddressSpace) (lo hi : Nat) : Prop :=
  hi ≤ s.userHeapNextVa ∧ (strict = true → hi ≤ s.userHeapLimitVa) ∨
    strict = false ∧ s.userHeapLimitVa ≤ lo

/-- Live shared reservations are apart from each other and from recycled pages, and none of these
lies where the watermark has yet to pass. -/
structure Layout (strict : Bool) (s : AddressSpace) : Prop where
  aligned : s.userHeapNextVa % pageSize = 0
  activeNonzero : ∀ e ∈ s.shared.active.entries, e.1 ≠ 0
  poolNonzero : cover s.shared.pages.ranges 0 = 0
  activeAligned : ∀ e ∈ s.shared.active.entries, e.1 % pageSize = 0
  apart : ∀ e ∈ s.shared.active.entries, ∀ e' ∈ s.shared.active.entries, e.1 < e'.1 →
    e.1 + e.2.pageCount * pageSize ≤ e'.1
  poolActive : ∀ e ∈ s.shared.active.entries, ∀ x, e.1 / pageSize ≤ x →
    x < e.1 / pageSize + e.2.pageCount → cover s.shared.pages.ranges x = 0
  activeSettled : ∀ e ∈ s.shared.active.entries,
    Settled strict s e.1 (e.1 + e.2.pageCount * pageSize)
  poolSettled : ∀ x, 0 < cover s.shared.pages.ranges x →
    Settled strict s (x * pageSize) ((x + 1) * pageSize)

variable {strict : Bool} {s t : AddressSpace} {r : SharedMemoryReservation} {va n : Nat}

lemma Settled.mono {lo hi} (h : Settled strict s lo hi) (hn : s.userHeapNextVa ≤ t.userHeapNextVa)
    (hl : t.userHeapLimitVa = s.userHeapLimitVa) : Settled strict t lo hi := by
  rw [Settled, hl]
  rcases h with ⟨h1, h2⟩ | h
  · exact .inl ⟨le_trans h1 hn, h2⟩
  · exact .inr h

lemma Settled.apart {lo hi stop} (h : Settled strict s lo hi) (hstop : stop ≤ s.userHeapLimitVa) :
    hi ≤ s.userHeapNextVa ∨ stop ≤ lo := by
  rcases h with ⟨h1, -⟩ | ⟨-, h2⟩
  · exact .inl h1
  · exact .inr (le_trans hstop h2)

lemma layout_empty {pid slot page limit} :
    Layout strict ⟨pid, slot, page * pageSize, limit, SharedMemorySpace.empty⟩ where
  aligned := Nat.mul_mod_left _ _
  activeNonzero := nofun
  poolNonzero := rfl
  activeAligned := nofun
  apart := nofun
  poolActive := nofun
  activeSettled := nofun
  poolSettled x hx := by cases hx

variable {base : Nat}

/-- The test against the last reservation before the end covers all reservations. -/
lemma apart_of_not_meets {stop}
    (hkeyed : ∀ e ∈ s.shared.active.entries, e.2.baseVa = e.1 ∧ e.2.pageCount ≠ 0)
    (hapart : ∀ e ∈ s.shared.active.entries, ∀ e' ∈ s.shared.active.entries, e.1 < e'.1 →
      e.1 + e.2.pageCount * pageSize ≤ e'.1) (h : s.shared.meetsActive base stop = false) {e}
    (he : e ∈ s.shared.active.entries) :
    e.1 + e.2.pageCount * pageSize ≤ base ∨ stop ≤ e.1 := by
  rw [SharedMemorySpace.meetsActive] at h
  cases hb : s.shared.active.before stop with
  | none => exact .inr (before_none hb he)
  | some e0 =>
    obtain ⟨hm, hlt, hlast⟩ := before_some hb
    rw [hb, any_some, decide_eq_false_iff_not, (hkeyed e0 hm).1] at h
    by_cases hstop : e.1 < stop
    · obtain heq | hlt' := eq_or_lt_of_le (hlast e he hstop)
      · rw [entry_unique he hm heq]
        exact .inl (by omega)
      · have := hapart e he e0 hm hlt'
        exact .inl (by omega)
    · exact .inr (by omega)

lemma ite_zero_le {c : Prop} [Decidable c] : (if c then 0 else n) ≤ n := by
  split
  · exact Nat.zero_le _
  · exact le_refl _

lemma Layout.advance (h : Layout strict s) (hactive : t.shared.active = s.shared.active)
    (hnext : t.userHeapNextVa % pageSize = 0) (hle : s.userHeapNextVa ≤ t.userHeapNextVa)
    (hlim : t.userHeapLimitVa = s.userHeapLimitVa)
    (hpool : ∀ x, cover t.shared.pages.ranges x ≤ cover s.shared.pages.ranges x) :
    Layout strict t where
  aligned := hnext
  activeNonzero := by
    rw [hactive]
    exact h.activeNonzero
  poolNonzero := Nat.le_zero.mp (le_trans (hpool 0) (le_of_eq h.poolNonzero))
  activeAligned := by
    rw [hactive]
    exact h.activeAligned
  apart := by
    rw [hactive]
    exact h.apart
  poolActive := by
    intro e he x h1 h2
    rw [hactive] at he
    exact Nat.le_zero.mp (h.poolActive e he x h1 h2 ▸ hpool x)
  activeSettled := by
    intro e he
    rw [hactive] at he
    exact (h.activeSettled e he).mono hle hlim
  poolSettled x hx := (h.poolSettled x (lt_of_lt_of_le hx (hpool x))).mono hle hlim

lemma Layout.place (h : Layout strict s) (hactive : t.shared.active = s.shared.active.insert r.baseVa r)
    (hbase : r.baseVa ≠ 0) (hal : r.baseVa % pageSize = 0) (hnext : t.userHeapNextVa % pageSize = 0)
    (hle : s.userHeapNextVa ≤ t.userHeapNextVa) (hlim : t.userHeapLimitVa = s.userHeapLimitVa)
    (hpool : ∀ x, cover t.shared.pages.ranges x ≤ cover s.shared.pages.ranges x)
    (hzero : ∀ x, r.baseVa / pageSize ≤ x → x < r.baseVa / pageSize + r.pageCount →
      cover t.shared.pages.ranges x = 0)
    (hapart : ∀ e ∈ s.shared.active.entries, e.1 + e.2.pageCount * pageSize ≤ r.baseVa ∨
      r.baseVa + r.pageCount * pageSize ≤ e.1)
    (hset : Settled strict t r.baseVa (r.baseVa + r.pageCount * pageSize)) :
    Layout strict t := by
  have hmem : ∀ {e}, e ∈ t.shared.active.entries → e = (r.baseVa, r) ∨ e ∈ s.shared.active.entries := by
    intro e he
    rw [hactive] at he
    obtain rfl | ⟨he, -⟩ := mem_insert.mp he
    · exact .inl rfl
    · exact .inr he
  have hu : Layout strict { t with shared := { t.shared with active := s.shared.active } } :=
    h.advance rfl hnext hle hlim hpool
  refine ⟨hnext, fun e he => ?_, hu.poolNonzero, fun e he => ?_, fun e he e' he' hlt => ?_,
    fun e he x h1 h2 => ?_, fun e he => ?_, hu.poolSettled⟩
  · obtain rfl | he := hmem he
    · exact hbase
    · exact h.activeNonzero e he
  · obtain rfl | he := hmem he
    · exact hal
    · exact h.activeAligned e he
  · obtain rfl | he := hmem he
    · obtain rfl | he' := hmem he'
      · exact absurd hlt (lt_irrefl _)
      · have := hapart e' he'
        simp only at hlt ⊢
        omega
    · obtain rfl | he' := hmem he'
      · have := hapart e he
        omega
      · exact h.apart e he e' he' hlt
  · obtain rfl | he := hmem he
    · exact hzero x h1 h2
    · exact hu.poolActive e he x h1 h2
  · obtain rfl | he := hmem he
    · exact hset
    · exact hu.activeSettled e he

/-- The pages at the watermark are not recycled ones. -/
lemma Layout.cover_fresh (h : Layout strict s)
    (hlim : s.userHeapNextVa + n * pageSize ≤ s.userHeapLimitVa) {x}
    (h1 : s.userHeapNextVa / pageSize ≤ x) (h2 : x < s.userHeapNextVa / pageSize + n) :
    cover s.shared.pages.ranges x = 0 := by
  by_contra hne
  have hset := (h.poolSettled x (pos_of_ne_zero hne)).apart hlim
  have hal := h.aligned
  simp only [pageSize, pageBits] at *
  omega

lemma PagesFrom.pool_le (h : PagesFrom s t va base n) (x : Nat) :
    cover t.shared.pages.ranges x ≤ cover s.shared.pages.ranges x := by
  cases h with
  | recycled _ _ _ hcov =>
    have := hcov x
    omega
  | fresh _ hpages => rw [hpages]
  | requested _ _ _ hcov =>
    rw [hcov]
    exact ite_zero_le

lemma PagesFrom.watermark_le (h : PagesFrom s t va base n) :
    s.userHeapNextVa ≤ t.userHeapNextVa := by
  cases h with
  | recycled _ _ _ _ _ hwater | requested _ _ _ _ hwater => rw [hwater]
  | fresh _ _ base_eq _ hwater =>
    rw [hwater, base_eq]
    exact Nat.le_add_right _ _

/-- Every shared reservation that is granted keeps the layout, if a requested one is settled. -/
lemma Layout.granted (h : Layout strict s) (hp : s.shared.pages.Valid)
    (hkeyed : ∀ e ∈ s.shared.active.entries, e.2.baseVa = e.1 ∧ e.2.pageCount ≠ 0)
    (hg : Granted s t va n r)
    (hset : va ≠ 0 → Settled strict s va (va + n * pageSize)) : Layout strict t := by
  have hapart : ∀ e ∈ s.shared.active.entries, e.1 + e.2.pageCount * pageSize ≤ r.baseVa ∨
      r.baseVa + r.pageCount * pageSize ≤ e.1 := fun e he => by
    rw [hg.pageCount]
    exact apart_of_not_meets hkeyed h.apart hg.apart he
  have hn0 := hg.nonempty
  have hle := hg.pages.watermark_le
  have hpool := hg.pages.pool_le
  cases hg.pages with
  | recycled page automatic base_eq hcov hlim hwater =>
    have hpage : r.baseVa / pageSize = page := by
      rw [base_eq]
      exact Nat.mul_div_cancel _ (by decide)
    refine h.place hg.active hg.base ?_ ?_ hle hg.limit hpool (fun x h1 h2 => ?_) hapart ?_
    · rw [base_eq]
      exact Nat.mul_mod_left _ _
    · rw [hwater]
      exact h.aligned
    · rw [hpage] at h1 h2
      rw [hg.pageCount] at h2
      have h3 := hcov x
      have h4 := hp.cover_le x
      rw [ind_eq_one.mpr ⟨h1, h2⟩] at h3
      omega
    · -- the last page of the range is settled, and it ends below the limit
      have hlast : 0 < cover s.shared.pages.ranges (page + n - 1) := by
        have h3 := hcov (page + n - 1)
        rw [ind_eq_one.mpr ⟨by omega, by omega⟩] at h3
        omega
      have hset := h.poolSettled _ hlast
      rw [hg.pageCount, Settled, hg.limit, hwater]
      rcases hset with ⟨h1, h2⟩ | ⟨-, h2⟩
      · refine .inl ⟨?_, fun _ => hlim⟩
        simp only [pageSize, pageBits] at *
        omega
      · simp only [pageSize, pageBits] at *
        omega
  | fresh automatic hpages base_eq hlim hwater =>
    rw [base_eq] at hlim hwater
    refine h.place hg.active hg.base ?_ ?_ hle hg.limit hpool (fun x h1 h2 => ?_) hapart ?_
    · rw [base_eq]
      exact h.aligned
    · have := h.aligned
      simp only [pageSize, pageBits] at *
      omega
    · rw [base_eq] at h1 h2
      rw [hg.pageCount] at h2
      rw [hpages]
      exact h.cover_fresh hlim h1 h2
    · rw [hg.pageCount, base_eq]
      refine .inl ⟨le_of_eq hwater.symm, fun _ => ?_⟩
      rw [hg.limit]
      exact hlim
  | requested chosen base_eq hal hcov hwater =>
    refine h.place hg.active hg.base hal ?_ hle hg.limit hpool (fun x h1 h2 => ?_) hapart ?_
    · rw [hwater]
      exact h.aligned
    · rw [hg.pageCount] at h2
      rw [hcov, if_pos ⟨h1, h2⟩]
    · rw [hg.pageCount, base_eq]
      exact (hset chosen).mono (le_of_eq hwater.symm) hg.limit

lemma Layout.recycled (h : Layout strict s)
    (hr : Recycled s t r) : Layout strict t := by
  have hral := h.activeAligned _ hr.live
  have hset := h.activeSettled _ hr.live
  have hmem : ∀ {e}, e ∈ t.shared.active.entries → e ∈ s.shared.active.entries ∧ e.1 ≠ r.baseVa := by
    intro e he
    rw [hr.active] at he
    exact mem_erase.mp he
  have hmono : ∀ {lo hi}, Settled strict s lo hi → Settled strict t lo hi := fun h =>
    h.mono (le_of_eq hr.watermark.symm) hr.limit
  have hzero : cover t.shared.pages.ranges 0 = 0 := by
    have hne := h.activeNonzero _ hr.live
    rw [hr.pages, h.poolNonzero, zero_add]
    refine if_neg fun hx => ?_
    simp only [pageSize, pageBits] at *
    omega
  refine ⟨by rw [hr.watermark]; exact h.aligned, fun e he => h.activeNonzero e (hmem he).1, hzero,
    fun e he => h.activeAligned e (hmem he).1,
    fun e he e' he' => h.apart e (hmem he).1 e' (hmem he').1, fun e he x h1 h2 => ?_,
    fun e he => hmono (h.activeSettled e (hmem he).1), fun x hx => ?_⟩
  · obtain ⟨he, hne⟩ := hmem he
    rw [hr.pages, h.poolActive e he x h1 h2, zero_add]
    refine if_neg fun hx => ?_
    obtain hlt | hlt := lt_or_gt_of_ne hne
    · have := h.apart e he _ hr.live hlt
      simp only [pageSize, pageBits] at *
      omega
    · have := h.apart _ hr.live e he hlt
      simp only [pageSize, pageBits] at *
      omega
  · apply hmono
    rw [hr.pages] at hx
    by_cases hold : 0 < cover s.shared.pages.ranges x
    · exact h.poolSettled x hold
    · have hin : ind (r.baseVa / pageSize) r.pageCount x = 1 := by
        have := @ind_le_one (r.baseVa / pageSize) r.pageCount x
        omega
      rw [ind_eq_one] at hin
      rcases hset with ⟨h1, h2⟩ | ⟨h1, h2⟩
      · refine .inl ⟨?_, fun hs => ?_⟩
        · simp only [pageSize, pageBits] at *
          omega
        · have := h2 hs
          simp only [pageSize, pageBits] at *
          omega
      · refine .inr ⟨h1, ?_⟩
        simp only [pageSize, pageBits] at *
        omega

end AddressSpace

namespace Journal

open AddressSpace

/-- A shared reservation at a requested address lies where the watermark has passed. -/
def RequestSettled (strict : Bool) (j : Journal) : Reserve → Prop
  | .shared n va => va ≠ 0 → Settled strict j.space va (va + n * pageSize)
  | _ => True

/-- A layout and tracked slots. -/
structure Ordered (strict : Bool) (j : Journal) : Prop extends Tracked j where
  layout : Layout strict j.space

variable {strict : Bool} {j : Journal} {pid va n : Nat} {e : Reserve} {t : AddressSpace}

lemma Ordered.pages_clear (h : Ordered strict j) {r}
    (hm : (r.baseVa, r) ∈ j.space.shared.active.entries) :
    j.space.shared.pages.Clear (r.baseVa / pageSize) r.pageCount :=
  FreeRanges.clear_of_cover h.pages (h.keyed _ hm).2 (h.layout.poolActive _ hm)

lemma ordered_launched {l} : Ordered strict (launched pid l) where
  toTracked := tracked_launched
  layout := layout_empty

lemma Ordered.pagesNotFree (h : Ordered strict j) (e : Reserve) : PagesNotFree j e := by
  cases e with
  | recycle r => exact h.pages_clear
  | shared n va | heap n | heapAt va n | gap n | exec l => trivial

lemma Ordered.effect (h : Ordered strict j) (e : Reserve) :
    Effect j e (j.step e) := step_effect h.toTracked (h.pagesNotFree e)

lemma step_ordered (h : Ordered strict j) (he : RequestSettled strict j e) :
    Ordered strict (j.step e) := by
  refine ⟨step_tracked h.toTracked (h.pagesNotFree e), ?_⟩
  have hal := h.layout.aligned
  have hmul : ∀ n, (j.space.userHeapNextVa + n * pageSize) % pageSize = 0 := fun n => by
    rw [Nat.add_mul_mod_self_right]
    exact hal
  have heff := h.effect e
  generalize j.step e = k at heff ⊢
  cases heff with
  | refused => exact h.layout
  | granted hg => exact h.layout.granted h.pages h.keyed hg he
  | recycled hr => exact h.layout.recycled hr
  | heap h0 hmax hlim =>
    exact h.layout.advance rfl (hmul _) (Nat.le_add_right _ _) rfl (fun _ => Nat.le_refl _)
  | heapAt h0 hal' hmax hv hcov =>
    refine h.layout.advance rfl hal (le_refl _) rfl fun x => ?_
    rw [hcov]
    exact ite_zero_le
  | gap h0 hlim =>
    exact h.layout.advance rfl (hmul _) (Nat.le_add_right _ _) rfl (fun _ => Nat.le_refl _)
  | exec l => exact layout_empty

/-! ## Automatic reservations are clear of what is live -/

/-- Two ranges of pages, as base address and page count, have no byte in common. -/
def ApartFrom (q r : Nat × Nat) : Prop :=
  q.1 + q.2 * pageSize ≤ r.1 ∨ r.1 + r.2 * pageSize ≤ q.1

instance (q r : Nat × Nat) : Decidable (ApartFrom q r) := inferInstanceAs (Decidable (_ ∨ _))

/-- Heap reservations and gaps are clear of recycled pages and of live shared reservations. -/
structure HeldApart (j : Journal) : Prop where
  nonempty : ∀ h ∈ j.held, h.2 ≠ 0
  aligned : ∀ h ∈ j.held, h.1 % pageSize = 0
  pool : ∀ h ∈ j.held, ∀ x, h.1 / pageSize ≤ x → x < h.1 / pageSize + h.2 →
    cover j.space.shared.pages.ranges x = 0
  active : ∀ e ∈ j.space.shared.active.entries, ∀ h ∈ j.held, ApartFrom (e.1, e.2.pageCount) h
  settled : ∀ h ∈ j.held, Settled false j.space h.1 (h.1 + h.2 * pageSize)

/-- The condition on requested addresses: outside the part of the heap that the watermark has yet to
pass, and clear of the live reservations of the other kind. -/
def RequestApart (j : Journal) : Reserve → Prop
  | .shared n va => va ≠ 0 →
    Settled false j.space va (va + n * pageSize) ∧ ∀ h ∈ j.held, ApartFrom (va, n) h
  | .heapAt va n => Settled false j.space va (va + n * pageSize) ∧
    ∀ e ∈ j.space.shared.active.entries, ApartFrom (e.1, e.2.pageCount) (va, n)
  | _ => True

/-- A range of recycled pages is apart from a range of pages that are not recycled. -/
lemma apartFrom_of_cover {page q} (h : ∀ x, page ≤ x → x < page + n → 0 < cover j.space.shared.pages.ranges x)
    (hn : n ≠ 0) (hal : q.1 % pageSize = 0) (hq : q.2 ≠ 0)
    (hz : ∀ x, q.1 / pageSize ≤ x → x < q.1 / pageSize + q.2 →
      cover j.space.shared.pages.ranges x = 0) : ApartFrom q (page * pageSize, n) := by
  by_contra hmeet
  simp only [ApartFrom, not_or] at hmeet
  have h1 := h (max page (q.1 / pageSize)) (by omega) (by
    simp only [pageSize, pageBits] at *
    omega)
  rw [hz _ (by omega) (by
    simp only [pageSize, pageBits] at *
    omega)] at h1
  exact lt_irrefl _ h1

lemma RequestApart.settled (h : RequestApart j e) : RequestSettled false j e := by
  cases e with
  | shared n va => exact fun hva => (h hva).1
  | recycle r | heap n | heapAt va n | gap n | exec l => trivial

/-- An automatic or requested shared reservation is clear of heap reservations and gaps. -/
lemma HeldApart.granted_apart {r} (hh : j.HeldApart) (hg : Granted j.space t va n r)
    (hva : va ≠ 0 → ∀ h ∈ j.held, ApartFrom (va, n) h) :
    ∀ h ∈ j.held, ApartFrom (r.baseVa, n) h := by
  intro q hq
  cases hg.pages with
  | recycled page _ base_eq hcov =>
    -- its pages were free, and those of the other are not
    rw [base_eq]
    refine (apartFrom_of_cover (fun x h1 h2 => ?_) hg.nonempty (hh.aligned q hq) (hh.nonempty q hq)
      (hh.pool q hq)).symm
    rw [← hcov, ind_eq_one.mpr ⟨h1, h2⟩]
    exact Nat.succ_pos _
  | fresh _ _ base_eq hlim =>
    have := (hh.settled q hq).apart hlim
    rw [base_eq] at this
    rw [base_eq]
    exact this.symm
  | requested chosen base_eq =>
    rw [base_eq]
    exact hva chosen q hq

lemma HeldApart.hold {k : Journal} (hh : j.HeldApart) (h0 : n ≠ 0) (hal : va % pageSize = 0)
    (hheld : ∀ q, q ∈ k.held ↔ q = (va, n) ∨ q ∈ j.held)
    (hactive : k.space.shared.active = j.space.shared.active)
    (hpool : ∀ x, cover k.space.shared.pages.ranges x ≤ cover j.space.shared.pages.ranges x)
    (hzero : ∀ x, va / pageSize ≤ x → x < va / pageSize + n →
      cover k.space.shared.pages.ranges x = 0)
    (hap : ∀ e ∈ j.space.shared.active.entries, ApartFrom (e.1, e.2.pageCount) (va, n))
    (hset : Settled false k.space va (va + n * pageSize))
    (hle : j.space.userHeapNextVa ≤ k.space.userHeapNextVa)
    (hl : k.space.userHeapLimitVa = j.space.userHeapLimitVa) : k.HeldApart where
  nonempty q hq := by
    obtain rfl | hq := (hheld q).mp hq
    · exact h0
    · exact hh.nonempty q hq
  aligned q hq := by
    obtain rfl | hq := (hheld q).mp hq
    · exact hal
    · exact hh.aligned q hq
  pool q hq x h1 h2 := by
    obtain rfl | hq := (hheld q).mp hq
    · exact hzero x h1 h2
    · exact Nat.le_zero.mp (hh.pool q hq x h1 h2 ▸ hpool x)
  active e he q hq := by
    rw [hactive] at he
    obtain rfl | hq := (hheld q).mp hq
    · exact hap e he
    · exact hh.active e he q hq
  settled q hq := by
    obtain rfl | hq := (hheld q).mp hq
    · exact hset
    · exact (hh.settled q hq).mono hle hl

lemma HeldApart.advance {k : Journal} (h : Ordered false j) (hh : j.HeldApart) (h0 : n ≠ 0)
    (hlim : j.space.userHeapNextVa + n * pageSize ≤ j.space.userHeapLimitVa)
    (hheld : ∀ q, q ∈ k.held ↔ q = (j.space.userHeapNextVa, n) ∨ q ∈ j.held)
    (hshared : k.space.shared = j.space.shared)
    (hnext : k.space.userHeapNextVa = j.space.userHeapNextVa + n * pageSize)
    (hl : k.space.userHeapLimitVa = j.space.userHeapLimitVa) : k.HeldApart := by
  refine hh.hold h0 h.layout.aligned hheld (by rw [hshared]) (by simp [hshared]) (fun x h1 h2 => ?_)
    (fun e he => (h.layout.activeSettled e he).apart hlim) (.inl ⟨hnext.ge, nofun⟩)
    (hnext ▸ Nat.le_add_right _ _) hl
  rw [hshared]
  exact h.layout.cover_fresh hlim h1 h2

lemma heldApart_empty {s} (hs : s.shared = SharedMemorySpace.empty) : HeldApart ⟨s, [], []⟩ where
  nonempty := nofun
  aligned := nofun
  pool := nofun
  active e he := by
    rw [hs] at he
    cases he
  settled := nofun

lemma HeldApart.granted {r} (hh : j.HeldApart) (hg : Granted j.space t va n r)
    (hva : va ≠ 0 → ∀ h ∈ j.held, ApartFrom (va, n) h) : HeldApart { j with space := t } where
  nonempty := hh.nonempty
  aligned := hh.aligned
  pool q hq x h1 h2 := by
    exact Nat.le_zero.mp (hh.pool q hq x h1 h2 ▸ hg.pages.pool_le x)
  active e he q hq := by
    simp only [hg.active] at he
    obtain rfl | ⟨he, -⟩ := mem_insert.mp he
    · simp only [hg.pageCount]
      exact hh.granted_apart hg hva q hq
    · exact hh.active e he q hq
  settled q hq := (hh.settled q hq).mono hg.pages.watermark_le hg.limit

lemma HeldApart.recycled {r} (h : Ordered false j) (hh : j.HeldApart) (hr : Recycled j.space t r) :
    HeldApart { j with space := t } where
  nonempty := hh.nonempty
  aligned := hh.aligned
  pool q hq x h1 h2 := by
    have hap := hh.active _ hr.live q hq
    have hal := hh.aligned q hq
    have hal' := h.layout.activeAligned _ hr.live
    simp only
    rw [hr.pages, hh.pool q hq x h1 h2, zero_add]
    refine if_neg fun hx => ?_
    simp only [ApartFrom, pageSize, pageBits] at *
    omega
  active e he q hq := by
    simp only [hr.active] at he
    exact hh.active e (mem_erase.mp he).1 q hq
  settled q hq := (hh.settled q hq).mono (le_of_eq hr.watermark.symm) hr.limit

lemma step_heldApart (h : Ordered false j) (hh : j.HeldApart) (he : RequestApart j e) :
    (j.step e).HeldApart := by
  have heff := h.effect e
  generalize j.step e = k at heff ⊢
  cases heff with
  | refused => exact hh
  | granted hg => exact hh.granted hg (fun hva => (he hva).2)
  | recycled hr => exact hh.recycled h hr
  | heap h0 hmax hlim => exact hh.advance h h0 hlim (fun q => List.mem_cons) rfl rfl rfl
  | heapAt h0 hal hmax hv hcov =>
    refine hh.hold h0 hal (fun q => List.mem_cons) rfl (fun x => ?_) (fun x h1 h2 => ?_) he.2 he.1
      (le_refl _) rfl
    · rw [hcov]
      exact ite_zero_le
    · rw [hcov, if_pos ⟨h1, h2⟩]
  | gap h0 hlim =>
    refine hh.advance h h0 hlim (fun q => ?_) rfl rfl rfl
    simp only [held, List.mem_append, List.mem_cons]
    tauto
  | exec l => exact heldApart_empty rfl

/-- The range of a reservation that the step makes without a requested address. -/
def automatic (j : Journal) : Reserve → Option (Nat × Nat)
  | .shared n va =>
    if va = 0 then (answer (reserveShared n va) j.space).map fun r => (r.baseVa, r.pageCount) else none
  | .heap n => (answer (reserveHeap n) j.space).map fun r => (r.1, n)
  | .gap n => (answer (reserveGap n) j.space).map fun base => (base, n)
  | _ => none

lemma watermark_apart (h : Ordered false j) (hh : j.HeldApart)
    (hlim : j.space.userHeapNextVa + n * pageSize ≤ j.space.userHeapLimitVa) {q}
    (hq : q ∈ j.live) : ApartFrom (j.space.userHeapNextVa, n) q := by
  obtain hq | hq := List.mem_append.mp hq
  · obtain ⟨e, he, rfl⟩ := List.mem_map.mp hq
    rw [(h.keyed e he).1]
    exact ((h.layout.activeSettled e he).apart hlim).symm
  · exact ((hh.settled q hq).apart hlim).symm

lemma automatic_apart (h : Ordered false j) (hh : j.HeldApart) {q r} (hq : automatic j e = some q)
    (hr : r ∈ j.live) : ApartFrom q r := by
  cases e with
  | shared n va =>
    rw [automatic] at hq
    split at hq
    · rename_i hva
      obtain ⟨a, hans, rfl⟩ := map_eq_some_iff.mp hq
      have hg := wp_of_answer (@AddressSpace.reserveSharedMemoryAt_spec j.space n va h.slots h.pages) hans
      rw [hg.pageCount]
      obtain hr | hr := List.mem_append.mp hr
      · obtain ⟨e, he, rfl⟩ := List.mem_map.mp hr
        rw [(h.keyed e he).1]
        exact (apart_of_not_meets h.keyed h.layout.apart hg.apart he).symm
      · exact hh.granted_apart hg (absurd hva) r hr
    · cases hq
  | heap n =>
    obtain ⟨a, hans, rfl⟩ := map_eq_some_iff.mp hq
    obtain ⟨rfl, -, -, hlim, -⟩ := wp_of_answer
      (@AddressSpace.reserveProcessHeap_spec j.space n h.bound) hans
    exact watermark_apart h hh hlim hr
  | gap n =>
    obtain ⟨a, hans, rfl⟩ := map_eq_some_iff.mp hq
    obtain ⟨rfl, -, hlim, -⟩ := wp_of_answer (@AddressSpace.reserveProcessVirtualGap_spec j.space n) hans
    exact watermark_apart h hh hlim hr
  | recycle r | heapAt va n | exec l => cases hq

/-- In every run whose requested ranges avoid the live ones and the part of the heap in front of the
watermark, a reservation without a requested address meets nothing that is live. -/
theorem automatic_clear (pid : Nat) (l : Launch) {es es' : List Reserve} {e : Reserve}
    (h : Along RequestApart (launched pid l) (es ++ e :: es')) {q r : Nat × Nat}
    (hq : automatic ((launched pid l).run es) e = some q) (hr : r ∈ ((launched pid l).run es).live) :
    ApartFrom q r := by
  have hinv : Ordered false ((launched pid l).run es) ∧ HeldApart ((launched pid l).run es) :=
    (along_append.mp h).1.invariant (I := fun j => Ordered false j ∧ HeldApart j)
      (fun hj he => ⟨step_ordered hj.1 he.settled, step_heldApart hj.1 hj.2 he⟩)
      ⟨ordered_launched, heldApart_empty rfl⟩
  exact automatic_apart hinv.1 hinv.2 hq hr

/-- A gap after a page of the heap, with a shared page and a heap page at requested addresses below. -/
theorem automatic_clear_requested :
    let es : List Reserve := [.shared 1 0xffff000, .heapAt 0xfffe000 1, .heap 1]
    Along RequestApart (launched 1 smallLaunch) (es ++ [.gap 8]) ∧
      ∀ r ∈ [(0xffff000, 1), (0xfffe000, 1), (0x10000000, 1)], ApartFrom (0x10001000, 8) r := by
  intro es
  have hapart : Along RequestApart (launched 1 smallLaunch) (es ++ [.gap 8]) := by
    refine ⟨fun _ => ⟨.inl ⟨by decide, nofun⟩, nofun⟩, ⟨.inl ⟨by decide +kernel, nofun⟩, ?_⟩, trivial,
      trivial, trivial⟩
    decide +kernel
  refine ⟨hapart, fun r hr => automatic_clear 1 smallLaunch hapart ?_ ?_⟩
  · decide +kernel
  · revert r
    decide +kernel

/-- A heap reservation is placed over a live shared reservation at a requested address. And a page
recycled in front of the watermark is handed out again after the watermark has passed over it for a
heap reservation. -/
theorem automatic_meets_live :
    (automatic ((launched 1 smallLaunch).run [.shared 1 0x10000000]) (.heap 1) =
        some (0x10000000, 1) ∧
      (0x10000000, 1) ∈ ((launched 1 smallLaunch).run [.shared 1 0x10000000]).live) ∧
    automatic ((launched 1 smallLaunch).run [.shared 1 0x10001000, .recycle ⟨0x10001000, 100, 1⟩,
        .heap 3]) (.shared 1 0) = some (0x10001000, 1) ∧
      (0x10000000, 3) ∈ ((launched 1 smallLaunch).run [.shared 1 0x10001000,
        .recycle ⟨0x10001000, 100, 1⟩, .heap 3]).live ∧
      ¬ApartFrom (0x10000000, 1) (0x10000000, 1) ∧ ¬ApartFrom (0x10001000, 1) (0x10000000, 3) := by
  refine ⟨⟨?_, ?_⟩, ?_, ?_, by decide, by decide⟩
  · decide +kernel
  · decide +kernel
  · decide +kernel
  · decide +kernel

/-! ## Shared reservations are refused only for want of room -/

/-- A shared reservation at a requested address lies below the watermark and the limit. -/
def RequestBelow (j : Journal) : Reserve → Prop
  | .shared n va => va ≠ 0 → va + n * pageSize ≤ j.space.userHeapNextVa ∧
    va + n * pageSize ≤ j.space.userHeapLimitVa
  | _ => True

lemma RequestBelow.settled (h : RequestBelow j e) : RequestSettled true j e := by
  cases e with
  | shared n va => exact fun hva => .inl ⟨(h hva).1, fun _ => (h hva).2⟩
  | recycle r | heap n | heapAt va n | gap n | exec l => trivial

/-- Contiguous slots among the recycled ones, or above the counter within the limit. -/
def SlotsAvailable (s : AddressSpace) (n : Nat) : Prop :=
  (∃ r ∈ s.shared.slots.ranges, n ≤ r.2) ∨ s.nextFrameSlot + n ≤ processFrameTotalPages

/-- Contiguous pages among the recycled ones inside the heap limit, or between the watermark and the
limit where no shared reservation is live. -/
def PagesAvailable (s : AddressSpace) (n : Nat) : Prop :=
  (∃ r ∈ s.shared.pages.ranges, ∃ page, r.1 ≤ page ∧ page + n ≤ r.1 + r.2 ∧
    (page + n) * pageSize ≤ s.userHeapLimitVa) ∨
  ∃ base, s.userHeapNextVa ≤ base ∧ base + n * pageSize ≤ s.userHeapLimitVa ∧
    ∀ e ∈ s.shared.active.entries, ApartFrom (e.1, e.2.pageCount) (base, n)

/-- The process does not change, and the limit is an address. -/
structure Framed (pid : Nat) (j : Journal) : Prop where
  pid : j.space.pid = pid
  limit : j.space.userHeapLimitVa < wordSize

lemma step_framed (h : Ordered strict j) (hf : Framed pid j) : Framed pid (j.step e) := by
  have hsame : ∀ {k : Journal}, k.space.pid = j.space.pid →
      k.space.userHeapLimitVa = j.space.userHeapLimitVa → Framed pid k := fun h1 h2 =>
    ⟨h1.trans hf.pid, h2 ▸ hf.limit⟩
  have heff := h.effect e
  generalize j.step e = k at heff ⊢
  cases heff with
  | refused => exact hf
  | granted hg => exact hsame hg.pid hg.limit
  | recycled hr => exact hsame hr.pid hr.limit
  | heap h0 hmax hlim | heapAt h0 hal hmax hv hcov | gap h0 hlim => exact hsame rfl rfl
  | exec l => exact ⟨hf.pid, l.limit_lt⟩

lemma SlotsAvailable.choice (h : Ordered strict j) (hn : n ≠ 0) (ha : SlotsAvailable j.space n) :
    (j.space.shared.slots.find n).getD j.space.nextFrameSlot + n ≤ processFrameTotalPages := by
  cases hf : j.space.shared.slots.find n with
  | some slot =>
    obtain ⟨length, hle, hm⟩ := FreeRanges.find_some h.slots hf
    have hlast : 0 < cover (j.space.shared.slots.ranges ++ activeSlots j.space) (slot + n - 1) := by
      rw [cover_append]
      have : 0 < cover j.space.shared.slots.ranges (slot + n - 1) :=
        cover_pos.mpr ⟨_, hm, mem_pagesOf.mpr ⟨by simp only; omega, by simp only; omega⟩⟩
      omega
    have := h.within _ hlast
    rw [getD_some]
    omega
  | none =>
    obtain ⟨r, hr, hle⟩ | hle := ha
    · have := FreeRanges.find_none h.slots hf hr
      omega
    · exact hle

/-- The address that `find` or the watermark gives: inside the limit and clear of live reservations. -/
lemma PagesAvailable.choice (h : Ordered true j) (hn : n ≠ 0) (hnext : j.space.userHeapNextVa ≠ 0)
    (ha : PagesAvailable j.space n) :
    let base := ((j.space.shared.pages.find n).map (· * pageSize)).getD j.space.userHeapNextVa
    base ≠ 0 ∧ base + n * pageSize ≤ j.space.userHeapLimitVa ∧
      ∀ e ∈ j.space.shared.active.entries, ApartFrom (e.1, e.2.pageCount) (base, n) := by
  cases hf : j.space.shared.pages.find n with
  | some page =>
    obtain ⟨length, hle, hm⟩ := FreeRanges.find_some h.pages hf
    have hin : ∀ x, page ≤ x → x < page + n → 0 < cover j.space.shared.pages.ranges x := fun x h1 h2 =>
      cover_pos.mpr ⟨_, hm, mem_pagesOf.mpr ⟨h1, by simp only; omega⟩⟩
    have hpage : page ≠ 0 := by
      rintro rfl
      have h0 := hin 0 (le_refl _) (by omega)
      rw [h.layout.poolNonzero] at h0
      exact lt_irrefl _ h0
    simp only [map_some, getD_some]
    refine ⟨mul_ne_zero hpage (by decide), ?_, fun e he => ?_⟩
    · -- the last page was settled, so it is below the limit
      obtain ⟨-, hlim⟩ | ⟨hfalse, -⟩ := h.layout.poolSettled _ (hin (page + n - 1) (by omega) (by omega))
      · have := hlim rfl
        simp only [pageSize, pageBits] at *
        omega
      · cases hfalse
    · exact apartFrom_of_cover hin hn (h.layout.activeAligned e he) (h.keyed e he).2
        (h.layout.poolActive e he)
  | none =>
    obtain ⟨r, hr, page, h1, h2, -⟩ | ⟨base, hle, hlim, -⟩ := ha
    · have := FreeRanges.find_none h.pages hf hr
      omega
    · have hroom : j.space.userHeapNextVa + n * pageSize ≤ j.space.userHeapLimitVa := by omega
      refine ⟨hnext, hroom, fun e he => ?_⟩
      exact (h.layout.activeSettled e he).apart hroom

/-- A shared reservation that has room is granted. -/
lemma reserveShared_succeeds (h : Ordered true j) (hf : Framed pid j) (hpid : pid ≠ 0) (hn : n ≠ 0)
    (hnext : j.space.userHeapNextVa ≠ 0) (hs : SlotsAvailable j.space n)
    (hp : PagesAvailable j.space n) :
    sure (reserveShared n 0) (fun _ _ => True) j.space := by
  have hslot := hs.choice h hn
  obtain ⟨hbase, hend, hapart⟩ := hp.choice h hn hnext
  have hlim := hf.limit
  unfold reserveShared AddressSpace.reserveSharedMemoryAt
  simp only [wp_bind, wp_get]
  rw [if_neg (by simpa [hf.pid, hpid] using hn)]
  simp only [wp_bind, if_true, ne_eq, not_true_eq_false, if_false]
  have htotal : processFrameTotalPages < wordSize := by decide
  refine wp_okOr (fun slotEnd _ => ?_) (fun hnone => ?_)
  swap
  · rw [checkedAdd_of_lt (by omega)] at hnone
    simp at hnone
    omega
  refine wp_okOr (fun bytes hbytes => ?_) (fun hnone => ?_)
  swap
  · rw [checkedMul, if_pos (by omega)] at hnone
    cases hnone
  obtain ⟨rfl, -⟩ := checkedMul_eq_some.mp hbytes
  refine wp_okOr (fun endVa hstop => ?_) (fun hnone => ?_)
  swap
  · rw [checkedAdd_of_lt (by omega)] at hnone
    simp [hbase] at hnone
    omega
  obtain ⟨hstop, -⟩ := filter_eq_some_iff.mp hstop
  obtain ⟨rfl, -⟩ := checkedAdd_eq_some.mp hstop
  refine wp_ite (fun hmeet => ?_) (fun _ => ?_)
  · -- the last reservation before the end would reach into the range
    rw [SharedMemorySpace.meetsActive] at hmeet
    cases hb : j.space.shared.active.before _ with
    | none =>
      rw [hb] at hmeet
      cases hmeet
    | some e =>
      obtain ⟨he, hlt, -⟩ := before_some hb
      rw [hb, any_some, decide_eq_true_eq, (h.keyed e he).1] at hmeet
      have := hapart e he
      simp only [ApartFrom] at this
      omega
  · obtain ⟨slots, hslots, -⟩ := @AddressSpace.takeSlots_spec j.space n h.slots hn
    obtain ⟨pages, hpages, -⟩ := @AddressSpace.takePages_spec j.space 0 _ n h.pages hn _ rfl rfl
    simp only [if_true, ne_eq, not_true_eq_false, if_false] at hpages
    simp only [wp_bind, hslots, hpages, okOr_some, wp_pure, wp_set]

/-- In every run whose shared reservations at requested addresses lie below the watermark and the
limit, a shared reservation without a requested address succeeds in every state reached that has
slots and pages for it. -/
theorem reserve_succeeds {pid : Nat} (hpid : pid ≠ 0) (l : Launch) {es es' : List Reserve}
    (h : Along RequestBelow (launched pid l) (es ++ es')) {n : Nat} (hn : n ≠ 0)
    (hnext : ((launched pid l).run es).space.userHeapNextVa ≠ 0)
    (hs : SlotsAvailable ((launched pid l).run es).space n)
    (hp : PagesAvailable ((launched pid l).run es).space n) :
    succeeds (reserveShared n 0) ((launched pid l).run es).space = true := by
  have hinv : Ordered true ((launched pid l).run es) ∧ Framed pid ((launched pid l).run es) :=
    (along_append.mp h).1.invariant (I := fun j => Ordered true j ∧ Framed pid j)
      (fun hj he => ⟨step_ordered hj.1 he.settled, step_framed hj.1 hj.2⟩)
      ⟨ordered_launched, rfl, l.limit_lt⟩
  have hwp := reserveShared_succeeds hinv.1 hinv.2 hpid hn hnext hs hp
  cases hrun : reserveShared n 0 ((launched pid l).run es).space with
  | ok r t => exact succeeds_of_ok hrun
  | error e t => exact (wp_error hwp hrun).elim

/-- A page below the heap is reserved at its address and recycled, and the next request is given it. -/
theorem reserve_succeeds_recycled :
    let es : List Reserve := [.shared 1 0xffff000, .recycle ⟨0xffff000, 100, 1⟩]
    Along RequestBelow (launched 1 smallLaunch) es ∧
      succeeds (reserveShared 1 0) ((launched 1 smallLaunch).run es).space = true ∧
      automatic ((launched 1 smallLaunch).run es) (.shared 1 0) = some (0xffff000, 1) := by
  intro es
  have hbelow : Along RequestBelow (launched 1 smallLaunch) (es ++ []) :=
    ⟨fun _ => by decide, trivial, trivial⟩
  refine ⟨hbelow, reserve_succeeds (by decide) smallLaunch hbelow (by decide) ?_
    (.inl ⟨(100, 1), ?_, Nat.le_refl _⟩)
    (.inl ⟨(0xffff, 1), ?_, 0xffff, Nat.le_refl _, Nat.le_refl _, ?_⟩), ?_⟩ <;> decide +kernel

/-- A page past the limit is reserved at its address and recycled: it is the best fit of every later
request for a page, which fails although the heap is unused. And a reservation in front of the
watermark makes every request fail that does not fit into recycled pages. -/
theorem reserve_blocked :
    let past := ((launched 1 smallLaunch).run
      [.shared 1 0x70000000, .recycle ⟨0x70000000, 100, 1⟩]).space
    let front := ((launched 1 smallLaunch).run [.shared 1 0x10000000]).space
    (SlotsAvailable past 1 ∧ PagesAvailable past 1 ∧ succeeds (reserveShared 1 0) past = false) ∧
      SlotsAvailable front 1 ∧ PagesAvailable front 1 ∧ succeeds (reserveShared 1 0) front = false := by
  refine ⟨⟨.inr ?_, .inr ⟨0x10000000, ?_, ?_, ?_⟩, ?_⟩, .inr ?_, .inr ⟨0x10001000, ?_, ?_, ?_⟩, ?_⟩ <;>
    decide +kernel

end Journal

end Nanami.Process
