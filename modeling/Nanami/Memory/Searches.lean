import Nanami.Memory.ExactRequests

/-!
# The allocator's searches are complete

`allocate_any` and `allocate_aligned_in_range` look at single free blocks. No two free blocks are
buddies, so an aligned block of free pages always lies inside one of them (`Sound.inside`), and neither
search misses memory that is there.

The search in a range computes the end address and the size of each free block. For a block that ends
with the last page of the address space that end is `2 ^ 64`, and the search passes the block over. For
blocks as large as the whole address space the size is `2 ^ 64`, and the search fails where there is a
list for them. A block of the last page alone lies in no range, and no other block is affected.
-/

namespace Nanami.Memory
open Nanami.Lib List Nat BuddyPool Set

/-! ## Aligned free pages lie in one free block -/

namespace BuddyPool

variable {p : BuddyPool} {a b k w : Nat}

lemma buddy_halves (ha : 2 ^ (w + 1) ∣ a) : a ^^^ 2 ^ w = a + 2 ^ w := by
  obtain ⟨m, rfl⟩ := ha
  have e : 2 ^ (w + 1) * m = 2 ^ w * (2 * m) := by ring
  rw [e, xor_two_pow_of_dvd, xor_one_even (Nat.mul_mod_right 2 m)]
  ring

lemma aligned_contains {x} (hwk : w ≤ k) (ha : 2 ^ w ∣ a) (hb : 2 ^ k ∣ b)
    (hx : a ≤ x ∧ x < a + 2 ^ w) (hy : b ≤ x ∧ x < b + 2 ^ k) : b ≤ a ∧ a + 2 ^ w ≤ b + 2 ^ k := by
  have hpow : 2 ^ w ∣ 2 ^ k := pow_dvd_pow 2 hwk
  have hb' : 2 ^ w ∣ b := hpow.trans hb
  refine ⟨Nat.le_of_lt_add_of_dvd (by omega) hb' ha, ?_⟩
  exact Nat.le_of_lt_add_of_dvd (by omega) (ha.add dvd_rfl) (hb'.add hpow)

/-- An aligned block of free pages lies inside one free block. -/
lemma Sound.inside (h : p.Sound) (ha : 2 ^ w ∣ a)
    (hall : ∀ x, a ≤ x → x < a + 2 ^ w → 0 < Lib.cover p.blocks x) :
    ∃ k b, w ≤ k ∧ b ∈ p.listAt k ∧ b ≤ a ∧ a + 2 ^ w ≤ b + 2 ^ k := by
  induction w generalizing a with
  | zero =>
    obtain ⟨r, hr, hx⟩ := cover_pos.mp (hall a (le_refl _) (by omega))
    obtain ⟨k, hk, hc⟩ := mem_blocks.mp hr
    rw [mem_pagesOf] at hx
    exact ⟨k, r.1, Nat.zero_le _, hk, hx.1, by rw [← hc]; omega⟩
  | succ w ih =>
    have hhalf : 2 ^ w ∣ a := (pow_dvd_pow 2 (Nat.le_succ w)).trans ha
    obtain ⟨k, b, hwk, hb, hba, hend⟩ := ih hhalf (fun x h1 h2 => hall x h1 (by omega))
    have halign : ∀ {k b}, b ∈ p.listAt k → 2 ^ k ∣ b := fun hb => h.aligned _ (mem_blocks_iff.mpr hb)
    obtain hlt | heq := lt_or_eq_of_le hwk
    · -- the block of the first half is larger than it, so it holds both halves
      obtain ⟨h1, h2⟩ := aligned_contains (x := a) hlt ha (halign hb) ⟨le_refl _, by omega⟩
        ⟨hba, by omega⟩
      exact ⟨k, b, hlt, hb, h1, h2⟩
    · subst heq
      have hbeq : b = a := by omega
      subst hbeq
      obtain ⟨k', b', hwk', hb', hba', hend'⟩ := ih (a := b + 2 ^ w)
        ((Nat.dvd_add_right hhalf).mpr (Nat.dvd_refl _)) (fun x h1 h2 => hall x (by omega) (by omega))
      obtain hlt' | heq' := lt_or_eq_of_le hwk'
      · obtain ⟨h1, h2⟩ := aligned_contains (x := b + 2 ^ w) hlt' ha (halign hb')
          ⟨by omega, by omega⟩ ⟨hba', by omega⟩
        exact ⟨k', b', hlt', hb', h1, h2⟩
      · -- both halves are free blocks of their own, and buddies
        subst heq'
        have hbeq' : b' = b + 2 ^ w := by omega
        rw [hbeq', ← buddy_halves ha] at hb'
        exact absurd (mem_blocks_iff.mpr hb') (h.coalesced b w (mem_blocks_iff.mpr hb))

end BuddyPool

/-! ## The least aligned address -/

def FoundLeast (S : Set Nat) : Option Nat → Prop
  | none => S = ∅
  | some a => IsLeast S a

lemma FoundLeast.union {S T selected address fits} (hs : FoundLeast S selected)
    (hfits : fits = true → IsLeast T address) (hnone : fits = false → T = ∅) :
    FoundLeast (S ∪ T)
      (if fits && selected.all fun best => address < best then some address else selected) := by
  cases fits with
  | false =>
    rw [hnone rfl, union_empty]
    exact hs
  | true =>
    have hT := hfits rfl
    cases selected with
    | none =>
      have hS : S = ∅ := hs
      rw [hS, empty_union]
      exact hT
    | some best =>
      have hmin : IsLeast (S ∪ T) (min best address) := IsLeast.union hs hT
      by_cases hlt : address < best
      · rw [if_pos (by simpa using hlt)]
        rwa [min_eq_right (le_of_lt hlt)] at hmin
      · rw [if_neg (by simpa using hlt)]
        rwa [min_eq_left (Nat.le_of_not_lt hlt)] at hmin

lemma roundUp_isLeast {k m} (hk : 0 < k) : IsLeast {a | k ∣ a ∧ m ≤ a} ((m + (k - 1)) / k * k) := by
  have hdiv := div_add_mod (m + (k - 1)) k
  have hmod := mod_lt (m + (k - 1)) hk
  rw [mul_comm] at hdiv
  refine ⟨⟨dvd_mul_left _ _, by omega⟩, ?_⟩
  rintro a ⟨hdvd, hle⟩
  exact Nat.le_of_lt_add_of_dvd (by omega) (dvd_mul_left _ _) hdvd

/-- The aligned addresses in the range at which a block of bytes fits into a free block. -/
def candidates (start stop bytes base blockBytes : Nat) : Set Nat :=
  {a | bytes ∣ a ∧ start ≤ a ∧ base ≤ a ∧ a + bytes ≤ stop ∧ a + bytes ≤ base + blockBytes}

/-- A block whose end can be computed, or one without a place in the range. -/
def Seen (start stop bytes page blockBytes : Nat) : Prop :=
  page * pageSize < wordSize ∧ (wordSize ≤ page * pageSize + blockBytes →
    candidates start stop bytes (page * pageSize) blockBytes = ∅)

namespace PhysicalAllocator

/-- The inner loop keeps the least address of the blocks it has seen. -/
lemma selectInList_least {start stop m blockBytes pages selected S} (hm : m ≤ wordBits)
    (hstop : stop < wordSize) (hpages : ∀ page ∈ pages, Seen start stop (2 ^ m) page blockBytes)
    (hs : FoundLeast S selected) :
    FoundLeast (S ∪ {a | ∃ page ∈ pages, a ∈ candidates start stop (2 ^ m) (page * pageSize) blockBytes})
      (selectInList start stop (2 ^ m) blockBytes pages selected) := by
  induction pages generalizing S selected with
  | nil => simpa [selectInList] using hs
  | cons page pages ih =>
    have hpos : 0 < 2 ^ m := Nat.two_pow_pos m
    obtain ⟨hpage, hover⟩ := hpages page mem_cons_self
    have hbase : wrappingShl page pageBits = page * pageSize := wrappingShl_page hpage
    have hsplit : {a | ∃ q ∈ page :: pages, a ∈ candidates start stop (2 ^ m) (q * pageSize) blockBytes} =
        candidates start stop (2 ^ m) (page * pageSize) blockBytes ∪
          {a | ∃ q ∈ pages, a ∈ candidates start stop (2 ^ m) (q * pageSize) blockBytes} := by
      ext a
      simp
    rw [hsplit, ← union_assoc]
    refine ih (fun q hq => hpages q (mem_cons_of_mem _ hq)) ?_
    simp only [hbase]
    cases hend : checkedAdd (page * pageSize) blockBytes with
    | none =>
      have hge : wordSize ≤ page * pageSize + blockBytes := by
        by_contra hlt
        rw [checkedAdd_of_lt (by omega)] at hend
        cases hend
      rw [hover hge, union_empty]
      exact hs
    | some blockEnd =>
      obtain ⟨rfl, -⟩ := checkedAdd_eq_some.mp hend
      simp only
      cases hval : checkedAdd (max (page * pageSize) start) (2 ^ m - 1) with
      | none =>
        -- the first aligned address, if there is one, is past the end of the range
        have hempty : candidates start stop (2 ^ m) (page * pageSize) blockBytes = ∅ := by
          refine eq_empty_of_forall_notMem fun a ha => ?_
          obtain ⟨-, h1, h2, h3, -⟩ := ha
          rw [checkedAdd_of_lt (by omega)] at hval
          cases hval
        rw [hempty, union_empty]
        exact hs
      | some value =>
        obtain ⟨rfl, hlt⟩ := checkedAdd_eq_some.mp hval
        simp only
        rw [and_complement_mask hlt hm, any_checkedAdd_le (by omega)]
        obtain ⟨⟨hdvd, hge⟩, hleast⟩ := roundUp_isLeast (m := max (page * pageSize) start) hpos
        refine hs.union (fun hfits => ⟨?_, ?_⟩) (fun hfits => ?_)
        · have hle := of_decide_eq_true hfits
          exact ⟨hdvd, by omega, by omega, by omega, by omega⟩
        · rintro a ⟨h1, h2, h3, -, -⟩
          exact hleast ⟨h1, by omega⟩
        · refine eq_empty_of_forall_notMem fun a ha => ?_
          obtain ⟨h1, h2, h3, h4, h5⟩ := ha
          have hle := hleast (show a ∈ {a | 2 ^ m ∣ a ∧ _ ≤ a} from ⟨h1, by omega⟩)
          have hno := of_decide_eq_false hfits
          omega

/-- The outer loop keeps the least address of the lists it has seen, and never fails. -/
lemma selectFrom_least {start stop m order lists selected S} (hm : m ≤ wordBits)
    (hstop : stop < wordSize) (horder : order + lists.length ≤ wordBits - pageBits)
    (hpages : ∀ i l, lists[i]? = some l → ∀ page ∈ l,
      Seen start stop (2 ^ m) page (2 ^ (order + i) * pageSize)) (hs : FoundLeast S selected) :
    ∃ found, selectFrom start stop (2 ^ m) lists order selected = .ok found ∧
      FoundLeast (S ∪ {a | ∃ i l, lists[i]? = some l ∧ ∃ page ∈ l,
        a ∈ candidates start stop (2 ^ m) (page * pageSize) (2 ^ (order + i) * pageSize)}) found := by
  induction lists generalizing order S selected with
  | nil => exact ⟨selected, rfl, by simpa using hs⟩
  | cons list lists ih =>
    rw [length_cons] at horder
    have hw : order < wordBits := by omega
    have hmul : 2 ^ order * pageSize < wordSize := by
      rw [pageSize, ← pow_add]
      refine Nat.pow_lt_pow_right (by omega) ?_
      omega
    have hlist := @selectInList_least start stop m (2 ^ order * pageSize) list selected S hm hstop
      (hpages 0 list rfl) hs
    obtain ⟨found, hfound, hleast⟩ := @ih (order + 1) _ _ (by omega) (fun i l hl page hp => by
      have := hpages (i + 1) l hl page hp
      rwa [show order + (i + 1) = order + 1 + i from by omega] at this) hlist
    refine ⟨found, ?_, ?_⟩
    · rw [selectFrom, blockPages_of_lt hw]
      simp only [checkedMul, if_pos hmul]
      exact hfound
    · convert hleast using 1
      rw [union_assoc]
      congr 1
      ext a
      constructor
      · rintro ⟨_ | i, l, hl, page, hp, ha⟩
        · cases hl
          exact .inl ⟨page, hp, ha⟩
        · refine .inr ⟨i, l, hl, page, hp, ?_⟩
          rwa [show order + 1 + i = order + (i + 1) from by omega]
      · rintro (⟨page, hp, ha⟩ | ⟨i, l, hl, page, hp, ha⟩)
        · exact ⟨0, list, rfl, page, hp, ha⟩
        · refine ⟨i + 1, l, hl, page, hp, ?_⟩
          rwa [show order + 1 + i = order + (i + 1) from by omega] at ha

/-! ## Searches in a coalesced pool -/

def alignedFree (s : PhysicalAllocator) (start stop bytes : Nat) : Set Nat :=
  {a | bytes ∣ a ∧ start ≤ a ∧ a + bytes ≤ stop ∧ bytePages a bytes ⊆ s.freePages false}

def freeBlocks (s : PhysicalAllocator) (k : Nat) : Set Nat :=
  {b | 2 ^ k ∣ b ∧ ∀ x, b ≤ x → x < b + 2 ^ k → x ∈ s.freePages false}

variable {s : PhysicalAllocator} {start stop w size : Nat}

lemma mem_listAt_of_drop {p : BuddyPool} {i l page} (hl : (p.freeLists.drop w)[i]? = some l)
    (hp : page ∈ l) : page ∈ p.listAt (w + i) := by
  rw [getElem?_drop] at hl
  rw [listAt, hl]
  exact hp

/-- Where free blocks are coalesced, looking into the single blocks finds every aligned block. -/
lemma candidates_eq (h : s.normal.Sound) :
    {a | ∃ i l, (s.normal.freeLists.drop w)[i]? = some l ∧ ∃ page ∈ l,
      a ∈ candidates start stop (2 ^ w * pageSize) (page * pageSize) (2 ^ (w + i) * pageSize)} =
      s.alignedFree start stop (2 ^ w * pageSize) := by
  have hpos : 0 < pageSize := by decide
  ext a
  constructor
  · rintro ⟨i, l, hl, page, hp, hdvd, hstart, hbase, hstop, hend⟩
    refine ⟨hdvd, hstart, hstop, fun x hx => ?_⟩
    obtain ⟨h1, h2⟩ := hx
    refine block_free (mem_listAt_of_drop hl hp) (Nat.lt_succ_iff.mp ?_) ?_
    · exact Nat.lt_of_mul_lt_mul_right (Nat.lt_of_le_of_lt hbase h2)
    · refine Nat.lt_of_mul_lt_mul_right (a := pageSize) ?_
      rw [add_mul]
      omega
  · rintro ⟨hdvd, hstart, hstop, hfree⟩
    obtain ⟨c, rfl⟩ := hdvd
    rw [mul_right_comm] at hstart hstop hfree ⊢
    have hall : ∀ x, 2 ^ w * c ≤ x → x < 2 ^ w * c + 2 ^ w → 0 < Lib.cover s.normal.blocks x := by
      intro x h1 h2
      refine mem_freePages.mp (hfree ⟨?_, ?_⟩)
      · rw [← add_mul]
        exact mul_lt_mul_of_pos_right h2 hpos
      · exact mul_lt_mul_of_pos_right (lt_succ_of_le h1) hpos
    obtain ⟨k, b, hwk, hb, hle, hend⟩ := h.inside (dvd_mul_right _ _) hall
    obtain ⟨i, rfl⟩ : ∃ i, k = w + i := ⟨k - w, by omega⟩
    obtain ⟨index, hi⟩ := mem_iff_getElem?.mp hb
    have hlt := lt_length_of_listAt hi
    refine ⟨i, s.normal.listAt (w + i), ?_, b, hb, ⟨c, ?_⟩, hstart, ?_, hstop, ?_⟩
    · rw [getElem?_drop, listAt_eq hlt, getElem?_eq_getElem hlt]
    · exact mul_right_comm _ _ _
    · exact mul_le_mul_right _ hle
    · rw [← add_mul, ← add_mul]
      exact mul_le_mul_right _ hend

/-- The last two pages of the address space are not both free, and there is no list for blocks of the
size of the address space. -/
def EndsBeforeLast (s : PhysicalAllocator) : Prop :=
  (maxPages - 2 ∈ s.freePages false → maxPages - 1 ∉ s.freePages false) ∧
    s.normal.freeLists.length ≤ wordBits - pageBits

/-- A block that ends with the last page is that page alone, which lies in no range. -/
lemma block_seen (h : s.normal.Sound) (hlast : s.EndsBeforeLast) (hstop : stop < wordSize) {i l}
    (hl : (s.normal.freeLists.drop w)[i]? = some l) {page} (hp : page ∈ l) :
    Seen start stop (2 ^ w * pageSize) page (2 ^ (w + i) * pageSize) := by
  have hblock := mem_listAt_of_drop hl hp
  have hin : page + 2 ^ (w + i) ≤ maxPages := h.bounded _ (mem_blocks_iff.mpr hblock)
  have hpos := Nat.two_pow_pos (w + i)
  have hword : maxPages * pageSize = wordSize := by decide
  have hsize : 0 < pageSize := by decide
  refine ⟨hword ▸ mul_lt_mul_of_pos_right (by omega) hsize, fun hover => ?_⟩
  rw [← add_mul, ← hword] at hover
  have hge : maxPages ≤ page + 2 ^ (w + i) := Nat.le_of_mul_le_mul_right hover hsize
  have hone : 2 ^ (w + i) = 1 := by
    by_contra hne
    exact hlast.1 (block_free hblock (by omega) (by omega)) (block_free hblock (by omega) (by omega))
  refine eq_empty_of_forall_notMem fun a ha => ?_
  obtain ⟨-, -, hbase, hend, -⟩ := ha
  have hw : pageSize ≤ 2 ^ w * pageSize := Nat.le_mul_of_pos_left _ (Nat.two_pow_pos w)
  have hpage : page * pageSize + pageSize = wordSize := by
    rw [← hword, ← add_one_mul, show page + 1 = maxPages from by omega]
  omega

/-- `allocate_aligned_in_range` takes the lowest aligned block of free pages in the range, and fails
only when there is none. -/
lemma allocateAlignedInRange_least {s start stop w} (h : s.Valid) (hlast : s.EndsBeforeLast)
    (hstop : stop < wordSize) (hw : 2 ^ w * pageSize < wordSize) :
    wp (allocateAlignedInRange start stop (2 ^ w * pageSize))
      (fun a _ => IsLeast (s.alignedFree start stop (2 ^ w * pageSize)) (a.basePage * pageSize) ∧
        a.pageCount = 2 ^ w ∧ a.isDevice = false)
      (fun _ t => t = s ∧ s.alignedFree start stop (2 ^ w * pageSize) = ∅) s := by
  have hpow : 2 ^ w * pageSize = 2 ^ (w + pageBits) := by rw [pageSize, pow_add]
  have hone : 1 ≤ 2 ^ w := Nat.one_le_two_pow
  have hpage : pageSize ≤ 2 ^ w * pageSize := Nat.le_mul_of_pos_left _ hone
  have hpos : 0 < pageSize := by decide
  have hwb : w + pageBits < wordBits := by
    rw [hpow] at hw
    exact (Nat.pow_lt_pow_iff_right (by omega)).mp hw
  refine wp_ite (fun hargs => ⟨rfl, ?_⟩) (fun _ => ?_)
  · -- the size is a power of two of at least a page, so it is the range that is empty
    have hge : stop ≤ start := by
      have hp2 : isPowerOfTwo (2 ^ w * pageSize) = true := by
        rw [hpow, isPowerOfTwo, log2_two_pow, beq_self_eq_true]
      simpa [hp2, Nat.not_lt.mpr hpage] using hargs
    refine eq_empty_of_forall_notMem fun a ha => ?_
    obtain ⟨-, h1, h2, -⟩ := ha
    omega
  have horder : Nat.log2 ((2 ^ w * pageSize) >>> pageBits) = w := by
    rw [shiftRight_page, log2_two_pow]
  simp only [horder, wp_bind, wp_get]
  have hshort := hlast.2
  obtain ⟨found, hfound, hleast⟩ := @selectFrom_least start stop (w + pageBits) w
    (s.normal.freeLists.drop w) none ∅ (by omega) hstop (by rw [length_drop]; omega)
    (fun i l hl page hp => hpow ▸ block_seen (h.sound false) hlast hstop hl hp) rfl
  rw [← hpow] at hfound hleast
  rw [empty_union, candidates_eq (h.sound false)] at hleast
  rw [hfound, fromResult_ok]
  refine wp_okOr (fun address hsel => ?_) (fun hsel => ?_)
  · rw [hsel] at hleast
    have hmem := hleast.1
    obtain ⟨hdvd, -, -, hfree⟩ := hmem
    have hal : address % pageSize = 0 :=
      mod_eq_zero_of_dvd ((dvd_mul_left _ _).trans hdvd)
    have hcount : bytesToPages (2 ^ w * pageSize) = 2 ^ w :=
      bytesToPages_mul (Nat.pow_lt_pow_right (by omega) (by omega))
    have hroom : 2 ^ w * pageSize + (pageSize - 1) < wordSize := by
      have hle : 2 ^ w * pageSize ≤ 2 ^ (wordBits - 1) := by
        rw [hpow]
        exact Nat.pow_le_pow_right (by omega) (by omega)
      have hsum : 2 ^ (wordBits - 1) + (pageSize - 1) < wordSize := by decide
      omega
    refine wp_mono (allocateAt_iff h) ?_ ?_
    · rintro a t ⟨-, hb, hc, -, -, -, hdev⟩
      refine ⟨?_, hc.trans hcount, ?_⟩
      · rw [hb, shiftRight_of_dvd (dvd_of_mod_eq_zero hal)]
        exact hleast
      · cases hd : a.isDevice with
        | false => rfl
        | true => exact absurd (hdev hd) (by decide)
    · rintro e t ⟨-, hno⟩
      have hne : 2 ^ w * pageSize ≠ 0 := by omega
      have := (hno (isPageAligned_iff.mpr hal) hne).1
      rw [holds_iff_bytePages hal hne hroom] at this
      exact absurd hfree this
  · rw [hsel] at hleast
    exact ⟨rfl, hleast⟩

lemma ceilLog2_eq {n} (h0 : n ≠ 0) (hn : n < wordSize) : ceilLog2 n = some (Nat.clog 2 n) := by
  rw [ceilLog2, floorLog2, if_neg h0]
  simp only
  split
  · rename_i hp
    rw [isPowerOfTwo, beq_iff_eq] at hp
    rw [← hp, log2_two_pow, clog_pow 2 _ (by omega)]
  · rename_i hp
    rw [isPowerOfTwo, beq_iff_eq] at hp
    have hlog := log2_lt_wordBits h0 hn
    have hwb : wordBits < wordSize := by decide
    rw [checkedAdd_of_lt (by omega)]
    congr 1
    apply le_antisymm
    · have hlt : 2 ^ Nat.log2 n < n := lt_of_le_of_ne (log2_self_le h0) hp
      exact (lt_clog_iff_pow_lt (by omega)).mpr hlt
    · exact clog_le_of_le_pow (le_of_lt lt_log2_self)

/-- `find_first_fit` finds a block of the order asked for or a larger one, if there is any. -/
lemma findFirstFit_spec {p : BuddyPool} {n} (h0 : n ≠ 0) (hn : n < wordSize) :
    (∃ b k, p.findFirstFit n = some b ∧ Nat.clog 2 n ≤ k ∧ b ∈ p.listAt k) ∨
      p.findFirstFit n = none ∧ ∀ k, Nat.clog 2 n ≤ k → p.listAt k = [] := by
  rw [findFirstFit, if_neg h0, ceilLog2_eq h0 hn]
  simp only
  cases hf : (p.freeLists.drop (Nat.clog 2 n)).findSome? List.head? with
  | some b =>
    obtain ⟨l, hl, hhead⟩ := exists_of_findSome?_eq_some hf
    obtain ⟨i, hi⟩ := mem_iff_getElem?.mp hl
    exact .inl ⟨b, Nat.clog 2 n + i, rfl, le_add_right _ _,
      mem_listAt_of_drop hi (mem_of_head? hhead)⟩
  | none =>
    rw [findSome?_eq_none_iff] at hf
    refine .inr ⟨rfl, fun k hk => ?_⟩
    rw [listAt]
    cases hl : p.freeLists[k]? with
    | none => rfl
    | some l =>
      refine head?_eq_none_iff.mp (hf l ?_)
      refine mem_iff_getElem?.mpr ⟨k - Nat.clog 2 n, ?_⟩
      rw [getElem?_drop, show Nat.clog 2 n + (k - Nat.clog 2 n) = k from by omega, hl]

/-- `allocate_any` fails only when there is no aligned block of free pages that is large enough. -/
lemma allocateAny_iff (h : s.Valid) (h0 : size ≠ 0) (hn : bytesToPages size ≠ 0) :
    wp (allocateAny size) (fun _ _ => (s.freeBlocks (Nat.clog 2 (bytesToPages size))).Nonempty)
      (fun _ t => t = s ∧ s.freeBlocks (Nat.clog 2 (bytesToPages size)) = ∅) s := by
  have hlt : bytesToPages size < maxPages := bytesToPages_lt
  have hword := maxPages_lt
  unfold allocateAny
  rw [if_neg h0]
  simp only [wp_bind, wp_get]
  rcases @findFirstFit_spec s.normal (bytesToPages size) hn (by omega) with
    ⟨b, k, hfit, hk, hb⟩ | ⟨hfit, hempty⟩
  · rw [hfit, okOr_some, wp_pure]
    have hmem : (b, 2 ^ k) ∈ s.normal.blocks := mem_blocks_iff.mpr hb
    have hin : b + 2 ^ k ≤ maxPages := (h.sound false).bounded _ hmem
    have hmax : b * pageSize < wordSize := by
      have hlast : b ≤ maxPages - 1 := by
        have := Nat.two_pow_pos k
        omega
      exact lt_of_le_of_lt (mul_le_mul_right _ hlast) (by decide)
    have hle : bytesToPages size ≤ 2 ^ k :=
      (le_pow_clog (by omega) _).trans (Nat.pow_le_pow_right (by omega) hk)
    refine wp_mono (allocateAt_iff h) (fun _ _ _ => ⟨b, ?_, fun x h1 h2 => ?_⟩) ?_
    · exact (pow_dvd_pow 2 hk).trans ((h.sound false).aligned _ hmem)
    · have := Nat.pow_le_pow_right (show 0 < 2 by omega) hk
      exact block_free hb h1 (by omega)
    · rintro e t ⟨-, hno⟩
      rw [wrappingShl_page hmax, bytesToPages_shl hlt] at hno
      have hsz : wrappingShl (bytesToPages size) pageBits ≠ 0 := by
        intro hzero
        rw [← bytesToPages_shl hlt, hzero] at hn
        exact hn (by decide)
      have hbad := (hno (isPageAligned_iff.mpr (mul_mod_left _ _)) hsz).1
      rw [shiftRight_page] at hbad
      refine absurd ⟨hn, fun x h1 h2 => ?_⟩ hbad
      exact mem_freePages.mp (block_free hb h1 (by omega))
  · rw [hfit, okOr_none]
    refine ⟨rfl, eq_empty_of_forall_notMem fun b hb => ?_⟩
    obtain ⟨hdvd, hall⟩ := hb
    obtain ⟨k, b', hk, hmem, -⟩ := (h.sound false).inside hdvd
      (fun x h1 h2 => mem_freePages.mp (hall x h1 h2))
    have hnil : (s.pool false).listAt k = [] := hempty k hk
    rw [hnil] at hmem
    cases hmem

/-! ## Every state -/

/-- No two free blocks are buddies, and the two searches find what there is; the search in a range
does where no block of several pages ends with the last page. -/
structure Complete (s : PhysicalAllocator) : Prop where
  coalesced : ∀ d k, ∀ b ∈ (s.pool d).listAt k, b ^^^ 2 ^ k ∉ (s.pool d).listAt k
  anywhere : ∀ size : UInt64, bytesToPages size.toNat ≠ 0 →
    (succeeds (allocateAny size.toNat) s = true ↔
      (s.freeBlocks (Nat.clog 2 (bytesToPages size.toNat))).Nonempty)
  inRange : s.EndsBeforeLast → ∀ start stop bytes : UInt64, pageSize ≤ bytes.toNat →
    isPowerOfTwo bytes.toNat = true →
    (succeeds (allocateAlignedInRange start.toNat stop.toNat bytes.toNat) s = true ↔
      (s.alignedFree start.toNat stop.toNat bytes.toNat).Nonempty) ∧
    ∀ {a t}, allocateAlignedInRange start.toNat stop.toNat bytes.toNat s = .ok a t →
      IsLeast (s.alignedFree start.toNat stop.toNat bytes.toNat) (a.basePage * pageSize) ∧
        a.pageCount * pageSize = bytes.toNat ∧ a.isDevice = false

/-- A power of two that is not below the page size is a number of pages. -/
lemma pages_of_isPowerOfTwo {bytes} (hge : pageSize ≤ bytes) (hpow : isPowerOfTwo bytes = true) :
    ∃ w, bytes = 2 ^ w * pageSize := by
  rw [isPowerOfTwo, beq_iff_eq] at hpow
  have hlog : pageBits ≤ Nat.log2 bytes := by
    refine (le_log2 ?_).mpr hge
    have : 0 < pageSize := by decide
    omega
  refine ⟨Nat.log2 bytes - pageBits, ?_⟩
  rw [pageSize, ← Nat.pow_add, Nat.sub_add_cancel hlog, hpow]

/-- From regions that do not overlap, every state is coalesced and `allocate_any` is complete. The
search in a range is complete in every state in which no end of a free block overflows. -/
theorem searches_complete {regions : List Region} (hfits : ∀ r ∈ regions, r.Fits)
    (hdisj : regions.Pairwise fun r q => Disjoint (pagesOf r.extent) (pagesOf q.extent))
    (ops : List AllocOp) : Complete ((addRegions regions).run ops) := by
  have hvalid := (run_keeps (addRegions_valid hfits hdisj).1 ops).valid
  generalize (addRegions regions).run ops = s at hvalid ⊢
  refine ⟨fun d k b hb hbuddy => ?_, fun size hn => ?_, fun hlast start stop bytes hge hpow => ?_⟩
  · exact (hvalid.sound d).coalesced b k (mem_blocks_iff.mpr hb) (mem_blocks_iff.mpr hbuddy)
  · have h0 : size.toNat ≠ 0 := by
      intro h0
      rw [h0] at hn
      exact hn (by decide)
    refine succeeds_iff_of_wp (wp_mono (allocateAny_iff hvalid h0 hn) (fun _ _ hok => hok) fun _ _ hno => ?_)
    exact not_nonempty_iff_eq_empty.mpr hno.2
  · obtain ⟨w, hw⟩ := pages_of_isPowerOfTwo hge hpow
    have hspec := @allocateAlignedInRange_least s start.toNat stop.toNat w hvalid hlast stop.toNat_lt
      (hw ▸ bytes.toNat_lt)
    rw [hw]
    refine ⟨succeeds_iff_of_wp (wp_mono hspec (fun _ _ hok => ⟨_, hok.1.1⟩) fun _ _ hno => ?_), ?_⟩
    · exact not_nonempty_iff_eq_empty.mpr hno.2
    · intro a t hrun
      obtain ⟨hleast, hcount, hdev⟩ := wp_ok hspec hrun
      exact ⟨hleast, by rw [hcount], hdev⟩

/-- Three pages, one of them taken. -/
theorem searches_complete_three_pages :
    let regions : List Region := [⟨0x1000, 0x3000, false, false⟩]
    let s := (addRegions regions).run [.allocateAny 0x1000]
    (∀ r ∈ regions, r.Fits) ∧ s.EndsBeforeLast ∧ Complete s := by
  have hfits : ∀ r ∈ ([⟨0x1000, 0x3000, false, false⟩] : List Region), r.Fits := by decide
  refine ⟨hfits, ⟨fun _ => ?_, by decide +kernel⟩, searches_complete hfits (pairwise_singleton _ _) _⟩
  rw [mem_freePages]
  decide +kernel

def lastPages : List Region := [⟨0xFFFFFFFFFFFFE000, 0x1FFF, false, false⟩]

/-- The search in a range passes over a free block that ends with the last page, although the page
it begins with lies in the range. -/
theorem search_misses_last_block :
    (∀ r ∈ lastPages, r.Fits) ∧
      0xFFFFFFFFFFFFE000 ∈ (addRegions lastPages).alignedFree 0 0xFFFFFFFFFFFFFFFF 0x1000 ∧
      succeeds (allocateAlignedInRange 0 0xFFFFFFFFFFFFFFFF 0x1000) (addRegions lastPages) = false := by
  refine ⟨by decide, ⟨by decide, by decide, by decide, fun x hx => ?_⟩, by decide +kernel⟩
  obtain ⟨h1, h2⟩ := hx
  have hblock : 2 ^ 52 - 2 ∈ (addRegions lastPages).normal.listAt 1 := by decide +kernel
  simp only [pageSize, pageBits] at h1 h2
  exact block_free hblock (by omega) (by omega)

end PhysicalAllocator

end Nanami.Memory
