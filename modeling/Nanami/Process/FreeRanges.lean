import Nanami.Lib.Ranges
import Nanami.Lib.SortedMap

/-!
# Free ranges

Model of `FreeRanges` (`process/shared_memory.rs`): ranges of frame slots or of pages that were
given back, kept once by address, to coalesce neighbours, and once by size, to find the best fit.

The two indexes agree, and the ranges are apart from each other (`Valid`), as long as `insert` is
given ranges that are not free yet. The source asserts this in debug builds only, and so does not
check it in the others, which are modelled here: `insert` then leaves overlapping ranges or a stale
entry by size. Each operation is described by what it does to the cover of the ranges
(`insert_spec`, `take_spec`, `exclude_spec`).
-/

namespace Nanami.Process
open Nanami.Lib SortedMap

structure FreeRanges where
  byAddress : SortedMap Nat Nat
  bySize : SortedMap (Nat ×ₗ Nat) Unit
  deriving DecidableEq

namespace FreeRanges

def empty : FreeRanges := ⟨SortedMap.empty, SortedMap.empty⟩

def ranges (f : FreeRanges) : List (Nat × Nat) := f.byAddress.entries

/-- `find`: the first range of the smallest size that is large enough. -/
def find (f : FreeRanges) (count : Nat) : Option Nat :=
  (f.bySize.firstFrom (toLex (count, 0))).map fun e => (ofLex e.1).2

/-- What `remove` does to a range that is there. -/
def drop (f : FreeRanges) (start count : Nat) : FreeRanges :=
  ⟨f.byAddress.erase start, f.bySize.erase (toLex (count, start))⟩

/-- `remove`; without the range it panics. -/
def remove (f : FreeRanges) (start : Nat) : Option (Nat × FreeRanges) :=
  (f.byAddress.get? start).map fun count => (count, f.drop start count)

/-- The first part of `insert`: coalescing with the range before. -/
def mergeBefore (f : FreeRanges) (start count : Nat) : Nat × Nat × FreeRanges :=
  match f.byAddress.before start with
  | none => (start, count, f)
  | some (previous, length) =>
    if previous + length = start then (previous, count + length, f.drop previous length)
    else (start, count, f)

/-- The second part of `insert`: coalescing with the range after. -/
def mergeAfter (f : FreeRanges) (start count : Nat) : Nat × FreeRanges :=
  match f.byAddress.firstFrom start with
  | none => (count, f)
  | some (next, length) =>
    if start + count = next then (count + length, f.drop next length) else (count, f)

/-- The end of `insert`: both indexes get the range. -/
def add (f : FreeRanges) (start count : Nat) : FreeRanges :=
  ⟨f.byAddress.insert start count, f.bySize.insert (toLex (count, start)) ()⟩

def insert (f : FreeRanges) (start count : Nat) : FreeRanges :=
  let (start, count, f) := f.mergeBefore start count
  let (count, f) := f.mergeAfter start count
  f.add start count

/-- `take`: the range at `start` loses its first `count`. -/
def take (f : FreeRanges) (start count : Nat) : Option FreeRanges :=
  (f.remove start).map fun (length, f) =>
    if length > count then f.insert (start + count) (length - count) else f

/-- One round of the loop of `exclude`, on the range it has found. -/
def excludeRound (f : FreeRanges) (start stop base length : Nat) : FreeRanges :=
  let f := f.drop base length
  let f := if base + length > stop then f.insert stop (base + length - stop) else f
  if base < start then f.insert base (start - base) else f

/-- The loop of `exclude`. Each round takes the last range that begins before `stop`, so there are
no more rounds than pages in the range. -/
def excludeFrom (start stop : Nat) : Nat → FreeRanges → Option FreeRanges
  | 0, _ => none
  | fuel + 1, f =>
    match f.byAddress.before stop with
    | none => some f
    | some (base, length) =>
      if base + length ≤ start then some f
      else excludeFrom start stop fuel (f.excludeRound start stop base length)

def exclude (f : FreeRanges) (start count : Nat) : Option FreeRanges :=
  excludeFrom start (start + count) (count + 1) f

/-! ## Ranges that are apart -/

/-- The indexes describe the same ranges, which have no page in common and are not adjacent. -/
structure Valid (f : FreeRanges) : Prop where
  apart : ∀ r ∈ f.ranges, ∀ q ∈ f.ranges, r.1 < q.1 → r.1 + r.2 < q.1
  positive : ∀ r ∈ f.ranges, r.2 ≠ 0
  mirror : ∀ start count,
    (toLex (count, start), ()) ∈ f.bySize.entries ↔ (start, count) ∈ f.ranges

def Clear (f : FreeRanges) (start count : Nat) : Prop :=
  ∀ r ∈ f.ranges, r.1 + r.2 ≤ start ∨ start + count ≤ r.1

instance (f : FreeRanges) (start count : Nat) : Decidable (f.Clear start count) :=
  inferInstanceAs (Decidable (∀ _ ∈ _, _))

variable {f g : FreeRanges} {start count : Nat}

lemma Valid.empty : empty.Valid where
  apart r h := by cases h
  positive r h := by cases h
  mirror start count := by simp [FreeRanges.empty, ranges, SortedMap.empty]

variable {x count' length stop base : Nat} {r : Nat × Nat}

lemma cover_drop (h : (start, count) ∈ f.ranges) :
    cover (f.drop start count).ranges x + ind start count x = cover f.ranges x := by
  rw [ranges, ranges, cover_perm (erase_perm h), cover_cons]
  exact add_comm _ _

lemma mem_drop : r ∈ (f.drop start count).ranges ↔ r ∈ f.ranges ∧ r.1 ≠ start :=
  mem_erase

lemma Valid.drop (h : f.Valid) (hm : (start, count) ∈ f.ranges) : (f.drop start count).Valid where
  apart r hr q hq := h.apart r (mem_drop.mp hr).1 q (mem_drop.mp hq).1
  positive r hr := h.positive r (mem_drop.mp hr).1
  mirror s c := by
    rw [mem_drop, ← h.mirror]
    refine mem_erase.trans (and_congr_right fun hs => not_congr ?_)
    constructor
    · intro heq
      cases heq
      rfl
    · intro heq
      have heq : s = start := heq
      subst heq
      have := entry_unique (m := f.byAddress) ((h.mirror s c).mp hs) hm rfl
      cases this
      rfl

lemma Valid.clear_drop (h : f.Valid) (hm : (base, length) ∈ f.ranges) (hlo : base ≤ start)
    (hhi : start + count ≤ base + length) : (f.drop base length).Clear start count := by
  intro r hr
  obtain ⟨hr, hne⟩ := mem_drop.mp hr
  obtain hlt | hlt := lt_or_gt_of_ne hne
  · exact .inl (le_trans (le_of_lt (h.apart r hr _ hm hlt)) hlo)
  · exact .inr (le_trans hhi (le_of_lt (h.apart _ hm r hr hlt)))

lemma Valid.end_le (h : f.Valid) (hm : (base, length) ∈ f.ranges) (hr : r ∈ f.ranges)
    (hle : r.1 ≤ base) : r.1 + r.2 ≤ base + length := by
  obtain heq | hlt := eq_or_lt_of_le hle
  · rw [entry_unique (m := f.byAddress) hr hm heq]
  · have := h.apart r hr _ hm hlt
    simp only at this
    omega

lemma Valid.cover_le (h : f.Valid) (x : Nat) : cover f.ranges x ≤ 1 := by
  refine cover_le_one_of_pairwise ?_ x
  refine List.Pairwise.imp_of_mem ?_ f.byAddress.sorted
  intro r q hr hq hlt
  have := h.apart r hr q hq hlt
  refine Set.disjoint_left.mpr fun y hy hy' => ?_
  rw [mem_pagesOf] at hy hy'
  omega

lemma clear_of_cover (h : f.Valid) (h0 : count ≠ 0)
    (hc : ∀ x, start ≤ x → x < start + count → cover f.ranges x = 0) : f.Clear start count := by
  intro r hr
  by_contra hmeet
  have hpos := h.positive r hr
  have hzero := hc (max r.1 start) (by omega) (by omega)
  have hone : 0 < cover f.ranges (max r.1 start) :=
    cover_pos.mpr ⟨r, hr, mem_pagesOf.mpr ⟨by omega, by omega⟩⟩
  omega

/-! ## Insertion -/

/-- What the two merges leave: a range that took in its neighbour, and the rest. -/
structure Merged (f g : FreeRanges) (start count start' count' : Nat) : Prop where
  valid : g.Valid
  clear : g.Clear start' count'
  cover : ∀ x, Lib.cover g.ranges x + ind start' count' x = Lib.cover f.ranges x + ind start count x

lemma mergeBefore_spec {start'} (h : f.Valid) (h0 : count ≠ 0) (hc : f.Clear start count)
    (he : f.mergeBefore start count = (start', count', g)) :
    Merged f g start count start' count' ∧ count' ≠ 0 ∧
      ∀ r ∈ g.ranges, r.1 < start' → r.1 + r.2 < start' := by
  rw [mergeBefore] at he
  cases hp : f.byAddress.before start with
  | none =>
    rw [hp] at he
    cases he
    refine ⟨⟨h, hc, fun x => rfl⟩, h0, fun r hr hlt => ?_⟩
    have := before_none hp hr
    omega
  | some e =>
    obtain ⟨previous, length⟩ := e
    obtain ⟨hm, hlt, hlast⟩ := before_some hp
    have hm : (previous, length) ∈ f.ranges := hm
    rw [hp] at he
    simp only at he
    split at he
    · rename_i hadj
      cases he
      refine ⟨⟨h.drop hm, fun r hr => ?_, fun x => ?_⟩, by omega, fun r hr hlt' => ?_⟩
      · have hold := h.clear_drop hm (le_refl _) (le_refl _) r hr
        have hnew := hc r (mem_drop.mp hr).1
        have hpos := h.positive r (mem_drop.mp hr).1
        omega
      · rw [add_comm count length, ind_add, hadj, ← add_assoc, cover_drop hm]
      · obtain ⟨hr, -⟩ := mem_drop.mp hr
        exact h.apart r hr _ hm hlt'
    · rename_i hadj
      cases he
      refine ⟨⟨h, hc, fun x => rfl⟩, h0, fun r hr hlt' => ?_⟩
      have hcp := hc _ hm
      have := h.end_le hm hr (hlast r hr hlt')
      simp only at hcp hlt
      omega

lemma mergeAfter_spec (h : f.Valid) (h0 : count ≠ 0) (hc : f.Clear start count)
    (hb : ∀ r ∈ f.ranges, r.1 < start → r.1 + r.2 < start)
    (he : f.mergeAfter start count = (count', g)) :
    Merged f g start count start count' ∧ count' ≠ 0 ∧
      (∀ r ∈ g.ranges, r.1 < start → r.1 + r.2 < start) ∧
      ∀ r ∈ g.ranges, start ≤ r.1 → start + count' < r.1 := by
  rw [mergeAfter] at he
  cases hn : f.byAddress.firstFrom start with
  | none =>
    rw [hn] at he
    cases he
    refine ⟨⟨h, hc, fun x => rfl⟩, h0, hb, fun r hr hle => ?_⟩
    have := firstFrom_none hn hr
    omega
  | some e =>
    obtain ⟨next, length⟩ := e
    obtain ⟨hm, hle, hfirst⟩ := firstFrom_some hn
    have hm : (next, length) ∈ f.ranges := hm
    have hpos : length ≠ 0 := h.positive _ hm
    rw [hn] at he
    simp only at he
    split at he
    · rename_i hadj
      cases he
      have hafter : ∀ r ∈ (f.drop next length).ranges, start ≤ r.1 → start + (count + length) < r.1 := by
        intro r hr hle'
        obtain ⟨hr, hne⟩ := mem_drop.mp hr
        have hnext : next < r.1 := lt_of_le_of_ne (hfirst r hr hle') (Ne.symm hne)
        have := h.apart _ hm r hr hnext
        simp only at this
        omega
      refine ⟨⟨h.drop hm, fun r hr => ?_, fun x => ?_⟩, by omega, fun r hr => hb r (mem_drop.mp hr).1,
        hafter⟩
      · obtain hlt | hge := lt_or_ge r.1 start
        · have := hb r (mem_drop.mp hr).1 hlt
          omega
        · have := hafter r hr hge
          omega
      · rw [ind_add, hadj, add_comm (ind start count x), ← add_assoc, cover_drop hm]
    · rename_i hadj
      cases he
      refine ⟨⟨h, hc, fun x => rfl⟩, h0, hb, fun r hr hle' => ?_⟩
      have hcr := hc r hr
      have hpr := h.positive r hr
      have hfirst := hfirst r hr hle'
      have hcn := hc _ hm
      simp only at hfirst hcn hle
      omega

lemma ranges_add_perm (hfresh : ∀ r ∈ f.ranges, r.1 ≠ start) :
    (f.add start count).ranges.Perm ((start, count) :: f.ranges) := by
  have hnone : f.byAddress.get? start = none := get?_eq_none.mpr hfresh
  have hp := insert_perm (m := f.byAddress) (k := start) (a := count)
  rw [erase_of_get?_none hnone] at hp
  exact hp

lemma Valid.add (h : f.Valid) (h0 : count ≠ 0)
    (hb : ∀ r ∈ f.ranges, r.1 < start → r.1 + r.2 < start)
    (ha : ∀ r ∈ f.ranges, start ≤ r.1 → start + count < r.1) : (f.add start count).Valid := by
  have hfresh : ∀ r ∈ f.ranges, r.1 ≠ start := by
    intro r hr heq
    have := ha r hr (by omega)
    omega
  have hmem : ∀ {r}, r ∈ (f.add start count).ranges ↔ r = (start, count) ∨ r ∈ f.ranges := fun {r} => by
    rw [(ranges_add_perm hfresh).mem_iff, List.mem_cons]
  constructor
  · intro r hr q hq hlt
    obtain rfl | hr := hmem.mp hr
    · obtain rfl | hq := hmem.mp hq
      · exact absurd hlt (lt_irrefl _)
      · exact ha q hq (le_of_lt hlt)
    · obtain rfl | hq := hmem.mp hq
      · exact hb r hr hlt
      · exact h.apart r hr q hq hlt
  · intro r hr
    obtain rfl | hr := hmem.mp hr
    · exact h0
    · exact h.positive r hr
  · intro s c
    rw [hmem, ← h.mirror]
    refine mem_insert.trans ?_
    constructor
    · rintro (heq | ⟨hs, -⟩)
      · cases heq
        exact .inl rfl
      · exact .inr hs
    · rintro (heq | hs)
      · cases heq
        exact .inl rfl
      · refine .inr ⟨hs, fun heq => ?_⟩
        have hr := (h.mirror s c).mp hs
        have heq : toLex (c, s) = toLex (count, start) := heq
        cases heq
        exact hfresh _ hr rfl

section

variable (h : f.Valid)
include h

lemma insert_spec (h0 : count ≠ 0) (hc : f.Clear start count) :
    (f.insert start count).Valid ∧
      ∀ x, cover (f.insert start count).ranges x = cover f.ranges x + ind start count x := by
  rcases hbefore : f.mergeBefore start count with ⟨start1, count1, f1⟩
  rcases hafter : f1.mergeAfter start1 count1 with ⟨count2, f2⟩
  obtain ⟨hm1, hpos1, hb1⟩ := mergeBefore_spec h h0 hc hbefore
  obtain ⟨hm2, hpos2, hb2, ha2⟩ := mergeAfter_spec hm1.valid hpos1 hm1.clear hb1 hafter
  have heq : f.insert start count = f2.add start1 count2 := by
    rw [insert, hbefore]
    simp only [hafter]
  rw [heq]
  refine ⟨hm2.valid.add hpos2 hb2 ha2, fun x => ?_⟩
  have hperm := @ranges_add_perm f2 start1 count2 (fun r hr heq => by
    have := ha2 r hr (by omega)
    omega)
  rw [cover_perm hperm, cover_cons, add_comm, hm2.cover x, hm1.cover x]

/-! ## Taking and excluding -/

lemma find_some (hf : f.find count = some start) :
    ∃ length, count ≤ length ∧ (start, length) ∈ f.ranges := by
  rw [find, Option.map_eq_some_iff] at hf
  obtain ⟨⟨key, u⟩, hkey, rfl⟩ := hf
  obtain ⟨hm, hle, -⟩ := firstFrom_some hkey
  refine ⟨(ofLex key).1, ?_, (h.mirror _ _).mp hm⟩
  exact Prod.Lex.monotone_fst _ _ hle

lemma find_none (hf : f.find count = none) (hr : r ∈ f.ranges) : r.2 < count := by
  rw [find, Option.map_eq_none_iff] at hf
  have hlt := firstFrom_none hf ((h.mirror r.1 r.2).mpr hr)
  by_contra hge
  refine absurd hlt (not_lt.mpr ?_)
  rw [Prod.Lex.le_iff]
  simp only [ofLex_toLex]
  omega

lemma take_spec (h0 : count ≠ 0) (hm : (start, length) ∈ f.ranges) (hle : count ≤ length) :
    ∃ g, f.take start count = some g ∧ g.Valid ∧
      ∀ x, cover g.ranges x + ind start count x = cover f.ranges x := by
  have hget : f.byAddress.get? start = some length := get?_eq_some.mpr hm
  have hd := h.drop hm
  rw [take, remove, hget]
  simp only [Option.map_some]
  split
  · rename_i hgt
    have hclear : (f.drop start length).Clear (start + count) (length - count) :=
      h.clear_drop hm (by omega) (by omega)
    obtain ⟨hv, hcov⟩ := insert_spec hd (by omega) hclear
    refine ⟨_, rfl, hv, fun x => ?_⟩
    have hcut : ind start length x = ind start count x + ind (start + count) (length - count) x := by
      rw [← ind_add, show count + (length - count) = length from by omega]
    have := cover_drop (x := x) hm
    rw [hcov x]
    omega
  · have heq : length = count := by omega
    subst heq
    exact ⟨_, rfl, hd, fun x => cover_drop hm⟩

lemma insert_side {c} [Decidable c] (h0 : c → count ≠ 0)
    (hc : c → f.Clear start count) (hno : ¬c → count = 0) :
    (if c then f.insert start count else f).Valid ∧
      ∀ x, cover (if c then f.insert start count else f).ranges x =
        cover f.ranges x + ind start count x := by
  split
  · exact insert_spec h (h0 ‹_›) (hc ‹_›)
  · refine ⟨h, fun x => ?_⟩
    rw [hno ‹_›, ind_zero, add_zero]

lemma Valid.cover_after (hb : f.byAddress.before stop = some (base, length))
    (h1 : base + length ≤ x) (h2 : x < stop) : cover f.ranges x = 0 := by
  obtain ⟨hm, -, hlast⟩ := before_some hb
  by_contra hne
  obtain ⟨r, hr, hx⟩ := cover_pos.mp (pos_of_ne_zero hne)
  rw [mem_pagesOf] at hx
  have := h.end_le hm hr (hlast r hr (by omega))
  omega

/-- One round of the loop: the last range loses its pages between `start` and `stop`. -/
lemma exclude_round (hlt : start < stop) (hm : (base, length) ∈ f.ranges)
    (hbase : base < stop) (hend : start < base + length) :
    (f.excludeRound start stop base length).Valid ∧
      ∀ x, cover (f.excludeRound start stop base length).ranges x +
        (if start ≤ x ∧ x < stop then ind base length x else 0) = cover f.ranges x := by
  rw [excludeRound]
  generalize hf1 : f.drop base length = f1
  generalize hf2 : (if base + length > stop then f1.insert stop (base + length - stop) else f1) = f2
  generalize hf3 : (if base < start then f2.insert base (start - base) else f2) = f3
  have hdrop : ∀ x, cover f1.ranges x + ind base length x = cover f.ranges x :=
    fun x => by rw [← hf1]; exact cover_drop hm
  obtain ⟨hv2, hcov2⟩ : f2.Valid ∧ ∀ x, cover f2.ranges x =
      cover f1.ranges x + ind stop (base + length - stop) x := by
    rw [← hf2, ← hf1]
    exact insert_side (h.drop hm) (by omega) (fun _ => h.clear_drop hm (by omega) (by omega)) (by omega)
  obtain ⟨hv3, hcov3⟩ : f3.Valid ∧ ∀ x, cover f3.ranges x =
      cover f2.ranges x + ind base (start - base) x := by
    rw [← hf3]
    refine insert_side hv2 (by omega) (fun hc => ?_) (by omega)
    refine clear_of_cover hv2 (by omega) fun x h1 h2 => ?_
    have hone : ind base length x = 1 := ind_eq_one.mpr ⟨h1, by omega⟩
    have hzero : ind stop (base + length - stop) x = 0 := if_neg (by omega)
    have hle := h.cover_le x
    have := hdrop x
    rw [hcov2]
    omega
  refine ⟨hv3, fun x => ?_⟩
  have hx := hdrop x
  rw [hcov3, hcov2]
  unfold ind at hx ⊢
  split <;> split at hx <;> split <;> (try split) <;> omega

end

/-- The loop of `exclude` ends, and takes out the pages of the range and no others. The pages
between `front` and `stop` are out already. -/
lemma excludeFrom_spec {stop front fuel} (h : f.Valid) (hlt : start < stop)
    (hfront : ∀ x, front ≤ x → x < stop → cover f.ranges x = 0) (hfuel : front < start + fuel)
    (hle : start ≤ front) :
    ∃ g, excludeFrom start stop fuel f = some g ∧ g.Valid ∧
      ∀ x, cover g.ranges x = if start ≤ x ∧ x < stop then 0 else cover f.ranges x := by
  induction fuel generalizing f front with
  | zero => omega
  | succ fuel ih =>
    rw [excludeFrom]
    cases hb : f.byAddress.before stop with
    | none =>
      refine ⟨f, rfl, h, fun x => ?_⟩
      split
      · by_contra hne
        obtain ⟨r, hr, hx⟩ := cover_pos.mp (pos_of_ne_zero hne)
        have := before_none hb hr
        rw [mem_pagesOf] at hx
        omega
      · rfl
    | some e =>
      obtain ⟨base, length⟩ := e
      obtain ⟨hm, hbase, -⟩ := before_some hb
      have hm : (base, length) ∈ f.ranges := hm
      simp only at hbase ⊢
      split
      · refine ⟨f, rfl, h, fun x => ?_⟩
        split
        · exact h.cover_after hb (by omega) (by omega)
        · rfl
      · rename_i hend
        obtain ⟨hv, hcov⟩ := exclude_round h hlt hm hbase (by omega)
        -- the round moves the front down to the range that it took
        have hpos : length ≠ 0 := h.positive _ hm
        obtain ⟨m, h1, h2, h3⟩ : ∃ m, base ≤ m ∧ start ≤ m ∧ (m = base ∨ m = start) :=
          ⟨max base start, le_max_left _ _, le_max_right _ _, by omega⟩
        have hbf : m < front := by
          by_contra hge
          have hz := hfront m (by omega) (by omega)
          have := cover_pos.mpr ⟨_, hm, mem_pagesOf.mpr ⟨h1, show m < base + length by omega⟩⟩
          omega
        have hnext : ∀ x, m ≤ x → x < stop →
            cover (f.excludeRound start stop base length).ranges x = 0 := by
          intro x hx1 hx2
          have hx := hcov x
          rw [if_pos ⟨by omega, hx2⟩] at hx
          by_cases hin : x < base + length
          · have hone : ind base length x = 1 := ind_eq_one.mpr ⟨by omega, hin⟩
            have := h.cover_le x
            omega
          · have := h.cover_after hb (by omega) hx2
            omega
        obtain ⟨g, hg, hgv, hgc⟩ := ih hv hnext (by omega) (by omega)
        refine ⟨g, hg, hgv, fun x => ?_⟩
        rw [hgc]
        have := hcov x
        split
        · rfl
        · rename_i hx
          rw [if_neg hx] at this
          exact this

lemma exclude_spec (h : f.Valid) (h0 : count ≠ 0) :
    ∃ g, f.exclude start count = some g ∧ g.Valid ∧
      ∀ x, cover g.ranges x = if start ≤ x ∧ x < start + count then 0 else cover f.ranges x :=
  @excludeFrom_spec f start (start + count) (start + count) (count + 1) h (by omega)
    (fun x h1 h2 => by omega) (by omega) (by omega)

/-! ## Whole histories -/

/-- Ranges after some calls, with the pages that are free by then. What is given back was not free, and
what is taken was found. -/
inductive History : FreeRanges → Set Nat → Prop
  | empty : History empty ∅
  | insert {f pages start count} (h : History f pages) (h0 : count ≠ 0)
    (hfree : Disjoint (pagesOf (start, count)) pages) :
    History (f.insert start count) (pages ∪ pagesOf (start, count))
  | take {f g pages start count} (h : History f pages) (h0 : count ≠ 0)
    (hfind : f.find count = some start) (htake : f.take start count = some g) :
    History g (pages \ pagesOf (start, count))
  | exclude {f g pages start count} (h : History f pages) (h0 : count ≠ 0)
    (hexclude : f.exclude start count = some g) : History g (pages \ pagesOf (start, count))

variable {pages : Set Nat}

lemma History.valid (h : History f pages) :
    f.Valid ∧ ∀ x, x ∈ pages ↔ 0 < cover f.ranges x := by
  have hind : ∀ {start count x}, x ∈ pagesOf (start, count) ↔ ind start count x = 1 :=
    ind_eq_one.symm
  induction h with
  | empty => exact ⟨.empty, fun x => ⟨fun hx => hx.elim, fun hx => absurd hx (lt_irrefl 0)⟩⟩
  | @insert f pages start count _ h0 hfree ih =>
    have hclear : f.Clear start count := clear_of_cover ih.1 h0 fun x h1 h2 => by
      have := mt (ih.2 x).mpr (Set.disjoint_left.mp hfree ⟨h1, h2⟩)
      omega
    obtain ⟨hvalid, hcover⟩ := insert_spec ih.1 h0 hclear
    refine ⟨hvalid, fun x => ?_⟩
    have : ind start count x ≤ 1 := ind_le_one
    rw [Set.mem_union, ih.2, hcover, hind]
    omega
  | take _ h0 hfind htake ih =>
    obtain ⟨length, hle, hm⟩ := find_some ih.1 hfind
    obtain ⟨g, hg, hvalid, hcover⟩ := take_spec ih.1 h0 hm hle
    cases hg.symm.trans htake
    refine ⟨hvalid, fun x => ?_⟩
    have := ih.1.cover_le x
    have := hcover x
    rw [Set.mem_sdiff, ih.2, hind]
    omega
  | exclude _ h0 hexclude ih =>
    obtain ⟨g, hg, hvalid, hcover⟩ := exclude_spec ih.1 h0
    cases hg.symm.trans hexclude
    refine ⟨hvalid, fun x => ?_⟩
    rw [Set.mem_sdiff, ih.2, hcover, mem_pagesOf]
    split
    · simp_all
    · simp_all

/-- No range is adjacent to another one. -/
lemma Valid.gap (h : f.Valid) (hr : r ∈ f.ranges) (hx : x = r.1 + r.2 ∨ x + 1 = r.1) :
    ¬0 < cover f.ranges x := by
  rw [cover_pos]
  rintro ⟨q, hq, hlo, hhi⟩
  obtain hlt | heq | hgt := lt_trichotomy r.1 q.1
  · have := h.apart r hr q hq hlt
    omega
  · rw [entry_unique (m := f.byAddress) hr hq heq] at hx
    omega
  · have := h.apart q hq r hr hgt
    omega

/-- Free pages in a row are all in one range. -/
lemma Valid.range_of_pages (h : f.Valid) (h0 : count ≠ 0)
    (hfree : ∀ x ∈ pagesOf (start, count), 0 < cover f.ranges x) :
    ∃ r ∈ f.ranges, r.1 ≤ start ∧ start + count ≤ r.1 + r.2 := by
  obtain ⟨r, hr, hstart⟩ := cover_pos.mp (hfree start ⟨le_rfl, by simp only; omega⟩)
  rw [mem_pagesOf] at hstart
  refine ⟨r, hr, hstart.1, ?_⟩
  by_contra hend
  exact h.gap hr (.inl rfl) (hfree _ ⟨hstart.2.le, by simp only; omega⟩)

/-- The rows of free pages that are as long as they can be, by length and then by address, from
`count` pages on. -/
def rows (pages : Set Nat) (count : Nat) : Set (Nat ×ₗ Nat) :=
  {k | count ≤ (ofLex k).1 ∧ pagesOf ((ofLex k).2, (ofLex k).1) ⊆ pages ∧
    (ofLex k).2 + (ofLex k).1 ∉ pages ∧ ∀ x, x + 1 = (ofLex k).2 → x ∉ pages}

lemma History.mem_rows (h : History f pages) (h0 : count ≠ 0) : toLex (length, start) ∈ rows pages count ↔
    count ≤ length ∧ (start, length) ∈ f.ranges := by
  obtain ⟨hvalid, hpages⟩ := h.valid
  have hin : ∀ {r x}, r ∈ f.ranges → x ∈ pagesOf r → x ∈ pages := fun {r x} hr hx =>
    (hpages x).mpr (cover_pos.mpr ⟨r, hr, hx⟩)
  refine and_congr_right fun (hle : count ≤ length) => ⟨?_, fun hm => ?_⟩
  · rintro ⟨hfree : pagesOf (start, length) ⊆ pages, hafter : start + length ∉ pages, hbefore⟩
    obtain ⟨⟨base, size⟩, hr, hlo, hhi⟩ := @Valid.range_of_pages f start length hvalid (by omega)
      fun x hx => (hpages x).mp (hfree hx)
    have hbase : base = start := by
      by_contra hne
      exact hbefore (start - 1) (by simp only [ofLex_toLex]; omega)
        (hin hr (mem_pagesOf.mpr ⟨by omega, by omega⟩))
    have hsize : size = length := by
      by_contra hne
      exact hafter (hin hr (mem_pagesOf.mpr ⟨by omega, by omega⟩))
    rwa [← hbase, ← hsize]
  · exact ⟨fun x => hin hm, mt (hpages _).mp (hvalid.gap hm (.inl rfl)),
      fun x hx => mt (hpages x).mp (hvalid.gap hm (.inr hx))⟩

/-- What the calls do to the free pages, in a state reached by any of them. -/
structure Refines (f : FreeRanges) (pages : Set Nat) : Prop where
  missing : ∀ count, count ≠ 0 → (f.find count = none ↔ ∀ start, ¬pagesOf (start, count) ⊆ pages)
  /-- The best fit, which `take` then accepts. -/
  found : ∀ count start, count ≠ 0 → f.find count = some start →
    (f.take start count).isSome ∧ ∃ length, IsLeast (rows pages count) (toLex (length, start))
  /-- The loop of `exclude` ends. -/
  excluded : ∀ start count, count ≠ 0 → (f.exclude start count).isSome

/-- Whatever calls made the table, it answers as the set of free pages does: a search fails only when
no run is long enough, and finds the best fit. -/
theorem ranges_refine_pages (h : History f pages) : Refines f pages := by
  obtain ⟨hvalid, hpages⟩ := h.valid
  refine ⟨fun count h0 => ⟨fun hnone start hfree => ?_, fun hno => ?_⟩, fun count start h0 hfind => ?_,
    fun start count h0 => ?_⟩
  · obtain ⟨r, hr, hlo, hhi⟩ := hvalid.range_of_pages h0 fun x hx => (hpages x).mp (hfree hx)
    have := find_none hvalid hnone hr
    omega
  · refine Option.eq_none_iff_forall_ne_some.mpr fun start hfind => hno start fun x hx => ?_
    obtain ⟨length, hle, hm⟩ := find_some hvalid hfind
    exact (hpages x).mpr (cover_pos.mpr ⟨_, hm, hx.1, hx.2.trans_le (Nat.add_le_add_left hle start)⟩)
  · obtain ⟨length, hle, hm⟩ := find_some hvalid hfind
    obtain ⟨g, hg, -⟩ := take_spec hvalid h0 hm hle
    rw [find, Option.map_eq_some_iff] at hfind
    obtain ⟨⟨key, u⟩, hkey, rfl⟩ := hfind
    obtain ⟨hkm, hkle, hfirst⟩ := firstFrom_some hkey
    refine ⟨by rw [hg]; rfl, (ofLex key).1, (h.mem_rows h0).mpr
      ⟨Prod.Lex.monotone_fst _ _ hkle, (hvalid.mirror _ _).mp hkm⟩, fun k hk => ?_⟩
    obtain ⟨hkl, hk⟩ := (@History.mem_rows f (ofLex k).2 count (ofLex k).1 pages h h0).mp hk
    refine hfirst _ ((hvalid.mirror _ _).mpr hk) ?_
    rw [Prod.Lex.le_iff]
    simp only [ofLex_toLex]
    omega
  · obtain ⟨g, hg, -⟩ := @exclude_spec f start count hvalid h0
    rw [hg]
    rfl

/-- Two rows of pages, of which the shorter one is taken. -/
theorem ranges_refine_pages_two_rows :
    let f := (empty.insert 0 4).insert 8 2
    f.find 2 = some 8 ∧ Refines f (∅ ∪ pagesOf (0, 4) ∪ pagesOf (8, 2)) := by
  refine ⟨by decide, ranges_refine_pages ?_⟩
  refine (History.empty.insert (by decide) (Set.disjoint_empty _)).insert (by decide) ?_
  refine Set.disjoint_left.mpr fun x hx hx' => ?_
  rw [Set.empty_union, mem_pagesOf] at hx'
  rw [mem_pagesOf] at hx
  omega

end FreeRanges

end Nanami.Process
