import Mathlib

/-!
# Lists of page ranges

A range is a pair of a first page and a page count. `cover l x` counts the ranges of a list that
contain `x`: it is additive over concatenation and blind to permutations, so an operation that
splits, merges or moves ranges is described by what it does to `cover`. A list whose cover is the
indicator of a set is a partition of that set (`isPartition_iff_cover`).
-/

namespace Nanami.Lib
open List

def pagesOf (r : Nat × Nat) : Set Nat := Set.Ico r.1 (r.1 + r.2)

@[simp] lemma mem_pagesOf {r} {x} : x ∈ pagesOf r ↔ r.1 ≤ x ∧ x < r.1 + r.2 := Iff.rfl

/-- The number of ranges of `l` that contain page `x`. -/
def cover (l : List (Nat × Nat)) (x : Nat) : Nat :=
  l.countP fun r => decide (r.1 ≤ x ∧ x < r.1 + r.2)

/-- One if `x` lies in the range, zero if not. -/
def ind (base count x : Nat) : Nat := if base ≤ x ∧ x < base + count then 1 else 0

@[simp] lemma cover_nil {x} : cover [] x = 0 := rfl

@[simp] lemma cover_cons {r l x} : cover (r :: l) x = ind r.1 r.2 x + cover l x := by
  simp only [cover, ind, countP_cons, decide_eq_true_eq]
  omega

@[simp] lemma cover_append {l l' x} : cover (l ++ l') x = cover l x + cover l' x :=
  countP_append

lemma cover_perm {l l'} (p : l.Perm l') (x) : cover l x = cover l' x :=
  p.countP_eq _

lemma cover_pos {l x} : 0 < cover l x ↔ ∃ r ∈ l, x ∈ pagesOf r := by
  simp only [cover, countP_pos_iff, decide_eq_true_eq, mem_pagesOf]

lemma ind_le_one {b c x} : ind b c x ≤ 1 := by
  unfold ind; split <;> omega

lemma ind_eq_one {b c x} : ind b c x = 1 ↔ b ≤ x ∧ x < b + c := by
  unfold ind; split <;> simp_all

@[simp] lemma ind_zero {b x} : ind b 0 x = 0 := by
  unfold ind; split <;> omega

lemma ind_add {b c d x} : ind b (c + d) x = ind b c x + ind (b + c) d x := by
  unfold ind
  split <;> split <;> split <;> omega

lemma ind_cut {start mid stop x} (h : start ≤ mid) (h' : mid ≤ stop) :
    ind start (stop - start) x = ind start (mid - start) x + ind mid (stop - mid) x := by
  rw [show stop - start = (mid - start) + (stop - mid) from by omega, ind_add,
    show start + (mid - start) = mid from by omega]

lemma ind_le_cover {l} {b c x} (h : (b, c) ∈ l) : ind b c x ≤ cover l x := by
  obtain ⟨l1, l2, rfl⟩ := append_of_mem h
  rw [cover_append, cover_cons]
  show ind b c x ≤ cover l1 x + (ind b c x + cover l2 x)
  omega

lemma cover_filter_cons {α κ} [DecidableEq κ] {f : α → κ} {g : α → Nat × Nat} {a : α} {l : List α}
    {k : κ} {x : Nat} :
    cover (((a :: l).filter (f · == k)).map g) x =
      (if f a = k then ind (g a).1 (g a).2 x else 0) +
      cover ((l.filter (f · == k)).map g) x := by
  by_cases hk : f a = k
  · rw [filter_cons_of_pos (by simpa using hk), map_cons, cover_cons, if_pos hk]
  · rw [filter_cons_of_neg (by simpa using hk), if_neg hk, zero_add]

/-- The ranges of `l` are pairwise disjoint and make up exactly `S`. -/
def IsPartition (l : List (Nat × Nat)) (S : Set Nat) : Prop :=
  l.Pairwise (fun r q => Disjoint (pagesOf r) (pagesOf q)) ∧ (⋃ r ∈ l, pagesOf r) = S

lemma pairwise_disjoint_of_cover {l} (h : ∀ x, cover l x ≤ 1) :
    l.Pairwise (fun r q => Disjoint (pagesOf r) (pagesOf q)) := by
  induction l with
  | nil => exact List.Pairwise.nil
  | cons r l ih =>
    apply List.Pairwise.cons
    · intro q hq
      apply Set.disjoint_left.mpr
      intro x hr hx
      have hc := h x
      have h1 : ind r.1 r.2 x = 1 := ind_eq_one.mpr hr
      have h2 : 0 < cover l x := cover_pos.mpr ⟨q, hq, hx⟩
      rw [cover_cons] at hc
      omega
    · apply ih
      intro x
      have hc := h x
      rw [cover_cons] at hc
      omega

lemma cover_le_one_of_pairwise {l} (h : l.Pairwise (fun r q => Disjoint (pagesOf r) (pagesOf q)))
    (x) : cover l x ≤ 1 := by
  induction h with
  | nil => exact Nat.zero_le _
  | @cons r l hr _ ih =>
    rw [cover_cons]
    rcases eq_zero_or_pos (cover l x) with h0 | hpos
    · rw [h0]; exact ind_le_one
    · obtain ⟨q, hq, hx⟩ := cover_pos.mp hpos
      have hnot : x ∉ pagesOf r := fun hxr => Set.disjoint_left.mp (hr q hq) hxr hx
      have h0 : ind r.1 r.2 x = 0 := if_neg hnot
      omega

/-- A list partitions `S` exactly when it covers each page of `S` once and no other page. -/
lemma isPartition_iff_cover {l S} :
    IsPartition l S ↔ (∀ x, cover l x ≤ 1) ∧ ∀ x, 0 < cover l x ↔ x ∈ S := by
  have hu : (⋃ r ∈ l, pagesOf r) = S ↔ ∀ x, 0 < cover l x ↔ x ∈ S := by
    rw [Set.ext_iff]
    apply forall_congr'
    intro x
    rw [cover_pos]
    simp only [Set.mem_iUnion, exists_prop]
  constructor
  · rintro ⟨hd, he⟩
    exact ⟨cover_le_one_of_pairwise hd, hu.mp he⟩
  · rintro ⟨hc, hs⟩
    exact ⟨pairwise_disjoint_of_cover hc, hu.mpr hs⟩

/-- The total page count of a list of ranges below `n` is the sum of its cover. -/
lemma sum_counts_eq_sum_cover {l n} (h : ∀ r ∈ l, r.1 + r.2 ≤ n) :
    (l.map Prod.snd).sum = ∑ x ∈ Finset.range n, cover l x := by
  induction l with
  | nil => simp
  | cons r l ih =>
    have hr : r.1 + r.2 ≤ n := h r mem_cons_self
    have hi : (∑ x ∈ Finset.range n, ind r.1 r.2 x) = r.2 := by
      have e : (Finset.range n).filter (fun x => r.1 ≤ x ∧ x < r.1 + r.2)
          = Finset.Ico r.1 (r.1 + r.2) := by
        ext x
        simp only [Finset.mem_filter, Finset.mem_range, Finset.mem_Ico]
        omega
      simp only [ind]
      rw [← Finset.card_filter, e, Nat.card_Ico]
      omega
    rw [map_cons, sum_cons, ih (fun q hq => h q (mem_cons_of_mem _ hq))]
    simp only [cover_cons]
    rw [Finset.sum_add_distrib, hi]

lemma sum_counts_le {l} (h : ∀ x, cover l x ≤ 1) {n} (hl : ∀ r ∈ l, r.1 + r.2 ≤ n) :
    (l.map Prod.snd).sum ≤ n := by
  rw [sum_counts_eq_sum_cover hl]
  calc ∑ x ∈ Finset.range n, cover l x
      ≤ ∑ _x ∈ Finset.range n, 1 := Finset.sum_le_sum fun x _ => h x
    _ = n := by simp

end Nanami.Lib
