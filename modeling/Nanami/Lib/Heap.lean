import Mathlib

/-!
# Binary heaps

The cells `0`, …, `n - 1` of an array as a tree: the children of cell `i` are the cells `2 * i + 1`
and `2 * i + 2`. An entry that is out of place is exchanged with its parent or with its smaller
child until it is in order.
-/

namespace Nanami.Lib.Heap

open Function

variable {α κ : Type} [LinearOrder κ] (key : α → κ)

def parent (i : Nat) : Nat := (i - 1) / 2

def swap (e : Nat → α) (i j : Nat) : Nat → α := e ∘ Equiv.swap i j

def siftUp (e : Nat → α) (i : Nat) : Nat → α :=
  if i = 0 then e
  else if key (e (parent i)) ≤ key (e i) then e
  else siftUp (swap e (parent i) i) (parent i)
termination_by i
decreasing_by unfold parent; omega

/-- The smaller child, or the left one. -/
def child (e : Nat → α) (n i : Nat) : Nat :=
  if 2 * i + 2 < n ∧ key (e (2 * i + 2)) < key (e (2 * i + 1)) then 2 * i + 2 else 2 * i + 1

def siftDown (e : Nat → α) (n i : Nat) : Nat → α :=
  if 2 * i + 1 < n then
    if key (e i) ≤ key (e (child key e n i)) then e
    else siftDown (swap e i (child key e n i)) n (child key e n i)
  else e
termination_by n - i
decreasing_by unfold child; split <;> omega

/-- Every inner cell, the last one first. -/
def heapify (e : Nat → α) (n : Nat) : Nat → α :=
  (List.range (n / 2)).foldr (fun i e => siftDown key e n i) e

def contents (e : Nat → α) (n : Nat) : Multiset α := (Multiset.range n).map e

/-- From cell `k` on, no entry is smaller than its parent. -/
def Ordered (e : Nat → α) (n k : Nat) : Prop :=
  ∀ j, 0 < j → j < n → k ≤ parent j → key (e (parent j)) ≤ key (e j)

/-- Only the entry in cell `i` may be out of place. -/
structure Around (e : Nat → α) (n k i : Nat) : Prop where
  other : ∀ j, 0 < j → j < n → k ≤ parent j → j ≠ i → parent j ≠ i → key (e (parent j)) ≤ key (e j)
  below : ∀ j, 0 < j → j < n → parent j = i → 0 < i → k ≤ parent i → key (e (parent i)) ≤ key (e j)

variable {key} {e e' : Nat → α} {n m i j k : Nat} {a : α}

lemma parent_lt (h : 0 < i) : parent i < i := by
  unfold parent
  omega

lemma swap_apply {x} : swap e i j x = if x = i then e j else if x = j then e i else e x := by
  rw [swap, comp_apply, Equiv.swap_apply_def]
  split_ifs <;> rfl

/-! ### Contents -/

lemma mem_contents : a ∈ contents e n ↔ ∃ j < n, e j = a := by
  simp [contents]

lemma contents_congr (h : ∀ j < n, e j = e' j) : contents e n = contents e' n :=
  Multiset.map_congr rfl fun j hj => h j (Multiset.mem_range.mp hj)

lemma contents_succ : contents e (n + 1) = e n ::ₘ contents e n := by
  rw [contents, Multiset.range_succ, Multiset.map_cons, contents]

lemma contents_push : contents (update e n a) (n + 1) = a ::ₘ contents e n := by
  rw [contents_succ, update_self]
  exact congrArg _ (contents_congr fun j hj => update_of_ne hj.ne _ _)

lemma contents_swap (hi : i < n) (hj : j < n) : contents (swap e i j) n = contents e n := by
  have hlt : ∀ x < n, Equiv.swap i j x < n := fun x hx => by
    rw [Equiv.swap_apply_def]
    split_ifs <;> assumption
  have hrange : (Multiset.range n).map (Equiv.swap i j) = Multiset.range n := by
    rw [((Multiset.nodup_range n).map (Equiv.swap i j).injective).ext (Multiset.nodup_range n)]
    intro x
    simp only [Multiset.mem_map, Multiset.mem_range]
    exact ⟨fun ⟨y, hy, heq⟩ => heq ▸ hlt y hy, fun hx => ⟨_, hlt x hx, Equiv.swap_apply_self i j x⟩⟩
  rw [contents, contents, swap, ← Multiset.map_map, hrange]

/-- The last entry takes the place of one that is taken out. -/
lemma contents_remove (hi : i ≤ n) :
    e i ::ₘ contents (update e i (e n)) n = contents e (n + 1) := by
  rw [← contents_swap (Nat.lt_succ_of_le hi) (Nat.lt_succ_self n), contents_succ, swap_apply]
  congr 1
  · split_ifs with h <;> simp_all
  · refine contents_congr fun j hj => ?_
    rw [swap_apply, update_apply, if_neg hj.ne]

lemma contents_siftUp (hi : i < n) : contents (siftUp key e i) n = contents e n := by
  fun_induction siftUp key e i with
  | case1 | case2 => rfl
  | case3 e i h0 _ ih =>
    have hparent := parent_lt (Nat.pos_of_ne_zero h0)
    rw [ih (by omega), contents_swap (by omega) hi]

lemma child_spec (h : 2 * i + 1 < n) : 0 < child key e n i ∧ child key e n i < n ∧
    parent (child key e n i) = i ∧
      ∀ j, 0 < j → j < n → parent j = i → key (e (child key e n i)) ≤ key (e j) := by
  have hcases : ∀ j, 0 < j → parent j = i → j = 2 * i + 1 ∨ j = 2 * i + 2 := by
    unfold parent
    omega
  unfold child
  split <;> grind [parent]

lemma contents_siftDown : contents (siftDown key e n i) n = contents e n := by
  fun_induction siftDown key e n i with
  | case1 | case3 => rfl
  | case2 e i h _ ih => rw [ih, contents_swap (by omega) (child_spec h).2.1]

lemma contents_heapify : contents (heapify key e n) n = contents e n := by
  unfold heapify
  induction List.range (n / 2) with
  | nil => rfl
  | cons i l ih => rw [List.foldr_cons, contents_siftDown, ih]

/-! ### Order -/

lemma Ordered.le (h : Ordered key e n 0) (hj : j < n) : key (e 0) ≤ key (e j) := by
  induction j using Nat.strongRecOn with
  | _ j ih =>
    obtain rfl | h0 := Nat.eq_zero_or_pos j
    · exact le_rfl
    · have hparent := parent_lt h0
      exact (ih _ hparent (by omega)).trans (h j h0 hj (Nat.zero_le _))

/-- A cell of a heap gets another entry. -/
lemma Ordered.fill (h : Ordered key e n 0) (hm : ∀ j < m, j ≠ i → j < n) :
    Around key (update e i a) m 0 i := by
  refine ⟨fun j h0 hj hk hne hp => ?_, fun j h0 hj hp hi0 hk => ?_⟩
  · rw [update_of_ne hne, update_of_ne hp]
    exact h j h0 (hm j hj hne) hk
  · have hchild := parent_lt h0
    have hlt := hm j hj (by omega)
    rw [update_of_ne (parent_lt hi0).ne, update_of_ne (by omega)]
    have hle := h j h0 hlt (Nat.zero_le _)
    rw [hp] at hle
    exact (h i hi0 (by omega) hk).trans hle

/-- The exchange with the parent. -/
lemma Around.up (h : Around key e n 0 i) (h0 : 0 < i) (hi : i < n)
    (hlt : key (e i) < key (e (parent i))) :
    Around key (swap e (parent i) i) n 0 (parent i) ∧ ∀ j, 0 < j → j < n → parent j = parent i →
      key (swap e (parent i) i (parent i)) ≤ key (swap e (parent i) i j) := by
  have hparent := parent_lt h0
  refine ⟨⟨fun j hj0 hj _ hne hp => ?_, fun j hj0 hj hp hp0 _ => ?_⟩, fun j hj0 hj hp => ?_⟩
  · have hother := h.other j hj0 hj (Nat.zero_le _)
    have hbelow := h.below j hj0 hj
    simp only [swap_apply]
    grind
  · have hgrand := parent_lt hp0
    have hle := h.other (parent i) hp0 (by omega) (Nat.zero_le _) hparent.ne (by omega)
    have hother := h.other j hj0 hj (Nat.zero_le _)
    simp only [swap_apply]
    grind
  · have hother := h.other j hj0 hj (Nat.zero_le _)
    simp only [swap_apply]
    grind

lemma siftUp_ordered (h : Around key e n 0 i) (hi : i < n)
    (hbelow : ∀ j, 0 < j → j < n → parent j = i → key (e i) ≤ key (e j)) :
    Ordered key (siftUp key e i) n 0 := by
  fun_induction siftUp key e i with
  | case1 e => grind [Ordered, h.other]
  | case2 e i h0 hle => grind [Ordered, h.other]
  | case3 e i h0 hgt ih =>
    have hparent := parent_lt (Nat.pos_of_ne_zero h0)
    obtain ⟨haround, hbelow⟩ := h.up (Nat.pos_of_ne_zero h0) hi (not_le.mp hgt)
    exact ih haround (by omega) hbelow

/-- The exchange with the smaller child. -/
lemma Around.down {c} (h : Around key e n k i) (hk : k ≤ i) (hc0 : 0 < c) (hc : c < n)
    (hpc : parent c = i) (hmin : ∀ j, 0 < j → j < n → parent j = i → key (e c) ≤ key (e j))
    (hlt : key (e c) < key (e i)) :
    Around key (swap e i c) n k c ∧ key (swap e i c (parent c)) ≤ key (swap e i c c) := by
  have hic := parent_lt hc0
  refine ⟨⟨fun j hj0 hj hkj hne hp => ?_, fun j hj0 hj hp _ _ => ?_⟩, ?_⟩
  · have hother := h.other j hj0 hj hkj
    have hbelow := h.below c hc0 hc hpc
    have hsmaller := hmin j hj0 hj
    simp only [swap_apply]
    grind
  · have hchild := parent_lt hj0
    have hother := h.other j hj0 hj
    simp only [swap_apply]
    grind
  · simp only [swap_apply]
    grind

lemma siftDown_ordered (h : Around key e n k i) (hk : k ≤ i)
    (habove : 0 < i → k ≤ parent i → key (e (parent i)) ≤ key (e i)) :
    Ordered key (siftDown key e n i) n k := by
  fun_induction siftDown key e n i with
  | case1 e i h1 hle => grind [Ordered, h.other, child_spec]
  | case2 e i h1 hgt ih =>
    obtain ⟨hc0, hc, hpc, hmin⟩ := @child_spec α κ _ key e n i h1
    obtain ⟨haround, hle⟩ := h.down hk hc0 hc hpc hmin (not_le.mp hgt)
    have hic := parent_lt hc0
    exact ih haround (by omega) fun _ _ => hle
  | case3 e i h1 => grind [Ordered, h.other, parent]

lemma heapify_ordered : Ordered key (heapify key e n) n 0 := by
  have hbuild : ∀ m e, Ordered key e n m →
      Ordered key ((List.range m).foldr (fun i e => siftDown key e n i) e) n 0 := by
    intro m
    induction m with
    | zero => exact fun e h => h
    | succ m ih =>
      intro e h
      have habove : 0 < m → ¬m ≤ parent m := fun h0 => Nat.not_le.mpr (parent_lt h0)
      rw [List.range_succ, List.foldr_append]
      refine ih _ (siftDown_ordered ⟨fun j h0 hj hm hne hp => h j h0 hj (by omega),
        fun _ _ _ _ h0 hm => absurd hm (habove h0)⟩ (Nat.le_refl m) fun h0 hm => absurd hm (habove h0))
  refine hbuild _ e fun j h0 hj hm => ?_
  unfold parent at hm
  omega

end Nanami.Lib.Heap
