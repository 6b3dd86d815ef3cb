import Mathlib

/-!
# Machine words and vectors

`usize` values are natural numbers below `2 ^ 64`; the checked and saturating operations of the
standard library are written out where the code uses them. `swapRemove` is `Vec::swap_remove`: it
permutes what is left, so its lemma is about multisets.
-/

namespace Nanami.Lib
open List Nat

/-- Width of `usize`. -/
def wordBits : Nat := 64

/-- One past the largest `usize`. -/
def wordSize : Nat := 2 ^ wordBits

def checkedAdd (a b : Nat) : Option Nat :=
  if a + b < wordSize then some (a + b) else none

def checkedMul (a b : Nat) : Option Nat :=
  if a * b < wordSize then some (a * b) else none

def checkedSub (a b : Nat) : Option Nat :=
  if b ≤ a then some (a - b) else none

/-- `usize::checked_shl`: the shift amount is an `u32`, and fails from the word's width on. -/
def checkedShl (a shift : Nat) : Option Nat :=
  if shift % 2 ^ 32 < wordBits then some (a * 2 ^ (shift % 2 ^ 32) % wordSize) else none

def saturatingAdd (a b : Nat) : Nat := min (a + b) (wordSize - 1)

def saturatingMul (a b : Nat) : Nat := min (a * b) (wordSize - 1)

/-- Release-profile addition on `usize`. -/
def wrappingAdd (a b : Nat) : Nat := (a + b) % wordSize

/-- Release-profile subtraction on `usize`. -/
def wrappingSub (a b : Nat) : Nat := (a + wordSize - b) % wordSize

/-- `<<` on `usize`: bits shifted out are lost. -/
def wrappingShl (a shift : Nat) : Nat := (a <<< shift) % wordSize

/-- `!a` on `usize`. -/
def complement (a : Nat) : Nat := wordSize - 1 - a

lemma checkedAdd_eq_some {a b c} : checkedAdd a b = some c ↔ a + b = c ∧ c < wordSize := by
  rw [checkedAdd, Option.ite_none_right_eq_some, Option.some_inj, and_comm]
  exact and_congr_right fun h => by rw [h]

lemma checkedMul_eq_some {a b c} : checkedMul a b = some c ↔ a * b = c ∧ c < wordSize := by
  rw [checkedMul, Option.ite_none_right_eq_some, Option.some_inj, and_comm]
  exact and_congr_right fun h => by rw [h]

lemma any_checkedAdd_le {a b c} (hc : c < wordSize) :
    ((checkedAdd a b).any fun sum => decide (sum ≤ c)) = decide (a + b ≤ c) := by
  unfold checkedAdd
  split
  · rfl
  · exact (decide_eq_false (by omega)).symm

lemma wrappingSub_of_le {a b} (h : b ≤ a) (ha : a < wordSize) : wrappingSub a b = a - b := by
  have e : a + wordSize - b = a - b + wordSize := by omega
  rw [wrappingSub, e, add_mod_right, mod_eq_of_lt (by omega)]

lemma checkedAdd_of_lt {a b} (h : a + b < wordSize) : checkedAdd a b = some (a + b) := if_pos h

lemma checkedShl_one_of_lt {k} (h : k < wordBits) : checkedShl 1 k = some (2 ^ k) := by
  unfold checkedShl
  have hk : k % 2 ^ 32 = k := by
    apply mod_eq_of_lt
    unfold wordBits at h
    omega
  have hp : 2 ^ k < wordSize := Nat.pow_lt_pow_right (by omega) h
  rw [hk, if_pos h, one_mul, mod_eq_of_lt hp]

lemma and_complement_mask {x k} (hx : x < wordSize) (hk : k ≤ wordBits) :
    x &&& complement (2 ^ k - 1) = x / 2 ^ k * 2 ^ k := by
  have hc : complement (2 ^ k - 1) = (2 ^ (wordBits - k) - 1) * 2 ^ k := by
    have e : wordSize = 2 ^ (wordBits - k) * 2 ^ k := by
      rw [← Nat.pow_add, Nat.sub_add_cancel hk]
      rfl
    have h1 : 0 < 2 ^ k := Nat.two_pow_pos k
    rw [complement, e, Nat.sub_mul]
    omega
  apply eq_of_testBit_eq
  intro i
  rw [testBit_and, hc, testBit_mul_two_pow, testBit_mul_two_pow,
    testBit_two_pow_sub_one, testBit_div_two_pow]
  by_cases h : k ≤ i
  · have e : i - k + k = i := Nat.sub_add_cancel h
    simp only [h, decide_true, Bool.true_and, e]
    by_cases hi : i < wordBits
    · rw [show decide (i - k < wordBits - k) = true by simp; omega, Bool.and_true]
    · have hbig : x < 2 ^ i :=
        lt_of_lt_of_le hx (Nat.pow_le_pow_right (by decide) (Nat.le_of_not_lt hi))
      rw [testBit_lt_two_pow hbig, Bool.false_and]
  · simp [h]

variable {q : Nat} {α : Type} {l : List α}

/-- `2 ^ k` aligned numbers differ from their buddy in bit `k` only. -/
lemma xor_two_pow_of_dvd {k} : (2 ^ k * q) ^^^ 2 ^ k = 2 ^ k * (q ^^^ 1) := by
  have h := shiftLeft_xor_distrib (a := q) (b := 1) (i := k)
  simp only [shiftLeft_eq, one_mul] at h
  rw [mul_comm (2 ^ k) q, ← h, mul_comm]

lemma xor_one_even (h : q % 2 = 0) : q ^^^ 1 = q + 1 := by
  obtain ⟨m, rfl⟩ := dvd_of_mod_eq_zero h
  apply eq_of_testBit_eq
  rintro (_ | i)
  · simp [testBit_zero, add_mod]
  · rw [testBit_xor, testBit_succ, testBit_succ, testBit_succ]
    rw [show (2 * m + 1) / 2 = 2 * m / 2 from by omega]
    simp

lemma xor_one_odd (h : q % 2 = 1) : q ^^^ 1 = q - 1 := by
  have e : q = (q - 1) ^^^ 1 := by
    rw [xor_one_even (q := q - 1) (by omega)]
    omega
  conv_lhs => rw [e]
  rw [Nat.xor_assoc, Nat.xor_self, xor_zero]

lemma filterMap_set {β i a} {f : α → Option β} (ha : l[i]? = some a) :
    ∃ rest, (l.filterMap f).Perm ((f a).toList ++ rest) ∧
      ∀ b, ((l.set i b).filterMap f).Perm ((f b).toList ++ rest) := by
  obtain ⟨hlt, rfl⟩ := List.getElem?_eq_some_iff.mp ha
  have hcons : ∀ x, ((x :: l.eraseIdx i).filterMap f) =
      (f x).toList ++ (l.eraseIdx i).filterMap f := by
    intro x
    rw [filterMap_cons]
    cases f x <;> rfl
  refine ⟨(l.eraseIdx i).filterMap f, ?_, fun b => ?_⟩
  · rw [← hcons]
    exact ((getElem_cons_eraseIdx_perm hlt).filterMap f).symm
  · rw [← hcons]
    exact (set_perm_cons_eraseIdx hlt b).filterMap f

/-- A piece of a split list lacks the separator. -/
lemma mem_splitOn [DecidableEq α] {a piece} (h : piece ∈ l.splitOn a) : a ∉ piece ∧ piece ⊆ l := by
  induction l generalizing piece with
  | nil => simp_all
  | cons x l ih =>
    rw [splitOn_cons_eq_if_modifyHead] at h
    split at h
    · grind
    · cases hl : l.splitOn a with
      | nil => exact absurd hl (splitOn_ne_nil _ _)
      | cons first pieces =>
        rw [hl, modifyHead_cons] at h
        grind

/-- `Vec::swap_remove`: the last element takes the place of the removed one. -/
def swapRemove {α : Type} (l : List α) (i : Nat) : List α :=
  match l.getLast? with
  | none => l
  | some x => (l.set i x).dropLast

lemma swapRemove_perm {i a} (h : l[i]? = some a) : l.Perm (a :: swapRemove l i) := by
  obtain ⟨hi, rfl⟩ := List.getElem?_eq_some_iff.mp h
  unfold swapRemove
  cases hx : l.getLast? with
  | none =>
    rw [getLast?_eq_none_iff.mp hx] at hi
    cases hi
  | some x =>
    -- the last element stays the last one when it is copied into the place
    have hlast : (l.set i x).getLast? = some x := by
      rw [getLast?_eq_getElem?] at hx ⊢
      rw [length_set, getElem?_set]
      split
      · rfl
      · exact hx
    have hset : (l.set i x).Perm (x :: (l.set i x).dropLast) := by
      nth_rewrite 1 [← dropLast_append_getLast? x hlast]
      exact perm_append_singleton x _
    refine List.Perm.cons_inv (a := x) ?_
    calc x :: l
      _ ~ x :: l[i] :: l.eraseIdx i := (getElem_cons_eraseIdx_perm hi).symm.cons x
      _ ~ l[i] :: x :: l.eraseIdx i := .swap _ _ _
      _ ~ l[i] :: l.set i x := (set_perm_cons_eraseIdx hi x).symm.cons _
      _ ~ l[i] :: x :: (l.set i x).dropLast := hset.cons _
      _ ~ x :: l[i] :: (l.set i x).dropLast := .swap _ _ _

lemma length_swapRemove {i} (h : i < l.length) : (swapRemove l i).length + 1 = l.length := by
  have hp := swapRemove_perm (getElem?_eq_getElem h)
  have := hp.length_eq
  simpa using this.symm

/-- `position` followed by `swap_remove` of what it found. -/
def swapRemoveFirst {α : Type} (f : α → Bool) (l : List α) : Option (α × List α) :=
  match l.findIdx? f with
  | none => none
  | some i => (l[i]?).map fun a => (a, swapRemove l i)

lemma swapRemoveFirst_some {f rest a} (h : swapRemoveFirst f l = some (a, rest)) :
    f a = true ∧ l.Perm (a :: rest) := by
  unfold swapRemoveFirst at h
  split at h
  · cases h
  · rename_i i hi
    rw [findIdx?_eq_some_iff_getElem] at hi
    obtain ⟨hlt, hf, _⟩ := hi
    rw [getElem?_eq_getElem hlt] at h
    cases h
    exact ⟨hf, swapRemove_perm (getElem?_eq_getElem hlt)⟩

lemma swapRemoveFirst_none {f} (h : swapRemoveFirst f l = none) : ∀ a ∈ l, f a = false := by
  unfold swapRemoveFirst at h
  split at h
  · rename_i hi
    exact findIdx?_eq_none_iff.mp hi
  · rename_i i hi
    rw [findIdx?_eq_some_iff_getElem] at hi
    obtain ⟨hlt, _⟩ := hi
    rw [getElem?_eq_getElem hlt] at h
    cases h

end Nanami.Lib
