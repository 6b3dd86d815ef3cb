import Mathlib

/-!
# Fixed tables of optional entries

An array `[Option<T>; N]` that is filled from the front and never compacted: entries are added at
the first free index, changed in place, and keep their index for good.
-/

namespace Nanami.Lib.Slots

variable {α : Type} {n : Nat}

/-- `table.get(i).copied().flatten()`. -/
def get (t : Vector (Option α) n) (i : Nat) : Option α := (t[i]?).join

/-- `table[i] = Some(a)`. -/
def put (t : Vector (Option α) n) (i : Nat) (a : α) : Vector (Option α) n :=
  t.setIfInBounds i (some a)

/-- A change of the entry at `i` in place; an empty slot stays empty. -/
def alter (t : Vector (Option α) n) (i : Nat) (f : α → α) : Vector (Option α) n :=
  t.setIfInBounds i ((get t i).map f)

variable {t : Vector (Option α) n} {i : Nat} {a : α}

lemma lt_of_get (h : get t i = some a) : i < n := by
  by_contra hge
  rw [get, Vector.getElem?_eq_none (by omega)] at h
  cases h

@[simp] lemma get_replicate : get (Vector.replicate n (none : Option α)) i = none := by
  rw [get]
  rcases Nat.lt_or_ge i n with h | h
  · simp [Vector.getElem?_eq_getElem h]
  · simp [Vector.getElem?_eq_none h]

lemma get_put_self (h : i < n) : get (put t i a) i = some a := by
  simp [get, put, Vector.getElem?_eq_getElem h]

lemma get_put_of_ne {j} (h : i ≠ j) : get (put t i a) j = get t j := by
  rw [get, put, get, Vector.getElem?_setIfInBounds_ne h]

lemma get_alter_of_ne {j f} (h : i ≠ j) : get (alter t i f) j = get t j := by
  rw [get, alter, Vector.getElem?_setIfInBounds_ne h]
  rfl

lemma get_alter_self {f} : get (alter t i f) i = (get t i).map f := by
  rcases Nat.lt_or_ge i n with h | h
  · simp [get, alter, Vector.getElem?_eq_getElem h]
  · rw [get, get, Vector.getElem?_eq_none h, Vector.getElem?_eq_none h]
    rfl

/-- The entries in use are exactly the first `count`. -/
def Filled (t : Vector (Option α) n) (count : Nat) : Prop :=
  count ≤ n ∧ ∀ i, (get t i).isSome = true ↔ i < count

lemma filled_new : Filled (Vector.replicate n (none : Option α)) 0 :=
  ⟨Nat.zero_le _, fun i => by simp⟩

lemma Filled.put {t : Vector (Option α) n} {count} {a : α} (h : Filled t count) (hn : count < n) :
    Filled (put t count a) (count + 1) := by
  refine ⟨hn, fun i => ?_⟩
  by_cases hi : count = i
  · subst hi
    simp [get_put_self hn]
  · rw [get_put_of_ne hi, h.2]
    omega

lemma alter_alter {f g} : alter (alter t i f) i g = alter t i (fun a => g (f a)) := by
  rw [alter, get_alter_self, Option.map_map, alter, Vector.setIfInBounds_setIfInBounds]
  rfl

lemma Filled.alter {t : Vector (Option α) n} {count i} {f : α → α} (h : Filled t count) :
    Filled (alter t i f) count := by
  refine ⟨h.1, fun j => ?_⟩
  rw [← h.2]
  by_cases hi : i = j
  · subst hi
    rw [get_alter_self, Option.isSome_map]
  · rw [get_alter_of_ne hi]

lemma Filled.next {t : Vector (Option α) n} {count} (h : Filled t count) : get t count = none := by
  cases hg : get t count with
  | none => rfl
  | some a => exact absurd ((h.2 count).mp (by rw [hg]; rfl)) (Nat.lt_irrefl _)

lemma length_le_of_nodup {slots : List Nat} (hnodup : slots.Nodup) (h : ∀ i ∈ slots, i < n) :
    slots.length ≤ n := by
  have hsub : slots ⊆ List.range n := fun i hi => List.mem_range.mpr (h i hi)
  have hle := (List.subperm_of_subset hnodup hsub).length_le
  rwa [List.length_range] at hle

end Nanami.Lib.Slots
