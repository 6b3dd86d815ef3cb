import Mathlib

/-!
# Ring buffers

A fixed array of `cap` cells read from `head` on, around its end. The array is a function of the
index. `contents` is what the ring holds, oldest first.
-/

namespace Nanami.Lib.Ring
open List

variable {α : Type} {cap head len n : Nat} {data : Nat → α} {items : List α}

/-- What a ring of `len` cells from `head` on holds. -/
def contents (cap : Nat) (data : Nat → α) (head len : Nat) : List α :=
  (List.range len).map fun k => data ((head + k) % cap)

/-- `data[start..start + items.len()].copy_from_slice(items)`. -/
def copyIn (data : Nat → α) (start : Nat) (items : List α) : Nat → α := fun k =>
  if start ≤ k then (items[k - start]?).getD (data k) else data k

@[simp] lemma length_contents : (contents cap data head len).length = len := by
  simp [contents]

@[simp] lemma contents_zero : contents cap data head 0 = [] := rfl

lemma contents_add : contents cap data head (len + n) =
    contents cap data head len ++ contents cap data ((head + len) % cap) n := by
  simp only [contents, range_add, map_append, map_map]
  congr 1
  refine map_congr_left fun k _ => ?_
  show data ((head + (len + k)) % cap) = data (((head + len) % cap + k) % cap)
  rw [Nat.mod_add_mod, add_assoc]

lemma drop_contents (h : n ≤ len) : (contents cap data head len).drop n =
    contents cap data ((head + n) % cap) (len - n) := by
  obtain ⟨m, rfl⟩ := Nat.exists_eq_add_of_le h
  rw [contents_add, drop_left' length_contents, Nat.add_sub_cancel_left]

lemma take_contents (h : n ≤ len) :
    (contents cap data head len).take n = contents cap data head n := by
  obtain ⟨m, rfl⟩ := Nat.exists_eq_add_of_le h
  rw [contents_add, take_left' length_contents]

lemma copyIn_inside {start k} (h : k < items.length) :
    copyIn data start items (start + k) = items.get ⟨k, h⟩ := by
  rw [copyIn, if_pos (Nat.le_add_right _ _), Nat.add_sub_cancel_left, getElem?_eq_getElem h]
  rfl

lemma copyIn_outside {start k} (h : k < start ∨ start + items.length ≤ k) :
    copyIn data start items k = data k := by
  rw [copyIn]
  split
  · rw [getElem?_eq_none (by omega)]
    rfl
  · rfl

lemma cell_eq {k} (hhead : head < cap) (hk : k ≤ cap) :
    (head + k) % cap = if head + k < cap then head + k else head + k - cap := by
  split
  · exact Nat.mod_eq_of_lt ‹_›
  · rw [Nat.mod_eq_sub_mod (by omega), Nat.mod_eq_of_lt (by omega)]

/-- Copying behind a tail, around the end of the array: first up to the end, the rest from the
start. -/
def copyAround (cap : Nat) (data : Nat → α) (tail : Nat) (items : List α) : Nat → α :=
  copyIn (copyIn data tail (items.take (cap - tail))) 0 (items.drop (cap - tail))

lemma copyAround_inside {tail k} (htail : tail < cap) (hfit : items.length ≤ cap)
    (hk : k < items.length) : copyAround cap data tail items ((tail + k) % cap) = items.get ⟨k, hk⟩ := by
  rw [copyAround, cell_eq htail (by omega)]
  split
  · -- the cell lies before the end, and the part copied to the start does not reach it
    rw [copyIn_outside (by rw [length_drop]; omega),
      copyIn_inside (by rw [length_take]; omega)]
    simp
  · have hstart : tail + k - cap = 0 + (k - (cap - tail)) := by omega
    rw [hstart, copyIn_inside (by rw [length_drop]; omega)]
    simp only [get_eq_getElem, getElem_drop]
    congr 1
    omega

lemma copyAround_outside {tail k} (htail : tail < cap) (hk : items.length ≤ k) (hcap : k < cap) :
    copyAround cap data tail items ((tail + k) % cap) = data ((tail + k) % cap) := by
  rw [copyAround, cell_eq htail (by omega)]
  split
  · rw [copyIn_outside (by rw [length_drop]; omega),
      copyIn_outside (by rw [length_take]; omega)]
  · rw [copyIn_outside (by rw [length_drop]; omega),
      copyIn_outside (by rw [length_take]; omega)]

/-- `data[start..start + n]`. -/
def copyOut (data : Nat → α) (start n : Nat) : List α := (List.range n).map fun k => data (start + k)

/-- Copying out of a ring in two parts: first up to the end of the array, the rest from its start. -/
lemma copyOut_around (hhead : head < cap) (hn : n ≤ cap) :
    copyOut data head (min n (cap - head)) ++ copyOut data 0 (n - min n (cap - head)) =
      contents cap data head n := by
  have hcells : ∀ {start m}, start + m ≤ cap → copyOut data start m = contents cap data start m := by
    intro start m hm
    refine map_congr_left fun k hk => ?_
    rw [mem_range] at hk
    rw [Nat.mod_eq_of_lt (by omega)]
  rw [hcells (by omega), hcells (by omega)]
  rcases Nat.le_total n (cap - head) with h | h
  · simp [h]
  · obtain ⟨m, rfl⟩ := Nat.exists_eq_add_of_le h
    rw [min_eq_right h, contents_add, Nat.add_sub_cancel_left, Nat.add_sub_of_le hhead.le, Nat.mod_self]

/-- Writing behind the contents, around the end of the array, appends to them. -/
lemma contents_push (hhead : head < cap) (hfit : len + items.length ≤ cap) :
    contents cap (copyAround cap data ((head + len) % cap) items) head (len + items.length) =
      contents cap data head len ++ items := by
  have htail : (head + len) % cap < cap := Nat.mod_lt _ (by omega)
  rw [contents_add]
  congr 1
  · refine map_congr_left fun k hk => ?_
    rw [mem_range] at hk
    -- seen from the tail, an old cell lies behind what is written
    have hcell : (head + k) % cap = ((head + len) % cap + (cap - len + k)) % cap := by
      rw [Nat.mod_add_mod, ← Nat.add_mod_right]
      congr 1
      omega
    rw [hcell]
    exact copyAround_outside htail (by omega) (by omega)
  · refine ext_getElem (by simp) fun k h1 h2 => ?_
    simp only [contents, getElem_map, getElem_range]
    exact copyAround_inside htail (by omega) h2

lemma contents_append {a} (hlen : len < cap) :
    contents cap (Function.update data ((head + len) % cap) a) head (len + 1) =
      contents cap data head len ++ [a] := by
  rw [contents_add]
  congr 1
  · refine map_congr_left fun k hk => Function.update_of_ne (fun heq => ?_) _ _
    rw [mem_range] at hk
    -- two cells less than `cap` apart are not the same
    have hmod : k ≡ len [MOD cap] := Nat.ModEq.add_left_cancel' head heq
    have := hmod.eq_of_lt_of_lt (by omega) hlen
    omega
  · simp [contents]

lemma contents_cons (hhead : head < cap) :
    contents cap data head (len + 1) = data head :: contents cap data ((head + 1) % cap) len := by
  rw [add_comm, contents_add]
  simp [contents, Nat.mod_eq_of_lt hhead]

end Nanami.Lib.Ring
