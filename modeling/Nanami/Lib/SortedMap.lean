import Mathlib

/-!
# Maps ordered by their keys

A map with increasing keys, as a list of entries that carries the order: lookups, insertion that
replaces, removal, and the last entry between two keys. Each update is described by the entries of
its result, as members (`mem_insert`, `mem_erase`) and as a permutation (`insert_perm`,
`erase_perm`) for what is summed over all entries.
-/

namespace Nanami.Lib
open List

structure SortedMap (κ α : Type) [LinearOrder κ] where
  entries : List (κ × α)
  sorted : entries.Pairwise fun a b => a.1 < b.1
  deriving DecidableEq

namespace SortedMap

variable {κ α : Type} [LinearOrder κ]

def empty : SortedMap κ α := ⟨[], List.Pairwise.nil⟩

def get? (m : SortedMap κ α) (k : κ) : Option α :=
  (m.entries.find? fun e => e.1 = k).map Prod.snd

/-- Insertion; an entry with the same key is replaced. -/
def insert (k : κ) (a : α) (m : SortedMap κ α) : SortedMap κ α where
  entries := m.entries.filter (fun e => e.1 < k) ++ (k, a) :: m.entries.filter (fun e => k < e.1)
  sorted := by
    refine pairwise_append.mpr ⟨m.sorted.filter _, pairwise_cons.mpr ⟨?_, m.sorted.filter _⟩, ?_⟩
    · intro e he
      simpa using (mem_filter.mp he).2
    · intro e he e' he'
      have hlt : e.1 < k := by simpa using (mem_filter.mp he).2
      rcases mem_cons.mp he' with rfl | he'
      · exact hlt
      · exact hlt.trans (by simpa using (mem_filter.mp he').2)

def erase (k : κ) (m : SortedMap κ α) : SortedMap κ α :=
  ⟨m.entries.filter fun e => e.1 ≠ k, m.sorted.filter _⟩

def filter (p : κ → α → Bool) (m : SortedMap κ α) : SortedMap κ α :=
  ⟨m.entries.filter fun e => p e.1 e.2, m.sorted.filter _⟩

/-- The entry with the largest key between two keys. -/
def lastBetween (lo hi : κ) (m : SortedMap κ α) : Option (κ × α) :=
  (m.entries.filter fun e => lo ≤ e.1 ∧ e.1 ≤ hi).getLast?

/-- The entry with the largest key below a key. -/
def before (k : κ) (m : SortedMap κ α) : Option (κ × α) :=
  (m.entries.filter fun e => e.1 < k).getLast?

/-- The entry with the smallest key from a key on. -/
def firstFrom (k : κ) (m : SortedMap κ α) : Option (κ × α) :=
  (m.entries.filter fun e => k ≤ e.1).head?

variable {m : SortedMap κ α} {e : κ × α} {k : κ} {a : α}

lemma nodup_keys : (m.entries.map Prod.fst).Nodup := pairwise_map.mpr (m.sorted.imp ne_of_lt)

lemma nodup_entries : m.entries.Nodup := .of_map _ nodup_keys

lemma entry_unique {e'} (h : e ∈ m.entries) (h' : e' ∈ m.entries) (hk : e.1 = e'.1) : e = e' :=
  inj_on_of_nodup_map nodup_keys h h' hk

lemma eq_of_mem {n : SortedMap κ α} (h : ∀ e, e ∈ m.entries ↔ e ∈ n.entries) : m = n := by
  have hperm := (perm_ext_iff_of_nodup nodup_entries nodup_entries).mpr h
  have heq := hperm.eq_of_pairwise (fun _ _ _ _ hlt hgt => absurd hgt hlt.asymm) m.sorted n.sorted
  cases m
  cases n
  cases heq
  rfl

lemma get?_eq_some : m.get? k = some a ↔ (k, a) ∈ m.entries := by
  rw [get?, Option.map_eq_some_iff]
  constructor
  · rintro ⟨⟨k', a'⟩, hf, rfl⟩
    have hk : k' = k := by simpa using find?_some hf
    subst hk
    exact mem_of_find?_eq_some hf
  · intro h
    cases hf : m.entries.find? (fun e => e.1 = k) with
    | none => simpa using find?_eq_none.mp hf _ h
    | some e =>
      have hk : e.1 = k := by simpa using find?_some hf
      have := entry_unique (mem_of_find?_eq_some hf) h hk
      exact ⟨e, rfl, by rw [this]⟩

lemma get?_eq_none : m.get? k = none ↔ ∀ e ∈ m.entries, e.1 ≠ k := by
  rw [get?, Option.map_eq_none_iff, find?_eq_none]
  simp

lemma mem_insert : e ∈ (m.insert k a).entries ↔ e = (k, a) ∨ e ∈ m.entries ∧ e.1 ≠ k := by
  simp only [insert, mem_append, mem_cons, mem_filter, decide_eq_true_eq]
  constructor
  · rintro (⟨h, hlt⟩ | rfl | ⟨h, hlt⟩)
    · exact .inr ⟨h, hlt.ne⟩
    · exact .inl rfl
    · exact .inr ⟨h, hlt.ne'⟩
  · rintro (rfl | ⟨h, hne⟩)
    · exact .inr (.inl rfl)
    · rcases lt_or_gt_of_ne hne with hlt | hgt
      · exact .inl ⟨h, hlt⟩
      · exact .inr (.inr ⟨h, hgt⟩)

lemma mem_erase : e ∈ (m.erase k).entries ↔ e ∈ m.entries ∧ e.1 ≠ k := by
  simp [erase]

lemma get?_insert {k'} : (m.insert k a).get? k' = if k' = k then some a else m.get? k' := by
  refine Option.ext fun b => ?_
  rw [get?_eq_some, mem_insert]
  split
  · rename_i h
    subst h
    simp [eq_comm]
  · rename_i h
    simp [h, get?_eq_some]

lemma get?_erase {k'} : (m.erase k).get? k' = if k' = k then none else m.get? k' := by
  refine Option.ext fun b => ?_
  rw [get?_eq_some, mem_erase]
  split
  · rename_i h
    simp [h]
  · rename_i h
    simp [h, get?_eq_some]

lemma insert_insert {b} : (m.insert k a).insert k b = m.insert k b := by
  refine eq_of_mem fun e => ?_
  rw [mem_insert, mem_insert, mem_insert]
  constructor
  · rintro (h | ⟨rfl | h, hne⟩)
    · exact .inl h
    · exact absurd rfl hne
    · exact .inr h
  · exact Or.imp_right fun h => ⟨.inr h, h.2⟩

lemma get?_filter {p} : (m.filter p).get? k = (m.get? k).filter (p k) := by
  refine Option.ext fun b => ?_
  rw [get?_eq_some, Option.filter_eq_some_iff, get?_eq_some]
  simp [filter]

lemma nodup_cons_erase : ((k, a) :: (m.erase k).entries).Nodup :=
  nodup_cons.mpr ⟨fun h => (mem_erase.mp h).2 rfl, nodup_entries⟩

lemma insert_perm : (m.insert k a).entries.Perm ((k, a) :: (m.erase k).entries) := by
  refine (perm_ext_iff_of_nodup nodup_entries nodup_cons_erase).mpr fun e => ?_
  rw [mem_insert, mem_cons, mem_erase]

lemma erase_perm (h : (k, a) ∈ m.entries) : m.entries.Perm ((k, a) :: (m.erase k).entries) := by
  refine (perm_ext_iff_of_nodup nodup_entries nodup_cons_erase).mpr fun e => ?_
  rw [mem_cons, mem_erase]
  constructor
  · intro he
    by_cases hk : e.1 = k
    · exact .inl (entry_unique he h hk)
    · exact .inr ⟨he, hk⟩
  · rintro (rfl | he)
    · exact h
    · exact he.1

lemma erase_of_get?_none (h : m.get? k = none) : (m.erase k).entries = m.entries := by
  refine filter_eq_self.mpr fun e he => ?_
  simpa using get?_eq_none.mp h e he

lemma lastBetween_some {lo hi} (h : m.lastBetween lo hi = some e) :
    e ∈ m.entries ∧ lo ≤ e.1 ∧ e.1 ≤ hi := by
  simpa using mem_filter.mp (mem_of_getLast? h)

lemma before_none (h : m.before k = none) (he : e ∈ m.entries) : k ≤ e.1 := by
  rw [before, getLast?_eq_none_iff, filter_eq_nil_iff] at h
  simpa using h e he

lemma before_some (h : m.before k = some e) :
    e ∈ m.entries ∧ e.1 < k ∧ ∀ e' ∈ m.entries, e'.1 < k → e'.1 ≤ e.1 := by
  obtain ⟨l, hl⟩ := getLast?_eq_some_iff.mp h
  have hmem : e ∈ m.entries.filter fun e => e.1 < k := by
    rw [hl]
    exact mem_append_right _ mem_cons_self
  obtain ⟨hm, hlt⟩ := mem_filter.mp hmem
  refine ⟨hm, by simpa using hlt, fun e' he' hlt' => ?_⟩
  have hmem' : e' ∈ m.entries.filter fun e => e.1 < k :=
    mem_filter.mpr ⟨he', by simpa using hlt'⟩
  have hs := m.sorted.filter fun e => e.1 < k
  rw [hl] at hmem' hs
  obtain hin | hin := mem_append.mp hmem'
  · exact ((pairwise_append.mp hs).2.2 e' hin e mem_cons_self).le
  · rw [mem_singleton.mp hin]

lemma firstFrom_none (h : m.firstFrom k = none) (he : e ∈ m.entries) : e.1 < k := by
  rw [firstFrom, head?_eq_none_iff, filter_eq_nil_iff] at h
  simpa using h e he

lemma firstFrom_some (h : m.firstFrom k = some e) :
    e ∈ m.entries ∧ k ≤ e.1 ∧ ∀ e' ∈ m.entries, k ≤ e'.1 → e.1 ≤ e'.1 := by
  obtain ⟨l, hl⟩ := head?_eq_some_iff.mp h
  have hmem : e ∈ m.entries.filter fun e => k ≤ e.1 := by
    rw [hl]
    exact mem_cons_self
  obtain ⟨hm, hle⟩ := mem_filter.mp hmem
  refine ⟨hm, by simpa using hle, fun e' he' hle' => ?_⟩
  have hmem' : e' ∈ m.entries.filter fun e => k ≤ e.1 :=
    mem_filter.mpr ⟨he', by simpa using hle'⟩
  have hs := m.sorted.filter fun e => k ≤ e.1
  rw [hl] at hmem' hs
  obtain rfl | hin := mem_cons.mp hmem'
  · exact le_rfl
  · exact ((pairwise_cons.mp hs).1 e' hin).le

end SortedMap

end Nanami.Lib
