import Nanami.Process.References

/-!
# Counting references

The references of a table by the extent they refer to: how `take` and `remove_pid` change them and
what their last flags say.
-/

namespace Nanami.Process
open Nanami.Lib Nanami.Memory List

namespace PhysicalAllocations

variable {t u : PhysicalAllocations} {a : ProcessPhysicalAllocation} {pid va n : Nat}
  {k : Nat × Nat}

def keys (t : PhysicalAllocations) : List (Nat × Nat) := t.entries.map fun e => e.2.key

lemma count_eq : t.count a = t.keys.count a.key := by
  rw [count, keys, List.count, countP_map]
  rfl

lemma count_eq_zero : t.count a = 0 ↔ a.key ∉ t.keys := by
  rw [count_eq, List.count_eq_zero]

lemma keys_of_perm {l} (h : t.entries.Perm l) : t.keys.Perm (l.map fun e => e.2.key) := h.map _

@[simp] lemma keys_insert : (t.insert pid a).keys = a.key :: t.keys := rfl

lemma mem_forPid : a ∈ t.forPid pid ↔ (pid, a) ∈ t.entries := by
  rw [forPid, mem_map]
  constructor
  · rintro ⟨⟨p, b⟩, hb, rfl⟩
    obtain ⟨hmem, hp⟩ := mem_filter.mp hb
    have hp : p = pid := by simpa using hp
    exact hp ▸ hmem
  · exact fun h => ⟨(pid, a), mem_filter.mpr ⟨h, by simp⟩, rfl⟩

lemma key_mem (h : (pid, a) ∈ t.entries) : a.key ∈ t.keys := mem_map.mpr ⟨_, h, rfl⟩

lemma mem_keys : k ∈ t.keys ↔ ∃ p b, (p, b) ∈ t.entries ∧ b.key = k := by
  rw [keys, mem_map]
  constructor
  · rintro ⟨⟨p, b⟩, h, rfl⟩
    exact ⟨p, b, h, rfl⟩
  · rintro ⟨p, b, h, rfl⟩
    exact ⟨(p, b), h, rfl⟩

/-- What `find` returns is the entry that `take` removes. -/
lemma find_some (h : t.find pid va n = some a) :
    a.pageCount = n ∧ t.entries.Perm ((pid, a) :: t.entries.eraseP (isAt pid va n)) := by
  rw [find, Option.map_eq_some_iff] at h
  obtain ⟨⟨p, b⟩, hf, rfl⟩ := h
  have hat := find?_some hf
  have hat : p = pid ∧ b.baseVa = va ∧ b.pageCount = n := by simpa [isAt] using hat
  obtain ⟨rfl, rfl, rfl⟩ := hat
  refine ⟨rfl, ?_⟩
  obtain ⟨_, l, r, heq, hl⟩ := find?_eq_some_iff_append.mp hf
  rw [heq, eraseP_append_right _ (fun e he => by simpa using hl e he),
    eraseP_cons_of_pos (by simp [isAt])]
  exact perm_middle

lemma take_some {r} (h : t.take pid va n = some (r, u)) :
    t.find pid va n = some r.1 ∧ (r.2 = true ↔ t.count r.1 = 1) ∧
      u.entries = t.entries.eraseP (isAt pid va n) := by
  rw [take, Option.map_eq_some_iff] at h
  obtain ⟨b, hb, heq⟩ := h
  cases heq
  exact ⟨hb, by simp, rfl⟩

lemma take_keys {r} (h : t.take pid va n = some (r, u)) : t.keys.Perm (r.1.key :: u.keys) := by
  obtain ⟨hf, _, hu⟩ := take_some h
  have := keys_of_perm (find_some hf).2
  rwa [map_cons, ← hu] at this

/-- The reference taken was in the table, and what is left was so too. -/
lemma take_mem {r} (h : t.take pid va n = some (r, u)) :
    (pid, r.1) ∈ t.entries ∧ ∀ e ∈ u.entries, e ∈ t.entries := by
  obtain ⟨hf, _, hu⟩ := take_some h
  refine ⟨(find_some hf).2.mem_iff.mpr mem_cons_self, fun e he => ?_⟩
  rw [hu] at he
  exact mem_of_mem_eraseP he

lemma not_mem_of_last {l} (h : t.keys.Perm (a.key :: l)) (hc : t.count a = 1) : a.key ∉ l := by
  rw [count_eq, h.count_eq, count_cons_self] at hc
  exact List.count_eq_zero.mp (by omega)

/-! ## Removing the references of a process -/

/-- What `remove_pid` returns and leaves, from the references it visits. -/
structure Removes (pid : Nat) (t : PhysicalAllocations) (l : List ProcessPhysicalAllocation)
    (removed : List (ProcessPhysicalAllocation × Bool)) (u : PhysicalAllocations) : Prop where
  left : ∀ e, e ∈ u.entries ↔ e ∈ t.entries ∧ e.1 ≠ pid
  keys : t.keys.Perm (l.map (·.key) ++ u.keys)
  visits : removed.map Prod.fst = l
  once : ((removed.filter fun r => r.2).map fun r => r.1.key).Nodup
  last : ∀ r ∈ removed, r.2 = true → r.1.key ∉ u.keys
  -- the last reference of an extent that only this process refers to carries the flag
  flagged : ∀ b ∈ l, b.key ∉ u.keys → ∃ r ∈ removed, r.2 = true ∧ r.1.key = b.key

lemma removeEach_spec {l} (h : (t.forPid pid).Perm l) :
    Removes pid t l (removeEach pid l t).1 (removeEach pid l t).2 := by
  induction l generalizing t with
  | nil =>
    have hno : ∀ e ∈ t.entries, e.1 ≠ pid := by
      rintro ⟨p, b⟩ he rfl
      exact absurd (h.mem_iff.mp (mem_forPid.mpr he)) not_mem_nil
    exact ⟨fun e => ⟨fun he => ⟨he, hno e he⟩, fun he => he.1⟩, List.Perm.refl _, rfl, nodup_nil,
      nofun, nofun⟩
  | cons a rest ih =>
    have hmem : (pid, a) ∈ t.entries := mem_forPid.mp (h.mem_iff.mpr mem_cons_self)
    have hperm := perm_cons_erase hmem
    have hrest : ((⟨t.entries.erase (pid, a)⟩ : PhysicalAllocations).forPid pid).Perm rest := by
      have hp := (hperm.filter fun e => e.1 == pid).map Prod.snd
      rw [filter_cons_of_pos (by simp), map_cons] at hp
      exact List.Perm.cons_inv (hp.symm.trans h)
    have R := ih hrest
    generalize hu : removeEach pid rest ⟨t.entries.erase (pid, a)⟩ = res at R
    have heq : removeEach pid (a :: rest) t = ((a, t.count a == 1) :: res.1, res.2) := by
      rw [removeEach, hu]
    rw [heq]
    have hkeys : t.keys.Perm (a.key :: (rest.map (·.key) ++ res.2.keys)) :=
      (keys_of_perm hperm).trans (R.keys.cons _)
    -- a flag says that no reference to the extent is left, visited later or not
    have hlast : (t.count a == 1) = true → a.key ∉ rest.map (·.key) ++ res.2.keys := fun hc =>
      not_mem_of_last hkeys (by simpa using hc)
    refine ⟨fun e => ?_, hkeys, by rw [map_cons, R.visits], ?_, ?_, ?_⟩
    · rw [R.left e]
      constructor
      · rintro ⟨he, hp⟩
        exact ⟨mem_of_mem_erase he, hp⟩
      · rintro ⟨he, hp⟩
        exact ⟨(mem_erase_of_ne fun h => hp (by rw [h])).mpr he, hp⟩
    · cases hc : t.count a == 1 with
      | true =>
        rw [filter_cons_of_pos rfl, map_cons, nodup_cons]
        refine ⟨fun hin => hlast hc (mem_append_left _ ?_), R.once⟩
        obtain ⟨r, hr, hk⟩ := mem_map.mp hin
        rw [← hk, ← R.visits, map_map]
        exact mem_map.mpr ⟨r, (mem_filter.mp hr).1, rfl⟩
      | false =>
        exact R.once
    · rintro r hr hc
      rcases mem_cons.mp hr with rfl | hr
      · exact fun hin => hlast hc (mem_append_right _ hin)
      · exact R.last r hr hc
    · intro b hb hno
      by_cases hin : b.key ∈ rest.map (·.key)
      · obtain ⟨c, hc, hk⟩ := mem_map.mp hin
        obtain ⟨r, hr, hflag, hrk⟩ := R.flagged c hc (by rwa [hk])
        exact ⟨r, mem_cons_of_mem _ hr, hflag, hrk.trans hk⟩
      · rcases mem_cons.mp hb with rfl | hb
        · refine ⟨_, mem_cons_self, ?_, rfl⟩
          rw [count_eq, hkeys.count_eq, count_cons_self,
            List.count_eq_zero.mpr (by simp [hin, hno])]
          rfl
        · exact absurd (mem_map.mpr ⟨b, hb, rfl⟩) hin

lemma removePid_spec : Removes pid t (t.forPid pid) (t.removePid pid).1 (t.removePid pid).2 :=
  removeEach_spec (List.Perm.refl _)

lemma nodup_of_count_one {l} {m : List ProcessPhysicalAllocation} (h : (m.map (·.key)).Subperm l)
    (hc : ∀ a ∈ m, l.count a.key = 1) : (m.map (·.key)).Nodup := by
  rw [nodup_iff_count_le_one]
  intro k
  by_cases hk : k ∈ m.map (·.key)
  · obtain ⟨a, ha, rfl⟩ := mem_map.mp hk
    exact (h.count_le _).trans (hc a ha).le
  · rw [List.count_eq_zero.mpr hk]
    exact Nat.zero_le _

lemma forPid_subperm : ((t.forPid pid).map (·.key)).Subperm t.keys := by
  rw [forPid, map_map]
  exact (filter_sublist.map _).subperm

end PhysicalAllocations

end Nanami.Process
