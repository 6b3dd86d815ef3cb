import Nanami.Memory.Buddy

/-!
# What the buddy pool covers

The blocks of a pool as ranges, the invariant `BuddyPool.Sound` (blocks are aligned to their own
size, lie in the physical address space, are disjoint, and no two of them are buddies), and the
specification of each pool operation by the cover of its blocks.
-/

namespace Nanami.Memory
open Nanami.Lib List

/-- Number of pages a `usize` address space has. -/
def maxPages : Nat := 2 ^ (wordBits - pageBits)

lemma maxPages_lt : maxPages < wordSize := by decide

variable {k : Nat} {ls : List (List Nat)}

lemma order_lt_of_le (h : 2 ^ k ≤ maxPages) : k + 1 < wordBits := by
  have hk : k ≤ wordBits - pageBits := (Nat.pow_le_pow_iff_right (by omega)).mp h
  have hw : wordBits - pageBits + 1 < wordBits := by decide
  omega

def blocksFrom : Nat → List (List Nat) → List (Nat × Nat)
  | _, [] => []
  | k, l :: ls => l.map (fun b => (b, 2 ^ k)) ++ blocksFrom (k + 1) ls

lemma mem_blocksFrom {r} :
    r ∈ blocksFrom k ls ↔ ∃ i l, ls[i]? = some l ∧ r.1 ∈ l ∧ r.2 = 2 ^ (k + i) := by
  induction ls generalizing k with
  | nil => simp [blocksFrom]
  | cons l ls ih =>
    rw [blocksFrom, mem_append, ih]
    constructor
    · rintro (hm | ⟨i, l', hl, hm, hr⟩)
      · obtain ⟨b, hb, rfl⟩ := mem_map.mp hm
        exact ⟨0, l, rfl, hb, rfl⟩
      · exact ⟨i + 1, l', hl, hm, by rw [hr]; congr 1; omega⟩
    · rintro ⟨_ | i, l', hl, hm, hr⟩
      · cases hl
        exact .inl (mem_map.mpr ⟨r.1, hm, by rw [← add_zero k, ← hr]⟩)
      · exact .inr ⟨i, l', hl, hm, by rw [hr]; congr 1; omega⟩

lemma blocksFrom_set {i} (h : i < ls.length) :
    ∃ rest, ∀ l', (blocksFrom k (ls.set i l')).Perm
      (l'.map (fun b => (b, 2 ^ (k + i))) ++ rest) := by
  induction ls generalizing k i with
  | nil => simp at h
  | cons l ls ih =>
    cases i with
    | zero => exact ⟨blocksFrom (k + 1) ls, fun l' => List.Perm.refl _⟩
    | succ i =>
      obtain ⟨rest, hrest⟩ := ih (k := k + 1) (i := i) (by simpa using h)
      refine ⟨l.map (fun b => (b, 2 ^ k)) ++ rest, fun l' => ?_⟩
      refine ((hrest l').append_left _).trans ?_
      rw [show k + 1 + i = k + (i + 1) from by omega, ← append_assoc, ← append_assoc]
      exact perm_append_comm.append_right _

lemma blocksFrom_append_nils {n} : blocksFrom k (ls ++ List.replicate n []) = blocksFrom k ls := by
  induction ls generalizing k with
  | nil =>
    induction n generalizing k with
    | zero => rfl
    | succ n ih => simpa [replicate_succ, blocksFrom] using ih
  | cons l ls ih => simp only [cons_append, blocksFrom, ih]

namespace BuddyPool

def blocks (p : BuddyPool) : List (Nat × Nat) := blocksFrom 0 p.freeLists

variable {p : BuddyPool} {order b : Nat}

lemma mem_blocks {r} : r ∈ p.blocks ↔ ∃ k, r.1 ∈ p.listAt k ∧ r.2 = 2 ^ k := by
  rw [blocks, mem_blocksFrom]
  constructor
  · rintro ⟨i, l, hl, hm, hr⟩
    exact ⟨i, by rw [listAt, hl]; exact hm, by simpa using hr⟩
  · rintro ⟨k, hm, hr⟩
    cases hk : p.freeLists[k]? with
    | none => rw [listAt, hk] at hm; cases hm
    | some l => exact ⟨k, l, hk, by rw [listAt, hk] at hm; exact hm, by simpa using hr⟩

lemma mem_blocks_iff {k} : (b, 2 ^ k) ∈ p.blocks ↔ b ∈ p.listAt k := by
  rw [mem_blocks]
  constructor
  · rintro ⟨i, hm, hi⟩
    rwa [Nat.pow_right_injective le_rfl hi]
  · exact fun hm => ⟨k, hm, rfl⟩

@[simp] lemma blocks_new : BuddyPool.new.blocks = [] := rfl

@[simp] lemma blocks_ensureOrder (p : BuddyPool) (order : Nat) :
    (p.ensureOrder order).blocks = p.blocks := blocksFrom_append_nils

lemma lt_length_ensureOrder (p : BuddyPool) (order : Nat) :
    order < (p.ensureOrder order).freeLists.length := by
  simp only [ensureOrder, length_append, length_replicate]
  omega

lemma blocks_set (h : order < p.freeLists.length) :
    ∃ rest, p.blocks.Perm ((p.listAt order).map (fun b => (b, 2 ^ order)) ++ rest) ∧
      ∀ l, (blocksFrom 0 (p.freeLists.set order l)).Perm (l.map (fun b => (b, 2 ^ order)) ++ rest) := by
  obtain ⟨rest, hrest⟩ := blocksFrom_set (k := 0) h
  have hself := hrest (p.listAt order)
  rw [listAt_eq h, set_getElem_self, ← listAt_eq h] at hself
  rw [zero_add] at hself hrest
  exact ⟨rest, hself, hrest⟩

lemma blocks_removeAt {index} (h : (p.listAt order)[index]? = some b) :
    p.blocks.Perm ((b, 2 ^ order) :: (p.removeAt order index).blocks) := by
  obtain ⟨rest, hp, hq⟩ := blocks_set (lt_length_of_listAt h)
  refine hp.trans ?_
  refine (((swapRemove_perm h).map _).append_right rest).trans ?_
  exact (hq _).symm.cons _

lemma blocks_push (h : order < p.freeLists.length) :
    (p.push order b).blocks.Perm ((b, 2 ^ order) :: p.blocks) := by
  obtain ⟨rest, hp, hq⟩ := blocks_set h
  refine (hq _).trans ?_
  refine (((perm_append_singleton _ _).map _).append_right rest).trans ?_
  exact hp.symm.cons _

/-- Free blocks are aligned to their size, inside the address space, disjoint and coalesced. -/
structure Sound (p : BuddyPool) : Prop where
  aligned : ∀ r ∈ p.blocks, r.2 ∣ r.1
  bounded : ∀ r ∈ p.blocks, r.1 + r.2 ≤ maxPages
  disjoint : ∀ x, cover p.blocks x ≤ 1
  coalesced : ∀ b k, (b, 2 ^ k) ∈ p.blocks → (b ^^^ 2 ^ k, 2 ^ k) ∉ p.blocks

lemma Sound.new : BuddyPool.new.Sound :=
  ⟨by simp, by simp, by simp, by simp⟩

lemma Sound.of_blocks {q : BuddyPool} (e : q.blocks = p.blocks) (h : p.Sound) : q.Sound :=
  ⟨e ▸ h.aligned, e ▸ h.bounded, e ▸ h.disjoint, e ▸ h.coalesced⟩

lemma Sound.removeAt {index} (h : p.Sound) (hb : (p.listAt order)[index]? = some b) :
    (p.removeAt order index).Sound := by
  have hp := blocks_removeAt hb
  have hm : ∀ r ∈ (p.removeAt order index).blocks, r ∈ p.blocks := fun r hr =>
    hp.symm.subset (mem_cons_of_mem _ hr)
  refine ⟨fun r hr => h.aligned r (hm r hr), fun r hr => h.bounded r (hm r hr), fun x => ?_,
    fun b k hb hbuddy => h.coalesced b k (hm _ hb) (hm _ hbuddy)⟩
  have hx := h.disjoint x
  rw [cover_perm hp, cover_cons] at hx
  omega

/-- `q` is `p` with the pages of one more range. -/
structure Adds (p q : BuddyPool) (base count : Nat) : Prop where
  sound : q.Sound
  cover : ∀ x, cover q.blocks x = cover p.blocks x + ind base count x

lemma xor_two_pow_ne : b ^^^ 2 ^ k ≠ b := by
  intro h
  have hx : b ^^^ (b ^^^ 2 ^ k) = b ^^^ b := by rw [h]
  rw [← Nat.xor_assoc, Nat.xor_self, Nat.zero_xor] at hx
  exact Nat.two_pow_pos k |>.ne' hx

/-- A block whose buddy is not free may be listed. -/
lemma coalesced_cons {l : List (Nat × Nat)}
    (h : ∀ b k, (b, 2 ^ k) ∈ l → (b ^^^ 2 ^ k, 2 ^ k) ∉ l) (hbuddy : (b ^^^ 2 ^ order, 2 ^ order) ∉ l)
    (x i : Nat) (hx : (x, 2 ^ i) ∈ (b, 2 ^ order) :: l) :
    (x ^^^ 2 ^ i, 2 ^ i) ∉ (b, 2 ^ order) :: l := by
  intro hy
  rcases mem_cons.mp hx with hxb | hxl <;> rcases mem_cons.mp hy with hyb | hyl
  · exact xor_two_pow_ne ((Prod.mk.inj hyb).1.trans (Prod.mk.inj hxb).1.symm)
  · obtain ⟨rfl, hi⟩ := Prod.mk.inj hxb
    rw [hi] at hyl
    exact hbuddy hyl
  · obtain ⟨rfl, hi⟩ := Prod.mk.inj hyb
    rw [← hi, Nat.xor_assoc, Nat.xor_self, Nat.xor_zero] at hbuddy
    exact hbuddy hxl
  · exact h x i hxl hyl

lemma push_adds (h : p.Sound) (hlt : order < p.freeLists.length) (ha : 2 ^ order ∣ b)
    (hb : b + 2 ^ order ≤ maxPages) (fit : ∀ x, Lib.cover p.blocks x + ind b (2 ^ order) x ≤ 1)
    (hbuddy : (b ^^^ 2 ^ order, 2 ^ order) ∉ p.blocks) : Adds p (p.push order b) b (2 ^ order) := by
  have hp := blocks_push (b := b) hlt
  have hc : ∀ x, Lib.cover (p.push order b).blocks x = Lib.cover p.blocks x + ind b (2 ^ order) x := by
    intro x
    rw [cover_perm hp, cover_cons]
    exact add_comm _ _
  refine ⟨⟨fun r hr => ?_, fun r hr => ?_, fun x => by rw [hc]; exact fit x, fun x i hx hy =>
    coalesced_cons h.coalesced hbuddy x i (hp.subset hx) (hp.subset hy)⟩, hc⟩
  all_goals rcases mem_cons.mp (hp.subset hr) with rfl | hr
  · exact ha
  · exact h.aligned r hr
  · exact hb
  · exact h.bounded r hr

end BuddyPool

/-- A block and its buddy make up the block of the next order that starts at the lower one. -/
lemma buddy_union {b} (ha : 2 ^ k ∣ b) :
    let buddy := b ^^^ 2 ^ k
    let low := if buddy < b then buddy else b
    2 ^ (k + 1) ∣ low ∧ (low + 2 ^ (k + 1) = b + 2 ^ k ∨ low + 2 ^ (k + 1) = buddy + 2 ^ k) ∧
      ∀ x, ind low (2 ^ (k + 1)) x = ind b (2 ^ k) x + ind buddy (2 ^ k) x := by
  obtain ⟨q, rfl⟩ := ha
  simp only [xor_two_pow_of_dvd]
  have hpos : 0 < 2 ^ k := Nat.two_pow_pos k
  rw [show 2 ^ (k + 1) = 2 ^ k + 2 ^ k from by rw [pow_succ]; omega]
  rcases Nat.mod_two_eq_zero_or_one q with hq | hq
  · -- an even block is the lower half
    rw [xor_one_even hq, if_neg (by rw [mul_add]; omega)]
    refine ⟨?_, ?_, fun x => ?_⟩
    · obtain ⟨m, rfl⟩ := Nat.dvd_of_mod_eq_zero hq
      exact ⟨m, by ring⟩
    · right; ring
    · rw [ind_add, mul_add, mul_one]
  · rw [xor_one_odd hq]
    obtain ⟨m, rfl⟩ : ∃ m, q = 2 * m + 1 := ⟨q / 2, by omega⟩
    simp only [Nat.add_sub_cancel]
    rw [if_pos (by rw [mul_add (2 ^ k) (2 * m) 1]; omega)]
    refine ⟨⟨m, by ring⟩, ?_, fun x => ?_⟩
    · left; ring
    · rw [ind_add, mul_add, mul_one]
      omega

namespace BuddyPool

lemma Adds.trans {p q r b c d} (h : Adds p q b c) (h' : Adds q r (b + c) d) :
    Adds p r b (c + d) := by
  refine ⟨h'.sound, fun x => ?_⟩
  rw [h'.cover, h.cover, ind_add]
  omega

/-- `add_block` adds exactly the pages of its block, however often it coalesces. -/
lemma addBlock_spec {b k : Nat} {p} (h : p.Sound) (ha : 2 ^ k ∣ b) (hb : b + 2 ^ k ≤ maxPages)
    (fit : ∀ x, Lib.cover p.blocks x + ind b (2 ^ k) x ≤ 1) :
    ∃ q, addBlock b k p = .ok () q ∧ Adds p q b (2 ^ k) := by
  have hk : k + 1 < wordBits := order_lt_of_le (by omega)
  have hsound : (p.ensureOrder k).Sound := h.of_blocks (blocks_ensureOrder p k)
  rw [addBlock, blockPages_of_lt (by omega)]
  simp only
  rw [if_neg (by simpa using Nat.mod_eq_zero_of_dvd ha)]
  split
  · -- the buddy is free: the two merge and the loop goes on one order up
    rename_i index hi
    have hm := findBlockIndex_some hi
    have hr := blocks_removeAt hm
    rw [blocks_ensureOrder] at hr
    have hmem : (b ^^^ 2 ^ k, 2 ^ k) ∈ p.blocks := hr.symm.subset mem_cons_self
    obtain ⟨hlow, hend, hind⟩ := buddy_union ha
    have hbuddy := h.bounded _ hmem
    have hsz : k + 1 < wordSize := by
      have : wordBits < wordSize := by decide
      omega
    rw [checkedAdd_of_lt hsz]
    have hcov : ∀ x, Lib.cover p.blocks x =
        ind (b ^^^ 2 ^ k) (2 ^ k) x + Lib.cover ((p.ensureOrder k).removeAt k index).blocks x := by
      intro x
      rw [cover_perm hr, cover_cons]
    have hdec : ((p.ensureOrder k).removeAt k index).blockCount < p.blockCount := by
      have hc := blockCount_removeAt hm
      rw [blockCount_ensureOrder] at hc
      omega
    obtain ⟨q, hq, hadd⟩ := addBlock_spec (k := k + 1) (hsound.removeAt hm) hlow
      (by rcases hend with e | e <;> (rw [e]; omega))
      (fun x => by
        have := fit x
        rw [hcov] at this
        rw [hind]
        omega)
    refine ⟨q, hq, hadd.sound, fun x => ?_⟩
    rw [hadd.cover, hind, hcov]
    omega
  · -- the buddy is not free: the block is listed
    rename_i hn
    have hbuddy : (b ^^^ 2 ^ k, 2 ^ k) ∉ (p.ensureOrder k).blocks := fun hm =>
      findBlockIndex_none hn (mem_blocks_iff.mp hm)
    have habs : b ∉ (p.ensureOrder k).listAt k := by
      intro hm
      have hmem : (b, 2 ^ k) ∈ p.blocks := by
        rw [← blocks_ensureOrder p k]
        exact mem_blocks_iff.mpr hm
      have h1 := ind_le_cover (x := b) hmem
      have h2 : ind b (2 ^ k) b = 1 := ind_eq_one.mpr ⟨le_refl _, by omega⟩
      have h3 := fit b
      omega
    have hnone : (p.ensureOrder k).findBlockIndex k b = none := by
      rw [findBlockIndex, findIdx?_eq_none_iff]
      intro c hc
      simp only [beq_eq_false_iff_ne]
      rintro rfl
      exact habs hc
    rw [hnone]
    have hadd := push_adds hsound (lt_length_ensureOrder p k) ha hb
      (by rw [blocks_ensureOrder]; exact fit) hbuddy
    refine ⟨_, rfl, hadd.sound, fun x => ?_⟩
    rw [hadd.cover, blocks_ensureOrder]
termination_by p.blockCount

/-- `add_range` adds exactly the pages of its range. -/
lemma addRange_spec {b n p} (h : p.Sound) (hb : b + n ≤ maxPages)
    (fit : ∀ x, Lib.cover p.blocks x + ind b n x ≤ 1) :
    ∃ q, addRange b n p = .ok () q ∧ Adds p q b n := by
  rw [addRange]
  split
  · rename_i h0
    subst h0
    exact ⟨p, rfl, h, fun x => by simp⟩
  · rename_i h0
    have hlt := maxPages_lt
    obtain ⟨r, hr, hrw, hd, hle⟩ :=
      largestAlignedOrder_spec (b := b) h0 (show n < wordSize by omega)
    -- the rest of the range, after the block of order `r`
    obtain ⟨rest, rfl⟩ : ∃ rest, n = 2 ^ r + rest := ⟨n - 2 ^ r, by omega⟩
    have hfit1 : ∀ x, Lib.cover p.blocks x + ind b (2 ^ r) x ≤ 1 := fun x => by
      have := fit x
      rw [ind_add] at this
      omega
    obtain ⟨q, hq, hadd⟩ := addBlock_spec h hd (by omega) hfit1
    obtain ⟨q', hq', hadd'⟩ := addRange_spec (b := b + 2 ^ r) (n := rest) hadd.sound
      (by omega) (fun x => by
        have := fit x
        rw [ind_add] at this
        rw [hadd.cover]
        omega)
    rw [hr]
    simp only [hq]
    split
    · rename_i e he
      rw [blockPages_of_lt hrw] at he
      cases he
    · rename_i c hc
      rw [blockPages_of_lt hrw] at hc
      cases hc
      rw [checkedAdd_of_lt (show b + 2 ^ r < wordSize by omega), Nat.add_sub_cancel_left]
      exact ⟨q', hq', hadd.trans hadd'⟩
termination_by n

end BuddyPool

lemma findInList_total {x count j list} (hb : ∀ b ∈ list, b + count ≤ maxPages) :
    (findInList x count list j = some none ∧
      ∀ b ∈ list, ¬(b ≤ x ∧ x < b + count)) ∨
    ∃ i b, findInList x count list j = some (some (i, b)) := by
  induction list generalizing j with
  | nil => exact .inl ⟨rfl, by simp⟩
  | cons base rest ih =>
    have hlt := maxPages_lt
    have hbase := hb base mem_cons_self
    rw [findInList, checkedAdd_of_lt (by omega)]
    simp only
    split
    · exact .inr ⟨_, _, rfl⟩
    · rename_i hnot
      rcases ih (j := j + 1) (fun b h => hb b (mem_cons_of_mem _ h)) with h | h
      · exact .inl ⟨h.1, forall_mem_cons.mpr ⟨hnot, h.2⟩⟩
      · exact .inr h

lemma findContainingFrom_total {page order lists}
    (hb : ∀ r ∈ blocksFrom order lists, r.1 + r.2 ≤ maxPages)
    (hx : ∃ r ∈ blocksFrom order lists, page ∈ pagesOf r) :
    ∃ r, findContainingFrom page lists order = some r := by
  induction lists generalizing order with
  | nil => obtain ⟨r, hr, _⟩ := hx; cases hr
  | cons list lists ih =>
    have ho : order < wordBits := by
      obtain ⟨r, hr, _⟩ := hx
      have hle := hb r hr
      obtain ⟨i, _, _, _, hr2⟩ := mem_blocksFrom.mp hr
      have h1 : order + i + 1 < wordBits := order_lt_of_le (by omega)
      omega
    rw [findContainingFrom, blockPages_of_lt ho]
    simp only
    have hlist : ∀ b ∈ list, b + 2 ^ order ≤ maxPages := fun b hm =>
      hb (b, 2 ^ order) (mem_append_left _ (mem_map.mpr ⟨b, hm, rfl⟩))
    rcases findInList_total (x := page) (j := 0) hlist with ⟨h, hnone⟩ | ⟨i, b, h⟩
    · rw [h]
      apply ih (fun r hr => hb r (mem_append_right _ hr))
      obtain ⟨r, hr, hp⟩ := hx
      rcases mem_append.mp hr with hm | hm
      · obtain ⟨b, hbm, rfl⟩ := mem_map.mp hm
        exact absurd hp (hnone b hbm)
      · exact ⟨r, hm, hp⟩
    · rw [h]
      exact ⟨_, rfl⟩

namespace BuddyPool

variable {p : BuddyPool}

lemma Sound.found {page o i b} (h : p.Sound) (hf : p.findContainingBlock page = some (o, i, b)) :
    (p.listAt o)[i]? = some b ∧ (b, 2 ^ o) ∈ p.blocks ∧ blockPages o = .ok (2 ^ o) ∧
      b ≤ page ∧ page < b + 2 ^ o ∧ b + 2 ^ o ≤ maxPages := by
  obtain ⟨hg, count, hc, h1, h2⟩ := findContainingBlock_some hf
  have hmem : (b, 2 ^ o) ∈ p.blocks := mem_blocks_iff.mpr (mem_of_getElem? hg)
  have hle := h.bounded _ hmem
  have ho : o + 1 < wordBits := order_lt_of_le (by omega)
  have hbp := blockPages_of_lt (show o < wordBits by omega)
  rw [hbp] at hc
  cases hc
  exact ⟨hg, hmem, hbp, h1, h2, hle⟩

lemma Sound.find {page} (h : p.Sound) (hx : 0 < Lib.cover p.blocks page) :
    ∃ o i b, p.findContainingBlock page = some (o, i, b) := by
  obtain ⟨⟨o, i, b⟩, hr⟩ := findContainingFrom_total h.bounded (cover_pos.mp hx)
  exact ⟨o, i, b, hr⟩

/-- `contains_range` succeeds exactly when every page is covered. -/
lemma containsFrom_spec {p endPage current} (h : p.Sound) :
    containsFrom p endPage current = true ↔
      ∀ x, current ≤ x → x < endPage → 0 < Lib.cover p.blocks x := by
  have hlt := maxPages_lt
  rw [containsFrom]
  split
  · rename_i hce
    split
    · rename_i hf
      refine ⟨fun hf => absurd hf Bool.false_ne_true, fun hall => ?_⟩
      obtain ⟨o, i, b, hs⟩ := h.find (hall current (le_refl _) hce)
      rw [hf] at hs
      cases hs
    · rename_i o i b hf
      obtain ⟨_, hmem, hbp, h1, h2, h3⟩ := h.found hf
      split
      · rename_i e he
        rw [hbp] at he
        cases he
      · rename_i c hc
        rw [hbp] at hc
        cases hc
        split
        · rename_i hn
          rw [checkedAdd_of_lt (by omega)] at hn
          cases hn
        · rename_i blockEnd hs
          obtain ⟨rfl, _⟩ := checkedAdd_eq_some.mp hs
          rw [containsFrom_spec h]
          constructor
          · intro hall x hx1 hx2
            rcases lt_or_ge x (b + 2 ^ o) with hin | hout
            · exact cover_pos.mpr ⟨_, hmem, by omega, hin⟩
            · exact hall x (by omega) hx2
          · intro hall x hx1 hx2
            exact hall x (by omega) hx2
  · exact ⟨fun _ x hx1 hx2 => by omega, fun _ => rfl⟩
termination_by endPage - current

lemma containsRange_spec {base count} (h : p.Sound) :
    p.containsRange base count = true ↔ count ≠ 0 ∧ base + count < wordSize ∧
      ∀ x, base ≤ x → x < base + count → 0 < Lib.cover p.blocks x := by
  rw [containsRange]
  split
  · rename_i hn
    constructor
    · intro hf; cases hf
    · rintro ⟨_, hlt, _⟩
      rw [checkedAdd_of_lt hlt] at hn
      cases hn
  · rename_i endPage hs
    obtain ⟨rfl, hlt⟩ := checkedAdd_eq_some.mp hs
    split
    · rename_i h0
      simp [h0]
    · rename_i h0
      rw [containsFrom_spec h]
      exact ⟨fun hall => ⟨h0, hlt, hall⟩, fun hbound => hbound.2.2⟩

lemma addRange_side {base stop} (h : p.Sound) (hle : base ≤ stop) (hb : stop ≤ maxPages)
    (fit : ∀ x, Lib.cover p.blocks x + ind base (stop - base) x ≤ 1) :
    ∃ q, (if base < stop then addRange base (stop - base) p else .ok () p) = .ok () q ∧
      Adds p q base (stop - base) := by
  split
  · exact addRange_spec h (by omega) fit
  · rename_i hn
    have e : stop - base = 0 := by omega
    exact ⟨p, rfl, h, fun x => by rw [e]; simp⟩

/-- `q` is `p` without the pages of a range that `p` covers. -/
structure Removes (p q : BuddyPool) (base count : Nat) : Prop where
  sound : q.Sound
  cover : ∀ x, Lib.cover q.blocks x + ind base count x = Lib.cover p.blocks x

/-- `carve_range` never fails on a covered range, and removes exactly its pages. -/
lemma carveFrom_spec {p : BuddyPool} {e k} (h : p.Sound) (hle : k ≤ e)
    (hall : ∀ x, k ≤ x → x < e → 0 < Lib.cover p.blocks x) :
    ∃ q, carveFrom e k p = .ok () q ∧ Removes p q k (e - k) := by
  have hlt := maxPages_lt
  rw [carveFrom]
  split
  · rename_i hce
    split
    · rename_i hf
      obtain ⟨o, i, b, hs⟩ := h.find (hall k (le_refl _) hce)
      rw [hf] at hs
      cases hs
    · rename_i o i b hf
      obtain ⟨hg, hmem, hbp, h1, h2, h3⟩ := h.found hf
      split
      · rename_i e he
        rw [hbp] at he
        cases he
      · rename_i c hc
        rw [hbp] at hc
        cases hc
        split
        · rename_i hn
          rw [checkedAdd_of_lt (by omega)] at hn
          cases hn
        · rename_i blockEnd hs
          obtain ⟨hbe, _⟩ := checkedAdd_eq_some.mp hs
          -- the block without its list entry, cut at `k` and at the end of the carved part
          have hsound1 := h.removeAt hg
          have hcov1 : ∀ x, Lib.cover p.blocks x =
              ind b (2 ^ o) x + Lib.cover (p.removeAt o i).blocks x := fun x => by
            rw [cover_perm (blocks_removeAt hg), cover_cons]
          obtain ⟨stop, hstop⟩ : ∃ stop, stop = if blockEnd < e then blockEnd else e :=
            ⟨_, rfl⟩
          have hs1 : k < stop := by rw [hstop]; split <;> omega
          have hs2 : stop ≤ blockEnd := by rw [hstop]; split <;> omega
          have hs3 : stop ≤ e := by rw [hstop]; split <;> omega
          have hcut : ∀ x, ind b (2 ^ o) x = ind b (k - b) x + ind k (stop - k) x
              + ind stop (blockEnd - stop) x := fun x => by
            rw [show 2 ^ o = (k - b) + (stop - k) + (blockEnd - stop) from by omega,
              ind_add, ind_add, show b + (k - b) = k from by omega,
              show b + (k - b + (stop - k)) = stop from by omega]
          have hdis := h.disjoint
          obtain ⟨p2, hp2, hadd2⟩ := addRange_side hsound1 h1 (by omega) (fun x => by
            have := hdis x
            rw [hcov1, hcut] at this
            omega)
          obtain ⟨p3, hp3, hadd3⟩ := addRange_side hadd2.sound hs2 (by omega) (fun x => by
            have := hdis x
            rw [hcov1, hcut] at this
            rw [hadd2.cover]
            omega)
          have hcov3 : ∀ x, Lib.cover p3.blocks x + ind k (stop - k) x
              = Lib.cover p.blocks x := fun x => by
            rw [hadd3.cover, hadd2.cover, hcov1, hcut]
            omega
          have hout : ∀ x, stop ≤ x → ind k (stop - k) x = 0 := fun x hx =>
            if_neg (by omega)
          obtain ⟨q, hq, hrem⟩ := carveFrom_spec (k := stop) hadd3.sound hs3
            (fun x hx1 hx2 => by
              have := hall x (by omega) hx2
              rw [← hcov3, hout x hx1] at this
              exact this)
          simp only [hp2, ← hstop, hp3]
          refine ⟨q, hq, hrem.sound, fun x => ?_⟩
          rw [← hcov3, ← hrem.cover,
            show e - k = (stop - k) + (e - stop) from by omega, ind_add,
            show k + (stop - k) = stop from by omega]
          omega
  · exact ⟨p, rfl, h, fun x => by rw [show e - k = 0 from by omega]; simp⟩
termination_by e - k

/-- Below saturation, `free_page_count` is the total size of the free blocks. -/
lemma freePageCountFrom_eq {l n} (hb : ∀ r ∈ blocksFrom k l, r.1 + r.2 ≤ maxPages)
    (hs : n + ((blocksFrom k l).map Prod.snd).sum < wordSize) :
    freePageCountFrom l k n =
      n + ((blocksFrom k l).map Prod.snd).sum := by
  induction l generalizing k n with
  | nil => rfl
  | cons list l ih =>
    have hsum : ((blocksFrom k (list :: l)).map Prod.snd).sum =
        list.length * 2 ^ k + ((blocksFrom (k + 1) l).map Prod.snd).sum := by
      rw [blocksFrom, map_append, sum_append, map_map]
      simp [Function.comp_def, map_const']
    have hlist : saturatingMul list.length ((checkedShl 1 k).getD 0) = list.length * 2 ^ k := by
      cases hl : list with
      | nil => simp [saturatingMul]
      | cons b list' =>
        -- a listed block bounds the k of its list
        have hle := hb (b, 2 ^ k)
          (by rw [blocksFrom, hl]; exact mem_append_left _ mem_cons_self)
        have ho : k + 1 < wordBits := order_lt_of_le (by omega)
        rw [checkedShl_one_of_lt (by omega), Option.getD_some, saturatingMul, ← hl]
        omega
    rw [freePageCountFrom, hlist, hsum, saturatingAdd, min_eq_left (by omega),
      ih (fun r hr => hb r (mem_append_right _ hr)) (by omega)]
    omega

lemma freePageCount_eq (h : p.Sound) : p.freePageCount = (p.blocks.map Prod.snd).sum := by
  have hle := sum_counts_le h.disjoint h.bounded
  have hlt := maxPages_lt
  have := freePageCountFrom_eq (l := p.freeLists) (k := 0) (n := 0) h.bounded
    (by rw [blocks] at hle; omega)
  rw [freePageCount, this, zero_add, blocks]

def Holds (p : BuddyPool) (base count : Nat) : Prop :=
  count ≠ 0 ∧ ∀ x, base ≤ x → x < base + count → 0 < Lib.cover p.blocks x

lemma Sound.lt_of_cover {x} (h : p.Sound) (hx : 0 < Lib.cover p.blocks x) :
    x < maxPages := by
  obtain ⟨r, hr, hm⟩ := cover_pos.mp hx
  have hb := h.bounded r hr
  rw [mem_pagesOf] at hm
  omega

lemma Removes.holds {p q base count} (h : Removes p q base count) (h0 : count ≠ 0) :
    p.Holds base count := by
  refine ⟨h0, fun x h1 h2 => ?_⟩
  have hc := h.cover x
  rw [ind_eq_one.mpr ⟨h1, h2⟩] at hc
  omega

/-- `allocate_range` hands out a range exactly when all its pages are free. -/
lemma allocateRange_iff {base count} (h : p.Sound) :
    (∃ q, allocateRange base count p = .ok () q ∧ Removes p q base count ∧ count ≠ 0 ∧
        base + count ≤ maxPages) ∨
      (∃ e, allocateRange base count p = .error e p) ∧ ¬p.Holds base count := by
  have hword := maxPages_lt
  by_cases hold : p.Holds base count
  · obtain ⟨h0, hall⟩ := id hold
    have hlast := h.lt_of_cover (hall (base + count - 1) (by omega) (by omega))
    have hlt : base + count < wordSize := by omega
    have hcont : p.containsRange base count = true := (containsRange_spec h).mpr ⟨h0, hlt, hall⟩
    obtain ⟨q, hq, hrem⟩ := carveFrom_spec (k := base) (e := base + count) h (by omega) hall
    rw [Nat.add_sub_cancel_left] at hrem
    refine .inl ⟨q, ?_, hrem, h0, by omega⟩
    rw [allocateRange, if_neg h0, checkedAdd_of_lt hlt, if_neg (by simp), hcont, if_neg (by simp),
      carveRange, checkedAdd_of_lt hlt]
    exact hq
  · have hcont : ¬p.containsRange base count = true := fun hc =>
      hold ⟨((containsRange_spec h).mp hc).1, ((containsRange_spec h).mp hc).2.2⟩
    refine .inr ⟨?_, hold⟩
    rw [allocateRange, if_pos (show (!p.containsRange base count) = true by simpa using hcont)]
    split
    · exact ⟨_, rfl⟩
    · split <;> exact ⟨_, rfl⟩

end BuddyPool

end Nanami.Memory
