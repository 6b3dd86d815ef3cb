import Nanami.Memory.Bootstrap
import Nanami.Memory.Untyped

/-!
# The ledger at boot

Before the tables exist, what is left of each initial Generic is a holding: from the consumed
prefix `bootstrap` records to the end. Each object carved out of the bootstrap Generic moves the
prefix to where the kernel's watermark moves.
-/

namespace Nanami.Memory
open Nanami.Lib List MemoryResource AlphaEnvironment

/-! ## Arithmetic -/

variable {value i rootRadix : Nat} {r : MemoryResource} {caps' : Caps} {kind : CapabilityType}
  {slots : List Nat} {d : CapabilityDescriptor}

lemma dvd_firstAligned {unit} : unit ∣ firstAligned value unit := dvd_mul_left _ _

variable {start w radix : Nat} {α β : Type} {a : α} {g : Capability}

lemma firstAligned_page {k} (hk : pageBits ≤ k) (hd : pageSize ∣ start) (hle : value ≤ start)
    (hlt : start < value + pageSize) : firstAligned start (2 ^ k) = firstAligned value (2 ^ k) := by
  have hu : 0 < 2 ^ k := Nat.two_pow_pos k
  have hp : pageSize ∣ 2 ^ k := pow_dvd_pow 2 hk
  -- the aligned address at or above `value` is page aligned, so it is not below `start`
  have h1 : start ≤ firstAligned value (2 ^ k) := by
    have h2 : value ≤ firstAligned value (2 ^ k) := le_firstAligned hu
    exact Nat.le_of_lt_add_of_dvd (by omega) hd (hp.trans dvd_firstAligned)
  refine firstAligned_eq dvd_firstAligned h1 ?_
  have h5 : firstAligned value (2 ^ k) < value + 2 ^ k := by
    have := Nat.div_mul_le_self (value + (2 ^ k - 1)) (2 ^ k)
    unfold firstAligned
    omega
  omega

/-- The allocation `bootstrap` foresees: the first aligned block after the consumed prefix. -/
lemma nextInitialGenericAllocation_some {c k range} (hk : k < wordBits)
    (hr : r.sizeRadix < wordBits) (h : nextInitialGenericAllocation r c k = some range) :
    c < 2 ^ r.sizeRadix ∧
      range.2 = firstAligned (r.address + c) (2 ^ k) + 2 ^ k - r.address := by
  simp only [nextInitialGenericAllocation, checkedPow2, checkedShl_one_of_lt hr,
    checkedShl_one_of_lt hk, Option.bind_eq_bind, Option.bind_eq_some_iff, Option.bind_some] at h
  obtain ⟨stop, hstop, current, hcur, base, hbase, limit, hlimit, h⟩ := h
  obtain ⟨rfl, _⟩ := checkedAdd_eq_some.mp hstop
  obtain ⟨rfl, _⟩ := checkedAdd_eq_some.mp hcur
  obtain ⟨v, hv, hbase⟩ := Option.map_eq_some_iff.mp hbase
  obtain ⟨rfl, hlt⟩ := checkedAdd_eq_some.mp hv
  obtain rfl : firstAligned _ (2 ^ k) = base := (and_complement_mask hlt (le_of_lt hk)).symm.trans hbase
  obtain ⟨rfl, _⟩ := checkedAdd_eq_some.mp hlimit
  have hpos := Nat.two_pow_pos k
  have hle : r.address + min c (2 ^ r.sizeRadix) ≤
      firstAligned (r.address + min c (2 ^ r.sizeRadix)) (2 ^ k) := le_firstAligned hpos
  split at h
  · cases h
  · cases h
    have hc : c < 2 ^ r.sizeRadix := by omega
    rw [min_eq_left hc.le]
    exact ⟨hc, rfl⟩

/-! ## What is left of the initial Generics -/

/-- What is left of a Generic behind a prefix, if it can be a source. -/
def remainder (p : MemoryResource × Nat) : Option Holding :=
  if pageBits ≤ p.1.sizeRadix ∧ p.2 < 2 ^ p.1.sizeRadix then
    some ⟨p.1.capability, p.1.address + p.2, p.1.address + 2 ^ p.1.sizeRadix⟩
  else none

def remainders (resources : List MemoryResource) (consumed : List Nat) : List Holding :=
  (resources.zip consumed).filterMap remainder

lemma MemoryManager.Initial.radix_lt {caps} (h : MemoryManager.Initial caps r) :
    r.sizeRadix < wordBits := by
  have hfits := h.fits
  have hlt : 2 ^ r.sizeRadix < 2 ^ wordBits := by
    have : wordSize = 2 ^ wordBits := rfl
    omega
  exact (Nat.pow_lt_pow_iff_right (by decide)).mp hlt

/-- The invariant of the boot. `held` are the objects carved so far. -/
structure Booting (resources : List MemoryResource) (consumed : List Nat) (fixed : List Claim)
    (caps : Caps) (held : List Holding) : Prop where
  length : consumed.length = resources.length
  ledger : Ledger fixed caps (remainders resources consumed ++ held)
  marked : ∀ h ∈ remainders resources consumed, Marked caps h
  initial : ∀ r ∈ resources, MemoryManager.Initial caps r
  roots : ∀ d c, caps d = some c → ∃ r ∈ resources, c.root = r.capability

lemma zip_set {l : List α} {m} {b : β} (ha : l[i]? = some a) :
    l.zip (m.set i b) = (l.zip m).set i (a, b) := by
  induction l generalizing m i with
  | nil => cases ha
  | cons a' l ih =>
    cases m with
    | nil => rfl
    | cons b' m =>
      cases i with
      | zero =>
        cases ha
        rfl
      | succ i =>
        rw [set_cons_succ, zip_cons_cons, zip_cons_cons, set_cons_succ]
        rw [ih ha]

variable {rs : List MemoryResource} {cs : List Nat} {fixed : List Claim} {caps : Caps}
  {held : List Holding}

lemma remainder_some {c} (hr : pageBits ≤ r.sizeRadix) (hc : c < 2 ^ r.sizeRadix) :
    remainder (r, c) = some ⟨r.capability, r.address + c, r.address + 2 ^ r.sizeRadix⟩ :=
  if_pos ⟨hr, hc⟩

lemma remainder_from (hr : pageBits ≤ r.sizeRadix) (hw : r.address ≤ w) :
    (remainder (r, w - r.address)).toList =
      if w < r.address + 2 ^ r.sizeRadix then
        [⟨r.capability, w, r.address + 2 ^ r.sizeRadix⟩] else [] := by
  simp only [remainder]
  by_cases h : w < r.address + 2 ^ r.sizeRadix
  · rw [if_pos ⟨hr, by omega⟩, if_pos h, show r.address + (w - r.address) = w from by omega]
    rfl
  · rw [if_neg (fun h' => h (by omega)), if_neg h]
    rfl

lemma Booting.roots_grow {x} (B : Booting rs cs fixed caps held) (G : Grows x caps caps') :
    ∀ d c, caps' d = some c → ∃ r ∈ rs, c.root = r.capability := by
  intro d c hc
  obtain ⟨d', c', hc', e⟩ := G.roots d c hc
  rw [← e]
  exact B.roots d' c' hc'

/-- A call that moves the watermark of one Generic to `w`, where the recorded prefix moves too. -/
lemma Booting.advance {c : Nat} {fixed' : List Claim} {held' : List Holding}
    (B : Booting rs cs fixed caps held) (hr : rs[i]? = some r) (hc : cs[i]? = some c)
    (hsize : pageBits ≤ r.sizeRadix) (hlt : c < 2 ^ r.sizeRadix) (G : Grows r.capability caps caps')
    (hg : caps' r.capability = some { g with watermark := w }) (hbase : g.base = r.address)
    (hw : r.address ≤ w) (hpage : pageSize ∣ w - r.address) (hL : ∀ hs, Ledger fixed caps
        (⟨r.capability, r.address + c, r.address + 2 ^ r.sizeRadix⟩ :: (hs ++ held)) →
      Ledger fixed' caps' ((if w < r.address + 2 ^ r.sizeRadix then
        [⟨r.capability, w, r.address + 2 ^ r.sizeRadix⟩] else []) ++ (hs ++ held'))) :
    Booting rs (cs.set i (w - r.address)) fixed' caps' held' := by
  have hz : (rs.zip cs)[i]? = some (r, c) := by
    rw [getElem?_zip_eq_some]
    exact ⟨hr, hc⟩
  obtain ⟨rest, hp, hp'⟩ := filterMap_set (f := remainder) hz
  rw [remainder_some hsize hlt] at hp
  have hp' : (remainders rs (cs.set i (w - r.address))).Perm ((if w < r.address + 2 ^ r.sizeRadix then
      [⟨r.capability, w, r.address + 2 ^ r.sizeRadix⟩] else []) ++ rest) := by
    rw [remainders, zip_set hr, ← remainder_from hsize hw]
    exact hp' _
  have L := B.ledger.perm (hp.append_right held)
  refine ⟨?_, ?_, ?_, ?_, ?_⟩
  · rw [length_set]
    exact B.length
  · refine (hL rest L).perm ?_
    rw [← append_assoc]
    exact (hp'.append_right held').symm
  · intro h hh
    rcases mem_append.mp (hp'.mem_iff.mp hh) with hh | hh
    · split at hh
      · rw [mem_singleton.mp hh]
        exact ⟨_, hg, Nat.le_refl _, Nat.lt_add_of_pos_right (by decide), by rw [hbase]; exact hpage,
          .inl rfl⟩
      · cases hh
    · -- the other Generics have kept their watermark
      obtain ⟨c', hc', hmark⟩ := B.marked h (hp.mem_iff.mpr (mem_append_right _ hh))
      obtain ⟨v, hv, hsame⟩ := G.keeps _ _ hc'
      rcases hsame with hsame | rfl
      · exact absurd hsame (L.descriptor_ne (mem_append_left _ hh))
      · exact ⟨_, hv, hmark⟩
  · intro r' hr'
    obtain ⟨hfit, c', hc', h⟩ := B.initial r' hr'
    obtain ⟨v, hv, _⟩ := G.keeps _ _ hc'
    exact ⟨hfit, _, hv, h⟩
  · exact B.roots_grow G

lemma Booting.other {x caps'} (B : Booting rs cs fixed caps held)
    (hx : ∃ h ∈ held, h.descriptor = x) (N : Nested caps') (G : Grows x caps caps') :
    Booting rs cs fixed caps' held := by
  obtain ⟨k, hk, rfl⟩ := hx
  refine ⟨B.length, B.ledger.grow G N, fun h hh => ?_, fun r hr => ?_, B.roots_grow G⟩
  · obtain ⟨l, l', hl⟩ := append_of_mem hh
    have L : Ledger fixed caps (h :: (l ++ (l' ++ held))) := by
      have := B.ledger
      rw [hl, append_assoc, cons_append] at this
      exact this.perm perm_middle
    obtain ⟨c, hc, hmark⟩ := B.marked h hh
    obtain ⟨v, hv, hsame⟩ := G.keeps _ _ hc
    rcases hsame with hsame | rfl
    · exact absurd hsame.symm
        (L.descriptor_ne (mem_append_right _ (mem_append_right _ hk)))
    · exact ⟨_, hv, hmark⟩
  · obtain ⟨hfit, c, hc, h⟩ := B.initial r hr
    obtain ⟨v, hv, _⟩ := G.keeps _ _ hc
    exact ⟨hfit, _, hv, h⟩

/-! ## Objects carved at boot -/

lemma convertIntoRoot_spec {k source} (N : Nested k.cap) :
    wp (convertIntoRoot rootRadix source kind radix slots)
      (fun d t => ∃ g, Carved k.cap t.cap source d kind g
        (firstAligned g.watermark (2 ^ memorySizeBits kind radix)) (2 ^ memorySizeBits kind radix))
      (fun _ t => t.cap = k.cap) k := by
  induction slots generalizing k with
  | nil => exact rfl
  | cons slot slots ih =>
    rw [convertIntoRoot, wp_try]
    refine wp_mono (convert_carves N) (fun _ t ht => ht) (fun e t ht => ?_)
    split
    · cases ‹Except.error _ = Except.ok _›
    · rw [← ht]
      exact ih (ht ▸ N)
    · exact ht

/-- An object is carved behind the prefix of an initial Generic. A Generic is then held; the memory
of a node is used up. -/
lemma Booting.carve {c bytes} (B : Booting rs cs fixed caps held) (hr : rs[i]? = some r)
    (hc : cs[i]? = some c) (hsize : pageBits ≤ r.sizeRadix) (hlt : c < 2 ^ r.sizeRadix)
    (C : Carved caps caps' r.capability d kind g start bytes) (hstart : r.address + c ≤ start)
    (hpos : 0 < bytes) (hpage : pageSize ∣ start + bytes - r.address) :
    Booting rs (cs.set i (start + bytes - r.address)) fixed caps'
      ((if kind = .generic then [⟨d, start, start + bytes⟩] else []) ++ held) := by
  obtain ⟨_, g', hg', _, _, hbase, hgsize⟩ := B.initial r (mem_of_getElem? hr)
  rw [C.parent] at hg'
  cases hg'
  have hfits := C.fits
  rw [Capability.stop, hbase, hgsize] at hfits
  refine B.advance hr hc hsize hlt C.grows C.after hbase (by omega) hpage fun hs L => ?_
  have L' := (L.grow C.grows C.nested).shrink hstart (by omega)
  by_cases hk : kind = .generic
  · subst hk
    have L'' := L'.cut C.after C.child rfl rfl rfl rfl (show start < start + bytes by omega) hfits
    refine L''.perm ?_
    -- the new Generic moves behind the remainders
    exact perm_middle.symm.trans (perm_middle.symm.append_left _)
  · split
    · exact L'.shrink (by omega) (by assumption)
    · exact L'.tail

lemma createFromInitialGeneric_spec {k} (B : Booting rs cs fixed k.cap held)
    (halign : ∀ r ∈ rs, r.isDevice = false → pageBits ≤ r.sizeRadix → pageSize ∣ r.address)
    (hlow : pageBits ≤ memorySizeBits kind radix) (hhigh : memorySizeBits kind radix < wordBits) :
    ifOk (createFromInitialGeneric kind rs rootRadix i radix slots cs)
      (fun out t => ∃ c, t.cap out.1 = some c ∧ k.cap out.1 = none ∧ Grows c.root k.cap t.cap ∧
        Booting rs out.2 fixed t.cap
          ((if kind = .generic then [⟨out.1, c.base, c.stop⟩] else []) ++ held)) k := by
  simp only [createFromInitialGeneric, wp_bind]
  refine wp_okOr (fun r hr => ?_) (fun _ => trivial)
  refine wp_guard trivial fun hok => ?_
  simp only [Bool.or_eq_true, decide_eq_true_eq, not_or, Bool.not_eq_true, not_lt] at hok
  obtain ⟨hdev, hsize⟩ := hok
  have hmem : r ∈ rs := mem_of_getElem? hr
  obtain ⟨hfit, g, hg, hroot, hline, hbase, hgsize⟩ := B.initial r hmem
  have hradix := (B.initial r hmem).radix_lt
  refine wp_lookup trivial fun range hrange => ?_
  obtain ⟨hlt, hrange⟩ := nextInitialGenericAllocation_some hhigh hradix hrange
  obtain ⟨c, hc⟩ : ∃ c, cs[i]? = some c := by
    have hi := (List.getElem?_eq_some_iff.mp hr).1
    rw [← B.length] at hi
    exact ⟨_, getElem?_eq_getElem hi⟩
  rw [getD_eq_getElem?_getD, hc, Option.getD_some] at hlt hrange
  have hrest : (⟨r.capability, r.address + c, r.address + 2 ^ r.sizeRadix⟩ : Holding) ∈
      remainders rs cs := by
    refine mem_filterMap.mpr ⟨(r, c), ?_, remainder_some (hlow.trans hsize) hlt⟩
    exact mem_of_getElem? (getElem?_zip_eq_some.mpr ⟨hr, hc⟩)
  obtain ⟨g', hg', hle, hnear, hdvd, _⟩ := B.marked _ hrest
  rw [hg] at hg'
  cases hg'
  have hpage : pageSize ∣ r.address := halign r hmem hdev (hlow.trans hsize)
  -- the kernel aligns its watermark, the manager the recorded prefix
  have hprefix : pageSize ∣ r.address + c :=
    (Nat.dvd_add_iff_right hpage).mp (by simpa [hbase] using hdvd)
  have hsame := firstAligned_page hlow hprefix hle hnear
  refine wp_then (convertIntoRoot_spec B.ledger.nested) ?_ (fun _ _ _ => trivial)
  rintro d t ⟨g', C⟩
  obtain rfl : g = g' := by
    have := C.parent
    rw [hg] at this
    exact Option.some.inj this
  rw [← hsame] at C
  have hpos := Nat.two_pow_pos (memorySizeBits kind radix)
  have hunit : pageSize ∣ 2 ^ memorySizeBits kind radix := pow_dvd_pow 2 hlow
  have hstart : r.address + c ≤ firstAligned (r.address + c) (2 ^ memorySizeBits kind radix) :=
    le_firstAligned hpos
  have hdvd' := (hunit.trans dvd_firstAligned : pageSize ∣
    firstAligned (r.address + c) (2 ^ memorySizeBits kind radix))
  refine ⟨_, C.child, C.empty, ?_, ?_⟩
  · rw [hroot]
    exact C.grows
  · rw [hrange]
    exact B.carve hr hc (hlow.trans hsize) hlt C hstart hpos
      (Nat.dvd_sub (Nat.dvd_add hdvd' hunit) hpage)

/-! ## The capabilities the launcher installs -/

lemma of_validateResources {seen} (h : validateResources seen rs = true) :
    (∀ r ∈ rs, r.validate = true) ∧ (∀ r ∈ rs, r.capability ∉ seen) ∧ (rs.map capability).Nodup := by
  induction rs generalizing seen with
  | nil => exact ⟨nofun, nofun, nodup_nil⟩
  | cons r rs ih =>
    simp only [validateResources, Bool.and_eq_true, Bool.not_eq_true', contains_eq_mem,
      decide_eq_false_iff_not] at h
    obtain ⟨⟨h1, h2⟩, hrest⟩ := h
    obtain ⟨h3, h4, h5⟩ := ih hrest
    refine ⟨forall_mem_cons.mpr ⟨h1, h3⟩, forall_mem_cons.mpr ⟨h2, fun r' hr' hin => ?_⟩, ?_⟩
    · exact h4 r' hr' (mem_cons_of_mem _ hin)
    · refine nodup_cons.mpr ⟨fun hin => ?_, h5⟩
      obtain ⟨r', hr', e⟩ := mem_map.mp hin
      exact h4 r' hr' (e ▸ mem_cons_self)

lemma validate_lt (h : r.validate = true) : r.address + 2 ^ r.sizeRadix < wordSize := by
  simp only [MemoryResource.validate, MemoryResource.sizeBytes] at h
  split at h
  · cases h
  · rename_i size hsize
    split at hsize
    · cases hsize
    · cases hsize
      simp only [Bool.not_or, Bool.and_eq_true, Bool.not_eq_true', Option.isNone_eq_false_iff,
        Option.isSome_iff_exists, decide_eq_false_iff_not, not_lt] at h
      obtain ⟨⟨⟨_, _⟩, stop, hstop⟩, _⟩ := h
      obtain ⟨rfl, hlt⟩ := checkedAdd_eq_some.mp hstop
      exact hlt

lemma initialSlots_get? {c} (h : (initialSlots rs).get? d = some c) :
    ∃ r ∈ rs, r.capability = d ∧ c = r.installed := by
  induction rs with
  | nil => cases h
  | cons r rs ih =>
    rw [initialSlots, SortedMap.get?_insert] at h
    split at h
    · cases h
      exact ⟨r, mem_cons_self, by simp_all, rfl⟩
    · obtain ⟨r', hr', h'⟩ := ih h
      exact ⟨r', mem_cons_of_mem _ hr', h'⟩

lemma initialSlots_mem (hn : (rs.map capability).Nodup) (hr : r ∈ rs) :
    (initialSlots rs).get? r.capability = some r.installed := by
  induction rs with
  | nil => cases hr
  | cons r' rs ih =>
    rw [map_cons, nodup_cons] at hn
    rw [initialSlots, SortedMap.get?_insert]
    rcases mem_cons.mp hr with rfl | hr
    · rw [if_pos rfl]
    · rw [if_neg, ih hn.2 hr]
      intro he
      exact hn.1 (he ▸ mem_map_of_mem hr)

lemma claimed_le_one {l} (h : (l.map Prod.fst).Nodup) (root x : Nat) : claimed l root x ≤ 1 := by
  induction l with
  | nil => exact Nat.zero_le 1
  | cons a l ih =>
    rw [map_cons, nodup_cons] at h
    rw [claimed_cons]
    by_cases ha : a.1 = root
    · have hnone : claimed l root x = 0 := by
        have : l.filter (·.1 == root) = [] := by
          rw [filter_eq_nil_iff]
          intro b hb he
          exact h.1 (by rw [ha, ← beq_iff_eq.mp he]; exact mem_map_of_mem hb)
        rw [claimed, this]
        rfl
      rw [if_pos ha, hnone]
      exact ind_le_one
    · rw [if_neg ha, zero_add]
      exact ih h.2

lemma remainders_sublist :
    ((remainders rs cs).map Holding.descriptor).Sublist (rs.map capability) := by
  induction rs generalizing cs with
  | nil => exact List.Sublist.refl _
  | cons r rs ih =>
    cases cs with
    | nil => exact nil_sublist _
    | cons c cs =>
      have ih : ((remainders rs cs).map Holding.descriptor).Sublist _ := ih
      rw [remainders, zip_cons_cons, filterMap_cons, map_cons]
      unfold remainder
      split <;> rename_i h
      · exact ih.cons _
      · split at h
        · cases h
          exact ih.cons_cons _
        · cases h

lemma consumedPrefixes_some (h : consumedPrefixes rs = some cs) :
    cs.length = rs.length ∧ ∀ p ∈ rs.zip cs, consumedPrefix p.1 = some p.2 := by
  induction rs generalizing cs with
  | nil =>
    cases h
    exact ⟨rfl, nofun⟩
  | cons r rs ih =>
    rw [consumedPrefixes] at h
    split at h
    · split at h
      · rename_i c cs' hc hcs
        cases h
        obtain ⟨h1, h2⟩ := ih hcs
        refine ⟨by simp [h1], fun p hp => ?_⟩
        rcases mem_cons.mp hp with rfl | hp
        · exact hc
        · exact h2 p hp
      · cases h
    · cases h

/-- Before the first call, all that the launcher has not consumed is left. -/
lemma Booting.initially (hv : validateResources [] rs = true)
    (hc : consumedPrefixes rs = some cs) : Booting rs cs [] (initialSlots rs).get? [] := by
  obtain ⟨hvalid, -, hn⟩ := of_validateResources hv
  obtain ⟨hlen, hpre⟩ := consumedPrefixes_some hc
  have hget : ∀ r ∈ rs, (initialSlots rs).get? r.capability = some r.installed :=
    fun r => initialSlots_mem hn
  -- a remainder is that of a resource and its prefix
  have hrest : ∀ h ∈ remainders rs cs, ∃ r ∈ rs, ∃ c, consumedPrefix r = some c ∧
      pageBits ≤ r.sizeRadix ∧ c < 2 ^ r.sizeRadix ∧
      h = ⟨r.capability, r.address + c, r.address + 2 ^ r.sizeRadix⟩ := by
    intro h hh
    obtain ⟨⟨r, c⟩, hp, he⟩ := mem_filterMap.mp hh
    unfold remainder at he
    split at he
    · cases he
      exact ⟨r, (of_mem_zip hp).1, c, hpre _ hp, ‹_ ∧ _›.1, ‹_ ∧ _›.2, rfl⟩
    · cases he
  have hnested : Nested (initialSlots rs).get? := by
    constructor
    · intro d c hd p hp
      obtain ⟨r, _, _, rfl⟩ := initialSlots_get? hd
      cases hp
    · intro d c hd
      obtain ⟨r, _, rfl, rfl⟩ := initialSlots_get? hd
      exact .inl rfl
    · intro d c hd
      obtain ⟨r, _, _, rfl⟩ := initialSlots_get? hd
      exact Nat.le_add_right _ _
  refine ⟨hlen, ⟨hnested, ?_, fun root x => ?_⟩, ?_, ?_, ?_⟩
  · intro h hh
    rw [append_nil] at hh
    obtain ⟨r, hr, c, _, _, hlt, rfl⟩ := hrest h hh
    exact ⟨_, hget r hr, rfl, Nat.le_add_right _ _, Nat.add_lt_add_left hlt _, rfl⟩
  · rw [append_nil, nil_append]
    refine claimed_le_one ?_ root x
    have : ((remainders rs cs).map (Holding.claim (initialSlots rs).get?)).map Prod.fst =
        (remainders rs cs).map Holding.descriptor := by
      rw [map_map]
      refine map_congr_left fun h hh => ?_
      obtain ⟨r, hr, c, _, _, _, rfl⟩ := hrest h hh
      simp [Holding.claim, rootOf, hget r hr, installed]
    rw [this]
    exact hn.sublist remainders_sublist
  · intro h hh
    obtain ⟨r, hr, c, hpre, hsize, hlt, rfl⟩ := hrest h hh
    rw [consumedPrefix, if_pos hsize] at hpre
    obtain ⟨v, hv, rfl⟩ := Option.map_eq_some_iff.mp hpre
    obtain ⟨rfl, hv⟩ := checkedAdd_eq_some.mp hv
    have hround : (r.consumedBytes + (pageSize - 1)) &&& complement (pageSize - 1) =
        (r.consumedBytes + (pageSize - 1)) / pageSize * pageSize := and_complement_mask hv (by decide)
    rw [hround]
    refine ⟨_, hget r hr, ?_, ?_, ?_, .inr rfl⟩ <;>
      simp only [installed, pageSize, pageBits] <;> omega
  · intro r hr
    exact ⟨validate_lt (hvalid r hr), _, hget r hr, rfl, rfl, rfl, rfl⟩
  · intro d c hd
    obtain ⟨r, hr, _, rfl⟩ := initialSlots_get? hd
    exact ⟨r, hr, rfl⟩

lemma createRootNode_spec {k nodeRadix} (B : Booting rs cs fixed k.cap held)
    (hd : ∃ h ∈ held, h.descriptor = d) :
    ifOk (createRootNode rootRadix d nodeRadix slots)
      (fun _ t => Booting rs cs fixed t.cap held ∧ Grows d k.cap t.cap) k := by
  refine wp_mono (convertIntoRoot_spec B.ledger.nested) ?_ (fun _ _ _ => trivial)
  rintro _ t ⟨g, C⟩
  exact ⟨B.other hd C.nested C.grows, C.grows⟩

lemma nodeMemorySizeBits_directory : nodeMemorySizeBits directoryRadix = 15 := by
  decide +kernel

/-- The manager `bootstrap` returns, with the pool of metadata and the Generic of kernel objects
carved out of the bootstrap resource. -/
structure Bootstrapped (rs : List MemoryResource) (s : MemoryManager) : Prop where
  generics : s.initialGenerics = rs
  booting : ∃ h, h.descriptor = s.kernelObjectGeneric ∧
    Booting rs s.initialGenericConsumedBytes [] s.kernel.cap
      [MemoryManager.poolHolding s.kernel.cap s.nodePool.descriptor, h]
  delegated : s.initialGenericDelegatedBytes = s.initialGenericConsumedBytes
  pools : s.pools = [s.nodePool.descriptor]
  frames : s.physicalFrames = .empty
  sources : s.physicalSources = .empty
  delegations : s.delegations = []

lemma bootstrap_spec {e k} (hk : k.slots = initialSlots e.resources)
    (hv : validateResources [] e.resources = true)
    (halign : ∀ r ∈ e.resources, r.isDevice = false → pageBits ≤ r.sizeRadix →
      pageSize ∣ r.address) :
    ifOk (bootstrap e) (fun s _ => Bootstrapped e.resources s) k := by
  refine wp_guard trivial fun _ => ?_
  refine wp_lookup trivial fun cs hcs => ?_
  have B : Booting e.resources cs [] k.cap [] := by
    have hcap : k.cap = (initialSlots e.resources).get? := by
      funext d
      rw [Kernel.cap, hk]
    rw [hcap]
    exact .initially hv hcs
  refine wp_seq (createFromInitialGeneric_spec B halign (by decide) (by decide)) ?_
  rintro ⟨kernelObjectGeneric, cs₁⟩ k₁ ⟨c₁, hc₁, -, -, B₁⟩
  refine wp_seq (createFromInitialGeneric_spec B₁ halign (by decide) (by decide)) ?_
  rintro ⟨pool, cs₂⟩ k₂ ⟨c₂, hc₂, -, -, B₂⟩
  have B₂ : Booting e.resources cs₂ [] k₂.cap
    [⟨pool, c₂.base, c₂.stop⟩, ⟨kernelObjectGeneric, c₁.base, c₁.stop⟩] := B₂
  refine wp_seq (createFromInitialGeneric_spec B₂ halign ?_ ?_) ?_
  · rw [memorySizeBits, nodeMemorySizeBits_directory]
    decide
  · rw [memorySizeBits, nodeMemorySizeBits_directory]
    decide
  rintro ⟨directory, cs₃⟩ k₃ ⟨_, -, -, G₃, B₃⟩
  have hd : ∃ h ∈ [(⟨pool, c₂.base, c₂.stop⟩ : Holding), ⟨kernelObjectGeneric, c₁.base, c₁.stop⟩],
    h.descriptor = kernelObjectGeneric := ⟨_, mem_cons_of_mem _ mem_cons_self, rfl⟩
  refine wp_seq (createRootNode_spec B₃ hd) ?_
  rintro _ k₄ ⟨B₄, G₄⟩
  refine wp_seq (createRootNode_spec B₄ hd) ?_
  rintro _ k₅ ⟨B₅, G₅⟩
  refine wp_seq (createRootNode_spec B₅ hd) ?_
  rintro _ k₆ ⟨B₆, G₆⟩
  -- the pool is where it was carved, whatever was carved after it
  have hpool : MemoryManager.poolHolding k₆.cap pool = ⟨pool, c₂.base, c₂.stop⟩ := by
    obtain ⟨w₃, h₃, _⟩ := G₃.keeps _ _ hc₂
    obtain ⟨w₄, h₄, _⟩ := G₄.keeps _ _ h₃
    obtain ⟨w₅, h₅, _⟩ := G₅.keeps _ _ h₄
    obtain ⟨w₆, h₆, _⟩ := G₆.keeps _ _ h₅
    rw [MemoryManager.poolHolding, h₆]
    rfl
  refine ⟨rfl, ⟨⟨kernelObjectGeneric, c₁.base, c₁.stop⟩, rfl, ?_⟩, rfl, rfl, rfl, rfl, rfl⟩
  show Booting _ _ _ _ [MemoryManager.poolHolding k₆.cap pool, _]
  rw [hpool]
  exact B₆

end Nanami.Memory
