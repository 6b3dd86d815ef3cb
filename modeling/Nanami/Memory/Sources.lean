import Nanami.Memory.Untyped

/-!
# Taking memory out of the sources

`take_physical_source_slot` splits a source until the wanted block stands alone. Each conversion
lifts the source out of its table, cuts it in two, and lands the pieces: `takePhysicalSourceSlot_spec`
says that the block it returns is the one asked for, that it is then in flight, and that a failure at
any step leaves the tables in order.
-/

namespace Nanami.Memory
open Nanami.Lib List SortedMap

/-! ## The greedy split -/

variable {value : Nat} {bits start stop radix : Nat}

lemma trailingZeros_dvd : 2 ^ trailingZeros bits value ∣ value := by
  induction bits generalizing value with
  | zero => exact one_dvd _
  | succ bits ih =>
    rw [trailingZeros]
    split
    · exact one_dvd _
    · obtain ⟨q, hq⟩ : _ ∣ value / 2 := ih
      refine ⟨q, ?_⟩
      rw [pow_succ, mul_right_comm, ← hq]
      omega

lemma le_trailingZeros {k} (hk : k ≤ bits) (hd : 2 ^ k ∣ value) : k ≤ trailingZeros bits value := by
  induction bits generalizing value k with
  | zero => omega
  | succ bits ih =>
    rw [trailingZeros]
    cases k with
    | zero => exact Nat.zero_le _
    | succ k =>
      obtain ⟨q, rfl⟩ := hd
      have e : 2 ^ (k + 1) * q = 2 * (2 ^ k * q) := by rw [pow_succ]; ring
      rw [e, if_neg (by omega), Nat.mul_div_cancel_left _ (by decide)]
      exact Nat.succ_le_succ (ih (by omega) ⟨q, rfl⟩)

lemma and_pageMask : value &&& (pageSize - 1) = value % pageSize :=
  Nat.and_two_pow_sub_one_eq_mod _ _

lemma prefixRadix_some (h : prefixRadix start stop = some radix) :
    pageBits ≤ radix ∧ 2 ^ radix ∣ start ∧ start + 2 ^ radix ≤ stop := by
  unfold prefixRadix checkedSub at h
  split at h
  · cases h
  · rename_i remaining hr
    split at hr
    · cases hr
      split at h
      · cases h
      · rename_i hc
        simp only [Bool.or_eq_true, decide_eq_true_eq, bne_iff_ne, ne_eq, not_or, not_lt,
          Decidable.not_not, and_pageMask] at hc
        obtain ⟨⟨hsize, hstart⟩, _⟩ := hc
        cases h
        have h0 : stop - start ≠ 0 := by
          have : 0 < pageSize := by decide
          omega
        refine ⟨le_min ?_ ?_, ?_, ?_⟩
        · exact le_trailingZeros (by decide) (Nat.dvd_of_mod_eq_zero hstart)
        · exact (Nat.le_log2 h0).mpr hsize
        · exact (pow_dvd_pow 2 (min_le_left _ _)).trans trailingZeros_dvd
        · have h1 : 2 ^ min (trailingZeros wordBits start) (Nat.log2 (stop - start)) ≤ stop - start :=
            (Nat.pow_le_pow_right (by decide) (min_le_right _ _)).trans (Nat.log2_self_le h0)
          omega
    · cases hr

lemma Marked.carve {caps d g} (h : Marked caps ⟨d, start, stop⟩) (hg : caps d = some g)
    (hr : pageBits ≤ radix) (hd : 2 ^ radix ∣ start) :
    firstAligned g.watermark (2 ^ radix) = start := by
  obtain ⟨g', hg', hle, hlt, _⟩ := h
  rw [show caps d = some g' from hg'] at hg
  cases hg
  have hp : pageSize ≤ 2 ^ radix := Nat.pow_le_pow_right (by decide) hr
  exact firstAligned_eq hd hle (Nat.lt_of_lt_of_le hlt (Nat.add_le_add_left hp _))

namespace MemoryManager

variable {s t : MemoryManager} {fl : List Holding}

/-! ## Lifting and landing -/

variable {fl' : List Holding} {bytes : Nat} {caps caps' : Caps} {source : CapabilityDescriptor}

/-- Only the sources change, and what they give up or receive is in flight before or after. -/
lemma Inv.reseat {m} (I : Inv s fl) (p : (fl ++ s.physicalSources.entries.map sourceHolding).Perm
      (fl' ++ m.entries.map sourceHolding))
    (hm : ∀ e ∈ m.entries, Marked s.kernel.cap (sourceHolding e) ∧
      (ofLex e.1).1 < s.initialGenerics.length ∧
      rootOf s.kernel.cap e.2.descriptor = (s.initialGeneric (ofLex e.1).1).capability) :
    Inv { s with physicalSources := m } fl' :=
  { I with
    ledger := by
      have q := p.append_right (s.physicalFrames.entries.map (fun e => frameHolding e.2) ++
        (s.pools.map (poolHolding s.kernel.cap) ++ s.delegations.filterMap Delegation.holding?))
      rw [append_assoc, append_assoc] at q
      exact I.ledger.perm q
    marked e he := (hm e he).1
    indexed e he := (hm e he).2.1
    rooted e he := (hm e he).2.2 }

variable {index start stop radix address : Nat} {src : PhysicalSource}
  {d dst : CapabilityDescriptor}

lemma Inv.lift (I : Inv s fl) (he : (toLex (index, start), src) ∈ s.physicalSources.entries) :
    Inv (removeSource index start s) (⟨src.descriptor, start, src.stop⟩ :: fl) := by
  refine I.reseat ?_ (fun e h => ?_)
  · refine (((erase_perm he).map sourceHolding).append_left fl).trans ?_
    exact perm_middle
  · have hm := (mem_erase.mp h).1
    exact ⟨I.marked e hm, I.indexed e hm, I.rooted e hm⟩

lemma Inv.land (I : Inv s (⟨d, start, stop⟩ :: fl)) (hmark : Marked s.kernel.cap ⟨d, start, stop⟩)
    (hidx : index < s.initialGenerics.length)
    (hroot : rootOf s.kernel.cap d = (s.initialGeneric index).capability) :
    Inv (insertSource index start ⟨stop, d⟩ s) fl := by
  -- a source with this key would share its first byte
  have hnone : s.physicalSources.get? (toLex (index, start)) = none := by
    cases hs : s.physicalSources.get? (toLex (index, start)) with
    | none => rfl
    | some src =>
      have he := get?_eq_some.mp hs
      obtain ⟨_, _, _, _, hlt, _⟩ := I.ledger.backed _ mem_cons_self
      obtain ⟨_, _, _, _, hlt', _⟩ := I.backed (mem_holdings_source he)
      refine absurd (I.ledger.apart (mem_append_right _ (mem_holdings_source he)) ?_
        (le_refl start) hlt (le_refl _) hlt') not_false
      exact hroot.trans (I.rooted _ he).symm
  refine I.reseat ?_ (fun e h => ?_)
  · have p := (insert_perm (m := s.physicalSources) (k := toLex (index, start))
      (a := (⟨stop, d⟩ : PhysicalSource))).map sourceHolding
    rw [erase_of_get?_none hnone] at p
    refine List.Perm.trans ?_ (p.append_left fl).symm
    exact perm_middle.symm
  · rcases mem_insert.mp h with rfl | ⟨hm, _⟩
    · exact ⟨hmark, hidx, hroot⟩
    · exact ⟨I.marked e hm, I.indexed e hm, I.rooted e hm⟩

lemma Inv.retain (I : Inv s ((if start < stop then [⟨d, start, stop⟩] else []) ++ fl))
    (hmark : Marked s.kernel.cap ⟨d, start, stop⟩) (hidx : index < s.initialGenerics.length)
    (hroot : rootOf s.kernel.cap d = (s.initialGeneric index).capability) :
    Inv (retainSource index start ⟨stop, d⟩ s) fl := by
  unfold retainSource
  by_cases h : start < stop
  · rw [if_pos h] at I ⊢
    exact I.land hmark hidx hroot
  · rw [if_neg h] at I ⊢
    exact I

lemma Inv.permute (I : Inv s fl) (p : fl.Perm fl') : Inv s fl' :=
  { I with ledger := I.ledger.perm (p.append_right _) }

lemma Inv.cut {d dst start mid stop c child} (I : Inv s (⟨d, start, stop⟩ :: fl))
    (hc : s.kernel.cap d = some c) (hchild : s.kernel.cap dst = some child)
    (hkind : child.kind = .generic) (hroot : child.root = c.root) (hbase : child.base = start)
    (hend : child.stop = mid) (hlt : start < mid) (hle : mid ≤ stop) :
    Inv s (⟨dst, start, mid⟩ :: ((if mid < stop then [⟨d, mid, stop⟩] else []) ++ fl)) := by
  refine { I with ledger := ?_ }
  rw [cons_append, append_assoc]
  exact I.ledger.cut hc hchild hkind hroot hbase hend hlt hle

/-- What a conversion out of a source does, once the source is out of its table: the block is in
flight, and so is the remainder. -/
lemma Inv.carve {k g} (I : Inv s fl) (he : (toLex (index, start), src) ∈ s.physicalSources.entries)
    (C : Carved s.kernel.cap k.cap src.descriptor dst .generic g start bytes)
    (hb : bytes = 2 ^ radix) : Inv (removeSource index start { s with kernel := k })
      (⟨dst, start, start + bytes⟩ ::
        ((if start + bytes < src.stop then [⟨src.descriptor, start + bytes, src.stop⟩] else []) ++ fl)) := by
  obtain ⟨c, hc, hkind, _, _, hstop⟩ := I.backed (mem_holdings_source he)
  cases C.parent.symm.trans hc
  have J := (I.lift he).refine (t := removeSource index start { s with kernel := k })
    (x := src.descriptor) ⟨⟨rfl, rfl, rfl, rfl, rfl, rfl, rfl⟩, rfl⟩
    (fun e h => (I.lift he).source_ne h (.inl mem_cons_self)) C.nested C.grows
  have hpos : 0 < bytes := hb ▸ Nat.two_pow_pos radix
  refine J.cut C.after C.child rfl rfl rfl rfl (by omega) ?_
  have : src.stop = g.stop := hstop
  rw [this]
  exact C.fits

lemma kept_retain : Kept s (retainSource index start src s) := by
  unfold retainSource
  split
  · exact ⟨rfl, rfl, rfl, rfl, rfl, rfl, rfl⟩
  · exact .refl

lemma mem_retain (h : start < src.stop) :
    (toLex (index, start), src) ∈ (retainSource index start src s).physicalSources.entries := by
  rw [retainSource, if_pos h]
  exact mem_insert.mpr (.inl rfl)

@[simp] lemma kernel_retain : (retainSource index start src s).kernel = s.kernel := by
  unfold retainSource
  split <;> rfl

/-! ## Taking -/

lemma marked_child {g} (C : Carved caps caps' source dst .generic g start bytes) :
    Marked caps' ⟨dst, start, stop⟩ :=
  ⟨_, C.child, Nat.le_refl _, Nat.lt_add_of_pos_right (by decide), by simp, .inl rfl⟩

lemma marked_rest {g} (C : Carved caps caps' source dst .generic g start (2 ^ radix))
    (h : Marked caps ⟨source, start, stop⟩) (hr : pageBits ≤ radix) (hb : g.base ≤ start) :
    Marked caps' ⟨source, start + 2 ^ radix, stop⟩ := by
  obtain ⟨g', hg', _, _, hd, _⟩ := h
  rw [show caps source = some g from C.parent] at hg'
  cases hg'
  refine ⟨_, C.after, Nat.le_refl _, Nat.lt_add_of_pos_right (by decide), ?_, .inl rfl⟩
  rw [Nat.sub_add_comm hb]
  exact dvd_add hd (pow_dvd_pow 2 hr)

def Designates (caps : Caps) (d : CapabilityDescriptor) (start bytes : Nat) (root : CapabilityDescriptor) :
    Prop :=
  ∃ c, caps d = some c ∧ c.kind = .generic ∧ c.base = start ∧ c.size = bytes ∧ c.root = root

/-- What one conversion leaves when the source is out of its table: the block and the remainder are
in flight, ready to land. -/
structure Split (s t : MemoryManager) (index start bytes : Nat) (src : PhysicalSource)
    (dst : CapabilityDescriptor) : Prop where
  inv : Inv t (⟨dst, start, start + bytes⟩ ::
    (if start + bytes < src.stop then [⟨src.descriptor, start + bytes, src.stop⟩] else []))
  kept : Kept s t
  indexed : index < t.initialGenerics.length
  block : Designates t.kernel.cap dst start bytes (s.initialGeneric index).capability
  markedBlock : Marked t.kernel.cap ⟨dst, start, start + bytes⟩
  markedRest : Marked t.kernel.cap ⟨src.descriptor, start + bytes, src.stop⟩
  rootedRest : rootOf t.kernel.cap src.descriptor = (s.initialGeneric index).capability

lemma Kept.initialGeneric (K : Kept s t) (i : Nat) : t.initialGeneric i = s.initialGeneric i := by
  rw [MemoryManager.initialGeneric, MemoryManager.initialGeneric, K.generics]

lemma Designates.rootOf {caps d root start bytes} (h : Designates caps d start bytes root) :
    Memory.rootOf caps d = root := by
  obtain ⟨c, hc, _, _, _, hr⟩ := h
  rw [Memory.rootOf, hc]
  exact hr

lemma split_spec (I : Inv s []) (he : (toLex (index, start), src) ∈ s.physicalSources.entries)
    (hr : pageBits ≤ radix) (hd : 2 ^ radix ∣ start) :
    wp (onKernel (Kernel.convert src.descriptor .generic radix dst))
      (fun _ t => Split s (removeSource index start t) index start (2 ^ radix) src dst)
      (fun e t => e ≠ .panic ∧ Inv t [] ∧ Kept s t) s := by
  refine wp_onKernel.mpr (wp_mono (convert_carves I.ledger.nested) ?_ ?_)
  · rintro _ k ⟨g, C⟩
    have hmark := I.marked _ he
    have hroot : rootOf s.kernel.cap src.descriptor = (s.initialGeneric index).capability :=
      I.rooted _ he
    rw [show memorySizeBits .generic radix = radix from rfl, hmark.carve C.parent hr hd] at C
    have J := I.carve he C rfl
    rw [append_nil] at J
    obtain ⟨c, hc, _, hb, _⟩ := I.backed (mem_holdings_source he)
    cases C.parent.symm.trans hc
    rw [rootOf, C.parent] at hroot
    refine ⟨J, ⟨rfl, rfl, rfl, rfl, rfl, rfl, rfl⟩, I.indexed _ he, ⟨_, C.child, rfl, rfl, rfl, hroot⟩,
      marked_child C, marked_rest C hmark hr hb, ?_⟩
    show rootOf k.cap src.descriptor = _
    rw [rootOf, C.after]
    exact hroot
  · intro e k hk
    exact ⟨by rintro ⟨⟩, I.same .kernel hk, Same.kernel.toKept⟩

namespace Split

variable {index start bytes : Nat} {src : PhysicalSource} {dst : CapabilityDescriptor}

lemma retained (S : Split s t index start bytes src dst) :
    Inv (retainSource index (start + bytes) src t) [⟨dst, start, start + bytes⟩] :=
  (S.inv.permute (perm_append_singleton _ _).symm).retain S.markedRest S.indexed
    (by rw [S.rootedRest, S.kept.initialGeneric])

lemma landed (S : Split s t index start bytes src dst) (hpos : 0 < bytes) :
    Inv (retainSource index (start + bytes) src
      (retainSource index start ⟨start + bytes, dst⟩ t)) [] := by
  have h : start < start + bytes := Nat.lt_add_of_pos_right hpos
  have J := (S.inv.land S.markedBlock S.indexed (by rw [S.block.rootOf, S.kept.initialGeneric])).permute
    (List.Perm.of_eq (append_nil _).symm)
  rw [show retainSource index start ⟨start + bytes, dst⟩ t =
    insertSource index start ⟨start + bytes, dst⟩ t from if_pos h]
  refine J.retain S.markedRest S.indexed ?_
  show rootOf t.kernel.cap src.descriptor = (t.initialGeneric index).capability
  rw [S.rootedRest, S.kept.initialGeneric]

end Split

def Settled (s t : MemoryManager) : Prop := Inv t [] ∧ Kept s t

/-- The loop of `take_physical_source_slot` ends with a source that starts at `address`. -/
lemma takePrefixes_spec {cursor} (I : Inv s [])
    (he : (toLex (index, cursor), src) ∈ s.physicalSources.entries) (hle : cursor ≤ address)
    (hlt : address < src.stop) :
    wp (takePrefixes index address cursor)
      (fun c t => c = address ∧ Settled s t ∧
        (toLex (index, address), src) ∈ t.physicalSources.entries)
      (fun e t => e ≠ .panic ∧ Settled s t) s := by
  induction hn : address - cursor using Nat.strong_induction_on generalizing cursor s with
  | _ n ih =>
    rw [takePrefixes]
    split
    swap
    · have : cursor = address := by omega
      subst this
      exact ⟨rfl, ⟨I, .refl⟩, he⟩
    rename_i hc
    split
    · exact ⟨by rintro ⟨⟩, I, .refl⟩
    rename_i radix hradix
    obtain ⟨hr, hd, hfit⟩ := prefixRadix_some hradix
    have hpos := Nat.two_pow_pos radix
    rw [wp_read, get?_eq_some.mpr he, okOr_some, pure_bind]
    refine wp_then (allocateSlot_spec I) (fun slot t ht => ?_)
      (fun e t ht => ⟨ht.1, ht.2.1, ht.2.2.toKept⟩)
    refine wp_then (split_spec ht.1 (by rw [ht.2.sources]; exact he) hr hd) (fun _ u S => ?_)
      (fun e u hu => ⟨hu.1, hu.2.1, ht.2.toKept.trans hu.2.2⟩)
    have K : Kept s (retainSource index (cursor + 2 ^ radix) src (retainSource index cursor
        ⟨cursor + 2 ^ radix, slot.descriptor⟩ (removeSource index cursor u))) :=
      ht.2.toKept.trans (S.kept.trans (kept_retain.trans kept_retain))
    refine wp_mono (ih _ (by omega) (S.landed hpos) (mem_retain (by omega)) (by omega) rfl) ?_ ?_
    · exact fun c v hv => ⟨hv.1, ⟨hv.2.1.1, K.trans hv.2.1.2⟩, hv.2.2⟩
    · exact fun e v hv => ⟨hv.1, hv.2.1, K.trans hv.2.2⟩

lemma Inv.inside {c g} (I : Inv s fl) (hg : g ∈ s.initialGenerics) (hc : s.kernel.cap d = some c)
    (hroot : rootOf s.kernel.cap d = g.capability) :
    g.address ≤ c.base ∧ c.stop ≤ g.address + 2 ^ g.sizeRadix := by
  obtain ⟨_, r, hr, _, _, hbase, hsize⟩ := I.initial g hg
  rw [rootOf, hc] at hroot
  have hroot : c.root = g.capability := hroot
  rcases I.ledger.nested.rooted d c hc with h | h
  · rw [← h, hroot, hr] at hc
    cases hc
    exact ⟨hbase.ge, by rw [Capability.stop, hbase, hsize]⟩
  · obtain ⟨_, c', hc', h1, h2, _⟩ := I.ledger.nested.within d c hc _ h
    rw [hroot, hr] at hc'
    cases hc'
    have hstop : r.stop = g.address + 2 ^ g.sizeRadix := by rw [Capability.stop, hbase, hsize]
    exact ⟨hbase ▸ h1, hstop ▸ h2⟩

lemma initialGeneric_mem {i} (h : i < s.initialGenerics.length) :
    s.initialGeneric i ∈ s.initialGenerics := by
  rw [initialGeneric, getD_eq_getElem _ _ h]
  exact getElem_mem h

lemma sourceRange_some (h : s.sourceRange index address = some (start, stop)) :
    ∃ src, (toLex (index, start), src) ∈ s.physicalSources.entries ∧ src.stop = stop ∧
      start ≤ address ∧ address < stop := by
  unfold sourceRange at h
  split at h
  · cases h
  · rename_i key src hlast
    split at h
    · rename_i hlt
      cases h
      obtain ⟨hm, hlo, hhi⟩ := lastBetween_some hlast
      obtain ⟨i, a, rfl⟩ : ∃ i a, key = toLex (i, a) := ⟨(ofLex key).1, (ofLex key).2, rfl⟩
      rw [Prod.Lex.toLex_le_toLex] at hlo hhi
      have hi : i = index := by
        rcases hlo with h1 | h1 <;> rcases hhi with h2 | h2 <;> omega
      subst hi
      exact ⟨src, hm, rfl, by simpa using hhi, hlt⟩
    · cases h

/-- `take_physical_source_slot` returns a capability to exactly the block asked for, which no table
holds, or fails with the tables in order. -/
lemma takePhysicalSourceSlot_spec (I : Inv s []) (hr : pageBits ≤ radix) :
    wp (takePhysicalSourceSlot index address radix)
      (fun slot t => Inv t [⟨slot.descriptor, address, address + 2 ^ radix⟩] ∧ Kept s t ∧
        index < s.initialGenerics.length ∧ 2 ^ radix ∣ address ∧
        Designates t.kernel.cap slot.descriptor address (2 ^ radix) (s.initialGeneric index).capability)
      (fun e t => e ≠ .panic ∧ Settled s t) s := by
  refine wp_lookup ⟨nofun, I, .refl⟩ fun bytes hbytes => ?_
  refine wp_lookup ⟨nofun, I, .refl⟩ fun range hrange => ?_
  obtain ⟨cursor, stop⟩ := range
  obtain ⟨src, he, rfl, hle, hlt⟩ := sourceRange_some hrange
  refine wp_guard ⟨nofun, I, .refl⟩ fun hargs => ?_
  refine wp_seq (takePrefixes_spec I he hle hlt) ?_
  rintro c t ⟨hc, ht, het⟩
  rw [hc, wp_read, get?_eq_some.mpr het, okOr_some, pure_bind]
  refine wp_then (allocateSlot_spec ht.1) (fun slot u hu => ?_)
    (fun e u hu => ⟨hu.1, hu.2.1, ht.2.trans hu.2.2.toKept⟩)
  have heu : (toLex (index, address), src) ∈ u.physicalSources.entries := by
    rw [hu.2.sources]
    exact het
  have K := ht.2.trans hu.2.toKept
  rw [wp_bind]
  by_cases hw : radix < wordBits
  · have hb : bytes = 2 ^ radix := by
      rw [checkedPow2, checkedShl_one_of_lt hw] at hbytes
      cases hbytes
      rfl
    subst hb
    have hd : 2 ^ radix ∣ address := by
      simp only [Nat.and_two_pow_sub_one_eq_mod, Bool.or_eq_true, bne_iff_ne, ne_eq, not_or,
        Decidable.not_not] at hargs
      exact Nat.dvd_of_mod_eq_zero hargs.1
    refine wp_mono (split_spec hu.1 heu hr hd) (fun _ v S => ?_)
      (fun e v hv => ⟨hv.1, hv.2.1, K.trans hv.2.2⟩)
    refine ⟨S.retained, K.trans (S.kept.trans kept_retain), ?_, hd, ?_⟩
    · rw [← K.generics]
      exact hu.1.indexed _ heu
    · rw [kernel_retain, ← K.initialGeneric]
      exact S.block
  · refine wp_onKernel.mpr (wp_mono (convert_carves hu.1.ledger.nested) ?_ ?_)
    · -- no Generic is that large
      rintro _ k ⟨g, C⟩
      exfalso
      have hm := initialGeneric_mem (hu.1.indexed _ heu)
      have hin := (hu.1.inside hm C.parent (hu.1.rooted _ heu)).2
      have hfit := (hu.1.initial _ hm).fits
      have hp : wordSize ≤ 2 ^ memorySizeBits .generic radix :=
        Nat.pow_le_pow_right (by decide) (Nat.le_of_not_lt hw)
      have := C.fits
      omega
    · intro e k hk
      exact ⟨nofun, hu.1.same .kernel hk, K.trans Same.kernel.toKept⟩

end MemoryManager

end Nanami.Memory
