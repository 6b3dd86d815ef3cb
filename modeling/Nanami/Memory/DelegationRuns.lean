import Nanami.Memory.UntypedRuns

/-!
# Reserving and reclaiming partitions

A reservation is recorded with its allocation before its authority is taken, so a failure leaves a
record without authority; only a record with authority can be reclaimed. Reclaiming revokes the
outer Generic, which no other holding derives from, and gives the range back to the sources and to
the allocator.
-/

namespace Nanami.Memory
open Nanami.Lib List PhysicalAllocator Delegation

/-! ## Records changed in place -/

variable {α : Type} {l : List α} {i : Nat} {f : α → α}

lemma mem_modify {b} (h : b ∈ l.modify i f) : b ∈ l ∨ ∃ a, l[i]? = some a ∧ b = f a := by
  obtain ⟨j, hj⟩ := mem_iff_getElem?.mp h
  rw [getElem?_modify] at hj
  obtain ⟨a, ha, rfl⟩ := Option.map_eq_some_iff.mp hj
  by_cases hij : i = j
  · subst hij
    exact .inr ⟨a, ha, if_pos rfl⟩
  · rw [if_neg hij]
    exact .inl (mem_of_getElem? ha)

variable {a : α} {β : Type} {g : α → Option β}

lemma modify_last : (l ++ [a]).modify l.length f = l ++ [f a] := by
  induction l with
  | nil => rfl
  | cons b l ih => rw [cons_append, length_cons, modify_succ_cons, ih, cons_append]

lemma filterMap_modify_of_eq (h : ∀ a, l[i]? = some a → g (f a) = g a) :
    (l.modify i f).filterMap g = l.filterMap g := by
  induction l generalizing i with
  | nil => simp
  | cons a l ih =>
    cases i with
    | zero => simp [filterMap_cons, h a rfl]
    | succ i => rw [modify_succ_cons, filterMap_cons, filterMap_cons, ih h]

lemma filterMap_modify_none {b} (ha : l[i]? = some a) (hb : g a = some b) (hf : g (f a) = none) :
    (l.filterMap g).Perm (b :: (l.modify i f).filterMap g) := by
  obtain ⟨rest, hold, hnew⟩ := filterMap_set (f := g) ha
  have hnew := hnew (f a)
  rw [hb] at hold
  rw [hf] at hnew
  rw [modify_eq_set_getElem?, ha]
  exact hold.trans (hnew.symm.cons b)

namespace MemoryManager

variable {s t : MemoryManager} {fl : List Holding} {ds : List Delegation} {b : PhysicalAllocator}
  {id : Nat}

/-- Only the delegations change, and what they give up or receive is in flight before or after. -/
lemma Inv.redelegate {fl'} (I : Inv s fl)
    (p : (fl ++ s.delegations.filterMap holding?).Perm
      (fl' ++ ds.filterMap holding?))
    (hd : ∀ d ∈ ds, d.Shaped ∧ ∀ h, d.holding? = some h →
      d.initialIndex < s.initialGenerics.length ∧
      ∃ c, s.kernel.cap h.descriptor = some c ∧ c.base = h.start ∧
        c.root = (s.initialGeneric d.initialIndex).capability)
    (hr : ∃ a, s.physicalAllocator = some a ∧ a.Valid ∧
      (ds.filterMap record?).Subperm a.allocations) :
    Inv { s with delegations := ds } fl' :=
  { I with
    ledger := by
      have q := p.append_left (s.physicalSources.entries.map sourceHolding ++
        (s.physicalFrames.entries.map (fun e => frameHolding e.2) ++
          s.pools.map (poolHolding s.kernel.cap)))
      have e : ∀ (f : List Holding) (D : List Delegation), (f ++ ({ s with delegations := D } :
          MemoryManager).holdings).Perm ((s.physicalSources.entries.map sourceHolding ++
          (s.physicalFrames.entries.map (fun e => frameHolding e.2) ++
          s.pools.map (poolHolding s.kernel.cap))) ++ (f ++ D.filterMap holding?)) := by
        intro f D
        refine List.Perm.trans ?_ (perm_append_comm_assoc _ _ _)
        simp only [holdings, append_assoc]
        exact List.Perm.refl _
      exact I.ledger.perm ((e fl s.delegations).trans (q.trans (e fl' ds).symm))
    delegated := fun d hm => (hd d hm).2
    shaped := fun d hm => (hd d hm).1
    reserves := hr }

/-- The record holds and keeps what it did. -/
structure Alike (d d' : Delegation) : Prop where
  holding : d'.holding? = d.holding?
  record : d'.record? = d.record?
  index : d'.initialIndex = d.initialIndex
  shaped : d.Shaped → d'.Shaped

lemma Inv.alter {f} (I : Inv s fl) (hf : ∀ d, s.delegations[i]? = some d → Alike d (f d)) :
    Inv (alterDelegation i f s) fl := by
  refine I.redelegate ?_ (fun d hd => ?_) ?_
  · rw [filterMap_modify_of_eq fun d hd => (hf d hd).holding]
  · rcases mem_modify hd with hd | ⟨d', hd', rfl⟩
    · exact ⟨I.shaped d hd, I.delegated d hd⟩
    · have A := hf d' hd'
      have hm := mem_of_getElem? hd'
      rw [A.holding, A.index]
      exact ⟨A.shaped (I.shaped d' hm), I.delegated d' hm⟩
  · obtain ⟨a, ha, hv, hsub⟩ := I.reserves
    refine ⟨a, ha, hv, ?_⟩
    rw [filterMap_modify_of_eq fun d hd => (hf d hd).record]
    exact hsub

variable {d : Delegation} {radix index address : Nat}

lemma alike_state {state} (h : d.info.state ≠ .reclaimed) (h' : state ≠ .reclaimed) :
    Alike d { d with info := { d.info with state := state } } where
  holding := by simp [holding?, h, h']
  record := by simp [record?, h, h']
  index := rfl
  shaped S := ⟨S.aligned, S.size, S.fits⟩

lemma alike_resources {resources} : Alike d { d with resources := resources } where
  holding := rfl
  record := rfl
  index := rfl
  shaped S := ⟨S.aligned, S.size, S.fits⟩

/-! ## Reserving -/

def Extent (s : MemoryManager) (address bytes : Nat) : Prop :=
  pageSize ∣ address ∧ address + bytes ≤ wordSize ∧
    ∃ b, s.physicalAllocator = some b ∧ b.Valid ∧ (s.delegations.filterMap record? ++
      ([⟨address >>> pageBits, bytesToPages bytes, false, false⟩] : List AllocationRecord)).Subperm
        b.allocations

lemma extent_of_record {a : PhysicalAllocation} {bytes} (hv : b.Valid)
    (hm : a.record ∈ b.allocations) (hd : pageSize ∣ bytes) (hpos : 0 < bytes)
    (hle : bytes + pageSize ≤ wordSize) (hcount : a.pageCount = bytesToPages bytes) :
    wrappingShl a.basePage pageBits = a.basePage * pageSize ∧
      a.basePage * pageSize + bytes ≤ wordSize := by
  have hbound : a.basePage + a.pageCount ≤ maxPages := hv.bounded _ hm
  have hb := bytesToPages_of_dvd hd hle
  rw [← hcount] at hb
  have e : wordSize = maxPages * pageSize := rfl
  have h2 : a.basePage * pageSize + a.pageCount * pageSize ≤ maxPages * pageSize := by
    rw [← add_mul]
    exact Nat.mul_le_mul_right _ hbound
  rw [hb, ← e] at h2
  exact ⟨wrappingShl_page (by omega), h2⟩

lemma selectExtent_spec {l} (I : Inv s []) (h1 : 29 ≤ radix) (h2 : radix < wordBits) :
    sure (selectExtent (2 ^ radix) l) (fun r t => Steady s t ∧
        ∀ index address, r = some (index, address) → Extent t address (2 ^ radix)) s := by
  induction l generalizing s with
  | nil => exact ⟨.refl I, nofun⟩
  | cons e l ih =>
    refine wp_ite (fun _ => ih I) (fun _ => ?_)
    refine wp_seq (callAllocator_records
      (P := fun v => v.pageCount = bytesToPages (2 ^ radix) ∧ v.isDevice = false) I fun a hv =>
        allocateAlignedInRange_spec hv) ?_
    rintro r t ⟨ht, hr⟩
    cases r with
    | error e =>
      refine wp_post (ih ht.1) (fun _ u hu => ⟨ht.trans hu.1, hu.2⟩)
    | ok v =>
      refine ⟨ht, fun index address heq => ?_⟩
      obtain ⟨⟨hcount, hdev⟩, b, hb, hv, hsub⟩ := hr v rfl
      cases heq
      have hd : pageSize ∣ 2 ^ radix := pow_dvd_pow 2 (le_trans (by decide) h1)
      have hle : 2 ^ radix + pageSize ≤ wordSize := by
        have : 2 ^ radix ≤ 2 ^ 63 := Nat.pow_le_pow_right (by decide) (Nat.le_of_lt_succ h2)
        have e : (2 : Nat) ^ 63 + pageSize ≤ wordSize := by decide
        omega
      have hm : v.record ∈ b.allocations :=
        hsub.subset (mem_append_right _ (mem_singleton_self _))
      obtain ⟨e1, e2⟩ := extent_of_record hv hm hd (Nat.two_pow_pos _) hle hcount
      rw [e1]
      refine ⟨dvd_mul_left _ _, e2, b, hb, hv, ?_⟩
      rw [ht.2.delegations]
      have e3 : v.record = ⟨(v.basePage * pageSize) >>> pageBits, bytesToPages (2 ^ radix), false,
          false⟩ := by
        rw [PhysicalAllocation.record, hcount, hdev, Nat.shiftRight_eq_div_pow]
        congr 1
        exact (Nat.mul_div_cancel _ (by decide)).symm
      rw [← e3]
      exact hsub

lemma Inv.reserve (I : Inv s []) (h : Extent s address (2 ^ radix)) (h1 : 29 ≤ radix)
    (h2 : radix < wordBits) : Inv { s with delegations := s.delegations ++
      [⟨⟨address, 2 ^ radix, .reserved⟩, index, none, []⟩] } [] := by
  obtain ⟨hd, hfit, b, hb, hv, hsub⟩ := h
  refine I.redelegate ?_ (fun d hm => ?_) ⟨b, hb, hv, ?_⟩
  · simp [filterMap_append, holding?]
  · rcases mem_append.mp hm with hm | hm
    · exact ⟨I.shaped d hm, I.delegated d hm⟩
    · rw [mem_singleton.mp hm]
      exact ⟨⟨hd, ⟨radix, h1, h2, rfl⟩, hfit⟩, nofun⟩
  · rw [filterMap_append]
    exact hsub

lemma Inv.empower {slot root} (I : Inv s [⟨slot.descriptor, address, address + 2 ^ radix⟩])
    (hds : s.delegations = ds ++ [⟨⟨address, 2 ^ radix, .reserved⟩, index, none, []⟩])
    (hi : index < s.initialGenerics.length)
    (hd : Designates s.kernel.cap slot.descriptor address (2 ^ radix) root)
    (hroot : root = (s.initialGeneric index).capability) :
    Inv (alterDelegation ds.length (fun d => { d with authority := some slot }) s) [] ∧
      (alterDelegation ds.length (fun d => { d with authority := some slot }) s).delegations =
        ds ++ [⟨⟨address, 2 ^ radix, .reserved⟩, index, some slot, []⟩] := by
  have e : s.delegations.modify ds.length (fun d => { d with authority := some slot }) =
      ds ++ [⟨⟨address, 2 ^ radix, .reserved⟩, index, some slot, []⟩] := by
    rw [hds, modify_last]
  refine ⟨?_, e⟩
  rw [alterDelegation, e]
  obtain ⟨a, ha, hv, hsub⟩ := I.reserves
  rw [hds] at hsub
  have hshaped := I.shaped
  have hdelegated := I.delegated
  rw [hds] at hshaped hdelegated
  refine I.redelegate ?_ (fun d hm => ?_) ⟨a, ha, hv, ?_⟩
  · rw [hds]
    refine perm_append_comm.trans ?_
    simp [holding?]
  · rcases mem_append.mp hm with hm | hm
    · exact ⟨hshaped d (mem_append_left _ hm), hdelegated d (mem_append_left _ hm)⟩
    · rw [mem_singleton.mp hm]
      have S := hshaped _ (mem_append_right _ (mem_singleton_self _))
      refine ⟨⟨S.aligned, S.size, S.fits⟩, fun h hh => ?_⟩
      cases hh
      obtain ⟨c, hc, _, hb, _, hr⟩ := hd
      exact ⟨hi, c, hc, hb, hr.trans hroot⟩
  · rw [filterMap_append] at hsub ⊢
    exact hsub

def Reserving (s : MemoryManager) (index : Nat) (authority : Slot) : Prop :=
  ∃ d, s.delegations[index]? = some d ∧ d.authority = some authority ∧ d.info.state = .reserved

lemma Reserving.source_ne {index authority} (I : Inv s fl) (h : Reserving s index authority) :
    ∀ e ∈ s.physicalSources.entries, e.2.descriptor ≠ authority.descriptor := by
  obtain ⟨d, hd, ha, hst⟩ := h
  intro e he
  have hh : d.holding? = some ⟨authority.descriptor, d.info.address, d.info.address + d.info.bytes⟩ := by
    simp [holding?, ha, hst]
  exact I.source_ne he (.inr (mem_append_right _ (mem_append_right _
    (mem_filterMap.mpr ⟨d, mem_of_getElem? hd, hh⟩))))

lemma cutResources_spec {authority radixes} (I : Inv s []) (h : Reserving s index authority) :
    wp (cutResources index authority radixes address)
      (fun _ t => Continues s t ∧ Reserving t index authority)
      (fun e t => e ≠ .panic ∧ Continues s t) s := by
  induction radixes generalizing s address with
  | nil => exact ⟨.refl I, h⟩
  | cons radix radixes ih =>
    refine wp_then (allocateSlot_spec I) (fun slot t ht => ?_)
      (fun _ _ h => ⟨h.1, h.2.steady.continues⟩)
    have h' : Reserving t index authority := by
      rw [Reserving, ht.2.delegations]
      exact h
    rw [wp_bind]
    refine wp_onKernel.mpr (wp_mono (convert_carves ht.1.ledger.nested) ?_ ?_)
    · rintro _ k ⟨g, C⟩
      have J := ht.1.refine .kernel (h'.source_ne ht.1) C.nested C.grows
      refine wp_mono (ih (J.alter fun d _ => alike_resources) ?_)
        (fun _ _ h => ⟨⟨h.1.1, h.1.2.trans ht.2.generics⟩, h.2⟩)
        (fun _ _ h => ⟨h.1, h.2.1, h.2.2.trans ht.2.generics⟩)
      obtain ⟨d, hd, ha, hst⟩ := h'
      refine ⟨{ d with resources := d.resources ++ [⟨slot.descriptor, address, radix, 0, 0⟩] }, ?_, ha,
        hst⟩
      rw [alterDelegation, getElem?_modify_eq, hd]
      rfl
    · intro e k hk
      exact ⟨nofun, ht.1.same .kernel hk, ht.2.generics⟩

lemma reserveAlphaMemory_spec (I : Inv s []) :
    wp (reserveAlphaMemory radix) (fun _ => Continues s)
      (fun e t => e ≠ .panic ∧ Continues s t) s := by
  refine wp_guard ⟨nofun, .refl I⟩ fun hr => ?_
  have hr : 29 ≤ radix ∧ radix < wordBits := by simpa using hr
  refine wp_then (ensureMetadataCapacity_spec I) (fun _ t ht => ?_)
    (fun _ _ h => ⟨h.1, h.2.continues⟩)
  rw [wp_read]
  refine wp_sure (selectExtent_spec ht.1 hr.1 hr.2) ?_
  rintro selected u ⟨hu, hext⟩
  have hnow := (ht.trans hu).continues
  refine wp_lookup ⟨nofun, hnow⟩ fun range hsel => ?_
  obtain ⟨initialIndex, address⟩ := range
  rw [wp_read, wp_update]
  refine wp_then (takePhysicalSourceSlot_spec (hu.1.reserve (hext _ _ hsel) hr.1 hr.2)
    (le_trans (by decide) hr.1)) ?_ (fun _ _ h => ⟨h.1, h.2.1, h.2.2.generics.trans hnow.2⟩)
  rintro slot v ⟨J, K, hi, _, hd⟩
  obtain ⟨J', e⟩ := J.empower K.delegations (by rw [K.generics]; exact hi) hd
    (by rw [K.initialGeneric])
  rw [wp_update, wp_bind]
  have hres : Reserving (alterDelegation u.delegations.length
      (fun d => { d with authority := some slot }) v) u.delegations.length slot :=
    ⟨⟨⟨address, 2 ^ radix, .reserved⟩, initialIndex, some slot, []⟩, by rw [e]; simp, rfl, rfl⟩
  have hnow' : Continues s (alterDelegation u.delegations.length _ v) :=
    ⟨J', K.generics.trans hnow.2⟩
  refine wp_mono (cutResources_spec J' hres) ?_ (fun _ _ h => ⟨h.1, hnow'.trans h.2⟩)
  rintro _ w ⟨hw, d, hd', _, hst⟩
  refine hnow'.trans ⟨hw.1.alter fun d' h' => ?_, hw.2⟩
  rw [hd'] at h'
  cases h'
  exact alike_state (by rw [hst]; nofun) (by nofun)

lemma takeDelegatedResources_spec (I : Inv s []) :
    wp (takeDelegatedResources id) (fun _ => Continues s)
      (fun e t => e ≠ .panic ∧ Continues s t) s := by
  refine wp_lookup ⟨nofun, .refl I⟩ fun index _ => ?_
  refine wp_lookup ⟨nofun, .refl I⟩ fun record hrec => ?_
  refine wp_guard ⟨nofun, .refl I⟩ fun hst => ?_
  refine ⟨I.alter fun d hd => ?_, rfl⟩
  rw [hrec] at hd
  cases hd
  exact alike_state (by rw [Decidable.not_not.mp hst]; nofun) (by nofun)

/-! ## Reclaiming -/

lemma Inv.release {h} (I : Inv s []) (hd : s.delegations[i]? = some d) (hh : d.holding? = some h) :
    Inv (alterDelegation i (fun d => { d with info := { d.info with state := .reclaimed } }) s) [h] := by
  obtain ⟨a, ha, hv, hsub⟩ := I.reserves
  obtain ⟨r, hr⟩ : ∃ r, d.record? = some r := by
    unfold holding? at hh
    split at hh
    · cases hh
    · rename_i hst
      exact ⟨_, record?_eq_some.mpr ⟨hst, rfl⟩⟩
  refine I.redelegate ?_ (fun d' hm => ?_) ⟨a, ha, hv, ?_⟩
  · exact filterMap_modify_none hd hh rfl
  · rcases mem_modify hm with hm | ⟨d₀, hd₀, rfl⟩
    · exact ⟨I.shaped d' hm, I.delegated d' hm⟩
    · have S := I.shaped d₀ (mem_of_getElem? hd₀)
      exact ⟨⟨S.aligned, S.size, S.fits⟩, nofun⟩
  · have p := filterMap_modify_none (f := fun d : Delegation =>
      { d with info := { d.info with state := .reclaimed } }) (g := record?) hd hr rfl
    exact ((sublist_cons_self _ _).subperm.trans p.symm.subperm).trans hsub

lemma Inv.revoke {h g k} (I : Inv s [h]) (hg : s.kernel.cap h.descriptor = some g)
    (hwhole : h.start = g.base) (hk : k.cap = revoked s.kernel.cap h.descriptor g) :
    Inv { s with kernel := k } [h] := by
  have hkeep : ∀ h' ∈ s.holdings, k.cap h'.descriptor = s.kernel.cap h'.descriptor := by
    intro h' hh'
    rw [hk]
    exact I.ledger.revoked_eq hg hwhole hh'
  have hroot : ∀ h' ∈ s.holdings, rootOf k.cap h'.descriptor = rootOf s.kernel.cap h'.descriptor := by
    intro h' hh'
    rw [rootOf, rootOf, hkeep h' hh']
  have hpools : s.pools.map (poolHolding k.cap) = s.pools.map (poolHolding s.kernel.cap) := by
    refine map_congr_left fun d hd => ?_
    have := hkeep _ (mem_holdings_pool hd)
    rw [descriptor_poolHolding] at this
    rw [poolHolding, poolHolding, this]
  have hhold : ({ s with kernel := k } : MemoryManager).holdings = s.holdings := by
    simp only [holdings, hpools]
  have hfixed : ({ s with kernel := k } : MemoryManager).fixedClaims = s.fixedClaims := by
    refine map_congr_left fun r hr => ?_
    obtain ⟨_, g', hg', e, _⟩ := I.heap r (Option.mem_toList.mp hr)
    obtain ⟨_, c, hc, _, hl, _⟩ := I.initial g' hg'
    obtain ⟨w, hw⟩ := revoked_initial hg hc hl
    rw [e, rootOf, rootOf, hc, show ({ s with kernel := k } : MemoryManager).kernel.cap g'.capability
      = some _ from hk ▸ hw]
    rfl
  constructor
  · rw [hhold, hfixed]
    have L := I.ledger.revoke hg hwhole
    rw [← hk] at L
    exact L
  · intro e he
    obtain ⟨c, hc, hrest⟩ := I.marked e he
    exact ⟨c, by rw [← hc]; exact hkeep _ (mem_holdings_source he), hrest⟩
  · exact I.indexed
  · intro e he
    exact (hroot _ (mem_holdings_source he)).trans (I.rooted e he)
  · intro d hd h' hh'
    obtain ⟨hi, c, hc, hrest⟩ := I.delegated d hd h' hh'
    refine ⟨hi, c, ?_, hrest⟩
    rw [← hc]
    exact hkeep _ (mem_append_right _ (mem_append_right _ (mem_append_right _
      (mem_filterMap.mpr ⟨d, hd, hh'⟩))))
  · exact I.shaped
  · exact I.pool
  · exact I.keyed
  · exact I.heap
  · intro g' hg'
    obtain ⟨hf, c, hc, hr, hl, hrest⟩ := I.initial g' hg'
    obtain ⟨w, hw⟩ := revoked_initial hg hc hl
    refine ⟨hf, { c with watermark := w }, ?_, hr, hl, hrest⟩
    rw [hk]
    exact hw
  · intro d c hc
    have hc : revoked s.kernel.cap h.descriptor g d = some c := hk ▸ hc
    obtain ⟨-, rfl⟩ | ⟨hc, -⟩ := of_revoked hc
    · exact I.roots _ g hg
    · exact I.roots d c hc
  · exact I.reserves

/-- The record of the reclaimed partition is found, and no other delegation loses its own. -/
lemma free_reclaimed {a : PhysicalAllocator} {r r'} {rest live : List AllocationRecord}
    {page stop : Nat} (hv : a.Valid) (hsub : (r :: live).Subperm a.allocations)
    (hdev : ∀ q ∈ r :: live, q.isDevice = false)
    (hpage : r.basePage ≤ page ∧ page < r.basePage + r.pageCount) (hstop : page < stop)
    (hp : a.allocations.Perm (r' :: rest))
    (hholds : PhysicalAllocator.holdsRange page stop r' = true)
    (hrest : rest.Subperm b.allocations) : live.Subperm b.allocations := by
  have hsub' := hsub.trans hp.subperm
  refine List.Subperm.trans ?_ hrest
  by_cases he : r' = r
  · subst he
    exact (subperm_cons _).mp hsub'
  · have hr' : r' ∉ live := by
      intro hm
      -- both records would hold the first page of the partition
      have hmr : r ∈ rest := by
        rcases mem_cons.mp (hsub'.subset mem_cons_self) with h | h
        · exact absurd h.symm he
        · exact h
      have hbound := hv.bounded r' (hp.mem_iff.mpr mem_cons_self)
      have hlt := maxPages_lt
      have hin : r'.basePage ≤ page ∧ page < r'.basePage + r'.pageCount := by
        unfold PhysicalAllocator.holdsRange at hholds
        split at hholds
        · cases hholds
        · rw [wrappingAdd, Nat.mod_eq_of_lt (by omega)] at hholds
          simp only [Bool.and_eq_true, decide_eq_true_eq] at hholds
          omega
      have hc := hv.once false page
      rw [PhysicalAllocator.ranges, cover_append, PhysicalAllocator.extents,
        cover_perm ((hp.filter _).map _), cover_filter_cons (f := AllocationRecord.isDevice),
        if_pos (hdev r' (mem_cons_of_mem _ hm))] at hc
      have h1 : ind r'.extent.1 r'.extent.2 page = 1 := ind_eq_one.mpr hin
      have h2 : 0 < cover ((rest.filter (·.isDevice == false)).map AllocationRecord.extent) page :=
        cover_pos.mpr ⟨r.extent, mem_map.mpr ⟨r, mem_filter.mpr
          ⟨hmr, by simp [hdev r mem_cons_self]⟩, rfl⟩, hpage⟩
      omega
    have := ((sublist_cons_self r live).subperm.trans hsub').erase r'
    rwa [erase_of_not_mem hr', erase_cons_head] at this

/-- `reclaim_delegation` either fails before anything is given back, or gives everything back. -/
lemma reclaimDelegation_spec (I : Inv s []) :
    wp (reclaimDelegation id) (fun _ => Continues s)
      (fun e t => e ≠ .panic ∧ Continues s t) s := by
  refine wp_lookup ⟨nofun, .refl I⟩ fun index _ => ?_
  refine wp_lookup ⟨nofun, .refl I⟩ fun d hd => ?_
  refine wp_guard ⟨nofun, .refl I⟩ fun hst => ?_
  refine wp_lookup ⟨nofun, .refl I⟩ fun slot hslot => ?_
  have hmem := mem_of_getElem? hd
  have hh : d.holding? = some ⟨slot.descriptor, d.info.address, d.info.address + d.info.bytes⟩ := by
    simp [holding?, hst, hslot]
  obtain ⟨hi, c, hc, hbase, hroot⟩ := I.delegated d hmem _ hh
  rw [wp_bind]
  refine wp_onKernel.mpr (wp_mono Kernel.revoke_spec ?_ ?_)
  swap
  · intro e k hk
    exact ⟨nofun, I.same .kernel hk, rfl⟩
  rintro _ k ⟨g, hg, hkind, hk⟩
  have hg' := hg
  rw [show s.kernel.cap slot.descriptor = some c from hc] at hg'
  cases hg'
  rw [wp_update, wp_bind]
  -- the range goes back to the sources
  have hmark : Marked k.cap ⟨slot.descriptor, d.info.address, d.info.address + d.info.bytes⟩ := by
    refine ⟨{ c with watermark := c.base }, ?_, hbase.le, ?_, ?_, .inl hbase⟩
    · rw [hk]
      exact Function.update_self ..
    · rw [hbase]
      exact Nat.lt_add_of_pos_right (by decide)
    · rw [hbase, Nat.sub_self]
      exact dvd_zero _
  have hroot' : rootOf k.cap slot.descriptor = (s.initialGeneric d.initialIndex).capability := by
    rw [rootOf, hk, Function.update_self]
    exact hroot
  have J := ((I.release hd hh).revoke hc hbase.symm hk).land hmark hi hroot'
  -- and to the allocator
  have S := I.shaped d hmem
  obtain ⟨a, ha, hv, hsub⟩ := I.reserves
  have hr := record?_eq_some.mpr ⟨hst, rfl⟩
  obtain ⟨e1, e2, hcount, hres⟩ := record_extent S hr
  have p := filterMap_modify_none (f := fun d : Delegation =>
    { d with info := { d.info with state := .reclaimed } }) (g := record?) hd hr rfl
  have hsub' := p.symm.subperm.trans hsub
  have hbound := hv.bounded _ (hsub'.subset mem_cons_self)
  refine wp_callAllocator ha (wp_mono (free_spec hv) ?_ ?_)
  · rintro _ b ⟨hkeeps, _, _, r', rest, hp, hholds, hb⟩
    have hrest : rest.Subperm b.allocations := by
      rw [hb]
      exact (sublist_append_left _ _).subperm
    refine ⟨J.reallocate hkeeps.valid
      (free_reclaimed hv hsub' ?_ ⟨le_refl _, ?_⟩ ?_ hp hholds hrest), rfl⟩
    · intro q hq
      obtain ⟨d', _, hq'⟩ := mem_filterMap.mp (p.mem_iff.mpr hq)
      rw [(record?_eq_some.mp hq').2]
    · exact Nat.lt_add_of_pos_right (Nat.pos_of_ne_zero hcount)
    · exact Nat.lt_add_of_pos_right (Nat.pos_of_ne_zero hcount)
  · rintro e b ⟨rfl, hfree⟩
    refine absurd ⟨?_, S.bytes_pos.ne', ?_, _, hsub'.subset mem_cons_self, ?_⟩ hfree
    · exact isPageAligned_iff.mpr (Nat.mod_eq_zero_of_dvd S.aligned)
    · exact lt_of_le_of_lt hbound maxPages_lt
    · have hw : wrappingAdd (d.info.address >>> pageBits) (bytesToPages d.info.bytes) =
          d.info.address >>> pageBits + bytesToPages d.info.bytes :=
        Nat.mod_eq_of_lt (lt_of_le_of_lt hbound maxPages_lt)
      simp [PhysicalAllocator.holdsRange, hw]

end MemoryManager

end Nanami.Memory
