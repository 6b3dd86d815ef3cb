import Nanami.Memory.BootLedger
import Nanami.Memory.UntypedRuns

/-!
# From boot to the first operation

The frames of the heap use up the front of what is left of one initial Generic, the rest of each
initial Generic becomes a source, and the allocator is given the pages of the ordinary ones. The
manager that a boot returns satisfies the invariant of its operations.
-/

namespace Nanami.Memory
open Nanami.Lib List

/-! ## Frames of the heap -/

lemma Booting.frames {rs i c count r g cs fixed caps caps' held} (B : Booting rs cs fixed caps held)
    (hr : rs[i]? = some r) (hc : cs[i]? = some c) (hpage : pageSize ∣ r.address + c)
    (hcount : 0 < count) (hfit : c + count * pageSize ≤ 2 ^ r.sizeRadix)
    (hg : caps r.capability = some g) (hcaps : caps' = setWatermark caps r.capability g
      (firstAligned g.watermark pageSize + count * pageSize)) :
    Booting rs (cs.set i (r.address + c + count * pageSize - r.address))
      ((rootOf caps' r.capability, (r.address + c, count * pageSize)) :: fixed) caps' held := by
  obtain ⟨_, g', hg', _, _, hbase, hgsize⟩ := B.initial r (mem_of_getElem? hr)
  rw [hg] at hg'
  cases hg'
  have hbytes : pageSize ≤ count * pageSize := Nat.le_mul_of_pos_left _ hcount
  have hsize : pageBits ≤ r.sizeRadix := by
    refine (Nat.pow_le_pow_iff_right (by decide : 1 < 2)).mp ?_
    have : 2 ^ pageBits = pageSize := rfl
    omega
  have hpos : 0 < pageSize := by decide
  have hlt : c < 2 ^ r.sizeRadix := by omega
  have hrest : (⟨r.capability, r.address + c, r.address + 2 ^ r.sizeRadix⟩ : Holding) ∈
      remainders rs cs :=
    mem_filterMap.mpr ⟨(r, c), mem_of_getElem? (getElem?_zip_eq_some.mpr ⟨hr, hc⟩),
      remainder_some hsize hlt⟩
  obtain ⟨g', hg', hle, hnear, hdvd, _⟩ := B.marked _ hrest
  rw [hg] at hg'
  cases hg'
  -- the frames are installed where the manager expects them
  rw [firstAligned_eq hpage hle hnear] at hcaps
  have hafter : caps' r.capability = some { g with watermark := r.address + c + count * pageSize } := by
    rw [hcaps, setWatermark, Function.update_self]
  have G : Grows r.capability caps caps' := hcaps ▸ grows_touch hg
  have N : Nested caps' := hcaps ▸ B.ledger.nested.touch hg (by omega)
  refine B.advance hr hc hsize hlt G hafter hbase (by omega) ?_ fun hs L => ?_
  · rw [Nat.add_assoc, Nat.add_sub_cancel_left]
    refine dvd_add ?_ (dvd_mul_left _ _)
    simpa [hbase] using hdvd
  · have := (L.grow G N).fix (Nat.le_add_right (r.address + c) (count * pageSize)) (by omega)
    rwa [Nat.add_sub_cancel_left] at this

namespace MemoryManager

variable {s t : MemoryManager} {rs : List MemoryResource}

structure Prepared (rs : List MemoryResource) (s : MemoryManager) : Prop where
  generics : s.initialGenerics = rs
  booting : ∃ h, Booting rs s.initialGenericDelegatedBytes s.fixedClaims s.kernel.cap
    [poolHolding s.kernel.cap s.nodePool.descriptor, h]
  pools : s.pools = [s.nodePool.descriptor]
  heap : ∀ r, s.bootstrapFrames = some r → r.ready = true ∧
    ∃ g ∈ rs, r.source = g.capability ∧ r.Within g
  frames : s.physicalFrames = .empty
  sources : s.physicalSources = .empty
  delegations : s.delegations = []

lemma poolHolding_grows {x d caps caps' c} (G : Grows x caps caps') (h : caps d = some c) :
    poolHolding caps' d = poolHolding caps d := by
  obtain ⟨w, hw, _⟩ := G.keeps d c h
  rw [poolHolding, poolHolding, h, hw]
  rfl

variable {index n : Nat} {a : PhysicalAllocator} {e : AlphaEnvironment}
  {answers : Nat → KernelAnswer} {heap : Nat × Nat × Nat} {address pages b : Nat} {u : Bool}
  {g : MemoryResource} {cs : List Nat}

lemma prepareBootstrapFrames_spec (P : Bootstrapped rs s) :
    ifOk (prepareBootstrapFrames index address pages) (fun _ => Prepared rs) s := by
  obtain ⟨object, hobject, B⟩ := P.booting
  refine wp_guard trivial fun hok => ?_
  simp only [Bool.or_eq_true, decide_eq_true_eq, not_or, beq_iff_eq, ge_iff_le, not_le] at hok
  obtain ⟨⟨_, hpages⟩, hindex⟩ := hok
  refine wp_lookup trivial fun bytes hbytes => ?_
  refine wp_lookup trivial fun stop hstop => ?_
  refine wp_lookup trivial fun size hsize => ?_
  refine wp_lookup trivial fun sourceEnd hend => ?_
  refine wp_guard trivial fun hok => ?_
  simp only [Bool.or_eq_true, decide_eq_true_eq, not_or, bne_iff_ne, ne_eq, not_not, gt_iff_lt,
    not_lt] at hok
  obtain ⟨⟨⟨hdev, halign⟩, haddress⟩, hfit⟩ := hok
  refine wp_lookup trivial fun radix _ => ?_
  rw [wp_bind, wp_onKernel]
  refine wp_post (createRootNode_spec B ⟨object, by simp, hobject⟩) ?_
  rintro node k ⟨B₁, G₁⟩
  rw [wp_bind, wp_onKernel]
  refine wp_mono Kernel.convertFrames_spec ?_ (fun _ _ _ => trivial)
  rintro _ k₂ ⟨g, hg, hcap⟩
  -- the arguments in terms of the Generic they name
  rw [P.generics] at hindex
  have hr : rs[index]? = some (s.initialGeneric index) := by
    rw [initialGeneric, P.generics, getD_eq_getElem _ _ hindex, getElem?_eq_getElem hindex]
  generalize s.initialGeneric index = r at hr hsize hend haddress hdev hg hcap ⊢
  obtain ⟨c, hc⟩ : ∃ c, s.initialGenericConsumedBytes[index]? = some c :=
    ⟨_, getElem?_eq_getElem (B.length ▸ hindex)⟩
  rw [P.delegated, getD_eq_getElem?_getD, hc, Option.getD_some] at haddress
  have hmem := mem_of_getElem? hr
  rw [checkedPow2, checkedShl_one_of_lt (B.initial r hmem).radix_lt] at hsize
  cases hsize
  obtain ⟨rfl, _⟩ := checkedAdd_eq_some.mp hend
  obtain ⟨rfl, _⟩ := checkedMul_eq_some.mp hbytes
  obtain ⟨rfl, _⟩ := checkedAdd_eq_some.mp hstop
  subst haddress
  have hpage : pageSize ∣ r.address + c := by
    refine Nat.dvd_of_mod_eq_zero ?_
    rwa [pageSize, Nat.and_two_pow_sub_one_eq_mod] at halign
  have B₂ := B₁.frames hr hc hpage (pos_of_ne_zero hpages) (by omega) hg hcap
  have hpool : poolHolding k₂.cap s.nodePool.descriptor =
      poolHolding s.kernel.cap s.nodePool.descriptor := by
    obtain ⟨c', hc', _⟩ := B.ledger.backed (poolHolding s.kernel.cap s.nodePool.descriptor)
      (mem_append_right _ mem_cons_self)
    rw [descriptor_poolHolding] at hc'
    obtain ⟨w, hw, _⟩ := G₁.keeps _ _ hc'
    have G₂ : Grows r.capability k.cap k₂.cap := hcap ▸ grows_touch hg
    rw [poolHolding_grows G₂ hw, poolHolding_grows G₁ hc']
  refine ⟨P.generics, ⟨object, ?_⟩, P.pools, ?_, P.frames, P.sources, P.delegations⟩
  · show Booting rs (s.initialGenericDelegatedBytes.set index _) [(rootOf k₂.cap r.capability,
      ((r.address + c) >>> pageBits * pageSize, pages * pageSize))] k₂.cap
      [poolHolding k₂.cap s.nodePool.descriptor, object]
    rw [hpool, P.delegated, shiftRight_of_dvd hpage]
    exact B₂
  · intro range hrange
    cases hrange
    refine ⟨rfl, r, hmem, rfl, ?_⟩
    simp only [FrameRange.Within, shiftRight_of_dvd hpage]
    omega

/-! ## Sources -/

def withAllocator (a : PhysicalAllocator) (s : MemoryManager) : MemoryManager :=
  { s with physicalAllocator := some a }

lemma addSources_spec {gs ds} (hlen : ds.length = gs.length)
    (hgs : s.initialGenerics.drop index = gs) (I : Inv (withAllocator a s) (remainders gs ds))
    (hmark : ∀ h ∈ remainders gs ds, Marked s.kernel.cap h) :
    ifOk (addSources index gs ds)
      (fun _ t => Inv (withAllocator a t) [] ∧ t.initialGenerics = s.initialGenerics) s := by
  induction gs generalizing index ds s with
  | nil => exact ⟨I, rfl⟩
  | cons g gs ih =>
    obtain ⟨d, ds, rfl⟩ := exists_cons_of_length_eq_add_one hlen
    have hnext : s.initialGenerics.drop (index + 1) = gs := by
      rw [← tail_drop, hgs, tail_cons]
    have hindex : s.initialGenerics[index]? = some g := by
      have := congrArg List.head? hgs
      rwa [head?_drop, head?_cons] at this
    have hlt := (List.getElem?_eq_some_iff.mp hindex).1
    have hg := I.initial g (mem_of_getElem? hindex)
    obtain ⟨c, hc, hroot, _⟩ := hg.cap
    have hcons : remainders (g :: gs) (d :: ds) = (remainder (g, d)).toList ++ remainders gs ds := by
      rw [remainders, zip_cons_cons, filterMap_cons]
      cases remainder (g, d) <;> rfl
    rw [hcons] at I hmark
    refine wp_ite (fun hsmall => ?_) (fun hsize => ?_)
    · -- too small to be a source
      have hnone : remainder (g, d) = none := if_neg (by simp only; omega)
      rw [hnone] at I hmark
      exact ih (Nat.succ.inj hlen) hnext I hmark
    · simp only [wp_bind, headD_cons, tail_cons]
      refine wp_okOr (fun size hpow => ?_) (fun _ => trivial)
      refine wp_okOr (fun stop hstop => ?_) (fun _ => trivial)
      refine wp_okOr (fun start hstart => ?_) (fun _ => trivial)
      rw [checkedPow2, checkedShl_one_of_lt hg.radix_lt] at hpow
      cases hpow
      obtain ⟨rfl, _⟩ := checkedAdd_eq_some.mp hstop
      obtain ⟨rfl, _⟩ := checkedAdd_eq_some.mp hstart
      unfold retainSource
      split
      · rename_i hlt'
        have hsome := remainder_some (c := d) (Nat.not_lt.mp hsize)
          (by simpa using hlt')
        rw [hsome] at I hmark
        refine ih (Nat.succ.inj hlen) hnext ?_ (fun h hh => hmark h (mem_append_right _ hh))
        refine .land I (hmark _ mem_cons_self) hlt ?_
        show rootOf s.kernel.cap g.capability = (s.initialGeneric index).capability
        rw [rootOf, show s.kernel.cap g.capability = some c from hc, initialGeneric,
          getD_eq_getElem?_getD, hindex]
        exact hroot
      · rename_i hlt'
        have hnone : remainder (g, d) = none := if_neg (fun h => hlt' (by simp only at h ⊢; omega))
        rw [hnone] at I hmark
        exact ih (Nat.succ.inj hlen) hnext I hmark

lemma Prepared.inv (P : Prepared rs s) (ha : a.Valid) :
    Inv (withAllocator a s) (remainders rs s.initialGenericDelegatedBytes) := by
  obtain ⟨object, B⟩ := P.booting
  have hsources : (withAllocator a s).physicalSources = .empty := P.sources
  have hframes : (withAllocator a s).physicalFrames = .empty := P.frames
  have hdelegations : (withAllocator a s).delegations = [] := P.delegations
  have hhold : (withAllocator a s).holdings = [poolHolding s.kernel.cap s.nodePool.descriptor] := by
    rw [holdings, hsources, hframes, hdelegations]
    simp only [withAllocator, P.pools]
    rfl
  have L : Ledger s.fixedClaims s.kernel.cap (remainders rs s.initialGenericDelegatedBytes ++
      [poolHolding s.kernel.cap s.nodePool.descriptor]) := by
    refine (B.ledger.perm ?_).tail (h := object)
    exact (List.Perm.append_left _ (List.Perm.swap _ _ _)).trans perm_middle
  constructor
  · rw [hhold]
    exact L
  iterate 3 exact fun e he => absurd (hsources ▸ he) not_mem_nil
  iterate 2 exact fun d hd => absurd (hdelegations ▸ hd) not_mem_nil
  · exact P.pools ▸ mem_singleton_self _
  · exact fun e he => absurd (hframes ▸ he) not_mem_nil
  · exact P.generics ▸ P.heap
  · exact P.generics ▸ B.initial
  · exact P.generics ▸ B.roots
  · refine ⟨a, rfl, ha, ?_⟩
    rw [hdelegations]
    exact nil_subperm

/-! ## The allocator -/

open PhysicalAllocator (addRegion isPageAligned_iff)

def ramPages (g : MemoryResource) : Nat × Nat :=
  if g.sizeRadix < pageBits || g.isDevice then (0, 0)
  else (g.address / pageSize, 2 ^ g.sizeRadix / pageSize)

def RamApart (rs : List MemoryResource) : Prop :=
  rs.Pairwise fun r q => r.isDevice = false → q.isDevice = false →
    r.address + 2 ^ r.sizeRadix ≤ q.address ∨ q.address + 2 ^ q.sizeRadix ≤ r.address

instance : Decidable (RamApart rs) := inferInstanceAs (Decidable (List.Pairwise _ _))

def RamAligned (rs : List MemoryResource) : Prop :=
  ∀ r ∈ rs, r.isDevice = false → pageBits ≤ r.sizeRadix → pageSize ∣ r.address

lemma addRegion_aligned {d} :
    ifOk (addRegion b n d u) (fun _ _ => pageSize ∣ b) a := by
  refine wp_guard trivial fun hok => ?_
  have hb : pageSize ∣ b := by
    refine Nat.dvd_of_mod_eq_zero (isPageAligned_iff.mp ?_)
    cases h : isPageAligned b
    · simp [h] at hok
    · rfl
  refine wp_ite (fun _ => trivial) (fun _ => wp_ite (fun _ => hb) (fun _ => ?_))
  exact wp_of_run (fun _ _ _ => hb) (fun _ _ _ => trivial)

lemma addRegion_adds (ha : a.Valid) (hbn : b + n < wordSize)
    (fit : pageSize ∣ b → ∀ x, cover (a.ranges false) x + ind (b / pageSize) (bytesToPages n) x ≤ 1)
    :
    ifOk (addRegion b n false u)
      (fun _ t => pageSize ∣ b ∧ t.Valid ∧ ∀ x, cover (t.ranges false) x =
        cover (a.ranges false) x + ind (b / pageSize) (bytesToPages n) x) a := by
  by_cases hb : pageSize ∣ b
  · have hword : wordSize = UInt64.size := rfl
    have h1 : (UInt64.ofNat b).toNat = b := UInt64.toNat_ofNat_of_lt' (by omega)
    have h2 : (UInt64.ofNat n).toNat = n := UInt64.toNat_ofNat_of_lt' (by omega)
    have hx : (⟨UInt64.ofNat b, UInt64.ofNat n, false, u⟩ : Region).extent =
        (b / pageSize, bytesToPages n) := by
      rw [Region.extent, h1, h2, Nat.shiftRight_eq_div_pow]
      rfl
    have hr : (⟨UInt64.ofNat b, UInt64.ofNat n, false, u⟩ : Region).Fits :=
      ⟨by rw [h1]; exact isPageAligned_iff.mpr (Nat.mod_eq_zero_of_dvd hb), by rw [h1, h2]; omega⟩
    have hl : a.Lacks ⟨UInt64.ofNat b, UInt64.ofNat n, false, u⟩ := fun d x => by
      rw [hx]
      cases d
      · exact fit hb x
      · simpa using ha.once true x
    have key := PhysicalAllocator.addRegion_added ha hr hl
    rw [h1, h2] at key
    refine wp_mono key (fun _ t ht => ?_) (fun _ _ _ => trivial)
    have hg := ht.gains ha hr hl
    refine ⟨hb, hg.valid, fun x => ?_⟩
    rw [hg.cover, hx]
    rfl
  · exact wp_post addRegion_aligned (fun _ _ h => absurd h hb)

lemma addGeneric_aligned {c} (hfit : g.address + 2 ^ g.sizeRadix < wordSize) :
    ifOk (addGeneric g c)
      (fun _ _ => g.isDevice = false → pageBits ≤ g.sizeRadix → pageSize ∣ g.address) a := by
  refine wp_ite (fun hskip _ _ => ?_) (fun _ => ?_)
  · grind
  · have hpos := Nat.two_pow_pos g.sizeRadix
    by_cases hc : min c (2 ^ g.sizeRadix) = 0
    · have hstart : saturatingAdd g.address (min c (2 ^ g.sizeRadix)) = g.address := by
        rw [saturatingAdd]
        omega
      have hlt : min c (2 ^ g.sizeRadix) < 2 ^ g.sizeRadix := by omega
      simp only [hc, ne_eq, not_true_eq_false, if_false]
      rw [hc] at hlt hstart
      simp only [if_pos hlt, hstart]
      refine wp_ite (fun h0 => ?_) (fun _ => ?_)
      · exact wp_of_run (fun _ _ _ _ _ => by rw [h0]; exact dvd_zero _) (fun _ _ _ => trivial)
      · exact wp_post addRegion_aligned (fun _ _ h _ _ => h)
    · simp only [ne_eq, hc, not_false_eq_true, if_true, wp_bind]
      refine wp_post addRegion_aligned (fun _ _ h => ?_)
      exact wp_of_run (fun _ _ _ _ _ => h) (fun _ _ _ => trivial)

lemma addGenerics_aligned (hfit : ∀ g ∈ rs, g.address + 2 ^ g.sizeRadix < wordSize) :
    ifOk (addGenerics rs cs) (fun _ _ => RamAligned rs) a := by
  induction rs generalizing a cs with
  | nil => exact fun g hg => nomatch hg
  | cons g gs ih =>
    refine wp_seq (addGeneric_aligned (hfit g mem_cons_self)) (fun _ t ht => ?_)
    refine wp_post (ih fun g' hg' => hfit g' (mem_cons_of_mem _ hg')) (fun _ _ h => ?_)
    intro g' hg'
    rcases mem_cons.mp hg' with rfl | hg'
    · exact ht
    · exact h g' hg'

lemma ramPages_once (hD : RamApart rs) (x : Nat) :
    cover (rs.map ramPages) x ≤ 1 := by
  refine cover_le_one_of_pairwise (pairwise_map.mpr (hD.imp_of_mem ?_)) x
  intro r q hr hq hrq
  refine Set.disjoint_left.mpr fun y hy hy' => ?_
  unfold ramPages at hy hy'
  split at hy
  · simp [mem_pagesOf] at hy
  split at hy'
  · simp [mem_pagesOf] at hy'
  rename_i h1 h2
  simp only [Bool.or_eq_true, decide_eq_true_eq, not_or, not_lt, Bool.not_eq_true] at h1 h2
  have h := hrq h1.2 h2.2
  rw [mem_pagesOf] at hy hy'
  simp only [pageSize, pageBits] at hy hy' h
  omega

/-- The regions of a Generic: a part in use, and what is free behind it. -/
lemma addRegion_pair {base size used} (ha : a.Valid) (hb : pageSize ∣ base) (hs : pageSize ∣ size)
    (hword : base + size < wordSize) (hle : used ≤ size)
    (fit : ∀ x, cover (a.ranges false) x + ind (base / pageSize) (size / pageSize) x ≤ 1) :
    wp (addRegion base used false true)
      (fun _ t => t.Valid ∧ (∀ x, cover (t.ranges false) x ≤
          cover (a.ranges false) x + ind (base / pageSize) (size / pageSize) x) ∧
        wp (addRegion (base + used) (size - used) false false)
          (fun _ t => t.Valid ∧ ∀ x, cover (t.ranges false) x ≤
            cover (a.ranges false) x + ind (base / pageSize) (size / pageSize) x)
          (fun _ _ => True) t)
      (fun _ _ => True) a := by
  have hend : size + pageSize ≤ wordSize := by
    simp only [pageSize, pageBits, wordSize, wordBits] at *
    omega
  have hpages : bytesToPages used ≤ size / pageSize := by
    rw [bytesToPages_eq (by omega)]
    simp only [pageSize, pageBits] at *
    omega
  have hmono : ∀ x, ind (base / pageSize) (bytesToPages used) x ≤
      ind (base / pageSize) (size / pageSize) x := by
    intro x
    unfold ind
    split <;> split <;> omega
  refine wp_post (addRegion_adds ha (by omega) fun _ x => ?_) ?_
  · have := fit x
    have := hmono x
    omega
  rintro _ t ⟨-, ht, hcov⟩
  -- the second region is accepted only where the first ends on a page
  have hsplit : pageSize ∣ base + used → ∀ x, ind (base / pageSize) (size / pageSize) x =
      ind (base / pageSize) (bytesToPages used) x +
        ind ((base + used) / pageSize) (bytesToPages (size - used)) x := by
    intro hd x
    have hu : pageSize ∣ used := (Nat.dvd_add_iff_right hb).mpr hd
    rw [bytesToPages_eq (by omega), bytesToPages_eq (by omega)]
    have h1 : size / pageSize = (used + (pageSize - 1)) / pageSize +
        (size - used + (pageSize - 1)) / pageSize := by
      simp only [pageSize, pageBits] at *
      omega
    have h2 : (base + used) / pageSize = base / pageSize + (used + (pageSize - 1)) / pageSize := by
      simp only [pageSize, pageBits] at *
      omega
    rw [h1, h2, ind_add]
  refine ⟨ht, fun x => ?_, wp_post (addRegion_adds ht (by omega) fun hd x => ?_) ?_⟩
  · rw [hcov]
    exact Nat.add_le_add_left (hmono x) _
  · have := fit x
    rw [hsplit hd] at this
    rw [hcov]
    omega
  · rintro _ u ⟨hd, hu, hcov'⟩
    refine ⟨hu, fun x => ?_⟩
    rw [hcov', hcov, hsplit hd]
    omega

lemma addGeneric_adds {c} (ha : a.Valid) (hfit : g.address + 2 ^ g.sizeRadix < wordSize)
    (halign : g.isDevice = false → pageBits ≤ g.sizeRadix → pageSize ∣ g.address)
    (fit : ∀ x, cover (a.ranges false) x + ind (ramPages g).1 (ramPages g).2 x ≤ 1) :
    ifOk (addGeneric g c)
      (fun _ t => t.Valid ∧ ∀ x, cover (t.ranges false) x ≤
        cover (a.ranges false) x + ind (ramPages g).1 (ramPages g).2 x) a := by
  refine wp_ite (fun _ => ⟨ha, fun x => Nat.le_add_right _ _⟩) (fun hram => ?_)
  rw [ramPages, if_neg hram] at fit ⊢
  simp only [Bool.or_eq_true, decide_eq_true_eq, not_or, Nat.not_lt, Bool.not_eq_true] at hram
  have hdvd : pageSize ∣ 2 ^ g.sizeRadix := Nat.pow_dvd_pow 2 hram.1
  have hpos := Nat.two_pow_pos g.sizeRadix
  have hb := halign hram.2 hram.1
  rw [hram.2]
  generalize 2 ^ g.sizeRadix = size at hfit hdvd hpos fit ⊢
  generalize g.address = base at hfit hb fit ⊢
  have hpage : pageSize ≤ size := Nat.le_of_dvd hpos hdvd
  by_cases hc : min c size = 0
  · have hsum : saturatingAdd base 0 = base := by
      rw [saturatingAdd]
      omega
    simp only [hc, ne_eq, not_true_eq_false, if_false, if_pos hpos, hsum, Nat.sub_zero]
    refine wp_ite (fun h0 => ?_) (fun _ => ?_)
    · -- the page at address zero is never handed out
      have key := addRegion_pair ha hb hdvd hfit hpage fit
      simp only [h0, Nat.zero_add] at key ⊢
      rw [Nat.min_eq_left hpage, wp_bind]
      generalize pageSize = reserved at key ⊢
      refine wp_post key (fun _ t ht => ?_)
      exact wp_ite (fun _ => ht.2.2) (fun _ => ⟨ht.1, ht.2.1⟩)
    · have hnone : bytesToPages size = size / pageSize := by
        rw [bytesToPages_eq (by simp only [pageSize, pageBits, wordSize, wordBits] at *; omega)]
        simp only [pageSize, pageBits] at *
        omega
      refine wp_post (addRegion_adds ha hfit fun _ x => ?_) ?_
      · rw [hnone]
        exact fit x
      rintro _ t ⟨-, ht, hcov⟩
      refine ⟨ht, fun x => ?_⟩
      rw [hcov, hnone]
  · have hle : min c size ≤ size := Nat.min_le_right _ _
    have hsum : saturatingAdd base (min c size) = base + min c size := by
      rw [saturatingAdd]
      omega
    simp only [ne_eq, hc, not_false_eq_true, if_true, wp_bind, hsum]
    refine wp_post (addRegion_pair ha hb hdvd hfit hle fit) ?_
    rintro _ t ⟨ht, hcov, hrest⟩
    refine wp_ite (fun _ => ?_) (fun _ => ⟨ht, hcov⟩)
    rw [if_neg (by omega)]
    exact hrest

lemma addGenerics_valid (ha : a.Valid) (hfit : ∀ g ∈ rs, g.address + 2 ^ g.sizeRadix < wordSize)
    (hA : RamAligned rs) (fit : ∀ x, cover (a.ranges false) x + cover (rs.map ramPages) x ≤ 1) :
    ifOk (addGenerics rs cs) (fun _ t => t.Valid) a := by
  induction rs generalizing a cs with
  | nil => exact ha
  | cons g gs ih =>
    simp only [map_cons, cover_cons] at fit
    refine wp_seq (addGeneric_adds ha (hfit g mem_cons_self) (hA g mem_cons_self)
      (fun x => by have := fit x; omega)) (fun _ t ht => ?_)
    refine ih ht.1 (fun g' hg' => hfit g' (mem_cons_of_mem _ hg'))
      (fun g' hg' => hA g' (mem_cons_of_mem _ hg')) (fun x => ?_)
    have := fit x
    have := ht.2 x
    omega

/-! ## The manager a boot returns -/

lemma initializePhysicalAllocator_spec (P : Prepared rs s)
    (ha : ∀ a, addGenerics rs s.initialGenericConsumedBytes PhysicalAllocator.new = .ok () a →
      a.Valid) :
    ifOk initializePhysicalAllocator (fun _ t => Inv t [] ∧ t.initialGenerics = rs) s := by
  obtain ⟨_, B⟩ := P.booting
  rw [ifOk, initializePhysicalAllocator, wp_read, P.generics]
  split
  · trivial
  · rename_i a hrun
    refine wp_seq (addSources_spec (a := a) B.length ?_ (P.inv (ha a hrun)) B.marked) ?_
    · rw [drop_zero, P.generics]
    · intro _ t ht
      exact ⟨ht.1, ht.2.trans P.generics⟩

/-- A boot that succeeds has found its ordinary memory aligned. -/
lemma boot_some (h : boot e answers heap = some s) :
    AlphaEnvironment.validateResources [] e.resources = true ∧ ∃ m k,
      bootstrap e ⟨initialSlots e.resources, answers, 0⟩ = .ok m k ∧
      (do prepareBootstrapFrames heap.1 heap.2.1 heap.2.2
          initializePhysicalAllocator : EStateM Failure MemoryManager Unit) m = .ok () s := by
  unfold boot at h
  split at h
  · rename_i hv
    simp only [AlphaEnvironment.validate, Bool.and_eq_true] at hv
    split at h
    · cases h
    · split at h
      · cases h
      · cases h
        exact ⟨hv.1.2, _, _, ‹_›, ‹_›⟩
  · cases h

lemma bootstrap_generics {k} :
    ifOk (bootstrap e) (fun s _ => s.initialGenerics = e.resources) k := by
  refine wp_guard trivial fun _ => ?_
  refine wp_lookup trivial fun _ _ => ?_
  simp only [wp_bind]
  -- what the conversions return does not matter
  iterate 6 refine wp_of_run (fun _ _ _ => ?_) (fun _ _ _ => trivial)
  rfl

lemma prepareBootstrapFrames_generics :
    ifOk (prepareBootstrapFrames index address pages)
      (fun _ t => t.initialGenerics = s.initialGenerics) s := by
  refine wp_guard trivial fun _ => ?_
  simp only [wp_bind]
  iterate 4 refine wp_okOr (fun _ _ => ?_) (fun _ => trivial)
  refine wp_guard trivial fun _ => ?_
  simp only [wp_bind]
  refine wp_okOr (fun _ _ => ?_) (fun _ => trivial)
  iterate 2 refine wp_onKernel.mpr (wp_of_run (fun _ _ _ => ?_) (fun _ _ _ => trivial))
  rfl

lemma boot_aligned (h : boot e answers heap = some s) : RamAligned e.resources := by
  obtain ⟨hv, m, k, hm, hs⟩ := boot_some h
  have hgen := wp_ok bootstrap_generics hm
  obtain ⟨hvalid, -, -⟩ := of_validateResources hv
  refine wp_ok (Q := fun _ _ => RamAligned e.resources) (E := fun _ _ => True) ?_ hs
  refine wp_seq prepareBootstrapFrames_generics fun _ t ht => ?_
  rw [initializePhysicalAllocator, wp_read, ht, hgen]
  split
  · trivial
  · rename_i a hrun
    refine wp_of_run (fun _ _ _ => wp_ok (addGenerics_aligned ?_) hrun) (fun _ _ _ => trivial)
    exact fun g hg => validate_lt (hvalid g hg)

/-- The manager a boot returns is in order. -/
theorem boot_inv (h : boot e answers heap = some s) (hD : RamApart e.resources) :
    Inv s [] ∧ s.initialGenerics = e.resources := by
  have hA := boot_aligned h
  obtain ⟨hv, m, k, hm, hs⟩ := boot_some h
  obtain ⟨hvalid, -, -⟩ := of_validateResources hv
  have P := wp_ok (bootstrap_spec rfl hv hA) hm
  refine wp_ok (Q := fun _ t => Inv t [] ∧ t.initialGenerics = e.resources)
    (E := fun _ _ => True) ?_ hs
  refine wp_seq (prepareBootstrapFrames_spec P) fun _ t ht => ?_
  refine initializePhysicalAllocator_spec ht fun a hrun => ?_
  refine wp_ok (addGenerics_valid PhysicalAllocator.Valid.new
    (fun g hg => validate_lt (hvalid g hg)) hA (fun x => ?_)) hrun
  rw [PhysicalAllocator.ranges_new, cover_nil, zero_add]
  exact ramPages_once hD x

end MemoryManager

end Nanami.Memory
