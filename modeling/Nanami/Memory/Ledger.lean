import Nanami.Memory.Kernel

/-!
# A ledger of untyped memory

What Alpha knows about the Generics it holds, as a list of holdings: a descriptor and the part of
its Generic, up to the end, that Alpha counts as its own. A ledger is in order when each holding is
backed by the kernel and no byte of an initial Generic is held twice. The rules below say what the
kernel's calls do to a ledger: conversions leave it alone (`Ledger.grow`) until the part that was
carved becomes a holding of its own (`Ledger.cut`), and
revoking a holding takes nothing from the others (`Ledger.revoke`).
-/

namespace Nanami.Memory
open Nanami.Lib List Function

abbrev Caps := CapabilityDescriptor → Option Capability

def rootOf (caps : Caps) (d : CapabilityDescriptor) : CapabilityDescriptor :=
  ((caps d).map Capability.root).getD 0

abbrev Claim := CapabilityDescriptor × (Nat × Nat)

/-- The number of claims that contain a byte of the initial Generic `root`. -/
def claimed (claims : List Claim) (root x : Nat) : Nat :=
  cover ((claims.filter (·.1 == root)).map Prod.snd) x

variable {root w mid stop : Nat} {l : List Claim} {d d' source dst : CapabilityDescriptor}
  {g c child : Capability}

@[simp] lemma claimed_nil {x} : claimed [] root x = 0 := rfl

variable {a : Claim} {l' : List Claim} {caps' : Caps} {start : Nat} {k : Kernel}

@[simp] lemma claimed_cons {x} :
    claimed (a :: l) root x = (if a.1 = root then ind a.2.1 a.2.2 x else 0) + claimed l root x :=
  cover_filter_cons (f := Prod.fst)

@[simp] lemma claimed_append {x} :
    claimed (l ++ l') root x = claimed l root x + claimed l' root x := by
  simp [claimed]

lemma claimed_perm (h : l.Perm l') (root x : Nat) : claimed l root x = claimed l' root x :=
  cover_perm ((h.filter _).map _) x

lemma claimed_pos {x} (h : a ∈ l) (hx : x ∈ pagesOf a.2) : 0 < claimed l a.1 x :=
  cover_pos.mpr ⟨a.2, mem_map.mpr ⟨a, mem_filter.mpr ⟨h, by simp⟩, rfl⟩, hx⟩

structure Holding where
  descriptor : CapabilityDescriptor
  start : Nat
  stop : Nat
  deriving DecidableEq, Repr

namespace Holding

def Backed (caps : Caps) (h : Holding) : Prop :=
  ∃ c, caps h.descriptor = some c ∧ c.kind = .generic ∧ c.base ≤ h.start ∧ h.start < h.stop ∧
    h.stop = c.stop

def claim (caps : Caps) (h : Holding) : Claim :=
  (rootOf caps h.descriptor, (h.start, h.stop - h.start))

end Holding

open Holding

variable {h : Holding}

lemma claimed_holding {caps hs x} :
    claimed ((h :: hs).map (claim caps)) root x =
      (if rootOf caps h.descriptor = root then ind h.start (h.stop - h.start) x else 0) +
      claimed (hs.map (claim caps)) root x :=
  claimed_cons

/-- Derived capabilities lie inside those they derive from, up to an initial Generic. -/
structure Nested (caps : Caps) : Prop where
  within : ∀ d c, caps d = some c → ∀ p ∈ c.lineage, p ≠ d ∧
    ∃ c', caps p = some c' ∧ c'.base ≤ c.base ∧ c.stop ≤ c'.stop ∧ c'.root = c.root ∧
      c'.lineage ⊆ c.lineage
  rooted : ∀ d c, caps d = some c → c.root = d ∨ c.root ∈ c.lineage
  low : ∀ d c, caps d = some c → c.base ≤ c.watermark

/-- Every holding is backed, and no byte is claimed twice. `fixed` are claims of memory that is
not held through a Generic of its own. -/
structure Ledger (fixed : List Claim) (caps : Caps) (holdings : List Holding) : Prop where
  nested : Nested caps
  backed : ∀ h ∈ holdings, h.Backed caps
  once : ∀ root x, claimed (fixed ++ holdings.map (claim caps)) root x ≤ 1

variable {fixed : List Claim} {caps : Caps} {hs hs' : List Holding}

namespace Ledger

lemma perm (L : Ledger fixed caps hs) (p : hs.Perm hs') : Ledger fixed caps hs' where
  nested := L.nested
  backed h hh := L.backed h (p.mem_iff.mpr hh)
  once root x := by
    rw [← claimed_perm ((p.map _).append_left fixed)]
    exact L.once root x

lemma tail (L : Ledger fixed caps (h :: hs)) : Ledger fixed caps hs where
  nested := L.nested
  backed h' hh := L.backed h' (mem_cons_of_mem _ hh)
  once root x := by
    have := L.once root x
    rw [claimed_append, claimed_holding] at this
    rw [claimed_append]
    omega

lemma drop {lost} (L : Ledger fixed caps (lost ++ hs)) : Ledger fixed caps hs := by
  induction lost with
  | nil => exact L
  | cons h lost ih => exact ih L.tail

variable {x : Nat} {h' : Holding}

lemma ite_ind_cut {p} [Decidable p] (hle : start ≤ mid) (hle' : mid ≤ stop) :
    (if p then ind start (stop - start) x else 0) =
      (if p then ind start (mid - start) x else 0) + if p then ind mid (stop - mid) x else 0 := by
  have hcut := ind_cut (x := x) hle hle'
  split <;> omega

lemma shrink {start'} (L : Ledger fixed caps (⟨d, start, stop⟩ :: hs)) (hle : start ≤ start')
    (hlt : start' < stop) : Ledger fixed caps (⟨d, start', stop⟩ :: hs) where
  nested := L.nested
  backed h hh := by
    rcases mem_cons.mp hh with rfl | hh
    · obtain ⟨c, hc, hk, hb, _, hs⟩ := L.backed _ mem_cons_self
      exact ⟨c, hc, hk, le_trans hb hle, hlt, hs⟩
    · exact L.backed h (mem_cons_of_mem _ hh)
  once root x := by
    have h1 := L.once root x
    rw [claimed_append, claimed_holding] at h1 ⊢
    dsimp only at h1 ⊢
    rw [ite_ind_cut hle hlt.le] at h1
    omega

lemma apart (L : Ledger fixed caps (h :: hs)) (hm : h' ∈ hs)
    (hroot : rootOf caps h.descriptor = rootOf caps h'.descriptor) (hx : h.start ≤ x)
    (hx' : x < h.stop) (hy : h'.start ≤ x) (hy' : x < h'.stop) : False := by
  have h1 := L.once (rootOf caps h.descriptor) x
  have h2 : 0 < claimed (hs.map (claim caps)) (rootOf caps h.descriptor) x := by
    rw [hroot]
    refine claimed_pos (mem_map_of_mem hm) ?_
    simp only [claim, mem_pagesOf]
    omega
  have h3 : ind h.start (h.stop - h.start) x = 1 := ind_eq_one.mpr ⟨hx, by omega⟩
  rw [claimed_append, claimed_holding, if_pos rfl] at h1
  omega

lemma descriptor_ne (L : Ledger fixed caps (h :: hs)) (hm : h' ∈ hs) :
    h'.descriptor ≠ h.descriptor := by
  intro he
  obtain ⟨c, hc, _, _, hlt, hstop⟩ := L.backed h mem_cons_self
  obtain ⟨c', hc', _, _, hlt', hstop'⟩ := L.backed h' (mem_cons_of_mem _ hm)
  rw [he, hc] at hc'
  cases hc'
  exact L.apart hm (by rw [he]) (show h.start ≤ h.stop - 1 by omega) (by omega) (by omega) (by omega)

end Ledger

/-! ## Kernel calls -/

lemma of_update (h : update caps dst (some child) d = some c) :
    d = dst ∧ child = c ∨ d ≠ dst ∧ caps d = some c := by
  by_cases hd : d = dst
  · rw [hd, update_self, Option.some.injEq] at h
    exact .inl ⟨hd, h⟩
  · rw [update_of_ne hd] at h
    exact .inr ⟨hd, h⟩

def setWatermark (caps : Caps) (d : CapabilityDescriptor) (g : Capability) (w : Nat) : Caps :=
  update caps d (some { g with watermark := w })

lemma setWatermark_some (h : caps d = some g) (hc : setWatermark caps d g w d' = some c) :
    ∃ c₀, caps d' = some c₀ ∧ c = { c₀ with watermark := c.watermark } ∧
      (c.watermark = c₀.watermark ∨ d' = d ∧ c.watermark = w) := by
  obtain ⟨rfl, rfl⟩ | ⟨-, hc⟩ := of_update hc
  · exact ⟨g, h, rfl, .inr ⟨rfl, rfl⟩⟩
  · exact ⟨c, hc, rfl, .inl rfl⟩

lemma setWatermark_of_some (h : caps d = some g) (hc : caps d' = some c) :
    ∃ v, setWatermark caps d g w d' = some { c with watermark := v } ∧ (d' = d ∨ v = c.watermark) := by
  by_cases hd : d' = d
  · subst hd
    rw [h] at hc
    cases hc
    exact ⟨w, by simp [setWatermark], .inl rfl⟩
  · exact ⟨c.watermark, by simp [setWatermark, hd, hc], .inr rfl⟩

lemma Nested.touch (N : Nested caps) (h : caps d = some g) (hw : g.base ≤ w) :
    Nested (setWatermark caps d g w) where
  within d' c hc p hp := by
    obtain ⟨c₀, h₀, e, _⟩ := setWatermark_some h hc
    rw [e] at hp ⊢
    obtain ⟨hne, c', hc', h1, h2, h3, h4⟩ := N.within d' c₀ h₀ p hp
    obtain ⟨v, hv, -⟩ := setWatermark_of_some (w := w) h hc'
    exact ⟨hne, _, hv, h1, h2, h3, h4⟩
  rooted d' c hc := by
    obtain ⟨c₀, h₀, e, _⟩ := setWatermark_some h hc
    rw [e]
    exact N.rooted d' c₀ h₀
  low d' c hc := by
    obtain ⟨c₀, h₀, e, hwm⟩ := setWatermark_some h hc
    have hlow := N.low d' c₀ h₀
    rcases hwm with hwm | ⟨rfl, hwm⟩
    · rw [e, hwm]
      exact hlow
    · rw [h] at h₀
      cases h₀
      rw [e, hwm]
      exact hw

/-- Capabilities are kept, only the watermark of `x` may have moved, and what is new derives from
what there was. -/
structure Grows (x : CapabilityDescriptor) (caps caps' : Caps) : Prop where
  keeps : ∀ d c, caps d = some c →
    ∃ w, caps' d = some { c with watermark := w } ∧ (d = x ∨ w = c.watermark)
  roots : ∀ d c, caps' d = some c → ∃ d' c', caps d' = some c' ∧ c'.root = c.root

lemma Grows.refl {x} : Grows x caps caps :=
  ⟨fun _ c hc => ⟨c.watermark, hc, .inr rfl⟩, fun d c hc => ⟨d, c, hc, rfl⟩⟩

lemma Grows.trans {x caps''} (h : Grows x caps caps') (h' : Grows x caps' caps'') :
    Grows x caps caps'' := by
  constructor
  · intro d c hc
    obtain ⟨w, hw, h1⟩ := h.keeps d c hc
    obtain ⟨v, hv, h2⟩ := h'.keeps d _ hw
    refine ⟨v, hv, ?_⟩
    rcases h2 with h2 | h2
    · exact .inl h2
    · rw [h2]
      exact h1
  · intro d c hc
    obtain ⟨d', c', hc', e'⟩ := h'.roots d c hc
    obtain ⟨d'', c'', hc'', e''⟩ := h.roots d' c' hc'
    exact ⟨d'', c'', hc'', e''.trans e'⟩

lemma Grows.rootOf {x d c caps'} (h : Grows x caps caps') (hc : caps d = some c) :
    rootOf caps' d = rootOf caps d := by
  obtain ⟨w, hw, _⟩ := h.keeps d c hc
  rw [Memory.rootOf, Memory.rootOf, hc, hw]
  rfl

lemma grows_touch (h : caps d = some g) : Grows d caps (setWatermark caps d g w) := by
  refine ⟨fun d' c hc => setWatermark_of_some h hc, fun d' c hc => ?_⟩
  obtain ⟨c₀, h₀, e, _⟩ := setWatermark_some h hc
  exact ⟨d', c₀, h₀, by rw [e]⟩

lemma Ledger.grow {x} (L : Ledger fixed caps hs) (h : Grows x caps caps') (N : Nested caps') :
    Ledger fixed caps' hs where
  nested := N
  backed k hk := by
    obtain ⟨c, hc, hrest⟩ := L.backed k hk
    obtain ⟨w, hw, _⟩ := h.keeps _ c hc
    exact ⟨_, hw, hrest⟩
  once root x := by
    have e : hs.map (claim caps') = hs.map (claim caps) := by
      refine map_congr_left fun k hk => ?_
      obtain ⟨c, hc, _⟩ := L.backed k hk
      rw [claim, claim, h.rootOf hc]
    rw [e]
    exact L.once root x

/-- A new capability derived from `source`, in a slot that was empty. -/
structure Derived (caps : Caps) (source dst : CapabilityDescriptor) (child : Capability) : Prop where
  empty : caps dst = none
  parent : ∃ g, caps source = some g ∧ child.root = g.root ∧ child.lineage = source :: g.lineage ∧
    g.base ≤ child.base ∧ child.stop ≤ g.stop
  low : child.base ≤ child.watermark

lemma Nested.derive (N : Nested caps) (D : Derived caps source dst child) :
    Nested (update caps dst (some child)) := by
  obtain ⟨g, hg, hroot, hline, hbase, hstop⟩ := D.parent
  have hne : ∀ p c, caps p = some c → p ≠ dst := by
    rintro p c hc rfl
    rw [D.empty] at hc
    cases hc
  constructor
  · intro d c hc p hp
    obtain ⟨rfl, rfl⟩ | ⟨-, hc⟩ := of_update hc
    · rw [hline] at hp ⊢
      rcases mem_cons.mp hp with rfl | hp
      · refine ⟨hne _ _ hg, g, ?_, hbase, hstop, hroot.symm, subset_cons_self _ _⟩
        rw [update_of_ne (hne _ _ hg), hg]
      · obtain ⟨_, c', hc', h1, h2, h3, h4⟩ := N.within source g hg p hp
        refine ⟨hne _ _ hc', c', ?_, h1.trans hbase, hstop.trans h2, h3.trans hroot.symm,
          fun q hq => mem_cons_of_mem _ (h4 hq)⟩
        rw [update_of_ne (hne _ _ hc'), hc']
    · obtain ⟨h0, c', hc', h⟩ := N.within d c hc p hp
      exact ⟨h0, c', by rw [update_of_ne (hne _ _ hc'), hc'], h⟩
  · intro d c hc
    obtain ⟨rfl, rfl⟩ | ⟨-, hc⟩ := of_update hc
    · rw [hroot, hline]
      rcases N.rooted source g hg with h | h
      · exact .inr (mem_cons.mpr (.inl h))
      · exact .inr (mem_cons_of_mem _ h)
    · exact N.rooted d c hc
  · intro d c hc
    obtain ⟨rfl, rfl⟩ | ⟨-, hc⟩ := of_update hc
    · exact D.low
    · exact N.low d c hc

lemma Derived.grows {x} (D : Derived caps source dst child) :
    Grows x caps (update caps dst (some child)) := by
  constructor
  · intro d c hc
    have hd : d ≠ dst := by
      rintro rfl
      rw [D.empty] at hc
      cases hc
    exact ⟨c.watermark, by simp [hd, hc], .inr rfl⟩
  · intro d c hc
    obtain ⟨rfl, rfl⟩ | ⟨-, hc⟩ := of_update hc
    · obtain ⟨g, hg, hroot, _⟩ := D.parent
      exact ⟨source, g, hg, hroot.symm⟩
    · exact ⟨d, c, hc, rfl⟩

lemma claimed_rest {x} :
    claimed ((if mid < stop then [(⟨d, mid, stop⟩ : Holding)] else []).map (claim caps)) root x =
      if rootOf caps d = root then ind mid (stop - mid) x else 0 := by
  split
  · simp [claim]
  · rw [show stop - mid = 0 from by omega, ind_zero, ite_self]
    rfl

section

variable (L : Ledger fixed caps (⟨d, start, stop⟩ :: hs))
include L

/-- The rest of a holding, if there is a rest, is backed as the holding was. -/
lemma Ledger.backed_rest (hle : start ≤ mid) :
    ∀ h ∈ (if mid < stop then [(⟨d, mid, stop⟩ : Holding)] else []) ++ hs, h.Backed caps := by
  obtain ⟨c, hc, hk, hb, _, hs'⟩ := L.backed _ mem_cons_self
  refine forall_mem_append.mpr ⟨?_, fun h hh => L.backed h (mem_cons_of_mem _ hh)⟩
  split
  · exact forall_mem_singleton.mpr ⟨c, hc, hk, hb.trans hle, by assumption, hs'⟩
  · exact nofun

lemma Ledger.cut (hc : caps d = some c)
    (hchild : caps dst = some child) (hkind : child.kind = .generic) (hroot : child.root = c.root)
    (hbase : child.base = start) (hend : child.stop = mid) (hlt : start < mid) (hle : mid ≤ stop) :
    Ledger fixed caps (⟨dst, start, mid⟩ :: ((if mid < stop then [⟨d, mid, stop⟩] else []) ++ hs)) := by
  refine ⟨L.nested, forall_mem_cons.mpr ⟨?_, L.backed_rest hlt.le⟩, fun root x => ?_⟩
  · exact ⟨child, hchild, hkind, hbase.le, hlt, hend.symm⟩
  · have h1 := L.once root x
    have hr : rootOf caps dst = rootOf caps d := by
      rw [rootOf, rootOf, hc, hchild]
      simp [hroot]
    rw [claimed_append, claimed_holding] at h1 ⊢
    rw [map_append, claimed_append, hr, claimed_rest]
    dsimp only at h1 ⊢
    rw [Ledger.ite_ind_cut hlt.le hle] at h1
    omega

lemma Ledger.fix (hle : start ≤ mid) (hle' : mid ≤ stop) :
    Ledger ((rootOf caps d, (start, mid - start)) :: fixed) caps
      ((if mid < stop then [⟨d, mid, stop⟩] else []) ++ hs) := by
  refine ⟨L.nested, L.backed_rest hle, fun root x => ?_⟩
  have h1 := L.once root x
  rw [claimed_append, claimed_holding] at h1
  rw [cons_append, claimed_cons, claimed_append, map_append, claimed_append, claimed_rest]
  dsimp only at h1 ⊢
  rw [Ledger.ite_ind_cut hle hle'] at h1
  omega

end

def revoked (caps : Caps) (d : CapabilityDescriptor) (g : Capability) : Caps :=
  update (fun d' => (caps d').filter fun c => d ∉ c.lineage) d
    (some { g with watermark := g.base })

lemma revoked_of_ne (hd : d' ≠ d) :
    revoked caps d g d' = some c ↔ caps d' = some c ∧ d ∉ c.lineage := by
  rw [revoked, update_of_ne hd, Option.filter_eq_some_iff]
  simp

lemma of_revoked (h : revoked caps d g d' = some c) :
    d' = d ∧ { g with watermark := g.base } = c ∨ caps d' = some c ∧ d ∉ c.lineage :=
  (of_update h).imp_right fun hd => (revoked_of_ne hd.1).mp h

lemma Nested.revoke (N : Nested caps) (hg : caps d = some g) : Nested (revoked caps d g) := by
  have hself : d ∉ g.lineage := fun h => (N.within d g hg d h).1 rfl
  -- what a surviving capability derives from survives
  have key : ∀ d' c, caps d' = some c → d ∉ c.lineage → ∀ p ∈ c.lineage, p ≠ d' ∧
      ∃ c', revoked caps d g p = some c' ∧ c'.base ≤ c.base ∧ c.stop ≤ c'.stop ∧
        c'.root = c.root ∧ c'.lineage ⊆ c.lineage := by
    intro d' c hc hl p hp
    obtain ⟨h0, c', hc', h1, h2, h3, h4⟩ := N.within d' c hc p hp
    have hpd : p ≠ d := by
      rintro rfl
      exact hl hp
    exact ⟨h0, c', (revoked_of_ne hpd).mpr ⟨hc', fun h => hl (h4 h)⟩, h1, h2, h3, h4⟩
  constructor
  · intro d' c hc p hp
    obtain ⟨rfl, rfl⟩ | ⟨hc, hl⟩ := of_revoked hc
    · exact key d' g hg hself p hp
    · exact key d' c hc hl p hp
  · intro d' c hc
    obtain ⟨rfl, rfl⟩ | ⟨hc, -⟩ := of_revoked hc
    · exact N.rooted d' g hg
    · exact N.rooted d' c hc
  · intro d' c hc
    obtain ⟨rfl, rfl⟩ | ⟨hc, -⟩ := of_revoked hc
    · exact le_refl _
    · exact N.low d' c hc

variable {h' : Holding}

lemma Ledger.not_derived (L : Ledger fixed caps (h :: hs)) (hm : h' ∈ hs)
    (hg : caps h.descriptor = some g) (hwhole : h.start = g.base)
    (hc : caps h'.descriptor = some c) : h.descriptor ∉ c.lineage := by
  intro hl
  obtain ⟨g', hg', _, _, _, hstop⟩ := L.backed h mem_cons_self
  obtain ⟨c', hc', _, hbase', hlt', hstop'⟩ := L.backed h' (mem_cons_of_mem _ hm)
  rw [hg] at hg'
  rw [hc] at hc'
  cases hg'
  cases hc'
  obtain ⟨_, p, hp, h1, h2, h3, _⟩ := L.nested.within _ c hc _ hl
  rw [hg] at hp
  cases hp
  refine L.apart hm ?_ (show h.start ≤ h'.stop - 1 by omega) (by omega) (by omega) (by omega)
  rw [rootOf, rootOf, hg, hc]
  simp [h3]

lemma Ledger.revoked_eq (L : Ledger fixed caps (h :: hs)) (hg : caps h.descriptor = some g)
    (hwhole : h.start = g.base) (hh' : h' ∈ hs) :
    revoked caps h.descriptor g h'.descriptor = caps h'.descriptor := by
  obtain ⟨c, hc, _⟩ := L.backed h' (mem_cons_of_mem _ hh')
  rw [hc]
  exact (revoked_of_ne (L.descriptor_ne hh')).mpr ⟨hc, L.not_derived hh' hg hwhole hc⟩

lemma revoked_initial (hg : caps d = some g) (hc : caps d' = some c) (hl : c.lineage = []) :
    ∃ w, revoked caps d g d' = some { c with watermark := w } := by
  by_cases hd : d' = d
  · subst hd
    rw [hg] at hc
    cases hc
    exact ⟨g.base, by simp [revoked]⟩
  · exact ⟨c.watermark, (revoked_of_ne hd).mpr ⟨hc, by simp [hl]⟩⟩

lemma Ledger.revoke {h g} (L : Ledger fixed caps (h :: hs)) (hg : caps h.descriptor = some g)
    (hwhole : h.start = g.base) : Ledger fixed (revoked caps h.descriptor g) (h :: hs) := by
  have hkeep : ∀ h' ∈ hs, revoked caps h.descriptor g h'.descriptor = caps h'.descriptor :=
    fun h' => L.revoked_eq hg hwhole
  refine ⟨L.nested.revoke hg, ?_, fun root x => ?_⟩
  · intro h' hh'
    obtain ⟨c, hc, hrest⟩ := L.backed h' hh'
    rcases mem_cons.mp hh' with rfl | hm
    · rw [hg] at hc
      cases hc
      exact ⟨{ g with watermark := g.base }, by simp [revoked], hrest⟩
    · exact ⟨c, by rw [hkeep h' hm, hc], hrest⟩
  · have e : (h :: hs).map (claim (revoked caps h.descriptor g)) =
        (h :: hs).map (claim caps) := by
      refine map_congr_left fun h' hh' => ?_
      rcases mem_cons.mp hh' with rfl | hm
      · simp [claim, rootOf, revoked, hg]
      · rw [claim, claim, rootOf, rootOf, hkeep h' hm]
    rw [e]
    exact L.once root x

/-- `[start, start + bytes)` was carved out of a Generic into the slot `dst`. -/
structure Carved (caps caps' : Caps) (source dst : CapabilityDescriptor) (kind : CapabilityType)
    (g : Capability) (start bytes : Nat) : Prop where
  parent : caps source = some g
  empty : caps dst = none
  nested : Nested caps'
  grows : Grows source caps caps'
  fits : start + bytes ≤ g.stop
  after : caps' source = some { g with watermark := start + bytes }
  child : caps' dst = some ⟨kind, start, bytes, start, g.root, source :: g.lineage⟩

lemma convert_carves {kind radix} (N : Nested k.cap) :
    wp (Kernel.convert source kind radix dst)
      (fun _ t => ∃ g, Carved k.cap t.cap source dst kind g
        (firstAligned g.watermark (2 ^ memorySizeBits kind radix)) (2 ^ memorySizeBits kind radix))
      (fun _ t => t.cap = k.cap) k := by
  refine wp_post Kernel.convert_spec ?_
  rintro _ t ⟨g, hg, -, hempty, hfit, hcap⟩
  refine ⟨g, ?_⟩
  generalize hb : 2 ^ memorySizeBits kind radix = bytes at hfit hcap ⊢
  have hpos : 0 < bytes := hb ▸ Nat.two_pow_pos _
  have hlow : g.base ≤ firstAligned g.watermark bytes :=
    (N.low source g hg).trans (le_firstAligned hpos)
  generalize firstAligned g.watermark bytes = start at hfit hcap hlow ⊢
  have hne : source ≠ dst := by
    rintro rfl
    rw [hempty] at hg
    cases hg
  have hD : Derived (setWatermark k.cap source g (start + bytes)) source dst
      ⟨kind, start, bytes, start, g.root, source :: g.lineage⟩ := by
    refine ⟨by simp [setWatermark, hne.symm, hempty], ?_, le_refl _⟩
    exact ⟨{ g with watermark := start + bytes }, by simp [setWatermark], rfl, rfl, hlow, hfit⟩
  refine ⟨hg, hempty, ?_, ?_, hfit, ?_, ?_⟩
  · rw [hcap]
    exact (N.touch hg (by omega)).derive hD
  · rw [hcap]
    exact (grows_touch hg).trans hD.grows
  · rw [hcap, update_of_ne hne, update_self]
  · rw [hcap, update_self]

lemma convertFrames_grows {count} (N : Nested k.cap) :
    ends (Kernel.convertFrames source count)
      (fun t => Nested t.cap ∧ Grows source k.cap t.cap) k := by
  refine wp_mono Kernel.convertFrames_spec ?_ ?_
  · rintro _ t ⟨g, hg, hcap⟩
    have h1 : g.base ≤ firstAligned g.watermark pageSize :=
      (N.low source g hg).trans (le_firstAligned (by decide))
    rw [hcap]
    exact ⟨N.touch hg (by omega), grows_touch hg⟩
  · rintro _ t (hcap | ⟨g, w, hg, hle, hcap⟩)
    · rw [hcap]
      exact ⟨N, .refl⟩
    · rw [hcap]
      exact ⟨N.touch hg ((N.low source g hg).trans hle), grows_touch hg⟩

end Nanami.Memory
