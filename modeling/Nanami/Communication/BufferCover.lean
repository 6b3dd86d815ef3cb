import Nanami.Communication.Buffers

/-!
# What the installed counts cover

Every leaf that is really installed is counted: it is a page below the `installed` count of a
client, provider or candidate mapping. `Mapping.Grown` and `Mapping.Shrunk` say what mapping and
unmapping do to the leaf set whatever the effects answer, `Buffer.Step` what a step on a buffer
may do, and `Buffers.Covered` is the invariant over all entries.
-/

namespace Nanami.Communication
open Nanami.Lib Finset

namespace Mapping

def Covers (m : Mapping) (physical : Word) (x : Leaf) : Prop :=
  ∃ i, i < m.installed ∧ x = m.leaf physical i

/-- After mapping: nothing is lost, and what is new is counted. -/
structure Grown (m : Mapping) (w : World) (physical : Word) (limit : Nat) (m' : Mapping)
    (w' : World) : Prop where
  owner : m'.owner = m.owner
  address : m'.address = m.address
  lower : m.installed ≤ m'.installed
  upper : m'.installed ≤ limit
  kept : w.mapped ⊆ w'.mapped
  counted : ∀ x ∈ w'.mapped, x ∈ w.mapped ∨ m'.Covers physical x
  allocated : w'.allocated = w.allocated

/-- After unmapping: what is not counted any more is gone, and nothing else is. -/
structure Shrunk (m : Mapping) (w : World) (physical : Word) (m' : Mapping) (w' : World) :
    Prop where
  owner : m'.owner = m.owner
  address : m'.address = m.address
  upper : m'.installed ≤ m.installed
  sub : w'.mapped ⊆ w.mapped
  counted : ∀ x ∈ w'.mapped, m.Covers physical x → m'.Covers physical x
  others : ∀ x ∈ w.mapped, x ∈ w'.mapped ∨ m.Covers physical x
  allocated : w'.allocated = w.allocated

variable {m : Mapping} {w w' : World} {physical : Word} {i : Nat} {m' : Mapping} {limit n : Nat}

lemma leaf_congr (ho : m'.owner = m.owner) (ha : m'.address = m.address) (physical : Word)
    (i : Nat) : m'.leaf physical i = m.leaf physical i := by
  rw [leaf, leaf, ho, ha]

lemma Grown.refl (hm : w'.mapped = w.mapped) (ha : w'.allocated = w.allocated)
    (h : m.installed ≤ limit) : Grown m w physical limit m w' :=
  ⟨rfl, rfl, le_refl _, h, by rw [hm], fun x hx => .inl (by rw [← hm]; exact hx), ha⟩

lemma Grown.page (hi : m.installed = i) (hlt : i < limit) (hk : w.mapped ⊆ w'.mapped)
    (hm : w'.mapped ⊆ insert (m.leaf physical i) w.mapped) (ha : w'.allocated = w.allocated) :
    Grown m w physical limit { m with installed := i + 1 } w' := by
  refine ⟨rfl, rfl, by show m.installed ≤ i + 1; omega, hlt, hk, fun x hx => ?_, ha⟩
  rcases mem_insert.mp (hm hx) with rfl | hx
  · exact .inr ⟨i, Nat.lt_succ_self i, rfl⟩
  · exact .inl hx

lemma Grown.trans {m m' m'' w w' w'' physical l} (h : Grown m w physical l m' w')
    (h' : Grown m' w' physical l m'' w'') : Grown m w physical l m'' w'' := by
  refine ⟨h'.owner.trans h.owner, h'.address.trans h.address, h.lower.trans h'.lower, h'.upper,
    h.kept.trans h'.kept, fun x hx => ?_, h'.allocated.trans h.allocated⟩
  rcases h'.counted x hx with hx | hx
  · rcases h.counted x hx with hx | ⟨k, hk, rfl⟩
    · exact .inl hx
    · exact .inr ⟨k, by have := h'.lower; omega, (leaf_congr h'.owner h'.address _ _).symm⟩
  · exact .inr hx

lemma mapFrom_spec {p} (hi : m.installed = i) :
    ends (mapFrom p n i) (fun s => Grown m w p (i + n) s.1 s.2) (m, w) := by
  induction n generalizing i m w with
  | zero => exact Grown.refl rfl rfl (by omega)
  | succ n ih =>
    simp only [mapFrom, wp_bind, wp_get, World.map]
    cases w.answer.map with
    | ok =>
      have hpage : Grown m w p (i + (n + 1)) { m with installed := i + 1 }
          { w.tick with mapped := insert (m.leaf p i) w.mapped } :=
        Grown.page hi (by omega) (subset_insert _ _) (Finset.Subset.refl _) rfl
      have hrec := ih (i := i + 1) (m := { m with installed := i + 1 })
        (w := { w.tick with mapped := insert (m.leaf p i) w.mapped }) rfl
      rw [show i + 1 + n = i + (n + 1) from by omega] at hrec
      exact ends_mono hrec fun _ => hpage.trans
    | notInstalled e => exact Grown.refl rfl rfl (by omega)
    | maybeInstalled e installed =>
      cases installed with
      | true => exact Grown.page hi (by omega) (subset_insert _ _) (Finset.Subset.refl _) rfl
      | false =>
        exact Grown.page hi (by omega) (Finset.Subset.refl _) (subset_insert _ _) rfl

lemma map_spec {pages} (h : m.installed = 0) :
    ends (map physical pages) (fun s => Grown m w physical pages s.1 s.2) (m, w) := by
  have := mapFrom_spec (p := physical) (n := pages) (w := w) h
  rwa [Nat.zero_add] at this

lemma Shrunk.refl {m w physical} : Shrunk m w physical m w :=
  ⟨rfl, rfl, le_refl _, Finset.Subset.refl _, fun _ _ h => h, fun _ h => .inl h, rfl⟩

lemma Shrunk.trans {m'' w''} (h : Shrunk m w physical m' w') (h' : Shrunk m' w' physical m'' w'') :
    Shrunk m w physical m'' w'' := by
  refine ⟨h'.owner.trans h.owner, h'.address.trans h.address, h'.upper.trans h.upper,
    h'.sub.trans h.sub, fun x hx hc => h'.counted x hx (h.counted x (h'.sub hx) hc),
    fun x hx => ?_, h'.allocated.trans h.allocated⟩
  rcases h.others x hx with hx | hx
  · rcases h'.others x hx with hx | ⟨k, hk, rfl⟩
    · exact .inl hx
    · exact .inr ⟨k, by have := h.upper; omega, leaf_congr h.owner h.address _ _⟩
  · exact .inr hx

/-- An attempt to unmap the last counted page that may have left it; it stays counted. -/
lemma Shrunk.failed (hi : m.installed = i + 1) (hs : w'.mapped ⊆ w.mapped)
    (hm : w.mapped.erase (m.leaf physical i) ⊆ w'.mapped) (ha : w'.allocated = w.allocated) :
    Shrunk m w physical m w' := by
  refine ⟨rfl, rfl, le_refl _, hs, fun _ _ h => h, fun x hx => ?_, ha⟩
  by_cases e : x = m.leaf physical i
  · exact .inr ⟨i, by omega, e⟩
  · exact .inl (hm (mem_erase.mpr ⟨e, hx⟩))

lemma Shrunk.page (hi : m.installed = i + 1) (hm : w'.mapped = w.mapped.erase (m.leaf physical i))
    (ha : w'.allocated = w.allocated) : Shrunk m w physical { m with installed := i } w' := by
  refine ⟨rfl, rfl, by show i ≤ m.installed; omega, by rw [hm]; exact erase_subset _ _,
    fun x hx hc => ?_, fun x hx => ?_, ha⟩
  · obtain ⟨k, hk, rfl⟩ := hc
    rw [hm, mem_erase] at hx
    have : k ≠ i := by
      rintro rfl
      exact hx.1 rfl
    exact ⟨k, by show k < i; omega, rfl⟩
  · rw [hm]
    by_cases e : x = m.leaf physical i
    · exact .inr ⟨i, by omega, e⟩
    · exact .inl (mem_erase.mpr ⟨e, hx⟩)

lemma unmapFrom_spec (hn : m.installed = n) :
    wp (unmapFrom physical n) (fun _ s => Shrunk m w physical s.1 s.2 ∧ s.1.installed = 0)
      (fun _ s => Shrunk m w physical s.1 s.2) (m, w) := by
  induction n generalizing m w with
  | zero => exact ⟨Shrunk.refl, hn⟩
  | succ i ih =>
    simp only [unmapFrom, wp_bind, wp_get, wp_zoom, World.unmap, wp_modify]
    split
    · have hpage : Shrunk m w physical { m with installed := i }
          { w.tick with mapped := w.mapped.erase (m.leaf physical i) } := Shrunk.page hn rfl rfl
      refine wp_set.mpr ?_
      exact wp_mono (ih (m := { m with installed := i })
        (w := { w.tick with mapped := w.mapped.erase (m.leaf physical i) }) rfl)
        (fun _ _ h => ⟨hpage.trans h.1, h.2⟩) (fun _ _ => hpage.trans)
    · rename_i e removed _
      cases removed with
      | true => exact Shrunk.failed hn (erase_subset _ _) (Finset.Subset.refl _) rfl
      | false => exact Shrunk.failed hn (Finset.Subset.refl _) (erase_subset _ _) rfl

end Mapping

/-! ## Steps on a buffer -/

namespace Buffer

def Covers (b : Buffer) (role : Role) (x : Leaf) : Prop :=
  ∃ m, b.mapping role = some m ∧ m.Covers b.physical x

/-- Counts stay within the buffer, the client is never a provider, and a candidate exists only
while the provider has nothing installed. -/
structure Ok (b : Buffer) : Prop where
  bounded : ∀ r m, b.mapping r = some m → m.installed ≤ b.pages
  owners : b.client.owner ≠ b.provider.owner
  candidate : ∀ c, b.candidate = some c → b.client.owner ≠ c.owner ∧ b.provider.installed = 0

/-- A step on a buffer: new leaves are counted, and leaves that were counted still are. -/
structure Step (b : Buffer) (w : World) (b' : Buffer) (w' : World) : Prop where
  service : b'.service = b.service
  physical : b'.physical = b.physical
  pages : b'.pages = b.pages
  ok : b'.Ok
  new : ∀ x ∈ w'.mapped, x ∈ w.mapped ∨ ∃ r, b'.Covers r x
  counted : ∀ x ∈ w'.mapped, (∃ r, b.Covers r x) → ∃ r, b'.Covers r x
  allocated : w'.allocated = w.allocated

variable {b b' : Buffer} {w w' : World} {r : Role} {m m' : Mapping}
  {E : CapabilityError → Buffer × World → Prop}

lemma Step.refl (h : b.Ok) : Step b w b w :=
  ⟨rfl, rfl, rfl, h, fun _ hx => .inl hx, fun _ _ hc => hc, rfl⟩

lemma Step.trans {b'' w''} (h : Step b w b' w') (h' : Step b' w' b'' w'') : Step b w b'' w'' := by
  have hnew : ∀ x ∈ w''.mapped, x ∈ w'.mapped ∨ ∃ r, b''.Covers r x := h'.new
  refine ⟨h'.service.trans h.service, h'.physical.trans h.physical, h'.pages.trans h.pages, h'.ok,
    fun x hx => ?_, fun x hx hc => ?_, h'.allocated.trans h.allocated⟩
  · rcases hnew x hx with hx' | hc
    · rcases h.new x hx' with hx'' | hc
      · exact .inl hx''
      · exact .inr (h'.counted x hx hc)
    · exact .inr hc
  · rcases hnew x hx with hx' | hc'
    · exact h'.counted x hx (h.counted x hx' hc)
    · exact hc'

lemma Step.recount (hs : b'.service = b.service) (hp : b'.physical = b.physical)
    (hn : b'.pages = b.pages) (hok : b'.Ok) (hm : w'.mapped = w.mapped)
    (ha : w'.allocated = w.allocated) (hc : ∀ r x, b.Covers r x → ∃ r', b'.Covers r' x) :
    Step b w b' w' :=
  ⟨hs, hp, hn, hok, fun x hx => .inl (by rw [← hm]; exact hx), fun x _ ⟨r, h⟩ => hc r x h, ha⟩

@[simp] lemma mapping_setMapping_self : (b.setMapping r m).mapping r = some m := by
  cases r <;> rfl

variable {r' : Role} {b0 : Buffer} {w0 : World} {owner : Word}

lemma mapping_setMapping_of_ne (h : r ≠ r') : (b.setMapping r m).mapping r' = b.mapping r' := by
  cases r <;> cases r' <;> first | rfl | exact absurd rfl h

@[simp] lemma physical_setMapping : (b.setMapping r m).physical = b.physical := by
  cases r <;> rfl

@[simp] lemma pages_setMapping : (b.setMapping r m).pages = b.pages := by
  cases r <;> rfl

@[simp] lemma service_setMapping : (b.setMapping r m).service = b.service := by
  cases r <;> rfl

lemma Covers.setMapping_of_ne {x} (h : r ≠ r') (hc : b.Covers r' x) :
    (b.setMapping r m).Covers r' x := by
  obtain ⟨m', hm', hx⟩ := hc
  exact ⟨m', by rw [mapping_setMapping_of_ne h]; exact hm', by rw [physical_setMapping]; exact hx⟩

lemma Ok.setMapping {b : Buffer} {r} {m m' : Mapping} (h : b.Ok) (hm : b.mapping r = some m)
    (ho : m'.owner = m.owner) (hn : m'.installed ≤ b.pages)
    (hp : r = .provider → b.candidate = none ∨ m'.installed ≤ m.installed) :
    (b.setMapping r m').Ok where
  bounded r' m'' hr' := by
    by_cases e : r = r'
    · subst e
      rw [mapping_setMapping_self] at hr'
      cases hr'
      rw [pages_setMapping]
      exact hn
    · rw [mapping_setMapping_of_ne e] at hr'
      rw [pages_setMapping]
      exact h.bounded r' m'' hr'
  owners := by
    cases r with
    | client =>
      cases hm
      show m'.owner ≠ b.provider.owner
      rw [ho]
      exact h.owners
    | provider =>
      cases hm
      show b.client.owner ≠ m'.owner
      rw [ho]
      exact h.owners
    | candidate => exact h.owners
  candidate c hc := by
    cases r with
    | client =>
      cases hm
      have := h.candidate c hc
      refine ⟨?_, this.2⟩
      show m'.owner ≠ c.owner
      rw [ho]
      exact this.1
    | provider =>
      cases hm
      rcases hp rfl with hnone | hle
      · rw [show b.candidate = some c from hc] at hnone
        cases hnone
      · have := h.candidate c hc
        refine ⟨this.1, ?_⟩
        show m'.installed = 0
        omega
    | candidate =>
      cases hc
      have := h.candidate m hm
      exact ⟨by rw [ho]; exact this.1, this.2⟩

lemma Step.ofGrown (h : b.Ok) (hm : b.mapping r = some m)
    (hg : Mapping.Grown m w b.physical b.pages m' w') (hp : r = .provider → b.candidate = none) :
    Step b w (b.setMapping r m') w' := by
  refine ⟨service_setMapping, physical_setMapping, pages_setMapping,
    h.setMapping hm hg.owner hg.upper (fun e => .inl (hp e)), fun x hx => ?_, ?_, hg.allocated⟩
  · rcases hg.counted x hx with hx | hx
    · exact .inl hx
    · exact .inr ⟨r, m', mapping_setMapping_self, by rw [physical_setMapping]; exact hx⟩
  · rintro x - ⟨r', hc⟩
    by_cases e : r = r'
    · subst e
      obtain ⟨m'', hm'', k, hk, rfl⟩ := hc
      rw [hm] at hm''
      cases hm''
      refine ⟨r, m', mapping_setMapping_self, k, by have := hg.lower; omega, ?_⟩
      rw [physical_setMapping, Mapping.leaf_congr hg.owner hg.address]
    · exact ⟨r', hc.setMapping_of_ne e⟩

lemma Step.ofShrunk (h : b.Ok) (hm : b.mapping r = some m)
    (hs : Mapping.Shrunk m w b.physical m' w') : Step b w (b.setMapping r m') w' := by
  have hle := h.bounded r m hm
  refine ⟨service_setMapping, physical_setMapping, pages_setMapping,
    h.setMapping hm hs.owner (hs.upper.trans hle) (fun _ => .inr hs.upper),
    fun x hx => .inl (hs.sub hx), ?_, hs.allocated⟩
  rintro x hx ⟨r', hc⟩
  by_cases e : r = r'
  · subst e
    obtain ⟨m'', hm'', hcm⟩ := hc
    rw [hm] at hm''
    cases hm''
    exact ⟨r, m', mapping_setMapping_self, by rw [physical_setMapping]; exact hs.counted x hx hcm⟩
  · exact ⟨r', hc.setMapping_of_ne e⟩

lemma wp_onMapping {Q E} {k} (hm : b.mapping r = some m)
    (h : wp k (fun a t => Q a (b.setMapping r t.1, t.2)) (fun e t => E e (b.setMapping r t.1, t.2))
      (m, w)) : wp (onMapping r k) Q E (b, w) := by
  simp only [onMapping, wp_bind, wp_get]
  rw [hm]
  exact wp_zoom.mpr h

lemma onMapping_map (hm : b.mapping r = some m) (h0 : m.installed = 0) :
    ends (onMapping r (Mapping.map b.physical b.pages))
      (fun t => ∃ m', t.1 = b.setMapping r m' ∧ Mapping.Grown m w b.physical b.pages m' t.2)
      (b, w) :=
  wp_onMapping hm (ends_mono (Mapping.map_spec h0) fun t h => ⟨t.1, rfl, h⟩)

lemma onMapping_unmap (hm : b.mapping r = some m) :
    wp (onMapping r (Mapping.unmap b.physical))
      (fun _ t => ∃ m', t.1 = b.setMapping r m' ∧ Mapping.Shrunk m w b.physical m' t.2 ∧
        m'.installed = 0)
      (fun _ t => ∃ m', t.1 = b.setMapping r m' ∧ Mapping.Shrunk m w b.physical m' t.2) (b, w) :=
  wp_onMapping hm (wp_mono (Mapping.unmapFrom_spec rfl) (fun _ t h => ⟨t.1, rfl, h⟩)
    (fun _ t h => ⟨t.1, rfl, h⟩))

lemma wp_plain {Q} (hQ : Q () (b, w.tick)) (hE : ∀ e, E e (b, w.tick)) :
    wp (effect World.plain) Q E (b, w) := by
  refine wp_zoom.mpr ?_
  exact wp_fromResult (fun _ _ => hQ) (fun e _ => hE e)

lemma wp_reserve {Q} (hQ : ∀ a, Q a (b, w.tick)) (hE : ∀ e, E e (b, w.tick)) :
    wp (effect World.reserve) Q E (b, w) := by
  refine wp_zoom.mpr ?_
  exact wp_fromResult (fun a _ => hQ a) (fun e _ => hE e)

lemma Step.tick (h : Step b w b' w') : Step b w b' w'.tick :=
  ⟨h.service, h.physical, h.pages, h.ok, h.new, h.counted, h.allocated⟩

lemma Step.readdress (h : b.Ok) (hm : b.mapping r = some m) (h0 : m.installed = 0)
    (ho : m'.owner = m.owner) (h0' : m'.installed = 0) : Step b w (b.setMapping r m') w := by
  refine .recount service_setMapping physical_setMapping pages_setMapping
    (h.setMapping hm ho (by omega) (fun _ => .inr (by omega))) rfl rfl ?_
  intro r' x hc
  by_cases e : r = r'
  · subst e
    obtain ⟨m'', hm'', k, hk, _⟩ := hc
    rw [hm] at hm''
    cases hm''
    omega
  · exact ⟨r', hc.setMapping_of_ne e⟩

lemma zeroPages_spec {n} (h : Step b0 w0 b w) :
    wp (zeroPages n) (fun _ t => t.1 = b ∧ Step b0 w0 t.1 t.2) (fun _ t => Step b0 w0 t.1 t.2)
      (b, w) := by
  induction n generalizing w with
  | zero => exact ⟨rfl, h⟩
  | succ n ih =>
    simp only [zeroPages, wp_bind]
    exact wp_plain (ih h.tick) (fun _ => h.tick)

lemma build_spec (h : b.Ok) (hc : b.client.installed = 0) (hp : b.provider.installed = 0)
    (hn : b.candidate = none) :
    ends build (fun t => Step b w t.1 t.2) (b, w) := by
  simp only [build, wp_bind]
  refine wp_reserve (fun a => ?_) (fun _ => (Step.refl h).tick)
  have h1 : Step b w.tick { b with client := { b.client with address := a } } w.tick :=
    Step.readdress (r := .client) h rfl hc rfl hc
  have h01 := (Step.refl h).tick.trans h1
  refine wp_reserve (fun a' => ?_) (fun _ => h01.tick)
  have h2 : Step { b with client := { b.client with address := a } } w.tick.tick
      { b with
        client := { b.client with address := a }, provider := { b.provider with address := a' } }
      w.tick.tick := Step.readdress (r := .provider) h1.ok rfl hp rfl hp
  simp only [wp_modify, wp_get]
  refine wp_post (zeroPages_spec (h01.tick.trans h2)) ?_
  rintro _ ⟨_, w2⟩ ⟨rfl, h02⟩
  refine wp_mono (onMapping_map (r := .client) rfl hc) ?_ ?_
  · rintro _ ⟨_, w3⟩ ⟨m3, rfl, hg⟩
    have h3 := h02.trans (Step.ofGrown (r := .client) h02.ok rfl hg (fun e => by cases e))
    refine ends_mono (onMapping_map (r := .provider) rfl hp) ?_
    rintro ⟨_, w4⟩ ⟨m4, rfl, hg4⟩
    exact h3.trans (Step.ofGrown (r := .provider) h3.ok rfl hg4 (fun _ => hn))
  · rintro _ ⟨_, w3⟩ ⟨m3, rfl, hg⟩
    exact h02.trans (Step.ofGrown (r := .client) h02.ok rfl hg (fun e => by cases e))

lemma Step.flags (h : b.Ok) (closed ready : Bool) : Step b w { b with closed, ready } w :=
  Step.recount rfl rfl rfl ⟨h.bounded, h.owners, h.candidate⟩ rfl rfl
    (fun r _ ⟨m, hm, hx⟩ => ⟨r, m, hm, hx⟩)

/-- Unmapping: whether it succeeds or not, what may be left is still counted. -/
lemma wp_unmap {physical Q} (hs : Step b0 w0 b w) (hp : b.physical = physical)
    (hm : b.mapping r = some m) (hQ : ∀ b' w', Step b0 w0 b' w' → Q () (b', w'))
    (hE : ∀ e b' w', Step b0 w0 b' w' → E e (b', w')) :
    wp (onMapping r (Mapping.unmap physical)) Q E (b, w) := by
  subst hp
  refine wp_mono (onMapping_unmap hm) ?_ ?_
  · rintro _ ⟨_, w'⟩ ⟨m', rfl, hsh, _⟩
    exact hQ _ _ (hs.trans (.ofShrunk hs.ok hm hsh))
  · rintro _ ⟨_, w'⟩ ⟨m', rfl, hsh⟩
    exact hE _ _ _ (hs.trans (.ofShrunk hs.ok hm hsh))

lemma create_spec (h : b.Ok) (hc : b.client.installed = 0) (hp : b.provider.installed = 0)
    (hn : b.candidate = none) :
    ends create (fun t => Step b w t.1 t.2) (b, w) := by
  simp only [create, wp_bind, wp_attempt]
  refine wp_mono (build_spec h hc hp hn) ?_ ?_
  · rintro _ ⟨b1, w1⟩ h1
    exact h1.trans (.flags h1.ok _ _)
  · rintro e ⟨b1, w1⟩ h1
    have hdone : ∀ b' w', Step b w b' w' → Step b w { b' with closed := true } w' :=
      fun b' w' h' => h'.trans (.flags h'.ok true b'.ready)
    have hphys : ∀ b' w', Step b w b' w' → b'.physical = b1.physical :=
      fun b' w' h' => h'.physical.trans h1.physical.symm
    refine wp_unmap (r := .provider) h1 rfl rfl (fun b2 w2 h2 => ?_) (fun _ b2 w2 h2 => ?_)
    · exact wp_unmap (r := .client) h2 (hphys b2 w2 h2) rfl hdone (fun _ => hdone)
    · exact wp_unmap (r := .client) h2 (hphys b2 w2 h2) rfl hdone (fun _ => hdone)

/-- A successful `withdraw` leaves the provider with nothing installed. -/
lemma withdraw_spec (h : b.Ok) :
    wp (withdraw owner)
      (fun _ t => Step b w t.1 t.2 ∧ t.1.provider.owner = owner ∧ t.1.provider.installed = 0)
      (fun _ t => Step b w t.1 t.2) (b, w) := by
  refine wp_guard (.refl h) fun ho => ?_
  simp only [bne_iff_ne, ne_eq, not_not] at ho
  simp only [wp_bind, wp_attempt]
  refine wp_mono (onMapping_unmap (r := .provider) rfl) ?_ ?_
  · rintro _ ⟨_, w1⟩ ⟨m, rfl, hs, h0⟩
    exact ⟨.ofShrunk (r := .provider) h rfl hs, hs.owner.trans ho, h0⟩
  · rintro _ ⟨_, w1⟩ ⟨m, rfl, hs⟩
    exact .ofShrunk (r := .provider) h rfl hs

/-- What `propose` leaves: the buffer as it was, or with a candidate that accounts for every new
leaf. -/
def Offered (b : Buffer) (w : World) (b' : Buffer) (w' : World) : Prop :=
  (b' = b ∧ w'.mapped = w.mapped) ∨
  ∃ c, b' = { b with candidate := some c } ∧ b.candidate = none ∧ b.provider.installed = 0 ∧
    w.mapped ⊆ w'.mapped ∧ ∀ x ∈ w'.mapped, x ∈ w.mapped ∨ c.Covers b.physical x

lemma propose_spec (h : b.Ok) :
    ends (propose owner) (fun t => Step b w t.1 t.2 ∧ Offered b w t.1 t.2) (b, w) := by
  refine wp_guard ⟨Step.refl h, .inl ⟨rfl, rfl⟩⟩ fun hidle => ?_
  simp only [Bool.or_eq_true, bne_iff_ne, ne_eq, not_or, not_not, Bool.not_eq_true,
    Option.isSome_eq_false_iff, Option.isNone_iff_eq_none] at hidle
  obtain ⟨hp0, hcn⟩ := hidle
  refine wp_guard ⟨Step.refl h, .inl ⟨rfl, rfl⟩⟩ fun hcl => ?_
  have hcl : b.client.owner ≠ owner := by simpa using hcl
  simp only [wp_bind]
  refine wp_plain ?_ (fun _ => ⟨(Step.refl h).tick, .inl ⟨rfl, rfl⟩⟩)
  -- an empty candidate counts nothing, and the provider has nothing installed beside it
  have hopen : ∀ a w', Step b w b w' → w'.mapped = w.mapped →
      ends (onMapping .candidate (Mapping.map b.physical b.pages))
        (fun t => Step b w t.1 t.2 ∧ Offered b w t.1 t.2)
        ({ b with candidate := some ⟨owner, a, 0⟩ }, w') := by
    intro a w' hs hmap
    have hc : Step b w' { b with candidate := some ⟨owner, a, 0⟩ } w' := by
      refine Step.recount rfl rfl rfl ⟨?_, h.owners, ?_⟩ rfl rfl ?_
      · rintro (_ | _ | _) m hm
        · exact h.bounded .client m hm
        · exact h.bounded .provider m hm
        · cases hm
          exact Nat.zero_le _
      · rintro c hc
        cases hc
        exact ⟨hcl, hp0⟩
      · rintro (_ | _ | _) x ⟨m, hm, hx⟩
        · exact ⟨.client, m, hm, hx⟩
        · exact ⟨.provider, m, hm, hx⟩
        · rw [show b.mapping .candidate = b.candidate from rfl, hcn] at hm
          cases hm
    have hall := hs.trans hc
    refine ends_mono (onMapping_map (r := .candidate) (b := { b with candidate := some ⟨owner, a, 0⟩ })
      rfl rfl) ?_
    rintro ⟨_, w''⟩ ⟨m', rfl, hg⟩
    refine ⟨hall.trans (Step.ofGrown (r := .candidate) hc.ok rfl hg (fun e => by cases e)),
      .inr ⟨m', rfl, hcn, hp0, ?_, ?_⟩⟩
    · rw [← hmap]
      exact hg.kept
    · rw [← hmap]
      exact hg.counted
  refine wp_ite (fun _ => ?_) (fun _ => ?_)
  · exact hopen _ _ (Step.refl h).tick rfl
  · simp only [wp_bind]
    exact wp_reserve (fun a => hopen a _ (Step.refl h).tick.tick rfl)
      (fun _ => ⟨(Step.refl h).tick.tick, .inl ⟨rfl, rfl⟩⟩)

/-- A successful `retract` removes the candidate and the leaves it counted, and no others. -/
lemma retract_spec {c} (h : b.Ok) (hc : b.candidate = some c) :
    wp retract
      (fun _ t => Step b w t.1 t.2 ∧ t.1 = { b with candidate := none } ∧
        t.2.mapped ⊆ w.mapped ∧ (∀ x ∈ w.mapped, x ∈ t.2.mapped ∨ c.Covers b.physical x) ∧
        ∀ x ∈ t.2.mapped, ¬c.Covers b.physical x)
      (fun _ t => Step b w t.1 t.2) (b, w) := by
  simp only [retract, wp_bind, wp_get]
  refine wp_mono (onMapping_unmap (r := .candidate) hc) ?_ ?_
  · rintro _ ⟨_, w1⟩ ⟨m, rfl, hs, h0⟩
    have h1 := Step.ofShrunk (r := .candidate) h hc hs
    have h2 : Step (b.setMapping .candidate m) w1 { b with candidate := none } w1 := by
      refine .recount rfl rfl rfl ⟨?_, h.owners, fun _ hn => by cases hn⟩ rfl rfl ?_
      · rintro (_ | _ | _) m' hm'
        · exact h.bounded .client m' hm'
        · exact h.bounded .provider m' hm'
        · cases hm'
      · rintro (_ | _ | _) x ⟨m', hm', hx⟩
        · exact ⟨.client, m', hm', hx⟩
        · exact ⟨.provider, m', hm', hx⟩
        · cases hm'
          obtain ⟨k, hk, _⟩ := hx
          omega
    refine ⟨h1.trans h2, rfl, hs.sub, hs.others, fun x hx hcov => ?_⟩
    obtain ⟨k, hk, _⟩ := hs.counted x hx hcov
    omega
  · rintro _ ⟨_, w1⟩ ⟨m, rfl, hs⟩
    exact .ofShrunk (r := .candidate) h hc hs

/-- Promotion moves the candidate's count to the provider, which has nothing installed. -/
lemma promote_step (h : b.Ok) : Step b w b.promote w := by
  unfold promote
  split
  · rename_i c hc
    obtain ⟨hcl, hp0⟩ := h.candidate c hc
    refine .recount rfl rfl rfl ⟨?_, hcl, fun _ hn => by cases hn⟩ rfl rfl ?_
    · rintro (_ | _ | _) m hm
      · exact h.bounded .client m hm
      · cases hm
        exact h.bounded .candidate c hc
      · cases hm
    · rintro (_ | _ | _) x ⟨m, hm, hx⟩
      · exact ⟨.client, m, hm, hx⟩
      · cases hm
        obtain ⟨k, hk, _⟩ := hx
        omega
      · rw [show b.mapping .candidate = b.candidate from rfl, hc] at hm
        cases hm
        exact ⟨.provider, c, rfl, hx⟩
  · exact .refl h

end Buffer

end Nanami.Communication
