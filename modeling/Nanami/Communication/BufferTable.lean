import Nanami.Communication.BufferCover

/-!
# The table of session buffers

Over all entries: every installed leaf is counted by exactly one mapping of one entry, in every
state that calls on `Buffers` can reach, whatever the effects answer.
-/

namespace Nanami.Communication
open Nanami.Lib

def Buffer.owned (b : Buffer) : Finset Word := World.physicalPages b.physical b.pages

namespace Buffers

/-- Every installed leaf is counted by a mapping of an entry, and no two entries share a page. -/
structure Covered (s : Buffers) : Prop where
  covered : ∀ x ∈ s.world.mapped, ∃ i b r, s.get? i = some b ∧ b.Covers r x
  ok : ∀ i b, s.get? i = some b → b.Ok
  owned : ∀ i b, s.get? i = some b → b.owned ⊆ s.world.allocated
  disjoint : ∀ i j b c, i ≠ j → s.get? i = some b → s.get? j = some c → Disjoint b.owned c.owned

def putEntry (s : Buffers) (i : Nat) (b : Buffer) (w : World) : Buffers :=
  ⟨Slots.put s.entries i b, w⟩

variable {s t : Buffers} {i j : Nat} {b : Buffer} {w : World} {id : SessionId} {service : ServiceId}
  {x : Leaf}

lemma lt_of_get? (h : s.get? i = some b) : i < sessions :=
  Slots.lt_of_get h

lemma get?_putEntry_self (h : i < sessions) :
    (s.putEntry i b w).get? i = some b := Slots.get_put_self h

lemma get?_putEntry_of_ne (h : i ≠ j) :
    (s.putEntry i b w).get? j = s.get? j := Slots.get_put_of_ne h

variable {m : Buffer.M Unit} {E : CapabilityError → Buffers → Prop} {b' : Buffer}

lemma wp_onEntry {Q} (hn : s.get? i = none → Q () s)
    (hs : ∀ b, s.get? i = some b → wp m (fun _ t => Q () (s.putEntry i t.1 t.2))
      (fun e t => E e (s.putEntry i t.1 t.2)) (b, s.world)) : wp (onEntry i m) Q E s := by
  unfold onEntry
  cases hg : s.get? i with
  | none => exact wp_of_ok (by rw [hg]) (hn hg)
  | some b =>
    have h := hs b hg
    cases hm : m (b, s.world) with
    | ok a t =>
      have hq := wp_ok h hm
      exact wp_of_ok (by simp only [hg, hm]; rfl) hq
    | error e t =>
      have he := wp_error h hm
      exact wp_of_error (by simp only [hg, hm]; rfl) he

lemma get?_putEntry_cases {c} (hi : i < sessions) (h : (s.putEntry i b w).get? j = some c) :
    (j = i ∧ c = b) ∨ s.get? j = some c := by
  by_cases e : i = j
  · subst e
    rw [get?_putEntry_self hi] at h
    cases h
    exact .inl ⟨rfl, rfl⟩
  · rw [get?_putEntry_of_ne e] at h
    exact .inr h

lemma Covered.put (h : Covered s) (hi : i < sessions) (hok : b.Ok)
    (hcov : ∀ x ∈ w.mapped, (∃ r, b.Covers r x) ∨
      ∃ j c r, i ≠ j ∧ s.get? j = some c ∧ c.Covers r x)
    (hown : b.owned ⊆ w.allocated) (hkept : s.world.allocated ⊆ w.allocated)
    (hapart : ∀ j c, i ≠ j → s.get? j = some c → Disjoint b.owned c.owned) :
    Covered (s.putEntry i b w) := by
  refine ⟨fun x hx => ?_, fun j c hj => ?_, fun j c hj => ?_, fun j k c d hjk hj hk => ?_⟩
  · rcases hcov x hx with ⟨r, hr⟩ | ⟨j, c, r, hne, hj, hr⟩
    · exact ⟨i, b, r, get?_putEntry_self hi, hr⟩
    · exact ⟨j, c, r, (get?_putEntry_of_ne hne).trans hj, hr⟩
  · rcases get?_putEntry_cases hi hj with ⟨_, rfl⟩ | hj
    · exact hok
    · exact h.ok j c hj
  · rcases get?_putEntry_cases hi hj with ⟨_, rfl⟩ | hj
    · exact hown
    · exact (h.owned j c hj).trans hkept
  · rcases get?_putEntry_cases hi hj with ⟨rfl, rfl⟩ | hj' <;>
      rcases get?_putEntry_cases hi hk with ⟨rfl, rfl⟩ | hk'
    · exact absurd rfl hjk
    · exact hapart k d hjk hk'
    · exact (hapart j c hjk.symm hj').symm
    · exact h.disjoint j k c d hjk hj' hk'

lemma Covered.step (h : Covered s) (hb : s.get? i = some b) (hs : Buffer.Step b s.world b' w) :
    Covered (s.putEntry i b' w) := by
  have hown : b'.owned = b.owned := by
    rw [Buffer.owned, hs.physical, hs.pages]
    rfl
  refine h.put (lt_of_get? hb) hs.ok (fun x hx => ?_) ?_ hs.allocated.ge fun j c hne hj => ?_
  · rcases hs.new x hx with hold | hnew
    · obtain ⟨j, c, r, hj, hr⟩ := h.covered x hold
      by_cases e : i = j
      · subst e
        rw [hb] at hj
        cases hj
        exact .inl (hs.counted x hx ⟨r, hr⟩)
      · exact .inr ⟨j, c, r, e, hj, hr⟩
    · exact .inl hnew
  · rw [hown, hs.allocated]
    exact h.owned i b hb
  · rw [hown]
    exact h.disjoint i j b c hne hb hj

lemma Covered.world {s w} (h : Covered s) (hm : w.mapped = s.world.mapped)
    (ha : s.world.allocated ⊆ w.allocated) : Covered { s with world := w } := by
  refine ⟨fun x hx => ?_, h.ok, fun i b hb => (h.owned i b hb).trans ha, h.disjoint⟩
  have hx : x ∈ w.mapped := hx
  rw [hm] at hx
  exact h.covered x hx

lemma wp_forEntries {f} {l : List Nat} {I : List Nat → Buffers → Prop}
    (hstep : ∀ i rest s, I (i :: rest) s → (s.get? i = none → I rest s) ∧
      ∀ b, s.get? i = some b → (f b = false → I rest (s.putEntry i b s.world)) ∧
        (f b = true → wp m (fun _ t => I rest (s.putEntry i t.1 t.2))
          (fun e t => E e (s.putEntry i t.1 t.2)) (b, s.world))) (h : I l s) :
    wp (forEntries f m l) (fun _ => I []) E s := by
  induction l generalizing s with
  | nil => exact h
  | cons i rest ih =>
    simp only [forEntries, wp_bind]
    obtain ⟨hn, hs⟩ := hstep i rest s h
    refine wp_onEntry (fun e => ih (hn e)) (fun b hb => ?_)
    obtain ⟨hskip, hdo⟩ := hs b hb
    refine wp_ite (fun hf => ?_) (fun hf => ?_)
    · exact wp_post (hdo hf) (fun _ t => ih)
    · exact ih (hskip (by simpa using hf))

/-! ## Calls -/

lemma Covered.new (answers : Nat → Answer) : Covered (Buffers.new answers) := by
  have hn : ∀ i, (Buffers.new answers).get? i = none := fun i => Slots.get_replicate
  refine ⟨?_, fun i b hb => ?_, fun i b hb => ?_, fun i j b c _ hb => ?_⟩
  · intro x hx
    cases hx
  all_goals
    rw [hn] at hb
    cases hb

lemma lt_of_index (h : index id = some i) : i < sessions := by
  unfold index at h
  split at h
  · cases h
  · split at h
    · cases h
    · split at h
      · cases h
        assumption
      · cases h

lemma Covered.add (h : Covered s) (hi : i < sessions) (hn : s.get? i = none) (hok : b.Ok)
    (hm : w.mapped = s.world.mapped) (hd : Disjoint b.owned s.world.allocated)
    (ha : w.allocated = s.world.allocated ∪ b.owned) : Covered (s.putEntry i b w) := by
  refine h.put hi hok (fun x hx => ?_) ?_ ?_ fun j c _ hj =>
    Finset.disjoint_of_subset_right (h.owned j c hj) hd
  · rw [hm] at hx
    obtain ⟨j, c, r, hj, hr⟩ := h.covered x hx
    refine .inr ⟨j, c, r, ?_, hj, hr⟩
    rintro rfl
    rw [hn] at hj
    cases hj
  · rw [ha]
    exact Finset.subset_union_right
  · rw [ha]
    exact Finset.subset_union_left

lemma create_covered {client provider pages} (h : Covered s) :
    ends (create id service client provider pages) Covered s := by
  unfold create
  simp only [wp_bind]
  refine wp_okOr (fun slot hslot => ?_) (fun _ => h)
  refine wp_guard h fun hargs => ?_
  simp only [Bool.or_eq_true, beq_iff_eq, not_or] at hargs
  obtain ⟨⟨⟨_, _⟩, hne⟩, _⟩ := hargs
  simp only [wp_bind, wp_get]
  split
  · exact wp_ite (fun _ => h) (fun _ => wp_ite (fun _ => h) (fun _ => h))
  · rename_i hnone
    simp only [wp_bind, wp_zoom, World.plain, World.allocate]
    have htick : Covered { s with world := s.world.tick } := h.world rfl (Finset.Subset.refl _)
    refine wp_fromResult (fun _ _ => ?_) (fun _ _ => htick)
    have htick2 : Covered { s with world := s.world.tick.tick } :=
      h.world rfl (Finset.Subset.refl _)
    refine wp_fromResult (fun physical _ => ?_) (fun _ _ => htick2)
    refine wp_ite (fun hfresh => ?_) (fun _ => htick2)
    have hok : (Buffer.unbuilt service physical pages client provider).Ok := by
      refine ⟨?_, hne, ?_⟩
      · rintro (_ | _ | _) m hm <;> cases hm <;> exact Nat.zero_le _
      · intro c hc
        cases hc
    have hadd := h.add (lt_of_index hslot) hnone hok (w := { s.world.tick.tick with
      allocated := s.world.allocated ∪ World.physicalPages physical pages }) rfl hfresh rfl
    have hget := get?_putEntry_self (s := s) (lt_of_index hslot)
      (b := Buffer.unbuilt service physical pages client provider) (w := { s.world.tick.tick with
        allocated := s.world.allocated ∪ World.physicalPages physical pages })
    refine wp_onEntry (fun _ => hadd) (fun b hb => ?_)
    obtain rfl := Option.some.inj (hget.symm.trans hb)
    exact ends_mono (Buffer.create_spec hok rfl rfl rfl) fun t => hadd.step hget

/-- A successful `withdraw` leaves no provider of an attached buffer with a page installed. -/
lemma withdraw_covered {owner : Word} (h : Covered s) :
    wp (withdraw service owner)
      (fun _ t => Covered t ∧ ∀ i b, t.get? i = some b → b.attached service = true →
        b.provider.owner = owner ∧ b.provider.installed = 0)
      (fun _ => Covered) s := by
  have hloop := wp_forEntries (f := Buffer.attached service) (m := Buffer.withdraw owner)
    (l := List.range sessions) (s := s) (E := fun _ t => Covered t)
    (I := fun rest t => Covered t ∧ ∀ i b, i ∉ rest → t.get? i = some b →
      b.attached service = true → b.provider.owner = owner ∧ b.provider.installed = 0) ?_
    ⟨h, fun i b hi hb => absurd (List.mem_range.mpr (lt_of_get? hb)) hi⟩
  · exact wp_post hloop (fun _ t ht => ⟨ht.1, fun i b => ht.2 i b (by simp)⟩)
  · intro i rest s ⟨hc, hdone⟩
    -- the entries before `i` are done; `i` itself is done by this step
    have hafter : ∀ b b' w, s.get? i = some b →
        (b'.attached service = true → b'.provider.owner = owner ∧ b'.provider.installed = 0) →
        ∀ j c, j ∉ rest → (s.putEntry i b' w).get? j = some c → c.attached service = true →
          c.provider.owner = owner ∧ c.provider.installed = 0 := by
      intro b b' w hb hb' j c hj hc hatt
      by_cases e : i = j
      · subst e
        rw [get?_putEntry_self (lt_of_get? hb)] at hc
        cases hc
        exact hb' hatt
      · rw [get?_putEntry_of_ne e] at hc
        exact hdone j c (by simp [hj, Ne.symm e]) hc hatt
    refine ⟨fun hn => ⟨hc, fun j b hj hb => ?_⟩, fun b hb => ⟨fun hf => ?_, fun hf => ?_⟩⟩
    · refine hdone j b ?_ hb
      rintro hm
      rcases List.mem_cons.mp hm with rfl | hm
      · rw [hn] at hb
        cases hb
      · exact hj hm
    · exact ⟨hc.step hb (Buffer.Step.refl (hc.ok i b hb)),
        hafter b b _ hb fun hatt => absurd (hf.symm.trans hatt) (by simp)⟩
    · exact wp_mono (Buffer.withdraw_spec (hc.ok i b hb))
        (fun _ t ht => ⟨hc.step hb ht.1, hafter b t.1 t.2 hb fun _ => ht.2⟩)
        (fun _ t => hc.step hb)

lemma close_covered (h : Covered s) : ends (close id) Covered s := by
  unfold close
  simp only [wp_bind]
  refine wp_okOr (fun slot _ => ?_) (fun _ => h)
  refine wp_onEntry (fun _ => h) (fun b hb => ?_)
  have hok := h.ok slot b hb
  refine wp_guard (h.step hb (.refl hok)) fun _ => ?_
  simp only [wp_bind, wp_attempt]
  refine Buffer.wp_unmap (r := .client) (Buffer.Step.refl hok) rfl rfl (fun b' w' hs => ?_)
    (fun _ b' w' => h.step hb)
  exact h.step hb (hs.trans (Buffer.Step.flags hs.ok true b'.ready))

/-! ## Installing and rolling back -/

lemma physical_mem_owned {r} (h : b.Ok) (hc : b.Covers r x) : x.physical ∈ b.owned := by
  obtain ⟨m, hm, k, hk, rfl⟩ := hc
  exact Finset.mem_image.mpr ⟨k, Finset.mem_range.mpr (Nat.lt_of_lt_of_le hk (h.bounded r m hm)), rfl⟩

lemma Covered.entry (h : Covered s) (hb : s.get? i = some b) (hx : x ∈ s.world.mapped)
    (hp : x.physical ∈ b.owned) : ∃ r, b.Covers r x := by
  obtain ⟨j, c, r, hj, hr⟩ := h.covered x hx
  by_cases e : i = j
  · subst e
    rw [hb] at hj
    cases hj
    exact ⟨r, hr⟩
  · have hpc := physical_mem_owned (h.ok j c hj) hr
    exact absurd hpc (Finset.disjoint_left.mp (h.disjoint i j b c e hb hj) hp)

/-- `t` is `s` with candidates on entries of `service`, which account for every new leaf. -/
structure Proposed (service : ServiceId) (s t : Buffers) : Prop where
  entries : ∀ i, t.get? i = s.get? i ∨ ∃ b c, s.get? i = some b ∧ b.candidate = none ∧
    b.provider.installed = 0 ∧ b.service = service ∧ t.get? i = some { b with candidate := some c }
  kept : s.world.mapped ⊆ t.world.mapped
  new : ∀ x ∈ t.world.mapped, x ∈ s.world.mapped ∨ ∃ i b c, t.get? i = some b ∧
    b.service = service ∧ b.candidate = some c ∧ c.Covers b.physical x

lemma Proposed.refl {service s} : Proposed service s s :=
  ⟨fun _ => .inl rfl, Finset.Subset.refl _, fun _ hx => .inl hx⟩

lemma Proposed.same {t'} (h : Proposed service s t) (hg : ∀ i, t'.get? i = t.get? i)
    (hm : t'.world.mapped = t.world.mapped) : Proposed service s t' := by
  refine ⟨fun i => ?_, by rw [hm]; exact h.kept, fun x hx => ?_⟩
  · rw [hg]
    exact h.entries i
  · rw [hm] at hx
    simpa only [hg] using h.new x hx

lemma get?_putEntry_same (hb : s.get? i = some b) : (s.putEntry i b w).get? j = s.get? j := by
  by_cases e : i = j
  · subst e
    rw [get?_putEntry_self (lt_of_get? hb), hb]
  · exact get?_putEntry_of_ne e

lemma Proposed.offer (h : Proposed service s t) (hb : t.get? i = some b) (hs : b.service = service)
    (ho : Buffer.Offered b t.world b' w) : Proposed service s (t.putEntry i b' w) := by
  rcases ho with ⟨rfl, hm⟩ | ⟨c, rfl, hcn, hp0, hkept, hnew⟩
  · exact h.same (fun j => get?_putEntry_same hb) hm
  · have hi := lt_of_get? hb
    refine ⟨fun j => ?_, h.kept.trans hkept, fun x hx => ?_⟩
    · by_cases e : i = j
      · subst e
        rw [get?_putEntry_self hi]
        rcases h.entries i with he | ⟨b0, c0, _, _, _, _, he⟩
        · exact .inr ⟨b, c, he.symm.trans hb, hcn, hp0, hs, rfl⟩
        · rw [hb] at he
          cases he
          cases hcn
      · rw [get?_putEntry_of_ne e]
        exact h.entries j
    · rcases hnew x hx with hx | hx
      · rcases h.new x hx with hx | ⟨j, d, c', hj, hd, hc', hcov⟩
        · exact .inl hx
        · refine .inr ⟨j, d, c', ?_, hd, hc', hcov⟩
          rw [get?_putEntry_of_ne]
          · exact hj
          · rintro rfl
            rw [hb] at hj
            cases hj
            rw [hcn] at hc'
            cases hc'
      · exact .inr ⟨i, _, c, get?_putEntry_self hi, hs, rfl, hx⟩

def NoCandidate (service : ServiceId) (s : Buffers) : Prop :=
  ∀ i b, s.get? i = some b → b.service = service → b.candidate = none

lemma Proposed.not_mem {c} (hs : Covered s) (ht : Covered t) (h0 : NoCandidate service s)
    (h : Proposed service s t) (hb : t.get? i = some b) (hsv : b.service = service)
    (hc : b.candidate = some c) (hx : c.Covers b.physical x) : x ∉ s.world.mapped := by
  intro hmem
  rcases h.entries i with he | ⟨b0, c0, hb0, hcn, hp0, _, he⟩
  · rw [h0 i b (he.symm.trans hb) hsv] at hc
    cases hc
  · obtain rfl := Option.some.inj (he.symm.trans hb)
    cases hc
    have hok := ht.ok i _ hb
    have hphys := physical_mem_owned (r := .candidate) hok ⟨c, rfl, hx⟩
    obtain ⟨r, m, hm, k, hk, hleaf⟩ := hs.entry hb0 hmem hphys
    obtain ⟨k', _, hleaf'⟩ := hx
    cases r with
    | client =>
      cases hm
      have howner : b0.client.owner = c.owner := by
        have e : (b0.client.leaf b0.physical k).owner = (c.leaf b0.physical k').owner := by
          rw [← hleaf, hleaf']
        exact e
      exact (hok.candidate c rfl).1 howner
    | provider =>
      cases hm
      omega
    | candidate =>
      rw [show b0.mapping .candidate = b0.candidate from rfl, hcn] at hm
      cases hm

lemma Proposed.retract {c} (hs : Covered s) (ht : Covered t) (h0 : NoCandidate service s)
    (h : Proposed service s t) (hb : t.get? i = some b) (hsv : b.service = service)
    (hc : b.candidate = some c) (hsub : w.mapped ⊆ t.world.mapped)
    (hothers : ∀ x ∈ t.world.mapped, x ∈ w.mapped ∨ c.Covers b.physical x)
    (hgone : ∀ x ∈ w.mapped, ¬c.Covers b.physical x) :
    Proposed service s (t.putEntry i { b with candidate := none } w) := by
  have hi := lt_of_get? hb
  refine ⟨fun j => ?_, fun x hx => ?_, fun x hx => ?_⟩
  · by_cases e : i = j
    · subst e
      rw [get?_putEntry_self hi]
      rcases h.entries i with he | ⟨b0, c0, hb0, hcn, _, _, he⟩
      · rw [h0 i b (he.symm.trans hb) hsv] at hc
        cases hc
      · obtain rfl := Option.some.inj (he.symm.trans hb)
        refine .inl ?_
        rw [hb0]
        obtain ⟨_, _, _, _, _, _, _, _⟩ := b0
        cases hcn
        rfl
    · rw [get?_putEntry_of_ne e]
      exact h.entries j
  · rcases hothers x (h.kept hx) with hw | hcov
    · exact hw
    · exact absurd hx (h.not_mem hs ht h0 hb hsv hc hcov)
  · have hx : x ∈ w.mapped := hx
    rcases h.new x (hsub hx) with hold | ⟨j, d, c', hj, hd, hc', hcov⟩
    · exact .inl hold
    · by_cases e : i = j
      · subst e
        rw [hb] at hj
        cases hj
        rw [hc] at hc'
        cases hc'
        exact absurd hcov (hgone x hx)
      · exact .inr ⟨j, d, c', by rw [get?_putEntry_of_ne e]; exact hj, hd, hc', hcov⟩

lemma Proposed.eq (h : Proposed service s t) (ht : NoCandidate service t) :
    (∀ i, t.get? i = s.get? i) ∧ t.world.mapped = s.world.mapped := by
  refine ⟨fun i => ?_, Finset.Subset.antisymm (fun x hx => ?_) h.kept⟩
  · rcases h.entries i with he | ⟨b, c, _, _, _, hsv, he⟩
    · exact he
    · cases ht i _ he hsv
  · rcases h.new x hx with hx | ⟨i, b, c, hi, hsv, hc, _⟩
    · exact hx
    · rw [ht i b hi hsv] at hc
      cases hc

end Buffers

end Nanami.Communication
