import Nanami.Communication.BindingMoves

/-!
# Links between providers and services

A provider's record names the service it serves or is about to serve, and the service names both
providers. `Linked` says that the two tables agree, and every move keeps it.
-/

namespace Nanami.Communication
open Nanami.Lib BindingPhase

def BindingPhase.handingOver (phase : BindingPhase) : Prop :=
  phase = .prepared ∨ phase = .quiescing ∨ phase = .quiesced

namespace Bindings

/-- What the record of a service says about its providers. -/
structure ServiceOk (b : Bindings) (s : ServiceId) (S : Service) : Prop where
  self : S.state.service = s
  /-- A service has a provider of its own, unless it was imported. -/
  serves : (∃ P, b.providerAt S.provider = some P) ∨
    (S.manager = 0 ∧ S.provider = ⟨0⟩ ∧ S.pending = none)
  pending : ∀ q, S.pending = some q → q ≠ S.provider ∧ ∃ Q, b.providerAt q = some Q
  idle : S.state.phase = .active → S.pending = none
  busy : S.state.phase.handingOver → (∃ q, S.pending = some q) ∧
    S.state.generation < generationLimit

/-- Providers and services point at each other. -/
structure Linked (b : Bindings) : Prop where
  providersFilled : Slots.Filled b.providers b.providerCount
  servicesFilled : Slots.Filled b.services b.serviceCount
  link : ∀ p P s, b.providerAt p = some P →
    (P.service = some s ↔ ∃ S, b.serviceAt s = some S ∧ (S.provider = p ∨ S.pending = some p))
  services : ∀ s S, b.serviceAt s = some S → ServiceOk b s S
  retired : ∀ p P, b.providerAt p = some P → P.retired = true → P.service = none

variable {b : Bindings}

lemma ServiceOk.mono {b' s S} (h : ServiceOk b s S)
    (known : ∀ p P, b.providerAt p = some P → ∃ P', b'.providerAt p = some P') :
    ServiceOk b' s S where
  self := h.self
  serves := h.serves.imp (fun ⟨P, hP⟩ => known _ P hP) id
  pending q hq := ⟨(h.pending q hq).1, (h.pending q hq).2.elim fun Q hQ => known q Q hQ⟩
  idle := h.idle
  busy := h.busy

lemma Linked.new : Bindings.new.Linked where
  providersFilled := Slots.filled_new
  servicesFilled := Slots.filled_new
  link p P s h := by
    rw [providerAt, Bindings.new, Slots.get_replicate] at h
    cases h
  services s S h := by
    rw [serviceAt, Bindings.new, Slots.get_replicate] at h
    cases h
  retired p P h := by
    rw [providerAt, Bindings.new, Slots.get_replicate] at h
    cases h

lemma Linked.congr {c} (h : Linked b) (hp : c.providers = b.providers)
    (hs : c.services = b.services) (hpc : c.providerCount = b.providerCount)
    (hsc : c.serviceCount = b.serviceCount) : Linked c := by
  obtain ⟨P, S, T, n, m, k⟩ := b
  cases hp; cases hs; cases hpc; cases hsc
  exact ⟨h.1, h.2, h.3, fun s S hs => (h.4 s S hs).mono fun _ P hP => ⟨P, hP⟩, h.5⟩

/-- One service changes, and the providers that point to it with it. -/
lemma Linked.update {b' s T} (h : Linked b) (hpf : Slots.Filled b'.providers b'.providerCount)
    (hsf : Slots.Filled b'.services b'.serviceCount) (hs : b'.serviceAt s = some T)
    (hother : ∀ t, t ≠ s → b'.serviceAt t = b.serviceAt t)
    (known : ∀ p P, b.providerAt p = some P → ∃ P', b'.providerAt p = some P')
    (points : ∀ p P', b'.providerAt p = some P' → ∃ P, b.providerAt p = some P ∧
      (P'.service = some s ↔ T.provider = p ∨ T.pending = some p) ∧
      (∀ t, t ≠ s → (P'.service = some t ↔ P.service = some t)) ∧
      (P'.retired = true → P'.service = none)) (ok : ServiceOk b' s T) : Linked b' where
  providersFilled := hpf
  servicesFilled := hsf
  link p P' t hp := by
    obtain ⟨P, hP, hself, hrest, _⟩ := points p P' hp
    by_cases ht : t = s
    · subst ht
      rw [hself, hs]
      simp
    · rw [hrest t ht, hother t ht]
      exact h.link p P t hP
  services t S ht := by
    by_cases e : t = s
    · subst e
      rw [hs] at ht
      cases ht
      exact ok
    · rw [hother t e] at ht
      exact (h.services t S ht).mono known
  retired p P' hp := by
    obtain ⟨_, _, _, _, hr⟩ := points p P' hp
    exact hr

/-- The phase may change as the successor allows: an active service has none, a handover has one. -/
lemma Linked.setPhase {b s phase} (h : Linked b)
    (hidle : ∀ S, b.serviceAt s = some S → phase = .active → S.pending = none)
    (hbusy : ∀ S, b.serviceAt s = some S → phase.handingOver →
      (∃ q, S.pending = some q) ∧ S.state.generation < generationLimit) :
    Linked (alterService s (Bindings.setPhase phase) b) := by
  cases hS : b.serviceAt s with
  | none =>
    refine ⟨h.providersFilled, h.servicesFilled.alter, ?_, ?_, h.retired⟩
    all_goals
      have hsame : ∀ t, (alterService s (Bindings.setPhase phase) b).serviceAt t = b.serviceAt t := by
        intro t
        rw [serviceAt_alterService]
        split
        · rename_i e
          rw [← e, hS]
          rfl
        · rfl
      simp only [hsame, providerAt_alterService]
    · exact h.link
    · exact fun t S ht => (h.services t S ht).mono fun _ P hP => ⟨P, hP⟩
  | some S =>
    have ho := h.services s S hS
    refine h.update (s := s) (T := Bindings.setPhase phase S) h.providersFilled
      h.servicesFilled.alter ?_ ?_ (fun p P hp => ⟨P, hp⟩) ?_ ?_
    · rw [serviceAt_alterService, if_pos rfl, hS]
      rfl
    · intro t ht
      rw [serviceAt_alterService, if_neg (Ne.symm ht)]
    · intro p P hp
      refine ⟨P, hp, ?_, fun _ _ => Iff.rfl, h.retired p P hp⟩
      rw [h.link p P s hp, hS]
      simp [Bindings.setPhase]
    · exact ⟨ho.self, ho.serves, ho.pending, hidle S hS, hbusy S hS⟩

lemma alterProvider_alterProvider {p f g} :
    alterProvider p g (alterProvider p f b) = alterProvider p (fun P => g (f P)) b := by
  rw [alterProvider, alterProvider, Slots.alter_alter]
  rfl

lemma known_alterProvider {p q P g} (hp : b.providerAt p = some P) :
    ∃ P', (alterProvider q g b).providerAt p = some P' := by
  rw [providerAt_alterProvider, hp]
  split
  · exact ⟨_, rfl⟩
  · exact ⟨_, rfl⟩

section Links

variable {b : Bindings} (h : Linked b)
include h

lemma Linked.providerAt_next : b.providerAt b.nextProvider = none := by
  rcases Nat.lt_or_ge b.providerCount Communication.providers with hlt | hge
  · have hi : b.nextProvider.index = b.providerCount :=
      toNat_ofNat_succ_sub (Nat.lt_trans hlt (by decide))
    rw [providerAt, hi]
    exact h.providersFilled.next
  · have e : b.providerCount = Communication.providers :=
      Nat.le_antisymm h.providersFilled.1 hge
    cases hg : b.providerAt b.nextProvider with
    | none => rfl
    | some P =>
      have := Slots.lt_of_get hg
      rw [nextProvider, e] at this
      exact absurd this (by decide)

lemma Linked.serviceAt_next (hc : b.serviceCount < Communication.services) :
    b.serviceAt b.nextService = none := by
  have hi : b.nextService.index = b.serviceCount :=
    toNat_ofNat_succ_sub (Nat.lt_trans hc (by decide))
  rw [serviceAt, hi]
  exact h.servicesFilled.next

variable {p q : ProviderId} {P : Provider} {s : ServiceId} {S : Service}

lemma Linked.not_points (hp : b.providerAt p = some P) (hs : b.serviceAt s = none) :
    P.service ≠ some s := by
  intro e
  obtain ⟨S, hS, _⟩ := (h.link p P s hp).mp e
  rw [hs] at hS
  cases hS

/-- A new provider has no service yet. -/
lemma Linked.register (hc : b.providerCount < Communication.providers) (hs : P.service = none) :
    Linked (pushProvider P b) := by
  have hnext := h.providerAt_next
  have known : ∀ p P', b.providerAt p = some P' → ∃ P'', (pushProvider P b).providerAt p = some P'' := by
    intro p P' hp
    rw [providerAt_pushProvider hc]
    split
    · exact ⟨P, rfl⟩
    · exact ⟨P', hp⟩
  refine ⟨h.providersFilled.put hc, h.servicesFilled, ?_, ?_, ?_⟩
  · intro p P' s hp
    rw [providerAt_pushProvider hc] at hp
    split at hp
    · rename_i e
      cases hp
      simp only [hs, serviceAt_pushProvider, reduceCtorEq, false_iff]
      rintro ⟨S, hS, hrefs⟩
      have ho := h.services s S hS
      -- every provider a service refers to exists already
      rcases hrefs with hprov | hpend
      · rcases ho.serves with ⟨P', hP'⟩ | ⟨_, hz, _⟩
        · rw [hprov, ← e, hnext] at hP'
          cases hP'
        · rw [hprov, ← e] at hz
          have hi : b.nextProvider.index = b.providerCount :=
            toNat_ofNat_succ_sub (Nat.lt_trans hc (by decide))
          rw [hz] at hi
          have : (⟨0⟩ : ProviderId).index < Communication.providers := by rw [hi]; exact hc
          exact absurd this (by decide)
      · obtain ⟨_, Q, hQ⟩ := ho.pending p hpend
        rw [← e, hnext] at hQ
        cases hQ
    · exact h.link p P' s hp
  · intro s S hS
    exact (h.services s S hS).mono known
  · intro p P' hp
    rw [providerAt_pushProvider hc] at hp
    split at hp
    · cases hp
      exact fun _ => hs
    · exact h.retired p P' hp

/-- A provider publishes a service of its own. -/
lemma Linked.publish (hc : b.serviceCount < Communication.services) (hp : b.providerAt p = some P)
    (hs : P.service = none) (hr : P.retired = false)
    (hS : S.provider = p ∧ S.pending = none ∧ S.state = ⟨b.nextService, 1, .active⟩) :
    Linked (pushService S (alterProvider p (fun P => { P with service := some b.nextService }) b)) := by
  obtain ⟨hSp, hSn, hSt⟩ := hS
  have hnext := h.serviceAt_next hc
  refine h.update (s := b.nextService) (T := S) h.providersFilled.alter (h.servicesFilled.put hc)
    ?_ ?_ ?_ ?_ ?_
  · exact (serviceAt_pushService hc).trans (if_pos rfl)
  · exact fun t ht => (serviceAt_pushService hc).trans (if_neg (Ne.symm ht))
  · exact fun q Q => known_alterProvider
  · intro q Q' hq
    rw [providerAt_pushService, providerAt_alterProvider] at hq
    split at hq
    · rename_i e
      subst e
      rw [hp] at hq
      cases hq
      refine ⟨P, hp, ?_, ?_, ?_⟩
      · simp [hSp]
      · intro t ht
        simp [hs, Ne.symm ht]
      · intro hret
        rw [show P.retired = true from hret] at hr
        cases hr
    · rename_i hne
      refine ⟨Q', hq, ?_, fun _ _ => Iff.rfl, h.retired q Q' hq⟩
      have := h.not_points hq hnext
      simp [this, hSp, hSn, hne]
  · refine ⟨by rw [hSt], .inl ?_, by simp [hSn], fun _ => hSn, ?_⟩
    · rw [providerAt_pushService, providerAt_alterProvider, hSp, if_pos rfl, hp]
      exact ⟨_, rfl⟩
    · simp [hSt, handingOver]

lemma Linked.importService (hc : b.serviceCount < Communication.services)
    (hS : S.manager = 0 ∧ S.provider = ⟨0⟩ ∧ S.pending = none ∧
      S.state = ⟨b.nextService, 1, .active⟩) : Linked (pushService S b) := by
  obtain ⟨hSm, hSp, hSn, hSt⟩ := hS
  refine h.update (s := b.nextService) (T := S) h.providersFilled (h.servicesFilled.put hc)
    ?_ ?_ (fun p P hp => ⟨P, hp⟩) ?_ ?_
  · rw [serviceAt_pushService hc, if_pos rfl]
  · intro t ht
    rw [serviceAt_pushService hc, if_neg (Ne.symm ht)]
  · intro p P hp
    refine ⟨P, hp, ?_, fun _ _ => Iff.rfl, h.retired p P hp⟩
    have hno := h.not_points hp (h.serviceAt_next hc)
    have hz : S.provider ≠ p := by
      rw [hSp]
      rintro rfl
      cases hp
    simp [hno, hz, hSn]
  · exact ⟨by rw [hSt], .inr ⟨hSm, hSp, hSn⟩, by simp [hSn], fun _ => hSn,
      by simp [hSt, handingOver]⟩

/-- One provider changes its service, and the service changes to match. -/
lemma Linked.relink {f g} (hs : b.serviceAt s = some S) (changed : ∀ Q, b.providerAt q = some Q →
      ((g Q).service = some s ↔ (f S).provider = q ∨ (f S).pending = some q) ∧
      (∀ t, t ≠ s → ((g Q).service = some t ↔ Q.service = some t)) ∧
      ((g Q).retired = true → (g Q).service = none)) (same : ∀ p, q ≠ p →
      (S.provider = p ∨ S.pending = some p ↔ (f S).provider = p ∨ (f S).pending = some p))
    (ok : ServiceOk (alterProvider q g b) s (f S)) :
    Linked (alterService s f (alterProvider q g b)) := by
  refine h.update (s := s) (T := f S) h.providersFilled.alter h.servicesFilled.alter ?_ ?_
    (fun p P => known_alterProvider) ?_ (ok.mono fun _ P hP => ⟨P, hP⟩)
  · rw [serviceAt_alterService, if_pos rfl, serviceAt_alterProvider, hs]
    rfl
  · intro t ht
    rw [serviceAt_alterService, if_neg (Ne.symm ht)]
    rfl
  · intro p P' hp
    rw [providerAt_alterService, providerAt_alterProvider] at hp
    split at hp
    · rename_i e
      subst e
      obtain ⟨Q, hQ, rfl⟩ := Option.map_eq_some_iff.mp hp
      exact ⟨Q, hQ, changed Q hQ⟩
    · rename_i hne
      refine ⟨P', hp, ?_, fun _ _ => Iff.rfl, h.retired p P' hp⟩
      rw [h.link p P' s hp, hs, ← same p hne]
      simp

lemma Linked.prepare {Q} (hs : b.serviceAt s = some S) (hm : S.manager ≠ 0)
    (hph : S.state.phase = .active) (hne : q ≠ S.provider) (hq : b.providerAt q = some Q)
    (hqs : Q.service = none) (hqr : Q.retired = false) (hg : S.state.generation < generationLimit) :
    Linked (alterService s (fun S => Bindings.setPhase .prepared { S with pending := some q })
      (alterProvider q (fun P => { P with service := some s }) b)) := by
  have ho := h.services s S hs
  refine h.relink hs ?_ ?_ ?_
  · intro Q' hQ'
    rw [hq] at hQ'
    cases hQ'
    refine ⟨by simp [Bindings.setPhase], fun t ht => by simp [hqs, Ne.symm ht], fun hret => ?_⟩
    rw [show Q.retired = true from hret] at hqr
    cases hqr
  · intro p hqp
    simp [Bindings.setPhase, ho.idle hph, hqp]
  · refine ⟨ho.self, .inl ?_, ?_, (fun e => by cases e), fun _ => ⟨⟨q, rfl⟩, hg⟩⟩
    · obtain ⟨P, hP⟩ := ho.serves.resolve_right fun hz => hm hz.1
      exact known_alterProvider hP
    · intro q' hq'
      cases hq'
      exact ⟨hne, known_alterProvider hq⟩

/-- The successor becomes the provider, and the old provider serves no more. -/
lemma Linked.commit (hs : b.serviceAt s = some S) (hq : S.pending = some q) :
    Linked (alterService s (fun S => { S with
        provider := q
        pending := none
        state := { S.state with generation := S.state.generation + 1, phase := .active } })
      (alterProvider S.provider (fun P => { P with lastService := some s })
        (alterProvider S.provider (fun P => { P with service := none }) b))) := by
  have ho := h.services s S hs
  obtain ⟨hqp, Q, hQ⟩ := ho.pending q hq
  rw [alterProvider_alterProvider]
  refine h.relink hs ?_ ?_ ?_
  · -- the old provider no longer serves
    intro P hP
    have hPs : P.service = some s := (h.link _ P s hP).mpr ⟨S, hs, .inl rfl⟩
    exact ⟨by simp [hqp], fun t ht => by simp [hPs, Ne.symm ht], fun _ => rfl⟩
  · intro p hne
    simp [hq, hne]
  · refine ⟨ho.self, .inl (known_alterProvider hQ), ?_, fun _ => rfl, ?_⟩
    · intro q' hq'
      cases hq'
    · simp [handingOver]

/-- The successor is let go. -/
lemma Linked.abort (hs : b.serviceAt s = some S) (hq : S.pending = some q) :
    Linked (alterService s (fun S => Bindings.setPhase .active { S with pending := none })
      (alterProvider q (fun P => { P with service := none }) b)) := by
  have ho := h.services s S hs
  obtain ⟨hqp, _, _⟩ := ho.pending q hq
  refine h.relink hs ?_ ?_ ?_
  · intro Q hQ
    have hQs : Q.service = some s := (h.link q Q s hQ).mpr ⟨S, hs, .inr hq⟩
    exact ⟨by simp [Bindings.setPhase, Ne.symm hqp], fun t ht => by simp [hQs, Ne.symm ht],
      fun _ => rfl⟩
  · intro p hne
    simp [Bindings.setPhase, hq, hne]
  · refine ⟨ho.self, ?_, ?_, fun _ => rfl, ?_⟩
    · rcases ho.serves with ⟨P, hP⟩ | hz
      · exact .inl (known_alterProvider hP)
      · rw [hq] at hz
        cases hz.2.2
    · intro q' hq'
      cases hq'
    · simp [Bindings.setPhase, handingOver]

lemma Linked.retire (hp : b.providerAt p = some P) (hs : P.service = none) :
    Linked (alterProvider p (fun P => { P with retired := true }) b) := by
  have hat : ∀ q Q', (alterProvider p (fun P => { P with retired := true }) b).providerAt q = some Q' →
      ∃ Q, b.providerAt q = some Q ∧ Q'.service = Q.service ∧ (p ≠ q → Q' = Q) := by
    intro q Q' hq
    rw [providerAt_alterProvider] at hq
    split at hq
    · obtain ⟨Q, hQ, rfl⟩ := Option.map_eq_some_iff.mp hq
      exact ⟨Q, hQ, rfl, fun hne => absurd ‹_› hne⟩
    · exact ⟨Q', hq, rfl, fun _ => rfl⟩
  refine ⟨h.providersFilled.alter, h.servicesFilled, ?_, ?_, ?_⟩
  · intro q Q' s hq
    obtain ⟨Q, hQ, e, _⟩ := hat q Q' hq
    rw [e]
    exact h.link q Q s hQ
  · intro s S hS
    exact (h.services s S hS).mono fun _ _ => known_alterProvider
  · intro q Q' hq hret
    obtain ⟨Q, hQ, e, hother⟩ := hat q Q' hq
    rw [e]
    by_cases hpq : p = q
    · subst hpq
      rw [hp] at hQ
      cases hQ
      exact hs
    · rw [hother hpq] at hret
      exact h.retired q Q hQ hret

/-- Every move of the protocol keeps the links. -/
lemma Linked.move {ev b'} (m : Move b ev b') : Linked b' := by
  cases m with
  | stay => exact h
  | session x => exact h.congr rfl rfl rfl rfl
  | sessions t => exact h.congr rfl rfl rfl rfl
  | fault s =>
    exact h.setPhase (fun _ _ e => by cases e) (fun _ _ e => by simp [handingOver] at e)
  | faultSession s x =>
    exact (h.congr (c := pushSession x b) rfl rfl rfl rfl).setPhase (fun _ _ e => by cases e)
      (fun _ _ e => by simp [handingOver] at e)
  | register P hc hs hr => exact h.register hc hs
  | publish p P S hc hp hs hr hS => exact h.publish hc hp hs hr hS
  | importService S hc hS => exact h.importService hc hS
  | prepare s q S Q hs hm hph hne hq hqs hqr hg => exact h.prepare hs hm hph hne hq hqs hqr hg
  | quiesce s S hs hph =>
    refine h.setPhase (fun _ _ e => by cases e) (fun S' hS' _ => ?_)
    rw [hs] at hS'
    cases hS'
    exact (h.services s S hs).busy (.inl hph)
  | acknowledge s p P S hp hps hs hsp hph =>
    rw [(h.services s S hs).self]
    refine h.setPhase (fun _ _ e => by cases e) (fun S' hS' _ => ?_)
    rw [hs] at hS'
    cases hS'
    exact (h.services s S hs).busy (.inr (.inl hph))
  | commit s q S hs hph hq => exact h.commit hs hq
  | abort s q S hs hph hq => exact h.abort hs hq
  | retire p P hp hs => exact h.retire hp hs

end Links

end Bindings

end Nanami.Communication
