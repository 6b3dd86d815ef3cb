import Nanami.Communication.BufferTable

/-!
# Session buffers across a handover

`install` maps every buffer of a service for the next provider before it is given the receiver,
and rolls back if anything fails. The results about whole runs of calls stand at the end: every
installed leaf is counted once, and what `withdraw` and a failed `install` leave behind.
-/

namespace Nanami.Communication.Buffers
open Nanami.Lib

def Clear (service : ServiceId) (t : Buffers) (i : Nat) : Prop :=
  ∀ b, t.get? i = some b → b.service = service → b.candidate = none

lemma Clear.putEntry {service t i j b w} (h : Clear service t j)
    (hi : i = j → i < sessions → b.service = service → b.candidate = none) :
    Clear service (t.putEntry i b w) j := by
  intro c hc hs
  by_cases e : i = j
  · have hlt := lt_of_get? hc
    subst e
    rw [get?_putEntry_self hlt] at hc
    cases hc
    exact hi rfl hlt hs
  · rw [get?_putEntry_of_ne e] at hc
    exact h c hc hs

variable {s t : Buffers} {service : ServiceId} {i : Nat}

lemma propose_covered {owner} (h : Covered s) :
    ends (forEntries (Buffer.attached service) (Buffer.propose owner) (List.range sessions))
      (fun t => Covered t ∧ Proposed service s t)
      s := by
  refine wp_forEntries (I := fun _ t => Covered t ∧ Proposed service s t) ?_ ⟨h, Proposed.refl⟩
  intro i rest t ⟨ht, hp⟩
  refine ⟨fun _ => ⟨ht, hp⟩, fun b hb => ⟨fun _ => ?_, fun hf => ?_⟩⟩
  · exact ⟨ht.step hb (Buffer.Step.refl (ht.ok i b hb)),
      hp.same (fun j => get?_putEntry_same hb) rfl⟩
  · have hs : b.service = service := by
      simp only [Buffer.attached, Bool.and_eq_true, beq_iff_eq] at hf
      exact hf.1.1
    exact ends_mono (Buffer.propose_spec (ht.ok i b hb))
      fun u hu => ⟨ht.step hb hu.1, hp.offer hb hs hu.2⟩

lemma retract_covered (ht : Covered t) :
    wp (onEntry i (do
        let (b, _) ← get
        if b.service == service && b.candidate.isSome then Buffer.retract else pure ()))
      (fun _ t' => Covered t' ∧ (∀ j, Clear service t j → Clear service t' j) ∧
        Clear service t' i ∧ ∀ s, Covered s → NoCandidate service s → Proposed service s t →
          Proposed service s t')
      (fun _ t' => Covered t' ∧ ∀ j, Clear service t j → Clear service t' j) t := by
  refine wp_onEntry (fun hn => ⟨ht, fun _ h => h, ?_, fun _ _ _ h => h⟩) (fun b hb => ?_)
  · intro b hb
    rw [hn] at hb
    cases hb
  have hok := ht.ok i b hb
  refine wp_ite (fun hf => ?_) (fun hf => ?_)
  · simp only [Bool.and_eq_true, beq_iff_eq, Option.isSome_iff_exists] at hf
    obtain ⟨hs, c, hc⟩ := hf
    refine wp_mono (Buffer.retract_spec hok hc) ?_ ?_
    · rintro _ ⟨_, w⟩ ⟨hstep, rfl, hsub, hothers, hgone⟩
      have hnone : ∀ j, i = j → i < sessions →
          ({ b with candidate := none } : Buffer).service = service →
          ({ b with candidate := none } : Buffer).candidate = none := fun _ _ _ _ => rfl
      refine ⟨ht.step hb hstep, fun j hj => hj.putEntry (hnone j), ?_, fun s hcs h0 hp => ?_⟩
      · intro d hd _
        rw [get?_putEntry_self (lt_of_get? hb)] at hd
        cases hd
        rfl
      · exact hp.retract hcs ht h0 hb hs hc hsub hothers hgone
    · rintro _ ⟨b', w⟩ hstep
      refine ⟨ht.step hb hstep, fun j hj => hj.putEntry ?_⟩
      rintro rfl
      -- entry `i` was not clear before
      rw [hj b hb hs] at hc
      cases hc
  · have hclear : b.service = service → b.candidate = none := by
      intro hs
      cases hc : b.candidate with
      | none => rfl
      | some c => simp [hs, hc] at hf
    refine ⟨ht.step hb (.refl hok), fun j hj => hj.putEntry fun _ _ => hclear, ?_,
      fun s _ _ hp => hp.same (fun j => get?_putEntry_same hb) rfl⟩
    intro d hd
    rw [get?_putEntry_self (lt_of_get? hb)] at hd
    cases hd
    exact hclear

lemma retractAll_covered {is} (ht : Covered t) :
    sure (retractAll service is)
      (fun clean t' => Covered t' ∧ (∀ j, Clear service t j → Clear service t' j) ∧
        (clean = true → (∀ j ∈ is, Clear service t' j) ∧
          ∀ s, Covered s → NoCandidate service s → Proposed service s t → Proposed service s t'))
      t := by
  induction is generalizing t with
  | nil => exact ⟨ht, fun _ h => h, fun _ => ⟨by simp, fun _ _ _ h => h⟩⟩
  | cons i rest ih =>
    simp only [retractAll, wp_bind, wp_attempt]
    refine wp_mono (retract_covered ht) ?_ ?_
    · rintro _ t1 ⟨ht1, hkeep, hi, hprop⟩
      refine wp_post (ih ht1) ?_
      rintro clean t2 ⟨ht2, hkeep2, hclean⟩
      refine ⟨ht2, fun j hj => hkeep2 j (hkeep j hj), fun hc => ?_⟩
      obtain ⟨hrest, hprop2⟩ := hclean hc
      refine ⟨fun j hj => ?_, fun s hs h0 hp => hprop2 s hs h0 (hprop s hs h0 hp)⟩
      rcases List.mem_cons.mp hj with rfl | hj
      · exact hkeep2 j hi
      · exact hrest j hj
    · rintro _ t1 ⟨ht1, hkeep⟩
      refine wp_post (ih ht1) ?_
      rintro clean t2 ⟨ht2, hkeep2, _⟩
      exact ⟨ht2, fun j hj => hkeep2 j (hkeep j hj), fun hc => by cases hc⟩

def Restored (s t : Buffers) : Prop :=
  (∀ i, t.get? i = s.get? i) ∧ t.world.mapped = s.world.mapped

/-- Rolling back restores the state before `install` unless it ends in a fatal error. -/
lemma rollback_covered {error} (h : Covered s) (ht : Covered t) (hp : Proposed service s t) :
    wp (rollback service error) (fun _ => Covered)
      (fun e t => Covered t ∧ (e ≠ .fatal → NoCandidate service s → Restored s t)) t := by
  simp only [rollback, wp_bind]
  refine wp_mono (retractAll_covered ht) ?_ (fun _ _ hf => hf.elim)
  rintro clean t' ⟨ht', _, hclean⟩
  refine wp_ite (fun hc => ⟨ht', fun _ h0 => ?_⟩) (fun _ => ⟨ht', fun hne => absurd rfl hne⟩)
  obtain ⟨hclear, hprop⟩ := hclean hc
  refine (hprop s h h0 hp).eq fun i b hb => ?_
  exact hclear i (List.mem_range.mpr (lt_of_get? hb)) b hb

/-- `install` keeps every leaf counted; if it fails without a fatal error and no candidate was
left before, everything is as it was. -/
lemma install_covered {owner} (h : Covered s) :
    wp (install service owner) (fun _ => Covered)
      (fun e t => Covered t ∧ (e ≠ .fatal → NoCandidate service s → Restored s t)) s := by
  unfold install
  simp only [wp_bind, wp_attempt]
  refine wp_mono (propose_covered h) ?_ (fun e t ht => rollback_covered h ht.1 ht.2)
  rintro _ t ⟨ht, hp⟩
  refine wp_zoom.mpr ?_
  have htick : Covered { t with world := t.world.tick } := ht.world rfl (Finset.Subset.refl _)
  refine wp_fromResult (fun _ _ => ?_)
    (fun e _ => rollback_covered h htick (hp.same (fun _ => rfl) rfl))
  refine wp_mono (wp_forEntries (I := fun _ t => Covered t) (E := fun _ _ => False) ?_ htick)
    (fun _ _ h => h) (fun _ _ hf => hf.elim)
  intro i rest u hu
  refine ⟨fun _ => hu, fun b hb => ⟨fun _ => ?_, fun _ => ?_⟩⟩
  · exact hu.step hb (.refl (hu.ok i b hb))
  · exact hu.step hb (Buffer.promote_step (hu.ok i b hb))

/-! ## Runs -/

inductive Op where
  | create (id : SessionId) (service : ServiceId) (client provider : Word) (pages : Nat)
  | withdraw (service : ServiceId) (owner : Word)
  | install (service : ServiceId) (owner : Word)
  | close (id : SessionId)

def step (s : Buffers) : Op → Buffers
  | .create id service client provider pages =>
    stateAfter (Buffers.create id service client provider pages) s
  | .withdraw service owner => stateAfter (Buffers.withdraw service owner) s
  | .install service owner => stateAfter (Buffers.install service owner) s
  | .close id => stateAfter (Buffers.close id) s

/-- The buffers after a sequence of calls, from `new()`, with the given answers of the effects. -/
def run (answers : Nat → Answer) (ops : List Op) : Buffers := ops.foldl step (new answers)

lemma step_covered (h : Covered s) (op : Op) : Covered (s.step op) := by
  cases op with
  | create id service client provider pages => exact stateAfter_of_wp (create_covered h)
  | withdraw service owner =>
    exact stateAfter_of_wp (wp_post (withdraw_covered h) (fun _ _ ht => ht.1))
  | install service owner =>
    exact stateAfter_of_wp (wp_mono (install_covered h) (fun _ _ ht => ht) (fun _ _ ht => ht.1))
  | close id => exact stateAfter_of_wp (close_covered h)

lemma run_covered (answers : Nat → Answer) (ops : List Op) : Covered (run answers ops) :=
  List.foldlRecOn ops step (.new answers) fun _ h op _ => step_covered h op

lemma Covered.unique (h : Covered s) {x j b c r q} (hi : s.get? i = some b) (hr : b.Covers r x)
    (hj : s.get? j = some c) (hq : c.Covers q x) : i = j ∧ r = q := by
  have hij : i = j := by
    by_contra e
    exact Finset.disjoint_left.mp (h.disjoint i j b c e hi hj)
      (physical_mem_owned (h.ok i b hi) hr) (physical_mem_owned (h.ok j c hj) hq)
  subst hij
  rw [hi] at hj
  cases hj
  refine ⟨rfl, ?_⟩
  have hok := h.ok i b hi
  obtain ⟨m, hm, k, hk, hx⟩ := hr
  obtain ⟨m', hm', k', hk', hx'⟩ := hq
  have ho : m.owner = m'.owner := by
    have e : (m.leaf b.physical k).owner = (m'.leaf b.physical k').owner := by rw [← hx, ← hx']
    exact e
  -- the client's owner is its own, and beside a candidate the provider counts nothing
  cases r with
  | client =>
    cases hm
    cases q with
    | client => rfl
    | provider => cases hm'; exact absurd ho hok.owners
    | candidate => exact absurd ho (hok.candidate m' hm').1
  | provider =>
    cases hm
    cases q with
    | client => cases hm'; exact absurd ho.symm hok.owners
    | provider => rfl
    | candidate => have := (hok.candidate m' hm').2; omega
  | candidate =>
    cases q with
    | client => cases hm'; exact absurd ho.symm (hok.candidate m hm).1
    | provider => cases hm'; have := (hok.candidate m hm).2; omega
    | candidate => rfl

lemma hasMapping_of_covers {b r x} (hi : s.get? i = some b) (hc : b.Covers r x) :
    s.hasMapping x.owner = true := by
  obtain ⟨m, hm, k, hk, rfl⟩ := hc
  have hpos : m.installed ≠ 0 := by omega
  rw [hasMapping, List.any_eq_true]
  refine ⟨i, List.mem_range.mpr (lt_of_get? hi), ?_⟩
  rw [hi]
  cases r with
  | client => cases hm; simp [Mapping.leaf, hpos]
  | provider => cases hm; simp [Mapping.leaf, hpos]
  | candidate =>
    have hm : b.candidate = some m := hm
    simp [Mapping.leaf, hm, hpos]

/-- What the counts say about the leaves that are really installed. -/
structure Accounts (s : Buffers) : Prop where
  /-- Every leaf is counted by exactly one mapping of one entry. -/
  once : ∀ x ∈ s.world.mapped,
    ∃! p : Nat × Role, ∃ b, s.get? p.1 = some b ∧ b.Covers p.2 x
  unmapped : ∀ owner, s.hasMapping owner = false → ∀ x ∈ s.world.mapped, x.owner ≠ owner
  /-- After `withdraw`, unless a candidate of the same owner was left by an earlier call. -/
  withdrawn : ∀ service owner t, withdraw service owner s = .ok () t →
    ∀ i b, t.get? i = some b → b.attached service = true →
      (∀ c, b.candidate = some c → c.owner ≠ owner) →
      ∀ x ∈ t.world.mapped, x.physical ∈ b.owned → x.owner ≠ owner
  /-- After a failed `install`, unless a candidate was left by an earlier call. -/
  rolledBack : ∀ service owner e t, install service owner s = .error e t → e ≠ .fatal →
    NoCandidate service s → Restored s t

/-- In every state that calls can reach, whatever the effects answer, the counts cover the
installed leaves, and a handover leaves nothing behind but what a fatal error announced. -/
theorem leaves_accounted (answers : Nat → Answer) (ops : List Op) : Accounts (run answers ops) := by
  have h := run_covered answers ops
  refine ⟨fun x hx => ?_, fun owner hno x hx => ?_, ?_, ?_⟩
  · obtain ⟨i, b, r, hi, hr⟩ := h.covered x hx
    refine ⟨(i, r), ⟨b, hi, hr⟩, ?_⟩
    rintro ⟨j, q⟩ ⟨c, hj, hq⟩
    obtain ⟨rfl, rfl⟩ := h.unique hi hr hj hq
    rfl
  · rintro rfl
    obtain ⟨i, b, r, hi, hr⟩ := h.covered x hx
    rw [hasMapping_of_covers hi hr] at hno
    cases hno
  · intro service owner t ht i b hb hatt hcand x hx hphys howner
    obtain ⟨hcov, hgone⟩ := wp_ok (withdraw_covered h) ht
    obtain ⟨hp, h0⟩ := hgone i b hb hatt
    have hok := hcov.ok i b hb
    obtain ⟨r, m, hm, k, hk, rfl⟩ := hcov.entry hb hx hphys
    cases r with
    | client =>
      cases hm
      exact hok.owners (howner.trans hp.symm)
    | provider =>
      cases hm
      omega
    | candidate => exact hcand m hm howner
  · intro service owner e t ht hne h0
    exact (wp_error (install_covered h) ht).2 hne h0

/-- Effects that succeed except at two calls: the mapping at call `i` fails and may be installed,
and the unmapping at call `i + 1 + n` fails and leaves the page. -/
def failing (i n : Nat) : Nat → Answer := fun k =>
  { plain := .ok ()
    word := .ok (UInt64.ofNat (k * 4096))
    map := if k = i then .maybeInstalled .illegalOperation true else .ok
    unmap := if k = i + 1 + n then .err .illegalOperation false else .ok }

def sessionOne : SessionId := ⟨sessionIdentifierBit ||| 1⟩
def sessionTwo : SessionId := ⟨sessionIdentifierBit ||| 2⟩

/-- A candidate that a fatal `install` left behind: a later `withdraw` of the same owner succeeds
although the owner still maps the page, and a later `install` that is merely denied removes it. -/
theorem leftover_candidate_is_missed :
    (∃ answers ops service owner t, withdraw service owner (run answers ops) = .ok () t ∧
      ∃ i b, t.get? i = some b ∧ b.attached service = true ∧
        ∃ x ∈ t.world.mapped, x.physical ∈ b.owned ∧ x.owner = owner) ∧
    (∃ answers ops service owner e t, install service owner (run answers ops) = .error e t ∧
      e ≠ .fatal ∧ ∃ i, t.get? i ≠ (run answers ops).get? i) := by
  constructor
  · let ops : List Op := [.create sessionOne ⟨1⟩ 10 20 1, .withdraw ⟨1⟩ 20, .install ⟨1⟩ 20]
    have key : (match withdraw ⟨1⟩ 20 (run (failing 9 0) ops) with
        | .ok () t => (t.get? 0).any fun b => b.attached ⟨1⟩ &&
          decide (∃ x ∈ t.world.mapped, x.physical ∈ b.owned ∧ x.owner = 20)
        | .error _ _ => false) = true := by decide +kernel
    refine ⟨failing 9 0, ops, ⟨1⟩, 20, ?_⟩
    split at key
    · rename_i t ht
      obtain ⟨b, hb, hall⟩ := (Option.any_eq_true _ _).mp key
      simp only [Bool.and_eq_true, decide_eq_true_eq] at hall
      exact ⟨t, ht, 0, b, hb, hall.1, hall.2⟩
    · cases key
  · let ops : List Op := [.create sessionOne ⟨1⟩ 10 20 1, .create sessionTwo ⟨1⟩ 11 20 1,
      .withdraw ⟨1⟩ 20, .install ⟨1⟩ 20]
    have key : (match install ⟨1⟩ 10 (run (failing 19 1) ops) with
        | .ok () _ => false
        | .error e t => decide (e ≠ .fatal) &&
          decide (t.get? 1 ≠ (run (failing 19 1) ops).get? 1)) = true := by decide +kernel
    refine ⟨failing 19 1, ops, ⟨1⟩, 10, ?_⟩
    split at key
    · cases key
    · rename_i e t ht
      simp only [Bool.and_eq_true, decide_eq_true_eq] at key
      exact ⟨e, t, ht, key.1, 1, key.2⟩

end Nanami.Communication.Buffers
