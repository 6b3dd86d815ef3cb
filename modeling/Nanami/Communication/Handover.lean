import Nanami.Communication.BindingLinks

/-!
# Handover of a service between providers

The protocol over whole runs. The history of a run records the effects that succeeded, latest
first; who holds the receiver of a service is read off it (`holdsReceiver`), and so is what has
happened since a handover was prepared.
-/

namespace Nanami.Communication
open Nanami.Lib List Bindings Event

def Event.about : Event → ServiceId
  | .installed s _ => s
  | .prepared s => s
  | .acknowledged s _ _ => s
  | .committed s _ => s

/-- Whether `p` was given the receiver of `s` and has not had it withdrawn since. -/
def holdsReceiver (s : ServiceId) (p : ProviderId) : List Event → Bool
  | [] => false
  | .installed s' p' :: history => (s' == s && p' == p) || holdsReceiver s p history
  | .acknowledged s' p' _ :: history => !(s' == s && p' == p) && holdsReceiver s p history
  | .prepared _ :: history => holdsReceiver s p history
  | .committed _ _ :: history => holdsReceiver s p history

def Begun (s : ServiceId) (history : List Event) : Prop :=
  ∃ before after, history = after ++ .prepared s :: before ∧ .prepared s ∉ after

/-- `p` acknowledged generation `g` after the latest `prepare` of `s`. -/
def AcknowledgedSince (s : ServiceId) (p : ProviderId) (g : Word) (history : List Event) : Prop :=
  ∃ before between after,
    history = after ++ .acknowledged s p g :: between ++ .prepared s :: before ∧
    .prepared s ∉ after ∧ .prepared s ∉ between

variable {s : ServiceId} {history : List Event}

lemma holdsReceiver_cons_of_ne {p e} (h : e.about ≠ s) :
    holdsReceiver s p (e :: history) = holdsReceiver s p history := by
  cases e <;> simp_all [holdsReceiver, about]

lemma Begun.cons {s e history} (h : Begun s history) (he : e ≠ .prepared s) :
    Begun s (e :: history) := by
  obtain ⟨before, after, rfl, hn⟩ := h
  exact ⟨before, e :: after, rfl, by simp [hn, Ne.symm he]⟩

lemma AcknowledgedSince.cons {s p g e history} (h : AcknowledgedSince s p g history)
    (he : e ≠ .prepared s) : AcknowledgedSince s p g (e :: history) := by
  obtain ⟨before, between, after, rfl, hn, hb⟩ := h
  exact ⟨before, between, e :: after, rfl, by simp [hn, Ne.symm he], hb⟩

lemma Begun.acknowledged (h : Begun s history) (p : ProviderId) (g : Word) :
    AcknowledgedSince s p g (.acknowledged s p g :: history) := by
  obtain ⟨before, after, rfl, hn⟩ := h
  exact ⟨before, after, [], rfl, by simp, hn⟩

def HeldAt (history : List Event) (s : ServiceId) : Option Service → Prop
  | none => ∀ p, holdsReceiver s p history = false
  | some S =>
    (S.state.phase ≠ .faulted → ∀ p, holdsReceiver s p history = true →
      S.state.phase ≠ .quiesced ∧ p = S.provider) ∧
    (S.state.phase = .prepared ∨ S.state.phase = .quiescing → Begun s history) ∧
    (S.state.phase = .quiesced → AcknowledgedSince s S.provider S.state.generation history)

namespace Bindings

def Held (b : Bindings) (history : List Event) : Prop := ∀ s, HeldAt history s (b.serviceAt s)

variable {ev : List Event} {b b' : Bindings}

lemma HeldAt.append_of_ne {S} (h : HeldAt history s S) (hev : ∀ e ∈ ev, e.about ≠ s) :
    HeldAt (ev ++ history) s S := by
  induction ev with
  | nil => exact h
  | cons e ev ih =>
    have he : e.about ≠ s := hev e mem_cons_self
    have hp : e ≠ .prepared s := by
      rintro rfl
      exact he rfl
    have hrec := ih fun x hx => hev x (mem_cons_of_mem _ hx)
    cases S with
    | none =>
      intro p
      rw [cons_append, holdsReceiver_cons_of_ne he]
      exact hrec p
    | some S =>
      refine ⟨fun hf p hh => ?_, fun hph => (hrec.2.1 hph).cons hp, fun hph => (hrec.2.2 hph).cons hp⟩
      rw [cons_append, holdsReceiver_cons_of_ne he] at hh
      exact hrec.1 hf p hh

lemma Held.update {l} (h : Held b history) (hother : ∀ t, t ≠ s → b'.serviceAt t = b.serviceAt t)
    (hev : ∀ e ∈ l, e.about = s) (hs : HeldAt (l ++ history) s (b'.serviceAt s)) :
    Held b' (l ++ history) := by
  intro t
  by_cases ht : t = s
  · subst ht
    exact hs
  · rw [hother t ht]
    refine HeldAt.append_of_ne (h t) fun e he => ?_
    rw [hev e he]
    exact Ne.symm ht

lemma Held.alter {l S f} (h : Held b history) (hs : b.serviceAt s = some S)
    (hat : ∀ t, b'.serviceAt t = (alterService s f b).serviceAt t) (hev : ∀ e ∈ l, e.about = s)
    (hnew : HeldAt history s (some S) → HeldAt (l ++ history) s (some (f S))) :
    Held b' (l ++ history) := by
  refine h.update (s := s) (fun t ht => ?_) hev ?_
  · rw [hat, serviceAt_alterService, if_neg (Ne.symm ht)]
  · rw [hat, serviceAt_alterService, if_pos rfl, hs]
    exact hnew (hs ▸ h s)

lemma Held.new : Held new [] := by
  intro s
  rw [serviceAt, Bindings.new, Slots.get_replicate]
  exact fun p => rfl

lemma Held.fault {b history} (h : Held b history) (s : ServiceId) : Held (fault s b) history := by
  refine .update (l := []) (s := s) h (fun t ht => ?_) (by simp) ?_
  · rw [Bindings.fault, serviceAt_alterService, if_neg (Ne.symm ht)]
  · have hs := h s
    rw [Bindings.fault, serviceAt_alterService, if_pos rfl]
    cases hS : b.serviceAt s with
    | none => rw [hS] at hs; exact hs
    | some S => exact ⟨fun hf => absurd rfl hf, by simp [setPhase], by simp [setPhase]⟩

lemma Held.move (hl : Linked b) (h : Held b history) (m : Move b ev b') :
    Held b' (ev ++ history) := by
  cases m with
  | stay | session x | sessions t => exact h
  | fault s => exact h.fault s
  | faultSession s x => exact .fault (b := pushSession x b) h s
  | register P hc hs hr => exact h
  | retire p P hp hs => exact h
  | publish p P S hc hp hs hr hS =>
    have hnone := h b.nextService
    rw [hl.serviceAt_next hc] at hnone
    refine h.update (s := b.nextService) (fun t ht => ?_) (by simp [about]) ?_
    · exact (serviceAt_pushService hc).trans (if_neg (Ne.symm ht))
    · refine Eq.mpr (congrArg (HeldAt _ _) ((serviceAt_pushService hc).trans (if_pos rfl))) ?_
      refine ⟨fun _ p' hh => ?_, by simp [hS.2.2], by simp [hS.2.2]⟩
      rw [singleton_append, holdsReceiver, hnone p', Bool.or_false] at hh
      simp only [beq_self_eq_true, Bool.true_and, beq_iff_eq] at hh
      exact ⟨by simp [hS.2.2], by rw [hS.1, hh]⟩
  | importService S hc hS =>
    have hnone := h b.nextService
    rw [hl.serviceAt_next hc] at hnone
    refine .update (l := []) (s := b.nextService) h (fun t ht => ?_) (by simp) ?_
    · rw [serviceAt_pushService hc, if_neg (Ne.symm ht)]
    · rw [serviceAt_pushService hc, if_pos rfl]
      refine ⟨fun _ p hh => ?_, by simp [hS.2.2.2], by simp [hS.2.2.2]⟩
      rw [nil_append, hnone p] at hh
      cases hh
  | prepare s q S Q hs hm hph hne hq hqs hqr hg =>
    refine h.alter hs (fun _ => rfl) (by simp [about]) fun hold => ?_
    refine ⟨fun _ p hh => ?_, fun _ => ⟨history, [], rfl, by simp⟩, by simp [setPhase]⟩
    exact ⟨by simp [setPhase], (hold.1 (by simp [hph]) p hh).2⟩
  | quiesce s S hs hph =>
    refine .alter (l := []) h hs (fun _ => rfl) (by simp) fun hold => ?_
    refine ⟨fun _ p hh => ?_, fun _ => hold.2.1 (.inl hph), by simp [setPhase]⟩
    exact ⟨by simp [setPhase], (hold.1 (by simp [hph]) p hh).2⟩
  | acknowledge s p P S hp hps hs hsp hph =>
    rw [(hl.services s S hs).self]
    refine h.alter hs (fun _ => rfl) (by simp [about]) fun hold => ?_
    refine ⟨fun _ p' hh => ?_, by simp [setPhase], fun _ => ?_⟩
    · -- only the provider that acknowledged could have held the receiver
      rw [singleton_append, holdsReceiver, Bool.and_eq_true] at hh
      have hp' := (hold.1 (by simp [hph]) p' hh.2).2
      rw [hp', hsp] at hh
      simp at hh
    · have hb := (hold.2.1 (.inr hph)).acknowledged p S.state.generation
      rw [← hsp] at hb ⊢
      exact hb
  | commit s q S hs hph hq =>
    refine h.alter hs (fun _ => rfl) (by simp [about]) fun hold => ?_
    refine ⟨fun _ p hh => ⟨by simp, ?_⟩, by simp, by simp⟩
    -- nobody held the receiver before the commit
    simp only [cons_append, nil_append, holdsReceiver, Bool.or_eq_true] at hh
    rcases hh with hh | hh
    · simpa using Eq.symm (by simpa using hh : q = p)
    · exact absurd hph (hold.1 (by simp [hph]) p hh).1
  | abort s q S hs hph hq =>
    refine h.alter hs (fun _ => rfl) ?_ fun hold => ?_
    · intro e he
      split at he
      · rw [mem_singleton.mp he]
        rfl
      · cases he
    · refine ⟨fun _ p hh => ⟨by simp [setPhase], ?_⟩, by simp [setPhase], by simp [setPhase]⟩
      show p = S.provider
      split at hh
      · rename_i hquiet
        rw [singleton_append, holdsReceiver, Bool.or_eq_true] at hh
        rcases hh with hh | hh
        · simpa using Eq.symm (by simpa using hh : S.provider = p)
        · exact absurd hquiet (hold.1 (by simp [hquiet]) p hh).1
      · rename_i hquiet
        refine (hold.1 ?_ p hh).2
        rcases hph with e | e <;> simp [e]

end Bindings

/-! ## Generations -/

def Event.isCommit (s : ServiceId) : Event → Bool
  | .committed s' _ => s' == s
  | _ => false

namespace Bindings

variable {b : Bindings} {t : ServiceId} {S : Service}

lemma generation_alter {f} (hf : ∀ S, (f S).state.generation = S.state.generation)
    (ht : b.serviceAt t = some S) :
    ∃ S', (alterService s f b).serviceAt t = some S' ∧
      S'.state.generation.toNat = S.state.generation.toNat := by
  rw [serviceAt_alterService, ht]
  split
  · exact ⟨f S, rfl, by rw [hf]⟩
  · exact ⟨S, rfl, rfl⟩

lemma generation_push {T} (hc : b.serviceCount < Communication.services)
    (hn : b.serviceAt b.nextService = none) (ht : b.serviceAt t = some S) :
    ∃ S', (pushService T b).serviceAt t = some S' ∧
      S'.state.generation.toNat = S.state.generation.toNat := by
  rw [serviceAt_pushService hc, if_neg (by rintro rfl; rw [hn] at ht; cases ht)]
  exact ⟨S, ht, rfl⟩

/-- A generation grows by one with each commit, and by nothing else; it cannot wrap, since
`prepare` checked it. -/
lemma Move.generation {b b' ev} (hl : Linked b) (m : Move b ev b') {t T}
    (ht : b.serviceAt t = some T) :
    ∃ T', b'.serviceAt t = some T' ∧
      T'.state.generation.toNat = T.state.generation.toNat + ev.countP (isCommit t) := by
  cases m with
  | stay | session x | sessions v | register P hc hs hr | retire p P hp hs => exact ⟨T, ht, rfl⟩
  | fault s => exact generation_alter (fun _ => rfl) ht
  | faultSession s x => exact generation_alter (b := pushSession x b) (fun _ => rfl) ht
  | publish p P S hc hp hs hr hS =>
    exact generation_push (b := alterProvider p _ b) hc (hl.serviceAt_next hc) ht
  | importService S hc hS => exact generation_push hc (hl.serviceAt_next hc) ht
  | prepare s q S Q hs hm hph hne hq hqs hqr hg =>
    exact generation_alter (b := alterProvider q _ b) (fun _ => rfl) ht
  | quiesce s S hs hph => exact generation_alter (fun _ => rfl) ht
  | acknowledge s p P S hp hps hs hsp hph => exact generation_alter (fun _ => rfl) ht
  | abort s q S hs hph hq =>
    have hev : (if S.state.phase = .quiesced then [installed s S.provider] else []).countP
        (isCommit t) = 0 := by
      split <;> rfl
    rw [hev]
    exact generation_alter (b := alterProvider q _ b) (fun _ => rfl) ht
  | commit s q S hs hph hq =>
    rw [serviceAt_alterService, serviceAt_alterProvider, serviceAt_alterProvider, ht]
    by_cases e : s = t
    · subst e
      rw [hs] at ht
      cases ht
      have hlt := ((hl.services s T hs).busy (.inr (.inr hph))).2
      rw [if_pos rfl]
      refine ⟨_, rfl, ?_⟩
      have hbound : T.state.generation.toNat < generationLimit.toNat := UInt64.lt_iff_toNat_lt.mp hlt
      have hlim : generationLimit.toNat = 2 ^ 61 - 1 := by decide
      rw [UInt64.toNat_add, UInt64.toNat_one, Nat.mod_eq_of_lt (by omega)]
      simp [isCommit]
    · rw [if_neg e]
      exact ⟨T, rfl, by simp [isCommit, e]⟩

lemma Move.committed {b b' ev} (m : Move b ev b') {s g} (h : committed s g ∈ ev) :
    ∃ S, b.serviceAt s = some S ∧ S.state.phase = .quiesced ∧ S.state.generation = g := by
  cases m with
  | commit s' q S hs hph hq =>
    simp only [mem_cons, reduceCtorEq, committed.injEq, not_mem_nil, or_false,
      false_or] at h
    obtain ⟨rfl, rfl⟩ := h
    exact ⟨S, hs, hph, rfl⟩
  | abort s' q S hs hph hq =>
    split at h <;> simp at h
  | _ => simp at h

end Bindings

/-! ## Runs -/

/-- A call on the bindings, with the outcome of its effect. -/
inductive BindingOp where
  | registerProviderProfile (owner interface receiverSlot notificationSlot profile : Word)
      (prepare : ProviderId → Effect)
  | publish (manager : Word) (provider : ProviderId) (install : ServiceId → Provider → Effect)
  | importService (sessionLimit : Nat)
  | prepare (caller : Word) (id : ServiceId) (generation : Word) (next : ProviderId)
  | quiesce (caller : Word) (id : ServiceId) (generation : Word) (signal : ProviderId → Effect)
  | acknowledge (caller : Word) (id : ProviderId) (generation : Word)
      (withdraw : ServiceId → Provider → Effect)
  | commit (caller : Word) (id : ServiceId) (generation : Word)
      (install : ServiceId → Provider → Effect)
  | abort (caller : Word) (id : ServiceId) (generation : Word)
      (restore : ServiceId → Provider → Effect)
  | connect (client : Word) (id : ServiceId) (slot : Word) (install : SessionId → Effect)
  | connectDomain (domain : Word) (id : ServiceId) (slot : Word) (install : SessionId → Effect)
  | close (caller : Word) (id : SessionId) (withdraw : Session → Effect)
  | retireProvider (caller : Word) (id : ProviderId) (release : ProviderId → Effect)
  | fault (id : ServiceId)

namespace Bindings

def observe {α : Type} (m : M α) (events : α → List Event) (b : Bindings) : List Event × Bindings :=
  match m b with
  | .ok a b' => (events a, b')
  | .error _ b' => ([], b')

lemma observe_of_wp {α} {m : M α} {events : α → List Event} {b : Bindings}
    (h : wp m (fun a => Move b (events a)) (fun _ => Move b []) b) :
    Move b (observe m events b).1 (observe m events b).2 := by
  unfold observe
  cases hm : m b with
  | ok a b' =>
    have := wp_ok h hm
    exact this
  | error e b' =>
    have := wp_error h hm
    exact this

end Bindings

open Bindings in
def BindingOp.step (b : Bindings) : BindingOp → List Event × Bindings
  | .registerProviderProfile o i r n f prep =>
    observe (Bindings.registerProviderProfile o i r n f prep) (fun _ => []) b
  | .publish m p install => observe (Bindings.publish m p install) (fun s => [.installed s p]) b
  | .importService limit => observe (Bindings.importService limit) (fun _ => []) b
  | .prepare c s g q => observe (Bindings.prepare c s g q) (fun _ => [.prepared s]) b
  | .quiesce c s g signal => observe (Bindings.quiesce c s g signal) (fun _ => []) b
  | .acknowledge c p g withdraw =>
    observe (Bindings.acknowledge c p g withdraw) (fun s => [.acknowledged s p g]) b
  | .commit c s g install =>
    observe (Bindings.commit c s g install) (fun q => [.installed s q, .committed s g]) b
  | .abort c s g restore => observe (Bindings.abort c s g restore) (fun _ => b.restored s) b
  | .connect c s slot install => observe (Bindings.connect c s slot install) (fun _ => []) b
  | .connectDomain d s slot install =>
    observe (Bindings.connectDomain d s slot install) (fun _ => []) b
  | .close c x withdraw => observe (Bindings.close c x withdraw) (fun _ => []) b
  | .retireProvider c p release => observe (Bindings.retireProvider c p release) (fun _ => []) b
  | .fault s => ([], Bindings.fault s b)

namespace Bindings

def run (ops : List BindingOp) : Bindings × List Event :=
  ops.foldl (fun σ op => ((op.step σ.1).2, (op.step σ.1).1 ++ σ.2)) (new, [])

lemma step_move {b : Bindings} (h : Linked b) (op : BindingOp) :
    Move b (op.step b).1 (op.step b).2 := by
  have hp : b.providerCount ≤ Communication.providers := h.providersFilled.1
  have hs : b.serviceCount ≤ Communication.services := h.servicesFilled.1
  cases op with
  | registerProviderProfile o i r n f prep => exact observe_of_wp (registerProviderProfile_move hp)
  | publish m p install => exact observe_of_wp (publish_move hs)
  | importService limit => exact observe_of_wp (importService_move hs)
  | prepare c s g q => exact observe_of_wp prepare_move
  | quiesce c s g signal => exact observe_of_wp quiesce_move
  | acknowledge c p g withdraw => exact observe_of_wp acknowledge_move
  | commit c s g install => exact observe_of_wp commit_move
  | abort c s g restore =>
    refine observe_of_wp (abort_move fun S hS hph => ((h.services s S hS).busy ?_).1)
    rcases hph with e | e
    · exact .inl e
    · exact .inr (.inr e)
  | connect c s slot install =>
    exact observe_of_wp (wp_guard .stay fun _ => connectOwned_move)
  | connectDomain d s slot install =>
    exact observe_of_wp (wp_guard .stay fun _ => connectOwned_move)
  | close c x withdraw => exact observe_of_wp close_move
  | retireProvider c p release => exact observe_of_wp retireProvider_move
  | fault s => exact .fault s

lemma run_inv (ops : List BindingOp) : Linked (run ops).1 ∧ Held (run ops).1 (run ops).2 := by
  induction ops using List.reverseRecOn with
  | nil => exact ⟨.new, .new⟩
  | append_singleton ops op ih =>
    obtain ⟨hl, hh⟩ := ih
    have m := step_move hl op
    rw [run, foldl_append, ← run]
    exact ⟨hl.move m, hh.move hl m⟩

/-- The tables of a reachable state, and the receivers its history has handed out. -/
structure Safe (b : Bindings) (history : List Event) : Prop where
  /-- A provider points at a service exactly if the service points back. -/
  links : ∀ p P s, b.providerAt p = some P →
    (P.service = some s ↔ ∃ S, b.serviceAt s = some S ∧ (S.provider = p ∨ S.pending = some p))
  handingOver : ∀ s S, b.serviceAt s = some S → S.state.phase.handingOver → S.pending.isSome = true
  active : ∀ s S, b.serviceAt s = some S → S.state.phase = .active → S.pending = none
  retired : ∀ p P, b.providerAt p = some P → P.retired = true → P.service = none
  /-- Only the service's provider may hold its receiver, and nobody while it is quiesced. -/
  receiver : ∀ s S, b.serviceAt s = some S → S.state.phase ≠ .faulted →
    ∀ p, holdsReceiver s p history = true → p = S.provider ∧ S.state.phase ≠ .quiesced

/-- What the next call does to the generations. -/
structure Advances (b : Bindings) (history : List Event) (op : BindingOp) : Prop where
  generation : ∀ s S, b.serviceAt s = some S → ∃ S', (op.step b).2.serviceAt s = some S' ∧
    S'.state.generation.toNat =
      S.state.generation.toNat + (op.step b).1.countP (isCommit s)
  committed : ∀ s g, committed s g ∈ (op.step b).1 → ∃ S, b.serviceAt s = some S ∧
    S.state.generation = g ∧ AcknowledgedSince s S.provider g history

/-- Every interleaving of calls, with every outcome of their effects, keeps providers and
services linked, leaves at most the bound provider with the receiver, and commits a generation
only after that provider has acknowledged it. -/
theorem handover_safe (ops : List BindingOp) :
    Safe (run ops).1 (run ops).2 ∧ ∀ op, Advances (run ops).1 (run ops).2 op := by
  obtain ⟨hl, hh⟩ := run_inv ops
  refine ⟨⟨hl.link, fun s S hs hph => ?_, fun s S hs => (hl.services s S hs).idle, hl.retired,
    fun s S hs hf p hp => ?_⟩, fun op => ⟨fun s S hs => (step_move hl op).generation hl hs,
    fun s g hg => ?_⟩⟩
  · obtain ⟨q, hq⟩ := ((hl.services s S hs).busy hph).1
    rw [hq]
    rfl
  · have := hh s
    rw [hs] at this
    exact (this.1 hf p hp).symm
  · obtain ⟨S, hS, hph, hgen⟩ := (step_move hl op).committed hg
    have := hh s
    rw [hS] at this
    refine ⟨S, hS, hgen, ?_⟩
    rw [← hgen]
    exact this.2.2 hph

end Bindings

end Nanami.Communication
