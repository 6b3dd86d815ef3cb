import Nanami.Communication.Bindings

/-!
# Moves of the binding protocol

What every call on `Bindings` can do to the provider and service tables, said once: `Move` lists
the changes with the checks that guard them, and each operation is shown to make one of them,
whatever its arguments and the outcome of its effect.
-/

namespace Nanami.Communication
open Nanami.Lib

/-! ## Tables -/

lemma ProviderId.index_inj {p q : ProviderId} (h : p.index = q.index) : p = q := by
  have e : p.word - 1 = q.word - 1 := UInt64.toNat_inj.mp h
  cases p; cases q; simp_all

lemma ServiceId.index_inj {s t : ServiceId} (h : s.index = t.index) : s = t := by
  have e : s.word - 1 = t.word - 1 := UInt64.toNat_inj.mp h
  cases s; cases t; simp_all

lemma toNat_ofNat_succ_sub {n} (h : n < 64) : (UInt64.ofNat (n + 1) - 1).toNat = n := by
  have e : UInt64.ofNat (n + 1) - 1 = UInt64.ofNat n := by
    rw [UInt64.ofNat_add]
    exact UInt64.add_sub_cancel _ _
  rw [e, UInt64.toNat_ofNat_of_lt']
  exact Nat.lt_trans h (by decide)

namespace Bindings

variable {b : Bindings}

def nextProvider (b : Bindings) : ProviderId := ⟨UInt64.ofNat (b.providerCount + 1)⟩

def nextService (b : Bindings) : ServiceId := ⟨UInt64.ofNat (b.serviceCount + 1)⟩

variable {p : ProviderId} {s : ServiceId}

lemma providerAt_alterProvider {q} {f : Provider → Provider} :
    (alterProvider p f b).providerAt q =
      if p = q then (b.providerAt q).map f else b.providerAt q := by
  split
  · rename_i h
    rw [h]
    exact Slots.get_alter_self
  · exact Slots.get_alter_of_ne fun h => absurd (ProviderId.index_inj h) ‹_›

@[simp] lemma serviceAt_alterProvider {f} : (alterProvider p f b).serviceAt s = b.serviceAt s := rfl

lemma serviceAt_alterService {t} {f : Service → Service} :
    (alterService s f b).serviceAt t =
      if s = t then (b.serviceAt t).map f else b.serviceAt t := by
  split
  · rename_i h
    rw [h]
    exact Slots.get_alter_self
  · exact Slots.get_alter_of_ne fun h => absurd (ServiceId.index_inj h) ‹_›

@[simp] lemma providerAt_alterService {f} :
    (alterService s f b).providerAt p = b.providerAt p := rfl

@[simp] lemma serviceAt_pushProvider {x} : (pushProvider x b).serviceAt s = b.serviceAt s := rfl

@[simp] lemma providerAt_pushService {x} : (pushService x b).providerAt p = b.providerAt p := rfl

lemma providerAt_pushProvider {x : Provider} (h : b.providerCount < Communication.providers) :
    (pushProvider x b).providerAt p = if b.nextProvider = p then some x else b.providerAt p := by
  have hi : b.nextProvider.index = b.providerCount :=
    toNat_ofNat_succ_sub (Nat.lt_trans h (by decide))
  split
  · rename_i hp
    rw [← hp, providerAt, hi]
    exact Slots.get_put_self h
  · rename_i hp
    exact Slots.get_put_of_ne fun e => hp (ProviderId.index_inj (hi.trans e))

lemma serviceAt_pushService {x : Service} (h : b.serviceCount < Communication.services) :
    (pushService x b).serviceAt s = if b.nextService = s then some x else b.serviceAt s := by
  have hi : b.nextService.index = b.serviceCount :=
    toNat_ofNat_succ_sub (Nat.lt_trans h (by decide))
  split
  · rename_i hs
    rw [← hs, serviceAt, hi]
    exact Slots.get_put_self h
  · rename_i hs
    exact Slots.get_put_of_ne fun e => hs (ServiceId.index_inj (hi.trans e))

end Bindings

/-! ## Moves -/

/-- What a run shows of the handover of its services. -/
inductive Event where
  /-- `provider` was given the receiver of `service`. -/
  | installed (service : ServiceId) (provider : ProviderId)
  | prepared (service : ServiceId)
  /-- `provider` acknowledged, and its receiver was withdrawn. -/
  | acknowledged (service : ServiceId) (provider : ProviderId) (generation : Word)
  | committed (service : ServiceId) (generation : Word)
  deriving DecidableEq, Repr

namespace Bindings

variable {b : Bindings}

/-- What one call can do to the tables, with the events it shows. -/
inductive Move (b : Bindings) : List Event → Bindings → Prop where
  | stay : Move b [] b
  | session (x : Session) : Move b [] (pushSession x b)
  | sessions (t : Vector (Option Session) Communication.sessions) : Move b [] { b with sessions := t }
  | fault (s : ServiceId) : Move b [] (Bindings.fault s b)
  | faultSession (s : ServiceId) (x : Session) : Move b [] (Bindings.fault s (pushSession x b))
  | register (P : Provider) (hc : b.providerCount < Communication.providers) (hs : P.service = none)
      (hr : P.retired = false) : Move b [] (pushProvider P b)
  | publish (p : ProviderId) (P : Provider) (S : Service)
      (hc : b.serviceCount < Communication.services)
      (hp : b.providerAt p = some P) (hs : P.service = none) (hr : P.retired = false)
      (hS : S.provider = p ∧ S.pending = none ∧ S.state = ⟨b.nextService, 1, .active⟩) :
      Move b [.installed b.nextService p]
        (pushService S (alterProvider p (fun P => { P with service := some b.nextService }) b))
  | importService (S : Service) (hc : b.serviceCount < Communication.services)
      (hS : S.manager = 0 ∧ S.provider = ⟨0⟩ ∧ S.pending = none ∧
        S.state = ⟨b.nextService, 1, .active⟩) : Move b [] (pushService S b)
  | prepare (s : ServiceId) (q : ProviderId) (S : Service) (Q : Provider)
      (hs : b.serviceAt s = some S) (hm : S.manager ≠ 0) (hph : S.state.phase = .active)
      (hne : q ≠ S.provider) (hq : b.providerAt q = some Q) (hqs : Q.service = none)
      (hqr : Q.retired = false) (hg : S.state.generation < generationLimit) :
      Move b [.prepared s] (alterService s (fun S => setPhase .prepared { S with pending := some q })
        (alterProvider q (fun P => { P with service := some s }) b))
  | quiesce (s : ServiceId) (S : Service) (hs : b.serviceAt s = some S)
      (hph : S.state.phase = .prepared) : Move b [] (alterService s (setPhase .quiescing) b)
  | acknowledge (s : ServiceId) (p : ProviderId) (P : Provider) (S : Service)
      (hp : b.providerAt p = some P) (hps : P.service = some s) (hs : b.serviceAt s = some S)
      (hsp : S.provider = p) (hph : S.state.phase = .quiescing) :
      Move b [.acknowledged S.state.service p S.state.generation]
        (alterService S.state.service (setPhase .quiesced) b)
  | commit (s : ServiceId) (q : ProviderId) (S : Service) (hs : b.serviceAt s = some S)
      (hph : S.state.phase = .quiesced) (hq : S.pending = some q) :
      Move b [.installed s q, .committed s S.state.generation]
        (alterService s (fun S => { S with
            provider := q
            pending := none
            state := { S.state with generation := S.state.generation + 1, phase := .active } })
          (alterProvider S.provider (fun P => { P with lastService := some s })
            (alterProvider S.provider (fun P => { P with service := none }) b)))
  | abort (s : ServiceId) (q : ProviderId) (S : Service) (hs : b.serviceAt s = some S)
      (hph : S.state.phase = .prepared ∨ S.state.phase = .quiesced) (hq : S.pending = some q) :
      Move b (if S.state.phase = .quiesced then [.installed s S.provider] else [])
        (alterService s (fun S => setPhase .active { S with pending := none })
          (alterProvider q (fun P => { P with service := none }) b))
  | retire (p : ProviderId) (P : Provider) (hp : b.providerAt p = some P) (hs : P.service = none) :
      Move b [] (alterProvider p (fun P => { P with retired := true }) b)

variable {p : ProviderId} {s : ServiceId} {c g : Word}

lemma providerAt_of_provider {P} (h : b.provider p = some P) :
    b.providerAt p = some P ∧ P.retired = false := by
  rw [provider, Option.filter_eq_some_iff] at h
  simpa using h

lemma owned_ok {caller generation S} (h : b.owned caller s generation = .ok S) :
    b.serviceAt s = some S ∧ S.manager ≠ 0 ∧ S.state.generation = generation := by
  unfold owned at h
  split at h
  · cases h
  · rename_i service hs
    split at h
    · cases h
    · rename_i hc
      split at h
      · cases h
      · rename_i hg
        cases h
        simp only [Bool.or_eq_true, beq_iff_eq, bne_iff_ne, ne_eq, not_or, not_not] at hc hg
        refine ⟨hs, ?_, hg⟩
        rw [hc.2]
        exact hc.1

/-- A guarded effect either succeeds or leaves the tables alone but for a faulted service. -/
lemma wp_guardEffect {α effect Q} {f : Unit → M α} (h : wp (f ()) Q (fun _ => Move b []) b) :
    wp (guardEffect s effect >>= f) Q (fun _ => Move b []) b := by
  rw [wp_bind]
  unfold guardEffect
  split
  · exact h
  · exact wp_ite (fun _ => .fault s) (fun _ => .stay)

lemma registerProviderProfile_move {o i r n f prep}
    (hc : b.providerCount ≤ Communication.providers) :
    ends (registerProviderProfile o i r n f prep) (Move b [])
      b := by
  refine wp_lookup .stay fun slots _ => ?_
  refine wp_guard .stay fun _ => ?_
  rw [wp_read]
  split
  · exact wp_ite (fun _ => .stay) (fun _ => .stay)
  · refine wp_guard .stay fun hne => ?_
    exact wp_result (fun _ => .stay) fun _ _ => .register _ (by omega) rfl rfl

lemma publish_move {m inst} (hc : b.serviceCount ≤ Communication.services) :
    wp (publish m p inst) (fun s => Move b [.installed s p]) (fun _ => Move b []) b := by
  rw [publish, wp_read]
  refine wp_lookup .stay fun P hP => ?_
  obtain ⟨hp, hr⟩ := providerAt_of_provider hP
  refine wp_guard .stay fun hne => ?_
  simp only [Bool.or_eq_true, beq_iff_eq, not_or, Option.not_isSome_iff_eq_none] at hne
  refine wp_result (fun _ => .stay) fun _ _ => ?_
  exact .publish p P _ (by omega) hp (by simpa using hne.1.2) hr ⟨rfl, rfl, rfl⟩

lemma importService_move {limit} (hc : b.serviceCount ≤ Communication.services) :
    ends (importService limit) (Move b []) b := by
  unfold importService ends
  refine wp_guard .stay fun hne => ?_
  simp only [Bool.or_eq_true, beq_iff_eq, not_or] at hne
  exact .importService _ (by omega) ⟨rfl, rfl, rfl, rfl⟩

lemma prepare_move {q} :
    wp (prepare c s g q) (fun _ => Move b [.prepared s]) (fun _ => Move b []) b := by
  unfold prepare
  refine wp_result (fun _ => .stay) fun S hS => ?_
  obtain ⟨hs, hm, hg⟩ := owned_ok hS
  refine wp_lookup .stay fun Q hQ => ?_
  obtain ⟨hq, hr⟩ := providerAt_of_provider hQ
  refine wp_guard .stay fun hne => ?_
  simp only [Bool.or_eq_true, bne_iff_ne, ne_eq, beq_iff_eq, not_or, not_not] at hne
  refine wp_lookup .stay fun P hP => ?_
  refine wp_guard .stay fun hlim => ?_
  simp only [Bool.or_eq_true, decide_eq_true_eq, not_or, ge_iff_le, UInt64.not_le] at hlim
  obtain ⟨⟨hph, hqp⟩, hqs⟩ := hne
  exact .prepare s q S Q hs hm hph hqp hq (by simpa using hqs) hr (by rw [hg]; exact hlim.2)

lemma quiesce_move {sig} :
    ends (quiesce c s g sig) (Move b []) b := by
  unfold quiesce ends
  refine wp_result (fun _ => .stay) fun S hS => ?_
  obtain ⟨hs, _, _⟩ := owned_ok hS
  refine wp_guard .stay fun hne => ?_
  simp only [bne_iff_ne, ne_eq, not_not] at hne
  exact wp_result (fun _ => .stay) fun _ _ => .quiesce s S hs hne

lemma providerBinding_ok {st} (h : b.providerBinding c p = .ok st) :
    ∃ P s S, b.providerAt p = some P ∧ P.service = some s ∧ b.serviceAt s = some S ∧
      S.provider = p ∧ S.state = st := by
  unfold providerBinding at h
  split at h
  · cases h
  · rename_i P hP
    split at h
    · cases h
    · split at h
      · cases h
      · rename_i s hPs
        split at h
        · cases h
        · rename_i S hS
          split at h
          · cases h
          · rename_i hne
            cases h
            refine ⟨P, s, S, (providerAt_of_provider hP).1, hPs, hS, ?_, rfl⟩
            simpa using hne

lemma acknowledge_move {w} :
    wp (acknowledge c p g w) (fun s => Move b [.acknowledged s p g])
      (fun _ => Move b []) b := by
  unfold acknowledge
  refine wp_lookup .stay fun P' _ => ?_
  refine wp_result (fun _ => .stay) fun st hst => ?_
  obtain ⟨P, s, S, hp, hps, hs, hsp, rfl⟩ := providerBinding_ok hst
  refine wp_guard .stay fun hne => ?_
  simp only [Bool.or_eq_true, bne_iff_ne, ne_eq, not_or, not_not] at hne
  refine wp_guardEffect ?_
  obtain ⟨rfl, hph⟩ := hne
  exact Move.acknowledge s p P S hp hps hs hsp hph

lemma commit_move {inst} :
    wp (commit c s g inst) (fun q => Move b [.installed s q, .committed s g])
      (fun _ => Move b []) b := by
  unfold commit
  refine wp_result (fun _ => .stay) fun S hS => ?_
  obtain ⟨hs, _, rfl⟩ := owned_ok hS
  refine wp_guard .stay fun hne => ?_
  simp only [bne_iff_ne, ne_eq, not_not] at hne
  refine wp_lookup .stay fun q hq => ?_
  refine wp_lookup .stay fun Q _ => wp_guardEffect ?_
  exact Move.commit s q S hs hne hq

def restored (b : Bindings) (s : ServiceId) : List Event :=
  match b.serviceAt s with
  | some S => if S.state.phase = .quiesced then [.installed s S.provider] else []
  | none => []

lemma abort_move {r} (hpend : ∀ S, b.serviceAt s = some S →
      S.state.phase = .prepared ∨ S.state.phase = .quiesced → ∃ q, S.pending = some q) :
    wp (abort c s g r) (fun _ => Move b (b.restored s)) (fun _ => Move b []) b := by
  unfold abort
  refine wp_result (fun _ => .stay) fun S hS => ?_
  obtain ⟨hs, _, _⟩ := owned_ok hS
  refine wp_guard .stay fun hne => ?_
  have hph : S.state.phase = .prepared ∨ S.state.phase = .quiesced := by
    by_contra hc
    apply hne
    simpa [not_or] using hc
  obtain ⟨q, hq⟩ := hpend S hs hph
  have hev : b.restored s = if S.state.phase = .quiesced then [.installed s S.provider] else [] := by
    rw [restored, hs]
  have hdone := Move.abort s q S hs hph hq
  rw [← hev] at hdone
  simp only [hq]
  refine wp_ite (fun _ => ?_) (fun _ => hdone)
  refine wp_lookup .stay fun P _ => wp_guardEffect ?_
  exact hdone

lemma connectOwned_move {o slot inst} :
    ends (connectOwned o s slot inst) (Move b []) b := by
  unfold connectOwned ends
  refine wp_lookup .stay fun S _ => ?_
  refine wp_guard .stay fun _ => wp_guard .stay fun _ => ?_
  simp only
  split
  · exact wp_ite (fun _ => .faultSession s _) (fun _ => .stay)
  · exact .session _

lemma close_move {x w} :
    ends (close c x w) (Move b []) b := by
  unfold close ends
  refine wp_lookup .stay fun _ _ => ?_
  refine wp_ite (fun _ => .stay) (fun _ => wp_ite (fun _ => .stay) (fun _ => ?_))
  exact wp_result (fun _ => .stay) fun _ _ => .sessions _

lemma retireProvider_move {r} :
    ends (retireProvider c p r) (Move b []) b := by
  unfold retireProvider ends
  refine wp_lookup .stay fun P hP => ?_
  obtain ⟨hp, _⟩ := providerAt_of_provider hP
  refine wp_guard .stay fun _ => wp_guard .stay fun hs => ?_
  exact wp_result (fun _ => .stay) fun _ _ => .retire p P hp (by simpa using hs)

end Bindings

end Nanami.Communication
