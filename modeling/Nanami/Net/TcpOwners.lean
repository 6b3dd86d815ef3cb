import Nanami.Net.TcpRequests

/-!
# Who sees which connection

A segment belongs to the connection with its addresses, and a connection to the session that opened
it. The server keeps sessions apart as long as no session connects with the addresses of another
session's connection, which it does not check, and no SYN takes the slot of a connection that waits in
`FIN_WAIT2`, which it does when the table is full.
-/

namespace Nanami.Net

open Lib

variable {s : Server} {r r' : NetRuntime} {e : Event} {i : Nat} {P : Nat → Prop}

/-! ### What a step can do -/

def Event.caller : Event → Option Nat
  | .connect request => some request.identifier
  | .accept request => some request.identifier
  | .send request => some request.identifier
  | .recv request => some request.identifier
  | _ => none

/-- The effect of an event on the connections: none, some are closed, the caller's own are used, a
segment arrives, or a connect request takes a slot. -/
inductive Stepped (r : NetRuntime) : Event → NetRuntime → Prop
  | same {e : Event} {r' : NetRuntime} (same : SameTcp r r') : Stepped r e r'
  | closed {request : ServiceRequest} {gone : Nat → Bool} {shared : Except RequestError (Word × Word)}
      {r' : NetRuntime} (closes : Closes r r') : Stepped r (.attach request gone shared) r'
  | used {e : Event} {identifier : Nat} {r' : NetRuntime} (caller : e.caller = some identifier)
      (moves : Moves (OwnedBy r identifier) r r') : Stepped r e r'
  | arrived {frame : Frame} {seg : Segment} {r' : NetRuntime} (segment : frame.segment? = some seg)
      (arrives : Arrives r seg r') : Stepped r (.frame frame) r'
  | opened {request : ServiceRequest} {i : Nat} {r' : NetRuntime}
      (allocated : r.allocateTcpConnection = some i)
      (unknown : ∀ j < tcpMaxConnections, OwnedBy r request.identifier j →
        ¬request.Names (r.tcpConnections j))
      (places : Places i (connectConnection request i) r r') : Stepped r (.connect request) r'
  | givenUp {request : ServiceRequest} {i : Nat} {r' : NetRuntime}
      (allocated : r.allocateTcpConnection = some i) (reset : ResetAt i r r') :
      Stepped r (.connect request) r'

lemma Sound.setRx {q} (hs : Sound r) (hq : q.Valid) (hactive : (r.tcpConnections i).active = true)
    (hothers : ∀ j ≠ i, q.buffers j = r.tcpRx.buffers j) : Evolves i r { r with tcpRx := q } := by
  have halter := hs.alter hactive .refl hq hothers
  rw [NetRuntime.setConnection, Function.update_eq_self] at halter
  exact halter

lemma Turned.moves (hs : Sound r) (h : Turned r r') : Moves P r r' := by
  obtain ⟨q, hq, hsame, rfl⟩ := h
  refine ⟨⟨hs.index, hq, fun j => ?_, hs.generations⟩, fun j _ => ⟨rfl, congrFun hsame j⟩,
    fun j _ => .refl⟩
  rw [hsame]
  exact hs.slots j

variable {request : ServiceRequest} {identifier : Nat}

lemma Received.moves {answer} (hs : Sound r) (h : Received r request answer r') :
    Moves (OwnedBy r request.identifier) r r' := by
  cases h with
  | nothing => exact .refl hs
  | @bytes i _ _ _ q valid bound full asked owner read others =>
    -- a buffer with something to read is that of an active connection
    have hactive := hs.active_of_len full
    refine (hs.setRx valid hactive fun j hj => ?_).moves.mono fun j hj => ?_
    · rw [others, Function.update_of_ne hj]
    · rw [hj]
      exact ⟨hactive, owner⟩
  | ended valid same owner ended left wanted =>
    refine (hs.alter owner.1 ?_ valid fun j _ => congrFun same j).moves.mono fun j hj => ?_
    · exact ⟨rfl, rfl, rfl, rfl, rfl, rfl⟩
    · rw [hj]
      exact owner

lemma SentBy.moves {t} (hs : Sound s.runtime) (h : SentBy identifier s t) :
    Moves (OwnedBy s.runtime identifier) s.runtime t.runtime := by
  rcases h with hquiet | ⟨i, howned, -, ⟨conn, hconn, ht⟩, -⟩
  · rw [hquiet.runtime]
    exact .refl hs
  · rw [ht]
    refine (hs.setConnection howned.1 hconn.toContinues).moves.mono fun j hj => ?_
    rw [hj]
    exact howned

lemma accept_stepped (hs : Sound s.runtime) :
    Stepped s.runtime (.accept request) (s.step (.accept request)).runtime := by
  refine stateAfter_of_wp (P := fun t : Server => Stepped s.runtime (.accept request) t.runtime) ?_
  refine wp_mono accept_spec (fun _ t ht => ?_) fun _ t ht => ?_
  · obtain ⟨⟨i, howned, -, ht⟩, -⟩ := ht
    rw [ht]
    refine .used rfl ((hs.setConnection howned.1 ?_).moves.mono fun j hj => ?_)
    · exact ⟨rfl, rfl, rfl, rfl, rfl, rfl⟩
    · rw [hj]
      exact howned
  · rw [ht.runtime]
    exact .same ⟨rfl, rfl, rfl⟩

lemma connect_stepped (hs : Sound s.runtime) :
    Stepped s.runtime (.connect request) (s.step (.connect request)).runtime := by
  refine stateAfter_of_wp (P := fun t : Server => Stepped s.runtime (.connect request) t.runtime) ?_
  refine wp_mono (connect_spec hs) (fun _ t ht => ?_) fun _ t ht => ?_
  · obtain ⟨ht, -⟩ := ht
    generalize t.runtime = r' at ht ⊢
    cases ht with
    | known owner names answer => exact .same ⟨rfl, rfl, rfl⟩
    | opened allocated unknown places => exact .opened allocated unknown places
  · rcases ht.1 with ht | ⟨i, hi, hreset⟩
    · rw [ht]
      exact .same ⟨rfl, rfl, rfl⟩
    · exact .givenUp hi hreset

lemma step_stepped (hs : Sound s.runtime) (e : Event) : Stepped s.runtime e (s.step e).runtime := by
  cases e with
  | attach request gone shared => exact .closed (stateAfter_of_wp (attach_spec hs)).1
  | bind request => exact .same (stateAfter_of_wp bind_spec).1
  | unbind request => exact .same (stateAfter_of_wp unbind_spec).1
  | connect request => exact connect_stepped hs
  | accept request => exact accept_stepped hs
  | send request => exact .used rfl ((stateAfter_of_wp send_spec).moves hs)
  | recv request =>
    refine .used rfl (stateAfter_of_wp (P := fun t : Server => Moves _ s.runtime t.runtime) ?_)
    exact wp_mono (recv_spec hs) (fun _ t ht => ht.1.moves hs) fun _ t ht => ht.1.moves hs
  | frame frame =>
    show Stepped s.runtime _ (s.runtime.processTcp frame)
    rw [NetRuntime.processTcp]
    cases hseg : frame.segment? with
    | none => exact .same ⟨rfl, rfl, rfl⟩
    | some seg => exact .arrived hseg (processSegment_arrives seg hs)
  | neighbours arp => exact .same ⟨rfl, rfl, rfl⟩

lemma Arrives.sound {seg} (hs : Sound r) (h : Arrives r seg r') : Sound r' := by
  cases h with
  | dropped => exact hs
  | moved found moves => exact moves.sound
  | placed opens listens fresh allocated places => exact places.sound

lemma Stepped.sound (hs : Sound r) (h : Stepped r e r') : Sound r' := by
  cases h with
  | same same => exact (same.moves (P := fun _ => True) hs).sound
  | closed closes => exact closes.sound
  | used caller moves => exact moves.sound
  | arrived segment arrives => exact arrives.sound hs
  | opened allocated unknown places => exact places.sound
  | givenUp allocated reset => exact reset.sound

lemma run_sound {events} (hs : Sound s.runtime) : Sound (s.run events).runtime := by
  induction events generalizing s with
  | nil => exact hs
  | cons e events ih => exact ih ((step_stepped hs e).sound hs)

/-! ### One connection for each address -/

def Unique (r : NetRuntime) : Prop := ∀ i j ip peerPort localPort,
  (r.tcpConnections i).Serves ip peerPort localPort →
    (r.tcpConnections j).Serves ip peerPort localPort → i = j

/-- Another session has a connection with the addresses of the request. -/
def NetRuntime.Collides (r : NetRuntime) (request : ServiceRequest) : Prop :=
  ∃ i, (r.tcpConnections i).active = true ∧ (r.tcpConnections i).ownerId ≠ request.identifier ∧
    request.Names (r.tcpConnections i)

/-- A SYN for a new connection finds the table full and a connection in `FIN_WAIT2`. -/
def NetRuntime.Evicts (r : NetRuntime) (seg : Segment) : Prop :=
  seg.opens = true ∧ r.sessionForTcpPort seg.dstPort ≠ none ∧ r.findTcpConnection seg = none ∧
    r.tcpIndex.vacant = none ∧ r.reclaimable ≠ none

def Event.Admissible (r : NetRuntime) : Event → Prop
  | .connect request => ¬r.Collides request
  | .frame arriving => ∀ seg, arriving.segment? = some seg → ¬r.Evicts seg
  | _ => True

lemma Moves.unique (h : Moves P r r') (hu : Unique r) : Unique r' := by
  intro i j ip peerPort localPort hi hj
  have hci := h.kept i hi.1
  have hcj := h.kept j hj.1
  refine hu i j ip peerPort localPort ⟨hci.active.symm.trans hi.1, ?_⟩ ⟨hcj.active.symm.trans hj.1, ?_⟩
  · exact hci.hasTriple.symm.trans hi.2
  · exact hcj.hasTriple.symm.trans hj.2

lemma Places.unique {conn ip peerPort localPort} (h : Places i conn r r') (hu : Unique r)
    (hconn : ∀ id, (conn id).Serves ip peerPort localPort)
    (hnew : ∀ j ≠ i, ¬(r.tcpConnections j).Serves ip peerPort localPort) : Unique r' := by
  obtain ⟨id, hid⟩ := h.placed
  -- a connection next to the new one would have its addresses
  have hself : ∀ j ip' peerPort' localPort', (r'.tcpConnections i).Serves ip' peerPort' localPort' →
      (r'.tcpConnections j).Serves ip' peerPort' localPort' → j = i := by
    intro j ip' peerPort' localPort' hi hj
    by_contra hne
    rw [hid] at hi
    rw [(h.same j hne).1] at hj
    obtain ⟨hip, hpeer, hlocal⟩ := TcpIndex.hasTriple_iff.mp hi.2
    obtain ⟨hip', hpeer', hlocal'⟩ := TcpIndex.hasTriple_iff.mp (hconn id).2
    refine hnew j hne ?_
    rw [← hip', ← hpeer', ← hlocal', hip, hpeer, hlocal]
    exact hj
  intro j k ip' peerPort' localPort' hj hk
  by_cases hji : j = i
  · subst hji
    exact (hself k _ _ _ hj hk).symm
  · by_cases hki : k = i
    · subst hki
      exact hself j _ _ _ hk hj
    · rw [(h.same j hji).1] at hj
      rw [(h.same k hki).1] at hk
      exact hu j k _ _ _ hj hk

lemma Stepped.unique (hs : Sound r) (hu : Unique r) (h : Stepped r e r') (ha : e.Admissible r) :
    Unique r' := by
  cases h with
  | same same => exact (same.moves (P := fun _ => True) hs).unique hu
  | closed closes => exact closes.unique hu
  | used caller moves => exact moves.unique hu
  | arrived segment arrives =>
    cases arrives with
    | dropped => exact hu
    | moved found moves => exact moves.unique hu
    | placed opens listens fresh allocated places =>
      refine places.unique hu (fun _ => synConnection_serves) fun j _ hserves => ?_
      exact hs.index.of_find_none fresh ((hs.slots j).bound hserves.1) hserves
  | @opened request i _ allocated unknown places =>
    refine places.unique hu (fun _ => connectConnection_serves) fun j _ hserves => ?_
    by_cases howner : (r.tcpConnections j).ownerId = request.identifier
    · exact unknown j ((hs.slots j).bound hserves.1) ⟨hserves.1, howner⟩ hserves.2
    · exact ha ⟨j, hserves.1, howner, hserves.2⟩
  | givenUp allocated reset => exact reset.moves.unique hu

/-! ### Segments and owners -/

def Changed (i : Nat) (r r' : NetRuntime) : Prop :=
  r'.tcpConnections i ≠ r.tcpConnections i ∨ r'.tcpRx.buffers i ≠ r.tcpRx.buffers i

def Segment.Concerns (seg : Segment) (conn : TcpConnection) : Prop :=
  conn.active = true → TcpIndex.hasTriple conn seg.srcIp seg.srcPort seg.dstPort = true

lemma SameBut.eq_of_changed {j} (h : SameBut i r r') (hj : Changed j r r') : j = i := by
  by_contra hne
  rcases hj with hj | hj
  · exact hj (h j hne).1
  · exact hj (h j hne).2

lemma Arrives.concerns {seg} (hs : Sound r) (h : Arrives r seg r') (he : ¬r.Evicts seg)
    (hc : Changed i r r') : seg.Concerns (r.tcpConnections i) ∧ seg.Concerns (r'.tcpConnections i) := by
  cases h with
  | dropped => exact (hc.elim (absurd rfl) (absurd rfl))
  | @moved j _ found moves =>
    have hji : i = j := SameBut.eq_of_changed moves.others hc
    subst hji
    have hserves := hs.index.of_find found
    refine ⟨fun _ => hserves.2, fun hactive => ?_⟩
    exact (moves.kept i hactive).hasTriple.trans hserves.2
  | @placed j _ _ opens listens fresh allocated places =>
    have hji : i = j := places.same.eq_of_changed hc
    subst hji
    obtain ⟨id, hid⟩ := places.placed
    refine ⟨fun hactive => ?_, fun _ => ?_⟩
    · -- an active connection is only taken when the table is full
      rcases (hs.of_allocate allocated).2 with hvacant | ⟨hfull, -⟩
      · rw [hvacant] at hactive
        cases hactive
      · refine absurd ⟨opens, ?_, fresh, hfull, ?_⟩ he
        · rw [listens]
          exact Option.some_ne_none _
        · rw [NetRuntime.allocateTcpConnection, hfull, Option.none_or] at allocated
          rw [allocated]
          exact Option.some_ne_none _
    · rw [hid]
      exact synConnection_serves.2

def Opens (r : NetRuntime) (conn : TcpConnection) : Event → Prop
  | .connect request => conn.ownerId = request.identifier ∧ request.Names conn
  | .frame frame => ∃ seg session, frame.segment? = some seg ∧ seg.Concerns conn ∧
      r.sessionForTcpPort seg.dstPort = some session ∧ conn.ownerId = session.callerId
  | _ => False

lemma Stepped.owner (hs : Sound r) (h : Stepped r e r') (hactive : (r'.tcpConnections i).active = true) :
    (r.tcpConnections i).Continues (r'.tcpConnections i) ∨ Opens r (r'.tcpConnections i) e := by
  cases h with
  | same same => exact .inl ((same.moves (P := fun _ => True) hs).kept i hactive)
  | closed closes => exact .inl (closes.kept i hactive)
  | used caller moves => exact .inl (moves.kept i hactive)
  | arrived segment arrives =>
    cases arrives with
    | dropped => exact .inl .refl
    | moved found moves => exact .inl (moves.kept i hactive)
    | @placed j session _ opens listens fresh allocated places =>
      by_cases hij : i = j
      · subst hij
        obtain ⟨id, hid⟩ := places.placed
        rw [hid]
        exact .inr ⟨_, session, segment, fun _ => synConnection_serves.2, listens, rfl⟩
      · rw [(places.same i hij).1]
        exact .inl .refl
  | @opened request j _ allocated unknown places =>
    by_cases hij : i = j
    · subst hij
      obtain ⟨id, hid⟩ := places.placed
      rw [hid]
      exact .inr ⟨rfl, connectConnection_serves.2⟩
    · rw [(places.same i hij).1]
      exact .inl .refl
  | givenUp allocated reset => exact .inl (reset.moves.kept i hactive)

/-! ### Requests -/

/-- A connect request finds the table full and takes the slot of a connection in `FIN_WAIT2`. -/
def Reclaims (r : NetRuntime) (i : Nat) : Event → Prop
  | .connect _ => r.tcpIndex.vacant = none ∧ (r.tcpConnections i).state = .finWait2
  | _ => False

lemma Stepped.spares (hs : Sound r) (h : Stepped r e r') (hcaller : e.caller = some identifier)
    (hactive : (r.tcpConnections i).active = true)
    (howner : (r.tcpConnections i).ownerId ≠ identifier) : ¬Changed i r r' ∨ Reclaims r i e := by
  have hslot : ∀ {j : Nat}, SameBut j r r' → r.allocateTcpConnection = some j →
      ¬Changed i r r' ∨ r.tcpIndex.vacant = none ∧ (r.tcpConnections i).state = .finWait2 := by
    intro j hsame halloc
    by_cases hij : i = j
    · subst hij
      rcases (hs.of_allocate halloc).2 with hvacant | hfull
      · rw [hvacant] at hactive
        cases hactive
      · exact .inr hfull
    · exact .inl fun hc => hij (hsame.eq_of_changed hc)
  cases h with
  | same same =>
    refine .inl fun hc => ?_
    rw [Changed, same.connections, same.rx] at hc
    exact hc.elim (absurd rfl) (absurd rfl)
  | closed closes => cases hcaller
  | @used _ caller' _ caller moves =>
    rw [caller, Option.some.injEq] at hcaller
    subst hcaller
    obtain ⟨hconn, hbuffer⟩ := moves.others i fun howned => howner howned.2
    exact .inl fun hc => hc.elim (fun h => h hconn) fun h => h hbuffer
  | arrived segment arrives => cases hcaller
  | opened allocated unknown places => exact hslot places.same allocated
  | givenUp allocated reset => exact hslot reset.same allocated

/-- The connection and the bytes that a request tells its caller about. -/
def Event.learns (s : Server) : Event → Option (Nat × List UInt8)
  | .connect request =>
    match handleTcpConnectRequest request s with
    | .ok response _ => some (response.detail0, [])
    | .error _ _ => none
  | .accept request =>
    match handleTcpAcceptRequest request s with
    | .ok response _ => some (response.detail0, [])
    | .error _ _ => none
  | .recv request =>
    match handleTcpRecvRequest request s with
    | .ok answer _ => some (answer.1.detail1, answer.2)
    | .error _ _ => none
  | _ => none

/-- What a request tells is about a connection of the caller, and the bytes are from its buffer. -/
def Discloses (r : NetRuntime) (identifier : Nat) (told : Nat × List UInt8) : Prop :=
  told.1 = 0 ∧ told.2 = [] ∨ ∃ i, OwnedBy r identifier i ∧
    told.1 = (r.tcpConnections i).connectionId ∧ told.2 <+: (r.tcpRx.buffers i).bytes

lemma Received.discloses {answer} (hs : Sound r) (h : Received r request answer r') :
    Discloses r request.identifier (answer.1.detail1, answer.2) := by
  cases h with
  | nothing => exact .inl ⟨rfl, rfl⟩
  | @bytes i _ _ _ _ valid bound full asked owner read others =>
    refine .inr ⟨i, ⟨hs.active_of_len full, owner⟩, rfl, ?_⟩
    rw [read.bytes]
    exact List.take_prefix _ _
  | @ended i _ _ valid same owner ended left wanted =>
    exact .inr ⟨i, owner, rfl, List.nil_prefix⟩

lemma learns_discloses {told} (hs : Sound s.runtime) (hcaller : e.caller = some identifier)
    (h : e.learns s = some told) : Discloses s.runtime identifier told := by
  cases e with
  | connect request =>
    cases hcaller
    rw [Event.learns] at h
    split at h
    · rename_i response t hrun
      cases h
      have hconnected := (wp_ok (connect_spec hs) hrun).1
      generalize t.runtime = r' at hconnected
      cases hconnected with
      | @known i id owner names answer =>
        rcases answer with rfl | rfl
        · exact .inr ⟨i, owner, rfl, List.nil_prefix⟩
        · exact .inl ⟨rfl, rfl⟩
      | opened allocated unknown places => exact .inl ⟨rfl, rfl⟩
    · cases h
  | accept request =>
    cases hcaller
    rw [Event.learns] at h
    split at h
    · rename_i hrun
      cases h
      obtain ⟨⟨i, howned, hid, -⟩, -⟩ := wp_ok accept_spec hrun
      exact .inr ⟨i, howned, hid, List.nil_prefix⟩
    · cases h
  | recv request =>
    cases hcaller
    rw [Event.learns] at h
    split at h
    · rename_i hrun
      cases h
      exact (wp_ok (recv_spec hs) hrun).1.discloses hs
    · cases h
  | send request | attach request gone shared | bind request | unbind request | frame frame
  | neighbours arp =>
    cases h

/-- The segments an event may send: those of the caller's connections, and the SYN of a connect
request. -/
def Event.MaySend (r : NetRuntime) (e : Event) (seg : SentSegment) : Prop :=
  (∃ identifier, e.caller = some identifier ∧ SentFor r identifier seg) ∨
    ∃ request, e = .connect request ∧ request.Syn seg

lemma step_emits (hs : Sound s.runtime) (e : Event) : Emits (e.MaySend s.runtime) s (s.step e) := by
  cases e with
  | attach request gone shared => exact .none (stateAfter_of_wp (attach_spec hs)).2
  | bind request => exact .none (stateAfter_of_wp bind_spec).2
  | unbind request => exact .none (stateAfter_of_wp unbind_spec).2
  | frame frame => exact .none rfl
  | neighbours arp => exact .none rfl
  | accept request =>
    refine .none (stateAfter_of_wp (P := fun t : Server => t.segments = s.segments) ?_)
    exact wp_mono accept_spec (fun _ t ht => ht.2) fun _ t ht => ht.segments
  | connect request =>
    have hemits : Emits request.Syn s (s.step (.connect request)) :=
      stateAfter_of_wp (wp_mono (connect_spec hs) (fun _ t ht => ht.2) fun _ t ht => ht.2)
    exact hemits.mono fun seg hseg => .inr ⟨request, rfl, hseg⟩
  | send request =>
    have hends : ends (handleTcpSendRequest request) (SentBy request.identifier s) s := send_spec
    have hemits := (stateAfter_of_wp hends).emits
    exact hemits.mono fun seg hseg => .inl ⟨_, rfl, hseg⟩
  | recv request =>
    have hemits : Emits (SentFor s.runtime request.identifier) s (s.step (.recv request)) :=
      stateAfter_of_wp (wp_mono (recv_spec hs) (fun _ t ht => ht.2) fun _ t ht => .none ht.2)
    exact hemits.mono fun seg hseg => .inl ⟨_, rfl, hseg⟩

/-- No other session has a connection with the addresses of a segment that is sent. -/
lemma Event.MaySend.of_caller {seg} (h : e.MaySend r seg) (hu : Unique r) (ha : e.Admissible r)
    (hon : seg.On (r.tcpConnections i)) : e.caller = some (r.tcpConnections i).ownerId := by
  rcases h with ⟨identifier, hcaller, j, rfl, hj⟩ | ⟨request, rfl, hsyn⟩
  · rw [hu i j _ _ _ hon hj]
    exact hcaller
  · by_contra hother
    refine ha ⟨i, hon.1, fun howner => hother (congrArg some howner.symm), ?_⟩
    rw [ServiceRequest.Names, ← hsyn.dstIp, ← hsyn.dstPort, ← hsyn.srcPort]
    exact hon.2

/-! ### Runs -/

/-- The event keeps connections and sessions apart: afterwards each address has one connection; a
segment changes only what has its addresses; a connection keeps its owner, who opened it; a request
changes no connection of another session and tells about the caller's own connections only; and what is
sent goes out on a connection of the caller, or asks for one, and no other session has a connection with
these addresses. -/
structure Isolated (s : Server) (e : Event) : Prop where
  unique : Unique (s.step e).runtime
  segment : ∀ frame seg, e = .frame frame → frame.segment? = some seg →
    ∀ i, Changed i s.runtime (s.step e).runtime → seg.Concerns (s.runtime.tcpConnections i) ∧
      seg.Concerns ((s.step e).runtime.tcpConnections i)
  owner : ∀ i, ((s.step e).runtime.tcpConnections i).active = true →
    (s.runtime.tcpConnections i).Continues ((s.step e).runtime.tcpConnections i) ∨
      Opens s.runtime ((s.step e).runtime.tcpConnections i) e
  spares : ∀ identifier, e.caller = some identifier →
    ∀ i, (s.runtime.tcpConnections i).active = true →
      (s.runtime.tcpConnections i).ownerId ≠ identifier →
        ¬Changed i s.runtime (s.step e).runtime ∨ Reclaims s.runtime i e
  told : ∀ identifier told, e.caller = some identifier → e.learns s = some told →
    Discloses s.runtime identifier told
  sent : Emits (fun seg => e.MaySend s.runtime seg ∧ ∀ i, seg.On (s.runtime.tcpConnections i) →
    e.caller = some (s.runtime.tcpConnections i).ownerId) s (s.step e)

lemma isolated_of_admissible (hs : Sound s.runtime) (hu : Unique s.runtime)
    (ha : e.Admissible s.runtime) : Isolated s e := by
  have hstep := step_stepped hs e
  refine ⟨hstep.unique hs hu ha, ?_, fun i => hstep.owner hs, fun identifier hcaller i => ?_, ?_, ?_⟩
  · rintro frame seg rfl hseg i hchanged
    refine (?_ : Arrives s.runtime seg (s.step (.frame frame)).runtime).concerns hs (ha seg hseg) hchanged
    show Arrives s.runtime seg (s.runtime.processTcp frame)
    rw [NetRuntime.processTcp, hseg]
    exact processSegment_arrives seg hs
  · exact hstep.spares hs hcaller
  · exact fun identifier told => learns_discloses hs
  · exact (step_emits hs e).mono fun seg hseg => ⟨hseg, fun i => hseg.of_caller hu ha⟩

def Orderly (s : Server) : List Event → Prop
  | [] => True
  | e :: events => e.Admissible s.runtime ∧ Orderly (s.step e) events

lemma run_unique {events} (hs : Sound s.runtime) (hu : Unique s.runtime) (h : Orderly s events) :
    Unique (s.run events).runtime := by
  induction events generalizing s with
  | nil => exact hu
  | cons e events ih =>
    have hstep := step_stepped hs e
    exact ih (hstep.sound hs) (hstep.unique hs hu h.1) h.2

lemma Fresh.unique (h : Fresh r) : Unique r := by
  intro i j ip peerPort localPort hi
  rw [h.connections] at hi
  cases hi.1

/-- In a run in which no session connects with the addresses of another session's connection and no SYN
takes a slot in use, every state reached has one connection for each address, and every further event
of this kind keeps connections and sessions apart. -/
theorem sessions_stay_apart {events : List Event} (hfresh : Fresh s.runtime) (h : Orderly s events) :
    Unique (s.run events).runtime ∧
      ∀ e : Event, e.Admissible (s.run events).runtime → Isolated (s.run events) e := by
  have hs := @run_sound _ events hfresh.sound
  have hu := run_unique hfresh.sound hfresh.unique h
  exact ⟨hu, fun e ha => isolated_of_admissible hs hu ha⟩

lemma freshServer_fresh : Fresh freshServer.runtime := ⟨rfl, rfl, rfl, rfl⟩

def attachAs (identifier : Nat) : Event :=
  .attach ⟨identifier, 0, 1, 0, 0⟩ (fun _ => false) (.ok (0x10000, 0x20000))

def connectAs (identifier : Nat) : ServiceRequest := ⟨identifier, 0x0a000002, 0x13880050, 0, 0⟩

def twoClients : List Event := [.neighbours [(0x0a000002, 1)], attachAs 1, attachAs 2]

/-- Both clients connect to one server, from ports of their own. -/
def twoConnected : List Event :=
  twoClients ++ [.connect (connectAs 1), .connect ⟨2, 0x0a000002, 0x13890050, 0, 0⟩]

lemma twoConnected_orderly : Orderly freshServer twoConnected := by
  have hs : Sound (freshServer.run twoClients).runtime := run_sound freshServer_fresh.sound
  have hnone : ∀ i, ((freshServer.run twoClients).runtime.tcpConnections i).active = false := fun i => rfl
  refine ⟨trivial, trivial, trivial, ?_, ?_, trivial⟩
  · rintro ⟨i, hactive, -⟩
    exact absurd hactive (Bool.eq_false_iff.mp (hnone i))
  · rintro ⟨i, hactive, -, hnames⟩
    rcases (step_stepped hs (.connect (connectAs 1))).owner hs hactive with hsame | ⟨-, hnames'⟩
    · exact absurd (hsame.active.symm.trans hactive) (Bool.eq_false_iff.mp (hnone i))
    · -- the first connection has another local port
      have hport := (TcpIndex.hasTriple_iff.mp hnames).2.2.symm.trans (TcpIndex.hasTriple_iff.mp hnames').2.2
      exact absurd hport (by decide)

/-- Two connected clients, and the first one sends four bytes: the segment goes out on its connection. -/
theorem sessions_stay_apart_two_clients :
    let s := freshServer.run twoConnected
    let e : Event := .send ⟨1, 0, 4, 0x18, 0⟩
    OwnedBy s.runtime 1 0 ∧ OwnedBy s.runtime 2 1 ∧ Isolated s e ∧
      (s.step e).segments.map (fun seg => (seg.srcPort, seg.payload)) =
        [(5000, [0, 0, 0, 0]), (5001, []), (5000, [])] :=
  ⟨⟨by decide +kernel, by decide +kernel⟩, ⟨by decide +kernel, by decide +kernel⟩,
    (sessions_stay_apart freshServer_fresh twoConnected_orderly).2 _ trivial, by decide +kernel⟩

/-- Both clients connect with the same addresses: two connections have them, and the segments of the
first client's peer are for the second client's. -/
theorem second_client_takes_address :
    let r := (freshServer.run (twoClients ++ [.connect (connectAs 1), .connect (connectAs 2)])).runtime
    ¬Unique r ∧ r.tcpIndex.find r.tcpConnections 0x0a000002 80 5000 = some 1 ∧
      (r.tcpConnections 0).ownerId = 1 ∧ (r.tcpConnections 1).ownerId = 2 := by
  refine ⟨fun hu => ?_, by decide +kernel, by decide +kernel, by decide +kernel⟩
  have hzero := hu 0 1 0x0a000002 80 5000 ⟨by decide +kernel, by decide +kernel⟩
    ⟨by decide +kernel, by decide +kernel⟩
  cases hzero

/-- What a lookup answers. -/
structure Findable (r : NetRuntime) : Prop where
  /-- A lookup finds a connection exactly if an active one has the addresses. -/
  find : ∀ ip peerPort localPort,
    (∃ i, r.tcpIndex.find r.tcpConnections ip peerPort localPort = some i) ↔
      ∃ i, (r.tcpConnections i).Serves ip peerPort localPort
  found : ∀ ip peerPort localPort i,
    r.tcpIndex.find r.tcpConnections ip peerPort localPort = some i →
      (r.tcpConnections i).Serves ip peerPort localPort
  /-- The table is full exactly if no slot is vacant. -/
  full : r.tcpIndex.vacant = none ↔ ∀ i < tcpMaxConnections, (r.tcpConnections i).active = true
  /-- No byte is kept for a connection that is gone. -/
  quiet : ∀ i, (r.tcpConnections i).active = false → (r.tcpRx.buffers i).len = 0

/-- Whatever requests and segments have come, the index, the connections and the buffers agree. -/
theorem connections_findable {s : Server} (h : Fresh s.runtime) (events : List Event) :
    Findable (s.run events).runtime := by
  have hs := @run_sound s events h.sound
  generalize (s.run events).runtime = r at hs ⊢
  refine ⟨fun ip peerPort localPort => ⟨fun ⟨i, hi⟩ => ⟨i, hs.index.of_find hi⟩, fun ⟨i, hi⟩ => ?_⟩,
    fun _ _ _ _ => hs.index.of_find, ⟨fun hnone i hi => ?_, fun hall => ?_⟩, fun i => (hs.slots i).quiet⟩
  · refine Option.ne_none_iff_exists'.mp fun hnone => ?_
    exact hs.index.of_find_none hnone ((hs.slots i).bound hi.1) hi
  · obtain ⟨chains, hc⟩ := hs.index
    unfold TcpIndex.vacant at hnone
    have hfree := List.find?_eq_none.mp hnone i (List.mem_range.mpr hi)
    rw [hc.free i hi, Bool.not_eq_true', Bool.not_eq_false] at hfree
    exact hfree
  · refine Option.eq_none_iff_forall_ne_some.mpr fun i hi => ?_
    obtain ⟨hlt, hidle⟩ := hs.index.of_vacant hi
    rw [hall i hlt] at hidle
    cases hidle

/-- Two clients connect with the same addresses. -/
theorem connections_findable_two_clients :
    Findable (freshServer.run (twoClients ++ [.connect (connectAs 1), .connect (connectAs 2)])).runtime :=
  connections_findable (s := freshServer) freshServer_fresh _

end Nanami.Net
