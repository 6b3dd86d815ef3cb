import Nanami.Net.TcpMoves

/-!
# What a request can do to the connections

One specification for each TCP request: which connection it reads or changes, whose connection that
is, what the caller learns, and which segments are sent.
-/

namespace Nanami.Net

open Lib NetRuntime TcpRxQueue Bool

variable {α : Type} {s t : Server} {request : ServiceRequest} {i : Nat}
  {Q : α → Server → Prop} {E : Response → Server → Prop}

/-! ### Steps that leave the connections alone -/

variable {session : ClientSession} {r : NetRuntime} {flags : UInt8}

/-- From `s` to `t` nothing happened to the connections, and no segment was sent. -/
structure Quiet (s t : Server) : Prop where
  runtime : t.runtime = s.runtime
  segments : t.segments = s.segments

lemma wp_touchShm {offset length f} (h : ∀ t, Quiet s t → wp (f ()) Q E t) :
    wp (touchShm session offset length >>= f) Q E s := by
  exact h _ ⟨rfl, rfl⟩

lemma wp_emitFrame {length f} (h : ∀ answer t, Quiet s t → wp (f answer) Q E t) :
    wp (emitFrame length >>= f) Q E s := by
  exact h _ _ ⟨rfl, rfl⟩

lemma wp_session {f} (h : ∀ session, wp (f session) Q E s)
    (hdenied : E ⟨.permissionDenied, 0, 0⟩ s) : wp (requireSession request.identifier >>= f) Q E s := by
  rw [wp_bind, requireSession]
  exact wp_okOr (fun session _ => h session) fun _ => hdenied

lemma wp_neighbour {destination status f} (h : ∀ mac, wp (f mac) Q E s)
    (hunknown : ∀ t, Quiet s t → E ⟨status, 0, 0⟩ t) :
    wp (requireNeighbour destination status >>= f) Q E s := by
  rw [wp_bind, requireNeighbour, wp_read]
  split
  · exact h _
  · exact wp_emitFrame fun _ => hunknown

/-! ### Segments sent -/

/-- The segment has the addresses of the connection, which is active. -/
def SentSegment.On (seg : SentSegment) (conn : TcpConnection) : Prop :=
  conn.Serves seg.dstIp seg.dstPort seg.srcPort

/-- Every segment sent from `s` to `t` has the property. -/
def Emits (P : SentSegment → Prop) (s t : Server) : Prop :=
  ∃ new, t.segments = new ++ s.segments ∧ ∀ seg ∈ new, P seg

namespace Emits

variable {P P' : SentSegment → Prop}

lemma none (h : t.segments = s.segments) : Emits P s t := ⟨[], h, fun _ h => absurd h List.not_mem_nil⟩

lemma cons {u seg} (h : Emits P s t) (hseg : P seg) (hu : u.segments = seg :: t.segments) :
    Emits P s u := by
  obtain ⟨new, ht, hnew⟩ := h
  exact ⟨seg :: new, by rw [hu, ht, List.cons_append], List.forall_mem_cons.mpr ⟨hseg, hnew⟩⟩

lemma mono (h : Emits P s t) (hP : ∀ seg, P seg → P' seg) : Emits P' s t := by
  obtain ⟨new, ht, hnew⟩ := h
  exact ⟨new, ht, fun seg hseg => hP seg (hnew seg hseg)⟩

end Emits

lemma wp_emitTcpSegment {seg f}
    (h : ∀ answer t, t.runtime = s.runtime → t.segments = seg :: s.segments → wp (f answer) Q E t) :
    wp (emitTcpSegment seg >>= f) Q E s := by
  exact h _ _ rfl rfl

lemma segmentOn_on {mac payload} (h : (r.tcpConnections i).active = true) :
    (r.segmentOn i mac flags payload).On (r.tcpConnections i) :=
  ⟨h, TcpIndex.hasTriple_iff.mpr ⟨rfl, rfl, rfl⟩⟩

/-! ### Accepting -/

def OwnedBy (r : NetRuntime) (identifier i : Nat) : Prop :=
  (r.tcpConnections i).active = true ∧ (r.tcpConnections i).ownerId = identifier

lemma accept_spec :
    wp (handleTcpAcceptRequest request)
      (fun response t => (∃ i, OwnedBy s.runtime request.identifier i ∧
        response.detail0 = (s.runtime.tcpConnections i).connectionId ∧
        t.runtime = s.runtime.setConnection i { s.runtime.tcpConnections i with accepted := true }) ∧
        t.segments = s.segments)
      (fun _ t => Quiet s t) s := by
  refine wp_session (fun session => wp_guard ⟨rfl, rfl⟩ fun _ => ?_) ⟨rfl, rfl⟩
  refine wp_lookup ⟨rfl, rfl⟩ fun i hi => ?_
  unfold acceptable at hi
  have hfound := List.find?_some hi
  simp only [and_eq_true, beq_iff_eq] at hfound
  rw [wp_write]
  exact wp_touchShm fun t ht => ⟨⟨i, hfound.1.1.1, rfl, ht.runtime⟩, ht.segments⟩

/-! ### Sending -/

/-- What sending changes in a connection: sequence numbers of its own, and its state by a FIN. -/
structure TcpConnection.Sends (conn conn' : TcpConnection) : Prop extends conn.Continues conn' where
  rcvNxt : conn'.rcvNxt = conn.rcvNxt
  eofPending : conn'.eofPending = conn.eofPending
  state : conn'.state = conn.state ∨ conn'.state = .finWait1 ∨
    conn'.state = .lastAck ∧ conn.state = .closeWait

lemma TcpConnection.Sends.refl {conn : TcpConnection} : conn.Sends conn :=
  ⟨.refl, rfl, rfl, .inl rfl⟩

lemma TcpConnection.Sends.trans {conn conn' conn'' : TcpConnection} (h : conn.Sends conn')
    (h' : conn'.Sends conn'') : conn.Sends conn'' := by
  refine ⟨h.toContinues.trans h'.toContinues, h'.rcvNxt.trans h.rcvNxt,
    h'.eofPending.trans h.eofPending, ?_⟩
  rcases h'.state with hsame | hfin | ⟨hlast, hwait⟩
  · rw [hsame]
    exact h.state
  · exact .inr (.inl hfin)
  · rcases h.state with hsame | hfin | ⟨hlast', -⟩
    · exact .inr (.inr ⟨hlast, hsame ▸ hwait⟩)
    · rw [hwait] at hfin
      cases hfin
    · rw [hwait] at hlast'
      cases hlast'

lemma sentSegment_sends {conn : TcpConnection} {chunk} :
    conn.Sends (conn.sentSegment flags chunk) := by
  rw [TcpConnection.sentSegment]
  split
  · refine ⟨⟨rfl, rfl, rfl, rfl, rfl, rfl⟩, rfl, rfl, .inr ?_⟩
    split
    · exact .inr ⟨rfl, ‹_›⟩
    · exact .inl rfl
  · exact ⟨⟨rfl, rfl, rfl, rfl, rfl, rfl⟩, rfl, rfl, .inl rfl⟩

def SentOn (i : Nat) (r r' : NetRuntime) : Prop :=
  ∃ conn, (r.tcpConnections i).Sends conn ∧ r' = r.setConnection i conn

lemma SentOn.refl : SentOn i r r :=
  ⟨r.tcpConnections i, .refl, by rw [setConnection, Function.update_eq_self]⟩

lemma SentOn.segment {r' : NetRuntime} {chunk} (h : SentOn i r r') :
    SentOn i r (r'.setConnection i ((r'.tcpConnections i).sentSegment flags chunk)) := by
  obtain ⟨conn, hconn, rfl⟩ := h
  refine ⟨conn.sentSegment flags chunk, hconn.trans sentSegment_sends, ?_⟩
  rw [setConnection_self, setConnection, setConnection, Function.update_idem]
  rfl

/-- From `s` to `t` segments were sent on the active connection `i`, and nothing else happened. -/
structure Transmits (i : Nat) (s t : Server) : Prop where
  active : (s.runtime.tcpConnections i).active = true
  sent : SentOn i s.runtime t.runtime
  emits : Emits (fun seg => seg.On (s.runtime.tcpConnections i)) s t

namespace Transmits

variable {u : Server}

lemma start (h : (s.runtime.tcpConnections i).active = true) : Transmits i s s :=
  ⟨h, .refl, .none rfl⟩

lemma quiet (h : Transmits i s t) (hu : Quiet t u) : Transmits i s u := by
  refine ⟨h.active, hu.runtime ▸ h.sent, ?_⟩
  obtain ⟨new, ht, hnew⟩ := h.emits
  exact ⟨new, hu.segments.trans ht, hnew⟩

lemma segment {mac payload} (h : Transmits i s t) (hruntime : u.runtime = t.runtime)
    (hsegments : u.segments = t.runtime.segmentOn i mac flags payload :: t.segments) :
    Transmits i s u := by
  obtain ⟨conn, hconn, ht⟩ := h.sent
  have hself : t.runtime.tcpConnections i = conn := by rw [ht, setConnection_self]
  have hactive : (t.runtime.tcpConnections i).active = true := by
    rw [hself]
    exact hconn.active.trans h.active
  have hon := @segmentOn_on i _ flags mac payload hactive
  refine ⟨h.active, hruntime ▸ h.sent, h.emits.cons ⟨h.active, ?_⟩ hsegments⟩
  rw [← hconn.hasTriple, ← hself]
  exact hon.2

lemma counted {chunk} (h : Transmits i s t) :
    Transmits i s (t.setConnection i ((t.runtime.tcpConnections i).sentSegment flags chunk)) :=
  ⟨h.active, h.sent.segment, h.emits⟩

end Transmits

/-- The induction is on the bytes that remain. -/
lemma sendChunks_spec {mac remaining} :
    ∀ {sent offset : Nat} {t : Server}, Transmits i s t →
      ends (sendChunks session i mac flags sent offset remaining) (Transmits i s) t := by
  induction remaining using Nat.strongRecOn with
  | _ remaining ih =>
    intro sent offset t ht
    rw [sendChunks]
    refine wp_ite (fun _ => ht) fun hzero => ?_
    have hchunk : 0 < min remaining tcpPayloadMax := by
      rw [tcpPayloadMax]
      omega
    refine wp_touchShm fun u hu => ?_
    rw [wp_read]
    refine wp_emitTcpSegment fun answer v hruntime hsegments => ?_
    have hv : Transmits i s v := (ht.quiet hu).segment hruntime hsegments
    cases answer with
    | error e => exact hv
    | ok n => exact ih _ (by omega) hv.counted

lemma ownedBy_of_active {connectionId}
    (h : r.activeTcpConnectionIndex request.identifier connectionId = some i) :
    OwnedBy r request.identifier i := by
  unfold activeTcpConnectionIndex at h
  split at h
  · have hfound := List.find?_some h
    simpa [OwnedBy] using hfound
  · dsimp only at h
    split at h
    · rename_i hfound
      cases h
      simp only [and_eq_true, beq_iff_eq] at hfound
      exact hfound.1
    · cases h

def SentBy (identifier : Nat) (s t : Server) : Prop :=
  Quiet s t ∨ ∃ i, OwnedBy s.runtime identifier i ∧ Transmits i s t

lemma send_spec : ends (handleTcpSendRequest request) (SentBy request.identifier s) s := by
  have hquiet : SentBy request.identifier s s := .inl ⟨rfl, rfl⟩
  refine wp_session (fun session => ?_) hquiet
  refine wp_lookup hquiet fun i hi => wp_guard hquiet fun _ => ?_
  have howned := ownedBy_of_active hi
  refine wp_neighbour (fun mac => wp_ite (fun _ => ?_) fun _ => ?_) fun t ht => .inl ht
  · refine wp_emitTcpSegment fun answer t hruntime hsegments => ?_
    have ht : Transmits i s t := (Transmits.start howned.1).segment hruntime hsegments
    cases answer with
    | error e => exact .inr ⟨i, howned, ht⟩
    | ok n => exact .inr ⟨i, howned, ht.counted⟩
  · exact ends_mono (sendChunks_spec (.start howned.1)) fun t ht => .inr ⟨i, howned, ht⟩

/-! ### Receiving -/

def TcpConnection.Ended (conn : TcpConnection) (connectionId : Nat) : Prop :=
  conn.eofPending = true ∨ connectionId ≠ 0 ∧ conn.state = .closeWait

/-- What a successful receive request gives: bytes from the front of the buffer of one of the caller's
connections, or the end of one of them when nothing that was asked for is left to read, or nothing
because nothing was asked for. -/
inductive Received (r : NetRuntime) (request : ServiceRequest) :
    Response × List UInt8 → NetRuntime → Prop
  | nothing : Received r request (⟨.ok, 0, 0⟩, []) r
  | bytes {i limit : Nat} {bytes : List UInt8} {buffer : TcpRxBuffer} {q : TcpRxQueue} (valid : q.Valid)
      (bound : i < tcpMaxConnections) (full : (r.tcpRx.buffers i).len ≠ 0) (asked : limit ≠ 0)
      (owner : (r.tcpConnections i).ownerId = request.identifier)
      (read : (r.tcpRx.buffers i).ReadOff limit bytes buffer)
      (others : q.buffers = Function.update r.tcpRx.buffers i buffer) :
      Received r request (⟨.ok, bytes.length, (r.tcpConnections i).connectionId⟩, bytes)
        { r with tcpRx := q }
  | ended {i : Nat} {pending : Bool} {q : TcpRxQueue} (valid : q.Valid)
      (same : q.buffers = r.tcpRx.buffers) (owner : OwnedBy r request.identifier i)
      (ended : (r.tcpConnections i).Ended request.arg3.toNat)
      (left : ∀ j < tcpMaxConnections, (r.tcpRx.buffers j).len ≠ 0 →
        wantedBy r.tcpConnections request.identifier request.arg3.toNat j = false)
      (wanted : wantedBy r.tcpConnections request.identifier request.arg3.toNat i = true) :
      Received r request (⟨.ok, 0, (r.tcpConnections i).connectionId⟩, [])
        { r.setConnection i { r.tcpConnections i with eofPending := pending } with tcpRx := q }

def Turned (r r' : NetRuntime) : Prop :=
  ∃ q : TcpRxQueue, q.Valid ∧ q.buffers = r.tcpRx.buffers ∧ r' = { r with tcpRx := q }

/-- A segment of one of the caller's connections. -/
def SentFor (r : NetRuntime) (identifier : Nat) (seg : SentSegment) : Prop :=
  ∃ i, (r.tcpConnections i).ownerId = identifier ∧ seg.On (r.tcpConnections i)

lemma SentBy.emits {identifier} (h : SentBy identifier s t) :
    Emits (SentFor s.runtime identifier) s t := by
  rcases h with hquiet | ⟨i, howned, ht⟩
  · exact .none hquiet.segments
  · exact ht.emits.mono fun seg hseg => ⟨i, howned.2, hseg⟩

lemma wp_announceWindow {updated f} (hactive : (s.runtime.tcpConnections i).active = true)
    (h : ∀ t, t.runtime = s.runtime → Emits (fun seg => seg.On (s.runtime.tcpConnections i)) s t →
      wp (f ()) Q E t) : wp (announceWindow i updated >>= f) Q E s := by
  rw [wp_bind, announceWindow, wp_read]
  refine wp_ite (fun _ => ?_) fun _ => h s rfl (.none rfl)
  split
  · refine wp_emitTcpSegment fun _ t hruntime hsegments => h t hruntime ?_
    exact (Emits.none rfl).cons (segmentOn_on hactive) hsegments
  · exact h s rfl (.none rfl)

lemma of_ended (h : r.ended request.identifier request.arg3.toNat = some i) :
    OwnedBy r request.identifier i ∧ (r.tcpConnections i).Ended request.arg3.toNat ∧
      wantedBy r.tcpConnections request.identifier request.arg3.toNat i = true := by
  unfold ended at h
  have hfound := List.find?_some h
  simp only [and_eq_true, or_eq_true, beq_iff_eq, bne_iff_ne] at hfound
  obtain ⟨⟨howned, hended⟩, hid⟩ := hfound
  refine ⟨howned, hended, ?_⟩
  simp only [wantedBy, and_eq_true, or_eq_true, beq_iff_eq]
  exact ⟨howned.2, hid⟩

lemma reportEnd_spec {q} (hq : q.Valid) (hsame : q.buffers = r.tcpRx.buffers)
    (hs : s.runtime = { r with tcpRx := q })
    (hleft : ∀ j < tcpMaxConnections, (r.tcpRx.buffers j).len ≠ 0 →
      wantedBy r.tcpConnections request.identifier request.arg3.toNat j = false) :
    wp (reportEnd request)
      (fun response t => Received r request (response, []) t.runtime ∧ t.segments = s.segments)
      (fun _ t => Turned r t.runtime ∧ t.segments = s.segments) s := by
  have hconns : s.runtime.tcpConnections = r.tcpConnections := by rw [hs]
  refine wp_lookup ⟨⟨q, hq, hsame, hs⟩, rfl⟩ fun i hi => ?_
  obtain ⟨howned, hended, hwanted⟩ := of_ended hi
  rw [OwnedBy, hconns] at howned
  rw [hconns] at hended hwanted
  have hreport : ∀ pending, Received r request (⟨.ok, 0, (r.tcpConnections i).connectionId⟩, [])
      { r.setConnection i { r.tcpConnections i with eofPending := pending } with tcpRx := q } :=
    fun pending => .ended hq hsame howned hended hleft hwanted
  refine wp_ite (fun _ => ?_) fun _ => ?_
  · have hafter := hreport false
    simp only [Server.setConnection, hs]
    exact ⟨hafter, rfl⟩
  · rw [wp_pure, hconns, hs]
    have hafter := hreport (r.tcpConnections i).eofPending
    rw [setConnection, Function.update_eq_self] at hafter
    exact ⟨hafter, rfl⟩

lemma recv_spec (hs : Sound s.runtime) :
    wp (handleTcpRecvRequest request)
      (fun answer t => Received s.runtime request answer t.runtime ∧
        Emits (SentFor s.runtime request.identifier) s t)
      (fun _ t => Turned s.runtime t.runtime ∧ t.segments = s.segments) s := by
  have hstay : Turned s.runtime s.runtime := ⟨s.runtime.tcpRx, hs.rx, rfl, rfl⟩
  refine wp_session (fun session => ?_) ⟨hstay, rfl⟩
  refine wp_ite (fun _ => ⟨hstay, rfl⟩) fun _ => wp_ite (fun _ => ⟨.nothing, .none rfl⟩) fun hlimit => ?_
  refine wp_touchShm fun t ⟨ht, hsegments⟩ => ?_
  have hread := readFor_spec t.runtime.tcpConnections request.identifier request.arg3.toNat
    (ht ▸ hs.rx) hlimit
  rw [wp_read]
  generalize hresult : t.runtime.tcpRx.readFor t.runtime.tcpConnections request.identifier
    request.arg3.toNat (min request.arg2.toNat tcpPayloadMax) = result at hread ⊢
  rw [ht] at hread
  rw [wp_write]
  cases hread with
  | nothing valid same unwanted =>
    refine wp_then (reportEnd_spec valid same ?_ unwanted) (fun _ u hu => ?_) fun _ u hu => ?_
    · rw [ht]
    · exact ⟨hu.1, .none (hu.2.trans hsegments)⟩
    · exact ⟨hu.1, hu.2.trans hsegments⟩
  | @bytes i _ _ _ _ _ valid bound full wants read others =>
    simp only [wantedBy, and_eq_true, beq_iff_eq] at wants
    have hactive := hs.active_of_len full
    refine wp_touchShm fun u hu => wp_announceWindow ?_ fun v hv hemits => ?_
    · rw [hu.runtime, ht]
      exact hactive
    · obtain ⟨new, hnew, hon⟩ := hemits
      rw [hu.runtime, ht] at hon
      rw [wp_pure, hv, hu.runtime, ht]
      refine ⟨.bytes valid bound full hlimit wants.1 read others, new, ?_, fun seg hseg => ?_⟩
      · rw [hnew, hu.segments]
        exact congrArg (new ++ ·) hsegments
      · exact ⟨i, wants.1, hon seg hseg⟩

/-! ### Connecting -/

def ServiceRequest.Names (request : ServiceRequest) (conn : TcpConnection) : Prop :=
  TcpIndex.hasTriple conn request.peerIp request.peerPort request.localPort = true

/-- What a successful connect request does: it names a connection of the caller that exists, or opens
one when the caller has none with these addresses. -/
inductive Connected (r : NetRuntime) (request : ServiceRequest) : Response → NetRuntime → Prop
  | known {i id : Nat} (owner : OwnedBy r request.identifier i)
      (names : request.Names (r.tcpConnections i))
      (answer : id = (r.tcpConnections i).connectionId ∨ id = 0) : Connected r request ⟨.ok, id, 0⟩ r
  | opened {i : Nat} {r' : NetRuntime} (allocated : r.allocateTcpConnection = some i)
      (unknown : ∀ j < tcpMaxConnections, OwnedBy r request.identifier j →
        ¬request.Names (r.tcpConnections j))
      (places : Places i (connectConnection request i) r r') : Connected r request ⟨.ok, 0, 0⟩ r'

def GivenUp (r r' : NetRuntime) : Prop :=
  r' = r ∨ ∃ i, r.allocateTcpConnection = some i ∧ ResetAt i r r'

lemma of_ownConnection (h : r.ownConnection request.identifier request.peerIp
    request.peerPort request.localPort = some i) :
    OwnedBy r request.identifier i ∧ request.Names (r.tcpConnections i) := by
  unfold ownConnection at h
  have hfound := List.find?_some h
  simp only [and_eq_true, beq_iff_eq] at hfound
  exact hfound

lemma of_ownConnection_none (h : r.ownConnection request.identifier request.peerIp
    request.peerPort request.localPort = none) (hi : i < tcpMaxConnections)
    (howned : OwnedBy r request.identifier i) : ¬request.Names (r.tcpConnections i) := by
  intro hnames
  unfold ownConnection at h
  rw [List.find?_eq_none] at h
  refine h i (List.mem_range.mpr hi) ?_
  simp only [and_eq_true, beq_iff_eq]
  exact ⟨howned, hnames⟩

lemma connectConnection_serves {id} :
    (connectConnection request i id).Serves request.peerIp request.peerPort request.localPort :=
  ⟨rfl, TcpIndex.hasTriple_iff.mpr ⟨rfl, rfl, rfl⟩⟩

/-- The segment that asks for the connection of a connect request. -/
structure ServiceRequest.Syn (request : ServiceRequest) (seg : SentSegment) : Prop where
  dstIp : seg.dstIp = request.peerIp
  dstPort : seg.dstPort = request.peerPort
  srcPort : seg.srcPort = request.localPort
  flags : seg.flags = tcpFlagSyn
  payload : seg.payload = []

lemma openActive_spec (hs : Sound s.runtime)
    (hunknown : ∀ j < tcpMaxConnections, OwnedBy s.runtime request.identifier j →
      ¬request.Names (s.runtime.tcpConnections j)) :
    wp (openActive request)
      (fun response t => Connected s.runtime request response t.runtime ∧ Emits request.Syn s t)
      (fun _ t => GivenUp s.runtime t.runtime ∧ Emits request.Syn s t) s := by
  refine wp_neighbour (fun mac => ?_) fun t ht => ⟨.inl ht.runtime, .none ht.segments⟩
  refine wp_lookup ⟨.inl rfl, .none rfl⟩ fun i hi => ?_
  have hplaces : Places i (connectConnection request i) s.runtime
      (s.runtime.openConnection i request.peerIp request.peerPort request.localPort
        (connectConnection request i)) :=
    hs.openConnection (hs.of_allocate hi).1 (fun _ => connectConnection_serves) fun _ => rfl
  rw [wp_write, emitSyn, wp_read]
  refine wp_emitTcpSegment fun answer t ht hsegments => ?_
  have hemits : Emits request.Syn s t := (Emits.none rfl).cons ⟨rfl, rfl, rfl, rfl, rfl⟩ hsegments
  cases answer with
  | ok n =>
    rw [wp_pure, ht]
    exact ⟨.opened hi hunknown hplaces, hemits⟩
  | error e =>
    rw [wp_update]
    have hreset := hplaces.sound.resetAt (hs.of_allocate hi).1
    refine ⟨.inr ⟨i, hi, ?_⟩, hemits⟩
    rw [ht]
    exact ⟨hreset.sound, hplaces.same.trans hreset.same, hreset.empty⟩

lemma connect_spec (hs : Sound s.runtime) :
    wp (handleTcpConnectRequest request)
      (fun response t => Connected s.runtime request response t.runtime ∧ Emits request.Syn s t)
      (fun _ t => GivenUp s.runtime t.runtime ∧ Emits request.Syn s t) s := by
  have hgiven : GivenUp s.runtime s.runtime ∧ Emits request.Syn s s := ⟨.inl rfl, .none rfl⟩
  refine wp_session (fun session => wp_guard hgiven fun _ => ?_) hgiven
  rw [wp_read]
  cases hown : s.runtime.ownConnection request.identifier request.peerIp request.peerPort
      request.localPort with
  | some i =>
    obtain ⟨howned, hnames⟩ := of_ownConnection hown
    refine ⟨.known howned hnames ?_, .none rfl⟩
    split
    · exact .inl rfl
    · exact .inr rfl
  | none => exact openActive_spec hs fun j => of_ownConnection_none hown

/-! ### Sessions -/

/-- The connections, their index and the receive buffers are the same. -/
structure SameTcp (r r' : NetRuntime) : Prop where
  connections : r'.tcpConnections = r.tcpConnections
  index : r'.tcpIndex = r.tcpIndex
  rx : r'.tcpRx = r.tcpRx

lemma SameTcp.moves {r' P} (h : SameTcp r r') (hs : Sound r) : Moves P r r' := by
  refine ⟨⟨?_, ?_, fun i => ?_, ?_⟩, fun j _ => ?_, fun j _ => ?_⟩
  · rw [h.index, h.connections]
    exact hs.index
  · rw [h.rx]
    exact hs.rx
  · rw [h.connections, h.rx]
    exact hs.slots i
  · rw [h.index]
    exact hs.generations
  · rw [h.connections, h.rx]
    exact ⟨rfl, rfl⟩
  · rw [h.connections]
    exact .refl

lemma setSession_same {index} : SameTcp r (r.setSession index session) := ⟨rfl, rfl, rfl⟩

lemma bind_spec :
    ends (handleTcpBind request)
      (fun t => SameTcp s.runtime t.runtime ∧ t.segments = s.segments) s := by
  have hsame : SameTcp s.runtime s.runtime ∧ s.segments = s.segments := ⟨⟨rfl, rfl, rfl⟩, rfl⟩
  refine wp_lookup hsame fun index _ => ?_
  refine wp_guard hsame fun _ => wp_guard hsame fun _ => ?_
  exact wp_lookup hsame fun ports _ => ⟨⟨rfl, rfl, rfl⟩, rfl⟩

lemma unbind_spec :
    ends (handleTcpUnbind request)
      (fun t => SameTcp s.runtime t.runtime ∧ t.segments = s.segments) s := by
  have hsame : SameTcp s.runtime s.runtime ∧ s.segments = s.segments := ⟨⟨rfl, rfl, rfl⟩, rfl⟩
  refine wp_lookup hsame fun index _ => ?_
  exact wp_lookup hsame fun ports _ => ⟨⟨rfl, rfl, rfl⟩, rfl⟩

abbrev Closes (r r' : NetRuntime) : Prop := Moves (fun _ => True) r r'

lemma resetOwned_closes {ownerId indices r} (hs : Sound r) :
    Closes r (r.resetOwned ownerId indices) := by
  induction indices generalizing r with
  | nil => exact .refl hs
  | cons i indices ih =>
    rw [resetOwned, List.foldl_cons]
    split
    · have hreset : Closes r (r.tcpReset i) := hs.tcpReset.mono fun _ _ => trivial
      exact hreset.trans (ih hreset.sound)
    · exact ih hs

lemma cleanupClientSession_closes {index r} (hs : Sound r) :
    Closes r (r.cleanupClientSession index) := by
  rw [cleanupClientSession]
  split
  · exact .refl hs
  · have hqueues : Closes r (r.removeOwner (r.session index).callerId) :=
      SameTcp.moves ⟨rfl, rfl, rfl⟩ hs
    have hreset := @resetOwned_closes (r.session index).callerId (List.range tcpMaxConnections) _
      hqueues.sound
    exact hqueues.trans (hreset.trans (setSession_same.moves hreset.sound))

lemma cleanupStale_closes {gone r} (hs : Sound r) :
    Closes r (r.cleanupStaleClientSessions gone) := by
  rw [cleanupStaleClientSessions]
  generalize List.range clientSessionMax = indices
  induction indices generalizing r with
  | nil => exact .refl hs
  | cons i indices ih =>
    rw [List.foldl_cons]
    split
    · have hclean := @cleanupClientSession_closes i r hs
      exact hclean.trans (ih hclean.sound)
    · exact ih hs

lemma attach_spec {gone shared} (hs : Sound s.runtime) :
    ends (handleAttach request gone shared)
      (fun t => Closes s.runtime t.runtime ∧ t.segments = s.segments) s := by
  have hclean := @cleanupStale_closes gone _ hs
  unfold handleAttach ends
  rw [wp_update]
  refine wp_guard ⟨hclean, rfl⟩ fun _ => ?_
  cases shared with
  | error e => exact ⟨hclean, rfl⟩
  | ok addresses =>
    rw [wp_read]
    refine wp_lookup ⟨hclean, rfl⟩ fun index _ => ?_
    exact ⟨hclean.trans (setSession_same.moves hclean.sound), rfl⟩

end Nanami.Net
