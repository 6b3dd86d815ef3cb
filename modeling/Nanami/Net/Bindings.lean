import Nanami.Net.Frames
import Nanami.Net.RequestBounds

/-!
# Ports and identifiers of the sessions

A session takes TCP ports and UDP ports with a bind request and gives them back with an unbind request;
it takes an echo identifier by sending an echo to another host. All of it goes when the session is
replaced or cleaned up. The tables in the sessions hold 0 where nothing is set.

`Network` is the server with its requests and its frames, and with a record of what was taken and not
given back. The invariant `Bound` says that the tables show nothing else: every key in the table of a
session, 0 apart, is on record for it.
-/

namespace Nanami.Net

open Lib List Option Server NetRuntime

inductive Protocol where
  | tcp | udp | icmp
  deriving DecidableEq, Repr

namespace ClientSession

def keys (x : ClientSession) : Protocol → List UInt16
  | .tcp => x.tcpPorts
  | .udp => x.udpPorts
  | .icmp => x.icmpIdentifiers

def withKeys (x : ClientSession) (protocol : Protocol) (keys : List UInt16) : ClientSession :=
  match protocol with
  | .tcp => { x with tcpPorts := keys }
  | .udp => { x with udpPorts := keys }
  | .icmp => { x with icmpIdentifiers := keys }

variable {x : ClientSession}

@[simp] lemma keys_withKeys {protocol keys} : (x.withKeys protocol keys).keys protocol = keys := by
  cases protocol <;> rfl

lemma keys_withKeys_ne {protocol other keys} (h : other ≠ protocol) :
    (x.withKeys protocol keys).keys other = x.keys other := by
  cases protocol <;> cases other <;> first | rfl | exact absurd rfl h

end ClientSession

open ClientSession

/-! ### The requests -/

def NetRuntime.keyTaken (r : NetRuntime) (protocol : Protocol) (index : Nat) (key : UInt16) : Bool :=
  r.sessions.zipIdx.any fun e => e.2 != index && e.1.active && (e.1.keys protocol).contains key

def handlePortBind (protocol : Protocol) (request : ServiceRequest) : Handler Response := do
  let s ← get
  let index ← okOr (s.runtime.sessionIndex request.identifier) ⟨.permissionDenied, 0, 0⟩
  let port := request.arg1.toUInt16
  if port = 0 then reject .invalidArgument
  else if s.runtime.keyTaken protocol index port then reject .illegalOperation
  else do
    let session := s.runtime.session index
    let ports ← okOr (bindPort (session.keys protocol) port) ⟨.illegalOperation, 0, 0⟩
    set (s.withRuntime (s.runtime.setSession index (session.withKeys protocol ports)))
    pure ⟨.ok, port.toNat, 0⟩

def handlePortUnbind (protocol : Protocol) (request : ServiceRequest) : Handler Response := do
  let s ← get
  let index ← okOr (s.runtime.sessionIndex request.identifier) ⟨.permissionDenied, 0, 0⟩
  let session := s.runtime.session index
  let ports ← okOr (unbindPort (session.keys protocol) request.arg1.toUInt16) ⟨.ok, 0, 0⟩
  set (s.withRuntime (s.runtime.setSession index (session.withKeys protocol ports)))
  pure ⟨.ok, 1, 0⟩

/-- `NET_SERVICE_CONTROL_UDP_BIND`. -/
def handleUdpBind (request : ServiceRequest) : Handler Response := handlePortBind .udp request

/-- `NET_SERVICE_CONTROL_UDP_UNBIND`. -/
def handleUdpUnbind (request : ServiceRequest) : Handler Response := handlePortUnbind .udp request

/-! ### The server and its record -/

structure Binding where
  slot : Nat
  protocol : Protocol
  key : UInt16
  deriving DecidableEq, Repr

structure Network where
  server : Server
  arpNext : Nat
  dhcp : DhcpState
  dns : DnsState
  bindings : List Binding

/-- One request or one arriving frame. What the server asks for itself, and the addresses it gets, are
an event of their own. -/
inductive NetEvent where
  | attach (request : ServiceRequest) (gone : Nat → Bool) (shared : Except RequestError (Word × Word))
  | tcpBind (request : ServiceRequest)
  | tcpUnbind (request : ServiceRequest)
  | udpBind (request : ServiceRequest)
  | udpUnbind (request : ServiceRequest)
  | connect (request : ServiceRequest)
  | request (env : Surroundings) (kind : RequestKind) (request : ServiceRequest)
  | configure (dhcp : DhcpState) (dns : DnsState) (ip subnetMask gatewayIp dnsIp : Ipv4)
  | frame (bytes : List UInt8)

namespace Network

def station (n : Network) : Station := ⟨n.server.runtime, n.arpNext, n.dhcp, n.dns, []⟩

def receive (n : Network) (bytes : List UInt8) : Network :=
  let t := stateAfter (receiveFrame bytes) n.station
  { n with server := n.server.withRuntime t.runtime, arpNext := t.arpNext, dhcp := t.dhcp, dns := t.dns }

def stale (s : Server) (gone : Nat → Bool) : List Nat :=
  (List.range clientSessionMax).filter fun i =>
    (s.runtime.session i).active && gone (s.runtime.session i).callerId

/-- The slots that an attach request clears: those of processes that are gone, and its own. -/
def released (s : Server) (request : ServiceRequest) (gone : Nat → Bool)
    (shared : Except RequestError (Word × Word)) : List Nat :=
  if succeeds (handleAttach request gone shared) s then
    stale s gone ++ ((s.runtime.cleanupStaleClientSessions gone).attachSlot request.identifier).toList
  else stale s gone

def taken (s : Server) (protocol : Protocol) (request : ServiceRequest) : List Binding :=
  if succeeds (handlePortBind protocol request) s then
    (s.runtime.sessionIndex request.identifier).toList.map (⟨·, protocol, request.arg1.toUInt16⟩)
  else []

def given (s : Server) (protocol : Protocol) (request : ServiceRequest) : List Binding :=
  (s.runtime.sessionIndex request.identifier).toList.map (⟨·, protocol, request.arg1.toUInt16⟩)

def sendsEcho (s : Server) (request : ServiceRequest) : Bool :=
  match s.runtime.sessionFor request.identifier with
  | none => false
  | some session =>
    let payloadLen := request.arg1.toNat
    let destination := request.arg3.toUInt32
    !(payloadLen < 8 || payloadLen > icmpPayloadMax || outside session request.arg0.toNat payloadLen) &&
      !(destination >>> 24 = 127 || destination = s.runtime.ip) &&
      (s.runtime.arpLookup (s.runtime.nextHopIp destination)).isSome

def echoed (s : Server) (request : ServiceRequest) : List Binding :=
  if sendsEcho s request then
    (s.runtime.sessionIndex request.identifier).toList.map (⟨·, .icmp, request.arg2.toUInt16⟩)
  else []

def record (n : Network) : NetEvent → List Binding
  | .attach request gone shared =>
    n.bindings.filter fun b => b.slot ∉ released n.server request gone shared
  | .tcpBind request => taken n.server .tcp request ++ n.bindings
  | .tcpUnbind request => n.bindings.filter (· ∉ given n.server .tcp request)
  | .udpBind request => taken n.server .udp request ++ n.bindings
  | .udpUnbind request => n.bindings.filter (· ∉ given n.server .udp request)
  | .request _ .icmpSend request => echoed n.server request ++ n.bindings
  | _ => n.bindings

def serve (n : Network) : NetEvent → Network
  | .attach request gone shared =>
    { n with server := stateAfter (handleAttach request gone shared) n.server }
  | .tcpBind request => { n with server := stateAfter (handleTcpBind request) n.server }
  | .tcpUnbind request => { n with server := stateAfter (handleTcpUnbind request) n.server }
  | .udpBind request => { n with server := stateAfter (handleUdpBind request) n.server }
  | .udpUnbind request => { n with server := stateAfter (handleUdpUnbind request) n.server }
  | .connect request => { n with server := stateAfter (handleTcpConnectRequest request) n.server }
  | .request env kind request =>
    { n with server := stateAfter (handleNetworkRequest env request kind) n.server }
  | .configure dhcp dns ip subnetMask gatewayIp dnsIp =>
    let runtime := { n.server.runtime with
      ip := ip, subnetMask := subnetMask, gatewayIp := gatewayIp, dnsIp := dnsIp }
    { n with server := n.server.withRuntime runtime, dhcp := dhcp, dns := dns }
  | .frame bytes => n.receive bytes

def step (n : Network) (event : NetEvent) : Network :=
  { n.serve event with bindings := n.record event }

def run (n : Network) (events : List NetEvent) : Network := events.foldl step n

/-- The server as it starts: no session, and nothing taken. -/
structure Starts (n : Network) : Prop where
  sessions : n.server.runtime.sessions = List.replicate clientSessionMax .empty
  bindings : n.bindings = []

end Network

open Network

/-! ### Tables of keys -/

def Distinct (keys : List UInt16) : Prop :=
  ∀ (i j : Nat) (key : UInt16), keys[i]? = some key → keys[j]? = some key → key ≠ 0 → i = j

section Keys

variable {keys left : List UInt16} {key other : UInt16} {i j : Nat}

lemma getElem?_set_cases (h : (keys.set i key)[j]? = some other) :
    (j = i ∧ other = key) ∨ (j ≠ i ∧ keys[j]? = some other) := by
  by_cases hj : i = j
  · subst hj
    rw [getElem?_set_self'] at h
    obtain ⟨_, _, hother⟩ := map_eq_some_iff.mp h
    exact .inl ⟨rfl, hother.symm⟩
  · rw [getElem?_set_ne hj] at h
    exact .inr ⟨Ne.symm hj, h⟩

lemma Distinct.set (h : Distinct keys) (hn : key = 0 ∨ key ∉ keys) : Distinct (keys.set i key) := by
  intro j k other hj hk hne
  have hmem : ∀ l : Nat, keys[l]? = some other → other ≠ key := by
    rintro l hl rfl
    exact hn.elim hne fun hout => hout (mem_of_getElem? hl)
  obtain ⟨hji, hset⟩ | ⟨-, hj⟩ := getElem?_set_cases hj
  · obtain ⟨hki, -⟩ | ⟨-, hk⟩ := getElem?_set_cases hk
    · exact hji.trans hki.symm
    · exact absurd hset (hmem k hk)
  · obtain ⟨-, hset⟩ | ⟨-, hk⟩ := getElem?_set_cases hk
    · exact absurd hset (hmem j hj)
    · exact h j k other hj hk hne

lemma distinct_zeros {n} : Distinct (List.replicate n 0) := by
  intro i j key hi _ hne
  rw [getElem?_replicate] at hi
  split at hi
  · exact absurd (Option.some.inj hi).symm hne
  · cases hi

lemma bindPort_spec (hd : Distinct keys) (h : bindPort keys key = some left) :
    Distinct left ∧ ∀ other ∈ left, other = key ∨ other ∈ keys := by
  rw [bindPort] at h
  split at h
  · cases h
    exact ⟨hd, fun _ hm => .inr hm⟩
  · next hn =>
    obtain ⟨slot, -, rfl⟩ := map_eq_some_iff.mp h
    refine ⟨hd.set (.inr ?_), fun _ hm => (mem_or_eq_of_mem_set hm).symm⟩
    simpa using hn

lemma unbindPort_spec (hd : Distinct keys) (h : unbindPort keys key = some left) :
    Distinct left ∧ ∀ other ∈ left, other ≠ 0 → other ∈ keys ∧ other ≠ key := by
  obtain ⟨slot, hslot, rfl⟩ := map_eq_some_iff.mp h
  refine ⟨hd.set (.inl rfl), fun other hm hne => ?_⟩
  obtain ⟨hlt, hkey, -⟩ := findIdx?_eq_some_iff_getElem.mp hslot
  have hat : keys[slot]? = some key := by
    rw [getElem?_eq_getElem hlt, eq_of_beq hkey]
  obtain ⟨j, hj⟩ := mem_iff_getElem?.mp hm
  obtain ⟨-, rfl⟩ | ⟨hout, hj⟩ := getElem?_set_cases hj
  · exact absurd rfl hne
  · refine ⟨mem_of_getElem? hj, ?_⟩
    rintro rfl
    exact hout (hd j slot other hj hat hne)

lemma rememberIdentifier_spec (hd : Distinct keys) :
    Distinct (rememberIdentifier keys key) ∧
      ∀ other ∈ rememberIdentifier keys key, other = key ∨ other ∈ keys := by
  rw [rememberIdentifier]
  split
  · exact ⟨hd, fun _ hm => .inr hm⟩
  · next hn =>
    refine ⟨hd.set (.inr ?_), fun _ hm => (mem_or_eq_of_mem_set hm).symm⟩
    simpa using hn

end Keys

/-! ### The tables that a request leaves as they are -/

def ClientSession.table (x : ClientSession) : Bool × (Protocol → List UInt16) := (x.active, x.keys)

def Server.tables (s : Server) : List (Bool × (Protocol → List UInt16)) :=
  s.runtime.sessions.map table

section Requests

variable {request : ServiceRequest} {session : ClientSession} {s : Server} {index length : Nat}

@[simp] lemma tcpReset_sessions {r : NetRuntime} : (r.tcpReset index).sessions = r.sessions := by
  rw [tcpReset]
  split <;> rfl

@[simp] lemma openConnection_sessions {r : NetRuntime} {ip peerPort localPort}
    {conn : Nat → TcpConnection} :
    (r.openConnection index ip peerPort localPort conn).sessions = r.sessions :=
  tcpReset_sessions

lemma tables_updateSession {callerId change} (h : ∀ x, (change x).table = x.table) :
    (s.updateSession callerId change).tables = s.tables := by
  rw [updateSession]
  cases hindex : s.runtime.sessionIndex callerId with
  | none => rfl
  | some index =>
    obtain ⟨hlt, -, -⟩ := findIdx?_eq_some_iff_getElem.mp hindex
    simp only [tables, setSession, session, map_set, h,
      getElem?_eq_getElem hlt, getD_some]
    exact ext_getElem? fun i => by grind

lemma touch_tables {start} : Preserves tables (touch start length) :=
  .modify fun _ => rfl

lemma touchShm_tables {offset} : Preserves tables (touchShm session offset length) :=
  touch_tables

lemma emitFrame_tables : Preserves tables (emitFrame length) := by
  refine .get fun s => Preserves.after ?_ rfl
  refine .bind touch_tables fun _ => ?_
  exact .bind (.modify fun _ => rfl) fun _ => .pure

lemma requireSession_tables {identifier} : Preserves tables (requireSession identifier) :=
  .get fun s => Preserves.okOr s

lemma requireNeighbour_tables {destination status} :
    Preserves tables (requireNeighbour destination status) := by
  refine .get fun s => ?_
  split
  · exact Preserves.pure s
  · exact Preserves.after (.bind emitFrame_tables fun _ => .throw) rfl

lemma emitTcpSegment_tables {seg} : Preserves tables (emitTcpSegment seg) :=
  .bind (.modify fun _ => rfl) fun _ => emitFrame_tables

lemma sent_tables {emit : Handler (Except RequestError Nat)}
    {f : Except RequestError Nat → Handler Response}
    (hemit : Preserves tables emit) (hok : ∀ sent, Preserves tables (f (.ok sent)))
    (herr : ∀ e, Preserves tables (f (.error e))) : Preserves tables (emit >>= f) := by
  refine .bind hemit fun answer => ?_
  cases answer with
  | ok sent => exact hok sent
  | error e => exact herr e

lemma handleSend_tables : Preserves tables (handleSend request) := by
  refine .bind requireSession_tables fun session => .ite .throw ?_
  refine .bind touchShm_tables fun _ => ?_
  exact sent_tables emitFrame_tables (fun _ => .pure) fun _ => .throw

lemma handleRecv_tables {pumped} : Preserves tables (handleRecv request pumped) := by
  refine .bind requireSession_tables fun session => ?_
  refine .bind (.modify fun _ => tables_updateSession fun _ => rfl) fun _ => ?_
  refine .get fun s => ?_
  rw [wp_write]
  refine Preserves.after (.bind .okOr fun entry => ?_) rfl
  refine .ite .throw ?_
  exact .ite (.bind touchShm_tables fun _ => .pure) .pure

lemma handleTcpAccept_tables : Preserves tables (handleTcpAcceptRequest request) := by
  refine .bind requireSession_tables fun session => .ite .throw ?_
  refine .get fun s => ?_
  refine wp_lookup rfl fun index _ => ?_
  rw [wp_write]
  exact Preserves.after (.bind touchShm_tables fun _ => .pure) rfl

lemma sendChunks_tables {mac flags remaining} :
    ∀ {sent offset : Nat},
      Preserves tables (sendChunks session index mac flags sent offset remaining) := by
  induction remaining using Nat.strongRecOn with
  | _ remaining ih =>
    intro sent offset
    rw [sendChunks]
    split
    · exact .pure
    · refine .bind touchShm_tables fun _ => .get fun s => Preserves.after ?_ rfl
      refine sent_tables emitTcpSegment_tables (fun _ => ?_) fun _ => .throw
      refine .bind (.modify fun _ => rfl) fun _ => ih _ ?_
      simp only [tcpPayloadMax]
      omega

lemma handleTcpSend_tables : Preserves tables (handleTcpSendRequest request) := by
  refine .bind requireSession_tables fun session => .get fun s => ?_
  refine Preserves.after (.bind .okOr fun index => ?_) rfl
  refine .ite .throw ?_
  refine .bind requireNeighbour_tables fun _ => .ite ?_ sendChunks_tables
  refine sent_tables emitTcpSegment_tables (fun _ => ?_) fun _ => .throw
  exact .bind (.modify fun _ => rfl) fun _ => .pure

lemma announceWindow_tables {windowUpdated} : Preserves tables (announceWindow index windowUpdated) := by
  refine .get fun _ => Preserves.after (.ite ?_ .pure) rfl
  split
  · exact .bind emitTcpSegment_tables fun _ => .pure
  · exact .pure

lemma reportEnd_tables : Preserves tables (reportEnd request) := by
  refine .get fun s => ?_
  refine wp_lookup rfl fun index _ => wp_ite (fun _ => ?_) (fun _ => Preserves.pure s)
  rw [wp_write]
  exact Preserves.after .pure rfl

lemma handleTcpRecv_tables : Preserves tables (handleTcpRecvRequest request) := by
  refine .bind requireSession_tables fun session => .ite .throw ?_
  refine .ite .pure (.bind touchShm_tables fun _ => .get fun s => ?_)
  rw [wp_write]
  split
  · refine Preserves.after (.bind touchShm_tables fun _ => ?_) rfl
    exact .bind announceWindow_tables fun _ => .pure
  · exact Preserves.after (.bind reportEnd_tables fun _ => .pure) rfl

lemma handleUdpSend_tables : Preserves tables (handleUdpSend request) := by
  refine .bind requireSession_tables fun session => .ite .throw ?_
  refine .ite .throw (.bind requireNeighbour_tables fun _ => ?_)
  refine .bind touchShm_tables fun _ => ?_
  exact sent_tables emitFrame_tables (fun _ => .pure) fun _ => .throw

lemma deliver_tables {max metaLen} {entry : RxEntry max} :
    Preserves tables (deliver session request metaLen entry) := by
  refine .ite .throw (.bind touchShm_tables fun _ => ?_)
  exact .bind touchShm_tables fun _ => .pure

lemma handleUdpRecv_tables : Preserves tables (handleUdpRecvRequest request) := by
  refine .bind requireSession_tables fun session => .get fun s => ?_
  rw [wp_write]
  exact Preserves.after (.bind .okOr fun _ => deliver_tables) rfl

lemma handleIcmpRecv_tables : Preserves tables (handleIcmpRecvRequest request) := by
  refine .bind requireSession_tables fun session => .get fun s => ?_
  rw [wp_write]
  exact Preserves.after (.bind .okOr fun _ => deliver_tables) rfl

lemma askNeighbour_tables {destination} : Preserves tables (askNeighbour destination) :=
  .get fun _ => Preserves.after
    (.ite .pure (.bind emitFrame_tables fun _ => .pure)) rfl

lemma handleDnsQuery_tables {neighbour answer} :
    Preserves tables (handleDnsQueryRequest request neighbour answer) := by
  refine .bind requireSession_tables fun session => .ite .throw ?_
  refine .ite .throw (.ite .throw ?_)
  refine .bind touchShm_tables fun _ => .get fun s => ?_
  refine Preserves.after (.bind askNeighbour_tables fun _ => ?_) rfl
  refine .ite .throw ?_
  split
  · exact .throw
  · refine sent_tables emitFrame_tables (fun _ => ?_) fun _ => .throw
    cases answer with
    | error e => exact .throw
    | ok ip => exact .bind touchShm_tables fun _ => .pure

lemma handleSnapshot_tables {fits} : Preserves tables (handleSnapshotRequest request fits) := by
  refine .bind requireSession_tables fun session => .ite .throw ?_
  refine .bind touchShm_tables fun _ => ?_
  cases fits with
  | none => exact .throw
  | some count => exact .pure

lemma queueEcho_tables {payloadLen} : Preserves tables (queueEcho request payloadLen) := by
  rw [queueEcho]
  split
  · exact .modify fun _ => rfl
  · exact .pure

/-- An echo is remembered when it is sent. -/
lemma handleIcmpSend_tables :
    ends (handleIcmpSend request)
      (fun t => t.tables = (if sendsEcho s request then
        s.remember request.identifier request.arg2.toUInt16 else s).tables) s := by
  rw [ends, handleIcmpSend, wp_read, wp_bind]
  refine wp_okOr (fun session hses => ?_) (fun hnone => ?_)
  · refine wp_ite (fun hbad => ?_) (fun hgood => ?_)
    · have hno : sendsEcho s request = false := by simp [sendsEcho, hses, hbad]
      rw [hno]
      exact Preserves.throw s
    · refine wp_ite (fun hlocal => ?_) (fun hremote => ?_)
      · have hno : sendsEcho s request = false := by simp [sendsEcho, hses, hlocal]
        rw [hno]
        refine Preserves.after (.bind touchShm_tables fun _ => ?_) rfl
        exact .bind queueEcho_tables fun _ => .pure
      · rw [requireNeighbour, wp_bind, wp_read]
        cases hmac : s.runtime.arpLookup (s.runtime.nextHopIp request.arg3.toUInt32) with
        | none =>
          have hno : sendsEcho s request = false := by simp [sendsEcho, hses, hmac]
          rw [hno]
          exact wp_seq (emitFrame_tables s) (fun _ _ ht => ht)
        | some mac =>
          have hyes : sendsEcho s request = true := by
            simp only [sendsEcho, hses, hgood, hremote, hmac, isSome_some]
            rfl
          rw [hyes, if_pos rfl, wp_pure, wp_update]
          refine Preserves.after (.bind touchShm_tables fun _ => ?_) rfl
          exact sent_tables emitFrame_tables (fun _ => .pure) fun _ => .throw
  · have hno : sendsEcho s request = false := by simp [sendsEcho, hnone]
    rw [hno]
    rfl

lemma handle_tables {env kind} (hk : kind ≠ .icmpSend) :
    Preserves tables (handleNetworkRequest env request kind) := by
  cases kind with
  | send => exact handleSend_tables
  | recv => exact handleRecv_tables
  | tcpAccept => exact handleTcpAccept_tables
  | tcpSend => exact handleTcpSend_tables
  | tcpRecv => exact .map handleTcpRecv_tables
  | udpSend => exact handleUdpSend_tables
  | udpRecv => exact handleUdpRecv_tables
  | icmpSend => exact absurd rfl hk
  | icmpRecv => exact handleIcmpRecv_tables
  | dnsQuery => exact handleDnsQuery_tables
  | arpSnapshot => exact handleSnapshot_tables

lemma emitSyn_tables {mac} : Preserves tables (emitSyn request index mac) := by
  refine .get fun s => Preserves.after ?_ rfl
  refine sent_tables emitTcpSegment_tables (fun _ => .pure) fun _ => ?_
  refine .bind (.modify fun s => ?_) fun _ => .throw
  simp only [tables, withRuntime, tcpReset_sessions]

lemma handleTcpConnect_tables : Preserves tables (handleTcpConnectRequest request) := by
  refine .bind requireSession_tables fun _ => .ite .throw ?_
  refine .get fun s => ?_
  split
  · exact Preserves.pure s
  · refine Preserves.after (.bind requireNeighbour_tables fun _ => .get fun t => ?_) rfl
    refine wp_lookup rfl fun index _ => ?_
    rw [wp_write]
    refine Preserves.after emitSyn_tables ?_
    simp only [tables, withRuntime, openConnection_sessions]

end Requests

/-! ### The record and the tables -/

/-- The tables of the sessions show nothing that is not on record. -/
structure Bound (sessions : List ClientSession) (bindings : List Binding) : Prop where
  recorded : ∀ (i : Nat) x, sessions[i]? = some x → x.active → ∀ protocol, ∀ key ∈ x.keys protocol,
    key ≠ 0 → ⟨i, protocol, key⟩ ∈ bindings
  distinct : ∀ x ∈ sessions, ∀ protocol, Distinct (x.keys protocol)

section Bound

variable {sessions left : List ClientSession} {bindings after : List Binding} {x : ClientSession}
  {index : Nat} {s : Server} {request : ServiceRequest} {protocol : Protocol}

lemma Bound.of_getElem? (h : ∀ (i : Nat) x, sessions[i]? = some x → ∀ protocol,
    Distinct (x.keys protocol) ∧
      (x.active → ∀ key ∈ x.keys protocol, key ≠ 0 → ⟨i, protocol, key⟩ ∈ bindings)) :
    Bound sessions bindings := by
  refine ⟨fun i x hx hactive protocol => (h i x hx protocol).2 hactive, fun x hx protocol => ?_⟩
  obtain ⟨i, hi⟩ := mem_iff_getElem?.mp hx
  exact (h i x hi protocol).1

lemma Bound.of_tables (h : Bound sessions bindings) (ht : left.map table = sessions.map table)
    (hsub : bindings ⊆ after) : Bound left after := by
  refine .of_getElem? fun i y hy protocol => ?_
  have hi : (sessions.map table)[i]? = some y.table := by
    rw [← ht, getElem?_map, hy, map_some]
  rw [getElem?_map] at hi
  obtain ⟨x, hx, htable⟩ := map_eq_some_iff.mp hi
  obtain ⟨ha, hkeys⟩ := Prod.mk.inj htable
  rw [← ha, ← hkeys]
  exact ⟨h.distinct x (mem_of_getElem? hx) protocol, fun hactive key hkey hne =>
    hsub (h.recorded i x hx hactive protocol key hkey hne)⟩

lemma Bound.set (h : Bound sessions bindings) (hd : ∀ protocol, Distinct (x.keys protocol))
    (hx : x.active → ∀ protocol, ∀ key ∈ x.keys protocol, key ≠ 0 → ⟨index, protocol, key⟩ ∈ after)
    (hrest : ∀ b ∈ bindings, b.slot ≠ index → b ∈ after) : Bound (sessions.set index x) after := by
  refine .of_getElem? fun i y hy protocol => ?_
  by_cases hi : index = i
  · subst hi
    rw [getElem?_set_self'] at hy
    obtain ⟨_, -, rfl⟩ := map_eq_some_iff.mp hy
    exact ⟨hd protocol, fun hactive => hx hactive protocol⟩
  · rw [getElem?_set_ne hi] at hy
    exact ⟨h.distinct y (mem_of_getElem? hy) protocol, fun hactive key hkey hne =>
      hrest _ (h.recorded i y hy hactive protocol key hkey hne) (Ne.symm hi)⟩

section

variable (h : Bound sessions bindings) (hindex : sessions[index]? = some x)
include h hindex

lemma Bound.setKeys {keys} (hactive : x.active) (hd : Distinct keys)
    (hkeys : ∀ key ∈ keys, key ≠ 0 → ⟨index, protocol, key⟩ ∈ after)
    (hrest : ∀ b ∈ bindings, b.slot ≠ index ∨ b.protocol ≠ protocol → b ∈ after) :
    Bound (sessions.set index (x.withKeys protocol keys)) after := by
  have hmem := mem_of_getElem? hindex
  refine h.set (fun other => ?_) (fun _ other key hkey hne => ?_) fun b hb hslot =>
    hrest b hb (.inl hslot)
  · by_cases ho : other = protocol
    · subst ho
      rwa [keys_withKeys]
    · rw [keys_withKeys_ne ho]
      exact h.distinct x hmem other
  · by_cases ho : other = protocol
    · subst ho
      rw [keys_withKeys] at hkey
      exact hkeys key hkey hne
    · rw [keys_withKeys_ne ho] at hkey
      exact hrest _ (h.recorded index x hindex hactive other key hkey hne) (.inr ho)

lemma Bound.addKey {keys key}
    (hactive : x.active) (hkeys : Distinct keys ∧ ∀ k ∈ keys, k = key ∨ k ∈ x.keys protocol) :
    Bound (sessions.set index (x.withKeys protocol keys)) (⟨index, protocol, key⟩ :: bindings) := by
  refine h.setKeys hindex hactive hkeys.1 (fun k hk hne => ?_) fun b hb _ => mem_cons_of_mem _ hb
  obtain rfl | hold := hkeys.2 k hk
  · exact mem_cons_self
  · exact mem_cons_of_mem _ (h.recorded index x hindex hactive protocol k hold hne)

lemma Bound.forget {key}
    (hout : key ∉ x.keys protocol) : Bound sessions (bindings.filter (· ∉ [⟨index, protocol, key⟩])) := by
  refine ⟨fun i y hy hactive other k hk hne => ?_, h.distinct⟩
  refine mem_filter.mpr ⟨h.recorded i y hy hactive other k hk hne, ?_⟩
  rw [decide_eq_true_eq, mem_singleton]
  rintro heq
  obtain ⟨rfl, rfl, rfl⟩ := Binding.mk.inj heq
  obtain rfl := Option.some.inj (hindex.symm.trans hy)
  exact hout hk

end

variable {r : NetRuntime} {gone : Nat → Bool}

lemma sessionIndex_spec {callerId} (h : r.sessionIndex callerId = some index) :
    r.sessions[index]? = some (r.session index) ∧ (r.session index).active = true := by
  obtain ⟨hlt, hwanted, -⟩ := findIdx?_eq_some_iff_getElem.mp h
  rw [session, getElem?_eq_getElem hlt, getD_some]
  exact ⟨rfl, ((Bool.and_eq_true_iff).mp hwanted).1⟩

lemma handlePortBind_bound (h : Bound s.runtime.sessions bindings) :
    Bound (stateAfter (handlePortBind protocol request) s).runtime.sessions
      (taken s protocol request ++ bindings) := by
  have hkept : Bound s.runtime.sessions (taken s protocol request ++ bindings) :=
    h.of_tables rfl (subset_append_right _ _)
  have hspec : wp (handlePortBind protocol request)
      (fun _ t => ∃ index ports, s.runtime.sessionIndex request.identifier = some index ∧
        bindPort ((s.runtime.session index).keys protocol) request.arg1.toUInt16 = some ports ∧
        t.runtime.sessions =
          s.runtime.sessions.set index ((s.runtime.session index).withKeys protocol ports))
      (fun _ t => t = s) s := by
    refine wp_lookup rfl fun index hindex => ?_
    refine wp_guard rfl fun _ => wp_guard rfl fun _ => ?_
    refine wp_lookup rfl fun ports hports => ?_
    exact ⟨index, ports, hindex, hports, rfl⟩
  cases hm : handlePortBind protocol request s with
  | error e t =>
    have ht := wp_error hspec hm
    rw [stateAfter, hm]
    exact ht ▸ hkept
  | ok a t =>
    obtain ⟨index, ports, hindex, hports, hsessions⟩ := wp_ok hspec hm
    obtain ⟨hget, hactive⟩ := sessionIndex_spec hindex
    have htaken : taken s protocol request = [⟨index, protocol, request.arg1.toUInt16⟩] := by
      simp [taken, succeeds_of_ok hm, hindex]
    rw [stateAfter, hm, hsessions, htaken]
    have hd := h.distinct _ (mem_of_getElem? hget) protocol
    exact h.addKey hget hactive (bindPort_spec hd hports)

lemma handlePortUnbind_bound (h : Bound s.runtime.sessions bindings) :
    Bound (stateAfter (handlePortUnbind protocol request) s).runtime.sessions
      (bindings.filter (· ∉ given s protocol request)) := by
  refine stateAfter_of_wp (P := fun t : Server => Bound t.runtime.sessions _) ?_
  rw [ends, handlePortUnbind, wp_read, wp_bind]
  refine wp_okOr (fun index hindex => ?_) (fun hnone => ?_)
  · obtain ⟨hget, hactive⟩ := sessionIndex_spec hindex
    have hd := h.distinct _ (mem_of_getElem? hget) protocol
    have hgiven : given s protocol request = [⟨index, protocol, request.arg1.toUInt16⟩] := by
      simp [given, hindex]
    rw [wp_bind, hgiven]
    refine wp_okOr (fun ports hports => ?_) (fun hnone => ?_)
    · obtain ⟨hd', hleft⟩ := unbindPort_spec hd hports
      refine h.setKeys hget hactive hd' (fun key hkey hne => ?_) fun b hb hother => ?_
      · obtain ⟨hold, hkept⟩ := hleft key hkey hne
        have hrec := h.recorded index _ hget hactive protocol key hold hne
        simpa using ⟨hrec, hkept⟩
      · refine mem_filter.mpr ⟨hb, ?_⟩
        rw [decide_eq_true_eq, mem_singleton]
        rintro rfl
        exact hother.elim (· rfl) (· rfl)
    · refine h.forget hget fun hmem => ?_
      rw [unbindPort, map_eq_none_iff, findIdx?_eq_none_iff] at hnone
      simpa using hnone _ hmem
  · have hgiven : given s protocol request = [] := by simp [given, hnone]
    rw [hgiven]
    simpa using h

def ClientSession.cleared (gone : Nat → Bool) (x : ClientSession) : ClientSession :=
  if x.active && gone x.callerId then .empty else x

lemma cleared_stale (h : (x.active && gone x.callerId) = true) : x.cleared gone = .empty := if_pos h

lemma cleared_fresh (h : ¬(x.active && gone x.callerId) = true) : x.cleared gone = x := if_neg h

lemma cleared_cleared : (x.cleared gone).cleared gone = x.cleared gone := by
  by_cases h : (x.active && gone x.callerId) = true
  · rw [cleared_stale h]
    exact cleared_fresh Bool.false_ne_true
  · rw [cleared_fresh h, cleared_fresh h]

lemma resetOwned_sessions {ownerId indices} :
    (r.resetOwned ownerId indices).sessions = r.sessions := by
  rw [resetOwned]
  induction indices generalizing r with
  | nil => rfl
  | cons i indices ih =>
    rw [foldl_cons, ih]
    split
    · exact tcpReset_sessions
    · rfl

lemma cleanup_sessions (h : (r.session index).active = true) :
    (r.cleanupClientSession index).sessions = r.sessions.set index .empty := by
  rw [cleanupClientSession]
  simp only [h, Bool.not_true, Bool.false_eq_true, if_false, setSession, resetOwned_sessions]
  rfl

lemma cleanupOne_sessions :
    (if (r.session index).active && gone (r.session index).callerId then r.cleanupClientSession index
      else r).sessions = r.sessions.modify index (cleared gone) := by
  rw [modify_eq_set_getElem?]
  cases hx : r.sessions[index]? with
  | none =>
    rw [session, hx]
    rfl
  | some x =>
    have hsession : r.session index = x := by rw [session, hx, getD_some]
    obtain ⟨hlt, rfl⟩ := List.getElem?_eq_some_iff.mp hx
    split
    · next hstale =>
      rw [cleanup_sessions ((Bool.and_eq_true_iff).mp hstale).1]
      rw [hsession] at hstale
      simp [cleared_stale hstale]
    · next hfresh =>
      rw [hsession] at hfresh
      simp [cleared_fresh hfresh]

lemma cleanupEach_getElem? {indices : List Nat} {i} :
    (indices.foldl (fun r i =>
      if (r.session i).active && gone (r.session i).callerId then r.cleanupClientSession i else r)
      r).sessions[i]? =
      (r.sessions[i]?).map fun x => if i ∈ indices then x.cleared gone else x := by
  induction indices generalizing r with
  | nil => simp
  | cons j indices ih =>
    rw [foldl_cons, ih, cleanupOne_sessions, getElem?_modify]
    cases r.sessions[i]? with
    | none => rfl
    | some x =>
      by_cases hj : j = i
      · by_cases hi : i ∈ indices <;> simp [hj, hi, cleared_cleared]
      · simp [hj, Ne.symm hj]

lemma Bound.cleanup (h : Bound s.runtime.sessions bindings) :
    Bound (s.runtime.cleanupStaleClientSessions gone).sessions
      (bindings.filter fun b => b.slot ∉ stale s gone) := by
  have hsame : ∀ (i : Nat) y, (s.runtime.cleanupStaleClientSessions gone).sessions[i]? = some y →
      y = .empty ∨ s.runtime.sessions[i]? = some y ∧ i ∉ stale s gone := by
    intro i y hy
    rw [cleanupStaleClientSessions, cleanupEach_getElem?] at hy
    obtain ⟨x, hx, rfl⟩ := map_eq_some_iff.mp hy
    have hsession : s.runtime.session i = x := by rw [session, hx, getD_some]
    rw [stale, mem_filter, hsession]
    by_cases hi : i ∈ List.range clientSessionMax
    · rw [if_pos hi]
      by_cases hstale : (x.active && gone x.callerId) = true
      · exact .inl (cleared_stale hstale)
      · rw [cleared_fresh hstale]
        exact .inr ⟨hx, fun hboth => hstale hboth.2⟩
    · rw [if_neg hi]
      exact .inr ⟨hx, fun hboth => hi hboth.1⟩
  refine .of_getElem? fun i y hy protocol => ?_
  obtain rfl | ⟨hold, hkept⟩ := hsame i y hy
  · exact ⟨by cases protocol <;> exact distinct_zeros, nofun⟩
  · refine ⟨h.distinct y (mem_of_getElem? hold) protocol, fun hactive key hkey hne => ?_⟩
    have hrec := h.recorded i y hold hactive protocol key hkey hne
    exact mem_filter.mpr ⟨hrec, decide_eq_true hkept⟩

lemma handleAttach_bound {shared} (h : Bound s.runtime.sessions bindings) :
    Bound (stateAfter (handleAttach request gone shared) s).runtime.sessions
      (bindings.filter fun b => b.slot ∉ released s request gone shared) := by
  have hspec : wp (handleAttach request gone shared)
      (fun _ t => ∃ index x, (s.runtime.cleanupStaleClientSessions gone).attachSlot request.identifier =
          some index ∧ (∀ protocol, x.keys protocol = List.replicate clientBindMax 0) ∧
        t.runtime.sessions = (s.runtime.cleanupStaleClientSessions gone).sessions.set index x)
      (fun _ t => t.runtime.sessions = (s.runtime.cleanupStaleClientSessions gone).sessions) s := by
    unfold handleAttach
    rw [wp_update]
    refine wp_guard rfl fun _ => ?_
    cases shared with
    | error e => rfl
    | ok addresses =>
      rw [wp_read]
      refine wp_lookup rfl fun index hindex => ?_
      exact ⟨index, _, hindex, fun protocol => by cases protocol <;> rfl, rfl⟩
  cases hm : handleAttach request gone shared s with
  | error e t =>
    have hsessions := wp_error hspec hm
    have hreleased : released s request gone shared = stale s gone := by
      rw [released, succeeds_of_error hm]
      rfl
    rw [stateAfter, hm, hsessions, hreleased]
    exact h.cleanup
  | ok a t =>
    obtain ⟨index, x, hslot, hkeys, hsessions⟩ := wp_ok hspec hm
    have hreleased : released s request gone shared = stale s gone ++ [index] := by
      rw [released, succeeds_of_ok hm, hslot]
      rfl
    rw [stateAfter, hm, hsessions, hreleased]
    refine h.cleanup.set (fun protocol => ?_) (fun _ protocol key hkey hne => ?_) fun b hb hother => ?_
    · rw [hkeys]
      exact distinct_zeros
    · rw [hkeys] at hkey
      exact absurd (eq_of_mem_replicate hkey) hne
    · obtain ⟨hb, hfresh⟩ := mem_filter.mp hb
      simp only [decide_eq_true_eq] at hfresh
      simp [hb, hfresh, hother]

lemma handleIcmpSend_bound (h : Bound s.runtime.sessions bindings) :
    Bound (stateAfter (handleIcmpSend request) s).runtime.sessions
      (echoed s request ++ bindings) := by
  have htables := stateAfter_of_wp (@handleIcmpSend_tables request s)
  refine .of_tables ?_ htables (List.Subset.refl _)
  rw [echoed]
  by_cases hsends : sendsEcho s request = true
  · rw [if_pos hsends, if_pos hsends, remember, updateSession]
    cases hindex : s.runtime.sessionIndex request.identifier with
    | none => exact h
    | some index =>
      obtain ⟨hget, hactive⟩ := sessionIndex_spec hindex
      have hd := h.distinct _ (mem_of_getElem? hget) .icmp
      exact h.addKey hget hactive (rememberIdentifier_spec hd)
  · rw [if_neg hsends, if_neg hsends]
    exact h

end Bound

end Nanami.Net
