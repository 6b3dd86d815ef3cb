import Nanami.Net.Requests

/-!
# TCP connections

The TCP part of `net-server`: arriving segments (`process_tcp`), the requests that open, accept, use
and close connections, and the sessions that own them. An event is one request or one arriving frame;
a run is a list of events. The acknowledgements that `process_tcp` sends to a segment's sender change no
state and their outcome is ignored by the code, so they are left out.
-/

namespace Nanami.Net

open Lib

def tcpFlagSyn : UInt8 := 2
def tcpFlagRst : UInt8 := 4

/-! ### The connection table -/

def NetRuntime.tcpReset (r : NetRuntime) (index : Nat) : NetRuntime :=
  if index < tcpMaxConnections then
    { r with
      tcpIndex := r.tcpIndex.remove index (r.tcpConnections index)
      tcpRx := r.tcpRx.reset index
      tcpConnections := Function.update r.tcpConnections index .empty }
  else r

@[irreducible] def NetRuntime.reclaimable (r : NetRuntime) : Option Nat :=
  (List.range tcpMaxConnections).find? fun i => (r.tcpConnections i).state == .finWait2

def NetRuntime.allocateTcpConnection (r : NetRuntime) : Option Nat :=
  r.tcpIndex.vacant.or r.reclaimable

def NetRuntime.openConnection (r : NetRuntime) (index : Nat) (ip : Ipv4) (peerPort localPort : UInt16)
    (conn : Nat → TcpConnection) : NetRuntime :=
  let r := r.tcpReset index
  let (connectionId, tcpIndex) := r.tcpIndex.insert index ip peerPort localPort
  { r.setConnection index (conn connectionId) with tcpIndex := tcpIndex }

/-! ### Arriving segments -/

/-- A frame that carries TCP, with what `process_ipv4` read from its header. -/
structure Frame where
  bytes : List UInt8
  ipHeaderLen : Nat
  srcIp : Ipv4
  totalLen : UInt16

/-- A TCP segment as `process_tcp` reads it from a frame. -/
structure Segment where
  srcIp : Ipv4
  srcPort : UInt16
  dstPort : UInt16
  seq : UInt32
  ack : UInt32
  flags : UInt8
  payload : List UInt8
  fits : payload.length < 2 ^ 16

def Segment.has (seg : Segment) (flag : UInt8) : Bool := seg.flags &&& flag != 0

namespace Frame

def byte (frame : Frame) (k : Nat) : UInt8 := (frame.bytes[k]?).getD 0

/-- `read_u16_be`. -/
def readU16 (frame : Frame) (k : Nat) : UInt16 :=
  (frame.byte k).toUInt16 <<< 8 ||| (frame.byte (k + 1)).toUInt16

/-- `read_u32_be`. -/
def readU32 (frame : Frame) (k : Nat) : UInt32 :=
  (frame.readU16 k).toUInt32 <<< 16 ||| (frame.readU16 (k + 2)).toUInt32

def tcpBase (frame : Frame) : Nat := ethHdrLen + frame.ipHeaderLen

def ipEnd (frame : Frame) : Nat := ethHdrLen + frame.totalLen.toNat

def dataOffset (frame : Frame) : Nat := (frame.byte (frame.tcpBase + 12) >>> 4).toNat * 4

def payload (frame : Frame) : List UInt8 :=
  (frame.bytes.take frame.ipEnd).drop (frame.tcpBase + frame.dataOffset)

lemma length_payload (frame : Frame) : frame.payload.length < 2 ^ 16 := by
  have hlen := frame.totalLen.toNat_lt
  simp only [payload, List.length_drop, List.length_take, tcpBase, ipEnd]
  omega

/-- The segment in a frame, unless the frame is too short for its headers. -/
def segment? (frame : Frame) : Option Segment :=
  let base := frame.tcpBase
  if frame.ipEnd < base + tcpHdrLen || frame.bytes.length < frame.ipEnd then none
  else if frame.dataOffset < tcpHdrLen || frame.ipEnd < base + frame.dataOffset then none
  else some
    { srcIp := frame.srcIp
      srcPort := frame.readU16 base
      dstPort := frame.readU16 (base + 2)
      seq := frame.readU32 (base + 4)
      ack := frame.readU32 (base + 8)
      flags := frame.byte (base + 13)
      payload := frame.payload
      fits := frame.length_payload }

end Frame

/-- `find_tcp_connection`, for the addresses of a segment. -/
def NetRuntime.findTcpConnection (r : NetRuntime) (seg : Segment) : Option Nat :=
  r.tcpIndex.find r.tcpConnections seg.srcIp seg.srcPort seg.dstPort

def NetRuntime.sessionForTcpPort (r : NetRuntime) (port : UInt16) : Option ClientSession :=
  r.sessions.find? fun s => s.active && s.tcpPorts.contains port

/-- `receive_segment`, the bytes: those accepted before are skipped, and a segment that starts behind
the expected byte is left out. -/
def NetRuntime.receivePayload (r : NetRuntime) (index : Nat) (seg : Segment) : NetRuntime :=
  let expected := (r.tcpConnections index).rcvNxt
  let skip := (expected - seg.seq).toNat
  if skip < seg.payload.length then
    let (accepted, q) := r.tcpRx.push index (seg.payload.drop skip)
    { r.setConnection index
        { r.tcpConnections index with rcvNxt := expected + UInt32.ofNat accepted } with tcpRx := q }
  else r

def TcpConnection.takesFin (conn : TcpConnection) (seg : Segment) : Bool :=
  seg.has tcpFlagFin && seg.seq + UInt32.ofNat seg.payload.length == conn.rcvNxt

/-- `receive_segment`, the FIN. -/
def TcpConnection.receiveFin (conn : TcpConnection) (seg : Segment) : TcpConnection :=
  if conn.takesFin seg then
    { conn with rcvNxt := conn.rcvNxt + 1, state := .closeWait, eofPending := true }
  else conn

def NetRuntime.receiveSegment (r : NetRuntime) (index : Nat) (seg : Segment) : NetRuntime :=
  let r := r.receivePayload index seg
  r.setConnection index ((r.tcpConnections index).receiveFin seg)

def TcpConnection.acknowledge (conn : TcpConnection) (seg : Segment) : TcpConnection :=
  if seg.has tcpFlagAck && seg.ack - conn.sndUna ≤ conn.sndNxt - conn.sndUna then
    { conn with sndUna := seg.ack }
  else conn

def TcpConnection.acknowledgesAll (conn : TcpConnection) (seg : Segment) : Bool :=
  seg.has tcpFlagAck && seg.ack == conn.sndNxt

def TcpConnection.acknowledgeFin (conn : TcpConnection) (seg : Segment) : TcpConnection :=
  if conn.acknowledgesAll seg then { conn with sndUna := seg.ack, state := .finWait2 } else conn

def NetRuntime.receiveLastFin (r : NetRuntime) (index : Nat) (seg : Segment) : NetRuntime :=
  let conn := r.tcpConnections index
  if conn.takesFin seg then
    let conn := { conn with rcvNxt := conn.rcvNxt + 1 }
    if conn.sndUna = conn.sndNxt then (r.setConnection index conn).tcpReset index
    else r.setConnection index { conn with state := .lastAck }
  else r

def synConnection (seg : Segment) (ownerId index connectionId : Nat) : TcpConnection :=
  let iss : UInt32 := 0x4e414e41 + (UInt32.ofNat index <<< (12 : UInt32))
  { active := true
    ownerId := ownerId
    connectionId := connectionId
    accepted := false
    eofPending := false
    state := .synReceived
    peerIp := seg.srcIp
    peerPort := seg.srcPort
    localPort := seg.dstPort
    sndIss := iss
    sndNxt := iss + 1
    sndUna := iss
    rcvNxt := seg.seq + 1 }

def Segment.opens (seg : Segment) : Bool := seg.has tcpFlagSyn && !seg.has tcpFlagAck

/-- `process_tcp` for a segment that asks for a connection. One that exists is only answered. -/
def NetRuntime.processSyn (r : NetRuntime) (seg : Segment) : NetRuntime :=
  match r.sessionForTcpPort seg.dstPort with
  | none => r
  | some session =>
    match r.findTcpConnection seg with
    | some _ => r
    | none =>
      match r.allocateTcpConnection with
      | none => r
      | some index =>
        r.openConnection index seg.srcIp seg.srcPort seg.dstPort
          (synConnection seg session.callerId index)

/-- `process_tcp` for a segment of the connection at `index`, by its state. -/
def NetRuntime.processConnection (r : NetRuntime) (index : Nat) (seg : Segment) : NetRuntime :=
  let conn := r.tcpConnections index
  if seg.has tcpFlagRst then r.tcpReset index
  else
    match conn.state with
    | .synSent =>
      if seg.has tcpFlagSyn && conn.acknowledgesAll seg then
        r.setConnection index
          { conn with sndUna := seg.ack, rcvNxt := seg.seq + 1, state := .established }
      else r
    | .synReceived =>
      if conn.acknowledgesAll seg && seg.seq == conn.rcvNxt then
        (r.setConnection index { conn with state := .established, sndUna := seg.ack }).receiveSegment
          index seg
      else r
    | .established => (r.setConnection index (conn.acknowledge seg)).receiveSegment index seg
    | .closeWait => r.setConnection index (conn.acknowledge seg)
    | .finWait1 | .finWait2 =>
      (r.setConnection index (conn.acknowledgeFin seg)).receiveLastFin index seg
    | .lastAck => if conn.acknowledgesAll seg then r.tcpReset index else r
    | .closed => r.tcpReset index

/-- `process_tcp`, once the segment is read. -/
def NetRuntime.processSegment (r : NetRuntime) (seg : Segment) : NetRuntime :=
  if seg.opens then r.processSyn seg
  else
    match r.findTcpConnection seg with
    | none => r
    | some index => r.processConnection index seg

def NetRuntime.processTcp (r : NetRuntime) (frame : Frame) : NetRuntime :=
  match frame.segment? with
  | none => r
  | some seg => r.processSegment seg

/-! ### Opening a connection -/

@[irreducible] def NetRuntime.ownConnection (r : NetRuntime) (ownerId : Nat) (ip : Ipv4)
    (peerPort localPort : UInt16) : Option Nat :=
  (List.range tcpMaxConnections).find? fun i =>
    let conn := r.tcpConnections i
    conn.active && conn.ownerId == ownerId && TcpIndex.hasTriple conn ip peerPort localPort

namespace ServiceRequest

def peerIp (request : ServiceRequest) : Ipv4 := request.arg0.toUInt32
def localPort (request : ServiceRequest) : UInt16 := (request.arg1 >>> 16).toUInt16
def peerPort (request : ServiceRequest) : UInt16 := request.arg1.toUInt16

end ServiceRequest

def connectConnection (request : ServiceRequest) (index connectionId : Nat) : TcpConnection :=
  let iss : UInt32 := 0x414c5445 + (UInt32.ofNat index <<< (12 : UInt32))
  { active := true
    ownerId := request.identifier
    connectionId := connectionId
    accepted := true
    eofPending := false
    state := .synSent
    peerIp := request.peerIp
    peerPort := request.peerPort
    localPort := request.localPort
    sndIss := iss
    sndNxt := iss + 1
    sndUna := iss
    rcvNxt := 0 }

def Server.withRuntime (s : Server) (r : NetRuntime) : Server := { s with runtime := r }

/-- The SYN of a connect request: without it the connection is given up. -/
def emitSyn (request : ServiceRequest) (index : Nat) (dstMac : Mac) : Handler Response := do
  let s ← get
  match ← emitTcpSegment
      { dstMac, dstIp := request.peerIp, srcPort := request.localPort, dstPort := request.peerPort
        seq := (s.runtime.tcpConnections index).sndIss, ack := 0, flags := tcpFlagSyn
        window := s.runtime.tcpRx.window index, payload := [] } with
  | .ok _ => pure ⟨.ok, 0, 0⟩
  | .error e => do
    modify fun s => s.withRuntime (s.runtime.tcpReset index)
    reject (mapRequestErrorToStatus e)

/-- The part of `handle_tcp_connect_request` that opens a new connection. -/
def openActive (request : ServiceRequest) : Handler Response := do
  let dstMac ← requireNeighbour request.peerIp .illegalOperation
  let s ← get
  let index ← okOr s.runtime.allocateTcpConnection ⟨.illegalOperation, 0, 0⟩
  set (s.withRuntime (s.runtime.openConnection index request.peerIp request.peerPort request.localPort
    (connectConnection request index)))
  emitSyn request index dstMac

def handleTcpConnectRequest (request : ServiceRequest) : Handler Response := do
  let _ ← requireSession request.identifier
  if request.localPort = 0 ∨ request.peerPort = 0 ∨ request.peerIp = 0 then reject .invalidArgument
  else do
    let s ← get
    match s.runtime.ownConnection request.identifier request.peerIp request.peerPort
        request.localPort with
    | some index =>
      let conn := s.runtime.tcpConnections index
      let id := if conn.state = .established ∨ conn.state = .closeWait then conn.connectionId else 0
      pure ⟨.ok, id, 0⟩
    | none => openActive request

/-! ### Sessions -/

def bindPort (ports : List UInt16) (port : UInt16) : Option (List UInt16) :=
  if ports.contains port then some ports
  else (ports.findIdx? (· == 0)).map fun slot => ports.set slot port

/-- `unbind_port`, the ports left. -/
def unbindPort (ports : List UInt16) (port : UInt16) : Option (List UInt16) :=
  (ports.findIdx? (· == port)).map fun slot => ports.set slot 0

def NetRuntime.portTaken (r : NetRuntime) (index : Nat) (port : UInt16) : Bool :=
  r.sessions.zipIdx.any fun e => e.2 != index && e.1.active && e.1.tcpPorts.contains port

/-- `NET_SERVICE_CONTROL_TCP_BIND`. -/
def handleTcpBind (request : ServiceRequest) : Handler Response := do
  let s ← get
  let index ← okOr (s.runtime.sessionIndex request.identifier) ⟨.permissionDenied, 0, 0⟩
  let port := request.arg1.toUInt16
  if port = 0 then reject .invalidArgument
  else if s.runtime.portTaken index port then reject .illegalOperation
  else do
    let session := s.runtime.session index
    let ports ← okOr (bindPort session.tcpPorts port) ⟨.illegalOperation, 0, 0⟩
    set (s.withRuntime (s.runtime.setSession index { session with tcpPorts := ports }))
    pure ⟨.ok, port.toNat, 0⟩

/-- `NET_SERVICE_CONTROL_TCP_UNBIND`. -/
def handleTcpUnbind (request : ServiceRequest) : Handler Response := do
  let s ← get
  let index ← okOr (s.runtime.sessionIndex request.identifier) ⟨.permissionDenied, 0, 0⟩
  let session := s.runtime.session index
  let ports ← okOr (unbindPort session.tcpPorts request.arg1.toUInt16) ⟨.ok, 0, 0⟩
  set (s.withRuntime (s.runtime.setSession index { session with tcpPorts := ports }))
  pure ⟨.ok, 1, 0⟩

/-- The loop of `cleanup_client_session` over the connections. -/
def NetRuntime.resetOwned (r : NetRuntime) (ownerId : Nat) (indices : List Nat) : NetRuntime :=
  indices.foldl (fun r i =>
    if (r.tcpConnections i).active && (r.tcpConnections i).ownerId == ownerId then r.tcpReset i else r) r

def NetRuntime.removeOwner (r : NetRuntime) (ownerId : Nat) : NetRuntime :=
  { r with
    udpRx := r.udpRx.filter (·.owner ≠ ownerId)
    icmpRx := r.icmpRx.filter (·.owner ≠ ownerId)
    rawRx := r.rawRx.filter (·.owner ≠ ownerId) }

def NetRuntime.cleanupClientSession (r : NetRuntime) (index : Nat) : NetRuntime :=
  let session := r.session index
  if !session.active then r
  else
    let r := r.removeOwner session.callerId
    (r.resetOwned session.callerId (List.range tcpMaxConnections)).setSession index .empty

/-- `cleanup_stale_client_sessions`, where `gone` says which processes are known to have ended. -/
def NetRuntime.cleanupStaleClientSessions (r : NetRuntime) (gone : Nat → Bool) : NetRuntime :=
  (List.range clientSessionMax).foldl (fun r i =>
    if (r.session i).active && gone (r.session i).callerId then r.cleanupClientSession i else r) r

def clientDefaultShmBytes : Word := 0x4000

def NetRuntime.attachSlot (r : NetRuntime) (callerId : Nat) : Option Nat :=
  (r.sessionIndex callerId).or (r.sessions.findIdx? fun s => !s.active)

/-- `NET_SERVICE_CONTROL_ATTACH_SHARED_MEMORY`, where `shared` is what `request_shared_memory` gives:
the addresses here and at the client. -/
def handleAttach (request : ServiceRequest) (gone : Nat → Bool)
    (shared : Except RequestError (Word × Word)) : Handler Response := do
  modify fun s => s.withRuntime (s.runtime.cleanupStaleClientSessions gone)
  if request.arg1 = 0 then reject .invalidArgument
  else
    match shared with
    | .error e => reject (mapRequestErrorToStatus e)
    | .ok (shmLocal, peer) => do
      let s ← get
      let index ← okOr (s.runtime.attachSlot request.identifier) ⟨.illegalOperation, 0, 0⟩
      let size := if request.arg2 = 0 then clientDefaultShmBytes else request.arg2
      set (s.withRuntime (s.runtime.setSession index
        { ClientSession.empty with
          active := true, callerId := request.identifier, shmLocal := shmLocal, shmSize := size }))
      pure ⟨.ok, peer.toNat, size.toNat⟩

/-! ### Runs -/

/-- The events of the server that concern TCP. What other frames teach it about neighbours is an event
of its own; closing a connection is a send with FIN. -/
inductive Event where
  | attach (request : ServiceRequest) (gone : Nat → Bool) (shared : Except RequestError (Word × Word))
  | bind (request : ServiceRequest)
  | unbind (request : ServiceRequest)
  | connect (request : ServiceRequest)
  | accept (request : ServiceRequest)
  | send (request : ServiceRequest)
  | recv (request : ServiceRequest)
  | frame (frame : Frame)
  | neighbours (arp : List (Ipv4 × Mac))

def Server.step (s : Server) : Event → Server
  | .attach request gone shared => stateAfter (handleAttach request gone shared) s
  | .bind request => stateAfter (handleTcpBind request) s
  | .unbind request => stateAfter (handleTcpUnbind request) s
  | .connect request => stateAfter (handleTcpConnectRequest request) s
  | .accept request => stateAfter (handleTcpAcceptRequest request) s
  | .send request => stateAfter (handleTcpSendRequest request) s
  | .recv request => stateAfter (handleTcpRecvRequest request) s
  | .frame frame => s.withRuntime (s.runtime.processTcp frame)
  | .neighbours arp => s.withRuntime { s.runtime with arp := arp }

def Server.run (s : Server) (events : List Event) : Server := events.foldl Server.step s

/-- The server as it starts: no session and no connection. -/
structure Fresh (r : NetRuntime) : Prop where
  connections : r.tcpConnections = fun _ => .empty
  index : r.tcpIndex = .empty
  rx : r.tcpRx = .new
  sessions : r.sessions = List.replicate clientSessionMax .empty

def freshServer : Server where
  runtime :=
    { backendShmLocal := 0, ip := 0x0a000001, subnetMask := 0xffffff00, gatewayIp := 0x0a0000fe, dnsIp := 0
      arp := [], tcpConnections := fun _ => .empty, tcpIndex := .empty, tcpRx := .new
      sessions := List.replicate clientSessionMax .empty, udpRx := [], icmpRx := [], rawRx := [] }
  device := fun _ => .ok 0
  memory := fun _ => 0
  emitted := 0
  accesses := []
  segments := []

end Nanami.Net
