import Nanami.Net.Runtime

/-!
# Requests that touch client memory

The handlers of `net-server` that read or write through raw addresses, with a record of every range
they touch. Sums are those of the release profile: they wrap. What the surroundings decide, the
device's answers, the bytes in client memory and whether a name is resolved, is given from outside.
-/

namespace Nanami.Net

open Lib

def ethHdrLen : Nat := 14
def ipv4HdrLen : Nat := 20
def udpHdrLen : Nat := 8
def tcpHdrLen : Nat := 20
def arpFrameLen : Nat := 42
def backendTxOffset : Nat := 0x1000

/-- `RX_BATCH_OFFSET`, where the transmit area ends. -/
def rxBatchOffset : Nat := 0x2000

def backendTxBytes : Nat := rxBatchOffset - backendTxOffset

structure Response where
  status : Status
  detail0 : Nat
  detail1 : Nat
  deriving DecidableEq, Repr

def mapRequestErrorToStatus : RequestError → Status
  | .invalidArgument => .invalidArgument
  | .unsupported => .invalidArgument
  | .transport => .illegalOperation
  | .protocol => .fatal
  | .status s => s

structure ServiceRequest where
  identifier : Nat
  arg0 : Word
  arg1 : Word
  arg2 : Word
  arg3 : Word

/-- A range of memory that is read or written: `length` bytes from `start` on. -/
structure Access where
  start : Nat
  length : Nat
  deriving DecidableEq, Repr

/-- A TCP segment as `emit_tcp_segment` sends it from the server's address. -/
structure SentSegment where
  dstMac : Mac
  dstIp : Ipv4
  srcPort : UInt16
  dstPort : UInt16
  seq : UInt32
  ack : UInt32
  flags : UInt8
  window : Nat
  payload : List UInt8
  deriving DecidableEq, Repr

/-- The server with its surroundings: the device's answer to each frame, the bytes of memory, and the
ranges touched and the segments sent so far. -/
structure Server where
  runtime : NetRuntime
  device : Nat → Except RequestError Nat
  memory : Nat → UInt8
  emitted : Nat
  accesses : List Access
  segments : List SentSegment

def Server.bytesAt (s : Server) (address length : Nat) : List UInt8 :=
  (List.range length).map fun i => s.memory (wrappingAdd address i)

/-- `tcp_connections[index] = conn`. -/
def NetRuntime.setConnection (r : NetRuntime) (index : Nat) (conn : TcpConnection) : NetRuntime :=
  { r with tcpConnections := Function.update r.tcpConnections index conn }

def Server.setConnection (s : Server) (index : Nat) (conn : TcpConnection) : Server :=
  { s with runtime := s.runtime.setConnection index conn }

abbrev Handler := EStateM Response Server

def reject {α : Type} (status : Status) : Handler α := throw ⟨status, 0, 0⟩

def touch (start length : Nat) : Handler Unit :=
  modify fun s => { s with accesses := ⟨start, length⟩ :: s.accesses }

def touchShm (session : ClientSession) (offset length : Nat) : Handler Unit :=
  touch (wrappingAdd session.shmLocal.toNat offset) length

/-- A frame built at `BACKEND_TX_OFFSET` and given to the device, as `emit_frame` does. -/
def emitFrame (length : Nat) : Handler (Except RequestError Nat) := do
  let s ← get
  touch (wrappingAdd s.runtime.backendShmLocal.toNat backendTxOffset) length
  modify fun s => { s with emitted := s.emitted + 1 }
  pure (s.device s.emitted)

def emitTcpSegment (seg : SentSegment) : Handler (Except RequestError Nat) := do
  modify fun s => { s with segments := seg :: s.segments }
  emitFrame (ethHdrLen + ipv4HdrLen + tcpHdrLen + seg.payload.length)

/-- The next segment on a connection. -/
def NetRuntime.segmentOn (r : NetRuntime) (index : Nat) (dstMac : Mac) (flags : UInt8)
    (payload : List UInt8) : SentSegment :=
  let conn := r.tcpConnections index
  ⟨dstMac, conn.peerIp, conn.localPort, conn.peerPort, conn.sndNxt, conn.rcvNxt, flags,
    r.tcpRx.window index, payload⟩

/-- `session_for(..) else return PERMISSION_DENIED`. -/
def requireSession (identifier : Nat) : Handler ClientSession := do
  let s ← get
  okOr (s.runtime.sessionFor identifier) ⟨.permissionDenied, 0, 0⟩

/-- `arp_lookup`, with a request for the address when it is not known. -/
def requireNeighbour (destination : Ipv4) (status : Status) : Handler Mac := do
  let s ← get
  match s.runtime.arpLookup (s.runtime.nextHopIp destination) with
  | some mac => pure mac
  | none => do
    let _ ← emitFrame arpFrameLen
    reject status

/-- The check `offset + length > shm_size`. -/
def exceeds (session : ClientSession) (offset length : Nat) : Bool :=
  wrappingAdd offset length > session.shmSize.toNat

/-- The check `offset > shm_size || length > shm_size - offset`. -/
def outside (session : ClientSession) (offset length : Nat) : Bool :=
  offset > session.shmSize.toNat || length > session.shmSize.toNat - offset

/-- `NET_SERVICE_REQUEST_SEND`. -/
def handleSend (request : ServiceRequest) : Handler Response := do
  let session ← requireSession request.identifier
  let n := request.arg1.toNat
  if n = 0 || exceeds session request.arg0.toNat n then reject .invalidArgument
  else do
    touchShm session request.arg0.toNat n
    match ← emitFrame n with
    | .ok sent => pure ⟨.ok, sent, 0⟩
    | .error e => reject (mapRequestErrorToStatus e)

def Server.updateSession (callerId : Nat) (change : ClientSession → ClientSession) (s : Server) : Server :=
  match s.runtime.sessionIndex callerId with
  | none => s
  | some index => { s with runtime := s.runtime.setSession index (change (s.runtime.session index)) }

def Server.askRaw (callerId : Nat) : Server → Server :=
  Server.updateSession callerId fun session => { session with rawRxEnabled := true }

/-- `NET_SERVICE_REQUEST_RECV`. `pumped` is what the backend pump adds to the queue. -/
def handleRecv (request : ServiceRequest) (pumped : RxQueue rawRxMaxBytes → RxQueue rawRxMaxBytes) :
    Handler Response := do
  let session ← requireSession request.identifier
  modify (Server.askRaw request.identifier)
  let s ← get
  let (popped, rest) := (pumped s.runtime.rawRx).popFor fun e => e.owner == request.identifier
  set { s with runtime := { s.runtime with rawRx := rest } }
  let entry ← okOr popped ⟨.ok, 0, 0⟩
  let n := min entry.length request.arg1.toNat
  if exceeds session request.arg0.toNat n then reject .invalidArgument
  else if n > 0 then do
    touchShm session request.arg0.toNat n
    pure ⟨.ok, n, 0⟩
  else pure ⟨.ok, n, 0⟩

/-- The connection that `handle_tcp_accept_request` hands over. -/
@[irreducible] def NetRuntime.acceptable (r : NetRuntime) (identifier : Nat) (port : Word) : Option Nat :=
  (List.range tcpMaxConnections).find? fun i =>
    let conn := r.tcpConnections i
    conn.active && conn.ownerId == identifier && !conn.accepted &&
      (port == 0 || conn.localPort == port.toUInt16) &&
      (conn.state == .established || conn.state == .closeWait)

def handleTcpAcceptRequest (request : ServiceRequest) : Handler Response := do
  let session ← requireSession request.identifier
  if exceeds session request.arg0.toNat tcpRxMetaLen then reject .invalidArgument
  else do
    let s ← get
    let index ← okOr (s.runtime.acceptable request.identifier request.arg1) ⟨.ok, 0, 0⟩
    let conn := s.runtime.tcpConnections index
    set (s.setConnection index { conn with accepted := true })
    touchShm session request.arg0.toNat tcpRxMetaLen
    pure ⟨.ok, conn.connectionId, conn.peerIp.toNat⟩

def tcpFlagFin : UInt8 := 1
def tcpFlagAck : UInt8 := 16

def TcpConnection.sentSegment (conn : TcpConnection) (flags : UInt8) (chunk : Nat) : TcpConnection :=
  let sndNxt := conn.sndNxt + UInt32.ofNat chunk
  if flags &&& tcpFlagFin ≠ 0 then
    { conn with
      sndNxt := sndNxt + 1
      state := if conn.state = .closeWait then .lastAck else .finWait1 }
  else { conn with sndNxt := sndNxt }

/-- The loop of `handle_tcp_send_request` over chunks of the payload. -/
def sendChunks (session : ClientSession) (index : Nat) (dstMac : Mac) (flags : UInt8)
    (totalPayloadSent currentOffset remaining : Nat) : Handler Response :=
  if remaining = 0 then pure ⟨.ok, totalPayloadSent, 0⟩
  else do
    let chunk := min remaining tcpPayloadMax
    let segFlags := if remaining > chunk then flags &&& ~~~tcpFlagFin else flags
    touchShm session currentOffset chunk
    let s ← get
    match ← emitTcpSegment (s.runtime.segmentOn index dstMac segFlags
        (s.bytesAt (wrappingAdd session.shmLocal.toNat currentOffset) chunk)) with
    | .error e => throw ⟨mapRequestErrorToStatus e, totalPayloadSent, 0⟩
    | .ok _ => do
      modify fun s => s.setConnection index ((s.runtime.tcpConnections index).sentSegment segFlags chunk)
      sendChunks session index dstMac flags (totalPayloadSent + chunk) (wrappingAdd currentOffset chunk)
        (remaining - chunk)
termination_by remaining
decreasing_by simp only [tcpPayloadMax] at *; omega

def handleTcpSendRequest (request : ServiceRequest) : Handler Response := do
  let session ← requireSession request.identifier
  let s ← get
  let index ← okOr (s.runtime.activeTcpConnectionIndex request.identifier request.arg3.toNat)
    ⟨.illegalOperation, 0, 0⟩
  if exceeds session request.arg0.toNat request.arg1.toNat then reject .invalidArgument
  else do
    let dstMac ← requireNeighbour (s.runtime.tcpConnections index).peerIp .wouldBlock
    let flags := request.arg2.toUInt8
    if request.arg1.toNat = 0 then do
      match ← emitTcpSegment (s.runtime.segmentOn index dstMac flags []) with
      | .error e => reject (mapRequestErrorToStatus e)
      | .ok _ => do
        modify fun s => s.setConnection index ((s.runtime.tcpConnections index).sentSegment flags 0)
        pure ⟨.ok, 0, 0⟩
    else sendChunks session index dstMac flags 0 request.arg0.toNat request.arg1.toNat

/-- The connection whose end of stream `handle_tcp_recv_request` reports. -/
@[irreducible] def NetRuntime.ended (r : NetRuntime) (identifier connectionId : Nat) : Option Nat :=
  (List.range tcpMaxConnections).find? fun i =>
    let conn := r.tcpConnections i
    conn.active && conn.ownerId == identifier &&
      (conn.eofPending || (connectionId != 0 && conn.state == .closeWait)) &&
      (connectionId == 0 || conn.connectionId == connectionId)

/-- The part of `handle_tcp_recv_request` after nothing was read: an end of stream is reported, by the
multiplexed form of the request once. -/
def reportEnd (request : ServiceRequest) : Handler Response := do
  let s ← get
  let index ← okOr (s.runtime.ended request.identifier request.arg3.toNat) ⟨.ok, 0, 0⟩
  let conn := s.runtime.tcpConnections index
  if request.arg3.toNat = 0 then do
    set (s.setConnection index { conn with eofPending := false })
    pure ⟨.ok, 0, conn.connectionId⟩
  else pure ⟨.ok, 0, conn.connectionId⟩

/-- The window update that follows a read, when the peer's neighbour is known. -/
def announceWindow (index : Nat) (windowUpdated : Bool) : Handler Unit := do
  let s ← get
  if windowUpdated then
    match s.runtime.arpLookup (s.runtime.nextHopIp (s.runtime.tcpConnections index).peerIp) with
    | some mac => do
      let _ ← emitTcpSegment (s.runtime.segmentOn index mac tcpFlagAck [])
      pure ()
    | none => pure ()
  else pure ()

/-- `handle_tcp_recv_request`. The bytes read go to the slice at `arg1`. -/
def handleTcpRecvRequest (request : ServiceRequest) : Handler (Response × List UInt8) := do
  let session ← requireSession request.identifier
  let maxLen := min request.arg2.toNat tcpPayloadMax
  if outside session request.arg0.toNat tcpRxMetaLen || outside session request.arg1.toNat maxLen then
    reject .invalidArgument
  else if maxLen = 0 then pure (⟨.ok, 0, 0⟩, [])
  else do
    touchShm session request.arg1.toNat maxLen
    let s ← get
    let (found, q) := s.runtime.tcpRx.readFor s.runtime.tcpConnections request.identifier
      request.arg3.toNat maxLen
    set { s with runtime := { s.runtime with tcpRx := q } }
    match found with
    | some (index, bytes, windowUpdated) => do
      let conn := s.runtime.tcpConnections index
      touchShm session request.arg0.toNat tcpRxMetaLen
      announceWindow index windowUpdated
      pure (⟨.ok, bytes.length, conn.connectionId⟩, bytes)
    | none => do
      let response ← reportEnd request
      pure (response, [])

/-- `emit_udp_from_session`, as `NET_SERVICE_REQUEST_UDP_SEND` calls it. -/
def handleUdpSend (request : ServiceRequest) : Handler Response := do
  let session ← requireSession request.identifier
  let payloadLen := min request.arg1.toNat udpPayloadMax
  if payloadLen = 0 then reject .invalidArgument
  else if exceeds session request.arg0.toNat payloadLen then reject .invalidArgument
  else do
    let _ ← requireNeighbour request.arg3.toUInt32 .illegalOperation
    touchShm session request.arg0.toNat payloadLen
    match ← emitFrame (ethHdrLen + ipv4HdrLen + udpHdrLen + payloadLen) with
    | .ok sent => pure ⟨.ok, sent, 0⟩
    | .error e => reject (mapRequestErrorToStatus e)

/-- What the two handlers for received datagrams do with an entry they popped: metadata at `arg0`,
payload at `arg1`. -/
def deliver {max : Nat} (session : ClientSession) (request : ServiceRequest) (metaLen : Nat)
    (entry : RxEntry max) : Handler Response := do
  let copyLen := min entry.length request.arg2.toNat
  if exceeds session request.arg0.toNat metaLen || exceeds session request.arg1.toNat copyLen then
    reject .invalidArgument
  else do
    touchShm session request.arg0.toNat metaLen
    touchShm session request.arg1.toNat copyLen
    pure ⟨.ok, copyLen, 0⟩

def handleUdpRecvRequest (request : ServiceRequest) : Handler Response := do
  let session ← requireSession request.identifier
  let s ← get
  let localPort := if request.arg3.toUInt16 = 0 then (session.udpPorts.find? (· ≠ 0)).getD 0
    else request.arg3.toUInt16
  let (popped, rest) := s.runtime.udpRx.popFor fun e =>
    e.owner == session.callerId && e.key == localPort
  set { s with runtime := { s.runtime with udpRx := rest } }
  let entry ← okOr popped ⟨.ok, 0, 0⟩
  deliver session request udpRxMetaLen entry

def handleIcmpRecvRequest (request : ServiceRequest) : Handler Response := do
  let session ← requireSession request.identifier
  let s ← get
  let (popped, rest) := s.runtime.icmpRx.popFor fun e =>
    e.owner == request.identifier && (request.arg3.toUInt16 == 0 || e.key == request.arg3.toUInt16)
  set { s with runtime := { s.runtime with icmpRx := rest } }
  let entry ← okOr popped ⟨.ok, 0, 0⟩
  deliver session request icmpRxMetaLen entry

def queueEcho (request : ServiceRequest) (payloadLen : Nat) : Handler Unit :=
  if h : payloadLen ≤ icmpPayloadMax then
    modify fun s => { s with runtime := { s.runtime with
      icmpRx := s.runtime.icmpRx.push icmpRxQueueCap
        ⟨request.identifier, request.arg2.toUInt16, payloadLen, h⟩ } }
  else pure ()

def rememberIdentifier (identifiers : List UInt16) (identifier : UInt16) : List UInt16 :=
  if identifiers.contains identifier then identifiers
  else
    let slot := (identifiers.findIdx? (· == 0)).getD (identifier.toNat % clientBindMax)
    identifiers.set slot identifier

def Server.remember (callerId : Nat) (identifier : UInt16) : Server → Server :=
  Server.updateSession callerId fun session =>
    { session with icmpIdentifiers := rememberIdentifier session.icmpIdentifiers identifier }

/-- `emit_icmp_echo_from_session`: to a local address the echo is queued, to another it is sent. -/
def handleIcmpSend (request : ServiceRequest) : Handler Response := do
  let session ← okOr ((← get).runtime.sessionFor request.identifier) ⟨.illegalOperation, 0, 0⟩
  let payloadLen := request.arg1.toNat
  if payloadLen < 8 || payloadLen > icmpPayloadMax || outside session request.arg0.toNat payloadLen then
    reject .invalidArgument
  else do
    let s ← get
    let destination := request.arg3.toUInt32
    if destination >>> 24 = 127 || destination = s.runtime.ip then do
      touchShm session request.arg0.toNat payloadLen
      queueEcho request payloadLen
      pure ⟨.ok, payloadLen, 0⟩
    else do
      let _ ← requireNeighbour destination .illegalOperation
      modify (Server.remember request.identifier request.arg2.toUInt16)
      touchShm session request.arg0.toNat payloadLen
      match ← emitFrame (ethHdrLen + ipv4HdrLen + payloadLen) with
      | .ok _ => pure ⟨.ok, payloadLen, 0⟩
      | .error e => reject (mapRequestErrorToStatus e)

def askNeighbour (destination : Ipv4) : Handler Unit := do
  let s ← get
  if (s.runtime.arpLookup (s.runtime.nextHopIp destination)).isSome then pure ()
  else do
    let _ ← emitFrame arpFrameLen
    pure ()

/-- `handle_snapshot_request` of the ARP cache: `fits` says whether the cache fits the slice. -/
def handleSnapshotRequest (request : ServiceRequest) (fits : Option Nat) : Handler Response := do
  let session ← requireSession request.identifier
  if outside session request.arg0.toNat request.arg1.toNat then reject .invalidArgument
  else do
    touchShm session request.arg0.toNat request.arg1.toNat
    match fits with
    | some count => pure ⟨.ok, count, 0⟩
    | none => reject .invalidArgument

def dnsDot : UInt8 := 46

/-- `encode_dns_name`: the length of the encoded name, which has to stay below 256. -/
def encodeDnsName (host : List UInt8) (pos : Nat) : Except RequestError Nat :=
  if host = [] then
    if pos ≥ 256 then .error .invalidArgument else .ok (pos + 1)
  else
    let label := host.takeWhile (· ≠ dnsDot)
    if label.length = 0 || label.length > 63 then .error .invalidArgument
    else if pos + 1 + label.length ≥ 256 then .error .invalidArgument
    else encodeDnsName (host.drop (label.length + 1)) (pos + 1 + label.length)
termination_by host.length
decreasing_by
  rename_i hne _ _
  have hpos := List.length_pos_of_ne_nil hne
  rw [List.length_drop]
  omega

/-- `handle_dns_query_request`. `neighbour` and `answer` are what waiting for the resolver gives. -/
def handleDnsQueryRequest (request : ServiceRequest) (neighbour : Bool)
    (answer : Except RequestError Ipv4) : Handler Response := do
  let session ← requireSession request.identifier
  let nameLen := request.arg1.toNat
  if nameLen = 0 || nameLen > 253 then reject .invalidArgument
  else if exceeds session request.arg0.toNat nameLen then reject .invalidArgument
  else if exceeds session request.arg2.toNat 4 then reject .invalidArgument
  else do
    touchShm session request.arg0.toNat nameLen
    let s ← get
    let host := s.bytesAt (wrappingAdd session.shmLocal.toNat request.arg0.toNat) nameLen
    askNeighbour s.runtime.dnsIp
    if !neighbour then reject .illegalOperation
    else
      match encodeDnsName host 0 with
      | .error e => reject (mapRequestErrorToStatus e)
      | .ok qnameLen => do
        match ← emitFrame (ethHdrLen + ipv4HdrLen + udpHdrLen + (12 + qnameLen + 4)) with
        | .error e => reject (mapRequestErrorToStatus e)
        | .ok _ =>
          match answer with
          | .error e => reject (mapRequestErrorToStatus e)
          | .ok ip => do
            touchShm session request.arg2.toNat 4
            pure ⟨.ok, ip.toNat, 0⟩

end Nanami.Net
