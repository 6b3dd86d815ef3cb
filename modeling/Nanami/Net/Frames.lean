import Nanami.Net.Parsing
import Nanami.Net.Tcp

/-!
# Received frames

What `net-server` does with a frame from its device: `process_frame` and, under it, ARP, IPv4, ICMP,
UDP and TCP, with the DHCP and DNS replies it waits for. Every access to the frame is checked, and the
lengths of the frames that are sent in response are recorded in `emitted`.

The TCP part reads its header here and leaves the connection to `processTcp`; how many segments it
answers with is `tcpAnswers`.
-/

namespace Nanami.Net

open Lib

def netArpMaxEntries : Nat := 32
def netDeviceRxFrameMax : Nat := 1536
def icmpEchoRequest : UInt8 := 8
def icmpEchoReply : UInt8 := 0
def dhcpClientPort : UInt16 := 68
def dhcpServerPort : UInt16 := 67
def dnsServerPort : UInt16 := 53
def dhcpMsgOffer : UInt8 := 2
def dhcpMsgAck : UInt8 := 5
def dhcpMsgNak : UInt8 := 6
def broadcastIp : Ipv4 := 0xffffffff

structure DhcpState where
  waiting : Bool
  xid : UInt32
  offerValid : Bool
  ackValid : Bool
  offerIp : Ipv4
  serverIp : Ipv4
  routerIp : Ipv4
  dnsIp : Ipv4
  subnetMask : Option Ipv4

structure DnsState where
  waiting : Bool
  txid : UInt16
  srcPort : UInt16
  answerValid : Bool
  answerIp : Ipv4

structure Station where
  runtime : NetRuntime
  arpNext : Nat
  dhcp : DhcpState
  dns : DnsState
  emitted : List Nat

abbrev Receiver := EStateM Panic Station

def RxEntry.cut (max owner : Nat) (key : UInt16) (length : Nat) : RxEntry max :=
  ⟨owner, key, min length max, Nat.min_le_right _ _⟩

/-- `emit_frame`, whose result is ignored here. -/
def respond (length : Nat) : Receiver Unit :=
  modify fun s => { s with emitted := length :: s.emitted }

/-! ### Neighbours -/

/-- `ArpCache::update`. -/
def Station.learn (ip : Ipv4) (mac : Mac) (s : Station) : Station :=
  match s.runtime.arp.findIdx? fun e => e.1 == ip with
  | some i => { s with runtime := { s.runtime with arp := s.runtime.arp.set i (ip, mac) } }
  | none =>
    let arp := if s.arpNext < s.runtime.arp.length then s.runtime.arp.set s.arpNext (ip, mac)
      else s.runtime.arp ++ [(ip, mac)]
    { s with runtime := { s.runtime with arp := arp }, arpNext := (s.arpNext + 1) % netArpMaxEntries }

/-- `update_arp`: neither a multicast address nor an empty one is learnt. -/
def updateArp (ip : Ipv4) (mac : Mac) : Receiver Unit :=
  if ip >>> 24 ≠ 0 ∧ ip >>> 24 < 224 ∧ mac ≠ 0 ∧ mac >>> 40 &&& 1 = 0 then modify (Station.learn ip mac)
  else pure ()

def macAt (frame : List UInt8) (k : Nat) : Checked Mac := do
  let hi ← u16At frame k
  let lo ← u32At frame (k + 2)
  return hi.toUInt64 <<< 32 ||| lo.toUInt64

def processArp (frame : List UInt8) : Receiver Unit := do
  if frame.length < 42 then return
  else
    let header ← fromResult (slice frame 14 20)
    if header ≠ [0, 1, 0x08, 0, 6, 4] then return
    else
      let oper ← fromResult (u16At frame 20)
      let senderMac ← fromResult (macAt frame 22)
      let senderIp ← fromResult (u32At frame 28)
      let targetIp ← fromResult (u32At frame 38)
      let r := (← get).runtime
      if oper = 2 ∧ (targetIp = r.ip ∨ (r.arpLookup senderIp).isSome) then updateArp senderIp senderMac
      else if oper = 1 ∧ targetIp = r.ip then
        updateArp senderIp senderMac
        respond arpFrameLen
      else return

/-! ### ICMP -/

def Station.queueIcmpReply (identifier : UInt16) (length : Nat) (s : Station) : Station :=
  match s.runtime.sessions.find? fun x => x.active && x.icmpIdentifiers.contains identifier with
  | none => s
  | some session =>
    let entry := RxEntry.cut icmpPayloadMax session.callerId identifier length
    { s with runtime := { s.runtime with icmpRx := s.runtime.icmpRx.push icmpRxQueueCap entry } }

def processIcmp (frame : List UInt8) (ipHeaderLen ipEnd : Nat) : Receiver Unit := do
  let base := ethHdrLen + ipHeaderLen
  if ipEnd < base + 8 ∨ frame.length < ipEnd then return
  else
    let icmp ← fromResult (slice frame base ipEnd)
    let type ← fromResult (itemAt icmp 0)
    let code ← fromResult (itemAt icmp 1)
    if type = icmpEchoReply ∧ code = 0 then
      let _ttl ← fromResult (itemAt frame (ethHdrLen + 8))
      if icmp.length < 8 then return
      else
        let identifier ← fromResult (u16At icmp 4)
        modify (Station.queueIcmpReply identifier icmp.length)
    else if type ≠ icmpEchoRequest ∨ code ≠ 0 then return
    else
      let _srcMac ← fromResult (macAt frame 6)
      respond (ethHdrLen + ipv4HdrLen + icmp.length)

/-! ### UDP -/

def DhcpState.server (d : DhcpState) (parsed : DhcpParsed) (srcIp : Ipv4) : Ipv4 :=
  if parsed.serverIp ≠ 0 then parsed.serverIp
  else if srcIp ≠ 0 ∧ srcIp ≠ broadcastIp then srcIp
  else d.serverIp

def DhcpState.configure (d : DhcpState) (parsed : DhcpParsed) (srcIp : Ipv4) : DhcpState :=
  { d with
    offerIp := parsed.yiaddr
    serverIp := d.server parsed srcIp
    routerIp := if parsed.routerIp ≠ 0 then parsed.routerIp else d.routerIp
    dnsIp := if parsed.dnsIp ≠ 0 then parsed.dnsIp else d.dnsIp
    subnetMask := parsed.subnetMask.or d.subnetMask }

def DhcpState.receive (d : DhcpState) (parsed : DhcpParsed) (srcIp : Ipv4) : DhcpState :=
  if parsed.msgType = dhcpMsgOffer then { d.configure parsed srcIp with offerValid := true }
  else if parsed.msgType = dhcpMsgAck then { d.configure parsed srcIp with ackValid := true }
  else if parsed.msgType = dhcpMsgNak then { d with offerValid := false, ackValid := false }
  else d

/-- `process_dhcp_payload`: whether the datagram is taken. -/
def processDhcpPayload (srcIp : Ipv4) (srcPort dstPort : UInt16) (payload : List UInt8) :
    Receiver Bool := do
  if srcPort ≠ dhcpServerPort ∨ dstPort ≠ dhcpClientPort then return false
  else
    let d := (← get).dhcp
    if !d.waiting then return true
    else
      match ← fromResult (parseDhcpPayload payload d.xid) with
      | none =>
        -- only for a line in the log
        let _ ← fromResult (inspectDhcpPacket payload)
        return true
      | some parsed =>
        modify fun s => { s with dhcp := d.receive parsed srcIp }
        return true

/-- The bytes of a DHCP request: the fixed part with the cookie, then its options. -/
def dhcpRequestLen (serverIp : Ipv4) : Nat :=
  240 + 3 + 6 + (if serverIp ≠ 0 then 6 else 0) + 9 + 6 + 1

@[irreducible] def dhcpBuffer : List UInt8 := List.replicate 300 0

/-- `send_dhcp_request`, with which `dhcp_bootstrap` answers an offer. -/
def sendDhcpRequest : Receiver Unit := do
  let length := dhcpRequestLen (← get).dhcp.serverIp
  let payload ← fromResult (slice dhcpBuffer 0 length)
  respond (ethHdrLen + ipv4HdrLen + udpHdrLen + payload.length)

/-- `announce_lease`, with which `dhcp_bootstrap` answers an acknowledgement: three rounds of a reply
and a request. -/
def announceLease : Nat → Receiver Unit
  | 0 => pure ()
  | rounds + 1 => do
    respond arpFrameLen
    respond arpFrameLen
    announceLease rounds

/-- `process_dns_payload`: whether the datagram is taken. -/
def processDnsPayload (srcIp : Ipv4) (srcPort dstPort : UInt16) (payload : List UInt8) :
    Receiver Bool := do
  let s ← get
  if srcPort ≠ dnsServerPort ∨ s.dns.waiting = false ∨ dstPort ≠ s.dns.srcPort ∨
      srcIp ≠ s.runtime.dnsIp ∨ payload.length < 2 then return false
  else
    let txid ← fromResult (readU16Be payload)
    if txid ≠ s.dns.txid then return false
    else
      match ← fromResult (parseDnsResponse payload) with
      | none => return true
      | some (txid, ip) =>
        if txid ≠ s.dns.txid then return true
        else
          set { s with dns := { s.dns with answerValid := true, answerIp := ip, waiting := false } }
          return true

def NetRuntime.sessionForUdpPort (r : NetRuntime) (port : UInt16) : Option ClientSession :=
  r.sessions.find? fun s => s.active && s.udpPorts.contains port

def Station.tryQueueUdp (dstPort : UInt16) (length : Nat) (s : Station) : Station :=
  match s.runtime.sessionForUdpPort dstPort with
  | none => s
  | some session =>
    let entry := RxEntry.cut udpPayloadMax session.callerId dstPort length
    { s with runtime := { s.runtime with udpRx := s.runtime.udpRx.push udpRxQueueCap entry } }

structure Datagram where
  srcPort : UInt16
  dstPort : UInt16
  payload : List UInt8

/-- The UDP header, unless its length does not fit. -/
def datagram? (frame : List UInt8) (ipHeaderLen ipEnd : Nat) : Checked (Option Datagram) := do
  let base := ethHdrLen + ipHeaderLen
  if frame.length < base + udpHdrLen then return none
  else
    let srcPort ← u16At frame base
    let dstPort ← u16At frame (base + 2)
    let udpLen := (← u16At frame (base + 4)).toNat
    if udpLen < udpHdrLen ∨ base + udpLen > ipEnd then return none
    else
      let payloadLen := min (udpLen - udpHdrLen) (ipEnd - (base + udpHdrLen))
      let payload ← slice frame (base + udpHdrLen) (base + udpHdrLen + payloadLen)
      return some ⟨srcPort, dstPort, payload⟩

/-- The end of `process_ipv4`, for UDP. -/
def processUdp (frame : List UInt8) (ipHeaderLen : Nat) (srcIp : Ipv4) (ipEnd : Nat) :
    Receiver Unit := do
  match ← fromResult (datagram? frame ipHeaderLen ipEnd) with
  | none => return
  | some d =>
    if ← processDhcpPayload srcIp d.srcPort d.dstPort d.payload then return
    else if ← processDnsPayload srcIp d.srcPort d.dstPort d.payload then return
    else modify (Station.tryQueueUdp d.dstPort d.payload.length)

/-! ### TCP -/

/-- The segments `receive_segment` answers with. -/
def segmentAnswers (conn : TcpConnection) (seg : Segment) : Nat :=
  if seg.payload ≠ [] ∨ seg.has tcpFlagFin ∨ seg.seq ≠ conn.rcvNxt then 1 else 0

/-- The segments `process_tcp` answers a segment of a connection with, by its state. -/
def connectionAnswers (conn : TcpConnection) (seg : Segment) : Nat :=
  if seg.has tcpFlagRst then 0
  else
    match conn.state with
    | .synSent => if seg.has tcpFlagSyn && conn.acknowledgesAll seg then 1 else 0
    | .synReceived =>
      if conn.acknowledgesAll seg && seg.seq == conn.rcvNxt then segmentAnswers conn seg else 0
    | .established => segmentAnswers conn seg
    | .closeWait => if seg.payload ≠ [] ∨ seg.has tcpFlagFin then 1 else 0
    | .finWait1 | .finWait2 => if seg.has tcpFlagFin then 1 else 0
    | .lastAck => 0
    | .closed => 0

/-- The segments `process_tcp` answers with. -/
def NetRuntime.tcpAnswers (r : NetRuntime) (seg : Segment) : Nat :=
  if seg.opens then
    if (r.sessionForTcpPort seg.dstPort).isNone then 0
    else if (r.findTcpConnection seg).isSome ∨ r.allocateTcpConnection.isSome then 1
    else 0
  else
    match r.findTcpConnection seg with
    | none => 0
    | some index => connectionAnswers (r.tcpConnections index) seg

/-- The accesses of `process_tcp` to the frame. -/
def readSegment (frame : List UInt8) (ipHeaderLen ipEnd : Nat) : Checked Unit := do
  let base := ethHdrLen + ipHeaderLen
  if ipEnd < base + tcpHdrLen ∨ frame.length < ipEnd then return
  else
    let _srcMac ← macAt frame 6
    let _srcPort ← u16At frame base
    let _dstPort ← u16At frame (base + 2)
    let _seq ← u32At frame (base + 4)
    let _ack ← u32At frame (base + 8)
    let dataOffset := ((← itemAt frame (base + 12)) >>> 4).toNat * 4
    if dataOffset < tcpHdrLen ∨ ipEnd < base + dataOffset then return
    else
      let _flags ← itemAt frame (base + 13)
      let _payload ← slice frame (base + dataOffset) ipEnd

/-- `process_tcp`. -/
def processTcpFrame (frame : Frame) : Receiver Unit := do
  fromResult (readSegment frame.bytes frame.ipHeaderLen frame.ipEnd)
  let s ← get
  let answers := frame.segment?.elim 0 s.runtime.tcpAnswers
  set { s with
    runtime := s.runtime.processTcp frame
    emitted := List.replicate answers (ethHdrLen + ipv4HdrLen + tcpHdrLen) ++ s.emitted }

/-! ### IPv4 and Ethernet -/

/-- What `process_ipv4` reads from the header. -/
structure Ipv4Header where
  srcMac : Mac
  headerLen : Nat
  proto : UInt8
  totalLen : UInt16
  srcIp : Ipv4
  dstIp : Ipv4

/-- The header of a frame, unless its lengths do not fit. -/
def ipv4Header? (frame : List UInt8) : Checked (Option Ipv4Header) := do
  if frame.length < ethHdrLen + ipv4HdrLen then return none
  else
    let srcMac ← macAt frame 6
    let headerLen := ((← itemAt frame ethHdrLen) &&& 0x0f).toNat * 4
    if headerLen < ipv4HdrLen ∨ frame.length < ethHdrLen + headerLen then return none
    else
      let proto ← itemAt frame (ethHdrLen + 9)
      let totalLen ← u16At frame (ethHdrLen + 2)
      if totalLen.toNat < headerLen ∨ frame.length < ethHdrLen + totalLen.toNat then return none
      else
        let srcIp ← u32At frame (ethHdrLen + 12)
        let dstIp ← u32At frame (ethHdrLen + 16)
        return some ⟨srcMac, headerLen, proto, totalLen, srcIp, dstIp⟩

/-- The first look at a UDP datagram, while an address is being asked for: whether it is taken. -/
def processEarlyDhcp (frame : List UInt8) (h : Ipv4Header) : Receiver Bool := do
  if (← get).dhcp.waiting ∧ h.proto = 17 then
    match ← fromResult (datagram? frame h.headerLen (ethHdrLen + h.totalLen.toNat)) with
    | none => return false
    | some d => processDhcpPayload h.srcIp d.srcPort d.dstPort d.payload
  else return false

def dispatchIpv4 (frame : List UInt8) (h : Ipv4Header) : Receiver Unit :=
  let ipEnd := ethHdrLen + h.totalLen.toNat
  if h.proto = 1 then processIcmp frame h.headerLen ipEnd
  else if h.proto = 6 then processTcpFrame ⟨frame, h.headerLen, h.srcIp, h.totalLen⟩
  else if h.proto = 17 then processUdp frame h.headerLen h.srcIp ipEnd
  else pure ()

def processIpv4 (frame : List UInt8) : Receiver Unit := do
  match ← fromResult (ipv4Header? frame) with
  | none => return
  | some h =>
    if ← processEarlyDhcp frame h then return
    else
      let r := (← get).runtime
      if h.dstIp ≠ r.ip ∧ h.dstIp ≠ broadcastIp then return
      else
        if h.dstIp = r.ip ∧ h.srcIp >>> 24 ≠ 0 ∧ h.srcIp >>> 24 < 224 then
          updateArp (r.nextHopIp h.srcIp) h.srcMac
        dispatchIpv4 frame h

def processEthernetFrame (frame : List UInt8) : Receiver Unit := do
  if frame.length < ethHdrLen then return
  else
    let ethertype ← fromResult (u16At frame 12)
    if ethertype = 0x0806 then processArp frame
    else if ethertype = 0x0800 then processIpv4 frame
    else return

/-- The frame in the queue of every session that asked for raw frames. -/
def Station.queueRaw (length : Nat) (s : Station) : Station :=
  let owners := (s.runtime.sessions.filter fun x => x.active && x.rawRxEnabled).map (·.callerId)
  let rawRx := owners.foldl (fun q owner => q.push rawRxQueueCap (RxEntry.cut rawRxMaxBytes owner 0 length))
    s.runtime.rawRx
  { s with runtime := { s.runtime with rawRx := rawRx } }

def processFrame (frame : List UInt8) : Receiver Unit := do
  modify (Station.queueRaw frame.length)
  processEthernetFrame frame

/-- What `pump_backend` does with a frame that the device has: one that is empty or too long is left
out. -/
def receiveFrame (frame : List UInt8) : Receiver Unit :=
  if 0 < frame.length ∧ frame.length ≤ netDeviceRxFrameMax then processFrame frame else pure ()

end Nanami.Net
