import Nanami.Nun
import Nanami.Lib.Wp
import Nanami.Lib.Machine
import Nanami.Lib.Ring

/-!
# The network server's state

The data of `net-server`: client sessions with their shared memory and bound ports, the table of TCP
connections, and the queues of received datagrams. Fixed arrays are functions of the index, and are
searched over their length; the searches are irreducible, so that comparing statements does not run
them. An IPv4 address is the `u32` of its four bytes.
-/

namespace Nanami.Net

open Lib Function

abbrev Ipv4 := UInt32

abbrev Mac := UInt64

def tcpPayloadMax : Nat := 1460
def tcpRxMetaLen : Nat := 12
def tcpMaxConnections : Nat := 1024
def udpPayloadMax : Nat := 1472
def udpRxMetaLen : Nat := 16
def icmpPayloadMax : Nat := 1480
def icmpRxMetaLen : Nat := 8
def rawRxMaxBytes : Nat := 1536
def udpRxQueueCap : Nat := 8
def icmpRxQueueCap : Nat := 8
def rawRxQueueCap : Nat := 4
def clientSessionMax : Nat := 4
def clientBindMax : Nat := 16

/-- The states `TCP_STATE_*` of a connection. -/
inductive TcpState where
  | closed | synReceived | established | finWait1 | finWait2 | closeWait | lastAck | synSent
  deriving DecidableEq, Repr

structure TcpConnection where
  active : Bool
  ownerId : Nat
  connectionId : Nat
  accepted : Bool
  eofPending : Bool
  state : TcpState
  peerIp : Ipv4
  peerPort : UInt16
  localPort : UInt16
  sndIss : UInt32
  sndNxt : UInt32
  sndUna : UInt32
  rcvNxt : UInt32
  deriving DecidableEq, Repr

def TcpConnection.empty : TcpConnection :=
  ⟨false, 0, 0, false, false, .closed, 0, 0, 0, 0, 0, 0, 0⟩

structure ClientSession where
  active : Bool
  callerId : Nat
  shmLocal : Word
  shmSize : Word
  udpPorts : List UInt16
  tcpPorts : List UInt16
  icmpIdentifiers : List UInt16
  rawRxEnabled : Bool

def ClientSession.empty : ClientSession :=
  ⟨false, 0, 0, 0, List.replicate clientBindMax 0, List.replicate clientBindMax 0,
    List.replicate clientBindMax 0, false⟩

/-- A received datagram for an owner, cut to what its queue stores. `key` is the UDP port or the
ICMP identifier it is asked for by. -/
structure RxEntry (max : Nat) where
  owner : Nat
  key : UInt16
  length : Nat
  fits : length ≤ max

/-- The queues `UdpRxQueue`, `IcmpRxQueue` and `RawRxQueue`, oldest entry first. -/
abbrev RxQueue (max : Nat) := List (RxEntry max)

/-- `pop_for`: the entries before the first that matches go to the end of the queue. -/
def RxQueue.popFor {max : Nat} (q : RxQueue max) (wanted : RxEntry max → Bool) :
    Option (RxEntry max) × RxQueue max :=
  match q.dropWhile (fun e => !wanted e) with
  | [] => (none, q)
  | e :: rest => (some e, rest ++ q.takeWhile (fun e => !wanted e))

/-- `push`: a full queue loses its oldest entry. -/
def RxQueue.push {max : Nat} (q : RxQueue max) (cap : Nat) (entry : RxEntry max) : RxQueue max :=
  (if q.length = cap then q.tail else q) ++ [entry]

/-- A connection's `TcpRxBuffer`. -/
structure TcpRxBuffer where
  data : Nat → UInt8
  head : Nat
  len : Nat
  window : Nat

/-- The receive buffers, and the ring of connections that have something to read. -/
structure TcpRxQueue where
  buffers : Nat → TcpRxBuffer
  ready : Nat → Nat
  head : Nat
  count : Nat

namespace TcpRxQueue

def new : TcpRxQueue := ⟨fun _ => ⟨fun _ => 0, 0, 0, tcpPayloadMax⟩, fun _ => 0, 0, 0⟩

def window (q : TcpRxQueue) (index : Nat) : Nat := (q.buffers index).window

def enqueue (q : TcpRxQueue) (index : Nat) : TcpRxQueue :=
  { q with
    ready := update q.ready ((q.head + q.count) % tcpMaxConnections) index
    count := q.count + 1 }

def dequeue (q : TcpRxQueue) : TcpRxQueue :=
  { q with head := (q.head + 1) % tcpMaxConnections, count := q.count - 1 }

/-- `push`: how many bytes fitted the window, and the queue with them. -/
def push (q : TcpRxQueue) (index : Nat) (payload : List UInt8) : Nat × TcpRxQueue :=
  let buffer := q.buffers index
  let len := min payload.length buffer.window
  if len = 0 then (0, q)
  else
    let q := if buffer.len = 0 then q.enqueue index else q
    let tail := (buffer.head + buffer.len) % tcpPayloadMax
    let buffer := { buffer with
      data := Ring.copyAround tcpPayloadMax buffer.data tail (payload.take len)
      len := buffer.len + len
      window := buffer.window - len }
    (len, { q with buffers := update q.buffers index buffer })

end TcpRxQueue

/-- What `read_for` takes out of a buffer: up to `limit` bytes, and whether the window opened. -/
def TcpRxBuffer.read (buffer : TcpRxBuffer) (limit : Nat) : List UInt8 × Bool × TcpRxBuffer :=
  let len := min limit buffer.len
  let bytes := Ring.contents tcpPayloadMax buffer.data buffer.head len
  let buffer := { buffer with head := (buffer.head + len) % tcpPayloadMax, len := buffer.len - len }
  let free := tcpPayloadMax - buffer.len
  if free - buffer.window ≥ tcpPayloadMax / 2 then (bytes, true, { buffer with window := free })
  else (bytes, false, buffer)

namespace TcpRxQueue

def putBack (q : TcpRxQueue) (index : Nat) (buffer : TcpRxBuffer) : TcpRxQueue :=
  let q := { q with buffers := update q.buffers index buffer }
  if buffer.len ≠ 0 then q.enqueue index else q

/-- The loop of `read_for`, which looks at each queued connection once. -/
def readFrom (wanted : Nat → Bool) (limit : Nat) :
    Nat → TcpRxQueue → Option (Nat × List UInt8 × Bool) × TcpRxQueue
  | 0, q => (none, q)
  | n + 1, q =>
    let index := q.ready q.head
    let q := q.dequeue
    if wanted index then
      let (bytes, windowUpdated, buffer) := (q.buffers index).read limit
      (some (index, bytes, windowUpdated), q.putBack index buffer)
    else readFrom wanted limit n (q.putBack index (q.buffers index))

def readFor (q : TcpRxQueue) (connections : Nat → TcpConnection) (ownerId connectionId limit : Nat) :
    Option (Nat × List UInt8 × Bool) × TcpRxQueue :=
  if limit = 0 then (none, q)
  else
    q.readFrom (fun index =>
      let conn := connections index
      conn.ownerId == ownerId && (connectionId == 0 || conn.connectionId == connectionId)) limit q.count

/-- The loop of `reset` over the ready ring. -/
def forget (index : Nat) : Nat → TcpRxQueue → TcpRxQueue
  | 0, q => q
  | n + 1, q =>
    let queued := q.ready q.head
    let q := q.dequeue
    forget index n (if queued ≠ index then q.enqueue queued else q)

def reset (q : TcpRxQueue) (index : Nat) : TcpRxQueue :=
  let buffer := q.buffers index
  let q := if buffer.len ≠ 0 then forget index q.count q else q
  let buffer := { buffer with head := 0, len := 0, window := tcpPayloadMax }
  { q with buffers := update q.buffers index buffer }

end TcpRxQueue

def tcpBuckets : Nat := tcpMaxConnections * 2

def tcpGenerations : Nat := (2 ^ 32 - 1) / tcpMaxConnections

/-- The connection has an identifier that `TcpIndex::insert` issues for the slot. -/
def TcpConnection.IssuedAt (conn : TcpConnection) (slot : Nat) : Prop :=
  ∃ generation < tcpGenerations, conn.connectionId = generation * tcpMaxConnections + slot + 1

/-- `TcpIndex`: chains of slots through `next`, one from each bucket, and the free slots. -/
structure TcpIndex where
  buckets : Nat → Option Nat
  next : Nat → Option Nat
  generations : Nat → Nat
  free : Nat → Bool

namespace TcpIndex

def empty : TcpIndex := ⟨fun _ => none, fun _ => none, fun _ => 0, fun _ => true⟩

def bucket (ip : Ipv4) (peerPort localPort : UInt16) : Nat :=
  let key := ip ^^^ (peerPort.toUInt32 <<< 16 ||| localPort.toUInt32)
  let hash := (key ^^^ (key >>> 16)) * 0x9e3779b1
  (hash ^^^ (hash >>> 16)).toNat % tcpBuckets

def hasTriple (conn : TcpConnection) (ip : Ipv4) (peerPort localPort : UInt16) : Bool :=
  conn.peerIp == ip && conn.peerPort == peerPort && conn.localPort == localPort

/-- The loop of `find` along a chain of at most `fuel` slots. -/
def findFrom (index : TcpIndex) (wanted : Nat → Bool) : Nat → Option Nat → Option Nat
  | _, none => none
  | 0, some _ => none
  | fuel + 1, some slot =>
    if wanted slot then some slot else findFrom index wanted fuel (index.next slot)

def find (index : TcpIndex) (connections : Nat → TcpConnection) (ip : Ipv4)
    (peerPort localPort : UInt16) : Option Nat :=
  index.findFrom (fun slot => hasTriple (connections slot) ip peerPort localPort) tcpMaxConnections
    (index.buckets (bucket ip peerPort localPort))

@[irreducible] def vacant (index : TcpIndex) : Option Nat :=
  (List.range tcpMaxConnections).find? index.free

def insert (index : TcpIndex) (slot : Nat) (ip : Ipv4) (peerPort localPort : UInt16) : Nat × TcpIndex :=
  let b := bucket ip peerPort localPort
  let generation := index.generations slot
  (generation * tcpMaxConnections + slot + 1,
    { buckets := update index.buckets b (some slot)
      next := update index.next slot (index.buckets b)
      generations := update index.generations slot ((generation + 1) % tcpGenerations)
      free := update index.free slot false })

/-- The slot taken out of its chain, behind `previous` or at the start of the bucket. -/
def unlink (index : TcpIndex) (b slot : Nat) (previous : Option Nat) : TcpIndex :=
  let after := index.next slot
  let index := match previous with
    | none => { index with buckets := update index.buckets b after }
    | some p => { index with next := update index.next p after }
  { index with
    next := update index.next slot none
    free := update index.free slot true }

/-- The loop of `remove` along a chain of at most `fuel` slots. -/
def removeFrom (index : TcpIndex) (b slot : Nat) : Nat → Option Nat → Option Nat → TcpIndex
  | _, _, none => index
  | 0, _, some _ => index
  | fuel + 1, previous, some current =>
    if current = slot then index.unlink b slot previous
    else removeFrom index b slot fuel (some current) (index.next current)

def remove (index : TcpIndex) (slot : Nat) (conn : TcpConnection) : TcpIndex :=
  if !conn.active then index
  else
    let b := bucket conn.peerIp conn.peerPort conn.localPort
    index.removeFrom b slot tcpMaxConnections none (index.buckets b)

end TcpIndex

structure NetRuntime where
  backendShmLocal : Word
  ip : Ipv4
  subnetMask : Ipv4
  gatewayIp : Ipv4
  dnsIp : Ipv4
  arp : List (Ipv4 × Mac)
  tcpConnections : Nat → TcpConnection
  tcpIndex : TcpIndex
  tcpRx : TcpRxQueue
  sessions : List ClientSession
  udpRx : RxQueue udpPayloadMax
  icmpRx : RxQueue icmpPayloadMax
  rawRx : RxQueue rawRxMaxBytes

def NetRuntime.sessionIndex (r : NetRuntime) (callerId : Nat) : Option Nat :=
  r.sessions.findIdx? fun s => s.active && s.callerId == callerId

def NetRuntime.sessionFor (r : NetRuntime) (callerId : Nat) : Option ClientSession :=
  r.sessions.find? fun s => s.active && s.callerId == callerId

def NetRuntime.session (r : NetRuntime) (index : Nat) : ClientSession :=
  (r.sessions[index]?).getD .empty

def NetRuntime.setSession (r : NetRuntime) (index : Nat) (session : ClientSession) : NetRuntime :=
  { r with sessions := r.sessions.set index session }

def NetRuntime.nextHopIp (r : NetRuntime) (destination : Ipv4) : Ipv4 :=
  if destination &&& r.subnetMask = r.ip &&& r.subnetMask then destination else r.gatewayIp

def NetRuntime.arpLookup (r : NetRuntime) (ip : Ipv4) : Option Mac :=
  (r.arp.find? fun e => e.1 == ip).map Prod.snd

@[irreducible] def NetRuntime.activeTcpConnectionIndex (r : NetRuntime)
    (ownerId connectionId : Nat) : Option Nat :=
  if connectionId = 0 then
    (List.range tcpMaxConnections).find? fun i =>
      (r.tcpConnections i).active && (r.tcpConnections i).ownerId == ownerId
  else
    let index := (connectionId - 1) % tcpMaxConnections
    let conn := r.tcpConnections index
    if conn.active && conn.ownerId == ownerId && conn.connectionId == connectionId then some index
    else none

/-- Every connection has an identifier that was issued for its slot. -/
def NetRuntime.Issued (r : NetRuntime) : Prop :=
  ∀ i < tcpMaxConnections, (r.tcpConnections i).active = true → (r.tcpConnections i).IssuedAt i

end Nanami.Net
