import Nanami.Net.Requests

/-!
# Which requests stay inside the client's memory

A handler that compares a wrapped sum with the size of the shared memory accepts offsets near the end
of the address space and then touches memory in front of the region; a raw frame may be longer than
the transmit area. For each request the words are given for which the handler stays inside whatever
the server's state.
-/

namespace Nanami.Net

open Lib

def Access.Touches (a : Access) (byte : Nat) : Prop := ∃ k < a.length, byte = wrappingAdd a.start k

def ClientSession.Holds (session : ClientSession) (byte : Nat) : Prop :=
  session.shmLocal.toNat ≤ byte ∧ byte < session.shmLocal.toNat + session.shmSize.toNat

def InTransmitArea (backend : Word) (byte : Nat) : Prop :=
  backend.toNat + backendTxOffset ≤ byte ∧ byte < backend.toNat + rxBatchOffset

def Inside (session : ClientSession) (backend : Word) (a : Access) : Prop :=
  ∀ byte, a.Touches byte → session.Holds byte ∨ InTransmitArea backend byte

def backendShmBytes : Nat := 0x20000

/-- The two mappings end inside the address space. -/
structure Placed (session : ClientSession) (backend : Word) : Prop where
  client : session.shmLocal.toNat + session.shmSize.toNat ≤ wordSize
  device : backend.toNat + backendShmBytes ≤ wordSize

variable {session : ClientSession} {backend : Word} {s t : Server} {offset length : Nat}

/-- Everything touched so far is inside. -/
structure Stays (session : ClientSession) (backend : Word) (s : Server) : Prop where
  place : s.runtime.backendShmLocal = backend
  inside : ∀ a ∈ s.accesses, Inside session backend a

lemma Stays.setConnection {index conn} (hs : Stays session backend s) :
    Stays session backend (s.setConnection index conn) := ⟨hs.place, hs.inside⟩

lemma Stays.updateSession {callerId change} (hs : Stays session backend s) :
    Stays session backend (s.updateSession callerId change) := by
  rw [Server.updateSession]
  split
  · exact hs
  · exact ⟨hs.place, hs.inside⟩

/-- A handler that starts and ends inside. -/
def Keeps {α : Type} (session : ClientSession) (backend : Word) (m : Handler α) (s : Server) : Prop :=
  wp m (fun _ t => Stays session backend t) (fun _ t => Stays session backend t) s

section Inside

variable (hp : Placed session backend) (hs : Stays session backend s)
include hp hs

end Inside

/-! ### The words for which a request stays inside -/

/-- The requests that touch memory at addresses their words give. -/
inductive RequestKind where
  | send | recv | tcpAccept | tcpSend | tcpRecv | udpSend | udpRecv | icmpSend | icmpRecv | dnsQuery
  | arpSnapshot
  deriving DecidableEq, Repr

/-- What the surroundings decide while a request is handled. -/
structure Surroundings where
  pumped : RxQueue rawRxMaxBytes → RxQueue rawRxMaxBytes
  neighbour : Bool
  answer : Except RequestError Ipv4
  snapshot : Option Nat

def handleNetworkRequest (env : Surroundings) (request : ServiceRequest) :
    RequestKind → Handler Response
  | .send => handleSend request
  | .recv => handleRecv request env.pumped
  | .tcpAccept => handleTcpAcceptRequest request
  | .tcpSend => handleTcpSendRequest request
  | .tcpRecv => Prod.fst <$> handleTcpRecvRequest request
  | .udpSend => handleUdpSend request
  | .udpRecv => handleUdpRecvRequest request
  | .icmpSend => handleIcmpSend request
  | .icmpRecv => handleIcmpRecvRequest request
  | .dnsQuery => handleDnsQueryRequest request env.neighbour env.answer
  | .arpSnapshot => handleSnapshotRequest request env.snapshot

/-- The check rejects the range, or the range does not wrap. -/
def Unwrapped (session : ClientSession) (offset length : Nat) : Prop :=
  exceeds session offset length = true ∨ offset + length < wordSize

def DeliveryFits (session : ClientSession) (request : ServiceRequest) (metaLen max : Nat) : Prop :=
  exceeds session request.arg0.toNat metaLen = true ∨
    (request.arg1.toNat + min max request.arg2.toNat < wordSize ∧
      (session.shmSize.toNat < request.arg1.toNat ∨ request.arg0.toNat + metaLen < wordSize))

def Fits (session : ClientSession) (request : ServiceRequest) : RequestKind → Prop
  | .send => request.arg1.toNat = 0 ∨ exceeds session request.arg0.toNat request.arg1.toNat = true ∨
      (request.arg0.toNat + request.arg1.toNat < wordSize ∧ request.arg1.toNat ≤ backendTxBytes)
  | .recv => request.arg0.toNat + min rawRxMaxBytes request.arg1.toNat < wordSize
  | .tcpAccept => Unwrapped session request.arg0.toNat tcpRxMetaLen
  | .tcpSend => request.arg1.toNat = 0 ∨ tcpGenerations * tcpMaxConnections < request.arg3.toNat ∨
      Unwrapped session request.arg0.toNat request.arg1.toNat
  | .udpSend => request.arg1.toNat = 0 ∨
      Unwrapped session request.arg0.toNat (min request.arg1.toNat udpPayloadMax)
  | .udpRecv => DeliveryFits session request udpRxMetaLen udpPayloadMax
  | .icmpRecv => DeliveryFits session request icmpRxMetaLen icmpPayloadMax
  | .dnsQuery => request.arg1.toNat = 0 ∨ 253 < request.arg1.toNat ∨
      exceeds session request.arg0.toNat request.arg1.toNat = true ∨
      exceeds session request.arg2.toNat 4 = true ∨
      (request.arg0.toNat + request.arg1.toNat < wordSize ∧ request.arg2.toNat + 4 < wordSize)
  | .tcpRecv => True
  | .icmpSend => True
  | .arpSnapshot => True

variable {request : ServiceRequest}

lemma le_of_not_exceeds (h : ¬exceeds session offset length = true) (hw : offset + length < wordSize) :
    offset + length ≤ session.shmSize.toNat := by
  simp only [exceeds, gt_iff_lt, decide_eq_true_eq, not_lt, wrappingAdd] at h
  rwa [Nat.mod_eq_of_lt hw] at h

lemma Unwrapped.le (h : Unwrapped session offset length) (hx : ¬exceeds session offset length = true) :
    offset + length ≤ session.shmSize.toNat :=
  le_of_not_exceeds hx (h.resolve_left hx)

section Handlers

variable (hp : Placed session backend) (hs : Stays session backend s)
  (hses : s.runtime.sessionFor request.identifier = some session)
include hp hs hses

end Handlers

/-! ### Which requests are safe -/

/-- In every state whose connections have issued identifiers the request stays inside. -/
def Safe (session : ClientSession) (backend : Word) (request : ServiceRequest) (kind : RequestKind) :
    Prop :=
  ∀ env s, s.runtime.Issued → s.runtime.sessionFor request.identifier = some session →
    s.runtime.backendShmLocal = backend → s.accesses = [] →
    ∀ a ∈ (stateAfter (handleNetworkRequest env request kind) s).accesses, Inside session backend a

end Nanami.Net
