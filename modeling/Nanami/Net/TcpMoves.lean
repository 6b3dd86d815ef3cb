import Nanami.Net.TcpReceive
import Nanami.Net.TcpIndexChains

/-!
# What a segment can do to the connections

`Sound` is what holds of the connection table, its index and the receive buffers in every state of the
server. `Moves P r r'` says that going from `r` to `r'` changed slots in `P` only and opened no
connection; `Places` is the opening of one.
-/

namespace Nanami.Net

open Lib Function

/-- The same connection later on. -/
structure TcpConnection.Continues (conn conn' : TcpConnection) : Prop where
  active : conn'.active = conn.active
  owner : conn'.ownerId = conn.ownerId
  id : conn'.connectionId = conn.connectionId
  peerIp : conn'.peerIp = conn.peerIp
  peerPort : conn'.peerPort = conn.peerPort
  localPort : conn'.localPort = conn.localPort

namespace TcpConnection.Continues

variable {conn conn' conn'' : TcpConnection}

lemma refl : conn.Continues conn := ⟨rfl, rfl, rfl, rfl, rfl, rfl⟩

lemma trans (h : conn.Continues conn') (h' : conn'.Continues conn'') : conn.Continues conn'' :=
  ⟨h'.active.trans h.active, h'.owner.trans h.owner, h'.id.trans h.id, h'.peerIp.trans h.peerIp,
    h'.peerPort.trans h.peerPort, h'.localPort.trans h.localPort⟩

lemma hasTriple (h : conn.Continues conn') {ip peerPort localPort} :
    TcpIndex.hasTriple conn' ip peerPort localPort = TcpIndex.hasTriple conn ip peerPort localPort := by
  rw [TcpIndex.hasTriple, TcpIndex.hasTriple, h.peerIp, h.peerPort, h.localPort]

lemma serves (h : conn.Continues conn') {ip peerPort localPort}
    (hserves : conn.Serves ip peerPort localPort) : conn'.Serves ip peerPort localPort :=
  ⟨h.active.trans hserves.1, h.hasTriple.trans hserves.2⟩

lemma bucket (h : conn.Continues conn') : conn'.bucket = conn.bucket := by
  rw [TcpConnection.bucket, TcpConnection.bucket, h.peerIp, h.peerPort, h.localPort]

end TcpConnection.Continues

/-- What holds of one slot: a connection in it has its place in the table and an identifier that names
the slot, and without a connection no byte is left behind. -/
structure SlotSound (i : Nat) (conn : TcpConnection) (buffer : TcpRxBuffer) : Prop where
  bound : conn.active = true → i < tcpMaxConnections
  ids : conn.active = true → conn.IssuedAt i
  quiet : conn.active = false → buffer.len = 0

/-- The table, its index and the receive buffers belong together. -/
structure Sound (r : NetRuntime) : Prop where
  index : r.tcpIndex.Indexes r.tcpConnections
  rx : r.tcpRx.Valid
  slots : ∀ i, SlotSound i (r.tcpConnections i) (r.tcpRx.buffers i)
  generations : ∀ i, r.tcpIndex.generations i < tcpGenerations

lemma Sound.issued {r} (hs : Sound r) : r.Issued := fun i _ => (hs.slots i).ids

lemma Sound.active_of_len {r i} (hs : Sound r) (h : (r.tcpRx.buffers i).len ≠ 0) :
    (r.tcpConnections i).active = true := by
  rw [← Bool.not_eq_false]
  exact fun hfalse => h ((hs.slots i).quiet hfalse)

lemma SlotSound.empty {i buffer} (h : buffer.len = 0) : SlotSound i .empty buffer :=
  ⟨nofun, nofun, fun _ => h⟩

lemma SlotSound.continues {i conn conn' buffer buffer'} (h : SlotSound i conn buffer)
    (hactive : conn.active = true) (hc : conn.Continues conn') : SlotSound i conn' buffer' := by
  have hactive' : conn'.active = true := hc.active.trans hactive
  refine ⟨fun _ => h.bound hactive, fun _ => ?_, fun hv => ?_⟩
  · rw [TcpConnection.IssuedAt, hc.id]
    exact h.ids hactive
  · rw [hactive'] at hv
    cases hv

lemma Fresh.sound {r} (h : Fresh r) : Sound r := by
  obtain ⟨hconnections, hindex, hrx, -⟩ := h
  refine ⟨?_, ?_, fun i => ?_, fun i => ?_⟩
  · rw [hindex, hconnections]
    exact TcpIndex.empty_indexes
  · rw [hrx]
    exact TcpRxQueue.new_valid
  · rw [hconnections, hrx]
    exact .empty rfl
  · rw [hindex]
    exact (by decide : 0 < tcpGenerations)

/-- From `r` to `r'` only slots in `P` changed, and no connection was opened. -/
structure Moves (P : Nat → Prop) (r r' : NetRuntime) : Prop where
  sound : Sound r'
  others : ∀ j, ¬P j →
    r'.tcpConnections j = r.tcpConnections j ∧ r'.tcpRx.buffers j = r.tcpRx.buffers j
  kept : ∀ j, (r'.tcpConnections j).active = true →
    (r.tcpConnections j).Continues (r'.tcpConnections j)

namespace Moves

variable {P P' : Nat → Prop} {r r' r'' : NetRuntime}

lemma refl (hs : Sound r) : Moves P r r := ⟨hs, fun _ _ => ⟨rfl, rfl⟩, fun _ _ => .refl⟩

lemma trans (h : Moves P r r') (h' : Moves P r' r'') : Moves P r r'' where
  sound := h'.sound
  others j hj := ⟨(h'.others j hj).1.trans (h.others j hj).1, (h'.others j hj).2.trans (h.others j hj).2⟩
  kept j hj := by
    have hlast := h'.kept j hj
    exact (h.kept j (hlast.active.symm.trans hj)).trans hlast

lemma mono (h : Moves P r r') (hP : ∀ j, P j → P' j) : Moves P' r r' :=
  ⟨h.sound, fun j hj => h.others j fun hp => hj (hP j hp), h.kept⟩

end Moves

/-! ### Changes of one slot -/

variable {r r' : NetRuntime} {i : Nat} {conn : TcpConnection} {seg : Segment} {q : TcpRxQueue}

def SameBut (i : Nat) (r r' : NetRuntime) : Prop :=
  ∀ j ≠ i, r'.tcpConnections j = r.tcpConnections j ∧ r'.tcpRx.buffers j = r.tcpRx.buffers j

lemma SameBut.trans {r''} (h : SameBut i r r') (h' : SameBut i r' r'') : SameBut i r r'' :=
  fun j hj => ⟨(h' j hj).1.trans (h j hj).1, (h' j hj).2.trans (h j hj).2⟩

lemma Sound.of_slot (hs : Sound r) (hindex : r'.tcpIndex.Indexes r'.tcpConnections)
    (hrx : r'.tcpRx.Valid) (hothers : SameBut i r r')
    (hslot : SlotSound i (r'.tcpConnections i) (r'.tcpRx.buffers i))
    (hgenerations : ∀ j, r'.tcpIndex.generations j < tcpGenerations) : Sound r' := by
  refine ⟨hindex, hrx, fun j => ?_, hgenerations⟩
  by_cases hji : j = i
  · subst hji
    exact hslot
  · rw [(hothers j hji).1, (hothers j hji).2]
    exact hs.slots j

lemma Moves.of_slot (hs : Sound r') (hothers : SameBut i r r')
    (hkept : (r'.tcpConnections i).active = true →
      (r.tcpConnections i).Continues (r'.tcpConnections i)) : Moves (· = i) r r' := by
  refine ⟨hs, hothers, fun j hj => ?_⟩
  by_cases hji : j = i
  · subst hji
    exact hkept hj
  · rw [(hothers j hji).1]
    exact .refl

@[simp] lemma setConnection_self : (r.setConnection i conn).tcpConnections i = conn :=
  update_self _ _ _

/-- The connection in the slot `i` goes on, and nothing else changes. -/
structure Evolves (i : Nat) (r r' : NetRuntime) : Prop where
  sound : Sound r'
  same : SameBut i r r'
  continues : (r.tcpConnections i).Continues (r'.tcpConnections i)

namespace Evolves

lemma refl (hs : Sound r) : Evolves i r r := ⟨hs, fun _ _ => ⟨rfl, rfl⟩, .refl⟩

lemma trans {r''} (h : Evolves i r r') (h' : Evolves i r' r'') : Evolves i r r'' :=
  ⟨h'.sound, h.same.trans h'.same, h.continues.trans h'.continues⟩

lemma moves (h : Evolves i r r') : Moves (· = i) r r' := .of_slot h.sound h.same fun _ => h.continues

lemma active (h : Evolves i r r') (hactive : (r.tcpConnections i).active = true) :
    (r'.tcpConnections i).active = true := h.continues.active.trans hactive

end Evolves

lemma Sound.alter (hs : Sound r) (hactive : (r.tcpConnections i).active = true)
    (hconn : (r.tcpConnections i).Continues conn) (hq : q.Valid)
    (hothers : ∀ j ≠ i, q.buffers j = r.tcpRx.buffers j) :
    Evolves i r { r.setConnection i conn with tcpRx := q } := by
  have hsame : SameBut i r { r.setConnection i conn with tcpRx := q } := fun j hj =>
    ⟨update_of_ne hj _ _, hothers j hj⟩
  have hself : ({ r.setConnection i conn with tcpRx := q } : NetRuntime).tcpConnections i = conn :=
    setConnection_self
  refine ⟨hs.of_slot ?_ hq hsame ?_ hs.generations, hsame, ?_⟩
  · exact hs.index.update hconn.active fun _ => hconn.bucket
  · rw [hself]
    exact (hs.slots i).continues hactive hconn
  · rw [hself]
    exact hconn

lemma Sound.setConnection (hs : Sound r) (hactive : (r.tcpConnections i).active = true)
    (hconn : (r.tcpConnections i).Continues conn) : Evolves i r (r.setConnection i conn) :=
  hs.alter hactive hconn hs.rx fun _ _ => rfl

/-- `tcp_reset` leaves an empty slot and changes nothing else. -/
structure ResetAt (i : Nat) (r r' : NetRuntime) : Prop where
  sound : Sound r'
  same : SameBut i r r'
  empty : r'.tcpConnections i = .empty

lemma Sound.resetAt (hs : Sound r) (hi : i < tcpMaxConnections) : ResetAt i r (r.tcpReset i) := by
  have hclear := TcpRxQueue.reset_spec hs.rx hi
  rw [NetRuntime.tcpReset, if_pos hi]
  have hsame : SameBut i r { r with
      tcpIndex := r.tcpIndex.remove i (r.tcpConnections i)
      tcpRx := r.tcpRx.reset i
      tcpConnections := update r.tcpConnections i .empty } := fun j hj =>
    ⟨update_of_ne hj _ _, hclear.others j hj⟩
  refine ⟨hs.of_slot (hs.index.remove hi rfl) hclear.valid hsame ?_ fun j => ?_, hsame,
    update_self _ _ _⟩
  · simp only [update_self]
    exact .empty hclear.empty
  · rw [TcpIndex.remove_generations]
    exact hs.generations j

lemma ResetAt.moves (h : ResetAt i r r') : Moves (· = i) r r' := by
  refine .of_slot h.sound h.same fun hactive => ?_
  rw [h.empty] at hactive
  cases hactive

lemma Sound.tcpReset (hs : Sound r) : Moves (· = i) r (r.tcpReset i) := by
  by_cases hi : i < tcpMaxConnections
  · exact (hs.resetAt hi).moves
  · rw [NetRuntime.tcpReset, if_neg hi]
    exact .refl hs

/-- A new connection in the slot `i`. -/
structure Places (i : Nat) (conn : Nat → TcpConnection) (r r' : NetRuntime) : Prop where
  sound : Sound r'
  same : SameBut i r r'
  placed : ∃ id, r'.tcpConnections i = conn id

lemma Sound.openConnection {ip peerPort localPort conn} (hs : Sound r) (hi : i < tcpMaxConnections)
    (hconn : ∀ id, (conn id).Serves ip peerPort localPort)
    (hid : ∀ id, (conn id).connectionId = id) :
    Places i conn r (r.openConnection i ip peerPort localPort conn) := by
  have hreset := hs.resetAt hi
  have hvacant : ((r.tcpReset i).tcpConnections i).active = false := by
    rw [hreset.empty]
    rfl
  have hsame : SameBut i r (r.openConnection i ip peerPort localPort conn) := fun j hj =>
    ⟨(update_of_ne hj _ _).trans (hreset.same j hj).1, (hreset.same j hj).2⟩
  have hself : (r.openConnection i ip peerPort localPort conn).tcpConnections i =
      conn ((r.tcpReset i).tcpIndex.insert i ip peerPort localPort).1 := update_self _ _ _
  refine ⟨hs.of_slot (hreset.sound.index.insert hi hvacant (hconn _)) hreset.sound.rx hsame ?_ ?_, hsame,
    ⟨_, hself⟩⟩
  · rw [hself]
    have hactive := (hconn ((r.tcpReset i).tcpIndex.insert i ip peerPort localPort).1).1
    refine ⟨fun _ => hi, fun _ => ⟨_, hreset.sound.generations i, hid _⟩, fun h => ?_⟩
    rw [hactive] at h
    cases h
  · exact (forall_update_iff _ fun _ generation => generation < tcpGenerations).mpr
      ⟨Nat.mod_lt _ (by decide), fun j _ => hreset.sound.generations j⟩

/-! ### Segments of a connection -/

namespace TcpConnection

lemma receiveFin_continues (seg : Segment) : conn.Continues (conn.receiveFin seg) := by
  rw [receiveFin]
  split <;> exact ⟨rfl, rfl, rfl, rfl, rfl, rfl⟩

lemma acknowledge_continues (seg : Segment) : conn.Continues (conn.acknowledge seg) := by
  rw [acknowledge]
  split <;> exact ⟨rfl, rfl, rfl, rfl, rfl, rfl⟩

lemma acknowledgeFin_continues (seg : Segment) : conn.Continues (conn.acknowledgeFin seg) := by
  rw [acknowledgeFin]
  split <;> exact ⟨rfl, rfl, rfl, rfl, rfl, rfl⟩

end TcpConnection

open NetRuntime TcpConnection

section Segments

variable (seg : Segment) (hs : Sound r) (hactive : (r.tcpConnections i).active = true)
include hs hactive

lemma receivePayload_evolves : Evolves i r (r.receivePayload i seg) := by
  have hi := (hs.slots i).bound hactive
  rw [receivePayload]
  split
  · have hpush := TcpRxQueue.push_spec
      (seg.payload.drop ((r.tcpConnections i).rcvNxt - seg.seq).toNat) hs.rx hi
    exact hs.alter hactive ⟨rfl, rfl, rfl, rfl, rfl, rfl⟩ hpush.valid hpush.others
  · exact .refl hs

lemma receiveSegment_evolves : Evolves i r (r.receiveSegment i seg) := by
  have hpayload := receivePayload_evolves seg hs hactive
  exact hpayload.trans (hpayload.sound.setConnection (hpayload.active hactive)
    (receiveFin_continues seg))

lemma receiveLastFin_moves : Moves (· = i) r (r.receiveLastFin i seg) := by
  rw [receiveLastFin]
  split
  · show Moves _ r (if (r.tcpConnections i).sndUna = (r.tcpConnections i).sndNxt then _ else _)
    split
    · have hset : Evolves i r (r.setConnection i
          { r.tcpConnections i with rcvNxt := (r.tcpConnections i).rcvNxt + 1 }) :=
        hs.setConnection hactive ⟨rfl, rfl, rfl, rfl, rfl, rfl⟩
      exact hset.moves.trans hset.sound.tcpReset
    · refine (hs.setConnection hactive ?_).moves
      exact ⟨rfl, rfl, rfl, rfl, rfl, rfl⟩
  · exact .refl hs

lemma processConnection_moves : Moves (· = i) r (r.processConnection i seg) := by
  have hset : ∀ conn, (r.tcpConnections i).Continues conn → Evolves i r (r.setConnection i conn) :=
    fun conn => hs.setConnection hactive
  rw [processConnection]
  by_cases hrst : seg.has tcpFlagRst
  · rw [if_pos hrst]
    exact hs.tcpReset
  rw [if_neg hrst]
  cases hstate : (r.tcpConnections i).state with
  | closed => exact hs.tcpReset
  | synSent =>
    dsimp only
    split
    · refine (hset _ ?_).moves
      exact ⟨rfl, rfl, rfl, rfl, rfl, rfl⟩
    · exact .refl hs
  | synReceived =>
    dsimp only
    split
    · have hopen := hset { r.tcpConnections i with state := .established, sndUna := seg.ack }
        ⟨rfl, rfl, rfl, rfl, rfl, rfl⟩
      exact hopen.moves.trans (receiveSegment_evolves seg hopen.sound (hopen.active hactive)).moves
    · exact .refl hs
  | established =>
    have hack := hset _ (acknowledge_continues seg)
    exact hack.moves.trans (receiveSegment_evolves seg hack.sound (hack.active hactive)).moves
  | closeWait => exact (hset _ (acknowledge_continues seg)).moves
  | finWait1 =>
    have hack := hset _ (acknowledgeFin_continues seg)
    exact hack.moves.trans (receiveLastFin_moves seg hack.sound (hack.active hactive))
  | finWait2 =>
    have hack := hset _ (acknowledgeFin_continues seg)
    exact hack.moves.trans (receiveLastFin_moves seg hack.sound (hack.active hactive))
  | lastAck =>
    dsimp only
    split
    · exact hs.tcpReset
    · exact .refl hs

end Segments

/-! ### Segments that open a connection -/

lemma Sound.of_allocate (hs : Sound r) (h : r.allocateTcpConnection = some i) :
    i < tcpMaxConnections ∧ ((r.tcpConnections i).active = false ∨
      r.tcpIndex.vacant = none ∧ (r.tcpConnections i).state = .finWait2) := by
  rw [allocateTcpConnection] at h
  cases hvacant : r.tcpIndex.vacant with
  | some j =>
    rw [hvacant, Option.some_or] at h
    cases h
    obtain ⟨hi, hfree⟩ := hs.index.of_vacant hvacant
    exact ⟨hi, .inl hfree⟩
  | none =>
    rw [hvacant, Option.none_or] at h
    unfold reclaimable at h
    have hstate := List.find?_some h
    exact ⟨List.mem_range.mp (List.mem_of_find?_eq_some h), .inr ⟨rfl, by simpa using hstate⟩⟩

/-- What `process_tcp` does with a segment: nothing, a change of the connection it belongs to, or a new
connection for a session that has the port, when there was none with these addresses. -/
inductive Arrives (r : NetRuntime) (seg : Segment) : NetRuntime → Prop
  | dropped : Arrives r seg r
  | moved {i : Nat} {r' : NetRuntime} (found : r.findTcpConnection seg = some i)
      (moves : Moves (· = i) r r') : Arrives r seg r'
  | placed {i : Nat} {session : ClientSession} {r' : NetRuntime} (opens : seg.opens = true)
      (listens : r.sessionForTcpPort seg.dstPort = some session)
      (fresh : r.findTcpConnection seg = none) (allocated : r.allocateTcpConnection = some i)
      (places : Places i (synConnection seg session.callerId i) r r') : Arrives r seg r'

lemma synConnection_serves {owner id} :
    (synConnection seg owner i id).Serves seg.srcIp seg.srcPort seg.dstPort :=
  ⟨rfl, TcpIndex.hasTriple_iff.mpr ⟨rfl, rfl, rfl⟩⟩

lemma processSyn_arrives (hs : Sound r) (hopens : seg.opens = true) :
    Arrives r seg (r.processSyn seg) := by
  rw [processSyn]
  cases hsession : r.sessionForTcpPort seg.dstPort with
  | none => exact .dropped
  | some session =>
    cases hfind : r.findTcpConnection seg with
    | some j => exact .dropped
    | none =>
      cases halloc : r.allocateTcpConnection with
      | none => exact .dropped
      | some i =>
        exact .placed hopens hsession hfind halloc <|
          hs.openConnection (hs.of_allocate halloc).1 (fun _ => synConnection_serves) fun _ => rfl

lemma processSegment_arrives (seg : Segment) (hs : Sound r) : Arrives r seg (r.processSegment seg) := by
  rw [processSegment]
  split
  · exact processSyn_arrives hs ‹_›
  · cases hfind : r.findTcpConnection seg with
    | none => exact .dropped
    | some i => exact .moved hfind (processConnection_moves seg hs (hs.index.of_find hfind).1)

end Nanami.Net
