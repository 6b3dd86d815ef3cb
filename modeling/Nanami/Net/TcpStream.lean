import Nanami.Net.TcpOwners
import Nanami.Lib.Sequence

/-!
# The byte stream of a connection

A peer sends fragments of one stream, in any order, overlapping and repeated. What the server accepts
is a prefix of the stream, what it hands to the application is a prefix of that, and the end of the
stream is reported when all of it was handed over. The invariant follows one connection: the bytes held
are those handed over and those in its buffer.
-/

namespace Nanami.Net

open Lib Sequence List TcpConnection NetRuntime Bool

/-- One connection as its peer sees it: where it lives in the server, the number `irs` of the peer's
SYN, and the stream the peer sends. -/
structure Peer where
  slot : Nat
  id : Nat
  ip : Ipv4
  peerPort : UInt16
  localPort : UInt16
  irs : UInt32
  stream : List UInt8

namespace Peer

def seq (c : Peer) (position : Nat) : UInt32 := number (c.irs + 1) position

structure Alive (c : Peer) (conn : TcpConnection) : Prop where
  active : conn.active = true
  id : conn.connectionId = c.id

lemma Alive.before {c : Peer} {conn conn'} (h : c.Alive conn') (hconn : conn.Continues conn') :
    c.Alive conn :=
  ⟨hconn.active.symm.trans h.active, hconn.id.symm.trans h.id⟩

/-- A segment with bytes of the stream from an offset on, less than half the number space from what was
accepted; a FIN stands at the end of the stream only. -/
structure Fragment (c : Peer) (accepted : Nat) (seg : Segment) : Prop where
  part : ∃ offset, seg.seq = c.seq offset ∧ seg.payload <+: c.stream.drop offset ∧
    offset < accepted + 2 ^ 31 ∧ accepted < offset + 2 ^ 31 ∧
    (seg.has tcpFlagFin = true → offset + seg.payload.length = c.stream.length)
  syn : seg.has tcpFlagSyn = false
  rst : seg.has tcpFlagRst = false

/-- A segment of the handshake: the peer's SYN, without bytes. -/
structure Handshake (c : Peer) (seg : Segment) : Prop where
  number : seg.seq = c.irs
  payload : seg.payload = []
  fin : seg.has tcpFlagFin = false
  rst : seg.has tcpFlagRst = false

end Peer

/-- How a connection stands in its stream: `held` was accepted, and `fin` says whether the FIN was. -/
structure Tracks (c : Peer) (conn : TcpConnection) (held : List UInt8) (fin : Bool) : Prop where
  inOrder : held <+: c.stream
  complete : fin = true → held = c.stream
  rcvNxt : conn.state ≠ .synSent → conn.rcvNxt = c.seq held.length + if fin then 1 else 0
  silent : conn.state = .synSent → held = []
  receiving : fin = true → conn.state ≠ .synSent ∧ conn.state ≠ .synReceived ∧ conn.state ≠ .established
  ended : conn.eofPending = true ∨ conn.state = .closeWait ∨ conn.state = .lastAck → fin = true

namespace Tracks

variable {c : Peer} {conn conn' : TcpConnection} {held : List UInt8} {fin : Bool} {seg : Segment}

lemma congr (h : Tracks c conn held fin) (hstate : conn'.state = conn.state)
    (hnext : conn'.rcvNxt = conn.rcvNxt) (hend : conn'.eofPending = conn.eofPending) :
    Tracks c conn' held fin := by
  refine ⟨h.inOrder, h.complete, ?_, ?_, ?_, ?_⟩
  · rw [hstate, hnext]
    exact h.rcvNxt
  · rw [hstate]
    exact h.silent
  · rw [hstate]
    exact h.receiving
  · rw [hstate, hend]
    exact h.ended

lemma acknowledge (h : Tracks c conn held fin) : Tracks c (conn.acknowledge seg) held fin := by
  rw [TcpConnection.acknowledge]
  split
  · exact h.congr rfl rfl rfl
  · exact h

/-- After our FIN the connection was open, and the peer's FIN was not taken. -/
lemma ne_of_finWait (h : conn.state = .finWait1 ∨ conn.state = .finWait2) :
    (conn.state ≠ .synSent ∧ conn.state ≠ .synReceived ∧ conn.state ≠ .established) ∧
      conn.state ≠ .closeWait ∧ conn.state ≠ .lastAck := by
  rcases h with h | h
  all_goals
    rw [h]
    exact ⟨⟨nofun, nofun, nofun⟩, nofun, nofun⟩

lemma ne_of_tookFin (h : conn.state = .closeWait ∨ conn.state = .lastAck) :
    conn.state ≠ .synSent ∧ conn.state ≠ .synReceived ∧ conn.state ≠ .established := by
  rcases h with h | h
  all_goals
    rw [h]
    exact ⟨nofun, nofun, nofun⟩

lemma closing (h : Tracks c conn held fin) (hsynced : conn.state ≠ .synSent)
    (hstate : conn'.state = .finWait1 ∨ conn'.state = .finWait2) (hnext : conn'.rcvNxt = conn.rcvNxt)
    (hend : conn'.eofPending = conn.eofPending) : Tracks c conn' held fin := by
  obtain ⟨hopened, hwait, hlast⟩ := ne_of_finWait hstate
  refine ⟨h.inOrder, h.complete, fun _ => ?_, (absurd · hopened.1), fun _ => hopened, ?_⟩
  · rw [hnext]
    exact h.rcvNxt hsynced
  · rintro (hpending | hended | hended)
    · exact h.ended (.inl (hend ▸ hpending))
    · exact absurd hended hwait
    · exact absurd hended hlast

lemma acknowledgeFin (h : Tracks c conn held fin)
    (hstate : conn.state = .finWait1 ∨ conn.state = .finWait2) :
    Tracks c (conn.acknowledgeFin seg) held fin := by
  rw [TcpConnection.acknowledgeFin]
  split
  · exact h.closing (ne_of_finWait hstate).1.1 (.inr rfl) rfl rfl
  · exact h

lemma sends (h : Tracks c conn held fin) (hsends : conn.Sends conn') (hsynced : conn.state ≠ .synSent) :
    Tracks c conn' held fin := by
  rcases hsends.state with hsame | hfin | ⟨hlast, hwait⟩
  · exact h.congr hsame hsends.rcvNxt hsends.eofPending
  · exact h.closing hsynced (.inl hfin) hsends.rcvNxt hsends.eofPending
  · have hended := h.ended (.inr (.inl hwait))
    have hopened := ne_of_tookFin (.inr hlast)
    refine ⟨h.inOrder, h.complete, fun _ => ?_, (absurd · hopened.1), fun _ => hopened, fun _ => hended⟩
    rw [hsends.rcvNxt]
    exact h.rcvNxt hsynced

lemma establish (h : Tracks c conn held false) (hsynced : conn.state ≠ .synSent)
    (hstate : conn'.state = .established) (hnext : conn'.rcvNxt = conn.rcvNxt)
    (hend : conn'.eofPending = conn.eofPending) : Tracks c conn' held false := by
  refine ⟨h.inOrder, nofun, fun _ => ?_, ?_, nofun, ?_⟩
  · rw [hnext]
    exact h.rcvNxt hsynced
  · rw [hstate]
    exact nofun
  · rw [hstate, hend]
    rintro (hpending | hended | hended)
    · exact h.ended (.inl hpending)
    · cases hended
    · cases hended

/-- An end that is reported is that of a connection whose FIN was accepted. -/
lemma fin_of_end {P : Prop} (h : Tracks c conn held fin)
    (hend : conn.eofPending = true ∨ P ∧ conn.state = .closeWait) : fin = true :=
  h.ended (hend.imp_right fun hwait => .inl hwait.2)

lemma not_fin (h : Tracks c conn held fin)
    (hopen : conn.state = .synReceived ∨ conn.state = .established) : fin = false := by
  rw [← not_eq_true]
  intro hfin
  obtain ⟨-, hreceived, hestablished⟩ := h.receiving hfin
  exact hopen.elim hreceived hestablished

section

variable (h : Tracks c conn held false) (hstate : conn.state ≠ .synSent)
include h hstate

lemma receivePayload {n} (hpart : c.Fragment held.length seg)
    (hn : n ≤ (seg.payload.drop (conn.rcvNxt - seg.seq).toNat).length) :
    Tracks c { conn with rcvNxt := conn.rcvNxt + UInt32.ofNat n }
      (held ++ (seg.payload.drop (conn.rcvNxt - seg.seq).toNat).take n) false := by
  obtain ⟨offset, hseq, hpayload, hbefore, hbehind, -⟩ := hpart.part
  have hnext : conn.rcvNxt = c.seq held.length := by
    rw [h.rcvNxt hstate, if_neg Bool.false_ne_true, UInt32.add_zero]
  have hheld : held ++ (seg.payload.drop (conn.rcvNxt - seg.seq).toNat).take n <+: c.stream := by
    rw [hnext, hseq]
    by_cases hle : offset ≤ held.length
    · rw [Peer.seq, Peer.seq, toNat_sub_of_le hle (by omega)]
      exact prefix_append_drop h.inOrder hpayload hle
    · -- a fragment behind a hole starts further away than it is long
      have hfar : 2 ^ 31 < (c.seq held.length - c.seq offset).toNat :=
        le_toNat_sub_of_lt (by omega) hbefore
      have hfits := seg.fits
      rw [drop_of_length_le (by omega), take_nil, append_nil]
      exact h.inOrder
  refine ⟨hheld, nofun, fun _ => ?_, fun hsent => absurd hsent hstate, nofun, h.ended⟩
  rw [length_append, length_take_of_le hn, hnext, if_neg Bool.false_ne_true, UInt32.add_zero]
  exact number_add

/-- A FIN right behind what is held is at the end of the stream. -/
lemma eq_stream_of_takesFin {accepted} (hpart : c.Fragment accepted seg)
    (hle : accepted ≤ held.length) (hnear : held.length < accepted + 2 ^ 16)
    (htakes : conn.takesFin seg = true) : held = c.stream := by
  obtain ⟨offset, hseq, hpayload, hbefore, hbehind, hend⟩ := hpart.part
  have hfits := seg.fits
  rw [takesFin, Bool.and_eq_true, beq_iff_eq, h.rcvNxt hstate,
    if_neg Bool.false_ne_true, UInt32.add_zero, hseq, Peer.seq, number_add] at htakes
  have hposition := number_inj (by omega) (by omega) htakes.2
  exact h.inOrder.eq_of_length (hposition.symm.trans (hend htakes.1))

lemma finished (hstream : held = c.stream) (hnext : conn'.rcvNxt = conn.rcvNxt + 1)
    (hstate' : conn'.state = .closeWait ∨ conn'.state = .lastAck) : Tracks c conn' held true := by
  have hopened := ne_of_tookFin hstate'
  refine ⟨h.inOrder, fun _ => hstream, fun _ => ?_, (absurd · hopened.1), fun _ => hopened, fun _ => rfl⟩
  rw [hnext, h.rcvNxt hstate, if_neg Bool.false_ne_true, UInt32.add_zero, if_pos rfl]

lemma receiveFin {accepted} (hpart : c.Fragment accepted seg) (hle : accepted ≤ held.length)
    (hnear : held.length < accepted + 2 ^ 16) :
    Tracks c (conn.receiveFin seg) held (conn.takesFin seg) := by
  rw [TcpConnection.receiveFin]
  by_cases htakes : conn.takesFin seg = true
  · have hstream := eq_stream_of_takesFin h hstate hpart hle hnear htakes
    rw [if_pos htakes, htakes]
    exact h.finished hstate hstream rfl (.inl rfl)
  · rw [if_neg htakes, eq_false_iff.mpr htakes]
    exact h

end

lemma lastFin (h : Tracks c conn held fin) (hstate : conn.state ≠ .synSent)
    (hpart : c.Fragment held.length seg) (htakes : conn.takesFin seg = true) :
    Tracks c { conn with rcvNxt := conn.rcvNxt + 1, state := .lastAck } held true := by
  cases fin with
  | false =>
    have hstream := eq_stream_of_takesFin h hstate hpart (le_refl _) (by omega) htakes
    exact h.finished hstate hstream rfl (.inr rfl)
  | true =>
    -- a second FIN would stand one position further
    exfalso
    obtain ⟨offset, hseq, hpayload, hbefore, hbehind, hend⟩ := hpart.part
    have hfits := seg.fits
    have hstream := congrArg List.length (h.complete rfl)
    rw [takesFin, and_eq_true, beq_iff_eq, h.rcvNxt hstate, if_pos rfl, hseq,
      Peer.seq, Peer.seq, number_add] at htakes
    have hone : number (c.irs + 1) held.length + 1 = number (c.irs + 1) (held.length + 1) := number_add
    rw [hone] at htakes
    have hposition := number_inj (by omega) (by omega) htakes.2
    have := hend htakes.1
    omega

end Tracks

/-! ### Segments of the peer -/

def TcpConnection.tookFin (conn : TcpConnection) : Bool :=
  conn.state == .closeWait || conn.state == .lastAck

variable {conn : TcpConnection} {request : ServiceRequest}

/-- The FIN is noted when it takes the connection to `CLOSE_WAIT` or `LAST_ACK`. -/
lemma Tracks.noted {c held fin fin'} (h : Tracks c conn held fin')
    (hfin : fin' = fin ∨ fin' = true ∧ conn.tookFin = true) :
    Tracks c conn held (fin || conn.tookFin) := by
  have heq : fin' = (fin || conn.tookFin) := by
    rcases hfin with rfl | ⟨rfl, htook⟩
    · cases htook : conn.tookFin with
      | false => rw [Bool.or_false]
      | true =>
        rw [tookFin, Bool.or_eq_true, beq_iff_eq, beq_iff_eq] at htook
        rw [h.ended (.inr htook), Bool.or_true]
    · rw [htook, Bool.or_true]
  exact heq ▸ h

variable {c : Peer} {r r' : NetRuntime} {seg : Segment} {i : Nat} {d : List UInt8} {fin : Bool}

def NetRuntime.held (r : NetRuntime) (slot : Nat) (delivered : List UInt8) : List UInt8 :=
  delivered ++ (r.tcpRx.buffers slot).bytes

def Peer.Speaks (c : Peer) (accepted : Nat) (seg : Segment) : Prop :=
  c.Fragment accepted seg ∨ c.Handshake seg

def Advances (c : Peer) (i : Nat) (d : List UInt8) (fin : Bool) (r' : NetRuntime) : Prop :=
  (r'.tcpConnections i).active = true →
    Tracks c (r'.tcpConnections i) (r'.held i d) (fin || (r'.tcpConnections i).tookFin)

lemma Advances.of_tracks {fin'} (h : Tracks c (r'.tcpConnections i) (r'.held i d) fin')
    (hfin : fin' = fin ∨ fin' = true ∧ (r'.tcpConnections i).tookFin = true) :
    Advances c i d fin r' := fun _ => h.noted hfin

lemma Advances.reset (hs : Sound r) (hi : i < tcpMaxConnections) :
    Advances c i d fin (r.tcpReset i) := by
  intro hactive
  rw [(hs.resetAt hi).empty] at hactive
  cases hactive

lemma receivePayload_spec (seg : Segment) (hs : Sound r) (hactive : (r.tcpConnections i).active = true) :
    ∃ n, n ≤ (seg.payload.drop ((r.tcpConnections i).rcvNxt - seg.seq).toNat).length ∧
      (r.receivePayload i seg).tcpConnections i =
        { r.tcpConnections i with rcvNxt := (r.tcpConnections i).rcvNxt + UInt32.ofNat n } ∧
      (r.receivePayload i seg).held i d = r.held i d ++
        (seg.payload.drop ((r.tcpConnections i).rcvNxt - seg.seq).toNat).take n := by
  have hi := (hs.slots i).bound hactive
  rw [receivePayload]
  split
  · have hpush := TcpRxQueue.push_spec
      (seg.payload.drop ((r.tcpConnections i).rcvNxt - seg.seq).toNat) hs.rx hi
    refine ⟨_, hpush.count.trans_le (min_le_left _ _), setConnection_self, ?_⟩
    rw [held, held, hpush.bytes, append_assoc]
  · refine ⟨0, Nat.zero_le _, ?_, ?_⟩
    · show _ = { r.tcpConnections i with rcvNxt := (r.tcpConnections i).rcvNxt + 0 }
      rw [UInt32.add_zero]
    · rw [take_zero, append_nil]

section Spoken

variable (hs : Sound r) (hactive : (r.tcpConnections i).active = true)
  (hseg : c.Speaks (r.held i d).length seg)
include hs hactive hseg

lemma receiveSegment_tracks (h : Tracks c (r.tcpConnections i) (r.held i d) false)
    (hstate : (r.tcpConnections i).state ≠ .synSent) :
    ∃ fin, Tracks c ((r.receiveSegment i seg).tcpConnections i) ((r.receiveSegment i seg).held i d) fin ∧
      (fin = true → ((r.receiveSegment i seg).tcpConnections i).tookFin = true) := by
  obtain ⟨n, hn, hconn, hheld⟩ := receivePayload_spec (d := d) seg hs hactive
  have hheld' : (r.receiveSegment i seg).held i d = (r.receivePayload i seg).held i d := rfl
  have hconn' : (r.receiveSegment i seg).tcpConnections i =
      ((r.receivePayload i seg).tcpConnections i).receiveFin seg := setConnection_self
  rw [hheld', hheld, hconn', hconn]
  rcases hseg with hpart | hshake
  · have hpayload := h.receivePayload hstate hpart hn
    have hlen : (seg.payload.drop ((r.tcpConnections i).rcvNxt - seg.seq).toNat).length < 2 ^ 16 := by
      have hfits := seg.fits
      rw [length_drop]
      omega
    refine ⟨_, hpayload.receiveFin hstate hpart ?_ ?_, fun htakes => ?_⟩
    · rw [length_append]
      exact Nat.le_add_right _ _
    · rw [length_append, length_take_of_le hn]
      omega
    · rw [receiveFin, if_pos htakes]
      rfl
  · -- nothing is left of a segment without bytes
    rw [hshake.payload, drop_nil, length_nil, Nat.le_zero] at hn
    subst hn
    refine ⟨false, ?_, by rintro ⟨⟩⟩
    rw [take_zero, append_nil, receiveFin, takesFin, hshake.fin,
      Bool.false_and, if_neg Bool.false_ne_true]
    refine h.congr rfl ?_ rfl
    exact UInt32.add_zero _

lemma receiveLastFin_tracks (h : Tracks c (r.tcpConnections i) (r.held i d) fin)
    (hstate : (r.tcpConnections i).state ≠ .synSent) :
    Advances c i d fin (r.receiveLastFin i seg) := by
  have hi := (hs.slots i).bound hactive
  rw [receiveLastFin]
  split
  · rename_i htakes
    rcases hseg with hpart | hshake
    · have hlast := h.lastFin hstate hpart htakes
      show Advances c i d fin
        (if (r.tcpConnections i).sndUna = (r.tcpConnections i).sndNxt then _ else _)
      split
      · refine .reset (hs.setConnection hactive ?_).sound hi
        exact ⟨rfl, rfl, rfl, rfl, rfl, rfl⟩
      · refine @Advances.of_tracks _ _ _ _ _ true ?_ (.inr ⟨rfl, ?_⟩)
        · rw [setConnection_self]
          exact hlast
        · rw [setConnection_self]
          rfl
    · rw [takesFin, hshake.fin, Bool.false_and] at htakes
      cases htakes
  · exact .of_tracks h (.inl rfl)

lemma receive_advances
    (hconn : (r.tcpConnections i).Continues conn) (h : Tracks c conn (r.held i d) false)
    (hstate : conn.state ≠ .synSent) :
    Advances c i d false ((r.setConnection i conn).receiveSegment i seg) := by
  have hset := hs.setConnection hactive hconn
  have hself : (r.setConnection i conn).tcpConnections i = conn := setConnection_self
  obtain ⟨fin, htracks, hfin⟩ := @receiveSegment_tracks c _ seg i d hset.sound
    (hset.active hactive) hseg (hself.symm ▸ h) (hself.symm ▸ hstate)
  refine .of_tracks htracks ?_
  cases fin with
  | false => exact .inl rfl
  | true => exact .inr ⟨rfl, hfin rfl⟩

lemma close_advances (h : Tracks c (r.tcpConnections i) (r.held i d) fin)
    (hstate : (r.tcpConnections i).state = .finWait1 ∨ (r.tcpConnections i).state = .finWait2) :
    Advances c i d fin
      ((r.setConnection i ((r.tcpConnections i).acknowledgeFin seg)).receiveLastFin i seg) := by
  have hset := hs.setConnection hactive (acknowledgeFin_continues seg)
  have hself : (r.setConnection i ((r.tcpConnections i).acknowledgeFin seg)).tcpConnections i =
    (r.tcpConnections i).acknowledgeFin seg := setConnection_self
  refine receiveLastFin_tracks hset.sound (hset.active hactive) hseg ?_ ?_
  · rw [hself]
    exact h.acknowledgeFin hstate
  · rw [hself, acknowledgeFin]
    split
    · rintro ⟨⟩
    · exact (Tracks.ne_of_finWait hstate).1.1

lemma processConnection_tracks (h : Tracks c (r.tcpConnections i) (r.held i d) fin) :
    Advances c i d fin (r.processConnection i seg) := by
  have hi := (hs.slots i).bound hactive
  have hrst : seg.has tcpFlagRst = false := hseg.elim (·.rst) (·.rst)
  rw [processConnection, hrst]
  simp only [false_eq_true, if_false]
  cases hstate : (r.tcpConnections i).state with
  | closed => exact .reset hs hi
  | synSent =>
    dsimp only
    split
    · rename_i hsyn
      rw [and_eq_true] at hsyn
      rcases hseg with hpart | hshake
      · rw [hpart.syn] at hsyn
        cases hsyn.1
      · have hempty := h.silent hstate
        have hfin : fin = false := by
          rw [← not_eq_true]
          exact fun hfin => (h.receiving hfin).1 hstate
        refine @Advances.of_tracks _ _ _ _ _ false ?_ (.inl hfin.symm)
        rw [setConnection_self]
        show Tracks c _ (r.held i d) false
        rw [hempty]
        refine ⟨List.nil_prefix, by simp, fun _ => ?_, by simp, by simp, ?_⟩
        · rw [hshake.number, length_nil, Peer.seq, number_zero, if_neg Bool.false_ne_true,
            UInt32.add_zero]
        · rintro (hend | hend | hend)
          · exact hfin ▸ h.ended (.inl hend)
          · cases hend
          · cases hend
    · exact .of_tracks h (.inl rfl)
  | synReceived =>
    have hfin := h.not_fin (.inl hstate)
    subst hfin
    have hsynced : (r.tcpConnections i).state ≠ .synSent := by
      rw [hstate]
      rintro ⟨⟩
    dsimp only
    split
    · refine receive_advances hs hactive hseg ?_ (h.establish hsynced rfl rfl rfl) (by rintro ⟨⟩)
      exact ⟨rfl, rfl, rfl, rfl, rfl, rfl⟩
    · exact .of_tracks h (.inl rfl)
  | established =>
    have hfin := h.not_fin (.inr hstate)
    subst hfin
    refine receive_advances hs hactive hseg (acknowledge_continues seg) h.acknowledge ?_
    rw [acknowledge]
    split
    · simp [hstate]
    · simp [hstate]
  | closeWait =>
    refine @Advances.of_tracks _ _ _ _ _ fin ?_ (.inl rfl)
    rw [setConnection_self]
    exact h.acknowledge
  | finWait1 => exact close_advances hs hactive hseg h (.inl hstate)
  | finWait2 => exact close_advances hs hactive hseg h (.inr hstate)
  | lastAck =>
    dsimp only
    split
    · exact .reset hs hi
    · exact .of_tracks h (.inl rfl)

end Spoken

/-! ### Events during a conversation -/

/-- The connection follows its stream: `d` was handed to the application, and `fin` says whether the
FIN was accepted. -/
structure Follows (c : Peer) (r : NetRuntime) (d : List UInt8) (fin : Bool) : Prop where
  slot : c.slot < tcpMaxConnections
  id : ∃ generation, c.id = generation * tcpMaxConnections + c.slot + 1
  inOrder : d <+: c.stream
  addresses : c.Alive (r.tcpConnections c.slot) →
    (r.tcpConnections c.slot).Serves c.ip c.peerPort c.localPort
  tracks : c.Alive (r.tcpConnections c.slot) →
    Tracks c (r.tcpConnections c.slot) (r.held c.slot d) fin

section

variable (h : Follows c r d fin)
include h

lemma Follows.same (hconn : r'.tcpConnections c.slot = r.tcpConnections c.slot)
    (hbuffer : r'.tcpRx.buffers c.slot = r.tcpRx.buffers c.slot) : Follows c r' d fin := by
  refine ⟨h.slot, h.id, h.inOrder, ?_, ?_⟩
  · rw [hconn]
    exact h.addresses
  · rw [hconn, held, hbuffer]
    exact h.tracks

lemma Follows.noted :
    Follows c r d (fin || (r.tcpConnections c.slot).tookFin) :=
  ⟨h.slot, h.id, h.inOrder, h.addresses, fun halive => (h.tracks halive).noted (.inl rfl)⟩

lemma Follows.sameTcp (hsame : SameTcp r r') : Follows c r' d fin := by
  refine h.same ?_ ?_
  · rw [hsame.connections]
  · rw [hsame.rx]

lemma Follows.alter (hconn : (r.tcpConnections i).Continues conn)
    (hsame : r'.tcpConnections = (r.setConnection i conn).tcpConnections)
    (hbuffers : r'.tcpRx.buffers = r.tcpRx.buffers)
    (htracks : i = c.slot → Tracks c (r.tcpConnections i) (r.held i d) fin →
      Tracks c conn (r.held i d) fin) : Follows c r' d fin := by
  by_cases hi : c.slot = i
  · subst hi
    have hself : r'.tcpConnections c.slot = conn := by
      rw [hsame]
      exact setConnection_self
    refine ⟨h.slot, h.id, h.inOrder, ?_, ?_⟩
    · rw [hself]
      intro halive
      exact hconn.serves (h.addresses (halive.before hconn))
    · rw [hself, held, hbuffers]
      intro halive
      exact htracks rfl (h.tracks (halive.before hconn))
  · refine h.same ?_ (congrFun hbuffers _)
    rw [hsame]
    exact Function.update_of_ne hi _ _

lemma Follows.slot_eq (hs : Sound r)
    (hactive : (r.tcpConnections i).active = true) (hid : (r.tcpConnections i).connectionId = c.id) :
    i = c.slot := by
  obtain ⟨generation, hgeneration⟩ := h.id
  obtain ⟨generation', hgeneration'⟩ := (hs.slots i).ids hactive
  have hslot := h.slot
  have hbound := (hs.slots i).bound hactive
  simp only [tcpMaxConnections] at *
  omega

end

namespace Peer

def Sent (c : Peer) (seg : Segment) : Prop :=
  seg.srcIp = c.ip ∧ seg.srcPort = c.peerPort ∧ seg.dstPort = c.localPort

/-- The events of a conversation: segments with the addresses of the connection are the peer's, and
they repeat its SYN only while there is a connection. The application may read, accept and send, the
last once the connection is synchronised. Segments of other connections may arrive in between. -/
def Allows (c : Peer) (r : NetRuntime) (accepted : Nat) : Event → Prop
  | .frame frame => ∀ seg, frame.segment? = some seg → (c.Sent seg → c.Speaks accepted seg) ∧
      (seg.opens = true → c.Sent seg ∧ c.Alive (r.tcpConnections c.slot))
  | .send _ => (r.tcpConnections c.slot).state ≠ .synSent
  | .connect _ => False
  | .attach _ _ _ => False
  | _ => True

def received (c : Peer) (s : Server) (e : Event) : List UInt8 :=
  match e.learns s with
  | some told => if told.1 = c.id then told.2 else []
  | none => []

def takesFin (c : Peer) (s : Server) : Event → Bool
  | .frame frame => ((s.step (.frame frame)).runtime.tcpConnections c.slot).tookFin
  | _ => false

end Peer

lemma Follows.segment (hs : Sound r) (h : Follows c r d fin)
    (hspeaks : c.Sent seg → c.Speaks (r.held c.slot d).length seg)
    (hopens : seg.opens = true → c.Sent seg ∧ c.Alive (r.tcpConnections c.slot)) :
    Follows c (r.processSegment seg) d
      (fin || ((r.processSegment seg).tcpConnections c.slot).tookFin) := by
  have hidle : ∀ r', r'.tcpConnections c.slot = r.tcpConnections c.slot →
      r'.tcpRx.buffers c.slot = r.tcpRx.buffers c.slot →
      Follows c r' d (fin || (r'.tcpConnections c.slot).tookFin) := by
    exact fun r' hconn hbuffer => (h.same hconn hbuffer).noted
  rw [processSegment]
  split
  · -- a repeated SYN finds the connection
    rename_i hsyn
    obtain ⟨hsent, halive⟩ := hopens hsyn
    have hfound : r.findTcpConnection seg ≠ none := by
      intro hnone
      refine hs.index.of_find_none hnone ((hs.slots _).bound halive.active) ?_
      rw [hsent.1, hsent.2.1, hsent.2.2]
      exact h.addresses halive
    have hsyn : r.processSyn seg = r := by
      rw [processSyn]
      split
      · rfl
      · split
        · rfl
        · exact absurd ‹_› hfound
    rw [hsyn]
    exact hidle r rfl rfl
  · cases hfind : r.findTcpConnection seg with
    | none => exact hidle r rfl rfl
    | some j =>
      have hserves := hs.index.of_find hfind
      have hmoves := processConnection_moves seg hs hserves.1
      by_cases hj : c.slot = j
      · subst hj
        refine ⟨h.slot, h.id, h.inOrder, fun halive => ?_, fun halive => ?_⟩
        · have hkept := hmoves.kept _ halive.active
          exact hkept.serves (h.addresses (halive.before hkept))
        · have halive' := halive.before (hmoves.kept _ halive.active)
          obtain ⟨hip, hpeer, hlocal⟩ := TcpIndex.hasTriple_iff.mp hserves.2
          obtain ⟨hip', hpeer', hlocal'⟩ := TcpIndex.hasTriple_iff.mp (h.addresses halive').2
          have hsent : c.Sent seg :=
            ⟨hip.symm.trans hip', hpeer.symm.trans hpeer', hlocal.symm.trans hlocal'⟩
          exact processConnection_tracks hs hserves.1 (hspeaks hsent) (h.tracks halive') halive.active
      · exact hidle _ (hmoves.others _ hj).1 (hmoves.others _ hj).2

lemma Follows.reads {bytes buffer limit q} (h : Follows c r d fin)
    (halive : c.Alive (r.tcpConnections c.slot))
    (hread : (r.tcpRx.buffers c.slot).ReadOff limit bytes buffer)
    (hothers : q.buffers = Function.update r.tcpRx.buffers c.slot buffer) :
    Follows c { r with tcpRx := q } (d ++ bytes) fin := by
  have htracks := h.tracks halive
  have hheld : ({ r with tcpRx := q } : NetRuntime).held c.slot (d ++ bytes) = r.held c.slot d := by
    rw [held, held, hothers, Function.update_self, hread.left, hread.bytes,
      append_assoc, take_append_drop]
  refine ⟨h.slot, h.id, ?_, h.addresses, fun _ => ?_⟩
  · refine List.IsPrefix.trans ?_ htracks.inOrder
    rw [hread.bytes]
    exact (prefix_append_right_inj d).mpr (List.take_prefix _ _)
  · rw [hheld]
    exact htracks

lemma Follows.received {answer} (hs : Sound r) (h : Follows c r d fin)
    (hanswer : Received r request answer r') :
    Follows c r' (d ++ if answer.1.detail1 = c.id then answer.2 else []) fin := by
  cases hanswer with
  | nothing =>
    rw [ite_self, append_nil]
    exact h
  | @bytes i _ bytes buffer q valid bound full asked owner read others =>
    have hactive := hs.active_of_len full
    by_cases hid : (r.tcpConnections i).connectionId = c.id
    · rw [if_pos hid]
      have hi := h.slot_eq hs hactive hid
      subst hi
      exact h.reads ⟨hactive, hid⟩ read others
    · rw [if_neg hid, append_nil]
      by_cases hi : c.slot = i
      · subst hi
        exact ⟨h.slot, h.id, h.inOrder, h.addresses, fun halive => absurd halive.id hid⟩
      · refine h.same rfl ?_
        rw [others, Function.update_of_ne hi]
  | @ended i pending q valid same owner ended left wanted =>
    rw [ite_self, append_nil]
    have hconn : (r.tcpConnections i).Continues { r.tcpConnections i with eofPending := pending } :=
      ⟨rfl, rfl, rfl, rfl, rfl, rfl⟩
    refine h.alter hconn rfl same fun _ htracks => ?_
    exact ⟨htracks.inOrder, htracks.complete, htracks.rcvNxt, htracks.silent, htracks.receiving,
      fun _ => htracks.fin_of_end ended⟩

/-! ### Conversations -/

lemma received_eq_nil {s e} (h : ∀ request, e ≠ .recv request) : c.received s e = [] := by
  rw [Peer.received]
  cases hlearns : e.learns s with
  | none => rfl
  | some told =>
    suffices htold : told.2 = [] by
      dsimp only
      rw [htold, ite_self]
    cases e with
    | recv request => exact absurd rfl (h request)
    | connect request | accept request =>
      rw [Event.learns] at hlearns
      split at hlearns
      · cases hlearns
        rfl
      · cases hlearns
    | send request | attach request gone shared | bind request | unbind request | frame frame
    | neighbours arp =>
      cases hlearns

variable {s : Server} {e : Event}

lemma recv_follows (hs : Sound s.runtime) (h : Follows c s.runtime d fin) :
    Follows c (s.step (.recv request)).runtime (d ++ c.received s (.recv request)) fin := by
  have hspec := @recv_spec s request hs
  rw [Peer.received, Event.learns]
  show Follows c (stateAfter (handleTcpRecvRequest request) s).runtime _ fin
  rw [stateAfter]
  cases hrun : handleTcpRecvRequest request s with
  | ok answer t =>
    have hanswer := wp_ok hspec hrun
    exact h.received hs hanswer.1
  | error response t =>
    obtain ⟨⟨q, -, hsame, ht⟩, -⟩ := wp_error hspec hrun
    rw [append_nil, ht]
    exact h.same rfl (congrFun hsame _)

lemma Follows.uneventful (h : Follows c r' d fin) (hreads : ∀ request, e ≠ .recv request)
    (hfin : c.takesFin s e = false) : Follows c r' (d ++ c.received s e) (fin || c.takesFin s e) := by
  rw [received_eq_nil hreads, hfin, append_nil, Bool.or_false]
  exact h

lemma step_follows (hs : Sound s.runtime) (h : Follows c s.runtime d fin)
    (hallowed : c.Allows s.runtime (s.runtime.held c.slot d).length e) :
    Follows c (s.step e).runtime (d ++ c.received s e) (fin || c.takesFin s e) := by
  cases e with
  | recv request =>
    have hfin : c.takesFin s (.recv request) = false := rfl
    rw [hfin, Bool.or_false]
    exact recv_follows hs h
  | accept request =>
    refine .uneventful ?_ (by simp) rfl
    refine stateAfter_of_wp (P := fun t : Server => Follows c t.runtime d fin) ?_
    refine wp_mono accept_spec (fun _ t ht => ?_) fun _ t ht => ?_
    · obtain ⟨⟨i, howned, -, ht⟩, -⟩ := ht
      rw [ht]
      have hconn : (s.runtime.tcpConnections i).Continues
          { s.runtime.tcpConnections i with accepted := true } := ⟨rfl, rfl, rfl, rfl, rfl, rfl⟩
      exact h.alter hconn rfl rfl fun _ htracks => htracks.congr rfl rfl rfl
    · rw [ht.runtime]
      exact h
  | send request =>
    refine .uneventful ?_ (by simp) rfl
    refine stateAfter_of_wp (P := fun t : Server => Follows c t.runtime d fin) ?_
    refine ends_mono send_spec ?_
    rintro t (hsame | ⟨i, howned, -, ⟨conn, hconn, hsent⟩, -⟩)
    · rw [hsame.runtime]
      exact h
    · rw [hsent]
      refine h.alter hconn.toContinues rfl rfl fun hi htracks => ?_
      subst hi
      exact htracks.sends hconn hallowed
  | frame frame =>
    rw [received_eq_nil (e := .frame frame) (by simp), append_nil]
    show Follows c (s.runtime.processTcp frame) d
      (fin || ((s.runtime.processTcp frame).tcpConnections c.slot).tookFin)
    rw [processTcp]
    cases hseg : frame.segment? with
    | none => exact h.noted
    | some seg =>
      obtain ⟨hspeaks, hopens⟩ := hallowed seg hseg
      exact h.segment hs hspeaks hopens
  | bind request =>
    refine .uneventful ?_ (by simp) rfl
    exact h.sameTcp (stateAfter_of_wp bind_spec).1
  | unbind request =>
    refine .uneventful ?_ (by simp) rfl
    exact h.sameTcp (stateAfter_of_wp unbind_spec).1
  | neighbours arp =>
    refine .uneventful ?_ (by simp) rfl
    exact h.same rfl rfl
  | connect request => exact hallowed.elim
  | attach request gone shared => exact hallowed.elim

/-- A connection that was just opened: by the peer's SYN, or by a connect request that the peer has not
answered. -/
structure Peer.Opened (c : Peer) (r : NetRuntime) : Prop where
  alive : c.Alive (r.tcpConnections c.slot)
  serves : (r.tcpConnections c.slot).Serves c.ip c.peerPort c.localPort
  empty : (r.tcpRx.buffers c.slot).len = 0
  pending : (r.tcpConnections c.slot).eofPending = false
  state : (r.tcpConnections c.slot).state = .synReceived ∧
      (r.tcpConnections c.slot).rcvNxt = c.irs + 1 ∨
    (r.tcpConnections c.slot).state = .synSent

/-- A run of the server with a connection that follows its peer: what the application was handed, and
whether the peer's FIN was accepted. -/
inductive Conversation (c : Peer) : Server → List UInt8 → Bool → Prop
  | start {s : Server} {events : List Event} (fresh : Fresh s.runtime)
      (opened : c.Opened (s.run events).runtime) : Conversation c (s.run events) [] false
  | next {s : Server} {d : List UInt8} {fin : Bool} {e : Event} (before : Conversation c s d fin)
      (allowed : c.Allows s.runtime (s.runtime.held c.slot d).length e) :
      Conversation c (s.step e) (d ++ c.received s e) (fin || c.takesFin s e)

lemma Peer.Opened.follows (hs : Sound r) (h : c.Opened r) : Follows c r [] false := by
  have hbytes : r.held c.slot [] = [] := by
    rw [held, nil_append, ← length_eq_zero_iff, TcpRxBuffer.length_bytes]
    exact h.empty
  obtain ⟨generation, -, hid⟩ := (hs.slots c.slot).ids h.alive.active
  rw [h.alive.id] at hid
  refine ⟨(hs.slots c.slot).bound h.alive.active, ⟨generation, hid⟩, List.nil_prefix, fun _ => h.serves,
    fun _ => ?_⟩
  rw [hbytes]
  refine ⟨List.nil_prefix, nofun, fun hsynced => ?_, fun _ => rfl, nofun, ?_⟩
  · rcases h.state with ⟨-, hnext⟩ | hsent
    · rw [hnext, length_nil, Peer.seq, number_zero, if_neg Bool.false_ne_true, UInt32.add_zero]
    · exact absurd hsent hsynced
  · rintro (hpending | hended)
    · rw [h.pending] at hpending
      cases hpending
    · rcases h.state with ⟨hreceived, -⟩ | hsent
      · exact absurd hreceived (Tracks.ne_of_tookFin hended).2.1
      · exact absurd hsent (Tracks.ne_of_tookFin hended).1

lemma Conversation.sound_follows (h : Conversation c s d fin) :
    Sound s.runtime ∧ Follows c s.runtime d fin := by
  induction h with
  | @start s events fresh opened =>
    have hs := @run_sound s events fresh.sound
    exact ⟨hs, opened.follows hs⟩
  | @next s d fin e before allowed ih =>
    exact ⟨(step_stepped ih.1 e).sound ih.1, step_follows ih.1 ih.2 allowed⟩

lemma Follows.ended {request answer} (hs : Sound r) (h : Follows c r d fin)
    (hanswer : Received r request answer r') (hid : answer.1.detail1 = c.id)
    (hbytes : answer.2 = []) : d = c.stream := by
  cases hanswer with
  | nothing =>
    obtain ⟨generation, hgeneration⟩ := h.id
    rw [← hid] at hgeneration
    cases hgeneration
  | bytes valid bound full asked owner read others =>
    -- a read from a buffer with something in it gives some bytes
    rw [read.bytes, take_eq_nil_iff] at hbytes
    rcases hbytes with hlimit | hempty
    · exact absurd hlimit asked
    · rw [← length_eq_zero_iff, TcpRxBuffer.length_bytes] at hempty
      exact absurd hempty full
  | @ended i _ _ valid same owner ended left wanted =>
    have hi := h.slot_eq hs owner.1 hid
    subst hi
    have htracks := h.tracks ⟨owner.1, hid⟩
    have hempty : (r.tcpRx.buffers c.slot).len = 0 := by
      by_contra hlen
      rw [left c.slot h.slot hlen] at wanted
      cases wanted
    have hstream := htracks.complete (htracks.fin_of_end ended)
    rw [held] at hstream
    rw [← TcpRxBuffer.length_bytes, length_eq_zero_iff] at hempty
    rw [hempty, append_nil] at hstream
    exact hstream

/-- Whatever the order, overlap and repetition of the peer's segments and whatever the application
reads: the bytes it was handed are a prefix of the stream; the end of the connection is reported only
when the whole stream was handed over; and the expected number counts the accepted bytes and the
FIN. -/
theorem stream_handed_over_in_order (h : Conversation c s d fin) :
    d <+: c.stream ∧
      (∀ request status t, handleTcpRecvRequest request s = .ok (⟨status, 0, c.id⟩, []) t →
        d = c.stream) ∧
      (c.Alive (s.runtime.tcpConnections c.slot) →
        (s.runtime.tcpConnections c.slot).state ≠ .synSent →
          (s.runtime.tcpConnections c.slot).rcvNxt = c.irs + 1 +
            UInt32.ofNat (d.length + (s.runtime.tcpRx.buffers c.slot).len) + if fin then 1 else 0) := by
  obtain ⟨hs, hfollows⟩ := h.sound_follows
  refine ⟨hfollows.inOrder, fun request status t hrun => ?_, fun halive hsynced => ?_⟩
  · have hanswer := wp_ok (recv_spec hs) hrun
    exact hfollows.ended hs hanswer.1 rfl rfl
  · have hnext := (hfollows.tracks halive).rcvNxt hsynced
    rw [held, length_append, TcpRxBuffer.length_bytes] at hnext
    exact hnext

def sampleFrame (seq ack : List UInt8) (flags : UInt8) (payload : List UInt8) : Frame where
  bytes := List.replicate 34 0 ++ ([0, 80, 0, 7] ++ seq ++ ack ++ [0x50, flags, 0, 0, 0, 0, 0, 0]) ++ payload
  ipHeaderLen := 20
  srcIp := 0x0a000002
  totalLen := UInt16.ofNat (40 + payload.length)

def samplePeer : Peer := ⟨0, 1, 0x0a000002, 80, 7, 0xffffffff, [104, 105]⟩

def sampleStart : List Event :=
  [attachAs 1, .bind ⟨1, 0, 7, 0, 0⟩, .frame (sampleFrame [255, 255, 255, 255] [0, 0, 0, 0] 2 [])]

def sampleData : Event := .frame (sampleFrame [0, 0, 0, 0] [0x4e, 0x41, 0x4e, 0x42] 17 [104, 105])

def sampleRead : Event := .recv ⟨1, 0, 16, 16, 0⟩

lemma samplePeer_opened : samplePeer.Opened (freshServer.run sampleStart).runtime where
  alive := ⟨by decide +kernel, by decide +kernel⟩
  serves := ⟨by decide +kernel, by decide +kernel⟩
  empty := by decide +kernel
  pending := by decide +kernel
  state := .inl ⟨by decide +kernel, by decide +kernel⟩

lemma sampleData_allowed :
    samplePeer.Allows (freshServer.run sampleStart).runtime
      ((freshServer.run sampleStart).runtime.held samplePeer.slot []).length sampleData := by
  have hlen : ((freshServer.run sampleStart).runtime.held samplePeer.slot []).length = 0 := by
    decide +kernel
  rw [hlen]
  intro seg hseg
  cases hseg
  refine ⟨fun _ => .inl ⟨⟨0, by decide, by decide, by decide, by decide, fun _ => by decide⟩, by decide,
    by decide⟩, fun hopens => ?_⟩
  exact absurd hopens (by decide)

/-- The whole stream in one segment, read at once. -/
theorem stream_handed_over_in_one_read :
    let s := freshServer.run sampleStart
    let t := (s.step sampleData).step sampleRead
    samplePeer.received (s.step sampleData) sampleRead = [104, 105] ∧
      (t.runtime.tcpConnections 0).rcvNxt = 3 ∧
      [] ++ samplePeer.received s sampleData ++ samplePeer.received (s.step sampleData) sampleRead <+:
        samplePeer.stream := by
  refine ⟨by decide +kernel, by decide +kernel, ?_⟩
  have hstart : Conversation samplePeer (freshServer.run sampleStart) [] false :=
    .start freshServer_fresh samplePeer_opened
  have hdata := hstart.next sampleData_allowed
  exact (stream_handed_over_in_order (hdata.next (e := sampleRead) trivial)).1

end Nanami.Net
