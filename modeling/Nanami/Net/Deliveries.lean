import Nanami.Net.Bindings

/-!
# Frames reach the sessions that asked for them

A SYN, a UDP datagram or an echo reply carries a key: the port it goes to, or its identifier. Such a
frame leaves sessions, connections and queues as they are, or it opens one connection or queues one
entry, for a session whose table of that protocol contains the key. With the record of `Network` this
says that the session has taken the key and not given it back, except for the key 0, which stands in
the tables where nothing is set: a frame with it reaches the first session with room in its table.
-/

namespace Nanami.Net

open Lib Station List

/-! ### The key of a frame -/

def echoIdentifier (frame : List UInt8) (ipHeaderLen ipEnd : Nat) : Checked (Option UInt16) := do
  let base := ethHdrLen + ipHeaderLen
  if ipEnd < base + 8 ∨ frame.length < ipEnd then return none
  else
    let icmp ← slice frame base ipEnd
    let type ← itemAt icmp 0
    let code ← itemAt icmp 1
    if type = icmpEchoReply ∧ code = 0 then
      let identifier ← u16At icmp 4
      return some identifier
    else return none

/-- The key in an IPv4 frame: the identifier of an echo reply, or the port of a SYN or a datagram. -/
def Ipv4Header.key (frame : List UInt8) (h : Ipv4Header) : Option (Protocol × UInt16) :=
  let ipEnd := ethHdrLen + h.totalLen.toNat
  if h.proto = 1 then
    (echoIdentifier frame h.headerLen ipEnd).toOption.join.map (Protocol.icmp, ·)
  else if h.proto = 6 then
    ((Frame.segment? ⟨frame, h.headerLen, h.srcIp, h.totalLen⟩).filter Segment.opens).map
      fun seg => (Protocol.tcp, seg.dstPort)
  else if h.proto = 17 then
    (datagram? frame h.headerLen ipEnd).toOption.join.map fun d => (Protocol.udp, d.dstPort)
  else none

def frameKey (frame : List UInt8) : Option (Protocol × UInt16) :=
  if u16At frame 12 = .ok 0x0800 then
    (ipv4Header? frame).toOption.join.bind (Ipv4Header.key frame)
  else none

/-! ### What a frame delivers -/

/-- What the server holds for its clients. -/
structure Holdings where
  sessions : List ClientSession
  tcpConnections : Nat → TcpConnection
  tcpIndex : TcpIndex
  tcpRx : TcpRxQueue
  udpRx : RxQueue udpPayloadMax
  icmpRx : RxQueue icmpPayloadMax

def NetRuntime.holdings (r : NetRuntime) : Holdings :=
  ⟨r.sessions, r.tcpConnections, r.tcpIndex, r.tcpRx, r.udpRx, r.icmpRx⟩

def Station.holdings (s : Station) : Holdings := s.runtime.holdings

/-- What changes when something is received for an owner: a connection of theirs is opened, or an entry
of theirs is queued. -/
inductive ReceivedFor (owner : Nat) (key : UInt16) (before after : Holdings) : Protocol → Prop where
  | tcp (index : Nat) (conn : TcpConnection) :
    conn.active = true → conn.ownerId = owner → conn.localPort = key →
    after = { before with
      tcpConnections := Function.update before.tcpConnections index conn
      tcpIndex := after.tcpIndex
      tcpRx := before.tcpRx.reset index } →
    ReceivedFor owner key before after .tcp
  | udp (entry : RxEntry udpPayloadMax) :
    entry.owner = owner → entry.key = key →
    after = { before with udpRx := before.udpRx.push udpRxQueueCap entry } →
    ReceivedFor owner key before after .udp
  | icmp (entry : RxEntry icmpPayloadMax) :
    entry.owner = owner → entry.key = key →
    after = { before with icmpRx := before.icmpRx.push icmpRxQueueCap entry } →
    ReceivedFor owner key before after .icmp

def Holdings.sessionFor (a : Holdings) (protocol : Protocol) (key : UInt16) : Option ClientSession :=
  a.sessions.find? fun x => x.active && (x.keys protocol).contains key

def Delivers (protocol : Protocol) (key : UInt16) (before after : Holdings) : Prop :=
  after = before ∨
    ∃ session, before.sessionFor protocol key = some session ∧
      ReceivedFor session.callerId key before after protocol

/-! ### Frames without a key -/

section Quiet

variable {frame : List UInt8} {h : Ipv4Header} {srcIp : Ipv4} {srcPort dstPort : UInt16}
  {payload : List UInt8}

lemma respond_holdings {length} : Preserves holdings (respond length) :=
  .modify fun _ => rfl

lemma updateArp_holdings {ip mac} : Preserves holdings (updateArp ip mac) := by
  refine .ite (.modify fun s => ?_) .pure
  rw [learn]
  split <;> rfl

lemma processArp_holdings : Preserves holdings (processArp frame) := by
  refine .ite .pure (.bind .fromResult fun header => ?_)
  refine .ite .pure (.bind .fromResult fun oper => ?_)
  refine .bind .fromResult fun senderMac => ?_
  refine .bind .fromResult fun senderIp => ?_
  refine .bind .fromResult fun targetIp => .get fun s => ?_
  refine Preserves.after (.ite updateArp_holdings (.ite ?_ .pure)) rfl
  exact .bind updateArp_holdings fun _ => respond_holdings

lemma processDhcpPayload_holdings :
    Preserves holdings (processDhcpPayload srcIp srcPort dstPort payload) := by
  refine .ite .pure (.get fun s => ?_)
  refine Preserves.after (.ite .pure ?_) rfl
  refine .bind .fromResult fun parsed => ?_
  cases parsed with
  | none => exact .bind .fromResult fun _ => .pure
  | some parsed => exact .bind (.modify fun _ => rfl) fun _ => .pure

lemma processDnsPayload_holdings :
    Preserves holdings (processDnsPayload srcIp srcPort dstPort payload) := by
  refine .get fun s => wp_ite (fun _ => rfl) (fun _ => ?_)
  refine wp_result (fun _ => rfl) fun txid _ => wp_ite (fun _ => rfl) (fun _ => ?_)
  refine wp_result (fun _ => rfl) fun answer _ => ?_
  cases answer with
  | none => rfl
  | some answer => exact wp_ite (fun _ => rfl) (fun _ => rfl)

lemma processEarlyDhcp_holdings : Preserves holdings (processEarlyDhcp frame h) := by
  refine .get fun s => ?_
  refine Preserves.after (.ite ?_ .pure) rfl
  refine .bind .fromResult fun d => ?_
  cases d with
  | none => exact .pure
  | some d => exact processDhcpPayload_holdings

end Quiet

/-! ### Frames with a key -/

section Keyed

variable {frame : List UInt8} {protocol : Protocol} {key : UInt16} {s : Station} {h : Ipv4Header}

def DeliversFrom (protocol : Protocol) (key : UInt16) (m : Receiver Unit) (s : Station) : Prop :=
  wp m (fun _ t => Delivers protocol key s.holdings t.holdings)
    (fun _ t => Delivers protocol key s.holdings t.holdings) s

lemma DeliversFrom.of_preserves {m} (hm : Preserves holdings m) : DeliversFrom protocol key m s :=
  wp_mono (hm s) (fun _ _ ht => .inl ht) (fun _ _ ht => .inl ht)

variable {α : Type} {length ipHeaderLen ipEnd : Nat} {seg : Segment}

lemma DeliversFrom.bind {m} {f : α → Receiver Unit} (hm : Preserves holdings m)
    (hf : ∀ a t, DeliversFrom protocol key (f a) t) : DeliversFrom protocol key (m >>= f) s := by
  refine wp_then (hm s) (fun a t ht => ?_) (fun _ _ ht => .inl ht)
  rw [← ht]
  exact hf a t

lemma queueIcmpReply_delivers :
    Delivers .icmp key s.holdings (s.queueIcmpReply key length).holdings := by
  rw [queueIcmpReply]
  split
  · exact .inl rfl
  · next session hfind => exact .inr ⟨session, hfind, .icmp _ rfl rfl rfl⟩

lemma processIcmp_delivers (hkey : echoIdentifier frame ipHeaderLen ipEnd = .ok (some key)) :
    DeliversFrom .icmp key (processIcmp frame ipHeaderLen ipEnd) s := by
  refine wp_ite (fun _ => .inl rfl) (fun hfits => ?_)
  rw [echoIdentifier, if_neg hfits] at hkey
  refine wp_result (fun _ => .inl rfl) fun icmp hicmp => ?_
  refine wp_result (fun _ => .inl rfl) fun type htype => ?_
  refine wp_result (fun _ => .inl rfl) fun code hcode => wp_ite (fun hreply => ?_) (fun _ => ?_)
  · refine wp_result (fun _ => .inl rfl) fun ttl _ => wp_ite (fun _ => .inl rfl) (fun _ => ?_)
    refine wp_result (fun _ => .inl rfl) fun identifier hid => ?_
    rw [hicmp] at hkey
    have hsame : identifier = key := by
      simp only [Checked, bind, Except.bind, htype, hcode, if_pos hreply, hid] at hkey
      exact Option.some.inj (Except.ok.inj hkey)
    rw [hsame]
    exact queueIcmpReply_delivers
  · refine DeliversFrom.of_preserves (.ite .pure ?_)
    exact .bind .fromResult fun _ => respond_holdings

lemma tryQueueUdp_delivers : Delivers .udp key s.holdings (s.tryQueueUdp key length).holdings := by
  rw [tryQueueUdp]
  split
  · exact .inl rfl
  · next session hfind => exact .inr ⟨session, hfind, .udp _ rfl rfl rfl⟩

lemma processUdp_delivers {srcIp} {d : Datagram}
    (hd : datagram? frame ipHeaderLen ipEnd = .ok (some d)) :
    DeliversFrom .udp d.dstPort (processUdp frame ipHeaderLen srcIp ipEnd) s := by
  rw [processUdp, hd, fromResult_ok, pure_bind]
  refine DeliversFrom.bind processDhcpPayload_holdings fun taken t => ?_
  refine wp_ite (fun _ => .inl rfl) (fun _ => ?_)
  refine DeliversFrom.bind processDnsPayload_holdings fun taken u => ?_
  refine wp_ite (fun _ => .inl rfl) (fun _ => ?_)
  exact tryQueueUdp_delivers

lemma allocate_lt {r : NetRuntime} {index} (halloc : r.allocateTcpConnection = some index) :
    index < tcpMaxConnections := by
  rw [NetRuntime.allocateTcpConnection, Option.or_eq_some_iff] at halloc
  obtain hvacant | ⟨-, hreclaim⟩ := halloc
  · unfold TcpIndex.vacant at hvacant
    have hmem := mem_of_find?_eq_some hvacant
    rwa [mem_range] at hmem
  · unfold NetRuntime.reclaimable at hreclaim
    have hmem := mem_of_find?_eq_some hreclaim
    rwa [mem_range] at hmem

lemma openConnection_holdings {r : NetRuntime} {index ip} {peerPort localPort : UInt16}
    {conn : Nat → TcpConnection} (hlt : index < tcpMaxConnections) :
    ∃ connectionId tcpIndex, (r.openConnection index ip peerPort localPort conn).holdings =
      { r.holdings with
        tcpConnections := Function.update r.tcpConnections index (conn connectionId)
        tcpIndex := tcpIndex
        tcpRx := r.tcpRx.reset index } := by
  rw [NetRuntime.openConnection, NetRuntime.tcpReset, if_pos hlt]
  simp only [NetRuntime.holdings, NetRuntime.setConnection, Function.update_idem]
  exact ⟨_, _, rfl⟩

lemma processSyn_delivers {r : NetRuntime} :
    Delivers .tcp seg.dstPort r.holdings (r.processSyn seg).holdings := by
  rw [NetRuntime.processSyn]
  split
  · exact .inl rfl
  · next session hfind =>
    split
    · exact .inl rfl
    · split
      · exact .inl rfl
      · next index halloc =>
        have hlt := allocate_lt halloc
        obtain ⟨connectionId, tcpIndex, hholdings⟩ := @openConnection_holdings r index
          seg.srcIp seg.srcPort seg.dstPort (synConnection seg session.callerId index) hlt
        rw [hholdings]
        exact .inr ⟨session, hfind, .tcp index _ rfl rfl rfl rfl⟩

lemma processTcpFrame_delivers {frame : Frame} (hseg : frame.segment? = some seg)
    (hopens : seg.opens = true) : DeliversFrom .tcp seg.dstPort (processTcpFrame frame) s := by
  refine .bind .fromResult fun _ t => ?_
  rw [DeliversFrom, wp_read, NetRuntime.processTcp, hseg]
  have hsyn : t.runtime.processSegment seg = t.runtime.processSyn seg := if_pos hopens
  simp only [hsyn]
  exact processSyn_delivers

lemma eq_ok_of_toOption {r : Checked (Option α)} {a} (hr : r.toOption.join = some a) :
    r = .ok (some a) := by
  cases r with
  | error e => cases hr
  | ok o => exact congrArg Except.ok hr

lemma dispatchIpv4_delivers (hkey : h.key frame = some (protocol, key)) :
    DeliversFrom protocol key (dispatchIpv4 frame h) s := by
  rw [dispatchIpv4]
  rw [Ipv4Header.key] at hkey
  split at hkey
  · next hicmp =>
    obtain ⟨identifier, hid, heq⟩ := Option.map_eq_some_iff.mp hkey
    cases heq
    rw [if_pos hicmp]
    exact processIcmp_delivers (eq_ok_of_toOption hid)
  · next hicmp =>
    split at hkey
    · next htcp =>
      obtain ⟨seg, hseg, heq⟩ := Option.map_eq_some_iff.mp hkey
      obtain ⟨hseg, hopens⟩ := Option.filter_eq_some_iff.mp hseg
      cases heq
      rw [if_neg hicmp, if_pos htcp]
      exact processTcpFrame_delivers hseg hopens
    · next htcp =>
      split at hkey
      · next hudp =>
        obtain ⟨d, hd, heq⟩ := Option.map_eq_some_iff.mp hkey
        cases heq
        rw [if_neg hicmp, if_neg htcp, if_pos hudp]
        exact processUdp_delivers (eq_ok_of_toOption hd)
      · cases hkey

lemma processIpv4_delivers (hheader : ipv4Header? frame = .ok (some h))
    (hkey : h.key frame = some (protocol, key)) : DeliversFrom protocol key (processIpv4 frame) s := by
  rw [processIpv4, hheader, fromResult_ok, pure_bind]
  refine .bind processEarlyDhcp_holdings fun taken t => wp_ite (fun _ => .inl rfl) (fun _ => ?_)
  refine wp_ite (fun _ => .inl rfl) (fun _ => wp_ite (fun _ => ?_) (fun _ => ?_))
  · exact DeliversFrom.bind updateArp_holdings fun _ u => dispatchIpv4_delivers hkey
  · exact dispatchIpv4_delivers hkey

/-- A frame with a key leaves everything as it is, or delivers to the first session with the key. -/
lemma receiveFrame_delivers (hkey : frameKey frame = some (protocol, key)) :
    DeliversFrom protocol key (receiveFrame frame) s := by
  rw [frameKey] at hkey
  split at hkey
  · next htype =>
    obtain ⟨h, hheader, hkey⟩ := Option.bind_eq_some_iff.mp hkey
    refine wp_ite (fun _ => ?_) (fun _ => .inl rfl)
    refine DeliversFrom.bind (.modify fun _ => rfl) fun _ t => ?_
    refine wp_ite (fun _ => .inl rfl) (fun _ => ?_)
    rw [htype, fromResult_ok, pure_bind]
    exact processIpv4_delivers (eq_ok_of_toOption hheader) hkey
  · cases hkey

end Keyed

/-! ### No frame changes a session -/

section Sessions

variable {frame : List UInt8} {h : Ipv4Header} {r : NetRuntime} {index : Nat} {seg : Segment}

@[simp] lemma setConnection_sessions {conn} :
    (r.setConnection index conn).sessions = r.sessions := rfl

@[simp] lemma receiveSegment_sessions : (r.receiveSegment index seg).sessions = r.sessions := by
  rw [NetRuntime.receiveSegment, setConnection_sessions, NetRuntime.receivePayload]
  split <;> rfl

@[simp] lemma receiveLastFin_sessions : (r.receiveLastFin index seg).sessions = r.sessions := by
  rw [NetRuntime.receiveLastFin]
  split
  · dsimp only
    split <;> simp
  · rfl

lemma processConnection_sessions : (r.processConnection index seg).sessions = r.sessions := by
  rw [NetRuntime.processConnection]
  split
  · exact tcpReset_sessions
  · split <;> (try split) <;> simp

lemma processSyn_sessions : (r.processSyn seg).sessions = r.sessions := by
  rw [NetRuntime.processSyn]
  split
  · rfl
  · split
    · rfl
    · split
      · rfl
      · exact openConnection_sessions

variable {ipHeaderLen ipEnd : Nat}

lemma processTcp_sessions {frame} : (r.processTcp frame).sessions = r.sessions := by
  rw [NetRuntime.processTcp]
  split
  · rfl
  · rw [NetRuntime.processSegment]
    split
    · exact processSyn_sessions
    · split
      · rfl
      · exact processConnection_sessions

def Station.sessions (s : Station) : List ClientSession := s.runtime.sessions

lemma sessions_of_holdings {α} {m : Receiver α} (hm : Preserves holdings m) :
    Preserves sessions m :=
  hm.weaken fun _ _ => congrArg Holdings.sessions

lemma processIcmp_sessions : Preserves sessions (processIcmp frame ipHeaderLen ipEnd) := by
  refine .ite .pure (.bind .fromResult fun icmp => ?_)
  refine .bind .fromResult fun type => ?_
  refine .bind .fromResult fun code => .ite ?_ (.ite .pure ?_)
  · refine .bind .fromResult fun _ => .ite .pure ?_
    refine .bind .fromResult fun _ => .modify fun s => ?_
    rw [queueIcmpReply]
    split <;> rfl
  · exact .bind .fromResult fun _ => sessions_of_holdings respond_holdings

lemma processUdp_sessions {srcIp : Ipv4} :
    Preserves sessions (processUdp frame ipHeaderLen srcIp ipEnd) := by
  refine .bind .fromResult fun d => ?_
  cases d with
  | none => exact .pure
  | some d =>
    refine .bind (sessions_of_holdings processDhcpPayload_holdings) fun _ => ?_
    refine .ite .pure ?_
    refine .bind (sessions_of_holdings processDnsPayload_holdings) fun _ => ?_
    refine .ite .pure (.modify fun s => ?_)
    rw [tryQueueUdp]
    split <;> rfl

lemma processTcpFrame_sessions {frame} : Preserves sessions (processTcpFrame frame) :=
  .bind .fromResult fun _ => .get fun _ => processTcp_sessions

lemma dispatchIpv4_sessions : Preserves sessions (dispatchIpv4 frame h) :=
  .ite processIcmp_sessions
    (.ite processTcpFrame_sessions (.ite processUdp_sessions .pure))

lemma processIpv4_sessions : Preserves sessions (processIpv4 frame) := by
  refine .bind .fromResult fun header => ?_
  cases header with
  | none => exact .pure
  | some h =>
    refine .bind (sessions_of_holdings processEarlyDhcp_holdings) fun _ => ?_
    refine .ite .pure (.get fun s => ?_)
    refine wp_ite (fun _ => rfl) (fun _ => wp_ite (fun _ => ?_) (fun _ => dispatchIpv4_sessions s))
    exact Preserves.after
      (.bind (sessions_of_holdings updateArp_holdings) fun _ => dispatchIpv4_sessions) rfl

lemma receiveFrame_sessions : Preserves sessions (receiveFrame frame) := by
  refine .ite (.bind (.modify fun _ => rfl) fun _ => ?_) .pure
  refine .ite .pure (.bind .fromResult fun _ => ?_)
  refine .ite (sessions_of_holdings processArp_holdings) ?_
  exact .ite processIpv4_sessions .pure

end Sessions

/-! ### Runs -/

namespace Network

variable {n : Network} {event : NetEvent} {events : List NetEvent} {protocol : Protocol} {key : UInt16}
  {bytes : List UInt8}

lemma receive_sessions : (n.receive bytes).server.runtime.sessions = n.server.runtime.sessions :=
  stateAfter_of_wp
    (receiveFrame_sessions n.station)

lemma step_bound (h : Bound n.server.runtime.sessions n.bindings) :
    Bound (n.step event).server.runtime.sessions (n.step event).bindings := by
  cases event with
  | attach request gone shared => exact handleAttach_bound h
  | tcpBind request =>
    have hbind := @handlePortBind_bound n.bindings n.server request .tcp h
    exact hbind
  | tcpUnbind request =>
    have hunbind := @handlePortUnbind_bound n.bindings n.server request .tcp h
    exact hunbind
  | udpBind request => exact @handlePortBind_bound n.bindings n.server request .udp h
  | udpUnbind request => exact @handlePortUnbind_bound n.bindings n.server request .udp h
  | connect request =>
    refine h.of_tables ?_ (List.Subset.refl _)
    exact stateAfter_of_wp
      (handleTcpConnect_tables n.server)
  | request env kind request =>
    by_cases hk : kind = .icmpSend
    · subst hk
      exact handleIcmpSend_bound h
    · have hrecord : (n.step (.request env kind request)).bindings = n.bindings := by
        cases kind <;> first | rfl | exact absurd rfl hk
      rw [hrecord]
      refine h.of_tables ?_ (List.Subset.refl _)
      exact stateAfter_of_wp
        (handle_tables hk n.server)
  | configure dhcp dns ip subnetMask gatewayIp dnsIp => exact h
  | frame bytes =>
    refine h.of_tables ?_ (List.Subset.refl _)
    exact congrArg (map ClientSession.table) receive_sessions

lemma Starts.bound (h : n.Starts) : Bound n.server.runtime.sessions n.bindings := by
  rw [h.sessions]
  refine ⟨fun i x hx hactive => ?_, fun x hx protocol => ?_⟩
  · obtain rfl := eq_of_mem_replicate (mem_of_getElem? hx)
    cases hactive
  · obtain rfl := eq_of_mem_replicate hx
    cases protocol <;> exact distinct_zeros

lemma run_bound (h : Bound n.server.runtime.sessions n.bindings) :
    Bound (n.run events).server.runtime.sessions (n.run events).bindings := by
  induction events generalizing n with
  | nil => exact h
  | cons event events ih => exact ih (step_bound h)

/-- The frame changes nothing, or something is received for a session that has taken its key and not
given it back. -/
structure ReachesBinder (n : Network) (protocol : Protocol) (key : UInt16) (after : Holdings) : Prop where
  binder : after = n.server.runtime.holdings ∨
    ∃ slot session, n.server.runtime.sessions[slot]? = some session ∧ session.active = true ∧
      ⟨slot, protocol, key⟩ ∈ n.bindings ∧
      ReceivedFor session.callerId key n.server.runtime.holdings after protocol
  unbound : (∀ slot, ⟨slot, protocol, key⟩ ∉ n.bindings) → after = n.server.runtime.holdings

def Full (n : Network) (protocol : Protocol) : Prop :=
  ∀ session ∈ n.server.runtime.sessions, session.active = true → (0 : UInt16) ∉ session.keys protocol

lemma reachesBinder_of_delivers {after} (h : Bound n.server.runtime.sessions n.bindings)
    (hset : key ≠ 0 ∨ n.Full protocol)
    (hd : Delivers protocol key n.server.runtime.holdings after) :
    n.ReachesBinder protocol key after := by
  have hbinder : after = n.server.runtime.holdings ∨
      ∃ slot session, n.server.runtime.sessions[slot]? = some session ∧ session.active = true ∧
        ⟨slot, protocol, key⟩ ∈ n.bindings ∧
        ReceivedFor session.callerId key n.server.runtime.holdings after protocol := by
    refine hd.imp_right fun ⟨session, hfind, hreceived⟩ => ?_
    have hmem := mem_of_find?_eq_some hfind
    have hfound := find?_some hfind
    rw [Bool.and_eq_true, contains_iff_mem] at hfound
    obtain ⟨hactive, hkey⟩ := hfound
    have hne : key ≠ 0 := by
      rintro rfl
      exact hset.elim (· rfl) fun hfull => hfull session hmem hactive hkey
    obtain ⟨slot, hslot⟩ := mem_iff_getElem?.mp hmem
    exact ⟨slot, session, hslot, hactive, h.recorded slot session hslot hactive protocol key hkey hne,
      hreceived⟩
  refine ⟨hbinder, fun hnone => ?_⟩
  obtain hsame | ⟨slot, _, -, -, hrec, -⟩ := hbinder
  · exact hsame
  · exact absurd hrec (hnone slot)

/-- In every run of the server, a SYN, a datagram or an echo reply whose key is not 0, or that finds
every table of its protocol full, reaches only a session that has taken the key and not given it back. -/
theorem frames_reach_binders (hstart : n.Starts) (hkey : frameKey bytes = some (protocol, key))
    (hset : key ≠ 0 ∨ (n.run events).Full protocol) :
    (n.run events).ReachesBinder protocol key
      ((n.run events).step (.frame bytes)).server.runtime.holdings := by
  refine reachesBinder_of_delivers (run_bound hstart.bound) hset ?_
  exact stateAfter_of_wp
    (P := fun t : Station => Delivers protocol key (n.run events).station.holdings t.holdings)
    (receiveFrame_delivers hkey)

def fresh : Network where
  server := freshServer
  arpNext := 0
  dhcp := ⟨false, 0, false, false, 0, 0, 0, 0, none⟩
  dns := ⟨false, 0, 0, false, 0⟩
  bindings := []

lemma fresh_starts : fresh.Starts := ⟨rfl, rfl⟩

def attached (identifier : Nat) : NetEvent :=
  .attach ⟨identifier, 0, 1, 0, 0⟩ (fun _ => false) (.ok (0x10000, 0x20000))

def synFrame (hi lo : UInt8) : List UInt8 :=
  [2, 0, 0, 0, 0, 1, 2, 0, 0, 0, 0, 2, 0x08, 0x00] ++
  [0x45, 0, 0, 40, 0, 0, 0, 0, 64, 6, 0, 0, 10, 0, 0, 2, 10, 0, 0, 1] ++
  [0x10, 0, hi, lo, 0, 0, 0, 9, 0, 0, 0, 0, 0x50, 2, 0, 0, 0, 0, 0, 0]

/-- A SYN to the port that the client has bound: it gets the connection. -/
theorem frames_reach_binders_syn :
    let n := fresh.run [attached 7, .tcpBind ⟨7, 0, 80, 0, 0⟩]
    n.ReachesBinder .tcp 80 (n.step (.frame (synFrame 0 80))).server.runtime.holdings ∧
      ((n.step (.frame (synFrame 0 80))).server.runtime.tcpConnections 0).ownerId = 7 :=
  ⟨frames_reach_binders fresh_starts (by decide +kernel) (.inl (by decide)), by decide +kernel⟩

/-- A client that has bound nothing: a SYN to port 0 opens a connection for it. -/
theorem zero_port_reaches_idle_client :
    let n := fresh.run [attached 7]
    fresh.Starts ∧ frameKey (synFrame 0 0) = some (.tcp, 0) ∧ n.bindings = [] ∧
      ((n.step (.frame (synFrame 0 0))).server.runtime.tcpConnections 0).ownerId = 7 ∧
      ¬n.ReachesBinder .tcp 0 (n.step (.frame (synFrame 0 0))).server.runtime.holdings := by
  have howner : (((fresh.run [attached 7]).step (.frame (synFrame 0 0))).server.runtime.tcpConnections
      0).ownerId = 7 := by decide +kernel
  refine ⟨fresh_starts, by decide +kernel, by decide +kernel, howner, fun h => ?_⟩
  have hsame := h.unbound fun slot hmem => by
    cases hmem
  have hidle : (((fresh.run [attached 7]).step (.frame (synFrame 0 0))).server.runtime.tcpConnections
      0).ownerId = 0 := congrArg (fun a : Holdings => (a.tcpConnections 0).ownerId) hsame
  rw [howner] at hidle
  cases hidle

end Network

end Nanami.Net
