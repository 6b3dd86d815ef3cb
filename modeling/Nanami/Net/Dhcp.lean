import Nanami.Net.Frames

/-!
# The DHCP exchange

Model of `dhcp_bootstrap`. What the network brings is a list of rounds: a message that could not be
sent, or the batches of datagrams that arrive until the wait for its answer ends. Beside the state stand
the replies that were heard, and whether each was one to expect when it came.
-/

namespace Nanami.Net
open Lib List DhcpState

def dhcpMaxRetries : Nat := 6

structure Packet extends Datagram where
  srcIp : Ipv4

structure Reply extends DhcpParsed where
  srcIp : Ipv4

def Reply.server (r : Reply) : Ipv4 :=
  if r.serverIp ≠ 0 then r.serverIp
  else if r.srcIp ≠ 0 ∧ r.srcIp ≠ broadcastIp then r.srcIp
  else 0

def Reply.acknowledges (server : Ipv4) (r : Reply) : Bool :=
  r.msgType == dhcpMsgAck && r.server == server

/-- The reply that `process_dhcp_payload` finds in a datagram. -/
def Packet.reply (p : Packet) (d : DhcpState) : Option Reply :=
  if p.srcPort ≠ dhcpServerPort ∨ p.dstPort ≠ dhcpClientPort ∨ d.waiting = false then none
  else
    match parseDhcpPayload p.payload d.xid with
    | .ok (some parsed) => some ⟨parsed, p.srcIp⟩
    | _ => none

/-- The exchange so far: the replies of the search, the address and the server of the last request, and
the replies since the search or that request began. -/
structure Exchange where
  station : Station
  offered : List Reply
  requested : Ipv4 × Ipv4
  heard : List Reply
  timely : Bool

inductive Phase where
  | discover
  | request

inductive Outcome where
  | leased
  | fallback
  | waiting
  deriving DecidableEq

namespace Exchange

def dhcp (e : Exchange) : DhcpState := e.station.dhcp

def setDhcp (e : Exchange) (d : DhcpState) : Exchange := { e with station := { e.station with dhcp := d } }

def complete (ack : Bool) (e : Exchange) : Bool := if ack then e.dhcp.ackValid else e.dhcp.offerValid

/-- A reply that may come now: an offer during the search, an acknowledgement of the server that was
asked, and nothing once the wait is over. -/
def expects (ack : Bool) (e : Exchange) (r : Reply) : Bool :=
  !e.complete ack && (r.msgType != dhcpMsgOffer || !ack) &&
    (r.msgType != dhcpMsgAck || ack && r.server == e.requested.2)

def deliver (ack : Bool) (e : Exchange) (p : Packet) : Exchange :=
  let station := stateAfter (processDhcpPayload p.srcIp p.srcPort p.dstPort p.payload) e.station
  match p.reply e.dhcp with
  | none => { e with station := station }
  | some r =>
    { e with station := station, heard := e.heard ++ [r], timely := e.timely && e.expects ack r }

/-- `wait_dhcp`, with the batches that are pumped until the deadline. -/
def waitDhcp (ack : Bool) : List (List Packet) → Exchange → Bool × Exchange
  | [], e => (false, e)
  | batch :: rest, e =>
    let e := batch.foldl (deliver ack) e
    if e.complete ack then (true, e)
    else if ack && !e.dhcp.offerValid then (false, e)
    else waitDhcp ack rest e

/-- A message and the wait for its answer, or a message that could not be sent. -/
def await (ack : Bool) (e : Exchange) : Option (List (List Packet)) → Bool × Exchange
  | none => (false, e)
  | some batches => e.waitDhcp ack batches

def discover (e : Exchange) (xid : UInt32) : Exchange :=
  { e with
    station.dhcp := ⟨e.dhcp.waiting, xid, false, false, e.dhcp.offerIp, 0, 0, 0, none⟩
    heard := [] }

/-- `send_dhcp_request` names the address and the server that are held. -/
def request (e : Exchange) : Exchange :=
  { e.setDhcp { e.dhcp with ackValid := false } with
    requested := (e.dhcp.offerIp, e.dhcp.serverIp), heard := [] }

def useConfiguredFallback (e : Exchange) : Exchange :=
  e.setDhcp { e.dhcp with waiting := false, offerValid := false, ackValid := false }

/-- `apply_lease`, up to the frames that announce it. -/
def applyLease (e : Exchange) : Exchange :=
  let r := e.station.runtime
  { e.setDhcp { e.dhcp with waiting := false } with
    station.runtime :=
      { r with
        ip := e.dhcp.offerIp
        gatewayIp := if e.dhcp.routerIp ≠ 0 then e.dhcp.routerIp else r.gatewayIp
        dnsIp := if e.dhcp.dnsIp ≠ 0 then e.dhcp.dnsIp else r.dnsIp
        subnetMask := e.dhcp.subnetMask.getD r.subnetMask } }

/-- The two loops of `dhcp_bootstrap`, one message at a time. -/
def loops : List (Option (List (List Packet))) → Phase → Nat → Exchange → Outcome × Exchange
  | [], _, _, e => (.waiting, e)
  | round :: rounds, .discover, retry, e =>
    let (done, e) := e.await false round
    if done && e.dhcp.offerValid then loops rounds .request 0 { e with offered := e.heard }
    else if retry + 1 ≥ dhcpMaxRetries then (.fallback, e.useConfiguredFallback)
    else loops rounds .discover (retry + 1) e
  | round :: rounds, .request, retry, e =>
    let (done, e) := e.request.await true round
    if done && e.dhcp.ackValid then (.leased, e.applyLease)
    else if !e.dhcp.offerValid then
      loops rounds .discover 0 (e.discover (e.dhcp.xid + 0x11111111))
    else if retry + 1 ≥ dhcpMaxRetries then (.fallback, e.useConfiguredFallback)
    else loops rounds .request (retry + 1) e

/-- `dhcp_bootstrap`, with the transaction that `make_dhcp_xid` names. -/
def dhcpBootstrap (rounds : List (Option (List (List Packet)))) (xid : UInt32) (s : Station) :
    Outcome × Exchange :=
  let e : Exchange := ⟨{ s with dhcp := ⟨true, xid, false, false, 0, 0, 0, 0, none⟩ }, [], (0, 0), [], true⟩
  loops rounds .discover 0 (e.discover xid)

def acknowledgement (e : Exchange) : Option Reply := e.heard.find? (·.acknowledges e.requested.2)

/-- The lease has its values from the offer that the request answers and from the acknowledgement that
completes it; what they leave out is as it was configured. -/
def Proper (r : NetRuntime) (e : Exchange) : Prop :=
  let t := e.station.runtime
  ∃ o ∈ e.offered, ∃ a, e.acknowledgement = some a ∧ o.msgType = dhcpMsgOffer ∧
    e.requested = (o.yiaddr, o.server) ∧
    t.ip ∈ [a.yiaddr, o.yiaddr] ∧
    t.gatewayIp ∈ [r.gatewayIp, a.routerIp, o.routerIp] ∧
    t.dnsIp ∈ [r.dnsIp, a.dnsIp, o.dnsIp] ∧
    some t.subnetMask ∈ [some r.subnetMask, a.subnetMask, o.subnetMask]

/-! ### What is held -/

/-- The values of a reply are held. -/
structure Holds (d : DhcpState) (o : Reply) : Prop where
  server : d.serverIp = o.server
  router : d.routerIp = o.routerIp
  dns : d.dnsIp = o.dnsIp
  mask : d.subnetMask = o.subnetMask

def nothing : Reply := ⟨.empty, 0⟩

def HoldsOffer (d : DhcpState) (o : Reply) : Prop :=
  o.msgType = dhcpMsgOffer ∧ d.offerIp = o.yiaddr ∧ Holds d o

def Discovering (e : Exchange) : Prop :=
  (e.dhcp.offerValid = false ∧ Holds e.dhcp nothing) ∨
    e.dhcp.offerValid = true ∧ ∃ o ∈ e.heard, HoldsOffer e.dhcp o

def Requesting (e : Exchange) : Prop :=
  ∃ o ∈ e.offered, o.msgType = dhcpMsgOffer ∧ e.requested = (o.yiaddr, o.server) ∧
    ((e.dhcp.ackValid = false ∧ HoldsOffer e.dhcp o ∧ ∀ a ∈ e.heard, a.msgType ≠ dhcpMsgAck) ∨
      e.dhcp.ackValid = true ∧ ∃ a, e.acknowledgement = some a ∧ e.dhcp.offerIp = a.yiaddr ∧
        e.dhcp.routerIp ∈ [a.routerIp, o.routerIp] ∧ e.dhcp.dnsIp ∈ [a.dnsIp, o.dnsIp] ∧
        e.dhcp.subnetMask ∈ [a.subnetMask, o.subnetMask])

def Inv (r : NetRuntime) (ack : Bool) (e : Exchange) : Prop :=
  e.station.runtime = r ∧ if ack then e.Requesting else e.Discovering

variable {e : Exchange} {d : DhcpState} {r : NetRuntime} {a o : Reply} {p : Packet} {ack : Bool}
variable {s : Station} {batch : List Packet} {batches : List (List Packet)}

lemma processDhcpPayload_eq : stateAfter (processDhcpPayload p.srcIp p.srcPort p.dstPort p.payload) s =
    { s with dhcp := (p.reply s.dhcp).elim s.dhcp fun r => s.dhcp.receive r.toDhcpParsed r.srcIp } := by
  refine stateAfter_of_wp (P := (· = _)) ?_
  unfold processDhcpPayload Packet.reply
  refine wp_ite (fun hports => ?_) fun hports => ?_
  · rw [if_pos (hports.imp_right .inl)]
    rfl
  refine wp_ite (fun hidle => ?_) fun hwaits => ?_
  · rw [if_pos (.inr (.inr (by simpa using hidle)))]
    rfl
  rw [if_neg (by simp_all), wp_bind]
  refine wp_fromResult (fun parsed hparsed => ?_) fun e herror => ?_
  · rw [hparsed]
    cases parsed with
    | none =>
      rw [wp_bind]
      exact wp_fromResult (fun _ _ => rfl) fun _ _ => rfl
    | some parsed => rfl
  · rw [herror]
    rfl

lemma Holds.offer (h : Holds d nothing) : Holds (d.configure o.toDhcpParsed o.srcIp) o where
  server := by
    simp only [DhcpState.configure, DhcpState.server, Reply.server, h.server]
    rfl
  router := by
    simp only [configure, h.router]
    split <;> simp_all [nothing, DhcpParsed.empty]
  dns := by
    simp only [configure, h.dns]
    split <;> simp_all [nothing, DhcpParsed.empty]
  mask := by
    simp only [configure, h.mask]
    exact Option.or_none

lemma receive_other (hoffer : a.msgType ≠ dhcpMsgOffer) (hack : a.msgType ≠ dhcpMsgAck) :
    ∃ valid, d.receive a.toDhcpParsed a.srcIp =
      { d with offerValid := d.offerValid && valid, ackValid := d.ackValid && valid } := by
  rw [receive, if_neg hoffer, if_neg hack]
  split
  · exact ⟨false, by rw [Bool.and_false, Bool.and_false]⟩
  · exact ⟨true, by rw [Bool.and_true, Bool.and_true]⟩

def hear (e : Exchange) (a : Reply) (timely : Bool) : Exchange :=
  { e.setDhcp (e.dhcp.receive a.toDhcpParsed a.srcIp) with heard := e.heard ++ [a], timely := timely }

lemma Discovering.hear {timely} (h : e.Discovering) (hexpects : e.expects false a = true) :
    (e.hear a timely).Discovering := by
  simp only [expects, complete, Bool.and_eq_true, Bool.not_eq_true', Bool.or_eq_true, bne_iff_ne,
    Bool.false_eq_true, if_false, Bool.not_false, or_true, and_true, Bool.false_and, or_false] at hexpects
  obtain ⟨hnone, hack⟩ := hexpects
  obtain ⟨-, hholds⟩ := h.resolve_right fun h => by simp [hnone] at h
  have hdhcp : (e.hear a timely).dhcp = e.dhcp.receive a.toDhcpParsed a.srcIp := rfl
  rw [Discovering, hdhcp]
  by_cases hoffer : a.msgType = dhcpMsgOffer
  · rw [receive, if_pos hoffer]
    exact .inr ⟨rfl, a, mem_append_right _ mem_cons_self, hoffer, rfl, { hholds.offer with }⟩
  · obtain ⟨valid, heq⟩ := @receive_other e.dhcp a hoffer hack
    rw [heq, hnone]
    exact .inl ⟨rfl, { hholds with }⟩

lemma Requesting.hear {timely} (h : e.Requesting) (hexpects : e.expects true a = true) :
    (e.hear a timely).Requesting := by
  simp only [expects, complete, Bool.and_eq_true, Bool.not_eq_true', Bool.or_eq_true, bne_iff_ne,
    if_true, Bool.not_true, Bool.false_eq_true, or_false, Bool.true_and, beq_iff_eq] at hexpects
  obtain ⟨⟨hnone, hoffer⟩, hserver⟩ := hexpects
  obtain ⟨o, hmem, htype, hrequested, h⟩ := h
  obtain ⟨-, ⟨-, hip, hholds⟩, hothers⟩ := h.resolve_right fun h => by simp [hnone] at h
  refine ⟨o, hmem, htype, hrequested, ?_⟩
  have hdhcp : (e.hear a timely).dhcp = e.dhcp.receive a.toDhcpParsed a.srcIp := rfl
  rw [hdhcp]
  by_cases hack : a.msgType = dhcpMsgAck
  · rw [receive, if_neg hoffer, if_pos hack]
    refine .inr ⟨rfl, a, ?_, rfl, ?_⟩
    · show (e.heard ++ [a]).find? (·.acknowledges e.requested.2) = _
      rw [find?_append, find?_eq_none.mpr fun b hb => by simp [Reply.acknowledges, hothers b hb],
        Option.none_or, find?_cons_of_pos]
      simp [Reply.acknowledges, hack, hserver.resolve_left (not_not.mpr hack)]
    · simp only [configure, hholds.router, hholds.dns, hholds.mask]
      refine ⟨?_, ?_, ?_⟩
      · split <;> simp
      · split <;> simp
      · cases a.subnetMask <;> simp
  · obtain ⟨valid, heq⟩ := @receive_other e.dhcp a hoffer hack
    rw [heq, hnone]
    exact .inl ⟨rfl, ⟨htype, hip, { hholds with }⟩,
      forall_mem_append.mpr ⟨hothers, forall_mem_singleton.mpr hack⟩⟩

lemma deliver_eq : e.deliver ack p =
    (p.reply e.dhcp).elim e fun a => e.hear a (e.timely && e.expects ack a) := by
  rw [deliver, processDhcpPayload_eq]
  cases hreply : p.reply e.station.dhcp <;> simp only [dhcp, hreply] <;> rfl

lemma deliver_inv (h : e.timely = true → Inv r ack e) :
    (e.deliver ack p).timely = true → Inv r ack (e.deliver ack p) := by
  rw [deliver_eq]
  cases p.reply e.dhcp with
  | none => exact h
  | some a =>
    intro ht
    obtain ⟨htimely, hexpects⟩ := Bool.and_eq_true_iff.mp ht
    obtain ⟨hr, hinv⟩ := h htimely
    refine ⟨hr, ?_⟩
    cases ack with
    | false => exact Discovering.hear hinv hexpects
    | true => exact Requesting.hear hinv hexpects

lemma batch_inv (h : e.timely = true → Inv r ack e) :
    (batch.foldl (deliver ack) e).timely = true → Inv r ack (batch.foldl (deliver ack) e) := by
  induction batch generalizing e with
  | nil => exact h
  | cons p batch ih => exact ih (deliver_inv h)

lemma await_inv {round} (h : e.timely = true → Inv r ack e ∧ e.complete ack = false) :
    (e.await ack round).2.timely = true →
      Inv r ack (e.await ack round).2 ∧ (e.await ack round).1 = (e.await ack round).2.complete ack := by
  cases round with
  | none => exact fun ht => (h ht).imp_right Eq.symm
  | some batches =>
    simp only [await]
    induction batches generalizing e with
    | nil => exact fun ht => (h ht).imp_right Eq.symm
    | cons batch batches ih =>
      have hbatch := @batch_inv e r ack batch fun ht => (h ht).1
      rw [waitDhcp]
      split
      · exact fun ht => ⟨hbatch ht, (‹_› : _ = true).symm⟩
      · have hnot := Bool.eq_false_iff.mpr ‹_›
        split
        · exact fun ht => ⟨hbatch ht, hnot.symm⟩
        · exact ih fun ht => ⟨hbatch ht, hnot⟩

lemma mem_of_taken {v c x y : Ipv4} (h : v ∈ [x, y]) : (if v ≠ 0 then v else c) ∈ [c, x, y] := by
  split
  · exact mem_cons_of_mem _ h
  · exact mem_cons_self

lemma Requesting.proper (h : e.Requesting) (hack : e.dhcp.ackValid = true) :
    e.applyLease.Proper e.station.runtime := by
  obtain ⟨o, hmem, htype, hrequested, h⟩ := h
  obtain ⟨-, a, hfound, hip, hrouter, hdns, hmask⟩ := h.resolve_left fun h => by simp [hack] at h
  refine ⟨o, hmem, a, hfound, htype, hrequested, ?_, mem_of_taken hrouter, mem_of_taken hdns, ?_⟩
  · exact mem_cons.mpr (.inl hip)
  · show some (e.dhcp.subnetMask.getD _) ∈ _
    cases hd : e.dhcp.subnetMask with
    | none => exact mem_cons_self
    | some mask => exact mem_cons_of_mem _ (hd ▸ hmask)

def AtLoop (r : NetRuntime) (e : Exchange) : Phase → Prop
  | .discover => e.station.runtime = r ∧ e.dhcp.offerValid = false ∧ Holds e.dhcp nothing
  | .request => e.station.runtime = r ∧ ∃ o ∈ e.offered, HoldsOffer e.dhcp o

lemma discover_atLoop {xid} (h : e.timely = true → e.station.runtime = r)
    (ht : (e.discover xid).timely = true) : AtLoop r (e.discover xid) .discover :=
  ⟨h ht, rfl, rfl, rfl, rfl, rfl⟩

def Leases (r : NetRuntime) (result : Outcome × Exchange) : Prop :=
  result.1 = .leased → result.2.timely = true → result.2.Proper r

lemma loops_leases {rounds phase retry} (h : e.timely = true → AtLoop r e phase) :
    Leases r (loops rounds phase retry e) := by
  induction rounds generalizing phase retry e with
  | nil => exact nofun
  | cons round rounds ih =>
    cases phase with
    | discover =>
      have hwait := @await_inv e r false round fun ht =>
        have ⟨hr, hnone, hholds⟩ := h ht
        ⟨⟨hr, .inl ⟨hnone, hholds⟩⟩, hnone⟩
      rw [loops]
      generalize e.await false round = answer at hwait ⊢
      obtain ⟨done, e'⟩ := answer
      dsimp only at hwait ⊢
      split
      · rename_i hdone
        refine ih fun ht => ?_
        obtain ⟨⟨hr, hinv⟩, -⟩ := hwait ht
        obtain ⟨-, hoffer⟩ := hinv.resolve_left fun hnone => by simp [hnone.1] at hdone
        exact ⟨hr, hoffer⟩
      · rename_i hdone
        split
        · exact nofun
        · refine ih fun ht => ?_
          obtain ⟨⟨hr, hinv⟩, rfl⟩ := hwait ht
          exact ⟨hr, hinv.resolve_right fun hoffer => by simp [complete, hoffer.1] at hdone⟩
    | request =>
      have hwait := @await_inv e.request r true round fun ht =>
        have ⟨hr, o, hmem, htype, hip, hholds⟩ := h ht
        ⟨⟨hr, o, hmem, htype, Prod.ext hip hholds.server,
          .inl ⟨rfl, ⟨htype, hip, { hholds with }⟩, fun a ha => absurd ha not_mem_nil⟩⟩, rfl⟩
      rw [loops]
      generalize e.request.await true round = answer at hwait ⊢
      obtain ⟨done, e'⟩ := answer
      dsimp only at hwait ⊢
      split
      · rename_i hdone
        intro _ ht
        obtain ⟨⟨rfl, hinv⟩, -⟩ := hwait ht
        exact Requesting.proper hinv (Bool.and_eq_true_iff.mp hdone).2
      · rename_i hdone
        split
        · exact ih (discover_atLoop fun ht => (hwait ht).1.1)
        · split
          · exact nofun
          · refine ih fun ht => ?_
            obtain ⟨⟨hr, o, hmem, -, -, hinv⟩, rfl⟩ := hwait ht
            obtain ⟨-, hoffer, -⟩ := hinv.resolve_right fun hack => by simp [complete, hack.1] at hdone
            exact ⟨hr, o, hmem, hoffer⟩

/-- Every lease is proper in an exchange whose replies come when they are expected. -/
theorem lease_proper (rounds : List (Option (List (List Packet)))) (xid : UInt32) (s : Station)
    (hleased : (dhcpBootstrap rounds xid s).1 = .leased)
    (htimely : (dhcpBootstrap rounds xid s).2.timely = true) :
    (dhcpBootstrap rounds xid s).2.Proper s.runtime :=
  loops_leases (discover_atLoop fun _ => rfl) hleased htimely

def message (type last server : UInt8) : Packet where
  srcPort := dhcpServerPort
  dstPort := dhcpClientPort
  payload := [2, 1, 6, 0, 0, 0, 0, 1] ++ replicate 8 0 ++ [10, 0, 0, last] ++ replicate 216 0 ++
    [0x63, 0x82, 0x53, 0x63, 53, 1, type, 54, 4, 10, 0, 0, server]
  srcIp := 0

def quiet : Station where
  runtime := freshServer.runtime
  arpNext := 0
  dhcp := ⟨false, 0, false, false, 0, 0, 0, 0, none⟩
  dns := ⟨false, 0, 0, false, 0⟩
  emitted := []

/-- One offer and its acknowledgement. -/
theorem lease_proper_plain :
    (dhcpBootstrap [some [[message 2 5 1]], some [[message 5 5 1]]] 1 quiet).2.Proper quiet.runtime :=
  lease_proper _ 1 quiet (by decide +kernel) (by decide +kernel)

/-- An offer of another server behind the acknowledgement: its address is taken. -/
theorem later_offer_taken :
    let result := dhcpBootstrap [some [[message 2 5 1]], some [[message 5 5 1, message 2 7 2]]] 1 quiet
    result.1 = .leased ∧ ¬result.2.Proper quiet.runtime := by
  intro result
  have hip : result.2.station.runtime.ip = 0x0a000007 := by decide +kernel
  have hack : (result.2.acknowledgement.map (·.yiaddr)) = some 0x0a000005 := by decide +kernel
  have hoffers : result.2.offered.map (·.yiaddr) = [0x0a000005] := by decide +kernel
  refine ⟨by decide +kernel, ?_⟩
  rintro ⟨o, ho, a, ha, -, -, hfrom, -⟩
  rw [ha, Option.map_some, Option.some.injEq] at hack
  have ho := mem_map_of_mem (f := (·.yiaddr)) ho
  rw [hoffers, mem_singleton] at ho
  rw [hip, hack, ho] at hfrom
  revert hfrom
  decide

end Exchange
end Nanami.Net
