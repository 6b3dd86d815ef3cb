import Nanami.Net.Frames

/-!
# Frames are read inside their bounds

For every frame, of any length and with any lengths in its headers, its processing ends without an
access outside the frame, and no frame that is sent in response is longer than the received one.
-/

namespace Nanami.Net

open Lib

variable {s t u : Station} {frame : List UInt8} {limit ipHeaderLen ipEnd : Nat} {srcIp : Ipv4}

def Answers (limit : Nat) (s t : Station) : Prop :=
  ∃ sent, t.emitted = sent ++ s.emitted ∧ ∀ n ∈ sent, n ≤ limit

lemma Answers.of_eq (h : t.emitted = s.emitted) : Answers limit s t :=
  ⟨[], h, fun _ hn => absurd hn List.not_mem_nil⟩

lemma Answers.trans (h : Answers limit s t) (h' : Answers limit t u) : Answers limit s u := by
  obtain ⟨sent, hs, hle⟩ := h
  obtain ⟨sent', ht, hle'⟩ := h'
  refine ⟨sent' ++ sent, by rw [ht, hs, List.append_assoc], fun n hn => ?_⟩
  obtain hn | hn := List.mem_append.1 hn
  · exact hle' n hn
  · exact hle n hn

lemma Answers.mono {limit'} (h : Answers limit s t) (hle : limit ≤ limit') :
    Answers limit' s t := by
  obtain ⟨sent, hs, hsent⟩ := h
  exact ⟨sent, hs, fun n hn => Nat.le_trans (hsent n hn) hle⟩

def Contained {α : Type} (limit : Nat) (m : Receiver α) (s : Station) : Prop :=
  wp m (fun _ t => Answers limit s t) (fun _ _ => False) s

lemma Contained.pure {α} {a : α} : Contained limit (pure a) s := .of_eq rfl

variable {α β : Type} {ip : Ipv4} {mac : Mac} {length : Nat} {srcPort dstPort : UInt16}
  {payload : List UInt8}

lemma Contained.bind {m} {f : α → Receiver β} (hm : Contained limit m s)
    (hf : ∀ a t, Contained limit (f a) t) : Contained limit (m >>= f) s := by
  refine wp_seq hm (fun a t ht => ?_)
  exact wp_post (hf a t) (fun _ _ => ht.trans)

lemma Contained.read {m P} {f : α → Receiver β} (hm : Returns m P)
    (hf : ∀ a, P a → Contained limit (f a) s) : Contained limit (fromResult m >>= f) s := by
  rw [Contained, wp_bind]
  exact wp_checked hm hf

lemma Contained.ite {c} [Decidable c] {m n : Receiver α} (ht : c → Contained limit m s)
    (hf : ¬c → Contained limit n s) : Contained limit (if c then m else n) s := wp_ite ht hf

lemma Contained.get {α} {f : Station → Receiver α} (h : Contained limit (f s) s) :
    Contained limit (get >>= f) s := by
  exact h

lemma Contained.modify {f} (h : (f s).emitted = s.emitted) : Contained limit (modify f) s := by
  exact .of_eq h

lemma Contained.respond {n} (h : n ≤ limit) : Contained limit (respond n) s := by
  refine ⟨[n], rfl, fun k hk => ?_⟩
  rw [List.mem_singleton.1 hk]
  exact h

/-! ### What changes a part of the state only -/

lemma emitted_learn : (s.learn ip mac).emitted = s.emitted := by
  simp only [Station.learn]
  split <;> rfl

lemma emitted_queueIcmpReply {identifier} :
    (s.queueIcmpReply identifier length).emitted = s.emitted := by
  simp only [Station.queueIcmpReply]
  split <;> rfl

lemma emitted_tryQueueUdp {port} : (s.tryQueueUdp port length).emitted = s.emitted := by
  simp only [Station.tryQueueUdp]
  split <;> rfl

lemma updateArp_contained : Contained limit (updateArp ip mac) s :=
  .ite (fun _ => .modify emitted_learn) fun _ => .pure

/-! ### Reads -/

lemma returns_macAt {k} (h : k + 6 ≤ frame.length) : Returns (macAt frame k) fun _ => True := by
  refine .bind (returns_u16At (by omega)) fun _ _ => ?_
  exact .last (returns_u32At (by omega))

lemma returns_datagram? (hend : ipEnd ≤ frame.length) :
    Returns (datagram? frame ipHeaderLen ipEnd) fun _ => True := by
  simp only [datagram?, udpHdrLen]
  refine .guard fun hlen => ?_
  refine .bind (returns_u16At (by omega)) fun _ _ => ?_
  refine .bind (returns_u16At (by omega)) fun _ _ => ?_
  refine .bind (returns_u16At (by omega)) fun udpLen _ => ?_
  refine .guard fun hfit => ?_
  exact .last (.slice (by omega) (by omega))

lemma returns_readSegment (hmac : 12 ≤ frame.length) :
    Returns (readSegment frame ipHeaderLen ipEnd) fun _ => True := by
  simp only [readSegment, tcpHdrLen]
  refine .guard fun hlen => ?_
  refine .bind (returns_macAt (by omega)) fun _ _ => ?_
  refine .bind (returns_u16At (by omega)) fun _ _ => ?_
  refine .bind (returns_u16At (by omega)) fun _ _ => ?_
  refine .bind (returns_u32At (by omega)) fun _ _ => ?_
  refine .bind (returns_u32At (by omega)) fun _ _ => ?_
  refine .bind (.itemAt (by omega)) fun _ _ => ?_
  refine .guard fun hoffset => ?_
  refine .bind (.itemAt (by omega)) fun _ _ => ?_
  exact .last (.slice (by omega) (by omega))

lemma returns_ipv4Header? : Returns (ipv4Header? frame) fun header =>
    ∀ h, header = some h → ipv4HdrLen ≤ h.headerLen ∧
      h.headerLen ≤ h.totalLen.toNat ∧ ethHdrLen + h.totalLen.toNat ≤ frame.length := by
  have hnone : Returns (pure none : Checked (Option Ipv4Header)) fun header =>
      ∀ h, header = some h → ipv4HdrLen ≤ h.headerLen ∧
        h.headerLen ≤ h.totalLen.toNat ∧ ethHdrLen + h.totalLen.toNat ≤ frame.length :=
    .pure (by intro h hh; cases hh)
  refine .ite (fun _ => hnone) fun hlen => ?_
  simp only [ethHdrLen, ipv4HdrLen] at hlen hnone ⊢
  refine .bind (returns_macAt (by omega)) fun srcMac _ => ?_
  refine .bind (.itemAt (by omega)) fun first _ => ?_
  refine .ite (fun _ => hnone) fun hheader => ?_
  refine .bind (.itemAt (by omega)) fun proto _ => ?_
  refine .bind (returns_u16At (by omega)) fun totalLen _ => ?_
  refine .ite (fun _ => hnone) fun htotal => ?_
  refine .bind (returns_u32At (by omega)) fun source _ => ?_
  refine .bind (returns_u32At (by omega)) fun destination _ => ?_
  refine .pure ?_
  intro h hh
  cases hh
  dsimp only
  omega

/-! ### Protocols -/

lemma processArp_contained : Contained frame.length (processArp frame) s := by
  refine .ite (fun _ => .pure) fun hlen => ?_
  refine .read (.slice (by omega) (by omega)) fun header _ => ?_
  refine .ite (fun _ => .pure) fun _ => ?_
  refine .read (returns_u16At (by omega)) fun _ _ => ?_
  refine .read (returns_macAt (by omega)) fun _ _ => ?_
  refine .read (returns_u32At (by omega)) fun _ _ => ?_
  refine .read (returns_u32At (by omega)) fun _ _ => ?_
  refine .get (.ite (fun _ => updateArp_contained) fun _ => .ite (fun _ => ?_) fun _ => .pure)
  refine .bind updateArp_contained fun _ _ => .respond ?_
  simp only [arpFrameLen]
  omega

lemma processIcmp_contained (hheader : ipv4HdrLen ≤ ipHeaderLen) :
    Contained frame.length (processIcmp frame ipHeaderLen ipEnd) s := by
  simp only [ipv4HdrLen] at hheader
  refine .ite (fun _ => .pure) fun hlen => ?_
  refine .read (.slice (by omega) (by omega)) fun icmp hicmp => ?_
  refine .read (.itemAt (by omega)) fun _ _ => ?_
  refine .read (.itemAt (by omega)) fun _ _ => ?_
  refine .ite (fun _ => ?_) fun _ => .ite (fun _ => .pure) fun _ => ?_
  · refine .read (.itemAt (by omega)) fun _ _ => ?_
    refine .ite (fun _ => .pure) fun _ => ?_
    exact .read (returns_u16At (by omega)) fun _ _ => .modify emitted_queueIcmpReply
  · refine .read (returns_macAt (by omega)) fun _ _ => .respond ?_
    simp only [ipv4HdrLen]
    omega

lemma processDhcpPayload_contained :
    Contained limit (processDhcpPayload srcIp srcPort dstPort payload) s := by
  refine .ite (fun _ => .pure) fun _ => .get (.ite (fun _ => .pure) fun _ => ?_)
  refine .read returns_parseDhcpPayload fun parsed _ => ?_
  cases parsed with
  | none => exact .read returns_inspectDhcpPacket fun _ _ => .pure
  | some parsed => exact .bind (.modify rfl) fun _ _ => .pure

lemma processDnsPayload_contained :
    Contained limit (processDnsPayload srcIp srcPort dstPort payload) s := by
  refine .get (.ite (fun _ => .pure) fun hlen => ?_)
  have hread : Returns (readU16Be payload) fun _ => True := by
    refine .bind (.itemAt (by omega)) fun _ _ => ?_
    exact .last (.itemAt (by omega))
  refine .read hread fun _ _ => .ite (fun _ => .pure) fun _ => ?_
  refine .read returns_parseDnsResponse fun parsed _ => ?_
  cases parsed with
  | none => exact .pure
  | some parsed => exact .ite (fun _ => .pure) fun _ => .of_eq rfl

lemma processUdp_contained (hend : ipEnd ≤ frame.length) :
    Contained limit (processUdp frame ipHeaderLen srcIp ipEnd) s := by
  refine .read (returns_datagram? hend) fun datagram _ => ?_
  cases datagram with
  | none => exact .pure
  | some d =>
    refine .bind processDhcpPayload_contained fun taken _ => .ite (fun _ => .pure) fun _ => ?_
    refine .bind processDnsPayload_contained fun taken _ => .ite (fun _ => .pure) fun _ => ?_
    exact .modify emitted_tryQueueUdp

lemma le_of_segment {frame : Frame} {seg} (h : frame.segment? = some seg) :
    frame.tcpBase + tcpHdrLen ≤ frame.bytes.length := by
  rw [Frame.segment?] at h
  split at h
  · cases h
  · rename_i hfit
    simp only [Bool.or_eq_true, decide_eq_true_eq, not_or] at hfit
    omega

/-- A segment is only answered if its headers are in the frame, and the answer has no options. -/
lemma processTcpFrame_contained {frame : Frame} (hheader : ipv4HdrLen ≤ frame.ipHeaderLen)
    (hmac : 12 ≤ frame.bytes.length) : Contained frame.bytes.length (processTcpFrame frame) s := by
  refine .read (returns_readSegment hmac) fun _ _ => .get ?_
  refine ⟨_, rfl, fun n hn => ?_⟩
  cases hseg : frame.segment? with
  | none =>
    rw [hseg] at hn
    cases hn
  | some seg =>
    obtain ⟨-, rfl⟩ := List.mem_replicate.1 hn
    have hfit := le_of_segment hseg
    simp only [Frame.tcpBase, ipv4HdrLen] at hfit hheader ⊢
    omega

lemma processIpv4_contained : Contained frame.length (processIpv4 frame) s := by
  refine .read returns_ipv4Header? fun header hh => ?_
  cases header with
  | none => exact .pure
  | some h =>
    obtain ⟨hheader, htotal, hend⟩ := hh h rfl
    have hmac : 12 ≤ frame.length := by
      simp only [ethHdrLen] at hend
      omega
    have hearly : ∀ t, Contained frame.length (processEarlyDhcp frame h) t := by
      intro t
      refine .get (.ite (fun _ => ?_) fun _ => .pure)
      refine .read (returns_datagram? hend) fun datagram _ => ?_
      cases datagram with
      | none => exact .pure
      | some d => exact processDhcpPayload_contained
    have hdispatch : ∀ t, Contained frame.length (dispatchIpv4 frame h) t := by
      intro t
      refine .ite (fun _ => processIcmp_contained hheader) fun _ => ?_
      refine .ite (fun _ => ?_) fun _ => .ite (fun _ => processUdp_contained hend) fun _ => .pure
      exact @processTcpFrame_contained t ⟨frame, h.headerLen, h.srcIp, h.totalLen⟩ hheader hmac
    refine .bind (hearly s) fun taken t => .ite (fun _ => .pure) fun _ => .get ?_
    refine .ite (fun _ => .pure) fun _ => .ite (fun _ => ?_) fun _ => hdispatch _
    exact .bind updateArp_contained fun _ => hdispatch

lemma processFrame_contained : Contained frame.length (processFrame frame) s := by
  refine .bind (.modify rfl) fun _ t => .ite (fun _ => .pure) fun hlen => ?_
  simp only [ethHdrLen] at hlen
  refine .read (returns_u16At (by omega)) fun _ _ => ?_
  exact .ite (fun _ => processArp_contained) fun _ => .ite (fun _ => processIpv4_contained) fun _ => .pure

/-- The largest frame that the device takes, `NET_MAX_PACKET_BYTES`. -/
def netMaxPacketBytes : Nat := netDeviceRxFrameMax

def transmitLimit : Nat := min netMaxPacketBytes backendTxBytes

lemma sendDhcpRequest_contained : Contained transmitLimit sendDhcpRequest s := by
  have hlen : dhcpRequestLen s.dhcp.serverIp ≤ 271 := by
    simp only [dhcpRequestLen]
    split <;> omega
  have hroom : dhcpRequestLen s.dhcp.serverIp ≤ dhcpBuffer.length := by
    rw [dhcpBuffer, List.length_replicate]
    omega
  refine .get (.read (.slice (Nat.zero_le _) hroom) fun payload hpayload => .respond ?_)
  simp only [transmitLimit, netMaxPacketBytes, netDeviceRxFrameMax, backendTxBytes, rxBatchOffset,
    backendTxOffset, ethHdrLen, ipv4HdrLen, udpHdrLen]
  omega

lemma announceLease_contained {rounds : Nat} : Contained transmitLimit (announceLease rounds) s := by
  have harp : arpFrameLen ≤ transmitLimit := by decide
  induction rounds generalizing s with
  | zero => exact .pure
  | succ rounds ih => exact .bind (.respond harp) fun _ _ => .bind (.respond harp) fun _ _ => ih

/-- Whatever bytes a frame has, it is processed without an access outside it, and no answer is longer
than the frame. The answers to a frame that the device delivers fit the transmit area and the device's
transmit buffer, and so do those that a DHCP offer and a lease lead to. -/
theorem frames_processed_inside (frame : List UInt8) (s : Station) :
    wp (processFrame frame) (fun _ t => Answers frame.length s t) (fun _ _ => False) s ∧
      wp (receiveFrame frame) (fun _ t => Answers transmitLimit s t) (fun _ _ => False) s ∧
      wp sendDhcpRequest (fun _ t => Answers transmitLimit s t) (fun _ _ => False) s ∧
      wp (announceLease 3) (fun _ t => Answers transmitLimit s t) (fun _ _ => False) s := by
  refine ⟨processFrame_contained, ?_, sendDhcpRequest_contained, announceLease_contained⟩
  refine wp_ite (fun hlen => ?_) fun _ => .of_eq rfl
  refine wp_post processFrame_contained (fun _ t ht => ht.mono ?_)
  have hmax := hlen.2
  simp only [transmitLimit, netMaxPacketBytes, netDeviceRxFrameMax, backendTxBytes, rxBatchOffset,
    backendTxOffset] at hmax ⊢
  omega

end Nanami.Net
