import Nanami.Lib.Checked
import Nanami.Net.Runtime

/-!
# Parsing of DHCP and DNS payloads

The parsers of `net-server` that walk over nested lengths of a received payload (`app/dhcp.rs`,
`app/dns.rs`), with every access to the payload checked.
-/

namespace Nanami.Net

open Lib

def readU16Be (bytes : List UInt8) : Checked UInt16 := do
  let hi ← itemAt bytes 0
  let lo ← itemAt bytes 1
  return hi.toUInt16 <<< 8 ||| lo.toUInt16

def readU32Be (bytes : List UInt8) : Checked UInt32 := do
  let b0 ← itemAt bytes 0
  let b1 ← itemAt bytes 1
  let b2 ← itemAt bytes 2
  let b3 ← itemAt bytes 3
  return b0.toUInt32 <<< 24 ||| b1.toUInt32 <<< 16 ||| b2.toUInt32 <<< 8 ||| b3.toUInt32

/-- `read_u16_be(&bytes[at..at + 2])`. -/
def u16At (bytes : List UInt8) (k : Nat) : Checked UInt16 := do
  readU16Be (← slice bytes k (k + 2))

/-- `read_u32_be(&bytes[at..at + 4])`, also for the four bytes of an address. -/
def u32At (bytes : List UInt8) (k : Nat) : Checked UInt32 := do
  readU32Be (← slice bytes k (k + 4))

lemma returns_u16At {bytes k} (h : k + 2 ≤ bytes.length) :
    Returns (u16At bytes k) fun _ => True := by
  refine .bind (.slice (by omega) h) fun ys hys => ?_
  refine .bind (.itemAt (by omega)) fun _ _ => ?_
  exact .last (.itemAt (by omega))

lemma returns_u32At {bytes k} (h : k + 4 ≤ bytes.length) :
    Returns (u32At bytes k) fun _ => True := by
  refine .bind (.slice (by omega) h) fun ys hys => ?_
  refine .bind (.itemAt (by omega)) fun _ _ => ?_
  refine .bind (.itemAt (by omega)) fun _ _ => ?_
  refine .bind (.itemAt (by omega)) fun _ _ => ?_
  exact .last (.itemAt (by omega))

/-! ### DHCP -/

def dhcpMagicCookie : UInt32 := 0x63825363
def dhcpOptSubnetMask : UInt8 := 1
def dhcpOptRouter : UInt8 := 3
def dhcpOptDns : UInt8 := 6
def dhcpOptMsgType : UInt8 := 53
def dhcpOptServerId : UInt8 := 54
def dhcpOptEnd : UInt8 := 255

structure DhcpParsed where
  msgType : UInt8
  yiaddr : Ipv4
  serverIp : Ipv4
  routerIp : Ipv4
  dnsIp : Ipv4
  subnetMask : Option Ipv4
  deriving DecidableEq, Repr

def DhcpParsed.empty : DhcpParsed := ⟨0, 0, 0, 0, 0, none⟩

def validSubnetMask (mask : Ipv4) : Bool := ~~~mask &&& (~~~mask + 1) == 0

/-- The loop over the options of a DHCP message. An option is given to `visit` with its code and the
place and length of its data; `visit` says whether the loop ends there. -/
def scanOptions {σ : Type} (payload : List UInt8)
    (visit : UInt8 → Nat → Nat → σ → Checked (σ × Bool)) (i : Nat) (acc : σ) : Checked σ :=
  if _h : i < payload.length then do
    let code ← itemAt payload i
    if code = 0 then scanOptions payload visit (i + 1) acc
    else if code = dhcpOptEnd then return acc
    else if i + 1 ≥ payload.length then return acc
    else
      let len ← itemAt payload (i + 1)
      if i + 2 + len.toNat > payload.length then return acc
      else
        let (acc, done) ← visit code (i + 2) len.toNat acc
        if done then return acc
        else scanOptions payload visit (i + 2 + len.toNat) acc
  else return acc
termination_by payload.length - i

/-- The option that `parse_dhcp_payload` takes up. -/
def takeOption (payload : List UInt8) (code : UInt8) (start len : Nat) (out : DhcpParsed) :
    Checked (DhcpParsed × Bool) := do
  let data ← slice payload start (start + len)
  if code = dhcpOptMsgType ∧ len ≥ 1 then return ({ out with msgType := ← itemAt data 0 }, false)
  else if code = dhcpOptSubnetMask ∧ len = 4 then
    let mask ← u32At data 0
    return (if validSubnetMask mask then { out with subnetMask := some mask } else out, false)
  else if code = dhcpOptServerId ∧ len ≥ 4 then
    return ({ out with serverIp := ← u32At data 0 }, false)
  else if code = dhcpOptRouter ∧ len ≥ 4 then
    return ({ out with routerIp := ← u32At data 0 }, false)
  else if code = dhcpOptDns ∧ len ≥ 4 then return ({ out with dnsIp := ← u32At data 0 }, false)
  else return (out, false)

def parseDhcpPayload (payload : List UInt8) (expectedXid : UInt32) : Checked (Option DhcpParsed) := do
  if payload.length < 240 then return none
  else
    let op ← itemAt payload 0
    let hardware ← itemAt payload 1
    let hardwareLen ← itemAt payload 2
    if op ≠ 2 ∨ hardware ≠ 1 ∨ hardwareLen ≠ 6 then return none
    else
      let xid ← u32At payload 4
      if xid ≠ expectedXid then return none
      else
        let cookie ← u32At payload 236
        if cookie ≠ dhcpMagicCookie then return none
        else
          let yiaddr ← u32At payload 16
          let out ← scanOptions payload (takeOption payload) 240 { DhcpParsed.empty with yiaddr := yiaddr }
          return if out.msgType = 0 then none else some out

/-- The option that `inspect_dhcp_packet` looks for. -/
def findMsgType (payload : List UInt8) (code : UInt8) (start len : Nat) (msgType : UInt8) :
    Checked (UInt8 × Bool) := do
  if code = dhcpOptMsgType ∧ len ≥ 1 then return (← itemAt payload start, true)
  else return (msgType, false)

def inspectDhcpPacket (payload : List UInt8) : Checked (Option (UInt32 × UInt8)) := do
  if payload.length < 240 then return none
  else
    let xid ← u32At payload 4
    let msgType ← scanOptions payload (findMsgType payload) 240 0
    return some (xid, msgType)

variable {payload : List UInt8} {off : Nat}

/-- The loop over the options stays inside if each visit does, for data that lies inside. -/
lemma returns_scanOptions {σ} {visit : UInt8 → Nat → Nat → σ → Checked (σ × Bool)} {i : Nat}
    {acc : σ} (hvisit : ∀ code start len acc, start + len ≤ payload.length →
      Returns (visit code start len acc) fun _ => True) :
    Returns (scanOptions payload visit i acc) fun _ => True := by
  induction hk : payload.length - i using Nat.strongRecOn generalizing i acc with
  | _ k ih =>
    rw [scanOptions]
    split
    · rename_i hi
      refine .bind (.itemAt hi) fun code _ => ?_
      refine .ite (fun _ => ih _ (by omega) rfl) fun _ => ?_
      refine .guard fun _ => ?_
      refine .guard fun hlen => ?_
      refine .bind (.itemAt (by omega)) fun len _ => ?_
      refine .guard fun hdata => ?_
      refine .bind (hvisit code (i + 2) len.toNat acc (by omega)) fun r _ => ?_
      refine .guard fun _ => ?_
      exact ih _ (by omega) rfl
    · exact .pure trivial

lemma returns_takeOption {code start len out} (h : start + len ≤ payload.length) :
    Returns (takeOption payload code start len out) fun _ => True := by
  refine .bind (.slice (by omega) h) fun data hdata => ?_
  have hfour : len ≥ 4 → Returns (u32At data 0) fun _ => True := fun _ => returns_u32At (by omega)
  refine .ite (fun hc => ?_) fun _ => .ite (fun hc => ?_) fun _ =>
    .ite (fun hc => ?_) fun _ => .ite (fun hc => ?_) fun _ =>
    .ite (fun hc => ?_) fun _ => .pure trivial
  · exact .last (.itemAt (by omega))
  · exact .last (hfour (by omega))
  · exact .last (hfour hc.2)
  · exact .last (hfour hc.2)
  · exact .last (hfour hc.2)

lemma returns_parseDhcpPayload {expectedXid : UInt32} :
    Returns (parseDhcpPayload payload expectedXid) fun _ => True := by
  refine .guard fun hlen => ?_
  refine .bind (.itemAt (by omega)) fun _ _ => ?_
  refine .bind (.itemAt (by omega)) fun _ _ => ?_
  refine .bind (.itemAt (by omega)) fun _ _ => ?_
  refine .guard fun _ => ?_
  refine .bind (returns_u32At (by omega)) fun _ _ => ?_
  refine .guard fun _ => ?_
  refine .bind (returns_u32At (by omega)) fun _ _ => ?_
  refine .guard fun _ => ?_
  refine .bind (returns_u32At (by omega)) fun _ _ => ?_
  refine .last (returns_scanOptions fun code start len acc h => ?_)
  exact returns_takeOption h

lemma returns_inspectDhcpPacket : Returns (inspectDhcpPacket payload) fun _ => True := by
  refine .guard fun hlen => ?_
  refine .bind (returns_u32At (by omega)) fun _ _ => ?_
  refine .last (returns_scanOptions fun code start len acc h => ?_)
  refine .ite (fun hc => ?_) fun _ => .pure trivial
  exact .last (.itemAt (by omega))

/-! ### DNS -/

/-- One round of `skip_dns_name`: where the name ends, or where its next label stands. -/
def skipLabel (payload : List UInt8) (off : Nat) : Checked (Option (Nat × Bool)) := do
  if off ≥ payload.length then return none
  else
    let len ← itemAt payload off
    if len &&& 0xc0 = 0xc0 then
      return if off + 1 ≥ payload.length then none else some (off + 2, true)
    else if len = 0 then return some (off + 1, true)
    else if off + 1 + len.toNat > payload.length then return none
    else return some (off + 1 + len.toNat, false)

/-- The loop of `skip_dns_name`, with so many labels left. -/
def skipLabels (payload : List UInt8) : Nat → Nat → Checked (Option Nat)
  | 0, off => do
    match ← skipLabel payload off with
    | some (off, true) => return some off
    | _ => return none
  | labels + 1, off => do
    match ← skipLabel payload off with
    | some (off, true) => return some off
    | some (off, false) => skipLabels payload labels off
    | none => return none

def skipDnsName (payload : List UInt8) (off : Nat) : Checked (Option Nat) :=
  skipLabels payload 128 off

/-- The loop of `parse_dns_response` over the questions. -/
def skipQuestions (payload : List UInt8) : Nat → Nat → Checked (Option Nat)
  | 0, off => return some off
  | n + 1, off => do
    match ← skipDnsName payload off with
    | none => return none
    | some off => if off + 4 > payload.length then return none else skipQuestions payload n (off + 4)

/-- The loop of `parse_dns_response` over the answers, up to the first address. -/
def findAnswer (payload : List UInt8) : Nat → Nat → Checked (Option Ipv4)
  | 0, _ => return none
  | n + 1, off => do
    match ← skipDnsName payload off with
    | none => return none
    | some off =>
      if off + 10 > payload.length then return none
      else
        let typ ← u16At payload off
        let dnsClass ← u16At payload (off + 2)
        let rdlen ← u16At payload (off + 8)
        if off + 10 + rdlen.toNat > payload.length then return none
        else if typ = 1 ∧ dnsClass = 1 ∧ rdlen = 4 then return some (← u32At payload (off + 10))
        else findAnswer payload n (off + 10 + rdlen.toNat)

def parseDnsResponse (payload : List UInt8) : Checked (Option (UInt16 × Ipv4)) := do
  if payload.length < 12 then return none
  else
    let txid ← u16At payload 0
    let flags ← u16At payload 2
    if flags &&& 0x8000 = 0 ∨ flags &&& 0x000f ≠ 0 then return none
    else
      let qd ← u16At payload 4
      let an ← u16At payload 6
      match ← skipQuestions payload qd.toNat 12 with
      | none => return none
      | some off => return (← findAnswer payload an.toNat off).map fun ip => (txid, ip)

lemma returns_skipLabel : Returns (skipLabel payload off) fun _ => True := by
  refine .guard fun hoff => ?_
  refine .bind (.itemAt (by omega)) fun len _ => ?_
  refine .guard fun _ => ?_
  refine .guard fun _ => ?_
  exact .guard fun _ => .pure trivial

lemma returns_skipLabels {labels} : Returns (skipLabels payload labels off) fun _ => True := by
  induction labels generalizing off with
  | zero =>
    refine .bind returns_skipLabel fun skipped _ => ?_
    obtain _ | ⟨_, _ | _⟩ := skipped <;> exact .pure trivial
  | succ labels ih =>
    refine .bind returns_skipLabel fun skipped _ => ?_
    match skipped with
    | none => exact .pure trivial
    | some (off, true) => exact .pure trivial
    | some (off, false) => exact ih

lemma returns_skipQuestions {n} : Returns (skipQuestions payload n off) fun _ => True := by
  induction n generalizing off with
  | zero => exact .pure trivial
  | succ n ih =>
    refine .bind returns_skipLabels fun skipped _ => ?_
    cases skipped with
    | none => exact .pure trivial
    | some off => exact .guard fun _ => ih

lemma returns_findAnswer {n} : Returns (findAnswer payload n off) fun _ => True := by
  induction n generalizing off with
  | zero => exact .pure trivial
  | succ n ih =>
    refine .bind returns_skipLabels fun skipped _ => ?_
    cases skipped with
    | none => exact .pure trivial
    | some off =>
      refine .guard fun hoff => ?_
      refine .bind (returns_u16At (by omega)) fun _ _ => ?_
      refine .bind (returns_u16At (by omega)) fun _ _ => ?_
      refine .bind (returns_u16At (by omega)) fun rdlen _ => ?_
      refine .guard fun hdata => ?_
      refine .ite (fun hc => ?_) fun _ => ih
      have hlen : rdlen.toNat = 4 := by
        rw [hc.2.2]
        rfl
      exact .last (returns_u32At (by omega))

lemma returns_parseDnsResponse : Returns (parseDnsResponse payload) fun _ => True := by
  refine .guard fun hlen => ?_
  refine .bind (returns_u16At (by omega)) fun _ _ => ?_
  refine .bind (returns_u16At (by omega)) fun _ _ => ?_
  refine .guard fun _ => ?_
  refine .bind (returns_u16At (by omega)) fun _ _ => ?_
  refine .bind (returns_u16At (by omega)) fun _ _ => ?_
  refine .bind returns_skipQuestions fun skipped _ => ?_
  cases skipped with
  | none => exact .pure trivial
  | some off => exact .last returns_findAnswer

end Nanami.Net
