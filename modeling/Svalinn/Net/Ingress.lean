/-
  Net/Ingress.lean --- which frames reach the transport layer, and what of them.

  Source: `runtime/net/core.c` (`ip_hdr_supported`, `net_rx_one`), `inc/net/ip.h` and
  `inc/net/ethernet.h`.

  The fragment field is tested with `IP_MF` as it lies in memory, so the bit that is looked at
  is one of the fragment offset; and the payload length is a 16-bit difference, which wraps for
  a total length below 20.
-/
import Mathlib.Data.Nat.Bitwise
import Svalinn.Net.ChksumInternet
import Svalinn.Net.Mbuf

set_option autoImplicit false

namespace Svalinn.Net.Ingress

open Svalinn.Lib Svalinn.Lib.OnesSum List

/-! ## The receive path -/

/-- `ETHTYPE_IP`. -/
def ethtypeIp : Nat := 0x0800

/-- `ETHTYPE_ARP`. -/
def ethtypeArp : Nat := 0x0806

/-- `IP_MF`, the more-fragments flag in host byte order. -/
def ipMf : Nat := 0x2000

/-- `IPPROTO_ICMP`. -/
def ipprotoIcmp : UInt8 := 1

/-- `IPPROTO_TCP`. -/
def ipprotoTcp : UInt8 := 6

/-- `IPPROTO_UDP`. -/
def ipprotoUdp : UInt8 := 17

/-- `IPPROTO_DIRECTPATH_ARP_ENCAP`. -/
def ipprotoDirectpathArpEncap : UInt8 := 252

/-- `ip_hdr_supported`.  The field `off` is read as the machine reads two bytes, least
significant first. -/
def ipHdrSupported (iphdr : List UInt8) : Bool :=
  decide ((byteAt iphdr 0).toNat / 16 = 4 ∧ (byteAt iphdr 0).toNat % 16 = ipHdrLen / 4 ∧
    ((byteAt iphdr 6).toNat + 256 * (byteAt iphdr 7).toNat) &&& ipMf = 0)

/-- `ntoh16(iphdr->len) - sizeof(*iphdr)` in 16 bits. -/
def payloadLen (iphdr : List UInt8) : Nat := (be16At iphdr 2 + 2 ^ 16 - ipHdrLen) % 2 ^ 16

/-- What `net_rx_one` does with a packet: the function it hands it to, with what it passes. -/
inductive Handed where
  | arp (m : Mbuf)
  | icmp (m : Mbuf) (iphdr : List UInt8) (len : Nat)
  | trans (m : Mbuf)
  | drop
  deriving DecidableEq

/-- The `switch` over the protocol. -/
def handOver (iphdr : List UInt8) (len : Nat) (m : Mbuf) : Handed :=
  if byteAt iphdr 9 = ipprotoIcmp then .icmp m iphdr len
  else if byteAt iphdr 9 = ipprotoUdp ∨ byteAt iphdr 9 = ipprotoTcp then .trans m
  else if byteAt iphdr 9 = ipprotoDirectpathArpEncap then .arp m
  else .drop

/-- The network layer part of `net_rx_one`. -/
def netRxIp (m : Mbuf) : Option Handed :=
  match mbufPullOrNull (mbufMarkNetworkOffset m) ipHdrLen with
  | none => some .drop
  | some (iphdr, m) =>
    if m.csumType ≠ .unnecessary ∧ chksumInternet iphdr ≠ 0 then some .drop
    else if ipHdrSupported iphdr = false then some .drop
    else if m.len < payloadLen iphdr then some .drop
    else if payloadLen iphdr < m.len then
      (mbufTrim m (m.len - payloadLen iphdr)).map (handOver iphdr (payloadLen iphdr))
    else some (handOver iphdr (payloadLen iphdr) m)

/-- `net_rx_one`; `mac` is `netcfg.mac`. -/
def netRxOne (mac : List UInt8) (m : Mbuf) : Option Handed :=
  match mbufPullOrNull m ethHdrLen with
  | none => some .drop
  | some (llhdr, m) =>
    if be16At llhdr 12 = ethtypeArp then some (.arp m)
    else if be16At llhdr 12 ≠ ethtypeIp ∨ llhdr.take 6 ≠ mac then some .drop
    else netRxIp m

/-! ## The frame -/

/-- The Ethernet header of a frame. -/
def llHdr (frame : List UInt8) : List UInt8 := frame.take ethHdrLen

/-- The IP header of a frame. -/
def ipHdr (frame : List UInt8) : List UInt8 := (frame.drop ethHdrLen).take ipHdrLen

/-- The total length of the IP packet, in network byte order. -/
def totalLen (frame : List UInt8) : Nat := be16At (ipHdr frame) 2

/-- The fragment field of the IP header, in network byte order. -/
def fragmentField (frame : List UInt8) : Nat := be16At (ipHdr frame) 6

/-- The more-fragments flag is set or the fragment offset is not zero. -/
def IsFragment (frame : List UInt8) : Prop :=
  fragmentField frame / 2 ^ 13 % 2 = 1 ∨ fragmentField frame % 2 ^ 13 ≠ 0

instance (frame : List UInt8) : Decidable (IsFragment frame) :=
  inferInstanceAs (Decidable (_ ∨ _))

/-- The one's complement sum of the header, its checksum included, is all ones. -/
def HeaderSumValid (frame : List UInt8) : Prop :=
  onesSum 16 (beWords (ipHdr frame)) = 2 ^ 16 - 1

instance (frame : List UInt8) : Decidable (HeaderSumValid frame) :=
  inferInstanceAs (Decidable (_ = _))

/-- Everything but the length and the fragmentation: an IPv4 frame for us, with a verified
header of 20 bytes and a transport protocol. -/
structure ForTransport (mac : List UInt8) (csumType : CsumType) (frame : List UInt8) : Prop where
  complete : ethHdrLen + ipHdrLen ≤ frame.length
  ipv4 : be16At (llHdr frame) 12 = ethtypeIp
  ours : (llHdr frame).take 6 = mac
  verified : csumType = .unnecessary ∨ HeaderSumValid frame
  version : (byteAt (ipHdr frame) 0).toNat / 16 = 4
  headerLen : (byteAt (ipHdr frame) 0).toNat % 16 * 4 = ipHdrLen
  proto : byteAt (ipHdr frame) 9 = ipprotoUdp ∨ byteAt (ipHdr frame) 9 = ipprotoTcp

/-- The frames whose payload the transport layer should get. -/
structure Accepted (mac : List UInt8) (csumType : CsumType) (frame : List UInt8) : Prop extends
    ForTransport mac csumType frame where
  headerCounted : ipHdrLen ≤ totalLen frame
  received : totalLen frame ≤ frame.length - ethHdrLen
  whole : ¬ IsFragment frame

/-- The bit of the fragment offset that `ip_hdr_supported` looks at. -/
def TestedBit (frame : List UInt8) : Prop := fragmentField frame / 2 ^ 5 % 2 = 1

instance (frame : List UInt8) : Decidable (TestedBit frame) := inferInstanceAs (Decidable (_ = _))

/-! ## What the code accepts -/

/-- Only UDP and TCP packets are handed to the transport layer, and they are as they were. -/
theorem handOver_eq_trans_iff {iphdr : List UInt8} {len : Nat} {m m' : Mbuf} :
    handOver iphdr len m = .trans m' ↔
      (byteAt iphdr 9 = ipprotoUdp ∨ byteAt iphdr 9 = ipprotoTcp) ∧ m' = m := by
  unfold handOver
  split
  · rename_i hicmp
    rw [hicmp]
    exact ⟨fun h => (nomatch h), fun h => absurd h.1 (by decide)⟩
  · split
    · rename_i hproto
      exact ⟨fun h => ⟨hproto, (Handed.trans.inj h).symm⟩, fun h => by rw [h.2]⟩
    · rename_i hproto
      split
      · exact ⟨fun h => (nomatch h), fun h => absurd h.1 hproto⟩
      · exact ⟨fun h => (nomatch h), fun h => absurd h.1 hproto⟩

/-- Whether or not there is padding to trim, `len` bytes are handed over. -/
theorem trim_payload {m : Mbuf} {len total : Nat} (htotal : m.len = total) (hlen : len ≤ total)
    (f : Mbuf → Handed) :
    (if len < total then (mbufTrim m (total - len)).map f else some (f m)) =
      some (f { m with len := len }) := by
  subst htotal
  split
  · rename_i hlt
    rw [mbufTrim, if_neg (by omega), Option.map_some]
    have hcut : m.len - (m.len - len) = len := by omega
    rw [hcut]
  · have heq : m.len = len := by omega
    subst heq
    rfl

/-- The flag test looks at bit 5 of the fragment offset, not at the flag. -/
theorem ipHdrSupported_iff (iphdr : List UInt8) :
    ipHdrSupported iphdr = true ↔ (byteAt iphdr 0).toNat / 16 = 4 ∧
      (byteAt iphdr 0).toNat % 16 * 4 = ipHdrLen ∧ ¬ be16At iphdr 6 / 2 ^ 5 % 2 = 1 := by
  have hlt := (byteAt iphdr 7).toNat_lt
  have hlow := (byteAt iphdr 6).toNat_lt
  have hbit : ((byteAt iphdr 6).toNat + 256 * (byteAt iphdr 7).toNat) &&& ipMf = 0 ↔
      ¬ be16At iphdr 6 / 2 ^ 5 % 2 = 1 := by
    have hraw : ((byteAt iphdr 6).toNat + 256 * (byteAt iphdr 7).toNat) / 2 ^ 13 =
        (byteAt iphdr 7).toNat / 2 ^ 5 := by omega
    have hfield : be16At iphdr 6 / 2 ^ 5 =
        2 * (4 * (byteAt iphdr 6).toNat) + (byteAt iphdr 7).toNat / 2 ^ 5 := by
      show (256 * (byteAt iphdr 6).toNat + (byteAt iphdr 7).toNat) / 2 ^ 5 = _
      omega
    rw [show ipMf = 2 ^ 13 from rfl, Nat.and_two_pow, Nat.testBit_eq_decide_div_mod_eq, hraw,
      hfield]
    simp
  rw [ipHdrSupported, decide_eq_true_iff, hbit]
  have hwords : (byteAt iphdr 0).toNat % 16 = ipHdrLen / 4 ↔
      (byteAt iphdr 0).toNat % 16 * 4 = ipHdrLen := by
    unfold ipHdrLen
    omega
  rw [hwords]

/-- What the network layer hands over of `m`, whose data starts with the IP header. -/
def ipPayload (m : Mbuf) : Mbuf :=
  { m with
    data := m.data + ipHdrLen
    len := payloadLen ((m.buf.drop m.data).take ipHdrLen)
    networkOff := m.data % 2 ^ 16 }

/-- The checks of the network layer, one conjunct each. -/
theorem netRxIp_eq_trans_iff {m m' : Mbuf} {iphdr : List UInt8}
    (hhdr : (m.buf.drop m.data).take ipHdrLen = iphdr) :
    netRxIp m = some (.trans m') ↔ ipHdrLen ≤ m.len ∧
      (m.csumType = .unnecessary ∨ chksumInternet iphdr = 0) ∧ ipHdrSupported iphdr = true ∧
      payloadLen iphdr ≤ m.len - ipHdrLen ∧
      (byteAt iphdr 9 = ipprotoUdp ∨ byteAt iphdr 9 = ipprotoTcp) ∧ m' = ipPayload m := by
  have hdrop : ∀ p : Prop, ¬ p → ((some Handed.drop = some (Handed.trans m')) ↔ p) :=
    fun p hp => ⟨fun h => (nomatch h), fun h => absurd h hp⟩
  have hpull : mbufPullOrNull (mbufMarkNetworkOffset m) ipHdrLen =
      if ipHdrLen ≤ m.len then some (iphdr,
        { m with
          data := m.data + ipHdrLen
          len := m.len - ipHdrLen
          networkOff := m.data % 2 ^ 16 })
      else none := by
    rw [← hhdr]
    rfl
  unfold netRxIp
  rw [hpull]
  by_cases hlen : ipHdrLen ≤ m.len
  · rw [if_pos hlen]
    simp only
    by_cases hsum : m.csumType = .unnecessary ∨ chksumInternet iphdr = 0
    · rw [if_neg (by simpa only [not_and_or, not_not] using hsum)]
      cases hsup : ipHdrSupported iphdr with
      | false =>
        rw [if_pos rfl]
        exact hdrop _ fun h => nomatch h.2.2.1
      | true =>
        rw [if_neg (by decide)]
        by_cases hpay : payloadLen iphdr ≤ m.len - ipHdrLen
        · have htrim := trim_payload (m := { m with
            data := m.data + ipHdrLen
            len := m.len - ipHdrLen
            networkOff := m.data % 2 ^ 16 }) rfl hpay (handOver iphdr (payloadLen iphdr))
          rw [if_neg (Nat.not_lt.2 hpay), htrim, Option.some_inj, handOver_eq_trans_iff, ipPayload,
            hhdr]
          exact ⟨fun h => ⟨hlen, hsum, rfl, hpay, h.1, h.2⟩, fun h => h.2.2.2.2⟩
        · rw [if_pos (Nat.not_le.1 hpay)]
          exact hdrop _ fun h => hpay h.2.2.2.1
    · rw [if_pos (by simpa only [not_or] using hsum)]
      exact hdrop _ fun h => hsum h.2.1
  · rw [if_neg hlen]
    exact hdrop _ fun h => hlen h.1

/-- What `net_rx_one` hands to the transport layer of a frame. -/
def handedMbuf (m : Mbuf) : Mbuf :=
  { m with
    data := m.data + (ethHdrLen + ipHdrLen)
    len := payloadLen (ipHdr m.bytes)
    networkOff := (m.data + ethHdrLen) % 2 ^ 16 }

theorem llHdr_bytes {m : Mbuf} (hlen : ethHdrLen ≤ m.len) :
    llHdr m.bytes = (m.buf.drop m.data).take ethHdrLen := by
  rw [llHdr, Mbuf.bytes, take_take, Nat.min_eq_left hlen]

theorem ipHdr_bytes {m : Mbuf} (hlen : ethHdrLen + ipHdrLen ≤ m.len) :
    ipHdr m.bytes = (m.buf.drop (m.data + ethHdrLen)).take ipHdrLen := by
  rw [ipHdr, Mbuf.bytes, drop_take, drop_drop, take_take, Nat.min_eq_left (by omega)]

/-- The law of the code: of the fragments only those with the tested bit are dropped, and the
length is compared after it has wrapped. -/
theorem netRxOne_eq_trans_iff {mac : List UInt8} {m m' : Mbuf} (hin : m.Inside) :
    netRxOne mac m = some (.trans m') ↔ ForTransport mac m.csumType m.bytes ∧
      ¬ TestedBit m.bytes ∧ payloadLen (ipHdr m.bytes) ≤ m.len - (ethHdrLen + ipHdrLen) ∧
      m' = handedMbuf m := by
  have hlength := hin.length_bytes
  have hdrop : ∀ p : Prop, ¬ p → ((some Handed.drop = some (Handed.trans m')) ↔ p) :=
    fun p hp => ⟨fun h => (nomatch h), fun h => absurd h hp⟩
  unfold netRxOne mbufPullOrNull
  by_cases hll : ethHdrLen ≤ m.len
  · rw [if_pos hll]
    simp only
    rw [← llHdr_bytes hll]
    by_cases harp : be16At (llHdr m.bytes) 12 = ethtypeArp
    · rw [if_pos harp]
      refine ⟨fun h => (nomatch h), fun h => ?_⟩
      rw [h.1.ipv4] at harp
      exact absurd harp (by decide)
    · rw [if_neg harp]
      by_cases hours : be16At (llHdr m.bytes) 12 = ethtypeIp ∧ (llHdr m.bytes).take 6 = mac
      · rw [if_neg (by simpa only [not_or, not_not] using hours)]
        by_cases hip : ethHdrLen + ipHdrLen ≤ m.len
        · have hsub : (m.pull ethHdrLen).len - ipHdrLen = m.len - (ethHdrLen + ipHdrLen) :=
            Nat.sub_sub _ _ _
          have hmbuf : ipPayload { m with toExtent := m.pull ethHdrLen } = handedMbuf m := by
            rw [handedMbuf, ipHdr_bytes hip, ← Nat.add_assoc]
            rfl
          rw [netRxIp_eq_trans_iff (m := { m with toExtent := m.pull ethHdrLen })
            (ipHdr_bytes hip).symm, ipHdrSupported_iff, chksumInternet_eq_zero_iff, hsub, hmbuf]
          constructor
          · rintro ⟨-, hsum, ⟨hver, hhl, hbit⟩, hpay, hproto, heq⟩
            exact ⟨⟨hlength ▸ hip, hours.1, hours.2, hsum, hver, hhl, hproto⟩, hbit, hpay, heq⟩
          · rintro ⟨hfor, hbit, hpay, heq⟩
            exact ⟨show ipHdrLen ≤ m.len - ethHdrLen by omega, hfor.verified,
              ⟨hfor.version, hfor.headerLen, hbit⟩, hpay, hfor.proto, heq⟩
        · refine ⟨fun h => ?_, fun h => absurd (hlength ▸ h.1.complete) hip⟩
          have hshort : ipHdrLen ≤ m.len - ethHdrLen := ((netRxIp_eq_trans_iff rfl).1 h).1
          omega
      · rw [if_pos (by simpa only [not_and_or] using hours)]
        exact hdrop _ fun h => hours ⟨h.1.ipv4, h.1.ours⟩
  · rw [if_neg hll]
    refine hdrop _ fun h => hll ?_
    have := h.1.complete
    omega

theorem bytes_handedMbuf {m : Mbuf}
    (hlen : payloadLen (ipHdr m.bytes) ≤ m.len - (ethHdrLen + ipHdrLen)) :
    (handedMbuf m).bytes =
      (m.bytes.drop (ethHdrLen + ipHdrLen)).take (payloadLen (ipHdr m.bytes)) := by
  have hbytes : (handedMbuf m).bytes =
      (m.buf.drop (m.data + (ethHdrLen + ipHdrLen))).take (payloadLen (ipHdr m.bytes)) := rfl
  rw [hbytes]
  generalize payloadLen (ipHdr m.bytes) = n at hlen
  rw [Mbuf.bytes, drop_take, drop_drop, take_take, Nat.min_eq_left hlen]

/-! ## The filter -/

/-- Whatever has the tested bit is a fragment, so no whole packet is dropped for it. -/
theorem isFragment_of_testedBit {frame : List UInt8} (h : TestedBit frame) : IsFragment frame := by
  unfold TestedBit at h
  right
  omega

theorem payloadLen_of_counted {frame : List UInt8} (h : ipHdrLen ≤ totalLen frame) :
    payloadLen (ipHdr frame) = totalLen frame - ipHdrLen := by
  have hlt : totalLen frame < 2 ^ 16 := be16At_lt _ _
  show (totalLen frame + 2 ^ 16 - ipHdrLen) % 2 ^ 16 = _
  omega

theorem payloadLen_of_short {frame : List UInt8} (h : totalLen frame < ipHdrLen) :
    payloadLen (ipHdr frame) = totalLen frame + 2 ^ 16 - ipHdrLen := by
  show (totalLen frame + 2 ^ 16 - ipHdrLen) % 2 ^ 16 = _
  unfold ipHdrLen at *
  omega

/-- For this frame the filter is exact: it is handed over exactly if it should be, and then what
is handed over is the payload that the total length gives. -/
structure FilterExact (mac : List UInt8) (m : Mbuf) : Prop where
  handed : (∃ m', netRxOne mac m = some (.trans m')) ↔ Accepted mac m.csumType m.bytes
  payload : ∀ m', netRxOne mac m = some (.trans m') →
    m'.bytes = (m.bytes.drop (ethHdrLen + ipHdrLen)).take (totalLen m.bytes - ipHdrLen) ∧
    m'.len = totalLen m.bytes - ipHdrLen

/-- The frames the filter misses: all that is left to check is the length or the fragmentation;
the tested bit is not set, and the frame is a fragment that was received as a whole, or its
total length does not count the header and wraps to one that was received. -/
structure Missed (mac : List UInt8) (csumType : CsumType) (frame : List UInt8) : Prop extends
    ForTransport mac csumType frame where
  untested : ¬ TestedBit frame
  passes : IsFragment frame ∧ ipHdrLen ≤ totalLen frame ∧
      ethHdrLen + totalLen frame ≤ frame.length ∨
    totalLen frame < ipHdrLen ∧ ethHdrLen + (totalLen frame + 2 ^ 16) ≤ frame.length

/-- A frame that is handed over is a missed one or one that should be. -/
theorem missed_or_accepted {mac : List UInt8} {m m' : Mbuf} (hin : m.Inside)
    (h : netRxOne mac m = some (.trans m')) :
    Missed mac m.csumType m.bytes ∨ Accepted mac m.csumType m.bytes := by
  have hlength := hin.length_bytes
  obtain ⟨hfor, hbit, hpay, -⟩ := (netRxOne_eq_trans_iff hin).1 h
  have hcomplete := hfor.complete
  by_cases hcounted : ipHdrLen ≤ totalLen m.bytes
  · rw [payloadLen_of_counted hcounted] at hpay
    have hreceived : ethHdrLen + totalLen m.bytes ≤ m.bytes.length := by omega
    by_cases hfrag : IsFragment m.bytes
    · exact .inl { hfor with
        untested := hbit
        passes := .inl ⟨hfrag, hcounted, hreceived⟩ }
    · exact .inr { hfor with
        headerCounted := hcounted
        received := Nat.le_sub_of_add_le' hreceived
        whole := hfrag }
  · have hshort : totalLen m.bytes < ipHdrLen := Nat.lt_of_not_le hcounted
    rw [payloadLen_of_short hshort] at hpay
    exact .inl { hfor with
      untested := hbit
      passes := .inr ⟨hshort, by unfold ipHdrLen at *; omega⟩ }

theorem Missed.handed {mac : List UInt8} {m : Mbuf} (hin : m.Inside)
    (h : Missed mac m.csumType m.bytes) : netRxOne mac m = some (.trans (handedMbuf m)) := by
  have hlength := hin.length_bytes
  refine (netRxOne_eq_trans_iff hin).2 ⟨h.toForTransport, h.untested, ?_, rfl⟩
  rcases h.passes with ⟨-, hcounted, hreceived⟩ | ⟨hshort, hreceived⟩
  · rw [payloadLen_of_counted hcounted]
    omega
  · rw [payloadLen_of_short hshort]
    omega

theorem Missed.not_accepted {mac : List UInt8} {csumType : CsumType} {frame : List UInt8}
    (h : Missed mac csumType frame) : ¬ Accepted mac csumType frame := by
  intro hacc
  rcases h.passes with ⟨hfrag, -⟩ | ⟨hshort, -⟩
  · exact hacc.whole hfrag
  · exact absurd hacc.headerCounted (Nat.not_le.2 hshort)

/-- No frame that should be handed over is dropped. -/
theorem Accepted.handed {mac : List UInt8} {m : Mbuf} (hin : m.Inside)
    (h : Accepted mac m.csumType m.bytes) : netRxOne mac m = some (.trans (handedMbuf m)) := by
  have hlength := hin.length_bytes
  have hreceived := h.received
  refine (netRxOne_eq_trans_iff hin).2
    ⟨h.toForTransport, fun hbit => h.whole (isFragment_of_testedBit hbit), ?_, rfl⟩
  rw [payloadLen_of_counted h.headerCounted]
  omega

/-- The filter is exact for every frame but those it misses. -/
theorem ip_filter_exact (mac : List UInt8) {m : Mbuf} (hin : m.Inside) :
    FilterExact mac m ↔ ¬ Missed mac m.csumType m.bytes := by
  constructor
  · exact fun hexact hmissed =>
      hmissed.not_accepted (hexact.handed.1 ⟨_, hmissed.handed hin⟩)
  · intro hnot
    have haccepted : ∀ m', netRxOne mac m = some (.trans m') →
        Accepted mac m.csumType m.bytes := fun m' h =>
      (missed_or_accepted hin h).resolve_left hnot
    refine ⟨⟨fun ⟨m', h⟩ => haccepted m' h, fun h => ⟨_, h.handed hin⟩⟩, fun m' h => ?_⟩
    have hcounted := (haccepted m' h).headerCounted
    obtain ⟨-, -, hpay, rfl⟩ := (netRxOne_eq_trans_iff hin).1 h
    rw [bytes_handedMbuf hpay, payloadLen_of_counted hcounted]
    exact ⟨rfl, payloadLen_of_counted hcounted⟩

/-- A UDP packet of 28 bytes in a frame with two bytes of padding; `off` is the upper byte of
the fragment field and `sum` the upper byte of the checksum. -/
def udpFrame (off sum : UInt8) : Mbuf where
  buf := [2, 0, 0, 0, 0, 1, 2, 0, 0, 0, 0, 2, 8, 0] ++
    [0x45, 0, 0, 28, 0, 0, off, 0, 64, 17, sum, 207, 10, 0, 0, 2, 10, 0, 0, 1] ++
    [18, 52, 0, 53, 0, 8, 0, 0] ++ [0, 0]
  data := 0
  len := 44
  csumType := .needed
  networkOff := 0
  transportOff := 0

theorem udpFrame_inside (off sum : UInt8) : (udpFrame off sum).Inside := Nat.le_refl 44

/-- A whole packet is not missed, so that the filter is exact for it. -/
theorem ip_filter_wholePacket : (udpFrame 0 102).Inside ∧
    FilterExact [2, 0, 0, 0, 0, 1] (udpFrame 0 102) ∧
      ∃ m', netRxOne [2, 0, 0, 0, 0, 1] (udpFrame 0 102) = some (.trans m') ∧
        m'.bytes = [18, 52, 0, 53, 0, 8, 0, 0] := by
  have hin := udpFrame_inside 0 102
  have hwhole : ¬ IsFragment (udpFrame 0 102).bytes := by decide
  have hcounted : ¬ totalLen (udpFrame 0 102).bytes < ipHdrLen := by decide
  have hexact := (ip_filter_exact [2, 0, 0, 0, 0, 1] hin).2 fun hmissed =>
    hmissed.passes.elim (fun h => hwhole h.1) fun h => hcounted h.1
  exact ⟨hin, hexact, handedMbuf (udpFrame 0 102), by decide, by decide⟩

/-- The first fragment of a datagram, with a correct checksum, is handed to UDP. -/
theorem fragment_handed_over : netRxOne [2, 0, 0, 0, 0, 1] (udpFrame 0x20 70) =
        some (.trans (handedMbuf (udpFrame 0x20 70))) ∧
      IsFragment (udpFrame 0x20 70).bytes ∧ ¬ FilterExact [2, 0, 0, 0, 0, 1] (udpFrame 0x20 70) := by
  have hfrag : IsFragment (udpFrame 0x20 70).bytes := by decide
  have hrun : netRxOne [2, 0, 0, 0, 0, 1] (udpFrame 0x20 70) =
      some (.trans (handedMbuf (udpFrame 0x20 70))) := by decide
  exact ⟨hrun, hfrag, fun h => (h.handed.1 ⟨_, hrun⟩).whole hfrag⟩

end Svalinn.Net.Ingress
