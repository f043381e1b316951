/-
  Net/Loopback.lean --- packets to ourselves, and the same packets from the network.

  Source: `runtime/net/core.c` (`net_push_iphdr`, `net_tx_ip`, `net_tx_local_loopback`),
  `inc/net/mbuf.h` (`mbuf_init` and the offset helpers), and what `runtime/net/transport.c`,
  `tcp_in.c` and `udp.c` read of a received mbuf.

  The buffer of a loopback packet is allocated and not cleared; `mbuf_init` and what follows it
  do not write the offset of the network header, so that the packet has whatever offset the
  memory held.  The receive path of the network marks it.  The receivers then read the same of
  both packets exactly if a copy of the IP header lies at the stale offset.
-/
import Svalinn.Net.Ingress
import Svalinn.Net.Transport

set_option autoImplicit false

namespace Svalinn.Net.Loopback

open Svalinn.Lib Svalinn.Net.Ingress List

/-! ## The loopback path -/

/-- The header that `net_push_iphdr` writes, with the checksum field still to be filled: the
NIC does that for a packet that leaves. -/
def ipHeader (saddr daddr : UInt32) (proto : UInt8) (len : Nat) (sumHi sumLo : UInt8) :
    List UInt8 :=
  [0x45, 0] ++ be16Bytes len ++ [0, 0] ++ [0x40, 0] ++ [64, proto] ++ [sumHi, sumLo] ++
    be32Bytes saddr.toNat ++ be32Bytes daddr.toNat

/-- `net_push_iphdr`: the data of the mbuf, which starts with the transport header. -/
def netPushIphdr (addr : UInt32) (proto : UInt8) (daddr : UInt32) (data : List UInt8) :
    List UInt8 :=
  ipHeader addr daddr proto (ipHdrLen + data.length) 0 0 ++ data

/-- What the memory of a new mbuf holds in the fields that nobody writes, and behind the packet
once that is copied. -/
structure Stale where
  networkOff : UInt16
  transportOff : UInt16
  behind : List UInt8
  deriving DecidableEq

/-- `net_tx_local_loopback`, once the buffer is allocated and the thread spawned. -/
def netTxLocalLoopback (stale : Stale) (data : List UInt8) (proto : UInt8) : Option Handed :=
  let m : Mbuf :=
    { buf := data ++ stale.behind
      data := 0
      len := data.length
      csumType := .unnecessary
      networkOff := stale.networkOff.toNat
      transportOff := stale.transportOff.toNat }
  (mbufPull m ipHdrLen).map fun m =>
    if proto = ipprotoUdp ∨ proto = ipprotoTcp then .trans m else .drop

/-- `net_tx_ip` to the local address. -/
def netTxIpLocal (addr : UInt32) (stale : Stale) (proto : UInt8) (data : List UInt8) :
    Option Handed :=
  netTxLocalLoopback stale (netPushIphdr addr proto addr data) proto

/-! ## What the receivers read -/

/-- The network header, through `network_off`. -/
def networkHdr (m : Mbuf) : List UInt8 := (m.buf.drop m.networkOff).take ipHdrLen

/-- A header without its checksum, which nobody reads behind `net_rx_one`. -/
def clearSum (iphdr : List UInt8) : List UInt8 := (iphdr.set 10 0).set 11 0

/-- What `net_rx_trans`, `trans_lookup` and the receive handlers read of an mbuf.  The offset of
the transport header is marked by `net_rx_trans` itself, at the start of the data. -/
structure View where
  iphdr : List UInt8
  data : List UInt8
  len : Nat
  deriving DecidableEq

/-- The view of the receivers. -/
def view (m : Mbuf) : View := ⟨clearSum (networkHdr m), m.bytes, m.len⟩

/-- What `trans_lookup` looks for. -/
def View.packet (v : View) : Transport.Packet where
  proto := byteAt v.iphdr 9
  saddr := UInt32.ofNat (be32At v.iphdr 12)
  daddr := UInt32.ofNat (be32At v.iphdr 16)
  data := v.data

/-! ## The packet on the wire -/

/-- The frame in which the packet arrives: for our MAC, from any host, with any checksum and
any padding. -/
def wireFrame (mac src : List UInt8) (addr : UInt32) (proto : UInt8) (data : List UInt8)
    (sumHi sumLo : UInt8) (padding : List UInt8) : List UInt8 :=
  mac ++ src ++ be16Bytes ethtypeIp ++
    (ipHeader addr addr proto (ipHdrLen + data.length) sumHi sumLo ++ data ++ padding)

theorem length_ipHeader (saddr daddr : UInt32) (proto : UInt8) (len : Nat) (sumHi sumLo : UInt8) :
    (ipHeader saddr daddr proto len sumHi sumLo).length = ipHdrLen := rfl

theorem clearSum_ipHeader (saddr daddr : UInt32) (proto : UInt8) (len : Nat)
    (sumHi sumLo : UInt8) :
    clearSum (ipHeader saddr daddr proto len sumHi sumLo) =
      ipHeader saddr daddr proto len 0 0 := rfl

/-- Two headers without their checksums are equal if all bytes outside the checksum are. -/
theorem clearSum_eq_iff {iphdr hdr : List UInt8} (hlen : iphdr.length ≤ ipHdrLen)
    (hhdr : hdr.length = ipHdrLen) :
    clearSum iphdr = clearSum hdr ↔
      ∀ i < ipHdrLen, i ≠ 10 → i ≠ 11 → iphdr[i]? = hdr[i]? := by
  constructor
  · intro h i _ h10 h11
    have hi := congrArg (·[i]?) h
    simpa only [clearSum, getElem?_set_ne h11.symm, getElem?_set_ne h10.symm] using hi
  · intro h
    have hlast : iphdr[19]? = hdr[19]? := h 19 (by decide) (by decide) (by decide)
    have hsome : 19 < hdr.length := hhdr.symm ▸ (by decide)
    rw [getElem?_eq_getElem hsome] at hlast
    have hfull : iphdr.length = ipHdrLen :=
      Nat.le_antisymm hlen (List.getElem?_eq_some_iff.1 hlast).1
    refine ext_getElem? fun i => ?_
    simp only [clearSum, getElem?_set, length_set, hfull, hhdr]
    split
    · rfl
    · split
      · rfl
      · rename_i h11 h10
        by_cases hi : i < ipHdrLen
        · exact h i hi (Ne.symm h10) (Ne.symm h11)
        · rw [getElem?_eq_none (by omega), getElem?_eq_none (by omega)]

section Wire

variable {mac src : List UInt8} {addr : UInt32} {proto : UInt8} {data : List UInt8}
  {sumHi sumLo : UInt8} {padding : List UInt8}

theorem drop_wireFrame (hmac : mac.length = 6) (hsrc : src.length = 6) :
    (wireFrame mac src addr proto data sumHi sumLo padding).drop ethHdrLen =
      ipHeader addr addr proto (ipHdrLen + data.length) sumHi sumLo ++ data ++ padding := by
  refine drop_left' ?_
  rw [length_append, length_append, hmac, hsrc]
  rfl

theorem ipHdr_wireFrame (hmac : mac.length = 6) (hsrc : src.length = 6) :
    ipHdr (wireFrame mac src addr proto data sumHi sumLo padding) =
      ipHeader addr addr proto (ipHdrLen + data.length) sumHi sumLo := by
  rw [ipHdr, drop_wireFrame hmac hsrc, append_assoc, take_left' (length_ipHeader _ _ _ _ _ _)]

theorem length_wireFrame (hmac : mac.length = 6) (hsrc : src.length = 6) :
    (wireFrame mac src addr proto data sumHi sumLo padding).length =
      ethHdrLen + (ipHdrLen + data.length + padding.length) := by
  rw [wireFrame, length_append, length_append, length_append, length_append,
    length_append, hmac, hsrc, length_ipHeader]
  rfl

theorem llHdr_wireFrame (hmac : mac.length = 6) (hsrc : src.length = 6) :
    llHdr (wireFrame mac src addr proto data sumHi sumLo padding) =
      mac ++ src ++ be16Bytes ethtypeIp := by
  refine take_left' ?_
  rw [length_append, length_append, hmac, hsrc]
  rfl

theorem forTransport_wireFrame {csumType : CsumType} (hmac : mac.length = 6)
    (hsrc : src.length = 6) (hproto : proto = ipprotoUdp ∨ proto = ipprotoTcp)
    (hverified : csumType = .unnecessary ∨
      HeaderSumValid (wireFrame mac src addr proto data sumHi sumLo padding)) :
    ForTransport mac csumType (wireFrame mac src addr proto data sumHi sumLo padding) where
  complete := by
    rw [length_wireFrame hmac hsrc]
    omega
  ipv4 := by
    have hlen : (mac ++ src).length + 0 = 12 := by
      rw [length_append, hmac, hsrc]
    rw [llHdr_wireFrame hmac hsrc, ← hlen, be16At_append_right]
    rfl
  ours := by
    rw [llHdr_wireFrame hmac hsrc, append_assoc]
    exact take_left' hmac
  verified := hverified
  version := by
    rw [ipHdr_wireFrame hmac hsrc]
    show (0x45 : UInt8).toNat / 16 = 4
    decide
  headerLen := by
    rw [ipHdr_wireFrame hmac hsrc]
    show (0x45 : UInt8).toNat % 16 * 4 = ipHdrLen
    decide
  proto := by
    rw [ipHdr_wireFrame hmac hsrc]
    exact hproto

theorem totalLen_wireFrame (hmac : mac.length = 6) (hsrc : src.length = 6)
    (hlen : ipHdrLen + data.length < 2 ^ 16) :
    totalLen (wireFrame mac src addr proto data sumHi sumLo padding) = ipHdrLen + data.length := by
  rw [totalLen, ipHdr_wireFrame hmac hsrc]
  exact (be16Bytes_value _).trans (Nat.mod_eq_of_lt hlen)

theorem not_testedBit_wireFrame (hmac : mac.length = 6) (hsrc : src.length = 6) :
    ¬ TestedBit (wireFrame mac src addr proto data sumHi sumLo padding) := by
  rw [TestedBit, fragmentField, ipHdr_wireFrame hmac hsrc]
  show ¬ (256 * 0x40 + 0) / 2 ^ 5 % 2 = 1
  decide

end Wire

/-! ## The two paths -/

/-- The bytes in the buffer of a packet to ourselves. -/
def memory (addr : UInt32) (stale : Stale) (proto : UInt8) (data : List UInt8) : List UInt8 :=
  netPushIphdr addr proto addr data ++ stale.behind

/-- The mbuf that the loopback path hands over. -/
def loopbackMbuf (addr : UInt32) (stale : Stale) (proto : UInt8) (data : List UInt8) : Mbuf where
  buf := memory addr stale proto data
  data := ipHdrLen
  len := data.length
  csumType := .unnecessary
  networkOff := stale.networkOff.toNat
  transportOff := stale.transportOff.toNat

theorem netTxIpLocal_eq (addr : UInt32) (stale : Stale) {proto : UInt8} (data : List UInt8)
    (hproto : proto = ipprotoUdp ∨ proto = ipprotoTcp) :
    netTxIpLocal addr stale proto data = some (.trans (loopbackMbuf addr stale proto data)) := by
  have hlen : (netPushIphdr addr proto addr data).length = ipHdrLen + data.length := by
    rw [netPushIphdr, length_append, length_ipHeader]
  simp only [netTxIpLocal, netTxLocalLoopback, mbufPull, mbufPullOrNull, Extent.pull, hlen]
  rw [if_pos (Nat.le_add_right _ _), Option.map_some, Option.map_some, if_pos hproto,
    Nat.add_sub_cancel_left, loopbackMbuf, Nat.zero_add]
  rfl

/-- The memory at the stale offset repeats the IP header of the packet, but for the checksum.
With a network offset of zero it is that header. -/
def RepeatsHeader (addr : UInt32) (stale : Stale) (proto : UInt8) (data : List UInt8) : Prop :=
  ∀ i < ipHdrLen, i ≠ 10 → i ≠ 11 →
    (memory addr stale proto data)[stale.networkOff.toNat + i]? =
      (memory addr stale proto data)[i]?

theorem repeatsHeader_of_zero (addr : UInt32) {stale : Stale} (proto : UInt8) (data : List UInt8)
    (hstale : stale.networkOff = 0) : RepeatsHeader addr stale proto data := by
  intro i _ _ _
  rw [hstale]
  exact congrArg ((memory addr stale proto data)[·]?) (Nat.zero_add i)

/-- The data and the length are those of the packet; the header is the one at the offset. -/
theorem view_loopbackMbuf_iff (addr : UInt32) (stale : Stale) (proto : UInt8)
    (data : List UInt8) :
    view (loopbackMbuf addr stale proto data) =
        ⟨ipHeader addr addr proto (ipHdrLen + data.length) 0 0, data, data.length⟩ ↔
      RepeatsHeader addr stale proto data := by
  have hbytes : (loopbackMbuf addr stale proto data).bytes = data := by
    show ((memory addr stale proto data).drop ipHdrLen).take data.length = _
    rw [memory, netPushIphdr, append_assoc, drop_left' (length_ipHeader _ _ _ _ _ _),
      take_left' rfl]
  have hhdr : ∀ i < ipHdrLen,
      (ipHeader addr addr proto (ipHdrLen + data.length) 0 0)[i]? =
        (memory addr stale proto data)[i]? := by
    intro i hi
    rw [memory, netPushIphdr, append_assoc, getElem?_append_left (by rwa [length_ipHeader])]
  rw [view, hbytes, View.mk.injEq, and_iff_left ⟨rfl, rfl⟩, networkHdr,
    ← clearSum_ipHeader addr addr proto (ipHdrLen + data.length) 0 0,
    clearSum_eq_iff (length_take_le _ _) (length_ipHeader _ _ _ _ _ _)]
  refine forall_congr' fun i => forall_congr' fun hi => ?_
  rw [hhdr i hi, getElem?_take_of_lt hi, getElem?_drop]
  rfl

theorem view_handedMbuf {mac src : List UInt8} {addr : UInt32} {proto : UInt8}
    {data : List UInt8} {sumHi sumLo : UInt8} {padding : List UInt8} {m : Mbuf}
    (hframe : m.bytes = wireFrame mac src addr proto data sumHi sumLo padding)
    (hin : m.Inside) (hroom : m.data + ethHdrLen < 2 ^ 16) (hmac : mac.length = 6)
    (hsrc : src.length = 6) (hlen : ipHdrLen + data.length < 2 ^ 16) :
    view (handedMbuf m) =
      ⟨ipHeader addr addr proto (ipHdrLen + data.length) 0 0, data, data.length⟩ := by
  have hlength : m.len = ethHdrLen + (ipHdrLen + data.length + padding.length) := by
    rw [← hin.length_bytes, hframe, length_wireFrame hmac hsrc]
  have hpay : payloadLen (ipHdr m.bytes) = data.length := by
    rw [hframe, payloadLen_of_counted (by rw [totalLen_wireFrame hmac hsrc hlen]; omega),
      totalLen_wireFrame hmac hsrc hlen, Nat.add_sub_cancel_left]
  have hhdr : networkHdr (handedMbuf m) = ipHdr m.bytes := by
    rw [ipHdr_bytes (by omega), networkHdr]
    show (m.buf.drop ((m.data + ethHdrLen) % 2 ^ 16)).take ipHdrLen = _
    rw [Nat.mod_eq_of_lt hroom]
  have hbytes : (handedMbuf m).bytes = data := by
    rw [bytes_handedMbuf (by rw [hpay]; omega), hpay, hframe, ← drop_drop,
      drop_wireFrame hmac hsrc, append_assoc,
      drop_left' (length_ipHeader _ _ _ _ _ _)]
    exact take_left' rfl
  rw [view, hhdr, hframe, ipHdr_wireFrame hmac hsrc, clearSum_ipHeader, hbytes]
  exact congrArg _ hpay

/-- Both packets reach `net_rx_trans`, and the receivers read the same of them; the state of the
checksum is the same as well if the NIC verified the frame. -/
def Agree (addr : UInt32) (stale : Stale) (proto : UInt8) (data mac : List UInt8) (m : Mbuf) :
    Prop :=
  ∃ mLocal mWire, netTxIpLocal addr stale proto data = some (.trans mLocal) ∧
    netRxOne mac m = some (.trans mWire) ∧ view mLocal = view mWire ∧
    (m.csumType = .unnecessary → mLocal.csumType = mWire.csumType)

/-- The receivers read the same of a packet to ourselves as of the same packet from the network
exactly if the memory at the stale offset repeats its header. -/
theorem loopback_agrees_with_wire (addr : UInt32) (stale : Stale) {proto : UInt8}
    (data : List UInt8) (hproto : proto = ipprotoUdp ∨ proto = ipprotoTcp)
    (hlen : ipHdrLen + data.length < 2 ^ 16)
    (mac src : List UInt8) (hmac : mac.length = 6) (hsrc : src.length = 6)
    (sumHi sumLo : UInt8) (padding : List UInt8) {m : Mbuf}
    (hframe : m.bytes = wireFrame mac src addr proto data sumHi sumLo padding)
    (hin : m.Inside) (hroom : m.data + ethHdrLen < 2 ^ 16)
    (hverified : m.csumType = .unnecessary ∨ HeaderSumValid m.bytes) :
    Agree addr stale proto data mac m ↔ RepeatsHeader addr stale proto data := by
  have hlocal := netTxIpLocal_eq addr stale data hproto
  have hwire : netRxOne mac m = some (.trans (handedMbuf m)) := by
    refine (netRxOne_eq_trans_iff hin).2 ⟨?_, ?_, ?_, rfl⟩
    · rw [hframe] at hverified ⊢
      exact forTransport_wireFrame hmac hsrc hproto hverified
    · rw [hframe]
      exact not_testedBit_wireFrame hmac hsrc
    · have hlength : m.len = ethHdrLen + (ipHdrLen + data.length + padding.length) := by
        rw [← hin.length_bytes, hframe, length_wireFrame hmac hsrc]
      rw [hframe, payloadLen_of_counted (by rw [totalLen_wireFrame hmac hsrc hlen]; omega),
        totalLen_wireFrame hmac hsrc hlen]
      omega
  rw [← view_loopbackMbuf_iff, ← view_handedMbuf hframe hin hroom hmac hsrc hlen]
  constructor
  · rintro ⟨mLocal, mWire, hl, hw, hview, -⟩
    rw [hlocal] at hl
    rw [hwire] at hw
    cases hl
    cases hw
    exact hview
  · exact fun hview => ⟨_, _, hlocal, hwire, hview, fun hcsum => hcsum.symm⟩

/-- A UDP packet of 16 bytes from port 4660 to port 53. -/
def query : List UInt8 := [18, 52, 0, 53, 0, 16, 0, 0, 1, 2, 3, 4, 5, 6, 7, 8]

/-- The packet as it arrives from the network, verified by the NIC. -/
def queryFrame : Mbuf where
  buf := wireFrame [2, 0, 0, 0, 0, 1] [2, 0, 0, 0, 0, 1] 167772161 ipprotoUdp query 0 0 [0, 0]
  data := 0
  len := 52
  csumType := .unnecessary
  networkOff := 0
  transportOff := 0

theorem queryFrame_inside : queryFrame.Inside := Nat.le_refl 52

/-- With a network offset of zero the two agree. -/
theorem loopback_agrees_query :
    Agree 167772161 ⟨0, 7, []⟩ ipprotoUdp query [2, 0, 0, 0, 0, 1] queryFrame :=
  (loopback_agrees_with_wire 167772161 ⟨0, 7, []⟩ query (.inl rfl) (by decide)
    [2, 0, 0, 0, 0, 1] [2, 0, 0, 0, 0, 1] rfl rfl 0 0 [0, 0] (m := queryFrame) (by decide)
    queryFrame_inside (by decide) (.inl rfl)).2 (repeatsHeader_of_zero _ _ _ rfl)

/-- In the memory of a freed receive buffer the offset is 14: `trans_lookup` then reads the
lower byte of the destination port as the protocol, and the packet is dropped. -/
theorem stale_offset_misread :
    ∃ mLocal mWire, netTxIpLocal 167772161 ⟨14, 34, []⟩ ipprotoUdp query = some (.trans mLocal) ∧
      netRxOne [2, 0, 0, 0, 0, 1] queryFrame = some (.trans mWire) ∧
      (view mLocal).packet.addrs false = none ∧
      (view mWire).packet.addrs false = some (⟨167772161, 53⟩, ⟨167772161, 4660⟩) :=
  ⟨loopbackMbuf 167772161 ⟨14, 34, []⟩ ipprotoUdp query, handedMbuf queryFrame, by decide,
    by decide, by decide, by decide⟩

end Svalinn.Net.Loopback
