/-
  Tcp/Headers.lean --- from the bytes behind an IP header to a segment.

  Source: `runtime/net/core.c` (the length checks of `net_rx_one`), `runtime/net/tcp_in.c`
  (the first part of `tcp_rx_conn`), `inc/net/tcp.h` and `inc/net/mbuf.h`.

  A packet is given as the bytes behind its IP header with the length field of that
  header; `none` means that the `BUG_ON` of a pull or a trim has fired.  The two length
  computations wrap, in 16 and in 32 bits.  No packet gets past the checks with a
  header longer than what is there, so nothing fires, and the text is as long as the
  length fields say.
-/
import Svalinn.Lib.Bytes
import Svalinn.Tcp.Egress

set_option autoImplicit false

namespace Svalinn.Tcp.Debug

open Svalinn.Lib List

/-! ## Model -/

/-- A packet as the IP layer finds it: the total length field of the header, and the
bytes that follow the header in the buffer. -/
structure RawPacket where
  ipLen : BitVec 16
  bytes : List UInt8
  deriving DecidableEq

/-- What follows the IP header, trimmed to the length that the header gives. -/
structure IpPayload where
  bytes : List UInt8
  length_lt : bytes.length < 2 ^ 16

/-- `mbuf_trim` of bytes not yet parsed. -/
def trimBytes (bytes : List UInt8) (len : Nat) : Option (List UInt8) :=
  if len > bytes.length then none else some (bytes.take (bytes.length - len))

/-- `mbuf_pull` of bytes not yet parsed. -/
def pullBytes (bytes : List UInt8) (len : Nat) : Option (List UInt8) :=
  if len > bytes.length then none else some (bytes.drop len)

theorem trimBytes_some {bytes bytes' : List UInt8} {len : Nat}
    (h : trimBytes bytes len = some bytes') : len ≤ bytes.length ∧ bytes'.length = bytes.length - len := by
  unfold trimBytes at h
  split at h
  · cases h
  · cases h
    exact ⟨by omega, by rw [length_take]; omega⟩

theorem pullBytes_some {bytes bytes' : List UInt8} {len : Nat}
    (h : pullBytes bytes len = some bytes') : len ≤ bytes.length ∧ bytes'.length = bytes.length - len := by
  unfold pullBytes at h
  split at h
  · cases h
  · cases h
    exact ⟨by omega, length_drop⟩

/-- `sizeof(struct ip_hdr)`. -/
def ipHdrLen : Nat := 20

/-- The payload length of `net_rx_one`, a `uint16_t`, which wraps for a header that
claims less than its own size. -/
def payloadLen (p : RawPacket) : BitVec 16 := p.ipLen - BitVec.ofNat 16 ipHdrLen

/-- The length checks of `net_rx_one`; `some none` is a packet dropped. -/
def netRxOne (p : RawPacket) : Option (Option IpPayload) :=
  if p.bytes.length < (payloadLen p).toNat then some none
  else if hlt : (payloadLen p).toNat < p.bytes.length then
    match htrim : trimBytes p.bytes (p.bytes.length - (payloadLen p).toNat) with
    | none => none
    | some bytes =>
      some (some ⟨bytes, by
        have hlen := trimBytes_some htrim
        have hmax := (payloadLen p).isLt
        omega⟩)
  else
    some (some ⟨p.bytes, by
      have hmax := (payloadLen p).isLt
      omega⟩)

/-- The `n` bytes from `i` on, a number in network byte order. -/
def headerField (bytes : List UInt8) (i n : Nat) : Nat := leValue ((bytes.drop i).take n).reverse

/-- The flags of `struct tcp_hdr`. -/
def parseFlags (b : Nat) : Flags where
  fin := b.testBit 0
  syn := b.testBit 1
  rst := b.testBit 2
  push := b.testBit 3
  ack := b.testBit 4
  urg := b.testBit 5

def hdrLen (bytes : List UInt8) : Nat := headerField bytes 12 1 / 16 * 4

/-- The length of the text, a `uint32_t`, which wraps for a header that is longer than
the packet. -/
def textLen (ipLen : BitVec 16) (bytes : List UInt8) : Seq :=
  ipLen.setWidth 32 - BitVec.ofNat 32 ipHdrLen - BitVec.ofNat 32 (hdrLen bytes)

/-- The first part of `tcp_rx_conn`: the header is pulled off and then the options; `some none` is
a packet freed. The text is then as long as `textLen` says. -/
def parseHeader (ipLen : BitVec 16) (payload : IpPayload) : Option (Option Segment) :=
  if payload.bytes.length < tcpHdrLen then some none
  else if hdrLen payload.bytes < tcpHdrLen then some none
  else if (textLen ipLen payload.bytes).toNat > (payload.bytes.drop tcpHdrLen).length then some none
  else
    match hpull : pullBytes (payload.bytes.drop tcpHdrLen) (hdrLen payload.bytes - tcpHdrLen) with
    | none => none
    | some data =>
      some (some
        { seq := BitVec.ofNat 32 (headerField payload.bytes 4 4)
          ack := BitVec.ofNat 32 (headerField payload.bytes 8 4)
          win := BitVec.ofNat 16 (headerField payload.bytes 14 2)
          flags := parseFlags (headerField payload.bytes 13 1)
          data := data
          length_lt := by
            have hlen := (pullBytes_some hpull).2
            have hmax := payload.length_lt
            rw [length_drop] at hlen
            omega })

def rxPacket (p : RawPacket) : Option (Option Segment) :=
  match netRxOne p with
  | none => none
  | some none => some none
  | some (some payload) => parseHeader p.ipLen payload

/-! ## The length checks -/

theorem netRxOne_length {p : RawPacket} : ∃ r, netRxOne p = some r ∧
    ∀ payload ∈ r, payload.bytes.length = (payloadLen p).toNat := by
  unfold netRxOne
  split
  · exact ⟨none, rfl, nofun⟩
  rename_i hge
  split
  · rename_i hlt
    split
    · rename_i hnone
      unfold trimBytes at hnone
      rw [if_neg (by omega)] at hnone
      cases hnone
    · rename_i bytes htrim
      refine ⟨_, rfl, fun payload hmem => ?_⟩
      cases hmem
      have hlen := (trimBytes_some htrim).2
      show bytes.length = _
      omega
  · refine ⟨_, rfl, fun payload hmem => ?_⟩
    cases hmem
    show p.bytes.length = _
    omega

theorem hdrLen_le (bytes : List UInt8) : hdrLen bytes ≤ 60 := by
  have hfield : headerField bytes 12 1 < 256 := by
    unfold headerField
    cases hrest : bytes.drop 12 with
    | nil => decide
    | cons b rest =>
      show b.toNat + 256 * 0 < 256
      have hb := b.toNat_lt
      omega
  unfold hdrLen
  omega

theorem textLen_eq {p : RawPacket} {bytes : List UInt8}
    (hlen : bytes.length = (payloadLen p).toNat) (hge : tcpHdrLen ≤ bytes.length)
    (htext : (textLen p.ipLen bytes).toNat ≤ bytes.length - tcpHdrLen) :
    bytes.length = hdrLen bytes + (textLen p.ipLen bytes).toNat := by
  have hhdr := hdrLen_le bytes
  have hmax := p.ipLen.isLt
  have hpay : (payloadLen p).toNat = (2 ^ 16 - 20 + p.ipLen.toNat) % 2 ^ 16 := by
    unfold payloadLen
    rw [BitVec.toNat_sub]
    rfl
  have htoNat : (textLen p.ipLen bytes).toNat =
      (2 ^ 32 - hdrLen bytes + (2 ^ 32 - 20 + p.ipLen.toNat) % 2 ^ 32) % 2 ^ 32 := by
    unfold textLen
    rw [BitVec.toNat_sub, BitVec.toNat_sub, BitVec.toNat_setWidth, BitVec.toNat_ofNat,
      BitVec.toNat_ofNat, Nat.mod_eq_of_lt (show hdrLen bytes < 2 ^ 32 by omega),
      Nat.mod_eq_of_lt (show p.ipLen.toNat < 2 ^ 32 by omega)]
    rfl
  rw [htoNat] at htext ⊢
  rw [hpay] at hlen
  have hbase : tcpHdrLen = 20 := rfl
  omega

theorem rxPacket_ne_none (p : RawPacket) : rxPacket p ≠ none := by
  obtain ⟨r, hrx, hlen⟩ := netRxOne_length (p := p)
  unfold rxPacket
  rw [hrx]
  cases r with
  | none => exact Option.some_ne_none _
  | some payload =>
    have hlen := hlen payload rfl
    dsimp only
    unfold parseHeader
    split
    · exact Option.some_ne_none _
    split
    · exact Option.some_ne_none _
    split
    · exact Option.some_ne_none _
    rename_i hge hhdr htext
    rw [length_drop] at htext
    have heq := textLen_eq hlen (by omega) (by omega)
    split
    · rename_i hnone
      unfold pullBytes at hnone
      rw [length_drop, if_neg (by omega)] at hnone
      cases hnone
    · exact Option.some_ne_none _

/-! ## Packets of a peer -/

/-- The packet of a peer without options: ports and checksum are left zero. -/
def encodeSegment (seq ack flags win : Nat) (data : List UInt8) : RawPacket where
  ipLen := BitVec.ofNat 16 (ipHdrLen + tcpHdrLen + data.length)
  bytes := [0, 0, 0, 0] ++ (leBytes 4 seq).reverse ++ (leBytes 4 ack).reverse ++ [0x50] ++
    (leBytes 1 flags).reverse ++ (leBytes 2 win).reverse ++ [0, 0, 0, 0] ++ data

end Svalinn.Tcp.Debug
