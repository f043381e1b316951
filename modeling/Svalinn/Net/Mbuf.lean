/-
  Net/Mbuf.lean --- the buffers of packets.

  Source: `inc/net/mbuf.h`, and the header sizes of `inc/net/ethernet.h` and `inc/net/ip.h`.

  An mbuf is its buffer from `head` on with the extent of the data in it.  A `BUG_ON` that
  fires is `none`.
-/
import Mathlib.Algebra.Group.Nat.Defs

set_option autoImplicit false

namespace Svalinn.Net

/-- `sizeof(struct eth_hdr)`. -/
def ethHdrLen : Nat := 14

/-- `sizeof(struct ip_hdr)`. -/
def ipHdrLen : Nat := 20

/-- Where the data of an mbuf lies: its offset from `head`, and its length. -/
structure Extent where
  data : Nat
  len : Nat
  deriving DecidableEq

/-- `mbuf_push` once there is room for the header. -/
def Extent.push (n : Nat) (h : Extent) : Extent := ⟨h.data - n, h.len + n⟩

/-- `mbuf_pull` once the header is there. -/
def Extent.pull (n : Nat) (h : Extent) : Extent := ⟨h.data + n, h.len - n⟩

/-- `CHECKSUM_TYPE_NEEDED`, `CHECKSUM_TYPE_UNNECESSARY` and `CHECKSUM_TYPE_COMPLETE`. -/
inductive CsumType where
  | needed
  | unnecessary
  | complete
  deriving DecidableEq

/-- `struct mbuf`: `buf` are the bytes from `head` on. -/
structure Mbuf extends Extent where
  buf : List UInt8
  csumType : CsumType
  networkOff : Nat
  transportOff : Nat
  deriving DecidableEq

/-- The bytes of the data. -/
def Mbuf.bytes (m : Mbuf) : List UInt8 := (m.buf.drop m.data).take m.len

/-- The data lies in the buffer. -/
def Mbuf.Inside (m : Mbuf) : Prop := m.data + m.len ≤ m.buf.length

theorem Mbuf.Inside.length_bytes {m : Mbuf} (h : m.Inside) : m.bytes.length = m.len := by
  unfold Mbuf.Inside at h
  rw [Mbuf.bytes, List.length_take, List.length_drop]
  omega

/-- `mbuf_pull_or_null`: the header that was there, and the mbuf without it. -/
def mbufPullOrNull (m : Mbuf) (len : Nat) : Option (List UInt8 × Mbuf) :=
  if m.len ≥ len then some ((m.buf.drop m.data).take len, { m with toExtent := m.pull len })
  else none

/-- `mbuf_pull` with its `BUG_ON`. -/
def mbufPull (m : Mbuf) (len : Nat) : Option Mbuf := (mbufPullOrNull m len).map Prod.snd

/-- `mbuf_trim` with its `BUG_ON`. -/
def mbufTrim (m : Mbuf) (len : Nat) : Option Mbuf :=
  if len > m.len then none else some { m with len := m.len - len }

/-- `mbuf_mark_network_offset`; the field is an `unsigned short`. -/
def mbufMarkNetworkOffset (m : Mbuf) : Mbuf := { m with networkOff := m.data % 2 ^ 16 }

end Svalinn.Net
