/-
  Tcp/Retransmit.lean --- sending a segment of the transmit queue again.

  Source: `runtime/net/tcp_out.c` (`tcp_hdr_chksum`, `tcp_push_tcphdr`,
  `tcp_tx_retransmit_one`, `tcp_tx_retransmit`), `inc/net/mbuf.h` (`mbuf_pull`, `mbuf_push`,
  `mbuf_put`, `mbuf_reset`).

  A segment is sent again from its own buffer, or from a copy while the buffer is still with
  the device.  Bytes that have been acknowledged since are cut off first.  The length that
  seeds the checksum was taken before the cut.
-/
import Svalinn.Tcp.Conn
import Svalinn.Net.Chksum
import Svalinn.Lib.Machine

set_option autoImplicit false

namespace Svalinn.Tcp.Retransmit

open Svalinn.Lib List Option

def mbufDefaultHeadroom : Nat := 128

/-- `sizeof(struct tcp_hdr)`. -/
def tcpHdrLen : Nat := 20

def ipprotoTcp : Nat := 6

/-- `TCP_RETRANSMIT_TIMEOUT` in microseconds. -/
def tcpRetransmitTimeout : Nat := 300 * 1000

def tcpRetransmitBatch : Nat := 16

structure TcpHdr where
  sport : Nat
  dport : Nat
  seq : Seq
  ack : Seq
  off : Nat
  flags : Flags
  win : BitVec 16
  sum : Nat
  deriving DecidableEq

/-- A transmit buffer. `mem` runs from `head` to the end of the data, `data` and `transportOff`
are offsets from `head`, and `hdr` is the header at `transportOff`. -/
structure TxMbuf where
  mem : List UInt8
  data : Nat
  transportOff : Nat
  hdr : TcpHdr
  segSeq : Seq
  segEnd : Seq
  flags : Flags
  ref : Nat
  timestamp : Nat
  deriving DecidableEq

def TxMbuf.body (m : TxMbuf) : List UInt8 := m.mem.drop (m.transportOff + tcpHdrLen)

/-- The fields of the connection that are read, and the last acknowledgement sent. -/
structure TxConn where
  laddrIp : Nat
  laddrPort : Nat
  raddrIp : Nat
  raddrPort : Nat
  rcvNxt : Seq
  rcvWnd : Seq
  rcvWscale : Nat
  txLastAck : Seq
  txLastWin : Seq
  deriving DecidableEq

/-- The acknowledgement and the window that go out with a header are noted. -/
def TxConn.noteAck (c : TxConn) : TxConn := { c with txLastAck := c.rcvNxt, txLastWin := c.rcvWnd }

/-- What the surroundings decide in one call: the configuration, `snd_una` as it is loaded, and
whether a buffer is there and `net_tx_ip` succeeds. -/
structure Env where
  directpath : Bool
  mtu : Nat
  una : Seq
  allocOk : Bool
  txRet : Int
  deriving DecidableEq

/-! ## The source; `none` is a failed `BUG_ON` -/

def mbufReset (m : TxMbuf) (offset : Nat) : Option TxMbuf :=
  if m.mem.length < offset then none else some { m with data := offset }

def mbufPull (m : TxMbuf) (len : Nat) : Option TxMbuf :=
  if m.mem.length - m.data < len then none else some { m with data := m.data + len }

def tcpHdrChksum (directpath : Bool) (localIp remoteIp len : Nat) : Nat :=
  if directpath then 0 else Net.ipv4PhdrCksum ipprotoTcp localIp remoteIp len

def tcpPushTcphdr (directpath : Bool) (c : TxConn) (m : TxMbuf) (flags : Flags) (off : Nat)
    (l4len : BitVec 16) : Option (TxConn × TxMbuf) :=
  if m.data < tcpHdrLen then none
  else
    some (c.noteAck,
      { m with
        data := m.data - tcpHdrLen
        transportOff := m.data - tcpHdrLen
        hdr :=
          { sport := c.laddrPort
            dport := c.raddrPort
            seq := m.segSeq
            ack := c.rcvNxt
            off := off % 2 ^ 4
            flags := flags
            win := (c.rcvWnd >>> c.rcvWscale).setWidth 16
            sum := tcpHdrChksum directpath c.laddrIp c.raddrIp (off * 4 + l4len.toNat) } })

/-- `l4len`, before the cut. -/
def l4len (m : TxMbuf) : BitVec 16 :=
  (m.segEnd - m.segSeq).setWidth 16 - if m.flags.syn || m.flags.fin then 1 else 0

def optsLen (m : TxMbuf) : Nat := m.hdr.off - 5

/-- The copying branch; `none` stands for `-ENOMEM`. -/
def copyMbuf (env : Env) (m : TxMbuf) : Option (Option TxMbuf) :=
  if env.allocOk then
    let n := 4 * optsLen m + (l4len m).toNat
    if env.mtu < n then none
    else
      some (some
        { mem := List.replicate mbufDefaultHeadroom 0 ++
            (m.mem.drop (m.transportOff + tcpHdrLen)).take n
          data := mbufDefaultHeadroom
          transportOff := 0
          hdr := m.hdr
          segSeq := m.segSeq
          segEnd := m.segEnd
          flags := m.flags
          ref := 1
          timestamp := 0 })
  else some none

def stripMbuf (m : TxMbuf) : Option TxMbuf :=
  (mbufReset m (m.transportOff + tcpHdrLen)).map fun m => { m with ref := 2 }

def cutAcked (una : Seq) (m : TxMbuf) : Option TxMbuf :=
  if wrapsLt m.segSeq una then
    (mbufPull m (una - m.segSeq).toNat).map fun m => { m with segSeq := una }
  else some m

/-- The rest of the function on the buffer of either branch: whether `net_tx_ip` took it, and
the return value. -/
def resend (env : Env) (c : TxConn) (m : TxMbuf) (optsLen : Nat) (l4len : BitVec 16) :
    Option (TxConn × TxMbuf × Bool × Int) :=
  if wrapsLte m.segEnd env.una then some (c, m, false, 0)
  else
    (cutAcked env.una m).bind fun m =>
      (tcpPushTcphdr env.directpath c m m.flags (5 + optsLen) l4len).map fun cm =>
        (cm.1, cm.2, env.txRet == 0, env.txRet)

/-- After one call: the segment as it stands in `txq`, the packet that is with the device, and
whether the packet is the segment's own buffer. -/
structure Out where
  conn : TxConn
  seg : TxMbuf
  own : Bool
  sent : Option TxMbuf
  ret : Int
  deriving DecidableEq

/-- `mbuf_free` on a buffer that is not sent. -/
def Out.ofCopy (m : TxMbuf) (r : TxConn × TxMbuf × Bool × Int) : Out :=
  { conn := r.1, seg := m, own := false, sent := if r.2.2.1 then some r.2.1 else none,
    ret := r.2.2.2 }

def Out.ofOwn (r : TxConn × TxMbuf × Bool × Int) : Out :=
  { conn := r.1
    seg := if r.2.2.1 then r.2.1 else { r.2.1 with ref := r.2.1.ref - 1 }
    own := true
    sent := if r.2.2.1 then some r.2.1 else none
    ret := r.2.2.2 }

def enomem : Int := 12

def tcpTxRetransmitOne (env : Env) (c : TxConn) (m : TxMbuf) : Option Out :=
  if m.ref ≠ 1 then
    (copyMbuf env m).bind fun newm =>
      match newm with
      | none => some { conn := c, seg := m, own := false, sent := none, ret := -enomem }
      | some newm => (resend env c newm (optsLen m) (l4len m)).map (Out.ofCopy m)
  else
    (stripMbuf m).bind fun m' => (resend env c m' (optsLen m) (l4len m)).map Out.ofOwn

def Out.completed (out : Out) : TxMbuf :=
  if out.own ∧ out.sent.isSome then { out.seg with ref := out.seg.ref - 1 } else out.seg

/-- `tcp_tx_retransmit`; every segment has its own surroundings, and `snd_una` is loaded for the
check of the loop (`seen`) and once more in the call. -/
def tcpTxRetransmit (now : Nat) : Nat → List (Seq × Env) → TxConn → List TxMbuf →
    Option (TxConn × List Out × List TxMbuf)
  | count, (seen, env) :: envs, c, m :: txq =>
    if sub64 now m.timestamp < tcpRetransmitTimeout then some (c, [], m :: txq)
    else if wrapsGte seen m.segEnd then
      (tcpTxRetransmit now count envs c txq).map fun r => (r.1, r.2.1, m :: r.2.2)
    else
      (tcpTxRetransmitOne env c { m with timestamp := now }).bind fun out =>
        if out.ret ≠ 0 ∨ tcpRetransmitBatch ≤ count + 1 then
          some (out.conn, [out], out.seg :: txq)
        else
          (tcpTxRetransmit now (count + 1) envs out.conn txq).map fun r =>
            (r.1, out :: r.2.1, out.seg :: r.2.2)
  | _, _, c, txq => some (c, [], txq)

/-! ## Segments of the transmit queue -/

def ctlLen (flags : Flags) : Nat := if flags.syn || flags.fin then 1 else 0

/-- A buffer of `txq` holds a segment: the options and the payload follow the header, the numbers
cover the payload and the control flag, and a control segment has no payload. -/
structure IsSeg (mtu : Nat) (m : TxMbuf) (opts payload : List UInt8) : Prop where
  off_ge : 5 ≤ m.hdr.off
  off_lt : m.hdr.off < 2 ^ 4
  opts_length : opts.length = 4 * (m.hdr.off - 5)
  hdr_flags : m.hdr.flags = m.flags
  body_eq : m.body = opts ++ payload
  room : m.transportOff + tcpHdrLen ≤ m.mem.length
  segEnd_eq : m.segEnd = m.segSeq + BitVec.ofNat 32 (payload.length + ctlLen m.flags)
  ctl : ctlLen m.flags = 1 → payload = []
  fits : opts.length + payload.length ≤ mtu
  short : tcpHdrLen + opts.length + payload.length < 2 ^ 16

def maxSeq (a b : Seq) : Seq := if wrapsLt a b then b else a

def PartiallyAcked (una : Seq) (m : TxMbuf) : Prop := wrapsLt m.segSeq una ∧ ¬ wrapsLte m.segEnd una

instance (una : Seq) (m : TxMbuf) : Decidable (PartiallyAcked una m) :=
  inferInstanceAs (Decidable (_ ∧ _))

def acked (una : Seq) (m : TxMbuf) : Nat := (maxSeq m.segSeq una - m.segSeq).toNat

theorem acked_of_not_lt {una : Seq} {m : TxMbuf} (hlt : ¬ wrapsLt m.segSeq una) : acked una m = 0 := by
  unfold acked maxSeq
  rw [if_neg hlt, BitVec.sub_self, BitVec.toNat_zero]

theorem acked_of_lt {una : Seq} {m : TxMbuf} (hlt : wrapsLt m.segSeq una) :
    acked una m = (una - m.segSeq).toNat := by
  unfold acked maxSeq
  rw [if_pos hlt]

section Segment

variable {mtu : Nat} {m : TxMbuf} {opts payload : List UInt8}

theorem ctlLen_le (flags : Flags) : ctlLen flags ≤ 1 := by
  unfold ctlLen
  split
  · exact Nat.le_refl 1
  · exact Nat.zero_le 1

theorem IsSeg.l4len_toNat (h : IsSeg mtu m opts payload) : (l4len m).toNat = payload.length := by
  have hshort := h.short
  have hsub : m.segEnd - m.segSeq = BitVec.ofNat 32 (payload.length + ctlLen m.flags) := by
    rw [h.segEnd_eq, BitVec.add_comm, BitVec.add_sub_cancel]
  have hctl := ctlLen_le m.flags
  have hone : (if (m.flags.syn || m.flags.fin) = true then (1 : BitVec 16) else 0) =
      BitVec.ofNat 16 (ctlLen m.flags) := by
    unfold ctlLen
    split <;> rfl
  unfold l4len
  rw [hsub, hone]
  simp only [tcpHdrLen] at hshort
  simp only [BitVec.toNat_sub, BitVec.toNat_setWidth, BitVec.toNat_ofNat]
  omega

theorem IsSeg.acked_lt (h : IsSeg mtu m opts payload) {una : Seq} (hpart : PartiallyAcked una m) :
    0 < acked una m ∧ acked una m < payload.length := by
  obtain ⟨hlt, hlte⟩ := hpart
  have hshort := h.short
  have hctl := ctlLen_le m.flags
  have hend := h.segEnd_eq
  simp only [tcpHdrLen] at hshort
  rw [acked_of_lt hlt]
  have hin : 0 < (una - m.segSeq).toNat ∧
      (una - m.segSeq).toNat < payload.length + ctlLen m.flags := by
    unfold wrapsLt at hlt
    unfold wrapsLte at hlte
    rw [hend] at hlte
    rw [BitVec.toInt_eq_toNat_cond] at hlt hlte
    simp only [BitVec.toNat_sub, BitVec.toNat_add, BitVec.toNat_ofNat] at hlt hlte ⊢
    have := m.segSeq.isLt
    have := una.isLt
    split at hlt <;> split at hlte <;> omega
  refine ⟨hin.1, ?_⟩
  rcases Nat.eq_zero_or_pos (ctlLen m.flags) with hzero | hpos
  · omega
  · -- a control segment has one number only
    have hnil := h.ctl (by omega)
    subst hnil
    simp only [length_nil] at hin
    omega

theorem IsSeg.acked_le (h : IsSeg mtu m opts payload) {una : Seq} (hlte : ¬ wrapsLte m.segEnd una) :
    acked una m ≤ payload.length := by
  by_cases hlt : wrapsLt m.segSeq una
  · exact Nat.le_of_lt (h.acked_lt ⟨hlt, hlte⟩).2
  · rw [acked_of_not_lt hlt]
    exact Nat.zero_le _

/-! ## The two branches -/

/-- A buffer stripped to the options and the payload of `m`. -/
structure Stripped (n m : TxMbuf) (opts payload : List UInt8) : Prop where
  segSeq_eq : n.segSeq = m.segSeq
  segEnd_eq : n.segEnd = m.segEnd
  flags_eq : n.flags = m.flags
  headroom : tcpHdrLen ≤ n.data
  data_le : n.data ≤ n.mem.length
  rest_eq : n.mem.drop n.data = opts ++ payload

theorem IsSeg.copyMbuf_spec (h : IsSeg mtu m opts payload) {env : Env} (hmtu : env.mtu = mtu)
    (halloc : env.allocOk = true) :
    ∃ n, copyMbuf env m = some (some n) ∧ Stripped n m opts payload := by
  have hlen : 4 * optsLen m + (l4len m).toNat = (opts ++ payload).length := by
    rw [h.l4len_toNat, length_append, h.opts_length]
    rfl
  have hfits : ¬ env.mtu < (opts ++ payload).length := by
    have hle := h.fits
    rw [length_append]
    omega
  have hbody : (m.mem.drop (m.transportOff + tcpHdrLen)).take (opts ++ payload).length =
      opts ++ payload := by
    rw [show m.mem.drop (m.transportOff + tcpHdrLen) = opts ++ payload from h.body_eq, take_length]
  unfold copyMbuf
  rw [if_pos halloc]
  simp only [hlen]
  rw [if_neg hfits]
  refine ⟨_, rfl, rfl, rfl, rfl, ?_, ?_, ?_⟩
  · exact (by decide : tcpHdrLen ≤ mbufDefaultHeadroom)
  · show mbufDefaultHeadroom ≤ (List.replicate mbufDefaultHeadroom (0 : UInt8) ++ _).length
    rw [length_append, length_replicate]
    exact Nat.le_add_right _ _
  · show (List.replicate mbufDefaultHeadroom (0 : UInt8) ++ _).drop mbufDefaultHeadroom = _
    rw [hbody, drop_left' (length_replicate ..)]

theorem IsSeg.stripMbuf_eq (h : IsSeg mtu m opts payload) :
    stripMbuf m = some { m with data := m.transportOff + tcpHdrLen, ref := 2 } := by
  have hroom : ¬ m.mem.length < m.transportOff + tcpHdrLen := Nat.not_lt.2 h.room
  unfold stripMbuf mbufReset
  rw [if_neg hroom]
  rfl

theorem IsSeg.stripped (h : IsSeg mtu m opts payload) :
    Stripped { m with data := m.transportOff + tcpHdrLen, ref := 2 } m opts payload :=
  ⟨rfl, rfl, rfl, Nat.le_add_left _ _, h.room, h.body_eq⟩

theorem IsSeg.frame (h : IsSeg mtu m opts payload) (data ref timestamp : Nat) :
    IsSeg mtu { m with data := data, ref := ref, timestamp := timestamp } opts payload :=
  ⟨h.off_ge, h.off_lt, h.opts_length, h.hdr_flags, h.body_eq, h.room, h.segEnd_eq, h.ctl, h.fits,
    h.short⟩

/-! ## The packet -/

/-- The header that is pushed on the bytes from `seq` on. -/
def pushedHdr (env : Env) (c : TxConn) (seq : Seq) (flags : Flags) (optsLen : Nat)
    (l4len : BitVec 16) : TcpHdr where
  sport := c.laddrPort
  dport := c.raddrPort
  seq := seq
  ack := c.rcvNxt
  off := (5 + optsLen) % 2 ^ 4
  flags := flags
  win := (c.rcvWnd >>> c.rcvWscale).setWidth 16
  sum := tcpHdrChksum env.directpath c.laddrIp c.raddrIp ((5 + optsLen) * 4 + l4len.toNat)

/-- A packet made of the buffer `n` by cutting off what is acknowledged. -/
structure Pushed (env : Env) (c : TxConn) (n p : TxMbuf) (optsLen : Nat) (l4len : BitVec 16)
    (rest : List UInt8) : Prop where
  hdr_eq : p.hdr = pushedHdr env c (maxSeq n.segSeq env.una) n.flags optsLen l4len
  body_eq : p.body = rest
  room : p.transportOff + tcpHdrLen ≤ p.mem.length
  segSeq_eq : p.segSeq = maxSeq n.segSeq env.una
  segEnd_eq : p.segEnd = n.segEnd
  flags_eq : p.flags = n.flags
  ref_eq : p.ref = n.ref

theorem cutAcked_spec {n : TxMbuf} {una : Seq} (hdata : n.data ≤ n.mem.length)
    (hle : n.data + acked una n ≤ n.mem.length) :
    cutAcked una n = some { n with data := n.data + acked una n, segSeq := maxSeq n.segSeq una } := by
  unfold cutAcked
  by_cases hlt : wrapsLt n.segSeq una
  · rw [acked_of_lt hlt] at hle ⊢
    unfold mbufPull maxSeq
    rw [if_pos hlt, if_pos hlt, if_neg (by omega)]
    rfl
  · rw [acked_of_not_lt hlt]
    unfold maxSeq
    rw [if_neg hlt, if_neg hlt]
    rfl

theorem Stripped.resend_spec {n : TxMbuf} (hn : Stripped n m opts payload) {env : Env} (c : TxConn)
    (optsLen : Nat) (l4len : BitVec 16) (hlte : ¬ wrapsLte m.segEnd env.una)
    (hle : acked env.una m ≤ payload.length) :
    ∃ p, resend env c n optsLen l4len = some (c.noteAck, p, env.txRet == 0, env.txRet) ∧
      Pushed env c n p optsLen l4len ((opts ++ payload).drop (acked env.una m)) := by
  have hacked : acked env.una n = acked env.una m := by
    unfold acked
    rw [hn.segSeq_eq]
  have hlen : n.mem.length - n.data = opts.length + payload.length := by
    rw [← length_drop, hn.rest_eq, length_append]
  have hdata := hn.data_le
  have hfit : n.data + acked env.una n ≤ n.mem.length := by omega
  have hhead : ¬ n.data + acked env.una n < tcpHdrLen := by
    have hge := hn.headroom
    omega
  have hback : n.data + acked env.una n - tcpHdrLen + tcpHdrLen = n.data + acked env.una n :=
    Nat.sub_add_cancel (Nat.not_lt.1 hhead)
  unfold resend
  rw [hn.segEnd_eq, if_neg hlte, cutAcked_spec hdata hfit, bind_some]
  unfold tcpPushTcphdr
  rw [if_neg hhead]
  refine ⟨_, rfl, rfl, ?_, ?_, rfl, rfl, rfl, rfl⟩
  · show n.mem.drop (n.data + acked env.una n - tcpHdrLen + tcpHdrLen) = _
    rw [hback, ← drop_drop, hn.rest_eq, hacked]
  · show n.data + acked env.una n - tcpHdrLen + tcpHdrLen ≤ n.mem.length
    rw [hback]
    exact hfit

theorem Stripped.resend_acked {n : TxMbuf} (hn : Stripped n m opts payload) {env : Env} (c : TxConn)
    (optsLen : Nat) (l4len : BitVec 16) (hlte : wrapsLte m.segEnd env.una) :
    resend env c n optsLen l4len = some (c, n, false, 0) := by
  unfold resend
  rw [hn.segEnd_eq, if_pos hlte]

/-- What a retransmitted packet has to be: it starts at the later of `seg_seq` and `snd_una`, has
the rest of the payload, and its checksum is seeded with the length that is sent. -/
structure Correct (env : Env) (c : TxConn) (m : TxMbuf) (opts payload : List UInt8) (p : TxMbuf) :
    Prop where
  seq_eq : p.hdr.seq = maxSeq m.segSeq env.una
  body_eq : p.body = opts ++ payload.drop (acked env.una m)
  flags_eq : p.hdr.flags = m.hdr.flags
  off_eq : p.hdr.off = m.hdr.off
  sum_eq : p.hdr.sum = tcpHdrChksum env.directpath c.laddrIp c.raddrIp
    (tcpHdrLen + opts.length + (payload.drop (acked env.una m)).length)

/-- The calls whose packet is right: nothing of the segment is acknowledged, or the device
computes the whole checksum and no options stand before the bytes that are cut. -/
def Seeded (env : Env) (m : TxMbuf) (opts : List UInt8) : Prop :=
  ¬ PartiallyAcked env.una m ∨ env.directpath = true ∧ opts = []

theorem IsSeg.hdr_length (h : IsSeg mtu m opts payload) :
    (5 + optsLen m) * 4 + (l4len m).toNat = tcpHdrLen + opts.length + payload.length := by
  rw [h.l4len_toNat, h.opts_length]
  unfold optsLen tcpHdrLen
  omega

theorem IsSeg.off_eq (h : IsSeg mtu m opts payload) : (5 + optsLen m) % 2 ^ 4 = m.hdr.off := by
  have hge := h.off_ge
  have hlt := h.off_lt
  unfold optsLen
  rw [Nat.add_sub_cancel' hge, Nat.mod_eq_of_lt hlt]

theorem Seeded.drop_append {env : Env} (hok : Seeded env m opts)
    (hlte : ¬ wrapsLte m.segEnd env.una) :
    (opts ++ payload).drop (acked env.una m) = opts ++ payload.drop (acked env.una m) := by
  rcases hok with hpart | ⟨-, hopts⟩
  · have hlt : ¬ wrapsLt m.segSeq env.una := fun hlt => hpart ⟨hlt, hlte⟩
    rw [acked_of_not_lt hlt]
    rfl
  · subst hopts
    rfl

section Packet

variable {env : Env} {c : TxConn} {n p : TxMbuf}

theorem Pushed.correct (h : IsSeg mtu m opts payload) (hn : Stripped n m opts payload)
    (hp : Pushed env c n p (optsLen m) (l4len m) ((opts ++ payload).drop (acked env.una m)))
    (hlte : ¬ wrapsLte m.segEnd env.una) (hok : Seeded env m opts) :
    Correct env c m opts payload p := by
  refine ⟨?_, ?_, ?_, ?_, ?_⟩
  · rw [hp.hdr_eq, ← hn.segSeq_eq]
    rfl
  · rw [hp.body_eq, hok.drop_append hlte]
  · rw [hp.hdr_eq, h.hdr_flags, ← hn.flags_eq]
    rfl
  · rw [hp.hdr_eq]
    exact h.off_eq
  · rw [hp.hdr_eq]
    show tcpHdrChksum _ _ _ ((5 + optsLen m) * 4 + (l4len m).toNat) = _
    rw [h.hdr_length]
    rcases hok with hpart | ⟨hdirect, -⟩
    · have hlt : ¬ wrapsLt m.segSeq env.una := fun hlt => hpart ⟨hlt, hlte⟩
      rw [acked_of_not_lt hlt]
      rfl
    · unfold tcpHdrChksum
      rw [if_pos hdirect, if_pos hdirect]

/-- With the checksum in software a cut packet is seeded with a length it does not have. -/
theorem Pushed.not_correct (h : IsSeg mtu m opts payload)
    (hp : Pushed env c n p (optsLen m) (l4len m) ((opts ++ payload).drop (acked env.una m)))
    (hpart : PartiallyAcked env.una m) (hdirect : env.directpath = false) :
    ¬ Correct env c m opts payload p := by
  intro hcorrect
  obtain ⟨hpos, hlt⟩ := h.acked_lt hpart
  have hshort := h.short
  have hsum := hcorrect.sum_eq
  rw [hp.hdr_eq] at hsum
  change tcpHdrChksum _ _ _ ((5 + optsLen m) * 4 + (l4len m).toNat) = _ at hsum
  rw [h.hdr_length, length_drop] at hsum
  unfold tcpHdrChksum at hsum
  rw [hdirect] at hsum
  have hlen := Net.ipv4PhdrCksum_inj (by unfold tcpHdrLen; omega) (by unfold tcpHdrLen; omega)
    (by omega) (by omega) hsum
  omega

theorem Pushed.isSeg (h : IsSeg mtu m opts payload) (hn : Stripped n m opts payload)
    (hp : Pushed env c n p (optsLen m) (l4len m) ((opts ++ payload).drop (acked env.una m)))
    (hlte : ¬ wrapsLte m.segEnd env.una) (hok : ¬ PartiallyAcked env.una m ∨ opts = []) :
    IsSeg mtu p opts (payload.drop (acked env.una m)) := by
  have hle := h.acked_le hlte
  have hoff : p.hdr.off = m.hdr.off := by
    rw [hp.hdr_eq]
    exact h.off_eq
  have hflags : p.flags = m.flags := by rw [hp.flags_eq, hn.flags_eq]
  have hbody : (opts ++ payload).drop (acked env.una m) = opts ++ payload.drop (acked env.una m) := by
    rcases hok with hpart | hopts
    · exact Seeded.drop_append (.inl hpart) hlte
    · subst hopts
      rfl
  have hfits := h.fits
  have hshort := h.short
  refine ⟨?_, ?_, ?_, ?_, ?_, hp.room, ?_, ?_, ?_, ?_⟩
  · rw [hoff]
    exact h.off_ge
  · rw [hoff]
    exact h.off_lt
  · rw [hoff]
    exact h.opts_length
  · rw [hp.hdr_eq, hp.flags_eq]
    rfl
  · rw [hp.body_eq, hbody]
  · -- the numbers still cover what is left
    rw [hp.segEnd_eq, hn.segEnd_eq, h.segEnd_eq, hp.segSeq_eq, hn.segSeq_eq, hflags, length_drop]
    have hback : maxSeq m.segSeq env.una = m.segSeq + BitVec.ofNat 32 (acked env.una m) := by
      unfold acked
      rw [BitVec.ofNat_toNat, BitVec.setWidth_eq, BitVec.add_comm, BitVec.sub_add_cancel]
    rw [hback, BitVec.add_assoc, ← BitVec.ofNat_add]
    congr 2
    omega
  · intro hctl
    rw [hflags] at hctl
    rw [h.ctl hctl, drop_nil]
  · rw [length_drop]
    omega
  · rw [length_drop]
    omega

end Packet

/-! ## One call -/

/-- The calls that send nothing: everything is acknowledged, there is no buffer for the copy, or
`net_tx_ip` fails, which it does when it has no memory for the neighbour. -/
def Silent (env : Env) (m : TxMbuf) : Prop :=
  wrapsLte m.segEnd env.una ∨ (m.ref ≠ 1 ∧ env.allocOk = false) ∨ env.txRet ≠ 0

structure OneSpec (env : Env) (c : TxConn) (m : TxMbuf) (opts payload : List UInt8) (out : Out) :
    Prop where
  ref_eq : out.completed.ref = m.ref
  silent_iff : out.sent = none ↔ Silent env m
  packet : ∀ p, out.sent = some p → ¬ wrapsLte m.segEnd env.una ∧ ∃ n, Stripped n m opts payload ∧
    Pushed env c n p (optsLen m) (l4len m) ((opts ++ payload).drop (acked env.una m))
  isSeg : ¬ PartiallyAcked env.una m ∨ opts = [] →
    ∃ rest, IsSeg env.mtu out.seg opts rest ∧ rest <:+ payload

section Call

variable {env : Env}

theorem IsSeg.copy_spec (h : IsSeg env.mtu m opts payload) (c : TxConn) (href : m.ref ≠ 1) :
    ∃ out, tcpTxRetransmitOne env c m = some out ∧ OneSpec env c m opts payload out := by
  unfold tcpTxRetransmitOne
  rw [if_pos href]
  cases halloc : env.allocOk with
  | false =>
    have hcopy : copyMbuf env m = some none := by
      unfold copyMbuf
      rw [halloc]
      rfl
    rw [hcopy]
    refine ⟨_, rfl, rfl, iff_of_true rfl (.inr (.inl ⟨href, halloc⟩)), ?_,
      fun _ => ⟨payload, h, suffix_refl _⟩⟩
    intro p hp
    cases hp
  | true =>
    obtain ⟨n, hcopy, hn⟩ := h.copyMbuf_spec rfl halloc
    rw [hcopy]
    by_cases hlte : wrapsLte m.segEnd env.una
    · refine ⟨Out.ofCopy m (c, n, false, 0), ?_, rfl, iff_of_true rfl (.inl hlte), ?_,
        fun _ => ⟨payload, h, suffix_refl _⟩⟩
      · rw [bind_some]
        simp only [hn.resend_acked c _ _ hlte, map_some]
      · intro p hp
        cases hp
    · obtain ⟨p, hsend, hp⟩ := hn.resend_spec c (optsLen m) (l4len m) hlte (h.acked_le hlte)
      refine ⟨Out.ofCopy m (c.noteAck, p, env.txRet == 0, env.txRet), ?_, rfl, ?_, ?_,
        fun _ => ⟨payload, h, suffix_refl _⟩⟩
      · rw [bind_some]
        simp only [hsend, map_some]
      · simp [Out.ofCopy, Silent, hlte, halloc]
      · intro q hq
        obtain ⟨-, hq⟩ := ite_none_right_eq_some.1 hq
        cases hq
        exact ⟨hlte, n, hn, hp⟩

theorem IsSeg.own_spec (h : IsSeg env.mtu m opts payload) (c : TxConn) (href : m.ref = 1) :
    ∃ out, tcpTxRetransmitOne env c m = some out ∧ OneSpec env c m opts payload out := by
  have hn := h.stripped
  unfold tcpTxRetransmitOne
  rw [if_neg (not_not.2 href), h.stripMbuf_eq, bind_some]
  by_cases hlte : wrapsLte m.segEnd env.una
  · rw [hn.resend_acked c _ _ hlte]
    refine ⟨_, rfl, href.symm, iff_of_true rfl (.inl hlte), ?_, ?_⟩
    · intro p hp
      cases hp
    · intro _
      exact ⟨payload, h.frame _ _ _, suffix_refl _⟩
  · obtain ⟨p, hsend, hp⟩ := hn.resend_spec c (optsLen m) (l4len m) hlte (h.acked_le hlte)
    have hpref : p.ref = 2 := hp.ref_eq
    rw [hsend]
    refine ⟨_, rfl, ?_, ?_, ?_, ?_⟩
    · by_cases hret : env.txRet = 0
      · simp [Out.completed, Out.ofOwn, hret, hpref, href]
      · simp [Out.completed, Out.ofOwn, hret, hpref, href]
    · simp [Out.ofOwn, Silent, hlte, href]
    · intro q hq
      obtain ⟨-, hq⟩ := ite_none_right_eq_some.1 hq
      cases hq
      exact ⟨hlte, _, hn, hp⟩
    · intro hok
      have hseg := Pushed.isSeg h hn hp hlte hok
      refine ⟨_, ?_, drop_suffix (acked env.una m) payload⟩
      unfold Out.ofOwn
      dsimp only
      split
      · exact hseg
      · exact hseg.frame _ _ _

theorem IsSeg.tcpTxRetransmitOne_spec (h : IsSeg env.mtu m opts payload) (c : TxConn) :
    ∃ out, tcpTxRetransmitOne env c m = some out ∧ OneSpec env c m opts payload out := by
  by_cases href : m.ref = 1
  · exact h.own_spec c href
  · exact h.copy_spec c href

end Call

end Segment

/-- Every call on a segment returns, and sends nothing exactly if there is nothing to send or no
memory. A packet that is sent is correct if no acknowledgement lies inside the segment or the
device computes the checksum. -/
theorem retransmitted_packet_correct (env : Env) (c : TxConn) {m : TxMbuf} {opts payload : List UInt8}
    (hseg : IsSeg env.mtu m opts payload) :
    ∃ out, tcpTxRetransmitOne env c m = some out ∧ out.completed.ref = m.ref ∧
      (out.sent = none ↔ Silent env m) ∧
      ∀ p, out.sent = some p → (Seeded env m opts → Correct env c m opts payload p) ∧
        (PartiallyAcked env.una m ∧ env.directpath = false → ¬ Correct env c m opts payload p) := by
  obtain ⟨out, hout, hspec⟩ := hseg.tcpTxRetransmitOne_spec c
  refine ⟨out, hout, hspec.ref_eq, hspec.silent_iff, fun p hp => ?_⟩
  obtain ⟨hlte, n, hn, hpushed⟩ := hspec.packet p hp
  refine ⟨fun hok => Pushed.correct hseg hn hpushed hlte hok, ?_⟩
  rintro ⟨hpart, hdirect⟩
  exact Pushed.not_correct hseg hpushed hpart hdirect

/-- Four bytes with the header in front of them, sent once and released. -/
def fourBytes : TxMbuf where
  mem := List.replicate 20 0 ++ [1, 2, 3, 4]
  data := 0
  transportOff := 0
  hdr :=
    { sport := 80, dport := 90, seq := 1000, ack := 1, off := 5, flags := {}, win := 0, sum := 0 }
  segSeq := 1000
  segEnd := 1004
  flags := {}
  ref := 1
  timestamp := 0

theorem fourBytes_isSeg : IsSeg 1500 fourBytes [] [1, 2, 3, 4] := by
  refine ⟨?_, ?_, rfl, rfl, rfl, ?_, rfl, ?_, ?_, ?_⟩ <;> decide

def onePeer : TxConn where
  laddrIp := 0x0A000001
  laddrPort := 80
  raddrIp := 0x0A000002
  raddrPort := 90
  rcvNxt := 1
  rcvWnd := 1000
  rcvWscale := 0
  txLastAck := 1
  txLastWin := 1000

def softEnv (una : Seq) : Env where
  directpath := false
  mtu := 1500
  una := una
  allocOk := true
  txRet := 0

theorem retransmitted_packet_fourBytes :
    ∃ out, tcpTxRetransmitOne (softEnv 1000) onePeer fourBytes = some out ∧ out.completed.ref = 1 ∧
      ∃ p, out.sent = some p ∧ Correct (softEnv 1000) onePeer fourBytes [] [1, 2, 3, 4] p := by
  obtain ⟨out, hout, href, hsilent, hp⟩ :=
    retransmitted_packet_correct (softEnv 1000) onePeer fourBytes_isSeg
  refine ⟨out, hout, href, ?_⟩
  cases hsent : out.sent with
  | none => exact absurd (hsilent.1 hsent) (by unfold Silent; decide)
  | some p => exact ⟨p, rfl, (hp p hsent).1 (.inl (by decide))⟩

/-- Two of four bytes are acknowledged: the packet has two bytes of payload and a checksum seeded
with the length of four. -/
theorem cut_packet_misseeded : IsSeg (softEnv 1002).mtu fourBytes [] [1, 2, 3, 4] ∧
      ∃ out p, tcpTxRetransmitOne (softEnv 1002) onePeer fourBytes = some out ∧ out.sent = some p ∧
        p.body = [3, 4] ∧
        p.hdr.sum = tcpHdrChksum false onePeer.laddrIp onePeer.raddrIp 24 ∧
        ¬ Correct (softEnv 1002) onePeer fourBytes [] [1, 2, 3, 4] p := by
  refine ⟨fourBytes_isSeg, _, _, rfl, rfl, rfl, rfl, fun hcorrect => ?_⟩
  exact absurd hcorrect.sum_eq (by decide)

/-! ## The loop -/

/-- The segments the connection queues: only a segment without payload has options. -/
def IsQueued (mtu : Nat) (m : TxMbuf) : Prop :=
  ∃ opts payload, IsSeg mtu m opts payload ∧ (payload = [] ∨ opts = [])

theorem IsQueued.tcpTxRetransmitOne_spec {env : Env} {m : TxMbuf} (c : TxConn)
    (hm : IsQueued env.mtu m) :
    ∃ out, tcpTxRetransmitOne env c m = some out ∧ IsQueued env.mtu out.seg := by
  obtain ⟨opts, payload, hseg, hopts⟩ := hm
  obtain ⟨out, hout, hspec⟩ := hseg.tcpTxRetransmitOne_spec c
  have hok : ¬ PartiallyAcked env.una m ∨ opts = [] := by
    rcases hopts with hnil | hopts
    · left
      intro hpart
      have hlt := (hseg.acked_lt hpart).2
      rw [hnil] at hlt
      exact Nat.not_lt_zero _ hlt
    · exact .inr hopts
  obtain ⟨rest, hrest, hsuffix⟩ := hspec.isSeg hok
  refine ⟨out, hout, opts, rest, hrest, ?_⟩
  rcases hopts with hnil | hopts
  · rw [hnil] at hsuffix
    exact .inl (suffix_nil.1 hsuffix)
  · exact .inr hopts

/-- The loop runs into no `BUG_ON`, leaves the queue with as many segments as it had and sends no
more than a batch, whatever is acknowledged while it runs. -/
theorem tcpTxRetransmit_spec {mtu now : Nat} (txq : List TxMbuf) :
    ∀ (count : Nat) (envs : List (Seq × Env)) (c : TxConn), (∀ e ∈ envs, e.2.mtu = mtu) →
      (∀ m ∈ txq, IsQueued mtu m) → count < tcpRetransmitBatch →
      ∃ r, tcpTxRetransmit now count envs c txq = some r ∧ (∀ m ∈ r.2.2, IsQueued mtu m) ∧
        r.2.2.length = txq.length ∧ count + r.2.1.length ≤ tcpRetransmitBatch := by
  induction txq with
  | nil =>
    intro count envs c _ hq hcount
    cases envs with
    | nil | cons _ _ => exact ⟨_, rfl, hq, rfl, hcount.le⟩
  | cons m txq ih =>
    intro count envs c henv hq hcount
    cases envs with
    | nil => exact ⟨_, rfl, hq, rfl, hcount.le⟩
    | cons e envs =>
      obtain ⟨seen, env⟩ := e
      obtain ⟨hm, htxq⟩ := forall_mem_cons.1 hq
      obtain ⟨hmtu, henvs⟩ := forall_mem_cons.1 henv
      simp only [tcpTxRetransmit]
      split
      · exact ⟨_, rfl, hq, rfl, hcount.le⟩
      split
      · obtain ⟨r, hr, hmem, hlen, hsent⟩ := ih count envs c henvs htxq hcount
        rw [hr]
        exact ⟨_, rfl, forall_mem_cons.2 ⟨hm, hmem⟩, congrArg (· + 1) hlen, hsent⟩
      · have hnow : IsQueued env.mtu { m with timestamp := now } := by
          obtain ⟨opts, payload, hseg, hopts⟩ := hm
          rw [hmtu]
          exact ⟨opts, payload, hseg.frame _ _ _, hopts⟩
        obtain ⟨out, hout, hseg⟩ := hnow.tcpTxRetransmitOne_spec c
        rw [hmtu] at hseg
        rw [hout, bind_some]
        split
        · exact ⟨_, rfl, forall_mem_cons.2 ⟨hseg, htxq⟩, rfl, hcount⟩
        · rename_i hmore
          obtain ⟨r, hr, hmem, hlen, hsent⟩ :=
            ih (count + 1) envs out.conn henvs htxq (not_le.1 (not_or.1 hmore).2)
          rw [hr]
          refine ⟨_, rfl, forall_mem_cons.2 ⟨hseg, hmem⟩, congrArg (· + 1) hlen, ?_⟩
          rwa [Nat.add_right_comm] at hsent

theorem tcpTxRetransmit_fourBytes :
    ∃ r, tcpTxRetransmit 1000000 0 [(1000, softEnv 1002)] onePeer [fourBytes] = some r ∧
      (∀ m ∈ r.2.2, IsQueued 1500 m) ∧ r.2.2.length = 1 ∧ 0 + r.2.1.length ≤ 16 :=
  tcpTxRetransmit_spec _ 0 _ _ (forall_mem_singleton.2 rfl)
    (forall_mem_singleton.2 ⟨_, _, fourBytes_isSeg, .inr rfl⟩) (by decide)

end Svalinn.Tcp.Retransmit
