/-
  Tcp/Refusal.lean --- a connection to a port nobody listens on.

  Source: `runtime/net/tcp_in.c` (`tcp_rx_closed`, the SYN_SENT branch of `__tcp_rx_conn`),
  `runtime/net/tcp_out.c` (`tcp_push_options`, `tcp_tx_ctl`, `tcp_tx_raw_rst`,
  `tcp_tx_raw_rst_ack`) and `runtime/net/tcp.c` (`__tcp_dial`).

  The peer answers a SYN for an unknown port with a reset that acknowledges the length of the
  segment.  It takes the length from the length fields of the headers and does not count the
  SYN itself, so the reset of a SYN without text acknowledges `iss`, and SYN_SENT takes such a
  segment for an old one.
-/
import Svalinn.Tcp.Handshake

set_option autoImplicit false

namespace Svalinn.Tcp.Refusal

open Svalinn.Lib

/-! ## The two hosts -/

/-- `opts->opt_en` -/
structure OptEn where
  mss : Bool
  wscale : Bool
  deriving DecidableEq

/-- `tcp_push_options`: the length in words. -/
def tcpPushOptions (opts : OptEn) : Nat :=
  (if opts.wscale then 1 else 0) + (if opts.mss then 1 else 0)

/-- What `tcp_rx_closed` reads of a packet. -/
structure Packet where
  ipLen : BitVec 16
  off : BitVec 4
  seq : Seq
  ack : Seq
  flags : Flags
  deriving DecidableEq

def synPacket (seq : Seq) (opts : OptEn) (text : Nat) : Packet where
  ipLen := BitVec.ofNat 16 (20 + 4 * (5 + tcpPushOptions opts) + text)
  off := BitVec.ofNat 4 (5 + tcpPushOptions opts)
  seq := seq
  ack := 0
  flags := { syn := true, ack := false }

/-- The SYN of `__tcp_dial`: both options and, as in every segment of `tcp_tx_ctl`, no text. -/
def dialSyn (iss : Seq) : Packet := synPacket iss ⟨true, true⟩ 0

/-- `ntoh16(iphdr->len) - sizeof(*iphdr) - tcphdr->off * 4` in 32 bits. -/
def seenLen (p : Packet) : Seq := p.ipLen.setWidth 32 - 20 - p.off.setWidth 32 * 4

/-- `tcp_rx_closed`: the reset that is sent, if any. -/
def tcpRxClosed (p : Packet) : Option Segment :=
  if p.flags.rst then none
  else if p.flags.ack then
    some
      { seq := p.ack
        flags := { rst := true, ack := false }
        data := []
        length_lt := length_nil_lt }
  else
    some
      { seq := 0
        ack := p.seq + seenLen p
        flags := { rst := true, ack := true }
        data := []
        length_lt := length_nil_lt }

/-- The connection once `__tcp_dial` has sent its SYN and waits. -/
def dialed (iss : Seq) (rcvMss : Nat) : Opening :=
  openConnection (dialInit iss rcvMss) true true true

def answered (iss : Seq) (rcvMss : Nat) (p : Packet) : Opening :=
  match tcpRxClosed p with
  | none => dialed iss rcvMss
  | some reset =>
    rxSynSent (dialed iss rcvMss) ⟨reset, {}, (dialed iss rcvMss).conn.sndNxt⟩ true true

/-- The dial fails with `ECONNRESET`. -/
def Refused (o : Opening) : Prop :=
  o.phase = .running ∧ o.conn.state = .closed ∧ o.conn.txClosed = true ∧ o.conn.err = econnreset

instance (o : Opening) : Decidable (Refused o) := inferInstanceAs (Decidable (_ ∧ _))

/-! ## The reset in SYN_SENT -/

/-- Of the numbers behind `iss` only `iss + 1` is between `iss` and `snd_nxt`. -/
theorem acks_syn_iff (iss len : Seq) :
    ¬ (wrapsLte (iss + len) iss ∨ wrapsGt (iss + len) (iss + 1)) ↔ len = 1 := by
  have hleft : iss + len - iss = len := by rw [BitVec.add_comm, BitVec.add_sub_cancel]
  have hright : iss + 1 - (iss + len) = 1 - len := by bv_omega
  unfold wrapsLte wrapsGt
  rw [hleft, hright, not_or, BitVec.toInt_eq_toNat_cond, BitVec.toInt_eq_toNat_cond,
    BitVec.toNat_sub]
  have hlt := len.isLt
  constructor
  · rintro ⟨hpos, hneg⟩
    refine BitVec.eq_of_toNat_eq ?_
    show len.toNat = 1
    rw [show (1 : Seq).toNat = 1 from rfl] at hneg
    split at hpos <;> split at hneg <;> omega
  · rintro rfl
    decide

/-- SYN_SENT accepts the reset exactly if the peer has counted one number for the SYN; otherwise
the segment changes nothing. -/
theorem answered_syn (iss : Seq) (rcvMss : Nat) {p : Packet} (hseq : p.seq = iss)
    (hrst : p.flags.rst = false) (hack : p.flags.ack = false) :
    answered iss rcvMss p =
      if seenLen p = 1 then
        { dialed iss rcvMss with
          phase := .running
          conn := tcpConnFail (dialed iss rcvMss).conn econnreset }
      else dialed iss rcvMss := by
  have hreset : tcpRxClosed p = some
      { seq := 0
        ack := iss + seenLen p
        flags := { rst := true, ack := true }
        data := []
        length_lt := length_nil_lt } := by
    rw [tcpRxClosed, if_neg (by rw [hrst]; decide), if_neg (by rw [hack]; decide), hseq]
  rw [answered, hreset]
  simp only
  have hnxt : (dialed iss rcvMss).conn.sndNxt = iss + 1 := rfl
  have hiss : (dialed iss rcvMss).iss = iss := rfl
  have huna : (dialed iss rcvMss).conn.sndUna = iss := rfl
  unfold rxSynSent
  simp only [hnxt, hiss, huna, List.length_nil, Nat.not_lt_zero, if_false, gt_iff_lt]
  by_cases hlen : seenLen p = 1
  · have hold := (acks_syn_iff iss (seenLen p)).2 hlen
    rw [if_pos hlen, if_neg (fun h => hold h.2), hlen, if_pos]
    refine ⟨trivial, trivial, ?_, ?_⟩
    · have hsub : iss - (iss + 1) = -1 := by bv_omega
      unfold wrapsLte
      rw [hsub]
      decide
    · unfold wrapsLte
      rw [BitVec.sub_self]
      decide
  · have hold := Decidable.not_not.1 (mt (acks_syn_iff iss (seenLen p)).1 hlen)
    rw [if_neg hlen, if_pos ⟨trivial, hold⟩]

theorem seenLen_synPacket (iss : Seq) (opts : OptEn) : seenLen (synPacket iss opts 0) = 0 := by
  obtain ⟨mss, wscale⟩ := opts
  simp only [seenLen, synPacket, tcpPushOptions]
  cases mss <;> cases wscale <;> decide

/-- So no SYN of `__tcp_dial` is refused: the connection stays in SYN_SENT as it was. -/
theorem answered_dialSyn (iss : Seq) (rcvMss : Nat) :
    answered iss rcvMss (dialSyn iss) = dialed iss rcvMss := by
  rw [answered_syn iss rcvMss rfl rfl rfl, dialSyn, seenLen_synPacket, if_neg (by decide)]

/-- The reset refuses the dial exactly if the peer counts one number for the SYN. -/
theorem dial_refused_iff (iss : Seq) (rcvMss : Nat) (opts : OptEn) (text : Nat) :
    Refused (answered iss rcvMss (synPacket iss opts text)) ↔
      seenLen (synPacket iss opts text) = 1 := by
  rw [answered_syn iss rcvMss rfl rfl rfl]
  by_cases hlen : seenLen (synPacket iss opts text) = 1
  · rw [if_pos hlen]
    exact ⟨fun _ => hlen, fun _ => ⟨rfl, rfl, rfl, rfl⟩⟩
  · rw [if_neg hlen]
    exact ⟨fun h => (nomatch h.1), fun h => absurd h hlen⟩

/-- The reset for the SYN of a dial acknowledges 1000, which is `iss`, and is ignored. -/
theorem dial_not_refused : (tcpRxClosed (dialSyn 1000)).map Segment.ack = some 1000 ∧
      answered 1000 1460 (dialSyn 1000) = dialed 1000 1460 ∧
      ¬ Refused (answered 1000 1460 (dialSyn 1000)) := by
  decide

end Svalinn.Tcp.Refusal
