/-
  Tcp/Teardown.lean --- the transitions that wait for our FIN.

  `tcp_rx_conn` reads `snd_nxt` before it takes the lock, and `__tcp_rx_conn`
  takes the acknowledgement of the value read for the acknowledgement of the FIN.
  A shutdown between the read and the lock queues the FIN behind that value.  The
  packet then leaves FIN_WAIT1, CLOSING or LAST_ACK on an acknowledgement of the
  data alone.

  `Packet.lag` counts the sequence numbers assigned since the read; the
  transition is right exactly if there are none (modulo the number space).
-/
import Svalinn.Tcp.Egress

set_option autoImplicit false

namespace Svalinn.Tcp

open Svalinn.Lib List Option

/-- FIN_WAIT1 is left for FIN_WAIT2 (and for TIME_WAIT, if the same segment brings
the peer's FIN), CLOSING for TIME_WAIT, or LAST_ACK for CLOSED. -/
def TornDown (st st' : TcpState) : Prop :=
  (st = .finWait1 ∧ (st' = .finWait2 ∨ st' = .timeWait)) ∨ (st = .closing ∧ st' = .timeWait) ∨
    (st = .lastAck ∧ st' = .closed)

instance (st st' : TcpState) : Decidable (TornDown st st') := inferInstanceAs (Decidable (_ ∨ _))

def egressInit (c : Conn) (sndMss : Nat) : Egress := ⟨c, sndMss, none, none, [], [], c.txq, 0⟩

/-- Every packet knows how far `snd_nxt` has moved since it was read. -/
def LagInv (t : Egress) : Prop :=
  ∀ p ∈ t.inflight, p.sndNxt + BitVec.ofNat 32 p.lag = t.conn.sndNxt

section Lag

variable {t t' : Egress}

theorem LagInv.of_same (h : LagInv t) (hsub : ∀ p ∈ t'.inflight, p ∈ t.inflight)
    (hnxt : t'.conn.sndNxt = t.conn.sndNxt) : LagInv t' := by
  intro p hp
  rw [hnxt]
  exact h p (hsub p hp)

theorem LagInv.assign (h : LagInv t) (n : Nat) : LagInv (t.assign n) := by
  intro p hp
  obtain ⟨q, hq, rfl⟩ := mem_map.1 hp
  show q.sndNxt + BitVec.ofNat 32 (q.lag + n) = t.conn.sndNxt + BitVec.ofNat 32 n
  rw [← h q hq, BitVec.ofNat_add, BitVec.add_assoc]

theorem LagInv.txSendStep (h : LagInv t) (buf : List UInt8) (push : Bool) (sent : Nat)
    (iov : List (List UInt8)) (winlen : Nat) (allocOk : Bool) :
    LagInv (txSendStep t buf push sent iov winlen allocOk) := by
  have hassign := h.assign (segmentLen t buf)
  unfold Tcp.txSendStep
  dsimp only
  split
  · exact h.of_same (fun _ hp => hp) rfl
  split
  · exact hassign.of_same (fun _ hp => hp) rfl
  · exact hassign.of_same (fun _ hp => hp) rfl

theorem LagInv.shutdownTx (h : LagInv t) (close allocOk : Bool) (ret : Nat) :
    LagInv (shutdownTx t close allocOk ret) := by
  have hfail : ∀ u : Egress, LagInv u → ∀ err, LagInv (if close = true then u.fail err else u) := by
    intro u hu err
    split
    · exact hu.of_same (fun _ hp => hp) rfl
    · exact hu
  have hqueued : LagInv ((t.enqueue (finSegment t.conn)).assign 1) :=
    LagInv.assign (h.of_same (fun _ hp => hp) rfl) 1
  unfold Tcp.shutdownTx
  dsimp only
  split
  · exact hfail t h enomem
  split
  · exact hfail _ hqueued ret
  · exact hqueued.of_same (fun _ hp => hp) rfl

theorem tcpRxConn_sndNxt {c : Conn} {s : Segment} {sndNxt : Seq} {o : RxOut}
    (h : tcpRxConn c s sndNxt = some o) : o.conn.sndNxt = c.sndNxt := by
  rcases tcpRxConn_tx h with ⟨hacked, -⟩ | ⟨-, hfail⟩
  · exact hacked.sndNxt
  · rw [hfail]
    rfl

theorem lagInv_step {e : EgressEvent} (h : LagInv t) (hst : egressStep t e = some t') :
    LagInv t' := by
  revert hst
  fun_cases egressStep t e
  case case1 | case2 =>
    intro hst
    obtain ⟨r, hr, rfl⟩ := map_eq_some_iff.1 hst
    exact h.of_same (fun _ hp => hp) (by rw [(tcpWriteWait_some hr).1])
  case case15 =>
    intro hst
    obtain ⟨o, ho, rfl⟩ := map_eq_some_iff.1 hst
    exact h.of_same (fun _ hp => mem_of_mem_eraseIdx hp) (tcpRxConn_sndNxt ho)
  all_goals rintro ⟨⟩
  case case4 | case8 => exact h.of_same (fun _ hp => hp) rfl
  case case5 => exact h.txSendStep _ _ _ _ _ _
  case case6 =>
    have hack := (tcpConnAck_tx { t.conn with txExclusive := false }).2.1
    unfold tcpWriteFinish
    dsimp only
    split
    · exact h.of_same (fun _ hp => hp) hack
    · exact h.of_same (fun _ hp => hp) hack
  case case7 =>
    split
    · exact h.of_same (fun _ hp => hp) rfl
    · exact h
  case case9 => exact h.shutdownTx _ _ _
  case case12 i _ _ _ _ _ =>
    have hwoken : LagInv { t with waiting := t.waiting.eraseIdx i } :=
      h.of_same (fun _ hp => hp) rfl
    exact hwoken.shutdownTx _ _ _
  case case13 =>
    intro p hp
    rcases mem_append.1 hp with hp | hp
    · exact h p hp
    · rw [mem_singleton.1 hp]
      exact BitVec.add_zero _

end Lag

/-! ## The transitions -/

/-- A teardown transition is taken on the acknowledgement of the number read. -/
theorem tornDown_acked {st st' : TcpState} {acked : Prop} (h : RxStates st acked st')
    (hdown : TornDown st st') : acked := by
  rcases hdown with ⟨rfl, rfl | rfl⟩ | ⟨rfl, rfl⟩ | ⟨rfl, rfl⟩ <;>
    rcases h with h | h | ⟨h, -⟩ | ⟨hacked, -⟩ <;> first
      | exact hacked
      | cases h

/-- A packet that leaves FIN_WAIT1, CLOSING or LAST_ACK by an acknowledgement does so with
everything we sent acknowledged exactly if no sequence number was assigned between its read of
`snd_nxt` and the lock. -/
theorem teardown_acked_iff {c : Conn} {sndMss : Nat} {t t' : Egress} {i : Nat} {p : Packet}
    (hreach : Reaches egressStep anyStep (egressInit c sndMss) t)
    (hp : t.inflight[i]? = some p) (hrst : p.seg.flags.rst = false)
    (hsyn : p.seg.flags.syn = false) (hst : egressStep t (.process i) = some t')
    (hdown : TornDown t.conn.state t'.conn.state) :
    t'.conn.sndUna = t'.conn.sndNxt ↔ p.lag % 2 ^ 32 = 0 := by
  have hinv : LagInv t :=
    hreach.invariant (P := LagInv) (fun _ hp => absurd hp (not_mem_nil)) fun _ _ _ hu _ hs =>
      lagInv_step hu hs
  have hlag := hinv p (List.mem_of_getElem? hp)
  unfold egressStep at hst
  simp only [hp] at hst
  obtain ⟨o, ho, rfl⟩ := map_eq_some_iff.1 hst
  have hnxt : o.conn.sndNxt = t.conn.sndNxt := tcpRxConn_sndNxt ho
  rcases tcpRxConn_tx ho with ⟨-, hstates⟩ | ⟨hflags, -⟩
  · have hacked : o.conn.sndUna = p.sndNxt := tornDown_acked hstates hdown
    show o.conn.sndUna = o.conn.sndNxt ↔ _
    rw [hacked, hnxt, ← hlag]
    have hzero : p.sndNxt = p.sndNxt + BitVec.ofNat 32 p.lag ↔ BitVec.ofNat 32 p.lag = 0#32 := by
      constructor
      · intro heq
        have hsub := congrArg (· - p.sndNxt) heq
        simp only [BitVec.sub_self] at hsub
        rw [BitVec.add_comm, BitVec.add_sub_cancel] at hsub
        exact hsub.symm
      · intro hz
        rw [hz]
        exact (BitVec.add_zero _).symm
    rw [hzero]
    constructor
    · intro hz
      have hnat := congrArg BitVec.toNat hz
      rwa [BitVec.toNat_ofNat] at hnat
    · intro hz
      apply BitVec.eq_of_toNat_eq
      rw [BitVec.toNat_ofNat, hz]
      rfl
  · rw [hrst, hsyn] at hflags
    exact absurd hflags (by simp)

/-- A segment that acknowledges `ack` and carries nothing. -/
def pureAck (ack : Seq) : Segment :=
  { seq := 1, ack := ack, win := 200, flags := {}, data := [], length_lt := length_nil_lt }

/-- A packet that arrives behind the FIN. -/
theorem teardown_acked_fin_first :
    ∃ t t' p, Reaches egressStep anyStep (egressInit idleConn 1460) t ∧ t.inflight[0]? = some p ∧
      p.lag = 0 ∧ egressStep t (.process 0) = some t' ∧ t.conn.state = .finWait1 ∧
      t'.conn.state = .finWait2 ∧ (t'.conn.sndUna = t'.conn.sndNxt ↔ p.lag % 2 ^ 32 = 0) := by
  have hrun : ((runActions egressStep (egressInit idleConn 1460)
      [.shutdown false true 0, .arrive (pureAck 1)]).bind fun t => (egressStep t (.process 0)).map
        fun t' => (t.inflight, t.conn.state, t'.conn.state)) =
      some ([⟨pureAck 1, 1, 0⟩], .finWait1, .finWait2) := by decide
  obtain ⟨t, ht, hnext⟩ := bind_eq_some_iff.1 hrun
  obtain ⟨t', ht', hview⟩ := map_eq_some_iff.1 hnext
  obtain ⟨hfl, hview⟩ := Prod.mk.inj hview
  obtain ⟨hst, hst'⟩ := Prod.mk.inj hview
  have hp : t.inflight[0]? = some ⟨pureAck 1, 1, 0⟩ := by rw [hfl]; rfl
  have hreach := reaches_of_runActions ht
  exact ⟨t, t', _, hreach, hp, rfl, ht', hst, hst',
    teardown_acked_iff hreach hp rfl rfl ht' (Or.inl ⟨hst, Or.inl hst'⟩)⟩

/-- The packet with the acknowledgement of the data reads `snd_nxt`, a shutdown
queues the FIN, and the packet moves the connection to FIN_WAIT2 with the FIN not
acknowledged. -/
theorem stale_read_skips_fin :
    ∃ t t' p, Reaches egressStep anyStep (egressInit idleConn 1460) t ∧ t.inflight[0]? = some p ∧
      p.lag = 1 ∧ egressStep t (.process 0) = some t' ∧ t.conn.state = .finWait1 ∧
      t'.conn.state = .finWait2 ∧ t'.conn.sndUna = 1 ∧ t'.conn.sndNxt = 2 := by
  have hrun : ((runActions egressStep (egressInit idleConn 1460)
      [.write [7], .writerStep true, .writerStep true, .writerStep true, .arrive (pureAck 1),
        .shutdown false true 0]).bind fun t => (egressStep t (.process 0)).map
        fun t' => (t.inflight, t.conn.state, t'.conn.state, t'.conn.sndUna, t'.conn.sndNxt)) =
      some ([⟨pureAck 1, 1, 1⟩], .finWait1, .finWait2, 1, 2) := by decide
  obtain ⟨t, ht, hnext⟩ := bind_eq_some_iff.1 hrun
  obtain ⟨t', ht', hview⟩ := map_eq_some_iff.1 hnext
  obtain ⟨hfl, hview⟩ := Prod.mk.inj hview
  obtain ⟨hst, hview⟩ := Prod.mk.inj hview
  obtain ⟨hst', hview⟩ := Prod.mk.inj hview
  obtain ⟨huna, hnxt⟩ := Prod.mk.inj hview
  exact ⟨t, t', ⟨pureAck 1, 1, 1⟩, reaches_of_runActions ht, by rw [hfl]; rfl, rfl, ht', hst, hst',
    huna, hnxt⟩

end Svalinn.Tcp
