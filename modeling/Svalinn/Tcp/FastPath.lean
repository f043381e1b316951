/-
  Tcp/FastPath.lean --- when the fast path of `tcp_rx_conn` agrees with
  `__tcp_rx_conn`.

  The fast path is taken for the next in-order segment of an established
  connection that fits into the window and carries none of FIN, RST and URG.  It
  looks neither at SYN nor at ACK, and it takes over the window of every segment
  that may update it, where the slow path does not let an acknowledgement that
  acknowledges nothing new shrink the window.  These are the only differences for
  a receive window below 2^31; beyond that the acceptability test of the slow
  path wraps.
-/
import Svalinn.Tcp.Read

set_option autoImplicit false

namespace Svalinn.Tcp

open Svalinn.Lib

/-- The same connection state and variables, the same queues, and the same
decision on the segment. -/
structure RxAgrees (o o' : RxOut) : Prop where
  state : o.conn.state = o'.conn.state
  rcvNxt : o.conn.rcvNxt = o'.conn.rcvNxt
  rcvWnd : o.conn.rcvWnd = o'.conn.rcvWnd
  sndUna : o.conn.sndUna = o'.conn.sndUna
  sndWnd : o.conn.sndWnd = o'.conn.sndWnd
  sndWl1 : o.conn.sndWl1 = o'.conn.sndWl1
  sndWl2 : o.conn.sndWl2 = o'.conn.sndWl2
  rxq : o.conn.rxq = o'.conn.rxq
  txq : o.conn.txq = o'.conn.txq
  doDrop : o.doDrop = o'.doDrop
  rst : o.rst = o'.rst

/-- The window field as `tcp_rx_conn` scales it. -/
def segWin (c : Conn) (s : Segment) : Seq := s.win.setWidth 32 <<< c.sndWscale

def updatesWindow (c : Conn) (seq ack : Seq) : Prop :=
  wrapsLt c.sndWl1 seq ∨ (c.sndWl1 = seq ∧ wrapsLte c.sndWl2 ack)

instance (c : Conn) (seq ack : Seq) : Decidable (updatesWindow c seq ack) :=
  inferInstanceAs (Decidable (_ ∨ _))

/-- A window update that shrinks the window without acknowledging anything new. -/
def staleShrink (c : Conn) (s : Segment) : Prop :=
  c.sndUna = s.ack ∧ updatesWindow c s.seq s.ack ∧ segWin c s < c.sndWnd

instance (c : Conn) (s : Segment) : Decidable (staleShrink c s) :=
  inferInstanceAs (Decidable (_ ∧ _))

def plainData (c : Conn) (s : Segment) : Prop :=
  s.flags.syn = false ∧ s.flags.ack = true ∧ ¬ staleShrink c s ∧
    c.rcvWnd.toNat < 2 ^ 31 + s.data.length

instance (c : Conn) (s : Segment) : Decidable (plainData c s) := inferInstanceAs (Decidable (_ ∧ _))

/-! ## The acknowledgement -/

/-- The send side but for the numbers of the last window update. -/
structure SameTx (c c' : Conn) : Prop where
  sndUna : c'.sndUna = c.sndUna
  sndNxt : c'.sndNxt = c.sndNxt
  sndWnd : c'.sndWnd = c.sndWnd
  sndWscale : c'.sndWscale = c.sndWscale
  txq : c'.txq = c.txq
  txClosed : c'.txClosed = c.txClosed
  txExclusive : c'.txExclusive = c.txExclusive
  err : c'.err = c.err

structure SameSnd (c c' : Conn) : Prop extends SameTx c c' where
  sndWl1 : c'.sndWl1 = c.sndWl1
  sndWl2 : c'.sndWl2 = c.sndWl2

section Ack

variable {c c' c'' : Conn} {seq ack len sndNxt win : Seq}

theorem SameTx.refl : SameTx c c := ⟨rfl, rfl, rfl, rfl, rfl, rfl, rfl, rfl⟩

theorem SameTx.symm (h : SameTx c c') : SameTx c' c :=
  ⟨h.sndUna.symm, h.sndNxt.symm, h.sndWnd.symm, h.sndWscale.symm, h.txq.symm, h.txClosed.symm,
    h.txExclusive.symm, h.err.symm⟩

theorem SameTx.trans (h₁ : SameTx c c') (h₂ : SameTx c' c'') : SameTx c c'' :=
  ⟨h₂.sndUna.trans h₁.sndUna, h₂.sndNxt.trans h₁.sndNxt, h₂.sndWnd.trans h₁.sndWnd,
    h₂.sndWscale.trans h₁.sndWscale, h₂.txq.trans h₁.txq, h₂.txClosed.trans h₁.txClosed,
    h₂.txExclusive.trans h₁.txExclusive, h₂.err.trans h₁.err⟩

theorem SameSnd.refl (c : Conn) : SameSnd c c := ⟨.refl, rfl, rfl⟩

theorem SameSnd.symm (h : SameSnd c c') : SameSnd c' c :=
  ⟨h.toSameTx.symm, h.sndWl1.symm, h.sndWl2.symm⟩

theorem SameSnd.trans (h₁ : SameSnd c c') (h₂ : SameSnd c' c'') : SameSnd c c'' :=
  ⟨h₁.toSameTx.trans h₂.toSameTx, h₂.sndWl1.trans h₁.sndWl1, h₂.sndWl2.trans h₁.sndWl2⟩

/-- The connection once the data up to `ack` is released. -/
def released (c : Conn) (ack : Seq) : Conn :=
  if c.sndUna = ack then c else tcpConnAck { c with sndUna := ack }

def Conn.withWindow (c : Conn) (seq ack win : Seq) : Conn :=
  { c with sndWnd := win, sndWl1 := seq, sndWl2 := ack }

theorem tcpConnAck_window (c : Conn) :
    (tcpConnAck c).sndWnd = c.sndWnd ∧ (tcpConnAck c).sndWl1 = c.sndWl1 ∧
      (tcpConnAck c).sndWl2 = c.sndWl2 := by
  unfold tcpConnAck
  split
  · exact ⟨rfl, rfl, rfl⟩
  · exact ⟨rfl, rfl, rfl⟩

theorem released_window (c : Conn) (ack : Seq) :
    (released c ack).sndWnd = c.sndWnd ∧ (released c ack).sndWl1 = c.sndWl1 ∧
      (released c ack).sndWl2 = c.sndWl2 := by
  unfold released
  split
  · exact ⟨rfl, rfl, rfl⟩
  · exact tcpConnAck_window _

theorem updatesWindow_released (c : Conn) (ack' : Seq) :
    updatesWindow (released c ack') seq ack ↔ updatesWindow c seq ack := by
  obtain ⟨-, hwl1, hwl2⟩ := released_window c ack'
  unfold updatesWindow
  rw [hwl1, hwl2]

/-- What the slow path makes of an acknowledgement: whatever the duplicate-ack
counter does, the send variables are these. -/
theorem processAck_snd (h : processAck c seq len ack sndNxt win = some c') :
    (wrapsLte c.sndUna ack ∧ wrapsLte ack sndNxt ∧
      SameSnd (if updatesWindow c seq ack ∧ (c.sndUna ≠ ack ∨ c.sndWnd ≤ win)
        then (released c ack).withWindow seq ack win else released c ack) c') ∨
    (¬ (wrapsLte c.sndUna ack ∧ wrapsLte ack sndNxt) ∧ SameSnd c c') := by
  obtain ⟨hwnd, hwl1, hwl2⟩ := released_window c ack
  unfold processAck at h
  have hrel : (if decide (c.sndUna = ack) = true then c else tcpConnAck { c with sndUna := ack }) =
      released c ack := by
    simp only [released, decide_eq_true_eq]
  dsimp only at h
  rw [hrel] at h
  split at h
  · rename_i hin
    refine Or.inl ⟨hin.1, hin.2, ?_⟩
    -- the window update
    have hupd : ((decide (wrapsLt (released c ack).sndWl1 seq) ||
          (decide ((released c ack).sndWl1 = seq) && decide (wrapsLte (released c ack).sndWl2 ack))) &&
        (! decide (c.sndUna = ack) || decide ((released c ack).sndWnd ≤ win))) = true ↔
        updatesWindow c seq ack ∧ (c.sndUna ≠ ack ∨ c.sndWnd ≤ win) := by
      rw [hwl1, hwl2, hwnd]
      simp only [updatesWindow, Bool.and_eq_true, Bool.or_eq_true, decide_eq_true_eq,
        Bool.not_eq_true', decide_eq_false_iff_not, ne_eq]
    generalize ((decide (wrapsLt (released c ack).sndWl1 seq) ||
          (decide ((released c ack).sndWl1 = seq) && decide (wrapsLte (released c ack).sndWl2 ack))) &&
        (! decide (c.sndUna = ack) || decide ((released c ack).sndWnd ≤ win))) = b at h hupd
    have hwin : (if b = true then { released c ack with sndWnd := win, sndWl1 := seq, sndWl2 := ack }
        else released c ack) =
        if updatesWindow c seq ack ∧ (c.sndUna ≠ ack ∨ c.sndWnd ≤ win)
          then (released c ack).withWindow seq ack win else released c ack := by
      by_cases hb : b = true
      · rw [if_pos hb, if_pos (hupd.1 hb)]
        rfl
      · rw [if_neg hb, if_neg (mt hupd.2 hb)]
    rw [hwin] at h
    generalize (if updatesWindow c seq ack ∧ (c.sndUna ≠ ack ∨ c.sndWnd ≤ win)
          then (released c ack).withWindow seq ack win else released c ack) = c₂ at h ⊢
    -- the duplicate-ack counter
    split at h
    · split at h
      · obtain rfl := Option.some.inj h
        split
        · exact { SameSnd.refl c₂ with }
        · exact { SameSnd.refl c₂ with }
      · obtain rfl := Option.some.inj h
        exact { SameSnd.refl c₂ with }
    · split at h
      · obtain rfl := Option.some.inj h
        exact { SameSnd.refl c₂ with }
      · obtain rfl := Option.some.inj h
        exact SameSnd.refl c₂
  · rename_i hout
    refine Or.inr ⟨hout, ?_⟩
    split at h
    · cases h
    · split at h
      · obtain rfl := Option.some.inj h
        exact { SameSnd.refl c with }
      · obtain rfl := Option.some.inj h
        exact SameSnd.refl c

theorem tcpRxFast_snd (c : Conn) (m : Mbuf) (ack win len : Seq) :
    SameSnd (if wrapsLte c.sndUna ack then
        if updatesWindow c m.segSeq ack then (released c ack).withWindow m.segSeq ack win
        else released c ack
      else c) (tcpRxFast c m ack win len).conn := by
  -- clearing `rep_acks` on the way makes no difference to the send variables
  have hclear : ∃ rep, (if c.sndUna ≠ ack then tcpConnAck { c with repAcks := 0, sndUna := ack } else c) =
      { released c ack with repAcks := rep } := by
    unfold released tcpConnAck
    by_cases hsame : c.sndUna = ack
    · rw [if_neg (not_not.2 hsame), if_pos hsame]
      exact ⟨c.repAcks, rfl⟩
    · rw [if_pos hsame, if_neg hsame]
      refine ⟨0, ?_⟩
      dsimp only
      split
      · rfl
      · rfl
  obtain ⟨rep, hrep⟩ := hclear
  have hupd : updatesWindow (released c ack) m.segSeq ack ↔ updatesWindow c m.segSeq ack :=
    updatesWindow_released c ack
  unfold tcpRxFast
  dsimp only
  rw [hrep]
  dsimp only
  by_cases hle : wrapsLte c.sndUna ack
  · rw [if_pos hle, if_pos hle]
    by_cases hu : updatesWindow c m.segSeq ack
    · have hu' := hupd.2 hu
      unfold updatesWindow at hu'
      rw [if_pos hu, if_pos hu']
      split
      · exact ⟨⟨rfl, rfl, rfl, rfl, rfl, rfl, rfl, rfl⟩, rfl, rfl⟩
      · exact ⟨⟨rfl, rfl, rfl, rfl, rfl, rfl, rfl, rfl⟩, rfl, rfl⟩
    · have hu' := mt hupd.1 hu
      unfold updatesWindow at hu'
      rw [if_neg hu, if_neg hu']
      split
      · exact ⟨⟨rfl, rfl, rfl, rfl, rfl, rfl, rfl, rfl⟩, rfl, rfl⟩
      · exact ⟨⟨rfl, rfl, rfl, rfl, rfl, rfl, rfl, rfl⟩, rfl, rfl⟩
  · rw [if_neg hle, if_neg hle]
    split
    · exact ⟨⟨rfl, rfl, rfl, rfl, rfl, rfl, rfl, rfl⟩, rfl, rfl⟩
    · exact ⟨⟨rfl, rfl, rfl, rfl, rfl, rfl, rfl, rfl⟩, rfl, rfl⟩

end Ack

/-! ## The text -/

/-- What the checks of `tcp_rx_conn` leave for the fast path. -/
structure FastPath (c : Conn) (s : Segment) (sndNxt : Seq) : Prop where
  fin : s.flags.fin = false
  rst : s.flags.rst = false
  len : 0 < s.data.length
  ack : ¬ wrapsGt s.ack sndNxt
  state : c.state = .established
  seq : s.seq = c.rcvNxt
  ooo : c.rxqOoo = []
  fits : s.data.length ≤ c.rcvWnd.toNat

section Text

variable {c c' : Conn} {s : Segment} {sndNxt : Seq}

theorem toNat_dataLen (s : Segment) : (BitVec.ofNat 32 s.data.length).toNat = s.data.length := by
  have hlt := s.length_lt
  rw [BitVec.toNat_ofNat, Nat.mod_eq_of_lt (by omega)]

theorem fastPath_of_checks
    (h : slowPath c (segMbuf s) s.ack sndNxt (BitVec.ofNat 32 s.data.length) = false) :
    FastPath c s sndNxt := by
  have hnat := toNat_dataLen s
  simp only [slowPath, segMbuf, Bool.or_eq_false_iff, decide_eq_false_iff_not, Bool.not_eq_false',
    List.isEmpty_iff, ne_eq, not_not] at h
  obtain ⟨⟨⟨⟨⟨⟨⟨⟨⟨hfin, hrst⟩, -⟩, hlen⟩, hack⟩, hstate⟩, -⟩, hseq⟩, hooo⟩, hfits⟩ := h
  refine ⟨hfin, hrst, ?_, hack, hstate, Classical.not_not.1 (of_decide_eq_false hseq), hooo, ?_⟩
  · rw [← hnat]
    exact Nat.pos_of_ne_zero fun hz => hlen (BitVec.eq_of_toNat_eq (by rw [hz]; rfl))
  · rw [BitVec.lt_def, hnat] at hfits
    omega

theorem wrapsLt_add_left (x a b : Seq) :
    wrapsLt (x + a) (x + b) ↔ 2 ^ 31 ≤ (a.toNat + (2 ^ 32 - b.toNat)) % 2 ^ 32 := by
  have hsub : x + a - (x + b) = a - b := add_sub_add_left_eq_sub _ _ _
  unfold wrapsLt
  rw [hsub, BitVec.toInt_neg_iff, BitVec.toNat_sub, Nat.add_comm]
  omega

theorem acceptable_iff (h : FastPath c s sndNxt) :
    isAcceptable c (segLen s) s.seq = true ↔ c.rcvWnd.toNat < 2 ^ 31 + s.data.length := by
  have hlen := toNat_dataLen s
  have hpos := h.len
  have hfits := h.fits
  have hshort := s.length_lt
  have hwnd := c.rcvWnd.isLt
  have hL : segLen s = BitVec.ofNat 32 s.data.length := by
    unfold segLen
    rw [h.fin]
    exact BitVec.add_zero _
  have hLne : ¬ BitVec.ofNat 32 s.data.length = 0 := fun hz => by
    rw [hz] at hlen
    exact absurd hlen (Nat.ne_of_lt hpos)
  have hWne : ¬ c.rcvWnd = 0 := fun hz => by
    rw [hz] at hfits
    exact absurd hfits (Nat.not_le.2 hpos)
  have hlast : (BitVec.ofNat 32 s.data.length - 1).toNat = s.data.length - 1 := by
    rw [BitVec.toNat_sub_of_le, hlen]
    · rfl
    · rw [BitVec.le_def, hlen]
      exact hpos
  unfold isAcceptable
  rw [hL, if_neg (fun hz => hLne hz.1), if_neg hLne, if_neg hWne, h.seq]
  simp only [Bool.or_eq_true, Bool.and_eq_true, decide_eq_true_eq]
  -- the four comparisons relative to `rcv_nxt`
  have hself : wrapsLte c.rcvNxt c.rcvNxt := by
    unfold wrapsLte
    rw [BitVec.sub_self]
    exact le_refl _
  have hfirst : wrapsLt c.rcvNxt (c.rcvNxt + c.rcvWnd) ↔ c.rcvWnd.toNat ≤ 2 ^ 31 := by
    have hcmp := wrapsLt_add_left c.rcvNxt 0#32 c.rcvWnd
    rw [BitVec.add_zero] at hcmp
    rw [hcmp]
    show 2 ^ 31 ≤ (0 + (2 ^ 32 - c.rcvWnd.toNat)) % 2 ^ 32 ↔ _
    omega
  have hassoc : c.rcvNxt + BitVec.ofNat 32 s.data.length - 1 =
      c.rcvNxt + (BitVec.ofNat 32 s.data.length - 1) := add_sub_assoc _ _ _
  have hstart : wrapsLte c.rcvNxt (c.rcvNxt + (BitVec.ofNat 32 s.data.length - 1)) := by
    have hnum : BitVec.ofNat 32 s.data.length - 1 = BitVec.ofNat 32 (s.data.length - 1) := by
      apply BitVec.eq_of_toNat_eq
      rw [hlast, BitVec.toNat_ofNat, Nat.mod_eq_of_lt (by omega)]
    have hle := (wrapsLte_serialAt c.rcvNxt
      (show Near 32 0 (s.data.length - 1) from ⟨by omega, by omega⟩)).2 (Nat.zero_le _)
    unfold serialAt at hle
    rw [BitVec.add_zero] at hle
    rw [hnum]
    exact hle
  have hend : wrapsLt (c.rcvNxt + (BitVec.ofNat 32 s.data.length - 1)) (c.rcvNxt + c.rcvWnd) ↔
      c.rcvWnd.toNat < 2 ^ 31 + s.data.length := by
    rw [wrapsLt_add_left, hlast]
    omega
  rw [hassoc, hfirst, hend]
  constructor
  · rintro (hb | hb)
    · omega
    · exact hb.2
  · exact fun hb => Or.inr ⟨hstart, hb⟩

theorem wrapsLt_self (x : Seq) : ¬ wrapsLt x x := by
  unfold wrapsLt
  rw [BitVec.sub_self]
  exact lt_irrefl _

theorem tcpRxAppendText_fast (h : FastPath c s sndNxt)
    (hwnd : c.rcvWnd.toNat < 2 ^ 31 + s.data.length) :
    tcpRxAppendText c (segMbuf s) = some { c with
      rcvNxt := (segMbuf s).segEnd
      rcvWnd := c.rcvWnd - BitVec.ofNat 32 s.data.length
      rxq := c.rxq ++ [segMbuf s] } := by
  have hlen := toNat_dataLen s
  have hfits := h.fits
  have hpos := h.len
  have hlt := c.rcvWnd.isLt
  have hhead : ¬ wrapsLt (segMbuf s).segSeq c.rcvNxt := by
    show ¬ wrapsLt s.seq c.rcvNxt
    rw [h.seq]
    exact wrapsLt_self _
  have htail : ¬ wrapsLt (c.rcvNxt + c.rcvWnd) (segMbuf s).segEnd := by
    show ¬ wrapsLt (c.rcvNxt + c.rcvWnd) (s.seq + BitVec.ofNat 32 s.data.length)
    rw [h.seq, wrapsLt_add_left, hlen]
    omega
  have hdist : (segMbuf s).segEnd - (segMbuf s).segSeq = BitVec.ofNat 32 s.data.length := by
    show s.seq + BitVec.ofNat 32 s.data.length - s.seq = _
    rw [BitVec.add_comm, BitVec.add_sub_cancel]
  simp only [tcpRxAppendText, clipHead, if_neg hhead, clipTail, if_neg htail, hdist]

theorem tcpRxText_fast (h : FastPath c s sndNxt) (hwnd : c.rcvWnd.toNat < 2 ^ 31 + s.data.length) :
    ∃ wake, tcpRxText c (segMbuf s) = some ⟨{ c with
      rcvNxt := (segMbuf s).segEnd
      rcvWnd := c.rcvWnd - BitVec.ofNat 32 s.data.length
      rxq := c.rxq ++ [segMbuf s] }, wake, false, true⟩ := by
  have hne : ¬ c.rcvWnd = 0 := fun hz => by
    have hfits := h.fits
    rw [hz] at hfits
    exact absurd hfits (Nat.not_le.2 h.len)
  have hle : wrapsLte (segMbuf s).segSeq c.rcvNxt := by
    show wrapsLte s.seq c.rcvNxt
    rw [h.seq]
    unfold wrapsLte
    rw [BitVec.sub_self]
    exact le_refl _
  have hfin : (segMbuf s).flags.fin = false := h.fin
  unfold tcpRxText
  rw [if_neg hne, if_pos hle, tcpRxAppendText_fast h hwnd]
  dsimp only
  rw [h.ooo, hfin]
  -- nothing is out of order, so the drain loop ends at once
  rw [Bool.and_false]
  exact ⟨_, rfl⟩

theorem processText_fast (h : FastPath c s sndNxt)
    (hwnd : c.rcvWnd.toNat < 2 ^ 31 + s.data.length) :
    ∃ o, processText c (segMbuf s) (segLen s) = some o ∧ SameSnd c o.conn ∧
      o.conn.state = c.state ∧ o.conn.rcvNxt = (segMbuf s).segEnd ∧
      o.conn.rcvWnd = c.rcvWnd - BitVec.ofNat 32 s.data.length ∧
      o.conn.rxq = c.rxq ++ [segMbuf s] ∧ o.doDrop = false ∧ o.rst = false := by
  have hL : segLen s = BitVec.ofNat 32 s.data.length := by
    unfold segLen
    rw [h.fin]
    exact BitVec.add_zero _
  have hLne : segLen s ≠ 0 := fun hz => by
    have hlen := toNat_dataLen s
    rw [← hL, hz] at hlen
    exact absurd hlen (Nat.ne_of_lt h.len)
  have hm : { segMbuf s with segEnd := (segMbuf s).segSeq + segLen s } = segMbuf s := by
    rw [hL]
    rfl
  obtain ⟨wake, htext⟩ := tcpRxText_fast h hwnd
  unfold processText
  rw [if_pos ⟨hLne, by rw [h.state]; rfl⟩, hm, htext]
  simp only [Bool.false_eq_true, if_false]
  unfold delayAck rxDone
  dsimp only
  refine ⟨_, rfl, ?_⟩
  split
  · split
    · exact ⟨{ SameSnd.refl c with }, rfl, rfl, rfl, rfl, rfl, rfl⟩
    · exact ⟨{ SameSnd.refl c with }, rfl, rfl, rfl, rfl, rfl, rfl⟩
  · split
    · exact ⟨{ SameSnd.refl c with }, rfl, rfl, rfl, rfl, rfl, rfl⟩
    · exact ⟨{ SameSnd.refl c with }, rfl, rfl, rfl, rfl, rfl, rfl⟩

theorem slow_of_fast (h : FastPath c s sndNxt) :
    tcpRxConnSlow c (segMbuf s) s.ack sndNxt (segWin c s) =
      if ! isAcceptable c (segLen s) s.seq then some (rxDone { conn := c, doAck := true })
      else if s.flags.syn then some { conn := tcpConnFail c econnreset, rst := true }
      else if ! s.flags.ack then some { conn := c }
      else
        match processAck c s.seq (segLen s) s.ack sndNxt (segWin c s) with
        | none => some (rxDone { conn := c, doAck := true })
        | some c₁ => processText c₁ (segMbuf s) (segLen s) := by
  have hlen : (segMbuf s).segEnd - (segMbuf s).segSeq + (if (segMbuf s).flags.fin then 1 else 0) =
      segLen s := by
    show s.seq + BitVec.ofNat 32 s.data.length - s.seq + _ = _
    rw [BitVec.add_comm s.seq, BitVec.add_sub_cancel]
    rfl
  have hrst : (segMbuf s).flags.rst = false := h.rst
  unfold tcpRxConnSlow
  simp only [hlen, h.state, hrst, reduceCtorEq, if_false, Bool.not_false, Bool.false_eq_true, false_and]
  show (if (! isAcceptable c (segLen s) s.seq) = true then _
    else if s.flags.syn = true then _ else if (! s.flags.ack) = true then _ else _) = _
  split
  · rfl
  split
  · rfl
  split
  · rfl
  -- the state stays ESTABLISHED, so no transition waits for our FIN
  show (match processAck c s.seq (segLen s) s.ack sndNxt (segWin c s) with
    | none => _
    | some c => _) = _
  rcases processAck_cases c s.seq (segLen s) s.ack sndNxt (segWin c s) with
    ⟨hproc, -⟩ | ⟨c₁, hproc, -, hstate⟩
  · rw [hproc]
  · rw [hproc]
    have hest : c₁.state = .established := hstate.trans h.state
    have hfin : finAcked c₁ sndNxt = c₁ := by
      unfold finAcked
      rw [hest]
    dsimp only
    rw [hfin, hest, if_neg (by simp)]

theorem FastPath.of_same (h : FastPath c s sndNxt) (hsame : SameRx c c')
    (hstate : c'.state = c.state) : FastPath c' s sndNxt :=
  { h with
    state := hstate.trans h.state
    seq := h.seq.trans hsame.rcvNxt.symm
    ooo := hsame.rxqOoo.trans h.ooo
    fits := by rw [hsame.rcvWnd]; exact h.fits }

theorem wrapsLte_of_not_wrapsGt {a b : Seq} (h : ¬ wrapsGt a b) : wrapsLte a b := by
  unfold wrapsGt at h
  unfold wrapsLte
  have hneg : a - b = - (b - a) := (neg_sub b a).symm
  rw [hneg]
  generalize b - a = d at h
  rw [BitVec.toInt_neg_iff] at h
  rw [BitVec.toInt_eq_toNat_cond, BitVec.toNat_neg]
  have hd := d.isLt
  split
  · omega
  · omega

theorem slow_agrees_iff {c₁ : Conn} {o : RxOut} (h : FastPath c s sndNxt)
    (hproc : processAck c s.seq (segLen s) s.ack sndNxt (segWin c s) = some c₁)
    (hsame : SameRx c c₁) (hstate : c₁.state = c.state)
    (hwnd : c.rcvWnd.toNat < 2 ^ 31 + s.data.length)
    (ho : processText c₁ (segMbuf s) (segLen s) = some o) :
    RxAgrees (tcpRxFast c (segMbuf s) s.ack (segWin c s) (BitVec.ofNat 32 s.data.length)) o ↔
      ¬ staleShrink c s := by
  rw [← hsame.rcvWnd] at hwnd
  obtain ⟨o', ho', hsnd, hst, hnxt, hw, hrxq, hdrop, hrst⟩ :=
    processText_fast (h.of_same hsame hstate) hwnd
  obtain rfl := Option.some.inj (ho'.symm.trans ho)
  obtain ⟨fnxt, fw, frxq, -, fst, -⟩ := tcpRxFast_spec (c := c) (m := segMbuf s) s.ack (segWin c s)
    (BitVec.ofNat 32 s.data.length)
  have fsnd := tcpRxFast_snd c (segMbuf s) s.ack (segWin c s) (BitVec.ofNat 32 s.data.length)
  have hself : wrapsLte s.ack s.ack := by
    unfold wrapsLte
    rw [BitVec.sub_self]
    exact le_refl _
  generalize hf : tcpRxFast c (segMbuf s) s.ack (segWin c s) (BitVec.ofNat 32 s.data.length) = f at *
  have fdrop : f.doDrop = false ∧ f.rst = false := by
    rw [← hf]
    unfold tcpRxFast
    exact ⟨rfl, rfl⟩
  constructor
  · -- the stale window is taken over by the fast path only
    rintro hag ⟨hack, hupd, hlt⟩
    have hseq : (segMbuf s).segSeq = s.seq := rfl
    rw [if_pos (by rw [hack]; exact hself), hseq, if_pos hupd] at fsnd
    rcases processAck_snd hproc with ⟨-, -, hslow⟩ | ⟨hout, -⟩
    · rw [if_neg (fun hc => hc.2.elim (fun hne => hne hack) (BitVec.not_le.2 hlt))] at hslow
      have hsame : c.sndWnd = segWin c s := by
        rw [← (released_window c s.ack).1, ← hslow.sndWnd, ← hsnd.sndWnd, ← hag.sndWnd, fsnd.sndWnd]
        rfl
      rw [hsame] at hlt
      exact BitVec.lt_irrefl _ hlt
    · exact hout ⟨by rw [hack]; exact hself, wrapsLte_of_not_wrapsGt h.ack⟩
  · intro hkeep
    -- both paths end with the same send variables
    have hagree : SameSnd f.conn o'.conn := by
      rcases processAck_snd hproc with ⟨hle, -, hslow⟩ | ⟨hout, hslow⟩
      · have hcond : (updatesWindow c s.seq s.ack ∧ (c.sndUna ≠ s.ack ∨ c.sndWnd ≤ segWin c s)) ↔
            updatesWindow c s.seq s.ack := by
          refine ⟨And.left, fun hupd => ⟨hupd, ?_⟩⟩
          by_cases hack : c.sndUna = s.ack
          · exact Or.inr (BitVec.not_lt.1 fun hlt => hkeep ⟨hack, hupd, hlt⟩)
          · exact Or.inl hack
        rw [if_pos hle] at fsnd
        by_cases hupd : updatesWindow c s.seq s.ack
        · rw [if_pos (hcond.2 hupd)] at hslow
          rw [show (segMbuf s).segSeq = s.seq from rfl, if_pos hupd] at fsnd
          exact fsnd.symm.trans (hslow.trans hsnd)
        · rw [if_neg (mt hcond.1 hupd)] at hslow
          rw [show (segMbuf s).segSeq = s.seq from rfl, if_neg hupd] at fsnd
          exact fsnd.symm.trans (hslow.trans hsnd)
      · rw [if_neg (fun hle => hout ⟨hle, wrapsLte_of_not_wrapsGt h.ack⟩)] at fsnd
        exact fsnd.symm.trans (hslow.trans hsnd)
    exact ⟨by rw [fst, hst, hstate], by rw [fnxt, hnxt], by rw [fw, hw, hsame.rcvWnd],
      hagree.sndUna.symm, hagree.sndWnd.symm, hagree.sndWl1.symm, hagree.sndWl2.symm,
      by rw [frxq, hrxq, hsame.rxq], hagree.txq.symm, by rw [fdrop.1, hdrop], by rw [fdrop.2, hrst]⟩

/-- For every segment that passes the checks of the fast path, the two paths agree
exactly on plain data: SYN clear, ACK set, no window shrunk by a duplicate
acknowledgement. -/
theorem fastPath_agrees_iff (hmss : s.data.length ≤ c.rcvMss)
    (hfast : slowPath c (segMbuf s) s.ack sndNxt (BitVec.ofNat 32 s.data.length) = false) :
    ∃ f, tcpRxConn c s sndNxt = some f ∧
      ((∃ o, tcpRxConnSlow c (segMbuf s) s.ack sndNxt (segWin c s) = some o ∧ RxAgrees f o) ↔
        plainData c s) := by
  have h := fastPath_of_checks hfast
  have hacc := acceptable_iff h
  refine ⟨tcpRxFast c (segMbuf s) s.ack (segWin c s) (BitVec.ofNat 32 s.data.length), ?_, ?_⟩
  · unfold segMbuf at hfast
    unfold tcpRxConn
    dsimp only
    rw [if_neg (Nat.not_lt.2 hmss), hfast]
    rfl
  obtain ⟨-, -, -, -, fst, -⟩ := tcpRxFast_spec (c := c) (m := segMbuf s) s.ack (segWin c s)
    (BitVec.ofNat 32 s.data.length)
  have fdrop : (tcpRxFast c (segMbuf s) s.ack (segWin c s)
      (BitVec.ofNat 32 s.data.length)).doDrop = false := rfl
  rw [slow_of_fast h]
  cases hok : isAcceptable c (segLen s) s.seq with
  | false =>
    -- the window is too large to be compared
    refine ⟨?_, fun hp => absurd (hacc.2 hp.2.2.2) (by rw [hok]; exact Bool.false_ne_true)⟩
    rintro ⟨o, ho, hag⟩
    obtain rfl := Option.some.inj ho
    exact absurd (fdrop.symm.trans hag.doDrop) Bool.false_ne_true
  | true =>
    have hwnd := hacc.1 hok
    simp only [Bool.not_true, Bool.false_eq_true, if_false]
    cases hsyn : s.flags.syn with
    | true =>
      refine ⟨?_, fun hp => absurd (hp.1.symm.trans hsyn) Bool.false_ne_true⟩
      rintro ⟨o, ho, hag⟩
      obtain rfl := Option.some.inj ho
      have hst := hag.state
      rw [fst, h.state] at hst
      cases hst
    | false =>
      cases hack : s.flags.ack with
      | false =>
        refine ⟨?_, fun hp => absurd (hack.symm.trans hp.2.1) Bool.false_ne_true⟩
        rintro ⟨o, ho, hag⟩
        obtain rfl := Option.some.inj ho
        exact absurd (fdrop.symm.trans hag.doDrop) Bool.false_ne_true
      | true =>
        rcases processAck_cases c s.seq (segLen s) s.ack sndNxt (segWin c s) with
          ⟨-, hgt⟩ | ⟨c₁, hproc, hsame, hstate⟩
        · exact absurd hgt h.ack
        rw [hproc]
        obtain ⟨o, ho, -⟩ := processText_fast (h.of_same hsame hstate)
          (by rw [hsame.rcvWnd]; exact hwnd)
        have hiff := slow_agrees_iff h hproc hsame hstate hwnd ho
        constructor
        · rintro ⟨o', ho', hag⟩
          obtain rfl := Option.some.inj (ho.symm.trans ho')
          exact ⟨hsyn, hack, hiff.1 hag, hwnd⟩
        · exact fun hp => ⟨o, ho, hiff.2 hp.2.2.1⟩

end Text

def idleConn : Conn := { openConn 1 tcpWin with sndWnd := 100 }

def oneByte (flags : Flags) : Segment :=
  { seq := 1, win := 200, flags := flags, data := [7], length_lt := by decide }

theorem fastPath_agrees_one_byte : plainData idleConn (oneByte {}) ∧
      ∃ f, tcpRxConn idleConn (oneByte {}) 0 = some f ∧
        ((∃ o, tcpRxConnSlow idleConn (segMbuf (oneByte {})) 0 0 (segWin idleConn (oneByte {})) =
            some o ∧ RxAgrees f o) ↔ plainData idleConn (oneByte {})) :=
  ⟨by decide, fastPath_agrees_iff (by decide) (by decide)⟩

/-- A data segment with SYN set is queued by the fast path; the slow path answers
with a reset and fails the connection. -/
theorem syn_data_taken_by_fast_path :
    ∃ f o, slowPath idleConn (segMbuf (oneByte { syn := true })) 0 0 1 = false ∧
      tcpRxConn idleConn (oneByte { syn := true }) 0 = some f ∧
      tcpRxConnSlow idleConn (segMbuf (oneByte { syn := true })) 0 0 200 = some o ∧
      f.conn.state = .established ∧ f.conn.rxq = [segMbuf (oneByte { syn := true })] ∧
      f.doDrop = false ∧ f.rst = false ∧
      o.conn.state = .closed ∧ o.conn.rxq = [] ∧ o.doDrop = true ∧ o.rst = true ∧
      ¬ RxAgrees f o :=
  ⟨tcpRxFast idleConn (segMbuf (oneByte { syn := true })) 0 200 1,
    { conn := tcpConnFail idleConn econnreset, rst := true }, by decide, rfl, rfl, rfl, rfl, rfl, rfl,
    rfl, rfl, rfl, rfl, fun hag => absurd hag.rst Bool.false_ne_true⟩

end Svalinn.Tcp
