/-
  Tcp/TxQueue.lean --- the transmit queue as an image of the send sequence space.

  Positions are natural numbers, position `p` has sequence number `serialAt base p`.
  Between steps `txq` covers the positions from `a` to `k`, and the pending segment
  those from `k` to `n`, where `n` belongs to `snd_nxt`; `snd_una` lies between `a`
  and `n`, and near enough to both for every wrapping comparison to be right.

  Three orders of events break the image.  A shutdown queues its FIN while data is
  parked in `tx_pending`.  A second shutdown waits for the same writer as the first
  and queues a second FIN.  A FIN whose transmission failed stays queued, and the
  socket stays open for writing.  `queuesSafely` excludes exactly these, by what a call
  finds before it queues anything.
-/
import Svalinn.Tcp.Teardown

set_option autoImplicit false

namespace Svalinn.Tcp

open Svalinn.Lib List Option BitVec

def Contiguous : Seq → List Mbuf → Seq → Prop
  | x, [], e => x = e
  | x, m :: ms, e => m.segSeq = x ∧ Contiguous m.segEnd ms e

instance : (x : Seq) → (ms : List Mbuf) → (e : Seq) → Decidable (Contiguous x ms e)
  | x, [], e => inferInstanceAs (Decidable (x = e))
  | x, m :: ms, e =>
    haveI := instDecidableContiguous m.segEnd ms e
    inferInstanceAs (Decidable (m.segSeq = x ∧ Contiguous m.segEnd ms e))

def finQueued (ms : List Mbuf) : Bool := ms.any fun m => m.flags.fin

/-- While the connection has not failed, the queue and the pending segment are contiguous up to
`snd_nxt` and start at or before `snd_una`, and only the last segment ever queued may be a FIN,
behind every byte reported as written. -/
def TxImage (t : Egress) : Prop :=
  t.conn.err = 0 → (∃ start, Contiguous start (t.conn.txq ++ t.txPending.toList) t.conn.sndNxt ∧
      wrapsLte start t.conn.sndUna ∧ wrapsLte t.conn.sndUna t.conn.sndNxt) ∧
    t.conn.txq <:+ t.log ∧ finLast t.log = true ∧
    (finQueued t.log = true → (bytes t.log).length = t.written)

/-- A connection whose handshake is over on our side, with at most its SYN/ACK
unacknowledged.  The bounds are those `tcp_parse_options` enforces. -/
def opened (c : Conn) (sndMss : Nat) : Prop :=
  (c.state = .synReceived ∨ c.state = .established) ∧ c.err = 0 ∧ c.txClosed = false ∧
    c.txExclusive = false ∧ sndMss < 2 ^ 16 ∧ c.sndWscale ≤ 14 ∧ c.sndWnd.toNat < 2 ^ 30 ∧
    ((c.txq = [] ∧ c.sndNxt = c.sndUna) ∨
      (∃ syn, c.txq = [syn] ∧ syn.segSeq = c.sndUna ∧ syn.segEnd = c.sndNxt ∧
        c.sndNxt = c.sndUna + 1 ∧ syn.flags.fin = false ∧ syn.data = []))

/-- The acknowledgements of a peer: no RST and no SYN, and a number that is accepted
lies between `snd_una` and `snd_nxt`. -/
def ackPremise (t : Egress) : EgressEvent → Prop
  | .process i =>
    ∀ p ∈ t.inflight[i]?, p.seg.flags.rst = false ∧ p.seg.flags.syn = false ∧
      (wrapsLte t.conn.sndUna p.seg.ack ∧ wrapsLte p.seg.ack p.sndNxt →
        (p.seg.ack - t.conn.sndUna).toNat ≤ (t.conn.sndNxt - t.conn.sndUna).toNat)
  | _ => True

/-- The writer is about to fill a segment. -/
def Writer.sends : Writer → Bool
  | .send _ _ _ _ _ => true
  | _ => false

/-- What a shutdown finds when it does not wait: its FIN is not queued, or the failure of
its transmission fails the connection, or there is neither pending data nor a FIN. -/
def finInOrder (t : Egress) (close allocOk : Bool) (ret : Nat) : Prop :=
  allocOk = false ∨ (close = true ∧ ret ≠ 0) ∨ (finQueued t.log = false ∧ t.txPending = none)

/-- What a call finds when it is about to queue something. -/
def callInOrder (t : Egress) : EgressEvent → Prop
  | .writerStep allocOk => ∀ w ∈ t.writer, w.sends = true →
      (t.txPending = none ∧ allocOk = false) ∨ finQueued t.log = false
  | .shutdown close allocOk ret =>
    t.conn.txClosed = true ∨ t.conn.txExclusive = true ∨ finInOrder t close allocOk ret
  | .shutdownWake i allocOk ret => ∀ close ∈ t.waiting[i]?, finInOrder t close allocOk ret
  | _ => True

/-- On a connection that has not failed the call finds what it should. -/
def queuesSafely (t : Egress) (e : EgressEvent) : Prop := t.conn.err = 0 → callInOrder t e

/-- The peer and the calls are as they should be. -/
def txGuard (t : Egress) (e : EgressEvent) : Prop := ackPremise t e ∧ queuesSafely t e

/-! ## Positions -/

/-- The segments lie one behind the other from position `a` to position `k`. -/
def PosChain (base : Seq) : Nat → List Mbuf → Nat → Prop
  | a, [], k => a = k
  | a, m :: ms, k => ∃ b, m.segSeq = serialAt base a ∧ m.segEnd = serialAt base b ∧ a ≤ b ∧
      b ≤ a + 2 ^ 17 ∧ PosChain base b ms k

section Chain

variable {base : Seq} {a k n u : Nat} {ms : List Mbuf} {m : Mbuf}

theorem PosChain.le (h : PosChain base a ms k) : a ≤ k := by
  induction ms generalizing a with
  | nil => exact Nat.le_of_eq h
  | cons m ms ih =>
    obtain ⟨b, -, -, hab, -, hrest⟩ := h
    exact Nat.le_trans hab (ih hrest)

theorem PosChain.append (h : PosChain base a ms k) (hseq : m.segSeq = serialAt base k)
    (hend : m.segEnd = serialAt base n) (hle : k ≤ n) (hshort : n ≤ k + 2 ^ 17) :
    PosChain base a (ms ++ [m]) n := by
  induction ms generalizing a with
  | nil =>
    obtain rfl : a = k := h
    exact ⟨n, hseq, hend, hle, hshort, rfl⟩
  | cons m₁ ms ih =>
    obtain ⟨b, hseq₁, hend₁, hab, hshort₁, hrest⟩ := h
    exact ⟨b, hseq₁, hend₁, hab, hshort₁, ih hrest⟩

theorem PosChain.contiguous (h : PosChain base a ms k) :
    Contiguous (serialAt base a) ms (serialAt base k) := by
  induction ms generalizing a with
  | nil =>
    obtain rfl : a = k := h
    exact rfl
  | cons m ms ih =>
    obtain ⟨b, hseq, hend, -, -, hrest⟩ := h
    exact ⟨hseq, by rw [hend]; exact ih hrest⟩

/-- Releasing what ends at or before `u`: the rest starts at or before `u`, and its
first segment is not over at `u`. -/
theorem PosChain.release (h : PosChain base a ms k) (hau : a ≤ u) (hnear : u ≤ a + 2 ^ 30 + 2 ^ 18)
    (hk : k ≤ a + 2 ^ 30 + 2 ^ 18) :
    ∃ a', PosChain base a' (ms.dropWhile fun m => ! decide (wrapsGt m.segEnd (serialAt base u))) k ∧
      a ≤ a' ∧ a' ≤ u ∧ (u ≤ a' + 2 ^ 17 ∨ a' = k) := by
  induction ms generalizing a with
  | nil => exact ⟨a, h, le_refl a, hau, Or.inr h⟩
  | cons m ms ih =>
    obtain ⟨b, hseq, hend, hab, hshort, hrest⟩ := h
    have hbk := hrest.le
    have hgt : wrapsGt m.segEnd (serialAt base u) ↔ u < b := by
      rw [hend]
      exact wrapsGt_serialAt base ⟨by omega, by omega⟩
    by_cases hub : u < b
    · rw [dropWhile_cons_of_neg (by simp [hgt.2 hub])]
      exact ⟨a, ⟨b, hseq, hend, hab, hshort, hrest⟩, le_refl a, hau, Or.inl (by omega)⟩
    · rw [dropWhile_cons_of_pos (by simp [mt hgt.1 hub])]
      obtain ⟨a', hchain, hba', ha'u, hend'⟩ := ih hrest (by omega) (by omega) (by omega)
      exact ⟨a', hchain, by omega, ha'u, hend'⟩

end Chain

/-! ## The invariant -/

def TcpState.sendOpen : TcpState → Bool
  | .synReceived | .established | .closeWait => true
  | _ => false

def Writer.room : Writer → Nat
  | .next _ winlen => winlen
  | .send _ _ sent _ winlen => winlen - sent
  | .finish => 0

def Writer.fits : Writer → Prop
  | .send buf _ sent _ winlen => buf.length + sent ≤ winlen
  | _ => True

def Egress.room (t : Egress) : Nat := t.writer.elim 0 Writer.room

def pendingLen (t : Egress) : Nat := t.txPending.elim 0 fun m => m.data.length

/-- The pending segment covers the positions from `k` to `n`. -/
def PendingAt (base : Seq) (k n mss : Nat) : Option Mbuf → Prop
  | none => k = n
  | some m => m.segSeq = serialAt base k ∧ m.segEnd = serialAt base n ∧ n = k + m.data.length ∧
      tcpHdrLen ≤ m.data.length ∧ m.data.length ≤ mss ∧ m.flags.fin = false

structure TxInv (base : Seq) (t : Egress) (a k u n : Nat) : Prop where
  una : t.conn.sndUna = serialAt base u
  nxt : t.conn.sndNxt = serialAt base n
  chain : PosChain base a t.conn.txq k
  pending : PendingAt base k n t.sndMss t.txPending
  start : a ≤ u
  acked : u ≤ n
  near : n + t.room ≤ a + 2 ^ 30 + 2 ^ 17 + if finQueued t.log then 1 else 0
  shallow : t.conn.txExclusive = false → u ≤ a + 2 ^ 17
  mss : t.sndMss < 2 ^ 16
  wscale : t.conn.sndWscale ≤ 14
  window : t.conn.sndWnd.toNat < 2 ^ 30
  writer : t.conn.txExclusive = t.writer.isSome
  fits : ∀ w ∈ t.writer, w.fits
  sendOpen : t.conn.txClosed = false → t.conn.state.sendOpen = true
  exclusive : t.conn.txExclusive = true → t.conn.txClosed = false
  log : t.conn.txq <:+ t.log
  last : finLast t.log = true
  bytes : (bytes t.log).length + pendingLen t = t.written
  before : finQueued t.log = true → t.txPending = none

def TxOk (base : Seq) (t : Egress) : Prop :=
  t.conn.err ≠ 0 ∨ ∃ a k u n, TxInv base t a k u n

section Inv

variable {base : Seq} {t t' : Egress} {a k u n : Nat}

theorem PendingAt.le {mss : Nat} {o : Option Mbuf} (h : PendingAt base k n mss o) :
    k ≤ n ∧ n ≤ k + mss := by
  cases o with
  | none =>
    obtain rfl : k = n := h
    exact ⟨le_refl _, Nat.le_add_right _ _⟩
  | some m =>
    obtain ⟨-, -, hn, -, hle, -⟩ := h
    omega

theorem TxInv.image (h : TxInv base t a k u n) : TxImage t := by
  intro _
  have hle := h.pending.le
  have hmss := h.mss
  have hak := h.chain.le
  have hau := h.start
  have hun := h.acked
  have hnear : n ≤ a + 2 ^ 30 + 2 ^ 17 + 1 := by
    have hbound := h.near
    split at hbound
    · omega
    · omega
  refine ⟨⟨serialAt base a, ?_, ?_, ?_⟩, h.log, h.last, ?_⟩
  · rw [h.nxt]
    cases hp : t.txPending with
    | none =>
      have hpend := h.pending
      rw [hp] at hpend
      obtain rfl : k = n := hpend
      rw [toList_none, append_nil]
      exact h.chain.contiguous
    | some m =>
      have hpend := h.pending
      rw [hp] at hpend
      obtain ⟨hseq, hend, -, -, -, -⟩ := hpend
      exact (h.chain.append hseq hend hle.1 (by omega)).contiguous
  · rw [h.una]
    exact (wrapsLte_serialAt base ⟨by omega, by omega⟩).2 hau
  · rw [h.una, h.nxt]
    exact (wrapsLte_serialAt base ⟨by omega, by omega⟩).2 hun
  · intro hfin
    have hbytes := h.bytes
    rw [pendingLen, h.before hfin] at hbytes
    exact hbytes

theorem txInv_init {c : Conn} {sndMss : Nat} (h : opened c sndMss) :
    ∃ a k u n, TxInv c.sndUna (egressInit c sndMss) a k u n := by
  obtain ⟨hstate, -, hclosed, hexcl, hmss, hscale, hwnd, hq⟩ := h
  have hopen : c.state.sendOpen = true := by
    rcases hstate with hst | hst
    · rw [hst]; rfl
    · rw [hst]; rfl
  have hbase : c.sndUna = serialAt c.sndUna 0 := (add_zero _).symm
  -- nothing, or one number for the SYN/ACK
  obtain ⟨k, hk, hnxt, hchain, hlast, hbytes⟩ : ∃ k, k ≤ 1 ∧ c.sndNxt = serialAt c.sndUna k ∧
      PosChain c.sndUna 0 c.txq k ∧ finLast c.txq = true ∧ bytes c.txq = [] := by
    rcases hq with ⟨htxq, hnxt⟩ | ⟨syn, htxq, hseq, hend, hnxt, hfin, hdata⟩
    · rw [htxq]
      exact ⟨0, Nat.zero_le _, hnxt.trans hbase, rfl, rfl, rfl⟩
    · rw [htxq]
      refine ⟨1, le_refl _, hnxt, ⟨1, hseq.trans hbase, hend.trans hnxt, Nat.zero_le _, by omega, rfl⟩,
        rfl, ?_⟩
      rw [bytes_cons, hdata]
      rfl
  refine ⟨0, k, 0, k, ?_⟩
  exact {
    una := hbase
    nxt := hnxt
    chain := hchain
    pending := rfl
    start := le_refl _
    acked := Nat.zero_le _
    near := by
      show k + 0 ≤ 0 + 2 ^ 30 + 2 ^ 17 + _
      omega
    shallow := fun _ => Nat.zero_le _
    mss := hmss
    wscale := hscale
    window := hwnd
    writer := hexcl
    fits := nofun
    sendOpen := fun _ => hopen
    exclusive := fun hex => absurd (hexcl.symm.trans hex) Bool.false_ne_true
    log := suffix_rfl
    last := hlast
    bytes := by
      show (Tcp.bytes c.txq).length + 0 = 0
      rw [hbytes]
      rfl
    before := fun _ => rfl }

theorem segWin_lt {c : Conn} (h : c.sndWscale ≤ 14) (s : Segment) : (segWin c s).toNat < 2 ^ 30 := by
  have hwin := s.win.isLt
  have hpow : 2 ^ c.sndWscale ≤ 2 ^ 14 := Nat.pow_le_pow_right (by decide) h
  unfold segWin
  rw [toNat_shiftLeft, toNat_setWidth, Nat.mod_eq_of_lt (by omega : s.win.toNat < 2 ^ 32),
    Nat.shiftLeft_eq]
  have hmul : s.win.toNat * 2 ^ c.sndWscale ≤ s.win.toNat * 2 ^ 14 := Nat.mul_le_mul_left _ hpow
  refine lt_of_le_of_lt (Nat.mod_le _ _) ?_
  omega

theorem sendOpen_rx {st st' : TcpState} {acked : Prop} (h : RxStates st acked st')
    (hopen : st.sendOpen = true) : st'.sendOpen = true := by
  rcases h with rfl | rfl | ⟨rfl, rfl | rfl⟩ | ⟨-, rfl | rfl⟩
  · exact hopen
  · cases st <;> first
      | rfl
      | cases hopen
  · rfl
  · rfl
  · cases st <;> first
      | rfl
      | cases hopen
  · cases st <;> first
      | rfl
      | cases hopen

section

variable (h : TxInv base t a k u n)

include h

theorem TxInv.ack_pos {ack : Seq}
    (hin : (ack - t.conn.sndUna).toNat ≤ (t.conn.sndNxt - t.conn.sndUna).toNat) :
    ∃ u', ack = serialAt base u' ∧ u ≤ u' ∧ u' ≤ n := by
  have hun := h.acked
  have hau := h.start
  have hbound := h.near
  rw [h.una, h.nxt, serialAt_sub_toNat base hun (by split at hbound <;> omega)] at hin
  refine ⟨u + (ack - serialAt base u).toNat, ?_, Nat.le_add_right _ _, by omega⟩
  rw [← serialAt_add, ofNat_toNat, setWidth_eq, add_comm, sub_add_cancel]

theorem TxInv.release {u' : Nat} (hle : u ≤ u') (hn : u' ≤ n) :
    ∃ a', PosChain base a' (t.conn.txq.dropWhile fun m =>
        ! decide (wrapsGt m.segEnd (serialAt base u'))) k ∧ a ≤ a' ∧ a' ≤ u' ∧ u' ≤ a' + 2 ^ 17 := by
  have hau := h.start
  have hpend := h.pending.le
  have hmss := h.mss
  have hbound : n ≤ a + 2 ^ 30 + 2 ^ 18 := by
    have hnear := h.near
    split at hnear
    · omega
    · omega
  obtain ⟨a', hchain, hle', hau', hend⟩ := h.chain.release (u := u') (by omega) (by omega) (by omega)
  exact ⟨a', hchain, hle', hau', by omega⟩

/-! ## Steps -/

theorem TxInv.rx {c' : Conn} {ack sndNxt win : Seq}
    (hack : AckedTx t.conn c' ack sndNxt win) (hwin : win.toNat < 2 ^ 30)
    (hstate : t.conn.state.sendOpen = true → c'.state.sendOpen = true)
    (hin : wrapsLte t.conn.sndUna ack ∧ wrapsLte ack sndNxt →
      (ack - t.conn.sndUna).toNat ≤ (t.conn.sndNxt - t.conn.sndUna).toNat)
    (inflight : List Packet) :
    ∃ a' u', TxInv base { t with conn := c', inflight := inflight } a' k u' n := by
  have hwindow : c'.sndWnd.toNat < 2 ^ 30 := by
    rcases hack.sndWnd with hw | hw
    · rw [hw]; exact h.window
    · rw [hw]; exact hwin
  have hopen : c'.txClosed = false → c'.state.sendOpen = true := by
    rw [hack.txClosed]
    exact fun hcl => hstate (h.sendOpen hcl)
  -- it is enough to place the queue and `snd_una`
  suffices hplace : ∃ a' u', c'.sndUna = serialAt base u' ∧ PosChain base a' c'.txq k ∧ a ≤ a' ∧
      a' ≤ u' ∧ u' ≤ n ∧ (t.conn.txExclusive = false → u' ≤ a' + 2 ^ 17) ∧ c'.txq <:+ t.conn.txq by
    obtain ⟨a', u', huna, hchain, hle, hau, hun, hshallow, hsuf⟩ := hplace
    refine ⟨a', u', ?_⟩
    exact { h with
      una := huna
      nxt := hack.sndNxt.trans h.nxt
      chain := hchain
      start := hau
      acked := hun
      near := by
        have hnear := h.near
        show n + t.room ≤ a' + 2 ^ 30 + 2 ^ 17 + if finQueued t.log then 1 else 0
        omega
      shallow := fun hex => hshallow (hack.txExclusive.symm.trans hex)
      wscale := by
        show c'.sndWscale ≤ 14
        rw [hack.sndWscale]
        exact h.wscale
      window := hwindow
      writer := hack.txExclusive.trans h.writer
      sendOpen := hopen
      exclusive := fun hex => hack.txClosed.trans (h.exclusive (hack.txExclusive.symm.trans hex))
      log := hsuf.trans h.log }
  rcases hack.moved with ⟨huna, htxq⟩ | ⟨hle, hnxt, huna, htxq⟩
  · refine ⟨a, u, huna.trans h.una, by rw [htxq]; exact h.chain, le_refl _, h.start, h.acked,
      h.shallow, ?_⟩
    rw [htxq]
  · obtain ⟨u', hpos, huu', hu'n⟩ := h.ack_pos (hin ⟨hle, hnxt⟩)
    have hau := h.start
    rw [htxq]
    unfold releasedQueue
    cases hex : t.conn.txExclusive with
    | true =>
      exact ⟨a, u', huna.trans hpos, h.chain, le_refl _, by omega, hu'n, nofun, suffix_rfl⟩
    | false =>
      obtain ⟨a', hchain, hle', hau', hsh⟩ := h.release huu' hu'n
      rw [hpos]
      exact ⟨a', u', huna.trans hpos, hchain, hle', hau', hu'n, fun _ => hsh, dropWhile_suffix _⟩

theorem TxInv.write {r : Conn × Nat}
    (hr : tcpWriteWait t.conn = some r) {w : Writer} (hroom : w.room = r.2) (hfits : w.fits) :
    TxInv base { t with conn := r.1, writer := some w } a k u n := by
  obtain ⟨hconn, hwin, hclosed, -, hexcl, hfull⟩ := tcpWriteWait_some hr
  have hun := h.acked
  have hau := h.start
  have hsh := h.shallow hexcl
  have hwnd := h.window
  have hn : n ≤ a + 2 ^ 30 + 2 ^ 18 := by
    have hnear := h.near
    split at hnear
    · omega
    · omega
  -- the window ends at position `u + snd_wnd`
  have hedge : t.conn.sndUna + t.conn.sndWnd = serialAt base (u + t.conn.sndWnd.toNat) := by
    rw [h.una, ← serialAt_add, ofNat_toNat, setWidth_eq]
  have hlt : n < u + t.conn.sndWnd.toNat := by
    have hnot := of_decide_eq_false hfull
    rw [hedge, h.nxt, wrapsLte_serialAt base ⟨by omega, by omega⟩] at hnot
    omega
  have hlen : r.2 = u + t.conn.sndWnd.toNat - n := by
    rw [hwin, hedge, h.nxt, serialAt_sub_toNat base (by omega) (by omega)]
  rw [hconn]
  exact { h with
    near := by
      show n + w.room ≤ a + 2 ^ 30 + 2 ^ 17 + if finQueued t.log then 1 else 0
      omega
    shallow := nofun
    writer := rfl
    fits := by
      intro w' hw'
      cases hw'
      exact hfits
    exclusive := fun _ => hclosed }

theorem TxInv.writer_next {w w' : Writer} (hw : t.writer = some w)
    (hroom : w'.room ≤ w.room) (hfits : w'.fits) :
    TxInv base { t with writer := some w' } a k u n :=
  { h with
    near := by
      have hnear := h.near
      rw [Egress.room, hw] at hnear
      change n + w.room ≤ _ at hnear
      show n + w'.room ≤ a + 2 ^ 30 + 2 ^ 17 + if finQueued t.log then 1 else 0
      omega
    writer := by
      have hex := h.writer
      rw [hw] at hex
      exact hex
    fits := by
      intro w'' hw''
      cases hw''
      exact hfits }

end

theorem writerNext_spec (iov : List (List UInt8)) (winlen : Nat) :
    (writerNext iov winlen).room ≤ winlen ∧ (writerNext iov winlen).fits := by
  unfold writerNext
  split
  · exact ⟨Nat.zero_le _, trivial⟩
  split
  · exact ⟨Nat.zero_le _, trivial⟩
  · refine ⟨Nat.sub_le _ _, ?_⟩
    show (List.take winlen _).length + 0 ≤ winlen
    rw [length_take]
    omega

theorem afterSend_spec (ret : Nat) (iov : List (List UInt8)) (winlen : Nat) :
    (afterSend ret iov winlen).room ≤ winlen - ret ∧ (afterSend ret iov winlen).fits := by
  unfold afterSend
  split
  · exact ⟨Nat.zero_le _, trivial⟩
  · exact ⟨le_refl _, trivial⟩

theorem TxInv.finish (h : TxInv base t a k u n) (hw : t.writer = some .finish) :
    ∃ a', TxInv base (tcpWriteFinish t) a' k u n := by
  have hexcl : t.conn.txExclusive = true := by
    rw [h.writer, hw]
    rfl
  have hopen := h.sendOpen (h.exclusive hexcl)
  obtain ⟨huna, hnxt, hwnd, hscale, hclosed, hex, -, htxq⟩ :=
    tcpConnAck_tx { t.conn with txExclusive := false }
  obtain ⟨-, hstate⟩ := tcpConnAck_same (c := { t.conn with txExclusive := false })
  obtain ⟨a', hchain, hle', hau', hsh⟩ := h.release (le_refl u) h.acked
  have hqueue : (tcpConnAck { t.conn with txExclusive := false }).txq =
      t.conn.txq.dropWhile fun m => ! decide (wrapsGt m.segEnd (serialAt base u)) := by
    rw [htxq, ← h.una]
    rfl
  unfold tcpWriteFinish
  dsimp only
  generalize tcpConnAck { t.conn with txExclusive := false } = c' at *
  rw [if_neg (by rw [hstate]; intro hc; rw [hc] at hopen; cases hopen)]
  refine ⟨a', ?_⟩
  exact { h with
    una := huna.trans h.una
    nxt := hnxt.trans h.nxt
    chain := by
      show PosChain base a' c'.txq k
      rw [hqueue]
      exact hchain
    start := hau'
    near := by
      have hnear := h.near
      show n + 0 ≤ a' + 2 ^ 30 + 2 ^ 17 + if finQueued t.log then 1 else 0
      omega
    shallow := fun _ => hsh
    wscale := by
      show c'.sndWscale ≤ 14
      rw [hscale]
      exact h.wscale
    window := by
      show c'.sndWnd.toNat < 2 ^ 30
      rw [hwnd]
      exact h.window
    writer := hex
    fits := nofun
    sendOpen := fun _ => by
      show c'.state.sendOpen = true
      rw [hstate]
      exact hopen
    exclusive := fun hx => absurd (hex.symm.trans hx) Bool.false_ne_true
    log := by
      show c'.txq <:+ t.log
      rw [hqueue]
      exact (dropWhile_suffix _).trans h.log }

theorem TxInv.filled (h : TxInv base t a k u n) (buf : List UInt8) :
    (segmentFilled t buf).segSeq = serialAt base k ∧
      (segmentFilled t buf).segEnd = serialAt base (n + segmentLen t buf) ∧
      n + segmentLen t buf = k + (segmentFilled t buf).data.length ∧
      (segmentFilled t buf).data.length = pendingLen t + segmentLen t buf ∧
      (segmentFilled t buf).data.length ≤ t.sndMss ∧ (segmentFilled t buf).flags.fin = false := by
  have hpend := h.pending
  have hdata : (segmentFilled t buf).data.length =
      (segmentBuf t).data.length + segmentLen t buf := by
    have hle : segmentLen t buf ≤ buf.length := Nat.min_le_left _ _
    show ((segmentBuf t).data ++ buf.take (segmentLen t buf)).length = _
    rw [length_append, length_take, Nat.min_eq_left hle]
  have hlen : segmentLen t buf ≤ t.sndMss - (segmentBuf t).data.length := Nat.min_le_right _ _
  have hend : (segmentFilled t buf).segEnd =
      (segmentBuf t).segEnd + BitVec.ofNat 32 (segmentLen t buf) := rfl
  have hseq : (segmentFilled t buf).segSeq = (segmentBuf t).segSeq := rfl
  have hflags : (segmentFilled t buf).flags = (segmentBuf t).flags := rfl
  rw [hend, hseq, hflags, hdata]
  generalize segmentLen t buf = l at *
  unfold segmentBuf pendingLen at *
  cases hp : t.txPending with
  | none =>
    rw [hp] at hpend hlen
    obtain rfl : k = n := hpend
    refine ⟨h.nxt, ?_, ?_, rfl, ?_, rfl⟩
    · show t.conn.sndNxt + _ = _
      rw [h.nxt, serialAt_add]
    · show k + l = k + (0 + l)
      omega
    · change l ≤ t.sndMss - 0 at hlen
      show 0 + l ≤ t.sndMss
      omega
  | some m =>
    rw [hp] at hpend hlen
    obtain ⟨hseq, hend, hn, -, hle, hfin⟩ := hpend
    refine ⟨hseq, ?_, ?_, rfl, ?_, hfin⟩
    · show m.segEnd + _ = _
      rw [hend, serialAt_add]
    · show n + l = k + (m.data.length + l)
      omega
    · change l ≤ t.sndMss - m.data.length at hlen
      show m.data.length + l ≤ t.sndMss
      omega

theorem length_bytes_append (ms : List Mbuf) (m : Mbuf) :
    (bytes (ms ++ [m])).length = (bytes ms).length + m.data.length := by
  rw [bytes_append, length_append, bytes_cons]
  simp only [bytes, flatMap_nil, append_nil]

theorem finQueued_append (ms : List Mbuf) (m : Mbuf) :
    finQueued (ms ++ [m]) = (finQueued ms || m.flags.fin) := by
  unfold finQueued
  rw [any_append]
  simp only [any_cons, any_nil, Bool.or_false]

theorem finLast_of_no_fin {ms : List Mbuf} (h : finQueued ms = false) (m : Mbuf) :
    finLast (ms ++ [m]) = true := by
  refine finLast_append_of_not rfl fun x hx hfin => ?_
  have hany : finQueued ms = true := any_eq_true.2 ⟨x, hx, hfin⟩
  exact Bool.false_ne_true (h.symm.trans hany)

theorem TxInv.send (h : TxInv base t a k u n) {buf : List UInt8} {push : Bool} {sent : Nat}
    {iov : List (List UInt8)} {winlen : Nat} {allocOk : Bool}
    (hw : t.writer = some (.send buf push sent iov winlen))
    (hsafe : (t.txPending = none ∧ allocOk = false) ∨ finQueued t.log = false) :
    ∃ k' n', TxInv base (txSendStep t buf push sent iov winlen allocOk) a k' u n' := by
  have hfits : buf.length + sent ≤ winlen := h.fits _ hw
  obtain ⟨hroomA, hfitsA⟩ := afterSend_spec sent iov winlen
  unfold txSendStep
  by_cases hno : t.txPending = none ∧ allocOk = false
  · rw [if_pos hno]
    exact ⟨k, n, h.writer_next hw hroomA hfitsA⟩
  rw [if_neg hno]
  have hfin := hsafe.resolve_left hno
  obtain ⟨hseq, hend, hpos, hdata, hmss, hnofin⟩ := h.filled buf
  obtain ⟨hroomB, hfitsB⟩ := afterSend_spec (sent + segmentLen t buf) iov winlen
  have hlen : segmentLen t buf ≤ buf.length := Nat.min_le_left _ _
  have hmss16 := h.mss
  have hun := h.acked
  have hbytes := h.bytes
  have hpendle := h.pending.le
  have hnear := h.near
  rw [Egress.room, hw] at hnear
  change n + (winlen - sent) ≤ _ at hnear
  rw [hfin] at hnear
  have hnxt : t.conn.sndNxt + BitVec.ofNat 32 (segmentLen t buf) =
      serialAt base (n + segmentLen t buf) := by rw [h.nxt, serialAt_add]
  have hwriter : t.conn.txExclusive = true := by
    rw [h.writer, hw]
    rfl
  dsimp only
  split
  · -- the data is parked
    rename_i hpark
    have hkeeps := of_decide_eq_true hpark.2.2
    refine ⟨k, n + segmentLen t buf, ?_⟩
    exact { h with
      nxt := hnxt
      pending := ⟨hseq, hend, hpos, hkeeps.1, hmss, hnofin⟩
      acked := by omega
      near := by
        show n + segmentLen t buf + (afterSend (sent + segmentLen t buf) iov winlen).room ≤
          a + 2 ^ 30 + 2 ^ 17 + if finQueued t.log then 1 else 0
        rw [hfin]
        omega
      writer := hwriter
      fits := by
        intro w hw'
        cases hw'
        exact hfitsB
      bytes := by
        show (Tcp.bytes t.log).length + (segmentFilled t buf).data.length =
          t.written + segmentLen t buf
        omega
      before := fun hq => absurd (hfin.symm.trans hq) Bool.false_ne_true }
  · -- the segment is queued, with PUSH or without
    generalize hm : (if push = true ∧ buf.drop (segmentLen t buf) = [] then
        { segmentFilled t buf with flags := { (segmentFilled t buf).flags with push := true } }
      else segmentFilled t buf) = m
    have hsame : m.segSeq = (segmentFilled t buf).segSeq ∧
        m.segEnd = (segmentFilled t buf).segEnd ∧ m.data = (segmentFilled t buf).data ∧
        m.flags.fin = (segmentFilled t buf).flags.fin := by
      rw [← hm]
      split
      · exact ⟨rfl, rfl, rfl, rfl⟩
      · exact ⟨rfl, rfl, rfl, rfl⟩
    obtain ⟨hseq', hend', hdata', hfin'⟩ := hsame
    have hmfin : m.flags.fin = false := hfin'.trans hnofin
    have hlog : finQueued (t.log ++ [m]) = false := by
      rw [finQueued_append, hfin, hmfin]
      rfl
    generalize hwr : (if buf.drop (segmentLen t buf) = [] then
      afterSend (sent + segmentLen t buf) iov winlen
      else .send (buf.drop (segmentLen t buf)) push (sent + segmentLen t buf) iov winlen) = w
    have hplan : w.room ≤ winlen - (sent + segmentLen t buf) ∧ w.fits := by
      rw [← hwr]
      split
      · exact ⟨hroomB, hfitsB⟩
      · refine ⟨le_refl _, ?_⟩
        show (buf.drop (segmentLen t buf)).length + (sent + segmentLen t buf) ≤ winlen
        rw [length_drop]
        omega
    refine ⟨n + segmentLen t buf, n + segmentLen t buf, ?_⟩
    exact { h with
      nxt := hnxt
      chain := h.chain.append (hseq'.trans hseq) (hend'.trans hend) (by omega) (by omega)
      pending := rfl
      acked := by omega
      near := by
        show n + segmentLen t buf + w.room ≤
          a + 2 ^ 30 + 2 ^ 17 + if finQueued (t.log ++ [m]) then 1 else 0
        rw [hlog]
        omega
      writer := hwriter
      fits := by
        intro w' hw'
        cases hw'
        exact hplan.2
      log := by
        obtain ⟨old, hold⟩ := h.log
        refine ⟨old, ?_⟩
        show old ++ (t.conn.txq ++ [m]) = t.log ++ [m]
        rw [← hold, List.append_assoc]
      last := finLast_of_no_fin hfin m
      bytes := by
        show (Tcp.bytes (t.log ++ [m])).length + 0 = t.written + segmentLen t buf
        rw [length_bytes_append, hdata']
        omega
      before := fun _ => rfl }

theorem TxInv.fin (h : TxInv base t a k u n)
    (hpend : t.txPending = none) (hfin : finQueued t.log = false) :
    TxInv base ((t.enqueue (finSegment t.conn)).assign 1) a (n + 1) u (n + 1) := by
  have hkn : k = n := by
    have hp := h.pending
    rw [hpend] at hp
    exact hp
  have hnear := h.near
  rw [hfin] at hnear
  have hone : t.conn.sndNxt + 1 = serialAt base (n + 1) := by
    rw [h.nxt]
    exact serialAt_add base n 1
  have hlog : finQueued (t.log ++ [finSegment t.conn]) = true := by
    rw [finQueued_append]
    exact Bool.or_true _
  exact { h with
    nxt := hone
    chain := h.chain.append (h.nxt.trans (by rw [hkn])) hone (by omega) (by omega)
    pending := by
      show PendingAt base (n + 1) (n + 1) t.sndMss t.txPending
      rw [hpend]
      rfl
    acked := Nat.le_succ_of_le h.acked
    near := by
      show n + 1 + t.room ≤
        a + 2 ^ 30 + 2 ^ 17 + if finQueued (t.log ++ [finSegment t.conn]) then 1 else 0
      rw [hlog]
      change n + t.room ≤ _ + 0 at hnear
      rw [if_pos rfl]
      omega
    log := by
      obtain ⟨old, hold⟩ := h.log
      refine ⟨old, ?_⟩
      show old ++ (t.conn.txq ++ [finSegment t.conn]) = t.log ++ [finSegment t.conn]
      rw [← hold, List.append_assoc]
    last := finLast_of_no_fin hfin _
    bytes := by
      show (Tcp.bytes (t.log ++ [finSegment t.conn])).length + pendingLen t = t.written
      rw [length_bytes_append]
      exact h.bytes
    before := fun _ => hpend }

/-- What a step does to the transmit queue of a connection that has not failed:
nothing, or it parks data, queues a data segment, or queues a FIN.  `safe` is what the
call has to find. -/
inductive TxEffect (base : Seq) (t t' : Egress) (safe : Prop) : Prop
  | failed (h : t'.conn.err ≠ 0) (hsafe : safe)
  | quiet (hinv : TxOk base t') (hsafe : safe)
  | parked (m : Mbuf) (hsafe : safe ↔ finQueued t.log = false)
      (herr : t'.conn.err = t.conn.err) (hlog : t'.log = t.log)
      (hbytes : t'.written = (bytes t.log).length + m.data.length)
      (hlen : tcpHdrLen ≤ m.data.length) (hinv : finQueued t.log = false → TxOk base t')
  | queued (m : Mbuf) (hsafe : safe ↔ finQueued t.log = false)
      (herr : t'.conn.err = t.conn.err) (hlog : t'.log = t.log ++ [m])
      (hinv : finQueued t.log = false → TxOk base t')
  | fin (m : Mbuf) (hsafe : safe ↔ finQueued t.log = false ∧ t.txPending = none)
      (herr : t'.conn.err = t.conn.err) (hlog : t'.log = t.log ++ [m])
      (hfin : m.flags.fin = true) (hdata : m.data = []) (hwritten : t'.written = t.written)
      (hinv : finQueued t.log = false → t.txPending = none → TxOk base t')

theorem txSendStep_err (t : Egress) (buf : List UInt8) (push : Bool) (sent : Nat)
    (iov : List (List UInt8)) (winlen : Nat) (allocOk : Bool) :
    (txSendStep t buf push sent iov winlen allocOk).conn.err = t.conn.err := by
  unfold txSendStep
  dsimp only
  split
  · rfl
  split
  · rfl
  · rfl

theorem TxInv.send_effect (h : TxInv base t a k u n) {buf : List UInt8} {push : Bool} {sent : Nat}
    {iov : List (List UInt8)} {winlen : Nat} {allocOk : Bool}
    (hw : t.writer = some (.send buf push sent iov winlen)) :
    TxEffect base t (txSendStep t buf push sent iov winlen allocOk)
      (callInOrder t (.writerStep allocOk)) := by
  have hsafe : callInOrder t (.writerStep allocOk) ↔
      (t.txPending = none ∧ allocOk = false) ∨ finQueued t.log = false := by
    refine ⟨fun hcall => hcall _ hw rfl, fun hcall w hw' _ => hcall⟩
  have hbytes := h.bytes
  obtain ⟨-, -, -, hdata, -, -⟩ := h.filled buf
  have hinv : finQueued t.log = false → TxOk base (txSendStep t buf push sent iov winlen allocOk) := by
    intro hfin
    obtain ⟨k', n', hsend⟩ :
        ∃ k' n', TxInv base (txSendStep t buf push sent iov winlen allocOk) a k' u n' :=
      h.send hw (Or.inr hfin)
    exact Or.inr ⟨a, k', u, n', hsend⟩
  by_cases hno : t.txPending = none ∧ allocOk = false
  · obtain ⟨k', n', hsend⟩ := h.send hw (Or.inl hno)
    exact .quiet (Or.inr ⟨a, k', u, n', hsend⟩) (hsafe.2 (.inl hno))
  rw [or_iff_right hno] at hsafe
  by_cases hpark : push = false ∧ buf.drop (segmentLen t buf) = [] ∧
      keepsPending (segmentFilled t buf).data.length t.sndMss
  · have heq : txSendStep t buf push sent iov winlen allocOk =
        { (t.assign (segmentLen t buf)) with
          txPending := some (segmentFilled t buf)
          written := t.written + segmentLen t buf
          writer := some (afterSend (sent + segmentLen t buf) iov winlen) } := by
      unfold txSendStep
      rw [if_neg hno]
      exact if_pos hpark
    refine .parked (segmentFilled t buf) hsafe (txSendStep_err ..) ?_ ?_ (of_decide_eq_true hpark.2.2).1 hinv
    · rw [heq]
      rfl
    · rw [heq]
      show t.written + segmentLen t buf = _
      omega
  · generalize hm : (if push = true ∧ buf.drop (segmentLen t buf) = [] then
        { segmentFilled t buf with flags := { (segmentFilled t buf).flags with push := true } }
      else segmentFilled t buf) = m
    refine .queued m hsafe (txSendStep_err ..) ?_ hinv
    unfold txSendStep
    rw [if_neg hno]
    dsimp only
    rw [show (t.assign (segmentLen t buf)).sndMss = t.sndMss from rfl, if_neg hpark, hm]
    rfl

theorem TxInv.shutdown_effect (h : TxInv base t a k u n) (hexcl : t.conn.txExclusive = false)
    (close allocOk : Bool) (ret : Nat) :
    TxEffect base t (shutdownTx t close allocOk ret) (finInOrder t close allocOk ret) := by
  unfold shutdownTx
  dsimp only
  split
  · rename_i hno
    cases close with
    | true => exact .failed (by simp [Egress.fail, tcpConnFail, enomem]) (.inl hno)
    | false => exact .quiet (Or.inr ⟨a, k, u, n, h⟩) (.inl hno)
  rename_i hgot
  split
  · rename_i hret
    cases close with
    | true => exact .failed hret (.inr (.inl ⟨rfl, hret⟩))
    | false =>
      refine .fin (finSegment t.conn) ?_ rfl rfl rfl rfl rfl fun hfin hpend => ?_
      · rw [finInOrder, or_iff_right hgot, or_iff_right fun h => Bool.false_ne_true h.1]
      · exact Or.inr ⟨a, n + 1, u, n + 1, h.fin hpend hfin⟩
  · rename_i hret
    refine .fin (finSegment t.conn) ?_ rfl rfl rfl rfl rfl fun hfin hpend => ?_
    · rw [finInOrder, or_iff_right hgot, or_iff_right fun h => hret h.2]
    · have hinv := h.fin hpend hfin
      exact Or.inr ⟨a, n + 1, u, n + 1, { hinv with
        sendOpen := nofun
        exclusive := fun hex => absurd (hexcl.symm.trans hex) Bool.false_ne_true }⟩

theorem TxInv.effect (h : TxInv base t a k u n) {e : EgressEvent} (hprem : ackPremise t e)
    (hst : egressStep t e = some t') : TxEffect base t t' (callInOrder t e) := by
  revert hst
  -- a write and a segment may find no step; the other cases have theirs, or none, at once
  fun_cases egressStep t e
  case case1 buf =>
    intro hst
    obtain ⟨r, hr, rfl⟩ := map_eq_some_iff.1 hst
    refine .quiet (Or.inr ⟨a, k, u, n, h.write hr (Nat.sub_zero _) ?_⟩) trivial
    show (buf.take r.2).length + 0 ≤ r.2
    rw [length_take]
    omega
  case case2 =>
    intro hst
    obtain ⟨r, hr, rfl⟩ := map_eq_some_iff.1 hst
    exact .quiet (Or.inr ⟨a, k, u, n, h.write hr rfl trivial⟩) trivial
  case case15 p hp =>
    intro hst
    obtain ⟨o, ho, rfl⟩ := map_eq_some_iff.1 hst
    obtain ⟨hrst, hsyn, hin⟩ := hprem p hp
    rcases tcpRxConn_tx ho with ⟨hacked, hstates⟩ | ⟨hflags, -⟩
    · obtain ⟨a', u', hinv⟩ := h.rx hacked (segWin_lt h.wscale p.seg) (sendOpen_rx hstates) hin
        (t.inflight.eraseIdx _)
      exact .quiet (Or.inr ⟨a', k, u', n, hinv⟩) trivial
    · rw [hrst, hsyn] at hflags
      exact absurd hflags (by simp)
  all_goals rintro ⟨⟩
  case case4 hw =>
    obtain ⟨hroom, hfits⟩ := writerNext_spec _ _
    refine .quiet (Or.inr ⟨a, k, u, n, h.writer_next hw hroom hfits⟩) fun w hw' hsends => ?_
    obtain rfl := some.inj (hw.symm.trans hw')
    cases hsends
  case case5 hw => exact h.send_effect hw
  case case6 hw =>
    obtain ⟨a', hinv⟩ := h.finish hw
    refine .quiet (Or.inr ⟨a', k, u, n, hinv⟩) fun w hw' hsends => ?_
    obtain rfl := some.inj (hw.symm.trans hw')
    cases hsends
  case case7 close _ _ hclosed =>
    cases close with
    | true => exact .quiet (Or.inr ⟨a, k, u, n, { h with }⟩) (.inl hclosed)
    | false => exact .quiet (Or.inr ⟨a, k, u, n, h⟩) (.inl hclosed)
  case case8 hexcl => exact .quiet (Or.inr ⟨a, k, u, n, { h with }⟩) (.inr (.inl hexcl))
  case case13 => exact .quiet (Or.inr ⟨a, k, u, n, { h with }⟩) trivial
  case case9 close allocOk ret hclosed hexcl =>
    have hcall : callInOrder t (.shutdown close allocOk ret) ↔ finInOrder t close allocOk ret := by
      rw [callInOrder, or_iff_right hclosed, or_iff_right hexcl]
    rw [hcall]
    exact h.shutdown_effect (Bool.eq_false_iff.2 hexcl) close allocOk ret
  case case12 i allocOk ret close hclose hexcl =>
    have hwoken : TxInv base { t with waiting := t.waiting.eraseIdx i } a k u n := { h with }
    have hcall : callInOrder t (.shutdownWake i allocOk ret) ↔ finInOrder t close allocOk ret := by
      refine ⟨fun hall => hall close hclose, fun hfin close' hclose' => ?_⟩
      obtain rfl := some.inj (hclose.symm.trans hclose')
      exact hfin
    rw [hcall]
    cases hwoken.shutdown_effect (Bool.eq_false_iff.2 hexcl) close allocOk ret with
    | failed he hsafe => exact .failed he hsafe
    | quiet hinv hsafe => exact .quiet hinv hsafe
    | parked m hsafe herr hlog hbytes hlen hinv => exact .parked m hsafe herr hlog hbytes hlen hinv
    | queued m hsafe herr hlog hinv => exact .queued m hsafe herr hlog hinv
    | fin m hsafe herr hlog hfin hdata hwritten hinv =>
      exact .fin m hsafe herr hlog hfin hdata hwritten hinv

theorem shutdownTx_failed (h : t.conn.err ≠ 0) (close allocOk : Bool) (ret : Nat) :
    (shutdownTx t close allocOk ret).conn.err ≠ 0 := by
  unfold shutdownTx
  dsimp only
  split
  · cases close with
    | true => exact Nat.succ_ne_zero _
    | false => exact h
  split
  · rename_i hret
    cases close with
    | true => exact hret
    | false => exact h
  · exact h

theorem failed_step {e : EgressEvent} (h : t.conn.err ≠ 0) (hst : egressStep t e = some t') :
    t'.conn.err ≠ 0 := by
  revert hst
  fun_cases egressStep t e
  case case1 | case2 =>
    intro hst
    obtain ⟨r, hr, rfl⟩ := map_eq_some_iff.1 hst
    rw [(tcpWriteWait_some hr).1]
    exact h
  case case15 =>
    intro hst
    obtain ⟨o, ho, rfl⟩ := map_eq_some_iff.1 hst
    rcases tcpRxConn_tx ho with ⟨hacked, -⟩ | ⟨-, hfail⟩
    · exact fun hz => h (hacked.err.symm.trans hz)
    · show o.conn.err ≠ 0
      rw [hfail]
      exact Nat.succ_ne_zero _
  all_goals rintro ⟨⟩
  case case4 | case8 | case13 => exact h
  case case5 =>
    rw [txSendStep_err]
    exact h
  case case6 =>
    have herr := (tcpConnAck_tx { t.conn with txExclusive := false }).2.2.2.2.2.2.1
    unfold tcpWriteFinish
    dsimp only
    split
    · exact fun hz => h (herr.symm.trans hz)
    · exact fun hz => h (herr.symm.trans hz)
  case case7 close _ _ _ =>
    cases close with
    | true | false => exact h
  case case9 close allocOk ret _ _ => exact shutdownTx_failed h close allocOk ret
  case case12 i allocOk ret close _ _ =>
    exact shutdownTx_failed (t := { t with waiting := t.waiting.eraseIdx i }) h close allocOk ret

theorem TxOk.image (h : TxOk base t) : TxImage t := by
  rcases h with herr | ⟨a, k, u, n, hinv⟩
  · exact fun hz => absurd hz herr
  · exact hinv.image

theorem txOk_step {e : EgressEvent} (h : TxOk base t) (hok : txGuard t e)
    (hst : egressStep t e = some t') : TxOk base t' := by
  by_cases herr : t.conn.err = 0
  · obtain ⟨a, k, u, n, hinv⟩ := h.resolve_left fun hne => hne herr
    have hcall := hok.2 herr
    cases hinv.effect hok.1 hst with
    | failed he _ => exact Or.inl he
    | quiet hinv' _ => exact hinv'
    | parked _ hsafe _ _ _ _ hinv' => exact hinv' (hsafe.1 hcall)
    | queued _ hsafe _ _ hinv' => exact hinv' (hsafe.1 hcall)
    | fin _ hsafe _ _ _ _ _ hinv' => exact hinv' (hsafe.1 hcall).1 (hsafe.1 hcall).2
  · exact Or.inl (failed_step herr hst)

theorem safe_of_image {e : EgressEvent} (h : TxOk base t) (hprem : ackPremise t e)
    (hst : egressStep t e = some t') (himage : TxImage t') : queuesSafely t e := by
  intro herr
  obtain ⟨a, k, u, n, hinv⟩ := h.resolve_left fun hne => hne herr
  have hhdr : tcpHdrLen = 20 := rfl
  have hnofin : ∀ m, t'.conn.err = t.conn.err → t'.log = t.log ++ [m] →
      finQueued t.log = false := by
    intro m hsame hlog
    obtain ⟨-, -, hlast, -⟩ := himage (hsame.trans herr)
    rw [hlog] at hlast
    refine Bool.eq_false_iff.2 fun hfin => ?_
    obtain ⟨x, hx, hxfin⟩ := any_eq_true.1 hfin
    exact absurd ((finLast_append hlast (cons_ne_nil _ _) x hx).symm.trans hxfin) Bool.false_ne_true
  cases hinv.effect hprem hst with
  | failed _ hsafe => exact hsafe
  | quiet _ hsafe => exact hsafe
  | parked m hsafe hsame hlog hbytes hlen _ =>
    refine hsafe.2 (Bool.eq_false_iff.2 fun hfin => ?_)
    obtain ⟨-, -, -, hbefore⟩ := himage (hsame.trans herr)
    have hall := hbefore (by rw [hlog]; exact hfin)
    rw [hlog, hbytes] at hall
    omega
  | queued m hsafe hsame hlog _ => exact hsafe.2 (hnofin m hsame hlog)
  | fin m hsafe hsame hlog hmfin hdata hwritten _ =>
    refine hsafe.2 ⟨hnofin m hsame hlog, ?_⟩
    -- with data pending not every byte written would be queued
    obtain ⟨-, -, -, hbefore⟩ := himage (hsame.trans herr)
    have hall := hbefore (by rw [hlog, finQueued_append, hmfin]; exact Bool.or_true _)
    have hbytes := hinv.bytes
    rw [hlog, length_bytes_append, hdata, hwritten] at hall
    change (bytes t.log).length + 0 = t.written at hall
    have hpend := hinv.pending
    unfold pendingLen at hbytes
    cases hp : t.txPending with
    | none => rfl
    | some m' =>
      rw [hp] at hpend hbytes
      obtain ⟨-, -, -, hlen, -, -⟩ := hpend
      change (bytes t.log).length + m'.data.length = t.written at hbytes
      omega

end Inv

/-- In every run whose calls find what they should the transmit queue is an image of the
send sequence space, and a further call keeps it one exactly if it finds what it should. -/
theorem txQueue_image_iff {c : Conn} {sndMss : Nat} {t : Egress} (hopen : opened c sndMss)
    (hreach : Reaches egressStep txGuard (egressInit c sndMss) t) :
    TxImage t ∧ ∀ e t', ackPremise t e → egressStep t e = some t' →
      (TxImage t' ↔ queuesSafely t e) := by
  have h : TxOk c.sndUna t :=
    hreach.invariant (P := TxOk c.sndUna) (Or.inr (txInv_init hopen)) fun _ _ _ hu hok hs =>
      txOk_step hu hok hs
  refine ⟨h.image, fun e t' hprem hst => ⟨safe_of_image h hprem hst, fun hsafe => ?_⟩⟩
  exact (txOk_step h ⟨hprem, hsafe⟩ hst).image

instance (t : Egress) : (e : EgressEvent) → Decidable (ackPremise t e)
  | .process _ => inferInstanceAs (Decidable (∀ p ∈ _, _ ∧ _))
  | .write _ => inferInstanceAs (Decidable True)
  | .writev _ => inferInstanceAs (Decidable True)
  | .writerStep _ => inferInstanceAs (Decidable True)
  | .shutdown _ _ _ => inferInstanceAs (Decidable True)
  | .shutdownWake _ _ _ => inferInstanceAs (Decidable True)
  | .arrive _ => inferInstanceAs (Decidable True)

instance (t : Egress) (close allocOk : Bool) (ret : Nat) :
    Decidable (finInOrder t close allocOk ret) := inferInstanceAs (Decidable (_ ∨ _))

instance (t : Egress) : (e : EgressEvent) → Decidable (callInOrder t e)
  | .writerStep _ => inferInstanceAs (Decidable (∀ w ∈ t.writer, w.sends = true → _))
  | .shutdown _ _ _ => inferInstanceAs (Decidable (_ ∨ _ ∨ finInOrder ..))
  | .shutdownWake _ _ _ => inferInstanceAs (Decidable (∀ close ∈ _, finInOrder ..))
  | .write _ => inferInstanceAs (Decidable True)
  | .writev _ => inferInstanceAs (Decidable True)
  | .arrive _ => inferInstanceAs (Decidable True)
  | .process _ => inferInstanceAs (Decidable True)

instance (t : Egress) (e : EgressEvent) : Decidable (queuesSafely t e) :=
  inferInstanceAs (Decidable (_ → _))

instance (t : Egress) (e : EgressEvent) : Decidable (txGuard t e) :=
  inferInstanceAs (Decidable (_ ∧ _))

/-- A byte is written and acknowledged, then the connection is closed. -/
theorem txQueue_image_close :
    opened idleConn 1460 ∧ ∃ t t', Reaches egressStep txGuard (egressInit idleConn 1460) t ∧
      TxImage t ∧ ackPremise t (.shutdown true true 0) ∧
      egressStep t (.shutdown true true 0) = some t' ∧ t.conn.err = 0 ∧ finQueued t'.log = true ∧
      (TxImage t' ↔ queuesSafely t (.shutdown true true 0)) := by
  have hopen : opened idleConn 1460 := by
    refine ⟨Or.inr rfl, rfl, rfl, rfl, ?_, ?_, ?_, Or.inl ⟨rfl, rfl⟩⟩ <;> decide
  have hrun : ((runChecked egressStep (fun t e => decide (txGuard t e)) (egressInit idleConn 1460)
      [.write [7], .writerStep true, .writerStep true, .writerStep true, .arrive (pureAck 1),
        .process 0]).bind fun t => (egressStep t (.shutdown true true 0)).map
        fun t' => (t.conn.err, finQueued t'.log)) = some (0, true) := by decide
  obtain ⟨t, ht, hnext⟩ := bind_eq_some_iff.1 hrun
  obtain ⟨t', ht', hview⟩ := map_eq_some_iff.1 hnext
  obtain ⟨herr, hfin⟩ := Prod.mk.inj hview
  have hreach := reaches_of_runChecked (fun _ _ _ h => of_decide_eq_true h) ht
  have hall := txQueue_image_iff hopen hreach
  exact ⟨hopen, t, t', hreach, hall.1, trivial, ht', herr, hfin, hall.2 _ _ trivial ht'⟩

/-- The first 50 bytes of a vector of 100 fill the window and wait in `tx_pending`;
a shutdown queues its FIN, and none of them is before it. -/
theorem fin_before_pending :
    ∃ t, Reaches egressStep anyStep (egressInit { idleConn with sndWnd := 50 } 1460) t ∧
      t.conn.err = 0 ∧ t.written = 50 ∧ bytes t.log = [] ∧ finQueued t.log = true ∧ ¬ TxImage t := by
  obtain ⟨t, hreach, herr, hwritten, hbytes, hfin⟩ :
      ∃ t, Reaches egressStep anyStep (egressInit { idleConn with sndWnd := 50 } 1460) t ∧
        t.conn.err = 0 ∧ t.written = 50 ∧ bytes t.log = [] ∧ finQueued t.log = true :=
    exists_of_runActions [.writev [List.replicate 100 7], .writerStep true, .writerStep true,
      .writerStep true, .writerStep true, .shutdown false true 0] (by decide)
  refine ⟨t, hreach, herr, hwritten, hbytes, hfin, fun himage => ?_⟩
  have hall := (himage herr).2.2.2 hfin
  rw [hbytes, hwritten] at hall
  cases hall

end Svalinn.Tcp
