/-
  Tcp/Timers.lean --- `next_timeout` and the deadlines of a connection.

  Source: `runtime/net/tcp.c` (`tcp_timer_update`, `tcp_handle_timeouts`, `tcp_conn_set_state`,
  `tcp_write_wait`, `tcp_write_finish`, `tcp_retransmit`, `tcp_conn_fail`,
  `tcp_conn_shutdown_tx`), `runtime/net/tcp_in.c` (`tcp_rx_conn`, `__tcp_rx_conn`) and
  `runtime/net/tcp_out.c` (`tcp_tx_fast_retransmit_start`, `tcp_tx_retransmit`).

  The connection is the one of `Handshake`, with the timestamps of `txq`, the timer fields and
  a clock.  Almost every path ends in `tcp_timer_update`, which makes `next_timeout` the minimum
  of what is armed.  Two do not.  The fast path takes segments off `txq` and leaves
  `next_timeout`, although a retransmission may have made the old head the youngest segment.
  A shutdown whose FIN is queued and not sent returns before the state changes.
-/
import Svalinn.Tcp.Handshake
import Svalinn.Lib.Machine

set_option autoImplicit false

namespace Svalinn.Tcp.Timers

open Svalinn.Lib Option

/-! ## The model -/

def tcpAckTimeout : Nat := 10 * 1000

def tcpConnectTimeout : Nat := 5 * 1000 * 1000

def tcpOoqAckTimeout : Nat := 300 * 1000

def tcpTimeWaitTimeout : Nat := 1000 * 1000

def tcpZeroWndTimeout : Nat := 300 * 1000

def tcpRetransmitTimeout : Nat := 300 * 1000

def tcpRetransmitBatch : Nat := 16

/-- `-1L`. -/
def never : Nat := 2 ^ 64 - 1

structure Timed where
  opening : Opening
  /-- `m->timestamp` of the segments of `txq` -/
  stamps : List Nat
  nextTimeout : Nat := never
  ackTs : Nat := 0
  zeroWnd : Bool := false
  zeroWndTs : Nat := 0
  /-- `attach_ts` and `time_wait_ts`, which share their place -/
  waitTs : Nat
  /-- the shutdowns that have found `tx_closed` unset -/
  closers : Nat := 0
  /-- `microtime()` -/
  now : Nat

namespace Timed

abbrev conn (t : Timed) : Conn := t.opening.conn

def setConn (t : Timed) (c : Conn) : Timed := { t with opening := { t.opening with conn := c } }

def connecting (t : Timed) : Bool :=
  decide (t.opening.phase = .synSent) || decide (t.conn.state = .synReceived)

def inState (t : Timed) (st : TcpState) : Bool :=
  decide (t.opening.phase ≠ .synSent) && decide (t.conn.state = st)

end Timed

/-- `next_timeout = MIN(next_timeout, d)` under a condition. -/
def arm (on : Bool) (d next : Nat) : Nat := if on then min next d else next

def tcpTimerUpdate (t : Timed) : Timed :=
  let next := if t.inState .timeWait then t.waitTs + tcpTimeWaitTimeout else never
  let next := if t.connecting then t.waitTs + tcpConnectTimeout else next
  let next := arm t.conn.ackDelayed (t.ackTs + tcpAckTimeout) next
  let next := arm t.zeroWnd (t.zeroWndTs + tcpZeroWndTimeout) next
  let next := arm (! t.conn.txExclusive && ! t.stamps.isEmpty)
    (t.stamps.headD 0 + tcpRetransmitTimeout) next
  { t with nextTimeout := arm (! t.conn.rxqOoo.isEmpty) (t.now + tcpOoqAckTimeout) next }

def tcpConnSetState (t : Timed) (st : TcpState) : Timed :=
  tcpTimerUpdate
    { t with opening := { t.opening with phase := .running, conn := { t.conn with state := st } } }

/-- `tcp_conn_fail`: the timer is set before the queues are freed. -/
def tcpConnFail (t : Timed) (err : Nat) : Timed :=
  let u := tcpConnSetState t .closed
  { u.setConn (Tcp.tcpConnFail u.conn err) with stamps := if t.conn.txExclusive then t.stamps else [] }

def released (stamps : List Nat) (q q' : List Mbuf) : List Nat := stamps.drop (q.length - q'.length)

def restampHead (now : Nat) : List Nat → List Nat
  | [] => []
  | _ :: stamps => now :: stamps

/-! ### Ingress -/

/-- The fast path after its checks; `o` is the connection it leaves. -/
def rxFast (t : Timed) (o : Opening) : Timed :=
  -- `ack_delayed` is set and was not: `++acks_delayed_cnt` was below 2
  let arms := o.conn.ackDelayed && ! t.conn.ackDelayed
  { t with
    opening := o
    stamps := released t.stamps t.conn.txq o.conn.txq
    ackTs := if arms then t.now else t.ackTs
    nextTimeout := arm arms (t.now + tcpAckTimeout) t.nextTimeout }

/-- The slow path; `armed` is `ack_delayed` at the label `done:`, before an acknowledgement
clears it, and `restamp` says whether `tcp_tx_fast_retransmit_start` was called. -/
def rxSlow (t : Timed) (o : Opening) (armed restamp : Bool) : Timed :=
  let stamps := if t.conn.txq.length < o.conn.txq.length then t.stamps ++ [t.now]
    else released t.stamps t.conn.txq o.conn.txq
  let u := tcpTimerUpdate
    { t with
      opening := { o with conn := { o.conn with ackDelayed := armed } }
      stamps := if restamp then restampHead t.now stamps else stamps
      ackTs := if armed && ! t.conn.ackDelayed then t.now else t.ackTs
      waitTs := if o.conn.state = .timeWait ∧ t.conn.state ≠ .timeWait then t.now else t.waitTs }
  u.setConn { u.conn with ackDelayed := o.conn.ackDelayed }

/-- What `armed` and `restamp` can be.  They stand for more than the source does. -/
def slowChoice (t : Timed) (p : OpenPacket) (o : Opening) (armed restamp : Bool) : Bool :=
  (! o.conn.ackDelayed || armed) &&
    (! armed || t.conn.ackDelayed || ! p.seg.data.isEmpty || p.seg.flags.fin) &&
    (! restamp || (! t.conn.txExclusive && decide (tcpFastRetransmitThresh ≤ t.conn.repAcks + 1) &&
      decide (p.seg.ack = t.conn.sndUna) && p.seg.data.isEmpty))

/-- Whether `tcp_rx_conn` stays on the fast path. -/
def fastPath (t : Timed) (p : OpenPacket) : Bool :=
  let len : Seq := BitVec.ofNat 32 p.seg.data.length
  decide (t.opening.phase ≠ .synSent) &&
    ! slowPath t.conn ⟨p.seg.seq, p.seg.seq + len, p.seg.flags, p.seg.data⟩ p.seg.ack p.sndNxt len

def rx (t : Timed) (p : OpenPacket) (allocOk sent : Bool) : Option Opening :=
  if t.opening.phase = .synSent then some (rxSynSent t.opening p allocOk sent)
  else rxRunning t.opening p

/-! ### Writers -/

/-- Whether a writer waits in `tcp_write_wait`. -/
def writeBlocks (t : Timed) : Bool :=
  ! t.conn.txClosed && (t.connecting || t.conn.txExclusive || tcpIsSndFull t.conn)

/-- `tcp_tx_retransmit`; `seen` are the values of `snd_una` it loads, and it ends after `room`
segments: the batch is full, or one could not be sent. -/
def tcpTxRetransmit (now : Nat) : Nat → List Seq → List Mbuf → List Nat → List Nat
  | room + 1, una :: seen, m :: txq, ts :: stamps =>
    if sub64 now ts < tcpRetransmitTimeout then ts :: stamps
    else if wrapsGte una m.segEnd then ts :: tcpTxRetransmit now (room + 1) seen txq stamps
    else now :: tcpTxRetransmit now room seen txq stamps
  | _, _, _, stamps => stamps

def tcpWriteFinish (t : Timed) (txLastAck : Seq) : Timed :=
  let c := tcpConnAck { t.conn with txExclusive := false }
  let sentAck := decide (c.rcvNxt = txLastAck)
  let stamps := released t.stamps t.conn.txq c.txq
  let u := { t with ackTs := if sentAck then t.ackTs else t.now }
  let c := { c with ackDelayed := c.ackDelayed && ! sentAck }
  tcpTimerUpdate (if t.inState .closed then { u.setConn { c with txq := [] } with stamps := [] }
    else
      { u.setConn { c with doFastRetransmit := false } with
        stamps := if c.doFastRetransmit ∧ c.fastRetransmitLastAck = c.sndUna then
          restampHead t.now stamps else stamps })

/-! ### Shutdown and timeouts -/

/-- `tcp_tx_ctl` of the FIN, once it has a buffer. -/
def queueFin (t : Timed) : Timed :=
  { t.setConn { t.conn with sndNxt := t.conn.sndNxt + 1, txq := t.conn.txq ++ [finSegment t.conn] }
    with stamps := t.stamps ++ [t.now] }

/-- The states `tcp_conn_shutdown_tx` knows. -/
def takesFin (t : Timed) : Bool := t.inState .established || t.inState .closeWait

/-- `tcp_conn_shutdown_tx` behind its wait, in `tcp_shutdown` or `tcp_close`. -/
def shutdownTx (t : Timed) (close allocOk : Bool) (ret : Nat) : Timed :=
  let failed (t : Timed) (err : Nat) : Timed := if close then tcpConnFail t err else t
  if allocOk = false then failed t enomem
  else
    let t := queueFin t
    if ret ≠ 0 then failed t ret
    else
      let t := if takesFin t then tcpConnSetState t (shutdownTxState t.conn.state) else t
      t.setConn { t.conn with txClosed := true, rxClosed := t.conn.rxClosed || close }

def etimedout : Nat := 110

/-- `tcp_handle_timeouts`; the differences are unsigned. -/
def tcpHandleTimeouts (t : Timed) (now : Nat) : Timed :=
  if t.inState .closed then t
  else if t.connecting ∧ tcpConnectTimeout ≤ sub64 now t.waitTs then tcpConnFail t etimedout
  else if t.inState .timeWait ∧ tcpTimeWaitTimeout ≤ sub64 now t.waitTs then
    tcpConnSetState t .closed
  else
    let acks := t.conn.ackDelayed && decide (tcpAckTimeout ≤ sub64 now t.ackTs)
    let probes := t.zeroWnd && decide (tcpZeroWndTimeout ≤ sub64 now t.zeroWndTs)
    tcpTimerUpdate
      { t.setConn { t.conn with ackDelayed := t.conn.ackDelayed && ! acks } with
        zeroWndTs := if probes then now else t.zeroWndTs }

inductive Event where
  | tick (us : Nat)
  | rx (p : OpenPacket) (allocOk sent armed restamp : Bool)
  /-- `tcp_write_wait` goes to sleep or returns `-EAGAIN` -/
  | writeWaits
  /-- `tcp_write_wait` is over -/
  | writeGoes
  /-- `tcp_tx_send` queues a segment -/
  | txSend (m : Mbuf) (sndNxt : Seq)
  /-- `tcp_retransmit` takes the queue -/
  | retransmit
  | txRetransmit (room : Nat) (seen : List Seq)
  | writeFinish (txLastAck : Seq)
  /-- `tcp_shutdown` or `tcp_close` looks at `tx_closed` -/
  | shutdown
  | shutdownGoes (close allocOk : Bool) (ret : Nat)
  | handleTimeouts (now : Nat)
  /-- `tcp_conn_fail` by a network error or `tcp_abort` -/
  | fail (err : Nat)

/-- What is done under one hold of the lock, or by the writer without it. -/
def step (t : Timed) : Event → Option Timed
  | .tick us => some { t with now := t.now + us }
  | .rx p allocOk sent armed restamp =>
    if t.conn.rcvMss < p.seg.data.length then some t
    else if fastPath t p then (rxRunning t.opening p).map (rxFast t)
    else (rx t p allocOk sent).bind fun o =>
      if slowChoice t p o armed restamp then some (rxSlow t o armed restamp) else none
  | .writeWaits =>
    if writeBlocks t then
      some (if t.zeroWnd = false ∧ tcpIsSndFull t.conn then
        tcpTimerUpdate { t with zeroWnd := true, zeroWndTs := t.now } else t)
    else none
  | .writeGoes =>
    if writeBlocks t then none
    else
      let u := { t with zeroWnd := false }
      some (if t.conn.txClosed then u
        else u.setConn { t.conn with txExclusive := true, acksDelayedCnt := 0, ackDelayed := false })
  | .txSend m sndNxt =>
    if t.conn.txExclusive then
      some { t.setConn { t.conn with sndNxt := sndNxt, txq := t.conn.txq ++ [m] } with
        stamps := t.stamps ++ [t.now] }
    else none
  | .retransmit =>
    if t.conn.txExclusive = false ∧ t.inState .closed = false then
      some (t.setConn { t.conn with txExclusive := true }) else none
  | .txRetransmit room seen =>
    if t.conn.txExclusive ∧ room ≤ tcpRetransmitBatch then
      some { t with stamps := tcpTxRetransmit t.now room seen t.conn.txq t.stamps } else none
  | .writeFinish txLastAck =>
    if t.conn.txExclusive then some (tcpWriteFinish t txLastAck) else none
  | .shutdown => some (if t.conn.txClosed then t else { t with closers := t.closers + 1 })
  | .shutdownGoes close allocOk ret =>
    if t.closers ≠ 0 ∧ t.conn.txExclusive = false then
      some (shutdownTx { t with closers := t.closers - 1 } close allocOk ret) else none
  | .handleTimeouts now => if now ≤ t.now then some (tcpHandleTimeouts t now) else none
  | .fail err => some (tcpConnFail t err)

/-! ## The deadlines -/

/-- `next_timeout` is at most every armed deadline. -/
structure Met (t : Timed) : Prop where
  connect : t.connecting = true → t.nextTimeout ≤ t.waitTs + tcpConnectTimeout
  timeWait : t.inState .timeWait = true → t.nextTimeout ≤ t.waitTs + tcpTimeWaitTimeout
  ack : t.conn.ackDelayed = true → t.nextTimeout ≤ t.ackTs + tcpAckTimeout
  zeroWnd : t.zeroWnd = true → t.nextTimeout ≤ t.zeroWndTs + tcpZeroWndTimeout
  retransmit : t.conn.txExclusive = false →
    ∀ ts ∈ t.stamps.head?, t.nextTimeout ≤ ts + tcpRetransmitTimeout
  ooo : t.conn.rxqOoo ≠ [] → t.nextTimeout ≤ t.now + tcpOoqAckTimeout

/-- The condition.  The fast path does not uncover a segment older than the head it takes off,
and a FIN queued on an empty queue is followed by a change of state. -/
def keepsDeadlines (t : Timed) : Event → Prop
  | .rx p _ _ _ _ => fastPath t p = true → ∀ o ∈ rxRunning t.opening p, ∀ ts ∈ t.stamps.head?,
      ∀ ts' ∈ (released t.stamps t.conn.txq o.conn.txq).head?, ts ≤ ts'
  | .shutdownGoes close allocOk ret => t.stamps = [] → allocOk = true →
      (ret = 0 ∧ takesFin t = true) ∨ (ret ≠ 0 ∧ close = true)
  | _ => True

instance (t : Timed) (e : Event) : Decidable (keepsDeadlines t e) := by
  cases e <;> unfold keepsDeadlines <;> infer_instance

section Step

variable {t : Timed}

theorem arm_le (on : Bool) (d next : Nat) : arm on d next ≤ next := by
  unfold arm
  split
  · exact min_le_left _ _
  · exact le_refl _

theorem arm_le_deadline {on : Bool} (h : on = true) (d next : Nat) : arm on d next ≤ d := by
  rw [arm, if_pos h]
  exact min_le_right _ _

theorem met_tcpTimerUpdate (t : Timed) : Met (tcpTimerUpdate t) where
  ooo := fun h => arm_le_deadline (by
    rw [show t.conn.rxqOoo.isEmpty = false from Bool.eq_false_iff.2 fun hq => h (List.isEmpty_iff.1 hq)]
    rfl) _ _
  retransmit := fun hfree ts hts => by
    obtain ⟨rest, hstamps⟩ : ∃ rest, t.stamps = ts :: rest := List.head?_eq_some_iff.1 hts
    have hon : (! t.conn.txExclusive && ! t.stamps.isEmpty) = true := by
      rw [show t.conn.txExclusive = false from hfree, hstamps]
      rfl
    have hd : t.stamps.headD 0 = ts := by rw [hstamps]; rfl
    rw [← hd]
    exact (arm_le ..).trans (arm_le_deadline hon _ _)
  zeroWnd := fun h => (arm_le ..).trans ((arm_le ..).trans (arm_le_deadline h _ _))
  ack := fun h => (arm_le ..).trans ((arm_le ..).trans ((arm_le ..).trans (arm_le_deadline h _ _)))
  connect := fun h => (arm_le ..).trans <| (arm_le ..).trans <| (arm_le ..).trans <|
    (arm_le ..).trans (le_of_eq (if_pos h))
  timeWait := fun h => by
    have hconn : ¬t.connecting = true := by
      have hwait : t.inState .timeWait = true := h
      simp only [Timed.inState, Bool.and_eq_true, decide_eq_true_eq] at hwait
      simp [Timed.connecting, hwait]
    exact (arm_le ..).trans <| (arm_le ..).trans <| (arm_le ..).trans <|
      (arm_le ..).trans (le_of_eq ((if_neg hconn).trans (if_pos h)))

theorem Met.mono {u : Timed} (h : Met t) (hnext : u.nextTimeout = t.nextTimeout)
    (hphase : u.opening.phase = t.opening.phase) (hstate : u.conn.state = t.conn.state)
    (hwait : u.waitTs = t.waitTs) (hackTs : u.ackTs = t.ackTs) (hzeroTs : u.zeroWndTs = t.zeroWndTs)
    (hnow : t.now ≤ u.now) (hack : u.conn.ackDelayed = true → t.conn.ackDelayed = true)
    (hzero : u.zeroWnd = true → t.zeroWnd = true)
    (hhead : u.conn.txExclusive = false → t.conn.txExclusive = false ∧
      ∀ ts ∈ u.stamps.head?, ts ∈ t.stamps.head?)
    (hooo : u.conn.rxqOoo ≠ [] → t.conn.rxqOoo ≠ []) : Met u where
  connect := fun hc => by
    rw [hnext, hwait]
    exact h.connect (by rwa [Timed.connecting, hphase, hstate] at hc)
  timeWait := fun hw => by
    rw [hnext, hwait]
    exact h.timeWait (by rwa [Timed.inState, hphase, hstate] at hw)
  ack := fun ha => by
    rw [hnext, hackTs]
    exact h.ack (hack ha)
  zeroWnd := fun hz => by
    rw [hnext, hzeroTs]
    exact h.zeroWnd (hzero hz)
  retransmit := fun hfree ts hts => by
    rw [hnext]
    exact h.retransmit (hhead hfree).1 ts ((hhead hfree).2 ts hts)
  ooo := fun hq => by
    rw [hnext]
    exact (h.ooo (hooo hq)).trans (Nat.add_le_add_right hnow _)

theorem met_tcpConnFail (t : Timed) (err : Nat) : Met (tcpConnFail t err) := by
  refine (met_tcpTimerUpdate _).mono rfl rfl rfl rfl rfl rfl (le_refl _) id id
    (fun hfree => ⟨hfree, ?_⟩) fun hq => absurd rfl hq
  have hnil : (tcpConnFail t err).stamps = [] := if_neg (Bool.eq_false_iff.1 hfree)
  rw [hnil]
  nofun

theorem met_rxSlow {p : OpenPacket} {o : Opening} {armed restamp : Bool}
    (hchoice : slowChoice t p o armed restamp = true) : Met (rxSlow t o armed restamp) := by
  refine (met_tcpTimerUpdate _).mono rfl rfl rfl rfl rfl rfl (le_refl _) (fun hack => ?_) id
    (fun hfree => ⟨hfree, fun _ => id⟩) id
  have hack' : o.conn.ackDelayed = true := hack
  simp only [slowChoice, hack', Bool.not_true, Bool.false_or, Bool.and_eq_true] at hchoice
  exact hchoice.1.1

theorem rxRunning_fast {p : OpenPacket} {o : Opening} (hlen : ¬t.conn.rcvMss < p.seg.data.length)
    (hfast : fastPath t p = true) (h : rxRunning t.opening p = some o) :
    o.phase = t.opening.phase ∧ t.opening.phase ≠ .synSent ∧ t.conn.state = .established ∧
      o.conn.state = .established ∧ o.conn.txExclusive = t.conn.txExclusive ∧ o.conn.rxqOoo = [] := by
  obtain ⟨r, hr, rfl⟩ := map_eq_some_iff.1 h
  simp only [fastPath, Bool.and_eq_true, Bool.not_eq_true', decide_eq_true_eq] at hfast
  obtain ⟨hphase, hslow⟩ := hfast
  unfold tcpRxConn at hr
  dsimp only at hr
  rw [if_neg hlen, if_neg (Bool.eq_false_iff.1 hslow)] at hr
  obtain ⟨⟩ := hr
  simp only [slowPath, Bool.or_eq_false_iff, decide_eq_false_iff_not, not_not,
    Bool.not_eq_false', List.isEmpty_iff] at hslow
  obtain ⟨⟨⟨⟨⟨⟨-, hnxt⟩, hstate⟩, -⟩, -⟩, hooo⟩, -⟩ := hslow
  obtain ⟨-, -, -, hq, hst, -⟩ := tcpRxFast_spec (c := t.conn)
    (m := ⟨p.seg.seq, p.seg.seq + BitVec.ofNat 32 p.seg.data.length, p.seg.flags, p.seg.data⟩)
    p.seg.ack (p.seg.win.setWidth 32 <<< t.conn.sndWscale) (BitVec.ofNat 32 p.seg.data.length)
  exact ⟨rfl, hphase, hstate, hst.trans hstate, (tcpRxFast_tx t.conn _ hnxt).txExclusive,
    hq.trans hooo⟩

theorem Met.rxFast {p : OpenPacket} {o : Opening} (h : Met t)
    (hlen : ¬t.conn.rcvMss < p.seg.data.length) (hfast : fastPath t p = true)
    (ho : rxRunning t.opening p = some o)
    (hsafe : ∀ ts ∈ t.stamps.head?, ∀ ts' ∈ (released t.stamps t.conn.txq o.conn.txq).head?, ts ≤ ts') :
    Met (rxFast t o) := by
  obtain ⟨hphase, hopen, hst, hst', hexcl, hooo⟩ := rxRunning_fast hlen hfast ho
  have hle : (Timers.rxFast t o).nextTimeout ≤ t.nextTimeout := arm_le ..
  have hstate : ∀ st, st ≠ .established → (Timers.rxFast t o).inState st = false := by
    intro st hne
    simp only [Timed.inState, Timed.conn, Timers.rxFast, hst', Ne.symm hne, decide_false,
      Bool.and_false]
  have hconnecting : (Timers.rxFast t o).connecting = false := by
    simp [Timed.connecting, Timed.conn, Timers.rxFast, hst', hphase, hopen]
  refine ⟨fun hc => ?_, fun hw => ?_, fun hack => ?_, fun hz => hle.trans (h.zeroWnd hz),
    fun hfree ts hts => ?_, fun hq => absurd hooo hq⟩
  · exact absurd (hconnecting.symm.trans hc) (by decide)
  · exact absurd ((hstate .timeWait (by decide)).symm.trans hw) (by decide)
  · change o.conn.ackDelayed = true at hack
    cases hold : t.conn.ackDelayed with
    | false =>
      have harms : (o.conn.ackDelayed && ! t.conn.ackDelayed) = true := by rw [hack, hold]; rfl
      change arm _ _ _ ≤ (if _ then _ else _) + _
      rw [if_pos harms]
      exact arm_le_deadline harms _ _
    | true =>
      have harms : (o.conn.ackDelayed && ! t.conn.ackDelayed) = false := by rw [hack, hold]; rfl
      change _ ≤ (if _ then _ else _) + _
      rw [if_neg (Bool.eq_false_iff.1 harms)]
      exact hle.trans (h.ack hold)
  · -- the new head is no older than the one that was there
    cases hhead : t.stamps with
    | nil =>
      have hnil : released t.stamps t.conn.txq o.conn.txq = [] := by rw [hhead]; exact List.drop_nil
      change ts ∈ (released t.stamps t.conn.txq o.conn.txq).head? at hts
      rw [hnil] at hts
      cases hts
    | cons old rest =>
      have hold : old ∈ t.stamps.head? := by rw [hhead]; rfl
      have hdue := h.retransmit (hexcl.symm.trans hfree) old hold
      have hage := hsafe old hold ts hts
      omega

theorem Met.shutdownTx {close allocOk : Bool} {ret : Nat} (h : Met t)
    (hsafe : t.stamps = [] → allocOk = true →
      (ret = 0 ∧ takesFin t = true) ∨ (ret ≠ 0 ∧ close = true)) :
    Met (shutdownTx t close allocOk ret) := by
  have hqueued : t.stamps ≠ [] → Met (queueFin t) := fun hne =>
    h.mono rfl rfl rfl rfl rfl rfl (le_refl _) id id (fun hfree => ⟨hfree, fun ts hts => by
        change ts ∈ (t.stamps ++ [t.now]).head? at hts
        rwa [List.head?_append_of_ne_nil _ hne] at hts⟩) id
  have hset : ∀ {u : Timed} {b : Bool}, Met u →
      Met (u.setConn { u.conn with txClosed := true, rxClosed := b }) := fun hu =>
    hu.mono rfl rfl rfl rfl rfl rfl (le_refl _) id id (fun hfree => ⟨hfree, fun _ => id⟩) id
  unfold Timers.shutdownTx
  dsimp only
  split
  · split
    · exact met_tcpConnFail _ _
    · exact h
  · rename_i halloc
    split
    · rename_i hret
      split
      · exact met_tcpConnFail _ _
      · rename_i hclose
        exact hqueued fun hnil => (hsafe hnil (by simpa using halloc)).elim (fun hs => hret hs.1)
          fun hs => hclose hs.2
    · rename_i hret
      refine hset ?_
      split
      · exact met_tcpTimerUpdate _
      · rename_i hfin
        exact hqueued fun hnil => (hsafe hnil (by simpa using halloc)).elim (fun hs => hfin hs.2)
          fun hs => hret hs.1

theorem met_tcpHandleTimeouts (h : Met t) (now : Nat) : Met (tcpHandleTimeouts t now) := by
  unfold tcpHandleTimeouts
  split
  · exact h
  split
  · exact met_tcpConnFail _ _
  split
  · exact met_tcpTimerUpdate _
  · exact met_tcpTimerUpdate _

theorem Met.step {u : Timed} {e : Event} (h : Met t) (hsafe : keepsDeadlines t e)
    (hstep : step t e = some u) : Met u := by
  cases e with
  | tick us =>
    obtain ⟨⟩ := hstep
    exact h.mono rfl rfl rfl rfl rfl rfl (Nat.le_add_right _ _) id id
      (fun hfree => ⟨hfree, fun _ => id⟩) id
  | rx p allocOk sent armed restamp =>
    unfold Timers.step at hstep
    dsimp only at hstep
    split at hstep
    · obtain ⟨⟩ := hstep
      exact h
    · rename_i hlen
      split at hstep
      · rename_i hfast
        obtain ⟨o, ho, rfl⟩ := map_eq_some_iff.1 hstep
        exact h.rxFast hlen hfast ho (hsafe hfast o ho)
      · obtain ⟨o, -, ho⟩ := bind_eq_some_iff.1 hstep
        obtain ⟨hchoice, rfl⟩ := ite_some_none_eq_some.1 ho
        exact met_rxSlow hchoice
  | writeWaits =>
    obtain ⟨-, rfl⟩ := ite_some_none_eq_some.1 hstep
    split
    · exact met_tcpTimerUpdate _
    · exact h
  | writeGoes =>
    obtain ⟨-, hstep⟩ := ite_none_left_eq_some.1 hstep
    obtain ⟨⟩ := hstep
    split
    · exact h.mono rfl rfl rfl rfl rfl rfl (le_refl _) id nofun (fun hfree => ⟨hfree, fun _ => id⟩) id
    · exact h.mono rfl rfl rfl rfl rfl rfl (le_refl _) nofun nofun nofun id
  | txSend m sndNxt =>
    obtain ⟨hexcl, rfl⟩ := ite_some_none_eq_some.1 hstep
    exact h.mono rfl rfl rfl rfl rfl rfl (le_refl _) id id
      (fun hfree => absurd (hexcl.symm.trans hfree) (by decide)) id
  | retransmit =>
    obtain ⟨-, rfl⟩ := ite_some_none_eq_some.1 hstep
    exact h.mono rfl rfl rfl rfl rfl rfl (le_refl _) id id nofun id
  | txRetransmit room seen =>
    obtain ⟨⟨hexcl, -⟩, rfl⟩ := ite_some_none_eq_some.1 hstep
    exact h.mono rfl rfl rfl rfl rfl rfl (le_refl _) id id
      (fun hfree => absurd (hexcl.symm.trans hfree) (by decide)) id
  | writeFinish txLastAck =>
    obtain ⟨-, rfl⟩ := ite_some_none_eq_some.1 hstep
    exact met_tcpTimerUpdate _
  | shutdown =>
    obtain ⟨⟩ := hstep
    split
    · exact h
    · exact h.mono rfl rfl rfl rfl rfl rfl (le_refl _) id id (fun hfree => ⟨hfree, fun _ => id⟩) id
  | shutdownGoes close allocOk ret =>
    obtain ⟨-, rfl⟩ := ite_some_none_eq_some.1 hstep
    exact Met.shutdownTx (h.mono rfl rfl rfl rfl rfl rfl (le_refl _) id id
      (fun hfree => ⟨hfree, fun _ => id⟩) id) hsafe
  | handleTimeouts now =>
    obtain ⟨-, rfl⟩ := ite_some_none_eq_some.1 hstep
    exact met_tcpHandleTimeouts h now
  | fail err =>
    obtain ⟨⟩ := hstep
    exact met_tcpConnFail t err

end Step

/-- From any connection whose timer has just been set, as `tcp_conn_set_state` does when it is opened:
in every run that meets the condition no deadline is missed. -/
theorem no_deadline_missed {t₀ t : Timed}
    (hreach : Reaches step keepsDeadlines (tcpTimerUpdate t₀) t) : Met t :=
  hreach.invariant (P := Met) (met_tcpTimerUpdate t₀) fun _ _ _ hu hsafe hstep => hu.step hsafe hstep

/-! ## Runs -/

/-- `__tcp_dial` has sent its SYN at time 0. -/
def dialed : Timed :=
  { opening := openConnection (dialInit 0 1460) true true true, stamps := [0], waitTs := 0, now := 0 }

/-- A segment of the peer at offset `off` of its stream. -/
def fromPeer (off : Seq) (ack : Seq) (n : Fin 16) (syn armed restamp : Bool) : Event :=
  .rx
    { seg :=
        { seq := 100 + off, ack := ack, win := 8000, flags := { syn := syn }
          data := List.replicate n 0, length_lt := by rw [List.length_replicate]; omega }
      opts := {}
      sndNxt := 21 }
    true true armed restamp

/-- Two segments of ten bytes are sent at time 0.  Three duplicate acknowledgements make the
first one be sent again, and the delayed acknowledgement of a data segment runs out. -/
def fastRetransmitted : List Event :=
  [fromPeer 0 1 0 true false false, .writeGoes, .txSend ⟨1, 11, {}, []⟩ 11,
    .txSend ⟨11, 21, {}, []⟩ 21, .writeFinish 101, .tick 200000, fromPeer 1 1 0 false false false,
    fromPeer 1 1 0 false false false, fromPeer 1 1 0 false false true,
    fromPeer 1 1 1 false false false, .tick 10000, .handleTimeouts 210000]

theorem no_deadline_missed_resent : ∃ t, Reaches step keepsDeadlines (tcpTimerUpdate dialed) t ∧
    t.stamps = [200000, 0] ∧ t.nextTimeout = 500000 ∧ Met t := by
  obtain ⟨t, hreach, hstamps, hnext⟩ : ∃ t, Reaches step keepsDeadlines (tcpTimerUpdate dialed) t ∧
      t.stamps = [200000, 0] ∧ t.nextTimeout = 500000 :=
    exists_of_runChecked fastRetransmitted (by decide +kernel)
  exact ⟨t, hreach, hstamps, hnext, no_deadline_missed hreach⟩

/-- The next data segment acknowledges the first segment: the second is overdue at 300000, and the
timer stands at 500000. And a FIN that is not sent is queued with no timer at all. -/
theorem deadlines_missed :
    (∃ t, Reaches step anyStep (tcpTimerUpdate dialed) t ∧ t.conn.state = .established ∧
      t.conn.txExclusive = false ∧ t.stamps = [0] ∧ t.nextTimeout = 500000) ∧
    ∃ t, Reaches step anyStep (tcpTimerUpdate dialed) t ∧ t.conn.state = .established ∧
      t.conn.txExclusive = false ∧ t.stamps = [0] ∧ t.nextTimeout = never :=
  ⟨exists_of_runActions (fastRetransmitted ++ [fromPeer 2 11 1 false false false])
      (by decide +kernel),
    exists_of_runActions
      [fromPeer 0 1 0 true false false, .shutdown, .shutdownGoes false true enomem]
      (by decide +kernel)⟩

end Svalinn.Tcp.Timers
