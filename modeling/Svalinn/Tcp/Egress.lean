/-
  Tcp/Egress.lean --- writers, shutdowns and ingress around the transmit queue.

  Source: `runtime/net/tcp_out.c` (`tcp_tx_ctl`, `tcp_tx_send`) and
  `runtime/net/tcp.c` (`tcp_write_wait`, `tcp_write_finish`, `tcp_write`,
  `tcp_writev`, `tcp_conn_shutdown_tx`, `tcp_shutdown`, `tcp_close`).

  A writer holds `tx_exclusive` and runs without the lock; one iteration of its
  segmenter loop is one step.  A shutdown that finds the socket exclusive waits
  and goes on behind the wait without looking at `tx_closed` again.  An ingress
  packet is two steps: it reads `snd_nxt`, and later runs under the lock with the
  value it has read.

  What `net_tx_ip` answers matters only for the control segment of a shutdown:
  data segments are queued and counted as sent either way.  Retransmission and
  timers are left out.
-/
import Svalinn.Tcp.FastPath

set_option autoImplicit false

namespace Svalinn.Tcp

open Svalinn.Lib

/-- Where a `tcp_write` or `tcp_writev` stands. -/
inductive Writer where
  /-- at the head of the loop over the vectors, `winlen` bytes of window left -/
  | next (iov : List (List UInt8)) (winlen : Nat)
  /-- in the segmenter loop of `tcp_tx_send`, `sent` bytes done and `buf` to go -/
  | send (buf : List UInt8) (push : Bool) (sent : Nat) (iov : List (List UInt8)) (winlen : Nat)
  /-- before `tcp_write_finish` -/
  | finish
  deriving DecidableEq

/-- An ingress packet between its read of `snd_nxt` and the lock; `lag` counts the
sequence numbers assigned since. -/
structure Packet where
  seg : Segment
  sndNxt : Seq
  lag : Nat
  deriving DecidableEq

/-- A connection with its transmit side.  `log` holds the segments ever put into
`txq`, `written` the bytes reported to writers. -/
structure Egress where
  conn : Conn
  sndMss : Nat
  txPending : Option Mbuf
  writer : Option Writer
  /-- the shutdowns that wait for the writer; `true` for a `tcp_close` -/
  waiting : List Bool
  inflight : List Packet
  log : List Mbuf
  written : Nat
  deriving DecidableEq

/-- `snd_nxt` moves on by `n`. -/
def Egress.assign (t : Egress) (n : Nat) : Egress :=
  { t with
    conn := { t.conn with sndNxt := t.conn.sndNxt + BitVec.ofNat 32 n }
    inflight := t.inflight.map fun p => { p with lag := p.lag + n } }

/-- A segment is added at the end of `txq`. -/
def Egress.enqueue (t : Egress) (m : Mbuf) : Egress :=
  { t with conn := { t.conn with txq := t.conn.txq ++ [m] }, log := t.log ++ [m] }

/-! ## Writers -/

/-- `tcp_write_wait`, when it does not block: the connection and `winlen`. -/
def tcpWriteWait (c : Conn) : Option (Conn × Nat) :=
  if c.txClosed ∨ c.state = .synReceived ∨ c.txExclusive ∨ tcpIsSndFull c then none
  else some ({ c with txExclusive := true, acksDelayedCnt := 0, ackDelayed := false },
    (c.sndUna + c.sndWnd - c.sndNxt).toNat)

def tcpHdrLen : Nat := 20

/-- Whether a segment of `len` bytes is kept for later: `len - sizeof(struct tcp_hdr)`
is unsigned. -/
def keepsPending (len mss : Nat) : Bool := decide (tcpHdrLen ≤ len ∧ len - tcpHdrLen < mss)

def segmentBuf (t : Egress) : Mbuf :=
  t.txPending.getD
    { segSeq := t.conn.sndNxt, segEnd := t.conn.sndNxt, flags := {}, data := [] }

/-- The bytes an iteration of `tcp_tx_send` takes. -/
def segmentLen (t : Egress) (buf : List UInt8) : Nat :=
  min buf.length (t.sndMss - (segmentBuf t).data.length)

/-- The buffer with the bytes copied and `seg_end` moved. -/
def segmentFilled (t : Egress) (buf : List UInt8) : Mbuf :=
  { segmentBuf t with
    segEnd := (segmentBuf t).segEnd + BitVec.ofNat 32 (segmentLen t buf)
    data := (segmentBuf t).data ++ buf.take (segmentLen t buf) }

/-- Behind the segmenter loop: `ret` bytes were sent; nothing sent ends the write. -/
def afterSend (ret : Nat) (iov : List (List UInt8)) (winlen : Nat) : Writer :=
  if ret = 0 then .finish else .next iov (winlen - ret)

/-- One iteration of the loop of `tcp_tx_send`; `allocOk` is whether a new buffer
could be allocated. -/
def txSendStep (t : Egress) (buf : List UInt8) (push : Bool) (sent : Nat)
    (iov : List (List UInt8)) (winlen : Nat) (allocOk : Bool) : Egress :=
  if t.txPending = none ∧ allocOk = false then { t with writer := some (afterSend sent iov winlen) }
  else
    let n := segmentLen t buf
    let m := segmentFilled t buf
    let buf' := buf.drop n
    let t := { (t.assign n) with txPending := none, written := t.written + n }
    if push = false ∧ buf' = [] ∧ keepsPending m.data.length t.sndMss then
      { t with txPending := some m, writer := some (afterSend (sent + n) iov winlen) }
    else
      let m := if push = true ∧ buf' = [] then { m with flags := { m.flags with push := true } } else m
      { (t.enqueue m) with
        writer := some (if buf' = [] then afterSend (sent + n) iov winlen
          else .send buf' push (sent + n) iov winlen) }

def tcpWriteFinish (t : Egress) : Egress :=
  let c := tcpConnAck { t.conn with txExclusive := false }
  if c.state = .closed then
    { t with conn := { c with txq := [] }, txPending := none, writer := none }
  else { t with conn := { c with doFastRetransmit := false }, writer := none }

/-! ## Shutdown -/

/-- The control segment of `tcp_tx_ctl(c, TCP_FIN | TCP_ACK, NULL)`. -/
def finSegment (c : Conn) : Mbuf :=
  { segSeq := c.sndNxt, segEnd := c.sndNxt + 1, flags := { fin := true }, data := [] }

/-- `tcp_conn_fail` with the pending segment. -/
def Egress.fail (t : Egress) (err : Nat) : Egress :=
  { t with
    conn := tcpConnFail t.conn err
    txPending := if t.conn.txExclusive then t.txPending else none }

def enomem : Nat := 12

/-- `tcp_conn_shutdown_tx` behind its wait, and what its caller does with the
result.  `close` tells `tcp_close` from `tcp_shutdown`; `ret` is the error code of
`net_tx_ip`, 0 for success. -/
def shutdownTx (t : Egress) (close allocOk : Bool) (ret : Nat) : Egress :=
  let failed (t : Egress) (err : Nat) : Egress := if close then t.fail err else t
  if allocOk = false then failed t enomem
  else
    let t := (t.enqueue (finSegment t.conn)).assign 1
    if ret ≠ 0 then failed t ret
    else
      { t with conn := { t.conn with
          state := shutdownTxState t.conn.state, txClosed := true
          rxClosed := t.conn.rxClosed || close } }

/-! ## The system -/

inductive EgressEvent where
  /-- `tcp_write` of a buffer -/
  | write (buf : List UInt8)
  /-- `tcp_writev` of a vector -/
  | writev (iov : List (List UInt8))
  /-- the writer goes on; `allocOk` answers its allocation -/
  | writerStep (allocOk : Bool)
  /-- `tcp_shutdown` or `tcp_close` is called -/
  | shutdown (close allocOk : Bool) (ret : Nat)
  | shutdownWake (i : Nat) (allocOk : Bool) (ret : Nat)
  /-- a packet reads `snd_nxt` -/
  | arrive (seg : Segment)
  | process (i : Nat)
  deriving DecidableEq

/-- The writer after the head of the loop of `tcp_writev`. -/
def writerNext : List (List UInt8) → Nat → Writer
  | [], _ => .finish
  | v :: iov, winlen =>
    if winlen = 0 then .finish
    else .send (v.take winlen) (iov.isEmpty && decide (v.length ≤ winlen)) 0 iov winlen

def egressStep (t : Egress) : EgressEvent → Option Egress
  | .write buf =>
    (tcpWriteWait t.conn).map fun r =>
      { t with conn := r.1, writer := some (.send (buf.take r.2) true 0 [] r.2) }
  | .writev iov =>
    (tcpWriteWait t.conn).map fun r => { t with conn := r.1, writer := some (.next iov r.2) }
  | .writerStep allocOk =>
    match t.writer with
    | none => none
    | some (.next iov winlen) => some { t with writer := some (writerNext iov winlen) }
    | some (.send buf push sent iov winlen) =>
      some (txSendStep t buf push sent iov winlen allocOk)
    | some .finish => some (tcpWriteFinish t)
  | .shutdown close allocOk ret =>
    if t.conn.txClosed then
      some (if close then { t with conn := { t.conn with rxClosed := true } } else t)
    else if t.conn.txExclusive then some { t with waiting := t.waiting ++ [close] }
    else some (shutdownTx t close allocOk ret)
  | .shutdownWake i allocOk ret =>
    match t.waiting[i]? with
    | none => none
    | some close =>
      if t.conn.txExclusive then none
      else some (shutdownTx { t with waiting := t.waiting.eraseIdx i } close allocOk ret)
  | .arrive seg =>
    some { t with inflight := t.inflight ++ [⟨seg, t.conn.sndNxt, 0⟩] }
  | .process i =>
    match t.inflight[i]? with
    | none => none
    | some p =>
      (tcpRxConn t.conn p.seg p.sndNxt).map fun o =>
        { t with conn := o.conn, inflight := t.inflight.eraseIdx i }

theorem tcpWriteWait_some {c : Conn} {r : Conn × Nat} (h : tcpWriteWait c = some r) :
    r.1 = { c with txExclusive := true, acksDelayedCnt := 0, ackDelayed := false } ∧
      r.2 = (c.sndUna + c.sndWnd - c.sndNxt).toNat ∧ c.txClosed = false ∧
      c.state ≠ .synReceived ∧ c.txExclusive = false ∧ tcpIsSndFull c = false := by
  unfold tcpWriteWait at h
  split at h
  · cases h
  · rename_i hgo
    simp only [not_or, Bool.not_eq_true] at hgo
    cases h
    exact ⟨rfl, rfl, hgo⟩

/-! ## What a segment does to the send side -/

/-- `txq` without what is acknowledged by `ack`; an exclusive writer releases later. -/
def releasedQueue (c : Conn) (ack : Seq) : List Mbuf :=
  if c.txExclusive then c.txq else c.txq.dropWhile fun m => ! decide (wrapsGt m.segEnd ack)

/-- An acknowledgement was processed: `snd_una` moved to `ack` and what it covers
was released, or it stayed; the window is the old one or the segment's. -/
structure AckedTx (c c' : Conn) (ack sndNxt win : Seq) : Prop where
  moved : (c'.sndUna = c.sndUna ∧ c'.txq = c.txq) ∨
    (wrapsLte c.sndUna ack ∧ wrapsLte ack sndNxt ∧ c'.sndUna = ack ∧ c'.txq = releasedQueue c ack)
  sndNxt : c'.sndNxt = c.sndNxt
  sndWnd : c'.sndWnd = c.sndWnd ∨ c'.sndWnd = win
  sndWscale : c'.sndWscale = c.sndWscale
  txClosed : c'.txClosed = c.txClosed
  txExclusive : c'.txExclusive = c.txExclusive
  err : c'.err = c.err

section Send

variable {c c' c'' : Conn} {seq len ack sndNxt win : Seq} {m : Mbuf}

theorem AckedTx.of_same (h : SameTx c c') : AckedTx c c' ack sndNxt win :=
  ⟨Or.inl ⟨h.sndUna, h.txq⟩, h.sndNxt, Or.inl h.sndWnd, h.sndWscale, h.txClosed, h.txExclusive,
    h.err⟩

theorem AckedTx.then_same (h : AckedTx c c' ack sndNxt win) (h' : SameTx c' c'') :
    AckedTx c c'' ack sndNxt win := by
  refine ⟨?_, h'.sndNxt.trans h.sndNxt, ?_, h'.sndWscale.trans h.sndWscale,
    h'.txClosed.trans h.txClosed, h'.txExclusive.trans h.txExclusive, h'.err.trans h.err⟩
  · rw [h'.sndUna, h'.txq]
    exact h.moved
  · rw [h'.sndWnd]
    exact h.sndWnd

theorem tcpRxAppendText_tx (h : tcpRxAppendText c m = some c') : SameTx c c' ∧ c'.state = c.state := by
  unfold tcpRxAppendText at h
  split at h
  · cases h
  · split at h
    · cases h
    · cases h
      exact ⟨{ SameTx.refl with }, rfl⟩

theorem drain_tx {q : List Mbuf} {o o' : TextOut} (h : drain q o = some o') :
    SameTx o.conn o'.conn ∧ o'.conn.state = o.conn.state := by
  fun_induction drain q o with
  | case1 | case3 =>
    cases h
    exact ⟨{ SameTx.refl with }, rfl⟩
  | case2 _ _ _ _ ih =>
    obtain ⟨hsame, hstate⟩ := ih h
    exact ⟨{ hsame with }, hstate⟩
  | case4 => cases h
  | case5 _ _ o _ _ _ happend ih =>
    obtain ⟨hsame₁, hstate₁⟩ := tcpRxAppendText_tx happend
    obtain ⟨hsame₂, hstate₂⟩ := ih h
    have hsame : SameTx o.conn _ := { hsame₁ with }
    exact ⟨hsame.trans hsame₂, hstate₂.trans hstate₁⟩

theorem tcpRxText_tx {t : TextOut} (h : tcpRxText c m = some t) :
    SameTx c t.conn ∧ t.conn.state = c.state := by
  rcases tcpRxText_cases h with ⟨hconn, -⟩ | ⟨o₁, o₂, -, hdrain, hconn, -, hstart⟩ <;> rw [hconn]
  · exact ⟨.refl, rfl⟩
  · obtain ⟨hsame₂, hstate₂⟩ := drain_tx hdrain
    rcases hstart with ⟨-, happend⟩ | ⟨-, q, -, hqueued⟩
    · obtain ⟨hsame₁, hstate₁⟩ := tcpRxAppendText_tx happend
      exact ⟨hsame₁.trans hsame₂, hstate₂.trans hstate₁⟩
    · rw [hqueued] at hsame₂ hstate₂
      exact ⟨{ hsame₂ with }, hstate₂⟩

theorem rxDone_tx {o : RxOut} (hconn : o.conn = c) :
    SameTx c (rxDone o).conn ∧ (rxDone o).conn.state = c.state := by
  subst hconn
  unfold rxDone
  split
  · exact ⟨{ SameTx.refl with }, rfl⟩
  · exact ⟨.refl, rfl⟩

def finState : TcpState → TcpState
  | .established => .closeWait
  | .finWait1 => .closing
  | .finWait2 => .timeWait
  | st => st

theorem processFin_tx {o : RxOut} (hconn : o.conn = c) :
    SameTx c (processFin o).conn ∧ (processFin o).conn.state = finState c.state := by
  subst hconn
  unfold processFin
  cases hst : o.conn.state <;> first
    | exact ⟨{ SameTx.refl with }, rfl⟩
    | exact ⟨.refl, hst⟩

theorem delayAck_tx : SameTx c (delayAck c).1 ∧ (delayAck c).1.state = c.state := by
  unfold delayAck
  split
  · exact ⟨{ SameTx.refl with }, rfl⟩
  · exact ⟨{ SameTx.refl with }, rfl⟩

theorem processText_tx {o : RxOut} (h : processText c m len = some o) :
    SameTx c o.conn ∧ (o.conn.state = c.state ∨ o.conn.state = finState c.state) := by
  unfold processText at h
  split at h
  · split at h
    · cases h
    · rename_i t htext
      cases h
      obtain ⟨hsame₁, hstate₁⟩ := tcpRxText_tx htext
      obtain ⟨hsame₂, hstate₂⟩ := delayAck_tx (c := t.conn)
      split
      · obtain ⟨hsame₃, hstate₃⟩ := processFin_tx (c := (delayAck t.conn).1)
          (o := { conn := (delayAck t.conn).1, doAck := _, doDrop := _ }) rfl
        obtain ⟨hsame₄, hstate₄⟩ := rxDone_tx (o := processFin _) rfl
        refine ⟨((hsame₁.trans hsame₂).trans hsame₃).trans hsame₄, Or.inr ?_⟩
        rw [hstate₄, hstate₃, hstate₂, hstate₁]
      · obtain ⟨hsame₃, hstate₃⟩ := rxDone_tx (c := (delayAck t.conn).1)
          (o := { conn := (delayAck t.conn).1, doAck := _, doDrop := _ }) rfl
        refine ⟨(hsame₁.trans hsame₂).trans hsame₃, Or.inl ?_⟩
        rw [hstate₃, hstate₂, hstate₁]
  · cases h
    obtain ⟨hsame, hstate⟩ := rxDone_tx (c := c) (o := { conn := c }) rfl
    exact ⟨hsame, Or.inl hstate⟩

theorem tcpConnAck_tx (c : Conn) :
    (tcpConnAck c).sndUna = c.sndUna ∧ (tcpConnAck c).sndNxt = c.sndNxt ∧
      (tcpConnAck c).sndWnd = c.sndWnd ∧ (tcpConnAck c).sndWscale = c.sndWscale ∧
      (tcpConnAck c).txClosed = c.txClosed ∧ (tcpConnAck c).txExclusive = c.txExclusive ∧
      (tcpConnAck c).err = c.err ∧ (tcpConnAck c).txq = releasedQueue c c.sndUna := by
  unfold tcpConnAck releasedQueue
  split
  · exact ⟨rfl, rfl, rfl, rfl, rfl, rfl, rfl, rfl⟩
  · exact ⟨rfl, rfl, rfl, rfl, rfl, rfl, rfl, rfl⟩

theorem released_tx (hle : wrapsLte c.sndUna ack) (hnxt : wrapsLte ack sndNxt) :
    AckedTx c (released c ack) ack sndNxt win := by
  unfold released
  by_cases hsame : c.sndUna = ack
  · rw [if_pos hsame]
    exact .of_same .refl
  · rw [if_neg hsame]
    obtain ⟨huna, hn, hwnd, hscale, hclosed, hexcl, herr, htxq⟩ :=
      tcpConnAck_tx { c with sndUna := ack }
    exact ⟨Or.inr ⟨hle, hnxt, huna, htxq⟩, hn, Or.inl hwnd, hscale, hclosed, hexcl, herr⟩

theorem AckedTx.withWindow (h : AckedTx c c' ack sndNxt win) (seq ack' : Seq) :
    AckedTx c (c'.withWindow seq ack' win) ack sndNxt win :=
  { h with sndWnd := Or.inr rfl }

theorem processAck_tx (h : processAck c seq len ack sndNxt win = some c') :
    AckedTx c c' ack sndNxt win := by
  rcases processAck_snd h with ⟨hle, hnxt, hsnd⟩ | ⟨-, hsnd⟩
  · split at hsnd
    · exact ((released_tx hle hnxt).withWindow seq ack).then_same hsnd.toSameTx
    · exact (released_tx hle hnxt).then_same hsnd.toSameTx
  · exact .of_same hsnd.toSameTx

def ackState : TcpState → TcpState
  | .finWait1 => .finWait2
  | .closing => .timeWait
  | .lastAck => .closed
  | st => st

theorem finAcked_tx (c : Conn) (sndNxt : Seq) :
    SameTx c (finAcked c sndNxt) ∧ ((finAcked c sndNxt).state = c.state ∨
      (c.sndUna = sndNxt ∧ (finAcked c sndNxt).state = ackState c.state)) := by
  unfold finAcked
  split
  · rename_i hst
    split
    · rename_i hall
      exact ⟨{ SameTx.refl with }, Or.inr ⟨hall, by rw [hst]; rfl⟩⟩
    · exact ⟨.refl, Or.inl rfl⟩
  · rename_i hst
    split
    · rename_i hall
      exact ⟨{ SameTx.refl with }, Or.inr ⟨hall, by rw [hst]; rfl⟩⟩
    · exact ⟨.refl, Or.inl rfl⟩
  · rename_i hst
    split
    · rename_i hall
      exact ⟨{ SameTx.refl with }, Or.inr ⟨hall, by rw [hst]; rfl⟩⟩
    · exact ⟨.refl, Or.inl rfl⟩
  · exact ⟨.refl, Or.inl rfl⟩

/-- The states a segment without RST and SYN can lead to; `acked` is whether it
acknowledges everything up to the number it was compared with. -/
def RxStates (st : TcpState) (acked : Prop) (st' : TcpState) : Prop :=
  st' = st ∨ st' = finState st ∨ (st = .synReceived ∧ (st' = .established ∨ st' = .closeWait)) ∨
    (acked ∧ (st' = ackState st ∨ st' = finState (ackState st)))

theorem tcpRxFast_tx (c : Conn) (m : Mbuf) (hnxt : ¬ wrapsGt ack sndNxt) :
    AckedTx c (tcpRxFast c m ack win len).conn ack sndNxt win := by
  have hsnd := (tcpRxFast_snd c m ack win len).toSameTx
  split at hsnd
  · rename_i hle
    have hrel : AckedTx c (released c ack) ack sndNxt win :=
      released_tx hle (wrapsLte_of_not_wrapsGt hnxt)
    split at hsnd
    · exact (hrel.withWindow m.segSeq ack).then_same hsnd
    · exact hrel.then_same hsnd
  · exact .of_same hsnd

theorem opened_states {st st₀ : TcpState} {acked : Prop}
    (h : st₀ = st ∨ (st = .synReceived ∧ st₀ = .established)) : RxStates st acked st₀ := by
  rcases h with h | ⟨hst, h⟩
  · exact Or.inl h
  · exact Or.inr (Or.inr (Or.inl ⟨hst, Or.inl h⟩))

theorem acked_states {st st₀ st₁ st₂ : TcpState} {acked : Prop}
    (h₀ : st₀ = st ∨ (st = .synReceived ∧ st₀ = .established))
    (h₁ : st₁ = st₀ ∨ (acked ∧ st₁ = ackState st₀)) (h₂ : st₂ = st₁ ∨ st₂ = finState st₁) :
    RxStates st acked st₂ := by
  rcases h₀ with rfl | ⟨rfl, rfl⟩
  · rcases h₁ with rfl | ⟨hacked, rfl⟩
    · exact h₂.imp_right Or.inl
    · exact Or.inr (Or.inr (Or.inr ⟨hacked, h₂⟩))
  · -- an established connection has no transition on an acknowledgement
    obtain rfl : st₁ = .established := h₁.elim id fun h => h.2
    exact Or.inr (Or.inr (Or.inl ⟨rfl, h₂⟩))

/-- What a segment does to the send side and to the state: it is processed, or a
RST or SYN fails the connection. -/
theorem tcpRxConn_tx {s : Segment} {o : RxOut} (h : tcpRxConn c s sndNxt = some o) :
    (AckedTx c o.conn s.ack sndNxt (segWin c s) ∧
      RxStates c.state (o.conn.sndUna = sndNxt) o.conn.state) ∨
    ((s.flags.rst = true ∨ s.flags.syn = true) ∧ o.conn = tcpConnFail c econnreset) := by
  unfold tcpRxConn at h
  dsimp only at h
  split at h
  · cases h
    exact Or.inl ⟨.of_same .refl, Or.inl rfl⟩
  split at h
  · -- the slow path
    unfold tcpRxConnSlow at h
    dsimp only at h
    generalize s.seq + BitVec.ofNat 32 s.data.length - s.seq + (if s.flags.fin = true then 1 else 0) =
      L at h
    split at h
    · cases h
      exact Or.inl ⟨.of_same .refl, Or.inl rfl⟩
    split at h
    · cases h
      obtain ⟨hsame, hstate⟩ := rxDone_tx (c := c) (o := { conn := c, doAck := _ }) rfl
      exact Or.inl ⟨.of_same hsame, Or.inl hstate⟩
    split at h
    · rename_i hrst
      cases h
      exact Or.inr ⟨Or.inl hrst, rfl⟩
    split at h
    · rename_i hsyn
      cases h
      exact Or.inr ⟨Or.inr hsyn, rfl⟩
    left
    split at h
    · cases h
      exact ⟨.of_same .refl, Or.inl rfl⟩
    split at h
    · cases h
      exact ⟨.of_same .refl, Or.inl rfl⟩
    -- a connection in SYN_RECEIVED becomes established and takes the window
    have hopen : ∃ c₀ : Conn, (if c.state = .synReceived then
          { c with sndWnd := s.win.setWidth 32 <<< c.sndWscale, sndWl1 := s.seq, sndWl2 := s.ack
                   state := .established } else c) = c₀ ∧
        (∀ c₁, AckedTx c₀ c₁ s.ack sndNxt (segWin c s) → AckedTx c c₁ s.ack sndNxt (segWin c s)) ∧
        (c₀.state = c.state ∨ (c.state = .synReceived ∧ c₀.state = .established)) := by
      by_cases hst : c.state = .synReceived
      · rw [if_pos hst]
        refine ⟨_, rfl, fun c₁ h₁ => ⟨h₁.moved, h₁.sndNxt, ?_, h₁.sndWscale, h₁.txClosed,
          h₁.txExclusive, h₁.err⟩, Or.inr ⟨hst, rfl⟩⟩
        rcases h₁.sndWnd with hw | hw
        · exact Or.inr hw
        · exact Or.inr hw
      · rw [if_neg hst]
        exact ⟨c, rfl, fun c₁ h₁ => h₁, Or.inl rfl⟩
    obtain ⟨c₀, hc₀, hwin, hstate₀⟩ := hopen
    rw [hc₀] at h
    rcases processAck_cases c₀ s.seq L s.ack sndNxt (s.win.setWidth 32 <<< c.sndWscale) with
      ⟨hproc, -⟩ | ⟨c₁, hproc, -, hstate₁⟩
    · rw [hproc] at h
      cases h
      obtain ⟨hsame, hstate⟩ := rxDone_tx (c := c₀) (o := { conn := c₀, doAck := true }) rfl
      refine ⟨hwin _ (.of_same hsame), ?_⟩
      rw [hstate]
      exact opened_states hstate₀
    · rw [hproc] at h
      have hacked := hwin c₁ (processAck_tx hproc)
      obtain ⟨hsame₂, hstate₂⟩ := finAcked_tx c₁ sndNxt
      rw [hstate₁] at hstate₂
      dsimp only at h
      split at h
      · cases h
        exact ⟨hacked.then_same hsame₂, acked_states hstate₀ (by rw [hsame₂.sndUna]; exact hstate₂)
          (Or.inl rfl)⟩
      · obtain ⟨hsame₃, hstate₃⟩ := processText_tx h
        exact ⟨(hacked.then_same hsame₂).then_same hsame₃, acked_states hstate₀
          (by rw [hsame₃.sndUna, hsame₂.sndUna]; exact hstate₂) hstate₃⟩
  · -- the fast path
    rename_i hfast
    cases h
    have hchecks := fastPath_of_checks (Bool.eq_false_iff.2 hfast)
    refine Or.inl ⟨tcpRxFast_tx c _ hchecks.ack, Or.inl ?_⟩
    exact (tcpRxFast_spec s.ack _ _).2.2.2.2.1

end Send

end Svalinn.Tcp
