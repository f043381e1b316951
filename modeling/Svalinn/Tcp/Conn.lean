/-
  Tcp/Conn.lean --- the ingress path of a TCP connection and its readers.

  Source: `runtime/net/tcp_in.c` (`is_acceptable`, `tcp_rx_append_text`,
  `tcp_rx_text`, `tcp_rx_conn`, `__tcp_rx_conn`), `runtime/net/tcp.c`
  (`tcp_conn_ack`, `tcp_conn_fail`, `tcp_read_wait`, `tcp_read`, `tcp_readv`,
  `tcp_read_finish`), `inc/net/mbuf.h` (`mbuf_pull`, `mbuf_trim`) and the
  wrapping comparisons of `inc/base/stddef.h`.

  Sequence numbers are 32-bit words.  A function that runs into a `BUG_ON` of
  `mbuf_pull` or `mbuf_trim` returns `none`.  Asserts are compiled out of release
  builds and are not modelled as stops.  Everything done under `c->lock` is one
  step.  Timers, the wait queues and the packets sent are left out, except for
  the decisions to acknowledge, drop or reset.  A segment is processed here in
  every state but SYN_SENT.
-/
import Svalinn.Lib.Serial
import Svalinn.Lib.Transition

set_option autoImplicit false

namespace Svalinn.Tcp

open Svalinn.Lib

/-- `uint32_t` sequence numbers and windows. -/
abbrev Seq := BitVec 32

def tcpWin : Nat := 0x1FFFF

def tcpOooMaxSize : Nat := 2048

def tcpFastRetransmitThresh : Nat := 3

inductive TcpState where
  | synReceived
  | established
  | finWait1
  | finWait2
  | closeWait
  | closing
  | lastAck
  | timeWait
  | closed
  deriving DecidableEq

def TcpState.takesText : TcpState → Bool
  | .established | .finWait1 | .finWait2 => true
  | _ => false

structure Flags where
  fin : Bool := false
  syn : Bool := false
  rst : Bool := false
  push : Bool := false
  ack : Bool := true
  urg : Bool := false
  deriving DecidableEq

/-- A buffer of the receive or transmit queues; `m->len` is the length of `data`. -/
structure Mbuf where
  segSeq : Seq
  segEnd : Seq
  flags : Flags
  data : List UInt8
  deriving DecidableEq

/-- An ingress segment after header parsing; `win` is the 16-bit field, and the
length field of the IP header bounds the data. -/
structure Segment where
  seq : Seq
  ack : Seq := 0
  win : BitVec 16 := 0
  flags : Flags
  data : List UInt8
  length_lt : data.length < 2 ^ 16
  deriving DecidableEq

/-- A segment may be empty. -/
theorem length_nil_lt : ([] : List UInt8).length < 2 ^ 16 := by decide

structure Conn where
  state : TcpState
  sndUna : Seq
  sndNxt : Seq
  sndWnd : Seq
  sndWl1 : Seq
  sndWl2 : Seq
  sndWscale : Nat
  rcvNxt : Seq
  rcvWnd : Seq
  rcvMss : Nat
  err : Nat
  rxClosed : Bool
  rxExclusive : Bool
  rxqOooLen : Nat
  rxqOoo : List Mbuf
  rxq : List Mbuf
  txClosed : Bool
  txExclusive : Bool
  txq : List Mbuf
  doFastRetransmit : Bool
  fastRetransmitLastAck : Seq
  repAcks : Nat
  acksDelayedCnt : Nat
  ackDelayed : Bool
  deriving DecidableEq

/-! ## Buffers -/

def mbufPull (m : Mbuf) (len : Nat) : Option Mbuf :=
  if len > m.data.length then none else some { m with data := m.data.drop len }

def mbufTrim (m : Mbuf) (len : Nat) : Option Mbuf :=
  if len > m.data.length then none
  else some { m with data := m.data.take (m.data.length - len) }

/-! ## Segment text -/

def isAcceptable (c : Conn) (len seq : Seq) : Bool :=
  if len = 0 ∧ c.rcvWnd = 0 then decide (seq = c.rcvNxt)
  else if len = 0 then
    decide (wrapsLte c.rcvNxt seq) && decide (wrapsLt seq (c.rcvNxt + c.rcvWnd))
  else if c.rcvWnd = 0 then false
  else
    (decide (wrapsLte c.rcvNxt seq) && decide (wrapsLt seq (c.rcvNxt + c.rcvWnd))) ||
      (decide (wrapsLte c.rcvNxt (seq + len - 1)) &&
        decide (wrapsLt (seq + len - 1) (c.rcvNxt + c.rcvWnd)))

def clipHead (c : Conn) (m : Mbuf) : Option Mbuf :=
  if wrapsLt m.segSeq c.rcvNxt then
    let len := c.rcvNxt - m.segSeq
    (mbufPull m len.toNat).map fun m => { m with segSeq := m.segSeq + len }
  else some m

def clipTail (c : Conn) (m : Mbuf) : Option Mbuf :=
  if wrapsLt (c.rcvNxt + c.rcvWnd) m.segEnd then
    let len := m.segEnd - (c.rcvNxt + c.rcvWnd)
    (mbufTrim m len.toNat).map fun m => { m with segEnd := c.rcvNxt + c.rcvWnd }
  else some m

def tcpRxAppendText (c : Conn) (m : Mbuf) : Option Conn :=
  match clipHead c m with
  | none => none
  | some m =>
    match clipTail c m with
    | none => none
    | some m =>
      some { c with
        rcvNxt := m.segEnd
        rcvWnd := c.rcvWnd - (m.segEnd - m.segSeq)
        rxq := c.rxq ++ [m] }

/-- The insertion loop of `tcp_rx_text` over `rxq_ooo` in reverse order; `none` if
the segment is covered by one in the queue. -/
def oooInsertRev : List Mbuf → Mbuf → Option (List Mbuf)
  | [], m => some [m]
  | pos :: rest, m =>
    if wrapsGt m.segEnd pos.segEnd then some (m :: pos :: rest)
    else if wrapsGte m.segSeq pos.segSeq then none
    else (oooInsertRev rest m).map (pos :: ·)

def oooInsert (q : List Mbuf) (m : Mbuf) : Option (List Mbuf) :=
  (oooInsertRev q.reverse m).map List.reverse

/-- The connection with what `tcp_rx_text` returns through its pointers. -/
structure TextOut where
  conn : Conn
  wake : Bool
  fin : Bool
  used : Bool

/-- The drain loop of `tcp_rx_text`. -/
def drain : List Mbuf → TextOut → Option TextOut
  | [], o => some { o with conn := { o.conn with rxqOoo := [] } }
  | pos :: rest, o =>
    if wrapsLte pos.segEnd o.conn.rcvNxt then
      drain rest { o with conn := { o.conn with rxqOooLen := o.conn.rxqOooLen - 1 } }
    else if wrapsGt pos.segSeq o.conn.rcvNxt then
      some { o with conn := { o.conn with rxqOoo := pos :: rest } }
    else
      match tcpRxAppendText { o.conn with rxqOooLen := o.conn.rxqOooLen - 1 } pos with
      | none => none
      | some c => drain rest { o with conn := c, wake := true, fin := o.fin || pos.flags.fin }

def tcpRxText (c : Conn) (m : Mbuf) : Option TextOut :=
  let finish (o : Option TextOut) : Option TextOut :=
    o.map fun o => { o with wake := o.wake || decide (o.conn.rcvWnd = 0) }
  if c.rcvWnd = 0 then some ⟨c, false, false, false⟩
  else if wrapsLte m.segSeq c.rcvNxt then
    let wake := m.flags.push || m.flags.fin || ! c.rxq.isEmpty
    match tcpRxAppendText c m with
    | none => none
    | some c' => finish (drain c'.rxqOoo ⟨c', wake, wake && m.flags.fin, true⟩)
  else if c.rxqOooLen ≥ tcpOooMaxSize then some ⟨c, false, false, false⟩
  else
    match oooInsert c.rxqOoo m with
    | none => some ⟨c, false, false, false⟩
    | some q =>
      finish (drain q ⟨{ c with rxqOoo := q, rxqOooLen := c.rxqOooLen + 1 }, false, false, true⟩)

/-! ## Acknowledgements and state -/

def tcpIsSndFull (c : Conn) : Bool := decide (wrapsLte (c.sndUna + c.sndWnd) c.sndNxt)

def tcpConnAck (c : Conn) : Conn :=
  if c.txExclusive then c
  else { c with txq := c.txq.dropWhile fun m => ! decide (wrapsGt m.segEnd c.sndUna) }

def econnreset : Nat := 104

def tcpConnFail (c : Conn) (err : Nat) : Conn :=
  { c with
    err := err
    state := .closed
    rxClosed := true
    txClosed := true
    txq := if c.txExclusive then c.txq else []
    rxq := if c.rxExclusive then c.rxq else []
    rxqOoo := [] }

/-- What becomes of a segment besides the new connection. -/
structure RxOut where
  conn : Conn
  doAck : Bool := false
  doDrop : Bool := true
  rst : Bool := false

/-- Step 5 of `__tcp_rx_conn`: the acknowledgement and the send window.  `none`
sends an ack and drops the segment. -/
def processAck (c : Conn) (seq len ack sndNxt win : Seq) : Option Conn :=
  if wrapsLte c.sndUna ack ∧ wrapsLte ack sndNxt then
    let ackSame := decide (c.sndUna = ack)
    let c₁ := if ackSame then c else tcpConnAck { c with sndUna := ack }
    let update := (decide (wrapsLt c₁.sndWl1 seq) ||
        (decide (c₁.sndWl1 = seq) && decide (wrapsLte c₁.sndWl2 ack))) &&
      (! ackSame || decide (c₁.sndWnd ≤ win))
    let wndUpdated := update && (decide (c₁.sndWnd ≠ win) || decide (c₁.sndWl2 ≠ ack))
    let c₂ := if update then { c₁ with sndWnd := win, sndWl1 := seq, sndWl2 := ack } else c₁
    -- fast retransmit: a duplicate ack without data or window update
    if ackSame ∧ c₂.sndUna ≠ c₂.sndNxt ∧ len = 0 ∧ ! wndUpdated then
      if c₂.repAcks + 1 ≥ tcpFastRetransmitThresh then
        some (if c₂.txExclusive then
          { c₂ with repAcks := 0, doFastRetransmit := true, fastRetransmitLastAck := ack }
        else { c₂ with repAcks := 0 })
      else some { c₂ with repAcks := c₂.repAcks + 1 }
    else if c₂.sndUna = ack then some { c₂ with repAcks := 0 }
    else some c₂
  else if wrapsGt ack sndNxt then none
  else if c.sndUna = ack then some { c with repAcks := 0 }
  else some c

def finAcked (c : Conn) (sndNxt : Seq) : Conn :=
  match c.state with
  | .finWait1 => if c.sndUna = sndNxt then { c with state := .finWait2 } else c
  | .closing => if c.sndUna = sndNxt then { c with state := .timeWait } else c
  | .lastAck => if c.sndUna = sndNxt then { c with state := .closed } else c
  | _ => c

def processFin (o : RxOut) : RxOut :=
  match o.conn.state with
  | .established => { o with conn := { o.conn with state := .closeWait } }
  | .finWait1 => { o with conn := { o.conn with state := .closing } }
  | .finWait2 => { o with conn := { o.conn with state := .timeWait }, doAck := true }
  | _ => o

def delayAck (c : Conn) : Conn × Bool :=
  if c.acksDelayedCnt + 1 ≥ 2 then ({ c with acksDelayedCnt := c.acksDelayedCnt + 1 }, true)
  else ({ c with acksDelayedCnt := c.acksDelayedCnt + 1, ackDelayed := true }, false)

/-- The label `done:`. -/
def rxDone (o : RxOut) : RxOut :=
  if o.doAck then { o with conn := { o.conn with ackDelayed := false, acksDelayedCnt := 0 } } else o

def processText (c : Conn) (m : Mbuf) (len : Seq) : Option RxOut :=
  if len ≠ 0 ∧ c.state.takesText then
    match tcpRxText c { m with segEnd := m.segSeq + len } with
    | none => none
    | some t =>
      let d := delayAck t.conn
      let o : RxOut := { conn := d.1, doAck := d.2 || ! d.1.rxqOoo.isEmpty, doDrop := ! t.used }
      some (rxDone (if t.fin then processFin o else o))
  else some (rxDone { conn := c })

/-- `__tcp_rx_conn`; `sndNxt` is the value read before the lock was taken. -/
def tcpRxConnSlow (c : Conn) (m : Mbuf) (ack sndNxt win : Seq) : Option RxOut :=
  let seq := m.segSeq
  let len := m.segEnd - m.segSeq + if m.flags.fin then 1 else 0
  if c.state = .closed then some { conn := c, rst := ! m.flags.rst }
  else if ! isAcceptable c len seq then some (rxDone { conn := c, doAck := ! m.flags.rst })
  else if m.flags.rst then some { conn := tcpConnFail c econnreset }
  else if m.flags.syn then some { conn := tcpConnFail c econnreset, rst := true }
  else if ! m.flags.ack then some { conn := c }
  else if c.state = .synReceived ∧ ¬ (wrapsLte c.sndUna ack ∧ wrapsLte ack sndNxt) then
    some { conn := c, rst := true }
  else
    let c := if c.state = .synReceived then
        { c with sndWnd := win, sndWl1 := seq, sndWl2 := ack, state := .established }
      else c
    match processAck c seq len ack sndNxt win with
    | none => some (rxDone { conn := c, doAck := true })
    | some c =>
      let c' := finAcked c sndNxt
      if c.state = .lastAck ∧ c'.state = .closed then some { conn := c' }
      else processText c' m len

/-- The fast path of `tcp_rx_conn` after its checks. -/
def tcpRxFast (c : Conn) (m : Mbuf) (ack win len : Seq) : RxOut :=
  let seq := m.segSeq
  let c₁ :=
    if wrapsLte c.sndUna ack then
      let c₁ := if c.sndUna ≠ ack then tcpConnAck { c with repAcks := 0, sndUna := ack } else c
      if wrapsLt c₁.sndWl1 seq ∨ (c₁.sndWl1 = seq ∧ wrapsLte c₁.sndWl2 ack) then
        { c₁ with sndWnd := win, sndWl1 := seq, sndWl2 := ack, repAcks := 0 }
      else c₁
    else c
  let c₂ := { c₁ with rcvNxt := m.segEnd, rcvWnd := c₁.rcvWnd - len }
  let (c₃, doAck) :=
    if c₂.acksDelayedCnt + 1 ≥ 2 then ({ c₂ with ackDelayed := false, acksDelayedCnt := 0 }, true)
    else ({ c₂ with acksDelayedCnt := c₂.acksDelayedCnt + 1, ackDelayed := true }, false)
  { conn := { c₃ with rxq := c₃.rxq ++ [m] }, doAck := doAck, doDrop := false }

/-- Whether `tcp_rx_conn` hands the segment to the slow path. -/
def slowPath (c : Conn) (m : Mbuf) (ack sndNxt len : Seq) : Bool :=
  m.flags.fin || m.flags.rst || m.flags.urg || decide (len = 0) || decide (wrapsGt ack sndNxt) ||
    decide (c.state ≠ .established) || tcpIsSndFull c || decide (m.segSeq ≠ c.rcvNxt) ||
    ! c.rxqOoo.isEmpty || decide (c.rcvWnd < len)

def tcpRxConn (c : Conn) (s : Segment) (sndNxt : Seq) : Option RxOut :=
  let win : Seq := s.win.setWidth 32 <<< c.sndWscale
  let len : Seq := BitVec.ofNat 32 s.data.length
  if s.data.length > c.rcvMss then some { conn := c }
  else
    let m : Mbuf := { segSeq := s.seq, segEnd := s.seq + len, flags := s.flags, data := s.data }
    if slowPath c m s.ack sndNxt len then tcpRxConnSlow c m s.ack sndNxt win
    else some (tcpRxFast c m s.ack win len)

/-! ## Readers -/

/-- What the pop loop of `tcp_read_wait` leaves: the queue, whether a FIN closed
the receive side, the buffers taken off, the bytes counted, and whether the read
ends inside the buffer now at the top. -/
structure PopOut where
  rxq : List Mbuf
  closed : Bool
  taken : List Mbuf
  readlen : Nat
  inside : Bool

/-- The pop loop of `tcp_read_wait` with `readlen` bytes already counted. -/
def popLoop (len : Nat) : List Mbuf → Nat → PopOut
  | [], readlen => ⟨[], false, [], readlen, false⟩
  | m :: rest, readlen =>
    if readlen < len then
      if m.flags.fin ∧ m.data.length = 0 then ⟨m :: rest, true, [], readlen, false⟩
      else if len - readlen < m.data.length then ⟨m :: rest, m.flags.fin, [], len, true⟩
      else
        let o := popLoop len rest (readlen + m.data.length)
        { o with closed := m.flags.fin || o.closed, taken := m :: o.taken }
    else ⟨m :: rest, false, [], readlen, false⟩

/-- A reader between `tcp_read_wait` and `tcp_read_finish` that has to take part
of the top buffer: what it took off the queue and what is missing. -/
structure Pending where
  taken : List Mbuf
  rest : Nat
  /-- `none` for `tcp_read`, the lengths of the vector for `tcp_readv` -/
  iov : Option (List Nat)
  deriving DecidableEq

def readBlocks (c : Conn) : Bool := ! c.rxClosed && (c.rxExclusive || c.rxq.isEmpty)

/-- `tcp_read_wait` for `len` bytes, when it does not block: the connection, the
return value, and the buffers taken. -/
def tcpReadWait (c : Conn) (len : Nat) : Conn × Int × PopOut :=
  if c.rxClosed then (c, - (c.err : Int), ⟨c.rxq, true, [], 0, false⟩)
  else
    let o := popLoop len c.rxq 0
    ({ c with
        rxq := o.rxq
        rxClosed := o.closed
        rxExclusive := o.inside
        rcvWnd := c.rcvWnd + BitVec.ofNat 32 o.readlen }, o.readlen, o)

/-- The inner copy loop of `tcp_readv` for one whole buffer: the vectors filled,
the vectors left, and the content of the current one. -/
def scatterOne : List Nat → List UInt8 → List UInt8 → List (List UInt8) × List Nat × List UInt8
  | [], cur, _ => ([], [], cur)
  | v :: vs, cur, data =>
    let k := min (v - cur.length) data.length
    let cur' := cur ++ data.take k
    let data' := data.drop k
    if cur'.length = v then
      if data' = [] then ([cur'], vs, [])
      else
        let (full, left, part) := scatterOne vs [] data'
        (cur' :: full, left, part)
    else ([], v :: vs, cur')

/-- The copy loop of `tcp_readv` over the buffers taken off the queue. -/
def scatterAll : List (List UInt8) → List Nat → List UInt8 → List (List UInt8) × List Nat × List UInt8
  | [], vs, cur => ([], vs, cur)
  | b :: bs, vs, cur =>
    let (full, left, part) := scatterOne vs cur b
    let (full', left', part') := scatterAll bs left part
    (full ++ full', left', part')

/-- The last copy loop of `tcp_readv`, which takes part of a buffer and runs until
every vector is full. -/
def scatterLast : List Nat → List UInt8 → List UInt8 → List (List UInt8)
  | [], _, _ => []
  | v :: vs, cur, data =>
    let k := min (v - cur.length) data.length
    (cur ++ data.take k) :: scatterLast vs [] (data.drop k)

/-- The bytes in a reader's buffers, in order: `tcp_read` copies into one buffer,
`tcp_readv` into the vectors. -/
def copyOut (iov : Option (List Nat)) (taken : List Mbuf) (last : Option (List UInt8 × Nat)) :
    List UInt8 :=
  match iov with
  | none =>
    taken.flatMap Mbuf.data ++ (last.elim [] fun p => p.1.take p.2)
  | some shape =>
    let (full, left, part) := scatterAll (taken.map Mbuf.data) shape []
    match last with
    | none => full.flatten ++ part
    | some (data, _) => full.flatten ++ (scatterLast left part data).flatten

def iovLen (iov : Option (List Nat)) (len : Nat) : Nat := iov.elim len List.sum

/-! ## The system -/

/-- A connection, its exclusive reader, and ghosts: the buffers ever appended to `rxq`, the bytes
ever returned, and whether a read ended strictly inside a buffer with the FIN. -/
structure Sys where
  conn : Conn
  pending : Option Pending
  appended : List Mbuf
  returned : List UInt8
  cutFin : Bool

inductive Event where
  /-- a segment arrives; `sndNxt` was read before the lock -/
  | rx (s : Segment) (sndNxt : Seq)
  /-- `tcp_read` of `len` bytes, or `tcp_readv` if `iov` is given -/
  | read (len : Nat) (iov : Option (List Nat))
  | readFinish
  | transmit (sndNxt : Seq) (txq : List Mbuf) (exclusive : Bool)
  /-- `tcp_shutdown` of the transmit side -/
  | shutdownTx (txq : List Mbuf)
  deriving DecidableEq

/-- `tcp_conn_shutdown_tx` after its FIN is queued. -/
def shutdownTxState : TcpState → TcpState
  | .established => .finWait1
  | .closeWait => .lastAck
  | st => st

/-- One step; `none` if the event is not possible or stops the program. -/
def step (s : Sys) : Event → Option Sys
  | .rx seg sndNxt =>
    match tcpRxConn s.conn seg sndNxt with
    | none => none
    | some o =>
      some { s with
        conn := o.conn
        appended := s.appended ++ o.conn.rxq.drop s.conn.rxq.length }
  | .read len iov =>
    let n := iovLen iov len
    if readBlocks s.conn ∨ n = 0 then none
    else
      match tcpReadWait s.conn n with
      | (c, ret, o) =>
        if ret ≤ 0 then some { s with conn := c }
        else if o.inside then
          some { s with
            conn := c
            pending := some ⟨o.taken, n - (o.taken.flatMap Mbuf.data).length, iov⟩
            cutFin := s.cutFin || (c.rxq.head?.elim false fun m => m.flags.fin) }
        else some { s with conn := c, returned := s.returned ++ copyOut iov o.taken none }
  | .readFinish =>
    match s.pending, s.conn.rxq with
    | some p, m :: rest =>
      match mbufPull m p.rest with
      | none => none
      | some m' =>
        some { s with
          conn := { s.conn with
            rxExclusive := false
            rxq := { m' with segSeq := m'.segSeq + BitVec.ofNat 32 p.rest } :: rest }
          pending := none
          returned := s.returned ++ copyOut p.iov p.taken (some (m.data, p.rest)) }
    | _, _ => none
  | .transmit sndNxt txq exclusive =>
    some { s with conn := { s.conn with sndNxt := sndNxt, txq := txq, txExclusive := exclusive } }
  | .shutdownTx txq =>
    if s.conn.txClosed ∨ s.conn.txExclusive then none
    else
      some { s with conn := { s.conn with
        sndNxt := s.conn.sndNxt + 1, txq := txq, txClosed := true
        state := shutdownTxState s.conn.state } }

/-- A connection that has just become established: nothing received yet. -/
def Conn.fresh (c : Conn) : Prop :=
  c.state = .established ∧ c.rxq = [] ∧ c.rxqOoo = [] ∧ c.rxqOooLen = 0 ∧ c.rxClosed = false ∧
    c.rxExclusive = false ∧ c.err = 0

instance (c : Conn) : Decidable c.fresh := inferInstanceAs (Decidable (_ ∧ _))

def sysInit (c : Conn) : Sys := ⟨c, none, [], [], false⟩

/-- The bytes ever appended to `rxq`. -/
def Sys.log (s : Sys) : List UInt8 := s.appended.flatMap Mbuf.data

end Svalinn.Tcp
