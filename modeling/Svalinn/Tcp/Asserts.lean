/-
  Tcp/Asserts.lean --- the ingress path of a debug build.

  Source: `runtime/net/tcp_in.c` (`tcp_rx_append_text`, `tcp_rx_text`, `tcp_rx_conn`,
  `__tcp_rx_conn`) and `runtime/net/tcp.c` (`tcp_conn_set_state`, `tcp_conn_fail`,
  `tcp_read_finish`).

  The functions of `Tcp/Conn.lean` once more, now with their asserts: `none` means
  that an assert or a `BUG_ON` has fired.  The asserts that `c->lock` is held are left
  out.  Where the debug build does not stop it does what the release build does
  (`tcpRxConn_release`).
-/
import Svalinn.Tcp.Handshake
import Svalinn.Tcp.Headers

set_option autoImplicit false

namespace Svalinn.Tcp.Debug

open Svalinn.Lib

/-! ## States -/

def rank : TcpState → Nat
  | .synReceived => 1
  | .established => 2
  | .finWait1 => 3
  | .finWait2 => 4
  | .closeWait => 5
  | .closing => 6
  | .lastAck => 7
  | .timeWait => 8
  | .closed => 9

def tcpConnSetState (c : Conn) (st : TcpState) : Option Conn :=
  if c.state = .closed ∨ rank c.state < rank st then some { c with state := st } else none

def tcpConnFail (c : Conn) (err : Nat) : Option Conn :=
  (tcpConnSetState { c with err := err } .closed).map fun c =>
    { c with
      rxClosed := true
      txClosed := true
      txq := if c.txExclusive then c.txq else []
      rxq := if c.rxExclusive then c.rxq else []
      rxqOoo := [] }

/-! ## Segment text -/

def tcpRxAppendText (c : Conn) (m : Mbuf) : Option Conn :=
  if wrapsLte m.segSeq c.rcvNxt ∧ wrapsGt m.segEnd c.rcvNxt then
    match clipHead c m with
    | none => none
    | some m =>
      match clipTail c m with
      | none => none
      | some m =>
        if m.segEnd - m.segSeq ≤ c.rcvWnd then
          some { c with
            rcvNxt := m.segEnd
            rcvWnd := c.rcvWnd - (m.segEnd - m.segSeq)
            rxq := c.rxq ++ [m] }
        else none
  else none

/-- The drain loop of `tcp_rx_text`. -/
def drain : List Mbuf → TextOut → Option TextOut
  | [], o => some { o with conn := { o.conn with rxqOoo := [] } }
  | pos :: rest, o =>
    if wrapsLte pos.segEnd o.conn.rcvNxt then
      drain rest { o with conn := { o.conn with rxqOooLen := o.conn.rxqOooLen - 1 } }
    else if wrapsGt pos.segSeq o.conn.rcvNxt then
      some { o with conn := { o.conn with rxqOoo := pos :: rest } }
    else
      match tcpRxAppendText { o.conn with rxqOooLen := o.conn.rxqOooLen - 1 } pos with
      | none => none
      | some c => drain rest { o with conn := c, wake := true, fin := o.fin || pos.flags.fin }

def tcpRxText (c : Conn) (m : Mbuf) : Option TextOut :=
  let finish (o : Option TextOut) : Option TextOut :=
    o.map fun o => { o with wake := o.wake || decide (o.conn.rcvWnd = 0) }
  if c.rcvWnd = 0 then some ⟨c, false, false, false⟩
  else if wrapsLte m.segSeq c.rcvNxt then
    let wake := m.flags.push || m.flags.fin || ! c.rxq.isEmpty
    match tcpRxAppendText c m with
    | none => none
    | some c' => finish (drain c'.rxqOoo ⟨c', wake, wake && m.flags.fin, true⟩)
  else if c.rxqOooLen ≥ tcpOooMaxSize then some ⟨c, false, false, false⟩
  else
    match oooInsert c.rxqOoo m with
    | none => some ⟨c, false, false, false⟩
    | some q =>
      finish (drain q ⟨{ c with rxqOoo := q, rxqOooLen := c.rxqOooLen + 1 }, false, false, true⟩)

/-! ## Segments -/

def finAcked (c : Conn) (sndNxt : Seq) : Option Conn :=
  match c.state with
  | .finWait1 => if c.sndUna = sndNxt then tcpConnSetState c .finWait2 else some c
  | .closing => if c.sndUna = sndNxt then tcpConnSetState c .timeWait else some c
  | .lastAck => if c.sndUna = sndNxt then tcpConnSetState c .closed else some c
  | _ => some c

def processFin (o : RxOut) (sndNxt : Seq) : Option RxOut :=
  match o.conn.state with
  | .synReceived => none
  | .established => (tcpConnSetState o.conn .closeWait).map fun c => { o with conn := c }
  | .finWait1 =>
    if o.conn.sndUna = sndNxt then none
    else (tcpConnSetState o.conn .closing).map fun c => { o with conn := c }
  | .finWait2 =>
    (tcpConnSetState o.conn .timeWait).map fun c => { o with conn := c, doAck := true }
  | _ => some o

def wakeOk (t : TextOut) : Bool := ! t.wake || (! t.conn.rxq.isEmpty && t.used)

def processText (c : Conn) (m : Mbuf) (len sndNxt : Seq) : Option RxOut :=
  if len ≠ 0 ∧ c.state.takesText then
    match tcpRxText c { m with segEnd := m.segSeq + len } with
    | none => none
    | some t =>
      if wakeOk t then
        let d := delayAck t.conn
        let o : RxOut := { conn := d.1, doAck := d.2 || ! d.1.rxqOoo.isEmpty, doDrop := ! t.used }
        (if t.fin then processFin o sndNxt else some o).map rxDone
      else none
  else some (rxDone { conn := c })

/-- `__tcp_rx_conn` in every state but SYN_SENT. -/
def tcpRxConnSlow (c : Conn) (m : Mbuf) (ack sndNxt win : Seq) : Option RxOut :=
  let seq := m.segSeq
  let len := m.segEnd - m.segSeq + if m.flags.fin then 1 else 0
  if c.state = .closed then some { conn := c, rst := ! m.flags.rst }
  else if ! isAcceptable c len seq then some (rxDone { conn := c, doAck := ! m.flags.rst })
  else if m.flags.rst then (tcpConnFail c econnreset).map fun c => { conn := c }
  else if m.flags.syn then (tcpConnFail c econnreset).map fun c => { conn := c, rst := true }
  else if ! m.flags.ack then some { conn := c }
  else if c.state = .synReceived ∧ ¬ (wrapsLte c.sndUna ack ∧ wrapsLte ack sndNxt) then
    some { conn := c, rst := true }
  else
    match
      if c.state = .synReceived then
        tcpConnSetState { c with sndWnd := win, sndWl1 := seq, sndWl2 := ack } .established
      else some c
    with
    | none => none
    | some c =>
      match processAck c seq len ack sndNxt win with
      | none => some (rxDone { conn := c, doAck := true })
      | some c =>
        match finAcked c sndNxt with
        | none => none
        | some c' =>
          if c.state = .lastAck ∧ c'.state = .closed then some { conn := c' }
          else processText c' m len sndNxt

/-- `tcp_rx_conn` behind the header; the fast path has no assert. -/
def tcpRxConn (c : Conn) (s : Segment) (sndNxt : Seq) : Option RxOut :=
  let win : Seq := s.win.setWidth 32 <<< c.sndWscale
  let len : Seq := BitVec.ofNat 32 s.data.length
  if s.data.length > c.rcvMss then some { conn := c }
  else if slowPath c (segMbuf s) s.ack sndNxt len then tcpRxConnSlow c (segMbuf s) s.ack sndNxt win
  else some (tcpRxFast c (segMbuf s) s.ack win len)

/-! ## The debug build and the release build -/

theorem tcpConnSetState_eq {c : Conn} {st : TcpState} (h : c.state = .closed ∨ rank c.state < rank st) :
    tcpConnSetState c st = some { c with state := st } := by
  unfold tcpConnSetState
  rw [if_pos h]

theorem rank_lt_closed (st : TcpState) : st = .closed ∨ rank st < rank .closed := by
  cases st with
  | closed => exact Or.inl rfl
  | _ => exact Or.inr (by decide)

theorem tcpConnFail_eq (c : Conn) (err : Nat) : tcpConnFail c err = some (Tcp.tcpConnFail c err) := by
  unfold tcpConnFail
  rw [tcpConnSetState_eq (c := { c with err := err }) (rank_lt_closed c.state)]
  rfl

theorem finAcked_eq (c : Conn) (sndNxt : Seq) : finAcked c sndNxt = some (Tcp.finAcked c sndNxt) := by
  unfold finAcked Tcp.finAcked
  cases hst : c.state with
  | finWait1 | closing | lastAck =>
    dsimp only
    split
    · exact tcpConnSetState_eq (Or.inr (by rw [hst]; decide))
    · rfl
  | _ => rfl

theorem finAcked_finWait1 {c : Conn} {sndNxt : Seq} (h : (Tcp.finAcked c sndNxt).state = .finWait1) :
    (Tcp.finAcked c sndNxt).sndUna ≠ sndNxt := by
  unfold Tcp.finAcked at *
  cases hst : c.state with
  | finWait1 =>
    rw [hst] at h
    dsimp only at h ⊢
    split at h
    · cases h
    · rename_i hne
      rw [if_neg hne]
      exact hne
  | closing | lastAck =>
    rw [hst] at h
    dsimp only at h
    split at h
    · cases h
    · cases hst.symm.trans h
  | _ =>
    rw [hst] at h
    cases hst.symm.trans h

theorem processFin_eq {o : RxOut} {sndNxt : Seq} (hsyn : o.conn.state ≠ .synReceived)
    (hfin : o.conn.state = .finWait1 → o.conn.sndUna ≠ sndNxt) :
    processFin o sndNxt = some (Tcp.processFin o) := by
  unfold processFin Tcp.processFin
  cases hst : o.conn.state with
  | synReceived => exact absurd hst hsyn
  | established | finWait2 =>
    dsimp only
    rw [tcpConnSetState_eq (Or.inr (by rw [hst]; decide))]
    rfl
  | finWait1 =>
    dsimp only
    rw [if_neg (hfin hst), tcpConnSetState_eq (Or.inr (by rw [hst]; decide))]
    rfl
  | _ => rfl

theorem processFin_release {o o' : RxOut} {sndNxt : Seq} (h : processFin o sndNxt = some o') :
    o' = Tcp.processFin o := by
  have hsyn : o.conn.state ≠ .synReceived := by
    intro hst
    unfold processFin at h
    rw [hst] at h
    cases h
  have hfin : o.conn.state = .finWait1 → o.conn.sndUna ≠ sndNxt := by
    intro hst heq
    unfold processFin at h
    rw [hst] at h
    dsimp only at h
    rw [if_pos heq] at h
    cases h
  exact Option.some.inj (h.symm.trans (processFin_eq hsyn hfin))

theorem ite_some_imp {α : Type} {b : Prop} [Decidable b] {x y x' y' : Option α} {a : α}
    (hx : x = some a → x' = some a) (hy : y = some a → y' = some a) :
    (if b then x else y) = some a → (if b then x' else y') = some a := by
  split
  · exact hx
  · exact hy

section Release

variable {c c' : Conn} {m : Mbuf}

theorem tcpRxAppendText_release (h : tcpRxAppendText c m = some c') :
    Tcp.tcpRxAppendText c m = some c' := by
  unfold tcpRxAppendText at h
  unfold Tcp.tcpRxAppendText
  split at h
  · cases hhead : clipHead c m with
    | none =>
      rw [hhead] at h
      cases h
    | some m₁ =>
      rw [hhead] at h
      dsimp only at h ⊢
      cases htail : clipTail c m₁ with
      | none =>
        rw [htail] at h
        cases h
      | some m₂ =>
        rw [htail] at h
        dsimp only at h ⊢
        split at h
        · exact h
        · cases h
  · cases h

theorem drain_release {q : List Mbuf} {o o' : TextOut} (h : drain q o = some o') :
    Tcp.drain q o = some o' := by
  induction q generalizing o with
  | nil => exact h
  | cons pos rest ih =>
    unfold drain at h
    unfold Tcp.drain
    refine ite_some_imp ih (ite_some_imp id fun h => ?_) h
    cases happend : tcpRxAppendText { o.conn with rxqOooLen := o.conn.rxqOooLen - 1 } pos with
    | none =>
      rw [happend] at h
      cases h
    | some c₁ =>
      rw [happend] at h
      rw [tcpRxAppendText_release happend]
      exact ih h

theorem tcpRxText_release {t : TextOut} (h : tcpRxText c m = some t) : Tcp.tcpRxText c m = some t := by
  unfold tcpRxText at h
  unfold Tcp.tcpRxText
  dsimp only at h ⊢
  refine ite_some_imp id (ite_some_imp (fun h => ?_) (ite_some_imp id fun h => ?_)) h
  · cases happend : tcpRxAppendText c m with
    | none =>
      rw [happend] at h
      cases h
    | some c₁ =>
      rw [happend] at h
      obtain ⟨o, hdrain, rfl⟩ := Option.map_eq_some_iff.1 h
      rw [tcpRxAppendText_release happend]
      dsimp only
      rw [drain_release hdrain]
      rfl
  · cases hins : oooInsert c.rxqOoo m with
    | none =>
      rw [hins] at h
      exact h
    | some q =>
      rw [hins] at h
      obtain ⟨o, hdrain, rfl⟩ := Option.map_eq_some_iff.1 h
      dsimp only
      rw [drain_release hdrain]
      rfl

theorem processText_release {len sndNxt : Seq} {o : RxOut} (h : processText c m len sndNxt = some o) :
    Tcp.processText c m len = some o := by
  unfold processText at h
  unfold Tcp.processText
  refine ite_some_imp (fun h => ?_) id h
  cases htext : tcpRxText c { m with segEnd := m.segSeq + len } with
  | none =>
    rw [htext] at h
    cases h
  | some t =>
    rw [htext] at h
    rw [tcpRxText_release htext]
    dsimp only at h ⊢
    split at h
    · obtain ⟨o₁, hfin, rfl⟩ := Option.map_eq_some_iff.1 h
      split at hfin
      · rename_i htfin
        rw [if_pos htfin, processFin_release hfin]
      · rename_i htfin
        rw [if_neg htfin, Option.some.inj hfin]
    · cases h

theorem openSynReceived_eq (c : Conn) (seq ack win : Seq) : (if c.state = .synReceived then
      tcpConnSetState { c with sndWnd := win, sndWl1 := seq, sndWl2 := ack } .established
      else some c) =
    some (if c.state = .synReceived then
      { c with sndWnd := win, sndWl1 := seq, sndWl2 := ack, state := .established } else c) := by
  split
  · rename_i hst
    rw [tcpConnSetState_eq (Or.inr (by show rank c.state < _; rw [hst]; decide))]
  · rfl

theorem tcpRxConnSlow_release {ack sndNxt win : Seq} {o : RxOut}
    (h : tcpRxConnSlow c m ack sndNxt win = some o) : Tcp.tcpRxConnSlow c m ack sndNxt win = some o := by
  unfold tcpRxConnSlow at h
  unfold Tcp.tcpRxConnSlow
  simp only [openSynReceived_eq, finAcked_eq, tcpConnFail_eq, Option.map_some] at h
  dsimp only
  refine ite_some_imp id (ite_some_imp id (ite_some_imp id (ite_some_imp id (ite_some_imp id
    (ite_some_imp id fun h => ?_))))) h
  generalize (if c.state = .synReceived then _ else c) = c₁ at h ⊢
  cases hack : processAck c₁ m.segSeq
      (m.segEnd - m.segSeq + if m.flags.fin = true then 1 else 0) ack sndNxt win with
  | none =>
    rw [hack] at h
    exact h
  | some c₂ =>
    rw [hack] at h
    exact ite_some_imp id processText_release h

/-- A segment that does not stop the debug build is processed as in the release
build. -/
theorem tcpRxConn_release {s : Segment} {sndNxt : Seq} {o : RxOut} (h : tcpRxConn c s sndNxt = some o) :
    Tcp.tcpRxConn c s sndNxt = some o := by
  unfold tcpRxConn at h
  unfold Tcp.tcpRxConn
  exact ite_some_imp id (ite_some_imp tcpRxConnSlow_release id) h

end Release

/-! ## The system -/

/-- A connection from its allocation on, and its exclusive reader. -/
structure Host where
  opening : Opening
  pending : Option Pending

def Host.conn (h : Host) : Conn := h.opening.conn

def Host.withConn (h : Host) (c : Conn) : Host := { h with opening := { h.opening with conn := c } }

inductive HostEvent where
  | openConn (allocOk sent : Bool)
  /-- a packet is parsed and reads `snd_nxt`; the options are what the parser finds -/
  | arrive (p : RawPacket) (opts : TcpOptions)
  | process (i : Nat) (allocOk sent : Bool)
  | fail (err : Nat)
  /-- a read, as in `Event` -/
  | read (len : Nat) (iov : Option (List Nat))
  | readFinish
  | transmit (sndNxt : Seq) (txq : List Mbuf) (exclusive : Bool)
  | shutdownTx (txq : List Mbuf)
  deriving DecidableEq

/-- The state as `tcp_conn_set_state` compares it. -/
def stateRank (o : Opening) : Nat := if o.phase = .synSent then 0 else rank o.conn.state

/-- The assert of the one call of `tcp_conn_set_state` that may take `o` to `o'`. -/
def checkState (o o' : Opening) : Option Opening :=
  if stateRank o = stateRank o' ∨ stateRank o = rank .closed ∨ stateRank o < stateRank o' then
    some o'
  else none

def processPacket (o : Opening) (p : OpenPacket) (allocOk sent : Bool) : Option Opening :=
  if o.phase = .synSent then checkState o (rxSynSent o p allocOk sent)
  else (tcpRxConn o.conn p.seg p.sndNxt).map fun r => { o with conn := r.conn }

def Host.sys (h : Host) : Sys := ⟨h.conn, h.pending, [], [], false⟩

/-- What becomes of an event: `none` if it is not possible, `some none` if an assert or
a `BUG_ON` fires. -/
def hostExec (h : Host) : HostEvent → Option (Option Host)
  | .openConn allocOk sent =>
    match h.opening.phase with
    | .attached dial =>
      some ((checkState h.opening (openConnection h.opening dial allocOk sent)).map
        fun o => { h with opening := o })
    | _ => none
  | .arrive p opts =>
    some ((rxPacket p).map fun seg =>
      { h with opening := { h.opening with
          inflight := h.opening.inflight ++
            (seg.map fun seg => ⟨seg, opts, h.conn.sndNxt⟩).toList } })
  | .process i allocOk sent =>
    h.opening.inflight[i]?.map fun p =>
      (processPacket { h.opening with inflight := h.opening.inflight.eraseIdx i } p allocOk sent).map
        fun o => { h with opening := o }
  | .fail err =>
    some ((tcpConnFail h.conn err).map fun c =>
      { h with opening := { h.opening with
          phase := if h.opening.phase = .synSent then .running else h.opening.phase
          conn := c } })
  | .read len iov =>
    (step h.sys (.read len iov)).map fun s => some { h.withConn s.conn with pending := s.pending }
  | .readFinish =>
    match h.pending, h.conn.rxq with
    | some p, m :: _ =>
      some ((mbufPull m p.rest).bind fun _ => (step h.sys .readFinish).map fun s =>
        { h.withConn s.conn with pending := s.pending })
    | _, _ => none
  | .transmit sndNxt txq exclusive =>
    if h.opening.isOpen then
      some (some (h.withConn { h.conn with sndNxt := sndNxt, txq := txq, txExclusive := exclusive }))
    else none
  | .shutdownTx txq =>
    if h.conn.txClosed ∨ h.conn.txExclusive ∨ ! h.opening.isOpen then none
    else
      let c := { h.conn with sndNxt := h.conn.sndNxt + 1, txq := txq, txClosed := true }
      some ((if shutdownTxState c.state = c.state then some c
        else tcpConnSetState c (shutdownTxState c.state)).map h.withConn)

def hostStep (h : Host) (e : HostEvent) : Option Host := (hostExec h e).join

/-- An assert or a `BUG_ON` fires. -/
def Stops (h : Host) (e : HostEvent) : Prop := hostExec h e = some none

def hostInit (o : Opening) : Host := ⟨o, none⟩

end Svalinn.Tcp.Debug
