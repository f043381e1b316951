/-
  Tcp/Handshake.lean --- opening a connection.

  Source: `runtime/net/tcp.c` (`tcp_conn_alloc`, `__tcp_dial`), `runtime/net/tcp_in.c`
  (`tcp_rx_listener`, the SYN_SENT branch of `__tcp_rx_conn`, `tcp_parse_options`) and
  `runtime/net/tcp_out.c` (`tcp_tx_ctl`).

  A connection is attached before its SYN is sent, so packets may arrive while it is
  still CLOSED; each reads `snd_nxt` before it takes the lock.  The options of a SYN
  are given as the values the parser finds in them.  Once the connection is open,
  writes and shutdowns change the send side in any way.

  Two kinds of segments break the handshake.  A SYN without ACK that crosses our own
  makes SYN_SENT queue a second SYN, at `iss + 1`.  An acknowledgement of `iss`, which
  acknowledges nothing, moves SYN_RECEIVED to ESTABLISHED.
-/
import Svalinn.Tcp.Egress

set_option autoImplicit false

namespace Svalinn.Tcp

open Svalinn.Lib List Option

/-! ## Model -/

def tcpMinMss : Nat := 88

/-- `tcp_calculate_mss` of the Ethernet MTU of 1500 bytes. -/
def defaultMss : Nat := 1460

/-- The MSS and window scale options of a SYN, if present. -/
structure TcpOptions where
  mss : Option Nat := none
  wscale : Option Nat := none
  deriving DecidableEq

/-- A packet that has read `snd_nxt` and not yet taken the lock. -/
structure OpenPacket where
  seg : Segment
  opts : TcpOptions
  sndNxt : Seq
  deriving DecidableEq

/-- The state as far as the handshake goes; `running` is every state but SYN_SENT
once the first control segment is queued, and `conn.state` then says which. -/
inductive Phase where
  /-- attached but CLOSED, by `__tcp_dial` or by `tcp_rx_listener` -/
  | attached (dial : Bool)
  | synSent
  | running
  deriving DecidableEq

/-- A connection being opened, with ghosts: the SYN and SYN/ACK segments ever queued, whether
anything else was sent, and what held when the state became ESTABLISHED. -/
structure Opening where
  phase : Phase
  conn : Conn
  iss : Seq
  irs : Seq
  winmax : Nat
  rcvWscale : Nat
  sndMss : Nat
  inflight : List OpenPacket
  syns : List Mbuf
  sentData : Bool
  established : Option (Seq × Seq)
  deriving DecidableEq

/-- `tcp_scale_window` of `TCP_WIN`. -/
def tcpWscale : Nat := 1

def tcpConnAlloc (iss : Seq) (rcvMss : Nat) (dial : Bool) : Opening where
  phase := .attached dial
  conn :=
    { state := .closed, sndUna := iss, sndNxt := iss, sndWnd := 0, sndWl1 := 0, sndWl2 := 0
      sndWscale := 0, rcvNxt := 0, rcvWnd := BitVec.ofNat 32 tcpWin, rcvMss := rcvMss, err := 0
      rxClosed := false, rxExclusive := false, rxqOooLen := 0, rxqOoo := [], rxq := []
      txClosed := false, txExclusive := false, txq := [], doFastRetransmit := false
      fastRetransmitLastAck := 0, repAcks := 0, acksDelayedCnt := 0, ackDelayed := false }
  iss := iss
  irs := 0
  winmax := tcpWin
  rcvWscale := tcpWscale
  sndMss := 0
  inflight := []
  syns := []
  sentData := false
  established := none

/-- What `tcp_parse_options` stores. -/
def applyOptions (o : Opening) (opts : TcpOptions) : Opening :=
  let winmax := if opts.wscale.isNone then min o.winmax 0xFFFF else o.winmax
  { o with
    sndMss := opts.mss.elim defaultMss fun mss => min (max mss tcpMinMss) o.conn.rcvMss
    winmax := winmax
    rcvWscale := if opts.wscale.isNone then 0 else o.rcvWscale
    conn := { o.conn with
      sndWscale := opts.wscale.elim 0 fun w => min w 14
      rcvWnd := if opts.wscale.isNone then BitVec.ofNat 32 winmax else o.conn.rcvWnd } }

/-- The connection `__tcp_dial` attaches. -/
def dialInit (iss : Seq) (rcvMss : Nat) : Opening := tcpConnAlloc iss rcvMss true

/-- The connection `tcp_rx_listener` attaches for a SYN. -/
def listenInit (iss : Seq) (rcvMss : Nat) (seq : Seq) (opts : TcpOptions) : Opening :=
  let o := tcpConnAlloc iss rcvMss false
  applyOptions { o with irs := seq, conn := { o.conn with rcvNxt := seq + 1 } } opts

/-- The segment `tcp_tx_ctl` builds. -/
def ctlSegment (c : Conn) (flags : Flags) : Mbuf :=
  { segSeq := c.sndNxt, segEnd := c.sndNxt + 1, flags := flags, data := [] }

/-- `tcp_tx_ctl` of a SYN: nothing without a buffer; otherwise the segment is queued,
whether or not it could be sent. -/
def tcpTxCtl (o : Opening) (flags : Flags) (allocOk : Bool) : Opening :=
  if allocOk then
    { o with
      conn := { o.conn with
        sndNxt := o.conn.sndNxt + 1
        txq := o.conn.txq ++ [ctlSegment o.conn flags] }
      syns := o.syns ++ [ctlSegment o.conn flags] }
  else o

/-- The rest of `__tcp_dial` and `tcp_rx_listener`.  After a failure the connection is
destroyed in state CLOSED. -/
def openConnection (o : Opening) (dial allocOk sent : Bool) : Opening :=
  let o' := tcpTxCtl o { syn := true, ack := ! dial } allocOk
  if allocOk ∧ sent then
    if dial then { o' with phase := .synSent }
    else { o' with phase := .running, conn := { o'.conn with state := .synReceived } }
  else { o' with phase := .running }

/-- A SYN in state SYN_SENT: its number, options and acknowledgement are taken. -/
def takeSyn (o : Opening) (p : OpenPacket) : Opening :=
  let o₁ := applyOptions
    { o with irs := p.seg.seq, conn := { o.conn with rcvNxt := p.seg.seq + 1 } } p.opts
  if p.seg.flags.ack then { o₁ with conn := tcpConnAck { o₁.conn with sndUna := p.seg.ack } }
  else o₁

def establish (o : Opening) (seq ack win : Seq) : Opening :=
  { o with
    phase := .running
    conn := { o.conn with sndWnd := win, sndWl1 := seq, sndWl2 := ack, state := .established }
    established := some (o.conn.sndUna, o.conn.rcvNxt) }

/-- A SYN is answered; a failed transmission is treated as packet loss. -/
def answerSyn (o : Opening) (allocOk sent : Bool) : Opening :=
  let o' := tcpTxCtl o { syn := true } allocOk
  if allocOk ∧ sent then
    { o' with phase := .running, conn := { o'.conn with state := .synReceived } }
  else o'

def synSentSyn (o : Opening) (p : OpenPacket) (allocOk sent : Bool) : Opening :=
  let o₁ := takeSyn o p
  if wrapsGt o₁.conn.sndUna o₁.iss then
    establish o₁ p.seg.seq p.seg.ack (segWin o.conn p.seg)
  else answerSyn o₁ allocOk sent

/-- The SYN_SENT branch of `__tcp_rx_conn`. -/
def rxSynSent (o : Opening) (p : OpenPacket) (allocOk sent : Bool) : Opening :=
  let flags := p.seg.flags
  if p.seg.data.length > o.conn.rcvMss then o
  else if flags.ack ∧ (wrapsLte p.seg.ack o.iss ∨ wrapsGt p.seg.ack p.sndNxt) then o
  else if flags.ack ∧ flags.rst ∧ wrapsLte o.conn.sndUna p.seg.ack ∧
      wrapsLte p.seg.ack p.sndNxt then
    { o with phase := .running, conn := tcpConnFail o.conn econnreset }
  else if ! flags.ack ∧ flags.rst then o
  else if flags.syn then synSentSyn o p allocOk sent
  else o

def rxRunning (o : Opening) (p : OpenPacket) : Option Opening :=
  (tcpRxConn o.conn p.seg p.sndNxt).map fun r =>
    { o with
      conn := r.conn
      established :=
        if o.conn.state = .synReceived ∧ r.conn.state ≠ .synReceived ∧ r.conn.state ≠ .closed then
          some (r.conn.sndUna, o.conn.rcvNxt)
        else o.established }

inductive OpenEvent where
  | openConn (allocOk sent : Bool)
  /-- a packet reads `snd_nxt` -/
  | arrive (seg : Segment) (opts : TcpOptions)
  | process (i : Nat) (allocOk sent : Bool)
  /-- `tcp_conn_fail`: a timeout, an abort or a network error -/
  | fail (err : Nat)
  | transmit (state : TcpState) (sndNxt : Seq) (txq : List Mbuf) (exclusive : Bool)
  deriving DecidableEq

def Opening.isOpen (o : Opening) : Bool :=
  decide (o.phase = .running ∧ o.conn.state ≠ .synReceived ∧ o.conn.state ≠ .closed)

def openStep (o : Opening) : OpenEvent → Option Opening
  | .openConn allocOk sent =>
    match o.phase with
    | .attached dial => some (openConnection o dial allocOk sent)
    | _ => none
  | .arrive seg opts =>
    some { o with inflight := o.inflight ++ [⟨seg, opts, o.conn.sndNxt⟩] }
  | .process i allocOk sent =>
    match o.inflight[i]? with
    | none => none
    | some p =>
      let o := { o with inflight := o.inflight.eraseIdx i }
      if o.phase = .synSent then some (rxSynSent o p allocOk sent) else rxRunning o p
  | .fail err =>
    some { o with
      phase := if o.phase = .synSent then .running else o.phase
      conn := tcpConnFail o.conn err }
  | .transmit state sndNxt txq exclusive =>
    if o.isOpen ∧ state ≠ .synReceived then
      some { o with
        conn := { o.conn with
          state := state, sndNxt := sndNxt, txq := txq, txExclusive := exclusive }
        sentData := true }
    else none

/-- The handshake is safe: the connection became ESTABLISHED with its SYN acknowledged
and `rcv_nxt` behind the peer's, and it queued one SYN, at `iss`, which is all that it
sent before any data. -/
def HandshakeSafe (o : Opening) : Prop :=
  (∀ una nxt, o.established = some (una, nxt) → wrapsGt una o.iss ∧ nxt = o.irs + 1) ∧
  (∀ m ∈ o.syns, m.segSeq = o.iss ∧ m.segEnd = o.iss + 1) ∧ o.syns.length ≤ 1 ∧
  (o.syns ≠ [] → o.sentData = false → o.conn.sndNxt = o.iss + 1)

def crossingSyn (o : Opening) (p : OpenPacket) (allocOk : Bool) : Prop :=
  o.phase = .synSent ∧ p.seg.data.length ≤ o.conn.rcvMss ∧ p.seg.flags.syn = true ∧
    p.seg.flags.ack = false ∧ p.seg.flags.rst = false ∧ allocOk = true

def opensWith (c : Conn) (s : Segment) (sndNxt : Seq) : Prop :=
  s.data.length ≤ c.rcvMss ∧ isAcceptable c (segLen s) s.seq = true ∧ s.flags.rst = false ∧
    s.flags.syn = false ∧ s.flags.ack = true ∧ wrapsLte c.sndUna s.ack ∧ wrapsLte s.ack sndNxt

def acksNothing (o : Opening) (p : OpenPacket) : Prop :=
  o.phase = .running ∧ o.conn.state = .synReceived ∧ opensWith o.conn p.seg p.sndNxt ∧
    p.seg.ack = o.conn.sndUna

def handshakeGuard (o : Opening) : OpenEvent → Prop
  | .process i allocOk _ => ∀ p ∈ o.inflight[i]?, ¬ crossingSyn o p allocOk ∧ ¬ acksNothing o p
  | _ => True

/-! ## SYN_RECEIVED -/

section SynReceived

variable {c c' : Conn} {s : Segment} {sndNxt : Seq} {r : RxOut}

theorem released_sndUna (c : Conn) (ack : Seq) : (released c ack).sndUna = ack := by
  unfold released
  split
  · assumption
  · exact (tcpConnAck_tx _).1

theorem processAck_state {seq len ack win : Seq}
    (h : processAck c seq len ack sndNxt win = some c') : c'.state = c.state := by
  rcases processAck_cases c seq len ack sndNxt win with ⟨hnone, -⟩ | ⟨c₁, hsome, -, hstate⟩
  · rw [h] at hnone
    cases hnone
  · obtain rfl := some.inj (h.symm.trans hsome)
    exact hstate

theorem processAck_sndUna {seq len ack win : Seq} (hle : wrapsLte c.sndUna ack)
    (hnxt : wrapsLte ack sndNxt) (h : processAck c seq len ack sndNxt win = some c') :
    c'.sndUna = ack := by
  rcases processAck_snd h with ⟨-, -, hsnd⟩ | ⟨hnot, -⟩
  · have huna := hsnd.sndUna
    split at huna
    · exact huna.trans (released_sndUna c ack)
    · exact huna.trans (released_sndUna c ack)
  · exact absurd ⟨hle, hnxt⟩ hnot

inductive SynReceivedRx (c : Conn) (s : Segment) (sndNxt : Seq) (r : RxOut) : Prop
  | opened (hopens : opensWith c s sndNxt) (una : r.conn.sndUna = s.ack)
      (nxt : r.conn.sndNxt = c.sndNxt) (hsyn : r.conn.state ≠ .synReceived)
      (hclosed : r.conn.state ≠ .closed)
  | kept (hopens : ¬ opensWith c s sndNxt) (state : r.conn.state = .synReceived)
      (una : r.conn.sndUna = c.sndUna) (nxt : r.conn.sndNxt = c.sndNxt)
      (rcvNxt : r.conn.rcvNxt = c.rcvNxt)
  | failed (hopens : ¬ opensWith c s sndNxt) (eq : r.conn = tcpConnFail c econnreset)

theorem synReceived_done (hst : c.state = .synReceived) (hopens : ¬ opensWith c s sndNxt)
    (b : Bool) : SynReceivedRx c s sndNxt (rxDone { conn := c, doAck := b }) := by
  obtain ⟨hsame, hstate⟩ := rxDone_tx (c := c) (o := { conn := c, doAck := b }) rfl
  refine .kept hopens (hstate.trans hst) hsame.sndUna hsame.sndNxt ?_
  unfold rxDone
  split
  · rfl
  · rfl

theorem synReceived_rx (hst : c.state = .synReceived) (h : tcpRxConn c s sndNxt = some r) :
    SynReceivedRx c s sndNxt r := by
  have hlen : s.seq + BitVec.ofNat 32 s.data.length - s.seq = BitVec.ofNat 32 s.data.length := by
    rw [BitVec.add_comm, BitVec.add_sub_cancel]
  unfold tcpRxConn at h
  dsimp only at h
  split at h
  · rename_i hmss
    cases h
    exact .kept (fun ho => absurd ho.1 (Nat.not_le.2 hmss)) hst rfl rfl rfl
  rename_i hmss
  split at h
  swap
  · rename_i hfast
    have hest := (fastPath_of_checks (Bool.eq_false_iff.2 hfast)).state
    cases hst.symm.trans hest
  unfold tcpRxConnSlow at h
  simp only [hlen] at h
  rw [if_neg (by rw [hst]; decide)] at h
  change (if (! isAcceptable c (segLen s) s.seq) = true then _ else _) = some r at h
  split at h
  · rename_i hacc
    cases h
    refine synReceived_done hst (fun ho => ?_) _
    rw [ho.2.1] at hacc
    cases hacc
  rename_i hacc
  split at h
  · rename_i hrst
    cases h
    exact .failed (fun ho => absurd (ho.2.2.1.symm.trans hrst) Bool.false_ne_true) rfl
  rename_i hrst
  split at h
  · rename_i hsyn
    cases h
    exact .failed (fun ho => absurd (ho.2.2.2.1.symm.trans hsyn) Bool.false_ne_true) rfl
  rename_i hsyn
  split at h
  · rename_i hack
    cases h
    refine .kept (fun ho => ?_) hst rfl rfl rfl
    rw [ho.2.2.2.2.1] at hack
    cases hack
  rename_i hack
  split at h
  · rename_i hrange
    cases h
    exact .kept (fun ho => hrange.2 ho.2.2.2.2.2) hst rfl rfl rfl
  rename_i hrange
  have hin : wrapsLte c.sndUna s.ack ∧ wrapsLte s.ack sndNxt :=
    Classical.not_not.1 fun hno => hrange ⟨hst, hno⟩
  have hopens : opensWith c s sndNxt := by
    refine ⟨Nat.not_lt.1 hmss, ?_, Bool.eq_false_iff.2 hrst, Bool.eq_false_iff.2 hsyn, ?_, hin⟩
    · simpa using hacc
    · simpa using hack
  generalize hc₀ : ({ c with
    sndWnd := s.win.setWidth 32 <<< c.sndWscale, sndWl1 := s.seq, sndWl2 := s.ack
    state := .established } : Conn) = c₀ at h
  have huna₀ : c₀.sndUna = c.sndUna := by rw [← hc₀]
  have hnxt₀ : c₀.sndNxt = c.sndNxt := by rw [← hc₀]
  have hstate₀ : c₀.state = .established := by rw [← hc₀]
  split at h
  · rename_i hproc
    exact absurd hproc (processAck_ne_none (by rw [huna₀]; exact hin.1) hin.2)
  · rename_i c₁ hproc
    have huna₁ : c₁.sndUna = s.ack := processAck_sndUna (by rw [huna₀]; exact hin.1) hin.2 hproc
    have hnxt₁ : c₁.sndNxt = c.sndNxt := (processAck_tx hproc).sndNxt.trans hnxt₀
    have hstate₁ : c₁.state = .established := (processAck_state hproc).trans hstate₀
    have hfin : finAcked c₁ sndNxt = c₁ := by
      unfold finAcked
      rw [hstate₁]
    rw [hfin, if_neg (by rw [hstate₁]; exact fun hc => by cases hc.1)] at h
    obtain ⟨hsame, hstate⟩ := processText_tx h
    rw [hstate₁] at hstate
    refine .opened hopens (hsame.sndUna.trans huna₁) (hsame.sndNxt.trans hnxt₁) ?_ ?_
    · rcases hstate with hs | hs
      · rw [hs]; decide
      · rw [hs]; decide
    · rcases hstate with hs | hs
      · rw [hs]; decide
      · rw [hs]; decide

end SynReceived

theorem closed_rx {c : Conn} {s : Segment} {sndNxt : Seq} {r : RxOut} (hst : c.state = .closed)
    (h : tcpRxConn c s sndNxt = some r) : r.conn = c := by
  unfold tcpRxConn at h
  dsimp only at h
  split at h
  · cases h
    rfl
  split at h
  · unfold tcpRxConnSlow at h
    dsimp only at h
    rw [if_pos hst] at h
    cases h
    rfl
  · rename_i hfast
    have hest := (fastPath_of_checks (Bool.eq_false_iff.2 hfast)).state
    cases hst.symm.trans hest

theorem later_rx {c : Conn} {s : Segment} {sndNxt : Seq} {r : RxOut} (hst : c.state ≠ .synReceived)
    (h : tcpRxConn c s sndNxt = some r) :
    r.conn.state ≠ .synReceived ∧ r.conn.sndNxt = c.sndNxt := by
  rcases tcpRxConn_tx h with ⟨hacked, hstates⟩ | ⟨-, hfail⟩
  · refine ⟨fun hsyn => hst ?_, hacked.sndNxt⟩
    rw [hsyn] at hstates
    revert hstates
    cases c.state <;> simp [RxStates, finState, ackState]
  · rw [hfail]
    exact ⟨nofun, rfl⟩

/-! ## The invariant -/

structure OpenInv (o : Opening) : Prop where
  safe : HandshakeSafe o
  attached : ∀ dial, o.phase = .attached dial →
    o.syns = [] ∧ o.established = none ∧ o.sentData = false ∧ o.conn.sndNxt = o.iss ∧
      o.conn.sndUna = o.iss ∧ o.conn.state = .closed ∧ (dial = false → o.conn.rcvNxt = o.irs + 1)
  synSent : o.phase = .synSent →
    o.syns ≠ [] ∧ o.established = none ∧ o.sentData = false ∧ o.conn.sndUna = o.iss
  synReceived : o.phase = .running → o.conn.state = .synReceived →
    o.conn.sndUna = o.iss ∧ o.conn.rcvNxt = o.irs + 1

section Inv

variable {o o' : Opening} {p : OpenPacket} {allocOk sent : Bool}

theorem openInv_dial (iss : Seq) (rcvMss : Nat) : OpenInv (dialInit iss rcvMss) where
  safe := ⟨nofun, nofun, Nat.zero_le 1, fun h => absurd rfl h⟩
  attached := by
    intro dial hphase
    obtain rfl : true = dial := Phase.attached.inj hphase
    exact ⟨rfl, rfl, rfl, rfl, rfl, rfl, nofun⟩
  synSent := nofun
  synReceived := nofun

theorem openInv_listen (iss : Seq) (rcvMss : Nat) (seq : Seq) (opts : TcpOptions) :
    OpenInv (listenInit iss rcvMss seq opts) where
  safe := ⟨nofun, nofun, Nat.zero_le 1, fun h => absurd rfl h⟩
  attached := fun _ _ => ⟨rfl, rfl, rfl, rfl, rfl, rfl, fun _ => rfl⟩
  synSent := nofun
  synReceived := nofun

/-- What the opening of a connection leaves as it was. -/
theorem openConnection_conn (o : Opening) (dial allocOk sent : Bool) :
    ∃ nxt txq state, (openConnection o dial allocOk sent).conn =
        { o.conn with sndNxt := nxt, txq := txq, state := state } ∧
      ((openConnection o dial allocOk sent).phase ≠ .running → state = o.conn.state) ∧
      (openConnection o dial allocOk sent).winmax = o.winmax ∧
      (openConnection o dial allocOk sent).rcvWscale = o.rcvWscale := by
  unfold openConnection tcpTxCtl
  cases allocOk <;> cases sent <;> cases dial <;> exact ⟨_, _, _, rfl, by simp, rfl, rfl⟩

theorem OpenInv.opener (h : OpenInv o) {dial : Bool} (hphase : o.phase = .attached dial) :
    OpenInv (openConnection o dial allocOk sent) := by
  obtain ⟨hsyns, hest, hdata, hnxt, huna, hclosed, hrcv⟩ := h.attached dial hphase
  -- what is sent is the only SYN, and takes the first number
  have hsafe : ∀ flags c, c.sndNxt = (tcpTxCtl o flags allocOk).conn.sndNxt → ∀ phase,
      HandshakeSafe { tcpTxCtl o flags allocOk with phase := phase, conn := c } := by
    intro flags c hc phase
    unfold tcpTxCtl at hc ⊢
    cases allocOk with
    | false => exact ⟨h.safe.1, h.safe.2.1, h.safe.2.2.1, fun hne => absurd hsyns hne⟩
    | true =>
      refine ⟨h.safe.1, ?_, ?_, fun _ _ => ?_⟩
      · intro m hm
        change m ∈ o.syns ++ [ctlSegment o.conn flags] at hm
        rw [hsyns, nil_append, mem_singleton] at hm
        subst hm
        exact ⟨hnxt, congrArg (· + 1) hnxt⟩
      · show (o.syns ++ [ctlSegment o.conn flags]).length ≤ 1
        rw [hsyns]
        exact Nat.le_refl 1
      · exact hc.trans (congrArg (· + 1) hnxt)
  unfold openConnection
  dsimp only
  split
  · rename_i hok
    cases dial with
    | true =>
      refine ⟨hsafe _ _ rfl _, nofun, fun _ => ?_, nofun⟩
      rw [hok.1]
      exact ⟨append_ne_nil_of_right_ne_nil _ (cons_ne_nil _ _), hest, hdata, huna⟩
    | false =>
      refine ⟨hsafe _ _ rfl _, nofun, nofun, fun _ _ => ?_⟩
      rw [hok.1]
      exact ⟨huna, hrcv rfl⟩
  · refine ⟨hsafe _ _ rfl _, nofun, nofun, fun _ hst => ?_⟩
    have hst' : o.conn.state = .synReceived := by
      unfold tcpTxCtl at hst
      cases allocOk with
      | true | false => exact hst
    rw [hclosed] at hst'
    cases hst'

theorem OpenInv.fail (h : OpenInv o) (err : Nat) : OpenInv { o with
      phase := if o.phase = .synSent then .running else o.phase
      conn := tcpConnFail o.conn err } := by
  refine ⟨h.safe, fun dial hphase => ?_, fun hphase => ?_, fun _ hst => by cases hst⟩
  · split at hphase
    · cases hphase
    · obtain ⟨hsyns, hest, hdata, hnxt, huna, -, hrcv⟩ := h.attached dial hphase
      exact ⟨hsyns, hest, hdata, hnxt, huna, rfl, hrcv⟩
  · split at hphase
    · cases hphase
    · contradiction

/-- What a SYN changes in SYN_SENT before it is answered. -/
structure SynTaken (o : Opening) (p : OpenPacket) (o₁ : Opening) : Prop where
  phase : o₁.phase = o.phase
  iss : o₁.iss = o.iss
  rcvNxt : o₁.conn.rcvNxt = o₁.irs + 1
  sndNxt : o₁.conn.sndNxt = o.conn.sndNxt
  sndUna : o₁.conn.sndUna = if p.seg.flags.ack then p.seg.ack else o.conn.sndUna
  syns : o₁.syns = o.syns
  sentData : o₁.sentData = o.sentData
  established : o₁.established = o.established

theorem takeSyn_spec (o : Opening) (p : OpenPacket) : SynTaken o p (takeSyn o p) := by
  unfold takeSyn
  dsimp only
  generalize ho₁ : applyOptions
    { o with irs := p.seg.seq, conn := { o.conn with rcvNxt := p.seg.seq + 1 } } p.opts = o₁
  have hirs : o₁.irs = p.seg.seq := by rw [← ho₁]; rfl
  have hrcv : o₁.conn.rcvNxt = p.seg.seq + 1 := by rw [← ho₁]; rfl
  have hnxt : o₁.conn.sndNxt = o.conn.sndNxt := by rw [← ho₁]; rfl
  have huna : o₁.conn.sndUna = o.conn.sndUna := by rw [← ho₁]; rfl
  have hghosts : o₁.phase = o.phase ∧ o₁.iss = o.iss ∧ o₁.syns = o.syns ∧
      o₁.sentData = o.sentData ∧ o₁.established = o.established := by
    rw [← ho₁]
    exact ⟨rfl, rfl, rfl, rfl, rfl⟩
  obtain ⟨hphase, hiss, hsyns, hdata, hest⟩ := hghosts
  split
  · rename_i hack
    have htx := tcpConnAck_tx { o₁.conn with sndUna := p.seg.ack }
    have hsame := (tcpConnAck_same (c := { o₁.conn with sndUna := p.seg.ack })).1
    exact ⟨hphase, hiss, (hsame.rcvNxt.trans hrcv).trans (by rw [hirs]), htx.2.1.trans hnxt,
      htx.1.trans (if_pos hack).symm, hsyns, hdata, hest⟩
  · rename_i hack
    exact ⟨hphase, hiss, hrcv.trans (by rw [hirs]), hnxt, huna.trans (if_neg hack).symm, hsyns, hdata,
      hest⟩

theorem wrapsGt_self (x : Seq) : ¬ wrapsGt x x := by
  unfold wrapsGt
  rw [BitVec.sub_self, BitVec.toInt_zero]
  exact Int.lt_irrefl 0

theorem wrapsGt_of_wrapsLte_ne {x y : Seq} (hle : wrapsLte x y) (hne : y ≠ x) : wrapsGt y x := by
  unfold wrapsLte at hle
  unfold wrapsGt
  refine lt_of_le_of_ne hle fun hzero => hne ?_
  have hsub : x - y = 0 := BitVec.eq_of_toInt_eq (hzero.trans BitVec.toInt_zero.symm)
  exact (sub_eq_zero.1 hsub).symm

section

variable (h : OpenInv o)

include h

theorem OpenInv.synSentSyn_ack (hack : p.seg.flags.ack = true)
    (hgt : wrapsGt p.seg.ack o.iss) : OpenInv (synSentSyn o p allocOk sent) := by
  have htaken := takeSyn_spec o p
  have huna := htaken.sndUna
  rw [if_pos hack] at huna
  have hgt' : wrapsGt (takeSyn o p).conn.sndUna (takeSyn o p).iss := by
    rw [huna, htaken.iss]
    exact hgt
  unfold synSentSyn
  dsimp only
  rw [if_pos hgt']
  refine ⟨⟨fun una nxt hsome => ?_, ?_, ?_, ?_⟩, nofun, nofun, nofun⟩
  · obtain ⟨rfl, rfl⟩ := Prod.mk.inj (some.inj hsome)
    exact ⟨hgt', htaken.rcvNxt⟩
  · show ∀ m ∈ (takeSyn o p).syns, m.segSeq = (takeSyn o p).iss ∧ _ = (takeSyn o p).iss + 1
    rw [htaken.syns, htaken.iss]
    exact h.safe.2.1
  · show (takeSyn o p).syns.length ≤ 1
    rw [htaken.syns]
    exact h.safe.2.2.1
  · show (takeSyn o p).syns ≠ [] → (takeSyn o p).sentData = false →
      (takeSyn o p).conn.sndNxt = (takeSyn o p).iss + 1
    rw [htaken.syns, htaken.sentData, htaken.sndNxt, htaken.iss]
    exact h.safe.2.2.2

theorem OpenInv.synSentSyn_eq (hphase : o.phase = .synSent)
    (hack : p.seg.flags.ack = false) :
    synSentSyn o p allocOk sent = answerSyn (takeSyn o p) allocOk sent := by
  obtain ⟨-, -, -, huna⟩ := h.synSent hphase
  have htaken := takeSyn_spec o p
  have huna' := htaken.sndUna
  rw [hack, if_neg Bool.false_ne_true, huna] at huna'
  unfold synSentSyn
  dsimp only
  rw [huna', htaken.iss]
  exact if_neg (wrapsGt_self _)

theorem OpenInv.synSentSyn_noBuffer (hphase : o.phase = .synSent)
    (hack : p.seg.flags.ack = false) : OpenInv (synSentSyn o p false sent) := by
  obtain ⟨hsyns, hest, hdata, huna⟩ := h.synSent hphase
  have htaken := takeSyn_spec o p
  have huna' := htaken.sndUna
  rw [hack, if_neg Bool.false_ne_true, huna] at huna'
  rw [h.synSentSyn_eq hphase hack]
  show OpenInv (takeSyn o p)
  refine ⟨⟨fun una nxt hsome => ?_, ?_, ?_, ?_⟩, fun dial hd => ?_, fun _ => ?_, fun hrun => ?_⟩
  · rw [htaken.established, hest] at hsome
    cases hsome
  · rw [htaken.syns, htaken.iss]
    exact h.safe.2.1
  · rw [htaken.syns]
    exact h.safe.2.2.1
  · rw [htaken.syns, htaken.sentData, htaken.sndNxt, htaken.iss]
    exact h.safe.2.2.2
  · rw [htaken.phase, hphase] at hd
    cases hd
  · rw [htaken.syns, htaken.established, htaken.sentData, huna', htaken.iss]
    exact ⟨hsyns, hest, hdata, rfl⟩
  · rw [htaken.phase, hphase] at hrun
    cases hrun

theorem OpenInv.synSent_rx (hphase : o.phase = .synSent)
    (hcross : ¬ crossingSyn o p allocOk) : OpenInv (rxSynSent o p allocOk sent) := by
  unfold rxSynSent
  dsimp only
  split
  · exact h
  rename_i hmss
  split
  · exact h
  rename_i hrange
  split
  · have hfail := h.fail econnreset
    rw [if_pos hphase] at hfail
    exact hfail
  split
  · exact h
  rename_i hrst
  split
  swap
  · exact h
  rename_i hsyn
  cases hack : p.seg.flags.ack with
  | true =>
    refine h.synSentSyn_ack hack ?_
    have hnot : ¬ wrapsLte p.seg.ack o.iss := fun hle => hrange ⟨hack, Or.inl hle⟩
    exact Classical.not_not.1 (mt wrapsLte_of_not_wrapsGt hnot)
  | false =>
    have hnorst : p.seg.flags.rst = false :=
      Bool.eq_false_iff.2 fun hr => hrst ⟨by rw [hack]; rfl, hr⟩
    obtain rfl : allocOk = false :=
      Bool.eq_false_iff.2 fun ha => hcross ⟨hphase, Nat.not_lt.1 hmss, hsyn, hack, hnorst, ha⟩
    exact h.synSentSyn_noBuffer hphase hack

theorem OpenInv.running_rx (hphase : o.phase ≠ .synSent)
    (hnothing : ¬ acksNothing o p) (hst : rxRunning o p = some o') : OpenInv o' := by
  obtain ⟨r, hr, rfl⟩ := map_eq_some_iff.1 hst
  by_cases hsyn : o.phase = .running ∧ o.conn.state = .synReceived
  · obtain ⟨hrun, hstate⟩ := hsyn
    obtain ⟨huna, hrcv⟩ := h.synReceived hrun hstate
    have hattached : ∀ dial, o.phase ≠ .attached dial := fun dial hd => by cases hrun.symm.trans hd
    cases synReceived_rx hstate hr with
    | opened hopens huna' hnxt hnsyn hnclosed =>
      refine ⟨⟨?_, h.safe.2.1, h.safe.2.2.1, fun hne hd => hnxt.trans (h.safe.2.2.2 hne hd)⟩,
        fun dial hd => absurd hd (hattached dial), fun hs => absurd hs hphase,
        fun _ hs => absurd hs hnsyn⟩
      intro una nxt hsome
      dsimp only at hsome
      rw [if_pos ⟨hstate, hnsyn, hnclosed⟩] at hsome
      obtain ⟨rfl, rfl⟩ := Prod.mk.inj (some.inj hsome)
      refine ⟨?_, hrcv⟩
      have hne : p.seg.ack ≠ o.iss := fun heq =>
        hnothing ⟨hrun, hstate, hopens, heq.trans huna.symm⟩
      rw [huna']
      exact wrapsGt_of_wrapsLte_ne (huna ▸ hopens.2.2.2.2.2.1) hne
    | kept _ hstate' huna' hnxt hrcv' =>
      refine ⟨⟨?_, h.safe.2.1, h.safe.2.2.1, fun hne hd => hnxt.trans (h.safe.2.2.2 hne hd)⟩,
        fun dial hd => absurd hd (hattached dial), fun hs => absurd hs hphase,
        fun _ _ => ⟨huna'.trans huna, hrcv'.trans hrcv⟩⟩
      rw [if_neg (fun hc => hc.2.1 hstate')]
      exact h.safe.1
    | failed _ heq =>
      refine ⟨⟨?_, h.safe.2.1, h.safe.2.2.1, ?_⟩, fun dial hd => absurd hd (hattached dial),
        fun hs => absurd hs hphase, fun _ hs => ?_⟩
      · rw [if_neg (fun hc => hc.2.2 (by rw [heq]; rfl))]
        exact h.safe.1
      · intro hne hd
        show r.conn.sndNxt = o.iss + 1
        rw [heq]
        exact h.safe.2.2.2 hne hd
      · change r.conn.state = .synReceived at hs
        rw [heq] at hs
        cases hs
  · have hnot : o.conn.state ≠ .synReceived := by
      intro hstate
      cases hp : o.phase with
      | running => exact hsyn ⟨hp, hstate⟩
      | synSent => exact hphase hp
      | attached dial =>
        obtain ⟨-, -, -, -, -, hclosed, -⟩ := h.attached dial hp
        cases hclosed.symm.trans hstate
    obtain ⟨hlater, hnxt⟩ := later_rx hnot hr
    rw [if_neg (fun hc => hnot hc.1)]
    refine ⟨⟨h.safe.1, h.safe.2.1, h.safe.2.2.1, fun hne hd => hnxt.trans (h.safe.2.2.2 hne hd)⟩,
      fun dial hd => ?_, fun hs => absurd hs hphase, fun _ hs => absurd hs hlater⟩
    obtain ⟨hsyns, hest, hdata, hn, hu, hclosed, hrcv⟩ := h.attached dial hd
    obtain hsame := closed_rx hclosed hr
    rw [hsame]
    exact ⟨hsyns, hest, hdata, hn, hu, hclosed, hrcv⟩

theorem OpenInv.withInflight (ps : List OpenPacket) :
    OpenInv { o with inflight := ps } :=
  ⟨h.safe, h.attached, h.synSent, h.synReceived⟩

theorem openInv_step {e : OpenEvent} (hguard : handshakeGuard o e)
    (hst : openStep o e = some o') : OpenInv o' := by
  revert hst
  fun_cases openStep o e
  case case6 i _ _ p hp _ hphase =>
    intro hst
    exact (h.withInflight (o.inflight.eraseIdx i)).running_rx hphase (hguard p hp).2 hst
  all_goals rintro ⟨⟩
  case case1 hphase => exact h.opener hphase
  case case3 => exact h.withInflight _
  case case5 p hp _ hphase => exact (h.withInflight _).synSent_rx hphase (hguard p hp).1
  case case7 err => exact h.fail err
  case case8 hopen =>
    obtain ⟨hrun, -, -⟩ := of_decide_eq_true hopen.1
    refine ⟨⟨h.safe.1, h.safe.2.1, h.safe.2.2.1, nofun⟩, fun dial hd => ?_, fun hs => ?_,
      fun _ hs => absurd hs hopen.2⟩
    · cases hrun.symm.trans hd
    · cases hrun.symm.trans hs

theorem OpenInv.not_safe_of_crossing (hcross : crossingSyn o p allocOk) :
    ¬ HandshakeSafe (rxSynSent o p allocOk sent) := by
  obtain ⟨hphase, hmss, hsyn, hack, hrst, halloc⟩ := hcross
  obtain ⟨hsyns, -⟩ := h.synSent hphase
  have heq : rxSynSent o p allocOk sent = synSentSyn o p allocOk sent := by
    unfold rxSynSent
    dsimp only
    rw [if_neg (Nat.not_lt.2 hmss), hack, hrst]
    simp only [Bool.false_eq_true, false_and, and_false, if_false]
    exact if_pos hsyn
  have hlog : ∃ m, (answerSyn (takeSyn o p) true sent).syns = o.syns ++ [m] := by
    refine ⟨ctlSegment (takeSyn o p).conn { syn := true }, ?_⟩
    rw [← (takeSyn_spec o p).syns]
    cases sent with
    | true | false => rfl
  obtain ⟨m, hlog⟩ := hlog
  intro hsafe
  have hlen := hsafe.2.2.1
  rw [heq, h.synSentSyn_eq hphase hack, halloc, hlog, length_append] at hlen
  have hpos := length_pos_iff.2 hsyns
  change o.syns.length + 1 ≤ 1 at hlen
  omega

theorem OpenInv.not_safe_of_acksNothing (hnothing : acksNothing o p)
    (hst : rxRunning o p = some o') : ¬ HandshakeSafe o' := by
  obtain ⟨hrun, hstate, hopens, hack⟩ := hnothing
  obtain ⟨huna, -⟩ := h.synReceived hrun hstate
  obtain ⟨r, hr, rfl⟩ := map_eq_some_iff.1 hst
  cases synReceived_rx hstate hr with
  | opened _ huna' _ hnsyn hnclosed =>
    intro hsafe
    have hgt := (hsafe.1 r.conn.sndUna o.conn.rcvNxt (if_pos ⟨hstate, hnsyn, hnclosed⟩)).1
    rw [huna', hack, huna] at hgt
    exact wrapsGt_self _ hgt
  | kept hno => exact absurd hopens hno
  | failed hno => exact absurd hopens hno

theorem guard_of_safe {e : OpenEvent} (hst : openStep o e = some o')
    (hsafe : HandshakeSafe o') : handshakeGuard o e := by
  cases e with
  | process i allocOk sent =>
    intro p hp
    unfold openStep at hst
    dsimp only at hst
    rw [show o.inflight[i]? = some p from hp] at hst
    dsimp only at hst
    have h' := h.withInflight (o.inflight.eraseIdx i)
    split at hst
    · rename_i hphase
      cases hst
      refine ⟨fun hcross => h'.not_safe_of_crossing hcross hsafe, fun hnothing => ?_⟩
      cases hphase.symm.trans hnothing.1
    · rename_i hphase
      exact ⟨fun hcross => hphase hcross.1,
        fun hnothing => h'.not_safe_of_acksNothing hnothing hst hsafe⟩
  | openConn _ _ | arrive _ _ | fail _ | transmit _ _ _ _ => trivial

end

end Inv

/-- For an active and for a passive opener: in every run whose segments meet the guard
the handshake is safe, and a further step keeps it safe exactly if it meets the guard. -/
theorem handshake_safe_iff {iss seq : Seq} {rcvMss : Nat} {opts : TcpOptions} {start o : Opening}
    (hstart : start = dialInit iss rcvMss ∨ start = listenInit iss rcvMss seq opts)
    (hreach : Reaches openStep handshakeGuard start o) :
    HandshakeSafe o ∧ ∀ e o', openStep o e = some o' → (HandshakeSafe o' ↔ handshakeGuard o e) := by
  have hinit : OpenInv start := by
    rcases hstart with rfl | rfl
    · exact openInv_dial iss rcvMss
    · exact openInv_listen iss rcvMss seq opts
  have h : OpenInv o := hreach.invariant hinit fun _ _ _ hu hok hs => openInv_step hu hok hs
  exact ⟨h.safe, fun e o' hst => ⟨guard_of_safe h hst, fun hg => (openInv_step h hg hst).safe⟩⟩

instance (o : Opening) (p : OpenPacket) (allocOk : Bool) : Decidable (crossingSyn o p allocOk) :=
  inferInstanceAs (Decidable (_ ∧ _))

instance (c : Conn) (s : Segment) (sndNxt : Seq) : Decidable (opensWith c s sndNxt) :=
  inferInstanceAs (Decidable (_ ∧ _))

instance (o : Opening) (p : OpenPacket) : Decidable (acksNothing o p) :=
  inferInstanceAs (Decidable (_ ∧ _))

instance (o : Opening) : (e : OpenEvent) → Decidable (handshakeGuard o e)
  | .process _ _ _ => inferInstanceAs (Decidable (∀ p ∈ _, _ ∧ _))
  | .openConn _ _ => inferInstanceAs (Decidable True)
  | .arrive _ _ => inferInstanceAs (Decidable True)
  | .fail _ => inferInstanceAs (Decidable True)
  | .transmit _ _ _ _ => inferInstanceAs (Decidable True)

def ctlPacket (seq ack : Seq) (flags : Flags) : Segment :=
  { seq := seq, ack := ack, win := 200, flags := flags, data := [], length_lt := length_nil_lt }

/-- An active opener with `iss` 7 gets the SYN/ACK of a peer with `irs` 300. -/
theorem handshake_safe_dial :
    ∃ o o', Reaches openStep handshakeGuard (dialInit 7 1460) o ∧ HandshakeSafe o ∧
      openStep o (.process 0 true true) = some o' ∧ o'.established = some (8, 301) ∧
      (HandshakeSafe o' ↔ handshakeGuard o (.process 0 true true)) := by
  have hrun : ((runChecked openStep (fun o e => decide (handshakeGuard o e)) (dialInit 7 1460)
      [.openConn true true, .arrive (ctlPacket 300 8 { syn := true }) {}]).bind fun o =>
        (openStep o (.process 0 true true)).map fun o' => o'.established) =
      some (some (8, 301)) := by decide
  obtain ⟨o, ho, hnext⟩ := bind_eq_some_iff.1 hrun
  obtain ⟨o', ho', hest⟩ := map_eq_some_iff.1 hnext
  have hreach := reaches_of_runChecked (fun _ _ _ h => of_decide_eq_true h) ho
  have hall := @handshake_safe_iff 7 0 1460 {} _ _ (Or.inl rfl) hreach
  exact ⟨o, o', hreach, hall.1, ho', hest, hall.2 _ _ ho'⟩

/-- A passive opener becomes ESTABLISHED by an acknowledgement of `iss`, with `snd_una` still there;
an active opener whose SYN crosses the peer's queues a second SYN at `iss + 1`. -/
theorem handshake_broken :
    (∃ o, Reaches openStep anyStep (listenInit 7 1460 300 {}) o ∧ o.conn.state = .established ∧
      o.established = some (7, 301) ∧ o.conn.sndUna = o.iss ∧ ¬ HandshakeSafe o) ∧
    (∃ o, Reaches openStep anyStep (dialInit 7 1460) o ∧ o.conn.state = .synReceived ∧
      o.syns.map (·.segSeq) = [7, 8] ∧ o.conn.sndNxt = 9 ∧ ¬ HandshakeSafe o) := by
  constructor
  · obtain ⟨o, hreach, hst, hest, huna, hiss⟩ :
        ∃ o, Reaches openStep anyStep (listenInit 7 1460 300 {}) o ∧ o.conn.state = .established ∧
          o.established = some (7, 301) ∧ o.conn.sndUna = o.iss ∧ o.iss = 7 :=
      exists_of_runActions
        [.openConn true true, .arrive (ctlPacket 301 7 {}) {}, .process 0 true true] (by decide)
    refine ⟨o, hreach, hst, hest, huna, fun hsafe => ?_⟩
    have hgt := (hsafe.1 7 301 hest).1
    rw [hiss] at hgt
    exact wrapsGt_self _ hgt
  · obtain ⟨o, hreach, hst, hsyns, hnxt⟩ :
        ∃ o, Reaches openStep anyStep (dialInit 7 1460) o ∧ o.conn.state = .synReceived ∧
          o.syns.map (·.segSeq) = [7, 8] ∧ o.conn.sndNxt = 9 :=
      exists_of_runActions [.openConn true true,
        .arrive (ctlPacket 300 0 { syn := true, ack := false }) {}, .process 0 true true] (by decide)
    refine ⟨o, hreach, hst, hsyns, hnxt, fun hsafe => ?_⟩
    have hlen := hsafe.2.2.1
    rw [← length_map (f := (·.segSeq)), hsyns] at hlen
    exact absurd hlen (by decide)

end Svalinn.Tcp
