/-
  Tcp/RefCount.lean --- the references to a connection and its destruction.

  Source: `runtime/net/tcp.c` (`tcp_handle_timeouts`, `tcp_conn_err`, `tcp_conn_destroy`,
  `tcp_conn_release_ref`, `tcp_accept`, `tcp_qclose`, `__tcp_dial`, `tcp_retransmit`,
  `tcp_conn_fail`, `tcp_shutdown`, `tcp_abort`, `tcp_close`), `runtime/net/tcp_in.c`
  (`__tcp_rx_conn`, `tcp_rx_listener`), `inc/base/kref.h` and `delete_entry` of
  `runtime/net/arp.c`.

  A connection is referenced by its user, by its state machine from the moment its SYN
  is sent, and by every retransmit thread.  Before a connection is handed to the user
  the opener or the accept queue has the user's reference.  What a segment may do to
  the state is taken from the model of `__tcp_rx_conn`.

  `tcp_conn_fail` drops the state machine's reference without asking whether it is
  still there, and `__tcp_dial` and `tcp_qclose` destroy a connection without asking
  the count.
-/
import Svalinn.Tcp.Egress

set_option autoImplicit false

namespace Svalinn.Tcp.Refs

open Svalinn.Lib

/-! ## Model -/

inductive Pcb where
  | synSent
  | other (st : TcpState)
  deriving DecidableEq

abbrev Pcb.closed : Pcb := .other .closed

def Pcb.opening : Pcb → Bool
  | .synSent | .other .synReceived => true
  | _ => false

def Pcb.rxMoves : Pcb → Pcb → Prop
  | .synSent, p => p = .synSent ∨ p = .other .synReceived ∨ p = .other .established
  | .other st, .other st' => RxStates st True st'
  | .other _, .synSent => False

instance : (p q : Pcb) → Decidable (p.rxMoves q)
  | .synSent, _ => inferInstanceAs (Decidable (_ ∨ _))
  | .other _, .other _ => inferInstanceAs (Decidable (_ ∨ _))
  | .other _, .synSent => inferInstanceAs (Decidable False)

def Pcb.finSent : Pcb → Pcb
  | .synSent => .synSent
  | .other st => .other (shutdownTxState st)

inductive User where
  /-- `__tcp_dial` or `tcp_rx_listener`, before the SYN is sent -/
  | opener (dial : Bool)
  /-- `__tcp_dial`, waiting for the connection -/
  | dialWait
  | queued
  | using
  /-- `tcp_close`, waiting for a writer -/
  | closing
  | gone
  deriving DecidableEq

/-- A connection as far as its references go; `arpQueued` counts its packets in the queues of
unresolved neighbours. The last fields are ghosts. -/
structure RefConn where
  pcb : Pcb
  ref : Int
  txClosed : Bool
  txExclusive : Bool
  arpQueued : Nat
  user : User
  smTaken : Bool
  smDropped : Nat
  retransmits : Nat
  destroyed : Nat
  direct : Bool
  deriving DecidableEq

def tcpConnPut (s : RefConn) : RefConn :=
  { s with
    ref := s.ref - 1
    destroyed := if s.ref - 1 = 0 then s.destroyed + 1 else s.destroyed }

def dropSm (s : RefConn) : RefConn :=
  tcpConnPut { s with pcb := .closed, smDropped := s.smDropped + 1 }

def tcpConnFail (s : RefConn) : RefConn := dropSm { s with txClosed := true }

def dropUser (s : RefConn) : RefConn := tcpConnPut { s with user := .gone }

/-- `tcp_conn_destroy`, called by the one who has the user's reference. -/
def destroyDirectly (s : RefConn) : RefConn :=
  { s with destroyed := s.destroyed + 1, user := .gone, direct := true }

/-- `tcp_close` from its FIN on. -/
def finishClose (s : RefConn) (sent : Bool) : RefConn :=
  if sent then dropUser { s with pcb := s.pcb.finSent, txClosed := true } else dropUser (tcpConnFail s)

inductive RefEvent where
  | openConn (sent : Bool)
  /-- a blocking `tcp_dial` stops waiting -/
  | dialWake
  | accept
  | qclose
  | rx (p : Pcb)
  | rxReset
  | connectTimeout
  | timeWaitTimeout
  /-- `tcp_handle_timeouts` spawns a retransmit thread -/
  | retransmitTimeout
  | retransmitDone
  | abort
  | close (sent : Bool)
  | closeWake (sent : Bool)
  /-- `tcp_shutdown`, at once or after it waited for a writer -/
  | shutdown (sent : Bool)
  | lockTx
  | unlockTx
  | park
  /-- `delete_entry` reports an error for one packet -/
  | netError
  deriving DecidableEq

def refStep (s : RefConn) : RefEvent → Option RefConn
  | .openConn sent =>
    match s.user with
    | .opener dial =>
      if sent then
        some { s with
          ref := s.ref + 1
          smTaken := true
          pcb := if dial then .synSent else .other .synReceived
          user := if dial then .dialWait else .queued }
      else some (destroyDirectly s)
    | _ => none
  | .dialWake =>
    if s.user = .dialWait then
      if s.txClosed then some (destroyDirectly s)
      else if s.pcb.opening then none
      else some { s with user := .using }
    else none
  | .accept => if s.user = .queued then some { s with user := .using } else none
  | .qclose => if s.user = .queued then some (destroyDirectly s) else none
  | .rx p =>
    if s.pcb ≠ .closed ∧ s.pcb.rxMoves p then
      if p = .closed then some (dropSm s) else some { s with pcb := p }
    else none
  | .rxReset => if s.pcb ≠ .closed then some (tcpConnFail s) else none
  | .connectTimeout => if s.pcb.opening then some (tcpConnFail s) else none
  | .timeWaitTimeout => if s.pcb = .other .timeWait then some (dropSm s) else none
  | .retransmitTimeout =>
    if s.pcb ≠ .closed ∧ s.txExclusive = false then
      some { s with ref := s.ref + 1, retransmits := s.retransmits + 1 }
    else none
  | .retransmitDone =>
    if s.retransmits = 0 then none
    else some (tcpConnPut { s with retransmits := s.retransmits - 1 })
  | .abort =>
    if s.user = .using then
      if s.pcb = .closed then some s else some (tcpConnFail s)
    else none
  | .close sent =>
    if s.user = .using then
      if s.txClosed then some (dropUser s)
      else if s.txExclusive then some { s with user := .closing }
      else some (finishClose s sent)
    else none
  | .closeWake sent =>
    if s.user = .closing ∧ s.txExclusive = false then some (finishClose s sent) else none
  | .shutdown sent =>
    if s.user = .using ∧ s.txExclusive = false then
      if sent then some { s with pcb := s.pcb.finSent, txClosed := true } else some s
    else none
  | .lockTx =>
    if s.txExclusive = false ∧ s.pcb ≠ .closed then some { s with txExclusive := true } else none
  | .unlockTx => if s.txExclusive then some { s with txExclusive := false } else none
  | .park => some { s with arpQueued := s.arpQueued + 1 }
  | .netError =>
    if s.arpQueued = 0 then none else some (tcpConnFail { s with arpQueued := s.arpQueued - 1 })

/-- `tcp_conn_alloc`. -/
def refInit (dial : Bool) : RefConn where
  pcb := .closed
  ref := 1
  txClosed := false
  txExclusive := false
  arpQueued := 0
  user := .opener dial
  smTaken := false
  smDropped := 0
  retransmits := 0
  destroyed := 0
  direct := false

def RefConn.smHeld (s : RefConn) : Bool := s.smTaken && decide (s.smDropped = 0)

def RefConn.holders (s : RefConn) : Nat :=
  (if s.user = .gone then 0 else 1) + (if s.smHeld then 1 else 0) + s.retransmits

/-- The state machine's reference is dropped once, when the state becomes CLOSED, and
the connection is destroyed once, when no reference remains. -/
def RefSafe (s : RefConn) : Prop :=
  s.smDropped = (if s.smTaken = true ∧ s.pcb = .closed then 1 else 0) ∧
    s.destroyed = if s.holders = 0 then 1 else 0

/-- The failure of a FIN of `tcp_close` and a network error find the connection open;
`tcp_dial` and `tcp_qclose` destroy it when theirs is the only reference. -/
def refGuard (s : RefConn) : RefEvent → Prop
  | .netError => s.pcb ≠ .closed
  | .close sent => s.txClosed = false → s.txExclusive = false → sent = false → s.pcb ≠ .closed
  | .closeWake sent => sent = false → s.pcb ≠ .closed
  | .dialWake => s.txClosed = true → s.retransmits = 0
  | .qclose => s.smHeld = false ∧ s.retransmits = 0
  | _ => True

/-- The moves of `Pcb.rxMoves` are those of the ingress path. -/
theorem rxMoves_of_rx {c : Conn} {seg : Segment} {sndNxt : Seq} {o : RxOut}
    (h : tcpRxConn c seg sndNxt = some o) :
    (Pcb.other c.state).rxMoves (.other o.conn.state) ∨
      ((seg.flags.rst = true ∨ seg.flags.syn = true) ∧ o.conn = Tcp.tcpConnFail c econnreset) := by
  rcases tcpRxConn_tx h with ⟨-, hstates⟩ | hfail
  · refine Or.inl ?_
    rcases hstates with h1 | h2 | h3 | ⟨-, h4⟩
    · exact Or.inl h1
    · exact Or.inr (Or.inl h2)
    · exact Or.inr (Or.inr (Or.inl h3))
    · exact Or.inr (Or.inr (Or.inr ⟨trivial, h4⟩))
  · exact Or.inr hfail

theorem rxMoves_of_two_bytes : ∃ o, tcpRxConn (openConn 1 tcpWin) lastTwo 0 = some o ∧
    (Pcb.other .established).rxMoves (.other o.conn.state) := by
  have h : tcpRxConn (openConn 1 tcpWin) lastTwo 0 = some _ := rfl
  exact ⟨_, h, (rxMoves_of_rx h).resolve_right fun hfail => absurd hfail.1 (by decide)⟩

/-! ## The count -/

/-- The count is the number of references, and one more after a destruction without
it; the connection is destroyed once none remains. -/
structure Balanced (ref : Int) (holders : Nat) (direct : Bool) (destroyed : Nat) : Prop where
  ref : ref = holders + (if direct then 1 else 0)
  destroyed : destroyed = if holders = 0 then 1 else 0
  direct : direct = true → holders = 0

section Balanced

variable {ref : Int} {n k : Nat} {d : Bool}

theorem Balanced.put (h : Balanced ref (n + 1) d k) :
    Balanced (ref - 1) n d (if ref - 1 = 0 then k + 1 else k) := by
  have hd : d = false := Bool.eq_false_iff.2 fun hd => absurd (h.direct hd) (Nat.succ_ne_zero n)
  subst hd
  have href := h.ref
  have hk : k = 0 := h.destroyed
  rw [if_neg Bool.false_ne_true] at href
  refine ⟨?_, ?_, nofun⟩
  · rw [if_neg Bool.false_ne_true]
    omega
  · subst hk
    by_cases hn : n = 0
    · rw [if_pos hn, if_pos (by omega)]
    · rw [if_neg hn, if_neg (by omega)]

theorem Balanced.get (h : Balanced ref (n + 1) d k) : Balanced (ref + 1) (n + 2) d k := by
  have hd : d = false := Bool.eq_false_iff.2 fun hd => absurd (h.direct hd) (Nat.succ_ne_zero n)
  subst hd
  have href := h.ref
  rw [if_neg Bool.false_ne_true] at href
  refine ⟨?_, h.destroyed, nofun⟩
  rw [if_neg Bool.false_ne_true]
  omega

theorem Balanced.consume (h : Balanced ref 1 d k) : Balanced ref 0 true (k + 1) := by
  have hd : d = false := Bool.eq_false_iff.2 fun hd => absurd (h.direct hd) Nat.one_ne_zero
  subst hd
  have hk : k = 0 := h.destroyed
  have href := h.ref
  rw [if_neg Bool.false_ne_true] at href
  refine ⟨?_, by rw [hk]; rfl, fun _ => rfl⟩
  rw [if_pos rfl]
  omega

end Balanced

/-! ## The invariant -/

structure RefInv (s : RefConn) : Prop where
  dropped : s.smDropped = if s.smTaken = true ∧ s.pcb = .closed then 1 else 0
  balanced : Balanced s.ref s.holders s.direct s.destroyed
  taken : s.pcb ≠ .closed → s.smTaken = true
  opener : ∀ dial, s.user = .opener dial →
    s.smTaken = false ∧ s.retransmits = 0 ∧ s.txClosed = false
  waiting : s.user = .dialWait → s.smTaken = true ∧ (s.txClosed = true → s.pcb = .closed)

section Inv

variable {s s' : RefConn}

theorem RefInv.safe (h : RefInv s) : RefSafe s := ⟨h.dropped, h.balanced.destroyed⟩

theorem refInv_init (dial : Bool) : RefInv (refInit dial) where
  dropped := rfl
  balanced := ⟨rfl, rfl, nofun⟩
  taken := fun h => absurd rfl h
  opener := fun _ _ => ⟨rfl, rfl, rfl⟩
  waiting := nofun

section

variable (h : RefInv s)

include h

theorem RefInv.smHeld_eq : s.smHeld = decide (s.pcb ≠ .closed) := by
  have hd := h.dropped
  unfold RefConn.smHeld
  by_cases hc : s.pcb = .closed
  · cases ht : s.smTaken with
    | false =>
      rw [hc]
      rfl
    | true =>
      rw [if_pos ⟨ht, hc⟩] at hd
      rw [hd, hc]
      rfl
  · rw [h.taken hc, hd, if_neg (fun hh => hc hh.2)]
    exact (decide_eq_true hc).symm

theorem RefInv.frame (txExclusive : Bool) (arpQueued : Nat) :
    RefInv { s with txExclusive := txExclusive, arpQueued := arpQueued } :=
  ⟨h.dropped, h.balanced, h.taken, h.opener, h.waiting⟩

theorem RefInv.not_opener (hopen : s.pcb ≠ .closed) (dial : Bool) :
    s.user ≠ .opener dial := by
  intro hu
  have hnot := (h.opener dial hu).1
  rw [h.taken hopen] at hnot
  cases hnot

theorem RefInv.dropSm (hopen : s.pcb ≠ .closed) : RefInv (dropSm s) := by
  have hheld : s.smHeld = true := h.smHeld_eq.trans (decide_eq_true hopen)
  have hzero : s.smDropped = 0 := h.dropped.trans (if_neg fun hh => hopen hh.2)
  have hbal := h.balanced
  refine ⟨?_, ?_, fun hc => absurd rfl hc, ?_, fun hu => ⟨(h.waiting hu).1, fun _ => rfl⟩⟩
  · show s.smDropped + 1 = if s.smTaken = true ∧ Pcb.closed = .closed then 1 else 0
    rw [hzero, if_pos ⟨h.taken hopen, rfl⟩]
  · have hold : s.holders = (if s.user = .gone then 0 else 1) + s.retransmits + 1 := by
      unfold RefConn.holders
      rw [hheld, if_pos rfl]
      omega
    have hnew : (Refs.dropSm s).holders = (if s.user = .gone then 0 else 1) + s.retransmits := by
      show (if s.user = .gone then 0 else 1) +
        (if (s.smTaken && decide (s.smDropped + 1 = 0)) = true then 1 else 0) + s.retransmits = _
      rw [decide_eq_false (Nat.succ_ne_zero _), Bool.and_false, if_neg Bool.false_ne_true]
      rfl
    rw [hold] at hbal
    rw [hnew]
    exact hbal.put
  · exact h.opener

theorem RefInv.fail (hopen : s.pcb ≠ .closed) : RefInv (tcpConnFail s) := by
  have hsm := h.dropSm hopen
  exact ⟨hsm.dropped, hsm.balanced, hsm.taken, fun dial hu => absurd hu (h.not_opener hopen dial),
    fun hu => ⟨(hsm.waiting hu).1, fun _ => rfl⟩⟩

theorem RefInv.dropUser (hu : s.user ≠ .gone) : RefInv (dropUser s) := by
  have hbal := h.balanced
  have hold : s.holders = (if s.smHeld then 1 else 0) + s.retransmits + 1 := by
    unfold RefConn.holders
    rw [if_neg hu]
    omega
  have hnew : (Refs.dropUser s).holders = (if s.smHeld then 1 else 0) + s.retransmits := by
    show 0 + (if s.smHeld then 1 else 0) + s.retransmits = _
    rw [Nat.zero_add]
  rw [hold] at hbal
  refine ⟨h.dropped, ?_, h.taken, nofun, nofun⟩
  rw [hnew]
  exact hbal.put

theorem RefInv.handOver {u : User} (hu : s.user ≠ .gone) (hu' : u = .using ∨ u = .closing) :
    RefInv { s with user := u } := by
  have hbal := h.balanced
  have hne : u ≠ .gone := by rcases hu' with rfl | rfl <;> exact nofun
  refine ⟨h.dropped, ?_, h.taken, ?_, ?_⟩
  · show Balanced s.ref ((if u = .gone then 0 else 1) + (if s.smHeld then 1 else 0) + s.retransmits)
      s.direct s.destroyed
    unfold RefConn.holders at hbal
    rw [if_neg hu] at hbal
    rw [if_neg hne]
    exact hbal
  · rintro dial rfl
    rcases hu' with h' | h' <;> cases h'
  · rintro rfl
    rcases hu' with h' | h' <;> cases h'

theorem RefInv.moveTo {p : Pcb} (hopen : s.pcb ≠ .closed) (hp : p ≠ .closed)
    {txClosed : Bool} (hw : s.user = .dialWait → txClosed = true → False) :
    RefInv { s with pcb := p, txClosed := txClosed } := by
  refine ⟨?_, h.balanced, fun _ => h.taken hopen,
    fun dial hu => absurd hu (h.not_opener hopen dial), fun hu => ⟨(h.waiting hu).1, fun ht => (hw hu ht).elim⟩⟩
  show s.smDropped = if s.smTaken = true ∧ p = .closed then 1 else 0
  rw [if_neg fun hh => hp hh.2, h.dropped, if_neg fun hh => hopen hh.2]

theorem RefInv.destroy (hu : s.user ≠ .gone) (hsm : s.smHeld = false)
    (hr : s.retransmits = 0) : RefInv (destroyDirectly s) := by
  have hbal := h.balanced
  have hold : s.holders = 1 := by
    unfold RefConn.holders
    rw [if_neg hu, hsm, hr]
    rfl
  have hnew : (destroyDirectly s).holders = 0 := by
    show 0 + (if s.smHeld then 1 else 0) + s.retransmits = 0
    rw [hsm, hr]
    rfl
  rw [hold] at hbal
  refine ⟨h.dropped, ?_, h.taken, nofun, nofun⟩
  rw [hnew]
  exact hbal.consume

end

theorem finSent_closed {p : Pcb} : p.finSent = .closed ↔ p = .closed := by
  cases p with
  | synSent => simp [Pcb.finSent]
  | other st => cases st <;> simp [Pcb.finSent, shutdownTxState]

theorem RefInv.finSent (h : RefInv s) (hu : s.user = .using ∨ s.user = .closing) :
    RefInv { s with pcb := s.pcb.finSent, txClosed := true } := by
  have hopener : ∀ dial, s.user ≠ .opener dial := by
    intro dial
    rcases hu with hu | hu <;> rw [hu] <;> exact nofun
  have hwait : s.user ≠ .dialWait := by
    rcases hu with hu | hu <;> rw [hu] <;> exact nofun
  by_cases hc : s.pcb = .closed
  · have hfin : s.pcb.finSent = s.pcb := by rw [hc]; rfl
    rw [hfin]
    exact ⟨h.dropped, h.balanced, h.taken, fun dial hd => absurd hd (hopener dial),
      fun hd => absurd hd hwait⟩
  · exact h.moveTo hc (mt finSent_closed.1 hc) fun hd => absurd hd hwait

theorem RefInv.finishClose (h : RefInv s) {sent : Bool} (hu : s.user = .using ∨ s.user = .closing)
    (hopen : sent = false → s.pcb ≠ .closed) : RefInv (finishClose s sent) := by
  have hgone : s.user ≠ .gone := by
    rcases hu with hu | hu <;> rw [hu] <;> exact nofun
  unfold Refs.finishClose
  cases sent with
  | true => exact (h.finSent hu).dropUser hgone
  | false => exact (h.fail (hopen rfl)).dropUser hgone

theorem RefInv.opened (h : RefInv s) {dial : Bool} (hu : s.user = .opener dial) : RefInv { s with
      ref := s.ref + 1
      smTaken := true
      pcb := if dial then .synSent else .other .synReceived
      user := if dial then .dialWait else .queued } := by
  obtain ⟨hnot, hr, htx⟩ := h.opener dial hu
  have hzero : s.smDropped = 0 :=
    h.dropped.trans (if_neg fun hh => absurd (hh.1.symm.trans hnot) (by decide))
  have hold : s.holders = 1 := by
    unfold RefConn.holders RefConn.smHeld
    rw [hu, hnot, hr]
    rfl
  have hbal := h.balanced
  rw [hold] at hbal
  have hopen : (if dial then Pcb.synSent else .other .synReceived) ≠ .closed := by
    cases dial <;> exact nofun
  refine ⟨hzero.trans (if_neg fun hh => hopen hh.2).symm, ?_, fun _ => rfl, ?_, ?_⟩
  · have hnew : RefConn.holders { s with
        ref := s.ref + 1
        smTaken := true
        pcb := if dial then .synSent else .other .synReceived
        user := if dial then .dialWait else .queued } = 2 := by
      unfold RefConn.holders RefConn.smHeld
      dsimp only
      rw [hzero, hr]
      cases dial <;> rfl
    rw [hnew]
    exact hbal.get
  · intro d hd
    cases dial <;> cases hd
  · exact fun _ => ⟨rfl, fun ht => absurd (ht.symm.trans htx) (by decide)⟩

theorem RefInv.spawn (h : RefInv s) (hopen : s.pcb ≠ .closed) :
    RefInv { s with ref := s.ref + 1, retransmits := s.retransmits + 1 } := by
  have hheld : s.smHeld = true := h.smHeld_eq.trans (decide_eq_true hopen)
  have hbal := h.balanced
  have hold : s.holders = (if s.user = .gone then 0 else 1) + s.retransmits + 1 := by
    unfold RefConn.holders
    rw [hheld, if_pos rfl]
    omega
  have hnew : RefConn.holders { s with ref := s.ref + 1, retransmits := s.retransmits + 1 } =
      (if s.user = .gone then 0 else 1) + s.retransmits + 2 := by
    show (if s.user = .gone then 0 else 1) + (if s.smHeld then 1 else 0) + (s.retransmits + 1) = _
    rw [hheld, if_pos rfl]
    omega
  rw [hold] at hbal
  refine ⟨h.dropped, ?_, h.taken, fun dial hu => absurd hu (h.not_opener hopen dial), h.waiting⟩
  rw [hnew]
  exact hbal.get

theorem RefInv.retire (h : RefInv s) (hr : s.retransmits ≠ 0) :
    RefInv (tcpConnPut { s with retransmits := s.retransmits - 1 }) := by
  have hbal := h.balanced
  have hold : s.holders =
      (if s.user = .gone then 0 else 1) + (if s.smHeld then 1 else 0) + (s.retransmits - 1) + 1 := by
    unfold RefConn.holders
    omega
  rw [hold] at hbal
  exact ⟨h.dropped, hbal.put, h.taken, fun dial hu => absurd (h.opener dial hu).2.1 hr, h.waiting⟩

theorem refInv_step {e : RefEvent} (h : RefInv s) (hguard : refGuard s e)
    (hst : refStep s e = some s') : RefInv s' := by
  revert hst
  -- the cases without a step go away; the others have their result in place of `s'`
  fun_cases refStep s e <;> rintro ⟨⟩
  -- the SYN, `tcp_dial` and the accept queue
  case case1 hu => exact h.opened hu
  case case2 hu _ =>
    obtain ⟨hnot, hr, -⟩ := h.opener _ hu
    refine h.destroy (by rw [hu]; exact nofun) ?_ hr
    unfold RefConn.smHeld
    rw [hnot]
    rfl
  case case4 hu htx =>
    refine h.destroy (by rw [hu]; exact nofun) ?_ (hguard htx)
    rw [h.smHeld_eq, (h.waiting hu).2 htx]
    rfl
  case case6 hu _ _ => exact h.handOver (by rw [hu]; exact nofun) (Or.inl rfl)
  case case8 hu => exact h.handOver (by rw [hu]; exact nofun) (Or.inl rfl)
  case case10 hu => exact h.destroy (by rw [hu]; exact nofun) hguard.1 hguard.2
  -- the ingress path and the timeouts
  case case12 hopen => exact h.dropSm hopen.1
  case case13 hopen hp => exact h.moveTo hopen.1 hp fun hu ht => hopen.1 ((h.waiting hu).2 ht)
  case case15 hopen => exact h.fail hopen
  case case17 hopening =>
    refine h.fail fun hc => ?_
    rw [hc] at hopening
    cases hopening
  case case19 hwait => exact h.dropSm (by rw [hwait]; exact nofun)
  case case21 hopen => exact h.spawn hopen.1
  case case24 hr => exact h.retire hr
  -- `tcp_abort`, `tcp_close`, `tcp_shutdown`
  case case25 => exact h
  case case26 hopen => exact h.fail hopen
  case case28 hu _ => exact h.dropUser (by rw [hu]; exact nofun)
  case case29 hu _ _ => exact h.handOver (by rw [hu]; exact nofun) (Or.inr rfl)
  case case30 hu htx hex =>
    exact h.finishClose (Or.inl hu) (hguard (Bool.eq_false_iff.2 htx) (Bool.eq_false_iff.2 hex))
  case case32 hu => exact h.finishClose (Or.inr hu.1) hguard
  case case34 hu => exact h.finSent (Or.inl hu.1)
  case case35 => exact h
  case case37 => exact h.frame true s.arpQueued
  case case39 => exact h.frame false s.arpQueued
  case case41 => exact h.frame s.txExclusive (s.arpQueued + 1)
  case case43 => exact (h.frame s.txExclusive (s.arpQueued - 1)).fail hguard

/-- Failing a closed connection drops the state machine's reference once too often. -/
theorem RefInv.open_of_safe (h : RefInv s) (hsafe : RefSafe s')
    (hd : s'.smDropped = s.smDropped + 1) (ht : s'.smTaken = s.smTaken) : s.pcb ≠ .closed := by
  intro hc
  have hnew := hsafe.1
  have hold := h.dropped
  rw [hd, ht] at hnew
  cases hsm : s.smTaken with
  | true =>
    rw [if_pos ⟨hsm, hc⟩] at hold
    rw [hold] at hnew
    split at hnew <;> omega
  | false =>
    rw [if_neg (fun hh => Bool.false_ne_true (hsm.symm.trans hh.1))] at hnew
    exact absurd hnew (Nat.succ_ne_zero _)

theorem not_safe_of_destroy (hleft : s.smHeld = true ∨ s.retransmits ≠ 0) :
    ¬ RefSafe (destroyDirectly s) := by
  intro hsafe
  have hnew : s.destroyed + 1 = if (destroyDirectly s).holders = 0 then 1 else 0 := hsafe.2
  have hpos : (destroyDirectly s).holders ≠ 0 := by
    show 0 + (if s.smHeld then 1 else 0) + s.retransmits ≠ 0
    rcases hleft with hsm | hr
    · rw [hsm, if_pos rfl]
      omega
    · omega
  rw [if_neg hpos] at hnew
  exact absurd hnew (Nat.succ_ne_zero _)

theorem guard_of_safe {e : RefEvent} (h : RefInv s) (hst : refStep s e = some s')
    (hsafe : RefSafe s') : refGuard s e := by
  unfold refStep at hst
  cases e with
  | dialWake =>
    intro htx
    dsimp only at hst
    split at hst
    · cases hst
      exact Classical.not_not.1 fun hr => not_safe_of_destroy (Or.inr hr) hsafe
    · cases hst
  | qclose =>
    obtain ⟨-, rfl⟩ := Option.ite_some_none_eq_some.1 hst
    refine ⟨Bool.eq_false_iff.2 fun hsm => not_safe_of_destroy (Or.inl hsm) hsafe, ?_⟩
    exact Classical.not_not.1 fun hr => not_safe_of_destroy (Or.inr hr) hsafe
  | close sent =>
    intro htx hex hsent
    dsimp only at hst
    subst hsent
    split at hst
    · rw [htx, hex] at hst
      cases hst
      exact h.open_of_safe hsafe rfl rfl
    · cases hst
  | closeWake sent =>
    intro hsent
    dsimp only at hst
    subst hsent
    split at hst
    · cases hst
      exact h.open_of_safe hsafe rfl rfl
    · cases hst
  | netError =>
    dsimp only at hst
    split at hst
    · cases hst
    · cases hst
      exact h.open_of_safe hsafe rfl rfl
  | openConn _ | accept | rx _ | rxReset | connectTimeout | timeWaitTimeout | retransmitTimeout
  | retransmitDone | abort | shutdown _ | lockTx | unlockTx | park => trivial

end Inv

/-- For a dialed and for an accepted connection: in every run whose steps meet the guard
the references are kept, and a further step keeps them exactly if it meets the guard. -/
theorem destroyed_once_iff {dial : Bool} {s : RefConn}
    (hreach : Reaches refStep refGuard (refInit dial) s) :
    RefSafe s ∧ ∀ e s', refStep s e = some s' → (RefSafe s' ↔ refGuard s e) := by
  have h : RefInv s :=
    hreach.invariant (refInv_init dial) fun _ _ _ hu hok hs => refInv_step hu hok hs
  exact ⟨h.safe, fun e s' hst => ⟨guard_of_safe h hst, fun hg => (refInv_step h hg hst).safe⟩⟩

instance (s : RefConn) : (e : RefEvent) → Decidable (refGuard s e)
  | .netError => inferInstanceAs (Decidable (_ ≠ _))
  | .close _ => inferInstanceAs (Decidable (_ → _ → _ → _ ≠ _))
  | .closeWake _ => inferInstanceAs (Decidable (_ → _ ≠ _))
  | .dialWake => inferInstanceAs (Decidable (_ → _ = _))
  | .qclose => inferInstanceAs (Decidable (_ ∧ _))
  | .openConn _ | .accept | .rx _ | .rxReset | .connectTimeout | .timeWaitTimeout
  | .retransmitTimeout | .retransmitDone | .abort | .shutdown _ | .lockTx | .unlockTx | .park =>
    inferInstanceAs (Decidable True)

/-- One packet waits for a neighbour that does not answer: the error ends the connection
attempt, and `tcp_dial` destroys the connection. -/
theorem destroyed_once_unreachable : ∃ s s', Reaches refStep refGuard (refInit true) s ∧ RefSafe s ∧
      refStep s .dialWake = some s' ∧ s.destroyed = 0 ∧ s'.destroyed = 1 ∧
      (RefSafe s' ↔ refGuard s .dialWake) := by
  have hrun : ((runChecked refStep (fun s e => decide (refGuard s e)) (refInit true)
      [.openConn true, .park, .netError]).bind fun s => (refStep s .dialWake).map fun s' =>
        (s.destroyed, s'.destroyed)) = some (0, 1) := by decide
  obtain ⟨s, hs, hnext⟩ := Option.bind_eq_some_iff.1 hrun
  obtain ⟨s', hs', hview⟩ := Option.map_eq_some_iff.1 hnext
  obtain ⟨hzero, hone⟩ := Prod.mk.inj hview
  have hreach := reaches_of_runChecked (fun _ _ _ h => of_decide_eq_true h) hs
  have hall := destroyed_once_iff hreach
  exact ⟨s, s', hreach, hall.1, hs', hzero, hone, hall.2 _ _ hs'⟩

/-- The SYN and its retransmission wait for the neighbour. The first error drops the state
machine's reference, the second one destroys the connection, and `tcp_dial` destroys it again. -/
theorem two_errors_destroy_twice :
    ∃ s, Reaches refStep anyStep (refInit true) s ∧ s.smDropped = 2 ∧ s.destroyed = 2 ∧
      ¬ RefSafe s := by
  obtain ⟨s, hreach, hdropped, hdestroyed⟩ : ∃ s, Reaches refStep anyStep (refInit true) s ∧
      s.smDropped = 2 ∧ s.destroyed = 2 :=
    exists_of_runActions [.openConn true, .park, .retransmitTimeout, .park, .retransmitDone,
      .netError, .netError, .dialWake] (by decide)
  refine ⟨s, hreach, hdropped, hdestroyed, fun hsafe => ?_⟩
  have hone := hsafe.1
  rw [hdropped] at hone
  split at hone <;> cases hone

end Svalinn.Tcp.Refs
