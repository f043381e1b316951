/-
  Tcp/NoCrash.lean --- which packets stop a debug build.

  `HostInv` holds in every state of a connection, from its allocation on: the queues
  are near `rcv_nxt`, and the window with what is queued stays below `TCP_WIN`.  It
  follows that the one event that runs into an assert or a `BUG_ON` is a segment whose
  text closes the window in front of a queued FIN.  A peer that fills the window can
  send such a segment.
-/
import Svalinn.Tcp.Spans

set_option autoImplicit false

namespace Svalinn.Tcp.Debug

open Svalinn.Lib Option

/-! ## Runs -/

/-- The event processes a segment whose text closes the window in front of a queued
FIN. -/
def FinMeetsClosedWindow (h : Host) : HostEvent → Prop
  | .process i _ _ => ∃ p ∈ h.opening.inflight[i]?, h.opening.phase ≠ .synSent ∧
      finAtClosedWindow h.conn p.seg p.sndNxt
  | _ => False

/-- Until the connection is open nothing is queued; then the queues are near `rcv_nxt`,
the window and what is queued stay below `TCP_WIN`, and an exclusive reader still finds
its part in the top buffer. -/
structure HostInv (h : Host) : Prop where
  near : ∃ base p, NearRx base h.conn p
  window : h.conn.rcvWnd.toNat + (bytes h.conn.rxq).length ≤ tcpWin + h.pending.elim 0 Pending.rest
  excl : h.conn.rxExclusive = h.pending.isSome
  part : ∀ r, h.pending = some r → ∃ m rest, h.conn.rxq = m :: rest ∧ r.rest < m.data.length
  early : h.opening.phase ≠ .running → h.conn.state = .closed ∧ h.conn.rxq = [] ∧ h.conn.rxqOoo = []
  winmax : h.opening.winmax ≤ tcpWin

section Runs

variable {h h' : Host} {o : Opening}

theorem NearRx.of_empty {c : Conn} (h : c.rxqOoo = []) : ∃ base p, NearRx base c p := by
  refine ⟨c.rcvNxt - BitVec.ofNat 32 (2 ^ 17), 2 ^ 17, Nat.le_refl _, ?_, by rw [h]; exact .nil⟩
  exact (sub_add_cancel _ _).symm

theorem HostInv.window_le (hinv : HostInv h) : h.conn.rcvWnd.toNat ≤ tcpWin := by
  have hwindow := hinv.window
  cases hp : h.pending with
  | none =>
    rw [hp, elim_none] at hwindow
    omega
  | some r =>
    obtain ⟨m, rest, hq, hlt⟩ := hinv.part r hp
    rw [hp, elim_some, hq, bytes_cons, List.length_append] at hwindow
    omega

theorem HostInv.pending_none (hinv : HostInv h) (hq : h.conn.rxq = []) : h.pending = none := by
  cases hp : h.pending with
  | none => rfl
  | some r =>
    obtain ⟨m, rest, hq', -⟩ := hinv.part r hp
    cases hq.symm.trans hq'

theorem HostInv.of_same (hinv : HostInv h) (hsame : SameRx h.conn o.conn)
    (hearly : o.phase ≠ .running → h.opening.phase ≠ .running ∧ o.conn.state = h.conn.state)
    (hwin : o.winmax = h.opening.winmax) : HostInv { h with opening := o } where
  near := by
    obtain ⟨base, p, hnear⟩ := hinv.near
    exact ⟨base, p, hnear.same hsame⟩
  window := by
    show o.conn.rcvWnd.toNat + (bytes o.conn.rxq).length ≤ _
    rw [hsame.rcvWnd, hsame.rxq]
    exact hinv.window
  excl := hsame.rxExclusive.trans hinv.excl
  part := fun r hr => by
    show ∃ m rest, o.conn.rxq = m :: rest ∧ _
    rw [hsame.rxq]
    exact hinv.part r hr
  early := fun hphase => by
    obtain ⟨hphase', hstate⟩ := hearly hphase
    obtain ⟨hclosed, hq, hooo⟩ := hinv.early hphase'
    exact ⟨hstate.trans hclosed, hsame.rxq.trans hq, hsame.rxqOoo.trans hooo⟩
  winmax := by
    show o.winmax ≤ tcpWin
    rw [hwin]
    exact hinv.winmax

theorem HostInv.of_early (hinv : HostInv h) (hphase : h.opening.phase ≠ .running)
    (hq : o.conn.rxq = []) (hooo : o.conn.rxqOoo = [])
    (hexcl : o.conn.rxExclusive = h.conn.rxExclusive) (hwnd : o.conn.rcvWnd.toNat ≤ tcpWin)
    (hstate : o.phase ≠ .running → o.conn.state = .closed) (hwin : o.winmax ≤ tcpWin) :
    HostInv { h with opening := o } := by
  have hpend := hinv.pending_none (hinv.early hphase).2.1
  refine ⟨NearRx.of_empty hooo, ?_, hexcl.trans hinv.excl, fun r hr => ?_,
    fun hphase => ⟨hstate hphase, hq, hooo⟩, hwin⟩
  · show o.conn.rcvWnd.toNat + (bytes o.conn.rxq).length ≤ _
    rw [hq]
    exact Nat.le_trans hwnd (Nat.le_add_right _ _)
  · cases hpend.symm.trans hr

theorem HostInv.of_fail (hinv : HostInv h) (err : Nat) (hconn : o.conn = Tcp.tcpConnFail h.conn err)
    (hphase : o.phase ≠ .running → h.opening.phase ≠ .running)
    (hwin : o.winmax = h.opening.winmax) : HostInv { h with opening := o } := by
  have hrxq : o.conn.rxq = if h.conn.rxExclusive then h.conn.rxq else [] := by
    rw [hconn]
    rfl
  have hooo : o.conn.rxqOoo = [] := by
    rw [hconn]
    rfl
  refine ⟨NearRx.of_empty hooo, ?_, ?_, fun r hr => ?_, fun hp => ⟨?_, ?_, hooo⟩, ?_⟩
  · show o.conn.rcvWnd.toNat + (bytes o.conn.rxq).length ≤ _
    have hwindow := hinv.window
    have hwnd : o.conn.rcvWnd = h.conn.rcvWnd := by
      rw [hconn]
      rfl
    rw [hrxq, hwnd]
    split
    · exact hwindow
    · exact Nat.le_trans (Nat.add_le_add_left (Nat.zero_le _) _) hwindow
  · show o.conn.rxExclusive = _
    rw [hconn]
    exact hinv.excl
  · show ∃ m rest, o.conn.rxq = m :: rest ∧ _
    have hexcl := hinv.excl
    rw [show h.pending = some r from hr] at hexcl
    rw [hrxq, hexcl]
    exact hinv.part r hr
  · show o.conn.state = _
    rw [hconn]
    rfl
  · show o.conn.rxq = []
    rw [hrxq, (hinv.early (hphase hp)).2.1]
    split
    · rfl
    · rfl
  · show o.winmax ≤ tcpWin
    rw [hwin]
    exact hinv.winmax

/-! ### Opening -/

theorem openConnection_safe (hinv : HostInv h) {dial allocOk sent : Bool}
    (hphase : h.opening.phase = .attached dial) :
    HostInv { h with opening := openConnection h.opening dial allocOk sent } := by
  have hearly : h.opening.phase ≠ .running := hphase.trans_ne nofun
  obtain ⟨nxt, txq, state, hconn, hstate, hwin, -⟩ := openConnection_conn h.opening dial allocOk sent
  refine hinv.of_same ?_ (fun hne => ⟨hearly, ?_⟩) hwin
  · rw [hconn]
    exact { SameRx.refl with }
  · rw [hconn]
    exact hstate hne

/-- The options of a SYN never open the window beyond `TCP_WIN`. -/
theorem takeSyn_safe (o : Opening) (p : OpenPacket) (hwnd : o.conn.rcvWnd.toNat ≤ tcpWin)
    (hwin : o.winmax ≤ tcpWin) :
    (takeSyn o p).conn.rxq = o.conn.rxq ∧ (takeSyn o p).conn.rxqOoo = o.conn.rxqOoo ∧
      (takeSyn o p).conn.rxExclusive = o.conn.rxExclusive ∧
      (takeSyn o p).conn.rcvWnd.toNat ≤ tcpWin ∧ (takeSyn o p).conn.state = o.conn.state ∧
      (takeSyn o p).winmax ≤ tcpWin := by
  unfold takeSyn
  dsimp only
  generalize ho₁ : applyOptions
    { o with irs := p.seg.seq, conn := { o.conn with rcvNxt := p.seg.seq + 1 } } p.opts = o₁
  have hopts : o₁.conn.rxq = o.conn.rxq ∧ o₁.conn.rxqOoo = o.conn.rxqOoo ∧
      o₁.conn.rxExclusive = o.conn.rxExclusive ∧ o₁.conn.rcvWnd.toNat ≤ tcpWin ∧
      o₁.conn.state = o.conn.state ∧ o₁.winmax ≤ tcpWin := by
    subst ho₁
    refine ⟨rfl, rfl, rfl, ?_, rfl, ?_⟩
    · show (if p.opts.wscale.isNone then _ else o.conn.rcvWnd).toNat ≤ tcpWin
      split
      · rw [BitVec.toNat_ofNat]
        exact Nat.le_trans (Nat.mod_le _ _) (Nat.le_trans (Nat.min_le_left _ _) hwin)
      · exact hwnd
    · show (if p.opts.wscale.isNone then min o.winmax 0xFFFF else o.winmax) ≤ tcpWin
      split
      · exact Nat.le_trans (Nat.min_le_left _ _) hwin
      · exact hwin
  split
  · obtain ⟨hsame, hstate⟩ := tcpConnAck_same (c := { o₁.conn with sndUna := p.seg.ack })
    obtain ⟨hq, hooo, hexcl, hwnd', hstate', hwin'⟩ := hopts
    exact ⟨hsame.rxq.trans hq, hsame.rxqOoo.trans hooo, hsame.rxExclusive.trans hexcl,
      by rw [hsame.rcvWnd]; exact hwnd', hstate.trans hstate', hwin'⟩
  · exact hopts

theorem synSentSyn_safe (hinv : HostInv h) (hphase : h.opening.phase = .synSent)
    (ho : o.phase = .synSent ∧ o.conn = h.conn ∧ o.winmax = h.opening.winmax) (p : OpenPacket)
    (allocOk sent : Bool) : HostInv { h with opening := synSentSyn o p allocOk sent } := by
  obtain ⟨hophase, hconn, howin⟩ := ho
  have hearly : h.opening.phase ≠ .running := hphase.trans_ne nofun
  obtain ⟨hclosed, hq, hooo⟩ := hinv.early hearly
  obtain ⟨hq', hooo', hexcl', hwnd', hstate', hwin'⟩ :=
    takeSyn_safe o p (by rw [hconn]; exact hinv.window_le) (by rw [howin]; exact hinv.winmax)
  rw [hconn] at hq' hooo' hexcl' hstate'
  unfold synSentSyn
  generalize takeSyn o p = o₁ at hq' hooo' hexcl' hwnd' hstate' hwin' ⊢
  dsimp only
  split
  · exact hinv.of_early hearly (hq'.trans hq) (hooo'.trans hooo) hexcl' hwnd'
      (fun hne => absurd rfl hne) hwin'
  · unfold answerSyn tcpTxCtl
    split
    · dsimp only
      split
      · exact hinv.of_early hearly (hq'.trans hq) (hooo'.trans hooo) hexcl' hwnd'
          (fun hne => absurd rfl hne) hwin'
      · exact hinv.of_early hearly (hq'.trans hq) (hooo'.trans hooo) hexcl' hwnd'
          (fun _ => hstate'.trans hclosed) hwin'
    · dsimp only
      split
      · exact hinv.of_early hearly (hq'.trans hq) (hooo'.trans hooo) hexcl' hwnd'
          (fun hne => absurd rfl hne) hwin'
      · exact hinv.of_early hearly (hq'.trans hq) (hooo'.trans hooo) hexcl' hwnd'
          (fun _ => hstate'.trans hclosed) hwin'

theorem rxSynSent_safe (hinv : HostInv h) (hphase : h.opening.phase = .synSent)
    (ho : o.phase = .synSent ∧ o.conn = h.conn ∧ o.winmax = h.opening.winmax) (p : OpenPacket)
    (allocOk sent : Bool) : HostInv { h with opening := rxSynSent o p allocOk sent } := by
  obtain ⟨hophase, hconn, howin⟩ := id ho
  have hearly : h.opening.phase ≠ .running := hphase.trans_ne nofun
  have hkeep : HostInv { h with opening := o } :=
    hinv.of_same (by rw [hconn]; exact .refl) (fun _ => ⟨hearly, by rw [hconn]⟩) howin
  unfold rxSynSent
  dsimp only
  split
  · exact hkeep
  split
  · exact hkeep
  split
  · exact hinv.of_fail econnreset (by rw [hconn]) (fun hne => absurd rfl hne) howin
  split
  · exact hkeep
  split
  · exact synSentSyn_safe hinv hphase ho p allocOk sent
  · exact hkeep

theorem checkState_synSent {o o' : Opening} (h : o.phase = .synSent) : checkState o o' = some o' := by
  unfold checkState
  have hzero : stateRank o = 0 := by
    unfold stateRank
    rw [if_pos h]
  rw [if_pos]
  rw [hzero]
  rcases Nat.eq_zero_or_pos (stateRank o') with hz | hpos
  · exact Or.inl hz.symm
  · exact Or.inr (Or.inr hpos)

theorem checkState_closed {o o' : Opening} (h : stateRank o = rank .closed) :
    checkState o o' = some o' := by
  unfold checkState
  rw [if_pos (Or.inr (Or.inl h))]

/-! ### Packets and reads -/

theorem HostInv.of_grown (hinv : HostInv h) {base : Seq} {p p' : Nat}
    (hgrown : Grown base h.conn o.conn p p') (hnear : NearRx base o.conn p')
    (hrun : o.phase = .running) (hwin : o.winmax = h.opening.winmax) :
    HostInv { h with opening := o } := by
  obtain ⟨ms, hrxq, hlen, -⟩ := hgrown.rxq
  refine ⟨⟨base, p', hnear⟩, ?_, hgrown.rxExclusive.trans hinv.excl, fun r hr => ?_,
    fun hne => absurd hrun hne, ?_⟩
  · show o.conn.rcvWnd.toNat + (bytes o.conn.rxq).length ≤ tcpWin + h.pending.elim 0 Pending.rest
    have hwindow := hinv.window
    have hedge := hgrown.edge
    have hle := hgrown.le
    rw [hrxq, bytes_append, List.length_append]
    omega
  · show ∃ m rest, o.conn.rxq = m :: rest ∧ _
    obtain ⟨m, rest, hq, hlt⟩ := hinv.part r hr
    exact ⟨m, rest ++ ms, by rw [hrxq, hq]; rfl, hlt⟩
  · show o.winmax ≤ tcpWin
    rw [hwin]
    exact hinv.winmax

theorem processPacket_safe (hinv : HostInv h)
    (ho : o.phase = h.opening.phase ∧ o.conn = h.conn ∧ o.winmax = h.opening.winmax) (p : OpenPacket)
    (allocOk sent : Bool) :
    ((h.opening.phase ≠ .synSent ∧ finAtClosedWindow h.conn p.seg p.sndNxt) ∧
      processPacket o p allocOk sent = none) ∨
    (¬ (h.opening.phase ≠ .synSent ∧ finAtClosedWindow h.conn p.seg p.sndNxt) ∧
      ∃ o', processPacket o p allocOk sent = some o' ∧ HostInv { h with opening := o' }) := by
  obtain ⟨hphase, hconn, hwin⟩ := ho
  unfold processPacket
  by_cases hsyn : h.opening.phase = .synSent
  · rw [if_pos (hphase.trans hsyn), checkState_synSent (hphase.trans hsyn)]
    exact Or.inr ⟨fun hbad => hbad.1 hsyn, _, rfl,
      rxSynSent_safe hinv hsyn ⟨hphase.trans hsyn, hconn, hwin⟩ p allocOk sent⟩
  rw [if_neg (fun heq => hsyn (hphase.symm.trans heq)), hconn]
  obtain ⟨base, q, hnear⟩ := hinv.near
  rcases tcpRxConn_safe p.seg p.sndNxt hnear hinv.window_le with
    ⟨hbad, hstop⟩ | ⟨hgood, r, hrx, heffect⟩
  · rw [hstop]
    exact Or.inl ⟨⟨hsyn, hbad⟩, rfl⟩
  · rw [hrx]
    refine Or.inr ⟨fun hbad => hgood hbad.2, _, rfl, ?_⟩
    by_cases hrun : h.opening.phase = .running
    · cases heffect with
      | failed heq =>
        exact hinv.of_fail econnreset heq (fun hne => absurd (hphase.trans hrun) hne) hwin
      | grown q' hgrown hnear' => exact hinv.of_grown hgrown hnear' (hphase.trans hrun) hwin
    · -- attached but still CLOSED: a segment changes nothing
      have hsame := closed_rx (hinv.early hrun).1 (tcpRxConn_release hrx)
      have hsame' : SameRx h.conn r.conn := by
        rw [hsame]
        exact .refl
      exact hinv.of_same hsame' (fun _ => ⟨hrun, congrArg Conn.state hsame⟩) hwin

theorem read_safe (hinv : HostInv h) {len : Nat} {iov : Option (List Nat)} {s' : Sys}
    (hst : step h.sys (.read len iov) = some s') :
    HostInv { h.withConn s'.conn with pending := s'.pending } := by
  have hwindow := window_read hinv.excl hinv.window hst
  rcases read_cases hst with ⟨-, rfl⟩ | ⟨-, hfree, hne, o, hspec, hpos, -, hcase⟩
  · exact hinv
  have hrun : h.opening.phase = .running := by
    by_contra hphase
    exact hne (hinv.early hphase).2.1
  have hpend : h.pending = none := by
    have hsome := hinv.excl
    rw [show h.conn.rxExclusive = false from hfree] at hsome
    exact isNone_iff_eq_none.1 (by simpa using hsome.symm)
  obtain ⟨base, p, hnear⟩ := hinv.near
  have hnear' : ∃ base p, NearRx base (popped h.conn o) p := ⟨base, p, hnear.far, hnear.rcvNxt, hnear.ooo⟩
  rcases hcase with ⟨hin, rfl⟩ | ⟨hin, rfl⟩
  · refine ⟨hnear', hwindow, ?_, fun r hr => ?_, fun hphase => absurd hrun hphase, hinv.winmax⟩
    · show o.inside = h.pending.isSome
      rw [hin, hpend]
      rfl
    · cases hpend.symm.trans hr
  · obtain ⟨-, m, rest, hq, hlt, hgt, -⟩ := hspec.part hin
    refine ⟨hnear', hwindow, hin, fun r hr => ?_, fun hphase => absurd hrun hphase, hinv.winmax⟩
    cases hr
    refine ⟨m, rest, hq, ?_⟩
    show iovLen iov len - (bytes o.taken).length < m.data.length
    omega

theorem readFinish_safe (hinv : HostInv h) {r : Pending} {m : Mbuf} {rest : List Mbuf}
    (hpend : h.pending = some r) (hq : h.conn.rxq = m :: rest) :
    ∃ m' s', mbufPull m r.rest = some m' ∧ step h.sys .readFinish = some s' ∧
      HostInv { h.withConn s'.conn with pending := s'.pending } := by
  obtain ⟨m₀, rest₀, hq₀, hlt⟩ := hinv.part r hpend
  obtain ⟨rfl, rfl⟩ := List.cons.inj (hq₀.symm.trans hq)
  have hpull : mbufPull m₀ r.rest = some { m₀ with data := m₀.data.drop r.rest } := by
    unfold mbufPull
    rw [if_neg (by omega)]
  obtain ⟨s', hst⟩ : ∃ s', step h.sys .readFinish = some s' := by
    simp only [step, Host.sys, hpend, hq₀, hpull]
    exact ⟨_, rfl⟩
  refine ⟨_, s', hpull, hst, ?_⟩
  have hwindow := window_finish hinv.window hst
  have hrun : h.opening.phase = .running := by
    by_contra hphase
    rw [(hinv.early hphase).2.1] at hq₀
    cases hq₀
  obtain ⟨base, p, hnear⟩ := hinv.near
  simp only [step, Host.sys, hpend, hq₀, hpull] at hst
  cases hst
  refine ⟨⟨base, p, hnear.far, hnear.rcvNxt, hnear.ooo⟩, hwindow, rfl, ?_,
    fun hphase => absurd hrun hphase, hinv.winmax⟩
  rintro r ⟨⟩

/-! ### Steps -/

def ExecSafe (h : Host) (e : HostEvent) : Prop :=
  (FinMeetsClosedWindow h e ∧ hostExec h e = some none) ∨
    (¬ FinMeetsClosedWindow h e ∧ ∀ r, hostExec h e = some r → ∃ h', r = some h' ∧ HostInv h')

theorem execSafe_openConn (hinv : HostInv h) (allocOk sent : Bool) :
    ExecSafe h (.openConn allocOk sent) := by
  refine Or.inr ⟨id, fun r hr => ?_⟩
  simp only [hostExec] at hr
  split at hr
  · rename_i dial hphase
    have hearly : h.opening.phase ≠ .running := hphase.trans_ne nofun
    have hclosed : stateRank h.opening = rank .closed := by
      unfold stateRank
      rw [if_neg (by rw [hphase]; exact nofun)]
      exact congrArg rank (hinv.early hearly).1
    rw [checkState_closed hclosed] at hr
    cases hr
    exact ⟨_, rfl, openConnection_safe hinv hphase⟩
  · cases hr

theorem execSafe_arrive (hinv : HostInv h) (p : RawPacket) (opts : TcpOptions) :
    ExecSafe h (.arrive p opts) := by
  refine Or.inr ⟨id, fun r hr => ?_⟩
  obtain ⟨seg, hseg⟩ := ne_none_iff_exists'.1 (rxPacket_ne_none p)
  simp only [hostExec, hseg] at hr
  cases hr
  exact ⟨_, rfl, hinv.of_same .refl (fun hphase => ⟨hphase, rfl⟩) rfl⟩

theorem execSafe_process (hinv : HostInv h) (i : Nat) (allocOk sent : Bool) :
    ExecSafe h (.process i allocOk sent) := by
  unfold ExecSafe FinMeetsClosedWindow
  simp only [hostExec]
  cases hp : h.opening.inflight[i]? with
  | none =>
    refine Or.inr ⟨fun hbad => ?_, fun r hr => ?_⟩
    · obtain ⟨p, hp', -⟩ := hbad
      cases hp'
    · cases hr
  | some p =>
    rcases processPacket_safe (o := { h.opening with inflight := h.opening.inflight.eraseIdx i })
        hinv ⟨rfl, rfl, rfl⟩ p allocOk sent with ⟨hbad, hstop⟩ | ⟨hgood, o', hrx, hinv'⟩
    · refine Or.inl ⟨⟨p, rfl, hbad⟩, ?_⟩
      rw [map_some, hstop]
      rfl
    · refine Or.inr ⟨fun hbad => ?_, fun r hr => ?_⟩
      · obtain ⟨p', hp', hbad⟩ := hbad
        cases hp'
        exact hgood hbad
      · rw [map_some, hrx] at hr
        cases hr
        exact ⟨_, rfl, hinv'⟩

theorem execSafe_fail (hinv : HostInv h) (err : Nat) : ExecSafe h (.fail err) := by
  refine Or.inr ⟨id, fun r hr => ?_⟩
  simp only [hostExec, tcpConnFail_eq] at hr
  cases hr
  refine ⟨_, rfl, hinv.of_fail err rfl (fun hphase hrun => hphase ?_) rfl⟩
  show (if h.opening.phase = .synSent then Phase.running else h.opening.phase) = .running
  rw [hrun]
  rfl

theorem execSafe_readFinish (hinv : HostInv h) : ExecSafe h .readFinish := by
  refine Or.inr ⟨id, fun r hr => ?_⟩
  simp only [hostExec] at hr
  split at hr
  · rename_i pd m rest hpend hq
    obtain ⟨m', s', hpull, hst, hinv'⟩ := readFinish_safe hinv hpend hq
    rw [hpull, bind_some, hst] at hr
    cases hr
    exact ⟨_, rfl, hinv'⟩
  · cases hr

theorem shutdownTx_rank (st : TcpState) :
    shutdownTxState st = st ∨ rank st < rank (shutdownTxState st) := by
  cases st with
  | established | closeWait => exact Or.inr (by decide)
  | _ => exact Or.inl rfl

theorem execSafe_shutdownTx (hinv : HostInv h) (txq : List Mbuf) : ExecSafe h (.shutdownTx txq) := by
  refine Or.inr ⟨id, fun r hr => ?_⟩
  simp only [hostExec] at hr
  split at hr
  · cases hr
  rename_i hopen
  have hrun : h.opening.phase = .running := by
    simp only [not_or, Bool.not_eq_true, Bool.not_eq_false', Opening.isOpen, decide_eq_true_eq] at hopen
    exact hopen.2.2.1
  have hnext : ∀ c : Conn, SameRx h.conn c → HostInv (h.withConn c) := fun c hsame =>
    hinv.of_same hsame (fun hphase => absurd hrun hphase) rfl
  split at hr
  · cases hr
    exact ⟨_, rfl, hnext _ { SameRx.refl with }⟩
  · rename_i hmoves
    rw [tcpConnSetState_eq
      (c := { h.conn with sndNxt := h.conn.sndNxt + 1, txq := txq, txClosed := true })
      (Or.inr ((shutdownTx_rank h.conn.state).resolve_left hmoves))] at hr
    cases hr
    exact ⟨_, rfl, hnext _ { SameRx.refl with }⟩

theorem hostExec_safe (hinv : HostInv h) (e : HostEvent) : ExecSafe h e := by
  cases e with
  | openConn allocOk sent => exact execSafe_openConn hinv allocOk sent
  | arrive p opts => exact execSafe_arrive hinv p opts
  | process i allocOk sent => exact execSafe_process hinv i allocOk sent
  | fail err => exact execSafe_fail hinv err
  | read len iov =>
    refine Or.inr ⟨id, fun r hr => ?_⟩
    obtain ⟨s', hst, rfl⟩ := map_eq_some_iff.1 hr
    exact ⟨_, rfl, read_safe hinv hst⟩
  | readFinish => exact execSafe_readFinish hinv
  | transmit sndNxt txq exclusive =>
    refine Or.inr ⟨id, fun r hr => ?_⟩
    obtain ⟨-, rfl⟩ := ite_some_none_eq_some.1 hr
    exact ⟨_, rfl, hinv.of_same { SameRx.refl with } (fun hphase => ⟨hphase, rfl⟩) rfl⟩
  | shutdownTx txq => exact execSafe_shutdownTx hinv txq

theorem hostInv_step {e : HostEvent} (hinv : HostInv h) (hst : hostStep h e = some h') : HostInv h' := by
  have hexec : hostExec h e = some (some h') := join_eq_some_iff.1 hst
  rcases hostExec_safe hinv e with ⟨-, hstop⟩ | ⟨-, hnext⟩
  · cases hstop.symm.trans hexec
  · obtain ⟨h'', heq, hinv'⟩ := hnext _ hexec
    cases heq
    exact hinv'

theorem hostInv_dial (iss : Seq) (rcvMss : Nat) : HostInv (hostInit (dialInit iss rcvMss)) :=
  ⟨NearRx.of_empty rfl, Nat.le_refl _, rfl, nofun, fun _ => ⟨rfl, rfl, rfl⟩, Nat.le_refl _⟩

theorem hostInv_listen (iss : Seq) (rcvMss : Nat) (seq : Seq) (opts : TcpOptions) :
    HostInv (hostInit (listenInit iss rcvMss seq opts)) := by
  refine ⟨NearRx.of_empty rfl, ?_, rfl, nofun, fun _ => ⟨rfl, rfl, rfl⟩, ?_⟩
  · show (if opts.wscale.isNone then BitVec.ofNat 32 (if opts.wscale.isNone then min tcpWin 0xFFFF
      else tcpWin) else BitVec.ofNat 32 tcpWin).toNat + 0 ≤ tcpWin + 0
    cases opts.wscale with
    | none => decide
    | some _ => exact Nat.le_refl _
  · show (if opts.wscale.isNone then min tcpWin 0xFFFF else tcpWin) ≤ tcpWin
    split
    · exact Nat.min_le_left _ _
    · exact Nat.le_refl _

def Starts (h : Host) : Prop :=
  (∃ iss rcvMss, h = hostInit (dialInit iss rcvMss)) ∨
    ∃ iss rcvMss seq opts, h = hostInit (listenInit iss rcvMss seq opts)

theorem hostInv_reaches {h₀ : Host} (hstart : Starts h₀) (hreach : Reaches hostStep anyStep h₀ h) :
    HostInv h := by
  have hinit : HostInv h₀ := by
    rcases hstart with ⟨iss, rcvMss, rfl⟩ | ⟨iss, rcvMss, seq, opts, rfl⟩
    · exact hostInv_dial iss rcvMss
    · exact hostInv_listen iss rcvMss seq opts
  exact hreach.invariant hinit fun _ _ _ hinv _ hst => hostInv_step hinv hst

theorem HostInv.stops_iff (hinv : HostInv h) (e : HostEvent) :
    Stops h e ↔ FinMeetsClosedWindow h e := by
  rcases hostExec_safe hinv e with ⟨hbad, hstop⟩ | ⟨hgood, hnext⟩
  · exact ⟨fun _ => hbad, fun _ => hstop⟩
  · refine ⟨fun hstop => ?_, fun hbad => absurd hbad hgood⟩
    obtain ⟨h', heq, -⟩ := hnext none hstop
    cases heq

/-- In every state reached an event runs into an assert or a `BUG_ON` if and only if it processes
a segment whose text closes the window in front of a queued FIN. -/
theorem ingress_stops_iff {h₀ : Host} (hstart : Starts h₀) (hreach : Reaches hostStep anyStep h₀ h)
    (e : HostEvent) : Stops h e ↔ FinMeetsClosedWindow h e :=
  (hostInv_reaches hstart hreach).stops_iff e

end Runs

/-! ## Concrete runs -/

/-- A passive connection without window scaling becomes established: the window is
65535, and the peer's numbers start at 301. -/
def opened : List HostEvent :=
  [.openConn true true, .arrive (encodeSegment 301 8 0x10 1000 []) {}, .process 0 true true]

/-- A FIN behind a gap, inside the window, and the byte that closes the gap. -/
theorem ingress_stops_gap : ∃ h, Reaches hostStep anyStep (hostInit (listenInit 7 1460 300 {})) h ∧
    h.conn.rxqOoo.length = 1 ∧ h.opening.inflight.length = 1 ∧ ¬ Stops h (.process 0 true true) := by
  have hrun : (runActions hostStep (hostInit (listenInit 7 1460 300 {}))
      (opened ++ [.arrive (encodeSegment 302 8 0x11 1000 [2]) {}, .process 0 true true,
        .arrive (encodeSegment 301 8 0x10 1000 [1]) {}])).map
      (fun h => (h.conn.rxqOoo.length, h.opening.inflight.length,
        h.opening.inflight.all fun p => ! decide (finAtClosedWindow h.conn p.seg p.sndNxt))) =
      some (1, 1, true) := by
    decide +kernel
  obtain ⟨h, hrun, hfacts⟩ := map_eq_some_iff.1 hrun
  obtain ⟨hooo, hfacts⟩ := Prod.mk.inj hfacts
  obtain ⟨hinflight, hgood⟩ := Prod.mk.inj hfacts
  have hreach := reaches_of_runActions hrun
  refine ⟨h, hreach, hooo, hinflight, fun hstop => ?_⟩
  obtain ⟨p, hp, -, hbad⟩ :=
    (ingress_stops_iff (Or.inr ⟨7, 1460, 300, {}, rfl⟩) hreach _).1 hstop
  have hclear := List.all_eq_true.1 hgood p (List.mem_of_getElem? hp)
  rw [decide_eq_true hbad] at hclear
  cases hclear

/-- Segments that nobody reads leave 15 bytes of the window. -/
def filling : List HostEvent :=
  (List.range 45).flatMap fun k =>
    [.arrive (encodeSegment (301 + 1456 * k) 8 0x10 1000 (List.replicate 1456 0)) {},
      .process 0 true true]

/-- A segment with the last 5 bytes of the window, 5 bytes beyond it and the FIN is queued behind
a gap. The segment that fills the gap closes the window, and `mbuf_trim` is asked for 6 bytes of a
buffer that has 5 left. -/
theorem queued_fin_stops : ∃ h, Reaches hostStep anyStep (hostInit (listenInit 7 1460 300 {})) h ∧
      Stops h (.process 0 true true) := by
  obtain ⟨h, hreach, hstop⟩ : ∃ h,
      Reaches hostStep anyStep (hostInit (listenInit 7 1460 300 {})) h ∧
      (hostExec h (.process 0 true true)).any Option.isNone = true :=
    exists_of_runActions (opened ++ filling ++
      [.arrive (encodeSegment 65831 8 0x11 1000 (List.replicate 10 0)) {}, .process 0 true true,
        .arrive (encodeSegment 65821 8 0x10 1000 (List.replicate 15 0)) {}]) (by decide +kernel)
  obtain ⟨r, hr, hnone⟩ := (Option.any_eq_true _ _).1 hstop
  exact ⟨h, hreach, hr.trans (congrArg some (Option.isNone_iff_eq_none.1 hnone))⟩

end Svalinn.Tcp.Debug
