/-
  Tcp/Window.lean --- the receive window and what is queued.

  Source: `runtime/net/tcp_in.c` (`tcp_rx_append_text`, `tcp_rx_conn`, `tcp_parse_options`),
  `runtime/net/tcp.c` (`tcp_scale_window`, `tcp_conn_alloc`, `tcp_read_wait`, `tcp_read`,
  `tcp_readv`, `tcp_read_finish`), `runtime/net/tcp_out.c` (`tcp_push_tcphdr`).

  As long as no FIN arrives, `rcv_wnd` and the bytes queued and not released make up `winmax`,
  and the right edge of the window only moves forward.  The header announces the window without
  loss as long as the configured window can be scaled into 16 bits by a shift of 14.
-/
import Svalinn.Tcp.OooQueue
import Svalinn.Tcp.Handshake
import Svalinn.Tcp.Retransmit

set_option autoImplicit false

namespace Svalinn.Tcp.Window

open Svalinn.Lib List Option

/-! ## Appending text -/

/-- A buffer without FIN, whose numbers count its bytes. -/
structure Sized (m : Mbuf) : Prop where
  noFin : m.flags.fin = false
  length : (m.segEnd - m.segSeq).toNat = m.data.length
  short : m.data.length < 2 ^ 16

/-- The receive path appends to the queue what it takes from the window. -/
structure Kept (c c' : Conn) : Prop extends Appends c c' where
  edge : c'.rcvNxt + c'.rcvWnd = c.rcvNxt + c.rcvWnd
  law : c'.rcvWnd.toNat + (bytes c'.rxq).length = c.rcvWnd.toNat + (bytes c.rxq).length

section Text

variable {c c' c'' : Conn} {m m' : Mbuf}

theorem Kept.refl : Kept c c := ⟨.refl, rfl, rfl⟩

theorem Kept.trans (h₁ : Kept c c') (h₂ : Kept c' c'') : Kept c c'' :=
  ⟨h₁.toAppends.trans h₂.toAppends, h₂.edge.trans h₁.edge, h₂.law.trans h₁.law⟩

theorem Kept.of_same (h : SameRx c c') : Kept c c' :=
  ⟨h.appends, by rw [h.rcvNxt, h.rcvWnd], by rw [h.rcvWnd, h.rxq]⟩

theorem Kept.rcvWnd_le (h : Kept c c') : c'.rcvWnd.toNat ≤ c.rcvWnd.toNat := by
  have hlaw := h.law
  obtain ⟨ms, hms⟩ := h.rxq
  rw [hms, bytes_append, length_append] at hlaw
  omega

theorem clipHead_sized (hm : Sized m) (hseq : ¬ wrapsLt m.segSeq c.rcvNxt → m.segSeq = c.rcvNxt)
    (h : clipHead c m = some m') : Sized m' ∧ m'.segSeq = c.rcvNxt := by
  unfold clipHead at h
  split at h
  · obtain ⟨m₁, hpull, rfl⟩ := map_eq_some_iff.1 h
    obtain ⟨hle, hm₁⟩ := ite_none_left_eq_some.1 hpull
    cases hm₁
    have hnew : m.segSeq + (c.rcvNxt - m.segSeq) = c.rcvNxt := by ring
    refine ⟨⟨hm.noFin, ?_, ?_⟩, hnew⟩
    · show (m.segEnd - (m.segSeq + (c.rcvNxt - m.segSeq))).toNat =
        (m.data.drop (c.rcvNxt - m.segSeq).toNat).length
      have hsub : m.segEnd - (m.segSeq + (c.rcvNxt - m.segSeq)) =
          m.segEnd - m.segSeq - (c.rcvNxt - m.segSeq) := by ring
      rw [hsub, BitVec.toNat_sub_of_le, hm.length, length_drop]
      rw [BitVec.le_def, hm.length]
      exact Nat.not_lt.1 hle
    · have hshort := hm.short
      show (m.data.drop _).length < 2 ^ 16
      rw [length_drop]
      omega
  · rename_i hlt
    cases h
    exact ⟨hm, hseq hlt⟩

theorem clipTail_sized (hm : Sized m) (hseq : m.segSeq = c.rcvNxt) (hwnd : c.rcvWnd.toNat < 2 ^ 31)
    (h : clipTail c m = some m') :
    Sized m' ∧ m'.segSeq = c.rcvNxt ∧ m'.data.length ≤ c.rcvWnd.toNat := by
  unfold clipTail at h
  split at h
  · obtain ⟨m₁, htrim, rfl⟩ := map_eq_some_iff.1 h
    obtain ⟨hle, hm₁⟩ := ite_none_left_eq_some.1 htrim
    cases hm₁
    have hlen : (c.rcvNxt + c.rcvWnd - m.segSeq).toNat =
        m.data.length - (m.segEnd - (c.rcvNxt + c.rcvWnd)).toNat := by
      have hsub : c.rcvNxt + c.rcvWnd - m.segSeq =
          m.segEnd - m.segSeq - (m.segEnd - (c.rcvNxt + c.rcvWnd)) := by ring
      rw [hsub, BitVec.toNat_sub_of_le, hm.length]
      rw [BitVec.le_def, hm.length]
      exact Nat.not_lt.1 hle
    have htake : (m.data.take (m.data.length - (m.segEnd - (c.rcvNxt + c.rcvWnd)).toNat)).length =
        (c.rcvNxt + c.rcvWnd - m.segSeq).toNat := by
      rw [hlen, length_take]
      omega
    have hall : c.rcvNxt + c.rcvWnd - m.segSeq = c.rcvWnd := by
      rw [hseq]
      ring
    have hshort := hm.short
    refine ⟨⟨hm.noFin, htake.symm, ?_⟩, hseq, ?_⟩
    · show (m.data.take _).length < 2 ^ 16
      rw [length_take]
      omega
    · show (m.data.take _).length ≤ _
      rw [htake, hall]
  · rename_i hlt
    cases h
    refine ⟨hm, hseq, ?_⟩
    -- the end lies before the edge, and both are less than half the number space away
    have hsub : c.rcvNxt + c.rcvWnd - m.segEnd = c.rcvWnd - (m.segEnd - m.segSeq) := by
      rw [hseq]
      ring
    unfold wrapsLt at hlt
    have hlen := hm.length
    have hshort := hm.short
    rw [hsub, BitVec.toInt_eq_toNat_cond, BitVec.toNat_sub, hlen] at hlt
    split at hlt <;> omega

theorem tcpRxAppendText_kept (hm : Sized m) (hwnd : c.rcvWnd.toNat < 2 ^ 31)
    (hseq : ¬ wrapsLt m.segSeq c.rcvNxt → m.segSeq = c.rcvNxt)
    (h : tcpRxAppendText c m = some c') : Kept c c' := by
  have happends := tcpRxAppendText_appends h
  unfold tcpRxAppendText at h
  split at h
  · cases h
  rename_i m₁ hhead
  split at h
  · cases h
  rename_i m₂ htail
  cases h
  obtain ⟨hm₁, hseq₁⟩ := clipHead_sized hm hseq hhead
  obtain ⟨hm₂, hseq₂, hfit⟩ := clipTail_sized hm₁ hseq₁ hwnd htail
  refine ⟨happends, ?_, ?_⟩
  · show m₂.segEnd + (c.rcvWnd - (m₂.segEnd - m₂.segSeq)) = c.rcvNxt + c.rcvWnd
    rw [hseq₂]
    ring
  · show (c.rcvWnd - (m₂.segEnd - m₂.segSeq)).toNat + (bytes (c.rxq ++ [m₂])).length = _
    have hle : m₂.segEnd - m₂.segSeq ≤ c.rcvWnd := by
      rw [BitVec.le_def, hm₂.length]
      exact hfit
    have hone : (bytes [m₂]).length = m₂.data.length := by
      rw [bytes_cons, length_append]
      rfl
    rw [BitVec.toNat_sub_of_le hle, hm₂.length, bytes_append, length_append, hone]
    omega

theorem segSeq_eq_of_not_wrapsGt {x y : Seq} (hgt : ¬ wrapsGt x y) (hlt : ¬ wrapsLt x y) : x = y := by
  unfold wrapsGt at hgt
  unfold wrapsLt at hlt
  rw [BitVec.toInt_eq_toNat_cond, BitVec.toNat_sub] at hgt hlt
  apply BitVec.eq_of_toNat_eq
  have := x.isLt
  have := y.isLt
  split at hgt <;> split at hlt <;> omega

theorem segSeq_eq_of_wrapsLte {x y : Seq} (hle : wrapsLte x y) (hlt : ¬ wrapsLt x y) : x = y := by
  have hzero : (x - y).toInt = 0 := Int.le_antisymm hle (Int.not_lt.1 hlt)
  exact sub_eq_zero.1 (BitVec.eq_of_toInt_eq (hzero.trans BitVec.toInt_zero.symm))

theorem drain_kept {q : List Mbuf} {o o' : TextOut} (hq : ∀ x ∈ q, Sized x)
    (hwnd : o.conn.rcvWnd.toNat < 2 ^ 31) (h : drain q o = some o') :
    Kept o.conn o'.conn ∧ ∀ x ∈ o'.conn.rxqOoo, Sized x := by
  induction q generalizing o with
  | nil =>
    cases h
    exact ⟨⟨⟨⟨[], (append_nil _).symm⟩, rfl, rfl, rfl, rfl⟩, rfl, rfl⟩,
      fun x hx => absurd hx not_mem_nil⟩
  | cons x q ih =>
    obtain ⟨hx, hrest⟩ := forall_mem_cons.1 hq
    unfold drain at h
    split at h
    · obtain ⟨hkept, hooo⟩ :=
        ih (o := { o with conn := { o.conn with rxqOooLen := o.conn.rxqOooLen - 1 } }) hrest hwnd h
      exact ⟨{ hkept with }, hooo⟩
    split at h
    · cases h
      exact ⟨⟨⟨⟨[], (append_nil _).symm⟩, rfl, rfl, rfl, rfl⟩, rfl, rfl⟩, hq⟩
    rename_i hgt
    split at h
    · cases h
    rename_i c₁ happend
    have hkept₁ := tcpRxAppendText_kept (c := { o.conn with rxqOooLen := o.conn.rxqOooLen - 1 }) hx
      hwnd (segSeq_eq_of_not_wrapsGt hgt) happend
    obtain ⟨hkept, hooo⟩ := ih hrest (Nat.lt_of_le_of_lt hkept₁.rcvWnd_le hwnd) h
    exact ⟨{ hkept₁.trans hkept with }, hooo⟩

theorem mem_oooInsertRev {q q' : List Mbuf} (h : oooInsertRev q m = some q') :
    ∀ x ∈ q', x = m ∨ x ∈ q := by
  induction q generalizing q' with
  | nil =>
    cases h
    exact fun x hx => .inl (mem_singleton.1 hx)
  | cons y q ih =>
    unfold oooInsertRev at h
    split at h
    · cases h
      exact fun x hx => mem_cons.1 hx
    · obtain ⟨-, h⟩ := ite_none_left_eq_some.1 h
      obtain ⟨q₁, hq₁, rfl⟩ := map_eq_some_iff.1 h
      intro x hx
      rcases mem_cons.1 hx with rfl | hx
      · exact .inr (mem_cons_self ..)
      · exact (ih hq₁ x hx).imp_right (mem_cons_of_mem _)

theorem mem_oooInsert {q q' : List Mbuf} (h : oooInsert q m = some q') : ∀ x ∈ q', x = m ∨ x ∈ q := by
  obtain ⟨q₁, hq₁, rfl⟩ := map_eq_some_iff.1 h
  intro x hx
  exact (mem_oooInsertRev hq₁ x (mem_reverse.1 hx)).imp_right mem_reverse.1

theorem tcpRxText_kept {t : TextOut} (hooo : ∀ x ∈ c.rxqOoo, Sized x) (hm : Sized m)
    (hwnd : c.rcvWnd.toNat < 2 ^ 31) (h : tcpRxText c m = some t) :
    Kept c t.conn ∧ ∀ x ∈ t.conn.rxqOoo, Sized x := by
  rcases tcpRxText_cases h with ⟨hconn, -⟩ | ⟨o₁, o₂, -, hdrain, hconn, -, hstart⟩ <;> rw [hconn]
  · exact ⟨.refl, hooo⟩
  · rcases hstart with ⟨hle, happend⟩ | ⟨-, q, hins, ho₁⟩
    · have hkept₁ := tcpRxAppendText_kept hm hwnd (segSeq_eq_of_wrapsLte hle) happend
      have hooo₁ : ∀ x ∈ o₁.conn.rxqOoo, Sized x := by
        rw [tcpRxAppendText_ooo happend]
        exact hooo
      obtain ⟨hkept, hleft⟩ := drain_kept hooo₁ (Nat.lt_of_le_of_lt hkept₁.rcvWnd_le hwnd) hdrain
      exact ⟨hkept₁.trans hkept, hleft⟩
    · have hooo₁ : ∀ x ∈ o₁.conn.rxqOoo, Sized x := by
        rw [ho₁]
        intro x hx
        rcases mem_oooInsert hins x hx with rfl | hx
        · exact hm
        · exact hooo x hx
      obtain ⟨hkept, hleft⟩ := drain_kept hooo₁ (by rw [ho₁]; exact hwnd) hdrain
      rw [ho₁] at hkept
      exact ⟨{ hkept with }, hleft⟩

/-! ## A segment -/

theorem Kept.same (h : Kept c c') (hooo : ∀ x ∈ c'.rxqOoo, Sized x) (hsame : SameRx c' c'') :
    Kept c c'' ∧ ∀ x ∈ c''.rxqOoo, Sized x :=
  ⟨h.trans (.of_same hsame), by rw [hsame.rxqOoo]; exact hooo⟩

theorem segMbuf_sized {s : Segment} (hfin : s.flags.fin = false) : Sized (segMbuf s) := by
  have hlt := s.length_lt
  refine ⟨hfin, ?_, hlt⟩
  show (s.seq + BitVec.ofNat 32 s.data.length - s.seq).toNat = s.data.length
  rw [BitVec.add_comm, BitVec.add_sub_cancel, BitVec.toNat_ofNat]
  omega

theorem processText_kept {s : Segment} {o : RxOut} (hfin : s.flags.fin = false)
    (hwnd : c.rcvWnd.toNat < 2 ^ 31) (hooo : ∀ x ∈ c.rxqOoo, Sized x)
    (h : processText c (segMbuf s) (segLen s) = some o) :
    Kept c o.conn ∧ ∀ x ∈ o.conn.rxqOoo, Sized x := by
  have hlen : segLen s = BitVec.ofNat 32 s.data.length := by
    unfold segLen
    rw [hfin]
    exact BitVec.add_zero _
  unfold processText at h
  split at h
  · split at h
    · cases h
    · rename_i t htext
      rw [hlen] at htext
      cases h
      obtain ⟨hkept, hleft⟩ := tcpRxText_kept hooo (segMbuf_sized hfin) hwnd htext
      exact hkept.same hleft (textDone_same rfl)
  · cases h
    exact Kept.refl.same hooo (rxDone_same rfl)

theorem tcpRxFast_kept {s : Segment} {sndNxt win : Seq} (hooo : ∀ x ∈ c.rxqOoo, Sized x)
    (hslow : slowPath c (segMbuf s) s.ack sndNxt (BitVec.ofNat 32 s.data.length) = false) :
    Kept c (tcpRxFast c (segMbuf s) s.ack win (BitVec.ofNat 32 s.data.length)).conn ∧
      ∀ x ∈ (tcpRxFast c (segMbuf s) s.ack win (BitVec.ofNat 32 s.data.length)).conn.rxqOoo,
        Sized x := by
  obtain ⟨hnxt, hwnd, hrxq, hqueue, -, hclosed, hexcl, herr, hmss⟩ :=
    tcpRxFast_spec (c := c) (m := segMbuf s) s.ack win (BitVec.ofNat 32 s.data.length)
  generalize (tcpRxFast c (segMbuf s) s.ack win (BitVec.ofNat 32 s.data.length)).conn = c₁ at *
  simp only [slowPath, Bool.or_eq_false_iff, decide_eq_false_iff_not, not_not] at hslow
  obtain ⟨⟨⟨-, hseq⟩, -⟩, hfit⟩ := hslow
  have hlt := s.length_lt
  have hbytes : (BitVec.ofNat 32 s.data.length).toNat = s.data.length := by
    rw [BitVec.toNat_ofNat]
    omega
  have hle : BitVec.ofNat 32 s.data.length ≤ c.rcvWnd := BitVec.not_lt.1 hfit
  refine ⟨⟨⟨⟨_, hrxq⟩, hclosed, hexcl, herr, hmss⟩, ?_, ?_⟩, by rw [hqueue]; exact hooo⟩
  · rw [hnxt, hwnd, ← hseq]
    show s.seq + BitVec.ofNat 32 s.data.length + (c.rcvWnd - BitVec.ofNat 32 s.data.length) =
      s.seq + c.rcvWnd
    ring
  · have hone : (bytes [segMbuf s]).length = s.data.length := by
      rw [bytes_cons, length_append]
      rfl
    rw [hwnd, hrxq, bytes_append, length_append, hone, BitVec.toNat_sub_of_le hle, hbytes]
    rw [BitVec.le_def, hbytes] at hle
    omega

theorem tcpRxConn_kept {s : Segment} {sndNxt : Seq} {o : RxOut} (hfin : s.flags.fin = false)
    (hwnd : c.rcvWnd.toNat < 2 ^ 31) (hooo : ∀ x ∈ c.rxqOoo, Sized x)
    (h : tcpRxConn c s sndNxt = some o) :
    (Kept c o.conn ∧ ∀ x ∈ o.conn.rxqOoo, Sized x) ∨ o.conn = tcpConnFail c econnreset := by
  by_cases hflags : s.flags.rst = false ∧ s.flags.syn = false
  · left
    rcases tcpRxConn_cases c sndNxt hflags.1 hflags.2 with
      ⟨o', ho', hsame, -⟩ | ⟨c₁, hat, ho'⟩ | ⟨hslow, ho'⟩
    · obtain rfl : o' = o := some.inj (ho'.symm.trans h)
      exact Kept.refl.same hooo hsame
    · have hooo₁ : ∀ x ∈ (finAcked c₁ sndNxt).rxqOoo, Sized x := by
        rw [hat.same.rxqOoo]
        exact hooo
      obtain ⟨hkept, hleft⟩ := processText_kept hfin (by rw [hat.same.rcvWnd]; exact hwnd) hooo₁
        (ho'.symm.trans h)
      exact ⟨(Kept.of_same hat.same).trans hkept, hleft⟩
    · obtain rfl := some.inj (ho'.symm.trans h)
      exact tcpRxFast_kept hooo hslow
  · -- an acceptable RST or SYN fails the connection, unless the fast path took the SYN
    unfold tcpRxConn at h
    dsimp only at h
    split at h
    · cases h
      exact .inl ⟨.refl, hooo⟩
    split at h
    · unfold tcpRxConnSlow at h
      simp only [hfin, Bool.false_eq_true, if_false] at h
      split at h
      · cases h
        exact .inl ⟨.refl, hooo⟩
      split at h
      · cases h
        exact .inl (Kept.refl.same hooo (rxDone_same rfl))
      split at h
      · cases h
        exact .inr rfl
      rename_i hrst
      split at h
      · cases h
        exact .inr rfl
      rename_i hsyn
      exact absurd ⟨Bool.eq_false_iff.2 hrst, Bool.eq_false_iff.2 hsyn⟩ hflags
    · rename_i hslow
      cases h
      exact .inl (tcpRxFast_kept hooo (Bool.eq_false_iff.2 hslow))

end Text

/-! ## Window scaling -/

/-- The loop of `tcp_scale_window` with `left` more shifts allowed. -/
def scaleLoop : Nat → Nat → Nat
  | 0, _ => 0
  | left + 1, maxwin => if maxwin > 0xFFFF then scaleLoop left (maxwin / 2) + 1 else 0

def tcpScaleWindow (maxwin : Nat) : Nat := scaleLoop 14 maxwin

theorem scaleLoop_spec {left maxwin : Nat} (h : maxwin < 2 ^ (16 + left)) :
    maxwin / 2 ^ scaleLoop left maxwin < 2 ^ 16 := by
  induction left generalizing maxwin with
  | zero =>
    unfold scaleLoop
    rw [Nat.pow_zero, Nat.div_one]
    exact h
  | succ left ih =>
    unfold scaleLoop
    split
    · rw [Nat.pow_succ', ← Nat.div_div_eq_div_mul]
      refine ih (Nat.div_lt_of_lt_mul ?_)
      rw [← Nat.pow_succ']
      exact h
    · rw [Nat.pow_zero, Nat.div_one]
      omega

theorem tcpScaleWindow_spec {maxwin : Nat} (h : maxwin < 2 ^ 30) :
    maxwin / 2 ^ tcpScaleWindow maxwin < 2 ^ 16 := scaleLoop_spec h

/-! ## The system -/

/-- `tcp_conn_alloc` with `TCP_WIN` configured as `maxwin`. -/
def connAlloc (maxwin : Nat) (iss : Seq) (rcvMss : Nat) (dial : Bool) : Opening :=
  let o := tcpConnAlloc iss rcvMss dial
  { o with
    winmax := maxwin
    rcvWscale := tcpScaleWindow maxwin
    conn := { o.conn with rcvWnd := BitVec.ofNat 32 maxwin } }

/-- The connection `tcp_rx_listener` attaches for a SYN. -/
def listenAlloc (maxwin : Nat) (iss : Seq) (rcvMss : Nat) (seq : Seq) (opts : TcpOptions) : Opening :=
  let o := connAlloc maxwin iss rcvMss false
  applyOptions { o with irs := seq, conn := { o.conn with rcvNxt := seq + 1 } } opts

/-- A connection from its allocation on, and its exclusive reader; `rest` of the reader is what it
has released and not yet pulled off the top buffer. -/
structure Host where
  opening : Opening
  pending : Option Pending
  deriving DecidableEq

def Host.conn (h : Host) : Conn := h.opening.conn

inductive HostEvent where
  | opening (e : OpenEvent)
  /-- `tcp_read_wait` -/
  | read (len : Nat) (iov : Option (List Nat))
  /-- the exclusive reader, without the lock, pulls some bytes of its part -/
  | copy (k : Nat)
  /-- `tcp_read_finish` -/
  | readFinish
  deriving DecidableEq

def hostStep (h : Host) : HostEvent → Option Host
  | .opening e => (openStep h.opening e).map fun o => { h with opening := o }
  | .read len iov =>
    (step ⟨h.conn, h.pending, [], [], false⟩ (.read len iov)).map fun s =>
      ⟨{ h.opening with conn := s.conn }, s.pending⟩
  | .copy k =>
    match h.pending, h.conn.rxq with
    | some p, m :: rest =>
      if k ≤ p.rest then
        (mbufPull m k).map fun m' =>
          ⟨{ h.opening with conn := { h.conn with
              rxq := { m' with segSeq := m'.segSeq + BitVec.ofNat 32 k } :: rest } },
            some { p with rest := p.rest - k }⟩
      else none
    | _, _ => none
  | .readFinish =>
    match h.pending with
    | some p =>
      if p.rest = 0 then
        some ⟨{ h.opening with conn := { h.conn with rxExclusive := false } }, none⟩
      else none
    | none => none

def NoFin (h : Host) : HostEvent → Prop
  | .opening (.process i _ _) => ∀ p ∈ h.opening.inflight[i]?, p.seg.flags.fin = false
  | _ => True

def Host.unreleased (h : Host) : Nat := (bytes h.conn.rxq).length - h.pending.elim 0 Pending.rest

def Host.alive (h : Host) : Prop := h.opening.phase = .running → h.conn.state ≠ .closed

structure WinInv (maxwin : Nat) (h : Host) : Prop where
  excl : h.conn.rxExclusive = h.pending.isSome
  part : ∀ r, h.pending = some r → ∃ m rest, h.conn.rxq = m :: rest ∧ r.rest ≤ m.data.length
  sized : ∀ x ∈ h.conn.rxqOoo, Sized x
  law : h.alive →
    h.conn.rcvWnd.toNat + (bytes h.conn.rxq).length = h.opening.winmax + h.pending.elim 0 Pending.rest
  early : h.opening.phase ≠ .running → h.conn.state = .closed ∧ h.conn.rxq = [] ∧ h.conn.rxqOoo = []
  winmax : h.opening.winmax ≤ maxwin
  scale : h.opening.winmax / 2 ^ h.opening.rcvWscale < 2 ^ 16

section Runs

variable {maxwin : Nat} {h h' : Host} {o : Opening}

theorem WinInv.pending_le (hinv : WinInv maxwin h) :
    h.pending.elim 0 Pending.rest ≤ (bytes h.conn.rxq).length := by
  cases hp : h.pending with
  | none => exact Nat.zero_le _
  | some r =>
    obtain ⟨m, rest, hq, hle⟩ := hinv.part r hp
    rw [hq, bytes_cons, length_append]
    exact Nat.le_trans hle (Nat.le_add_right _ _)

theorem WinInv.rcvWnd_le (hinv : WinInv maxwin h) (halive : h.alive) :
    h.conn.rcvWnd.toNat ≤ h.opening.winmax := by
  have hlaw := hinv.law halive
  have hle := hinv.pending_le
  omega

theorem WinInv.pending_none (hinv : WinInv maxwin h) (hq : h.conn.rxq = []) : h.pending = none := by
  cases hp : h.pending with
  | none => rfl
  | some r =>
    obtain ⟨m, rest, hq', -⟩ := hinv.part r hp
    cases hq.symm.trans hq'

theorem WinInv.of_same (hinv : WinInv maxwin h) (hsame : SameRx h.conn o.conn)
    (halive : (o.phase = .running → o.conn.state ≠ .closed) → h.alive)
    (hearly : o.phase ≠ .running → h.opening.phase ≠ .running ∧ o.conn.state = h.conn.state)
    (hwin : o.winmax = h.opening.winmax) (hscale : o.rcvWscale = h.opening.rcvWscale) :
    WinInv maxwin { h with opening := o } where
  excl := hsame.rxExclusive.trans hinv.excl
  part := fun r hr => by
    show ∃ m rest, o.conn.rxq = m :: rest ∧ _
    rw [hsame.rxq]
    exact hinv.part r hr
  sized := by
    show ∀ x ∈ o.conn.rxqOoo, _
    rw [hsame.rxqOoo]
    exact hinv.sized
  law := fun hlive => by
    show o.conn.rcvWnd.toNat + (bytes o.conn.rxq).length = o.winmax + _
    rw [hsame.rcvWnd, hsame.rxq, hwin]
    exact hinv.law (halive hlive)
  early := fun hphase => by
    obtain ⟨hphase', hstate⟩ := hearly hphase
    obtain ⟨hclosed, hq, hooo⟩ := hinv.early hphase'
    exact ⟨hstate.trans hclosed, hsame.rxq.trans hq, hsame.rxqOoo.trans hooo⟩
  winmax := by
    show o.winmax ≤ maxwin
    rw [hwin]
    exact hinv.winmax
  scale := by
    show o.winmax / 2 ^ o.rcvWscale < 2 ^ 16
    rw [hwin, hscale]
    exact hinv.scale

/-- What is known of a connection on which nothing is queued yet. -/
structure Fresh (maxwin : Nat) (o : Opening) : Prop where
  rxq : o.conn.rxq = []
  rxqOoo : o.conn.rxqOoo = []
  rcvWnd : o.conn.rcvWnd.toNat = o.winmax
  winmax : o.winmax ≤ maxwin
  scale : o.winmax / 2 ^ o.rcvWscale < 2 ^ 16

theorem WinInv.fresh (hinv : WinInv maxwin h) (hphase : h.opening.phase ≠ .running) :
    Fresh maxwin h.opening := by
  obtain ⟨-, hq, hooo⟩ := hinv.early hphase
  have hlaw := hinv.law fun hrun => absurd hrun hphase
  rw [hinv.pending_none hq, hq] at hlaw
  exact ⟨hq, hooo, hlaw, hinv.winmax, hinv.scale⟩

theorem WinInv.of_fresh (hinv : WinInv maxwin h) (hphase : h.opening.phase ≠ .running)
    (hfresh : Fresh maxwin o) (hexcl : o.conn.rxExclusive = h.conn.rxExclusive)
    (hstate : o.phase ≠ .running → o.conn.state = .closed) :
    WinInv maxwin { h with opening := o } := by
  have hpend := hinv.pending_none (hinv.early hphase).2.1
  refine ⟨hexcl.trans hinv.excl, fun r hr => ?_, ?_, fun _ => ?_,
    fun hne => ⟨hstate hne, hfresh.rxq, hfresh.rxqOoo⟩, hfresh.winmax, hfresh.scale⟩
  · cases hpend.symm.trans hr
  · show ∀ x ∈ o.conn.rxqOoo, _
    rw [hfresh.rxqOoo]
    exact fun x hx => absurd hx not_mem_nil
  · show o.conn.rcvWnd.toNat + (bytes o.conn.rxq).length = o.winmax + h.pending.elim 0 Pending.rest
    rw [hfresh.rxq, hfresh.rcvWnd, hpend]
    rfl

theorem WinInv.of_fail (hinv : WinInv maxwin h) (err : Nat)
    (hconn : o.conn = tcpConnFail h.conn err)
    (hphase : o.phase ≠ .running → h.opening.phase ≠ .running)
    (hwin : o.winmax = h.opening.winmax) (hscale : o.rcvWscale = h.opening.rcvWscale) :
    WinInv maxwin { h with opening := o } := by
  have hrxq : o.conn.rxq = if h.conn.rxExclusive then h.conn.rxq else [] := by
    rw [hconn]
    rfl
  have hexcl : o.conn.rxExclusive = h.conn.rxExclusive := by
    rw [hconn]
    rfl
  have hooo : o.conn.rxqOoo = [] := by
    rw [hconn]
    rfl
  have hclosed : o.conn.state = .closed := by
    rw [hconn]
    rfl
  by_cases hrun : o.phase = .running
  · refine ⟨hexcl.trans hinv.excl, fun r hr => ?_, ?_, fun halive => absurd hclosed (halive hrun),
      fun hne => absurd hrun hne, ?_, ?_⟩
    · show ∃ m rest, o.conn.rxq = m :: rest ∧ _
      have hsome : h.conn.rxExclusive = true := by
        rw [hinv.excl, show h.pending = some r from hr]
        rfl
      rw [hrxq, if_pos hsome]
      exact hinv.part r hr
    · show ∀ x ∈ o.conn.rxqOoo, _
      rw [hooo]
      exact fun x hx => absurd hx not_mem_nil
    · show o.winmax ≤ maxwin
      rw [hwin]
      exact hinv.winmax
    · show o.winmax / 2 ^ o.rcvWscale < 2 ^ 16
      rw [hwin, hscale]
      exact hinv.scale
  · have hfresh := hinv.fresh (hphase hrun)
    refine hinv.of_fresh (hphase hrun) ⟨?_, hooo, ?_, ?_, ?_⟩ hexcl fun _ => hclosed
    · rw [hrxq, show h.conn.rxq = [] from hfresh.rxq, ite_self]
    · rw [hconn, hwin]
      exact hfresh.rcvWnd
    · rw [hwin]
      exact hfresh.winmax
    · rw [hwin, hscale]
      exact hfresh.scale

/-! ### Opening -/

theorem WinInv.openConnection (hinv : WinInv maxwin h) {dial allocOk sent : Bool}
    (hphase : h.opening.phase = .attached dial) :
    WinInv maxwin { h with opening := openConnection h.opening dial allocOk sent } := by
  have hearly : h.opening.phase ≠ .running := hphase.trans_ne nofun
  obtain ⟨nxt, txq, state, hconn, hstate, hwin, hscale⟩ :=
    openConnection_conn h.opening dial allocOk sent
  refine hinv.of_same ?_ (fun _ hrun => absurd hrun hearly) (fun hne => ⟨hearly, ?_⟩) hwin hscale
  · rw [hconn]
    exact { SameRx.refl with }
  · rw [hconn]
    exact hstate hne

/-- Without a scale the window is cut to what 16 bits announce. -/
theorem Fresh.applyOptions (hfresh : Fresh maxwin o) (opts : TcpOptions) :
    Fresh maxwin (applyOptions o opts) := by
  obtain ⟨hq, hooo, hwnd, hwin, hscale⟩ := hfresh
  unfold Tcp.applyOptions
  cases opts.wscale with
  | some w => exact ⟨hq, hooo, hwnd, hwin, hscale⟩
  | none =>
    refine ⟨hq, hooo, ?_, Nat.le_trans (Nat.min_le_left _ _) hwin, ?_⟩
    · show (BitVec.ofNat 32 (min o.winmax 0xFFFF)).toNat = min o.winmax 0xFFFF
      rw [BitVec.toNat_ofNat]
      omega
    · show min o.winmax 0xFFFF / 2 ^ 0 < 2 ^ 16
      rw [Nat.pow_zero, Nat.div_one]
      omega

theorem Fresh.takeSyn (hfresh : Fresh maxwin o) (p : OpenPacket) :
    Fresh maxwin (takeSyn o p) ∧ (takeSyn o p).conn.rxExclusive = o.conn.rxExclusive ∧
      (takeSyn o p).conn.state = o.conn.state := by
  have hopts : Fresh maxwin (Tcp.applyOptions
      { o with irs := p.seg.seq, conn := { o.conn with rcvNxt := p.seg.seq + 1 } } p.opts) :=
    Fresh.applyOptions
      (o := { o with irs := p.seg.seq, conn := { o.conn with rcvNxt := p.seg.seq + 1 } })
      { hfresh with } p.opts
  unfold Tcp.takeSyn
  dsimp only
  split
  · obtain ⟨hsame, hstate⟩ := tcpConnAck_same (c := { (Tcp.applyOptions
      { o with irs := p.seg.seq, conn := { o.conn with rcvNxt := p.seg.seq + 1 } } p.opts).conn with
        sndUna := p.seg.ack })
    exact ⟨⟨hsame.rxq.trans hopts.rxq, hsame.rxqOoo.trans hopts.rxqOoo,
      (congrArg BitVec.toNat hsame.rcvWnd).trans hopts.rcvWnd, hopts.winmax, hopts.scale⟩,
      hsame.rxExclusive, hstate⟩
  · exact ⟨hopts, rfl, rfl⟩

theorem WinInv.synSentSyn (hinv : WinInv maxwin h) (hphase : h.opening.phase = .synSent)
    (hfresh : Fresh maxwin o) (hconn : o.conn = h.conn) (p : OpenPacket) (allocOk sent : Bool) :
    WinInv maxwin { h with opening := synSentSyn o p allocOk sent } := by
  have hearly : h.opening.phase ≠ .running := hphase.trans_ne nofun
  obtain ⟨hclosed, -, -⟩ := hinv.early hearly
  obtain ⟨hfresh₁, hexcl, hstate⟩ := hfresh.takeSyn p
  rw [hconn] at hexcl hstate
  unfold Tcp.synSentSyn
  generalize Tcp.takeSyn o p = o₁ at hfresh₁ hexcl hstate ⊢
  dsimp only
  split
  · exact hinv.of_fresh hearly { hfresh₁ with } hexcl (fun hne => absurd rfl hne)
  · unfold answerSyn tcpTxCtl
    split
    · dsimp only
      split
      · exact hinv.of_fresh hearly { hfresh₁ with } hexcl (fun hne => absurd rfl hne)
      · exact hinv.of_fresh hearly { hfresh₁ with } hexcl (fun _ => hstate.trans hclosed)
    · dsimp only
      split
      · exact hinv.of_fresh hearly { hfresh₁ with } hexcl (fun hne => absurd rfl hne)
      · exact hinv.of_fresh hearly hfresh₁ hexcl (fun _ => hstate.trans hclosed)

theorem WinInv.rxSynSent (hinv : WinInv maxwin h) (hphase : h.opening.phase = .synSent)
    (ho : { h.opening with inflight := o.inflight } = o) (p : OpenPacket) (allocOk sent : Bool) :
    WinInv maxwin { h with opening := rxSynSent o p allocOk sent } := by
  have hearly : h.opening.phase ≠ .running := hphase.trans_ne nofun
  have hconn : o.conn = h.conn := by
    rw [← ho]
    rfl
  have hwin : o.winmax = h.opening.winmax := by rw [← ho]
  have hscale : o.rcvWscale = h.opening.rcvWscale := by rw [← ho]
  have hkeep : WinInv maxwin { h with opening := o } :=
    hinv.of_same (by rw [hconn]; exact .refl) (fun _ hrun => absurd hrun hearly)
      (fun _ => ⟨hearly, by rw [hconn]⟩) hwin hscale
  have hfresh : Fresh maxwin o := hkeep.fresh (by rw [← ho]; exact hearly)
  unfold Tcp.rxSynSent
  dsimp only
  split
  · exact hkeep
  split
  · exact hkeep
  split
  · exact hinv.of_fail econnreset (by rw [hconn]) (fun hne => absurd rfl hne) hwin hscale
  split
  · exact hkeep
  split
  · exact hinv.synSentSyn hphase hfresh hconn p allocOk sent
  · exact hkeep

/-! ### Packets and reads -/

def Host.edge (h : Host) : Seq := h.conn.rcvNxt + h.conn.rcvWnd

/-- Between two states of an open connection the right edge does not move backwards. -/
def Advances (h h' : Host) : Prop :=
  h.opening.isOpen = true → h'.opening.isOpen = true → wrapsLte h.edge h'.edge

theorem wrapsLte_refl (x : Seq) : wrapsLte x x := by
  unfold wrapsLte
  rw [BitVec.sub_self, BitVec.toInt_zero]

theorem wrapsLte_add (x : Seq) {n : Nat} (hn : n < 2 ^ 31) : wrapsLte x (x + BitVec.ofNat 32 n) := by
  have hsub : x - (x + BitVec.ofNat 32 n) = -BitVec.ofNat 32 n := by ring
  unfold wrapsLte
  rw [hsub, BitVec.toInt_eq_toNat_cond, BitVec.toNat_neg, BitVec.toNat_ofNat]
  split <;> omega

theorem Advances.of_edge (heq : h'.edge = h.edge) : Advances h h' := by
  intro _ _
  rw [heq]
  exact wrapsLte_refl _

theorem isOpen_iff : o.isOpen = true ↔
    o.phase = .running ∧ o.conn.state ≠ .synReceived ∧ o.conn.state ≠ .closed := decide_eq_true_iff

theorem Advances.of_early (hphase : h.opening.phase ≠ .running) : Advances h h' :=
  fun hopen _ => absurd (isOpen_iff.1 hopen).1 hphase

theorem Advances.of_closed (hclosed : h'.conn.state = .closed) : Advances h h' :=
  fun _ hopen => absurd hclosed (isOpen_iff.1 hopen).2.2

theorem WinInv.of_kept (hinv : WinInv maxwin h) (hkept : Kept h.conn o.conn)
    (hooo : ∀ x ∈ o.conn.rxqOoo, Sized x) (halive : h.alive) (hrun : o.phase = .running)
    (hwin : o.winmax = h.opening.winmax) (hscale : o.rcvWscale = h.opening.rcvWscale) :
    WinInv maxwin { h with opening := o } := by
  refine ⟨hkept.rxExclusive.trans hinv.excl, fun r hr => ?_, hooo, fun _ => ?_,
    fun hne => absurd hrun hne, ?_, ?_⟩
  · obtain ⟨m, rest, hq, hle⟩ := hinv.part r hr
    obtain ⟨ms, hms⟩ := hkept.rxq
    exact ⟨m, rest ++ ms, by rw [Host.conn, hms, hq]; rfl, hle⟩
  · show o.conn.rcvWnd.toNat + (bytes o.conn.rxq).length = o.winmax + _
    rw [hkept.law, hwin]
    exact hinv.law halive
  · show o.winmax ≤ maxwin
    rw [hwin]
    exact hinv.winmax
  · show o.winmax / 2 ^ o.rcvWscale < 2 ^ 16
    rw [hwin, hscale]
    exact hinv.scale

theorem WinInv.rxRunning (hmax : maxwin < 2 ^ 30) (hinv : WinInv maxwin h)
    (ho : { h.opening with inflight := o.inflight } = o) {p : OpenPacket} {o' : Opening}
    (hfin : p.seg.flags.fin = false) (hrx : rxRunning o p = some o') :
    WinInv maxwin { h with opening := o' } ∧ Advances h { h with opening := o' } := by
  have hconn : o.conn = h.conn := by
    rw [← ho]
    rfl
  obtain ⟨r, hr, rfl⟩ := map_eq_some_iff.1 hrx
  have hphase : o.phase = h.opening.phase := by rw [← ho]
  have hwin : o.winmax = h.opening.winmax := by rw [← ho]
  have hscale : o.rcvWscale = h.opening.rcvWscale := by rw [← ho]
  rw [hconn] at hr
  by_cases hclosed : h.conn.state = .closed
  · -- a segment changes nothing in CLOSED
    have hsame := closed_rx hclosed hr
    refine ⟨hinv.of_same ?_ ?_ ?_ hwin hscale, .of_closed ?_⟩
    · show SameRx h.conn r.conn
      rw [hsame]
      exact .refl
    · intro halive hrun
      rw [← hsame]
      exact halive (hphase.trans hrun)
    · intro hne
      exact ⟨fun hrun => hne (hphase.trans hrun), congrArg Conn.state hsame⟩
    · exact (congrArg Conn.state hsame).trans hclosed
  · have hrun : h.opening.phase = .running := by
      by_contra hne
      exact hclosed (hinv.early hne).1
    have halive : h.alive := fun _ => hclosed
    have hwnd : h.conn.rcvWnd.toNat < 2 ^ 31 := by
      have hle := hinv.rcvWnd_le halive
      have hle' := hinv.winmax
      omega
    rcases tcpRxConn_kept hfin hwnd hinv.sized hr with ⟨hkept, hooo⟩ | hfail
    · exact ⟨hinv.of_kept hkept hooo halive (hphase.trans hrun) hwin hscale, .of_edge hkept.edge⟩
    · refine ⟨hinv.of_fail econnreset hfail (fun hne => absurd (hphase.trans hrun) hne) hwin hscale,
        .of_closed ?_⟩
      show r.conn.state = .closed
      rw [hfail]
      rfl

theorem WinInv.process (hmax : maxwin < 2 ^ 30) (hinv : WinInv maxwin h) {i : Nat} {allocOk sent : Bool}
    (hfin : ∀ p ∈ h.opening.inflight[i]?, p.seg.flags.fin = false)
    (hst : openStep h.opening (.process i allocOk sent) = some o) :
    WinInv maxwin { h with opening := o } ∧ Advances h { h with opening := o } := by
  simp only [Tcp.openStep] at hst
  split at hst
  · cases hst
  rename_i p hp
  split at hst
  · rename_i hphase
    cases hst
    refine ⟨hinv.rxSynSent hphase rfl p allocOk sent, .of_early ?_⟩
    rw [hphase]
    exact nofun
  · exact hinv.rxRunning hmax rfl (hfin p hp) hst

theorem WinInv.openStep (hmax : maxwin < 2 ^ 30) (hinv : WinInv maxwin h) {e : OpenEvent}
    (hok : NoFin h (.opening e)) (hst : openStep h.opening e = some o) :
    WinInv maxwin { h with opening := o } ∧ Advances h { h with opening := o } := by
  cases e with
  | openConn allocOk sent =>
    simp only [Tcp.openStep] at hst
    split at hst
    · rename_i dial hphase
      cases hst
      refine ⟨hinv.openConnection hphase, .of_early ?_⟩
      rw [hphase]
      exact nofun
    · cases hst
  | arrive seg opts =>
    cases hst
    exact ⟨hinv.of_same .refl id (fun hne => ⟨hne, rfl⟩) rfl rfl, .of_edge rfl⟩
  | process i allocOk sent => exact hinv.process hmax hok hst
  | fail err =>
    cases hst
    refine ⟨hinv.of_fail err rfl (fun hne hrun => hne ?_) rfl rfl, .of_closed rfl⟩
    show (if h.opening.phase = .synSent then Phase.running else h.opening.phase) = .running
    rw [hrun]
    rfl
  | transmit state sndNxt txq exclusive =>
    obtain ⟨⟨hopen, -⟩, hst⟩ := ite_none_right_eq_some.1 hst
    cases hst
    obtain ⟨hrun, -, hstate⟩ := isOpen_iff.1 hopen
    exact ⟨hinv.of_same { SameRx.refl with } (fun _ _ => hstate) (fun hne => absurd hrun hne) rfl rfl,
      .of_edge rfl⟩

theorem popSpec_readlen {len : Nat} {q : List Mbuf} {out : PopOut} (hspec : PopSpec len q 0 out) :
    out.readlen = (bytes out.taken).length + (if out.inside then len - (bytes out.taken).length else 0) ∧
      out.readlen ≤ (bytes q).length ∧
      (out.inside = true → ∃ m rest, out.rxq = m :: rest ∧
        len - (bytes out.taken).length ≤ m.data.length) := by
  have hlen : (bytes q).length = (bytes out.taken).length + (bytes out.rxq).length := by
    rw [hspec.split, bytes_append, length_append]
  cases hin : out.inside with
  | false =>
    obtain ⟨hread, -⟩ := hspec.whole hin
    exact ⟨by simpa using hread, by omega, nofun⟩
  | true =>
    obtain ⟨hread, m, rest, hq, hlt, hgt, -⟩ := hspec.part hin
    have htop : (bytes out.rxq).length = m.data.length + (bytes rest).length := by
      rw [hq, bytes_cons, length_append]
    refine ⟨?_, by omega, fun _ => ⟨m, rest, hq, by omega⟩⟩
    rw [if_pos rfl]
    omega

theorem WinInv.popped (hmax : maxwin < 2 ^ 30) (hinv : WinInv maxwin h) {len : Nat} {out : PopOut}
    (hspec : PopSpec len h.conn.rxq 0 out) (hpend : h.pending = none) (hne : h.conn.rxq ≠ [])
    {pending : Option Pending} (hsome : pending.isSome = out.inside)
    (hrest : ∀ r, pending = some r → r.rest = len - (bytes out.taken).length) :
    WinInv maxwin ⟨{ h.opening with conn := Tcp.popped h.conn out }, pending⟩ ∧
      Advances h ⟨{ h.opening with conn := Tcp.popped h.conn out }, pending⟩ := by
  obtain ⟨hread, hle, hpart⟩ := popSpec_readlen hspec
  have hrun : h.opening.phase = .running := by
    by_contra hphase
    exact hne (hinv.early hphase).2.1
  have hlen : (bytes h.conn.rxq).length = (bytes out.taken).length + (bytes out.rxq).length := by
    rw [hspec.split, bytes_append, length_append]
  have helim : pending.elim 0 Pending.rest =
      if out.inside then len - (bytes out.taken).length else 0 := by
    cases pending with
    | none =>
      rw [← hsome]
      rfl
    | some r =>
      rw [← hsome]
      exact hrest r rfl
  have hbound : h.alive → h.conn.rcvWnd.toNat + (bytes h.conn.rxq).length < 2 ^ 30 := by
    intro halive
    have hlaw := hinv.law halive
    have hwin := hinv.winmax
    rw [hpend, elim_none] at hlaw
    omega
  refine ⟨⟨hsome.symm, fun r hr => ?_, hinv.sized, fun halive => ?_, fun hphase => absurd hrun hphase,
    hinv.winmax, hinv.scale⟩, fun hopen _ => ?_⟩
  · have hin : out.inside = true := by
      rw [← hsome, show pending = some r from hr]
      rfl
    obtain ⟨m, rest, hq, hfit⟩ := hpart hin
    exact ⟨m, rest, hq, by rw [hrest r hr]; exact hfit⟩
  · have hlive : h.alive := fun hphase => halive hphase
    have hlaw := hinv.law hlive
    have hsmall := hbound hlive
    rw [hpend, elim_none] at hlaw
    show (h.conn.rcvWnd + BitVec.ofNat 32 out.readlen).toNat + (bytes out.rxq).length =
      h.opening.winmax + pending.elim 0 Pending.rest
    rw [BitVec.toNat_add, BitVec.toNat_ofNat, helim]
    omega
  · have hsmall := hbound fun _ => (isOpen_iff.1 hopen).2.2
    show wrapsLte (h.conn.rcvNxt + h.conn.rcvWnd)
      (h.conn.rcvNxt + (h.conn.rcvWnd + BitVec.ofNat 32 out.readlen))
    rw [← BitVec.add_assoc]
    exact wrapsLte_add _ (by omega)

theorem WinInv.read (hmax : maxwin < 2 ^ 30) (hinv : WinInv maxwin h) {len : Nat}
    {iov : Option (List Nat)} (hst : hostStep h (.read len iov) = some h') :
    WinInv maxwin h' ∧ Advances h h' := by
  obtain ⟨s', hs', rfl⟩ := map_eq_some_iff.1 hst
  rcases read_cases hs' with ⟨-, rfl⟩ | ⟨-, hfree, hne, out, hspec, -, -, hcase⟩
  · exact ⟨hinv, .of_edge rfl⟩
  have hpend : h.pending = none := by
    have hsome := hinv.excl
    rw [show h.conn.rxExclusive = false from hfree] at hsome
    exact isNone_iff_eq_none.1 (by simpa using hsome.symm)
  rcases hcase with ⟨hin, rfl⟩ | ⟨hin, rfl⟩
  · refine hinv.popped hmax hspec hpend hne ?_ ?_
    · rw [show h.pending = none from hpend, hin]
      rfl
    · intro r hr
      cases hpend.symm.trans hr
  · refine hinv.popped hmax hspec hpend hne ?_ ?_
    · rw [hin]
      rfl
    · intro r hr
      cases hr
      rfl

theorem WinInv.copy (hinv : WinInv maxwin h) {k : Nat} (hst : hostStep h (.copy k) = some h') :
    WinInv maxwin h' ∧ Advances h h' := by
  simp only [hostStep] at hst
  split at hst
  case h_2 => cases hst
  rename_i p m rest hpend hq
  obtain ⟨hk, hst⟩ := ite_none_right_eq_some.1 hst
  obtain ⟨m', hpull, rfl⟩ := map_eq_some_iff.1 hst
  obtain ⟨hfit, hm'⟩ := ite_none_left_eq_some.1 hpull
  cases hm'
  obtain ⟨m₁, rest₁, hq₁, hle⟩ := hinv.part p hpend
  obtain ⟨rfl, rfl⟩ := List.cons.inj (hq.symm.trans hq₁)
  refine ⟨⟨?_, fun r hr => ?_, hinv.sized, fun halive => ?_, fun hphase => ?_, hinv.winmax, hinv.scale⟩,
    .of_edge rfl⟩
  · show h.conn.rxExclusive = true
    rw [hinv.excl, hpend]
    rfl
  · cases hr
    refine ⟨_, rest, rfl, ?_⟩
    show p.rest - k ≤ (m.data.drop k).length
    rw [length_drop]
    omega
  · have hlaw := hinv.law halive
    rw [hpend, elim_some, hq, bytes_cons, length_append] at hlaw
    show h.conn.rcvWnd.toNat + (m.data.drop k ++ bytes rest).length = h.opening.winmax + (p.rest - k)
    rw [length_append, length_drop]
    omega
  · have hnil := (hinv.early hphase).2.1
    rw [hq] at hnil
    cases hnil

theorem WinInv.readFinish (hinv : WinInv maxwin h) (hst : hostStep h .readFinish = some h') :
    WinInv maxwin h' ∧ Advances h h' := by
  simp only [hostStep] at hst
  split at hst
  case h_2 => cases hst
  rename_i p hpend
  obtain ⟨hzero, hst⟩ := ite_none_right_eq_some.1 hst
  cases hst
  refine ⟨⟨rfl, nofun, hinv.sized, fun halive => ?_, fun hphase => hinv.early hphase, hinv.winmax,
    hinv.scale⟩, .of_edge rfl⟩
  have hlaw := hinv.law halive
  rw [hpend, elim_some, hzero] at hlaw
  exact hlaw

theorem WinInv.step (hmax : maxwin < 2 ^ 30) (hinv : WinInv maxwin h) {e : HostEvent} (hok : NoFin h e)
    (hst : hostStep h e = some h') : WinInv maxwin h' ∧ Advances h h' := by
  cases e with
  | opening e =>
    obtain ⟨o, ho, rfl⟩ := map_eq_some_iff.1 hst
    exact hinv.openStep hmax hok ho
  | read len iov => exact hinv.read hmax hst
  | copy k => exact hinv.copy hst
  | readFinish => exact hinv.readFinish hst

end Runs

def Starts (maxwin : Nat) (h : Host) : Prop :=
  ∃ iss rcvMss, h = ⟨connAlloc maxwin iss rcvMss true, none⟩ ∨
    ∃ seq opts, h = ⟨listenAlloc maxwin iss rcvMss seq opts, none⟩

theorem fresh_connAlloc {maxwin : Nat} (hmax : maxwin < 2 ^ 30) (iss : Seq) (rcvMss : Nat) (dial : Bool) :
    Fresh maxwin (connAlloc maxwin iss rcvMss dial) := by
  refine ⟨rfl, rfl, ?_, Nat.le_refl _, tcpScaleWindow_spec hmax⟩
  show (BitVec.ofNat 32 maxwin).toNat = maxwin
  rw [BitVec.toNat_ofNat]
  omega

theorem Fresh.winInv {maxwin : Nat} {o : Opening} (hfresh : Fresh maxwin o)
    (hexcl : o.conn.rxExclusive = false) (hclosed : o.conn.state = .closed) :
    WinInv maxwin ⟨o, none⟩ := by
  refine ⟨hexcl, nofun, ?_, fun _ => ?_, fun _ => ⟨hclosed, hfresh.rxq, hfresh.rxqOoo⟩, hfresh.winmax,
    hfresh.scale⟩
  · show ∀ x ∈ o.conn.rxqOoo, _
    rw [hfresh.rxqOoo]
    exact fun x hx => absurd hx not_mem_nil
  · show o.conn.rcvWnd.toNat + (bytes o.conn.rxq).length = o.winmax + 0
    rw [hfresh.rxq, hfresh.rcvWnd]
    rfl

theorem winInv_of_starts {maxwin : Nat} (hmax : maxwin < 2 ^ 30) {h : Host} (hstart : Starts maxwin h) :
    WinInv maxwin h := by
  obtain ⟨iss, rcvMss, rfl | ⟨seq, opts, rfl⟩⟩ := hstart
  · exact (fresh_connAlloc hmax iss rcvMss true).winInv rfl rfl
  · have hfresh : Fresh maxwin (listenAlloc maxwin iss rcvMss seq opts) :=
      Fresh.applyOptions (o := { connAlloc maxwin iss rcvMss false with
          irs := seq, conn := { (connAlloc maxwin iss rcvMss false).conn with rcvNxt := seq + 1 } })
        { fresh_connAlloc hmax iss rcvMss false with } opts
    exact hfresh.winInv rfl rfl

structure Announces (h : Host) (c : Retransmit.TxConn) : Prop where
  rcvNxt : c.rcvNxt = h.conn.rcvNxt
  rcvWnd : c.rcvWnd = h.conn.rcvWnd
  rcvWscale : c.rcvWscale = h.opening.rcvWscale

def FieldExact (h : Host) : Prop :=
  ∀ directpath c m flags off l4len c' m', Announces h c →
    Retransmit.tcpPushTcphdr directpath c m flags off l4len = some (c', m') →
    m'.hdr.win.toNat = h.conn.rcvWnd.toNat >>> h.opening.rcvWscale

theorem WinInv.fieldExact {maxwin : Nat} {h : Host} (hinv : WinInv maxwin h) (halive : h.alive) :
    FieldExact h := by
  intro directpath c m flags off l4len c' m' hann hpush
  obtain ⟨-, hpush⟩ := ite_none_left_eq_some.1 hpush
  cases hpush
  show ((c.rcvWnd >>> c.rcvWscale).setWidth 16).toNat = _
  rw [hann.rcvWnd, hann.rcvWscale, BitVec.toNat_setWidth, BitVec.toNat_ushiftRight]
  refine Nat.mod_eq_of_lt ?_
  rw [Nat.shiftRight_eq_div_pow]
  exact Nat.lt_of_le_of_lt (Nat.div_le_div_right (hinv.rcvWnd_le halive)) hinv.scale

/-- In every state reached without a FIN the window and the bytes queued and not released make up
`winmax`, no step moves the right edge back, and every header carries the window in full. -/
theorem receive_window_law {maxwin : Nat} (hmax : maxwin < 2 ^ 30) {h₀ h : Host}
    (hstart : Starts maxwin h₀) (hrun : Reaches hostStep NoFin h₀ h) :
    (h.opening.isOpen = true → h.conn.rcvWnd.toNat + h.unreleased = h.opening.winmax) ∧
      (∀ e h', NoFin h e → hostStep h e = some h' → Advances h h') ∧
      (h.alive → FieldExact h) := by
  have hinv : WinInv maxwin h :=
    hrun.invariant (P := WinInv maxwin) (winInv_of_starts hmax hstart)
      fun u e v hu hok hst => (hu.step hmax hok hst).1
  refine ⟨fun hopen => ?_, fun e h' hok hst => (hinv.step hmax hok hst).2, hinv.fieldExact⟩
  have hlaw := hinv.law fun _ => (isOpen_iff.1 hopen).2.2
  have hle := hinv.pending_le
  unfold Host.unreleased
  omega

/-- A segment of the peer of `listening`. -/
def peerSegment (data : List UInt8) (hlt : data.length < 2 ^ 16) : Segment where
  seq := 101
  ack := 8
  win := 1000
  flags := { }
  data := data
  length_lt := hlt

/-- A listener is opened by a peer without options and gets three bytes, of which two are read. -/
def threeBytes : List HostEvent :=
  [.opening (.openConn true true), .opening (.arrive (peerSegment [] length_nil_lt) { }),
    .opening (.process 0 true true),
    .opening (.arrive (peerSegment [1, 2, 3] (by decide)) { }),
    .opening (.process 0 true true),
    .read 2 none]

def listening : Host := ⟨listenAlloc tcpWin 7 1460 100 { }, none⟩

def noFinGuard (h : Host) : HostEvent → Bool
  | .opening (.process i _ _) => h.opening.inflight[i]?.all fun p => ! p.seg.flags.fin
  | _ => true

theorem noFin_of_guard {h : Host} {e : HostEvent} (hg : noFinGuard h e = true) : NoFin h e := by
  unfold noFinGuard at hg
  split at hg
  · intro p hp
    rw [mem_def.1 hp] at hg
    simpa using hg
  · rename_i hne
    unfold NoFin
    split
    · rename_i i allocOk sent
      exact absurd rfl (hne i allocOk sent)
    · trivial

theorem receive_window_law_threeBytes :
    ∃ h, Starts tcpWin listening ∧ Reaches hostStep NoFin listening h ∧ h.opening.isOpen = true ∧
      h.conn.rcvWnd.toNat = 65534 ∧ h.unreleased = 1 ∧
      h.conn.rcvWnd.toNat + h.unreleased = h.opening.winmax ∧ FieldExact h := by
  have hrun : (runChecked hostStep noFinGuard listening threeBytes).map (fun h =>
      decide (h.opening.isOpen = true ∧ h.conn.rcvWnd.toNat = 65534 ∧ h.unreleased = 1)) =
        some true := by
    decide
  obtain ⟨h, hh, hfacts⟩ := map_eq_some_iff.1 hrun
  obtain ⟨hopen, hwnd, hone⟩ := of_decide_eq_true hfacts
  have hstart : Starts tcpWin listening := ⟨7, 1460, .inr ⟨100, { }, rfl⟩⟩
  have hreach : Reaches hostStep NoFin listening h :=
    reaches_of_runChecked (fun _ _ _ hg => noFin_of_guard hg) hh
  obtain ⟨hlaw, -, hfield⟩ := receive_window_law (by decide) hstart hreach
  exact ⟨h, hstart, hreach, hopen, hwnd, hone, hlaw hopen, hfield fun _ => (isOpen_iff.1 hopen).2.2⟩

/-- A listener with a window of `2 ^ 30`, whose peer can scale. -/
def wideListening : Host := ⟨listenAlloc (2 ^ 30) 7 1460 100 { wscale := some 7 }, none⟩

/-- A window of `2 ^ 30` needs a shift of 15; with 14 the headers of the open connection announce a
window of 0. -/
theorem window_field_truncated :
    ∃ h, Starts (2 ^ 30) wideListening ∧ Reaches hostStep NoFin wideListening h ∧
      h.opening.isOpen = true ∧ h.conn.rcvWnd.toNat >>> h.opening.rcvWscale = 2 ^ 16 ∧
      ¬ FieldExact h := by
  have hrun : (runChecked hostStep noFinGuard wideListening (threeBytes.take 3)).map (fun h =>
      decide (h.opening.isOpen = true ∧ h.conn.rcvWnd = BitVec.ofNat 32 (2 ^ 30) ∧
        h.opening.rcvWscale = 14)) = some true := by
    decide
  obtain ⟨h, hh, hfacts⟩ := map_eq_some_iff.1 hrun
  obtain ⟨hopen, hwnd, hscale⟩ := of_decide_eq_true hfacts
  refine ⟨h, ⟨7, 1460, .inr ⟨100, { wscale := some 7 }, rfl⟩⟩,
    reaches_of_runChecked (fun _ _ _ hg => noFin_of_guard hg) hh, hopen, ?_, fun hfield => ?_⟩
  · rw [hwnd, hscale]
    decide
  · have hwin := hfield false
      { Retransmit.onePeer with rcvNxt := h.conn.rcvNxt, rcvWnd := h.conn.rcvWnd,
                                rcvWscale := h.opening.rcvWscale }
      { Retransmit.fourBytes with data := 20 } { } 5 0 _ _ ⟨rfl, rfl, rfl⟩ rfl
    change ((h.conn.rcvWnd >>> h.opening.rcvWscale).setWidth 16).toNat = _ at hwin
    rw [hwnd, hscale] at hwin
    exact absurd hwin (by decide)

end Svalinn.Tcp.Window
