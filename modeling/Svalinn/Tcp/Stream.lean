/-
  Tcp/Stream.lean --- reassembly over whole runs.

  Segments cut from one stream arrive in any order, with duplicates and overlaps,
  between reads that open the window.  `RxInv` places the connection in the
  stream; a step keeps it unless the segment makes the receive path append a FIN
  that ends beyond the window (`finBeyondWindow`), and then the property is lost:
  a byte is missing before the FIN, or the program stops.

  A segment is taken to lie less than half the sequence space from `rcv_nxt`;
  beyond that, no comparison of 32-bit numbers can tell it from a new one.
-/
import Svalinn.Tcp.Reassembly

set_option autoImplicit false

namespace Svalinn.Tcp

open Svalinn.Lib List Option

/-! ## Segments -/

/-- The segment carries positions `a` to `e` of the stream, the FIN with the
position behind the last byte.  It may be empty. -/
structure SegCut (stream : List UInt8) (base : Seq) (s : Segment) (a e : Nat) : Prop where
  le : a ≤ e
  bound : e ≤ stream.length + 1
  seq : s.seq = serialAt base a
  data : s.data = slice stream a e
  fin : s.flags.fin = true ↔ a < e ∧ e = stream.length + 1
  rst : s.flags.rst = false
  syn : s.flags.syn = false

section Segments

variable {stream : List UInt8} {base : Seq} {c c₁ : Conn} {s : Segment} {a e p : Nat}

theorem SegCut.length_data (h : SegCut stream base s a e) :
    s.data.length = min e stream.length - a := by
  rw [h.data, length_slice]

theorem SegCut.segLen_eq (h : SegCut stream base s a e) : segLen s = BitVec.ofNat 32 (e - a) := by
  have hbound := h.bound
  unfold segLen
  rw [h.length_data]
  by_cases hfin : s.flags.fin = true
  · obtain ⟨hlt, rfl⟩ := h.fin.1 hfin
    have hlen : stream.length + 1 - a = min (stream.length + 1) stream.length - a + 1 := by omega
    rw [if_pos hfin, hlen, BitVec.ofNat_add]
    rfl
  · have hno := mt h.fin.2 hfin
    have hle := h.le
    have hlen : min e stream.length - a = e - a := by omega
    rw [if_neg hfin, hlen]
    exact BitVec.add_zero _

theorem SegCut.isCut (h : SegCut stream base s a e) (hlt : a < e) :
    IsCut stream base { segMbuf s with segEnd := (segMbuf s).segSeq + segLen s } a e where
  lt := hlt
  le := h.bound
  segSeq := h.seq
  segEnd := by
    have hle := h.le
    show s.seq + segLen s = serialAt base e
    rw [h.seq, h.segLen_eq, serialAt_add, Nat.add_sub_cancel' hle]
  data := h.data
  fin := h.fin.trans (and_iff_right hlt)
  short := by
    have hlen := h.length_data
    have hmax := s.length_lt
    have hbound := h.bound
    omega

theorem SegCut.segLen_ne (h : SegCut stream base s a e) (hlt : a < e) : segLen s ≠ 0 := by
  have hshort := (h.isCut hlt).short
  rw [h.segLen_eq]
  intro hzero
  have hnat := congrArg BitVec.toNat hzero
  rw [BitVec.toNat_ofNat, Nat.mod_eq_of_lt (by omega)] at hnat
  simp at hnat
  omega

theorem accepted (h : SegCut stream base s a e) (hlt : a < e) (hp : c.rcvNxt = serialAt base p)
    (hw : c.rcvWnd.toNat ≤ tcpWin) (hold : p + tcpWin < a + 2 ^ 31) (hnew : e < p + 2 ^ 31)
    (hacc : isAcceptable c (segLen s) s.seq = true) : p < e ∧ a ≤ p + tcpWin := by
  have hwin : tcpWin = 131071 := rfl
  have hshort := (h.isCut hlt).short
  have hlen := h.segLen_ne hlt
  have hlast : s.seq + segLen s - 1 = serialAt base (e - 1) := by
    have hone : serialAt base e = serialAt base (e - 1) + 1 := by
      rw [show (1 : Seq) = BitVec.ofNat 32 1 from rfl, serialAt_add, Nat.sub_add_cancel (by omega)]
    have hend : s.seq + segLen s = serialAt base e := (h.isCut hlt).segEnd
    rw [hend, hone, BitVec.add_sub_cancel]
  have hfirst : wrapsLte (serialAt base p) (serialAt base a) ↔ p ≤ a :=
    wrapsLte_serialAt base ⟨by omega, by omega⟩
  have hfirst' : wrapsLt (serialAt base a) (serialAt base (p + c.rcvWnd.toNat)) ↔
      a < p + c.rcvWnd.toNat := wrapsLt_serialAt base ⟨by omega, by omega⟩
  have hsecond : wrapsLte (serialAt base p) (serialAt base (e - 1)) ↔ p ≤ e - 1 :=
    wrapsLte_serialAt base ⟨by omega, by omega⟩
  have hsecond' : wrapsLt (serialAt base (e - 1)) (serialAt base (p + c.rcvWnd.toNat)) ↔
      e - 1 < p + c.rcvWnd.toNat := wrapsLt_serialAt base ⟨by omega, by omega⟩
  unfold isAcceptable at hacc
  rw [if_neg (fun h => hlen h.1), if_neg hlen, hlast, edge_serialAt hp, hp, h.seq] at hacc
  split at hacc
  · cases hacc
  · simp only [Bool.or_eq_true, Bool.and_eq_true, decide_eq_true_eq, hfirst, hfirst', hsecond,
      hsecond'] at hacc
    omega

theorem FinCut.of_same {r : Option Conn} (hsame : SameRx c c₁) (h : FinCut stream base c₁ p r) :
    FinCut stream base c p r := by
  unfold FinCut
  rw [← hsame.rcvWnd, ← hsame.rxq]
  exact h

theorem FinCut.same {r r' : Option Conn} (h : FinCut stream base c p r)
    (hsame : ∀ c'', r' = some c'' → ∃ c', r = some c' ∧ SameRx c' c'') :
    FinCut stream base c p r' := by
  refine ⟨h.1, fun c'' hc'' => ?_⟩
  obtain ⟨c', hc', hrx⟩ := hsame c'' hc''
  rw [hrx.rcvNxt, hrx.rxq]
  exact h.2 c' hc'

/-- What a segment does to a connection at position `p`: it makes exact progress
and leaves the text states only when the whole stream is received, or it brings a
FIN from `beyond` the window, which is cut. -/
def RxSpec (stream : List UInt8) (base : Seq) (c : Conn) (p : Nat) (beyond : Prop)
    (r : Option RxOut) : Prop :=
  (¬ beyond ∧ ∃ o p', r = some o ∧ Progress stream base c o.conn p p' ∧
    OooOk stream base p' o.conn.rxqOoo ∧
    (o.conn.state.takesText = false → c.state.takesText = false ∨ p' = stream.length + 1)) ∨
  (beyond ∧ FinCut stream base c p (r.map RxOut.conn))

/-- The segment is taken, and it or a queued segment that follows it brings a FIN from
beyond the window. -/
def finBeyondWindow (c : Conn) (s : Segment) (sndNxt : Seq) : Prop :=
  reachesText c s sndNxt ∧ takesFinBeyond c (textMbuf s) = true

instance (c : Conn) (s : Segment) (sndNxt : Seq) : Decidable (finBeyondWindow c s sndNxt) :=
  inferInstanceAs (Decidable (_ ∧ _))

theorem takesFinBeyond_same (hsame : SameRx c c₁) (m : Mbuf) :
    takesFinBeyond c₁ m = takesFinBeyond c m := by
  unfold takesFinBeyond
  rw [hsame.rcvNxt, hsame.rcvWnd, hsame.rxqOoo]

theorem processText_spec (hp : c.rcvNxt = serialAt base p) (hbound : p ≤ stream.length + 1)
    (hw : c.rcvWnd.toNat ≤ tcpWin) (hooo : OooOk stream base p c.rxqOoo)
    (hcut : SegCut stream base s a e) (hin : a < e → p < e ∧ a ≤ p + tcpWin) :
    RxSpec stream base c p
      ((segLen s ≠ 0 ∧ c.state.takesText = true) ∧ takesFinBeyond c (textMbuf s) = true)
      (processText c (segMbuf s) (segLen s)) := by
  unfold processText
  split
  · rename_i hlen
    have hlt : a < e := by
      have hle := hcut.le
      by_contra hge
      obtain rfl : a = e := by omega
      refine hlen.1 ?_
      rw [hcut.segLen_eq, Nat.sub_self]
      rfl
    obtain ⟨hpe, ha⟩ := hin hlt
    rcases tcpRxText_spec hp hbound hw hooo (hcut.isCut hlt) hpe ha with
      ⟨hgood, t, p', htext, hadv, hooo', hfin⟩ | ⟨hbad, hlost⟩
    · refine Or.inl ⟨fun h => absurd (hgood.symm.trans h.2) Bool.false_ne_true, ?_⟩
      rw [htext]
      have hdone : ∀ o : RxOut, o.conn = (delayAck t.conn).1 →
          Progress stream base c (rxDone (if t.fin then processFin o else o)).conn p p' ∧
          OooOk stream base p' (rxDone (if t.fin then processFin o else o)).conn.rxqOoo ∧
          ((rxDone (if t.fin then processFin o else o)).conn.state.takesText = false →
            c.state.takesText = false ∨ p' = stream.length + 1) := by
        intro o ho
        have hsame := textDone_same ho
        refine ⟨hadv.toProgress.same hsame, by rw [hsame.rxqOoo]; exact hooo', fun hout => ?_⟩
        by_cases htfin : t.fin = true
        · exact Or.inr (hfin htfin)
        · rw [rxDone_state, if_neg htfin, ho, (delayAck_same (c := t.conn)).2, hadv.state] at hout
          exact Or.inl hout
      exact ⟨_, p', rfl, hdone _ rfl⟩
    · refine Or.inr ⟨⟨hlen, hbad⟩, hlost.same fun c'' hc'' => ?_⟩
      obtain ⟨o, ho, rfl⟩ := map_eq_some_iff.1 hc''
      split at ho
      · cases ho
      · rename_i t htext
        cases ho
        exact ⟨t.conn, by rw [htext]; rfl, textDone_same rfl⟩
  · rename_i hskip
    refine Or.inl ⟨fun h => hskip h.1, _, p, rfl,
      (Progress.refl hbound hp).same (rxDone_same rfl), ?_, fun hout => ?_⟩
    · rw [(rxDone_same rfl : SameRx c (rxDone { conn := c }).conn).rxqOoo]
      exact hooo
    · rw [rxDone_state] at hout
      exact Or.inl hout

theorem tcpRxFast_progress (hp : c.rcvNxt = serialAt base p) (hcut : SegCut stream base s a e)
    (hold : p + tcpWin < a + 2 ^ 31) (hnew : e < p + 2 ^ 31) {sndNxt : Seq} (win : Seq)
    (hfast : slowPath c (segMbuf s) s.ack sndNxt (BitVec.ofNat 32 s.data.length) = false) :
    Progress stream base c
        (tcpRxFast c (segMbuf s) s.ack win (BitVec.ofNat 32 s.data.length)).conn p e ∧
      (tcpRxFast c (segMbuf s) s.ack win (BitVec.ofNat 32 s.data.length)).conn.rxqOoo = [] ∧
      (tcpRxFast c (segMbuf s) s.ack win (BitVec.ofNat 32 s.data.length)).conn.state = c.state ∧
      takesFinBeyond c (textMbuf s) = false := by
  simp only [slowPath, Bool.or_eq_false_iff, decide_eq_false_iff_not, Bool.not_eq_false',
    List.isEmpty_iff, not_not] at hfast
  obtain ⟨⟨⟨⟨⟨⟨⟨⟨⟨hfin, -⟩, -⟩, hlen⟩, -⟩, -⟩, -⟩, hseq⟩, hempty⟩, hroom⟩ := hfast
  replace hfin : s.flags.fin = false := hfin
  replace hseq : s.seq = c.rcvNxt := hseq
  have hshort := s.length_lt
  have hwin : tcpWin = 131071 := rfl
  have hle := hcut.le
  have hbound := hcut.bound
  have hdata := hcut.length_data
  obtain rfl : a = p := by
    rw [hp, hcut.seq] at hseq
    exact (serialAt_inj base ⟨by omega, by omega⟩).1 hseq
  have hlt : a < e := by
    by_contra hge
    refine hlen ?_
    have hzero : s.data.length = 0 := by omega
    rw [hzero]
    rfl
  have he : e ≤ stream.length := by
    have hno : ¬ (a < e ∧ e = stream.length + 1) := mt hcut.fin.2 (by rw [hfin]; exact Bool.false_ne_true)
    omega
  have hlen' : s.data.length = e - a := by omega
  have htoNat : (BitVec.ofNat 32 s.data.length).toNat = e - a := by
    rw [BitVec.toNat_ofNat, Nat.mod_eq_of_lt (by omega), hlen']
  have hfits : BitVec.ofNat 32 s.data.length ≤ c.rcvWnd := BitVec.not_lt.1 hroom
  obtain ⟨hnxt, hwnd, hrxq, hsame, hstate, -⟩ :=
    tcpRxFast_spec (c := c) (m := segMbuf s) s.ack win (BitVec.ofNat 32 s.data.length)
  refine ⟨⟨hle, by omega, ?_, ?_, [segMbuf s], hrxq, ?_, rfl, ?_, by omega⟩, hsame.trans hempty,
    hstate, ?_⟩
  · rw [hnxt]
    show s.seq + BitVec.ofNat 32 s.data.length = serialAt base e
    rw [hcut.seq, serialAt_add, hlen', Nat.add_sub_cancel' hle]
  · rw [hwnd, BitVec.toNat_sub_of_le hfits, htoNat]
    rw [BitVec.le_def, htoNat] at hfits
    omega
  · rw [bytes_cons]
    exact (append_nil _).trans hcut.data
  · rintro ⟨m, hm, hmfin⟩
    rw [mem_singleton.1 hm] at hmfin
    exact absurd (hfin.symm.trans hmfin) Bool.false_ne_true
  · have hfin' : (textMbuf s).flags.fin = false := hfin
    simp only [takesFinBeyond, finBeyond, hfin', hempty, drainMeets, Bool.false_and, Bool.or_false,
      Bool.and_false]

theorem tcpRxConn_spec (hp : c.rcvNxt = serialAt base p) (hbound : p ≤ stream.length + 1)
    (hw : c.rcvWnd.toNat ≤ tcpWin) (hooo : OooOk stream base p c.rxqOoo)
    (hcut : SegCut stream base s a e) (hold : p + tcpWin < a + 2 ^ 31) (hnew : e < p + 2 ^ 31)
    (sndNxt : Seq) :
    RxSpec stream base c p (finBeyondWindow c s sndNxt) (tcpRxConn c s sndNxt) := by
  rcases tcpRxConn_cases c sndNxt hcut.rst hcut.syn with
    ⟨o, ho, hsame, hkept, hskip⟩ | ⟨c₂, hat, ho⟩ | ⟨hfast, ho⟩
  · exact Or.inl ⟨fun h => hskip h.1, o, p, ho, (Progress.refl hbound hp).same hsame,
      by rw [hsame.rxqOoo]; exact hooo, fun hout => Or.inl (hkept hout)⟩
  · have hsame := hat.same
    rw [finBeyondWindow, hat.reaches, ← takesFinBeyond_same hsame, ho]
    rcases processText_spec (hsame.rcvNxt.trans hp) hbound (by rw [hsame.rcvWnd]; exact hw)
        (by rw [hsame.rxqOoo]; exact hooo) hcut
        (fun hlt => accepted hcut hlt hp hw hold hnew hat.acceptable) with
      ⟨hgood, o, p', ho', hprog, hooo', htext⟩ | ⟨hbad, hlost⟩
    · exact Or.inl ⟨hgood, o, p', ho', hprog.of_same hsame, hooo',
        fun hout => (htext hout).imp_left hat.kept⟩
    · exact Or.inr ⟨hbad, hlost.of_same hsame⟩
  · obtain ⟨hprog, hempty, hstate, hquiet⟩ :=
      tcpRxFast_progress hp hcut hold hnew (s.win.setWidth 32 <<< c.sndWscale) hfast
    refine Or.inl ⟨fun h => absurd (hquiet.symm.trans h.2) Bool.false_ne_true, _, e, ho, hprog, ?_,
      fun hout => Or.inl (by rwa [hstate] at hout)⟩
    rw [hempty]
    exact ⟨[], .nil, .nil, nofun⟩

end Segments

/-! ## Runs -/

/-- A segment that arrives is cut from the stream and lies less than half the
sequence space from `rcv_nxt`. -/
def segPremise (stream : List UInt8) (irs : Seq) (s : Sys) : Event → Prop
  | .rx seg _ => ∃ a e, SegCut stream (irs + 1) seg a e ∧
      s.log.length + 1 + tcpWin < a + 2 ^ 31 ∧ e < s.log.length + 2 ^ 31
  | _ => True

/-- A segment that arrives brings no FIN from beyond the window. -/
def finInWindow (stream : List UInt8) (irs : Seq) (s : Sys) : Event → Prop
  | .rx seg sndNxt => segPremise stream irs s (.rx seg sndNxt) ∧
      ¬ finBeyondWindow s.conn seg sndNxt
  | _ => True

/-- The bytes appended are those of the stream up to `rcv_nxt`, and the connection
has reacted to the FIN only if `rcv_nxt` has passed it. -/
def Exact (stream : List UInt8) (irs : Seq) (s : Sys) : Prop :=
  ∃ p ≤ stream.length + 1, s.conn.rcvNxt = serialAt (irs + 1) p ∧ s.log = stream.take p ∧
    (s.conn.state.takesText = false ∨ s.conn.rxClosed = true → p = stream.length + 1)

/-- The connection is at position `p` of the stream. -/
structure RxInv (stream : List UInt8) (base : Seq) (s : Sys) (p : Nat) : Prop where
  read : ReadInv s
  bound : p ≤ stream.length + 1
  rcvNxt : s.conn.rcvNxt = serialAt base p
  log : s.log = stream.take p
  ooo : OooOk stream base p s.conn.rxqOoo
  window : s.conn.rcvWnd.toNat + (bytes s.conn.rxq).length ≤ tcpWin + s.pending.elim 0 Pending.rest
  text : s.conn.state.takesText = false → p = stream.length + 1
  fin : s.finReceived → p = stream.length + 1

section Runs

variable {stream : List UInt8} {irs : Seq} {s s' : Sys} {p : Nat}

theorem RxInv.exact (h : RxInv stream (irs + 1) s p) : Exact stream irs s := by
  refine ⟨p, h.bound, h.rcvNxt, h.log, ?_⟩
  rintro (htext | hclosed)
  · exact h.text htext
  · exact h.fin (h.read.closed hclosed).1

theorem RxInv.length_log (h : RxInv stream (irs + 1) s p) : s.log.length = min p stream.length := by
  rw [h.log, length_take]

theorem RxInv.window_le (h : RxInv stream (irs + 1) s p) : s.conn.rcvWnd.toNat ≤ tcpWin := by
  have hwindow := h.window
  cases hp : s.pending with
  | none =>
    rw [hp, elim_none] at hwindow
    omega
  | some r =>
    obtain ⟨m, rest, hq, hlt, -⟩ := h.read.part r hp
    rw [hp, elim_some, hq, bytes_cons, length_append] at hwindow
    omega

theorem rxInv_init {c : Conn} (hfresh : c.fresh) (hnxt : c.rcvNxt = irs + 1)
    (hwnd : c.rcvWnd.toNat ≤ tcpWin) : RxInv stream (irs + 1) (sysInit c) 0 := by
  have hread := readInv_init hfresh
  obtain ⟨hstate, hrxq, hooo, -⟩ := hfresh
  refine ⟨hread, Nat.zero_le _, ?_, rfl, ?_, ?_, fun htext => ?_, ?_⟩
  · show c.rcvNxt = serialAt (irs + 1) 0
    rw [hnxt, serialAt]
    exact (BitVec.add_zero _).symm
  · show OooOk stream (irs + 1) 0 c.rxqOoo
    rw [hooo]
    refine ⟨[], .nil, .nil, ?_⟩
    rintro x ⟨⟩
  · show c.rcvWnd.toNat + (bytes c.rxq).length ≤ tcpWin + 0
    rw [hrxq]
    exact hwnd
  · replace htext : c.state.takesText = false := htext
    rw [hstate] at htext
    cases htext
  · rintro ⟨m, hm, -⟩
    cases hm

section

variable (h : RxInv stream (irs + 1) s p)

include h

theorem RxInv.progress {seg : Segment} {sndNxt : Seq} {a e p' : Nat}
    (hcut : SegCut stream (irs + 1) seg a e) {o : RxOut} (ho : tcpRxConn s.conn seg sndNxt = some o)
    (hprog : Progress stream (irs + 1) s.conn o.conn p p')
    (hooo : OooOk stream (irs + 1) p' o.conn.rxqOoo)
    (htext : o.conn.state.takesText = false →
      s.conn.state.takesText = false ∨ p' = stream.length + 1) :
    ∃ s', step s (.rx seg sndNxt) = some s' ∧ RxInv stream (irs + 1) s' p' := by
  obtain ⟨ms, hrxq, hbytes, hlast, hfin, hend⟩ := hprog.rxq
  have hstep : step s (.rx seg sndNxt) = some { s with conn := o.conn, appended := s.appended ++ ms } := by
    simp only [step, ho]
    rw [hrxq, drop_left]
  refine ⟨_, hstep, ?_⟩
  have hat : p = stream.length + 1 → p' = stream.length + 1 :=
    fun hp => Nat.le_antisymm hprog.bound (hp ▸ hprog.le)
  -- a FIN is the last thing appended
  have hlast' : finLast (s.appended ++ ms) = true := by
    by_cases hrec : s.finReceived
    · rw [hend (h.fin hrec), append_nil]
      exact h.read.last
    · exact finLast_append_of_not hlast fun m hm hmfin => hrec ⟨m, hm, hmfin⟩
  have hok : rxPremise s (.rx seg sndNxt) := by
    refine ⟨hcut.rst, hcut.syn, ?_⟩
    rw [hstep]
    exact hlast'
  refine ⟨readInv_step h.read hok hstep, hprog.bound, hprog.rcvNxt, ?_, hooo, ?_, fun hout => ?_, ?_⟩
  · show bytes (s.appended ++ ms) = stream.take p'
    rw [bytes_append, hbytes, ← take_append_slice stream hprog.le]
    exact congrArg (· ++ slice stream p p') h.log
  · show o.conn.rcvWnd.toNat + (bytes o.conn.rxq).length ≤ tcpWin + s.pending.elim 0 Pending.rest
    have hwindow := h.window
    have hedge := hprog.edge
    have hle := hprog.le
    rw [hrxq, bytes_append, length_append, hbytes, length_slice]
    omega
  · rcases htext hout with hout | hp'
    · exact hat (h.text hout)
    · exact hp'
  · rintro ⟨m, hm, hmfin⟩
    rcases mem_append.1 hm with hm | hm
    · exact hat (h.fin ⟨m, hm, hmfin⟩)
    · exact hfin ⟨m, hm, hmfin⟩

/-- A segment of the stream keeps the invariant exactly if it brings no FIN from beyond
the window. -/
theorem RxInv.rx_cases {seg : Segment} {sndNxt : Seq}
    (hseg : segPremise stream irs s (.rx seg sndNxt)) :
    (¬ finBeyondWindow s.conn seg sndNxt ∧
      ∃ s' p', step s (.rx seg sndNxt) = some s' ∧ RxInv stream (irs + 1) s' p') ∨
    (finBeyondWindow s.conn seg sndNxt ∧
      ∀ s', step s (.rx seg sndNxt) = some s' → ¬ Exact stream irs s') := by
  obtain ⟨a, e, hcut, hold, hnew⟩ := hseg
  have hlen := h.length_log
  have hbound := h.bound
  rcases tcpRxConn_spec h.rcvNxt h.bound h.window_le h.ooo hcut (by omega) (by omega) sndNxt with
    ⟨hgood, o, p', ho, hprog, hooo, htext⟩ | ⟨hbad, hout, hlost⟩
  · obtain ⟨s', hstep, hinv⟩ := h.progress hcut ho hprog hooo htext
    exact Or.inl ⟨hgood, s', p', hstep, hinv⟩
  · refine Or.inr ⟨hbad, fun s' hstep => ?_⟩
    simp only [step] at hstep
    split at hstep
    · cases hstep
    rename_i o ho
    cases hstep
    obtain ⟨hnxt, ms, hrxq, -, hbytes⟩ := hlost o.conn (by rw [ho]; rfl)
    rw [hrxq, drop_left]
    -- one byte is missing: no position fits both `rcv_nxt` and the bytes
    rintro ⟨q, -, hq, hlog, -⟩
    replace hq : o.conn.rcvNxt = serialAt (irs + 1) q := hq
    replace hlog : bytes (s.appended ++ ms) = stream.take q := hlog
    have hlen' := congrArg List.length hlog
    have hlog' : (bytes s.appended).length = min p stream.length := hlen
    rw [bytes_append, length_append, length_take, hlog'] at hlen'
    have hsame := (serialAt_inj (irs + 1) (p := q) (q := p + s.conn.rcvWnd.toNat)
      ⟨by omega, by omega⟩).1 (hq.symm.trans hnxt)
    omega

theorem RxInv.of_same {c : Conn} (hsame : SameRx s.conn c)
    (hkept : TextKept s.conn c) : RxInv stream (irs + 1) { s with conn := c } p :=
  ⟨h.read.of_same hsame, h.bound, hsame.rcvNxt.trans h.rcvNxt, h.log,
    by rw [hsame.rxqOoo]; exact h.ooo, by rw [hsame.rcvWnd, hsame.rxq]; exact h.window,
    fun hout => h.text (hkept hout), h.fin⟩

theorem RxInv.read_step {len : Nat} {iov : Option (List Nat)}
    (hst : step s (.read len iov) = some s') : RxInv stream (irs + 1) s' p := by
  have hread := readInv_read h.read hst
  have hwindow := window_read h.read.excl h.window hst
  rcases read_cases hst with ⟨-, rfl⟩ | ⟨-, -, -, o, -, -, -, hcase⟩
  · exact h
  rcases hcase with ⟨-, rfl⟩ | ⟨-, rfl⟩
  · exact ⟨hread, h.bound, h.rcvNxt, h.log, h.ooo, hwindow, h.text, h.fin⟩
  · exact ⟨hread, h.bound, h.rcvNxt, h.log, h.ooo, hwindow, h.text, h.fin⟩

theorem RxInv.finish_step (hst : step s .readFinish = some s') :
    RxInv stream (irs + 1) s' p := by
  have hread := readInv_finish h.read hst
  have hwindow := window_finish h.window hst
  simp only [step] at hst
  split at hst
  case h_2 => cases hst
  split at hst
  · cases hst
  · cases hst
    exact ⟨hread, h.bound, h.rcvNxt, h.log, h.ooo, hwindow, h.text, h.fin⟩

end

theorem shutdownTx_kept (st : TcpState) (h : (shutdownTxState st).takesText = false) :
    st.takesText = false := by
  cases st <;> first | rfl | cases h

theorem rxInv_step {e : Event} (h : RxInv stream (irs + 1) s p) (hok : finInWindow stream irs s e)
    (hst : step s e = some s') : ∃ p', RxInv stream (irs + 1) s' p' := by
  cases e with
  | rx seg sndNxt =>
    rcases h.rx_cases hok.1 with ⟨-, s₁, p', hst₁, hinv⟩ | ⟨hbad, -⟩
    · obtain rfl := some.inj (hst₁.symm.trans hst)
      exact ⟨p', hinv⟩
    · exact absurd hbad hok.2
  | read len iov => exact ⟨p, h.read_step hst⟩
  | readFinish => exact ⟨p, h.finish_step hst⟩
  | transmit sndNxt txq exclusive =>
    cases hst
    exact ⟨p, h.of_same { SameRx.refl with } id⟩
  | shutdownTx txq =>
    simp only [step] at hst
    split at hst
    · cases hst
    · cases hst
      exact ⟨p, h.of_same { SameRx.refl with } (shutdownTx_kept s.conn.state)⟩

/-- In every run in which no segment brings a FIN from beyond the window reassembly is exact;
a further segment keeps it exact if and only if it brings no such FIN. -/
theorem reassembly_exact_iff {c : Conn} (hfresh : c.fresh) (hnxt : c.rcvNxt = irs + 1)
    (hwnd : c.rcvWnd.toNat ≤ tcpWin) (hreach : Reaches step (finInWindow stream irs) (sysInit c) s) :
    Exact stream irs s ∧ ∀ seg sndNxt, segPremise stream irs s (.rx seg sndNxt) →
      ((∃ s', step s (.rx seg sndNxt) = some s' ∧ Exact stream irs s') ↔
        ¬ finBeyondWindow s.conn seg sndNxt) := by
  obtain ⟨p, h⟩ : ∃ p, RxInv stream (irs + 1) s p :=
    hreach.invariant (P := fun s => ∃ p, RxInv stream (irs + 1) s p)
      ⟨0, rxInv_init hfresh hnxt hwnd⟩ fun _ _ _ hinv hok hst => rxInv_step hinv.choose_spec hok hst
  refine ⟨h.exact, fun seg sndNxt hseg => ?_⟩
  rcases h.rx_cases hseg with ⟨hgood, s', p', hst, hinv⟩ | ⟨hbad, hlost⟩
  · exact ⟨fun _ => hgood, fun _ => ⟨s', hst, hinv.exact⟩⟩
  · refine ⟨?_, fun hgood => absurd hbad hgood⟩
    rintro ⟨s', hst, hexact⟩
    exact absurd hexact (hlost s' hst)

/-- What reads return is a first part of the stream, and a read that returns 0 without coming short
comes after all of it. -/
theorem reads_follow_stream {c : Conn} (hfresh : c.fresh) (hnxt : c.rcvNxt = irs + 1)
    (hwnd : c.rcvWnd.toNat ≤ tcpWin) (hreach : Reaches step (finInWindow stream irs) (sysInit c) s) :
    s.returned <+: stream ∧ ∀ len iov s', step s (.read len iov) = some s' →
      readReturns s len iov = 0 → ¬ readsShort s → s.returned = stream := by
  obtain ⟨p, h⟩ : ∃ p, RxInv stream (irs + 1) s p :=
    hreach.invariant (P := fun s => ∃ p, RxInv stream (irs + 1) s p)
      ⟨0, rxInv_init hfresh hnxt hwnd⟩ fun _ _ _ hinv hok hst => rxInv_step hinv.choose_spec hok hst
  have hacct := h.read.acct
  rw [h.log, append_assoc] at hacct
  refine ⟨IsPrefix.trans ⟨_, hacct.symm⟩ ?_, fun len iov s' hst hzero hlong => ?_⟩
  · exact take_prefix p stream
  · obtain ⟨hall, hfin⟩ := (h.read.zero_iff hst hzero).2 hlong
    rw [hall, h.log, h.fin hfin, take_of_length_le (Nat.le_succ _)]

end Runs

/-- Positions 1 to 4 of a stream of three bytes, whose numbers wrap, and an
overlapping segment that closes the gap. -/
def overlapping : Segment × Segment :=
  ({ seq := 0, flags := { fin := true }, data := [2, 3], length_lt := by decide },
    { seq := 0xFFFFFFFF, flags := {}, data := [1, 2], length_lt := by decide })

/-- The later segment comes first, then the earlier one: the stream is received
exactly, and so is every further segment. -/
theorem reassembly_exact_overlapping :
    ∃ s, Reaches step (finInWindow [1, 2, 3] 0xFFFFFFFE) (sysInit (openConn 0xFFFFFFFF tcpWin)) s ∧
      s.log = [1, 2, 3] ∧ Exact [1, 2, 3] 0xFFFFFFFE s := by
  have hrun₁ : (step (sysInit (openConn 0xFFFFFFFF tcpWin)) (.rx overlapping.1 0)).map
      (fun s => (s.log, decide (finBeyondWindow s.conn overlapping.2 0))) = some ([], false) := by
    decide
  obtain ⟨s₁, hstep₁, hview₁⟩ := map_eq_some_iff.1 hrun₁
  obtain ⟨hlog₁, hclear₁⟩ := Prod.mk.inj hview₁
  have hrun₂ : (runActions step (sysInit (openConn 0xFFFFFFFF tcpWin))
      [.rx overlapping.1 0, .rx overlapping.2 0]).map Sys.log = some [1, 2, 3] := by decide
  obtain ⟨s₂, hrun, hlog₂⟩ := map_eq_some_iff.1 hrun₂
  have hstep₂ : step s₁ (.rx overlapping.2 0) = some s₂ := by
    rw [runActions_cons _ hstep₁] at hrun
    cases hst : step s₁ (.rx overlapping.2 0) with
    | none =>
      simp only [runActions, hst] at hrun
      cases hrun
    | some s' =>
      rw [runActions_cons _ hst] at hrun
      exact hrun
  have hcut₁ : SegCut [1, 2, 3] (0xFFFFFFFE + 1) overlapping.1 1 4 :=
    ⟨by decide, by decide, by decide, by decide, by decide, rfl, rfl⟩
  have hcut₂ : SegCut [1, 2, 3] (0xFFFFFFFE + 1) overlapping.2 0 2 :=
    ⟨by decide, by decide, by decide, by decide, by decide, rfl, rfl⟩
  have hguard₁ : finInWindow [1, 2, 3] 0xFFFFFFFE (sysInit (openConn 0xFFFFFFFF tcpWin))
      (.rx overlapping.1 0) :=
    ⟨⟨1, 4, hcut₁, by decide, by decide⟩, by decide⟩
  have hguard₂ : finInWindow [1, 2, 3] 0xFFFFFFFE s₁ (.rx overlapping.2 0) := by
    refine ⟨⟨0, 2, hcut₂, ?_, ?_⟩, of_decide_eq_false hclear₁⟩
    · rw [hlog₁]
      decide
    · rw [hlog₁]
      decide
  have hreach := (Reaches.single hguard₁ hstep₁).tail hguard₂ hstep₂
  exact ⟨s₂, hreach, hlog₂, (reassembly_exact_iff (by decide) (by decide) (by decide) hreach).1⟩

theorem reads_follow_stream_two_bytes :
    ∃ s, Reaches step (finInWindow [7, 8] 0) (sysInit (openConn 1 tcpWin)) s ∧
      readReturns s 1 none = 0 ∧ s.returned = [7, 8] := by
  have hguard : finInWindow [7, 8] 0 (sysInit (openConn 1 tcpWin)) (.rx lastTwo 0) :=
    ⟨⟨0, 3, ⟨by decide, by decide, by decide, by decide, by decide, rfl, rfl⟩, by decide, by decide⟩,
      by decide⟩
  have hreach : Reaches step (finInWindow [7, 8] 0) (sysInit (openConn 1 tcpWin)) _ :=
    .tail (a := .read 3 none) (.single hguard rfl) trivial rfl
  exact ⟨_, hreach, rfl, (reads_follow_stream (by decide) (by decide) (by decide) hreach).2 1 none _
    rfl rfl (by unfold readsShort; decide)⟩

/-! ## A FIN at the edge of the window -/

def zeros : List UInt8 := List.replicate tcpWin 0

/-- The next `len` bytes of the stream, in one segment. -/
def zeroSegment (p len : Nat) (fin : Bool) (h : len < 2 ^ 16) : Segment :=
  { seq := serialAt (0 + 1) p, flags := { fin := fin }, data := List.replicate len 0
    length_lt := by rw [length_replicate]; exact h }

theorem slice_zeros (a e : Nat) : slice zeros a e = List.replicate (min e tcpWin - a) 0 := by
  rw [slice, zeros, take_replicate, drop_replicate]

theorem zeroSegment_cut {p len : Nat} (h : len < 2 ^ 16) (hle : p + len ≤ tcpWin) :
    SegCut zeros (0 + 1) (zeroSegment p len false h) p (p + len) where
  le := Nat.le_add_right _ _
  bound := by rw [zeros, length_replicate]; omega
  seq := rfl
  data := by rw [slice_zeros, Nat.min_eq_left hle, Nat.add_sub_cancel_left]; rfl
  fin := by
    rw [zeros, length_replicate]
    exact ⟨nofun, fun hend => by omega⟩
  rst := rfl
  syn := rfl

theorem zeroSegment_last {p len : Nat} (h : len < 2 ^ 16) (hle : p + len = tcpWin) :
    SegCut zeros (0 + 1) (zeroSegment p len true h) p (zeros.length + 1) where
  le := by rw [zeros, length_replicate]; omega
  bound := Nat.le_refl _
  seq := rfl
  data := by
    rw [slice_zeros, zeros, length_replicate, Nat.min_eq_right (Nat.le_succ _), ← hle,
      Nat.add_sub_cancel_left]
    rfl
  fin := by
    rw [zeros, length_replicate]
    exact ⟨fun _ => ⟨by omega, rfl⟩, fun _ => rfl⟩
  rst := rfl
  syn := rfl

/-- The window is filled up to its last 1131 bytes, and the last segment brings these and the FIN. -/
def filling : List Event :=
  (List.range 89).map (fun k => .rx (zeroSegment (1460 * k) 1460 false (by decide)) 0) ++
    [.rx (zeroSegment (1460 * 89) 1131 true (by decide)) 0]

theorem length_log (s : Sys) : s.log.length = (s.appended.map fun m => m.data.length).sum :=
  length_flatMap

theorem filling_premise {u : Sys} (hlog : u.log.length < 2 ^ 30) {e : Event} (he : e ∈ filling) :
    segPremise zeros 0 u e := by
  have hwin : tcpWin = 131071 := rfl
  rcases mem_append.1 he with he | he
  · obtain ⟨k, hk, rfl⟩ := mem_map.1 he
    have hk' := mem_range.1 hk
    exact ⟨_, _, zeroSegment_cut _ (by omega), by omega, by omega⟩
  · rw [mem_singleton.1 he]
    have hlen : zeros.length = tcpWin := length_replicate
    exact ⟨_, _, zeroSegment_last _ (by decide), by omega, by omega⟩

/-- The last byte is trimmed, `rcv_nxt` ends at the FIN, and the connection is in CLOSE_WAIT. -/
theorem fin_cut_loses_byte :
    ∃ s, Reaches step (segPremise zeros 0) (sysInit (openConn 1 tcpWin)) s ∧ ¬ Exact zeros 0 s ∧
      s.conn.rcvNxt = serialAt (0 + 1) zeros.length ∧ s.log.length + 1 = zeros.length ∧
      s.conn.state = .closeWait := by
  have hrun : (runChecked step
      (fun u _ => decide ((u.appended.map fun m => m.data.length).sum < 2 ^ 30))
      (sysInit (openConn 1 tcpWin)) filling).map (fun s => (s.conn.rcvNxt,
        (s.appended.map fun m => m.data.length).sum, s.conn.state)) =
      some (serialAt (0 + 1) tcpWin, 131070, .closeWait) := by
    decide +kernel
  obtain ⟨s, hrun, hview⟩ := map_eq_some_iff.1 hrun
  obtain ⟨hnxt, hview⟩ := Prod.mk.inj hview
  obtain ⟨hlog, hstate⟩ := Prod.mk.inj hview
  rw [← length_log] at hlog
  have hlen : zeros.length = tcpWin := length_replicate
  refine ⟨s, reaches_of_runChecked (fun u e he hsmall => ?_) hrun, ?_, by rw [hlen, hnxt],
    by rw [hlog, hlen]; rfl, hstate⟩
  · exact filling_premise (by rw [length_log]; exact of_decide_eq_true hsmall) he
  · rintro ⟨p, -, -, htake, hfin⟩
    have hp := hfin (.inl (by rw [hstate]; rfl))
    rw [htake, hp, length_take, hlen] at hlog
    exact absurd hlog (by decide)

end Svalinn.Tcp
