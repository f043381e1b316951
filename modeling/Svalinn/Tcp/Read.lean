/-
  Tcp/Read.lean --- what readers get is what was appended to `rxq`.

  A read takes whole buffers off `rxq` and may end inside one, which then stays at
  the top until the reader has copied its part (`rx_exclusive`).  `ReadInv` says
  where every byte that was ever appended is: returned, with the exclusive reader,
  or still queued.

  A FIN closes the receive side as soon as a read meets the buffer that carries
  it, even if the read ends inside this buffer, and a read that only finds empty
  buffers returns 0.  `readsShort` names both.
-/
import Svalinn.Tcp.Conn

set_option autoImplicit false

namespace Svalinn.Tcp

open Svalinn.Lib List Option

abbrev bytes (ms : List Mbuf) : List UInt8 := ms.flatMap Mbuf.data

theorem bytes_cons (m : Mbuf) (ms : List Mbuf) : bytes (m :: ms) = m.data ++ bytes ms := rfl

theorem bytes_append (ms ms' : List Mbuf) : bytes (ms ++ ms') = bytes ms ++ bytes ms' :=
  flatMap_append

/-! ## The receive path only appends -/

/-- What the readers see of a step of the receive path. -/
structure Appends (c c' : Conn) : Prop where
  rxq : ∃ ms, c'.rxq = c.rxq ++ ms
  rxClosed : c'.rxClosed = c.rxClosed
  rxExclusive : c'.rxExclusive = c.rxExclusive
  err : c'.err = c.err
  rcvMss : c'.rcvMss = c.rcvMss

section Appends

variable {c c' c'' : Conn} {m : Mbuf}

theorem Appends.refl : Appends c c := ⟨⟨[], (append_nil _).symm⟩, rfl, rfl, rfl, rfl⟩

theorem Appends.trans (h₁ : Appends c c') (h₂ : Appends c' c'') : Appends c c'' := by
  obtain ⟨ms, hms⟩ := h₁.rxq
  obtain ⟨ms', hms'⟩ := h₂.rxq
  exact ⟨⟨ms ++ ms', by rw [hms', hms, append_assoc]⟩, h₂.rxClosed.trans h₁.rxClosed,
    h₂.rxExclusive.trans h₁.rxExclusive, h₂.err.trans h₁.err, h₂.rcvMss.trans h₁.rcvMss⟩

theorem tcpRxAppendText_appends (h : tcpRxAppendText c m = some c') : Appends c c' := by
  unfold tcpRxAppendText at h
  split at h
  · cases h
  · split at h
    · cases h
    · cases h
      exact ⟨⟨_, rfl⟩, rfl, rfl, rfl, rfl⟩

theorem tcpRxAppendText_ooo (h : tcpRxAppendText c m = some c') : c'.rxqOoo = c.rxqOoo := by
  unfold tcpRxAppendText at h
  split at h
  · cases h
  · split at h
    · cases h
    · cases h
      rfl

theorem drain_appends {q : List Mbuf} {o o' : TextOut} (h : drain q o = some o') :
    Appends o.conn o'.conn := by
  fun_induction drain q o with
  | case1 =>
    cases h
    exact { Appends.refl with }
  | case2 _ _ _ _ ih => exact { ih h with }
  | case3 =>
    cases h
    exact { Appends.refl with }
  | case4 => cases h
  | case5 _ _ _ _ _ _ happend ih => exact { (tcpRxAppendText_appends happend).trans (ih h) with }

/-- `tcp_rx_text` leaves a segment, or appends or queues it and then drains the queue. -/
theorem tcpRxText_cases {t : TextOut} (h : tcpRxText c m = some t) :
    (t.conn = c ∧ t.used = false) ∨
    ∃ o₁ o₂ : TextOut, o₁.used = true ∧ drain o₁.conn.rxqOoo o₁ = some o₂ ∧ t.conn = o₂.conn ∧
      t.used = o₂.used ∧
      ((wrapsLte m.segSeq c.rcvNxt ∧ tcpRxAppendText c m = some o₁.conn) ∨
       (¬ wrapsLte m.segSeq c.rcvNxt ∧ ∃ q, oooInsert c.rxqOoo m = some q ∧
          o₁.conn = { c with rxqOoo := q, rxqOooLen := c.rxqOooLen + 1 })) := by
  revert h
  fun_cases tcpRxText c m
  case case3 _ hle _ c₁ happend =>
    intro h
    obtain ⟨o₂, hdrain, rfl⟩ := map_eq_some_iff.1 h
    exact .inr ⟨⟨c₁, _, _, true⟩, o₂, rfl, hdrain, rfl, rfl, .inl ⟨hle, happend⟩⟩
  case case6 _ hgt _ q hinsert =>
    intro h
    obtain ⟨o₂, hdrain, rfl⟩ := map_eq_some_iff.1 h
    exact .inr ⟨⟨{ c with rxqOoo := q, rxqOooLen := c.rxqOooLen + 1 }, _, _, true⟩, o₂, rfl, hdrain,
      rfl, rfl, .inr ⟨hgt, q, hinsert, rfl⟩⟩
  all_goals rintro ⟨⟩
  all_goals exact .inl ⟨rfl, rfl⟩

theorem tcpRxText_appends {t : TextOut} (h : tcpRxText c m = some t) : Appends c t.conn := by
  rcases tcpRxText_cases h with ⟨hconn, -⟩ | ⟨o₁, o₂, -, hdrain, hconn, -, hstart⟩ <;> rw [hconn]
  · exact .refl
  · have hdrained := drain_appends hdrain
    rcases hstart with ⟨-, happend⟩ | ⟨-, q, -, hqueued⟩
    · exact (tcpRxAppendText_appends happend).trans hdrained
    · rw [hqueued] at hdrained
      exact { hdrained with }

/-- The part of a connection that belongs to the receive path. -/
structure SameRx (c c' : Conn) : Prop where
  rcvNxt : c'.rcvNxt = c.rcvNxt
  rcvWnd : c'.rcvWnd = c.rcvWnd
  rxq : c'.rxq = c.rxq
  rxqOoo : c'.rxqOoo = c.rxqOoo
  rxClosed : c'.rxClosed = c.rxClosed
  rxExclusive : c'.rxExclusive = c.rxExclusive
  err : c'.err = c.err
  rcvMss : c'.rcvMss = c.rcvMss

theorem SameRx.refl : SameRx c c := ⟨rfl, rfl, rfl, rfl, rfl, rfl, rfl, rfl⟩

theorem SameRx.trans (h₁ : SameRx c c') (h₂ : SameRx c' c'') : SameRx c c'' :=
  ⟨h₂.rcvNxt.trans h₁.rcvNxt, h₂.rcvWnd.trans h₁.rcvWnd, h₂.rxq.trans h₁.rxq,
    h₂.rxqOoo.trans h₁.rxqOoo, h₂.rxClosed.trans h₁.rxClosed,
    h₂.rxExclusive.trans h₁.rxExclusive, h₂.err.trans h₁.err, h₂.rcvMss.trans h₁.rcvMss⟩

theorem SameRx.appends (h : SameRx c c') : Appends c c' :=
  ⟨⟨[], by rw [h.rxq, append_nil]⟩, h.rxClosed, h.rxExclusive, h.err, h.rcvMss⟩

theorem tcpConnAck_same : SameRx c (tcpConnAck c) ∧ (tcpConnAck c).state = c.state := by
  unfold tcpConnAck
  split
  · exact ⟨.refl, rfl⟩
  · exact ⟨{ SameRx.refl with }, rfl⟩

theorem processAck_cases (c : Conn) (seq len ack sndNxt win : Seq) :
    (processAck c seq len ack sndNxt win = none ∧ wrapsGt ack sndNxt) ∨
    ∃ c', processAck c seq len ack sndNxt win = some c' ∧ SameRx c c' ∧ c'.state = c.state := by
  have hack : SameRx c (if decide (c.sndUna = ack) then c else tcpConnAck { c with sndUna := ack }) ∧
      (if decide (c.sndUna = ack) then c else tcpConnAck { c with sndUna := ack }).state =
        c.state := by
    split
    · exact ⟨.refl, rfl⟩
    · obtain ⟨hsame, hstate⟩ := tcpConnAck_same (c := { c with sndUna := ack })
      exact ⟨{ hsame with }, hstate⟩
  generalize h : processAck c seq len ack sndNxt win = r
  unfold processAck at h
  dsimp only at h
  generalize (if decide (c.sndUna = ack) then c else tcpConnAck { c with sndUna := ack }) = c₁ at *
  split at h
  · -- the window update, then the duplicate-ack counter
    have hwin : ∀ b : Bool, SameRx c (if b then { c₁ with sndWnd := win, sndWl1 := seq, sndWl2 := ack }
        else c₁) ∧ (if b then { c₁ with sndWnd := win, sndWl1 := seq, sndWl2 := ack } else c₁).state =
          c.state := by
      intro b
      cases b with
      | false => exact hack
      | true => exact ⟨{ hack.1 with }, hack.2⟩
    generalize ((decide (wrapsLt c₁.sndWl1 seq) ||
        (decide (c₁.sndWl1 = seq) && decide (wrapsLte c₁.sndWl2 ack))) &&
      (! decide (c.sndUna = ack) || decide (c₁.sndWnd ≤ win))) = b at h
    have hb := hwin b
    generalize (if b then { c₁ with sndWnd := win, sndWl1 := seq, sndWl2 := ack } else c₁) = c₂ at *
    right
    split at h
    · split at h
      · refine ⟨_, h.symm, ?_⟩
        split
        · exact ⟨{ hb.1 with }, hb.2⟩
        · exact ⟨{ hb.1 with }, hb.2⟩
      · exact ⟨_, h.symm, { hb.1 with }, hb.2⟩
    · split at h
      · exact ⟨_, h.symm, { hb.1 with }, hb.2⟩
      · exact ⟨_, h.symm, hb⟩
  · split at h
    · rename_i hgt
      exact Or.inl ⟨h.symm, hgt⟩
    · right
      split at h
      · exact ⟨_, h.symm, { SameRx.refl with }, rfl⟩
      · exact ⟨_, h.symm, .refl, rfl⟩

theorem finAcked_same (sndNxt : Seq) :
    SameRx c (finAcked c sndNxt) ∧ (finAcked c sndNxt).state.takesText = c.state.takesText := by
  unfold finAcked
  cases hst : c.state with
  | finWait1 | closing | lastAck =>
    dsimp only
    split
    · exact ⟨{ SameRx.refl with }, rfl⟩
    · exact ⟨.refl, by rw [hst]⟩
  | synReceived | established | finWait2 | closeWait | timeWait | closed => exact ⟨.refl, by rw [hst]⟩

theorem rxDone_same {o : RxOut} (hconn : o.conn = c) : SameRx c (rxDone o).conn := by
  subst hconn
  unfold rxDone
  split
  · exact { SameRx.refl with }
  · exact .refl

theorem rxDone_state (o : RxOut) : (rxDone o).conn.state = o.conn.state := by
  unfold rxDone
  split
  · rfl
  · rfl

theorem processFin_same {o : RxOut} (hconn : o.conn = c) : SameRx c (processFin o).conn := by
  subst hconn
  unfold processFin
  split
  · exact { SameRx.refl with }
  · exact { SameRx.refl with }
  · exact { SameRx.refl with }
  · exact .refl

theorem delayAck_same : SameRx c (delayAck c).1 ∧ (delayAck c).1.state = c.state := by
  unfold delayAck
  split
  · exact ⟨{ SameRx.refl with }, rfl⟩
  · exact ⟨{ SameRx.refl with }, rfl⟩

theorem textDone_same {t : TextOut} {o : RxOut} (ho : o.conn = (delayAck t.conn).1) :
    SameRx t.conn (rxDone (if t.fin then processFin o else o)).conn := by
  have hdelay := (delayAck_same (c := t.conn)).1
  split
  · exact hdelay.trans (SameRx.trans (processFin_same ho) (rxDone_same rfl))
  · exact hdelay.trans (rxDone_same ho)

/-- The receive path stops taking text at most in a state in which it already had. -/
def TextKept (c c' : Conn) : Prop := c'.state.takesText = false → c.state.takesText = false

def segMbuf (s : Segment) : Mbuf :=
  { segSeq := s.seq, segEnd := s.seq + BitVec.ofNat 32 s.data.length, flags := s.flags, data := s.data }

def segLen (s : Segment) : Seq :=
  BitVec.ofNat 32 s.data.length + if s.flags.fin then 1 else 0

/-- The buffer of a segment as step 7 hands it on, the FIN counted in its end. -/
def textMbuf (s : Segment) : Mbuf := { segMbuf s with segEnd := s.seq + segLen s }

/-- The segment has text, and no earlier step of the slow path drops it. -/
def reachesText (c : Conn) (s : Segment) (sndNxt : Seq) : Prop :=
  s.data.length ≤ c.rcvMss ∧ (c.state = .synReceived ∨ c.state.takesText = true) ∧
    isAcceptable c (segLen s) s.seq = true ∧ s.flags.rst = false ∧ s.flags.syn = false ∧
    s.flags.ack = true ∧
    (wrapsLte c.sndUna s.ack ∧ wrapsLte s.ack sndNxt ∨
      c.state ≠ .synReceived ∧ ¬ wrapsGt s.ack sndNxt) ∧
    segLen s ≠ 0

instance (c : Conn) (s : Segment) (sndNxt : Seq) : Decidable (reachesText c s sndNxt) :=
  inferInstanceAs (Decidable (_ ∧ _))

/-- The connection the slow path goes on with: one in SYN_RECEIVED becomes established. -/
def synOpened (c : Conn) (seq ack win : Seq) : Conn :=
  if c.state = .synReceived then
    { c with sndWnd := win, sndWl1 := seq, sndWl2 := ack, state := .established }
  else c

theorem synOpened_same (c : Conn) (seq ack win : Seq) : SameRx c (synOpened c seq ack win) ∧
    (synOpened c seq ack win).sndUna = c.sndUna ∧
    ((synOpened c seq ack win).state.takesText = true ↔
      c.state = .synReceived ∨ c.state.takesText = true) := by
  unfold synOpened
  split
  · rename_i hst
    exact ⟨{ SameRx.refl with }, rfl, fun _ => Or.inl hst, fun _ => rfl⟩
  · rename_i hst
    exact ⟨.refl, rfl, Or.inr, fun h => h.resolve_left hst⟩

theorem synOpened_kept (c : Conn) (seq ack win : Seq) : TextKept c (synOpened c seq ack win) := by
  intro h
  have hiff := (synOpened_same c seq ack win).2.2
  rw [h] at hiff
  exact Bool.eq_false_iff.2 fun htext => absurd (hiff.2 (.inr htext)) Bool.false_ne_true

theorem segMbuf_len (s : Segment) : (segMbuf s).segEnd - (segMbuf s).segSeq +
    (if (segMbuf s).flags.fin = true then 1 else 0) = segLen s := by
  have hlen : s.seq + BitVec.ofNat 32 s.data.length - s.seq = BitVec.ofNat 32 s.data.length := by
    rw [BitVec.add_comm, BitVec.add_sub_cancel]
  show s.seq + BitVec.ofNat 32 s.data.length - s.seq + _ = _
  rw [hlen]
  rfl

/-- The slow path from step 5 on, with `text` for steps 7 and 8. -/
def slowTail (text : Conn → Option RxOut) (c : Conn) (seq len ack sndNxt win : Seq) :
    Option RxOut :=
  match processAck c seq len ack sndNxt win with
  | none => some (rxDone { conn := c, doAck := true })
  | some c =>
    if c.state = .lastAck ∧ (finAcked c sndNxt).state = .closed then
      some { conn := finAcked c sndNxt }
    else text (finAcked c sndNxt)

/-- The slow path, with `text` for steps 7 and 8. -/
def slowSteps (text : Conn → Option RxOut) (c : Conn) (s : Segment) (sndNxt win : Seq) :
    Option RxOut :=
  if c.state = .closed then some { conn := c, rst := ! s.flags.rst }
  else if ! isAcceptable c (segLen s) s.seq then
    some (rxDone { conn := c, doAck := ! s.flags.rst })
  else if s.flags.rst then some { conn := tcpConnFail c econnreset }
  else if s.flags.syn then some { conn := tcpConnFail c econnreset, rst := true }
  else if ! s.flags.ack then some { conn := c }
  else if c.state = .synReceived ∧ ¬ (wrapsLte c.sndUna s.ack ∧ wrapsLte s.ack sndNxt) then
    some { conn := c, rst := true }
  else slowTail text (synOpened c s.seq s.ack win) s.seq (segLen s) s.ack sndNxt win

theorem tcpRxConnSlow_eq (c : Conn) (s : Segment) (sndNxt win : Seq) :
    tcpRxConnSlow c (segMbuf s) s.ack sndNxt win =
      slowSteps (fun c => processText c (segMbuf s) (segLen s)) c s sndNxt win := by
  unfold tcpRxConnSlow
  simp only [segMbuf_len]
  rfl

theorem processAck_ne_none {seq len ack sndNxt win : Seq} (hle : wrapsLte c.sndUna ack)
    (hnxt : wrapsLte ack sndNxt) : processAck c seq len ack sndNxt win ≠ none := by
  have hsome : ∀ (p q r : Prop) [Decidable p] [Decidable q] [Decidable r] (a b d e : Conn),
      (if p then if q then some a else some b else if r then some d else some e) ≠ none := by
    intro p q r _ _ _ a b d e
    split_ifs <;> exact some_ne_none _
  unfold processAck
  rw [if_pos ⟨hle, hnxt⟩]
  exact hsome _ _ _ _ _ _ _

theorem processAck_eq_none {seq len ack sndNxt win : Seq} :
    processAck c seq len ack sndNxt win = none ↔
      ¬ (wrapsLte c.sndUna ack ∧ wrapsLte ack sndNxt) ∧ wrapsGt ack sndNxt := by
  by_cases hrange : wrapsLte c.sndUna ack ∧ wrapsLte ack sndNxt
  · exact ⟨fun h => absurd h (processAck_ne_none hrange.1 hrange.2), fun h => absurd hrange h.1⟩
  · unfold processAck
    rw [if_neg hrange]
    split
    · rename_i hgt
      exact ⟨fun _ => ⟨hrange, hgt⟩, fun _ => rfl⟩
    · rename_i hgt
      refine ⟨fun h => ?_, fun h => absurd h.2 hgt⟩
      split at h
      · cases h
      · cases h

/-- The header of a segment that reaches the tail of the slow path. -/
structure Passes (c : Conn) (s : Segment) (sndNxt : Seq) : Prop where
  mss : s.data.length ≤ c.rcvMss
  acceptable : isAcceptable c (segLen s) s.seq = true
  rst : s.flags.rst = false
  syn : s.flags.syn = false
  ack : s.flags.ack = true
  range : ¬ (c.state = .synReceived ∧ ¬ (wrapsLte c.sndUna s.ack ∧ wrapsLte s.ack sndNxt))

/-- What the slow path makes of a segment when it does not come to its text. -/
inductive Untaken (c : Conn) (s : Segment) (sndNxt : Seq) (r : Option RxOut) : Prop
  | dropped (o : RxOut) (eq : r = some o) (same : SameRx c o.conn) (kept : TextKept c o.conn)
      (skips : ¬ reachesText c s sndNxt)
  | failed (o : RxOut) (eq : r = some o) (conn : o.conn = tcpConnFail c econnreset)
      (skips : ¬ reachesText c s sndNxt) (bad : s.flags.rst = true ∨ s.flags.syn = true)

/-- The text of the segment is looked at with the connection `finAcked c₂ sndNxt`. -/
structure AtText (c : Conn) (s : Segment) (sndNxt : Seq) (c₂ : Conn) : Prop where
  same : SameRx c (finAcked c₂ sndNxt)
  kept : TextKept c (finAcked c₂ sndNxt)
  acceptable : isAcceptable c (segLen s) s.seq = true
  reaches : reachesText c s sndNxt ↔
    segLen s ≠ 0 ∧ (finAcked c₂ sndNxt).state.takesText = true

theorem slowTail_cases {s : Segment} (text : Conn → Option RxOut) {sndNxt : Seq} (win : Seq)
    (hpass : Passes c s sndNxt) :
    Untaken c s sndNxt
      (slowTail text (synOpened c s.seq s.ack win) s.seq (segLen s) s.ack sndNxt win) ∨
    ∃ c₂, AtText c s sndNxt c₂ ∧
      slowTail text (synOpened c s.seq s.ack win) s.seq (segLen s) s.ack sndNxt win =
        text (finAcked c₂ sndNxt) := by
  obtain ⟨hsame, huna, htakes⟩ := synOpened_same c s.seq s.ack win
  have hkept := synOpened_kept c s.seq s.ack win
  generalize synOpened c s.seq s.ack win = c₁ at *
  unfold slowTail
  split
  · rename_i hnone
    refine Or.inl (.dropped _ rfl (hsame.trans (rxDone_same rfl)) (fun h => hkept ?_) fun h => ?_)
    · rwa [rxDone_state] at h
    · obtain ⟨hrange, hgt⟩ := processAck_eq_none.1 hnone
      rw [huna] at hrange
      obtain ⟨-, -, -, -, -, -, hok | hok, -⟩ := h
      · exact hrange hok
      · exact hok.2 hgt
  rename_i c₂ hproc
  have hrange : wrapsLte c.sndUna s.ack ∧ wrapsLte s.ack sndNxt ∨
      c.state ≠ .synReceived ∧ ¬ wrapsGt s.ack sndNxt := by
    by_cases hin : wrapsLte c.sndUna s.ack ∧ wrapsLte s.ack sndNxt
    · exact Or.inl hin
    · refine Or.inr ⟨fun hst => hpass.range ⟨hst, hin⟩, fun hgt => ?_⟩
      exact absurd (hproc.symm.trans (processAck_eq_none.2 ⟨by rw [huna]; exact hin, hgt⟩))
        (some_ne_none _)
  obtain ⟨c₂', hproc', hsame₂, hstate₂⟩ :=
    (processAck_cases c₁ s.seq (segLen s) s.ack sndNxt win).resolve_left
      fun h => by cases hproc.symm.trans h.1
  obtain rfl := some.inj (hproc.symm.trans hproc')
  obtain ⟨hsame₃, htakes₃⟩ := finAcked_same (c := c₂) sndNxt
  have htakes' : (finAcked c₂ sndNxt).state.takesText = true ↔
      c.state = .synReceived ∨ c.state.takesText = true := by
    rw [htakes₃, hstate₂]
    exact htakes
  have hkept' : TextKept c (finAcked c₂ sndNxt) := by
    intro h
    rw [htakes₃, hstate₂] at h
    exact hkept h
  split
  · -- LAST_ACK takes no text
    rename_i hlast
    refine Or.inl (.dropped _ rfl ((hsame.trans hsame₂).trans hsame₃) hkept' fun h => ?_)
    have htext := htakes'.2 h.2.1
    rw [hlast.2] at htext
    cases htext
  · refine Or.inr ⟨c₂, ⟨(hsame.trans hsame₂).trans hsame₃, hkept', hpass.acceptable, ?_⟩, rfl⟩
    rw [htakes']
    constructor
    · rintro ⟨-, htext, -, -, -, -, -, hne⟩
      exact ⟨hne, htext⟩
    · rintro ⟨hne, htext⟩
      exact ⟨hpass.mss, htext, hpass.acceptable, hpass.rst, hpass.syn, hpass.ack, hrange, hne⟩

theorem slowSteps_cases (c : Conn) (s : Segment) (text : Conn → Option RxOut) (sndNxt win : Seq)
    (hmss : s.data.length ≤ c.rcvMss) :
    Untaken c s sndNxt (slowSteps text c s sndNxt win) ∨
    ∃ c₂, AtText c s sndNxt c₂ ∧ slowSteps text c s sndNxt win = text (finAcked c₂ sndNxt) := by
  unfold slowSteps
  split
  · rename_i hclosed
    refine Or.inl (.dropped _ rfl .refl id ?_)
    rintro ⟨-, hstate, -⟩
    rw [hclosed] at hstate
    rcases hstate with hstate | hstate
    · cases hstate
    · cases hstate
  split
  · rename_i hacc
    refine Or.inl (.dropped _ rfl (rxDone_same rfl) (fun h => by rwa [rxDone_state] at h) ?_)
    rintro ⟨-, -, hacc', -⟩
    rw [hacc'] at hacc
    cases hacc
  rename_i hacc
  split
  · rename_i hrst
    refine Or.inl (.failed _ rfl rfl ?_ (.inl hrst))
    rintro ⟨-, -, -, hrst', -⟩
    exact absurd (hrst.symm.trans hrst') (by decide)
  rename_i hrst
  split
  · rename_i hsyn
    refine Or.inl (.failed _ rfl rfl ?_ (.inr hsyn))
    rintro ⟨-, -, -, -, hsyn', -⟩
    exact absurd (hsyn.symm.trans hsyn') (by decide)
  rename_i hsyn
  split
  · rename_i hack
    refine Or.inl (.dropped _ rfl .refl id ?_)
    rintro ⟨-, -, -, -, -, hack', -⟩
    rw [hack'] at hack
    cases hack
  rename_i hack
  split
  · rename_i hrange
    refine Or.inl (.dropped _ rfl .refl id ?_)
    rintro ⟨-, -, -, -, -, -, hrange' | hrange', -⟩
    · exact hrange.2 hrange'
    · exact hrange'.1 hrange.1
  rename_i hrange
  rw [Bool.not_eq_true, Bool.not_eq_false'] at hacc hack
  exact slowTail_cases text win ⟨hmss, hacc, Bool.eq_false_iff.2 hrst, Bool.eq_false_iff.2 hsyn,
    hack, hrange⟩

/-- The three ways of a segment without RST and SYN: it is dropped before its text
is looked at, it goes through steps 7 and 8 of the slow path, or it takes the fast
path. -/
theorem tcpRxConn_cases (c : Conn) {s : Segment} (sndNxt : Seq) (hrst : s.flags.rst = false)
    (hsyn : s.flags.syn = false) :
    (∃ o, tcpRxConn c s sndNxt = some o ∧ SameRx c o.conn ∧ TextKept c o.conn ∧
      ¬ reachesText c s sndNxt) ∨
    (∃ c₂, AtText c s sndNxt c₂ ∧
      tcpRxConn c s sndNxt = processText (finAcked c₂ sndNxt) (segMbuf s) (segLen s)) ∨
    (slowPath c (segMbuf s) s.ack sndNxt (BitVec.ofNat 32 s.data.length) = false ∧
      tcpRxConn c s sndNxt = some (tcpRxFast c (segMbuf s) s.ack
        (s.win.setWidth 32 <<< c.sndWscale) (BitVec.ofNat 32 s.data.length))) := by
  by_cases hmss : s.data.length > c.rcvMss
  · refine Or.inl ⟨{ conn := c }, ?_, .refl, id, fun ht => absurd ht.1 (Nat.not_le.2 hmss)⟩
    exact if_pos hmss
  cases hslow : slowPath c (segMbuf s) s.ack sndNxt (BitVec.ofNat 32 s.data.length) with
  | false =>
    refine Or.inr (Or.inr ⟨rfl, (if_neg hmss).trans (if_neg ?_)⟩)
    exact Bool.eq_false_iff.1 hslow
  | true =>
    have heq : tcpRxConn c s sndNxt =
        tcpRxConnSlow c (segMbuf s) s.ack sndNxt (s.win.setWidth 32 <<< c.sndWscale) :=
      (if_neg hmss).trans (if_pos hslow)
    rw [heq, tcpRxConnSlow_eq]
    rcases slowSteps_cases c s _ sndNxt _ (Nat.le_of_not_lt hmss) with
      (⟨o, ho, hsame, hkept, hskip⟩ | ⟨-, -, -, -, hbad⟩) | hat
    · exact Or.inl ⟨o, ho, hsame, hkept, hskip⟩
    · rw [hrst, hsyn] at hbad
      rcases hbad with hbad | hbad
      · cases hbad
      · cases hbad
    · exact Or.inr (Or.inl hat)

theorem processText_appends {o : RxOut} {len : Seq} (h : processText c m len = some o) :
    Appends c o.conn := by
  unfold processText at h
  split at h
  · split at h
    · cases h
    · rename_i t htext
      cases h
      exact (tcpRxText_appends htext).trans (SameRx.appends (textDone_same rfl))
  · cases h
    exact SameRx.appends (rxDone_same rfl)

theorem tcpRxFast_spec (ack win len : Seq) : (tcpRxFast c m ack win len).conn.rcvNxt = m.segEnd ∧
      (tcpRxFast c m ack win len).conn.rcvWnd = c.rcvWnd - len ∧
      (tcpRxFast c m ack win len).conn.rxq = c.rxq ++ [m] ∧
      (tcpRxFast c m ack win len).conn.rxqOoo = c.rxqOoo ∧
      (tcpRxFast c m ack win len).conn.state = c.state ∧
      (tcpRxFast c m ack win len).conn.rxClosed = c.rxClosed ∧
      (tcpRxFast c m ack win len).conn.rxExclusive = c.rxExclusive ∧
      (tcpRxFast c m ack win len).conn.err = c.err ∧
      (tcpRxFast c m ack win len).conn.rcvMss = c.rcvMss := by
  have hack : ∀ c₁ : Conn, SameRx c₁ (if c₁.sndUna ≠ ack then
        tcpConnAck { c₁ with repAcks := 0, sndUna := ack } else c₁) ∧
      (if c₁.sndUna ≠ ack then tcpConnAck { c₁ with repAcks := 0, sndUna := ack } else c₁).state =
        c₁.state := by
    intro c₁
    split
    · obtain ⟨hsame, hstate⟩ := tcpConnAck_same (c := { c₁ with repAcks := 0, sndUna := ack })
      exact ⟨{ hsame with }, hstate⟩
    · exact ⟨.refl, rfl⟩
  -- the connection after the acknowledgement differs only in the send variables
  have hsnd : ∃ c₁ : Conn, SameRx c c₁ ∧ c₁.state = c.state ∧ tcpRxFast c m ack win len =
      (let c₂ : Conn := { c₁ with rcvNxt := m.segEnd, rcvWnd := c₁.rcvWnd - len }
       let p : Conn × Bool :=
        if c₂.acksDelayedCnt + 1 ≥ 2 then
          ({ c₂ with ackDelayed := false, acksDelayedCnt := 0 }, true)
        else ({ c₂ with acksDelayedCnt := c₂.acksDelayedCnt + 1, ackDelayed := true }, false)
       { conn := { p.1 with rxq := p.1.rxq ++ [m] }, doAck := p.2, doDrop := false }) := by
    unfold tcpRxFast
    dsimp only
    split
    · obtain ⟨hsame, hstate⟩ := hack c
      generalize (if c.sndUna ≠ ack then tcpConnAck { c with repAcks := 0, sndUna := ack } else c) =
        c₁ at *
      split
      · exact ⟨{ c₁ with sndWnd := win, sndWl1 := m.segSeq, sndWl2 := ack, repAcks := 0 },
          { hsame with }, hstate, rfl⟩
      · exact ⟨c₁, hsame, hstate, rfl⟩
    · exact ⟨c, .refl, rfl, rfl⟩
  obtain ⟨c₁, hsame, hstate, heq⟩ := hsnd
  rw [heq]
  dsimp only
  split
  · exact ⟨rfl, by rw [← hsame.rcvWnd], by rw [← hsame.rxq], hsame.rxqOoo, hstate, hsame.rxClosed,
      hsame.rxExclusive, hsame.err, hsame.rcvMss⟩
  · exact ⟨rfl, by rw [← hsame.rcvWnd], by rw [← hsame.rxq], hsame.rxqOoo, hstate, hsame.rxClosed,
      hsame.rxExclusive, hsame.err, hsame.rcvMss⟩

theorem tcpRxConn_appends {s : Segment} {sndNxt : Seq} {o : RxOut} (hrst : s.flags.rst = false)
    (hsyn : s.flags.syn = false) (h : tcpRxConn c s sndNxt = some o) : Appends c o.conn := by
  rcases tcpRxConn_cases c sndNxt hrst hsyn with
    ⟨o', ho', hsame, -⟩ | ⟨c₁, hat, ho'⟩ | ⟨-, ho'⟩
  · obtain rfl : o' = o := some.inj (ho'.symm.trans h)
    exact hsame.appends
  · exact hat.same.appends.trans (processText_appends (ho'.symm.trans h))
  · obtain rfl := some.inj (ho'.symm.trans h)
    obtain ⟨-, -, hrxq, -, -, hclosed, hexcl, herr, hmss⟩ :=
      tcpRxFast_spec (c := c) (m := segMbuf s) s.ack (s.win.setWidth 32 <<< c.sndWscale)
        (BitVec.ofNat 32 s.data.length)
    exact ⟨⟨_, hrxq⟩, hclosed, hexcl, herr, hmss⟩

end Appends

/-! ## Copying into vectors -/

def Fits (vs : List Nat) (cur : List UInt8) : Prop := cur.length ≤ vs.headD 0

theorem scatterOne_spec {vs : List Nat} {cur data : List UInt8} (hfit : Fits vs cur)
    (hroom : cur.length + data.length ≤ vs.sum) :
    (scatterOne vs cur data).1.flatten ++ (scatterOne vs cur data).2.2 = cur ++ data ∧
      (scatterOne vs cur data).1.flatten.length + (scatterOne vs cur data).2.1.sum = vs.sum ∧
      Fits (scatterOne vs cur data).2.1 (scatterOne vs cur data).2.2 := by
  induction vs generalizing cur data with
  | nil =>
    have hdata : data = [] := eq_nil_of_length_eq_zero (by rw [sum_nil] at hroom; omega)
    subst hdata
    exact ⟨by simp [scatterOne], by simp [scatterOne], hfit⟩
  | cons v vs ih =>
    have hcur : cur.length ≤ v := hfit
    rw [sum_cons] at hroom ⊢
    unfold scatterOne
    dsimp only
    split
    · rename_i hfull
      split
      · -- the buffer ends with the vector
        rename_i hend
        have hk : data.length ≤ min (v - cur.length) data.length := by
          simpa using drop_eq_nil_iff.1 hend
        rw [take_of_length_le hk] at hfull ⊢
        refine ⟨by simp, by simpa using hfull, Nat.zero_le _⟩
      · have hk : min (v - cur.length) data.length = v - cur.length := by
          rw [length_append, length_take] at hfull
          omega
        rw [hk] at hfull ⊢
        obtain ⟨hflat, hsum, hfit'⟩ := @ih [] (data.drop (v - cur.length))
          (Nat.zero_le _) (by rw [length_nil, length_drop]; omega)
        refine ⟨?_, ?_, hfit'⟩
        · rw [flatten_cons, append_assoc, hflat, nil_append, append_assoc, take_append_drop]
        · show (_ :: _ : List (List UInt8)).flatten.length + _ = _
          rw [flatten_cons, length_append, hfull, Nat.add_assoc, hsum]
    · -- the vector is not full, so the whole buffer went into it
      rename_i hpart
      have hk : data.length ≤ min (v - cur.length) data.length := by
        rw [length_append, length_take] at hpart
        omega
      rw [take_of_length_le hk] at hpart ⊢
      refine ⟨by simp, by simp, ?_⟩
      rw [length_append] at hpart
      have hle : cur.length + data.length ≤ v := by omega
      show (cur ++ data).length ≤ v
      rwa [length_append]

theorem scatterAll_spec {bs : List (List UInt8)} {vs : List Nat} {cur : List UInt8}
    (hfit : Fits vs cur) (hroom : cur.length + bs.flatten.length ≤ vs.sum) :
    (scatterAll bs vs cur).1.flatten ++ (scatterAll bs vs cur).2.2 = cur ++ bs.flatten ∧
      (scatterAll bs vs cur).1.flatten.length + (scatterAll bs vs cur).2.1.sum = vs.sum ∧
      Fits (scatterAll bs vs cur).2.1 (scatterAll bs vs cur).2.2 := by
  induction bs generalizing vs cur with
  | nil => exact ⟨by simp [scatterAll], by simp [scatterAll], hfit⟩
  | cons b bs ih =>
    rw [flatten_cons, length_append] at hroom
    obtain ⟨hflat, hsum, hfit'⟩ := @scatterOne_spec vs cur b hfit (by omega)
    have hlen := congrArg List.length hflat
    simp only [length_append] at hlen
    obtain ⟨hflat', hsum', hfit''⟩ := ih hfit' (by omega)
    unfold scatterAll
    dsimp only
    refine ⟨?_, ?_, hfit''⟩
    · rw [flatten_append, append_assoc, hflat', ← append_assoc, hflat, flatten_cons, append_assoc]
    · rw [flatten_append, length_append, Nat.add_assoc, hsum', hsum]

theorem scatterLast_spec {vs : List Nat} {cur data : List UInt8} (hfit : Fits vs cur)
    (henough : vs.sum ≤ cur.length + data.length) :
    (scatterLast vs cur data).flatten = (cur ++ data).take vs.sum := by
  induction vs generalizing cur data with
  | nil => simp [scatterLast]
  | cons v vs ih =>
    have hcur : cur.length ≤ v := hfit
    rw [sum_cons] at henough ⊢
    have hk : min (v - cur.length) data.length = v - cur.length := by omega
    have hlen : (cur ++ data.take (v - cur.length)).length = v := by
      rw [length_append, length_take]
      omega
    have hsplit : cur ++ data = (cur ++ data.take (v - cur.length)) ++ data.drop (v - cur.length) := by
      rw [append_assoc, take_append_drop]
    unfold scatterLast
    dsimp only
    rw [hk, flatten_cons, ih (Nat.zero_le _) (by rw [length_nil, length_drop]; omega), nil_append]
    generalize cur ++ data.take (v - cur.length) = filled, data.drop (v - cur.length) = left at *
    rw [hsplit, ← hlen, take_length_add_append]

def Room (iov : Option (List Nat)) (n : Nat) : Prop := ∀ shape, iov = some shape → n ≤ shape.sum

theorem copyOut_none {iov : Option (List Nat)} {taken : List Mbuf}
    (hroom : Room iov (bytes taken).length) : copyOut iov taken none = bytes taken := by
  cases iov with
  | none => simp [copyOut]
  | some shape =>
    obtain ⟨hflat, -, -⟩ := @scatterAll_spec (taken.map Mbuf.data) shape [] (Nat.zero_le _)
      (by rw [length_nil, Nat.zero_add]; exact hroom shape rfl)
    exact hflat

theorem copyOut_some {iov : Option (List Nat)} {taken : List Mbuf} {data : List UInt8} {k : Nat}
    (hshape : ∀ shape, iov = some shape → shape.sum = (bytes taken).length + k)
    (hk : k ≤ data.length) : copyOut iov taken (some (data, k)) = bytes taken ++ data.take k := by
  cases iov with
  | none => simp [copyOut]
  | some shape =>
    have hsum := hshape shape rfl
    obtain ⟨hflat, hsum', hfit⟩ := @scatterAll_spec (taken.map Mbuf.data) shape []
      (Nat.zero_le _) (by
        rw [length_nil, Nat.zero_add, hsum]
        exact Nat.le_add_right _ _)
    unfold copyOut
    dsimp only
    have hbytes : bytes taken = (taken.map Mbuf.data).flatten := rfl
    rw [nil_append, ← hbytes] at hflat
    have hlen := congrArg List.length hflat
    rw [length_append] at hlen
    generalize scatterAll (taken.map Mbuf.data) shape [] = r at *
    have hk' : r.2.1.sum = r.2.2.length + k := by omega
    rw [scatterLast_spec hfit (by omega), hk', take_append, take_of_length_le (by omega),
      Nat.add_sub_cancel_left, ← append_assoc, hflat]

/-! ## The pop loop -/

/-- What the pop loop leaves of the queue `q`, with `r` bytes counted before. -/
structure PopSpec (len : Nat) (q : List Mbuf) (r : Nat) (o : PopOut) : Prop where
  split : q = o.taken ++ o.rxq
  whole : o.inside = false → o.readlen = r + (bytes o.taken).length ∧ o.readlen ≤ len
  part : o.inside = true → o.readlen = len ∧ ∃ m rest, o.rxq = m :: rest ∧
    r + (bytes o.taken).length < len ∧ len < r + (bytes o.taken).length + m.data.length ∧
    (m.flags.fin = true → o.closed = true)
  taken_fin : ∀ m ∈ o.taken, m.flags.fin = true → o.closed = true
  closed : o.closed = true → (∃ m ∈ o.taken, m.flags.fin = true) ∨
    ∃ m rest, o.rxq = m :: rest ∧ m.flags.fin = true ∧ (o.inside = true ∨ m.data = [])
  stop : o.inside = false → o.rxq = [] ∨ o.readlen = len ∨
    ∃ m rest, o.rxq = m :: rest ∧ m.flags.fin = true ∧ m.data = [] ∧ o.closed = true

theorem popLoop_spec {len : Nat} {q : List Mbuf} {r : Nat} (hr : r ≤ len) :
    PopSpec len q r (popLoop len q r) := by
  induction q generalizing r with
  | nil =>
    exact ⟨rfl, fun _ => ⟨rfl, hr⟩, nofun, nofun, nofun, fun _ => Or.inl rfl⟩
  | cons m q ih =>
    unfold popLoop
    split
    · rename_i hlt
      split
      · -- an empty FIN buffer stays at the top
        rename_i hfin
        have hnil := eq_nil_of_length_eq_zero hfin.2
        exact ⟨rfl, fun _ => ⟨rfl, hr⟩, nofun, nofun,
          fun _ => Or.inr ⟨m, q, rfl, hfin.1, Or.inr hnil⟩,
          fun _ => Or.inr (Or.inr ⟨m, q, rfl, hfin.1, hnil, rfl⟩)⟩
      · split
        · rename_i hin
          refine ⟨rfl, nofun, fun _ => ⟨rfl, m, q, rfl, hlt, ?_, id⟩, nofun,
            fun hfin => Or.inr ⟨m, q, rfl, hfin, Or.inl rfl⟩, nofun⟩
          show len < r + 0 + m.data.length
          omega
        · -- the whole buffer is taken
          have h := ih (r := r + m.data.length) (by omega)
          generalize popLoop len q (r + m.data.length) = o at h
          have hbytes : (bytes (m :: o.taken)).length = m.data.length + (bytes o.taken).length := by
            rw [bytes_cons, length_append]
          refine ⟨congrArg (m :: ·) h.split, fun hin => ?_, fun hin => ?_, fun m' hm' hfin => ?_,
            fun hcl => ?_, fun hin => ?_⟩
          · obtain ⟨hread, hle⟩ := h.whole hin
            exact ⟨by rw [hbytes, ← Nat.add_assoc]; exact hread, hle⟩
          · obtain ⟨hread, m', rest, hq, hlt', hgt, hfin⟩ := h.part hin
            refine ⟨hread, m', rest, hq, ?_, ?_, fun hm' => ?_⟩
            · rw [hbytes, ← Nat.add_assoc]
              exact hlt'
            · rw [hbytes, ← Nat.add_assoc]
              exact hgt
            · exact Bool.or_eq_true_iff.2 (Or.inr (hfin hm'))
          · rcases mem_cons.1 hm' with rfl | hm'
            · exact Bool.or_eq_true_iff.2 (Or.inl hfin)
            · exact Bool.or_eq_true_iff.2 (Or.inr (h.taken_fin m' hm' hfin))
          · rcases Bool.or_eq_true_iff.1 hcl with hfin | hcl
            · exact Or.inl ⟨m, mem_cons_self .., hfin⟩
            · rcases h.closed hcl with ⟨m', hm', hfin⟩ | hright
              · exact Or.inl ⟨m', mem_cons_of_mem _ hm', hfin⟩
              · exact Or.inr hright
          · rcases h.stop hin with hnil | hfull | ⟨m', rest, hq, hfin, hdata, hcl⟩
            · exact Or.inl hnil
            · exact Or.inr (Or.inl hfull)
            · exact Or.inr (Or.inr ⟨m', rest, hq, hfin, hdata, Bool.or_eq_true_iff.2 (Or.inr hcl)⟩)
    · rename_i hge
      exact ⟨rfl, fun _ => ⟨rfl, hr⟩, nofun, nofun, nofun,
        fun _ => Or.inr (Or.inl (Nat.le_antisymm hr (Nat.not_lt.1 hge)))⟩

def finLast (ms : List Mbuf) : Bool := ms.dropLast.all fun m => ! m.flags.fin

theorem finLast_append {ms ms' : List Mbuf} (h : finLast (ms ++ ms') = true) (hne : ms' ≠ []) :
    ∀ m ∈ ms, m.flags.fin = false := by
  intro m hm
  rw [finLast, dropLast_append_of_ne_nil hne, all_append, Bool.and_eq_true] at h
  simpa using all_eq_true.1 h.1 m hm

theorem finLast_suffix {ms ms' : List Mbuf} (h : finLast (ms ++ ms') = true) :
    finLast ms' = true := by
  cases ms' with
  | nil => rfl
  | cons m ms' =>
    rw [finLast, dropLast_append_of_ne_nil (cons_ne_nil _ _), all_append, Bool.and_eq_true] at h
    exact h.2

theorem finLast_append_of_not {ms ms' : List Mbuf} (h : finLast ms' = true)
    (hno : ∀ m ∈ ms, m.flags.fin ≠ true) : finLast (ms ++ ms') = true := by
  have hall : ∀ l ⊆ ms, (l.all fun m => ! m.flags.fin) = true := by
    intro l hl
    refine all_eq_true.2 fun m hm => ?_
    simpa using hno m (hl hm)
  cases ms' with
  | nil =>
    rw [append_nil]
    exact hall _ (dropLast_subset ms)
  | cons m ms' =>
    rw [finLast, dropLast_append_of_ne_nil (cons_ne_nil _ _), all_append, Bool.and_eq_true]
    exact ⟨hall ms (List.Subset.refl ms), h⟩

section Pop

variable {len : Nat} {q : List Mbuf} {r : Nat} {o : PopOut}

/-- A FIN that closes the receive side leaves no bytes, unless the read ends
inside its buffer. -/
theorem PopSpec.closed_bytes (h : PopSpec len q r o) (hlast : finLast q = true)
    (hin : o.inside = false) (hcl : o.closed = true) : bytes o.rxq = [] := by
  rw [h.split] at hlast
  rcases h.closed hcl with ⟨m, hm, hfin⟩ | ⟨m, rest, hq, hfin, hdata⟩
  · -- the FIN buffer was taken, so nothing follows it
    cases hrxq : o.rxq with
    | nil => rfl
    | cons m' rest =>
      have := finLast_append hlast (by rw [hrxq]; exact cons_ne_nil _ _) m hm
      exact absurd hfin (by simp [this])
  · have hlast' := finLast_suffix hlast
    rw [hq] at hlast' ⊢
    have hrest : rest = [] := by
      by_contra hne
      have := @finLast_append [m] rest hlast' hne m (mem_singleton_self m)
      exact absurd hfin (by simp [this])
    have hnil : m.data = [] := by
      rcases hdata with hdata | hdata
      · exact absurd hdata (by simp [hin])
      · exact hdata
    rw [hrest, bytes, flatMap_singleton, hnil]

/-- A loop that counted nothing took nothing. -/
theorem PopSpec.of_zero (h : PopSpec len q r o) (hlen : 0 < len) (hzero : o.readlen = 0) :
    o.inside = false ∧ bytes o.taken = [] := by
  have hin : o.inside = false := by
    refine Bool.eq_false_iff.2 fun hin => ?_
    have hread := (h.part hin).1
    omega
  refine ⟨hin, eq_nil_of_length_eq_zero ?_⟩
  have hread := (h.whole hin).1
  omega

theorem PopSpec.closed_fin (h : PopSpec len q r o) (hcl : o.closed = true) :
    ∃ m ∈ q, m.flags.fin = true := by
  rw [h.split]
  rcases h.closed hcl with ⟨m, hm, hfin⟩ | ⟨m, rest, hq, hfin, -⟩
  · exact ⟨m, mem_append_left _ hm, hfin⟩
  · exact ⟨m, mem_append_right _ (by rw [hq]; exact mem_cons_self ..), hfin⟩

theorem PopSpec.open_rxq (h : PopSpec len q r o) (hcl : o.closed = false)
    (hfin : ∃ m ∈ q, m.flags.fin = true) : ∃ m ∈ o.rxq, m.flags.fin = true := by
  obtain ⟨m, hm, hfin⟩ := hfin
  rw [h.split] at hm
  rcases mem_append.1 hm with hm | hm
  · exact absurd (h.taken_fin m hm hfin) (by simp [hcl])
  · exact ⟨m, hm, hfin⟩

end Pop

/-! ## Where every byte is -/

def Sys.finReceived (s : Sys) : Prop := ∃ m ∈ s.appended, m.flags.fin = true

def Sys.held (s : Sys) : List UInt8 := s.pending.elim [] fun p => bytes p.taken

/-- What is assumed of the segments: no RST and no SYN, which fail the connection,
and the FIN on the last buffer that is queued. -/
def rxPremise (s : Sys) : Event → Prop
  | .rx seg sndNxt => seg.flags.rst = false ∧ seg.flags.syn = false ∧
      (step s (.rx seg sndNxt)).all (fun s' => finLast s'.appended) = true
  | _ => True

def readReturns (s : Sys) (len : Nat) (iov : Option (List Nat)) : Int :=
  (tcpReadWait s.conn (iovLen iov len)).2.1

/-- An earlier read ended inside the buffer with the FIN, or only empty buffers
without a FIN are queued. -/
def readsShort (s : Sys) : Prop :=
  s.cutFin = true ∨ (s.conn.rxClosed = false ∧ ∀ m ∈ s.conn.rxq, m.data = [] ∧ m.flags.fin = false)

/-- Every byte ever appended is returned, with the exclusive reader, or queued;
the receive side is closed by the FIN and by nothing else. -/
structure ReadInv (s : Sys) : Prop where
  acct : s.log = s.returned ++ s.held ++ bytes s.conn.rxq
  err : s.conn.err = 0
  excl : s.conn.rxExclusive = s.pending.isSome
  part : ∀ p, s.pending = some p → ∃ m rest, s.conn.rxq = m :: rest ∧ p.rest < m.data.length ∧
    ∀ shape, p.iov = some shape → shape.sum = (bytes p.taken).length + p.rest
  last : finLast s.appended = true
  queued : ∃ old, s.appended.map (·.flags.fin) = old ++ s.conn.rxq.map (·.flags.fin)
  synOpened : s.conn.rxClosed = false → s.cutFin = false ∧
    (s.finReceived → ∃ m ∈ s.conn.rxq, m.flags.fin = true)
  closed : s.conn.rxClosed = true → s.finReceived ∧
    (s.cutFin = false → s.pending = none ∧ bytes s.conn.rxq = []) ∧
    (s.cutFin = true → bytes s.conn.rxq ≠ [])

section Inv

variable {s s' : Sys}

theorem ReadInv.finLast_rxq (h : ReadInv s) : finLast s.conn.rxq = true := by
  obtain ⟨old, hold⟩ := h.queued
  have hlast := h.last
  have hmap : ∀ ms : List Mbuf, finLast ms = (ms.map (·.flags.fin)).dropLast.all (! ·) := by
    intro ms
    rw [finLast, ← map_dropLast, List.all_map]
    rfl
  rw [hmap] at hlast ⊢
  rw [hold] at hlast
  cases hq : s.conn.rxq.map (·.flags.fin) with
  | nil => rfl
  | cons b bs =>
    rw [hq, dropLast_append_of_ne_nil (cons_ne_nil _ _), all_append, Bool.and_eq_true] at hlast
    exact hlast.2

theorem ReadInv.pending_none (h : ReadInv s) (hexcl : s.conn.rxExclusive = false) :
    s.pending = none := by
  have hnone := h.excl
  rw [hexcl] at hnone
  exact isNone_iff_eq_none.1 (by simpa using hnone.symm)

theorem ReadInv.finReceived_of_mem (h : ReadInv s) {m : Mbuf} (hm : m ∈ s.conn.rxq)
    (hfin : m.flags.fin = true) : s.finReceived := by
  obtain ⟨old, hold⟩ := h.queued
  have hmem : true ∈ s.appended.map (·.flags.fin) := by
    rw [hold]
    exact mem_append_right _ (mem_map.2 ⟨m, hm, hfin⟩)
  obtain ⟨m', hm', hfin'⟩ := mem_map.1 hmem
  exact ⟨m', hm', hfin'⟩

theorem readInv_init {c : Conn} (h : c.fresh) : ReadInv (sysInit c) := by
  obtain ⟨-, hrxq, -, -, hclosed, hexcl, herr⟩ := h
  refine ⟨?_, herr, hexcl, nofun, rfl, ⟨[], ?_⟩, fun _ => ⟨rfl, ?_⟩, fun hcl => ?_⟩
  · show [] = [] ++ [] ++ bytes c.rxq
    rw [hrxq]
    rfl
  · show [] = [] ++ c.rxq.map _
    rw [hrxq]
    rfl
  · rintro ⟨m, hm, -⟩
    cases hm
  · exact absurd hcl (by simp [sysInit, hclosed])

theorem ReadInv.of_same (h : ReadInv s) {c : Conn} (hsame : SameRx s.conn c) :
    ReadInv { s with conn := c } := by
  obtain ⟨-, -, hrxq, -, hclosed, hexcl, herr, -⟩ := hsame
  exact ⟨by rw [hrxq]; exact h.acct, by rw [herr]; exact h.err, by rw [hexcl]; exact h.excl,
    by rw [hrxq]; exact h.part, h.last, by rw [hrxq]; exact h.queued,
    by rw [hclosed, hrxq]; exact h.synOpened, by rw [hclosed, hrxq]; exact h.closed⟩

theorem readInv_rx {seg : Segment} {sndNxt : Seq} (h : ReadInv s)
    (hok : rxPremise s (.rx seg sndNxt)) (hst : step s (.rx seg sndNxt) = some s') :
    ReadInv s' := by
  obtain ⟨hrst, hsyn, hlast⟩ := hok
  rw [hst] at hlast
  simp only [step] at hst
  split at hst
  · cases hst
  rename_i o hrx
  cases hst
  obtain ⟨⟨ms, hms⟩, hclosed, hexcl, herr, -⟩ := tcpRxConn_appends hrst hsyn hrx
  have hdrop : o.conn.rxq.drop s.conn.rxq.length = ms := by rw [hms, drop_left]
  rw [hdrop] at hlast ⊢
  replace hlast : finLast (s.appended ++ ms) = true := hlast
  refine ⟨?_, herr.trans h.err, hexcl.trans h.excl, fun p hp => ?_, hlast, ?_, fun hop => ?_,
    fun hcl => ?_⟩
  · show bytes (s.appended ++ ms) = s.returned ++ s.held ++ bytes o.conn.rxq
    rw [hms, bytes_append, bytes_append, ← append_assoc]
    exact congrArg (· ++ bytes ms) h.acct
  · obtain ⟨m, rest, hq, hlt, hshape⟩ := h.part p hp
    exact ⟨m, rest ++ ms, by rw [hms, hq]; rfl, hlt, hshape⟩
  · obtain ⟨old, hold⟩ := h.queued
    refine ⟨old, ?_⟩
    rw [hms, map_append, map_append, hold, append_assoc]
  · obtain ⟨hcut, hfin⟩ := h.synOpened (hclosed.symm.trans hop)
    refine ⟨hcut, ?_⟩
    rintro ⟨m, hm, hmfin⟩
    show ∃ m ∈ o.conn.rxq, m.flags.fin = true
    rw [hms]
    rcases mem_append.1 hm with hm | hm
    · obtain ⟨m', hm', hfin'⟩ := hfin ⟨m, hm, hmfin⟩
      exact ⟨m', mem_append_left _ hm', hfin'⟩
    · exact ⟨m, mem_append_right _ hm, hmfin⟩
  · -- behind the FIN nothing is queued
    have hbefore := h.closed (hclosed.symm.trans hcl)
    obtain ⟨m, hm, hmfin⟩ := hbefore.1
    have hnil : ms = [] := by
      by_contra hne
      exact absurd hmfin (by simp [finLast_append hlast hne m hm])
    subst hnil
    rw [append_nil] at hms
    refine ⟨⟨m, mem_append_left _ hm, hmfin⟩, ?_⟩
    rw [hms]
    exact hbefore.2

def popped (c : Conn) (o : PopOut) : Conn :=
  { c with
    rxq := o.rxq
    rxClosed := o.closed
    rxExclusive := o.inside
    rcvWnd := c.rcvWnd + BitVec.ofNat 32 o.readlen }

/-- What a read does that does not block: nothing on a closed receive side;
otherwise it takes whole buffers, or waits for its part of the top one. -/
theorem read_cases {len : Nat} {iov : Option (List Nat)} (hst : step s (.read len iov) = some s') :
    (s.conn.rxClosed = true ∧ s' = s) ∨
    (s.conn.rxClosed = false ∧ s.conn.rxExclusive = false ∧ s.conn.rxq ≠ [] ∧
      ∃ o, PopSpec (iovLen iov len) s.conn.rxq 0 o ∧ 0 < iovLen iov len ∧
        readReturns s len iov = o.readlen ∧
        ((o.inside = false ∧
            s' = { s with conn := popped s.conn o, returned := s.returned ++ bytes o.taken }) ∨
          (o.inside = true ∧ s' = { s with
              conn := popped s.conn o
              pending := some ⟨o.taken, iovLen iov len - (bytes o.taken).length, iov⟩
              cutFin := s.cutFin || (o.rxq.head?.elim false fun m => m.flags.fin) }))) := by
  simp only [step] at hst
  split at hst
  · cases hst
  rename_i hnot
  rw [not_or] at hnot
  obtain ⟨hblock, hlen⟩ := hnot
  have hpos : 0 < iovLen iov len := Nat.pos_of_ne_zero hlen
  cases hcl : s.conn.rxClosed with
  | true =>
    left
    have hneg : - (s.conn.err : Int) ≤ 0 := by omega
    simp only [tcpReadWait, hcl, if_true, hneg] at hst
    exact ⟨rfl, (some.inj hst).symm⟩
  | false =>
    right
    have hwait : tcpReadWait s.conn (iovLen iov len) =
        (popped s.conn (popLoop (iovLen iov len) s.conn.rxq 0),
          ((popLoop (iovLen iov len) s.conn.rxq 0).readlen : Int),
          popLoop (iovLen iov len) s.conn.rxq 0) := by
      rw [tcpReadWait, hcl]
      rfl
    have hspec := popLoop_spec (q := s.conn.rxq) (Nat.zero_le (iovLen iov len))
    simp only [readBlocks, hcl, Bool.not_false, Bool.true_and, Bool.or_eq_true,
      List.isEmpty_iff, not_or, Bool.not_eq_true] at hblock
    refine ⟨rfl, hblock.1, hblock.2, _, hspec, hpos, by rw [readReturns, hwait], ?_⟩
    rw [hwait] at hst
    dsimp only at hst
    generalize popLoop (iovLen iov len) s.conn.rxq 0 = o at hst hspec
    split at hst
    · -- nothing was counted, so nothing was taken
      rename_i hzero
      obtain ⟨hin, hnone⟩ := hspec.of_zero hpos (by omega)
      exact Or.inl ⟨hin, by rw [hnone, append_nil]; exact (some.inj hst).symm⟩
    · split at hst
      · rename_i hin
        exact Or.inr ⟨hin, (some.inj hst).symm⟩
      · rename_i hin
        rw [Bool.not_eq_true] at hin
        refine Or.inl ⟨hin, ?_⟩
        have hroom : Room iov (bytes o.taken).length := by
          rintro shape rfl
          obtain ⟨hread, hle⟩ := hspec.whole hin
          rw [iovLen, elim_some] at hle
          omega
        rw [copyOut_none hroom] at hst
        exact (some.inj hst).symm

theorem window_read {len : Nat} {iov : Option (List Nat)}
    (hexcl : s.conn.rxExclusive = s.pending.isSome)
    (hwindow : s.conn.rcvWnd.toNat + (bytes s.conn.rxq).length ≤
      tcpWin + s.pending.elim 0 Pending.rest)
    (hst : step s (.read len iov) = some s') :
    s'.conn.rcvWnd.toNat + (bytes s'.conn.rxq).length ≤ tcpWin + s'.pending.elim 0 Pending.rest := by
  rcases read_cases hst with ⟨-, rfl⟩ | ⟨-, hfree, -, o, hspec, -, -, hcase⟩
  · exact hwindow
  have hpend : s.pending = none := by
    rw [hfree] at hexcl
    exact isNone_iff_eq_none.1 (by simpa using hexcl.symm)
  have hlen : (bytes s.conn.rxq).length = (bytes o.taken).length + (bytes o.rxq).length := by
    rw [hspec.split, bytes_append, length_append]
  rw [hpend, elim_none, hlen] at hwindow
  have hwin : tcpWin = 131071 := rfl
  have hopen : o.readlen < 2 ^ 31 → (s.conn.rcvWnd + BitVec.ofNat 32 o.readlen).toNat =
      s.conn.rcvWnd.toNat + o.readlen := by
    intro hlt
    rw [BitVec.toNat_add, BitVec.toNat_ofNat, Nat.mod_eq_of_lt (a := o.readlen) (by omega),
      Nat.mod_eq_of_lt (by omega)]
  rcases hcase with ⟨hin, rfl⟩ | ⟨hin, rfl⟩
  · obtain ⟨hcount, -⟩ := hspec.whole hin
    show (s.conn.rcvWnd + BitVec.ofNat 32 o.readlen).toNat + (bytes o.rxq).length ≤
      tcpWin + s.pending.elim 0 Pending.rest
    rw [hopen (by omega), hpend, elim_none]
    omega
  · obtain ⟨hcount, m, rest, hq, hlt, hgt, -⟩ := hspec.part hin
    have htop : (bytes o.rxq).length = m.data.length + (bytes rest).length := by
      rw [hq, bytes_cons, length_append]
    show (s.conn.rcvWnd + BitVec.ofNat 32 o.readlen).toNat + (bytes o.rxq).length ≤
      tcpWin + (iovLen iov len - (bytes o.taken).length)
    rw [hopen (by omega)]
    omega

theorem window_finish (hwindow : s.conn.rcvWnd.toNat + (bytes s.conn.rxq).length ≤
      tcpWin + s.pending.elim 0 Pending.rest)
    (hst : step s .readFinish = some s') :
    s'.conn.rcvWnd.toNat + (bytes s'.conn.rxq).length ≤ tcpWin + s'.pending.elim 0 Pending.rest := by
  simp only [step] at hst
  split at hst
  case h_2 => cases hst
  rename_i r m rest hpend hq
  rw [hpend, elim_some, hq, bytes_cons, length_append] at hwindow
  unfold mbufPull at hst
  split at hst
  · cases hst
  rename_i m' hpull
  split at hpull
  · cases hpull
  rename_i hlen
  cases hpull
  cases hst
  show s.conn.rcvWnd.toNat + (m.data.drop r.rest ++ bytes rest).length ≤ tcpWin + 0
  rw [length_append, length_drop]
  omega

theorem readInv_read {len : Nat} {iov : Option (List Nat)} (h : ReadInv s)
    (hst : step s (.read len iov) = some s') : ReadInv s' := by
  rcases read_cases hst with ⟨-, rfl⟩ | ⟨hopen, hexcl, -, o, hspec, -, -, hcase⟩
  · exact h
  obtain ⟨hcut, hfin⟩ := h.synOpened hopen
  have hpend := h.pending_none hexcl
  have hacct := h.acct
  have hheld : s.held = [] := by rw [Sys.held, hpend]; rfl
  rw [hheld, append_nil, hspec.split, bytes_append] at hacct
  have hqueued : ∃ old, s.appended.map (·.flags.fin) = old ++ o.rxq.map (·.flags.fin) := by
    obtain ⟨old, hold⟩ := h.queued
    rw [hspec.split, map_append, ← append_assoc] at hold
    exact ⟨_, hold⟩
  have hreceived : o.closed = true → s.finReceived := by
    intro hcl
    obtain ⟨m, hm, hmfin⟩ := hspec.closed_fin hcl
    exact h.finReceived_of_mem hm hmfin
  rcases hcase with ⟨hin, rfl⟩ | ⟨hin, rfl⟩
  · refine ⟨?_, h.err, ?_, ?_, h.last, hqueued, fun hop => ⟨hcut, fun hrec => ?_⟩,
      fun hcl => ⟨hreceived hcl, fun _ => ⟨hpend, ?_⟩, fun hcut' => ?_⟩⟩
    · show s.log = s.returned ++ bytes o.taken ++ s.held ++ bytes o.rxq
      rw [hheld, append_nil, append_assoc]
      exact hacct
    · show o.inside = s.pending.isSome
      rw [hin, hpend]
      rfl
    · intro p hp
      exact absurd (hpend.symm.trans hp) (by simp)
    · exact hspec.open_rxq hop (hfin hrec)
    · exact hspec.closed_bytes h.finLast_rxq hin hcl
    · exact absurd (hcut.symm.trans hcut') (by simp)
  · obtain ⟨-, m, rest, hq, hlt, hgt, hmfin⟩ := hspec.part hin
    rw [Nat.zero_add] at hlt hgt
    have hcut' : (s.cutFin || (o.rxq.head?.elim false fun m => m.flags.fin)) = m.flags.fin := by
      rw [hcut, hq]
      rfl
    refine ⟨?_, h.err, hin, fun p hp => ?_, h.last, hqueued, fun hop => ⟨?_, fun hrec => ?_⟩,
      fun hcl => ⟨hreceived hcl, fun hno => ?_, fun _ hnil => ?_⟩⟩
    · show s.log = s.returned ++ bytes o.taken ++ bytes o.rxq
      rw [append_assoc]
      exact hacct
    · cases hp
      refine ⟨m, rest, hq, ?_, ?_⟩
      · show iovLen iov len - (bytes o.taken).length < m.data.length
        omega
      · intro shape hshape
        replace hshape : iov = some shape := hshape
        subst hshape
        show shape.sum = (bytes o.taken).length + (shape.sum - (bytes o.taken).length)
        rw [iovLen, elim_some] at hlt
        omega
    · show (s.cutFin || (o.rxq.head?.elim false fun m => m.flags.fin)) = false
      rw [hcut']
      cases hf : m.flags.fin with
      | false => rfl
      | true => exact absurd ((hmfin hf).symm.trans hop) (by simp)
    · exact hspec.open_rxq hop (hfin hrec)
    · -- the FIN that closed the receive side is the one of the top buffer
      replace hno : (s.cutFin || (o.rxq.head?.elim false fun m => m.flags.fin)) = false := hno
      rw [hcut'] at hno
      have hlast := h.finLast_rxq
      rw [hspec.split] at hlast
      rcases hspec.closed hcl with ⟨m', hm', hfin'⟩ | ⟨m', rest', hq', hfin', -⟩
      · have := finLast_append hlast (by rw [hq]; exact cons_ne_nil _ _) m' hm'
        exact absurd (this.symm.trans hfin') (by simp)
      · rw [hq] at hq'
        obtain ⟨rfl, -⟩ := List.cons.inj hq'
        exact absurd (hno.symm.trans hfin') (by simp)
    · replace hnil : bytes o.rxq = [] := hnil
      have hlen := congrArg List.length hnil
      rw [hq, bytes_cons, length_append, length_nil] at hlen
      omega

theorem readInv_finish (h : ReadInv s) (hst : step s .readFinish = some s') : ReadInv s' := by
  simp only [step] at hst
  split at hst
  case h_2 => cases hst
  rename_i p m rest hpend hq
  obtain ⟨m', rest', hq', hlt, hshape⟩ := h.part p hpend
  obtain ⟨rfl, rfl⟩ := List.cons.inj (hq.symm.trans hq')
  rw [mbufPull, if_neg (Nat.not_lt.2 (Nat.le_of_lt hlt)), copyOut_some hshape (Nat.le_of_lt hlt)] at hst
  cases hst
  have hheld : s.held = bytes p.taken := by rw [Sys.held, hpend]; rfl
  have hacct := h.acct
  have hqueued := h.queued
  have hopened := h.synOpened
  have hclosed := h.closed
  rw [hheld, hq, bytes_cons] at hacct
  rw [hq] at hqueued hopened
  have hleft : bytes ({ m with data := m.data.drop p.rest, segSeq := m.segSeq + BitVec.ofNat 32 p.rest } ::
      rest) ≠ [] := by
    intro hnil
    have hlen := congrArg List.length hnil
    rw [bytes_cons, length_append, length_drop, length_nil] at hlen
    omega
  refine ⟨?_, h.err, rfl, nofun, h.last, hqueued, fun hop => ?_, fun hcl => ?_⟩
  · show s.log = s.returned ++ (bytes p.taken ++ m.data.take p.rest) ++ [] ++
      (m.data.drop p.rest ++ bytes rest)
    rw [hacct, append_nil]
    simp only [append_assoc]
    rw [← append_assoc (m.data.take p.rest), take_append_drop]
  · obtain ⟨hcut, hfin⟩ := hopened hop
    refine ⟨hcut, fun hrec => ?_⟩
    obtain ⟨m', hm', hmfin⟩ := hfin hrec
    rcases mem_cons.1 hm' with rfl | hm'
    · exact ⟨_, mem_cons_self .., hmfin⟩
    · exact ⟨m', mem_cons_of_mem _ hm', hmfin⟩
  · obtain ⟨hrec, hno, -⟩ := hclosed hcl
    refine ⟨hrec, fun hcut => ?_, fun _ => hleft⟩
    exact absurd ((hno hcut).1.symm.trans hpend) (by simp)

theorem readInv_step {e : Event} (h : ReadInv s) (hok : rxPremise s e)
    (hst : step s e = some s') : ReadInv s' := by
  cases e with
  | rx seg sndNxt => exact readInv_rx h hok hst
  | read len iov => exact readInv_read h hst
  | readFinish => exact readInv_finish h hst
  | transmit sndNxt txq exclusive =>
    cases hst
    exact h.of_same { SameRx.refl with }
  | shutdownTx txq =>
    simp only [step] at hst
    split at hst
    · cases hst
    · cases hst
      exact h.of_same { SameRx.refl with }

/-- A read that returns 0 says the truth unless it comes short. -/
theorem ReadInv.zero_iff {len : Nat} {iov : Option (List Nat)} (h : ReadInv s)
    (hst : step s (.read len iov) = some s') (hzero : readReturns s len iov = 0) :
    (s.returned = s.log ∧ s.finReceived) ↔ ¬ readsShort s := by
  have hlen := congrArg List.length h.acct
  rw [length_append, length_append] at hlen
  rcases read_cases hst with ⟨hcl, -⟩ | ⟨hopen, hexcl, hne, o, hspec, hpos, hret, hcase⟩
  · -- the receive side is closed: bytes are left exactly if the FIN's buffer was cut
    obtain ⟨hrec, hall, hleft⟩ := h.closed hcl
    cases hcut : s.cutFin with
    | true =>
      refine ⟨fun hdone => absurd hdone.1 fun heq => ?_, fun hnot => absurd (Or.inl hcut) hnot⟩
      have hbytes := length_pos_of_ne_nil (hleft hcut)
      rw [heq] at hlen
      omega
    | false =>
      obtain ⟨hpend, hnil⟩ := hall hcut
      refine ⟨fun _ => ?_, fun _ => ⟨?_, hrec⟩⟩
      · rintro (hc | ⟨hc, -⟩)
        · exact absurd (hcut.symm.trans hc) (by simp)
        · exact absurd (hcl.symm.trans hc) (by simp)
      · rw [h.acct, hnil, Sys.held, hpend]
        simp
  · -- the loop counted nothing: whatever is queued is empty
    obtain ⟨hcut, hfin⟩ := h.synOpened hopen
    have hread : o.readlen = 0 := by
      rw [hret] at hzero
      exact_mod_cast hzero
    obtain ⟨hin, htaken⟩ := hspec.of_zero hpos hread
    have hrest : bytes o.rxq = [] := by
      rcases hspec.stop hin with hnil | hfull | ⟨m, rest, -, -, -, hcl⟩
      · rw [hnil]
        rfl
      · omega
      · exact hspec.closed_bytes h.finLast_rxq hin hcl
    have hnil : bytes s.conn.rxq = [] := by
      rw [hspec.split, bytes_append]
      exact append_eq_nil_iff.2 ⟨htaken, hrest⟩
    have hpend := h.pending_none hexcl
    have hall : s.returned = s.log := by
      rw [h.acct, hnil, Sys.held, hpend]
      simp
    constructor
    · rintro ⟨-, hrec⟩ (hc | ⟨-, hempty⟩)
      · exact absurd (hcut.symm.trans hc) (by simp)
      · obtain ⟨m, hm, hmfin⟩ := hfin hrec
        exact absurd ((hempty m hm).2.symm.trans hmfin) (by simp)
    · intro hnot
      refine ⟨hall, ?_⟩
      by_contra hrec
      refine hnot (Or.inr ⟨hopen, fun m hm => ⟨flatMap_eq_nil_iff.1 hnil m hm, ?_⟩⟩)
      rw [← Bool.not_eq_true]
      exact fun hmfin => hrec (h.finReceived_of_mem hm hmfin)

end Inv

/-! ## Reads lose nothing -/

/-- In every run the bytes returned are a first part of the bytes received, and a read that
returns 0 comes after all of them exactly if no earlier read ended inside the FIN's buffer and not
only empty buffers are queued. -/
theorem reads_complete_iff {c : Conn} (hfresh : c.fresh) {s : Sys}
    (hreach : Reaches step rxPremise (sysInit c) s) :
    s.returned <+: s.log ∧
      ∀ len iov s', step s (.read len iov) = some s' → readReturns s len iov = 0 →
        ((s.returned = s.log ∧ s.finReceived) ↔ ¬ readsShort s) := by
  have h : ReadInv s :=
    hreach.invariant (readInv_init hfresh) fun _ _ _ hinv hok hst => readInv_step hinv hok hst
  refine ⟨⟨s.held ++ bytes s.conn.rxq, ?_⟩, fun len iov s' hst hzero => h.zero_iff hst hzero⟩
  rw [← append_assoc]
  exact h.acct.symm

instance (s : Sys) : (e : Event) → Decidable (rxPremise s e)
  | .rx _ _ => inferInstanceAs (Decidable (_ ∧ _))
  | .read _ _ => inferInstanceAs (Decidable True)
  | .readFinish => inferInstanceAs (Decidable True)
  | .transmit _ _ _ => inferInstanceAs (Decidable True)
  | .shutdownTx _ => inferInstanceAs (Decidable True)

def openConn (rcvNxt rcvWnd : Seq) : Conn :=
  { state := .established, sndUna := 0, sndNxt := 0, sndWnd := 0, sndWl1 := 0, sndWl2 := 0
    sndWscale := 0, rcvNxt := rcvNxt, rcvWnd := rcvWnd, rcvMss := 1460, err := 0, rxClosed := false
    rxExclusive := false, rxqOooLen := 0, rxqOoo := [], rxq := [], txClosed := false
    txExclusive := false, txq := [], doFastRetransmit := false, fastRetransmitLastAck := 0
    repAcks := 0, acksDelayedCnt := 0, ackDelayed := false }

def lastTwo : Segment := { seq := 1, flags := { fin := true }, data := [7, 8], length_lt := by decide }

/-- A vector of three bytes takes both bytes; the next read returns 0. -/
theorem reads_complete_two_bytes : ∃ s, Reaches step rxPremise (sysInit (openConn 1 tcpWin)) s ∧
      (step s (.read 1 none)).isSome = true ∧ readReturns s 1 none = 0 ∧
      ((s.returned = s.log ∧ s.finReceived) ↔ ¬ readsShort s) := by
  obtain ⟨s, hreach, hsome, hzero⟩ : ∃ s, Reaches step rxPremise (sysInit (openConn 1 tcpWin)) s ∧
      (step s (.read 1 none)).isSome = true ∧ readReturns s 1 none = 0 :=
    exists_of_runChecked [.rx lastTwo 0, .read 0 (some [1, 0, 2])] (by decide)
  obtain ⟨s', hst⟩ := isSome_iff_exists.1 hsome
  exact ⟨s, hreach, hsome, hzero, (reads_complete_iff (by decide) hreach).2 1 none s' hst hzero⟩

/-- A read of one byte ends inside the last segment, and the read after it returns
0 with a byte still queued. -/
theorem cut_fin_ends_stream_early : ∃ s, Reaches step rxPremise (sysInit (openConn 1 tcpWin)) s ∧
      (step s (.read 1 none)).isSome = true ∧ readReturns s 1 none = 0 ∧
      s.returned = [7] ∧ s.log = [7, 8] :=
  exists_of_runChecked [.rx lastTwo 0, .read 1 none, .readFinish] (by decide)

end Svalinn.Tcp
