/-
  Tcp/Reassembly.lean --- the bytes appended to `rxq` are the stream.

  Positions of the stream are natural numbers; position `p` has sequence number
  `irs + 1 + p` modulo `2^32` (`serialAt`).  The FIN takes the position after the
  last byte, so a segment that carries it ends at `length + 1`.  `IsCut` places a
  buffer in the stream.

  `Advance` is what appending text does: the queue grows by the bytes between the
  old and the new `rcv_nxt`, and the right edge of the window stays.  It is proved
  of `tcp_rx_append_text`, of the drain loop and of `tcp_rx_text`, and composed
  along a run.

  The tail clip of `tcp_rx_append_text` counts the FIN as a byte of the buffer.
  Where a FIN is appended whose end lies beyond the window, a byte is lost or the
  trim stops the program; `FinCut` names this outcome, and every specification
  here says that the text was appended exactly or that this has happened.
-/
import Svalinn.Lib.Bytes
import Svalinn.Tcp.Read

set_option autoImplicit false

namespace Svalinn.Tcp

open Svalinn.Lib List Option BitVec

/-! ## Segments of a stream -/

section Cuts

variable (stream : List UInt8) (base : Seq)

/-- The buffer holds positions `a` to `e` of the stream; it carries the FIN exactly
if it reaches the position after the last byte. -/
structure IsCut (m : Mbuf) (a e : Nat) : Prop where
  lt : a < e
  le : e ≤ stream.length + 1
  segSeq : m.segSeq = serialAt base a
  segEnd : m.segEnd = serialAt base e
  data : m.data = slice stream a e
  fin : m.flags.fin = true ↔ e = stream.length + 1
  short : e ≤ a + 2 ^ 16

end Cuts

/-! ## Appending text -/

/-- From `c` at position `p` to `c'` at position `q`: the bytes in between were
appended, a FIN only at the end of the stream, and the right edge of the window
stayed. -/
structure Progress (stream : List UInt8) (base : Seq) (c c' : Conn) (p q : Nat) : Prop where
  le : p ≤ q
  bound : q ≤ stream.length + 1
  rcvNxt : c'.rcvNxt = serialAt base q
  edge : q + c'.rcvWnd.toNat = p + c.rcvWnd.toNat
  rxq : ∃ ms, c'.rxq = c.rxq ++ ms ∧ bytes ms = slice stream p q ∧ finLast ms = true ∧
    ((∃ m ∈ ms, m.flags.fin = true) → q = stream.length + 1) ∧ (p = stream.length + 1 → ms = [])

/-- Progress of the text functions, which leave the connection state alone. -/
structure Advance (stream : List UInt8) (base : Seq) (c c' : Conn) (p q : Nat) : Prop
    extends Progress stream base c c' p q where
  state : c'.state = c.state

section Text

variable {stream : List UInt8} {base : Seq} {c c' c'' : Conn} {m : Mbuf} {a e p q r : Nat}

theorem Progress.refl (hp : p ≤ stream.length + 1) (h : c.rcvNxt = serialAt base p) :
    Progress stream base c c p p where
  le := Nat.le_refl p
  bound := hp
  rcvNxt := h
  edge := rfl
  rxq := ⟨[], by simp, by simp [slice_self], rfl, nofun, fun _ => rfl⟩

theorem Progress.trans (h₁ : Progress stream base c c' p q) (h₂ : Progress stream base c' c'' q r) :
    Progress stream base c c'' p r where
  le := Nat.le_trans h₁.le h₂.le
  bound := h₂.bound
  rcvNxt := h₂.rcvNxt
  edge := h₂.edge.trans h₁.edge
  rxq := by
    obtain ⟨ms, hrxq, hdata, hlast, hfin, hend⟩ := h₁.rxq
    obtain ⟨ms', hrxq', hdata', hlast', hfin', hend'⟩ := h₂.rxq
    refine ⟨ms ++ ms', by rw [hrxq', hrxq, List.append_assoc], ?_, ?_, ?_, ?_⟩
    · rw [bytes_append, hdata, hdata', slice_append stream h₁.le h₂.le]
    · -- behind a FIN nothing is appended
      by_cases hf : ∃ m ∈ ms, m.flags.fin = true
      · rw [hend' (hfin hf), append_nil]
        exact hlast
      · exact finLast_append_of_not hlast' fun m hm hmfin => hf ⟨m, hm, hmfin⟩
    · rintro ⟨m, hm, hmfin⟩
      rcases mem_append.1 hm with hm | hm
      · have hq := hfin ⟨m, hm, hmfin⟩
        exact Nat.le_antisymm h₂.bound (hq ▸ h₂.le)
      · exact hfin' ⟨m, hm, hmfin⟩
    · intro hp
      have hq : q = stream.length + 1 := Nat.le_antisymm h₁.bound (hp ▸ h₁.le)
      rw [hend hp, hend' hq]
      rfl

theorem Progress.of_same (hsame : SameRx c c') (h : Progress stream base c' c'' p q) :
    Progress stream base c c'' p q :=
  ⟨h.le, h.bound, h.rcvNxt, by rw [← hsame.rcvWnd]; exact h.edge, by rw [← hsame.rxq]; exact h.rxq⟩

theorem Progress.same (h : Progress stream base c c' p q) (hsame : SameRx c' c'') :
    Progress stream base c c'' p q :=
  ⟨h.le, h.bound, hsame.rcvNxt.trans h.rcvNxt, by rw [hsame.rcvWnd]; exact h.edge,
    by rw [hsame.rxq]; exact h.rxq⟩

theorem Advance.refl (hp : p ≤ stream.length + 1) (h : c.rcvNxt = serialAt base p) :
    Advance stream base c c p p := ⟨.refl hp h, rfl⟩

theorem Advance.trans (h₁ : Advance stream base c c' p q) (h₂ : Advance stream base c' c'' q r) :
    Advance stream base c c'' p r :=
  ⟨h₁.toProgress.trans h₂.toProgress, h₂.state.trans h₁.state⟩

/-- How far apart the numbers may be for every comparison of the receive path to
be right. -/
theorem near_of_bound {x y : Nat} (h₁ : x ≤ y + 2 ^ 30) (h₂ : y ≤ x + 2 ^ 30) : Near 32 x y := by
  constructor <;> omega

/-- The comparisons of the drain loop for a segment from `a` to `e`. -/
theorem drain_tests (base : Seq) {a e p : Nat} (hae : a ≤ e) (he : e ≤ p + 2 ^ 30)
    (ha : p ≤ a + 2 ^ 30) : (wrapsLte (serialAt base e) (serialAt base p) ↔ e ≤ p) ∧
      (wrapsGt (serialAt base a) (serialAt base p) ↔ p < a) :=
  ⟨wrapsLte_serialAt base (near_of_bound he (by omega)),
    wrapsGt_serialAt base (near_of_bound (by omega) ha)⟩

theorem IsCut.length_data (h : IsCut stream base m a e) :
    m.data.length = min e stream.length - a := by
  rw [h.data, length_slice]

theorem edge_serialAt (hp : c.rcvNxt = serialAt base p) :
    c.rcvNxt + c.rcvWnd = serialAt base (p + c.rcvWnd.toNat) := by
  rw [hp, ← serialAt_add, ofNat_toNat, setWidth_eq]

/-- Clipping the head of a buffer from position `a` at position `p`. -/
theorem clipHead_at (hseq : m.segSeq = serialAt base a) (hp : c.rcvNxt = serialAt base p) (hap : a ≤ p)
    (hnear : p ≤ a + 2 ^ 30) (hroom : p - a ≤ m.data.length) :
    clipHead c m = some { m with segSeq := serialAt base p, data := m.data.drop (p - a) } := by
  have hlt : wrapsLt (serialAt base a) (serialAt base p) ↔ a < p :=
    wrapsLt_serialAt base (near_of_bound (by omega) (by omega))
  unfold clipHead
  rw [hseq, hp]
  by_cases hpos : a < p
  · have hdist : (serialAt base p - serialAt base a).toNat = p - a :=
      serialAt_sub_toNat base hap (by omega)
    rw [if_pos (hlt.2 hpos)]
    simp only [mbufPull, hdist, gt_iff_lt, Nat.not_lt.2 hroom, if_false, map_some]
    rw [hseq, serialAt_sub base hap, serialAt_add, Nat.add_sub_cancel' hap]
  · obtain rfl : a = p := by omega
    rw [if_neg (mt hlt.1 hpos), ← hseq, Nat.sub_self, drop_zero]

/-- Clipping the tail of a buffer that ends at position `e`: the FIN counts for a byte. -/
theorem clipTail_at (hend : m.segEnd = serialAt base e) (hp : c.rcvNxt = serialAt base p)
    (hpe : p < e) (he : e ≤ p + 2 ^ 30) (hw : c.rcvWnd.toNat ≤ 2 ^ 30) :
    clipTail c m = if p + c.rcvWnd.toNat < e then
        if e - (p + c.rcvWnd.toNat) > m.data.length then none
        else some { m with segEnd := serialAt base (p + c.rcvWnd.toNat)
                           data := m.data.take (m.data.length - (e - (p + c.rcvWnd.toNat))) }
      else some m := by
  have hlt : wrapsLt (serialAt base (p + c.rcvWnd.toNat)) (serialAt base e) ↔
      p + c.rcvWnd.toNat < e := wrapsLt_serialAt base (near_of_bound (by omega) (by omega))
  unfold clipTail
  rw [edge_serialAt hp, hend]
  by_cases hout : p + c.rcvWnd.toNat < e
  · have hdist : (serialAt base e - serialAt base (p + c.rcvWnd.toNat)).toNat =
        e - (p + c.rcvWnd.toNat) := serialAt_sub_toNat base (by omega) (by omega)
    rw [if_pos (hlt.2 hout), if_pos hout]
    simp only [mbufTrim, hdist]
    split <;> rfl
  · rw [if_neg (mt hlt.1 hout), if_neg hout]

theorem clipHead_spec (h : IsCut stream base m a e) (hp : c.rcvNxt = serialAt base p) (hap : a ≤ p)
    (hpe : p < e) :
    ∃ m', clipHead c m = some m' ∧ m'.segSeq = serialAt base p ∧ m'.segEnd = m.segEnd ∧
      m'.data = slice stream p e ∧ m'.flags = m.flags := by
  have hshort := h.short
  have hle := h.le
  have hlen := h.length_data
  refine ⟨_, clipHead_at h.segSeq hp hap (by omega) (by omega), rfl, rfl, ?_, rfl⟩
  simp only [h.data, drop_slice, Nat.add_sub_cancel' hap]

/-- Clipping the tail at the edge of the window.  A segment that carries the FIN
has to end inside the window: its last position is no byte of the buffer. -/
theorem clipTail_spec (hp : c.rcvNxt = serialAt base p) (hpe : p < e) (he : e ≤ p + 2 ^ 30)
    (hw : c.rcvWnd.toNat ≤ 2 ^ 30) (hle : e ≤ stream.length + 1)
    (hseq : m.segSeq = serialAt base p) (hend : m.segEnd = serialAt base e)
    (hdata : m.data = slice stream p e)
    (hfin : e = stream.length + 1 → e ≤ p + c.rcvWnd.toNat) :
    ∃ m', clipTail c m = some m' ∧ m'.segSeq = serialAt base p ∧
      m'.segEnd = serialAt base (min e (p + c.rcvWnd.toNat)) ∧
      m'.data = slice stream p (min e (p + c.rcvWnd.toNat)) ∧ m'.flags = m.flags := by
  rw [clipTail_at hend hp hpe he hw]
  by_cases hlt : p + c.rcvWnd.toNat < e
  · have hlen : m.data.length = e - p := by
      rw [hdata, length_slice, Nat.min_eq_left (by omega)]
    have hkeep : e - p - (e - (p + c.rcvWnd.toNat)) = c.rcvWnd.toNat := by omega
    rw [if_pos hlt, if_neg (by omega), Nat.min_eq_right (by omega)]
    refine ⟨_, rfl, hseq, rfl, ?_, rfl⟩
    show m.data.take (m.data.length - _) = _
    rw [hlen, hkeep, hdata, take_slice stream (by omega)]
  · rw [if_neg hlt, Nat.min_eq_left (by omega)]
    exact ⟨m, rfl, hseq, hend, hdata, rfl⟩

theorem tcpRxAppendText_spec (h : IsCut stream base m a e) (hp : c.rcvNxt = serialAt base p)
    (hap : a ≤ p) (hpe : p < e) (hw : c.rcvWnd.toNat ≤ 2 ^ 30)
    (hfin : m.flags.fin = true → e ≤ p + c.rcvWnd.toNat) :
    ∃ c', tcpRxAppendText c m = some c' ∧
      Advance stream base c c' p (min e (p + c.rcvWnd.toNat)) ∧ c'.rxqOoo = c.rxqOoo := by
  have hshort := h.short
  have hle := h.le
  obtain ⟨m₁, hhead, hseq₁, hend₁, hdata₁, hflags₁⟩ := clipHead_spec h hp hap hpe
  rw [h.segEnd] at hend₁
  obtain ⟨m₂, htail, hseq₂, hend₂, hdata₂, hflags₂⟩ :=
    clipTail_spec hp hpe (by omega) hw hle hseq₁ hend₁ hdata₁ (fun he => hfin (h.fin.2 he))
  have hend : m₂.flags.fin = true → min e (p + c.rcvWnd.toNat) = stream.length + 1 := by
    intro hf
    rw [hflags₂, hflags₁] at hf
    rw [Nat.min_eq_left (hfin hf)]
    exact h.fin.1 hf
  generalize hq : min e (p + c.rcvWnd.toNat) = q at *
  have hpq : p ≤ q := by omega
  refine ⟨{ c with rcvNxt := m₂.segEnd, rcvWnd := c.rcvWnd - (m₂.segEnd - m₂.segSeq)
                   rxq := c.rxq ++ [m₂] }, ?_, ?_, rfl⟩
  · simp only [tcpRxAppendText, hhead, htail]
  refine ⟨⟨hpq, by omega, hend₂, ?_, [m₂], rfl, by simp [hdata₂], rfl, ?_, by omega⟩, rfl⟩
  case refine_2 =>
    rintro ⟨m', hm', hf⟩
    rw [mem_singleton.1 hm'] at hf
    exact hend hf
  -- the window shrinks by what `rcv_nxt` advances
  have hadv : (m₂.segEnd - m₂.segSeq).toNat = q - p := by
    rw [hseq₂, hend₂]
    exact serialAt_sub_toNat base hpq (by omega)
  have hsub : (c.rcvWnd - (m₂.segEnd - m₂.segSeq)).toNat = c.rcvWnd.toNat - (q - p) := by
    rw [toNat_sub_of_le, hadv]
    rw [le_def, hadv]
    omega
  simp only [hsub]
  omega

/-- The trim at the edge of the window takes the FIN for a byte: with the FIN
beyond the window it removes one byte too many, and with a closed window it stops
the program. -/
theorem clipTail_cut (hp : c.rcvNxt = serialAt base p) (hw : c.rcvWnd.toNat ≤ 2 ^ 30)
    (hlen : stream.length + 1 ≤ p + 2 ^ 30) (hend : m.segEnd = serialAt base (stream.length + 1))
    (hdata : m.data = slice stream p (stream.length + 1))
    (hout : p + c.rcvWnd.toNat < stream.length + 1) :
    clipTail c m = if c.rcvWnd.toNat = 0 then none else some { m with
      segEnd := serialAt base (p + c.rcvWnd.toNat)
      data := m.data.take (c.rcvWnd.toNat - 1) } := by
  have hbytes : m.data.length = stream.length - p := by
    rw [hdata, length_slice, Nat.min_eq_right (Nat.le_succ _)]
  rw [clipTail_at hend hp (by omega) hlen hw, if_pos hout]
  by_cases hzero : c.rcvWnd.toNat = 0
  · rw [if_pos hzero, if_pos (by omega)]
  · have hkeep : m.data.length - (stream.length + 1 - (p + c.rcvWnd.toNat)) = c.rcvWnd.toNat - 1 := by
      omega
    rw [if_neg hzero, if_neg (by omega), hkeep]

theorem tcpRxAppendText_cut (h : IsCut stream base m a e) (hfin : m.flags.fin = true)
    (hp : c.rcvNxt = serialAt base p) (hap : a ≤ p) (hpe : p < e) (hw : c.rcvWnd.toNat ≤ 2 ^ 30)
    (hout : p + c.rcvWnd.toNat < stream.length + 1) :
    (c.rcvWnd.toNat = 0 ∧ tcpRxAppendText c m = none) ∨
    ∃ m', tcpRxAppendText c m = some { c with
        rcvNxt := serialAt base (p + c.rcvWnd.toNat), rcvWnd := 0, rxq := c.rxq ++ [m'] } ∧
      m'.flags = m.flags ∧ m'.data.length + 1 = c.rcvWnd.toNat := by
  have hshort := h.short
  obtain rfl := h.fin.1 hfin
  obtain ⟨m₁, hhead, hseq₁, hend₁, hdata₁, hflags₁⟩ := clipHead_spec h hp hap hpe
  rw [h.segEnd] at hend₁
  have htail := clipTail_cut hp hw (by omega) hend₁ hdata₁ hout
  unfold tcpRxAppendText
  simp only [hhead, htail]
  by_cases hzero : c.rcvWnd.toNat = 0
  · rw [if_pos hzero]
    exact Or.inl ⟨hzero, rfl⟩
  · rw [if_neg hzero]
    refine Or.inr ⟨{ m₁ with segEnd := serialAt base (p + c.rcvWnd.toNat)
                             data := m₁.data.take (c.rcvWnd.toNat - 1) }, ?_, hflags₁, ?_⟩
    · have hadv : serialAt base (p + c.rcvWnd.toNat) - serialAt base p = c.rcvWnd := by
        rw [serialAt_sub base (Nat.le_add_right _ _), Nat.add_sub_cancel_left, ofNat_toNat,
          setWidth_eq]
      simp only [hseq₁, hadv, BitVec.sub_self]
      rfl
    · show (m₁.data.take (c.rcvWnd.toNat - 1)).length + 1 = c.rcvWnd.toNat
      rw [List.length_take, hdata₁, length_slice]
      omega

/-! ## The out-of-order queue -/

/-- The queue `q` holds segments at the positions `ps`, none of them far from `p`. -/
def Placed (stream : List UInt8) (base : Seq) (p : Nat) (q : List Mbuf) (ps : List (Nat × Nat)) :
    Prop :=
  List.Forall₂ (fun m x => IsCut stream base m x.1 x.2 ∧ x.1 ≤ p + tcpWin ∧ p < x.2) q ps

def EndsSorted (ps : List (Nat × Nat)) : Prop := ps.Pairwise fun x y => x.2 ≤ y.2

/-- `rxq_ooo` between steps: segments of the stream that end after `p`, ordered by
their ends, the first of them beyond `p`. -/
def OooOk (stream : List UInt8) (base : Seq) (p : Nat) (q : List Mbuf) : Prop :=
  ∃ ps, Placed stream base p q ps ∧ EndsSorted ps ∧ ∀ x, ps.head? = some x → p < x.1

theorem Placed.mono {q : List Mbuf} {ps : List (Nat × Nat)} {p' : Nat}
    (h : Placed stream base p q ps) (hle : p ≤ p') (hend : ∀ x ∈ ps, p' < x.2) :
    Placed stream base p' q ps := by
  induction h with
  | nil => exact .nil
  | cons hm _ ih =>
    refine .cons ⟨hm.1, by omega, hend _ (mem_cons_self ..)⟩ (ih ?_)
    exact fun x hx => hend x (mem_cons_of_mem _ hx)

/-- From `c` at position `p`, a FIN that ends beyond the window was appended, with
one byte lost before it, or stopped the program. -/
def FinCut (stream : List UInt8) (base : Seq) (c : Conn) (p : Nat) (r : Option Conn) : Prop :=
  p + c.rcvWnd.toNat < stream.length + 1 ∧
    ∀ c', r = some c' → c'.rcvNxt = serialAt base (p + c.rcvWnd.toNat) ∧
      ∃ ms, c'.rxq = c.rxq ++ ms ∧ (∃ m ∈ ms, m.flags.fin = true) ∧
        (bytes ms).length + 1 = c.rcvWnd.toNat

/-- Where `rcv_nxt` stands after the buffer is appended. -/
def clipEnd (edge : Seq) (m : Mbuf) : Seq := if wrapsLt edge m.segEnd then edge else m.segEnd

theorem clipEnd_serialAt {E : Nat} (h : m.segEnd = serialAt base e) (h₁ : e ≤ E + 2 ^ 30)
    (h₂ : E ≤ e + 2 ^ 30) : clipEnd (serialAt base E) m = serialAt base (min e E) := by
  have hlt : wrapsLt (serialAt base E) (serialAt base e) ↔ E < e :=
    wrapsLt_serialAt base (near_of_bound h₂ h₁)
  unfold clipEnd
  rw [h]
  grind

/-- The drain loop, with `rcv_nxt` at `nxt` and the window ending at `edge`, appends a
queued segment that is `bad` there. -/
def drainMeets (bad : Mbuf → Seq → Bool) (edge : Seq) : List Mbuf → Seq → Bool
  | [], _ => false
  | pos :: rest, nxt =>
    if wrapsLte pos.segEnd nxt then drainMeets bad edge rest nxt
    else if wrapsGt pos.segSeq nxt then false
    else bad pos nxt || drainMeets bad edge rest (clipEnd edge pos)

/-- The segment carries a FIN that ends beyond the window. -/
def finBeyond (edge : Seq) (m : Mbuf) : Bool := m.flags.fin && decide (wrapsLt edge m.segEnd)

theorem finBeyond_serialAt {E : Nat} (h : m.segEnd = serialAt base e) (h₁ : e ≤ E + 2 ^ 30)
    (h₂ : E ≤ e + 2 ^ 30) :
    finBeyond (serialAt base E) m = true ↔ ¬ (m.flags.fin = true → e ≤ E) := by
  have hlt : wrapsLt (serialAt base E) (serialAt base e) ↔ E < e :=
    wrapsLt_serialAt base (near_of_bound h₂ h₁)
  unfold finBeyond
  rw [h, Bool.and_eq_true, decide_eq_true_eq, hlt, Classical.not_imp, Nat.not_le]

/-- The text of the segment is taken, and it or a queued segment that follows it brings a
FIN from beyond the window. -/
def takesFinBeyond (c : Conn) (m : Mbuf) : Bool :=
  decide (c.rcvWnd ≠ 0) && decide (wrapsLte m.segSeq c.rcvNxt) &&
    (finBeyond (c.rcvNxt + c.rcvWnd) m ||
      drainMeets (fun pos _ => finBeyond (c.rcvNxt + c.rcvWnd) pos) (c.rcvNxt + c.rcvWnd)
        c.rxqOoo (clipEnd (c.rcvNxt + c.rcvWnd) m))

theorem Progress.then_cut {r : Option Conn} (h : Progress stream base c c' p q)
    (hcut : FinCut stream base c' q r) : FinCut stream base c p r := by
  obtain ⟨hout, hms⟩ := hcut
  have hedge := h.edge
  refine ⟨by omega, fun c'' hc'' => ?_⟩
  obtain ⟨hnxt, ms, hrxq, ⟨m, hm, hmfin⟩, hlen⟩ := hms c'' hc''
  obtain ⟨ms₁, hrxq₁, hbytes, -⟩ := h.rxq
  have hle := h.le
  refine ⟨by rw [← hedge]; exact hnxt, ms₁ ++ ms, by rw [hrxq, hrxq₁, List.append_assoc],
    ⟨m, mem_append_right _ hm, hmfin⟩, ?_⟩
  rw [bytes_append, length_append, hbytes, length_slice]
  omega

theorem drain_full {qs : List Mbuf} {ps : List (Nat × Nat)} {o o' : TextOut} {p₀ : Nat}
    (hq : Placed stream base p₀ qs ps) (hp : o.conn.rcvNxt = serialAt base p) (hp₀ : p₀ ≤ p)
    (hnear : p ≤ p₀ + tcpWin) (hw : o.conn.rcvWnd.toNat = 0) (h : drain qs o = some o') :
    o'.conn.rcvNxt = serialAt base p ∧ ∃ ms, o'.conn.rxq = o.conn.rxq ++ ms ∧ bytes ms = [] := by
  induction hq generalizing o with
  | nil =>
    cases h
    exact ⟨hp, [], (append_nil _).symm, rfl⟩
  | @cons m x qs ps hm _ ih =>
    obtain ⟨hcut, hbefore, hafter⟩ := hm
    have hshort := hcut.short
    have hwin : tcpWin = 131071 := rfl
    have hlt := hcut.lt
    have hle := hcut.le
    unfold drain at h
    rw [hcut.segEnd, hcut.segSeq, hp] at h
    obtain ⟨hlte, hgt⟩ := drain_tests base (a := x.1) (e := x.2) (p := p) (by omega)
      (by omega) (by omega)
    split at h
    · exact ih (o := { o with conn := { o.conn with rxqOooLen := o.conn.rxqOooLen - 1 } }) hp hw h
    split at h
    · cases h
      exact ⟨hp, [], (append_nil _).symm, rfl⟩
    rename_i hnew hin
    rw [hlte] at hnew
    rw [hgt] at hin
    by_cases hfin : m.flags.fin = true
    · -- another FIN would stop the program
      rcases tcpRxAppendText_cut (c := { o.conn with rxqOooLen := o.conn.rxqOooLen - 1 }) hcut hfin
          hp (Nat.le_of_not_lt hin) (Nat.lt_of_not_le hnew) (by dsimp only; omega)
          (by dsimp only; omega) with ⟨-, hstop⟩ | ⟨_, -, -, hlen⟩
      · rw [hstop] at h
        cases h
      · dsimp only at hlen
        omega
    · obtain ⟨c₁, happend, hadv, -⟩ := tcpRxAppendText_spec
        (c := { o.conn with rxqOooLen := o.conn.rxqOooLen - 1 }) hcut hp
        (Nat.le_of_not_lt hin) (Nat.lt_of_not_le hnew) (by dsimp only; omega)
        (fun hf => absurd hf hfin)
      rw [happend] at h
      have hsame : min x.2 (p + o.conn.rcvWnd.toNat) = p := by omega
      dsimp only at hadv
      rw [hsame] at hadv
      have hedge := hadv.edge
      obtain ⟨ms, hrxq, hbytes, -⟩ := hadv.rxq
      dsimp only at hedge hrxq
      obtain ⟨hnxt, ms', hrxq', hbytes'⟩ :=
        ih (o := { o with conn := c₁, wake := true, fin := o.fin || m.flags.fin }) hadv.rcvNxt
          (by dsimp only; omega) h
      refine ⟨hnxt, ms ++ ms', ?_, ?_⟩
      · rw [hrxq', hrxq, List.append_assoc]
      · rw [bytes_append, hbytes, hbytes', slice_self]
        rfl

theorem finCut_of_append {qs : List Mbuf} {ps : List (Nat × Nat)} {p₀ : Nat}
    (h : IsCut stream base m a e) (hfin : m.flags.fin = true) (hp : c.rcvNxt = serialAt base p)
    (hap : a ≤ p) (hpe : p < e) (hout : p + c.rcvWnd.toNat < stream.length + 1)
    (hq : Placed stream base p₀ qs ps) (hp₀ : p₀ ≤ p) (hedge : p + c.rcvWnd.toNat ≤ p₀ + tcpWin)
    {o o' : TextOut} {c₁ : Conn} (happend : tcpRxAppendText c m = some c₁) (ho : o.conn = c₁)
    (hdrain : drain qs o = some o') :
    o'.conn.rcvNxt = serialAt base (p + c.rcvWnd.toNat) ∧
      ∃ ms, o'.conn.rxq = c.rxq ++ ms ∧ (∃ m ∈ ms, m.flags.fin = true) ∧
        (bytes ms).length + 1 = c.rcvWnd.toNat := by
  have hwin : tcpWin = 131071 := rfl
  rcases tcpRxAppendText_cut h hfin hp hap hpe (by omega) hout with ⟨-, hstop⟩ | ⟨m', hcut, hflags, hlen⟩
  · rw [hstop] at happend
    cases happend
  · obtain rfl := some.inj (hcut.symm.trans happend)
    obtain ⟨hnxt, ms, hrxq, hbytes⟩ := drain_full (p := p + c.rcvWnd.toNat) hq (by rw [ho])
      (by omega) hedge (by rw [ho]; rfl) hdrain
    refine ⟨hnxt, m' :: ms, ?_, ⟨m', mem_cons_self .., by rw [hflags]; exact hfin⟩, ?_⟩
    · rw [hrxq, ho, List.append_assoc]
      rfl
    · rw [bytes_cons, hbytes, append_nil]
      exact hlen

/-- The drain loop appends what has become due, unless it meets a FIN from beyond the
window. -/
theorem drain_spec {q : List Mbuf} {ps : List (Nat × Nat)} {o : TextOut} {p₀ E : Nat}
    (hq : Placed stream base p₀ q ps) (hsorted : EndsSorted ps)
    (hp : o.conn.rcvNxt = serialAt base p) (hp₀ : p₀ ≤ p) (hbound : p ≤ stream.length + 1)
    (hE : p + o.conn.rcvWnd.toNat = E) (hw : E ≤ p₀ + tcpWin) :
    (drainMeets (fun pos _ => finBeyond (serialAt base E) pos) (serialAt base E) q
        (serialAt base p) = false ∧
      ∃ o' p', drain q o = some o' ∧ Advance stream base o.conn o'.conn p p' ∧
        OooOk stream base p' o'.conn.rxqOoo ∧
        (o'.fin = true → o.fin = true ∨ p' = stream.length + 1)) ∨
    (drainMeets (fun pos _ => finBeyond (serialAt base E) pos) (serialAt base E) q
        (serialAt base p) = true ∧
      FinCut stream base o.conn p ((drain q o).map TextOut.conn)) := by
  induction q generalizing ps o p with
  | nil =>
    refine Or.inl ⟨rfl, _, p, rfl, ?_, ⟨[], .nil, .nil, nofun⟩, Or.inl⟩
    exact { Advance.refl hbound hp with }
  | cons m q ih =>
    obtain ⟨x, ps, rfl⟩ : ∃ x ps', ps = x :: ps' := by
      cases hq with
      | cons _ _ => exact ⟨_, _, rfl⟩
    obtain ⟨⟨hcut, hnear, hafter⟩, hrest⟩ := forall₂_cons.1 hq
    obtain ⟨hfirst, hsorted'⟩ := pairwise_cons.1 hsorted
    obtain ⟨a, e⟩ := x
    have hshort := hcut.short
    have hwin : tcpWin = 131071 := rfl
    dsimp only at hcut hnear hafter hfirst hshort
    have hlt := hcut.lt
    have hbeyond := finBeyond_serialAt (E := E) hcut.segEnd (by omega) (by omega)
    unfold drain drainMeets
    rw [hcut.segEnd, hcut.segSeq, hp]
    obtain ⟨hlte, hgt⟩ := drain_tests base (a := a) (e := e) (p := p) (by omega)
      (by omega) (by omega)
    by_cases hold : e ≤ p
    · -- fully received already
      rw [if_pos (hlte.2 hold), if_pos (hlte.2 hold)]
      rcases @ih p ps { o with conn := { o.conn with rxqOooLen := o.conn.rxqOooLen - 1 } }
          hrest hsorted' hp hp₀ hbound hE with ⟨hmeets, o', p', hdrain, hadv, hooo, hf⟩ | hcut
      · exact Or.inl ⟨hmeets, o', p', hdrain, { hadv with }, hooo, hf⟩
      · exact Or.inr hcut
    · rw [if_neg (mt hlte.1 hold), if_neg (mt hlte.1 hold)]
      by_cases hahead : p < a
      · -- still out of order, and so is everything behind it
        rw [if_pos (hgt.2 hahead), if_pos (hgt.2 hahead)]
        refine Or.inl ⟨rfl, _, p, rfl, { Advance.refl hbound hp with },
          ⟨(a, e) :: ps, ?_, hsorted, fun x hx => some.inj hx ▸ hahead⟩, Or.inl⟩
        refine Placed.mono hq hp₀ ?_
        intro y hy
        rcases mem_cons.1 hy with rfl | hy
        · exact Nat.lt_of_not_le hold
        · exact Nat.lt_of_lt_of_le (Nat.lt_of_not_le hold) (hfirst y hy)
      · rw [if_neg (mt hgt.1 hahead), if_neg (mt hgt.1 hahead)]
        by_cases hfits : m.flags.fin = true → e ≤ E
        · rw [Bool.eq_false_iff.2 fun h => hbeyond.1 h hfits, Bool.false_or,
            clipEnd_serialAt hcut.segEnd (by omega) (by omega)]
          obtain ⟨c₁, happend, hadv₁, -⟩ := tcpRxAppendText_spec
            (c := { o.conn with rxqOooLen := o.conn.rxqOooLen - 1 }) hcut hp
            (Nat.le_of_not_lt hahead) (Nat.lt_of_not_le hold) (by dsimp only; omega)
            (by dsimp only; rw [hE]; exact hfits)
          simp only [happend]
          dsimp only at hadv₁
          rw [hE] at hadv₁
          have hedge := hadv₁.edge
          dsimp only at hedge
          rcases @ih (min e E) ps
              { o with conn := c₁, wake := true, fin := o.fin || m.flags.fin } hrest hsorted'
              hadv₁.rcvNxt (Nat.le_trans hp₀ hadv₁.le) hadv₁.bound (hedge.trans hE)
            with ⟨hmeets, o', p', hdrain, hadv, hooo, hf⟩ | ⟨hmeets, hcut'⟩
          · refine Or.inl ⟨hmeets, o', p', hdrain, { hadv₁.trans hadv with }, hooo, ?_⟩
            intro hfinal
            rcases hf hfinal with hf | hf
            · rcases Bool.or_eq_true_iff.1 hf with hf | hf
              · exact Or.inl hf
              · -- the FIN was just appended: nothing lies beyond it
                have hend := hcut.fin.1 hf
                have hin := hfits hf
                have hle := hadv.le
                have hle' := hadv.bound
                exact Or.inr (by omega)
            · exact Or.inr hf
          · exact Or.inr ⟨hmeets, hadv₁.toProgress.then_cut hcut'⟩
        · -- the FIN lies beyond the window
          rw [hbeyond.2 hfits, Bool.true_or]
          rw [Classical.not_imp] at hfits
          obtain ⟨hmfin, hout⟩ := hfits
          have hend := hcut.fin.1 hmfin
          refine Or.inr ⟨rfl, by omega, fun c' hc' => ?_⟩
          obtain ⟨o', hdrain, rfl⟩ := map_eq_some_iff.1 hc'
          split at hdrain
          · cases hdrain
          · rename_i c₁ happend
            exact finCut_of_append (c := { o.conn with rxqOooLen := o.conn.rxqOooLen - 1 }) hcut
              hmfin hp (Nat.le_of_not_lt hahead) (Nat.lt_of_not_le hold) (by dsimp only; omega)
              hrest hp₀ (by dsimp only; omega) happend rfl hdrain

theorem drain_ahead {q : List Mbuf} {o : TextOut} (hq : OooOk stream base p q)
    (hp : o.conn.rcvNxt = serialAt base p) :
    drain q o = some { o with conn := { o.conn with rxqOoo := q } } := by
  obtain ⟨ps, hplaced, -, hhead⟩ := hq
  cases hplaced with
  | nil => rfl
  | @cons m x q ps hm hrest =>
    obtain ⟨hcut, hnear, hafter⟩ := hm
    have hahead := hhead x rfl
    have hshort := hcut.short
    have hwin : tcpWin = 131071 := rfl
    obtain ⟨hlte, hgt⟩ := drain_tests base (a := x.1) (e := x.2) (p := p) (Nat.le_of_lt hcut.lt)
      (by omega) (by omega)
    unfold drain
    rw [hcut.segEnd, hcut.segSeq, hp, if_neg (mt hlte.1 (by omega)), if_pos (hgt.2 hahead)]

/-- The insertion loop keeps the (reversed) queue placed and ordered, and its last
element is the new segment or the old last one.  `R` says where a segment lies. -/
theorem oooInsertRev_rel {R : Mbuf → Nat × Nat → Prop}
    (hR : ∀ m x, R m x → m.segEnd = serialAt base x.2 ∧ p ≤ x.2 ∧ x.2 ≤ p + 2 ^ 18)
    {rq rq' : List Mbuf} {rps : List (Nat × Nat)} {x : Nat × Nat} (hq : List.Forall₂ R rq rps)
    (hsorted : rps.Pairwise fun x y => y.2 ≤ x.2) (hm : R m x) (h : oooInsertRev rq m = some rq') :
    ∃ rps', List.Forall₂ R rq' rps' ∧ (rps'.Pairwise fun x y => y.2 ≤ x.2) ∧
      (∀ y ∈ rps', y = x ∨ y ∈ rps) ∧
      ∀ y, rps'.getLast? = some y → y = x ∨ rps.getLast? = some y := by
  induction hq generalizing rq' with
  | nil =>
    cases h
    refine ⟨[x], .cons hm .nil, pairwise_singleton _ _, ?_, ?_⟩
    · intro y hy
      exact Or.inl (mem_singleton.1 hy)
    · intro y hy
      exact Or.inl (some.inj hy).symm
  | @cons m₀ x₀ rq rps hm₀ hrest ih =>
    obtain ⟨hend₀, hlow₀, hhigh₀⟩ := hR m₀ x₀ hm₀
    obtain ⟨hend, hlow, hhigh⟩ := hR m x hm
    obtain ⟨hfirst, hsorted'⟩ := pairwise_cons.1 hsorted
    have hwgt : wrapsGt (serialAt base x.2) (serialAt base x₀.2) ↔ x₀.2 < x.2 :=
      wrapsGt_serialAt base (near_of_bound (by omega) (by omega))
    unfold oooInsertRev at h
    rw [hend, hend₀] at h
    by_cases hgt : x₀.2 < x.2
    · rw [if_pos (hwgt.2 hgt)] at h
      cases h
      refine ⟨x :: x₀ :: rps, .cons hm (.cons hm₀ hrest), ?_, ?_, ?_⟩
      · refine pairwise_cons.2 ⟨?_, hsorted⟩
        intro y hy
        rcases mem_cons.1 hy with rfl | hy
        · exact Nat.le_of_lt hgt
        · exact Nat.le_trans (hfirst y hy) (Nat.le_of_lt hgt)
      · intro y hy
        exact mem_cons.1 hy
      · intro y hy
        exact Or.inr (by rwa [List.getLast?_cons_cons] at hy)
    · rw [if_neg (mt hwgt.1 hgt)] at h
      split at h
      · cases h
      · obtain ⟨rq'', hins, rfl⟩ := map_eq_some_iff.1 h
        obtain ⟨rps', hplaced', hsorted'', hmem, hlast⟩ := ih hsorted' hins
        refine ⟨x₀ :: rps', .cons hm₀ hplaced', ?_, ?_, ?_⟩
        · refine pairwise_cons.2 ⟨?_, hsorted''⟩
          intro y hy
          rcases hmem y hy with rfl | hy
          · exact Nat.le_of_not_lt hgt
          · exact hfirst y hy
        · intro y hy
          rcases mem_cons.1 hy with rfl | hy
          · exact Or.inr (mem_cons_self ..)
          · exact (hmem y hy).imp_right (mem_cons_of_mem _)
        · intro y hy
          rw [List.getLast?_cons] at hy ⊢
          have hne : rps' ≠ [] := by
            intro hnil
            subst hnil
            cases hplaced'
            cases hrest with
            | nil => cases hins
            | cons _ _ =>
              unfold oooInsertRev at hins
              split at hins
              · cases hins
              · split at hins
                · cases hins
                · obtain ⟨_, _, hnil⟩ := map_eq_some_iff.1 hins
                  cases hnil
          cases hl : rps'.getLast? with
          | none => exact absurd (List.getLast?_eq_none_iff.1 hl) hne
          | some z =>
            rw [hl] at hy
            obtain rfl : z = y := some.inj hy
            rcases hlast z hl with rfl | hz
            · exact Or.inl rfl
            · exact Or.inr (by rw [hz]; rfl)

theorem oooInsert_rel {R : Mbuf → Nat × Nat → Prop}
    (hR : ∀ m x, R m x → m.segEnd = serialAt base x.2 ∧ p ≤ x.2 ∧ x.2 ≤ p + 2 ^ 18)
    {q q' : List Mbuf} {ps : List (Nat × Nat)} {x : Nat × Nat} (hq : List.Forall₂ R q ps)
    (hsorted : EndsSorted ps) (hhead : ∀ y, ps.head? = some y → p < y.1) (hm : R m x)
    (hahead : p < x.1) (h : oooInsert q m = some q') :
    ∃ ps', List.Forall₂ R q' ps' ∧ EndsSorted ps' ∧ ∀ y, ps'.head? = some y → p < y.1 := by
  obtain ⟨rq', hins, rfl⟩ := map_eq_some_iff.1 h
  obtain ⟨rps', hplaced', hsorted', -, hlast⟩ :=
    oooInsertRev_rel hR (rel_reverse hq) (pairwise_reverse.2 hsorted) hm hins
  refine ⟨rps'.reverse, rel_reverse hplaced', pairwise_reverse.2 hsorted', ?_⟩
  intro y hy
  rw [List.head?_reverse] at hy
  rcases hlast y hy with rfl | hy
  · exact hahead
  · rw [List.getLast?_reverse] at hy
    exact hhead y hy

theorem oooInsert_spec {q q' : List Mbuf} (hq : OooOk stream base p q)
    (hm : IsCut stream base m a e) (hpa : p < a) (ha : a ≤ p + tcpWin)
    (h : oooInsert q m = some q') : OooOk stream base p q' := by
  obtain ⟨ps, hplaced, hsorted, hhead⟩ := hq
  have hR : ∀ (m' : Mbuf) (x : Nat × Nat), IsCut stream base m' x.1 x.2 ∧ x.1 ≤ p + tcpWin ∧ p < x.2 →
      m'.segEnd = serialAt base x.2 ∧ p ≤ x.2 ∧ x.2 ≤ p + 2 ^ 18 := by
    rintro m' x ⟨hcut, hnear, hafter⟩
    have hshort := hcut.short
    have hwin : tcpWin = 131071 := rfl
    exact ⟨hcut.segEnd, by omega, by omega⟩
  exact oooInsert_rel (x := (a, e)) hR hplaced hsorted hhead ⟨hm, ha, Nat.lt_trans hpa hm.lt⟩ hpa h

/-! ## Segment text -/

/-- `tcp_rx_text` on an acceptable segment: some text is appended, the queue stays
in order, and the FIN is reported only when `rcv_nxt` has passed it; or a FIN from
beyond the window is cut. -/
theorem tcpRxText_spec (hp : c.rcvNxt = serialAt base p) (hbound : p ≤ stream.length + 1)
    (hw : c.rcvWnd.toNat ≤ tcpWin) (hooo : OooOk stream base p c.rxqOoo)
    (hm : IsCut stream base m a e) (hpe : p < e) (ha : a ≤ p + tcpWin) :
    (takesFinBeyond c m = false ∧
      ∃ t p', tcpRxText c m = some t ∧ Advance stream base c t.conn p p' ∧
        OooOk stream base p' t.conn.rxqOoo ∧ (t.fin = true → p' = stream.length + 1)) ∨
    (takesFinBeyond c m = true ∧ FinCut stream base c p ((tcpRxText c m).map TextOut.conn)) := by
  have hwin : tcpWin = 131071 := rfl
  have hshort := hm.short
  have hlt := hm.lt
  unfold takesFinBeyond tcpRxText
  by_cases hzero : c.rcvWnd = 0
  · simp only [hzero, if_true]
    exact Or.inl ⟨rfl, _, p, rfl, Advance.refl hbound hp, hooo, nofun⟩
  rw [decide_eq_true hzero, Bool.true_and]
  simp only [hzero, if_false]
  have hlte : wrapsLte m.segSeq c.rcvNxt ↔ a ≤ p := by
    rw [hm.segSeq, hp]
    exact wrapsLte_serialAt base (near_of_bound (by omega) (by omega))
  by_cases hap : a ≤ p
  · rw [if_pos (hlte.2 hap), decide_eq_true (hlte.2 hap), Bool.true_and, edge_serialAt hp,
      clipEnd_serialAt hm.segEnd (by omega) (by omega)]
    have hbeyond := finBeyond_serialAt (E := p + c.rcvWnd.toNat) hm.segEnd (by omega) (by omega)
    by_cases hfits : m.flags.fin = true → e ≤ p + c.rcvWnd.toNat
    · rw [Bool.eq_false_iff.2 fun h => hbeyond.1 h hfits, Bool.false_or]
      obtain ⟨c₁, happend, hadv, hsame⟩ := tcpRxAppendText_spec hm hp hap hpe (by omega) hfits
      obtain ⟨ps, hplaced, hsorted, -⟩ := hooo
      simp only [happend, hsame]
      rcases drain_spec (o := ⟨c₁, m.flags.push || m.flags.fin || ! c.rxq.isEmpty,
          (m.flags.push || m.flags.fin || ! c.rxq.isEmpty) && m.flags.fin, true⟩)
          hplaced hsorted hadv.rcvNxt hadv.le hadv.bound hadv.edge (by omega)
        with ⟨hmeets, o', p', hdrain, hadv', hooo', hf⟩ | ⟨hmeets, hcut⟩
      · rw [hdrain]
        refine Or.inl ⟨hmeets, _, p', rfl, hadv.trans hadv', hooo', ?_⟩
        intro hfinal
        rcases hf hfinal with hf | hf
        · have hmfin : m.flags.fin = true := (Bool.and_eq_true_iff.1 hf).2
          have hend := hm.fin.1 hmfin
          have hin := hfits hmfin
          have hle := hadv'.le
          have hle' := hadv'.bound
          omega
        · exact hf
      · rw [Option.map_map]
        exact Or.inr ⟨hmeets, hadv.toProgress.then_cut hcut⟩
    · -- the segment's own FIN lies beyond the window
      rw [hbeyond.2 hfits, Bool.true_or]
      rw [Classical.not_imp] at hfits
      obtain ⟨hmfin, hout⟩ := hfits
      have hend := hm.fin.1 hmfin
      refine Or.inr ⟨rfl, by omega, fun c' hc' => ?_⟩
      obtain ⟨t, htext, rfl⟩ := map_eq_some_iff.1 hc'
      split at htext
      · cases htext
      · rename_i c₁ happend
        obtain ⟨o', hdrain, rfl⟩ := map_eq_some_iff.1 htext
        obtain ⟨ps, hplaced, -, -⟩ := hooo
        have hsame : c₁.rxqOoo = c.rxqOoo := tcpRxAppendText_ooo happend
        rw [hsame] at hdrain
        have hlost := finCut_of_append hm hmfin hp hap hpe (by omega) hplaced (Nat.le_refl p)
          (by omega) happend rfl hdrain
        exact hlost
  · rw [if_neg (mt hlte.1 hap), decide_eq_false (mt hlte.1 hap), Bool.false_and]
    split
    · exact Or.inl ⟨rfl, _, p, rfl, Advance.refl hbound hp, hooo, nofun⟩
    · cases hins : oooInsert c.rxqOoo m with
      | none => exact Or.inl ⟨rfl, _, p, rfl, Advance.refl hbound hp, hooo, nofun⟩
      | some q =>
        have hq := oooInsert_spec hooo hm (Nat.lt_of_not_le hap) ha hins
        dsimp only
        rw [drain_ahead hq hp]
        exact Or.inl ⟨rfl, _, p, rfl, { Advance.refl hbound hp with }, hq, nofun⟩

end Text

end Svalinn.Tcp
