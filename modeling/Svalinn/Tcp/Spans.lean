/-
  Tcp/Spans.lean --- segment text from a peer that may send anything.

  `Spans` places a buffer at natural positions, with the FIN counted as one; nothing is
  assumed about what the peer sends, so the segments of `rxq_ooo` may overlap in any
  way, carry several FINs and reach beyond the window.  Acceptability keeps them near
  `rcv_nxt`, and the order by their ends keeps every one of them beyond it.

  Under this invariant one assert or `BUG_ON` of the text functions is left that can
  fire: the trim in `tcp_rx_append_text`, when the drain loop meets a queued FIN just
  after the window has closed (`drainMeetsFin`).
-/
import Svalinn.Tcp.Asserts
import Svalinn.Tcp.Reassembly

set_option autoImplicit false

namespace Svalinn.Tcp.Debug

open Svalinn.Lib List

/-! ## Appending text -/

def finLen (m : Mbuf) : Nat := if m.flags.fin then 1 else 0

/-- The buffer occupies positions `a` to `e`, its FIN included. -/
structure Spans (base : Seq) (m : Mbuf) (a e : Nat) : Prop where
  lt : a < e
  short : e ≤ a + 2 ^ 16
  segSeq : m.segSeq = serialAt base a
  segEnd : m.segEnd = serialAt base e
  length : m.data.length + finLen m = e - a

/-- From `c` at position `p` to `c'` at position `q`: at most the bytes in between were
appended, and the right edge of the window stayed. -/
structure Grown (base : Seq) (c c' : Conn) (p q : Nat) : Prop where
  le : p ≤ q
  rcvNxt : c'.rcvNxt = serialAt base q
  edge : q + c'.rcvWnd.toNat = p + c.rcvWnd.toNat
  rxq : ∃ ms, c'.rxq = c.rxq ++ ms ∧ (bytes ms).length ≤ q - p ∧ (p < q → ms ≠ [])
  rxExclusive : c'.rxExclusive = c.rxExclusive

section Text

variable {base : Seq} {c c' c'' : Conn} {m : Mbuf} {a e p q r : Nat}

theorem finLen_le (m : Mbuf) : finLen m ≤ 1 := by
  unfold finLen
  split
  · exact Nat.le_refl 1
  · exact Nat.zero_le 1

theorem Grown.refl (h : c.rcvNxt = serialAt base p) : Grown base c c p p where
  le := Nat.le_refl p
  rcvNxt := h
  edge := rfl
  rxq := ⟨[], (append_nil _).symm, Nat.zero_le _, fun h => absurd h (Nat.lt_irrefl p)⟩
  rxExclusive := rfl

theorem Grown.trans (h₁ : Grown base c c' p q) (h₂ : Grown base c' c'' q r) :
    Grown base c c'' p r where
  le := Nat.le_trans h₁.le h₂.le
  rcvNxt := h₂.rcvNxt
  edge := h₂.edge.trans h₁.edge
  rxq := by
    obtain ⟨ms, hrxq, hlen, hne⟩ := h₁.rxq
    obtain ⟨ms', hrxq', hlen', hne'⟩ := h₂.rxq
    have hle := h₁.le
    have hle' := h₂.le
    refine ⟨ms ++ ms', by rw [hrxq', hrxq, append_assoc], ?_, fun hlt => ?_⟩
    · rw [bytes_append, length_append]
      omega
    · by_cases hpq : p < q
      · exact append_ne_nil_of_left_ne_nil (hne hpq) _
      · exact append_ne_nil_of_right_ne_nil _ (hne' (by omega))
  rxExclusive := h₂.rxExclusive.trans h₁.rxExclusive

theorem Grown.of_same (hsame : SameRx c c') (h : Grown base c' c'' p q) : Grown base c c'' p q :=
  ⟨h.le, h.rcvNxt, by rw [← hsame.rcvWnd]; exact h.edge, by rw [← hsame.rxq]; exact h.rxq,
    h.rxExclusive.trans hsame.rxExclusive⟩

theorem Grown.same (h : Grown base c c' p q) (hsame : SameRx c' c'') : Grown base c c'' p q :=
  ⟨h.le, hsame.rcvNxt.trans h.rcvNxt, by rw [hsame.rcvWnd]; exact h.edge,
    by rw [hsame.rxq]; exact h.rxq, hsame.rxExclusive.trans h.rxExclusive⟩

theorem clipHead_spans (h : Spans base m a e) (hp : c.rcvNxt = serialAt base p) (hap : a ≤ p)
    (hpe : p < e) :
    ∃ m', clipHead c m = some m' ∧ Spans base m' p e ∧ m'.flags = m.flags := by
  have hshort := h.short
  have hlen := h.length
  have hfin := finLen_le m
  refine ⟨_, clipHead_at h.segSeq hp hap (by omega) (by omega), ⟨hpe, by omega, rfl, h.segEnd, ?_⟩, rfl⟩
  show (m.data.drop (p - a)).length + finLen m = e - p
  rw [length_drop]
  omega

/-- The trim at the edge of the window takes the FIN for a byte, so it needs room for
it. -/
theorem clipTail_spans (h : Spans base m p e) (hp : c.rcvNxt = serialAt base p)
    (hw : c.rcvWnd.toNat ≤ tcpWin) :
    (c.rcvWnd.toNat < finLen m ∧ clipTail c m = none) ∨
    (finLen m ≤ c.rcvWnd.toNat ∧ ∃ m', clipTail c m = some m' ∧ m'.segSeq = serialAt base p ∧
      m'.segEnd = serialAt base (min e (p + c.rcvWnd.toNat)) ∧
      m'.data.length ≤ min e (p + c.rcvWnd.toNat) - p) := by
  have hwin : tcpWin = 131071 := rfl
  have hshort := h.short
  have hpe := h.lt
  have hlen := h.length
  have hfin := finLen_le m
  rw [clipTail_at h.segEnd hp hpe (by omega) (by omega)]
  by_cases hout : p + c.rcvWnd.toNat < e
  · rw [if_pos hout, Nat.min_eq_right (by omega)]
    by_cases hroom : c.rcvWnd.toNat < finLen m
    · rw [if_pos (by omega)]
      exact Or.inl ⟨hroom, rfl⟩
    · rw [if_neg (by omega)]
      refine Or.inr ⟨by omega, _, rfl, h.segSeq, rfl, ?_⟩
      rw [length_take]
      omega
  · rw [if_neg hout, Nat.min_eq_left (by omega)]
    exact Or.inr ⟨by omega, m, rfl, h.segSeq, h.segEnd, by omega⟩

theorem tcpRxAppendText_spans (h : Spans base m a e) (hp : c.rcvNxt = serialAt base p) (hap : a ≤ p)
    (hpe : p < e) (hw : c.rcvWnd.toNat ≤ tcpWin) :
    (c.rcvWnd.toNat < finLen m ∧ tcpRxAppendText c m = none) ∨
    (finLen m ≤ c.rcvWnd.toNat ∧ ∃ c', tcpRxAppendText c m = some c' ∧
      Grown base c c' p (min e (p + c.rcvWnd.toNat)) ∧ c'.rxqOoo = c.rxqOoo ∧ c'.rxq ≠ []) := by
  have hwin : tcpWin = 131071 := rfl
  have hshort := h.short
  have hlte : wrapsLte m.segSeq c.rcvNxt := by
    rw [h.segSeq, hp]
    exact (wrapsLte_serialAt base (near_of_bound (by omega) (by omega))).2 hap
  have hgt : wrapsGt m.segEnd c.rcvNxt := by
    rw [h.segEnd, hp]
    exact (wrapsGt_serialAt base (near_of_bound (by omega) (by omega))).2 hpe
  obtain ⟨m₁, hhead, hspans, hflags⟩ := clipHead_spans h hp hap hpe
  have hfin : finLen m₁ = finLen m := by
    unfold finLen
    rw [hflags]
  unfold tcpRxAppendText
  rw [if_pos ⟨hlte, hgt⟩, hhead]
  dsimp only
  rcases clipTail_spans hspans hp hw with ⟨hroom, hnone⟩ | ⟨hroom, m₂, htail, hseq, hend, hlen⟩
  · rw [hnone]
    exact Or.inl ⟨hfin ▸ hroom, rfl⟩
  · rw [htail]
    dsimp only
    generalize hq : min e (p + c.rcvWnd.toNat) = q at *
    have hadv : (m₂.segEnd - m₂.segSeq).toNat = q - p := by
      rw [hseq, hend]
      exact serialAt_sub_toNat base (by omega) (by omega)
    have hfits : m₂.segEnd - m₂.segSeq ≤ c.rcvWnd := by
      rw [BitVec.le_def, hadv]
      omega
    rw [if_pos hfits]
    refine Or.inr ⟨hfin ▸ hroom, _, rfl, ⟨by omega, hend, ?_, ⟨[m₂], rfl, ?_, ?_⟩, rfl⟩,
      rfl, ?_⟩
    · show q + (c.rcvWnd - (m₂.segEnd - m₂.segSeq)).toNat = p + c.rcvWnd.toNat
      rw [BitVec.toNat_sub_of_le hfits, hadv]
      omega
    · rw [bytes_cons, length_append]
      exact hlen
    · exact fun _ => cons_ne_nil _ _
    · exact append_ne_nil_of_right_ne_nil _ (cons_ne_nil _ _)

/-! ## The out-of-order queue -/

/-- The drain loop, with `rcv_nxt` at `nxt` and the window ending at `edge`, comes to a
queued FIN when the window has closed. -/
def drainMeetsFin (q : List Mbuf) (nxt edge : Seq) : Bool :=
  drainMeets (fun pos nxt => pos.flags.fin && decide (nxt = edge)) edge q nxt

/-- A queued segment ends beyond `p`, and not far from it. -/
def Queued (base : Seq) (p : Nat) (m : Mbuf) (x : Nat × Nat) : Prop :=
  Spans base m x.1 x.2 ∧ p < x.2 ∧ x.2 ≤ p + 2 ^ 18

/-- `rxq_ooo` between steps: ordered by the ends, the first segment beyond `p`. -/
def OooNear (base : Seq) (p : Nat) (q : List Mbuf) : Prop :=
  ∃ ps, List.Forall₂ (Queued base p) q ps ∧ EndsSorted ps ∧ ∀ x, ps.head? = some x → p < x.1

theorem OooNear.nil : OooNear base p [] := ⟨[], .nil, .nil, nofun⟩

theorem Queued.mono {x : Nat × Nat} {p' : Nat} (h : Queued base p m x) (hle : p ≤ p')
    (hend : p' < x.2) : Queued base p' m x :=
  ⟨h.1, hend, by have := h.2.2; omega⟩

theorem queued_mono {qs : List Mbuf} {ps : List (Nat × Nat)} {p' : Nat}
    (h : List.Forall₂ (Queued base p) qs ps) (hle : p ≤ p') (hend : ∀ x ∈ ps, p' < x.2) :
    List.Forall₂ (Queued base p') qs ps := by
  induction h with
  | nil => exact .nil
  | cons hm _ ih =>
    refine .cons (hm.mono hle (hend _ (mem_cons_self ..))) (ih ?_)
    exact fun x hx => hend x (mem_cons_of_mem _ hx)

theorem drain_safe {qs : List Mbuf} {ps : List (Nat × Nat)} {o : TextOut} {p₀ E : Nat}
    (hq : List.Forall₂ (Queued base p₀) qs ps) (hsorted : EndsSorted ps)
    (hp : o.conn.rcvNxt = serialAt base p) (hp₀ : p₀ ≤ p) (hE : p + o.conn.rcvWnd.toNat = E)
    (hw : E ≤ p₀ + tcpWin) :
    (drainMeetsFin qs (serialAt base p) (serialAt base E) = true ∧ drain qs o = none) ∨
    (drainMeetsFin qs (serialAt base p) (serialAt base E) = false ∧
      ∃ o' p', drain qs o = some o' ∧ Grown base o.conn o'.conn p p' ∧
        OooNear base p' o'.conn.rxqOoo ∧ o'.used = o.used ∧
        (o'.wake = true → o.wake = true ∨ o'.conn.rxq ≠ [])) := by
  unfold drainMeetsFin
  induction hq generalizing o p with
  | nil => exact Or.inr ⟨rfl, _, p, rfl, { Grown.refl hp with }, .nil, rfl, Or.inl⟩
  | @cons m x qs ps hm hrest ih =>
    obtain ⟨hfirst, hsorted'⟩ := pairwise_cons.1 hsorted
    have hwin : tcpWin = 131071 := rfl
    obtain ⟨hspans, hafter, hnear⟩ := id hm
    have hshort := hspans.short
    have hlt := hspans.lt
    obtain ⟨hlte, hgt⟩ := drain_tests base (a := x.1) (e := x.2) (p := p) (by omega)
      (by omega) (by omega)
    unfold drainMeets drain
    rw [hspans.segEnd, hspans.segSeq, hp]
    by_cases hold : x.2 ≤ p
    · -- fully received already
      rw [if_pos (hlte.2 hold), if_pos (hlte.2 hold)]
      rcases ih (o := { o with conn := { o.conn with rxqOooLen := o.conn.rxqOooLen - 1 } })
          hsorted' hp hp₀ hE with hstop | ⟨hmeets, o', p', hdrain, hgrown, hooo, hused, hwake⟩
      · exact Or.inl hstop
      · exact Or.inr ⟨hmeets, o', p', hdrain, { hgrown with }, hooo, hused, hwake⟩
    rw [if_neg (mt hlte.1 hold), if_neg (mt hlte.1 hold)]
    by_cases hahead : p < x.1
    · -- still out of order, and every other segment ends later
      rw [if_pos (hgt.2 hahead), if_pos (hgt.2 hahead)]
      refine Or.inr ⟨rfl, _, p, rfl, { Grown.refl hp with },
        ⟨x :: ps, queued_mono (.cons hm hrest) hp₀ ?_, hsorted,
          fun y hy => Option.some.inj hy ▸ hahead⟩, rfl, Or.inl⟩
      intro y hy
      rcases mem_cons.1 hy with rfl | hy
      · exact Nat.lt_of_not_le hold
      · exact Nat.lt_of_lt_of_le (Nat.lt_of_not_le hold) (hfirst y hy)
    rw [if_neg (mt hgt.1 hahead), if_neg (mt hgt.1 hahead)]
    have hclosed : serialAt base p = serialAt base E ↔ o.conn.rcvWnd.toNat = 0 := by
      rw [serialAt_inj base (near_of_bound (by omega) (by omega))]
      omega
    have hstop : (m.flags.fin && decide (serialAt base p = serialAt base E)) = true ↔
        o.conn.rcvWnd.toNat < finLen m := by
      rw [Bool.and_eq_true, decide_eq_true_eq, hclosed]
      unfold finLen
      cases m.flags.fin with
      | true | false => simp
    rcases tcpRxAppendText_spans (c := { o.conn with rxqOooLen := o.conn.rxqOooLen - 1 }) hspans hp
        (Nat.le_of_not_lt hahead) (Nat.lt_of_not_le hold) (by dsimp only; omega) with
      ⟨hroom, happend⟩ | ⟨hroom, c₁, happend, hgrown, -, hne⟩
    · rw [hstop.2 hroom, happend]
      exact Or.inl ⟨rfl, rfl⟩
    · rw [Bool.eq_false_iff.2 fun h => absurd (hstop.1 h) (Nat.not_lt.2 hroom), Bool.false_or,
        happend, clipEnd_serialAt hspans.segEnd (by omega) (by omega)]
      dsimp only at hgrown ⊢
      rw [hE] at hgrown
      have hedge := hgrown.edge
      dsimp only at hedge
      rcases ih (o := { o with conn := c₁, wake := true, fin := o.fin || m.flags.fin }) hsorted'
          hgrown.rcvNxt (Nat.le_trans hp₀ hgrown.le) (hedge.trans hE) with
        hstop | ⟨hmeets, o', p', hdrain, hgrown', hooo, hused, hwake⟩
      · exact Or.inl hstop
      · refine Or.inr ⟨hmeets, o', p', hdrain, { hgrown.trans hgrown' with }, hooo, hused,
          fun _ => Or.inr ?_⟩
        obtain ⟨ms, hrxq, -⟩ := hgrown'.rxq
        rw [hrxq]
        exact append_ne_nil_of_left_ne_nil hne _

theorem drain_keeps {qs : List Mbuf} {o : TextOut} (hq : OooNear base p qs)
    (hp : o.conn.rcvNxt = serialAt base p) :
    drain qs o = some { o with conn := { o.conn with rxqOoo := qs } } := by
  obtain ⟨ps, hqueued, -, hhead⟩ := hq
  cases hqueued with
  | nil => rfl
  | @cons m x qs ps hm hrest =>
    obtain ⟨hspans, hafter, hnear⟩ := hm
    have hahead := hhead x rfl
    have hlt := hspans.lt
    obtain ⟨hlte, hgt⟩ := drain_tests base (a := x.1) (e := x.2) (p := p) (by omega)
      (by omega) (by omega)
    unfold drain
    rw [hspans.segEnd, hspans.segSeq, hp, if_neg (mt hlte.1 (by omega)), if_pos (hgt.2 hahead)]

/-! ## Segment text -/

/-- The text of the segment closes the window in front of a queued FIN. -/
def finMeetsClosedWindow (c : Conn) (m : Mbuf) : Bool :=
  decide (c.rcvWnd ≠ 0) && decide (wrapsLte m.segSeq c.rcvNxt) &&
    drainMeetsFin c.rxqOoo (clipEnd (c.rcvNxt + c.rcvWnd) m) (c.rcvNxt + c.rcvWnd)

theorem tcpRxText_safe (hp : c.rcvNxt = serialAt base p) (hw : c.rcvWnd.toNat ≤ tcpWin)
    (hooo : OooNear base p c.rxqOoo) (hm : Spans base m a e) (hpe : p < e) (ha : a ≤ p + tcpWin) :
    (finMeetsClosedWindow c m = true ∧ tcpRxText c m = none) ∨
    (finMeetsClosedWindow c m = false ∧ ∃ t p', tcpRxText c m = some t ∧
      Grown base c t.conn p p' ∧ OooNear base p' t.conn.rxqOoo ∧ wakeOk t = true) := by
  have hwin : tcpWin = 131071 := rfl
  have hshort := hm.short
  have hlt := hm.lt
  unfold finMeetsClosedWindow tcpRxText
  by_cases hzero : c.rcvWnd = 0
  · simp only [hzero, if_true]
    exact Or.inr ⟨rfl, _, p, rfl, Grown.refl hp, hooo, rfl⟩
  have hpos : 0 < c.rcvWnd.toNat :=
    Nat.pos_of_ne_zero fun hz => hzero (BitVec.eq_of_toNat_eq (by rw [hz]; rfl))
  rw [decide_eq_true hzero, Bool.true_and]
  simp only [hzero, if_false]
  have hlte : wrapsLte m.segSeq c.rcvNxt ↔ a ≤ p := by
    rw [hm.segSeq, hp]
    exact wrapsLte_serialAt base (near_of_bound (by omega) (by omega))
  by_cases hap : a ≤ p
  · rw [if_pos (hlte.2 hap), decide_eq_true (hlte.2 hap), Bool.true_and, edge_serialAt hp,
      clipEnd_serialAt hm.segEnd (by omega) (by omega)]
    rcases tcpRxAppendText_spans hm hp hap hpe hw with ⟨hroom, -⟩ | ⟨-, c₁, happend, hgrown, hsame, hne⟩
    · have hfin := finLen_le m
      omega
    obtain ⟨ps, hqueued, hsorted, -⟩ := hooo
    rw [happend, ← hsame]
    rw [← hsame] at hqueued
    dsimp only
    rcases drain_safe (o := ⟨c₁, m.flags.push || m.flags.fin || ! c.rxq.isEmpty,
        (m.flags.push || m.flags.fin || ! c.rxq.isEmpty) && m.flags.fin, true⟩)
        hqueued hsorted hgrown.rcvNxt hgrown.le hgrown.edge (by omega) with
      ⟨hmeets, hdrain⟩ | ⟨hmeets, o', p', hdrain, hgrown', hooo', hused, -⟩
    · rw [hdrain]
      exact Or.inl ⟨hmeets, rfl⟩
    · rw [hdrain]
      refine Or.inr ⟨hmeets, _, p', rfl, hgrown.trans hgrown', hooo', ?_⟩
      obtain ⟨ms, hrxq, -⟩ := hgrown'.rxq
      have hqueue : o'.conn.rxq.isEmpty = false := by
        rw [isEmpty_eq_false_iff, hrxq]
        exact append_ne_nil_of_left_ne_nil hne _
      dsimp only at hused
      simp [wakeOk, hqueue, hused]
  · rw [if_neg (mt hlte.1 hap), decide_eq_false (mt hlte.1 hap), Bool.false_and]
    split
    · exact Or.inr ⟨rfl, _, p, rfl, Grown.refl hp, hooo, rfl⟩
    · cases hins : oooInsert c.rxqOoo m with
      | none => exact Or.inr ⟨rfl, _, p, rfl, Grown.refl hp, hooo, rfl⟩
      | some q =>
        have hR : ∀ (m : Mbuf) (x : Nat × Nat), Queued base p m x →
            m.segEnd = serialAt base x.2 ∧ p ≤ x.2 ∧ x.2 ≤ p + 2 ^ 18 :=
          fun m x h => ⟨h.1.segEnd, Nat.le_of_lt h.2.1, h.2.2⟩
        obtain ⟨ps, hqueued, hsorted, hhead⟩ := hooo
        have hq : OooNear base p q := oooInsert_rel (x := (a, e)) hR hqueued hsorted hhead
          ⟨hm, hpe, by dsimp only; omega⟩ (Nat.lt_of_not_le hap) hins
        dsimp only
        rw [drain_keeps hq hp]
        refine Or.inr ⟨rfl, _, p, rfl, { Grown.refl hp with }, hq, ?_⟩
        show (! (false || decide (c.rcvWnd = 0)) || _) = true
        rw [decide_eq_false hzero]
        rfl

/-! ## Acceptable segments -/

theorem inWindow_dist {nxt wnd x : Seq} (hw : wnd.toNat ≤ tcpWin) (hpos : wnd ≠ 0)
    (hlow : wrapsLte nxt x) (hhigh : wrapsLt x (nxt + wnd)) : (x - nxt).toNat < wnd.toNat := by
  have hwin : tcpWin = 131071 := rfl
  have hne : wnd.toNat ≠ 0 := fun hz => hpos (BitVec.eq_of_toNat_eq (by rw [hz]; rfl))
  have hlow' : (-(x - nxt)).toInt ≤ 0 := by
    rw [neg_sub]
    exact hlow
  have hhigh' : (x - nxt - wnd).toInt < 0 := by
    rw [sub_sub]
    exact hhigh
  generalize x - nxt = d at *
  have hd := d.isLt
  rw [BitVec.toInt_eq_toNat_cond, BitVec.toNat_neg] at hlow'
  rw [BitVec.toInt_eq_toNat_cond, BitVec.toNat_sub] at hhigh'
  split at hlow'
  · split at hhigh'
    · omega
    · omega
  · split at hhigh'
    · omega
    · omega

theorem serialAt_dist (hp : c.rcvNxt = serialAt base p) (x : Seq) :
    x = serialAt base (p + (x - c.rcvNxt).toNat) := by
  rw [← serialAt_add, BitVec.ofNat_toNat, BitVec.setWidth_eq, ← hp, add_sub_cancel]

/-- An acceptable segment starts before the edge of the window and ends beyond
`rcv_nxt`, and is near it whatever its numbers. -/
theorem acceptable_spans (hp : c.rcvNxt = serialAt base p) (hfar : 2 ^ 17 ≤ p)
    (hw : c.rcvWnd.toNat ≤ tcpWin) {len seq : Seq} (hlen : len.toNat ≤ 2 ^ 16) (hne : len ≠ 0)
    (h : isAcceptable c len seq = true) :
    ∃ a, seq = serialAt base a ∧ p < a + len.toNat ∧ a ≤ p + tcpWin := by
  have hpos : len.toNat ≠ 0 := fun hz => hne (BitVec.eq_of_toNat_eq (by rw [hz]; rfl))
  unfold isAcceptable at h
  rw [if_neg (fun hz => hne hz.1), if_neg hne] at h
  split at h
  · cases h
  rename_i hwnd
  simp only [Bool.or_eq_true, Bool.and_eq_true, decide_eq_true_eq] at h
  rcases h with ⟨hlow, hhigh⟩ | ⟨hlow, hhigh⟩
  · have hdist := inWindow_dist hw hwnd hlow hhigh
    exact ⟨_, serialAt_dist hp seq, by omega, by omega⟩
  · -- the last octet is in the window
    have hdist := inWindow_dist hw hwnd hlow hhigh
    have hlast := serialAt_dist hp (seq + len - 1)
    generalize (seq + len - 1 - c.rcvNxt).toNat = d at hdist hlast
    refine ⟨p + d + 1 - len.toNat, ?_, by omega, by omega⟩
    have hsum : seq + len = serialAt base (p + d + 1 - len.toNat) + len := by
      have hofNat : BitVec.ofNat 32 len.toNat = len := by
        rw [BitVec.ofNat_toNat, BitVec.setWidth_eq]
      calc seq + len = seq + len - 1 + BitVec.ofNat 32 1 := (sub_add_cancel _ _).symm
        _ = serialAt base (p + d + 1) := by rw [hlast, serialAt_add]
        _ = serialAt base (p + d + 1 - len.toNat + len.toNat) := by
          rw [Nat.sub_add_cancel (by omega)]
        _ = serialAt base (p + d + 1 - len.toNat) + len := by rw [← serialAt_add, hofNat]
    exact add_right_cancel hsum

theorem toNat_segLen (s : Segment) : (segLen s).toNat = s.data.length + finLen (textMbuf s) := by
  have hlt := s.length_lt
  have hdata := toNat_dataLen s
  have hfin : finLen (textMbuf s) = (if s.flags.fin = true then 1#32 else 0#32).toNat := by
    show (if s.flags.fin = true then 1 else 0) = _
    split
    · rfl
    · rfl
  have hle := finLen_le (textMbuf s)
  show (BitVec.ofNat 32 s.data.length + if s.flags.fin = true then 1#32 else 0#32).toNat = _
  rw [BitVec.toNat_add, hdata, ← hfin, Nat.mod_eq_of_lt (by omega)]

theorem textMbuf_spans {s : Segment} (ha : s.seq = serialAt base a) (hne : segLen s ≠ 0) :
    Spans base (textMbuf s) a (a + (segLen s).toNat) := by
  have hpos : (segLen s).toNat ≠ 0 := fun hz => hne (BitVec.eq_of_toNat_eq (by rw [hz]; rfl))
  have hlen := toNat_segLen s
  have hlt := s.length_lt
  have hle := finLen_le (textMbuf s)
  refine ⟨by omega, by omega, ha, ?_, ?_⟩
  · show s.seq + segLen s = _
    rw [ha, ← serialAt_add, BitVec.ofNat_toNat, BitVec.setWidth_eq]
  · show s.data.length + finLen (textMbuf s) = _
    omega

/-! ## Segments -/

/-- `rcv_nxt` and `rxq_ooo` of a connection at position `p`; positions start high
enough for a segment to begin before `rcv_nxt`. -/
structure NearRx (base : Seq) (c : Conn) (p : Nat) : Prop where
  far : 2 ^ 17 ≤ p
  rcvNxt : c.rcvNxt = serialAt base p
  ooo : OooNear base p c.rxqOoo

theorem NearRx.same (h : NearRx base c p) (hsame : SameRx c c') : NearRx base c' p :=
  ⟨h.far, hsame.rcvNxt.trans h.rcvNxt, by rw [hsame.rxqOoo]; exact h.ooo⟩

theorem isAcceptable_same (hsame : SameRx c c') (len seq : Seq) :
    isAcceptable c' len seq = isAcceptable c len seq := by
  unfold isAcceptable
  rw [hsame.rcvNxt, hsame.rcvWnd]

theorem finMeetsClosedWindow_same (hsame : SameRx c c') (m : Mbuf) :
    finMeetsClosedWindow c' m = finMeetsClosedWindow c m := by
  unfold finMeetsClosedWindow
  rw [hsame.rcvNxt, hsame.rcvWnd, hsame.rxqOoo]

theorem processText_safe {s : Segment} (sndNxt : Seq) (hnear : NearRx base c p)
    (hw : c.rcvWnd.toNat ≤ tcpWin) (hacc : isAcceptable c (segLen s) s.seq = true)
    (hfin : c.state = .finWait1 → c.sndUna ≠ sndNxt) :
    (((segLen s ≠ 0 ∧ c.state.takesText = true) ∧ finMeetsClosedWindow c (textMbuf s) = true) ∧
      processText c (segMbuf s) (segLen s) sndNxt = none) ∨
    (¬ ((segLen s ≠ 0 ∧ c.state.takesText = true) ∧ finMeetsClosedWindow c (textMbuf s) = true) ∧
      ∃ o p', processText c (segMbuf s) (segLen s) sndNxt = some o ∧ Grown base c o.conn p p' ∧
        NearRx base o.conn p') := by
  unfold processText
  by_cases htakes : segLen s ≠ 0 ∧ c.state.takesText = true
  swap
  · rw [if_neg htakes]
    refine Or.inr ⟨fun h => htakes h.1, _, p, rfl, ?_, hnear.same (rxDone_same rfl)⟩
    exact (Grown.refl hnear.rcvNxt).same (rxDone_same rfl)
  rw [if_pos htakes]
  obtain ⟨hne, htext⟩ := htakes
  have hlen := toNat_segLen s
  have hlt := s.length_lt
  have hle := finLen_le (textMbuf s)
  obtain ⟨a, ha, hpe, hnearby⟩ := acceptable_spans hnear.rcvNxt hnear.far hw (by omega) hne hacc
  rw [show { segMbuf s with segEnd := (segMbuf s).segSeq + segLen s } = textMbuf s from rfl]
  rcases tcpRxText_safe hnear.rcvNxt hw hnear.ooo (textMbuf_spans ha hne) hpe hnearby with
    ⟨hmeets, hstop⟩ | ⟨hmeets, t, p', hrx, hgrown, hooo, hwake⟩
  · rw [hstop]
    exact Or.inl ⟨⟨⟨hne, htext⟩, hmeets⟩, rfl⟩
  · rw [hrx]
    dsimp only
    rw [if_pos hwake]
    obtain ⟨htx, hstate⟩ := tcpRxText_tx (tcpRxText_release hrx)
    obtain ⟨hdelay, hdstate⟩ := delayAck_tx (c := t.conn)
    have hfinish : ∀ o : RxOut, o.conn = (delayAck t.conn).1 →
        (if t.fin then processFin o sndNxt else some o) =
          some (if t.fin then Tcp.processFin o else o) := by
      intro o ho
      split
      · refine processFin_eq ?_ ?_
        · rw [ho, hdstate, hstate]
          intro hsyn
          rw [hsyn] at htext
          cases htext
        · rw [ho, hdstate, hstate, hdelay.sndUna, htx.sndUna]
          exact hfin
      · rfl
    rw [hfinish _ rfl]
    refine Or.inr ⟨fun h => ?_, _, p', rfl, ?_, ?_⟩
    · rw [hmeets] at h
      cases h.2
    · exact hgrown.same (textDone_same rfl)
    · exact NearRx.same ⟨Nat.le_trans hnear.far hgrown.le, hgrown.rcvNxt, hooo⟩ (textDone_same rfl)

def finAtClosedWindow (c : Conn) (s : Segment) (sndNxt : Seq) : Prop :=
  reachesText c s sndNxt ∧ finMeetsClosedWindow c (textMbuf s) = true

instance (c : Conn) (s : Segment) (sndNxt : Seq) : Decidable (finAtClosedWindow c s sndNxt) :=
  inferInstanceAs (Decidable (_ ∧ _))

/-- What becomes of a connection at position `p`. -/
inductive SegmentEffect (base : Seq) (c : Conn) (p : Nat) (c' : Conn) : Prop
  | failed (eq : c' = Tcp.tcpConnFail c econnreset)
  | grown (p' : Nat) (grown : Grown base c c' p p') (near : NearRx base c' p')

theorem SegmentEffect.of_same (hnear : NearRx base c p) (hsame : SameRx c c') :
    SegmentEffect base c p c' :=
  .grown p ((Grown.refl hnear.rcvNxt).same hsame) (hnear.same hsame)

theorem tcpRxConnSlow_eq_steps (c : Conn) (s : Segment) (sndNxt win : Seq) :
    tcpRxConnSlow c (segMbuf s) s.ack sndNxt win =
      slowSteps (fun c => processText c (segMbuf s) (segLen s) sndNxt) c s sndNxt win := by
  unfold tcpRxConnSlow
  simp only [openSynReceived_eq, finAcked_eq, tcpConnFail_eq, Option.map_some, segMbuf_len]
  rfl

theorem tcpRxConnSlow_safe {s : Segment} {sndNxt win : Seq} (hnear : NearRx base c p)
    (hw : c.rcvWnd.toNat ≤ tcpWin) (hmss : s.data.length ≤ c.rcvMss) :
    (finAtClosedWindow c s sndNxt ∧ tcpRxConnSlow c (segMbuf s) s.ack sndNxt win = none) ∨
    (¬ finAtClosedWindow c s sndNxt ∧
      ∃ o, tcpRxConnSlow c (segMbuf s) s.ack sndNxt win = some o ∧ SegmentEffect base c p o.conn) := by
  rw [tcpRxConnSlow_eq_steps]
  rcases slowSteps_cases c s (fun c => processText c (segMbuf s) (segLen s) sndNxt) sndNxt win hmss
    with (⟨o, ho, hsame, -, hskip⟩ | ⟨o, ho, hconn, hskip, -⟩) | ⟨c₂, hat, ho⟩
  · exact Or.inr ⟨fun h => hskip h.1, o, ho, .of_same hnear hsame⟩
  · exact Or.inr ⟨fun h => hskip h.1, o, ho, .failed hconn⟩
  · have hsame := hat.same
    rw [finAtClosedWindow, hat.reaches, ← finMeetsClosedWindow_same hsame, ho]
    rcases processText_safe sndNxt (hnear.same hsame) (by rw [hsame.rcvWnd]; exact hw)
        (by rw [isAcceptable_same hsame]; exact hat.acceptable) finAcked_finWait1 with
      hstop | ⟨hgood, o, p', hrx, hgrown, hnear'⟩
    · exact Or.inl hstop
    · exact Or.inr ⟨hgood, o, hrx, .grown p' (.of_same hsame hgrown) hnear'⟩

/-- A segment of any kind stops the debug build exactly if its text closes the window
in front of a queued FIN; otherwise the queues stay as they should. -/
theorem tcpRxConn_safe (s : Segment) (sndNxt : Seq) (hnear : NearRx base c p)
    (hw : c.rcvWnd.toNat ≤ tcpWin) :
    (finAtClosedWindow c s sndNxt ∧ tcpRxConn c s sndNxt = none) ∨
    (¬ finAtClosedWindow c s sndNxt ∧
      ∃ o, tcpRxConn c s sndNxt = some o ∧ SegmentEffect base c p o.conn) := by
  unfold tcpRxConn
  by_cases hmss : s.data.length > c.rcvMss
  · simp only [hmss, if_true]
    exact Or.inr ⟨fun h => absurd h.1.1 (Nat.not_le.2 hmss), _, rfl, .of_same hnear .refl⟩
  simp only [hmss, if_false]
  cases hslow : slowPath c (segMbuf s) s.ack sndNxt (BitVec.ofNat 32 s.data.length) with
  | true => exact tcpRxConnSlow_safe hnear hw (Nat.le_of_not_lt hmss)
  | false =>
    obtain ⟨hfin, -, hpos, -, -, hseq, hooo, hfits⟩ := fastPath_of_checks hslow
    refine Or.inr ⟨fun h => ?_, _, rfl, ?_⟩
    · have hmeets := h.2
      unfold finMeetsClosedWindow at hmeets
      rw [hooo, drainMeetsFin, drainMeets, Bool.and_false] at hmeets
      cases hmeets
    · obtain ⟨hnxt, hwnd, hrxq, hooo', -, -, hexcl, -⟩ := tcpRxFast_spec (c := c) (m := segMbuf s)
        s.ack (s.win.setWidth 32 <<< c.sndWscale) (BitVec.ofNat 32 s.data.length)
      have hlen := toNat_dataLen s
      have hnxt' : s.seq + BitVec.ofNat 32 s.data.length = serialAt base (p + s.data.length) := by
        rw [hseq, hnear.rcvNxt, serialAt_add]
      refine .grown (p + s.data.length) ⟨by omega, hnxt.trans hnxt', ?_, ⟨[segMbuf s], hrxq, ?_, ?_⟩,
        hexcl⟩ ⟨Nat.le_trans hnear.far (Nat.le_add_right _ _), hnxt.trans hnxt', ?_⟩
      · rw [hwnd, BitVec.toNat_sub_of_le (by rw [BitVec.le_def, hlen]; exact hfits), hlen]
        omega
      · show (s.data ++ []).length ≤ _
        rw [append_nil]
        omega
      · exact fun _ => cons_ne_nil _ _
      · rw [hooo', hooo]
        exact .nil

end Text

end Svalinn.Tcp.Debug
