/-
  Tcp/OooQueue.lean --- what is left in the out-of-order queue.

  Source: `runtime/net/tcp_in.c` (`tcp_rx_append_text`, `tcp_rx_text`).

  Seen from a fixed sequence number the segments of `rxq_ooo` are intervals of integers, and
  `tcp_rx_text` inserts and drains them as `Lib/Staggered.lean` does.  The queue is ordered by
  where the segments end; a segment that covers another one stands behind it, and the drain loop
  stops in front of the covered one although the covering one could be delivered (`Blocked`).
-/
import Svalinn.Lib.Staggered
import Svalinn.Tcp.Read

set_option autoImplicit false

namespace Svalinn.Tcp.OooQueue

open Svalinn.Lib List Option

/-! ## Segments as intervals -/

/-- Where the segment starts, counted from `r`. -/
def starts (r : Seq) (m : Mbuf) : Int := offsetFrom r m.segSeq

/-- Where the segment stops, counted from `r`. -/
def stops (r : Seq) (m : Mbuf) : Int := offsetFrom r m.segEnd

/-- Both ends of the segment are near `r`. -/
structure CloseSeg (r : Seq) (m : Mbuf) : Prop where
  segSeq : Close r m.segSeq
  segEnd : Close r m.segEnd

section Offsets

variable {r : Seq} {m : Mbuf} {c c' : Conn}

theorem oooInsertRev_eq {q : List Mbuf} (hq : ∀ x ∈ q, CloseSeg r x) (hm : CloseSeg r m) :
    oooInsertRev q m = insertRev (starts r) (stops r) q m := by
  induction q with
  | nil => rfl
  | cons x q ih =>
    obtain ⟨hx, hq⟩ := forall_mem_cons.1 hq
    unfold oooInsertRev insertRev
    simp only [hm.segEnd.wrapsGt_iff hx.segEnd, hm.segSeq.wrapsGte_iff hx.segSeq, ih hq]
    rfl

theorem clipHead_segSeq {m' : Mbuf} (hnxt : Close r c.rcvNxt) (hm : CloseSeg r m)
    (hle : starts r m ≤ offsetFrom r c.rcvNxt) (h : clipHead c m = some m') :
    m'.segSeq = c.rcvNxt ∧ m'.segEnd = m.segEnd := by
  unfold clipHead at h
  split at h
  · obtain ⟨m₁, hpull, rfl⟩ := map_eq_some_iff.1 h
    obtain ⟨-, hm₁⟩ := ite_none_left_eq_some.1 hpull
    cases hm₁
    refine ⟨?_, rfl⟩
    show m.segSeq + (c.rcvNxt - m.segSeq) = c.rcvNxt
    rw [BitVec.add_comm, BitVec.sub_add_cancel]
  · rename_i hlt
    cases h
    rw [hm.segSeq.wrapsLt_iff hnxt] at hlt
    exact ⟨Close.eq_of_offsetFrom_eq (Int.le_antisymm hle (Int.not_lt.1 hlt)), rfl⟩

theorem clipTail_segEnd {m' : Mbuf} (hedge : Close r (c.rcvNxt + c.rcvWnd))
    (hend : Close r m.segEnd) (h : clipTail c m = some m') :
    m'.segSeq = m.segSeq ∧ Close r m'.segEnd ∧
      offsetFrom r m'.segEnd = min (stops r m) (offsetFrom r (c.rcvNxt + c.rcvWnd)) := by
  unfold clipTail at h
  split at h
  · rename_i hlt
    obtain ⟨m₁, htrim, rfl⟩ := map_eq_some_iff.1 h
    obtain ⟨-, hm₁⟩ := ite_none_left_eq_some.1 htrim
    cases hm₁
    rw [hedge.wrapsLt_iff hend] at hlt
    exact ⟨rfl, hedge, (min_eq_right (le_of_lt hlt)).symm⟩
  · rename_i hlt
    cases h
    rw [hedge.wrapsLt_iff hend, not_lt] at hlt
    exact ⟨rfl, hend, (min_eq_left hlt).symm⟩

/-- What appending text does to the numbers: the edge of the window stays, and `rcv_nxt` moves to
the end of the segment or to the edge. -/
structure Appended (r : Seq) (m : Mbuf) (c c' : Conn) : Prop where
  edge : c'.rcvNxt + c'.rcvWnd = c.rcvNxt + c.rcvWnd
  close : Close r c'.rcvNxt
  rcvNxt : offsetFrom r c'.rcvNxt = min (stops r m) (offsetFrom r (c.rcvNxt + c.rcvWnd))
  rxqOoo : c'.rxqOoo = c.rxqOoo
  rxqOooLen : c'.rxqOooLen = c.rxqOooLen

theorem appended_of_tcpRxAppendText (hnxt : Close r c.rcvNxt) (hedge : Close r (c.rcvNxt + c.rcvWnd))
    (hm : CloseSeg r m) (hle : starts r m ≤ offsetFrom r c.rcvNxt)
    (h : tcpRxAppendText c m = some c') : Appended r m c c' := by
  unfold tcpRxAppendText at h
  split at h
  · cases h
  rename_i m₁ hhead
  split at h
  · cases h
  rename_i m₂ htail
  cases h
  obtain ⟨hseq₁, hend₁⟩ := clipHead_segSeq hnxt hm hle hhead
  obtain ⟨hseq₂, hclose₂, hoff₂⟩ := clipTail_segEnd hedge (hend₁ ▸ hm.segEnd) htail
  refine ⟨?_, hclose₂, ?_, rfl, rfl⟩
  · show m₂.segEnd + (c.rcvWnd - (m₂.segEnd - m₂.segSeq)) = c.rcvNxt + c.rcvWnd
    rw [hseq₂, hseq₁]
    ring
  · rw [hoff₂]
    unfold stops
    rw [hend₁]

/-- The queue and `rcv_nxt` are what is left of intervals and the position reached. -/
structure Drained (r edge : Seq) (left : List Mbuf × Int) (c : Conn) : Prop where
  rxqOoo : c.rxqOoo = left.1
  rcvNxt : offsetFrom r c.rcvNxt = left.2
  close : Close r c.rcvNxt
  edge_eq : c.rcvNxt + c.rcvWnd = edge
  rxqOooLen : c.rxqOooLen = c.rxqOoo.length

theorem drained_of_drain {q : List Mbuf} {o o' : TextOut} {edge : Seq}
    (hq : ∀ x ∈ q, CloseSeg r x) (hnxt : Close r o.conn.rcvNxt)
    (hedge : o.conn.rcvNxt + o.conn.rcvWnd = edge) (hclose : Close r edge)
    (hlen : o.conn.rxqOooLen = q.length) (h : drain q o = some o') :
    Drained r edge (drainTo (starts r) (stops r) (offsetFrom r edge) q (offsetFrom r o.conn.rcvNxt))
      o'.conn := by
  induction q generalizing o with
  | nil =>
    cases h
    exact ⟨rfl, rfl, hnxt, hedge, hlen⟩
  | cons x q ih =>
    obtain ⟨hx, hq⟩ := forall_mem_cons.1 hq
    have hlen' : o.conn.rxqOooLen - 1 = q.length := by
      rw [hlen, length_cons, Nat.add_sub_cancel]
    have hends : wrapsLte x.segEnd o.conn.rcvNxt ↔ stops r x ≤ offsetFrom r o.conn.rcvNxt :=
      hx.segEnd.wrapsLte_iff hnxt
    have hahead : wrapsGt x.segSeq o.conn.rcvNxt ↔ offsetFrom r o.conn.rcvNxt < starts r x :=
      hx.segSeq.wrapsGt_iff hnxt
    unfold drain at h
    simp only [hends, hahead] at h
    unfold drainTo
    by_cases hstop : stops r x ≤ offsetFrom r o.conn.rcvNxt
    · rw [if_pos hstop] at h ⊢
      exact ih (o := { o with conn := { o.conn with rxqOooLen := o.conn.rxqOooLen - 1 } }) hq hnxt
        hedge hlen' h
    rw [if_neg hstop] at h ⊢
    by_cases hstart : offsetFrom r o.conn.rcvNxt < starts r x
    · rw [if_pos hstart] at h ⊢
      cases h
      exact ⟨rfl, rfl, hnxt, hedge, hlen⟩
    rw [if_neg hstart] at h ⊢
    split at h
    · cases h
    rename_i c₁ happend
    have happ := appended_of_tcpRxAppendText
      (c := { o.conn with rxqOooLen := o.conn.rxqOooLen - 1 }) hnxt (hedge.symm ▸ hclose) hx
      (Int.not_lt.1 hstart) happend
    have hrest := ih (o := { o with conn := c₁, wake := true, fin := o.fin || x.flags.fin }) hq
      happ.close (happ.edge.trans hedge) (happ.rxqOooLen.trans hlen') h
    have hoff : offsetFrom r c₁.rcvNxt = min (stops r x) (offsetFrom r edge) := by
      rw [happ.rcvNxt, hedge]
    rw [← hoff]
    exact hrest

/-! ## One segment -/

theorem tcpRxText_used {o : TextOut} (h : tcpRxText c m = some o) (hused : o.used = true) :
    ∃ o₁ o₂ : TextOut, drain o₁.conn.rxqOoo o₁ = some o₂ ∧ o.conn = o₂.conn ∧
      ((wrapsLte m.segSeq c.rcvNxt ∧ tcpRxAppendText c m = some o₁.conn) ∨
       (¬ wrapsLte m.segSeq c.rcvNxt ∧ ∃ q, oooInsert c.rxqOoo m = some q ∧
          o₁.conn = { c with rxqOoo := q, rxqOooLen := c.rxqOooLen + 1 })) := by
  rcases tcpRxText_cases h with ⟨-, hleft⟩ | ⟨o₁, o₂, -, hdrain, hconn, -, hstart⟩
  · cases hused.symm.trans hleft
  · exact ⟨o₁, o₂, hdrain, hconn, hstart⟩

theorem oooInsert_spec {q q' : List Mbuf} (hq : ∀ x ∈ q, CloseSeg r x) (hm : CloseSeg r m)
    (h : oooInsert q m = some q') :
    insertRev (starts r) (stops r) q.reverse m = some q'.reverse := by
  obtain ⟨q₁, hq₁, rfl⟩ := map_eq_some_iff.1 h
  rw [reverse_reverse, ← oooInsertRev_eq (fun x hx => hq x (mem_reverse.1 hx)) hm]
  exact hq₁

end Offsets

/-! ## Acceptable segments -/

theorem offsetFrom_of_between {nxt wnd s : Seq} (hwnd : wnd.toNat < 2 ^ 29) (hopen : wnd ≠ 0)
    (hle : wrapsLte nxt s) (hlt : wrapsLt s (nxt + wnd)) :
    0 ≤ offsetFrom nxt s ∧ offsetFrom nxt s < wnd.toNat := by
  have hpos : wnd.toNat ≠ 0 := fun hzero => hopen (BitVec.eq_of_toNat_eq hzero)
  unfold wrapsLte at hle
  unfold wrapsLt at hlt
  unfold offsetFrom
  rw [BitVec.toInt_eq_toNat_cond] at hle hlt ⊢
  simp only [BitVec.toNat_sub, BitVec.toNat_add] at hle hlt ⊢
  have := nxt.isLt
  have := s.isLt
  split at hle <;> split at hlt <;> split <;> omega

theorem offsetFrom_add {r s len : Seq} (hlow : -2 ^ 30 ≤ offsetFrom r s)
    (hhigh : offsetFrom r s < 2 ^ 30) (hlen : len.toNat < 2 ^ 30) :
    offsetFrom r (s + len) = offsetFrom r s + len.toNat := by
  unfold offsetFrom at *
  rw [BitVec.toInt_eq_toNat_cond] at hlow hhigh ⊢
  rw [BitVec.toInt_eq_toNat_cond]
  simp only [BitVec.toNat_sub, BitVec.toNat_add] at hlow hhigh ⊢
  have := r.isLt
  have := s.isLt
  split at hlow <;> split <;> omega

theorem offsetFrom_sub {r s len : Seq} (hlow : -2 ^ 30 ≤ offsetFrom r s) (hlen : len.toNat < 2 ^ 30) :
    offsetFrom r (s - len) = offsetFrom r s - len.toNat := by
  unfold offsetFrom at *
  rw [BitVec.toInt_eq_toNat_cond] at hlow ⊢
  rw [BitVec.toInt_eq_toNat_cond]
  simp only [BitVec.toNat_sub] at hlow ⊢
  have := r.isLt
  have := s.isLt
  split at hlow <;> split <;> omega

theorem offsetFrom_of_isAcceptable {c : Conn} {len seq : Seq} (hwnd : c.rcvWnd.toNat < 2 ^ 29)
    (hlen : len ≠ 0) (hshort : len.toNat ≤ 2 ^ 16) (hacc : isAcceptable c len seq = true) :
    -2 ^ 16 < offsetFrom c.rcvNxt seq ∧ offsetFrom c.rcvNxt seq < c.rcvWnd.toNat ∧
      offsetFrom c.rcvNxt (seq + len) = offsetFrom c.rcvNxt seq + len.toNat ∧
      0 < offsetFrom c.rcvNxt (seq + len) := by
  have hpos : len.toNat ≠ 0 := fun hzero => hlen (BitVec.eq_of_toNat_eq hzero)
  unfold isAcceptable at hacc
  rw [if_neg (fun h => hlen h.1), if_neg hlen] at hacc
  split at hacc
  · cases hacc
  rename_i hopen
  simp only [Bool.or_eq_true, Bool.and_eq_true, decide_eq_true_eq] at hacc
  rcases hacc with ⟨hle, hlt⟩ | ⟨hle, hlt⟩
  · obtain ⟨hge, hin⟩ := offsetFrom_of_between hwnd hopen hle hlt
    have hadd : offsetFrom c.rcvNxt (seq + len) = offsetFrom c.rcvNxt seq + len.toNat :=
      offsetFrom_add (by omega) (by omega) (by omega)
    exact ⟨by omega, hin, hadd, by omega⟩
  · -- the last byte lies in the window
    obtain ⟨hge, hin⟩ := offsetFrom_of_between hwnd hopen hle hlt
    have hone : (len - 1).toNat = len.toNat - 1 := by
      rw [BitVec.toNat_sub_of_le]
      · rfl
      · rw [BitVec.le_def]
        exact Nat.one_le_iff_ne_zero.2 hpos
    have hseq : seq = seq + len - 1 - (len - 1) := by ring
    have hsub : offsetFrom c.rcvNxt seq = offsetFrom c.rcvNxt (seq + len - 1) - (len - 1).toNat := by
      rw [← offsetFrom_sub (by omega) (by omega), ← hseq]
    have hadd : offsetFrom c.rcvNxt (seq + len) = offsetFrom c.rcvNxt seq + len.toNat :=
      offsetFrom_add (by omega) (by omega) (by omega)
    exact ⟨by omega, by omega, hadd, by omega⟩

/-- A segment that `tcp_rx_text` may be called with. -/
structure Acceptable (c : Conn) (m : Mbuf) : Prop where
  nonempty : m.segEnd ≠ m.segSeq
  short : (m.segEnd - m.segSeq).toNat ≤ 2 ^ 16
  accepted : isAcceptable c (m.segEnd - m.segSeq) m.segSeq = true

/-- A queue ordered by the ends of its segments, all of them within a quarter of the number space
of `rcv_nxt`, so that the order is the wrapping order. -/
structure Ordered (c : Conn) : Prop where
  window : c.rcvWnd.toNat < 2 ^ 29
  close : ∀ x ∈ c.rxqOoo, CloseSeg c.rcvNxt x
  sorted : c.rxqOoo.Pairwise fun x y => wrapsLte x.segEnd y.segEnd
  length : c.rxqOooLen = c.rxqOoo.length

/-- No segment of the queue covers another one. -/
def NoCover (q : List Mbuf) : Prop :=
  q.Pairwise fun x y => wrapsLt x.segSeq y.segSeq ∧ wrapsLt x.segEnd y.segEnd

/-- A segment that has to be queued covers none of those queued. -/
def CoversNone (c : Conn) (m : Mbuf) : Prop :=
  ¬ wrapsLte m.segSeq c.rcvNxt →
    ∀ x ∈ c.rxqOoo, ¬ (wrapsLte m.segSeq x.segSeq ∧ wrapsLte x.segEnd m.segEnd)

/-- Seen from `rcv_nxt`, draining stops in front of a segment while one behind it could be
delivered or ends at the number another one ends at.  A segment in order is appended first, any
other is queued first. -/
def Blocked (c : Conn) (m : Mbuf) : Prop :=
  if wrapsLte m.segSeq c.rcvNxt then
    Stuck (starts c.rcvNxt) (stops c.rcvNxt) (c.rcvWnd.toNat : Int) c.rxqOoo
      (min (stops c.rcvNxt m) c.rcvWnd.toNat)
  else ∃ q, oooInsert c.rxqOoo m = some q ∧
    Stuck (starts c.rcvNxt) (stops c.rcvNxt) (c.rcvWnd.toNat : Int) q 0

section Segment

variable {c : Conn} {m : Mbuf} {o : TextOut}

theorem Acceptable.offsets (hm : Acceptable c m) (hwnd : c.rcvWnd.toNat < 2 ^ 29) :
    -2 ^ 16 < starts c.rcvNxt m ∧ starts c.rcvNxt m < c.rcvWnd.toNat ∧
      stops c.rcvNxt m ≤ starts c.rcvNxt m + 2 ^ 16 ∧ 0 < stops c.rcvNxt m := by
  have hlen : m.segEnd - m.segSeq ≠ 0 := fun hzero => hm.nonempty (sub_eq_zero.1 hzero)
  have hend : m.segSeq + (m.segEnd - m.segSeq) = m.segEnd := by ring
  have hshort := hm.short
  obtain ⟨hlow, hin, hadd, hpos⟩ := offsetFrom_of_isAcceptable hwnd hlen hm.short hm.accepted
  rw [hend] at hadd hpos
  unfold starts stops
  exact ⟨hlow, hin, by omega, hpos⟩

theorem Acceptable.closeSeg (hm : Acceptable c m) (hwnd : c.rcvWnd.toNat < 2 ^ 29) :
    CloseSeg c.rcvNxt m := by
  obtain ⟨hlow, hin, hstop, hpos⟩ := hm.offsets hwnd
  unfold starts stops at *
  refine ⟨⟨?_, ?_⟩, ⟨?_, ?_⟩⟩ <;> omega

theorem close_edge (hwnd : c.rcvWnd.toNat < 2 ^ 29) : Close c.rcvNxt (c.rcvNxt + c.rcvWnd) ∧
      offsetFrom c.rcvNxt (c.rcvNxt + c.rcvWnd) = c.rcvWnd.toNat := by
  have hself := offsetFrom_self c.rcvNxt
  have hadd : offsetFrom c.rcvNxt (c.rcvNxt + c.rcvWnd) = offsetFrom c.rcvNxt c.rcvNxt +
      c.rcvWnd.toNat := offsetFrom_add (by omega) (by omega) (by omega)
  rw [hself, Int.zero_add] at hadd
  refine ⟨⟨?_, ?_⟩, hadd⟩ <;> omega

/-- The queue that is drained, as intervals seen from the old `rcv_nxt`. -/
structure Queued (c : Conn) (m : Mbuf) (q : List Mbuf) : Prop where
  subset : ∀ x ∈ q, x = m ∨ x ∈ c.rxqOoo
  sorted : q.Pairwise fun x y => stops c.rcvNxt x ≤ stops c.rcvNxt y
  staggered : NoCover c.rxqOoo → CoversNone c m →
    q.Pairwise (Before (starts c.rcvNxt) (stops c.rcvNxt))

theorem Ordered.sorted_offsets (hc : Ordered c) :
    c.rxqOoo.Pairwise fun x y => stops c.rcvNxt x ≤ stops c.rcvNxt y :=
  hc.sorted.imp_of_mem fun hx hy hle =>
    ((hc.close _ hx).segEnd.wrapsLte_iff (hc.close _ hy).segEnd).1 hle

theorem Ordered.before_offsets (hc : Ordered c) (hcover : NoCover c.rxqOoo) :
    c.rxqOoo.Pairwise (Before (starts c.rcvNxt) (stops c.rcvNxt)) :=
  List.Pairwise.imp_of_mem (fun hx hy hlt =>
    ⟨((hc.close _ hx).segSeq.wrapsLt_iff (hc.close _ hy).segSeq).1 hlt.1,
      ((hc.close _ hx).segEnd.wrapsLt_iff (hc.close _ hy).segEnd).1 hlt.2⟩) hcover

theorem Ordered.queued_insert {q : List Mbuf} (hc : Ordered c) (hm : Acceptable c m)
    (hout : ¬ wrapsLte m.segSeq c.rcvNxt) (h : oooInsert c.rxqOoo m = some q) : Queued c m q := by
  have hclose := hm.closeSeg hc.window
  have hins := oooInsert_spec hc.close hclose h
  refine ⟨?_, ?_, ?_⟩
  · intro x hx
    have hmem := (insertRev_perm hins).subset (mem_reverse.2 hx)
    rw [mem_cons, mem_reverse] at hmem
    exact hmem
  · exact pairwise_reverse.1 (insertRev_sorted (pairwise_reverse.2 hc.sorted_offsets) hins)
  · intro hcover hnone
    refine pairwise_reverse.1
      (insertRev_staggered (pairwise_reverse.2 (hc.before_offsets hcover)) ?_ hins)
    intro x hx hcov
    rw [mem_reverse] at hx
    refine hnone hout x hx ⟨?_, ?_⟩
    · exact (hclose.segSeq.wrapsLte_iff (hc.close x hx).segSeq).2 hcov.1
    · exact ((hc.close x hx).segEnd.wrapsLte_iff hclose.segEnd).2 hcov.2

theorem Ordered.tcpRxText_spec (hc : Ordered c) (hm : Acceptable c m) (h : tcpRxText c m = some o)
    (hused : o.used = true) :
    ∃ (q : List Mbuf) (p : Int), Queued c m q ∧
      (Blocked c m ↔ Stuck (starts c.rcvNxt) (stops c.rcvNxt) (c.rcvWnd.toNat : Int) q p) ∧
      Drained c.rcvNxt (c.rcvNxt + c.rcvWnd)
        (drainTo (starts c.rcvNxt) (stops c.rcvNxt) c.rcvWnd.toNat q p) o.conn := by
  have hclose := hm.closeSeg hc.window
  obtain ⟨hedge, hoff⟩ := close_edge hc.window
  obtain ⟨o₁, o₂, hdrain, hconn, ⟨hle, happend⟩ | ⟨hout, q, hins, ho₁⟩⟩ := tcpRxText_used h hused
  · have happ := appended_of_tcpRxAppendText (Close.refl _) hedge hclose
      ((hclose.segSeq.wrapsLte_iff (Close.refl _)).1 hle) happend
    have hqueue : Queued c m o₁.conn.rxqOoo := by
      rw [happ.rxqOoo]
      exact ⟨fun x hx => .inr hx, hc.sorted_offsets, fun hcover _ => hc.before_offsets hcover⟩
    have hnxt := happ.rcvNxt
    rw [hoff] at hnxt
    have hdrained := drained_of_drain (by rw [happ.rxqOoo]; exact hc.close) happ.close happ.edge hedge
      (by rw [happ.rxqOooLen, happ.rxqOoo]; exact hc.length) hdrain
    rw [hoff] at hdrained
    refine ⟨_, _, hqueue, ?_, hconn ▸ hdrained⟩
    rw [Blocked, if_pos hle, happ.rxqOoo, hnxt]
  · have hqueue : Queued c m q := hc.queued_insert hm hout hins
    have hperm := insertRev_perm (oooInsert_spec hc.close hclose hins)
    have hlen : c.rxqOooLen + 1 = q.length := by
      have := hperm.length_eq
      rw [length_reverse, length_cons, length_reverse] at this
      rw [hc.length, this]
    have hdrained : Drained c.rcvNxt (c.rcvNxt + c.rcvWnd)
        (drainTo (starts c.rcvNxt) (stops c.rcvNxt) (offsetFrom c.rcvNxt (c.rcvNxt + c.rcvWnd))
          o₁.conn.rxqOoo (offsetFrom c.rcvNxt o₁.conn.rcvNxt)) o₂.conn := by
      refine drained_of_drain ?_ ?_ ?_ hedge ?_ hdrain
      · rw [ho₁]
        intro x hx
        rcases hqueue.subset x hx with rfl | hx
        · exact hclose
        · exact hc.close x hx
      · rw [ho₁]
        exact Close.refl _
      · rw [ho₁]
      · rw [ho₁]
        exact hlen
    rw [ho₁, offsetFrom_self, hoff] at hdrained
    refine ⟨q, 0, hqueue, ?_, ?_⟩
    · rw [Blocked, if_neg hout]
      constructor
      · rintro ⟨q', hq', hstuck⟩
        obtain rfl := some.inj (hins.symm.trans hq')
        exact hstuck
      · exact fun hstuck => ⟨q, hins, hstuck⟩
    · exact hconn ▸ hdrained

theorem Queued.closeSeg {q : List Mbuf} (hq : Queued c m q) (hc : Ordered c) (hm : Acceptable c m) :
    ∀ x ∈ q, CloseSeg c.rcvNxt x := by
  intro x hx
  rcases hq.subset x hx with rfl | hx
  · exact hm.closeSeg hc.window
  · exact hc.close x hx

end Segment

/-- A connection at the start of its stream with some segments queued. -/
def holding (q : List Mbuf) : Conn := { openConn 0 100 with rxqOooLen := q.length, rxqOoo := q }

end Svalinn.Tcp.OooQueue
