/-
  Pcc/Sessions.lean --- the number of sessions that a sender reads.

  Source: `breakwater/src/pcc_server.c`, `srpc_server`, the critical section of `srpc_sender`
  and the reads of `srpc_update_credit`.

  A session has two threads, `srpc_server` and `srpc_sender`, and the spin lock `s->lock`,
  which workers and the waker take as well.  `srpc_num_sess` is an `atomic_t`; every change of
  it, every acquisition and release of the lock and every write of `s->closed` is one step.
  The counter is kept as an integer: each session holds two stacks, and far fewer than `2^31`
  sessions fit into memory.
-/
import Svalinn.Lib.Transition
import Mathlib.Data.Finset.Card

set_option autoImplicit false

namespace Svalinn.Pcc.Sessions

open Svalinn.Lib Option

/-- Where `srpc_server` is. -/
inductive ServerPc where
  | none
  | accepted
  /-- `srpc_num_sess` is incremented -/
  | counted
  /-- the sender is spawned, `srpc_recv_one` is called -/
  | receiving
  /-- the teardown holds `s->lock` -/
  | closing
  /-- `s->lock` is released again -/
  | closed
  /-- `srpc_num_sess` is decremented -/
  | left
  deriving DecidableEq

/-- Where `srpc_sender` is. -/
inductive SenderPc where
  | none
  /-- about to take `s->lock` -/
  | start
  /-- holding `s->lock`, about to look at `s->closed` and for work -/
  | locked
  | parked
  /-- holding `s->lock`, in `srpc_update_credit` -/
  | updating
  /-- `srpc_num_sess` has been read -/
  | dividing (numSess : Int)
  | sending
  | leaving
  deriving DecidableEq

inductive Holder where
  | server
  | sender
  | other
  deriving DecidableEq

structure Sess where
  server : ServerPc := .none
  sender : SenderPc := .none
  lock : Option Holder := none
  closed : Bool := false
  deriving DecidableEq

structure State where
  numSess : Int
  sess : Nat → Sess

def State.set (s : State) (k : Nat) (t : Sess) : State :=
  { s with sess := Function.update s.sess k t }

inductive Event where
  | accept
  | count
  | spawn
  /-- `srpc_recv_one` enters or leaves its critical section -/
  | recvLock
  | recvUnlock
  | otherLock
  | otherUnlock
  | closeLock
  | setClosed
  | closeUnlock
  | uncount
  | senderLock
  | senderCheck (work : Bool)
  | senderReady
  | readNumSess
  /-- the rest of `srpc_update_credit` and of the critical section -/
  | senderUnlock
  | senderSent (ok : Bool)
  deriving DecidableEq

/-- What a thread of session `t` does to it. -/
def sessStep (numSess : Int) (t : Sess) : Event → Option Sess
  | .accept => if t.server = .none then some { t with server := .accepted } else none
  | .count => if t.server = .accepted then some { t with server := .counted } else none
  | .spawn =>
    if t.server = .counted then some { t with server := .receiving, sender := .start } else none
  | .recvLock =>
    if t.server = .receiving ∧ t.lock = none then some { t with lock := some .server } else none
  | .recvUnlock =>
    if t.server = .receiving ∧ t.lock = some .server then some { t with lock := none } else none
  | .otherLock => if t.lock = none then some { t with lock := some .other } else none
  | .otherUnlock => if t.lock = some .other then some { t with lock := none } else none
  | .closeLock =>
    if t.server = .receiving ∧ t.lock = none then
      some { t with server := .closing, lock := some .server }
    else none
  | .setClosed =>
    if t.server = .closing ∧ t.closed = false then some { t with closed := true } else none
  | .closeUnlock =>
    if t.server = .closing ∧ t.closed = true then some { t with server := .closed, lock := none }
    else none
  | .uncount => if t.server = .closed then some { t with server := .left } else none
  | .senderLock =>
    if t.sender = .start ∧ t.lock = none then
      some { t with sender := .locked, lock := some .sender }
    else none
  | .senderCheck work =>
    if t.sender = .locked then
      if t.closed then some { t with sender := .leaving, lock := none }
      else if work then some { t with sender := .updating }
      else some { t with sender := .parked, lock := none }
    else none
  | .senderReady => if t.sender = .parked then some { t with sender := .start } else none
  | .readNumSess =>
    if t.sender = .updating then some { t with sender := .dividing numSess } else none
  | .senderUnlock =>
    match t.sender with
    | .dividing _ => some { t with sender := .sending, lock := none }
    | _ => none
  | .senderSent ok =>
    if t.sender = .sending then some { t with sender := if ok then .start else .leaving } else none

/-- The change of `srpc_num_sess`. -/
def countChange : Event → Int
  | .count => 1
  | .uncount => -1
  | _ => 0

/-- Session `a.1` does `a.2`. -/
def step (s : State) (a : Nat × Event) : Option State :=
  (sessStep s.numSess (s.sess a.1) a.2).map fun t =>
    { s.set a.1 t with numSess := s.numSess + countChange a.2 }

def init : State := ⟨0, fun _ => {}⟩

/-! ## One session -/

/-- The session is in `srpc_num_sess`. -/
def Sess.isCounted (t : Sess) : Bool :=
  match t.server with
  | .counted | .receiving | .closing | .closed => true
  | .none | .accepted | .left => false

def Sess.inSection (t : Sess) : Bool :=
  match t.sender with
  | .locked | .updating | .dividing _ => true
  | .none | .start | .parked | .sending | .leaving => false

def Sess.isUpdating (t : Sess) : Bool :=
  match t.sender with
  | .updating | .dividing _ => true
  | _ => false

structure SessInv (t : Sess) : Prop where
  spawned : t.sender ≠ .none →
    t.server = .receiving ∨ t.server = .closing ∨ t.server = .closed ∨ t.server = .left
  section_lock : t.inSection = true → t.lock = some .sender
  closing_lock : t.server = .closing → t.lock = some .server
  closed_of_left : t.server = .closed ∨ t.server = .left → t.closed = true
  open_of_updating : t.isUpdating = true → t.closed = false
  positive : ∀ n, t.sender = .dividing n → 1 ≤ n

theorem SessInv.init : SessInv {} := by
  refine ⟨?_, ?_, ?_, ?_, ?_, ?_⟩
  · intro h
    exact absurd rfl h
  · nofun
  · nofun
  · rintro (h | h) <;> cases h
  · nofun
  · nofun

theorem SessInv.isCounted_of_updating {t : Sess} (h : SessInv t) (hu : t.isUpdating = true) :
    t.isCounted = true := by
  have hspawned : t.sender ≠ .none := by
    intro hn
    unfold Sess.isUpdating at hu
    rw [hn] at hu
    cases hu
  have hopen := h.open_of_updating hu
  rcases h.spawned hspawned with hs | hs | hs | hs
  · unfold Sess.isCounted
    rw [hs]
  · unfold Sess.isCounted
    rw [hs]
  · rw [h.closed_of_left (.inl hs)] at hopen
    cases hopen
  · rw [h.closed_of_left (.inr hs)] at hopen
    cases hopen

theorem SessInv.of_sender {t t' : Sess} (h : SessInv t) (hsender : t'.sender = t.sender)
    (hspawned : t.sender ≠ .none →
      t'.server = .receiving ∨ t'.server = .closing ∨ t'.server = .closed ∨ t'.server = .left)
    (hlock : t.inSection = true → t'.lock = some .sender)
    (hclosing : t'.server = .closing → t'.lock = some .server)
    (hleft : t'.server = .closed ∨ t'.server = .left → t'.closed = true)
    (hopen : t.isUpdating = true → t'.closed = false) : SessInv t' := by
  have hsec : t'.inSection = t.inSection := by
    unfold Sess.inSection
    rw [hsender]
  have hupd : t'.isUpdating = t.isUpdating := by
    unfold Sess.isUpdating
    rw [hsender]
  refine ⟨?_, ?_, hclosing, hleft, ?_, ?_⟩
  · rw [hsender]
    exact hspawned
  · rw [hsec]
    exact hlock
  · rw [hupd]
    exact hopen
  · rw [hsender]
    exact h.positive

theorem SessInv.of_server {t t' : Sess} (h : SessInv t) (hserver : t'.server = t.server)
    (hclosed : t'.closed = t.closed) (hspawned : t.sender ≠ .none)
    (hlock : t'.inSection = true → t'.lock = some .sender)
    (hclosing : t.server = .closing → t'.lock = some .server)
    (hopen : t'.isUpdating = true → t.closed = false)
    (hpos : ∀ n, t'.sender = .dividing n → 1 ≤ n) : SessInv t' := by
  refine ⟨?_, hlock, ?_, ?_, ?_, hpos⟩
  · intro _
    rw [hserver]
    exact h.spawned hspawned
  · rw [hserver]
    exact hclosing
  · rw [hserver, hclosed]
    exact h.closed_of_left
  · rw [hclosed]
    exact hopen

theorem SessInv.not_closing {t : Sess} (h : SessInv t) (hsec : t.inSection = true) :
    t.server ≠ .closing := by
  intro hs
  have hlock := (h.section_lock hsec).symm.trans (h.closing_lock hs)
  cases hlock

theorem SessInv.not_inSection {t : Sess} (h : SessInv t) (hlock : t.lock ≠ some .sender) :
    t.inSection ≠ true := fun hsec => hlock (h.section_lock hsec)

theorem inSection_of_isUpdating {t : Sess} (h : t.isUpdating = true) : t.inSection = true := by
  unfold Sess.isUpdating at h
  unfold Sess.inSection
  cases hs : t.sender with
  | locked | updating | dividing _ => rfl
  | _ =>
    rw [hs] at h
    cases h

theorem SessInv.keeps {t t' : Sess} {numSess : Int} {e : Event} (h : SessInv t)
    (hpos : t.isUpdating = true → 1 ≤ numSess) (hstep : sessStep numSess t e = some t') :
    SessInv t' := by
  cases e with
  | accept | count =>
    obtain ⟨hs, rfl⟩ := ite_some_none_eq_some.1 hstep
    refine h.of_sender rfl (fun hn => ?_) h.section_lock nofun nofun h.open_of_updating
    rcases h.spawned hn with hr | hr | hr | hr <;> rw [hs] at hr <;> cases hr
  | spawn =>
    obtain ⟨hs, rfl⟩ := ite_some_none_eq_some.1 hstep
    exact ⟨fun _ => .inl rfl, nofun, nofun, nofun, nofun, nofun⟩
  | recvLock =>
    obtain ⟨⟨hs, hl⟩, rfl⟩ := ite_some_none_eq_some.1 hstep
    have hsec := h.not_inSection (by rw [hl]; nofun)
    exact h.of_sender rfl h.spawned (fun hc => absurd hc hsec) (fun _ => rfl) h.closed_of_left
      h.open_of_updating
  | recvUnlock =>
    obtain ⟨⟨hs, hl⟩, rfl⟩ := ite_some_none_eq_some.1 hstep
    have hsec := h.not_inSection (by rw [hl]; nofun)
    exact h.of_sender rfl h.spawned (fun hc => absurd hc hsec)
      (fun hc => absurd (hs.symm.trans hc) nofun) h.closed_of_left h.open_of_updating
  | otherLock | otherUnlock =>
    obtain ⟨hl, rfl⟩ := ite_some_none_eq_some.1 hstep
    have hsec := h.not_inSection (by rw [hl]; nofun)
    exact h.of_sender rfl h.spawned (fun hc => absurd hc hsec)
      (fun hc => absurd (hl.symm.trans (h.closing_lock hc)) nofun) h.closed_of_left
      h.open_of_updating
  | closeLock =>
    obtain ⟨⟨hs, hl⟩, rfl⟩ := ite_some_none_eq_some.1 hstep
    have hsec := h.not_inSection (by rw [hl]; nofun)
    exact h.of_sender rfl (fun _ => .inr (.inl rfl)) (fun hc => absurd hc hsec) (fun _ => rfl)
      nofun h.open_of_updating
  | setClosed =>
    obtain ⟨⟨hs, -⟩, rfl⟩ := ite_some_none_eq_some.1 hstep
    refine h.of_sender rfl h.spawned h.section_lock h.closing_lock (fun _ => rfl) ?_
    intro hu
    exact absurd hs (h.not_closing (inSection_of_isUpdating hu))
  | closeUnlock =>
    obtain ⟨⟨hs, hc⟩, rfl⟩ := ite_some_none_eq_some.1 hstep
    refine h.of_sender rfl (fun _ => .inr (.inr (.inl rfl))) ?_ nofun (fun _ => hc)
      h.open_of_updating
    intro hsec
    exact absurd hs (h.not_closing hsec)
  | uncount =>
    obtain ⟨hs, rfl⟩ := ite_some_none_eq_some.1 hstep
    exact h.of_sender rfl (fun _ => .inr (.inr (.inr rfl))) h.section_lock nofun
      (fun _ => h.closed_of_left (.inl hs)) h.open_of_updating
  | senderLock =>
    obtain ⟨⟨hs, hl⟩, rfl⟩ := ite_some_none_eq_some.1 hstep
    refine h.of_server rfl rfl (by rw [hs]; nofun) (fun _ => rfl) ?_ nofun nofun
    intro hc
    exact absurd (hl.symm.trans (h.closing_lock hc)) nofun
  | senderCheck work =>
    unfold sessStep at hstep
    dsimp only at hstep
    split at hstep
    · rename_i hs
      have hsec : t.inSection = true := by
        unfold Sess.inSection
        rw [hs]
      have hsome : t.sender ≠ .none := hs.trans_ne nofun
      have hclosing := h.not_closing hsec
      split at hstep
      · cases hstep
        exact h.of_server rfl rfl hsome nofun (fun hc => absurd hc hclosing) nofun nofun
      · rename_i hopen
        split at hstep <;> cases hstep
        · -- the lock is held from here to the division, so the session stays open
          exact h.of_server rfl rfl hsome (fun _ => h.section_lock hsec) h.closing_lock
            (fun _ => Bool.eq_false_iff.2 hopen) nofun
        · exact h.of_server rfl rfl hsome nofun (fun hc => absurd hc hclosing) nofun nofun
    · cases hstep
  | senderReady =>
    obtain ⟨hs, rfl⟩ := ite_some_none_eq_some.1 hstep
    exact h.of_server rfl rfl (by rw [hs]; nofun) nofun h.closing_lock nofun nofun
  | readNumSess =>
    obtain ⟨hs, rfl⟩ := ite_some_none_eq_some.1 hstep
    have hu : t.isUpdating = true := by
      unfold Sess.isUpdating
      rw [hs]
    refine h.of_server rfl rfl (by rw [hs]; nofun)
      (fun _ => h.section_lock (inSection_of_isUpdating hu)) h.closing_lock
      (fun _ => h.open_of_updating hu) ?_
    rintro n ⟨⟩
    exact hpos hu
  | senderUnlock =>
    unfold sessStep at hstep
    dsimp only at hstep
    split at hstep
    · rename_i n hs
      cases hstep
      have hsec : t.inSection = true := by
        unfold Sess.inSection
        rw [hs]
      exact h.of_server rfl rfl (by rw [hs]; nofun) nofun
        (fun hc => absurd hc (h.not_closing hsec)) nofun nofun
    · cases hstep
  | senderSent ok =>
    obtain ⟨hs, rfl⟩ := ite_some_none_eq_some.1 hstep
    refine h.of_server rfl rfl (by rw [hs]; nofun) ?_ h.closing_lock ?_ ?_
    · cases ok <;> nofun
    · cases ok <;> nofun
    · cases ok <;> nofun

/-! ## All sessions -/

/-- `srpc_num_sess` is the number of sessions that are counted. -/
structure Inv (s : State) : Prop where
  each : ∀ k, SessInv (s.sess k)
  total : ∃ live : Finset Nat, s.numSess = live.card ∧ ∀ k, k ∈ live ↔ (s.sess k).isCounted = true

theorem Inv.init : Inv init := by
  refine ⟨fun _ => SessInv.init, ∅, rfl, ?_⟩
  intro k
  exact iff_of_false (Finset.notMem_empty k) nofun

theorem Inv.one_le {s : State} (h : Inv s) {k : Nat} (hk : (s.sess k).isCounted = true) :
    1 ≤ s.numSess := by
  obtain ⟨live, htotal, hlive⟩ := h.total
  have hcard := Finset.card_pos.2 ⟨k, (hlive k).2 hk⟩
  omega

theorem sessStep_isCounted {t t' : Sess} {numSess : Int} {e : Event}
    (hstep : sessStep numSess t e = some t') :
    (e = .count ∧ t.isCounted = false ∧ t'.isCounted = true) ∨
    (e = .uncount ∧ t.isCounted = true ∧ t'.isCounted = false) ∨
    (countChange e = 0 ∧ t'.isCounted = t.isCounted) := by
  unfold Sess.isCounted
  cases e with
  | accept | spawn =>
    obtain ⟨hs, rfl⟩ := ite_some_none_eq_some.1 hstep
    exact .inr (.inr ⟨rfl, by rw [hs]⟩)
  | count =>
    obtain ⟨hs, rfl⟩ := ite_some_none_eq_some.1 hstep
    exact .inl ⟨rfl, by rw [hs], rfl⟩
  | closeLock | closeUnlock =>
    obtain ⟨⟨hs, -⟩, rfl⟩ := ite_some_none_eq_some.1 hstep
    exact .inr (.inr ⟨rfl, by rw [hs]⟩)
  | uncount =>
    obtain ⟨hs, rfl⟩ := ite_some_none_eq_some.1 hstep
    exact .inr (.inl ⟨rfl, by rw [hs], rfl⟩)
  | senderCheck work =>
    unfold sessStep at hstep
    dsimp only at hstep
    split at hstep
    · split at hstep
      · cases hstep
        exact .inr (.inr ⟨rfl, rfl⟩)
      · split at hstep <;> cases hstep
        · exact .inr (.inr ⟨rfl, rfl⟩)
        · exact .inr (.inr ⟨rfl, rfl⟩)
    · cases hstep
  | senderUnlock =>
    unfold sessStep at hstep
    dsimp only at hstep
    split at hstep
    · cases hstep
      exact .inr (.inr ⟨rfl, rfl⟩)
    · cases hstep
  | _ =>
    obtain ⟨-, rfl⟩ := ite_some_none_eq_some.1 hstep
    exact .inr (.inr ⟨rfl, rfl⟩)

theorem Inv.keeps {s s' : State} {a : Nat × Event} (h : Inv s) (hstep : step s a = some s') :
    Inv s' := by
  obtain ⟨k, e⟩ := a
  obtain ⟨t, ht, rfl⟩ := map_eq_some_iff.1 hstep
  have hsess : ∀ j, (s.set k t).sess j = if j = k then t else s.sess j := by
    intro j
    exact Function.update_apply ..
  refine ⟨?_, ?_⟩
  · intro j
    change SessInv ((s.set k t).sess j)
    rw [hsess]
    split
    · exact (h.each k).keeps (fun hu => h.one_le ((h.each k).isCounted_of_updating hu)) ht
    · exact h.each j
  · obtain ⟨live, htotal, hlive⟩ := h.total
    change ∃ live : Finset Nat, s.numSess + countChange e = live.card ∧
      ∀ j, j ∈ live ↔ ((s.set k t).sess j).isCounted = true
    rcases sessStep_isCounted ht with ⟨rfl, hold, hnew⟩ | ⟨rfl, hold, hnew⟩ | ⟨hzero, hsame⟩
    · have hk : k ∉ live := fun hk => by simp [(hlive k).1 hk] at hold
      refine ⟨insert k live, ?_, ?_⟩
      · rw [Finset.card_insert_of_notMem hk, htotal]
        rfl
      · intro j
        rw [hsess, Finset.mem_insert, hlive]
        split
        · rename_i hj
          exact iff_of_true (.inl hj) hnew
        · rename_i hj
          exact or_iff_right hj
    · have hk : k ∈ live := (hlive k).2 hold
      refine ⟨live.erase k, ?_, ?_⟩
      · have hcard := Finset.card_erase_add_one hk
        rw [htotal]
        change (live.card : Int) + -1 = _
        omega
      · intro j
        rw [hsess, Finset.mem_erase, hlive]
        split
        · rename_i hj
          exact iff_of_false (fun hc => hc.1 hj) (by simp [hnew])
        · rename_i hj
          exact and_iff_right hj
    · refine ⟨live, by rw [hzero, Int.add_zero, htotal], ?_⟩
      intro j
      rw [hsess, hlive]
      split
      · rename_i hj
        rw [hj, hsame]
      · exact Iff.rfl

/-- The number of sessions that `srpc_update_credit` divides by is at least one: while the
sender holds the lock and has found its session open, that session is still counted. -/
theorem numSess_pos {s : State} (hreach : Reaches step anyStep init s) {k : Nat} {n : Int}
    (hdiv : (s.sess k).sender = .dividing n) : 1 ≤ n := by
  have hinv : Inv s := hreach.invariant (P := Inv) Inv.init fun _ _ _ h _ hs => h.keeps hs
  exact (hinv.each k).positive n hdiv

/-- Two sessions open, the first one leaves after its sender has read the counter. -/
def twoSessions : List (Nat × Event) :=
  [(0, .accept), (0, .count), (0, .spawn), (1, .accept), (1, .count), (1, .spawn), (0, .senderLock),
    (0, .senderCheck true), (0, .readNumSess), (0, .senderUnlock), (0, .closeLock),
    (0, .setClosed), (0, .closeUnlock), (0, .uncount), (1, .senderLock), (1, .senderCheck true),
    (1, .readNumSess)]

theorem numSess_pos_last : ∃ s n, Reaches step anyStep init s ∧
    (s.sess 1).sender = .dividing n ∧ 1 ≤ n := by
  obtain ⟨s, hreach, hp⟩ : ∃ s, Reaches step anyStep init s ∧ (s.sess 1).sender = .dividing 1 :=
    exists_of_runActions twoSessions (by decide)
  exact ⟨s, 1, hreach, hp, numSess_pos hreach hp⟩

end Svalinn.Pcc.Sessions
