/-
  Net/UdpLocks.lean --- the two locks of a UDP socket.

  Source: `runtime/net/udp.c` (`udp_conn_recv`, `udp_conn_err`, `udp_read_from`,
  `udp_tx_release_mbuf`, `udp_write_to`, `__udp_shutdown`, `udp_shutdown`, `udp_close`,
  `udp_set_nonblocking`).

  Taking and releasing a lock are steps of their own.  What a function does with the lock is
  left open: a reader or a writer may block or return in every state.  `c->shutdown` is kept,
  since `udp_close` takes other locks when it finds the socket shut down.

  `__udp_shutdown` takes `outq_lock` under `inq_lock`, and `udp_set_nonblocking` takes
  `inq_lock` under `outq_lock`.
-/
import Mathlib.Data.Fintype.Basic
import Svalinn.Lib.Locks
import Svalinn.Net.UdpShutdown

set_option autoImplicit false

namespace Svalinn.Net.UdpLocks

open Svalinn.Lib Function
open Svalinn.Net.Udp (Side)

/-! ## The model -/

inductive Single where
  | readFrom
  | connRecv
  | connErr
  | writeTo
  | txReleaseMbuf
  deriving DecidableEq

def Single.side : Single → Side
  | .readFrom | .connRecv | .connErr => .inq
  | .writeTo | .txReleaseMbuf => .outq

/-- `waitq_wait` is called with the lock held. -/
def Single.blocks : Single → Bool
  | .readFrom | .writeTo => true
  | _ => false

inductive Call where
  | single (f : Single)
  | udpShutdown
  | udpClose
  | udpSetNonblocking
  deriving DecidableEq

/-- Program points; `close` says that `__udp_shutdown` was called by `udp_close`. -/
inductive Pc where
  | idle
  | single (f : Single)
  | singleHeld (f : Single)
  | parked (f : Single)
  | shutIn (close : Bool)
  | shutOut (close : Bool)
  | shutHeld (close : Bool)
  | shutUnlockOut (close : Bool)
  | shutUnlockIn (close : Bool)
  | closeOut
  | closeHeld
  | nonblockingOut
  | nonblockingIn
  | nonblockingHeld
  | nonblockingUnlockOut
  deriving DecidableEq

def Pc.holds : Pc → Side → Bool
  | .singleHeld f, q => decide (q = f.side)
  | .shutOut _, q | .shutUnlockIn _, q => decide (q = .inq)
  | .shutHeld _, _ | .shutUnlockOut _, _ | .nonblockingHeld, _ => true
  | .closeHeld, q | .nonblockingIn, q | .nonblockingUnlockOut, q => decide (q = .outq)
  | _, _ => false

def Pc.wants : Pc → Option Side
  | .single f => some f.side
  | .shutIn _ | .nonblockingIn => some .inq
  | .shutOut _ | .closeOut | .nonblockingOut => some .outq
  | _ => none

inductive Action where
  | call (f : Call)
  | run
  /-- `waitq_wait` instead of a return -/
  | wait
  deriving DecidableEq

/-- What the next step of a thread does to the locks, and where it goes on. -/
inductive Op where
  | move (p : Pc)
  | lock (q : Side) (p : Pc)
  | unlock (q : Side) (p : Pc)
  /-- `BUG_ON(c->shutdown); c->shutdown = true;` -/
  | setShutdown (p : Pc)
  deriving DecidableEq

def Op.target : Op → Pc
  | .move p | .lock _ p | .unlock _ p | .setShutdown p => p

def Call.start (shutdown : Bool) : Call → Pc
  | .single f => .single f
  | .udpShutdown => .shutIn false
  | .udpClose => if shutdown then .closeOut else .shutIn true
  | .udpSetNonblocking => .nonblockingOut

def Pc.op (shutdown : Bool) : Pc → Action → Option Op
  | .idle, .call f => some (.move (f.start shutdown))
  | .single f, .run => some (.lock f.side (.singleHeld f))
  | .singleHeld f, .run => some (.unlock f.side .idle)
  | .singleHeld f, .wait => if f.blocks then some (.unlock f.side (.parked f)) else none
  | .parked f, .run => some (.move (.single f))
  | .shutIn close, .run => some (.lock .inq (.shutOut close))
  | .shutOut close, .run => some (.lock .outq (.shutHeld close))
  | .shutHeld close, .run => some (.setShutdown (.shutUnlockOut close))
  | .shutUnlockOut close, .run => some (.unlock .outq (.shutUnlockIn close))
  | .shutUnlockIn close, .run => some (.unlock .inq (if close then .closeOut else .idle))
  | .closeOut, .run => some (.lock .outq .closeHeld)
  | .closeHeld, .run => some (.unlock .outq .idle)
  | .nonblockingOut, .run => some (.lock .outq .nonblockingIn)
  | .nonblockingIn, .run => some (.lock .inq .nonblockingHeld)
  | .nonblockingHeld, .run => some (.unlock .inq .nonblockingUnlockOut)
  | .nonblockingUnlockOut, .run => some (.unlock .outq .idle)
  | _, _ => none

structure State (T : Type) where
  shutdown : Bool
  owner : Side → Option T
  pc : T → Pc

variable {T : Type} [DecidableEq T]

def State.exec (s : State T) (t : T) : Op → Option (State T)
  | .move p => some { s with pc := update s.pc t p }
  | .lock q p =>
    if s.owner q = none then
      some { s with
        owner := update s.owner q (some t), pc := update s.pc t p }
    else none
  | .unlock q p =>
    some { s with owner := update s.owner q none, pc := update s.pc t p }
  | .setShutdown p =>
    if s.shutdown then none
    else some { s with shutdown := true, pc := update s.pc t p }

def step (s : State T) (e : T × Action) : Option (State T) :=
  ((s.pc e.1).op s.shutdown e.2).bind (s.exec e.1)

def init : State T :=
  { shutdown := false, owner := fun _ => none, pc := fun _ => .idle }

def MutualWait (s : State T) : Prop :=
  ∃ t u, WaitsFor Pc.wants s.owner s.pc t u ∧ WaitsFor Pc.wants s.owner s.pc u t

/-- A thread at `p` takes the first lock of one order while one at `p'` is between the two
of the other. -/
def Pc.crosses : Pc → Action → Pc → Bool
  | .shutIn _, .run, .nonblockingIn => true
  | .nonblockingOut, .run, .shutOut _ => true
  | _, _, _ => false

/-- The step does not enter one order while a thread is between the locks of the other. -/
def OneOrder (s : State T) (e : T × Action) : Prop :=
  ∀ u, (s.pc e.1).crosses e.2 (s.pc u) = false

instance [Fintype T] (s : State T) (e : T × Action) : Decidable (OneOrder s e) :=
  inferInstanceAs (Decidable (∀ u, (s.pc e.1).crosses e.2 (s.pc u) = false))

/-! ## Cycles -/

def Crossing (s : State T) : Prop :=
  ∃ t u close, s.pc t = .shutOut close ∧ s.pc u = .nonblockingIn

section Cycles

variable {s s' : State T} {p : Pc} {q k : Side}

theorem hold_and_wait (hwants : p.wants = some q) (hholds : p.holds k = true) :
    (∃ close, p = .shutOut close ∧ q = .outq ∧ k = .inq) ∨
      (p = .nonblockingIn ∧ q = .inq ∧ k = .outq) := by
  cases p with
  | shutOut close =>
    exact .inl ⟨close, rfl, (Option.some.inj hwants).symm, of_decide_eq_true hholds⟩
  | nonblockingIn =>
    exact .inr ⟨rfl, (Option.some.inj hwants).symm, of_decide_eq_true hholds⟩
  | single f | shutIn close | closeOut | nonblockingOut => cases hholds
  | idle | singleHeld f | parked f | shutHeld close | shutUnlockOut close | shutUnlockIn close
  | closeHeld | nonblockingHeld | nonblockingUnlockOut => cases hwants

omit [DecidableEq T] in
theorem Crossing.mutualWait (howned : Owned Pc.holds s.owner s.pc) (h : Crossing s) :
    MutualWait s := by
  obtain ⟨t, u, close, ht, hu⟩ := h
  refine ⟨t, u, ⟨.outq, by rw [ht]; rfl, (howned .outq u).2 (by rw [hu]; rfl)⟩, ?_⟩
  exact ⟨.inq, by rw [hu]; rfl, (howned .inq t).2 (by rw [ht]; rfl)⟩

omit [DecidableEq T] in
theorem crossing_of_deadlocked (howned : Owned Pc.holds s.owner s.pc)
    (h : Deadlocked Pc.wants s.owner s.pc) : Crossing s := by
  obtain ⟨t, hcyc⟩ := h
  obtain ⟨q, u, hwants, hu, hcycu, k, hk⟩ := howned.on_cycle hcyc
  obtain ⟨q', -, hwants', -⟩ := howned.on_cycle hcycu
  rcases hold_and_wait hwants hk with ⟨close, ht, rfl, -⟩ | ⟨ht, rfl, -⟩
  · rcases hold_and_wait hwants' hu with ⟨-, -, -, hout⟩ | ⟨hu', -, -⟩
    · cases hout
    · exact ⟨t, u, close, ht, hu'⟩
  · rcases hold_and_wait hwants' hu with ⟨close, hu', -, -⟩ | ⟨-, -, hin⟩
    · exact ⟨u, t, close, hu', ht⟩
    · cases hin

end Cycles

/-! ## Steps -/

section Steps

variable {s s' : State T} {t : T} {a : Action} {o : Op} {p : Pc} {shutdown : Bool}

def Op.Fits (p : Pc) : Op → Prop
  | .move p' | .setShutdown p' => ∀ k, p'.holds k = p.holds k
  | .lock q p' => ∀ k, p'.holds k = (decide (k = q) || p.holds k)
  | .unlock q p' => p.holds q = true ∧ ∀ k, p'.holds k = (! decide (k = q) && p.holds k)

theorem holds_start (f : Call) (k : Side) : (f.start shutdown).holds k = false := by
  cases f with
  | udpClose => cases shutdown <;> rfl
  | single f | udpShutdown | udpSetNonblocking => rfl

theorem op_fits (h : p.op shutdown a = some o) : o.Fits p := by
  unfold Pc.op at h
  split at h
  case h_1 f =>
    cases h
    exact holds_start f
  case h_4 f =>
    obtain ⟨-, ⟨⟩⟩ := Option.ite_none_right_eq_some.1 h
    exact ⟨decide_eq_true rfl, fun k => (Bool.not_and_self _).symm⟩
  case h_10 close =>
    cases h
    refine ⟨rfl, fun k => ?_⟩
    cases close <;> cases k <;> rfl
  case h_17 => cases h
  -- the other points hold locks that do not depend on a call's arguments
  all_goals
    cases h
    simp only [Op.Fits, Pc.holds]
    first
    | exact fun k => by cases k <;> simp
    | exact ⟨by simp, fun k => by cases k <;> simp⟩

theorem op_target (h : p.op shutdown a = some o) :
    (∀ close, o.target = .shutOut close → p = .shutIn close ∧ a = .run) ∧
      (o.target = .nonblockingIn → p = .nonblockingOut ∧ a = .run) := by
  unfold Pc.op at h
  split at h
  case h_1 f =>
    cases h
    cases f with
    | udpClose => cases shutdown <;> exact ⟨nofun, nofun⟩
    | single f | udpShutdown | udpSetNonblocking => exact ⟨nofun, nofun⟩
  case h_4 f =>
    obtain ⟨-, ⟨⟩⟩ := Option.ite_none_right_eq_some.1 h
    exact ⟨nofun, nofun⟩
  case h_6 close =>
    cases h
    refine ⟨fun close' heq => ?_, nofun⟩
    cases heq
    exact ⟨rfl, rfl⟩
  case h_10 close =>
    cases h
    cases close <;> exact ⟨nofun, nofun⟩
  case h_13 =>
    cases h
    exact ⟨nofun, fun _ => ⟨rfl, rfl⟩⟩
  case h_17 => cases h
  all_goals
    cases h
    exact ⟨nofun, nofun⟩

theorem step_effect (h : step s (t, a) = some s') (howned : Owned Pc.holds s.owner s.pc) :
    ∃ o, (s.pc t).op s.shutdown a = some o ∧ s'.pc = update s.pc t o.target ∧
      Owned Pc.holds s'.owner s'.pc := by
  obtain ⟨o, ho, hexec⟩ := Option.bind_eq_some_iff.1 h
  refine ⟨o, ho, ?_⟩
  have hfits := op_fits ho
  cases o with
  | move p =>
    cases hexec
    exact ⟨rfl, howned.move hfits⟩
  | lock q p =>
    obtain ⟨hfree, ⟨⟩⟩ := Option.ite_none_right_eq_some.1 hexec
    exact ⟨rfl, howned.acquire hfree hfits⟩
  | unlock q p =>
    cases hexec
    exact ⟨rfl, howned.release ((howned q t).2 hfits.1) hfits.2⟩
  | setShutdown p =>
    obtain ⟨-, ⟨⟩⟩ := Option.ite_none_left_eq_some.1 hexec
    exact ⟨rfl, howned.move hfits⟩

theorem crosses_iff {p' : Pc} : p.crosses a p' = true ↔
    a = .run ∧ ((∃ close, p = .shutIn close ∧ p' = .nonblockingIn) ∨
      ∃ close, p = .nonblockingOut ∧ p' = .shutOut close) := by
  constructor
  · intro h
    unfold Pc.crosses at h
    split at h
    · rename_i close
      exact ⟨rfl, .inl ⟨close, rfl, rfl⟩⟩
    · rename_i close
      exact ⟨rfl, .inr ⟨close, rfl, rfl⟩⟩
    · cases h
  · rintro ⟨rfl, ⟨close, rfl, rfl⟩ | ⟨close, rfl, rfl⟩⟩ <;> rfl

/-- The step that lets the two orders meet is the one that takes the first lock of one while
a thread is between the two of the other. -/
theorem step_crossing (h : step s (t, a) = some s') (howned : Owned Pc.holds s.owner s.pc)
    (hfree : ¬ Crossing s) : Crossing s' ↔ ¬ OneOrder s (t, a) := by
  obtain ⟨o, ho, hpc, -⟩ := step_effect h howned
  obtain ⟨hshut, hnonblocking⟩ := op_target ho
  constructor
  · rintro ⟨v, u, close, hv, hu⟩ hguard
    rw [hpc, update_apply] at hv hu
    by_cases hvt : v = t
    · rw [if_pos hvt] at hv
      obtain ⟨hp, rfl⟩ := hshut close hv
      have hut : u ≠ t := by
        rintro rfl
        rw [if_pos rfl, hv] at hu
        cases hu
      rw [if_neg hut] at hu
      have hcross := crosses_iff.2 ⟨rfl, .inl ⟨close, hp, hu⟩⟩
      exact absurd (hguard u) (by rw [hcross]; decide)
    · rw [if_neg hvt] at hv
      by_cases hut : u = t
      · rw [if_pos hut] at hu
        obtain ⟨hp, rfl⟩ := hnonblocking hu
        have hcross := crosses_iff.2 ⟨rfl, .inr ⟨close, hp, hv⟩⟩
        exact absurd (hguard v) (by rw [hcross]; decide)
      · rw [if_neg hut] at hu
        exact hfree ⟨v, u, close, hv, hu⟩
  · intro hguard
    obtain ⟨u, hcross⟩ := not_forall.1 hguard
    obtain ⟨rfl, ⟨close, hp, hu⟩ | ⟨close, hp, hu⟩⟩ := crosses_iff.1 (Bool.of_not_eq_false hcross)
    all_goals
      have hp : s.pc t = _ := hp
      have hut : u ≠ t := by
        rintro rfl
        rw [hp] at hu
        cases hu
      rw [hp] at ho
      cases ho
      have ht : s'.pc t = _ := (congrFun hpc t).trans (update_self ..)
      have hu' : s'.pc u = _ := (congrFun hpc u).trans ((update_of_ne hut ..).trans hu)
    · exact ⟨t, u, close, ht, hu'⟩
    · exact ⟨u, t, close, hu', ht⟩

end Steps

/-! ## Runs -/

theorem free_of_reaches {s : State T} (h : Reaches step OneOrder init s) :
    Owned Pc.holds s.owner s.pc ∧ ¬ Crossing s := by
  refine h.invariant (P := fun s => Owned Pc.holds s.owner s.pc ∧ ¬ Crossing s) ?_ ?_
  · exact ⟨fun l t => ⟨nofun, nofun⟩, fun ⟨_, _, _, ht, _⟩ => by cases ht⟩
  · rintro u ⟨t, a⟩ v ⟨howned, hfree⟩ hok hs
    obtain ⟨-, -, -, howned'⟩ := step_effect hs howned
    exact ⟨howned', fun hcross => (step_crossing hs howned hfree).1 hcross hok⟩

/-- As long as no thread enters one of the two orders while another is inside the other, threads
never wait in a circle. The first step that does so leaves two threads that wait for each other.
-/
theorem udp_locks_ordered :
    (∀ s : State T, Reaches step OneOrder init s → ¬ Deadlocked Pc.wants s.owner s.pc) ∧
      ∀ (s s' : State T) (e : T × Action), Reaches step OneOrder init s → step s e = some s' →
        (MutualWait s' ↔ ¬ OneOrder s e) := by
  constructor
  · intro s hs hdead
    obtain ⟨howned, hfree⟩ := free_of_reaches hs
    exact hfree (crossing_of_deadlocked howned hdead)
  · rintro s s' ⟨t, a⟩ hs hstep
    obtain ⟨howned, hfree⟩ := free_of_reaches hs
    obtain ⟨-, -, -, howned'⟩ := step_effect hstep howned
    rw [← step_crossing hstep howned hfree]
    constructor
    · rintro ⟨v, u, hvu, huv⟩
      exact crossing_of_deadlocked howned' ⟨v, .tail (.single hvu) huv⟩
    · exact Crossing.mutualWait howned'

/-- `udp_shutdown` has `inq_lock`, and `udp_set_nonblocking` is about to take `outq_lock`. -/
def betweenLocks : List (Bool × Action) :=
  [(false, .call .udpShutdown), (false, .run), (true, .call .udpSetNonblocking)]

theorem udp_locks_ordered_betweenLocks :
    ∃ s s' : State Bool, Reaches step OneOrder init s ∧ step s (true, .run) = some s' ∧
      ¬ Deadlocked Pc.wants s.owner s.pc ∧ MutualWait s' := by
  have hrun : (runChecked step (fun s e => decide (OneOrder s e)) init betweenLocks).map
      (fun s => decide (¬ OneOrder s (true, .run) ∧ (step s (true, .run)).isSome = true)) =
        some true := by
    decide
  obtain ⟨s, hs, hstate⟩ := Option.map_eq_some_iff.1 hrun
  obtain ⟨hcross, hsome⟩ := of_decide_eq_true hstate
  obtain ⟨s', hs'⟩ := Option.isSome_iff_exists.1 hsome
  have hreach := reaches_of_runChecked (fun _ _ _ h => of_decide_eq_true h) hs
  exact ⟨s, s', hreach, hs', udp_locks_ordered.1 s hreach,
    (udp_locks_ordered.2 s s' _ hreach hs').2 hcross⟩

/-- The socket is shut down while another thread makes it nonblocking. -/
theorem shutdown_meets_nonblocking :
    ∃ s : State Bool, Reaches step anyStep init s ∧ MutualWait s := by
  obtain ⟨s, hreach, hout, hown, hin, hown'⟩ : ∃ s, Reaches step anyStep init s ∧
      (s.pc false).wants = some .outq ∧ s.owner .outq = some true ∧
      (s.pc true).wants = some .inq ∧ s.owner .inq = some false :=
    exists_of_runActions (betweenLocks ++ [(true, .run)]) (by decide)
  exact ⟨s, hreach, false, true, ⟨.outq, hout, hown⟩, ⟨.inq, hin, hown'⟩⟩

end Svalinn.Net.UdpLocks
