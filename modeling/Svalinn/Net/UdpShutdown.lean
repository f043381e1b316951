/-
  Net/UdpShutdown.lean --- who wakes the threads that block on a UDP socket.

  Source: `runtime/net/udp.c` (`udp_conn_recv`, `udp_conn_err`, `udp_read_from`,
  `udp_tx_release_mbuf`, `udp_write_to`, `__udp_shutdown`, `udp_shutdown`) and
  `runtime/net/waitq.h`.

  Taking a lock and releasing it are steps of their own, and what is done in between is one
  step.  `waitq_release` and the test of `inq_err` in `udp_shutdown` run without a lock, one
  access at a time.
-/
import Svalinn.Lib.Phases
import Svalinn.Lib.Transition

set_option autoImplicit false

namespace Svalinn.Net.Udp

open Svalinn.Lib Function Option

inductive Side where
  | inq
  | outq
  deriving DecidableEq

/-- The call of `waitq_release` a thread is in. -/
inductive Loop where
  /-- in `udp_conn_err` -/
  | err
  /-- the two in `udp_shutdown` -/
  | closeIn
  | closeOut
  deriving DecidableEq

def Loop.side : Loop → Side
  | .err | .closeIn => .inq
  | .closeOut => .outq

/-- An error code that the network layer reports; it is never 0. -/
structure ErrCode where
  val : Nat
  ne_zero : val ≠ 0
  deriving DecidableEq

inductive Phase (T : Type) where
  | idle
  /-- `udp_read_from` and `udp_write_to`: before the lock, also after a wake-up -/
  | callLock (q : Side)
  | callHeld (q : Side)
  /-- on the wait queue with the lock held; `ready` if somebody has already woken the thread -/
  | enqueued (q : Side) (ready : Bool)
  | parked (q : Side)
  | callUnlock (q : Side) (sends : Bool)
  | sending
  | recvLock
  | recvHeld
  | txLock
  | txHeld
  /-- `waitq_signal` is done, and the lock still held -/
  | signalUnlock (q : Side) (th : Option T)
  | signalFinish (th : Option T)
  | errLock (err : ErrCode)
  | errHeld (err : ErrCode)
  | errUnlock (doRelease : Bool)
  | shutLockIn
  | shutLockOut
  | shutFlag
  | shutUnlockOut
  | shutUnlockIn
  | shutRemove
  | shutCheck
  /-- `waitq_release`: before `list_pop` and before `thread_ready` -/
  | release (l : Loop)
  | releaseReady (l : Loop) (th : T)
  deriving DecidableEq

section Model

variable {T : Type} [DecidableEq T]

structure State (T : Type) where
  shutdown : Bool
  nonblocking : Bool
  /-- also the length of `inq` -/
  inqLen : Int
  inqCap : Int
  inqErr : Nat
  outqLen : Int
  outqCap : Int
  lock : Side → Option T
  wq : Side → List T
  phase : T → Phase T
  /-- the datagrams whose completion is `udp_tx_release_mbuf` -/
  inflight : Nat
  /-- the thread that called `udp_shutdown` -/
  closer : Option T
  /-- `udp_shutdown` has tested `inq_err` -/
  checked : Bool

def State.goto (s : State T) (t : T) (p : Phase T) : State T :=
  { s with phase := update s.phase t p }

def State.spinLock (s : State T) (t : T) (q : Side) (p : Phase T) : Option (State T) :=
  if s.lock q = none then some ({ s with lock := update s.lock q (some t) }.goto t p) else none

def State.spinUnlock (s : State T) (t : T) (q : Side) (p : Phase T) : State T :=
  { s with lock := update s.lock q none }.goto t p

/-- `waitq_wait` up to the unlock. -/
def State.waitqWait (s : State T) (t : T) (q : Side) : State T :=
  { s with wq := update s.wq q (s.wq q ++ [t]) }.goto t (.enqueued q false)

def State.waitqSignal (s : State T) (t : T) (q : Side) : State T :=
  match s.wq q with
  | [] => s.goto t (.signalUnlock q none)
  | th :: rest => { s with wq := update s.wq q rest }.goto t (.signalUnlock q (some th))

/-- What `thread_ready` does to a thread in `waitq_wait`. -/
def Phase.ready : Phase T → Phase T
  | .parked q => .callLock q
  | .enqueued q _ => .enqueued q true
  | p => p

def State.threadReady (s : State T) (th : T) : State T := s.goto th (s.phase th).ready

/-- `udp_read_from` with the lock. -/
def State.readFrom (s : State T) (t : T) : State T :=
  if s.inqLen = 0 ∧ s.inqErr = 0 ∧ s.shutdown = false then
    if s.nonblocking then s.goto t (.callUnlock .inq false) else s.waitqWait t .inq
  else if (s.inqLen = 0 ∧ s.shutdown = true) ∨ s.inqErr ≠ 0 then s.goto t (.callUnlock .inq false)
  else { s with inqLen := s.inqLen - 1 }.goto t (.callUnlock .inq false)

/-- `udp_write_to` with the lock. -/
def State.writeTo (s : State T) (t : T) : State T :=
  if s.outqLen ≥ s.outqCap ∧ s.shutdown = false then
    if s.nonblocking then s.goto t (.callUnlock .outq false) else s.waitqWait t .outq
  else if s.shutdown then s.goto t (.callUnlock .outq false)
  else { s with outqLen := s.outqLen + 1 }.goto t (.callUnlock .outq true)

/-- `udp_conn_recv` with the lock. -/
def State.connRecv (s : State T) (t : T) : State T :=
  if s.inqLen ≥ s.inqCap ∨ s.inqErr ≠ 0 ∨ s.shutdown = true then s.goto t (.signalUnlock .inq none)
  else { s with inqLen := s.inqLen + 1 }.waitqSignal t .inq

/-- `udp_tx_release_mbuf` with the lock. -/
def State.txRelease (s : State T) (t : T) : State T :=
  if s.shutdown then { s with outqLen := s.outqLen - 1 }.goto t (.signalUnlock .outq none)
  else { s with outqLen := s.outqLen - 1 }.waitqSignal t .outq

/-- `udp_conn_err` with the lock. -/
def State.connErr (s : State T) (t : T) (err : ErrCode) : State T :=
  { s with inqErr := err.val }.goto t (.errUnlock (decide (s.inqErr = 0) && !s.shutdown))

def Loop.next : Loop → Phase T
  | .err => .idle
  | .closeIn => .release .closeOut
  | .closeOut => .idle

/-- `list_pop` of `waitq_release`. -/
def State.waitqRelease (s : State T) (t : T) (l : Loop) : State T :=
  match s.wq l.side with
  | [] => s.goto t l.next
  | th :: rest => { s with wq := update s.wq l.side rest }.goto t (.releaseReady l th)

def State.run (s : State T) (t : T) : Option (State T) :=
  match s.phase t with
  | .callLock q => s.spinLock t q (.callHeld q)
  | .callHeld .inq => some (s.readFrom t)
  | .callHeld .outq => some (s.writeTo t)
  | .enqueued q ready => some (s.spinUnlock t q (if ready then .callLock q else .parked q))
  | .callUnlock q sends => some (s.spinUnlock t q (if sends then .sending else .idle))
  | .recvLock => s.spinLock t .inq .recvHeld
  | .recvHeld => some (s.connRecv t)
  | .txLock => s.spinLock t .outq .txHeld
  | .txHeld => some (s.txRelease t)
  | .signalUnlock q th => some (s.spinUnlock t q (.signalFinish th))
  | .signalFinish none => some (s.goto t .idle)
  | .signalFinish (some th) => some ((s.threadReady th).goto t .idle)
  | .errLock err => s.spinLock t .inq (.errHeld err)
  | .errHeld err => some (s.connErr t err)
  | .errUnlock doRelease => some (s.spinUnlock t .inq (if doRelease then .release .err else .idle))
  | .shutLockIn => s.spinLock t .inq .shutLockOut
  | .shutLockOut => s.spinLock t .outq .shutFlag
  | .shutFlag => some ({ s with shutdown := true }.goto t .shutUnlockOut)
  | .shutUnlockOut => some (s.spinUnlock t .outq .shutUnlockIn)
  | .shutUnlockIn => some (s.spinUnlock t .inq .shutRemove)
  | .shutRemove => some (s.goto t .shutCheck)
  | .shutCheck =>
    some ({ s with checked := true }.goto t (.release (if s.inqErr = 0 then .closeIn else .closeOut)))
  | .release l => some (s.waitqRelease t l)
  | .releaseReady l th => some ((s.threadReady th).goto t (.release l))
  | .idle | .parked _ | .sending => none

inductive Event (T : Type) where
  | read (t : T)
  | write (t : T)
  | recv (t : T)
  | err (t : T) (err : ErrCode)
  | txDone (t : T)
  | shutdown (t : T)
  | run (t : T)
  /-- allocation and `udp_send_raw` have ended -/
  | sent (t : T) (ok : Bool)

def State.enter (s : State T) (t : T) (p : Phase T) : Option (State T) :=
  if s.phase t = .idle then some (s.goto t p) else none

/-- `udp_shutdown` is called once. -/
def step (s : State T) : Event T → Option (State T)
  | .read t => s.enter t (.callLock .inq)
  | .write t => s.enter t (.callLock .outq)
  | .recv t => s.enter t .recvLock
  | .err t err => s.enter t (.errLock err)
  | .txDone t => if 0 < s.inflight then { s with inflight := s.inflight - 1 }.enter t .txLock else none
  | .shutdown t => if s.closer = none then { s with closer := some t }.enter t .shutLockIn else none
  | .run t => s.run t
  | .sent t ok =>
    if s.phase t = .sending then some ({ s with inflight := s.inflight + ok.toNat }.goto t .idle)
    else none

/-- `udp_init_conn`. -/
def initConn (inqCap outqCap : Int) (nonblocking : Bool) : State T :=
  ⟨false, nonblocking, 0, inqCap, 0, 0, outqCap, fun _ => none, fun _ => [], fun _ => .idle, 0, none, false⟩

/-- The thread is in a handler or in `udp_shutdown`. -/
def Phase.busy : Phase T → Bool
  | .recvLock | .recvHeld | .txLock | .txHeld | .signalUnlock _ _ | .signalFinish _ => true
  | .errLock _ | .errHeld _ | .errUnlock _ | .release _ | .releaseReady _ _ => true
  | .shutLockIn | .shutLockOut | .shutFlag | .shutUnlockOut | .shutUnlockIn | .shutRemove
  | .shutCheck => true
  | _ => false

/-- `udp_shutdown` was called, and it and all handlers have ended. -/
def Quiet (s : State T) : Prop := s.closer ≠ none ∧ ∀ t, (s.phase t).busy = false

def Unblocked (s : State T) : Prop := ∀ q, s.wq q = [] ∧ ∀ t, s.phase t ≠ .parked q

/-! ## The part of the state that decides who is woken -/

inductive Role where
  | none
  /-- in `udp_conn_err` on the way to the end of `waitq_release` -/
  | erring
  /-- in `udp_shutdown` before the flag is set -/
  | opening
  /-- in `udp_shutdown` between the flag and the test of `inq_err` -/
  | flagged
  | closeIn
  | closeOut
  deriving DecidableEq

structure View (T : Type) where
  waits : T → Option Side
  /-- the thread that another one has taken off a wait queue and not made ready yet -/
  carries : T → Option T
  role : T → Role
  wq : Side → List T
  shutdown : Bool
  inqErr : Nat
  checked : Bool
  closer : Option T

def Phase.waits : Phase T → Option Side
  | .enqueued q ready => if ready then none else some q
  | .parked q => some q
  | _ => none

def Phase.carries : Phase T → Option T
  | .signalUnlock _ th | .signalFinish th => th
  | .releaseReady _ th => some th
  | _ => none

def Loop.role : Loop → Role
  | .err => .erring
  | .closeIn => .closeIn
  | .closeOut => .closeOut

def Phase.role : Phase T → Role
  | .errUnlock doRelease => if doRelease then .erring else .none
  | .shutLockIn | .shutLockOut | .shutFlag => .opening
  | .shutUnlockOut | .shutUnlockIn | .shutRemove | .shutCheck => .flagged
  | .release l | .releaseReady l _ => l.role
  | _ => .none

def State.view (s : State T) : View T :=
  ⟨fun t => (s.phase t).waits, fun t => (s.phase t).carries, fun t => (s.phase t).role,
    s.wq, s.shutdown, s.inqErr, s.checked, s.closer⟩

def View.stopped (v : View T) : Side → Bool
  | .inq => v.shutdown || decide (v.inqErr ≠ 0)
  | .outq => v.shutdown

def View.commits (v : View T) (r : Role) : Side → Bool
  | .inq => decide (r = .erring ∨ r = .closeIn ∨ (r = .flagged ∧ v.inqErr = 0))
  | .outq => decide (r = .flagged ∨ r = .closeIn ∨ r = .closeOut)

def View.assign (v : View T) (t : T) (r : Role) : View T :=
  { v with role := update v.role t r }

def View.pop (v : View T) (t : T) (q : Side) (w : T) (rest : List T) : View T :=
  { v with carries := update v.carries t (some w), wq := update v.wq q rest }

/-- Every step of the socket but the critical section of `udp_conn_err`. -/
inductive Calm : View T → View T → Prop
  | stay (v) : Calm v v
  | wait {v} (t q) (hopen : v.stopped q = false) : Calm v { v with
        waits := update v.waits t (some q)
        wq := update v.wq q (v.wq q ++ [t]) }
  | signal {v} (t q w rest) (hopen : v.stopped q = false) (hwq : v.wq q = w :: rest)
      (hfree : v.carries t = none) : Calm v (v.pop t q w rest)
  | pop {v} (t) (l : Loop) (w rest) (hrole : v.role t = l.role) (hwq : v.wq l.side = w :: rest)
      (hfree : v.carries t = none) : Calm v (v.pop t l.side w rest)
  | ready {v} (t w) (hcarries : v.carries t = some w) : Calm v { v with
        waits := update v.waits w none
        carries := update v.carries t none }
  | done {v} (t) (l : Loop) (hrole : v.role t = l.role) (hwq : v.wq l.side = []) :
      Calm v (v.assign t (if l = .closeIn then .closeOut else .none))
  | begin {v} (t) (hcloser : v.closer = none) (hrole : v.role t = .none) :
      Calm v ({ v with closer := some t }.assign t .opening)
  | raise {v} (t) (hrole : v.role t = .opening) :
      Calm v ({ v with shutdown := true }.assign t .flagged)
  | check {v} (t) (hrole : v.role t = .flagged) :
      Calm v ({ v with checked := true }.assign t (if v.inqErr = 0 then .closeIn else .closeOut))

/-- The critical section of `udp_conn_err`. -/
def View.fail (v : View T) (t : T) (err : ErrCode) : View T :=
  { v with inqErr := err.val }.assign t (if v.inqErr = 0 ∧ v.shutdown = false then .erring else .none)

variable {s s' : State T} {v v' : View T} {t : T} {p : Phase T}

theorem view_goto (s : State T) (t : T) (p : Phase T) : (s.goto t p).view = { s.view with
      waits := update s.view.waits t p.waits
      carries := update s.view.carries t p.carries
      role := update s.view.role t p.role } := by
  unfold State.view State.goto
  congr 1
  · exact Function.comp_update Phase.waits s.phase t p
  · exact Function.comp_update Phase.carries s.phase t p
  · exact Function.comp_update Phase.role s.phase t p

def Phase.seen (p : Phase T) : Option Side × Option T × Role := (p.waits, p.carries, p.role)

theorem update_waits (h : p.waits = (s.phase t).waits) :
    update s.view.waits t p.waits = s.view.waits := by
  rw [h]
  exact update_eq_self t s.view.waits

theorem update_carries (h : p.carries = (s.phase t).carries) :
    update s.view.carries t p.carries = s.view.carries := by
  rw [h]
  exact update_eq_self t s.view.carries

theorem update_role (h : p.role = (s.phase t).role) :
    update s.view.role t p.role = s.view.role := by
  rw [h]
  exact update_eq_self t s.view.role

theorem view_goto_same (h : p.seen = (s.phase t).seen) : (s.goto t p).view = s.view := by
  obtain ⟨hwaits, hrest⟩ := Prod.mk.inj h
  obtain ⟨hcarries, hrole⟩ := Prod.mk.inj hrest
  rw [view_goto, update_waits hwaits, update_carries hcarries, update_role hrole]

theorem view_goto_role (hwaits : p.waits = (s.phase t).waits)
    (hcarries : p.carries = (s.phase t).carries) :
    (s.goto t p).view = s.view.assign t p.role := by
  rw [view_goto, update_waits hwaits, update_carries hcarries]
  rfl

theorem view_goto_carries (hwaits : p.waits = (s.phase t).waits)
    (hrole : p.role = (s.phase t).role) :
    (s.goto t p).view = { s.view with carries := update s.view.carries t p.carries } := by
  rw [view_goto, update_waits hwaits, update_role hrole]

theorem view_goto_waits (hcarries : p.carries = (s.phase t).carries)
    (hrole : p.role = (s.phase t).role) :
    (s.goto t p).view = { s.view with waits := update s.view.waits t p.waits } := by
  rw [view_goto, update_carries hcarries, update_role hrole]

omit [DecidableEq T] in
theorem Phase.ready_waits (p : Phase T) : p.ready.waits = none := by
  cases p <;> rfl

omit [DecidableEq T] in
theorem Phase.ready_carries (p : Phase T) : p.ready.carries = p.carries := by
  cases p <;> rfl

omit [DecidableEq T] in
theorem Phase.ready_role (p : Phase T) : p.ready.role = p.role := by
  cases p <;> rfl

theorem view_threadReady (s : State T) (w : T) :
    (s.threadReady w).view = { s.view with waits := update s.view.waits w none } := by
  unfold State.threadReady
  rw [view_goto_waits (Phase.ready_carries _) (Phase.ready_role _), Phase.ready_waits]

/-! ## One step -/

theorem waitqWait_calm {q : Side} (ht : s.phase t = .callHeld q) (hopen : s.view.stopped q = false) :
    Calm s.view (s.waitqWait t q).view := by
  have hview : (s.waitqWait t q).view = { s.view with
      waits := update s.view.waits t (some q)
      wq := update s.view.wq q (s.view.wq q ++ [t]) } := by
    unfold State.waitqWait
    rw [view_goto_waits]
    · rfl
    · exact (congrArg Phase.carries ht).symm
    · exact (congrArg Phase.role ht).symm
  rw [hview]
  exact .wait t q hopen

theorem waitqSignal_calm {q : Side} (h : (s.phase t).seen = (none, none, .none))
    (hopen : s.view.stopped q = false) : Calm s.view (s.waitqSignal t q).view := by
  unfold State.waitqSignal
  split
  · rw [view_goto_same (p := .signalUnlock q none) h.symm]
    exact .stay _
  · rename_i w rest hwq
    obtain ⟨hwaits, hrest⟩ := Prod.mk.inj h
    obtain ⟨hcarries, hrole⟩ := Prod.mk.inj hrest
    rw [view_goto_carries (s := { s with wq := update s.wq q rest })
      (p := .signalUnlock q (some w)) hwaits.symm hrole.symm]
    exact .signal t q w rest hopen hwq hcarries

omit [DecidableEq T] in
theorem stopped_inq (herr : s.inqErr = 0) (hshut : s.shutdown = false) :
    s.view.stopped .inq = false := by
  change (s.shutdown || decide (s.inqErr ≠ 0)) = false
  rw [hshut, herr]
  rfl

theorem readFrom_calm (ht : s.phase t = .callHeld .inq) : Calm s.view (s.readFrom t).view := by
  have hstay : (s.goto t (.callUnlock .inq false)).view = s.view :=
    view_goto_same (ht ▸ rfl)
  unfold State.readFrom
  split
  · rename_i hblock
    split
    · rw [hstay]
      exact .stay _
    · exact waitqWait_calm ht (stopped_inq hblock.2.1 hblock.2.2)
  · split
    · rw [hstay]
      exact .stay _
    · exact hstay ▸ .stay _

theorem writeTo_calm (ht : s.phase t = .callHeld .outq) : Calm s.view (s.writeTo t).view := by
  have hstay : ∀ sends, (s.goto t (.callUnlock .outq sends)).view = s.view := fun _ =>
    view_goto_same (ht ▸ rfl)
  unfold State.writeTo
  split
  · rename_i hblock
    split
    · rw [hstay]
      exact .stay _
    · exact waitqWait_calm ht hblock.2
  · split
    · rw [hstay]
      exact .stay _
    · exact hstay true ▸ .stay _

theorem connRecv_calm (ht : s.phase t = .recvHeld) : Calm s.view (s.connRecv t).view := by
  unfold State.connRecv
  split
  · rw [view_goto_same (ht ▸ rfl)]
    exact .stay _
  · rename_i hopen
    obtain ⟨-, hrest⟩ := not_or.1 hopen
    obtain ⟨herr, hshut⟩ := not_or.1 hrest
    refine waitqSignal_calm (s := { s with inqLen := s.inqLen + 1 }) (congrArg Phase.seen ht) ?_
    exact stopped_inq (not_not.1 herr) (Bool.eq_false_iff.2 hshut)

theorem txRelease_calm (ht : s.phase t = .txHeld) : Calm s.view (s.txRelease t).view := by
  unfold State.txRelease
  split
  · rw [view_goto_same (s := { s with outqLen := s.outqLen - 1 }) (ht ▸ rfl)]
    exact .stay _
  · rename_i hopen
    exact waitqSignal_calm (s := { s with outqLen := s.outqLen - 1 }) (congrArg Phase.seen ht)
      (Bool.eq_false_iff.2 hopen)

omit [DecidableEq T] in
theorem Loop.next_role (l : Loop) :
    (l.next : Phase T).role = if l = .closeIn then .closeOut else .none := by
  cases l <;> rfl

theorem waitqRelease_calm {l : Loop} (ht : s.phase t = .release l) :
    Calm s.view (s.waitqRelease t l).view := by
  have hrole : s.view.role t = l.role := congrArg Phase.role ht
  unfold State.waitqRelease
  split
  · rename_i hwq
    rw [view_goto_role, Loop.next_role]
    · exact .done t l hrole hwq
    · rw [ht]
      cases l <;> rfl
    · rw [ht]
      cases l <;> rfl
  · rename_i w rest hwq
    rw [view_goto_carries (s := { s with wq := update s.wq l.side rest }) (ht ▸ rfl)
      (ht ▸ rfl)]
    exact .pop t l w rest hrole hwq (congrArg Phase.carries ht)

theorem threadReady_calm {w : T} (hcarries : (s.phase t).carries = some w) (hwaits : p.waits = none)
    (hfree : p.carries = none) (hrole : p.role = (s.phase t).role)
    (hnot : (s.phase t).waits = none) : Calm s.view ((s.threadReady w).goto t p).view := by
  have hview : ((s.threadReady w).goto t p).view = { s.view with
      waits := update s.view.waits w none
      carries := update s.view.carries t none } := by
    rw [view_goto_carries, view_threadReady, hfree]
    · rw [hwaits]
      change none = (update s.phase w (s.phase w).ready t).waits
      rw [update_apply]
      split
      · rw [Phase.ready_waits]
      · exact hnot.symm
    · rw [hrole]
      change _ = (update s.phase w (s.phase w).ready t).role
      rw [update_apply]
      split
      · rename_i heq
        rw [Phase.ready_role, heq]
      · rfl
  rw [hview]
  exact .ready t w hcarries

theorem spinLock_calm {q : Side} (h : p.seen = (s.phase t).seen)
    (hstep : s.spinLock t q p = some s') : Calm s.view s'.view := by
  obtain ⟨-, rfl⟩ := ite_some_none_eq_some.1 hstep
  rw [view_goto_same (s := { s with lock := update s.lock q (some t) }) h]
  exact .stay _

theorem spinUnlock_calm {q : Side} (h : p.seen = (s.phase t).seen) :
    Calm s.view (s.spinUnlock t q p).view := by
  unfold State.spinUnlock
  rw [view_goto_same (s := { s with lock := update s.lock q none }) h]
  exact .stay _

theorem goto_calm (h : p.seen = (s.phase t).seen) : Calm s.view (s.goto t p).view := by
  rw [view_goto_same h]
  exact .stay _

/-- The next step of `t` is the critical section of `udp_conn_err`. -/
def errs (s : State T) (t : T) : Bool := s.phase t matches .errHeld _

theorem run_calm (hquiet : errs s t = false) (hstep : s.run t = some s') : Calm s.view s'.view := by
  unfold State.run at hstep
  unfold errs at hquiet
  obtain ⟨p, ht⟩ : ∃ p, s.phase t = p := ⟨_, rfl⟩
  rw [ht] at hstep hquiet
  cases p with
  | idle | parked _ | sending => cases hstep
  | callLock _ | recvLock | txLock | errLock _ | shutLockIn | shutLockOut =>
    exact spinLock_calm (ht ▸ rfl) hstep
  | callHeld q =>
    cases q with
    | inq =>
      cases hstep
      exact readFrom_calm ht
    | outq =>
      cases hstep
      exact writeTo_calm ht
  | enqueued _ answer | callUnlock _ answer | errUnlock answer =>
    cases hstep
    refine spinUnlock_calm ?_
    rw [ht]
    cases answer <;> rfl
  | recvHeld =>
    cases hstep
    exact connRecv_calm ht
  | txHeld =>
    cases hstep
    exact txRelease_calm ht
  | signalUnlock _ _ | shutUnlockOut | shutUnlockIn =>
    cases hstep
    exact spinUnlock_calm (ht ▸ rfl)
  | signalFinish th =>
    cases th with
    | none =>
      cases hstep
      exact goto_calm (ht ▸ rfl)
    | some w =>
      cases hstep
      exact threadReady_calm (ht ▸ rfl) rfl rfl (ht ▸ rfl) (ht ▸ rfl)
  | errHeld err => cases hquiet
  | shutFlag =>
    cases hstep
    rw [view_goto_role (s := { s with shutdown := true }) (ht ▸ rfl) (ht ▸ rfl)]
    exact .raise t (congrArg Phase.role ht)
  | shutRemove =>
    cases hstep
    exact goto_calm (ht ▸ rfl)
  | shutCheck =>
    cases hstep
    rw [view_goto_role (s := { s with checked := true }) (ht ▸ rfl) (ht ▸ rfl)]
    have hrole : (Phase.release (if s.inqErr = 0 then .closeIn else .closeOut) : Phase T).role =
        if s.view.inqErr = 0 then .closeIn else .closeOut := by
      change Loop.role _ = if s.inqErr = 0 then _ else _
      split <;> rfl
    rw [hrole]
    exact .check t (congrArg Phase.role ht)
  | release l =>
    cases hstep
    exact waitqRelease_calm ht
  | releaseReady l w =>
    cases hstep
    exact threadReady_calm (ht ▸ rfl) rfl rfl (ht ▸ rfl) (ht ▸ rfl)

theorem run_fail (herrs : errs s t = true) (hstep : s.run t = some s') :
    s.view.role t = .none ∧ ∃ err, s'.view = s.view.fail t err := by
  unfold State.run at hstep
  cases ht : s.phase t with
  | errHeld err =>
    rw [ht] at hstep
    cases hstep
    refine ⟨congrArg Phase.role ht, err, ?_⟩
    unfold State.connErr
    rw [view_goto_role (s := { s with inqErr := err.val }) (ht ▸ rfl) (ht ▸ rfl)]
    have hrole : (Phase.errUnlock (decide (s.inqErr = 0) && !s.shutdown) : Phase T).role =
        if s.view.inqErr = 0 ∧ s.view.shutdown = false then .erring else .none := by
      change (if _ then Role.erring else Role.none) = if s.inqErr = 0 ∧ s.shutdown = false then _ else _
      congr 1
      rw [Bool.and_eq_true, decide_eq_true_eq, Bool.not_eq_true']
    rw [hrole]
    rfl
  | _ =>
    rw [errs, ht] at herrs
    cases herrs

theorem enter_calm (h : p.seen = (none, none, .none)) (hstep : s.enter t p = some s') :
    Calm s.view s'.view := by
  obtain ⟨ht, rfl⟩ := ite_some_none_eq_some.1 hstep
  exact goto_calm (by rw [ht, h]; rfl)

/-- The event runs the critical section of `udp_conn_err`. -/
def Event.errs (s : State T) : Event T → Bool
  | .run t => Udp.errs s t
  | _ => false

theorem step_calm {e : Event T} (hquiet : e.errs s = false) (hstep : step s e = some s') :
    Calm s.view s'.view := by
  cases e with
  | read _ | write _ | recv _ | err _ _ => exact enter_calm rfl hstep
  | txDone t =>
    obtain ⟨-, henter⟩ := ite_none_right_eq_some.1 hstep
    exact enter_calm (s := { s with inflight := s.inflight - 1 }) rfl henter
  | shutdown t =>
    obtain ⟨hcloser, henter⟩ := ite_none_right_eq_some.1 hstep
    obtain ⟨ht, hgoto⟩ := ite_none_right_eq_some.1 henter
    cases hgoto
    rw [view_goto_role (s := { s with closer := some t }) (p := .shutLockIn)
      ((congrArg Phase.waits ht).symm) ((congrArg Phase.carries ht).symm)]
    exact .begin t hcloser (congrArg Phase.role ht)
  | run t => exact run_calm hquiet hstep
  | sent t ok =>
    obtain ⟨ht, hgoto⟩ := ite_none_right_eq_some.1 hstep
    cases hgoto
    exact goto_calm (s := { s with inflight := s.inflight + ok.toNat }) (congrArg Phase.seen ht).symm

/-! ## The invariant -/

def View.roleOk (v : View T) (a : T) : Role → Prop
  | .none => v.closer = some a → v.shutdown = true
  | .erring => v.inqErr ≠ 0 ∧ (v.closer = some a → v.shutdown = true)
  | .opening => v.closer = some a ∧ v.checked = false
  | .flagged => v.closer = some a ∧ v.shutdown = true ∧ v.checked = false
  | .closeIn => v.closer = some a ∧ v.shutdown = true ∧ v.checked = true
  | .closeOut => v.closer = some a ∧ v.shutdown = true

structure Inv (v : View T) : Prop where
  waiting : ∀ t q, v.waits t = some q → t ∈ v.wq q ∨ ∃ a, v.carries a = some t
  released : ∀ q, v.stopped q = true → v.wq q ≠ [] → ∃ a, v.commits (v.role a) q = true
  roles : ∀ a, v.roleOk a (v.role a)
  unchecked : v.closer = none → v.checked = false

theorem Inv.wait {q : Side} (h : Inv v) (hopen : v.stopped q = false) : Inv { v with
      waits := update v.waits t (some q)
      wq := update v.wq q (v.wq q ++ [t]) } := by
  refine ⟨fun u r hu => ?_, fun r hstop hne => ?_, h.roles, h.unchecked⟩
  · change update v.waits t (some q) u = some r at hu
    change u ∈ update v.wq q (v.wq q ++ [t]) r ∨ _
    rw [update_apply] at hu
    split at hu
    · rename_i hut
      cases hu
      rw [update_self, hut]
      exact .inl (List.mem_append_right _ List.mem_cons_self)
    · obtain hin | hcar := h.waiting u r hu
      · refine .inl ?_
        rw [update_apply]
        split
        · rename_i hr
          subst hr
          exact List.mem_append_left _ hin
        · exact hin
      · exact .inr hcar
  · have hrq : r ≠ q := by
      rintro rfl
      rw [show v.stopped r = true from hstop] at hopen
      cases hopen
    refine h.released r hstop fun hnil => hne ?_
    exact (update_of_ne hrq _ _).trans hnil

/-- Taking a waiter off a queue loses nobody and leaves less to do. -/
theorem Inv.pop {q : Side} {w : T} {rest : List T} (h : Inv v) (hwq : v.wq q = w :: rest)
    (hfree : v.carries t = none) : Inv (v.pop t q w rest) := by
  refine ⟨fun u r hu => ?_, fun r hstop hne => ?_, h.roles, h.unchecked⟩
  · change u ∈ update v.wq q rest r ∨ ∃ a, update v.carries t (some w) a = some u
    obtain hin | hcar := h.waiting u r hu
    · rw [update_apply]
      split
      · rename_i hr
        subst hr
        rw [hwq] at hin
        obtain rfl | hin := List.mem_cons.1 hin
        · exact .inr ⟨t, update_self ..⟩
        · exact .inl hin
      · exact .inl hin
    · refine .inr (exists_update (Q := fun c => c = some u) hcar fun hc => ?_)
      rw [hfree] at hc
      cases hc
  · refine h.released r hstop fun hnil => hne ?_
    change update v.wq q rest r = []
    rw [update_apply]
    split
    · rename_i hr
      subst hr
      rw [hwq] at hnil
      cases hnil
    · exact hnil

theorem Inv.ready {w : T} (h : Inv v) (hcarries : v.carries t = some w) : Inv { v with
      waits := update v.waits w none
      carries := update v.carries t none } := by
  refine ⟨fun u r hu => ?_, h.released, h.roles, h.unchecked⟩
  change update v.waits w none u = some r at hu
  rw [update_apply] at hu
  split at hu
  · cases hu
  · rename_i huw
    refine (h.waiting u r hu).imp_right fun hcar => ?_
    refine exists_update (Q := fun c => c = some u) hcar fun hc => ?_
    rw [hcarries] at hc
    exact absurd (some.inj hc).symm huw

theorem roles_assign {r : Role} (hother : ∀ a, a ≠ t → v.roleOk a (v.role a)) (hself : v.roleOk t r) :
    ∀ a, (v.assign t r).roleOk a ((v.assign t r).role a) := by
  intro a
  change v.roleOk a (update v.role t r a)
  rw [update_apply]
  split
  · rename_i hat
    rw [hat]
    exact hself
  · rename_i hat
    exact hother a hat

omit [DecidableEq T] in
theorem roleOk_other {a : T} {r : Role} (hcloser : v.closer = some t) (hat : a ≠ t)
    (h : v.roleOk a r) : r = .none ∨ r = .erring ∧ v.inqErr ≠ 0 := by
  have hnot : v.closer ≠ some a := fun hca => hat (some.inj (hca.symm.trans hcloser))
  cases r with
  | none => exact .inl rfl
  | erring => exact .inr ⟨rfl, h.1⟩
  | opening | flagged | closeIn | closeOut => exact absurd h.1 hnot

omit [DecidableEq T] in
theorem roleOk_later {a : T} {r : Role} (hcloser : v.closer = some t) (hcloser' : v'.closer = some t)
    (herr : v'.inqErr = v.inqErr) (hat : a ≠ t) (h : v.roleOk a r) : v'.roleOk a r := by
  have hnot : v'.closer ≠ some a := fun hca => hat (some.inj (hca.symm.trans hcloser'))
  obtain rfl | ⟨rfl, hne⟩ := roleOk_other hcloser hat h
  · exact fun hca => absurd hca hnot
  · exact ⟨herr.symm ▸ hne, fun hca => absurd hca hnot⟩

theorem Inv.done {l : Loop} (h : Inv v) (hrole : v.role t = l.role) (hwq : v.wq l.side = []) :
    Inv (v.assign t (if l = .closeIn then .closeOut else .none)) := by
  have hself := h.roles t
  rw [hrole] at hself
  refine ⟨h.waiting, fun q hstop hne => ?_, roles_assign (fun a _ => h.roles a) ?_, h.unchecked⟩
  · refine exists_update (Q := fun r => v.commits r q = true) (h.released q hstop hne) fun hold => ?_
    rw [hrole] at hold
    cases l with
    | err =>
      cases q with
      | inq => exact absurd hwq hne
      | outq => cases hold
    | closeIn =>
      cases q with
      | inq => exact absurd hwq hne
      | outq => rfl
    | closeOut =>
      cases q with
      | inq => cases hold
      | outq => exact absurd hwq hne
  · cases l with
    | err => exact hself.2
    | closeIn => exact ⟨hself.1, hself.2.1⟩
    | closeOut => exact fun _ => hself.2

theorem Inv.begin (h : Inv v) (hcloser : v.closer = none) (hrole : v.role t = .none) :
    Inv ({ v with closer := some t }.assign t .opening) := by
  refine ⟨h.waiting, fun q hstop hne => ?_, roles_assign (fun a hat => ?_) ⟨rfl, h.unchecked hcloser⟩, nofun⟩
  · refine exists_update (Q := fun r => v.commits r q = true) (h.released q hstop hne) fun hold => ?_
    rw [hrole] at hold
    cases q <;> cases hold
  · have hold := h.roles a
    have hnot : v.closer ≠ some a := hcloser.trans_ne nofun
    have hnew : (some t : Option T) ≠ some a := fun heq => hat (some.inj heq).symm
    change View.roleOk _ a (v.role a)
    cases hr : v.role a with
    | none => exact fun hca => absurd hca hnew
    | erring =>
      rw [hr] at hold
      exact ⟨hold.1, fun hca => absurd hca hnew⟩
    | _ =>
      rw [hr] at hold
      exact absurd hold.1 hnot

theorem Inv.raise (h : Inv v) (hrole : v.role t = .opening) :
    Inv ({ v with shutdown := true }.assign t .flagged) := by
  have hself := h.roles t
  rw [hrole] at hself
  obtain ⟨hcloser, hunchecked⟩ := hself
  refine ⟨h.waiting, fun q hstop hne => ?_, roles_assign (fun a hat => ?_) ⟨hcloser, rfl, hunchecked⟩,
    h.unchecked⟩
  · cases q with
    | outq =>
      refine ⟨t, ?_⟩
      change v.commits (update v.role t .flagged t) .outq = true
      rw [update_self]
      rfl
    | inq =>
      by_cases herr : v.inqErr = 0
      · refine ⟨t, ?_⟩
        change v.commits (update v.role t .flagged t) .inq = true
        rw [update_self]
        exact decide_eq_true (.inr (.inr ⟨rfl, herr⟩))
      · have hstopped : v.stopped .inq = true := by
          change (v.shutdown || decide (v.inqErr ≠ 0)) = true
          rw [decide_eq_true herr, Bool.or_true]
        refine exists_update (Q := fun r => v.commits r .inq = true) (h.released .inq hstopped hne)
          fun hold => ?_
        rw [hrole] at hold
        cases hold
  · exact roleOk_later hcloser hcloser rfl hat (h.roles a)

theorem Inv.check (h : Inv v) (hrole : v.role t = .flagged) :
    Inv ({ v with checked := true }.assign t (if v.inqErr = 0 then .closeIn else .closeOut)) := by
  have hself := h.roles t
  rw [hrole] at hself
  obtain ⟨hcloser, hshut, -⟩ := hself
  refine ⟨h.waiting, fun q hstop hne => ?_, roles_assign (fun a hat => ?_) ?_, fun hnone => ?_⟩
  · refine exists_update (Q := fun r => v.commits r q = true) (h.released q hstop hne) fun hold => ?_
    rw [hrole] at hold
    split
    · cases q <;> rfl
    · rename_i herr
      cases q with
      | inq =>
        obtain hc | hc | hc := of_decide_eq_true hold
        · cases hc
        · cases hc
        · exact absurd hc.2 herr
      | outq => rfl
  · exact roleOk_later hcloser hcloser rfl hat (h.roles a)
  · split
    · exact ⟨hcloser, hshut, rfl⟩
    · exact ⟨hcloser, hshut⟩
  · rw [show v.closer = none from hnone] at hcloser
    cases hcloser

theorem Calm.keeps (h : Inv v) (hcalm : Calm v v') : Inv v' := by
  cases hcalm with
  | stay => exact h
  | wait t q hopen => exact h.wait hopen
  | signal t q w rest hopen hwq hfree => exact h.pop hwq hfree
  | pop t l w rest hrole hwq hfree => exact h.pop hwq hfree
  | ready t w hcarries => exact h.ready hcarries
  | done t l hrole hwq => exact h.done hrole hwq
  | begin t hcloser hrole => exact h.begin hcloser hrole
  | raise t hrole => exact h.raise hrole
  | check t hrole => exact h.check hrole

/-! ## The window -/

/-- The socket is marked as shut down, `udp_shutdown` has not yet tested `inq_err`, no error
has been seen, and threads wait for datagrams. -/
def View.window (v : View T) : Bool :=
  v.shutdown && !v.checked && decide (v.inqErr = 0) && !(v.wq .inq).isEmpty

theorem Inv.fail {err : ErrCode} (h : Inv v) (hrole : v.role t = .none)
    (hwindow : v.window = false) : Inv (v.fail t err) := by
  have hself := h.roles t
  rw [hrole] at hself
  refine ⟨h.waiting, fun q hstop hne => ?_, roles_assign (fun a _ => ?_) ?_, h.unchecked⟩
  · cases q with
    | outq =>
      refine exists_update (Q := fun r => v.commits r .outq = true) (h.released .outq hstop hne)
        fun hold => ?_
      rw [hrole] at hold
      cases hold
    | inq =>
      by_cases hopen : v.inqErr = 0 ∧ v.shutdown = false
      · refine ⟨t, ?_⟩
        change View.commits _ (update v.role t _ t) .inq = true
        rw [update_self, if_pos hopen]
        rfl
      · have hstopped : v.stopped .inq = true := by
          change (v.shutdown || decide (v.inqErr ≠ 0)) = true
          cases hshut : v.shutdown with
          | true => rfl
          | false => exact decide_eq_true fun h0 => hopen ⟨h0, hshut⟩
        obtain ⟨a, ha⟩ := h.released .inq hstopped hne
        have hraises : v.role a = .erring ∨ v.role a = .closeIn := by
          obtain hc | hc | ⟨hflagged, h0⟩ := of_decide_eq_true ha
          · exact .inl hc
          · exact .inr hc
          · -- `a` has not tested `inq_err`: this is the window
            have ha := h.roles a
            rw [hflagged] at ha
            have hin : v.window = true := by
              unfold View.window
              rw [ha.2.1, ha.2.2, decide_eq_true h0]
              cases hwq : v.wq .inq with
              | nil => exact absurd hwq hne
              | cons w rest => rfl
            rw [hin] at hwindow
            cases hwindow
        have hat : a ≠ t := by
          rintro rfl
          rw [hrole] at hraises
          obtain hc | hc := hraises <;> cases hc
        refine ⟨a, ?_⟩
        change View.commits _ (update v.role t _ a) .inq = true
        rw [update_of_ne hat]
        exact decide_eq_true (hraises.elim .inl fun hc => .inr (.inl hc))
  · have hold := h.roles a
    change View.roleOk _ a (v.role a)
    cases hr : v.role a with
    | erring =>
      rw [hr] at hold
      exact ⟨err.ne_zero, hold.2⟩
    | _ =>
      rw [hr] at hold
      exact hold
  · split
    · exact ⟨err.ne_zero, hself⟩
    · exact hself

/-! ## After an error in the window -/

structure Stuck (v : View T) : Prop where
  shutdown : v.shutdown = true
  failed : v.inqErr ≠ 0
  waiting : v.wq .inq ≠ []
  alone : ∀ a, v.role a ≠ .erring ∧ v.role a ≠ .closeIn

omit [DecidableEq T] in
theorem Stuck.stopped (h : Stuck v) (q : Side) : v.stopped q = true := by
  cases q with
  | inq =>
    change (v.shutdown || _) = true
    rw [h.shutdown]
    rfl
  | outq => exact h.shutdown

theorem Stuck.assign {r : Role} (h : Stuck v) (hr : r ≠ .erring ∧ r ≠ .closeIn) :
    Stuck (v.assign t r) := by
  refine ⟨h.shutdown, h.failed, h.waiting, fun a => ?_⟩
  change update v.role t r a ≠ .erring ∧ update v.role t r a ≠ .closeIn
  rw [update_apply]
  split
  · exact hr
  · exact h.alone a

theorem Stuck.calm (h : Stuck v) (hcalm : Calm v v') : Stuck v' := by
  cases hcalm with
  | stay => exact h
  | ready t w hcarries => exact ⟨h.shutdown, h.failed, h.waiting, h.alone⟩
  | wait t q hopen =>
    rw [h.stopped q] at hopen
    cases hopen
  | signal t q w rest hopen hwq hfree =>
    rw [h.stopped q] at hopen
    cases hopen
  | pop t l w rest hrole hwq hfree =>
    -- only the loop over `outq` can be running
    have hl : l = .closeOut := by
      cases l with
      | err => exact absurd hrole (h.alone t).1
      | closeIn => exact absurd hrole (h.alone t).2
      | closeOut => rfl
    subst hl
    refine ⟨h.shutdown, h.failed, ?_, h.alone⟩
    change update v.wq .outq rest .inq ≠ []
    rw [update_of_ne (show Side.inq ≠ .outq from nofun)]
    exact h.waiting
  | done t l hrole hwq =>
    refine h.assign ?_
    split <;> exact ⟨nofun, nofun⟩
  | begin t hcloser hrole =>
    exact Stuck.assign (v := { v with closer := some t })
      ⟨h.shutdown, h.failed, h.waiting, h.alone⟩ ⟨nofun, nofun⟩
  | raise t hrole =>
    exact Stuck.assign (v := { v with shutdown := true }) ⟨rfl, h.failed, h.waiting, h.alone⟩
      ⟨nofun, nofun⟩
  | check t hrole =>
    rw [if_neg h.failed]
    exact Stuck.assign (v := { v with checked := true })
      ⟨h.shutdown, h.failed, h.waiting, h.alone⟩ ⟨nofun, nofun⟩

theorem Stuck.fail {err : ErrCode} (h : Stuck v) : Stuck (v.fail t err) := by
  unfold View.fail
  rw [if_neg fun hc => h.failed hc.1]
  exact Stuck.assign (v := { v with inqErr := err.val }) ⟨h.shutdown, err.ne_zero, h.waiting, h.alone⟩
    ⟨nofun, nofun⟩

theorem Inv.stuck {err : ErrCode} (h : Inv v) (hwindow : v.window = true) :
    Stuck (v.fail t err) := by
  unfold View.window at hwindow
  simp only [Bool.and_eq_true, Bool.not_eq_true', decide_eq_true_eq] at hwindow
  obtain ⟨⟨⟨hshut, hunchecked⟩, hzero⟩, hwaiting⟩ := hwindow
  unfold View.fail
  rw [if_neg fun hc => Bool.false_ne_true (hc.2.symm.trans hshut)]
  refine Stuck.assign (v := { v with inqErr := err.val }) ⟨hshut, err.ne_zero, ?_, fun a => ⟨?_, ?_⟩⟩ ⟨nofun, nofun⟩
  · intro hnil
    rw [show v.wq .inq = [] from hnil] at hwaiting
    cases hwaiting
  · intro hr
    have ha := h.roles a
    rw [show v.role a = .erring from hr] at ha
    exact ha.1 hzero
  · intro hr
    have ha := h.roles a
    rw [show v.role a = .closeIn from hr, View.roleOk, hunchecked] at ha
    exact absurd ha.2.2 nofun

/-! ## Whole runs -/

def NotInWindow (s : State T) (e : Event T) : Prop := e.errs s = true → s.view.window = false

instance (s : State T) (e : Event T) : Decidable (NotInWindow s e) :=
  inferInstanceAs (Decidable (_ → _))

theorem step_fail {e : Event T} (herrs : e.errs s = true) (hstep : step s e = some s') :
    ∃ t err, s.view.role t = .none ∧ s'.view = s.view.fail t err := by
  cases e with
  | run t =>
    obtain ⟨hrole, err, hview⟩ := run_fail herrs hstep
    exact ⟨t, err, hrole, hview⟩
  | _ => cases herrs

theorem Inv.keeps {e : Event T} (h : Inv s.view) (hok : NotInWindow s e)
    (hstep : step s e = some s') : Inv s'.view := by
  cases herrs : e.errs s with
  | false => exact (step_calm herrs hstep).keeps h
  | true =>
    obtain ⟨t, err, hrole, hview⟩ := step_fail herrs hstep
    rw [hview]
    exact h.fail hrole (hok herrs)

theorem Stuck.keeps {e : Event T} (h : Stuck s.view) (hstep : step s e = some s') :
    Stuck s'.view := by
  cases herrs : e.errs s with
  | false => exact h.calm (step_calm herrs hstep)
  | true =>
    obtain ⟨t, err, -, hview⟩ := step_fail herrs hstep
    rw [hview]
    exact h.fail

omit [DecidableEq T] in
theorem inv_initConn (inqCap outqCap : Int) (nonblocking : Bool) :
    Inv (initConn inqCap outqCap nonblocking : State T).view := by
  refine ⟨nofun, fun q hstop => ?_, fun a => nofun, fun _ => rfl⟩
  cases q <;> cases hstop

omit [DecidableEq T] in
theorem Phase.carries_of_not_busy (h : p.busy = false) : p.carries = none := by
  cases p with
  | signalUnlock _ _ | signalFinish _ | releaseReady _ _ => cases h
  | _ => rfl

omit [DecidableEq T] in
theorem Phase.role_of_not_busy (h : p.busy = false) : p.role = .none := by
  cases p with
  | errUnlock _ | shutLockIn | shutLockOut | shutFlag | shutUnlockOut | shutUnlockIn | shutRemove
  | shutCheck | release _ | releaseReady _ _ => cases h
  | _ => rfl

omit [DecidableEq T] in
theorem Inv.unblocked (h : Inv s.view) (hquiet : Quiet s) : Unblocked s := by
  obtain ⟨hcloser, hidle⟩ := hquiet
  have hnone : ∀ a, s.view.role a = .none := fun a => Phase.role_of_not_busy (hidle a)
  have hshut : s.shutdown = true := by
    obtain ⟨a, ha⟩ := ne_none_iff_exists'.1 hcloser
    have hrole := h.roles a
    rw [hnone a] at hrole
    exact hrole ha
  have hempty : ∀ q, s.wq q = [] := by
    intro q
    by_contra hne
    have hstop : s.view.stopped q = true := by
      cases q with
      | inq =>
        change (s.shutdown || _) = true
        rw [hshut]
        rfl
      | outq => exact hshut
    obtain ⟨a, ha⟩ := h.released q hstop hne
    rw [hnone a] at ha
    cases q <;> cases ha
  refine fun q => ⟨hempty q, fun t ht => ?_⟩
  obtain hin | ⟨a, ha⟩ := h.waiting t q (congrArg Phase.waits ht)
  · rw [show s.view.wq q = [] from hempty q] at hin
    cases hin
  · rw [show s.view.carries a = none from Phase.carries_of_not_busy (hidle a)] at ha
    cases ha

/-- If no error comes in the window, nobody blocks on the socket once `udp_shutdown` and the
handlers have ended.  After an error in the window, somebody waits for ever. -/
theorem shutdown_unblocks_iff (inqCap outqCap : Int) (nonblocking : Bool) {s : State T}
    (hreach : Reaches step NotInWindow (initConn inqCap outqCap nonblocking) s) :
    (Quiet s → Unblocked s) ∧
    ∀ e s', step s e = some s' → ¬ NotInWindow s e →
      ∀ s₂, Reaches step anyStep s' s₂ → s₂.wq .inq ≠ [] := by
  have hinv : Inv s.view := hreach.invariant (P := fun u => Inv u.view)
    (inv_initConn inqCap outqCap nonblocking) fun _ _ _ h hok hs => h.keeps hok hs
  refine ⟨hinv.unblocked, fun e s' hstep hbad s₂ hreach₂ => ?_⟩
  obtain ⟨herrs, hwindow⟩ := Classical.not_imp.1 hbad
  obtain ⟨t, err, -, hview⟩ := step_fail herrs hstep
  have hstuck : Stuck s'.view := by
    rw [hview]
    exact hinv.stuck (eq_true_of_ne_false hwindow)
  have hstuck₂ : Stuck s₂.view := hreach₂.invariant (P := fun u => Stuck u.view) hstuck
    fun _ _ _ h _ hs => h.keeps hs
  exact hstuck₂.waiting

end Model

/-! ## An error during the shutdown -/

instance {n : Nat} (s : State (Fin n)) : Decidable (Quiet s) :=
  inferInstanceAs (Decidable (_ ∧ _))

/-- `EHOSTUNREACH`, which the ARP table reports. -/
def ehostunreach : ErrCode := ⟨113, by decide⟩

/-- Thread 1 reads and blocks, and thread 2 runs `udp_shutdown` up to the test of `inq_err`. -/
def beforeCheck : List (Event (Fin 4)) :=
  .read 1 :: List.replicate 3 (.run 1) ++ .shutdown 2 :: List.replicate 6 (.run 2)

def undisturbed : List (Event (Fin 4)) := beforeCheck ++ List.replicate 5 (.run 2)

theorem shutdown_unblocks_reader : ∃ s : State (Fin 4),
    Reaches step NotInWindow (initConn 8 8 false) s ∧ Quiet s ∧ Unblocked s := by
  obtain ⟨s, hreach, hquiet⟩ : ∃ s, Reaches step NotInWindow (initConn 8 8 false) s ∧ Quiet s :=
    exists_of_runChecked undisturbed (by decide)
  exact ⟨s, hreach, hquiet, (shutdown_unblocks_iff 8 8 false hreach).1 hquiet⟩

def disturbed : List (Event (Fin 4)) :=
  beforeCheck ++ .err 3 ehostunreach :: List.replicate 3 (.run 3) ++ List.replicate 2 (.run 2)

theorem shutdown_leaves_reader : ∃ s : State (Fin 4), Reaches step anyStep (initConn 8 8 false) s ∧
    Quiet s ∧ s.phase 1 = .parked .inq ∧ ¬ Unblocked s := by
  obtain ⟨s, hreach, hp⟩ : ∃ s, Reaches step anyStep (initConn 8 8 false) s ∧
      Quiet s ∧ s.phase 1 = .parked .inq :=
    exists_of_runActions disturbed (by decide)
  obtain ⟨hquiet, hparked⟩ := hp
  exact ⟨s, hreach, hquiet, hparked, fun h => (h .inq).2 1 hparked⟩

end Svalinn.Net.Udp
