/-
  Runtime/Condvar.lean --- condition variables with timed waits.

  Source: `runtime/sync.c` (`condvar_timeout`, `condvar_wait_timed`, `condvar_wait`,
  `condvar_signal`, `condvar_broadcast`) and `runtime/timer.c` (`timer_start`,
  `__timer_cancel`, `timer_softirq_one`).

  The text inside the waiter lock is one step, since the list, the time stamps and the
  writes of `timed_out` are only made there.  The mutex is a variable that names its holder.
  Between the list and `thread_ready` a thread is `popped`; a signaller or broadcaster that
  still has to make it ready has it in `wakeups`, a timeout handler keeps it in its timer.
-/
import Mathlib.Data.List.Nodup
import Svalinn.Runtime.Mutex

set_option autoImplicit false

namespace Svalinn.Runtime.Condvar

open Svalinn.Lib Function List
open Svalinn.Runtime.Mutex (headTsc uint64Max)

inductive Phase where
  | out
  | entering
  | parked
  | popped
  | ready
  /-- in front of the `mutex_lock` at the end of a wait -/
  | relock
  deriving DecidableEq

inductive Timer where
  | off
  | armed
  /-- `executing`, in front of the handler's waiter lock -/
  | firing
  | missed
  | waking
  deriving DecidableEq

inductive Cause where
  | signal
  | timeout
  deriving DecidableEq

/-- A thread: its place in the code, and the timer entry and arguments on its stack. -/
structure Waiter where
  phase : Phase
  timed : Bool
  timer : Timer
  timedOut : Bool
  readyTsc : Nat
  ran : Bool
  cause : Option Cause
  parks : Nat
  readies : Nat
  deriving DecidableEq

def Waiter.waits (w : Waiter) : Bool := w.phase = .parked

def Waiter.pop (w : Waiter) (cause : Cause) : Waiter :=
  { w with phase := .popped, cause := some cause }

/-- `thread_ready`: a parked thread goes on behind its park. -/
def Waiter.wake (w : Waiter) (tsc : Nat) : Waiter :=
  { w with
    phase := if w.phase = .popped ∨ w.phase = .parked then .ready else w.phase
    readyTsc := tsc
    readies := w.readies + 1 }

/-- A return of `condvar_wait_timed`. -/
structure Return where
  result : Bool
  cause : Option Cause
  held : Bool
  deriving DecidableEq

section Model

variable {T : Type} [DecidableEq T]

structure State (T : Type) where
  owner : Option T
  waiters : List T
  oldestTsc : Nat
  thread : T → Waiter
  wakeups : List T
  returns : List Return

def State.set (s : State T) (t : T) (w : Waiter) : State T :=
  { s with thread := update s.thread t w }

def State.head (s : State T) : Nat := headTsc (fun t => (s.thread t).readyTsc) s.waiters

inductive Event (T : Type) where
  | lock (t : T)
  | unlock (t : T)
  | wait (t : T)
  | waitTimed (t : T)
  | run (t : T) (tsc : Nat)
  | signal
  | broadcast
  /-- the `thread_ready` of a signal or broadcast -/
  | wake (t : T) (tsc : Nat)
  | fire (t : T)
  /-- the text of `condvar_timeout` inside the waiter lock -/
  | handler (t : T)
  | handlerEnd (t : T) (tsc : Nat)

/-- The text of the wait functions inside the waiter lock, from `mutex_unlock` on. -/
def State.park (s : State T) (t : T) (tsc : Nat) : State T :=
  let w := s.thread t
  { s with
    owner := none
    waiters := s.waiters ++ [t]
    oldestTsc := if s.waiters = [] then tsc else s.oldestTsc }.set t
      { w with phase := .parked, readyTsc := tsc, cause := none, parks := w.parks + 1 }

/-- The end of a wait: `mutex_lock`, and the value of `condvar_wait_timed`. -/
def State.finish (s : State T) (t : T) : Option (State T) :=
  let w := s.thread t
  if s.owner = none then
    let s := { s with owner := some t }
    let held : Bool := s.owner = some t
    some ({ s with returns := if w.timed then ⟨!w.timedOut, w.cause, held⟩ :: s.returns else s.returns }.set t
      { w with phase := .out })
  else none

/-- `timer_cancel`: it disarms the timer, or waits for the handler to end. -/
def State.timerCancel (s : State T) (t : T) : Option (State T) :=
  let w := s.thread t
  match w.timer with
  | .off | .armed => some (s.set t { w with timer := .off, phase := .relock })
  | .firing | .missed | .waking => none

def State.run (s : State T) (t : T) (tsc : Nat) : Option (State T) :=
  let w := s.thread t
  match w.phase with
  | .entering =>
    if w.timed && w.timedOut then
      let held : Bool := s.owner = some t
      some ({ s with returns := ⟨false, w.cause, held⟩ :: s.returns }.set t { w with phase := .out })
    else some (s.park t tsc)
  | .ready =>
    if w.timed && !w.timedOut then s.timerCancel t else some (s.set t { w with phase := .relock })
  | .relock => s.finish t
  | .out | .parked | .popped => none

def condvarSignal (s : State T) : State T :=
  match s.waiters with
  | [] => { s with oldestTsc := uint64Max }
  | w :: rest =>
    let s := { s with waiters := rest, wakeups := s.wakeups ++ [w] }.set w ((s.thread w).pop .signal)
    { s with oldestTsc := s.head }

def condvarBroadcast (s : State T) : State T :=
  { s with
    wakeups := s.wakeups ++ s.waiters
    thread := fun t => if t ∈ s.waiters then (s.thread t).pop .signal else s.thread t
    waiters := []
    oldestTsc := uint64Max }

/-- `condvar_timeout` inside the waiter lock. -/
def condvarTimeout (s : State T) (t : T) : State T :=
  let w := s.thread t
  let s :=
    if t ∈ s.waiters then
      { s with waiters := s.waiters.erase t }.set t
        { w.pop .timeout with timedOut := true, timer := .waking, ran := true }
    else s.set t { w with timer := .missed, ran := true }
  { s with oldestTsc := s.head }

def step (s : State T) : Event T → Option (State T)
  | .lock t =>
    if (s.thread t).phase = .out ∧ s.owner = none then some { s with owner := some t } else none
  | .unlock t =>
    if (s.thread t).phase = .out ∧ s.owner = some t then some { s with owner := none } else none
  | .wait t =>
    if (s.thread t).phase = .out ∧ s.owner = some t then
      some (s.set t { s.thread t with phase := .entering, timed := false, ran := false })
    else none
  | .waitTimed t =>
    if (s.thread t).phase = .out ∧ s.owner = some t then
      some (s.set t { s.thread t with
        phase := .entering, timed := true, timedOut := false, timer := .armed, ran := false })
    else none
  | .run t tsc => s.run t tsc
  | .signal => some (condvarSignal s)
  | .broadcast => some (condvarBroadcast s)
  | .wake t tsc =>
    if t ∈ s.wakeups then
      some ({ s with wakeups := s.wakeups.erase t }.set t ((s.thread t).wake tsc))
    else none
  | .fire t =>
    if (s.thread t).timer = .armed then some (s.set t { s.thread t with timer := .firing }) else none
  | .handler t => if (s.thread t).timer = .firing then some (condvarTimeout s t) else none
  | .handlerEnd t tsc =>
    match (s.thread t).timer with
    | .missed => some (s.set t { s.thread t with timer := .off })
    | .waking => some (s.set t { (s.thread t).wake tsc with timer := .off })
    | .off | .armed | .firing => none

def init (readyTsc : T → Nat) : State T :=
  ⟨none, [], uint64Max, fun t => ⟨.out, false, .off, false, readyTsc t, false, none, 0, 0⟩, [], []⟩

/-! ## The property -/

def Waiter.pending (w : Waiter) : Nat := if w.phase = .parked ∨ w.phase = .popped then 1 else 0

/-- A return holds the mutex, and is false exactly if the timeout ended the wait. -/
def Return.Right (r : Return) : Prop :=
  r.held = true ∧ (r.result = false ↔ r.cause = some .timeout)

structure Ends (s : State T) : Prop where
  timeout : ∀ t, (s.thread t).ran = true → t ∉ s.waiters
  once : ∀ t, (s.thread t).parks = (s.thread t).readies + (s.thread t).pending
  returns : ∀ r ∈ s.returns, r.Right

/-- The condition: no thread queues in a call whose handler has already run. -/
def queuesInTime (s : State T) : Event T → Prop
  | .run t _ => (s.thread t).phase = .entering → (s.thread t).ran = false
  | _ => True

instance (s : State T) : (e : Event T) → Decidable (queuesInTime s e)
  | .run t _ => inferInstanceAs (Decidable ((s.thread t).phase = .entering → (s.thread t).ran = false))
  | .lock _ | .unlock _ | .wait _ | .waitTimed _ | .signal | .broadcast | .wake _ _ | .fire _ | .handler _
  | .handlerEnd _ _ => inferInstanceAs (Decidable True)

/-! ## What is true of each thread -/

/-- A thread between its calls, and at each place of a call; `tokens` counts the signallers that
still have to make it ready. -/
def Waiter.At (w : Waiter) (tokens : Nat) : Prop :=
  match w.phase with
  | .out => tokens = 0 ∧ w.timer = .off
  | .entering =>
    tokens = 0 ∧ w.timer ≠ .waking ∧
      (if w.timed then w.timedOut = false ∧ (w.ran = false → w.timer = .armed ∨ w.timer = .firing)
        else w.timer = .off ∧ w.ran = false)
  | .parked =>
    tokens = 0 ∧ w.ran = false ∧
      (if w.timed then w.timedOut = false ∧ (w.timer = .armed ∨ w.timer = .firing) else w.timer = .off)
  | .popped =>
    if w.timer = .waking then tokens = 0 ∧ w.timedOut = true ∧ w.cause = some .timeout
    else tokens = 1 ∧ w.cause = some .signal ∧ (if w.timed then w.timedOut = false else w.timer = .off)
  | .ready =>
    tokens = 0 ∧ w.timer ≠ .waking ∧ (w.timed = false ∨ w.timedOut = true → w.timer = .off) ∧
      (w.timed = true → (w.timedOut = true ↔ w.cause = some .timeout))
  | .relock =>
    tokens = 0 ∧ w.timer = .off ∧ (w.timed = true → (w.timedOut = true ↔ w.cause = some .timeout))

def Waiter.Fits (w : Waiter) (tokens : Nat) : Prop :=
  w.At tokens ∧ w.parks = w.readies + w.pending

variable {w : Waiter} {n : Nat}

theorem Waiter.Fits.call (h : w.Fits n) (hout : w.phase = .out) :
    Waiter.Fits { w with phase := .entering, timed := false, ran := false } n ∧ Waiter.Fits { w with
        phase := .entering, timed := true, timedOut := false, timer := .armed, ran := false } n := by
  obtain ⟨hat, hparks⟩ := h
  simp only [Waiter.At, hout] at hat
  simp only [Waiter.pending, hout] at hparks
  simp [Waiter.Fits, Waiter.At, Waiter.pending, hat, hparks]

theorem Waiter.Fits.park (h : w.Fits n) (hin : w.phase = .entering) (hran : w.ran = false) (tsc : Nat) :
    Waiter.Fits { w with phase := .parked, readyTsc := tsc, cause := none, parks := w.parks + 1 } n := by
  obtain ⟨hat, hparks⟩ := h
  simp only [Waiter.At, hin] at hat
  simp only [Waiter.pending, hin] at hparks
  obtain ⟨hn, -, htimer⟩ := hat
  cases ht : w.timed <;> simp_all [Waiter.Fits, Waiter.At, Waiter.pending]

theorem Waiter.Fits.signalled (h : w.Fits n) (hin : w.phase = .parked) :
    Waiter.Fits (w.pop .signal) (n + 1) := by
  obtain ⟨hat, hparks⟩ := h
  simp only [Waiter.At, hin] at hat
  simp only [Waiter.pending, hin] at hparks
  obtain ⟨hn, -, htimer⟩ := hat
  have hrest : w.timer ≠ .waking ∧ (if w.timed then w.timedOut = false else w.timer = .off) := by
    grind
  refine ⟨?_, hparks⟩
  show if w.timer = .waking then _ else _
  rw [if_neg hrest.1]
  exact ⟨congrArg (· + 1) hn, rfl, hrest.2⟩

theorem Waiter.Fits.fire (h : w.Fits n) (harmed : w.timer = .armed) :
    Waiter.Fits { w with timer := .firing } n := by
  obtain ⟨hat, hparks⟩ := h
  refine ⟨?_, hparks⟩
  rw [Waiter.At] at hat ⊢
  dsimp only
  cases hp : w.phase <;> rw [hp] at hat <;> grind

theorem Waiter.Fits.timeout (h : w.Fits n) (hin : w.phase = .parked) :
    Waiter.Fits { w.pop .timeout with timedOut := true, timer := .waking, ran := true } n := by
  obtain ⟨hat, hparks⟩ := h
  simp only [Waiter.At, hin] at hat
  simp only [Waiter.pending, hin] at hparks
  simp [Waiter.Fits, Waiter.At, Waiter.pending, Waiter.pop, hat, hparks]

theorem Waiter.Fits.miss (h : w.Fits n) (hout : w.phase ≠ .parked) (hfiring : w.timer = .firing) :
    Waiter.Fits { w with timer := .missed, ran := true } n := by
  obtain ⟨hat, hparks⟩ := h
  refine ⟨?_, hparks⟩
  rw [Waiter.At] at hat ⊢
  dsimp only
  cases hp : w.phase <;> rw [hp] at hat <;> grind

theorem Waiter.Fits.missed (h : w.Fits n) (hmissed : w.timer = .missed) :
    Waiter.Fits { w with timer := .off } n := by
  obtain ⟨hat, hparks⟩ := h
  refine ⟨?_, hparks⟩
  rw [Waiter.At] at hat ⊢
  dsimp only
  cases hp : w.phase <;> rw [hp] at hat <;> grind

theorem Waiter.Fits.timeoutWake (h : w.Fits n) (hwaking : w.timer = .waking) (tsc : Nat) :
    w.phase = .popped ∧ Waiter.Fits { w.wake tsc with timer := .off } n := by
  obtain ⟨hat, hparks⟩ := h
  have hpopped : w.phase = .popped := by
    rw [Waiter.At] at hat
    cases hp : w.phase <;> simp_all
  simp only [Waiter.At, hpopped, hwaking] at hat
  simp only [Waiter.pending, hpopped] at hparks
  refine ⟨hpopped, ?_⟩
  simp_all [Waiter.Fits, Waiter.At, Waiter.pending, Waiter.wake]

theorem Waiter.Fits.signalWake (h : w.Fits (n + 1)) (tsc : Nat) :
    w.phase = .popped ∧ Waiter.Fits (w.wake tsc) n := by
  obtain ⟨hat, hparks⟩ := h
  have hpopped : w.phase = .popped := by
    rw [Waiter.At] at hat
    cases hp : w.phase <;> simp_all
  simp only [Waiter.At, hpopped] at hat
  simp only [Waiter.pending, hpopped] at hparks
  refine ⟨hpopped, ?_⟩
  cases ht : w.timed <;> cases hm : w.timer <;>
    simp_all [Waiter.Fits, Waiter.At, Waiter.pending, Waiter.wake]

theorem Waiter.Fits.cancel (h : w.Fits n) (hin : w.phase = .ready) :
    Waiter.Fits { w with timer := .off, phase := .relock } n := by
  obtain ⟨hat, hparks⟩ := h
  simp only [Waiter.At, hin] at hat
  simp only [Waiter.pending, hin] at hparks
  simp_all [Waiter.Fits, Waiter.At, Waiter.pending]

theorem Waiter.Fits.skipCancel (h : w.Fits n) (hin : w.phase = .ready)
    (hskip : w.timed = false ∨ w.timedOut = true) : Waiter.Fits { w with phase := .relock } n := by
  obtain ⟨hat, hparks⟩ := h
  simp only [Waiter.At, hin] at hat
  simp only [Waiter.pending, hin] at hparks
  refine ⟨⟨hat.1, hat.2.2.1 hskip, hat.2.2.2⟩, ?_⟩
  simpa [Waiter.pending] using hparks

theorem Waiter.Fits.finish (h : w.Fits n) (hin : w.phase = .relock) :
    Waiter.Fits { w with phase := .out } n ∧
      (w.timed = true → Return.Right ⟨!w.timedOut, w.cause, true⟩) := by
  obtain ⟨hat, hparks⟩ := h
  simp only [Waiter.At, hin] at hat
  simp only [Waiter.pending, hin] at hparks
  refine ⟨⟨⟨hat.1, hat.2.1⟩, by simpa [Waiter.pending] using hparks⟩, fun ht => ⟨rfl, ?_⟩⟩
  rw [← hat.2.2 ht]
  cases w.timedOut <;> simp

/-! ## The invariant -/

structure Inv (s : State T) : Prop where
  fits : ∀ t, (s.thread t).Fits (s.wakeups.count t)
  queue : Listed Waiter.waits s.thread s.waiters
  owner : ∀ t, (s.thread t).phase = .entering → s.owner = some t
  returns : ∀ r ∈ s.returns, r.Right
  oldest : s.oldestTsc = s.head

variable {s : State T} {t : T} {thread : T → Waiter} {wakeups : List T}

theorem inv_init (readyTsc : T → Nat) : Inv (init readyTsc) where
  fits _ := ⟨⟨rfl, rfl⟩, rfl⟩
  queue := ⟨fun _ => ⟨nofun, nofun⟩, .nil⟩
  owner := nofun
  returns := nofun
  oldest := rfl

omit [DecidableEq T] in
theorem headTsc_congr {f g : T → Nat} {l : List T} (h : ∀ u ∈ l, f u = g u) : headTsc f l = headTsc g l := by
  cases l with
  | nil => rfl
  | cons u rest => exact h u mem_cons_self

theorem fits_update {wakeups' : List T} (h : ∀ u, (thread u).Fits (wakeups.count u))
    (hothers : ∀ u, u ≠ t → wakeups'.count u = wakeups.count u) (hw : w.Fits (wakeups'.count t)) :
    ∀ u, (update thread t w u).Fits (wakeups'.count u) := by
  intro u
  by_cases hu : u = t
  · rw [hu, update_self]
    exact hw
  · rw [update_of_ne hu, hothers u hu]
    exact h u

theorem entering_update {owner : Option T}
    (hothers : ∀ u, u ≠ t → (thread u).phase = .entering → owner = some u)
    (hself : w.phase = .entering → owner = some t) :
    ∀ u, (update thread t w u).phase = .entering → owner = some u := by
  intro u hu
  grind

theorem head_update {l : List T} (h : t ∈ l → w.readyTsc = (thread t).readyTsc) :
    headTsc (fun u => (update thread t w u).readyTsc) l =
      headTsc (fun u => (thread u).readyTsc) l := by
  refine headTsc_congr fun u hu => ?_
  by_cases hut : u = t
  · subst hut
    rw [update_self]
    exact h hu
  · rw [update_of_ne hut]

theorem Inv.set {owner : Option T} {returns : List Return} {wakeups' : List T} (h : Inv s)
    (hothers : ∀ u, u ≠ t → wakeups'.count u = s.wakeups.count u) (hw : w.Fits (wakeups'.count t))
    (hwaits : w.waits = (s.thread t).waits)
    (hstamp : (s.thread t).waits = true → w.readyTsc = (s.thread t).readyTsc)
    (howner : ∀ u, u ≠ t → (s.thread u).phase = .entering → owner = some u)
    (hself : w.phase = .entering → owner = some t) (hreturns : ∀ r ∈ returns, r.Right) :
    Inv ({ s with owner, returns, wakeups := wakeups' }.set t w) := by
  refine ⟨fits_update h.fits hothers hw, h.queue.keep hwaits, entering_update howner hself, hreturns, ?_⟩
  · show s.oldestTsc = _
    rw [h.oldest]
    exact (head_update fun hin => hstamp ((h.queue.mem_iff t).1 hin)).symm

theorem Inv.setLocal (h : Inv s) (hw : w.Fits (s.wakeups.count t)) (hwaits : w.waits = (s.thread t).waits)
    (hstamp : (s.thread t).waits = true → w.readyTsc = (s.thread t).readyTsc)
    (hself : w.phase = .entering → s.owner = some t) : Inv (s.set t w) :=
  h.set (fun _ _ => rfl) hw hwaits hstamp (fun u _ => h.owner u) hself h.returns

theorem waits_false (hp : w.phase ≠ .parked) : w.waits = false := decide_eq_false hp

section

variable (h : Inv s)

include h

theorem Inv.mem_waiters : t ∈ s.waiters ↔ (s.thread t).phase = .parked :=
  (h.queue.mem_iff t).trans decide_eq_true_iff

/-! ## The steps -/

theorem Inv.park (hin : (s.thread t).phase = .entering) (hran : (s.thread t).ran = false)
    (tsc : Nat) : Inv (s.park t tsc) := by
  have hnot : t ∉ s.waiters := fun hmem => by
    rw [h.mem_waiters, hin] at hmem
    cases hmem
  refine ⟨fits_update h.fits (fun _ _ => rfl) ((h.fits t).park hin hran tsc),
    h.queue.push (waits_false (by rw [hin]; nofun)) rfl, entering_update (fun u hut hu => ?_) nofun,
    h.returns, ?_⟩
  · have heq := (h.owner u hu).symm.trans (h.owner t hin)
    exact absurd (Option.some.inj heq) hut
  · show (if s.waiters = [] then tsc else s.oldestTsc) = headTsc _ (s.waiters ++ [t])
    cases hw : s.waiters with
    | nil =>
      have hself : ((s.park t tsc).thread t).readyTsc = tsc :=
        congrArg Waiter.readyTsc (update_self t _ s.thread)
      exact hself.symm
    | cons u rest =>
      have hut : u ≠ t := fun heq => hnot (heq ▸ hw ▸ mem_cons_self)
      have hold := h.oldest
      rw [State.head, hw] at hold
      rw [if_neg (cons_ne_nil _ _), hold]
      exact congrArg Waiter.readyTsc (update_of_ne hut ..).symm

theorem Inv.finish {s' : State T} (hin : (s.thread t).phase = .relock)
    (hstep : s.finish t = some s') : Inv s' := by
  obtain ⟨hfree, rfl⟩ := Option.ite_some_none_eq_some.1 hstep
  obtain ⟨hfits, hright⟩ := (h.fits t).finish hin
  have hwaits : (s.thread t).waits = false := waits_false (by rw [hin]; nofun)
  refine h.set (fun _ _ => rfl) hfits (hwaits ▸ rfl) (by rw [hwaits]; nofun) (fun u _ hu => ?_) nofun
    ?_
  · rw [h.owner u hu] at hfree
    cases hfree
  · intro r hr
    split at hr
    · rename_i htimed
      rcases mem_cons.1 hr with rfl | hr
      · rw [decide_eq_true rfl]
        exact hright htimed
      · exact h.returns r hr
    · exact h.returns r hr

theorem Inv.not_timedOut (hin : (s.thread t).phase = .entering) :
    ((s.thread t).timed && (s.thread t).timedOut) = false := by
  obtain ⟨hat, -⟩ := h.fits t
  rw [Waiter.At, hin] at hat
  obtain ⟨-, -, htimed⟩ := hat
  cases ht : (s.thread t).timed with
  | false => rfl
  | true =>
    rw [ht, if_pos rfl] at htimed
    exact htimed.1

theorem Inv.run {s' : State T} {tsc : Nat}
    (hok : (s.thread t).phase = .entering → (s.thread t).ran = false)
    (hstep : s.run t tsc = some s') : Inv s' := by
  rw [State.run] at hstep
  dsimp only at hstep
  cases hp : (s.thread t).phase with
  | out | parked | popped => rw [hp] at hstep; cases hstep
  | entering =>
    rw [hp] at hstep
    dsimp only at hstep
    rw [h.not_timedOut hp] at hstep
    cases hstep
    exact h.park hp (hok hp) tsc
  | relock =>
    rw [hp] at hstep
    exact h.finish hp hstep
  | ready =>
    rw [hp] at hstep
    dsimp only at hstep
    have hwaits : (s.thread t).waits = false := waits_false (by rw [hp]; nofun)
    split at hstep
    · rw [State.timerCancel] at hstep
      have hrelock := h.setLocal ((h.fits t).cancel hp) (hwaits ▸ rfl) (by rw [hwaits]; nofun) nofun
      split at hstep
      · cases hstep
        exact hrelock
      · cases hstep
        exact hrelock
      all_goals cases hstep
    · rename_i hskip
      cases hstep
      refine h.setLocal ((h.fits t).skipCancel hp ?_) (hwaits ▸ rfl) (by rw [hwaits]; nofun) nofun
      cases ht : (s.thread t).timed with
      | false => exact .inl rfl
      | true =>
        rw [ht] at hskip
        exact .inr (by simpa using hskip)

theorem Inv.signal : Inv (condvarSignal s) := by
  rw [condvarSignal]
  cases hw : s.waiters with
  | nil =>
    have hqueue := h.queue
    rw [hw] at hqueue
    exact ⟨h.fits, hqueue, h.owner, h.returns, rfl⟩
  | cons u rest =>
    have hparked : (s.thread u).phase = .parked := h.mem_waiters.1 (hw ▸ mem_cons_self)
    have hqueue := h.queue
    rw [hw] at hqueue
    refine ⟨fits_update h.fits (fun v hv => ?_) ?_, hqueue.pop rfl,
      entering_update (fun v _ => h.owner v) nofun, h.returns, rfl⟩
    · show (s.wakeups ++ [u]).count v = s.wakeups.count v
      rw [count_append, count_singleton, if_neg (by simpa using hv.symm)]
      rfl
    · show Waiter.Fits _ ((s.wakeups ++ [u]).count u)
      rw [count_append, count_singleton_self]
      exact (h.fits u).signalled hparked

theorem Inv.broadcast : Inv (condvarBroadcast s) := by
  have hat : ∀ u, (condvarBroadcast s).thread u =
      if u ∈ s.waiters then (s.thread u).pop .signal else s.thread u := fun _ => rfl
  refine ⟨fun u => ?_, ⟨fun u => ?_, .nil⟩, fun u hu => ?_, h.returns, rfl⟩
  · show Waiter.Fits _ ((s.wakeups ++ s.waiters).count u)
    rw [hat u, count_append]
    split
    · rename_i hin
      rw [count_eq_one_of_mem h.queue.nodup hin]
      exact (h.fits u).signalled (h.mem_waiters.1 hin)
    · rename_i hin
      rw [count_eq_zero_of_not_mem hin]
      exact h.fits u
  · rw [hat u]
    split
    · exact ⟨nofun, nofun⟩
    · rename_i hin
      rw [← h.queue.mem_iff u]
      exact ⟨nofun, fun hmem => absurd hmem hin⟩
  · rw [hat u] at hu
    split at hu
    · cases hu
    · exact h.owner u hu

theorem Inv.wake (hin : t ∈ s.wakeups) (tsc : Nat) :
    Inv ({ s with wakeups := s.wakeups.erase t }.set t ((s.thread t).wake tsc)) := by
  have hcount : s.wakeups.count t = (s.wakeups.erase t).count t + 1 := by
    rw [count_erase_self]
    exact (Nat.sub_add_cancel (count_pos_iff.2 hin)).symm
  have hfits := h.fits t
  rw [hcount] at hfits
  obtain ⟨hpopped, hwoken⟩ := hfits.signalWake tsc
  have hwaits : (s.thread t).waits = false := waits_false (by rw [hpopped]; nofun)
  have hready : ((s.thread t).wake tsc).phase = .ready := if_pos (.inl hpopped)
  refine h.set (fun u hu => count_erase_of_ne hu) hwoken ?_ (by rw [hwaits]; nofun) (fun u _ => h.owner u) ?_
    h.returns
  · rw [hwaits]
    exact waits_false (by rw [hready]; nofun)
  · rw [hready]
    nofun

theorem Inv.timeout (hfiring : (s.thread t).timer = .firing) : Inv (condvarTimeout s t) := by
  rw [condvarTimeout]
  dsimp only
  split
  · rename_i hin
    have hfits := (h.fits t).timeout (h.mem_waiters.1 hin)
    exact ⟨fits_update h.fits (fun _ _ => rfl) hfits, h.queue.erase rfl,
      entering_update (fun u _ => h.owner u) nofun, h.returns, rfl⟩
  · rename_i hin
    have hphase : (s.thread t).phase ≠ .parked := fun hp => hin (h.mem_waiters.2 hp)
    obtain ⟨hfits, hqueue, howner, hreturns, -⟩ :=
      h.setLocal ((h.fits t).miss hphase hfiring) rfl (fun _ => rfl) (h.owner t)
    exact ⟨hfits, hqueue, howner, hreturns, rfl⟩

theorem Inv.step {s' : State T} {e : Event T} (hok : queuesInTime s e)
    (hstep : Condvar.step s e = some s') : Inv s' := by
  cases e with
  | lock t =>
    obtain ⟨htest, rfl⟩ := Option.ite_some_none_eq_some.1 hstep
    refine ⟨h.fits, h.queue, fun u hu => ?_, h.returns, h.oldest⟩
    rw [h.owner u hu] at htest
    cases htest.2
  | unlock t =>
    obtain ⟨htest, rfl⟩ := Option.ite_some_none_eq_some.1 hstep
    refine ⟨h.fits, h.queue, fun u hu => ?_, h.returns, h.oldest⟩
    obtain rfl : u = t := Option.some.inj ((h.owner u hu).symm.trans htest.2)
    exact absurd (htest.1.symm.trans hu) nofun
  | wait t =>
    obtain ⟨htest, rfl⟩ := Option.ite_some_none_eq_some.1 hstep
    have hwaits : (s.thread t).waits = false := waits_false (by rw [htest.1]; nofun)
    exact h.setLocal ((h.fits t).call htest.1).1 (by rw [hwaits]; rfl) (by rw [hwaits]; nofun)
      fun _ => htest.2
  | waitTimed t =>
    obtain ⟨htest, rfl⟩ := Option.ite_some_none_eq_some.1 hstep
    have hwaits : (s.thread t).waits = false := waits_false (by rw [htest.1]; nofun)
    exact h.setLocal ((h.fits t).call htest.1).2 (by rw [hwaits]; rfl) (by rw [hwaits]; nofun)
      fun _ => htest.2
  | run t tsc => exact h.run hok hstep
  | signal =>
    cases hstep
    exact h.signal
  | broadcast =>
    cases hstep
    exact h.broadcast
  | wake t tsc =>
    obtain ⟨hin, rfl⟩ := Option.ite_some_none_eq_some.1 hstep
    exact h.wake hin tsc
  | fire t =>
    obtain ⟨harmed, rfl⟩ := Option.ite_some_none_eq_some.1 hstep
    exact h.setLocal ((h.fits t).fire harmed) rfl (fun _ => rfl) (h.owner t)
  | handler t =>
    obtain ⟨hfiring, rfl⟩ := Option.ite_some_none_eq_some.1 hstep
    exact h.timeout hfiring
  | handlerEnd t tsc =>
    rw [Condvar.step] at hstep
    split at hstep
    · rename_i hmissed
      cases hstep
      exact h.setLocal ((h.fits t).missed hmissed) rfl (fun _ => rfl) (h.owner t)
    · rename_i hwaking
      cases hstep
      obtain ⟨hpopped, hwoken⟩ := (h.fits t).timeoutWake hwaking tsc
      have hwaits : (s.thread t).waits = false := waits_false (by rw [hpopped]; nofun)
      have hready : ((s.thread t).wake tsc).phase = .ready := if_pos (.inl hpopped)
      refine h.setLocal hwoken ?_ (by rw [hwaits]; nofun) ?_
      · rw [hwaits]
        exact waits_false (by dsimp only; rw [hready]; nofun)
      · dsimp only
        rw [hready]
        nofun
    all_goals cases hstep

theorem Inv.ends : Ends s where
  timeout := by
    intro t hran hin
    obtain ⟨hat, -⟩ := h.fits t
    rw [Waiter.At, h.mem_waiters.1 hin] at hat
    rw [hat.2.1] at hran
    cases hran
  once t := (h.fits t).2
  returns := h.returns

/-- A thread that queues after its handler has run stands in the list. -/
theorem queuesInTime_of_ends {s' : State T} {e : Event T}
    (hstep : Condvar.step s e = some s') (h' : Ends s') : queuesInTime s e := by
  cases e with
  | run t tsc =>
    intro hp
    rw [Condvar.step, State.run] at hstep
    dsimp only at hstep
    rw [hp] at hstep
    dsimp only at hstep
    rw [h.not_timedOut hp] at hstep
    cases hstep
    refine Bool.eq_false_iff.2 fun hran => h'.timeout t ?_ ?_
    · exact (congrArg Waiter.ran (update_self t _ s.thread)).trans hran
    · exact mem_append_right _ (mem_singleton_self t)
  | _ => trivial

end

/-- If no thread queues after its handler has run, a thread is made ready once for each park, and
timed waits return with the mutex and false exactly on a timeout; a further step keeps this
exactly if it meets the condition. -/
theorem timed_wait_ends_iff (readyTsc : T → Nat) {s : State T}
    (hreach : Reaches Condvar.step queuesInTime (init readyTsc) s) :
    Ends s ∧ ∀ e s', Condvar.step s e = some s' → (Ends s' ↔ queuesInTime s e) := by
  have h : Inv s :=
    hreach.invariant (P := Inv) (inv_init readyTsc) fun _ _ _ hu hok hst => hu.step hok hst
  exact ⟨h.ends, fun e s' hst => ⟨queuesInTime_of_ends h hst, fun hok => (h.step hok hst).ends⟩⟩

end Model

/-! ## A timeout, and a timeout that is lost -/

theorem timed_wait_ends_timeout : ∃ s : State Nat, Reaches step queuesInTime (init fun _ => 0) s ∧
      s.returns = [⟨false, some .timeout, true⟩] ∧ s.owner = some 1 ∧ Ends s := by
  obtain ⟨s, hreach, hreturns, howner⟩ : ∃ s, Reaches step queuesInTime (init fun _ => 0) s ∧
      s.returns = [⟨false, some .timeout, true⟩] ∧ s.owner = some 1 :=
    exists_of_runChecked [.lock 1, .waitTimed 1, .run 1 5, .fire 1, .handler 1, .signal, .handlerEnd 1 9, .run 1 10,
        .run 1 11] (by decide)
  exact ⟨s, hreach, hreturns, howner, (timed_wait_ends_iff _ hreach).1⟩

/-- The timer expires between `timer_start` and the queueing section.  The handler does not find
its thread and leaves no trace, and the thread parks with no timer left. -/
theorem early_timeout_lost : ∃ s : State Nat, Reaches step anyStep (init fun _ => 0) s ∧
      s.waiters = [1] ∧ (s.thread 1).ran = true ∧ (s.thread 1).timer = .off ∧ s.wakeups = [] := by
  exact exists_of_runActions [.lock 1, .waitTimed 1, .fire 1, .handler 1, .handlerEnd 1 4, .run 1 5] (by decide)

end Svalinn.Runtime.Condvar
