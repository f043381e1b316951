/-
  Runtime/QueueDelay.lean --- what the runtime adds to the queueing delay of a uthread.

  Source: `runtime/sched.c` (`jmp_thread`, `jmp_thread_direct`, `schedule`, `enter_schedule`,
  `thread_ready_prepare`, `thread_finish_cede`, `thread_yield`, `thread_preempt_yield`,
  `__thread_create`, `thread_finish_exit`, `set_acc_qdel`), `runtime/sync.c` (`__mutex_lock`,
  `__mutex_unlock`, the condition variables) and `Wait` and `Post` of the memory semaphores.

  A uthread is in one place at a time: in a run queue, among the waiters of an object, on a
  kthread, or in the hands of the one that dequeued it.  The orders of the queues are left
  open, so a step may take any uthread out of the queue it is in; which thread executes a
  wake-up is left open as well.  The clock advances in a step of its own, and `rdtsc` reads
  the clock of the state: two readings differ by the time the run lets pass between them.

  Beside the fields of the source, a uthread carries how long it has been in run queues and
  how long among waiters since its last reset.  Only the passing of time adds to these.
-/
import Svalinn.Lib.Machine
import Svalinn.Lib.Transition

set_option autoImplicit false

namespace Svalinn.Runtime.QueueDelay

open Svalinn.Lib Function Option

/-! ## The model -/

inductive WaitObject (O : Type) where
  | mutex (o : O)
  | condvar (o : O)
  | memSemaphore (o : O)
  deriving DecidableEq

inductive Place (K O : Type) where
  | free
  | created
  | running (k : K)
  | waiting (o : WaitObject O)
  | taken (o : WaitObject O)
  | woken
  | parked
  | queued (k : K)
  | popped (k : K)
  deriving DecidableEq

/-- `thread_t`, with its `WaiterThread` at a memory semaphore. -/
structure Thread (K O : Type) where
  place : Place K O
  threadReady : Bool
  threadRunning : Bool
  enqueTs : Nat
  enqueTsc : Nat
  accQdel : Nat
  /-- what the last reset set `acc_qdel` to -/
  base : Nat
  inRunq : Nat
  inWaiters : Nat

inductive KPhase (T : Type) where
  | thread (th : T)
  /-- in `enter_schedule`, called by a uthread -/
  | switching (curth : T)
  /-- in `schedule`, on the runtime stack -/
  | scheduling
  /-- has popped `th`, from the uthread `old` or from the runtime stack -/
  | jumping (old : Option T) (th : T)
  deriving DecidableEq

/-- `thread_self` in a uthread. -/
def KPhase.self {T : Type} : KPhase T → Option T
  | .thread th => some th
  | _ => none

/-- The uthread whose stack the next switch leaves, where one is about to happen. -/
def KPhase.caller {T : Type} : KPhase T → Option (Option T)
  | .switching curth => some (some curth)
  | .scheduling => some none
  | _ => none

structure State (K T O : Type) where
  clock : Nat
  threads : T → Thread K O
  ks : K → KPhase T

inductive Event (K T O : Type) where
  /-- the clock advances to `t` -/
  | tick (t : Nat)
  /-- `__thread_create` -/
  | create (th : T)
  /-- `thread_ready` and its variants, onto the queue of `k` -/
  | ready (k : K) (th : T)
  /-- `steal_work`: `k` takes `th` from the queue of `r` -/
  | steal (k r : K) (th : T)
  /-- `schedule` or `enter_schedule` pops the next uthread -/
  | pop (k : K) (th : T)
  /-- `jmp_thread` or `jmp_thread_direct` -/
  | jump (k : K)
  /-- `enter_schedule` returns to its caller, which it has popped -/
  | resume (k : K)
  /-- `enter_schedule` goes on in `schedule` -/
  | schedule (k : K)
  /-- `thread_yield` or `thread_preempt_yield`, up to `enter_schedule` -/
  | yield (k : K)
  /-- `thread_finish_cede`, up to `schedule` -/
  | cede (k : K)
  /-- the uthread on `k` parks without an account of its delay -/
  | park (k : K)
  /-- the uthread on `k` joins the waiters of `o` and parks -/
  | wait (k : K) (o : WaitObject O)
  /-- `list_pop` or `list_del_from` on the waiters of an object -/
  | take (th : T)
  | charge (th : T)
  /-- `thread_finish_exit` -/
  | exit (k : K)
  /-- `set_acc_qdel` -/
  | setAccQdel (k : K) (del : Nat)

section Fields

variable {K T O : Type}

def Place.inRunq : Place K O → Bool
  | .queued _ | .popped _ => true
  | _ => false

def Place.inWaiters : Place K O → Bool
  | .waiting _ | .taken _ => true
  | _ => false

def Place.delayed (p : Place K O) : Bool :=
  p.inRunq || p.inWaiters

/-- `thread_ready` can be called: the uthread is parked. -/
def Place.sleeping : Place K O → Bool
  | .created | .woken | .parked => true
  | _ => false

/-- A time of `d` passes. -/
def Thread.pass (x : Thread K O) (d : Nat) : Thread K O :=
  { x with
    inRunq := if x.place.inRunq then x.inRunq + d else x.inRunq
    inWaiters := if x.place.inWaiters then x.inWaiters + d else x.inWaiters }

/-- `acc_qdel + (rdtsc() - since)`. -/
def Thread.addQdel (x : Thread K O) (now since : Nat) : Nat :=
  add64 x.accQdel (sub64 now since)

/-- The fields that `__thread_create` sets. -/
def Thread.create (x : Thread K O) : Thread K O :=
  { x with
    place := .created, threadReady := false, threadRunning := false, enqueTs := 0, accQdel := 0
    base := 0, inRunq := 0, inWaiters := 0 }

/-- `thread_ready_prepare`, then onto the queue of `k`. -/
def Thread.readyPrepare (x : Thread K O) (k : K) (now : Nat) : Option (Thread K O) :=
  -- BUG_ON(th->thread_ready)
  if x.threadReady then none
  else some { x with threadReady := true, enqueTs := now, place := .queued k }

/-- The stamp a uthread leaves when it joins the waiters of `o`: `__mutex_lock` and
`condvar_wait` write `enque_ts`, a memory semaphore writes the waiter's own `enque_tsc`. -/
def Thread.enqueue (x : Thread K O) (o : WaitObject O) (now : Nat) : Thread K O :=
  match o with
  | .mutex _ | .condvar _ => { x with enqueTs := now, place := .waiting o }
  | .memSemaphore _ => { x with enqueTsc := now, place := .waiting o }

def Thread.charge (x : Thread K O) (o : WaitObject O) (now : Nat) : Thread K O :=
  match o with
  | .mutex _ | .condvar _ => { x with place := .woken, accQdel := x.addQdel now x.enqueTs }
  | .memSemaphore _ => { x with place := .woken, accQdel := x.addQdel now x.enqueTsc }

/-- The fields that a switch to `x` on `k` sets. -/
def Thread.jump (x : Thread K O) (k : K) (now : Nat) : Thread K O :=
  { x with
    place := .running k, threadReady := false, threadRunning := true
    accQdel := x.addQdel now x.enqueTs }

def Thread.setAccQdel (x : Thread K O) (del : Nat) : Thread K O :=
  { x with accQdel := del, base := del, inRunq := 0, inWaiters := 0 }

end Fields

variable {K T O : Type} [DecidableEq K] [DecidableEq T] [DecidableEq O]

def State.setThread (s : State K T O) (th : T) (x : Thread K O) : State K T O :=
  { s with threads := update s.threads th x }

def State.setPhase (s : State K T O) (k : K) (p : KPhase T) : State K T O :=
  { s with ks := update s.ks k p }

/-- `thread_running` is cleared once the stack of the old uthread is no longer in use. -/
def State.leaveStack (s : State K T O) : Option T → State K T O
  | some th => s.setThread th { s.threads th with threadRunning := false }
  | none => s

def step (s : State K T O) : Event K T O → Option (State K T O)
  | .tick t =>
    if s.clock ≤ t ∧ t < 2 ^ 64 then
      some { s with clock := t, threads := fun th => (s.threads th).pass (t - s.clock) }
    else none
  | .create th =>
    if (s.threads th).place = .free then some (s.setThread th (s.threads th).create) else none
  | .ready k th =>
    if (s.threads th).place.sleeping then
      ((s.threads th).readyPrepare k s.clock).map (s.setThread th)
    else none
  | .steal k r th =>
    if (s.threads th).place = .queued r then
      some (s.setThread th { s.threads th with place := .queued k })
    else none
  | .pop k th =>
    if (s.threads th).place = .queued k then
      (s.ks k).caller.map fun old =>
        (s.setThread th { s.threads th with place := .popped k }).setPhase k (.jumping old th)
    else none
  | .jump k =>
    match s.ks k with
    | .jumping old th =>
      -- a switch to the calling uthread does not get here, and it waits for the stack
      if old ≠ some th ∧ (s.threads th).threadRunning = false then
        some (((s.setThread th ((s.threads th).jump k s.clock)).leaveStack old).setPhase k
          (.thread th))
      else none
    | _ => none
  | .resume k =>
    match s.ks k with
    | .jumping old th =>
      if old = some th then
        some ((s.setThread th
          { s.threads th with threadReady := false, place := .running k }).setPhase k
          (.thread th))
      else none
    | _ => none
  | .schedule k =>
    match s.ks k with
    | .switching curth => some ((s.leaveStack (some curth)).setPhase k .scheduling)
    | _ => none
  | .yield k =>
    (s.ks k).self.bind fun th =>
      ({ s.threads th with threadReady := false }.readyPrepare k s.clock).map fun x =>
        (s.setThread th x).setPhase k (.switching th)
  | .cede k =>
    (s.ks k).self.bind fun th =>
      ({ s.threads th with threadRunning := false }.readyPrepare k s.clock).map fun x =>
        (s.setThread th x).setPhase k .scheduling
  | .park k =>
    (s.ks k).self.map fun th =>
      (s.setThread th { s.threads th with place := .parked }).setPhase k (.switching th)
  | .wait k o =>
    (s.ks k).self.map fun th =>
      (s.setThread th ((s.threads th).enqueue o s.clock)).setPhase k (.switching th)
  | .take th =>
    match (s.threads th).place with
    | .waiting o => some (s.setThread th { s.threads th with place := .taken o })
    | _ => none
  | .charge th =>
    match (s.threads th).place with
    | .taken o => some (s.setThread th ((s.threads th).charge o s.clock))
    | _ => none
  | .exit k =>
    (s.ks k).self.map fun th =>
      (s.setThread th { s.threads th with place := .free }).setPhase k .scheduling
  | .setAccQdel k del =>
    (s.ks k).self.bind fun th =>
      if del < 2 ^ 64 then some (s.setThread th ((s.threads th).setAccQdel del)) else none

def init : State K T O :=
  { clock := 0
    threads := fun _ =>
      { place := .free, threadReady := false, threadRunning := false, enqueTs := 0, enqueTsc := 0
        accQdel := 0, base := 0, inRunq := 0, inWaiters := 0 }
    ks := fun _ => .scheduling }

/-! ## The account of a uthread -/

section Account

/-- The clock reading that the charge at the end of the present delay starts from. -/
def Thread.stamp (x : Thread K O) : Nat :=
  match x.place with
  | .waiting (.memSemaphore _) | .taken (.memSemaphore _) => x.enqueTsc
  | _ => x.enqueTs

def Thread.uncharged (x : Thread K O) (now : Nat) : Nat :=
  if x.place.delayed then now - x.stamp else 0

/-- `acc_qdel` and the part not charged yet make up the time in queues since the reset. -/
structure Booked (now : Nat) (x : Thread K O) : Prop where
  base_lt : x.base < 2 ^ 64
  total_le : x.inRunq + x.inWaiters ≤ now
  stamp_le : x.place.delayed = true → x.stamp ≤ now
  acc : add64 x.accQdel (x.uncharged now) = add64 x.base (x.inRunq + x.inWaiters)

variable {now : Nat} {x y : Thread K O}

omit [DecidableEq K] [DecidableEq O] in
theorem uncharged_of_not_delayed (h : x.place.delayed = false) : x.uncharged now = 0 := by
  simp [Thread.uncharged, h]

omit [DecidableEq K] [DecidableEq O] in
theorem uncharged_of_delayed (h : x.place.delayed = true) : x.uncharged now = now - x.stamp := by
  simp [Thread.uncharged, h]

/-- `x` and `y` have been reset and delayed alike. -/
def SameMeters (x y : Thread K O) : Prop :=
  y.base = x.base ∧ y.inRunq = x.inRunq ∧ y.inWaiters = x.inWaiters

omit [DecidableEq K] [DecidableEq O] in
theorem Booked.keep (h : Booked now x) (hm : SameMeters x y)
    (hstamp : y.place.delayed = true → y.stamp ≤ now)
    (hacc : add64 y.accQdel (y.uncharged now) = add64 x.accQdel (x.uncharged now)) :
    Booked now y := by
  obtain ⟨hbase, hrun, hwait⟩ := hm
  refine ⟨hbase ▸ h.base_lt, ?_, hstamp, ?_⟩
  · rw [hrun, hwait]
    exact h.total_le
  · rw [hacc, hbase, hrun, hwait]
    exact h.acc

omit [DecidableEq K] [DecidableEq O] in
theorem Booked.outside (h : Booked now x) (hm : SameMeters x y) (hx : x.place.delayed = false)
    (hy : y.place.delayed = false) (hacc : y.accQdel = x.accQdel) : Booked now y := by
  refine h.keep hm (fun hd => absurd hd (by rw [hy]; decide)) ?_
  rw [uncharged_of_not_delayed hx, uncharged_of_not_delayed hy, hacc]

omit [DecidableEq K] [DecidableEq O] in
theorem Booked.begin (h : Booked now x) (hm : SameMeters x y) (hx : x.place.delayed = false)
    (hy : y.place.delayed = true) (hstamp : y.stamp = now) (hacc : y.accQdel = x.accQdel) :
    Booked now y := by
  refine h.keep hm (fun _ => hstamp.le) ?_
  rw [uncharged_of_not_delayed hx, uncharged_of_delayed hy, hacc, hstamp, Nat.sub_self]

omit [DecidableEq K] [DecidableEq O] in
theorem Booked.inside (h : Booked now x) (hm : SameMeters x y) (hx : x.place.delayed = true)
    (hy : y.place.delayed = true) (hstamp : y.stamp = x.stamp) (hacc : y.accQdel = x.accQdel) :
    Booked now y := by
  refine h.keep hm (fun _ => hstamp ▸ h.stamp_le hx) ?_
  rw [uncharged_of_delayed hx, uncharged_of_delayed hy, hacc, hstamp]

omit [DecidableEq K] [DecidableEq O] in
theorem Booked.finish (h : Booked now x) (hm : SameMeters x y) (hx : x.place.delayed = true)
    (hy : y.place.delayed = false)
    (hacc : y.accQdel = x.addQdel now x.stamp) : Booked now y := by
  have hstamp := h.stamp_le hx
  refine h.keep hm (fun hd => absurd hd (by rw [hy]; decide)) ?_
  rw [uncharged_of_delayed hx, uncharged_of_not_delayed hy, hacc]
  unfold Thread.addQdel add64 sub64
  omega

omit [DecidableEq K] [DecidableEq O] in
theorem Booked.reset {del : Nat} (hdel : del < 2 ^ 64) (hy : y.place.delayed = false)
    (hacc : y.accQdel = del) (hbase : y.base = del) (hrun : y.inRunq = 0)
    (hwait : y.inWaiters = 0) : Booked now y := by
  refine ⟨hbase ▸ hdel, ?_, fun hd => absurd hd (by rw [hy]; decide), ?_⟩
  · rw [hrun, hwait]
    exact Nat.zero_le _
  · rw [uncharged_of_not_delayed hy, hacc, hbase, hrun, hwait]

omit [DecidableEq K] [DecidableEq O] in
theorem pass_total (d : Nat) : (x.pass d).inRunq + (x.pass d).inWaiters =
      x.inRunq + x.inWaiters + if x.place.delayed then d else 0 := by
  unfold Thread.pass Place.delayed
  cases x.place <;> simp [Place.inRunq, Place.inWaiters] <;> omega

omit [DecidableEq K] [DecidableEq O] in
theorem Booked.pass {t : Nat} (h : Booked now x) (ht : now ≤ t) : Booked t (x.pass (t - now)) := by
  have htotal := h.total_le
  have hacc := h.acc
  have hpass := pass_total (x := x) (t - now)
  have hplace : (x.pass (t - now)).place = x.place := rfl
  have hstamp : (x.pass (t - now)).stamp = x.stamp := rfl
  have hqdel : (x.pass (t - now)).accQdel = x.accQdel := rfl
  have hbase : (x.pass (t - now)).base = x.base := rfl
  cases hd : x.place.delayed with
  | true =>
    have hle := h.stamp_le hd
    rw [hd, if_pos rfl] at hpass
    rw [uncharged_of_delayed hd] at hacc
    refine ⟨h.base_lt, by omega, fun _ => hstamp ▸ hle.trans ht, ?_⟩
    rw [uncharged_of_delayed (hplace ▸ hd), hpass, hstamp, hqdel, hbase]
    unfold add64 at hacc ⊢
    omega
  | false =>
    rw [hd, if_neg (by decide), Nat.add_zero] at hpass
    rw [uncharged_of_not_delayed hd] at hacc
    refine ⟨h.base_lt, by omega, fun hd' => absurd hd' (by rw [hplace, hd]; decide), ?_⟩
    rw [uncharged_of_not_delayed (hplace ▸ hd), hpass, hqdel, hbase]
    exact hacc

/-- What is added to `acc_qdel` since the reset is the time in queues. -/
def Thread.Exact (x : Thread K O) : Prop :=
  sub64 x.accQdel x.base = x.inRunq + x.inWaiters

omit [DecidableEq K] [DecidableEq O] in
/-- A uthread out of the queues has its whole delay added exactly when nothing was left
uncharged on the way. -/
theorem Booked.exact_iff (h : Booked now x) (hnow : now < 2 ^ 64) (hm : SameMeters x y)
    (hacc : y.accQdel = x.accQdel) : y.Exact ↔ x.uncharged now = 0 := by
  obtain ⟨hbase, hrun, hwait⟩ := hm
  have hlt := h.base_lt
  have htotal := h.total_le
  have hx := h.acc
  have hle : x.uncharged now ≤ now := by
    unfold Thread.uncharged
    split <;> omega
  unfold Thread.Exact
  rw [hacc, hbase, hrun, hwait]
  unfold add64 at hx
  unfold sub64
  omega

end Account

/-! ## One step -/

section Steps

/-- The uthread a kthread has on it or in its hands, and the place this puts it in. -/
def KPhase.claim (k : K) : KPhase T → Option (T × Place K O)
  | .thread th => some (th, .running k)
  | .jumping _ th => some (th, .popped k)
  | _ => none

def Place.owner : Place K O → Option K
  | .running k | .popped k => some k
  | _ => none

structure Inv (s : State K T O) : Prop where
  clock_lt : s.clock < 2 ^ 64
  placed : ∀ k th p, (s.ks k).claim k = some (th, p) → (s.threads th).place = p
  booked : ∀ th, Booked s.clock (s.threads th)

variable {s s' : State K T O} {k : K} {th : T} {x : Thread K O}

omit [DecidableEq K] [DecidableEq T] [DecidableEq O] in
theorem owner_of_claim {p : KPhase T} {q : Place K O} (h : p.claim k = some (th, q)) :
    q.owner = some k := by
  cases p <;> simp [KPhase.claim] at h <;> obtain ⟨-, rfl⟩ := h <;> rfl

omit [DecidableEq K] [DecidableEq O] in
theorem Inv.booked_setThread (h : Inv s) (hx : Booked s.clock x) (u : T) :
    Booked s.clock ((s.setThread th x).threads u) := by
  by_cases hu : u = th
  · subst hu
    simpa only [State.setThread, update_self] using hx
  · simpa only [State.setThread, update_of_ne hu] using h.booked u

omit [DecidableEq K] [DecidableEq O] in
theorem Inv.setThread (h : Inv s) (hx : Booked s.clock x)
    (hplace : (s.threads th).place.owner = none ∨ x.place = (s.threads th).place) :
    Inv (s.setThread th x) := by
  refine ⟨h.clock_lt, ?_, h.booked_setThread hx⟩
  intro k u q hclaim
  have hu := h.placed k u q hclaim
  by_cases hut : u = th
  · subst hut
    simp only [State.setThread, update_self]
    rcases hplace with hnone | hsame
    · rw [hu, owner_of_claim hclaim] at hnone
      exact absurd hnone nofun
    · rw [hsame, hu]
  · simpa only [State.setThread, update_of_ne hut] using hu

omit [DecidableEq O] in
theorem Inv.switch {p : KPhase T} (h : Inv s) (hx : Booked s.clock x)
    (howner : ∀ r, (s.threads th).place.owner = some r → r = k)
    (hclaim : ∀ u q, p.claim k = some (u, q) → u = th ∧ x.place = q) :
    Inv ((s.setThread th x).setPhase k p) := by
  refine ⟨h.clock_lt, ?_, h.booked_setThread hx⟩
  intro r u q hr
  by_cases hrk : r = k
  · subst hrk
    simp only [State.setPhase, update_self] at hr
    obtain ⟨rfl, hplace⟩ := hclaim u q hr
    simpa only [State.setPhase, State.setThread, update_self] using hplace
  · simp only [State.setPhase, update_of_ne hrk] at hr
    have hu := h.placed r u q hr
    have hut : u ≠ th := by
      rintro rfl
      exact hrk (howner r (by rw [hu, owner_of_claim hr]))
    simpa only [State.setPhase, State.setThread, update_of_ne hut] using hu

omit [DecidableEq T] [DecidableEq O] in
theorem Inv.setPhase {p : KPhase T} (h : Inv s) (hp : p.claim (O := O) k = none) :
    Inv (s.setPhase k p) := by
  refine ⟨h.clock_lt, ?_, h.booked⟩
  intro r u q hr
  by_cases hrk : r = k
  · subst hrk
    simp only [State.setPhase, update_self, hp] at hr
    exact absurd hr nofun
  · simp only [State.setPhase, update_of_ne hrk] at hr
    exact h.placed r u q hr

omit [DecidableEq K] [DecidableEq O] in
theorem Booked.flags {now : Nat} (h : Booked now x) (ready running : Bool) :
    Booked now { x with threadReady := ready, threadRunning := running } :=
  ⟨h.base_lt, h.total_le, h.stamp_le, h.acc⟩

omit [DecidableEq K] [DecidableEq O] in
theorem Inv.leaveStack (h : Inv s) (old : Option T) : Inv (s.leaveStack old) := by
  cases old with
  | none => exact h
  | some curth => exact h.setThread ((h.booked curth).flags _ false) (.inr rfl)

omit [DecidableEq K] [DecidableEq O] in
theorem readyPrepare_eq_some {now : Nat} {y : Thread K O} (h : x.readyPrepare k now = some y) :
    y = { x with threadReady := true, enqueTs := now, place := .queued k } := by
  unfold Thread.readyPrepare at h
  split at h
  · exact absurd h nofun
  · exact (some.inj h).symm

omit [DecidableEq K] [DecidableEq O] in
theorem Booked.ready {now : Nat} {y : Thread K O} (h : Booked now x) (hx : x.place.delayed = false)
    (hy : x.readyPrepare k now = some y) : Booked now y := by
  rw [readyPrepare_eq_some hy]
  exact h.begin ⟨rfl, rfl, rfl⟩ hx rfl rfl rfl

omit [DecidableEq K] [DecidableEq O] in
theorem Booked.enqueue {now : Nat} (h : Booked now x) (hx : x.place.delayed = false)
    (o : WaitObject O) : Booked now (x.enqueue o now) := by
  cases o <;> exact h.begin ⟨rfl, rfl, rfl⟩ hx rfl rfl rfl

omit [DecidableEq K] [DecidableEq O] in
theorem Booked.charge {now : Nat} {o : WaitObject O} (h : Booked now x) (hx : x.place = .taken o) :
    Booked now (x.charge o now) := by
  have hd : x.place.delayed = true := by rw [hx]; rfl
  have hacc : (x.charge o now).accQdel = x.addQdel now x.stamp := by
    cases o <;> simp only [Thread.charge, Thread.stamp, hx]
  cases o <;> exact h.finish ⟨rfl, rfl, rfl⟩ hd rfl hacc

omit [DecidableEq K] [DecidableEq O] in
theorem stamp_of_inRunq (h : x.place.inRunq = true) : x.stamp = x.enqueTs := by
  unfold Thread.stamp
  cases hp : x.place <;> simp [hp, Place.inRunq] at h <;> rfl

omit [DecidableEq K] [DecidableEq O] in
theorem Booked.moveRunq {now : Nat} {p : Place K O} (h : Booked now x)
    (hx : x.place.inRunq = true) (hp : p.inRunq = true) : Booked now { x with place := p } := by
  have hstamp : ({ x with place := p } : Thread K O).stamp = x.enqueTs := stamp_of_inRunq hp
  refine h.inside ⟨rfl, rfl, rfl⟩ (by simp [Place.delayed, hx]) (by simp [Place.delayed, hp]) ?_ rfl
  rw [hstamp, stamp_of_inRunq hx]

omit [DecidableEq K] [DecidableEq O] in
theorem delayed_of_sleeping {p : Place K O} (h : p.sleeping = true) :
    p.delayed = false ∧ p.owner = none := by
  cases p <;> simp [Place.sleeping] at h <;> exact ⟨rfl, rfl⟩

omit [DecidableEq T] [DecidableEq K] [DecidableEq O] in
theorem Inv.tick {t : Nat} (h : Inv s) (ht : s.clock ≤ t) (hlt : t < 2 ^ 64) :
    Inv { s with clock := t, threads := fun th => (s.threads th).pass (t - s.clock) } :=
  ⟨hlt, h.placed, fun th => (h.booked th).pass ht⟩

/-- `enter_schedule` comes back to its caller in the instant the caller was made ready. -/
def ResumesAtOnce (s : State K T O) : Event K T O → Prop
  | .resume k => ∀ old th, s.ks k = .jumping old th → (s.threads th).enqueTs = s.clock
  | _ => True

theorem step_resume (h : step s (.resume k) = some s') : ∃ th, s.ks k = .jumping (some th) th ∧
      s' = (s.setThread th { s.threads th with
        threadReady := false, place := .running k }).setPhase k (.thread th) := by
  simp only [step] at h
  split at h
  · rename_i old th hk
    obtain ⟨hold, h⟩ := ite_none_right_eq_some.1 h
    exact ⟨th, hold ▸ hk, (some.inj h).symm⟩
  · exact absurd h nofun

omit [DecidableEq K] [DecidableEq T] [DecidableEq O] in
theorem Inv.on_kthread (h : Inv s) (hk : (s.ks k).self = some th) :
    (s.threads th).place.delayed = false ∧ ∀ r, (s.threads th).place.owner = some r → r = k := by
  have hclaim : (s.ks k).claim k = some (th, Place.running (O := O) k) := by
    cases hp : s.ks k <;> rw [hp] at hk <;> cases hk
    rfl
  rw [h.placed k th _ hclaim]
  exact ⟨rfl, fun r hr => (some.inj hr).symm⟩

omit [DecidableEq K] [DecidableEq T] [DecidableEq O] in
theorem Inv.popped (h : Inv s) {old : Option T} (hk : s.ks k = .jumping old th) :
    (s.threads th).place = .popped k :=
  h.placed k th (.popped k) (hk ▸ rfl)

omit [DecidableEq O] in
theorem Inv.jump {old : Option T} (h : Inv s) (hk : s.ks k = .jumping old th) :
    Inv (((s.setThread th ((s.threads th).jump k s.clock)).leaveStack old).setPhase k
      (.thread th)) := by
  have hplace := h.popped hk
  have hd : (s.threads th).place.delayed = true := by rw [hplace]; rfl
  have hstamp := stamp_of_inRunq (x := s.threads th) (hplace ▸ rfl)
  have hjump : Inv ((s.setThread th ((s.threads th).jump k s.clock)).setPhase k (.thread th)) := by
    refine h.switch ((h.booked th).finish ⟨rfl, rfl, rfl⟩ hd rfl ?_) ?_ ?_
    · rw [hstamp, Thread.jump]
    · rw [hplace]
      exact fun r hr => (some.inj hr).symm
    · rintro u q ⟨⟩
      exact ⟨rfl, rfl⟩
  cases old with
  | none => exact hjump
  | some curth => exact hjump.leaveStack (some curth)

omit [DecidableEq O] in
/-- Back on its kthread in the instant of its stamp, the caller has nothing to be charged. -/
theorem Inv.resume (h : Inv s) (hk : s.ks k = .jumping (some th) th)
    (hnow : (s.threads th).enqueTs = s.clock) :
    Inv ((s.setThread th { s.threads th with
      threadReady := false, place := .running k }).setPhase k (.thread th)) := by
  have hplace := h.popped hk
  have hd : (s.threads th).place.delayed = true := by rw [hplace]; rfl
  have hstamp := stamp_of_inRunq (x := s.threads th) (hplace ▸ rfl)
  refine h.switch ((h.booked th).keep ⟨rfl, rfl, rfl⟩ nofun ?_) ?_ ?_
  · rw [uncharged_of_delayed hd, uncharged_of_not_delayed rfl, hstamp, hnow, Nat.sub_self]
  · rw [hplace]
    exact fun r hr => (some.inj hr).symm
  · rintro u q ⟨⟩
    exact ⟨rfl, rfl⟩

theorem Inv.step {e : Event K T O} (h : Inv s) (hok : ResumesAtOnce s e) (hs : step s e = some s') :
    Inv s' := by
  cases e with
  | tick t =>
    obtain ⟨⟨ht, hlt⟩, ⟨⟩⟩ := ite_none_right_eq_some.1 hs
    exact h.tick ht hlt
  | create th =>
    obtain ⟨hfree, ⟨⟩⟩ := ite_none_right_eq_some.1 hs
    refine h.setThread (.reset (Nat.two_pow_pos 64) rfl rfl rfl rfl rfl) (.inl ?_)
    rw [hfree]
    rfl
  | ready k th =>
    obtain ⟨hsleep, hmap⟩ := ite_none_right_eq_some.1 hs
    obtain ⟨y, hy, rfl⟩ := map_eq_some_iff.1 hmap
    obtain ⟨hout, howner⟩ := delayed_of_sleeping hsleep
    exact h.setThread ((h.booked th).ready hout hy) (.inl howner)
  | steal k r th =>
    obtain ⟨hqueued, ⟨⟩⟩ := ite_none_right_eq_some.1 hs
    exact h.setThread ((h.booked th).moveRunq (hqueued ▸ rfl) rfl)
      (.inl (hqueued ▸ rfl))
  | pop k th =>
    obtain ⟨hqueued, hmap⟩ := ite_none_right_eq_some.1 hs
    obtain ⟨old, -, rfl⟩ := map_eq_some_iff.1 hmap
    refine h.switch ((h.booked th).moveRunq (hqueued ▸ rfl) rfl) ?_ ?_
    · rw [hqueued]
      exact nofun
    · rintro u q ⟨⟩
      exact ⟨rfl, rfl⟩
  | jump k =>
    simp only [QueueDelay.step] at hs
    split at hs
    · rename_i old th hk
      obtain ⟨-, ⟨⟩⟩ := ite_none_right_eq_some.1 hs
      exact h.jump hk
    · exact absurd hs nofun
  | resume k =>
    obtain ⟨th, hk, rfl⟩ := step_resume hs
    exact h.resume hk (hok (some th) th hk)
  | schedule k =>
    simp only [QueueDelay.step] at hs
    split at hs
    · cases hs
      exact (h.leaveStack _).setPhase rfl
    · exact absurd hs nofun
  | yield k =>
    obtain ⟨th, hk, hmap⟩ := bind_eq_some_iff.1 hs
    obtain ⟨y, hy, rfl⟩ := map_eq_some_iff.1 hmap
    obtain ⟨hout, howner⟩ := h.on_kthread hk
    have hflags := (h.booked th).flags false (s.threads th).threadRunning
    exact h.switch (hflags.ready hout hy) howner nofun
  | cede k =>
    obtain ⟨th, hk, hmap⟩ := bind_eq_some_iff.1 hs
    obtain ⟨y, hy, rfl⟩ := map_eq_some_iff.1 hmap
    obtain ⟨hout, howner⟩ := h.on_kthread hk
    have hflags := (h.booked th).flags (s.threads th).threadReady false
    exact h.switch (hflags.ready hout hy) howner nofun
  | park _ | exit _ =>
    obtain ⟨th, hk, rfl⟩ := map_eq_some_iff.1 hs
    obtain ⟨hout, howner⟩ := h.on_kthread hk
    exact h.switch ((h.booked th).outside ⟨rfl, rfl, rfl⟩ hout rfl rfl) howner nofun
  | wait k o =>
    obtain ⟨th, hk, rfl⟩ := map_eq_some_iff.1 hs
    obtain ⟨hout, howner⟩ := h.on_kthread hk
    exact h.switch ((h.booked th).enqueue hout o) howner nofun
  | take th =>
    simp only [QueueDelay.step] at hs
    split at hs
    · rename_i o hwaiting
      cases hs
      refine h.setThread ((h.booked th).inside ⟨rfl, rfl, rfl⟩ (hwaiting ▸ rfl) rfl ?_ rfl)
        (.inl (hwaiting ▸ rfl))
      unfold Thread.stamp
      rw [hwaiting]
      cases o <;> rfl
    · exact absurd hs nofun
  | charge th =>
    simp only [QueueDelay.step] at hs
    split at hs
    · rename_i o htaken
      cases hs
      exact h.setThread ((h.booked th).charge htaken) (.inl (htaken ▸ rfl))
    · exact absurd hs nofun
  | setAccQdel k del =>
    obtain ⟨th, hk, hif⟩ := bind_eq_some_iff.1 hs
    obtain ⟨hdel, ⟨⟩⟩ := ite_none_right_eq_some.1 hif
    exact h.setThread (.reset hdel (h.on_kthread hk).1 rfl rfl rfl rfl) (.inr rfl)

end Steps

/-! ## Runs -/

omit [DecidableEq T] [DecidableEq K] [DecidableEq O] in
theorem init_inv : Inv (init : State K T O) := by
  refine ⟨Nat.two_pow_pos 64, nofun, fun th => ?_⟩
  exact .reset (Nat.two_pow_pos 64) rfl rfl rfl rfl rfl

/-- Whenever the uthread is out of the queues, so at each of its resets, the time it spent in
them since the last one has been added. -/
def Exact (s : State K T O) (th : T) : Prop :=
  (s.threads th).place.delayed = false → (s.threads th).Exact

theorem inv_of_reaches {s : State K T O} (h : Reaches step ResumesAtOnce init s) : Inv s :=
  h.invariant (P := Inv) init_inv fun _ _ _ hinv hok hs => hinv.step hok hs

omit [DecidableEq T] [DecidableEq K] [DecidableEq O] in
theorem Inv.exact {s : State K T O} (h : Inv s) (th : T) : Exact s th := by
  intro hout
  rw [(h.booked th).exact_iff h.clock_lt ⟨rfl, rfl, rfl⟩ rfl]
  exact uncharged_of_not_delayed hout

/-- In a run whose switches of a uthread to itself take no time, what is added to `acc_qdel` is
the time spent in run queues and among waiters. The first one that takes time loses it. -/
theorem accumulated_delay_exact :
    (∀ s : State K T O, Reaches step ResumesAtOnce init s → ∀ th, Exact s th) ∧
      ∀ (s s' : State K T O) (k : K) (th : T) (old : Option T),
        Reaches step ResumesAtOnce init s → step s (.resume k) = some s' →
        s.ks k = .jumping old th →
        (Exact s' th ↔ (s.threads th).enqueTs = s.clock) := by
  refine ⟨fun s hs th => (inv_of_reaches hs).exact th, ?_⟩
  intro s s' k th old hs hresume hk
  have hinv := inv_of_reaches hs
  obtain ⟨th', hk', rfl⟩ := step_resume hresume
  obtain ⟨rfl, rfl⟩ := KPhase.jumping.inj (hk.symm.trans hk')
  have hplace := hinv.popped hk
  have hd : (s.threads th).place.delayed = true := by rw [hplace]; rfl
  have hstamp := stamp_of_inRunq (x := s.threads th) (hplace ▸ rfl)
  have hle := (hinv.booked th).stamp_le hd
  have hthread : ((s.setThread th { s.threads th with
      threadReady := false, place := .running k }).setPhase k (.thread th)).threads th =
      { s.threads th with threadReady := false, place := .running k } := update_self ..
  have hiff := (hinv.booked th).exact_iff (y := { s.threads th with
    threadReady := false, place := .running k }) hinv.clock_lt ⟨rfl, rfl, rfl⟩ rfl
  rw [uncharged_of_delayed hd, hstamp] at hiff
  rw [hstamp] at hle
  unfold Exact
  rw [hthread, hiff]
  constructor
  · intro h
    have := h rfl
    omega
  · intro h _
    omega

local instance neZeroTwo : NeZero 2 := ⟨by decide⟩

/-- Two uthreads on two kthreads: the second one waits for a mutex from 20 to 50, is readied
at 60, stolen, and runs again at 90; it then waits for a memory semaphore from 100 to 130. -/
def mutexAndSemaphore : List (Event (Fin 2) (Fin 2) Unit) :=
  [.create 0, .ready 0 0, .pop 0 0, .jump 0, .create 1, .ready 0 1, .tick 20, .steal 1 0 1,
    .pop 1 1, .jump 1, .wait 1 (.mutex ()), .schedule 1, .tick 40, .take 1, .tick 50, .charge 1,
    .tick 60, .ready 0 1, .tick 70, .steal 1 0 1, .tick 80, .pop 1 1, .tick 90, .jump 1,
    .tick 100, .wait 1 (.memSemaphore ()), .schedule 1, .tick 130, .take 1, .charge 1]

/-- A uthread that yields at 5 with nothing else to run and is back at 12. -/
def yieldAlone : List (Event Unit Unit Unit) :=
  [.create (), .tick 2, .ready () (), .pop () (), .jump (), .tick 5, .yield (), .pop () (),
    .tick 12]

def Event.switches : Event K T O → Bool
  | .resume _ => false
  | _ => true

theorem reaches_of_switches {s : State K T O} {es : List (Event K T O)}
    (h : runChecked step (fun _ e => e.switches) init es = some s) :
    Reaches step ResumesAtOnce init s := by
  refine reaches_of_runChecked (fun u e _ he => ?_) h
  cases e <;> first | exact trivial | exact absurd he nofun

theorem accumulated_delay_mutexAndSemaphore :
    (∃ s : State (Fin 2) (Fin 2) Unit, Reaches step ResumesAtOnce init s ∧
      (s.threads 1).accQdel = 110 ∧ Exact s 1) ∧
    ∃ s s' : State Unit Unit Unit, Reaches step ResumesAtOnce init s ∧
      step s (.resume ()) = some s' ∧ s.clock = 12 ∧ ¬ Exact s' () := by
  constructor
  · have hrun : (runChecked step (fun _ e => e.switches) init
        mutexAndSemaphore).map (fun s => decide ((s.threads 1).accQdel = 110)) = some true := by
      decide
    obtain ⟨s, hs, hacc⟩ := map_eq_some_iff.1 hrun
    have hreach := reaches_of_switches hs
    exact ⟨s, hreach, of_decide_eq_true hacc, accumulated_delay_exact.1 s hreach 1⟩
  · have hrun : (runChecked step (fun _ e => e.switches) init
        yieldAlone).map (fun s => decide (s.clock = 12 ∧ s.ks () = .jumping (some ()) () ∧
          (s.threads ()).enqueTs = 5 ∧ (step s (.resume ())).isSome = true)) = some true := by
      decide
    obtain ⟨s, hs, hstate⟩ := map_eq_some_iff.1 hrun
    obtain ⟨hclock, hk, hstamp, hsome⟩ := of_decide_eq_true hstate
    obtain ⟨s', hs'⟩ := isSome_iff_exists.1 hsome
    have hreach := reaches_of_switches hs
    refine ⟨s, s', hreach, hs', hclock, ?_⟩
    rw [accumulated_delay_exact.2 s s' () () _ hreach hs' hk, hstamp, hclock]
    decide

/-- The uthread of `yieldAlone` was in the run queue for 7 cycles, and none is added. -/
theorem yield_alone_uncharged : ∃ s : State Unit Unit Unit, Reaches step anyStep init s ∧
      s.ks () = .thread () ∧ (s.threads ()).accQdel = (s.threads ()).base ∧
      (s.threads ()).inRunq = 7 ∧ ¬ Exact s () := by
  obtain ⟨s, hreach, hk, hacc, hrunq, hout, hne⟩ : ∃ s, Reaches step anyStep init s ∧
      s.ks () = .thread () ∧ (s.threads ()).accQdel = (s.threads ()).base ∧
      (s.threads ()).inRunq = 7 ∧ (s.threads ()).place.delayed = false ∧
      sub64 (s.threads ()).accQdel (s.threads ()).base ≠
      (s.threads ()).inRunq + (s.threads ()).inWaiters :=
    exists_of_runActions (yieldAlone ++ [.resume ()]) (by decide)
  exact ⟨s, hreach, hk, hacc, hrunq, fun h => hne (h hout)⟩

end Svalinn.Runtime.QueueDelay
