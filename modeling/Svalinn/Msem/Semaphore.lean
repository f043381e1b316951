/-
  Msem/Semaphore.lean --- the memory semaphore protocol.

  Source: `TryWait`, `Wait` and `Post` of `MemSemaphoreMabEgImpl` and
  `MemSemaphoreMabTsImpl` (`m-semaphore/src`).  The two classes have the same
  text for these three methods and differ only in `UpdateCapacity`, so the
  methods are written once over an arbitrary controller and instantiated twice.

  The capacity may change to any arm inside every call, so `count ≤ cap` is not
  an invariant.  What carries the protocol is weaker: a thread is queued only
  while somebody holds the semaphore, since a thread is enqueued only at
  `cap ≤ count` and a release with a queue behind it either hands its slot over
  or leaves at least `cap` holders.

  Every method runs under `m_spin`, and `UnlockAndPark` releases it atomically
  with parking, so a method is one step.
-/
import Svalinn.Lib.Transition
import Svalinn.Msem.Controller

set_option autoImplicit false

namespace Svalinn.Msem

open Svalinn.Lib List

/-- `WaiterThread`: a parked thread and the time it was enqueued. -/
structure Waiter where
  th : Nat
  enqueTsc : Nat
  deriving DecidableEq

def uint64Max : Nat := 2 ^ 64 - 1

/-- The fields the protocol reads and writes, with the controller's own state. -/
structure Sem (C : Type) where
  ctl : C
  cap : Nat
  count : Nat
  maxCap : Nat
  waiters : List Waiter
  numWaiters : Nat
  oldestTsc : Nat

/-- The value the methods store into `m_oldest_tsc` after a change of the queue. -/
def oldestOf : List Waiter → Nat
  | [] => uint64Max
  | w :: _ => w.enqueTsc

section Methods

variable {C F : Type} (u : Update C F)

/-- `UpdateCapacity` as the methods call it. -/
def Sem.updated (s : Sem C) (d : Draw F) : Sem C :=
  let r := u s.ctl s.cap s.maxCap d
  { s with ctl := r.1, cap := r.2 }

/-- `TryWait`: the new state and whether the caller acquired. -/
def Sem.tryWait (s : Sem C) (d : Draw F) : Sem C × Bool :=
  let s := s.updated u d
  if s.count < s.cap then ({ s with count := s.count + 1 }, true) else (s, false)

/-- The loop of `Wait` that gives free capacity to the threads queued before the
caller, with the threads it made ready. -/
def Sem.wakeOlder : List Waiter → Sem C → Sem C × List Nat
  | [], s => (s, [])
  | w :: rest, s =>
    if s.count < s.cap then
      let r := Sem.wakeOlder rest
        { s with waiters := rest, count := s.count + 1, numWaiters := s.numWaiters - 1,
                 oldestTsc := oldestOf rest }
      (r.1, w.th :: r.2)
    else (s, [])

/-- `Wait` by thread `t` at time `tsc`: the new state, the threads made ready and
whether the caller acquired at once (otherwise it is parked at the tail). -/
def Sem.wait (s : Sem C) (t tsc : Nat) (d : Draw F) : Sem C × List Nat × Bool :=
  let s := s.updated u d
  let r := Sem.wakeOlder s.waiters s
  let s := r.1
  if s.count < s.cap then ({ s with count := s.count + 1 }, r.2, true)
  else
    let isFirst := s.waiters.isEmpty
    ({ s with waiters := s.waiters ++ [⟨t, tsc⟩], numWaiters := s.numWaiters + 1,
              oldestTsc := if isFirst then tsc else s.oldestTsc }, r.2, false)

/-- `Post`: the new state and the thread the slot was handed to, if any. -/
def Sem.post (s : Sem C) (d : Draw F) : Sem C × Option Nat :=
  let s := s.updated u d
  match s.waiters with
  | [] => ({ s with count := s.count - 1 }, none)
  | w :: rest =>
    if s.count > s.cap then ({ s with count := s.count - 1 }, none)
    else
      ({ s with waiters := rest, numWaiters := s.numWaiters - 1, oldestTsc := oldestOf rest },
        some w.th)

end Methods

/-! ## The system of threads around the semaphore -/

/-- The semaphore with what its callers know: the threads that acquired and have
not posted (one entry per acquisition), and the threads that were ever enqueued
and dequeued, oldest first. -/
structure Sys (C : Type) where
  sem : Sem C
  holders : List Nat
  enqLog : List Nat
  deqLog : List Nat

inductive Op (F : Type) where
  | tryWait (t : Nat) (d : Draw F)
  | wait (t tsc : Nat) (d : Draw F)
  | post (t : Nat) (d : Draw F)

def Op.thread {F : Type} : Op F → Nat
  | .tryWait t _ => t
  | .wait t _ _ => t
  | .post t _ => t

/-- The inputs of the call's `UpdateCapacity`. -/
def Op.draw {F : Type} : Op F → Draw F
  | .tryWait _ d => d
  | .wait _ _ d => d
  | .post _ d => d

/-- The thread is parked in `Wait`. -/
def Sem.parked {C : Type} (s : Sem C) (t : Nat) : Bool := (s.waiters.map Waiter.th).contains t

section System

variable {C F : Type} (u : Update C F)

def step (s : Sys C) (op : Op F) : Option (Sys C) :=
  if s.sem.parked op.thread then none
  else
    match op with
    | .tryWait t d =>
      let r := s.sem.tryWait u d
      some { s with sem := r.1, holders := if r.2 then s.holders ++ [t] else s.holders }
    | .wait t tsc d =>
      let r := s.sem.wait u t tsc d
      some { sem := r.1
             holders := s.holders ++ r.2.1 ++ (if r.2.2 then [t] else [])
             enqLog := s.enqLog ++ (if r.2.2 then [] else [t])
             deqLog := s.deqLog ++ r.2.1 }
    | .post t d =>
      if s.holders.contains t then
        let r := s.sem.post u d
        some { s with sem := r.1
                      holders := s.holders.erase t ++ r.2.toList
                      deqLog := s.deqLog ++ r.2.toList }
      else none

/-- The state the constructor leaves, `init_cap = DEF_INIT_CAP = 1`. -/
def initSys (ctl : C) (maxCap : Nat) : Sys C :=
  { sem := { ctl := ctl, cap := 1, count := 0, maxCap := maxCap, waiters := [], numWaiters := 0
             oldestTsc := uint64Max }
    holders := [], enqLog := [], deqLog := [] }

structure Protocol (s : Sys C) : Prop where
  capPos : 1 ≤ s.sem.cap
  capMax : s.sem.cap ≤ s.sem.maxCap
  /-- `m_count` counts the threads that acquired and have not posted. -/
  countHolders : s.sem.count = s.holders.length
  numWaiters : s.sem.numWaiters = s.sem.waiters.length
  oldest : s.sem.oldestTsc = oldestOf s.sem.waiters
  fifo : s.enqLog = s.deqLog ++ s.sem.waiters.map Waiter.th
  served : s.sem.waiters ≠ [] → 1 ≤ s.sem.count

structure CallLaw (s : Sys C) (op : Op F) (s' : Sys C) : Prop where
  /-- No call raises `m_count` above `m_cap`. -/
  raises : s.sem.count < s'.sem.count → s'.sem.count ≤ s'.sem.cap
  /-- A `Post` that finds `m_count` above the capacity it has just updated
  lowers it. -/
  lowers : ∀ t d, op = .post t d → (s.sem.updated u d).cap < s.sem.count →
    s'.sem.count + 1 = s.sem.count
  /-- A `Wait` whose caller is not enqueued leaves nobody queued. -/
  noOvertake : ∀ t tsc d, op = .wait t tsc d → s'.enqLog = s.enqLog → s'.sem.waiters = []

end System

/-! ## The controller call and the hand-out loop -/

section Lemmas

variable {C F : Type} {u : Update C F}

@[simp] theorem updated_count (s : Sem C) (d : Draw F) : (s.updated u d).count = s.count := rfl
@[simp] theorem updated_waiters (s : Sem C) (d : Draw F) :
    (s.updated u d).waiters = s.waiters := rfl
@[simp] theorem updated_numWaiters (s : Sem C) (d : Draw F) :
    (s.updated u d).numWaiters = s.numWaiters := rfl

structure WakeOlderSpec (ws : List Waiter) (s : Sem C) (r : Sem C × List Nat) : Prop where
  ctl : r.1.ctl = s.ctl
  cap : r.1.cap = s.cap
  maxCap : r.1.maxCap = s.maxCap
  count : r.1.count = s.count + r.2.length
  split : ws.map Waiter.th = r.2 ++ r.1.waiters.map Waiter.th
  numWaiters : r.1.numWaiters = r.1.waiters.length
  oldest : r.1.oldestTsc = oldestOf r.1.waiters
  stop : r.1.cap ≤ r.1.count ∨ r.1.waiters = []
  bound : r.2 ≠ [] → r.1.count ≤ r.1.cap

theorem wakeOlder_spec (ws : List Waiter) (s : Sem C) (hw : s.waiters = ws)
    (hn : s.numWaiters = s.waiters.length) (ho : s.oldestTsc = oldestOf s.waiters) :
    WakeOlderSpec ws s (Sem.wakeOlder ws s) := by
  induction ws generalizing s with
  | nil =>
    exact { ctl := rfl, cap := rfl, maxCap := rfl, count := rfl
            split := by simp [Sem.wakeOlder, hw], numWaiters := hn, oldest := ho
            stop := Or.inr hw, bound := fun h => absurd rfl h }
  | cons w rest ih =>
    unfold Sem.wakeOlder
    split
    · rename_i hlt
      have hnum : s.numWaiters - 1 = rest.length := by rw [hn, hw]; rfl
      have h := ih
        { s with waiters := rest, count := s.count + 1, numWaiters := s.numWaiters - 1,
                 oldestTsc := oldestOf rest } rfl hnum rfl
      refine { ctl := h.ctl, cap := h.cap, maxCap := h.maxCap, count := ?_, split := ?_
               numWaiters := h.numWaiters, oldest := h.oldest, stop := h.stop, bound := ?_ }
      · have hc := h.count
        simp only [length_cons] at hc ⊢
        omega
      · rw [map_cons, h.split, cons_append]
      · intro _
        by_cases hr : (Sem.wakeOlder rest
            { s with waiters := rest, count := s.count + 1, numWaiters := s.numWaiters - 1,
                     oldestTsc := oldestOf rest }).2 = []
        · have hc := h.count
          have hcap := h.cap
          rw [hr] at hc
          simp only [length_nil] at hc hcap ⊢
          omega
        · exact h.bound hr
    · rename_i hge
      exact { ctl := rfl, cap := rfl, maxCap := rfl, count := rfl
              split := by simp [hw], numWaiters := hn, oldest := ho
              stop := Or.inl (Nat.le_of_not_lt hge), bound := fun h => absurd rfl h }

theorem updated_cap_range (hu : KeepsRange u) {s : Sys C} (h : Protocol s) (d : Draw F) :
    1 ≤ (s.sem.updated u d).cap ∧ (s.sem.updated u d).cap ≤ s.sem.maxCap :=
  hu s.sem.ctl s.sem.cap s.sem.maxCap d h.capPos h.capMax

end Lemmas

/-! ## One call keeps the protocol -/

section Calls

variable {C F : Type} {u : Update C F}

theorem tryWait_keeps (hu : KeepsRange u) {s : Sys C} (h : Protocol s) (t : Nat) (d : Draw F) :
    Protocol { s with sem := (s.sem.tryWait u d).1
                      holders := if (s.sem.tryWait u d).2 then s.holders ++ [t] else s.holders } ∧
    (s.sem.count < (s.sem.tryWait u d).1.count →
      (s.sem.tryWait u d).1.count ≤ (s.sem.tryWait u d).1.cap) := by
  obtain ⟨hpos, hmax⟩ := updated_cap_range hu h d
  unfold Sem.tryWait
  dsimp only
  split
  · rename_i hlt
    rw [updated_count] at hlt
    refine ⟨?_, fun _ => hlt⟩
    exact { capPos := hpos, capMax := hmax
            countHolders := by simp [h.countHolders]
            numWaiters := h.numWaiters, oldest := h.oldest, fifo := h.fifo
            served := fun _ => Nat.le_add_left 1 _ }
  · refine ⟨?_, fun hraise => absurd hraise (Nat.lt_irrefl _)⟩
    exact { capPos := hpos, capMax := hmax, countHolders := by simpa using h.countHolders
            numWaiters := h.numWaiters, oldest := h.oldest, fifo := h.fifo, served := h.served }

theorem wait_keeps (hu : KeepsRange u) {s : Sys C} (h : Protocol s) (t tsc : Nat) (d : Draw F) :
    let r := s.sem.wait u t tsc d
    let s' : Sys C :=
      { sem := r.1, holders := s.holders ++ r.2.1 ++ (if r.2.2 then [t] else [])
        enqLog := s.enqLog ++ (if r.2.2 then [] else [t]), deqLog := s.deqLog ++ r.2.1 }
    Protocol s' ∧ (s.sem.count < s'.sem.count → s'.sem.count ≤ s'.sem.cap) ∧
      (s'.enqLog = s.enqLog → s'.sem.waiters = []) := by
  obtain ⟨hpos, hmax⟩ := updated_cap_range hu h d
  have hspec : WakeOlderSpec (s.sem.updated u d).waiters (s.sem.updated u d)
      (Sem.wakeOlder (s.sem.updated u d).waiters (s.sem.updated u d)) :=
    wakeOlder_spec _ _ rfl h.numWaiters h.oldest
  have hholders := h.countHolders
  unfold Sem.wait
  dsimp only
  generalize Sem.wakeOlder (s.sem.updated u d).waiters (s.sem.updated u d) = r at hspec ⊢
  have hcap := hspec.cap
  have hcount : r.1.count = s.sem.count + r.2.length := hspec.count
  have hsplit : s.sem.waiters.map Waiter.th = r.2 ++ r.1.waiters.map Waiter.th := hspec.split
  split
  · -- capacity left over: the loop emptied the queue and the caller acquires
    rename_i hlt
    have hempty : r.1.waiters = [] := hspec.stop.resolve_left (Nat.not_le_of_lt hlt)
    rw [hempty, map_nil, append_nil] at hsplit
    refine ⟨?_, fun _ => hlt, fun _ => hempty⟩
    refine { capPos := hcap ▸ hpos, capMax := ?_, countHolders := ?_
             numWaiters := hspec.numWaiters, oldest := hspec.oldest, fifo := ?_
             served := fun hne => absurd hempty hne }
    · rw [hspec.maxCap]; exact hcap ▸ hmax
    · simp only [length_append, length_cons, length_nil, if_true]
      omega
    · simp [hempty, h.fifo, hsplit]
  · -- the caller is parked at the tail, behind at least one holder
    rename_i hge
    have hfull : 1 ≤ r.1.count := by omega
    refine ⟨?_, ?_, fun henq => absurd henq (by simp)⟩
    · refine { capPos := hcap ▸ hpos, capMax := ?_, countHolders := ?_, numWaiters := ?_
               oldest := ?_, fifo := ?_, served := fun _ => hfull }
      · rw [hspec.maxCap]; exact hcap ▸ hmax
      · simp only [length_append, length_nil, Bool.false_eq_true, if_false]
        omega
      · simp [hspec.numWaiters]
      · cases hw : r.1.waiters with
        | nil => simp [oldestOf]
        | cons w rest =>
          have ho := hspec.oldest
          rw [hw] at ho
          simpa [oldestOf] using ho
      · simp [h.fifo, hsplit]
    · intro hraise
      apply hspec.bound
      intro hnil
      rw [hnil, length_nil] at hcount
      simp only at hraise
      omega

theorem post_keeps (hu : KeepsRange u) {s : Sys C} (h : Protocol s) {t : Nat}
    (ht : t ∈ s.holders) (d : Draw F) :
    let r := s.sem.post u d
    let s' : Sys C :=
      { s with sem := r.1, holders := s.holders.erase t ++ r.2.toList
               deqLog := s.deqLog ++ r.2.toList }
    Protocol s' ∧ s'.sem.count ≤ s.sem.count ∧
      ((s.sem.updated u d).cap < s.sem.count → s'.sem.count + 1 = s.sem.count) := by
  obtain ⟨hpos, hmax⟩ := updated_cap_range hu h d
  have hlen : (s.holders.erase t).length = s.holders.length - 1 := length_erase_of_mem ht
  have hne : 1 ≤ s.holders.length := length_pos_of_mem ht
  have hholders := h.countHolders
  have hnum := h.numWaiters
  have hfifo := h.fifo
  unfold Sem.post
  dsimp only
  split
  · rename_i hw
    rw [updated_waiters] at hw
    rw [hw] at hfifo
    refine ⟨?_, Nat.sub_le _ _, fun _ => ?_⟩
    · exact { capPos := hpos, capMax := hmax, countHolders := by simp [hlen, hholders]
              numWaiters := h.numWaiters, oldest := h.oldest
              fifo := by simpa [hw] using hfifo
              served := fun hwn => absurd hw hwn }
    · change s.sem.count - 1 + 1 = s.sem.count
      omega
  · rename_i w rest hw
    rw [updated_waiters] at hw
    split
    · -- too many holders: the slot disappears, and at least `cap ≥ 1` remain
      rename_i hgt
      rw [updated_count] at hgt
      refine ⟨?_, Nat.sub_le _ _, fun _ => ?_⟩
      · exact { capPos := hpos, capMax := hmax, countHolders := by simp [hlen, hholders]
                numWaiters := h.numWaiters, oldest := h.oldest
                fifo := by simpa using hfifo
                served := fun _ => by simp only [updated_count]; omega }
      · change s.sem.count - 1 + 1 = s.sem.count
        omega
    · -- the slot is handed to the head of the queue
      rename_i hle
      rw [updated_count] at hle
      refine ⟨?_, Nat.le_refl _, fun hgt => absurd hgt hle⟩
      have hserved := h.served (by rw [hw]; exact cons_ne_nil _ _)
      exact { capPos := hpos, capMax := hmax
              countHolders := by
                simp only [Option.toList, length_append, length_cons, length_nil,
                  updated_count, hlen]
                omega
              numWaiters := by
                simp only [updated_numWaiters, hnum, hw, length_cons, Nat.add_sub_cancel]
              oldest := rfl
              fifo := by
                rw [hfifo, hw]
                simp
              served := fun _ => hserved }

theorem step_keeps (hu : KeepsRange u) {s s' : Sys C} {op : Op F} (h : Protocol s)
    (hs : step u s op = some s') : Protocol s' ∧ CallLaw u s op s' := by
  unfold step at hs
  split at hs
  · exact absurd hs (by simp)
  · cases op with
    | tryWait t d =>
      cases hs
      obtain ⟨hkeep, hraise⟩ := tryWait_keeps hu h t d
      exact ⟨hkeep, { raises := hraise, lowers := fun _ _ he => absurd he (by simp)
                      noOvertake := fun _ _ _ he => absurd he (by simp) }⟩
    | wait t tsc d =>
      cases hs
      obtain ⟨hkeep, hraise, hqueue⟩ := wait_keeps hu h t tsc d
      exact ⟨hkeep, { raises := hraise, lowers := fun _ _ he => absurd he (by simp)
                      noOvertake := fun _ _ _ _ => hqueue }⟩
    | post t d =>
      dsimp only at hs
      split at hs
      · rename_i hmem
        cases hs
        obtain ⟨hkeep, hle, hlow⟩ := post_keeps hu h (contains_iff_mem.mp hmem) d
        refine ⟨hkeep, { raises := fun hlt => absurd hlt (Nat.not_lt_of_le hle)
                         lowers := ?_, noOvertake := fun _ _ _ he => absurd he (by simp) }⟩
        intro t' d' he
        obtain ⟨_, rfl⟩ := Op.post.inj he
        exact hlow
      · exact absurd hs (by simp)

theorem initSys_protocol (ctl : C) {maxCap : Nat} (h : 1 ≤ maxCap) :
    Protocol (initSys ctl maxCap) :=
  { capPos := Nat.le_refl 1, capMax := h, countHolders := rfl, numWaiters := rfl, oldest := rfl
    fifo := rfl, served := fun hne => absurd rfl hne }

theorem reaches_protocol (hu : KeepsRange u) (ctl : C) {maxCap : Nat} (h : 1 ≤ maxCap) {s : Sys C}
    (hr : Reaches (step u) anyStep (initSys ctl maxCap) s) : Protocol s :=
  hr.invariant (initSys_protocol ctl h) fun _ _ _ hp _ hs => (step_keeps hu hp hs).1

end Calls

/-! ## The two implementations -/

section Implementations

variable {F : Type}

/-- Calls on a `MemSemaphoreMabEgImpl`. -/
def egStep (A : Arith F) : Sys (EgCtl F) → Op F → Option (Sys (EgCtl F)) :=
  step (EgCtl.updateCapacity A)

/-- Calls on a `MemSemaphoreMabTsImpl`. -/
def tsStep (B : ArithExt F) : Sys (TsCtl F) → Op F → Option (Sys (TsCtl F)) :=
  step (TsCtl.updateCapacity B)

/-- A new `MemSemaphoreMabEgImpl`. -/
def egInit (A : Arith F) (maxCap bytes now : Nat) : Sys (EgCtl F) :=
  initSys (EgCtl.init A bytes now) maxCap

/-- A new `MemSemaphoreMabTsImpl`. -/
def tsInit (B : ArithExt F) (maxCap bytes now : Nat) : Sys (TsCtl F) :=
  initSys (TsCtl.init B bytes now) maxCap

/-- Both memory semaphores keep the protocol in every state that any calls, clock values, rewards
and random draws reach, and every further call obeys the call laws. -/
theorem memSemaphore_protocol (A : Arith F) (B : ArithExt F) (maxCap bytes now : Nat)
    (hmax : 1 ≤ maxCap) :
    (∀ s, Reaches (egStep A) anyStep (egInit A maxCap bytes now) s →
      Protocol s ∧ ∀ op s', egStep A s op = some s' → CallLaw (EgCtl.updateCapacity A) s op s') ∧
    (∀ s, Reaches (tsStep B) anyStep (tsInit B maxCap bytes now) s →
      Protocol s ∧ ∀ op s', tsStep B s op = some s' →
        CallLaw (TsCtl.updateCapacity B) s op s') := by
  constructor
  · intro s hr
    have hp := reaches_protocol (EgCtl.updateCapacity_keepsRange A) _ hmax hr
    refine ⟨hp, fun op s' hs => ?_⟩
    exact (step_keeps (EgCtl.updateCapacity_keepsRange A) hp hs).2
  · intro s hr
    have hp := reaches_protocol (TsCtl.updateCapacity_keepsRange B) _ hmax hr
    refine ⟨hp, fun op s' hs => ?_⟩
    exact (step_keeps (TsCtl.updateCapacity_keepsRange B) hp hs).2

end Implementations

/-! ## A release that raises the capacity

`Post` compares `m_count` with the capacity its own `UpdateCapacity` has just
chosen.  When that update lifts the capacity back to the number of holders and a
thread is queued, the slot is handed over and `m_count` stays. -/

/-- Exact arithmetic; the square root and the exponential are not reached on the
runs below. -/
def ratArith : ArithExt Rat where
  ofNat := fun n => n
  lit := fun a b => mkRat a b
  add := (· + ·)
  sub := (· - ·)
  mul := (· * ·)
  div := (· / ·)
  lt := fun x y => decide (x < y)
  sqrt := fun x => x
  exp := fun x => 1 + x

/-- A control step that sees `bytes` accesses, with the two `rand` results. -/
def ratDraw (now bytes explr pick : Nat) : Draw Rat :=
  { now := now, bytes := bytes, explr := explr, pick := pick, gauss := fun _ => 0 }

/-- Thread 1 acquires, an exploring update grows the capacity to 2 and thread 2
acquires, an update without traffic shrinks it to 1 and thread 3 is queued. -/
def shrinkRun : List (Op Rat) :=
  [.wait 1 10 (ratDraw 100 0 0 0), .wait 2 20 (ratDraw 1000 4000 0 1),
   .wait 3 30 (ratDraw 2000 4000 1000 0)]

theorem memSemaphore_protocol_shrinkRun :
    1 ≤ 2 ∧ ∃ s, runActions (egStep ratArith.toArith) (egInit ratArith.toArith 2 0 0) shrinkRun
      = some s ∧ s.sem.waiters.map Waiter.th = [3] ∧ Protocol s := by
  have hrun : (runActions (egStep ratArith.toArith) (egInit ratArith.toArith 2 0 0)
      shrinkRun).map (fun s => s.sem.waiters.map Waiter.th) = some [3] := by decide +kernel
  cases hs : runActions (egStep ratArith.toArith) (egInit ratArith.toArith 2 0 0) shrinkRun with
  | none => rw [hs] at hrun; exact absurd hrun (by simp)
  | some s =>
    rw [hs] at hrun
    have hprot := memSemaphore_protocol ratArith.toArith ratArith 2 0 0 (by decide)
    exact ⟨by decide, s, rfl, by simpa using hrun, (hprot.1 s (reaches_of_runActions hs)).1⟩

/-- A `Post` made while `m_count` is above `m_cap` need not lower it: after
`shrinkRun` there are two holders at capacity 1, and a `Post` whose update
explores upwards hands its slot to thread 3. -/
theorem post_above_cap_keeps_count : ¬ ∀ s t d s',
      Reaches (egStep ratArith.toArith) anyStep (egInit ratArith.toArith 2 0 0) s →
      s.sem.cap < s.sem.count → egStep ratArith.toArith s (.post t d) = some s' →
      s'.sem.count < s.sem.count := by
  intro hall
  have hrun : (runActions (egStep ratArith.toArith) (egInit ratArith.toArith 2 0 0)
      shrinkRun).map (fun s => (s.sem.cap, s.sem.count,
        (egStep ratArith.toArith s (.post 1 (ratDraw 3000 8000 0 1))).map (·.sem.count)))
      = some (1, 2, some 2) := by decide +kernel
  cases hs : runActions (egStep ratArith.toArith) (egInit ratArith.toArith 2 0 0) shrinkRun with
  | none => rw [hs] at hrun; exact absurd hrun (by simp)
  | some s =>
    rw [hs] at hrun
    simp only [Option.map_some, Option.some.injEq, Prod.mk.injEq] at hrun
    obtain ⟨hcap, hcount, hpost⟩ := hrun
    obtain ⟨s', hs', hcount'⟩ := Option.map_eq_some_iff.mp hpost
    have hlt := hall s 1 _ s' (reaches_of_runActions hs) (by omega) hs'
    omega

end Svalinn.Msem
