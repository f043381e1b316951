/-
  Runtime/RwMutex.lean --- the reader-writer mutex of the runtime.

  Source: `runtime/sync.c` (`rwmutex_init`, `rwmutex_rdlock`, `rwmutex_try_rdlock`,
  `rwmutex_wrlock`, `rwmutex_try_wrlock`, `rwmutex_unlock`).

  All variables are touched only inside the waiter lock, so taking the lock, the text inside
  it and releasing it are one step each.  The threads that an unlock takes off the queues are
  made ready one by one after the lock is free again.
-/
import Svalinn.Lib.Transition
import Svalinn.Lib.Phases

set_option autoImplicit false

namespace Svalinn.Runtime.RwMutex

open Svalinn.Lib Function List

inductive Mode where
  | read
  | write
  deriving DecidableEq

inductive Phase (T : Type) where
  | idle
  | calling (m : Mode) (try_ : Bool)
  | locked (m : Mode) (try_ : Bool)
  | acquired (m : Mode)
  | failed
  | queued (m : Mode)
  | parked (m : Mode)
  | released (m : Mode)
  | holding (m : Mode)
  /-- in `rwmutex_unlock`, in front of the waiter lock -/
  | unlocking (m : Mode)
  | unlockLocked (m : Mode)
  | unlocked (wake : List T)
  | waking (wake : List T)
  deriving DecidableEq

namespace Phase

variable {T : Type}

def inLock : Phase T → Bool
  | .locked _ _ | .acquired _ | .failed | .queued _ | .unlockLocked _ | .unlocked _ => true
  | _ => false

def holds (m : Mode) : Phase T → Bool
  | .acquired m' | .released m' | .holding m' | .unlocking m' | .unlockLocked m' => m' = m
  | _ => false

def waits (m : Mode) : Phase T → Bool
  | .queued m' | .parked m' => m' = m
  | _ => false

def isReleased : Phase T → Bool
  | .released _ => true
  | _ => false

def wakeList : Phase T → List T
  | .unlocked l | .waking l => l
  | _ => []

def wakes (p : Phase T) : Option (List T) := if p.wakeList = [] then none else some p.wakeList

def pending : Phase T → Nat
  | .queued _ | .parked _ | .released _ => 1
  | _ => 0

def resume : Phase T → Phase T
  | .parked m | .released m => .holding m
  | p => p

end Phase

section Model

variable {T : Type} [DecidableEq T]

structure State (T : Type) where
  waiterLock : Option T
  count : Int
  readWaiters : List T
  writeWaiters : List T
  readWaiterCount : Int
  phase : T → Phase T
  /-- the assertion of `rwmutex_unlock` has failed -/
  fault : Bool
  /-- the writers in the order in which they queued, and in which they were given the mutex -/
  writersQueued : List T
  writersGranted : List T
  /-- how often each thread queued, and how often it was made ready -/
  queuings : T → Nat
  wakes : T → Nat

def State.goto (s : State T) (t : T) (p : Phase T) : State T :=
  { s with phase := update s.phase t p }

/-- `spin_lock_np` succeeds when the lock is free. -/
def State.spinLock (s : State T) (t : T) (p : Phase T) : Option (State T) :=
  if s.waiterLock = none then some ({ s with waiterLock := some t }.goto t p) else none

def State.spinUnlock (s : State T) (t : T) (p : Phase T) : State T :=
  { s with waiterLock := none }.goto t p

def State.enqueue (s : State T) (t : T) : Mode → State T
  | .read =>
    { s with
      readWaiterCount := s.readWaiterCount + 1
      readWaiters := s.readWaiters ++ [t]
      queuings := update s.queuings t (s.queuings t + 1) }.goto t (.queued .read)
  | .write =>
    { s with
      writeWaiters := s.writeWaiters ++ [t]
      writersQueued := s.writersQueued ++ [t]
      queuings := update s.queuings t (s.queuings t + 1) }.goto t (.queued .write)

def available (count : Int) : Mode → Bool
  | .read => 0 ≤ count
  | .write => count = 0

def taken (count : Int) : Mode → Int
  | .read => count + 1
  | .write => -1

def State.acquire (m : Mode) (try_ : Bool) (s : State T) (t : T) : State T :=
  if available s.count m then { s with count := taken s.count m }.goto t (.acquired m)
  else if try_ then s.goto t .failed
  else s.enqueue t m

def rwmutexRdlock (s : State T) (t : T) : State T := s.acquire .read false t
def rwmutexTryRdlock (s : State T) (t : T) : State T := s.acquire .read true t
def rwmutexWrlock (s : State T) (t : T) : State T := s.acquire .write false t
def rwmutexTryWrlock (s : State T) (t : T) : State T := s.acquire .write true t

def lockFunction : Mode → Bool → State T → T → State T
  | .read, false => rwmutexRdlock
  | .read, true => rwmutexTryRdlock
  | .write, false => rwmutexWrlock
  | .write, true => rwmutexTryWrlock

def State.releaseReaders (s : State T) (t : T) : State T :=
  { s with
    count := s.readWaiterCount
    readWaiterCount := 0
    readWaiters := []
    phase := setAll (update s.phase t (.unlocked s.readWaiters)) s.readWaiters (.released .read) }

def State.releaseWriter (s : State T) (t : T) : State T :=
  match s.writeWaiters with
  | [] => s.goto t (.unlocked [])
  | w :: rest =>
    ({ s with
      count := -1
      writeWaiters := rest
      writersGranted := s.writersGranted ++ [w] }.goto t (.unlocked [w])).goto w (.released .write)

/-- The text of `rwmutex_unlock` inside the waiter lock. -/
def rwmutexUnlock (s : State T) (t : T) : State T :=
  let s := { s with
    fault := s.fault || s.count = 0
    count := if s.count < 0 then 0 else s.count - 1 }
  if s.count = 0 ∧ 0 < s.readWaiterCount then s.releaseReaders t
  else if s.count = 0 then s.releaseWriter t
  else s.goto t (.unlocked [])

/-- `thread_ready`. -/
def State.ready (s : State T) (t w : T) (rest : List T) : State T :=
  ({ s with wakes := update s.wakes w (s.wakes w + 1) }.goto t (.waking rest)).goto w
    (s.phase w).resume

inductive Event (T : Type) where
  | call (t : T) (m : Mode) (try_ : Bool)
  | unlock (t : T)
  | run (t : T)

def State.run (s : State T) (t : T) : Option (State T) :=
  match s.phase t with
  | .calling m try_ => s.spinLock t (.locked m try_)
  | .locked m try_ => some (lockFunction m try_ s t)
  | .acquired m => some (s.spinUnlock t (.holding m))
  | .failed => some (s.spinUnlock t .idle)
  | .queued m => some (s.spinUnlock t (.parked m))
  | .unlocking m => s.spinLock t (.unlockLocked m)
  | .unlockLocked _ => some (rwmutexUnlock s t)
  | .unlocked wake => some (s.spinUnlock t (.waking wake))
  | .waking [] => some (s.goto t .idle)
  | .waking (w :: rest) => some (s.ready t w rest)
  | .idle | .parked _ | .released _ | .holding _ => none

def step (s : State T) : Event T → Option (State T)
  | .call t m try_ => if s.phase t = .idle then some (s.goto t (.calling m try_)) else none
  | .unlock t =>
    match s.phase t with
    | .holding m => some (s.goto t (.unlocking m))
    | _ => none
  | .run t => s.run t

def rwmutexInit : State T :=
  ⟨none, 0, [], [], 0, fun _ => .idle, false, [], [], fun _ => 0, fun _ => 0⟩

/-! ## The property -/

structure Sound (s : State T) : Prop where
  writer : s.count = -1 ↔ ∃ t, (s.phase t).holds .write = true
  oneWriter : ∀ t u, (s.phase t).holds .write = true → (s.phase u).holds .write = true → t = u
  /-- The reader holders, each once: as many as the count says, none beside a writer. -/
  readers : ∃ readers : List T, readers.Nodup ∧
    (∀ t, t ∈ readers ↔ (s.phase t).holds .read = true) ∧
    (s.count ≠ -1 → s.count = readers.length) ∧ (s.count = -1 → readers = [])
  readCount : s.readWaiterCount = s.readWaiters.length
  readersWait : s.readWaiters ≠ [] → s.count = -1
  nobodyWaits : s.count = 0 → s.readWaiters = [] ∧ s.writeWaiters = []
  order : s.writersQueued = s.writersGranted ++ s.writeWaiters
  once : ∀ t, s.queuings t = s.wakes t + (s.phase t).pending
  /-- Whom an unlocker makes ready holds the mutex, and every released thread has its unlocker. -/
  wakesHolder : ∀ w, (s.phase w).isReleased = true ↔ ∃ t, w ∈ (s.phase t).wakeList
  noFault : s.fault = false

/-! ## The invariant -/

variable {t w : T} {p : Phase T} {phase : T → Phase T} {s : State T}

def Counts (count : Int) (readers : List T) (writer : Option T) : Prop :=
  (writer = none ∧ count = readers.length) ∨ (writer ≠ none ∧ readers = [] ∧ count = -1)

def wakeListOf (wake : Option (T × List T)) : List T := (wake.map Prod.snd).getD []

def Balanced (phase : T → Phase T) (queuings wakes : T → Nat) : Prop :=
  ∀ t, queuings t = wakes t + (phase t).pending

theorem Balanced.keep {queuings wakes : T → Nat} (h : Balanced phase queuings wakes)
    (hp : p.pending = (phase t).pending) : Balanced (update phase t p) queuings wakes := by
  intro u
  rw [update_apply]
  split
  · rename_i hu
    rw [hp, hu]
    exact h t
  · exact h u

/-- The invariant, with the holders and the unlocker that has threads to make ready. -/
structure Inv (s : State T) (readers : List T) (writer : Option T) (wake : Option (T × List T)) :
    Prop where
  locks : Holder Phase.inLock s.phase s.waiterLock
  readHolders : Listed (Phase.holds .read) s.phase readers
  writeHolder : Holder (Phase.holds .write) s.phase writer
  count : Counts s.count readers writer
  readQueue : Listed (Phase.waits .read) s.phase s.readWaiters
  writeQueue : Listed (Phase.waits .write) s.phase s.writeWaiters
  readCount : s.readWaiterCount = s.readWaiters.length
  readersWait : s.readWaiters ≠ [] → s.count = -1
  writersWait : s.writeWaiters ≠ [] → s.count ≠ 0
  released : Listed Phase.isReleased s.phase (wakeListOf wake)
  waking : Carrier Phase.wakes s.phase wake
  order : s.writersQueued = s.writersGranted ++ s.writeWaiters
  once : Balanced s.phase s.queuings s.wakes
  noFault : s.fault = false

variable {readers : List T} {writer : Option T} {wake : Option (T × List T)}

omit [DecidableEq T] in
theorem inv_init : Inv (rwmutexInit : State T) [] none none where
  locks _ := ⟨nofun, nofun⟩
  readHolders := ⟨fun _ => ⟨nofun, nofun⟩, .nil⟩
  writeHolder _ := ⟨nofun, nofun⟩
  count := .inl ⟨rfl, rfl⟩
  readQueue := ⟨fun _ => ⟨nofun, nofun⟩, .nil⟩
  writeQueue := ⟨fun _ => ⟨nofun, nofun⟩, .nil⟩
  readCount := rfl
  readersWait h := absurd rfl h
  writersWait h := absurd rfl h
  released := ⟨fun _ => ⟨nofun, nofun⟩, .nil⟩
  waking _ _ := ⟨nofun, nofun⟩
  order := rfl
  once _ := rfl
  noFault := rfl

theorem Inv.move {q : Phase T} {lock : Option T} (h : Inv s readers writer wake) (ht : s.phase t = q)
    (hlocks : Holder Phase.inLock (update s.phase t p) lock)
    (hholds : ∀ m, p.holds m = q.holds m) (hwaits : ∀ m, p.waits m = q.waits m)
    (hreleased : p.isReleased = q.isReleased) (hwakes : p.wakes = q.wakes)
    (hpending : p.pending = q.pending) :
    Inv ({ s with waiterLock := lock }.goto t p) readers writer wake := by
  subst ht
  exact ⟨hlocks, h.readHolders.keep (hholds _), h.writeHolder.keep (hholds _), h.count, h.readQueue.keep (hwaits _),
    h.writeQueue.keep (hwaits _), h.readCount, h.readersWait, h.writersWait, h.released.keep hreleased,
    h.waking.keep hwakes, h.order, h.once.keep hpending, h.noFault⟩

theorem Inv.spinLock {q : Phase T} {s' : State T} (h : Inv s readers writer wake) (ht : s.phase t = q)
    (hstep : s.spinLock t p = some s') (hin : p.inLock = true)
    (hholds : ∀ m, p.holds m = q.holds m) (hwaits : ∀ m, p.waits m = q.waits m)
    (hreleased : p.isReleased = q.isReleased) (hwakes : p.wakes = q.wakes)
    (hpending : p.pending = q.pending) : Inv s' readers writer wake := by
  obtain ⟨hfree, rfl⟩ := Option.ite_some_none_eq_some.1 hstep
  have hlocks := h.locks
  rw [hfree] at hlocks
  exact h.move ht (hlocks.take hin) hholds hwaits hreleased hwakes hpending

theorem Inv.spinUnlock {q : Phase T} (h : Inv s readers writer wake) (ht : s.phase t = q)
    (hin : q.inLock = true) (hout : p.inLock = false)
    (hholds : ∀ m, p.holds m = q.holds m) (hwaits : ∀ m, p.waits m = q.waits m)
    (hreleased : p.isReleased = q.isReleased) (hwakes : p.wakes = q.wakes)
    (hpending : p.pending = q.pending) : Inv (s.spinUnlock t p) readers writer wake := by
  subst ht
  have hlocks := h.locks
  rw [h.locks.eq_some hin] at hlocks
  exact h.move rfl (hlocks.give hout) hholds hwaits hreleased hwakes hpending

/-! ## Taking the mutex -/

omit [DecidableEq T] in
theorem Counts.writer_none {count : Int} (h : Counts count readers writer) (hcount : 0 ≤ count) :
    writer = none ∧ count = readers.length := by
  rcases h with h | ⟨_, _, hneg⟩
  · exact h
  · omega

theorem Inv.acquireRead {try_ : Bool} (h : Inv s readers writer wake)
    (ht : s.phase t = .locked .read try_) (hcount : 0 ≤ s.count) :
    Inv ({ s with count := s.count + 1 }.goto t (.acquired .read)) (readers ++ [t]) writer wake := by
  obtain ⟨hwriter, hlen⟩ := h.count.writer_none hcount
  refine ⟨h.locks.keep (ht ▸ rfl), h.readHolders.push (ht ▸ rfl) rfl,
    h.writeHolder.keep (ht ▸ rfl), .inl ⟨hwriter, ?_⟩, h.readQueue.keep (ht ▸ rfl),
    h.writeQueue.keep (ht ▸ rfl), h.readCount, fun hne => ?_, fun _ => ?_,
    h.released.keep (ht ▸ rfl), h.waking.keep (ht ▸ rfl), h.order,
    h.once.keep (ht ▸ rfl), h.noFault⟩
  · show s.count + 1 = ((readers ++ [t]).length : Int)
    rw [length_append, length_singleton, hlen]
    omega
  · have hneg := h.readersWait hne
    omega
  · show s.count + 1 ≠ 0
    omega

theorem Inv.acquireWrite {try_ : Bool} (h : Inv s readers writer wake)
    (ht : s.phase t = .locked .write try_) (hcount : s.count = 0) :
    Inv ({ s with count := -1 }.goto t (.acquired .write)) readers (some t) wake := by
  obtain ⟨hwriter, hlen⟩ := h.count.writer_none (by omega)
  have hreaders : readers = [] := length_eq_zero_iff.1 (by omega)
  have hnone := h.writeHolder
  rw [hwriter] at hnone
  exact ⟨h.locks.keep (ht ▸ rfl), h.readHolders.keep (ht ▸ rfl), hnone.take rfl,
    .inr ⟨nofun, hreaders, rfl⟩, h.readQueue.keep (ht ▸ rfl),
    h.writeQueue.keep (ht ▸ rfl), h.readCount, fun _ => rfl, fun _ => (by decide : (-1 : Int) ≠ 0),
    h.released.keep (ht ▸ rfl), h.waking.keep (ht ▸ rfl), h.order,
    h.once.keep (ht ▸ rfl), h.noFault⟩

theorem balanced_push {queuings wakes : T → Nat} (h : Balanced phase queuings wakes)
    (ht : (phase t).pending = 0) (hp : p.pending = 1) :
    Balanced (update phase t p) (update queuings t (queuings t + 1)) wakes := by
  intro u
  have hu := h u
  rw [update_apply, update_apply]
  split
  · rename_i hut
    rw [hut, ht] at hu
    rw [hut, hp, hu]
  · exact hu

section

variable (h : Inv s readers writer wake)

include h

theorem Inv.enqueue {m : Mode} (ht : s.phase t = .locked m false)
    (hcount : available s.count m = false) : Inv (s.enqueue t m) readers writer wake := by
  have hone : s.count < 0 → s.count = -1 := by
    intro hneg
    rcases h.count with ⟨_, hlen⟩ | ⟨_, _, hcount⟩
    · omega
    · exact hcount
  cases m with
  | read =>
    have hneg : s.count = -1 := hone (Int.not_le.1 (of_decide_eq_false hcount))
    refine ⟨h.locks.keep (ht ▸ rfl), h.readHolders.keep (ht ▸ rfl),
      h.writeHolder.keep (ht ▸ rfl), h.count, h.readQueue.push (ht ▸ rfl) rfl,
      h.writeQueue.keep (ht ▸ rfl), ?_, fun _ => hneg, h.writersWait,
      h.released.keep (ht ▸ rfl), h.waking.keep (ht ▸ rfl), h.order,
      balanced_push h.once (ht ▸ rfl) rfl, h.noFault⟩
    show s.readWaiterCount + 1 = ((s.readWaiters ++ [t]).length : Int)
    rw [length_append, length_singleton, h.readCount]
    omega
  | write =>
    have hne : s.count ≠ 0 := of_decide_eq_false hcount
    refine ⟨h.locks.keep (ht ▸ rfl), h.readHolders.keep (ht ▸ rfl),
      h.writeHolder.keep (ht ▸ rfl), h.count, h.readQueue.keep (ht ▸ rfl),
      h.writeQueue.push (ht ▸ rfl) rfl, h.readCount, h.readersWait, fun _ => hne,
      h.released.keep (ht ▸ rfl), h.waking.keep (ht ▸ rfl), ?_,
      balanced_push h.once (ht ▸ rfl) rfl, h.noFault⟩
    show s.writersQueued ++ [t] = s.writersGranted ++ (s.writeWaiters ++ [t])
    rw [h.order, append_assoc]

theorem Inv.lockFunction {m : Mode} {try_ : Bool}
    (ht : s.phase t = .locked m try_) :
    ∃ readers' writer', Inv (lockFunction m try_ s t) readers' writer' wake := by
  have heq : RwMutex.lockFunction m try_ s t = s.acquire m try_ t := by
    cases m <;> cases try_ <;> rfl
  rw [heq, State.acquire]
  split
  · rename_i havailable
    cases m with
    | read => exact ⟨_, _, h.acquireRead ht (of_decide_eq_true havailable)⟩
    | write => exact ⟨_, _, h.acquireWrite ht (of_decide_eq_true havailable)⟩
  · rename_i havailable
    split
    · exact ⟨_, _, h.move ht (h.locks.keep (ht ▸ rfl)) (fun _ => rfl) (fun _ => rfl) rfl rfl rfl⟩
    · rename_i htry
      rw [Bool.eq_false_iff.2 htry] at ht
      exact ⟨_, _, h.enqueue ht (Bool.eq_false_iff.2 havailable)⟩

/-! ## Giving it back -/

/-- The unlocker counts itself out, and the count is the number of the readers that are left. -/
theorem Inv.vacate {m : Mode} (ht : s.phase t = .unlockLocked m)
    (hp : ∀ m', p.holds m' = false) :
    (s.fault || decide (s.count = 0)) = false ∧
      (if s.count < 0 then 0 else s.count - 1) = ((readers.erase t).length : Int) ∧
      Holder (Phase.holds .write) (update s.phase t p) none := by
  rw [h.noFault, Bool.false_or, decide_eq_false_iff_not]
  cases m with
  | read =>
    have hin : t ∈ readers := (h.readHolders.mem_iff t).2 (ht ▸ rfl)
    have hpos := length_pos_of_mem hin
    have hcounts : writer = none ∧ s.count = readers.length := by
      rcases h.count with hcounts | ⟨_, hnil, _⟩
      · exact hcounts
      · rw [hnil] at hin
        cases hin
    obtain ⟨rfl, hcount⟩ := hcounts
    refine ⟨by omega, ?_, h.writeHolder.keep (by rw [ht, hp]; rfl)⟩
    rw [length_erase_of_mem hin, if_neg (by omega)]
    omega
  | write =>
    obtain rfl : writer = some t := h.writeHolder.eq_some (ht ▸ rfl)
    have hcounts : readers = [] ∧ s.count = -1 := by
      rcases h.count with ⟨hnone, _⟩ | ⟨_, hcounts⟩
      · cases hnone
      · exact hcounts
    obtain ⟨rfl, hcount⟩ := hcounts
    exact ⟨by omega, if_pos (by omega), h.writeHolder.give (hp _)⟩

theorem Inv.wake_none {m : Mode} (ht : s.phase t = .unlockLocked m)
    (hfree : readers.erase t = []) : wake = none := by
  have hnone : Holder (Phase.holds .write) (update s.phase t .idle) none :=
    (h.vacate ht fun _ => rfl).2.2
  cases hwake : wake with
  | none => rfl
  | some x =>
    exfalso
    have hcarry : (s.phase x.1).wakes = some x.2 := (h.waking x.1 x.2).2 hwake
    obtain ⟨w, hw⟩ : ∃ w, w ∈ x.2 := by
      rw [Phase.wakes] at hcarry
      split at hcarry
      · cases hcarry
      · rename_i hne
        rw [← Option.some.inj hcarry]
        exact exists_mem_of_ne_nil _ hne
    have hreleased : (s.phase w).isReleased = true := by
      rw [← h.released.mem_iff, hwake]
      exact hw
    have hwt : w ≠ t := by
      rintro rfl
      rw [ht] at hreleased
      cases hreleased
    cases hphase : s.phase w with
    | released m' =>
      cases m' with
      | read =>
        have hin : w ∈ readers := (h.readHolders.mem_iff w).2 (hphase ▸ rfl)
        have hleft : w ∈ readers.erase t := (mem_erase_of_ne hwt).2 hin
        rw [hfree] at hleft
        cases hleft
      | write =>
        have hfalse := hnone.not_none w
        rw [update_of_ne hwt, hphase] at hfalse
        cases hfalse
    | _ => rw [hphase] at hreleased; cases hreleased

omit [DecidableEq T] in
theorem Inv.waiter_facts {m m' : Mode} (ht : s.phase t = .unlockLocked m)
    (hw : (s.phase w).waits m' = true) : w ≠ t ∧ s.phase w = .parked m' := by
  have hne : w ≠ t := by
    rintro rfl
    rw [ht] at hw
    cases hw
  refine ⟨hne, ?_⟩
  cases hphase : s.phase w with
  | queued m'' =>
    exact absurd (h.locks.eq (t := t) (ht ▸ rfl) (hphase ▸ rfl)) hne
  | parked m'' =>
    rw [hphase] at hw
    rw [of_decide_eq_true hw]
  | _ => rw [hphase] at hw; cases hw

end

/-- The state in which `rwmutex_unlock` decides whom to wake. -/
def State.counted (s : State T) : State T :=
  { s with
    fault := s.fault || s.count = 0
    count := if s.count < 0 then 0 else s.count - 1 }

theorem Inv.unlockReaders {m : Mode} (h : Inv s readers writer wake) (ht : s.phase t = .unlockLocked m)
    (hzero : s.counted.count = 0) (hwait : s.readWaiters ≠ []) :
    Inv (s.counted.releaseReaders t) s.readWaiters none (some (t, s.readWaiters)) := by
  obtain ⟨hfault, hcount, hnone⟩ := h.vacate ht (p := .unlocked s.readWaiters) fun _ => rfl
  have hfree : readers.erase t = [] := length_eq_zero_iff.1 (by
    have hlen : ((readers.erase t).length : Int) = 0 := hcount.symm.trans hzero
    omega)
  obtain rfl := h.wake_none ht hfree
  have hleft := h.readHolders.erase (t := t) (p := .unlocked s.readWaiters) rfl
  rw [hfree] at hleft
  -- the waiting readers stand in front of the waiter lock
  have hparked : ∀ u ∈ s.readWaiters,
      update s.phase t (.unlocked s.readWaiters) u = .parked .read := by
    intro u hu
    obtain ⟨hut, hphase⟩ := h.waiter_facts ht ((h.readQueue.mem_iff u).1 hu)
    rw [update_of_ne hut, hphase]
  have hkeep : ∀ {β : Type} (f : Phase T → β), f (.parked .read) = f (.released .read) →
      ∀ u ∈ s.readWaiters,
        f (update s.phase t (.unlocked s.readWaiters) u) = f (.released .read) := by
    intro β f hf u hu
    rw [hparked u hu, hf]
  have hwakes : (Phase.unlocked s.readWaiters).wakes = some s.readWaiters := if_neg hwait
  refine ⟨(h.locks.keep (ht ▸ rfl)).setAll_keep (hkeep _ rfl),
    hleft.setAll_fill rfl h.readQueue.nodup,
    hnone.setAll_keep (hkeep _ rfl),
    .inl ⟨rfl, h.readCount⟩, (h.readQueue.keep (ht ▸ rfl)).setAll_clear rfl,
    (h.writeQueue.keep (ht ▸ rfl)).setAll_keep (hkeep _ rfl),
    rfl, fun hnil => absurd rfl hnil, fun _ => ?_,
    (h.released.keep (ht ▸ rfl)).setAll_fill rfl h.readQueue.nodup,
    (h.waking.take hwakes).setAll_keep (hkeep _ rfl), h.order,
    fun u => ?_, hfault⟩
  · show s.readWaiterCount ≠ 0
    rw [h.readCount]
    have hpos := length_pos_iff.2 hwait
    omega
  · have hkept := (h.once.keep (t := t) (p := .unlocked s.readWaiters) (ht ▸ rfl)) u
    show s.queuings u = s.wakes u + Phase.pending (setAll _ s.readWaiters _ u)
    rw [setAll]
    split
    · rename_i hu
      rw [hparked u hu] at hkept
      exact hkept
    · exact hkept

theorem Inv.unlockQuiet {m : Mode} (h : Inv s readers writer wake) (ht : s.phase t = .unlockLocked m)
    (hreaders : s.readWaiters ≠ [] → s.counted.count = -1)
    (hwriters : s.writeWaiters ≠ [] → s.counted.count ≠ 0) :
    Inv (s.counted.goto t (.unlocked [])) (readers.erase t) none wake := by
  obtain ⟨hfault, hcount, hnone⟩ := h.vacate ht (p := .unlocked []) fun _ => rfl
  refine ⟨h.locks.keep (ht ▸ rfl), h.readHolders.erase rfl, hnone, .inl ⟨rfl, hcount⟩,
    h.readQueue.keep (ht ▸ rfl), h.writeQueue.keep (ht ▸ rfl), h.readCount, hreaders,
    hwriters, h.released.keep (ht ▸ rfl), h.waking.keep (ht ▸ rfl), h.order,
    h.once.keep (ht ▸ rfl), hfault⟩

theorem Inv.unlockWriter {m : Mode} (h : Inv s readers writer wake) (ht : s.phase t = .unlockLocked m)
    (hzero : s.counted.count = 0) (hread : s.readWaiters = []) :
    ∃ readers' writer' wake', Inv (s.counted.releaseWriter t) readers' writer' wake' := by
  rw [State.releaseWriter]
  cases hw : s.counted.writeWaiters with
  | nil =>
    exact ⟨_, _, _, h.unlockQuiet ht (fun hne => absurd hread hne) fun hne => absurd hw hne⟩
  | cons w rest =>
    have hqueue := h.writeQueue
    rw [show s.writeWaiters = w :: rest from hw] at hqueue
    obtain ⟨hwt, hparked⟩ := h.waiter_facts ht ((hqueue.mem_iff w).1 mem_cons_self)
    obtain ⟨hfault, hcount, hnone⟩ := h.vacate ht (p := .unlocked [w]) fun _ => rfl
    have hfree : readers.erase t = [] := length_eq_zero_iff.1 (by
      have hlen : ((readers.erase t).length : Int) = 0 := hcount.symm.trans hzero
      omega)
    obtain rfl := h.wake_none ht hfree
    have hleft := h.readHolders.erase (t := t) (p := .unlocked [w]) rfl
    rw [hfree] at hleft
    have hat : update s.phase t (.unlocked [w]) w = .parked .write := by
      rw [update_of_ne hwt, hparked]
    have hkeep : ∀ {β : Type} (f : Phase T → β), f (.parked .write) = f (.released .write) →
        f (.released .write) = f (update s.phase t (.unlocked [w]) w) := by
      intro β f hf
      rw [hat, hf]
    refine ⟨[], some w, some (t, [w]), ?_, ?_, hnone.take rfl, .inr ⟨nofun, rfl, rfl⟩, ?_, ?_,
      h.readCount, fun _ => rfl, fun _ => (by decide : (-1 : Int) ≠ 0), ?_, ?_, ?_, ?_, hfault⟩
    · exact (h.locks.keep (p := .unlocked [w]) (by rw [ht]; rfl)).keep (hkeep _ rfl)
    · exact hleft.keep (hkeep _ rfl)
    · exact (h.readQueue.keep (p := .unlocked [w]) (by rw [ht]; rfl)).keep (hkeep _ rfl)
    · exact (hqueue.keep (p := .unlocked [w]) (by rw [ht]; rfl)).pop (p := Phase.released .write) rfl
    · exact (h.released.keep (p := .unlocked [w]) (by rw [ht]; rfl)).push (p := Phase.released .write)
        (by rw [hat]; rfl) rfl
    · exact (h.waking.take (p := Phase.unlocked [w]) rfl).keep (hkeep _ rfl)
    · show s.writersQueued = (s.writersGranted ++ [w]) ++ rest
      rw [h.order, show s.writeWaiters = w :: rest from hw, append_assoc, singleton_append]
    · exact (h.once.keep (p := .unlocked [w]) (by rw [ht]; rfl)).keep (hkeep _ rfl)

theorem Inv.unlock {m : Mode} (h : Inv s readers writer wake) (ht : s.phase t = .unlockLocked m) :
    ∃ readers' writer' wake', Inv (rwmutexUnlock s t) readers' writer' wake' := by
  obtain ⟨-, hcount, -⟩ := h.vacate ht (p := .idle) fun _ => rfl
  have hleft : s.counted.count = ((readers.erase t).length : Int) := hcount
  have hnil : ¬(0 : Int) < s.readWaiterCount → s.readWaiters = [] := by
    intro hlen
    rw [h.readCount] at hlen
    exact length_eq_zero_iff.1 (by omega)
  show ∃ readers' writer' wake', Inv (if s.counted.count = 0 ∧ 0 < s.counted.readWaiterCount then
    s.counted.releaseReaders t else if s.counted.count = 0 then s.counted.releaseWriter t
    else s.counted.goto t (.unlocked [])) readers' writer' wake'
  split
  · rename_i htest
    have hwait : s.readWaiters ≠ [] := by
      intro heq
      have hpos : 0 < s.readWaiterCount := htest.2
      rw [h.readCount, heq] at hpos
      exact absurd hpos (Int.lt_irrefl 0)
    exact ⟨_, _, _, h.unlockReaders ht htest.1 hwait⟩
  · rename_i htest
    split
    · rename_i hzero
      exact h.unlockWriter ht hzero (hnil fun hpos => htest ⟨hzero, hpos⟩)
    · rename_i hzero
      refine ⟨_, _, _, h.unlockQuiet ht (fun hwait => ?_) fun _ => hzero⟩
      -- readers wait only for a writer, and then the count is 0 now
      have hwriter := h.readersWait hwait
      refine absurd ?_ hzero
      show (if s.count < 0 then 0 else s.count - 1) = 0
      rw [hwriter]
      rfl

/-! ## Waking -/

theorem balanced_pop {queuings wakes : T → Nat} (h : Balanced phase queuings wakes)
    (ht : (phase t).pending = 1) (hp : p.pending = 0) :
    Balanced (update phase t p) queuings (update wakes t (wakes t + 1)) := by
  intro u
  have hu := h u
  rw [update_apply, update_apply]
  split
  · rename_i hut
    rw [hut, ht] at hu
    rw [hut, hp, hu]
  · exact hu

theorem Inv.ready {rest : List T} (h : Inv s readers writer wake) (ht : s.phase t = .waking (w :: rest)) :
    ∃ wake', Inv (s.ready t w rest) readers writer wake' := by
  obtain rfl : wake = some (t, w :: rest) := (h.waking t _).1 (ht ▸ rfl)
  have hreleased : (s.phase w).isReleased = true := (h.released.mem_iff w).1 mem_cons_self
  obtain ⟨m, hw⟩ : ∃ m, s.phase w = .released m := by
    cases hphase : s.phase w with
    | released m => exact ⟨m, rfl⟩
    | _ => rw [hphase] at hreleased; cases hreleased
  have hwt : w ≠ t := by
    rintro rfl
    rw [ht] at hw
    cases hw
  have hat : update s.phase t (.waking rest) w = .released m := by
    rw [update_of_ne hwt, hw]
  have hresume : (s.phase w).resume = .holding m := by rw [hw]; rfl
  have hrest : Listed Phase.isReleased (update (update s.phase t (.waking rest)) w
      (.holding m)) rest :=
    (h.released.keep (p := .waking rest) (ht ▸ rfl)).pop rfl
  obtain ⟨wake', hwake', hlist⟩ : ∃ wake', Carrier Phase.wakes
      (update (update s.phase t (.waking rest)) w (.holding m)) wake' ∧
      wakeListOf wake' = rest := by
    have hkeep : (Phase.holding m : Phase T).wakes =
        (update s.phase t (.waking rest) w).wakes := by rw [hat]; rfl
    cases rest with
    | nil => exact ⟨none, (h.waking.give rfl).keep hkeep, rfl⟩
    | cons v rest => exact ⟨some (t, v :: rest), (h.waking.change rfl).keep hkeep, rfl⟩
  rw [State.ready, hresume]
  have hkeep : ∀ {β : Type} (f : Phase T → β), f (.released m) = f (.holding m) →
      f (.holding m) = f (update s.phase t (.waking rest) w) := by
    intro β f hf
    rw [hat, hf]
  refine ⟨wake', ?_, ?_, ?_, h.count, ?_, ?_, h.readCount, h.readersWait, h.writersWait, ?_, hwake', h.order,
    ?_, h.noFault⟩
  · exact (h.locks.keep (p := .waking rest) (ht ▸ rfl)).keep (hkeep _ rfl)
  · exact (h.readHolders.keep (p := .waking rest) (ht ▸ rfl)).keep (hkeep _ rfl)
  · exact (h.writeHolder.keep (p := .waking rest) (ht ▸ rfl)).keep (hkeep _ rfl)
  · exact (h.readQueue.keep (p := .waking rest) (ht ▸ rfl)).keep (hkeep _ rfl)
  · exact (h.writeQueue.keep (p := .waking rest) (ht ▸ rfl)).keep (hkeep _ rfl)
  · rw [hlist]
    exact hrest
  · have hpending : (update s.phase t (.waking rest) w).pending = 1 := by rw [hat]; rfl
    exact balanced_pop (h.once.keep (p := .waking rest) (ht ▸ rfl)) hpending rfl

/-! ## Runs -/

theorem Inv.run {s' : State T} (h : Inv s readers writer wake) (hstep : s.run t = some s') :
    ∃ readers' writer' wake', Inv s' readers' writer' wake' := by
  rw [State.run] at hstep
  cases ht : s.phase t with
  | idle | parked _ | released _ | holding _ => rw [ht] at hstep; cases hstep
  | calling _ _ | unlocking _ =>
    rw [ht] at hstep
    exact ⟨_, _, _, h.spinLock ht hstep rfl (fun _ => rfl) (fun _ => rfl) rfl rfl rfl⟩
  | locked m try_ =>
    rw [ht] at hstep
    cases hstep
    obtain ⟨readers', writer', h'⟩ := h.lockFunction ht
    exact ⟨readers', writer', wake, h'⟩
  | acquired _ | failed | queued _ | unlocked _ =>
    rw [ht] at hstep
    cases hstep
    exact ⟨_, _, _, h.spinUnlock ht rfl rfl (fun _ => rfl) (fun _ => rfl) rfl rfl rfl⟩
  | unlockLocked m =>
    rw [ht] at hstep
    cases hstep
    exact h.unlock ht
  | waking l =>
    rw [ht] at hstep
    cases l with
    | nil =>
      cases hstep
      exact ⟨_, _, _, h.move ht (h.locks.keep (ht ▸ rfl)) (fun _ => rfl) (fun _ => rfl) rfl rfl
        rfl⟩
    | cons w rest =>
      cases hstep
      obtain ⟨wake', h'⟩ := h.ready ht
      exact ⟨readers, writer, wake', h'⟩

theorem Inv.step {s' : State T} {e : Event T} (h : Inv s readers writer wake)
    (hstep : RwMutex.step s e = some s') : ∃ readers' writer' wake', Inv s' readers' writer' wake' := by
  cases e with
  | call t m try_ =>
    obtain ⟨ht, rfl⟩ := Option.ite_some_none_eq_some.1 hstep
    exact ⟨_, _, _, h.move ht (h.locks.keep (ht ▸ rfl)) (fun _ => rfl) (fun _ => rfl) rfl rfl
      rfl⟩
  | unlock t =>
    rw [RwMutex.step] at hstep
    split at hstep
    · rename_i m ht
      cases hstep
      exact ⟨_, _, _, h.move ht (h.locks.keep (ht ▸ rfl)) (fun _ => rfl) (fun _ => rfl) rfl rfl
        rfl⟩
    · cases hstep
  | run t => exact h.run hstep

omit [DecidableEq T] in
theorem Inv.sound (h : Inv s readers writer wake) : Sound s where
  writer := by
    rcases h.count with ⟨rfl, hcount⟩ | ⟨hsome, _, hcount⟩
    · refine ⟨fun hneg => by omega, fun ⟨t, ht⟩ => ?_⟩
      rw [h.writeHolder.not_none t] at ht
      cases ht
    · obtain ⟨t, ht⟩ := Option.ne_none_iff_exists'.1 hsome
      exact ⟨fun _ => ⟨t, (h.writeHolder t).2 ht⟩, fun _ => hcount⟩
  oneWriter t u ht hu := h.writeHolder.eq hu ht
  readers := by
    refine ⟨readers, h.readHolders.nodup, h.readHolders.mem_iff, fun hne => ?_, fun hneg => ?_⟩
    · rcases h.count with ⟨_, hcount⟩ | ⟨_, _, hcount⟩
      · exact hcount
      · exact absurd hcount hne
    · rcases h.count with ⟨_, hcount⟩ | ⟨_, hnil, _⟩
      · omega
      · exact hnil
  readCount := h.readCount
  readersWait := h.readersWait
  nobodyWaits := by
    intro hzero
    refine ⟨?_, ?_⟩
    · by_contra hne
      have hneg := h.readersWait hne
      omega
    · by_contra hne
      exact h.writersWait hne hzero
  order := h.order
  once := h.once
  wakesHolder := by
    intro w
    rw [← h.released.mem_iff w]
    cases hwake : wake with
    | none =>
      refine ⟨nofun, fun ⟨t, ht⟩ => ?_⟩
      have hcarry : (s.phase t).wakes = some (s.phase t).wakeList :=
        if_neg fun hnil => by rw [hnil] at ht; cases ht
      have hsome := (h.waking t _).1 hcarry
      rw [hwake] at hsome
      cases hsome
    | some x =>
      have hlist : ∀ t, w ∈ (s.phase t).wakeList → (s.phase t).wakeList = x.2 := by
        intro t ht
        have hcarry : (s.phase t).wakes = some (s.phase t).wakeList :=
          if_neg fun hnil => by rw [hnil] at ht; cases ht
        have hsome := (h.waking t _).1 hcarry
        rw [hwake] at hsome
        exact (Prod.ext_iff.1 (Option.some.inj hsome)).2.symm
      refine ⟨fun hin => ⟨x.1, ?_⟩, fun ⟨t, ht⟩ => ?_⟩
      · have hcarry : (s.phase x.1).wakes = some x.2 := (h.waking x.1 x.2).2 hwake
        rw [Phase.wakes] at hcarry
        split at hcarry
        · cases hcarry
        · rw [Option.some.inj hcarry]
          exact hin
      · rw [hlist t ht] at ht
        exact ht
  noFault := h.noFault

end Model

/-! ## A writer and two readers -/

end Svalinn.Runtime.RwMutex
