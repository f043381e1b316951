/-
  Runtime/Mutex.lean --- the mutex of the runtime.

  Source: `inc/runtime/sync.h` (`mutex_lock`, `mutex_try_lock`, `mutex_unlock`) and
  `runtime/sync.c` (`__mutex_lock`, `__mutex_unlock`, `mutex_init`).

  A thread's phase says where it stands in the code.  Each atomic access to `held` is a step
  of its own, and so are taking and releasing the waiter lock; what a thread does to the
  waiter list and to `oldest_tsc` between them is one step, since only the holder of the
  waiter lock touches them.
-/
import Mathlib.Algebra.Group.Nat.Defs
import Svalinn.Lib.Transition
import Svalinn.Lib.Phases

set_option autoImplicit false

namespace Svalinn.Runtime.Mutex

open Svalinn.Lib Function List

def waiterFlag : Nat := 2 ^ 31

def uint64Max : Nat := 2 ^ 64 - 1

inductive Phase (T : Type) where
  | idle
  /-- the compare-and-swap of `mutex_lock` failed -/
  | lockSlow
  | lockLocked
  | lockRaced
  | lockDone
  | lockQueue
  | lockPark
  | parked
  | handed
  | holding
  /-- the compare-and-swap of `mutex_unlock` failed -/
  | unlockSlow
  | unlockLocked
  | unlockEmpty
  | unlockDone
  | unlockPopped (w : T)
  | unlockRelease (w : T)
  | waking (w : T)
  deriving DecidableEq

def Phase.locked {T : Type} : Phase T → Bool
  | .lockLocked | .lockRaced | .lockDone | .lockQueue | .lockPark => true
  | .unlockLocked | .unlockEmpty | .unlockDone | .unlockPopped _ | .unlockRelease _ => true
  | _ => false

/-- The thread holds the mutex: from the access that gave it the mutex to the one that gives
it away. -/
def Phase.holds {T : Type} : Phase T → Bool
  | .lockRaced | .lockDone | .handed | .holding | .unlockSlow | .unlockLocked | .unlockEmpty => true
  | _ => false

/-- The waiter that the thread has taken off the list and not made ready yet. -/
def Phase.hands {T : Type} : Phase T → Option T
  | .unlockPopped w | .unlockRelease w | .waking w => some w
  | _ => none

def Phase.waits {T : Type} : Phase T → Bool
  | .lockPark | .parked => true
  | _ => false

def Phase.flagged {T : Type} : Phase T → Bool
  | .lockQueue | .unlockSlow | .unlockLocked | .unlockEmpty => true
  | _ => false

def Phase.isHanded {T : Type} : Phase T → Bool
  | .handed => true
  | _ => false

/-- The thread has changed the head of the list and not yet `oldest_tsc`. -/
def Phase.stale {T : Type} : Phase T → Bool
  | .unlockPopped _ => true
  | _ => false

/-- What a caller sees of a phase: in no call, in `mutex_lock`, between the two, in `mutex_unlock`. -/
inductive Stage where
  | idle
  | lock
  | holding
  | unlock
  deriving DecidableEq

def Phase.stage {T : Type} : Phase T → Stage
  | .idle => .idle
  | .holding => .holding
  | .lockSlow | .lockLocked | .lockRaced | .lockDone | .lockQueue | .lockPark | .parked | .handed => .lock
  | .unlockSlow | .unlockLocked | .unlockEmpty | .unlockDone => .unlock
  | .unlockPopped _ | .unlockRelease _ | .waking _ => .unlock

section Model

variable {T : Type} [DecidableEq T]

structure State (T : Type) where
  held : Nat
  waiterLock : Option T
  waiters : List T
  oldestTsc : Nat
  /-- `ready_tsc` of each thread -/
  readyTsc : T → Nat
  phase : T → Phase T
  queued : List T
  granted : List T
  woken : List T

def State.goto (s : State T) (t : T) (p : Phase T) : State T :=
  { s with phase := update s.phase t p }

/-- `ready_tsc` of the head of the list. -/
def headTsc (readyTsc : T → Nat) : List T → Nat
  | [] => uint64Max
  | t :: _ => readyTsc t

inductive Event (T : Type) where
  | lock (t : T)
  | tryLock (t : T)
  | unlock (t : T)
  | run (t : T) (tsc : Nat)
  | stamp (t : T) (tsc : Nat)

/-- `spin_lock` succeeds when the lock is free. -/
def State.spinLock (s : State T) (t : T) (p : Phase T) : Option (State T) :=
  if s.waiterLock = none then some ({ s with waiterLock := some t }.goto t p) else none

def State.spinUnlock (s : State T) (t : T) (p : Phase T) : State T :=
  { s with waiterLock := none }.goto t p

def State.enqueue (s : State T) (t : T) (tsc : Nat) : State T :=
  { s with
    readyTsc := update s.readyTsc t tsc
    waiters := s.waiters ++ [t]
    oldestTsc := if s.waiters = [] then tsc else s.oldestTsc
    queued := s.queued ++ [t] }.goto t .lockPark

def State.pop (s : State T) (t : T) : State T :=
  match s.waiters with
  | [] => s.goto t .unlockEmpty
  | w :: rest =>
    ({ s with waiters := rest, granted := s.granted ++ [w] }.goto t (.unlockPopped w)).goto w .handed

/-- `thread_ready`. -/
def State.ready (s : State T) (t w : T) (tsc : Nat) : State T :=
  ({ s with readyTsc := update s.readyTsc w tsc, woken := s.woken ++ [w] }.goto t
    .idle).goto w .holding

/-- The next step of `__mutex_lock` or `__mutex_unlock`. -/
def State.run (s : State T) (t : T) (tsc : Nat) : Option (State T) :=
  match s.phase t with
  | .lockSlow => s.spinLock t .lockLocked
  | .lockLocked =>
    some ({ s with held := s.held ||| waiterFlag }.goto t (if s.held = 0 then .lockRaced else .lockQueue))
  | .lockRaced => some ({ s with held := 1 }.goto t .lockDone)
  | .lockDone => some (s.spinUnlock t .holding)
  | .lockQueue => some (s.enqueue t tsc)
  | .lockPark => some (s.spinUnlock t .parked)
  | .unlockSlow => s.spinLock t .unlockLocked
  | .unlockLocked => some (s.pop t)
  | .unlockEmpty => some ({ s with held := 0 }.goto t .unlockDone)
  | .unlockDone => some (s.spinUnlock t .idle)
  | .unlockPopped w => some ({ s with oldestTsc := headTsc s.readyTsc s.waiters }.goto t (.unlockRelease w))
  | .unlockRelease w => some (s.spinUnlock t (.waking w))
  | .waking w => some (s.ready t w tsc)
  | .idle | .parked | .handed | .holding => none

def step (s : State T) : Event T → Option (State T)
  | .lock t =>
    if s.phase t = .idle then
      some (if s.held = 0 then { s with held := 1 }.goto t .holding else s.goto t .lockSlow)
    else none
  | .tryLock t =>
    if s.phase t = .idle then
      some (if s.held = 0 then { s with held := 1 }.goto t .holding else s)
    else none
  | .unlock t =>
    if s.phase t = .holding then
      some (if s.held = 1 then { s with held := 0 }.goto t .idle else s.goto t .unlockSlow)
    else none
  | .run t tsc => s.run t tsc
  | .stamp t tsc =>
    if s.phase t = .lockPark ∨ s.phase t = .parked then none
    else some { s with readyTsc := update s.readyTsc t tsc }

def mutexInit (readyTsc : T → Nat) : State T :=
  ⟨0, none, [], uint64Max, readyTsc, fun _ => .idle, [], [], []⟩

/-! ## The property -/

structure Protocol (s : State T) : Prop where
  exclusive : ∀ t u, (s.phase t).holds = true → (s.phase u).holds = true → t = u
  noStranded : s.waiterLock = none → s.waiters ≠ [] →
    s.held.testBit 0 = true ∧ s.held.testBit 31 = true ∧ ∃ t, (s.phase t).holds = true
  /-- Given in the order of the queue, and made ready in the order given, each time once. -/
  order : s.queued = s.granted ++ s.waiters
  once : s.woken = s.granted ∨ ∃ w, s.granted = s.woken ++ [w] ∧ s.phase w = .handed
  oldest : s.waiterLock = none → s.oldestTsc = headTsc s.readyTsc s.waiters

/-! ## The word -/

variable {phase : T → Phase T} {t w : T} {p : Phase T} {held : Nat} {owner : Option T}

theorem waiterFlag_gt : 1 < waiterFlag := by decide

structure Owns (phase : T → Phase T) (held : Nat) (owner : Option T) : Prop where
  holds : Holder Phase.holds phase owner
  free : owner = none → held = 0
  raced : ∀ t, phase t = .lockRaced → held = waiterFlag
  taken : ∀ t, owner = some t → phase t ≠ .lockRaced → held = 1 ∨ held = waiterFlag + 1
  flagged : ∀ t, (phase t).flagged = true → held = waiterFlag + 1

theorem Owns.owner_none (h : Owns phase 0 owner) : owner = none := by
  have hflag := waiterFlag_gt
  cases howner : owner with
  | none => rfl
  | some u =>
    exfalso
    by_cases hraced : phase u = .lockRaced
    · have hword := h.raced u hraced
      omega
    · have hword := h.taken u howner hraced
      omega

theorem Owns.keep (h : Owns phase held owner) (hp : p.holds = (phase t).holds)
    (hraced : p ≠ .lockRaced) (hold : phase t ≠ .lockRaced)
    (hflag : p.flagged = true → held = waiterFlag + 1) : Owns (update phase t p) held owner := by
  refine ⟨h.holds.keep hp, h.free, fun u hu => ?_, fun u hu hne => ?_, fun u hu => ?_⟩
  · rw [update_apply] at hu
    split at hu
    · exact absurd hu hraced
    · exact h.raced u hu
  · by_cases hut : u = t
    · rw [hut] at hu
      exact h.taken t hu hold
    · rw [update_of_ne hut] at hne
      exact h.taken u hu hne
  · rw [update_apply] at hu
    split at hu
    · exact hflag hu
    · exact h.flagged u hu

theorem Owns.acquire {word : Nat} (h : Owns phase 0 owner) (hp : p.holds = true)
    (hflag : p.flagged = false)
    (hword : (p = .lockRaced ∧ word = waiterFlag) ∨ (p ≠ .lockRaced ∧ word = 1)) :
    Owns (update phase t p) word (some t) := by
  have hpos := waiterFlag_gt
  obtain rfl := h.owner_none
  refine ⟨h.holds.take hp, nofun, fun u hu => ?_, fun u hu hne => ?_, fun u hu => ?_⟩
  · rw [update_apply] at hu
    split at hu
    · rcases hword with ⟨_, hw⟩ | ⟨hne, _⟩
      · exact hw
      · exact absurd hu hne
    · have hzero := h.raced u hu
      omega
  · cases hu
    rw [update_self] at hne
    rcases hword with ⟨heq, _⟩ | ⟨_, hw⟩
    · exact absurd heq hne
    · exact .inl hw
  · rw [update_apply] at hu
    split at hu
    · rw [hflag] at hu
      cases hu
    · have hzero := h.flagged u hu
      omega

theorem Owns.release (h : Owns phase held (some t)) (hp : p.holds = false) (hflag : p.flagged = false)
    (hothers : ∀ u, u ≠ t → (phase u).flagged = false) : Owns (update phase t p) 0 none := by
  have hholds := h.holds.give hp
  refine ⟨hholds, fun _ => rfl, fun u hu => ?_, nofun, fun u hu => ?_⟩
  · have hfalse := hholds.not_none u
    rw [hu] at hfalse
    cases hfalse
  · rw [update_apply] at hu
    split at hu
    · rw [hflag] at hu
      cases hu
    · rename_i hut
      rw [hothers u hut] at hu
      cases hu

theorem Owns.transfer (h : Owns phase (waiterFlag + 1) (some t)) (hp : p.holds = false) :
    Owns (update (update phase t p) w .handed) (waiterFlag + 1) (some w) := by
  have hgone := h.holds.give hp
  refine ⟨hgone.take rfl, nofun, fun u hu => ?_, fun _ _ _ => .inr rfl, fun _ _ => rfl⟩
  rw [update_apply] at hu
  split at hu
  · cases hu
  · have hfalse := hgone.not_none u
    rw [hu] at hfalse
    cases hfalse

omit [DecidableEq T] in
theorem Owns.setFlag (h : Owns phase held owner) (hzero : held ≠ 0) (hraced : ∀ u, phase u ≠ .lockRaced) :
    held ||| waiterFlag = waiterFlag + 1 ∧ Owns phase (held ||| waiterFlag) owner := by
  cases howner : owner with
  | none => exact absurd (h.free howner) hzero
  | some u =>
    have hor : held ||| waiterFlag = waiterFlag + 1 := by
      rcases h.taken u howner (hraced u) with hword | hword
      · rw [hword]
        decide
      · rw [hword]
        decide
    rw [hor, ← howner]
    exact ⟨rfl, h.holds, fun hnone => absurd hnone (by rw [howner]; nofun),
      fun v hv => absurd hv (hraced v), fun _ _ _ => .inr rfl, fun _ _ => rfl⟩

theorem Owns.settle (h : Owns phase held owner) (ht : phase t = .lockRaced)
    (hothers : ∀ u, u ≠ t → (phase u).flagged = false) :
    Owns (update phase t .lockDone) 1 owner := by
  have howner : owner = some t := h.holds.eq_some (ht ▸ rfl)
  refine ⟨h.holds.keep (ht ▸ rfl), fun hnone => ?_, fun u hu => ?_, fun _ _ _ => .inl rfl,
    fun u hu => ?_⟩
  · rw [howner] at hnone
    cases hnone
  · rw [update_apply] at hu
    split at hu
    · cases hu
    · rename_i hut
      exact absurd (h.holds.eq (ht ▸ rfl) (hu ▸ rfl)) hut
  · rw [update_apply] at hu
    split at hu
    · cases hu
    · rename_i hut
      rw [hothers u hut] at hu
      cases hu

/-! ## The hand-over -/

/-- The hand-over under way: the unlocker and its waiter. -/
structure Hands (phase : T → Phase T) (granted woken : List T) (handing : Option (T × T)) : Prop where
  hands : Carrier Phase.hands phase handing
  handed : Holder Phase.isHanded phase (handing.map Prod.snd)
  once : granted = woken ++ handing.toList.map Prod.snd

variable {granted woken : List T} {handing : Option (T × T)}

theorem Hands.keep (h : Hands phase granted woken handing) (hp : p.hands = (phase t).hands)
    (hhanded : p.isHanded = (phase t).isHanded) :
    Hands (update phase t p) granted woken handing :=
  ⟨h.hands.keep hp, h.handed.keep hhanded, h.once⟩

theorem Hands.start (h : Hands phase granted woken none) (ht : (phase t).isHanded = false)
    (hw : (phase w).hands = none) (hne : w ≠ t) :
    Hands (update (update phase t (.unlockPopped w)) w .handed) (granted ++ [w])
      woken (some (t, w)) := by
  refine ⟨(h.hands.take (w := w) rfl).keep ?_, (h.handed.keep (p := Phase.unlockPopped w) ht.symm).take rfl, ?_⟩
  · rw [update_of_ne hne, hw]
    rfl
  · rw [h.once]
    exact congrArg (· ++ [w]) (append_nil woken)

theorem Hands.finish (h : Hands phase granted woken (some (t, w))) (ht : (phase t).isHanded = false)
    (hw : (phase w).hands = none) (hne : w ≠ t) :
    Hands (update (update phase t .idle) w .holding) granted (woken ++ [w]) none := by
  refine ⟨(h.hands.give rfl).keep ?_, (h.handed.keep (p := Phase.idle) ht.symm).give rfl, ?_⟩
  · rw [update_of_ne hne, hw]
    rfl
  · rw [h.once]
    exact (append_nil _).symm

/-! ## An unlocker that found the list empty -/

def Emptied (phase : T → Phase T) (waiters : List T) : Prop :=
  ∀ t, phase t = .unlockEmpty → waiters = []

theorem Emptied.keep {waiters : List T} (h : Emptied phase waiters)
    (hp : p = .unlockEmpty → waiters = []) : Emptied (update phase t p) waiters := by
  intro u hu
  rw [update_apply] at hu
  split at hu
  · exact hp hu
  · exact h u hu

/-! ## The oldest time stamp -/

/-- Unless an unlocker is about to write it, `oldest_tsc` belongs to the head of the list. -/
def Oldest (phase : T → Phase T) (readyTsc : T → Nat) (waiters : List T) (oldest : Nat) : Prop :=
  (∀ t, (phase t).stale = false) → oldest = headTsc readyTsc waiters

variable {readyTsc : T → Nat} {waiters : List T} {oldest : Nat}

theorem Oldest.keep (h : Oldest phase readyTsc waiters oldest) (hold : (phase t).stale = false) :
    Oldest (update phase t p) readyTsc waiters oldest := by
  intro hstale
  refine h fun u => ?_
  by_cases hut : u = t
  · rw [hut]
    exact hold
  · have hu := hstale u
    rwa [update_of_ne hut] at hu

theorem headTsc_update (hnot : t ∉ waiters) (tsc : Nat) :
    headTsc (update readyTsc t tsc) waiters = headTsc readyTsc waiters := by
  cases waiters with
  | nil => rfl
  | cons u rest =>
    have hut : u ≠ t := fun heq => hnot (heq ▸ mem_cons_self)
    exact update_of_ne hut ..

theorem Oldest.stamp (h : Oldest phase readyTsc waiters oldest) (hnot : t ∉ waiters) (tsc : Nat) :
    Oldest phase (update readyTsc t tsc) waiters oldest := by
  intro hstale
  rw [headTsc_update hnot]
  exact h hstale

theorem Oldest.push (h : Oldest phase readyTsc waiters oldest) (hnot : t ∉ waiters)
    (hold : (phase t).stale = false) (tsc : Nat) :
    Oldest (update phase t p) (update readyTsc t tsc) (waiters ++ [t])
      (if waiters = [] then tsc else oldest) := by
  intro hstale
  cases hw : waiters with
  | nil => exact (update_self t tsc readyTsc).symm
  | cons u rest =>
    have hkept := (h.stamp hnot tsc).keep (p := p) hold hstale
    rw [hw] at hkept
    exact hkept

/-! ## The invariant -/

/-- The invariant, with the thread that holds the mutex and the hand-over under way. -/
structure Inv (s : State T) (owner : Option T) (handing : Option (T × T)) : Prop where
  locks : Holder Phase.locked s.phase s.waiterLock
  owns : Owns s.phase s.held owner
  queue : Listed Phase.waits s.phase s.waiters
  empty : Emptied s.phase s.waiters
  flag : s.waiters ≠ [] → s.held = waiterFlag + 1
  hands : Hands s.phase s.granted s.woken handing
  order : s.queued = s.granted ++ s.waiters
  oldest : Oldest s.phase s.readyTsc s.waiters s.oldestTsc

variable {s : State T}

section

variable (h : Inv s owner handing)

include h

theorem Inv.move {q : Phase T} {lock : Option T} {word : Nat} {owner' : Option T} (ht : s.phase t = q)
    (hlocks : Holder Phase.locked (update s.phase t p) lock)
    (howns : Owns (update s.phase t p) word owner')
    (hflag : s.waiters ≠ [] → word = waiterFlag + 1) (hempty : p = .unlockEmpty → s.waiters = [])
    (hwaits : p.waits = q.waits) (hhands : p.hands = q.hands) (hhanded : p.isHanded = q.isHanded)
    (hstale : q.stale = false) :
    Inv ({ s with waiterLock := lock, held := word }.goto t p) owner' handing := by
  subst ht
  exact ⟨hlocks, howns, h.queue.keep hwaits, h.empty.keep hempty, hflag, h.hands.keep hhands hhanded,
    h.order, h.oldest.keep hstale⟩

theorem Inv.goto {q : Phase T} (ht : s.phase t = q)
    (hlocked : p.locked = q.locked) (hholds : p.holds = q.holds) (hraced : p ≠ .lockRaced)
    (hold : q ≠ .lockRaced) (hflag : p.flagged = true → s.held = waiterFlag + 1)
    (hempty : p = .unlockEmpty → s.waiters = []) (hwaits : p.waits = q.waits)
    (hhands : p.hands = q.hands) (hhanded : p.isHanded = q.isHanded) (hstale : q.stale = false) :
    Inv (s.goto t p) owner handing := by
  subst ht
  exact h.move rfl (h.locks.keep hlocked) (h.owns.keep hholds hraced hold hflag) h.flag hempty hwaits
    hhands hhanded hstale

theorem Inv.spinLock {q : Phase T} {s' : State T} (ht : s.phase t = q)
    (hstep : s.spinLock t p = some s') (hlocked : p.locked = true) (hholds : p.holds = q.holds)
    (hraced : p ≠ .lockRaced) (hold : q ≠ .lockRaced)
    (hflag : p.flagged = true → s.held = waiterFlag + 1) (hempty : p ≠ .unlockEmpty)
    (hwaits : p.waits = q.waits) (hhands : p.hands = q.hands) (hhanded : p.isHanded = q.isHanded)
    (hstale : q.stale = false) : Inv s' owner handing := by
  subst ht
  obtain ⟨hfree, rfl⟩ := Option.ite_some_none_eq_some.1 hstep
  have hlocks := h.locks
  rw [hfree] at hlocks
  exact h.move rfl (hlocks.take hlocked) (h.owns.keep hholds hraced hold hflag) h.flag
    (fun heq => absurd heq hempty) hwaits hhands hhanded hstale

theorem Inv.spinUnlock {q : Phase T} (ht : s.phase t = q)
    (hlocked : q.locked = true) (hout : p.locked = false) (hholds : p.holds = q.holds)
    (hold : q ≠ .lockRaced) (hflag : p.flagged = false) (hwaits : p.waits = q.waits)
    (hhands : p.hands = q.hands) (hhanded : p.isHanded = q.isHanded) (hstale : q.stale = false) :
    Inv (s.spinUnlock t p) owner handing := by
  subst ht
  have hlocks := h.locks
  rw [h.locks.eq_some hlocked] at hlocks
  have hraced : p ≠ .lockRaced := by
    rintro rfl
    cases hout
  refine h.move rfl (hlocks.give hout) (h.owns.keep hholds hraced hold ?_) h.flag ?_ hwaits hhands
    hhanded hstale
  · intro hp
    rw [hflag] at hp
    cases hp
  · rintro rfl
    cases hout

omit [DecidableEq T] in
/-- While a thread is inside the waiter lock, only the holder of the mutex can be flagged besides it. -/
theorem Inv.not_flagged {u : T} (ht : (s.phase t).locked = true)
    (howner : owner = some t) (hu : u ≠ t) : (s.phase u).flagged = false := by
  have hlocked : (s.phase u).locked = false := Bool.eq_false_iff.2 fun hl => hu (h.locks.eq ht hl)
  have hholds : (s.phase u).holds = false := by
    refine Bool.eq_false_iff.2 fun hh => hu ?_
    have heq := h.owns.holds.eq_some hh
    rw [howner] at heq
    exact (Option.some.inj heq).symm
  cases hphase : s.phase u with
  | lockQueue | unlockLocked | unlockEmpty => rw [hphase] at hlocked; cases hlocked
  | unlockSlow => rw [hphase] at hholds; cases hholds
  | _ => rfl

theorem Inv.grab (ht : s.phase t = .idle) (hheld : s.held = 0) :
    Inv ({ s with held := 1 }.goto t .holding) (some t) handing := by
  have howns := h.owns
  have hflag := h.flag
  rw [hheld] at howns hflag
  refine h.move ht (h.locks.keep (ht ▸ rfl)) (howns.acquire rfl rfl (.inr ⟨nofun, rfl⟩))
    (fun hne => ?_) nofun rfl rfl rfl rfl
  have hpos := waiterFlag_gt
  have hword := hflag hne
  omega

theorem Inv.drop (ht : s.phase t = .holding) (hheld : s.held = 1) :
    Inv ({ s with held := 0 }.goto t .idle) none handing := by
  have howner := h.owns.holds.eq_some (t := t) (ht ▸ rfl)
  have hpos := waiterFlag_gt
  have howns := h.owns
  rw [howner] at howns
  refine h.move ht (h.locks.keep (ht ▸ rfl)) (howns.release rfl rfl fun u _ => ?_)
    (fun hne => ?_) nofun rfl rfl rfl rfl
  · refine Bool.eq_false_iff.2 fun hu => ?_
    have hword := h.owns.flagged u hu
    omega
  · have hword := h.flag hne
    omega

omit [DecidableEq T] in
theorem Inv.not_raced (ht : s.phase t = .lockLocked) (u : T) :
    s.phase u ≠ .lockRaced := by
  intro hu
  have heq : u = t := h.locks.eq (ht ▸ rfl) (hu ▸ rfl)
  rw [heq, ht] at hu
  cases hu

theorem Inv.fetchOr (ht : s.phase t = .lockLocked) :
    ∃ owner', Inv ({ s with held := s.held ||| waiterFlag }.goto t
      (if s.held = 0 then .lockRaced else .lockQueue)) owner' handing := by
  have hpos := waiterFlag_gt
  by_cases hzero : s.held = 0
  · have howns := h.owns
    have hflag := h.flag
    rw [hzero] at howns hflag
    have hword : s.held ||| waiterFlag = waiterFlag := by rw [hzero, Nat.zero_or]
    rw [if_pos hzero, hword]
    refine ⟨some t, h.move ht (h.locks.keep (ht ▸ rfl)) (howns.acquire rfl rfl (.inl ⟨rfl, rfl⟩))
      (fun hne => ?_) nofun rfl rfl rfl rfl⟩
    have hboth := hflag hne
    omega
  · obtain ⟨hword, howns⟩ := h.owns.setFlag hzero (h.not_raced ht)
    rw [if_neg hzero]
    exact ⟨owner, h.move ht (h.locks.keep (ht ▸ rfl))
      (howns.keep (ht ▸ rfl) nofun (h.not_raced ht t) fun _ => hword) (fun _ => hword) nofun rfl rfl
      rfl rfl⟩

theorem Inv.raced (ht : s.phase t = .lockRaced) :
    Inv ({ s with held := 1 }.goto t .lockDone) owner handing := by
  have hlocked : (s.phase t).locked = true := by rw [ht]; rfl
  have howner := h.owns.holds.eq_some (t := t) (ht ▸ rfl)
  refine h.move ht (h.locks.keep (ht ▸ rfl))
    (h.owns.settle ht fun u hu => h.not_flagged hlocked howner hu) (fun hne => ?_) nofun rfl rfl rfl rfl
  have hboth := h.flag hne
  have hword := h.owns.raced t ht
  omega

theorem Inv.clear (ht : s.phase t = .unlockEmpty) :
    Inv ({ s with held := 0 }.goto t .unlockDone) none handing := by
  have hlocked : (s.phase t).locked = true := by rw [ht]; rfl
  have howner := h.owns.holds.eq_some (t := t) (ht ▸ rfl)
  have howns := h.owns
  rw [howner] at howns
  exact h.move ht (h.locks.keep (ht ▸ rfl))
    (howns.release rfl rfl fun u hu => h.not_flagged hlocked howner hu)
    (fun hne => absurd (h.empty t ht) hne) nofun rfl rfl rfl rfl

theorem Inv.enqueue (ht : s.phase t = .lockQueue) (tsc : Nat) :
    Inv (s.enqueue t tsc) owner handing := by
  have hnot : t ∉ s.waiters := h.queue.not_mem (ht ▸ rfl)
  have hflag := h.owns.flagged t (ht ▸ rfl)
  refine ⟨h.locks.keep (ht ▸ rfl),
    h.owns.keep (ht ▸ rfl) nofun (by rw [ht]; nofun) nofun,
    h.queue.push (ht ▸ rfl) rfl, Emptied.keep (fun u hu => ?_) nofun, fun _ => hflag,
    h.hands.keep (ht ▸ rfl) (ht ▸ rfl), ?_, h.oldest.push hnot (ht ▸ rfl) tsc⟩
  · -- the thread that found the list empty would be inside the waiter lock, too
    have hut : u = t := h.locks.eq (ht ▸ rfl) (hu ▸ rfl)
    rw [hut, ht] at hu
    cases hu
  · show s.queued ++ [t] = s.granted ++ (s.waiters ++ [t])
    rw [h.order, append_assoc]

omit [DecidableEq T] in
theorem Inv.handing_none (ht : s.phase t = .unlockLocked) :
    handing = none := by
  cases hh : handing with
  | none => rfl
  | some x =>
    have hhanded : (s.phase x.2).isHanded = true := (h.hands.handed x.2).2 (hh ▸ rfl)
    cases hphase : s.phase x.2 with
    | handed =>
      have heq : x.2 = t := h.owns.holds.eq (ht ▸ rfl) (hphase ▸ rfl)
      rw [heq, ht] at hphase
      cases hphase
    | _ => rw [hphase] at hhanded; cases hhanded

theorem Inv.pop (ht : s.phase t = .unlockLocked) :
    ∃ owner' handing', Inv (s.pop t) owner' handing' := by
  have hflag := h.owns.flagged t (ht ▸ rfl)
  have howner := h.owns.holds.eq_some (t := t) (ht ▸ rfl)
  obtain rfl := h.handing_none ht
  rw [State.pop]
  cases hw : s.waiters with
  | nil => exact ⟨owner, none, h.goto ht rfl rfl nofun nofun (fun _ => hflag) (fun _ => hw) rfl rfl rfl rfl⟩
  | cons w rest =>
    have hwaits : (s.phase w).waits = true :=
      (h.queue.mem_iff w).1 (by rw [hw]; exact mem_cons_self)
    have hne : w ≠ t := by
      rintro rfl
      rw [ht] at hwaits
      cases hwaits
    have hlocked : (s.phase w).locked = false := Bool.eq_false_iff.2 fun hl =>
      hne (h.locks.eq (t := t) (ht ▸ rfl) hl)
    have hhands : (s.phase w).hands = none := by
      cases hphase : s.phase w with
      | lockPark | parked => rfl
      | _ => rw [hphase] at hwaits; cases hwaits
    have howns := h.owns
    rw [howner, hflag] at howns
    have hqueue := h.queue
    rw [hw] at hqueue
    have hempty : Emptied s.phase rest := fun u hu => by
      have hall := h.empty u hu
      rw [hw] at hall
      cases hall
    refine ⟨some w, some (t, w), ?_, ?_, ?_, ?_, fun _ => hflag,
      h.hands.start (by rw [ht]; rfl) hhands hne, ?_, fun hstale => ?_⟩
    · refine (h.locks.keep (p := .unlockPopped w) (by rw [ht]; rfl)).keep ?_
      rw [update_of_ne hne, hlocked]
      rfl
    · show Owns _ s.held (some w)
      rw [hflag]
      exact howns.transfer rfl
    · exact (hqueue.keep (p := .unlockPopped w) (by rw [ht]; rfl)).pop (p := Phase.handed) rfl
    · exact (hempty.keep (p := .unlockPopped w) nofun).keep (p := .handed) nofun
    · show s.queued = (s.granted ++ [w]) ++ rest
      rw [h.order, hw, append_assoc, singleton_append]
    · -- the unlocker has yet to write the time stamp
      have hphase : update (update s.phase t (.unlockPopped w)) w .handed t =
          .unlockPopped w := (update_of_ne hne.symm ..).trans (update_self ..)
      have hpopped : (Phase.unlockPopped w).stale = false := hphase ▸ hstale t
      cases hpopped

theorem Inv.refresh (ht : s.phase t = .unlockPopped w) :
    Inv ({ s with oldestTsc := headTsc s.readyTsc s.waiters }.goto t (.unlockRelease w)) owner handing := by
  exact ⟨h.locks.keep (ht ▸ rfl), h.owns.keep (ht ▸ rfl) nofun (by rw [ht]; nofun) nofun,
    h.queue.keep (ht ▸ rfl), h.empty.keep nofun, h.flag,
    h.hands.keep (ht ▸ rfl) (ht ▸ rfl), h.order, fun _ => rfl⟩

end

omit [DecidableEq T] in
theorem Inv.phase_handed (h : Inv s owner (some (t, w))) : s.phase w = .handed := by
  have hhanded : (s.phase w).isHanded = true := (h.hands.handed w).2 rfl
  cases hphase : s.phase w with
  | handed => rfl
  | _ => rw [hphase] at hhanded; cases hhanded

theorem Inv.ready (h : Inv s owner handing) (ht : s.phase t = .waking w) (tsc : Nat) :
    Inv (s.ready t w tsc) owner none := by
  obtain rfl : handing = some (t, w) := (h.hands.hands t w).1 (ht ▸ rfl)
  have hw := h.phase_handed
  have hne : w ≠ t := by
    rintro rfl
    rw [ht] at hw
    cases hw
  have hnot : w ∉ s.waiters := h.queue.not_mem (hw ▸ rfl)
  have hat : update s.phase t .idle w = .handed := (update_of_ne hne ..).trans hw
  refine ⟨?_, ?_, ?_, ?_, h.flag, h.hands.finish (by rw [ht]; rfl) (by rw [hw]; rfl) hne, h.order, ?_⟩
  · exact (h.locks.keep (p := .idle) (by rw [ht]; rfl)).keep (p := .holding) (by rw [hat]; rfl)
  · have hidle := h.owns.keep (t := t) (p := .idle) (by rw [ht]; rfl) nofun (by rw [ht]; nofun) nofun
    exact hidle.keep (p := .holding) (by rw [hat]; rfl) nofun (by rw [hat]; nofun) nofun
  · exact (h.queue.keep (p := .idle) (by rw [ht]; rfl)).keep (p := .holding) (by rw [hat]; rfl)
  · exact (h.empty.keep (p := .idle) nofun).keep (p := .holding) nofun
  · have hidle := (h.oldest.stamp hnot tsc).keep (t := t) (p := .idle) (ht ▸ rfl)
    exact hidle.keep (p := .holding) (hat ▸ rfl)

/-! ## Runs -/

theorem Inv.run {s' : State T} {tsc : Nat} (h : Inv s owner handing) (hstep : s.run t tsc = some s') :
    ∃ owner' handing', Inv s' owner' handing' := by
  rw [State.run] at hstep
  cases ht : s.phase t with
  | idle | parked | handed | holding => rw [ht] at hstep; cases hstep
  | lockSlow =>
    rw [ht] at hstep
    exact ⟨owner, handing, h.spinLock ht hstep rfl rfl nofun nofun nofun nofun rfl rfl rfl rfl⟩
  | lockLocked =>
    rw [ht] at hstep
    cases hstep
    obtain ⟨owner', h'⟩ := h.fetchOr ht
    exact ⟨owner', handing, h'⟩
  | lockRaced =>
    rw [ht] at hstep
    cases hstep
    exact ⟨owner, handing, h.raced ht⟩
  | lockDone | lockPark | unlockDone | unlockRelease _ =>
    rw [ht] at hstep
    cases hstep
    exact ⟨owner, handing, h.spinUnlock ht rfl rfl rfl nofun rfl rfl rfl rfl rfl⟩
  | lockQueue =>
    rw [ht] at hstep
    cases hstep
    exact ⟨owner, handing, h.enqueue ht tsc⟩
  | unlockSlow =>
    rw [ht] at hstep
    have hflag := h.owns.flagged t (ht ▸ rfl)
    exact ⟨owner, handing, h.spinLock ht hstep rfl rfl nofun nofun (fun _ => hflag) nofun rfl rfl rfl rfl⟩
  | unlockLocked =>
    rw [ht] at hstep
    cases hstep
    exact h.pop ht
  | unlockEmpty =>
    rw [ht] at hstep
    cases hstep
    exact ⟨none, handing, h.clear ht⟩
  | unlockPopped w =>
    rw [ht] at hstep
    cases hstep
    exact ⟨owner, handing, h.refresh ht⟩
  | waking w =>
    rw [ht] at hstep
    cases hstep
    exact ⟨owner, none, h.ready ht tsc⟩

theorem Inv.step {s' : State T} {e : Event T} (h : Inv s owner handing)
    (hstep : Mutex.step s e = some s') : ∃ owner' handing', Inv s' owner' handing' := by
  cases e with
  | lock t =>
    obtain ⟨ht, rfl⟩ := Option.ite_some_none_eq_some.1 hstep
    split
    · rename_i hheld
      exact ⟨some t, handing, h.grab ht hheld⟩
    · exact ⟨owner, handing, h.goto ht rfl rfl nofun nofun nofun nofun rfl rfl rfl rfl⟩
  | tryLock t =>
    obtain ⟨ht, rfl⟩ := Option.ite_some_none_eq_some.1 hstep
    split
    · rename_i hheld
      exact ⟨some t, handing, h.grab ht hheld⟩
    · exact ⟨owner, handing, h⟩
  | unlock t =>
    obtain ⟨ht, rfl⟩ := Option.ite_some_none_eq_some.1 hstep
    split
    · rename_i hheld
      exact ⟨none, handing, h.drop ht hheld⟩
    · rename_i hheld
      have howner := h.owns.holds.eq_some (t := t) (ht ▸ rfl)
      have hword := (h.owns.taken t howner (by rw [ht]; nofun)).resolve_left hheld
      exact ⟨owner, handing, h.goto ht rfl rfl nofun nofun (fun _ => hword) nofun rfl rfl rfl rfl⟩
  | run t tsc => exact h.run hstep
  | stamp t tsc =>
    rw [Mutex.step] at hstep
    split at hstep
    · cases hstep
    · rename_i hwaits
      cases hstep
      have hnot : t ∉ s.waiters := by
        refine h.queue.not_mem ?_
        cases hphase : s.phase t with
        | lockPark => exact absurd (.inl hphase) hwaits
        | parked => exact absurd (.inr hphase) hwaits
        | _ => rfl
      exact ⟨owner, handing, h.locks, h.owns, h.queue, h.empty, h.flag, h.hands, h.order,
        h.oldest.stamp hnot tsc⟩

/-! ## What a caller sees -/

/-- A step inside `mutex_lock` or `mutex_unlock`. -/
def Stage.Inside (a b : Stage) : Prop :=
  (a = .lock ∧ (b = .lock ∨ b = .holding)) ∨ (a = .unlock ∧ (b = .unlock ∨ b = .idle))

/-- The stages after a step of thread `t`: its own call goes on, and for another thread nothing
changes unless it is on its way through `mutex_lock`. -/
structure Staged (t : T) (s s' : State T) : Prop where
  self : (s.phase t).stage.Inside (s'.phase t).stage
  other : ∀ u, u ≠ t → (s'.phase u).stage = (s.phase u).stage ∨
    (s.phase u).stage = .lock ∧ ((s'.phase u).stage = .lock ∨ (s'.phase u).stage = .holding)

theorem Staged.goto {s' : State T} {q : Phase T} (ht : s.phase t = q)
    (hs' : s'.phase = update s.phase t p) (hp : q.stage.Inside p.stage) : Staged t s s' := by
  subst ht
  refine ⟨?_, fun u hu => .inl ?_⟩
  · rw [hs', update_self]
    exact hp
  · rw [hs', update_of_ne hu]

theorem Staged.goto_both {s' : State T} {q r p' : Phase T} (ht : s.phase t = q) (hw : s.phase w = r)
    (hne : w ≠ t) (hs' : s'.phase = update (update s.phase t p) w p')
    (hp : q.stage.Inside p.stage) (hr : r.stage = .lock)
    (hp' : p'.stage = .lock ∨ p'.stage = .holding) : Staged t s s' := by
  subst ht hw
  refine ⟨?_, fun u hu => ?_⟩
  · rw [hs', update_of_ne hne.symm, update_self]
    exact hp
  · by_cases huw : u = w
    · subst huw
      rw [hs', update_self]
      exact .inr ⟨hr, hp'⟩
    · rw [hs', update_of_ne huw, update_of_ne hu]
      exact .inl rfl

theorem Staged.spinLock {s' : State T} {q : Phase T} (ht : s.phase t = q)
    (hstep : s.spinLock t p = some s') (hp : q.stage.Inside p.stage) : Staged t s s' := by
  obtain ⟨-, rfl⟩ := Option.ite_some_none_eq_some.1 hstep
  exact .goto ht rfl hp

theorem Inv.staged_pop (h : Inv s owner handing) (ht : s.phase t = .unlockLocked) :
    Staged t s (s.pop t) := by
  rw [State.pop]
  cases hw : s.waiters with
  | nil => exact .goto ht rfl (.inr ⟨rfl, .inl rfl⟩)
  | cons w rest =>
    have hwaits : (s.phase w).waits = true :=
      (h.queue.mem_iff w).1 (by rw [hw]; exact mem_cons_self)
    have hne : w ≠ t := by
      rintro rfl
      rw [ht] at hwaits
      cases hwaits
    refine .goto_both ht rfl hne rfl (.inr ⟨rfl, .inl rfl⟩) ?_ (.inl rfl)
    cases hphase : s.phase w with
    | lockPark | parked => rfl
    | _ => rw [hphase] at hwaits; cases hwaits

theorem Inv.staged_ready (h : Inv s owner handing) (ht : s.phase t = .waking w) (tsc : Nat) :
    Staged t s (s.ready t w tsc) := by
  obtain rfl : handing = some (t, w) := (h.hands.hands t w).1 (ht ▸ rfl)
  have hw := h.phase_handed
  have hne : w ≠ t := by
    rintro rfl
    rw [ht] at hw
    cases hw
  exact .goto_both ht hw hne rfl (.inr ⟨rfl, .inr rfl⟩) rfl (.inr rfl)

theorem Inv.staged {s' : State T} {tsc : Nat} (h : Inv s owner handing) (hstep : s.run t tsc = some s') :
    Staged t s s' := by
  rw [State.run] at hstep
  cases ht : s.phase t with
  | idle | parked | handed | holding => rw [ht] at hstep; cases hstep
  | lockSlow =>
    rw [ht] at hstep
    exact .spinLock ht hstep (.inl ⟨rfl, .inl rfl⟩)
  | lockLocked =>
    rw [ht] at hstep
    cases hstep
    refine .goto ht rfl (.inl ⟨rfl, .inl ?_⟩)
    split
    · rfl
    · rfl
  | unlockSlow =>
    rw [ht] at hstep
    exact .spinLock ht hstep (.inr ⟨rfl, .inl rfl⟩)
  | unlockLocked =>
    rw [ht] at hstep
    cases hstep
    exact h.staged_pop ht
  | waking w =>
    rw [ht] at hstep
    cases hstep
    exact h.staged_ready ht tsc
  | lockDone =>
    rw [ht] at hstep
    cases hstep
    exact .goto ht rfl (.inl ⟨rfl, .inr rfl⟩)
  | unlockDone =>
    rw [ht] at hstep
    cases hstep
    exact .goto ht rfl (.inr ⟨rfl, .inr rfl⟩)
  | lockRaced | lockQueue | lockPark =>
    rw [ht] at hstep
    cases hstep
    exact .goto ht rfl (.inl ⟨rfl, .inl rfl⟩)
  | unlockEmpty | unlockPopped _ | unlockRelease _ =>
    rw [ht] at hstep
    cases hstep
    exact .goto ht rfl (.inr ⟨rfl, .inl rfl⟩)

/-- The word is not 0 exactly while some thread holds the mutex. -/
theorem Inv.held_iff (h : Inv s owner handing) : s.held ≠ 0 ↔ ∃ t, (s.phase t).holds = true := by
  have hpos := waiterFlag_gt
  constructor
  · intro hne
    cases howner : owner with
    | none => exact absurd (h.owns.free howner) hne
    | some t => exact ⟨t, (h.owns.holds t).2 howner⟩
  · rintro ⟨t, ht⟩
    have howner := h.owns.holds.eq_some ht
    by_cases hraced : s.phase t = .lockRaced
    · have hword := h.owns.raced t hraced
      omega
    · have hword := h.owns.taken t howner hraced
      omega

omit [DecidableEq T] in
theorem inv_init (readyTsc : T → Nat) : Inv (mutexInit readyTsc) none none where
  locks _ := ⟨nofun, nofun⟩
  owns := ⟨fun _ => ⟨nofun, nofun⟩, fun _ => rfl, nofun, nofun, nofun⟩
  queue := ⟨fun _ => ⟨nofun, nofun⟩, .nil⟩
  empty := nofun
  flag h := absurd rfl h
  hands := ⟨fun _ _ => ⟨nofun, nofun⟩, fun _ => ⟨nofun, nofun⟩, rfl⟩
  order := rfl
  oldest _ := rfl

omit [DecidableEq T] in
theorem Inv.protocol (h : Inv s owner handing) : Protocol s where
  exclusive t u ht hu := h.owns.holds.eq hu ht
  noStranded := by
    intro _ hne
    have hword := h.flag hne
    have hholder : ∃ t, (s.phase t).holds = true := by
      cases howner : owner with
      | none =>
        have hfree := h.owns.free howner
        have hpos := waiterFlag_gt
        omega
      | some t => exact ⟨t, (h.owns.holds t).2 howner⟩
    rw [hword]
    exact ⟨by decide, by decide, hholder⟩
  order := h.order
  once := by
    have honce := h.hands.once
    cases hh : handing with
    | none =>
      rw [hh] at honce
      exact .inl (honce.trans (append_nil _)).symm
    | some x =>
      obtain rfl := hh
      exact .inr ⟨x.2, honce, h.phase_handed⟩
  oldest := by
    intro hfree
    refine h.oldest fun t => Bool.eq_false_iff.2 fun hstale => ?_
    have hlocked : (s.phase t).locked = true := by
      cases hphase : s.phase t with
      | unlockPopped w => rfl
      | _ => rw [hphase] at hstale; cases hstale
    have hsome := h.locks.eq_some hlocked
    rw [hfree] at hsome
    cases hsome

/-- For any number of threads and in every interleaving: one holder, no stranded waiter, hand-over
in the order of the queue, and the time stamp of the list's head. -/
theorem mutex_protocol (readyTsc : T → Nat) {s : State T}
    (hreach : Reaches Mutex.step anyStep (mutexInit readyTsc) s) : Protocol s := by
  have hinv : ∃ owner handing, Inv s owner handing :=
    hreach.invariant (P := fun s => ∃ owner handing, Inv s owner handing)
      ⟨none, none, inv_init readyTsc⟩ fun _ _ _ ⟨_, _, hu⟩ _ hst => hu.step hst
  obtain ⟨owner, handing, h⟩ := hinv
  exact h.protocol

end Model

/-! ## Three threads -/

/-- Thread 1 holds the mutex, threads 2 and 3 queue, and thread 1 hands it to thread 2. -/
theorem mutex_protocol_three : ∃ s : State Nat, Reaches step anyStep (mutexInit fun _ => 0) s ∧
      s.waiters = [3] ∧ s.phase 2 = .holding ∧ s.held = waiterFlag + 1 ∧ s.oldestTsc = 20 ∧ Protocol s := by
  obtain ⟨s, hreach, h₁, h₂, h₃, h₄⟩ : ∃ s, Reaches step anyStep (mutexInit fun _ => 0) s ∧
      s.waiters = [3] ∧ s.phase 2 = .holding ∧ s.held = waiterFlag + 1 ∧
      s.oldestTsc = 20 :=
    exists_of_runActions [.lock 1, .lock 2, .lock 3, .run 2 5, .run 2 6, .run 2 10, .run 2 11, .run 3 12, .run 3 13,
        .run 3 20, .run 3 21, .unlock 1, .run 1 30, .run 1 31, .run 1 32, .run 1 33, .run 1 34] (by decide)
  exact ⟨s, hreach, h₁, h₂, h₃, h₄, mutex_protocol _ hreach⟩

end Svalinn.Runtime.Mutex
