/-
  Shim/StaticMutex.lean --- a `pthread_mutex_t` that is never initialised explicitly.

  Source: `shim/sync.c` (`mutex_intialized_check`, `pthread_mutex_init`, `pthread_mutex_lock`,
  `pthread_mutex_trylock`, `pthread_mutex_unlock`) over `runtime/sync.c` (`mutex_init`,
  `__mutex_lock`, `__mutex_unlock`).

  The object starts with all bits 0.  A call of lock or trylock reads `magic` and, unless it
  is `INIT_MAGIC`, writes the fields of the mutex one after the other and then `magic`; only
  then it acts on the mutex of `Runtime/Mutex.lean`.  Nothing keeps two calls from doing so
  at different times.
-/
import Svalinn.Runtime.Mutex

set_option autoImplicit false

namespace Svalinn.Shim

open Svalinn.Lib Function
open Svalinn.Runtime

/-- The store of `pthread_mutex_init` that is next. -/
inductive InitStage where
  | held
  | waiterLock
  | waiters
  | oldestTsc
  | magic
  deriving DecidableEq

/-- Where a thread is in the part of its call that precedes the mutex; `try_` tells trylock
from lock. -/
inductive Entry where
  | outside
  /-- about to read `magic` -/
  | check (try_ : Bool)
  /-- in `pthread_mutex_init` -/
  | init (stage : InitStage) (try_ : Bool)
  /-- about to call `mutex_lock` or `mutex_try_lock` -/
  | call (try_ : Bool)
  deriving DecidableEq

def Entry.isInit : Entry → Bool
  | .init _ _ => true
  | _ => false

def Entry.isCall : Entry → Bool
  | .call _ => true
  | _ => false

section Model

variable {T : Type} [DecidableEq T]

structure State (T : Type) where
  mutex : Mutex.State T
  /-- `magic` is `INIT_MAGIC` -/
  magic : Bool
  entry : T → Entry
  /-- the threads in `pthread_mutex_init` -/
  initers : List T

def State.goto (s : State T) (t : T) (e : Entry) : State T :=
  { s with entry := update s.entry t e }

inductive Event (T : Type) where
  /-- `pthread_mutex_lock` or `pthread_mutex_trylock` is called -/
  | enter (t : T) (try_ : Bool)
  /-- the next access before the mutex is reached, or the call of the mutex -/
  | advance (t : T)
  | unlock (t : T)
  | run (t : T) (tsc : Nat)
  | stamp (t : T) (tsc : Nat)

/-- The stores of `mutex_init`. -/
def initWrite (m : Mutex.State T) : InitStage → Mutex.State T
  | .held => { m with held := 0 }
  | .waiterLock => { m with waiterLock := none }
  | .waiters => { m with waiters := [] }
  | .oldestTsc => { m with oldestTsc := Mutex.uint64Max }
  | .magic => m

def InitStage.next (try_ : Bool) : InitStage → Entry
  | .held => .init .waiterLock try_
  | .waiterLock => .init .waiters try_
  | .waiters => .init .oldestTsc try_
  | .oldestTsc => .init .magic try_
  | .magic => .call try_

/-- One store of `pthread_mutex_init`. -/
def State.initStep (s : State T) (t : T) (stage : InitStage) (try_ : Bool) : State T :=
  { s with
    mutex := initWrite s.mutex stage
    magic := s.magic || decide (stage = InitStage.magic)
    initers := if stage = InitStage.magic then s.initers.erase t else s.initers }.goto t (stage.next try_)

def State.inner (s : State T) (e : Mutex.Event T) : Option (State T) :=
  (Mutex.step s.mutex e).map fun m => { s with mutex := m }

def State.advance (s : State T) (t : T) : Option (State T) :=
  match s.entry t with
  | .outside => none
  | .check try_ =>
    if s.magic then some (s.goto t (.call try_))
    else some ({ s with initers := t :: s.initers }.goto t (.init .held try_))
  | .init stage try_ => some (s.initStep t stage try_)
  | .call try_ => (s.goto t .outside).inner (if try_ then .tryLock t else .lock t)

def step (s : State T) : Event T → Option (State T)
  | .enter t try_ =>
    if s.entry t = .outside ∧ s.mutex.phase t = .idle then some (s.goto t (.check try_)) else none
  | .advance t => s.advance t
  | .unlock t => if s.entry t = .outside then s.inner (.unlock t) else none
  | .run t tsc => s.inner (.run t tsc)
  | .stamp t tsc => s.inner (.stamp t tsc)

/-- `PTHREAD_MUTEX_INITIALIZER`. -/
def zeroed (readyTsc : T → Nat) : State T :=
  ⟨⟨0, none, [], 0, readyTsc, fun _ => .idle, [], [], []⟩, false, fun _ => .outside, []⟩

structure Excluded (s : State T) : Prop where
  exclusive : ∀ t u, (s.mutex.phase t).holds = true → (s.mutex.phase u).holds = true → t = u
  released : s.mutex.waiterLock = none → (∀ t, (s.mutex.phase t).holds = false) →
    ∀ t, (s.mutex.phase t).waits = false

/-- A thread finds `magic` unset. -/
def findsUnset (s : State T) (t : T) : Bool := (s.entry t matches .check _) && !s.magic

/-- No thread finds `magic` unset while another one initialises the mutex. -/
def InitOnce (s : State T) : Event T → Prop
  | .advance t => findsUnset s t = true → s.initers = []
  | _ => True

instance (s : State T) : (e : Event T) → Decidable (InitOnce s e)
  | .advance t => inferInstanceAs (Decidable (findsUnset s t = true → s.initers = []))
  | .enter _ _ | .unlock _ | .run _ _ | .stamp _ _ => inferInstanceAs (Decidable True)

/-! ## Before the mutex is initialised -/

structure Blank (m : Mutex.State T) : Prop where
  held : m.held = 0
  waiterLock : m.waiterLock = none
  waiters : m.waiters = []
  idle : ∀ t, m.phase t = .idle
  queued : m.queued = []
  granted : m.granted = []
  woken : m.woken = []

variable {s s' : State T} {m : Mutex.State T}

omit [DecidableEq T] in
theorem Blank.initWrite (h : Blank m) (stage : InitStage) : Blank (initWrite m stage) := by
  cases stage with
  | held => exact ⟨rfl, h.waiterLock, h.waiters, h.idle, h.queued, h.granted, h.woken⟩
  | waiterLock => exact ⟨h.held, rfl, h.waiters, h.idle, h.queued, h.granted, h.woken⟩
  | waiters => exact ⟨h.held, h.waiterLock, rfl, h.idle, h.queued, h.granted, h.woken⟩
  | oldestTsc => exact ⟨h.held, h.waiterLock, h.waiters, h.idle, h.queued, h.granted, h.woken⟩
  | magic => exact h

omit [DecidableEq T] in
/-- With the time stamp written, the mutex is as `mutex_init` leaves it. -/
theorem Blank.eq_mutexInit (h : Blank m) (htsc : m.oldestTsc = Mutex.uint64Max) :
    m = Mutex.mutexInit m.readyTsc := by
  obtain ⟨held, lock, waiters, oldest, ready, phase, queued, granted, woken⟩ := m
  obtain ⟨rfl, rfl, rfl, hidle, rfl, rfl, rfl⟩ := h
  obtain rfl : oldest = Mutex.uint64Max := htsc
  obtain rfl : phase = fun _ => .idle := funext hidle
  rfl

theorem Blank.keeps {m' : Mutex.State T} {e : Mutex.Event T} (h : Blank m)
    (hstep : Mutex.step m e = some m') (hlock : ∀ t, e ≠ .lock t ∧ e ≠ .tryLock t) :
    Blank m' ∧ m'.oldestTsc = m.oldestTsc := by
  cases e with
  | lock t => exact absurd rfl (hlock t).1
  | tryLock t => exact absurd rfl (hlock t).2
  | unlock t =>
    rw [Mutex.step, h.idle t] at hstep
    cases hstep
  | run t tsc =>
    rw [Mutex.step, Mutex.State.run, h.idle t] at hstep
    cases hstep
  | stamp t tsc =>
    rw [Mutex.step, h.idle t] at hstep
    cases hstep
    exact ⟨⟨h.held, h.waiterLock, h.waiters, h.idle, h.queued, h.granted, h.woken⟩, rfl⟩

/-! ## The invariant -/

structure Early (s : State T) : Prop where
  blank : Blank s.mutex
  noCall : ∀ t, (s.entry t).isCall = false
  alone : ∀ t u, (s.entry t).isInit = true → (s.entry u).isInit = true → t = u
  stamped : ∀ t b, s.entry t = .init .magic b → s.mutex.oldestTsc = Mutex.uint64Max

structure Late (s : State T) : Prop where
  noInit : ∀ t, (s.entry t).isInit = false
  inner : ∃ owner handing, Mutex.Inv s.mutex owner handing

structure Inv (s : State T) : Prop where
  listed : ∀ t, (s.entry t).isInit = true ↔ t ∈ s.initers
  distinct : s.initers.Nodup
  early : s.magic = false → Early s
  late : s.magic = true → Late s

omit [DecidableEq T] in
theorem Inv.zeroed (readyTsc : T → Nat) : Inv (zeroed readyTsc) := by
  refine ⟨fun _ => ⟨nofun, nofun⟩, List.nodup_nil, fun _ => ⟨⟨rfl, rfl, rfl, fun _ => rfl, rfl, rfl,
    rfl⟩, fun _ => rfl, nofun, nofun⟩, nofun⟩

theorem Inv.goto {t : T} {e : Entry} (h : Inv s) (hwas : (s.entry t).isInit = false)
    (hinit : e.isInit = false) (hcall : s.magic = false → e.isCall = false) :
    Inv (s.goto t e) := by
  have hsame : ∀ u, ((s.goto t e).entry u).isInit = (s.entry u).isInit := by
    intro u
    change (update s.entry t e u).isInit = _
    rw [update_apply]
    split
    · rename_i hu
      rw [hu, hinit, hwas]
    · rfl
  refine ⟨fun u => ?_, h.distinct, fun hm => ?_, fun hm => ?_⟩
  · rw [hsame u]
    exact h.listed u
  · have hearly := h.early hm
    refine ⟨hearly.blank, ?_, fun u v hu hv => ?_, ?_⟩
    · intro u
      change (update s.entry t e u).isCall = false
      rw [update_apply]
      split
      · exact hcall hm
      · exact hearly.noCall u
    · rw [hsame] at hu hv
      exact hearly.alone u v hu hv
    · intro u b hu
      change update s.entry t e u = _ at hu
      rw [update_apply] at hu
      split at hu
      · rw [hu] at hinit
        cases hinit
      · exact hearly.stamped u b hu
  · have hlate := h.late hm
    exact ⟨fun u => (hsame u).trans (hlate.noInit u), hlate.inner⟩

theorem Inv.inner {e : Mutex.Event T} (h : Inv s) (hstep : s.inner e = some s')
    (hlock : s.magic = false → ∀ t, e ≠ .lock t ∧ e ≠ .tryLock t) : Inv s' := by
  obtain ⟨m, hm, rfl⟩ := Option.map_eq_some_iff.1 hstep
  refine ⟨h.listed, h.distinct, fun hmagic => ?_, fun hmagic => ?_⟩
  · have hearly := h.early hmagic
    obtain ⟨hblank, htsc⟩ := hearly.blank.keeps hm (hlock hmagic)
    refine ⟨hblank, hearly.noCall, hearly.alone, ?_⟩
    intro t b ht
    exact htsc.trans (hearly.stamped t b ht)
  · have hlate := h.late hmagic
    obtain ⟨owner, handing, hinner⟩ := hlate.inner
    exact ⟨hlate.noInit, hinner.step hm⟩

theorem Inv.startInit {t : T} {b : Bool} (h : Inv s) (hmagic : s.magic = false)
    (hnone : s.initers = []) :
    Inv ({ s with initers := t :: s.initers }.goto t (.init .held b)) := by
  have hearly := h.early hmagic
  have hold : ∀ u, (s.entry u).isInit = false := by
    intro u
    refine Bool.eq_false_iff.2 fun hu => ?_
    have hmem := (h.listed u).1 hu
    rw [hnone] at hmem
    cases hmem
  have honly : ∀ u, (update s.entry t (.init .held b) u).isInit = true → u = t := by
    intro u hu
    rw [update_apply] at hu
    split at hu
    · assumption
    · rw [hold u] at hu
      cases hu
  refine ⟨fun u => ?_, ?_, fun _ => ⟨hearly.blank, ?_, ?_, ?_⟩, fun hm => ?_⟩
  · change _ ↔ u ∈ t :: s.initers
    rw [hnone, List.mem_singleton]
    refine ⟨honly u, ?_⟩
    rintro rfl
    exact congrArg Entry.isInit (update_self u _ s.entry)
  · change (t :: s.initers).Nodup
    rw [hnone]
    exact List.nodup_cons.2 ⟨List.not_mem_nil, List.nodup_nil⟩
  · intro u
    change (update s.entry t (.init .held b) u).isCall = false
    rw [update_apply]
    split
    · rfl
    · exact hearly.noCall u
  · intro u v hu hv
    exact (honly u hu).trans (honly v hv).symm
  · intro u c hu
    change update s.entry t (.init .held b) u = _ at hu
    rw [update_apply] at hu
    split at hu
    · cases hu
    · have hfalse := hold u
      rw [hu] at hfalse
      cases hfalse
  · have hfalse : s.magic = true := hm
    rw [hmagic] at hfalse
    cases hfalse

theorem InitStage.next_isInit {stage : InitStage} (b : Bool) (h : stage ≠ .magic) :
    (stage.next b).isInit = true ∧ (stage.next b).isCall = false := by
  cases stage with
  | magic => exact absurd rfl h
  | _ => exact ⟨rfl, rfl⟩

theorem Inv.initStep {t : T} {stage : InitStage} {b : Bool} (h : Inv s)
    (ht : s.entry t = .init stage b) : Inv (s.initStep t stage b) := by
  have hisInit : (s.entry t).isInit = true := by
    rw [ht]
    rfl
  have hmagic : s.magic = false := by
    refine Bool.eq_false_iff.2 fun hm => ?_
    have hfalse := (h.late hm).noInit t
    rw [hisInit] at hfalse
    cases hfalse
  have hearly := h.early hmagic
  have hothers : ∀ u, u ≠ t → (s.entry u).isInit = false := fun u hu =>
    Bool.eq_false_iff.2 fun hi => hu (hearly.alone u t hi hisInit)
  by_cases hstage : stage = .magic
  · -- the object is published with nobody else initialising it
    subst hstage
    have hnone : ∀ u, (update s.entry t (.call b) u).isInit = false := by
      intro u
      rw [update_apply]
      split
      · rfl
      · rename_i hu
        exact hothers u hu
    refine ⟨fun u => ?_, h.distinct.erase t, ?_, fun _ => ⟨hnone, none, none, ?_⟩⟩
    · rw [show ((s.initStep t .magic b).entry u).isInit = false from hnone u]
      refine ⟨nofun, fun hu => ?_⟩
      obtain ⟨hne, hmem⟩ := (h.distinct.mem_erase_iff).1 hu
      have hfalse := hothers u hne
      rw [(h.listed u).2 hmem] at hfalse
      cases hfalse
    · intro hm
      have htrue : (s.magic || true) = false := hm
      rw [Bool.or_true] at htrue
      cases htrue
    · change Mutex.Inv s.mutex none none
      rw [hearly.blank.eq_mutexInit (hearly.stamped t b ht)]
      exact Mutex.inv_init _
  · obtain ⟨hinit, hcall⟩ := InitStage.next_isInit b hstage
    have honly : ∀ u, (update s.entry t (stage.next b) u).isInit = true → u = t := by
      intro u hu
      by_contra hne
      rw [update_of_ne hne, hothers u hne] at hu
      cases hu
    have hinitMagic : (s.initStep t stage b).magic = false := by
      change (s.magic || decide (stage = .magic)) = false
      rw [hmagic, decide_eq_false hstage]
      rfl
    have hiniters : (s.initStep t stage b).initers = s.initers := if_neg hstage
    refine ⟨fun u => ?_, ?_, fun _ => ⟨hearly.blank.initWrite stage, ?_, ?_, ?_⟩, fun hm => ?_⟩
    · rw [hiniters, ← h.listed u]
      constructor
      · intro hu
        obtain rfl := honly u hu
        exact hisInit
      · intro hu
        obtain rfl := hearly.alone u t hu hisInit
        rw [← hinit]
        exact congrArg Entry.isInit (update_self u _ s.entry)
    · rw [hiniters]
      exact h.distinct
    · intro u
      change (update s.entry t (stage.next b) u).isCall = false
      rw [update_apply]
      split
      · exact hcall
      · exact hearly.noCall u
    · intro u v hu hv
      exact (honly u hu).trans (honly v hv).symm
    · intro u c hu
      have hut : u = t := honly u (by rw [show update s.entry t (stage.next b) u = _ from hu]; rfl)
      subst hut
      have hnext : stage.next b = .init .magic c := (update_self ..).symm.trans hu
      cases stage with
      | oldestTsc => rfl
      | magic => exact absurd rfl hstage
      | _ => cases hnext
    · rw [hinitMagic] at hm
      cases hm

theorem Inv.advance {t : T} (h : Inv s) (hok : InitOnce s (.advance t))
    (hstep : s.advance t = some s') : Inv s' := by
  unfold State.advance at hstep
  cases ht : s.entry t with
  | outside =>
    rw [ht] at hstep
    cases hstep
  | check b =>
    rw [ht] at hstep
    dsimp only at hstep
    by_cases hm : s.magic = true
    · rw [if_pos hm] at hstep
      cases hstep
      exact h.goto (congrArg Entry.isInit ht) rfl (fun hfalse => absurd (hm.symm.trans hfalse) nofun)
    · rw [if_neg hm] at hstep
      cases hstep
      have hunset : s.magic = false := Bool.eq_false_iff.2 hm
      refine h.startInit hunset (hok ?_)
      unfold findsUnset
      rw [ht, hunset]
      rfl
  | init stage b =>
    rw [ht] at hstep
    cases hstep
    exact h.initStep ht
  | call b =>
    rw [ht] at hstep
    refine (h.goto (congrArg Entry.isInit ht) rfl (fun _ => rfl)).inner hstep ?_
    intro hm
    have hfalse := (h.early hm).noCall t
    rw [ht] at hfalse
    cases hfalse

theorem Inv.keeps {e : Event T} (h : Inv s) (hok : InitOnce s e) (hstep : step s e = some s') :
    Inv s' := by
  cases e with
  | enter t b =>
    obtain ⟨hguard, rfl⟩ := Option.ite_some_none_eq_some.1 hstep
    exact h.goto (congrArg Entry.isInit hguard.1) rfl (fun _ => rfl)
  | advance t => exact h.advance hok hstep
  | unlock t =>
    unfold step at hstep
    dsimp only at hstep
    split at hstep
    · exact h.inner hstep fun _ _ => ⟨nofun, nofun⟩
    · cases hstep
  | run _ _ | stamp _ _ => exact h.inner hstep fun _ _ => ⟨nofun, nofun⟩

theorem Inv.excluded (h : Inv s) : Excluded s := by
  cases hm : s.magic with
  | false =>
    have hidle := (h.early hm).blank.idle
    refine ⟨fun t u ht => ?_, fun _ _ t => ?_⟩
    · rw [hidle t] at ht
      cases ht
    · rw [hidle t]
      rfl
  | true =>
    obtain ⟨owner, handing, hinner⟩ := (h.late hm).inner
    refine ⟨hinner.protocol.exclusive, fun hfree hnone t => ?_⟩
    refine Bool.eq_false_iff.2 fun hwaits => ?_
    have hmem : t ∈ s.mutex.waiters := (hinner.queue.mem_iff t).2 hwaits
    obtain ⟨-, -, u, hu⟩ := hinner.protocol.noStranded hfree (List.ne_nil_of_mem hmem)
    rw [hnone u] at hu
    cases hu

/-! ## A second initialiser -/

def InitStage.left : InitStage → Nat
  | .held => 5
  | .waiterLock => 4
  | .waiters => 3
  | .oldestTsc => 2
  | .magic => 1

theorem InitStage.next_cases (stage : InitStage) (b : Bool) : stage.next b = .call b ∨
    ∃ after, stage.next b = .init after b ∧ after.left < stage.left ∧ after ≠ .held := by
  cases stage with
  | magic => exact .inl rfl
  | _ => exact .inr ⟨_, rfl, by decide, nofun⟩

omit [DecidableEq T] in
theorem initWrite_phase (m : Mutex.State T) (stage : InitStage) :
    (initWrite m stage).phase = m.phase := by
  cases stage <;> rfl

omit [DecidableEq T] in
theorem initWrite_held {m : Mutex.State T} {stage : InitStage} (h : stage = .held ∨ m.held = 0) :
    (initWrite m stage).held = 0 := by
  cases stage with
  | held => rfl
  | _ => exact h.resolve_left nofun

/-- A thread in `pthread_mutex_init` can run on to the call of the mutex; the word is 0 then
if it was 0 or is still to be written. -/
theorem initStage_runs (n : Nat) {s : State T} {t : T} {stage : InitStage} {b : Bool}
    (hn : stage.left ≤ n) (ht : s.entry t = .init stage b)
    (hfree : stage = .held ∨ s.mutex.held = 0) :
    ∃ s₁, Reaches step anyStep s s₁ ∧ s₁.entry = update s.entry t (.call b) ∧
      s₁.mutex.phase = s.mutex.phase ∧ s₁.mutex.held = 0 := by
  induction n generalizing s stage with
  | zero => cases stage <;> cases hn
  | succ n ih =>
    have hone : Reaches step anyStep s (s.initStep t stage b) := by
      refine .single (a := .advance t) trivial ?_
      rw [step, State.advance, ht]
    have hphase : (s.initStep t stage b).mutex.phase = s.mutex.phase := initWrite_phase _ _
    have hzero : (s.initStep t stage b).mutex.held = 0 := initWrite_held hfree
    obtain hnext | ⟨after, hnext, hlt, -⟩ := stage.next_cases b
    · refine ⟨_, hone, ?_, hphase, hzero⟩
      change update s.entry t (stage.next b) = _
      rw [hnext]
    · have hentry : (s.initStep t stage b).entry = update s.entry t (.init after b) :=
        congrArg (update s.entry t) hnext
      obtain ⟨s₁, hreach, hcall, hsame, hheld⟩ := ih (Nat.le_of_lt_succ (Nat.lt_of_lt_of_le hlt hn))
        (by rw [hentry, update_self]) (.inr hzero)
      refine ⟨s₁, hone.trans hreach, ?_, hsame.trans hphase, hheld⟩
      rw [hcall, hentry, update_idem]

theorem call_holds {s : State T} {t : T} {b : Bool} (ht : s.entry t = .call b)
    (hidle : s.mutex.phase t = .idle) (hfree : s.mutex.held = 0) :
    ∃ s₁, Reaches step anyStep s s₁ ∧ s₁.entry = update s.entry t .outside ∧
      s₁.mutex.phase = update s.mutex.phase t .holding := by
  refine ⟨{ s.goto t .outside with mutex := { s.mutex with held := 1 }.goto t .holding },
    .single (a := .advance t) trivial ?_, rfl, rfl⟩
  have hlock : Mutex.step s.mutex (if b then .tryLock t else .lock t) =
      some ({ s.mutex with held := 1 }.goto t .holding) := by
    cases b with
    | false | true => exact (if_pos hidle).trans (congrArg some (if_pos hfree))
  rw [step, State.advance, ht]
  exact congrArg (Option.map _) hlock

theorem init_holds {s : State T} {t : T} {stage : InitStage} {b : Bool}
    (ht : s.entry t = .init stage b) (hidle : s.mutex.phase t = .idle)
    (hfree : stage = .held ∨ s.mutex.held = 0) :
    ∃ s₁, Reaches step anyStep s s₁ ∧ s₁.entry = update s.entry t .outside ∧
      s₁.mutex.phase = update s.mutex.phase t .holding := by
  obtain ⟨s₁, hreach, hcall, hsame, hheld⟩ := initStage_runs _ (Nat.le_refl _) ht hfree
  obtain ⟨s₂, hlock, hentry, hphase⟩ :=
    call_holds (by rw [hcall, update_self]) (by rw [hsame, hidle]) hheld
  refine ⟨s₂, hreach.trans hlock, ?_, ?_⟩
  · rw [hentry, hcall, update_idem]
  · rw [hphase, hsame]

/-- Once a second thread has found the mutex uninitialised, the two can both come to hold
it: the first one goes ahead, and the second one then clears the word. -/
theorem Inv.second_init {t u : T} {b : Bool} (h : Inv s) (hu : u ∈ s.initers) (ht : s.entry t = .check b)
    (hmagic : s.magic = false) (hstep : step s (.advance t) = some s') :
    ∃ s₂, Reaches step anyStep s' s₂ ∧ ¬ Excluded s₂ := by
  have hblank := (h.early hmagic).blank
  have hne : u ≠ t := by
    rintro rfl
    have hfalse := (h.listed u).2 hu
    rw [ht] at hfalse
    cases hfalse
  rw [step, State.advance, ht] at hstep
  dsimp only at hstep
  rw [hmagic, if_neg Bool.false_ne_true] at hstep
  cases hstep
  cases hentry : s.entry u with
  | init stage c =>
    obtain ⟨s₁, hfirst, hentry₁, hphase₁⟩ :=
      init_holds (s := { s with initers := t :: s.initers }.goto t (.init .held b)) (t := u)
        ((update_of_ne hne _ _).trans hentry) (hblank.idle u) (.inr hblank.held)
    have ht₁ : s₁.entry t = .init .held b := by
      rw [hentry₁, update_of_ne hne.symm]
      exact update_self ..
    have hidle₁ : s₁.mutex.phase t = .idle := by
      rw [hphase₁, update_of_ne hne.symm]
      exact hblank.idle t
    obtain ⟨s₂, hsecond, -, hphase₂⟩ := init_holds ht₁ hidle₁ (.inl rfl)
    have hfirstHolds : (s₂.mutex.phase u).holds = true := by
      rw [hphase₂, update_of_ne hne, hphase₁, update_self]
      rfl
    have hsecondHolds : (s₂.mutex.phase t).holds = true := by
      rw [hphase₂, update_self]
      rfl
    refine ⟨s₂, ?_, fun hex => hne (hex.exclusive u t hfirstHolds hsecondHolds)⟩
    rw [hmagic] at hfirst
    exact hfirst.trans hsecond
  | _ =>
    have hfalse := (h.listed u).2 hu
    rw [hentry] at hfalse
    cases hfalse

/-- If no thread finds the object uninitialised while another one initialises it, the mutex
has one holder and strands nobody.  As soon as one does, a state with two holders can be
reached. -/
theorem static_mutex_excluded_iff (readyTsc : T → Nat) {s : State T}
    (hreach : Reaches step InitOnce (zeroed readyTsc) s) :
    Excluded s ∧ ∀ e s', step s e = some s' → ¬ InitOnce s e →
      ∃ s₂, Reaches step anyStep s' s₂ ∧ ¬ Excluded s₂ := by
  have hinv : Inv s := hreach.invariant (P := Inv) (Inv.zeroed readyTsc)
    fun _ _ _ h hok hs => h.keeps hok hs
  refine ⟨hinv.excluded, fun e s' hstep hbad => ?_⟩
  cases e with
  | advance t =>
    obtain ⟨hfinds, hsome⟩ := Classical.not_imp.1 hbad
    obtain ⟨u, hu⟩ := List.exists_mem_of_ne_nil _ hsome
    cases ht : s.entry t with
    | check b =>
      rw [findsUnset, ht] at hfinds
      exact hinv.second_init hu ht (by simpa using hfinds) hstep
    | _ =>
      rw [findsUnset, ht] at hfinds
      cases hfinds
  | _ => exact absurd trivial hbad

end Model

/-! ## Two first uses -/

/-- Thread `t` goes through its initialisation and locks the mutex. -/
def initAndLock (t : Nat) : List (Event Nat) := List.replicate 6 (.advance t)

/-- Thread 1 initialises the mutex and takes it; thread 2 comes later and queues. -/
def oneByOne : List (Event Nat) :=
  [.enter 1 false, .advance 1] ++ initAndLock 1 ++
    [.enter 2 false, .advance 2, .advance 2, .run 2 0, .run 2 0, .run 2 0, .run 2 0]

theorem static_mutex_excluded_later : ∃ s : State Nat,
    Reaches step InitOnce (zeroed fun _ => 0) s ∧ s.mutex.phase 1 = .holding ∧
    s.mutex.phase 2 = .parked ∧ Excluded s := by
  obtain ⟨s, hreach, hone, htwo⟩ : ∃ s, Reaches step InitOnce (zeroed fun _ => 0) s ∧
      s.mutex.phase 1 = .holding ∧ s.mutex.phase 2 = .parked :=
    exists_of_runChecked oneByOne (by decide)
  exact ⟨s, hreach, hone, htwo, (static_mutex_excluded_iff _ hreach).1⟩

/-- Both threads read `magic` first.  Thread 1 initialises the mutex and takes it, and then
thread 2 initialises it again and takes it, too. -/
def together : List (Event Nat) :=
  [.enter 1 false, .enter 2 false, .advance 1, .advance 2] ++ initAndLock 1 ++ initAndLock 2

theorem two_holders : ∃ s : State Nat, Reaches step anyStep (zeroed fun _ => 0) s ∧
    s.mutex.phase 1 = .holding ∧ s.mutex.phase 2 = .holding ∧ ¬ Excluded s := by
  obtain ⟨s, hreach, hone, htwo⟩ : ∃ s, Reaches step anyStep (zeroed fun _ => 0) s ∧
      s.mutex.phase 1 = .holding ∧ s.mutex.phase 2 = .holding :=
    exists_of_runActions together (by decide)
  refine ⟨s, hreach, hone, htwo, fun h => ?_⟩
  exact absurd (h.exclusive 1 2 (by rw [hone]; rfl) (by rw [htwo]; rfl)) (by decide)

end Svalinn.Shim
