/-
  Breakwater/CongMutex.lean --- the congestion-aware mutex.

  Source: `breakwater/src/sync.c` (`cong_aware_mutex_init`, `cong_aware_mutex_lock`,
  `cong_aware_mutex_try_lock`, `cong_aware_mutex_lock_if_uncongested`,
  `cong_aware_mutex_unlock`) over the mutex of `Runtime/Mutex.lean`.

  A thread has a phase in the calls of this file beside its phase in the inner mutex; every
  access to a shared variable is a step of its own.  What `cong_aware_mutex_is_congested`
  answers depends on estimates only, so every answer is allowed.  The weighted mean of the
  hold times, computed in `double`, is a parameter.

  `cong_aware_mutex_try_lock` returns false also when it has acquired the inner mutex, so
  that nobody will release it.
-/
import Svalinn.Lib.Machine
import Svalinn.Runtime.Mutex

set_option autoImplicit false

namespace Svalinn.Breakwater.CongMutex

open Svalinn.Lib Function Option
open Svalinn.Runtime

inductive Phase where
  | out
  /-- `num_th` is incremented and `mutex_lock` not called yet -/
  | entered
  /-- in `mutex_lock` -/
  | locking
  | locked
  /-- `num_th` is decremented and `last_acq` not written yet -/
  | counted
  | told
  /-- `mutex_try_lock` succeeded -/
  | trying
  /-- `cong_aware_mutex_try_lock` has returned false with the inner mutex held -/
  | untold
  /-- in `cong_aware_mutex_unlock`, `last_rel` is written -/
  | stamped
  | relRead (rel : Nat)
  | acqRead (lastHoldTime : Nat)
  | folded (holdTime : Nat)
  | updated
  /-- in `mutex_unlock` -/
  | unlocking
  deriving DecidableEq

def Phase.owns : Phase → Bool
  | .told | .stamped | .relRead _ | .acqRead _ | .folded _ | .updated => true
  | _ => false

/-- In `cong_aware_mutex_lock` and not yet past its decrement. -/
def Phase.counts : Phase → Bool
  | .entered | .locking | .locked => true
  | _ => false

def Phase.inCall : Phase → Bool
  | .out | .told | .untold => false
  | _ => true

section Model

variable {T : Type} [DecidableEq T] (ewma : Nat → Nat → Nat)

structure State (T : Type) where
  mutex : Mutex.State T
  numTh : Int
  lastAcq : Nat
  lastRel : Nat
  holdTime : Nat
  phase : T → Phase
  /-- the thread that wrote `last_acq` -/
  acqBy : Option T

def State.goto (s : State T) (t : T) (p : Phase) : State T :=
  { s with phase := update s.phase t p }

inductive Event (T : Type) where
  | lock (t : T)
  | tryLock (t : T)
  | lockIfUncongested (t : T) (congested : Bool)
  | unlock (t : T) (now : Nat)
  | run (t : T) (now : Nat)
  | stamp (t : T) (now : Nat)

def State.inner (s : State T) (e : Mutex.Event T) (t : T) (p : Phase) : Option (State T) :=
  (Mutex.step s.mutex e).map fun m => { s with mutex := m }.goto t p

/-- The start of `cong_aware_mutex_lock`. -/
def State.enter (s : State T) (t : T) : State T := { s with numTh := s.numTh + 1 }.goto t .entered

/-- `last_acq` is written. -/
def State.acquired (s : State T) (t : T) (now : Nat) (p : Phase) : State T :=
  { s with lastAcq := now, acqBy := some t }.goto t p

def State.run (s : State T) (t : T) (now : Nat) : Option (State T) :=
  match s.phase t with
  | .entered => s.inner (.lock t) t .locking
  | .locking =>
    if s.mutex.phase t = .holding then some (s.goto t .locked) else s.inner (.run t now) t .locking
  | .locked => some ({ s with numTh := s.numTh - 1 }.goto t .counted)
  | .counted => some (s.acquired t now .told)
  | .trying => some (s.acquired t now .untold)
  | .stamped => some (s.goto t (.relRead s.lastRel))
  | .relRead rel => some (s.goto t (.acqRead (sub64 rel s.lastAcq)))
  | .acqRead lastHoldTime => some (s.goto t (.folded (ewma s.holdTime lastHoldTime)))
  | .folded holdTime => some ({ s with holdTime := holdTime }.goto t .updated)
  | .updated => s.inner (.unlock t) t .unlocking
  | .unlocking =>
    if s.mutex.phase t = .idle then some (s.goto t .out) else s.inner (.run t now) t .unlocking
  | .out | .told | .untold => none

def step (s : State T) : Event T → Option (State T)
  | .lock t => if s.phase t = .out then some (s.enter t) else none
  | .tryLock t =>
    if s.phase t = .out then s.inner (.tryLock t) t (if s.mutex.held = 0 then .trying else .out) else none
  | .lockIfUncongested t congested =>
    if s.phase t = .out then some (if congested then s else s.enter t) else none
  | .unlock t now => if s.phase t = .told then some ({ s with lastRel := now }.goto t .stamped) else none
  | .run t now => s.run ewma t now
  | .stamp t now => s.inner (.stamp t now) t (s.phase t)

def congAwareMutexInit (readyTsc : T → Nat) : State T :=
  ⟨Mutex.mutexInit readyTsc, 0, 0, 0, 0, fun _ => .out, none⟩

/-! ## The property and the condition -/

structure Protocol (s : State T) : Prop where
  owner_holds : ∀ t, (s.phase t).owns = true → s.mutex.phase t = .holding
  /-- A thread that holds it was told so, or is still inside the call. -/
  holder_owns : ∀ t, (s.mutex.phase t).holds = true → (s.phase t).owns = true ∨ (s.phase t).inCall = true
  /-- Between the calls it is held exactly while some thread has been told so. -/
  held_iff : (∀ t, (s.phase t).inCall = false) → (s.mutex.held ≠ 0 ↔ ∃ t, s.phase t = .told)
  numTh : ∃ l, Listed Phase.counts s.phase l ∧ s.numTh = l.length
  /-- The thread that is about to read `last_acq` has written it. -/
  acq_written : ∀ t rel, s.phase t = .relRead rel → s.acqBy = some t

/-- `cong_aware_mutex_try_lock` is called only while the inner mutex is held. -/
def Guard (s : State T) : Event T → Prop
  | .tryLock _ => s.mutex.held ≠ 0
  | _ => True

/-! ## The invariant -/

def Phase.Agrees : Phase → Mutex.Stage → Prop
  | .out, q | .entered, q => q = .idle
  | .locking, q => q = .lock ∨ q = .holding
  | .unlocking, q => q = .unlock ∨ q = .idle
  | .trying, _ | .untold, _ => False
  | _, q => q = .holding

structure Inv (s : State T) : Prop where
  mutex : ∃ owner handing, Mutex.Inv s.mutex owner handing
  agrees : ∀ t, (s.phase t).Agrees (s.mutex.phase t).stage
  numTh : ∃ l, Listed Phase.counts s.phase l ∧ s.numTh = l.length
  written : ∀ t, (s.phase t).owns = true → s.acqBy = some t

variable {ewma} {s : State T} {t : T} {p : Phase}

omit [DecidableEq T] in
theorem stage_holding {q : Mutex.Phase T} (h : q.stage = .holding) : q = .holding := by
  cases q with
  | holding => rfl
  | _ => cases h

/-- Only a thread in `mutex_lock` can be moved on by another one. -/
theorem Phase.Agrees.moved {q : Mutex.Stage} (h : p.Agrees .lock) (hq : q = .lock ∨ q = .holding) :
    p.Agrees q := by
  cases p with
  | locking => exact hq
  | unlocking => rcases h with h | h <;> cases h
  | _ => cases h

theorem Inv.agrees_update {m : Mutex.State T} (h : Inv s) (hp : p.Agrees (m.phase t).stage)
    (hother : ∀ u, u ≠ t → (m.phase u).stage = (s.mutex.phase u).stage ∨
      (s.mutex.phase u).stage = .lock ∧ ((m.phase u).stage = .lock ∨ (m.phase u).stage = .holding)) :
    ∀ u, (update s.phase t p u).Agrees (m.phase u).stage := by
  intro u
  by_cases hu : u = t
  · rw [hu, update_self]
    exact hp
  · rw [update_of_ne hu]
    have hagrees := h.agrees u
    obtain heq | ⟨hlock, hnext⟩ := hother u hu
    · rw [heq]
      exact hagrees
    · rw [hlock] at hagrees
      exact hagrees.moved hnext

theorem owner_stage {q : Mutex.Stage} (h : p.Agrees q) (ho : p.owns = true) : q = .holding := by
  cases p with
  | told | stamped | relRead _ | acqRead _ | folded _ | updated => exact h
  | _ => cases ho

theorem Inv.written_update (h : Inv s) {acqBy : Option T} (hp : p.owns = true → acqBy = some t)
    (hacq : acqBy = s.acqBy ∨ s.mutex.phase t = .holding) :
    ∀ u, (update s.phase t p u).owns = true → acqBy = some u := by
  obtain ⟨owner, handing, hm⟩ := h.mutex
  intro u hu
  by_cases hut : u = t
  · rw [hut] at hu ⊢
    rw [update_self] at hu
    exact hp hu
  · rw [update_of_ne hut] at hu
    obtain heq | hholding := hacq
    · rw [heq]
      exact h.written u hu
    · -- the thread that writes holds the inner mutex, as every owner does
      have howner := stage_holding (owner_stage (h.agrees u) hu)
      exact absurd (hm.owns.holds.eq (by rw [hholding]; rfl) (by rw [howner]; rfl)) hut

theorem Inv.move {m : Mutex.State T} {numTh : Int} {acqBy : Option T} (lastAcq lastRel holdTime : Nat)
    (h : Inv s) (hm : ∃ owner handing, Mutex.Inv m owner handing) (hp : p.Agrees (m.phase t).stage)
    (hother : ∀ u, u ≠ t → (m.phase u).stage = (s.mutex.phase u).stage ∨
      (s.mutex.phase u).stage = .lock ∧ ((m.phase u).stage = .lock ∨ (m.phase u).stage = .holding))
    (hcount : ∃ l, Listed Phase.counts (update s.phase t p) l ∧ numTh = l.length)
    (howns : p.owns = true → acqBy = some t)
    (hacq : acqBy = s.acqBy ∨ s.mutex.phase t = .holding) :
    Inv ⟨m, numTh, lastAcq, lastRel, holdTime, update s.phase t p, acqBy⟩ :=
  ⟨hm, h.agrees_update hp hother, hcount, h.written_update howns hacq⟩

theorem Inv.same_count {q : Phase} (h : Inv s) (ht : s.phase t = q) (hcounts : p.counts = q.counts) :
    ∃ l, Listed Phase.counts (update s.phase t p) l ∧ s.numTh = l.length := by
  obtain ⟨l, hl, hnum⟩ := h.numTh
  exact ⟨l, hl.keep (by rw [ht, hcounts]), hnum⟩

theorem Inv.goto {q : Phase} (lastRel holdTime : Nat) (h : Inv s) (ht : s.phase t = q)
    (hp : p.Agrees (s.mutex.phase t).stage) (hcounts : p.counts = q.counts)
    (howns : p.owns = true → q.owns = true) :
    Inv ({ s with lastRel := lastRel, holdTime := holdTime }.goto t p) := by
  refine h.move s.lastAcq lastRel holdTime h.mutex hp (fun _ _ => .inl rfl) (h.same_count ht hcounts)
    (fun ho => ?_) (.inl rfl)
  exact h.written t (ht ▸ howns ho)

theorem Inv.inner {q : Phase} {e : Mutex.Event T} {m : Mutex.State T} (h : Inv s) (ht : s.phase t = q)
    (hstep : Mutex.step s.mutex e = some m) (hp : p.Agrees (m.phase t).stage)
    (hother : ∀ u, u ≠ t → (m.phase u).stage = (s.mutex.phase u).stage ∨
      (s.mutex.phase u).stage = .lock ∧ ((m.phase u).stage = .lock ∨ (m.phase u).stage = .holding))
    (hcounts : p.counts = q.counts) (howns : p.owns = true → q.owns = true) :
    Inv ({ s with mutex := m }.goto t p) := by
  obtain ⟨owner, handing, hm⟩ := h.mutex
  refine h.move s.lastAcq s.lastRel s.holdTime (hm.step hstep) hp hother (h.same_count ht hcounts)
    (fun ho => ?_) (.inl rfl)
  exact h.written t (ht ▸ howns ho)

theorem Inv.enter (h : Inv s) (ht : s.phase t = .out) : Inv (s.enter t) := by
  have hidle := h.agrees t
  rw [ht] at hidle
  refine h.move s.lastAcq s.lastRel s.holdTime h.mutex hidle (fun _ _ => .inl rfl) ?_ nofun (.inl rfl)
  obtain ⟨l, hl, hnum⟩ := h.numTh
  refine ⟨l ++ [t], hl.push (by rw [ht]; rfl) rfl, ?_⟩
  rw [hnum, List.length_append]
  rfl

theorem Inv.leave (h : Inv s) (ht : s.phase t = .locked) :
    Inv ({ s with numTh := s.numTh - 1 }.goto t .counted) := by
  have hholding := h.agrees t
  rw [ht] at hholding
  refine h.move s.lastAcq s.lastRel s.holdTime h.mutex hholding (fun _ _ => .inl rfl) ?_ nofun (.inl rfl)
  obtain ⟨l, hl, hnum⟩ := h.numTh
  have hmem : t ∈ l := (hl.mem_iff t).2 (by rw [ht]; rfl)
  refine ⟨l.erase t, hl.erase rfl, ?_⟩
  have hpos := List.length_pos_of_mem hmem
  change s.numTh - 1 = _
  rw [hnum, List.length_erase_of_mem hmem]
  omega

theorem Inv.acquired (h : Inv s) (ht : s.phase t = .counted) (now : Nat) :
    Inv (s.acquired t now .told) := by
  have hholding := h.agrees t
  rw [ht] at hholding
  exact h.move now s.lastRel s.holdTime h.mutex hholding (fun _ _ => .inl rfl)
    (h.same_count ht rfl) (fun _ => rfl) (.inr (stage_holding hholding))

theorem Inv.lockStep {s' : State T} (h : Inv s) (ht : s.phase t = .entered)
    (hstep : s.inner (.lock t) t .locking = some s') : Inv s' := by
  obtain ⟨m, hm, rfl⟩ := map_eq_some_iff.1 hstep
  obtain ⟨-, hm'⟩ := ite_some_none_eq_some.1 hm
  have hphase : m.phase = update s.mutex.phase t
      (if s.mutex.held = 0 then .holding else .lockSlow) := by
    rw [← hm']
    split
    · rfl
    · rfl
  refine h.inner ht hm ?_ (fun u hu => .inl ?_) rfl nofun
  · rw [hphase, update_self]
    split
    · exact .inr rfl
    · exact .inl rfl
  · rw [hphase, update_of_ne hu]

theorem Inv.unlockStep {s' : State T} (h : Inv s) (ht : s.phase t = .updated)
    (hstep : s.inner (.unlock t) t .unlocking = some s') : Inv s' := by
  obtain ⟨m, hm, rfl⟩ := map_eq_some_iff.1 hstep
  obtain ⟨-, hm'⟩ := ite_some_none_eq_some.1 hm
  have hphase : m.phase = update s.mutex.phase t
      (if s.mutex.held = 1 then .idle else .unlockSlow) := by
    rw [← hm']
    split
    · rfl
    · rfl
  refine h.inner ht hm ?_ (fun u hu => .inl ?_) rfl nofun
  · rw [hphase, update_self]
    split
    · exact .inr rfl
    · exact .inl rfl
  · rw [hphase, update_of_ne hu]

theorem Inv.innerRun {s' : State T} {now : Nat} (h : Inv s) (ht : s.phase t = p)
    (hstep : s.inner (.run t now) t p = some s')
    (hinside : ∀ a b : Mutex.Stage, p.Agrees a → a.Inside b → p.Agrees b) : Inv s' := by
  obtain ⟨m, hm, rfl⟩ := map_eq_some_iff.1 hstep
  obtain ⟨owner, handing, hmutex⟩ := h.mutex
  have hstaged : Mutex.Staged t s.mutex m := hmutex.staged hm
  exact h.inner ht hm (hinside _ _ (ht ▸ h.agrees t) hstaged.self) hstaged.other rfl id

theorem Inv.run {s' : State T} {now : Nat} (h : Inv s) (hstep : s.run ewma t now = some s') : Inv s' := by
  have hagrees := h.agrees t
  rw [State.run] at hstep
  cases ht : s.phase t with
  | out | told | untold => rw [ht] at hstep; cases hstep
  | trying => rw [ht] at hagrees; cases hagrees
  | entered =>
    rw [ht] at hstep
    exact h.lockStep ht hstep
  | locking =>
    rw [ht] at hstep
    dsimp only at hstep
    split at hstep
    · rename_i hholding
      cases hstep
      exact h.goto s.lastRel s.holdTime ht (congrArg Mutex.Phase.stage hholding) rfl nofun
    · refine h.innerRun ht hstep fun a b ha hab => ?_
      obtain ⟨-, hb⟩ | ⟨hunlock, -⟩ := hab
      · exact hb
      · rcases ha with ha | ha <;> cases ha.symm.trans hunlock
  | locked =>
    rw [ht] at hstep
    cases hstep
    exact h.leave ht
  | counted =>
    rw [ht] at hstep
    cases hstep
    exact h.acquired ht now
  | stamped | relRead _ | acqRead _ =>
    rw [ht] at hstep hagrees
    cases hstep
    exact h.goto s.lastRel s.holdTime ht hagrees rfl id
  | folded holdTime =>
    rw [ht] at hstep hagrees
    cases hstep
    exact h.goto s.lastRel holdTime ht hagrees rfl id
  | updated =>
    rw [ht] at hstep
    exact h.unlockStep ht hstep
  | unlocking =>
    rw [ht] at hstep
    dsimp only at hstep
    split at hstep
    · rename_i hidle
      cases hstep
      exact h.goto s.lastRel s.holdTime ht (congrArg Mutex.Phase.stage hidle) rfl nofun
    · refine h.innerRun ht hstep fun a b ha hab => ?_
      obtain ⟨hlock, -⟩ | ⟨-, hb⟩ := hab
      · rcases ha with ha | ha <;> cases ha.symm.trans hlock
      · exact hb

theorem Inv.keeps {s' : State T} {e : Event T} (h : Inv s) (hguard : Guard s e)
    (hstep : step ewma s e = some s') : Inv s' := by
  cases e with
  | lock t =>
    obtain ⟨ht, rfl⟩ := ite_some_none_eq_some.1 hstep
    exact h.enter ht
  | tryLock t =>
    obtain ⟨ht, hstep⟩ := ite_none_right_eq_some.1 hstep
    obtain ⟨m, hm, rfl⟩ := map_eq_some_iff.1 hstep
    -- the compare-and-swap fails
    rw [if_neg hguard]
    obtain ⟨-, hm'⟩ := ite_some_none_eq_some.1 hm
    rw [if_neg hguard] at hm'
    subst hm'
    exact h.inner ht hm (ht ▸ h.agrees t) (fun _ _ => .inl rfl) rfl nofun
  | lockIfUncongested t congested =>
    obtain ⟨ht, rfl⟩ := ite_some_none_eq_some.1 hstep
    cases congested with
    | true => exact h
    | false => exact h.enter ht
  | unlock t now =>
    obtain ⟨ht, rfl⟩ := ite_some_none_eq_some.1 hstep
    have hholding := h.agrees t
    rw [ht] at hholding
    exact h.goto now s.holdTime ht hholding rfl fun _ => rfl
  | run t now => exact h.run hstep
  | stamp t now =>
    obtain ⟨m, hm, rfl⟩ := map_eq_some_iff.1 hstep
    obtain ⟨-, hm'⟩ := ite_none_left_eq_some.1 hm
    cases hm'
    exact h.inner rfl hm (h.agrees t) (fun _ _ => .inl rfl) rfl id

theorem inv_init (readyTsc : T → Nat) : Inv (congAwareMutexInit readyTsc) where
  mutex := ⟨none, none, Mutex.inv_init readyTsc⟩
  agrees _ := rfl
  numTh := ⟨[], ⟨fun _ => ⟨nofun, nofun⟩, .nil⟩, rfl⟩
  written := nofun

omit [DecidableEq T] in
theorem Phase.Agrees.owns_or_inCall {q : Mutex.Phase T} (h : p.Agrees q.stage) (hq : q.holds = true) :
    p.owns = true ∨ p.inCall = true := by
  cases p with
  | out =>
    cases q with
    | idle => cases hq
    | _ => cases h
  | untold => cases h
  | told => exact .inl rfl
  | _ => exact .inr rfl

theorem Inv.protocol (h : Inv s) : Protocol s := by
  obtain ⟨owner, handing, hm⟩ := h.mutex
  refine ⟨fun t ht => stage_holding (owner_stage (h.agrees t) ht),
    fun t ht => (h.agrees t).owns_or_inCall ht, fun hquiet => ?_, h.numTh,
    fun t rel ht => h.written t (by rw [ht]; rfl)⟩
  rw [hm.held_iff]
  constructor
  · rintro ⟨t, ht⟩
    have howns := ((h.agrees t).owns_or_inCall ht).resolve_right (by rw [hquiet t]; nofun)
    refine ⟨t, ?_⟩
    have hcall := hquiet t
    cases hphase : s.phase t with
    | told => rfl
    | out | untold => rw [hphase] at howns; cases howns
    | _ => rw [hphase] at hcall; cases hcall
  · rintro ⟨t, ht⟩
    have hholding := h.agrees t
    rw [ht] at hholding
    exact ⟨t, by rw [stage_holding hholding]; rfl⟩

theorem tryLock_trying {s' : State T} (hstep : step ewma s (.tryLock t) = some s')
    (hfree : s.mutex.held = 0) : s'.phase t = .trying ∧ s'.mutex.phase t = .holding := by
  obtain ⟨-, hstep⟩ := ite_none_right_eq_some.1 hstep
  obtain ⟨m, hm, rfl⟩ := map_eq_some_iff.1 hstep
  obtain ⟨-, rfl⟩ := ite_some_none_eq_some.1 hm
  rw [if_pos hfree, if_pos hfree]
  exact ⟨update_self .., update_self ..⟩

/-- The call returns false and leaves the inner mutex held by a thread that does not know. -/
theorem trying_breaks {s' : State T} (ht : s.phase t = .trying) (hm : s.mutex.phase t = .holding)
    {now : Nat} (hstep : step ewma s (.run t now) = some s') : ¬ Protocol s' := by
  have hrun : s.run ewma t now = some (s.acquired t now .untold) := by
    rw [State.run, ht]
  obtain rfl := some.inj (hrun.symm.trans hstep)
  intro h
  have hphase : (s.acquired t now .untold).phase t = .untold := update_self ..
  have hholds := h.holder_owns t (by rw [State.acquired, State.goto, hm]; rfl)
  rw [hphase] at hholds
  rcases hholds with hholds | hholds <;> cases hholds

/-- In every interleaving the protocol holds as long as `cong_aware_mutex_try_lock` is called only
while the inner mutex is held; a call that finds it free breaks the protocol. -/
theorem congAwareMutex_protocol_iff (readyTsc : T → Nat) :
    (∀ s : State T, Reaches (step ewma) Guard (congAwareMutexInit readyTsc) s → Protocol s) ∧
    ∀ (s : State T) (t : T) s' now, step ewma s (.tryLock t) = some s' → ¬ Guard s (.tryLock t) →
      ∃ s'', step ewma s' (.run t now) = some s'' ∧ ¬ Protocol s'' := by
  constructor
  · intro s hguarded
    have hinv : Inv s := hguarded.invariant (inv_init readyTsc) fun _ _ _ h hok hs => h.keeps hok hs
    exact hinv.protocol
  · intro s t s' now hstep hfree
    obtain ⟨ht, hm⟩ := tryLock_trying hstep (not_not.1 hfree)
    have hrun : step ewma s' (.run t now) = some (s'.acquired t now .untold) := by
      rw [step, State.run, ht]
    exact ⟨_, hrun, trying_breaks ht hm hrun⟩

end Model

def fold (holdTime lastHoldTime : Nat) : Nat := (2 * holdTime + 8 * lastHoldTime) / 10

/-- Thread 1 has the lock, a try of thread 2 fails, thread 2 locks and waits, and thread 1 is
about to release. -/
def handOver : List (Event Nat) :=
  [.lock 1, .run 1 0, .run 1 0, .run 1 0, .run 1 10, .tryLock 2, .lockIfUncongested 2 false, .run 2 11,
   .unlock 1 30, .run 1 30]

theorem congAwareMutex_protocol_handOver : ∃ s : State Nat,
    Reaches (step fold) Guard (congAwareMutexInit fun _ => 0) s ∧
    s.phase 1 = .relRead 30 ∧ s.acqBy = some 1 ∧ s.numTh = 1 ∧ Protocol s := by
  have hrun : (runChecked (step fold) (fun s e => match e with
      | .tryLock _ => decide (s.mutex.held ≠ 0) | _ => true) (congAwareMutexInit fun _ => 0) handOver).map
      (fun s => decide (s.phase 1 = .relRead 30 ∧ s.acqBy = some 1 ∧ s.numTh = 1)) = some true := by
    decide
  obtain ⟨s, hs, hp⟩ := map_eq_some_iff.1 hrun
  obtain ⟨hphase, hacq, hnum⟩ := of_decide_eq_true hp
  have hreach : Reaches (step fold) Guard (congAwareMutexInit fun _ => 0) s := by
    refine reaches_of_runChecked (fun s e _ he => ?_) hs
    cases e with
    | tryLock t => exact of_decide_eq_true (p := s.mutex.held ≠ 0) he
    | _ => trivial
  exact ⟨s, hreach, hphase, hacq, hnum, (congAwareMutex_protocol_iff fun _ => 0).1 s hreach⟩

/-- Thread 1 tries a free lock: the call returns false, the inner mutex stays held and no thread
knows that it has it. -/
theorem tryLock_keeps_mutex : ∃ s : State (Fin 2),
    Reaches (step fold) anyStep (congAwareMutexInit fun _ => 0) s ∧ (∀ t, (s.phase t).inCall = false) ∧
    s.mutex.held = 1 ∧ (∀ t, s.phase t ≠ .told) ∧ ¬ Protocol s := by
  obtain ⟨s, hreach, hquiet, hheld, hnone⟩ : ∃ s : State (Fin 2),
      Reaches (step fold) anyStep (congAwareMutexInit fun _ => 0) s ∧
        (∀ t, (s.phase t).inCall = false) ∧ s.mutex.held = 1 ∧ ∀ t, s.phase t ≠ .told :=
    exists_of_runActions [.tryLock 1, .run 1 5] (by decide)
  refine ⟨s, hreach, hquiet, hheld, hnone, fun h => ?_⟩
  obtain ⟨t, ht⟩ := (h.held_iff hquiet).1 (by rw [hheld]; decide)
  exact hnone t ht

end Svalinn.Breakwater.CongMutex
