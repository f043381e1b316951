/-
  Runtime/Timer.lean --- the timers of one kthread.

  Source: `runtime/timer.c` (`sift_up`, `sift_down`, `update_q_ptrs`, `timer_start_locked`,
  `timer_start`, `__timer_cancel`, `timer_softirq_one`) and `inc/runtime/timer.h`
  (`timer_init`, `timer_cancel`).

  Each critical section under `timer_lock` is one step, and so is each access to `armed` and
  `executing` without the lock.  One thread runs `timer_softirq_one`; the handlers run in
  it, outside the lock.
-/
import Svalinn.Lib.DaryHeap
import Svalinn.Lib.Transition

set_option autoImplicit false

namespace Svalinn.Runtime.Timer

open Svalinn.Lib Function Option

/-- `D`: the arity of the heap. -/
def arity : Nat := 4

/-- `RUNTIME_MAX_TIMERS`. -/
def maxTimers : Nat := 4096

def uint64Max : Nat := 2 ^ 64 - 1

/-- `struct timer_idx`. -/
structure TimerIdx (E : Type) where
  deadlineUs : Nat
  e : E
  deriving DecidableEq

/-- Where a thread is in `timer_cancel`. -/
inductive Phase (E : Type) where
  | idle
  /-- before the first test of `armed` -/
  | entered (e : E)
  /-- before the lock in `__timer_cancel` -/
  | locking (e : E)
  /-- before a test of `executing` -/
  | spinning (e : E)
  deriving DecidableEq

section Model

variable {T E : Type} [DecidableEq T] [DecidableEq E]

structure State (T E : Type) where
  /-- `timers`, and `idx` of each entry -/
  heap : HeapArray (TimerIdx E) E
  timern : Nat
  armed : E → Bool
  executing : E → Bool
  nextTimerTsc : Nat
  handler : Option E
  phase : T → Phase E
  deadline : E → Nat

/-- `cycles_per_us` and `start_tsc`. -/
structure Clock where
  cyclesPerUs : Nat
  startTsc : Nat

def Clock.tsc (c : Clock) (us : Nat) : Nat := (us * c.cyclesPerUs + c.startTsc) % 2 ^ 64

def State.updateQPtrs (c : Clock) (s : State T E) : State T E :=
  { s with nextTimerTsc := if s.timern = 0 then uint64Max else c.tsc (s.heap.slot 0).deadlineUs }

/-- `sift_up` and `sift_down`. -/
def siftUpAt (b : HeapArray (TimerIdx E) E) (i : Nat) : HeapArray (TimerIdx E) E :=
  siftUp arity TimerIdx.deadlineUs TimerIdx.e i b i

def siftDownAt (b : HeapArray (TimerIdx E) E) (i n : Nat) : HeapArray (TimerIdx E) E :=
  siftDown arity TimerIdx.deadlineUs TimerIdx.e n n b i

def State.timerStart (c : Clock) (s : State T E) (e : E) (deadlineUs : Nat) : State T E :=
  State.updateQPtrs c { s with
    heap := siftUpAt (s.heap.write TimerIdx.e s.timern ⟨deadlineUs, e⟩) s.timern
    timern := s.timern + 1
    armed := update s.armed e true
    executing := update s.executing e false
    deadline := update s.deadline e deadlineUs }

/-- The critical section of `__timer_cancel` for an armed entry. -/
def State.remove (c : Clock) (s : State T E) (e : E) : State T E :=
  let last := s.timern - 1
  let s := { s with armed := update s.armed e false, timern := last }
  if s.heap.pos e = last then s.updateQPtrs c
  else
    let moved := s.heap.write TimerIdx.e (s.heap.pos e) (s.heap.slot last)
    let up := siftUpAt moved (moved.pos e)
    State.updateQPtrs c { s with heap := siftDownAt up (up.pos e) last }

/-- The critical section of `timer_softirq_one` that takes the first entry. -/
def State.popFirst (c : Clock) (s : State T E) : State T E :=
  let i := s.timern - 1
  let e := (s.heap.slot 0).e
  let heap := if 0 < i then siftDownAt (s.heap.write TimerIdx.e 0 (s.heap.slot i)) 0 i else s.heap
  State.updateQPtrs c { s with
    heap := heap
    timern := i
    executing := update s.executing e true
    armed := update s.armed e false
    handler := some e }

inductive Event (T E : Type) where
  /-- `timer_start` by a thread or, with `none`, by the handler that runs -/
  | start (who : Option T) (e : E) (deadlineUs : Nat)
  | cancel (t : T) (e : E)
  /-- the next step of `timer_cancel` -/
  | run (t : T)
  /-- the loop of `timer_softirq_one` at a time -/
  | softirq (now : Nat)
  | finish

def State.goto (s : State T E) (t : T) (p : Phase E) : State T E :=
  { s with phase := update s.phase t p }

def State.run (c : Clock) (s : State T E) (t : T) : Option (State T E) :=
  match s.phase t with
  | .idle => none
  | .entered e => some (s.goto t (if s.armed e then .locking e else .spinning e))
  | .locking e => some (if s.armed e then (s.remove c e).goto t .idle else s.goto t (.spinning e))
  | .spinning e => some (if s.executing e then s else s.goto t .idle)

/-- What `timer_cancel` returns at the next step of the thread. -/
def State.returns (s : State T E) (t : T) : Option (E × Bool) :=
  match s.phase t with
  | .idle | .entered _ => none
  | .locking e => if s.armed e then some (e, true) else none
  | .spinning e => if s.executing e then none else some (e, false)

/-- `timer_start` of an armed entry, or of too many, is a `BUG`; a handler does not start its
own entry. -/
def step (c : Clock) (s : State T E) : Event T E → Option (State T E)
  | .start who e deadlineUs =>
    if s.armed e = false ∧ s.timern + 1 < maxTimers ∧ ¬ (who = none ∧ s.handler = some e) then
      some (s.timerStart c e deadlineUs)
    else none
  | .cancel t e => if s.phase t = .idle then some (s.goto t (.entered e)) else none
  | .run t => s.run c t
  | .softirq now =>
    if s.handler = none ∧ 0 < s.timern ∧ (s.heap.slot 0).deadlineUs ≤ now then some (s.popFirst c)
    else none
  | .finish =>
    match s.handler with
    | none => none
    | some e => some { s with executing := update s.executing e false, handler := none }

/-- After `timer_init` of every entry. -/
def init (unused : E) : State T E :=
  ⟨⟨fun _ => ⟨0, unused⟩, fun _ => 0⟩, 0, fun _ => false, fun _ => false, uint64Max, none,
    fun _ => .idle, fun _ => 0⟩

/-! ## The property -/

def IsFirst (s : State T E) (e : E) : Prop :=
  s.armed e = true ∧ ∀ e', s.armed e' = true → s.deadline e ≤ s.deadline e'

structure Valid (c : Clock) (s : State T E) : Prop where
  ordered : HeapOrdered arity TimerIdx.deadlineUs s.timern s.heap.slot
  /-- each entry in the heap knows its position, so it is there once -/
  linked : Linked TimerIdx.e s.timern s.heap
  content : ∀ a, Holds s.timern s.heap a ↔ s.armed a.e = true ∧ a.deadlineUs = s.deadline a.e
  next : (∀ e, s.armed e = false) ∧ s.nextTimerTsc = uint64Max ∨
    ∃ e, IsFirst s e ∧ s.nextTimerTsc = c.tsc (s.deadline e)

/-- `timer_softirq_one` runs the handler of a first entry, when it is due. -/
def PopsFirst (s : State T E) (e : Event T E) (s' : State T E) : Prop :=
  ∀ now, e = .softirq now → ∃ x, s'.handler = some x ∧ IsFirst s x ∧ s.deadline x ≤ now

def NotStarted (x : E) (_ : State T E) (e : Event T E) : Prop := ∀ who d, e ≠ .start who x d

/-- When `timer_cancel` returns, the handler does not run, and after it has returned true the
handler does not run until the entry is started again. -/
def Cancels (c : Clock) (s : State T E) (e : Event T E) (s' : State T E) : Prop :=
  ∀ t x b, e = .run t → s.returns t = some (x, b) → s'.handler ≠ some x ∧
    (b = true → ∀ s₂, Reaches (step c) (NotStarted x) s' s₂ → s₂.handler ≠ some x)

/-! ## The heap -/

/-- `Valid`, with the first slot in place of the first entry. -/
structure Inv (c : Clock) (s : State T E) : Prop where
  ordered : HeapOrdered arity TimerIdx.deadlineUs s.timern s.heap.slot
  linked : Linked TimerIdx.e s.timern s.heap
  content : ∀ a, Holds s.timern s.heap a ↔ s.armed a.e = true ∧ a.deadlineUs = s.deadline a.e
  tsc : s.nextTimerTsc = if s.timern = 0 then uint64Max else c.tsc (s.heap.slot 0).deadlineUs

variable {c : Clock} {s s' : State T E} {e : E}

theorem arity_pos : 0 < arity := by decide

omit [DecidableEq T] [DecidableEq E] in
theorem Inv.of_updateQPtrs (hordered : HeapOrdered arity TimerIdx.deadlineUs s.timern s.heap.slot)
    (hlinked : Linked TimerIdx.e s.timern s.heap)
    (hcontent : ∀ a, Holds s.timern s.heap a ↔ s.armed a.e = true ∧ a.deadlineUs = s.deadline a.e) :
    Inv c (s.updateQPtrs c) :=
  ⟨hordered, hlinked, hcontent, rfl⟩

omit [DecidableEq T] [DecidableEq E] in
theorem Inv.slot_armed {k : Nat} (h : Inv c s) (hk : k < s.timern) :
    s.armed (s.heap.slot k).e = true ∧ (s.heap.slot k).deadlineUs = s.deadline (s.heap.slot k).e :=
  (h.content _).1 ⟨k, hk, rfl⟩

omit [DecidableEq T] [DecidableEq E] in
theorem Inv.slot_pos (h : Inv c s) (harmed : s.armed e = true) :
    s.heap.pos e < s.timern ∧ (s.heap.slot (s.heap.pos e)).e = e := by
  obtain ⟨k, hk, hslot⟩ := (h.content ⟨s.deadline e, e⟩).2 ⟨harmed, rfl⟩
  have hid : (s.heap.slot k).e = e := congrArg TimerIdx.e hslot
  have hpos := h.linked k hk
  rw [hid] at hpos
  rw [hpos]
  exact ⟨hk, hid⟩

omit [DecidableEq T] [DecidableEq E] in
theorem Inv.first (h : Inv c s) (hpos : 0 < s.timern) : IsFirst s (s.heap.slot 0).e := by
  obtain ⟨harmed, hdeadline⟩ := h.slot_armed hpos
  refine ⟨harmed, fun x hx => ?_⟩
  obtain ⟨hlt, hid⟩ := h.slot_pos hx
  have hle := h.ordered.root_le hlt
  rw [hdeadline, (h.slot_armed hlt).2, hid] at hle
  exact hle

omit [DecidableEq T] [DecidableEq E] in
theorem Inv.valid (h : Inv c s) : Valid c s := by
  refine ⟨h.ordered, h.linked, h.content, ?_⟩
  have htsc := h.tsc
  rcases Nat.eq_zero_or_pos s.timern with hzero | hpos
  · rw [if_pos hzero] at htsc
    refine .inl ⟨fun x => Bool.eq_false_iff.2 fun hx => ?_, htsc⟩
    have hlt := (h.slot_pos hx).1
    omega
  · rw [if_neg hpos.ne', (h.slot_armed hpos).2] at htsc
    exact .inr ⟨_, h.first hpos, htsc⟩

omit [DecidableEq T] in
theorem Inv.timerStart (h : Inv c s) (hidle : s.armed e = false) (d : Nat) :
    Inv c (s.timerStart c e d) := by
  have hnew : ∀ k, k < s.timern → (s.heap.slot k).e ≠ e := by
    intro k hk hid
    have harmed := (h.slot_armed hk).1
    rw [hid, hidle] at harmed
    cases harmed
  obtain ⟨hord, hlink, hholds⟩ := siftUp_spec s.timern (Nat.le_refl _) (Nat.lt_succ_self _)
    (h.linked.append (a := ⟨d, e⟩) hnew) (h.ordered.append ⟨d, e⟩)
  refine Inv.of_updateQPtrs hord hlink fun a => (hholds a).trans ?_
  rw [holds_append, h.content a]
  change _ ↔ update s.armed e true a.e = true ∧ a.deadlineUs = update s.deadline e d a.e
  by_cases hid : a.e = e
  · rw [hid, update_self, update_self, hidle]
    constructor
    · rintro (rfl | hfalse)
      · exact ⟨rfl, rfl⟩
      · exact absurd hfalse.1 nofun
    · rintro ⟨-, hd⟩
      obtain ⟨x, y⟩ := a
      obtain rfl : y = e := hid
      obtain rfl : x = d := hd
      exact .inl rfl
  · rw [update_of_ne hid, update_of_ne hid]
    constructor
    · rintro (rfl | hold)
      · exact absurd rfl hid
      · exact hold
    · exact .inr

omit [DecidableEq T] in
theorem content_without (h : Inv c s) {a : TimerIdx E} : (Holds s.timern s.heap a ∧ a.e ≠ e) ↔
      update s.armed e false a.e = true ∧ a.deadlineUs = s.deadline a.e := by
  rw [h.content a]
  by_cases hid : a.e = e
  · rw [hid, update_self]
    exact ⟨fun hc => absurd rfl hc.2, fun hc => absurd hc.1 nofun⟩
  · rw [update_of_ne hid]
    exact ⟨fun hc => hc.1, fun hc => ⟨hc, hid⟩⟩

omit [DecidableEq T] in
theorem Inv.remove (h : Inv c s) (harmed : s.armed e = true) : Inv c (s.remove c e) := by
  obtain ⟨hlt, hid⟩ := h.slot_pos harmed
  obtain ⟨n, hn⟩ : ∃ n, s.timern = n + 1 := ⟨s.timern - 1, by omega⟩
  have hordered := h.ordered
  have hlinked := h.linked
  have hcontent := fun a => content_without (e := e) (a := a) h
  rw [hn] at hordered hlinked hcontent hlt
  unfold State.remove
  dsimp only
  rw [hn, Nat.add_sub_cancel]
  split
  · rename_i hlast
    refine Inv.of_updateQPtrs hordered.dropLast hlinked.dropLast fun a => ?_
    refine Iff.trans ?_ (hcontent a)
    change Holds n s.heap a ↔ _
    rw [holds_dropLast hlinked, ← hlast, hid]
  · rename_i hlast
    have hin : s.heap.pos e < n := by omega
    have hlink := hlinked.fill (s.heap.pos e)
    have hheld : ∀ a, Holds n (s.heap.write TimerIdx.e (s.heap.pos e) (s.heap.slot n)) a ↔
        Holds (n + 1) s.heap a ∧ a.e ≠ e := by
      intro a
      rw [holds_fill hlinked hin, hid]
    have hother : ∀ a, Holds n (s.heap.write TimerIdx.e (s.heap.pos e) (s.heap.slot n)) a → a.e ≠ e :=
      fun a ha => ((hheld a).1 ha).2
    -- neither the move nor the sift up writes the position of `e`
    have hpos : (s.heap.write TimerIdx.e (s.heap.pos e) (s.heap.slot n)).pos e = s.heap.pos e := by
      refine update_of_ne ?_ ..
      exact (hother _ ⟨s.heap.pos e, hin, write_slot_self⟩).symm
    have hup : (siftUpAt (s.heap.write TimerIdx.e (s.heap.pos e) (s.heap.slot n)) (s.heap.pos e)).pos e =
        s.heap.pos e := (siftUp_pos_other _ hin hother).trans hpos
    rw [hpos, hup]
    obtain ⟨hord', hlink', hholds'⟩ := siftDown_siftUp_spec arity_pos (s.heap.pos e) n (Nat.le_refl _)
      (Nat.le_add_left _ _) hin hlink (hordered.fill (s.heap.slot n) hin)
    refine Inv.of_updateQPtrs hord' hlink' fun a => (hholds' a).trans ?_
    exact (hheld a).trans (hcontent a)

omit [DecidableEq T] in
theorem Inv.popFirst (h : Inv c s) (hpos : 0 < s.timern) : Inv c (s.popFirst c) := by
  obtain ⟨n, hn⟩ : ∃ n, s.timern = n + 1 := ⟨s.timern - 1, by omega⟩
  have hordered := h.ordered
  have hlinked := h.linked
  have hcontent := fun a => content_without (e := (s.heap.slot 0).e) (a := a) h
  rw [hn] at hordered hlinked hcontent
  unfold State.popFirst
  dsimp only
  rw [hn, Nat.add_sub_cancel]
  split
  · rename_i hin
    obtain ⟨hord', hlink', hholds'⟩ := siftDown_spec arity_pos n (Nat.le_add_left _ _) hin
      (hlinked.fill 0) (hordered.fill (s.heap.slot n) hin).down
    refine Inv.of_updateQPtrs hord' hlink' fun a => (hholds' a).trans ?_
    exact (holds_fill hlinked hin a).trans (hcontent a)
  · rename_i hzero
    obtain rfl : n = 0 := by omega
    refine Inv.of_updateQPtrs hordered.dropLast hlinked.dropLast fun a => ?_
    exact (holds_dropLast hlinked a).trans (hcontent a)

/-! ## Whole runs -/

omit [DecidableEq T] [DecidableEq E] in
theorem inv_init (unused : E) : Inv c (init unused : State T E) := by
  refine ⟨nofun, nofun, fun a => ⟨?_, fun ha => absurd ha.1 nofun⟩, rfl⟩
  rintro ⟨k, hk, -⟩
  exact absurd hk (Nat.not_lt_zero k)

omit [DecidableEq E] in
theorem Inv.goto {t : T} {p : Phase E} (h : Inv c s) : Inv c (s.goto t p) :=
  ⟨h.ordered, h.linked, h.content, h.tsc⟩

theorem run_cases {t : T} (hstep : s.run c t = some s') :
    (∃ e, s.armed e = true ∧ s' = (s.remove c e).goto t .idle) ∨ (∃ p, s' = s.goto t p) ∨
      s' = s := by
  unfold State.run at hstep
  split at hstep
  · cases hstep
  · exact .inr (.inl ⟨_, (some.inj hstep).symm⟩)
  · rename_i e _
    split at hstep
    · rename_i harmed
      exact .inl ⟨e, harmed, (some.inj hstep).symm⟩
    · exact .inr (.inl ⟨_, (some.inj hstep).symm⟩)
  · split at hstep
    · exact .inr (.inr (some.inj hstep).symm)
    · exact .inr (.inl ⟨_, (some.inj hstep).symm⟩)

theorem Inv.run {t : T} (h : Inv c s) (hstep : s.run c t = some s') : Inv c s' := by
  obtain ⟨e, harmed, rfl⟩ | ⟨p, rfl⟩ | rfl := run_cases hstep
  · exact (h.remove harmed).goto
  · exact h.goto
  · exact h

theorem Inv.keeps {ev : Event T E} (h : Inv c s) (hstep : step c s ev = some s') : Inv c s' := by
  cases ev with
  | start who e d =>
    obtain ⟨⟨hidle, -, -⟩, rfl⟩ := ite_some_none_eq_some.1 hstep
    exact h.timerStart hidle d
  | cancel t e =>
    obtain ⟨-, rfl⟩ := ite_some_none_eq_some.1 hstep
    exact h.goto
  | run t => exact h.run hstep
  | softirq now =>
    obtain ⟨⟨-, hpos, -⟩, rfl⟩ := ite_some_none_eq_some.1 hstep
    exact h.popFirst hpos
  | finish =>
    unfold step at hstep
    dsimp only at hstep
    split at hstep
    · cases hstep
    · cases hstep
      exact ⟨h.ordered, h.linked, h.content, h.tsc⟩

theorem Inv.popsFirst {ev : Event T E} (h : Inv c s) (hstep : step c s ev = some s') :
    PopsFirst s ev s' := by
  rintro now rfl
  obtain ⟨⟨-, hpos, hdue⟩, rfl⟩ := ite_some_none_eq_some.1 hstep
  refine ⟨(s.heap.slot 0).e, rfl, h.first hpos, ?_⟩
  rw [← (h.slot_armed hpos).2]
  exact hdue

/-! ## Cancelling -/

def NotWhileRunning (s : State T E) : Event T E → Prop
  | .start _ e _ => s.handler ≠ some e
  | _ => True

instance (s : State T E) : (ev : Event T E) → Decidable (NotWhileRunning s ev)
  | .start _ e _ => inferInstanceAs (Decidable (s.handler ≠ some e))
  | .cancel _ _ | .run _ | .softirq _ | .finish => inferInstanceAs (Decidable True)

/-- `executing` tells whose handler runs, and that one is not armed. -/
structure Exclusive (s : State T E) : Prop where
  executing : ∀ e, s.executing e = true ↔ s.handler = some e
  disarmed : ∀ e, s.handler = some e → s.armed e = false

omit [DecidableEq T] in
theorem remove_handler (s : State T E) (e : E) : (s.remove c e).handler = s.handler := by
  unfold State.remove
  dsimp only
  split <;> rfl

omit [DecidableEq T] in
theorem remove_executing (s : State T E) (e : E) : (s.remove c e).executing = s.executing := by
  unfold State.remove
  dsimp only
  split <;> rfl

omit [DecidableEq T] in
theorem remove_armed (s : State T E) (e : E) : (s.remove c e).armed = update s.armed e false := by
  unfold State.remove
  dsimp only
  split <;> rfl

omit [DecidableEq T] in
theorem remove_disarmed {e x : E} (h : s.armed x = false) : (s.remove c e).armed x = false := by
  rw [remove_armed, update_apply]
  split
  · rfl
  · exact h

theorem Exclusive.run {t : T} (h : Exclusive s) (hstep : s.run c t = some s') : Exclusive s' := by
  obtain ⟨e, -, rfl⟩ | ⟨p, rfl⟩ | rfl := run_cases hstep
  · refine ⟨fun x => ?_, fun x hx => ?_⟩
    · change (s.remove c e).executing x = true ↔ (s.remove c e).handler = some x
      rw [remove_executing, remove_handler]
      exact h.executing x
    · change (s.remove c e).handler = some x at hx
      rw [remove_handler] at hx
      exact remove_disarmed (h.disarmed x hx)
  · exact ⟨h.executing, h.disarmed⟩
  · exact h

theorem Exclusive.keeps {ev : Event T E} (h : Exclusive s) (hok : NotWhileRunning s ev)
    (hstep : step c s ev = some s') : Exclusive s' := by
  cases ev with
  | start who e d =>
    obtain ⟨-, rfl⟩ := ite_some_none_eq_some.1 hstep
    have hnot : s.handler ≠ some e := hok
    refine ⟨fun x => ?_, fun x hx => ?_⟩
    · change update s.executing e false x = true ↔ s.handler = some x
      rw [update_apply]
      split
      · rename_i hxe
        rw [hxe]
        exact ⟨nofun, fun hx => absurd hx hnot⟩
      · exact h.executing x
    · change update s.armed e true x = false
      have hxe : x ≠ e := by
        rintro rfl
        exact hnot hx
      rw [update_of_ne hxe]
      exact h.disarmed x hx
  | cancel t e =>
    obtain ⟨-, rfl⟩ := ite_some_none_eq_some.1 hstep
    exact ⟨h.executing, h.disarmed⟩
  | run t => exact h.run hstep
  | softirq now =>
    obtain ⟨⟨hnone, -, -⟩, rfl⟩ := ite_some_none_eq_some.1 hstep
    have hidle : ∀ x, s.executing x = false := by
      intro x
      refine Bool.eq_false_iff.2 fun hx => ?_
      have hhandler := (h.executing x).1 hx
      rw [hnone] at hhandler
      cases hhandler
    refine ⟨fun x => ?_, fun x hx => ?_⟩
    · change update s.executing (s.heap.slot 0).e true x = true ↔ some (s.heap.slot 0).e = some x
      rw [update_apply, some_inj]
      split
      · rename_i hx
        exact ⟨fun _ => hx.symm, fun _ => rfl⟩
      · rename_i hx
        rw [hidle x]
        exact ⟨nofun, fun heq => absurd heq.symm hx⟩
    · cases hx
      exact update_self ..
  | finish =>
    unfold step at hstep
    dsimp only at hstep
    split at hstep
    · cases hstep
    · rename_i e he
      cases hstep
      refine ⟨fun x => ?_, nofun⟩
      change update s.executing e false x = true ↔ none = some x
      rw [update_apply]
      split
      · exact ⟨nofun, nofun⟩
      · rename_i hxe
        refine ⟨fun hx => ?_, nofun⟩
        have hhandler := (h.executing x).1 hx
        exact absurd (some.inj (hhandler.symm.trans he)) hxe

/-- The entry is neither armed nor is its handler running. -/
structure Gone (x : E) (s : State T E) : Prop where
  armed : s.armed x = false
  handler : s.handler ≠ some x

theorem Gone.keeps {x : E} {ev : Event T E} (hinv : Inv c s) (h : Gone x s)
    (hok : NotStarted x s ev) (hstep : step c s ev = some s') : Gone x s' := by
  cases ev with
  | start who e d =>
    obtain ⟨-, rfl⟩ := ite_some_none_eq_some.1 hstep
    have hxe : x ≠ e := by
      rintro rfl
      exact hok who d rfl
    exact ⟨(update_of_ne hxe ..).trans h.armed, h.handler⟩
  | cancel t e =>
    obtain ⟨-, rfl⟩ := ite_some_none_eq_some.1 hstep
    exact ⟨h.armed, h.handler⟩
  | run t =>
    obtain ⟨e, -, rfl⟩ | ⟨p, rfl⟩ | rfl := run_cases (show s.run c t = some s' from hstep)
    · refine ⟨remove_disarmed h.armed, ?_⟩
      change (s.remove c e).handler ≠ some x
      rw [remove_handler]
      exact h.handler
    · exact ⟨h.armed, h.handler⟩
    · exact h
  | softirq now =>
    obtain ⟨⟨-, hpos, -⟩, rfl⟩ := ite_some_none_eq_some.1 hstep
    have hxe : x ≠ (s.heap.slot 0).e := by
      rintro rfl
      have harmed := (hinv.slot_armed hpos).1
      rw [h.armed] at harmed
      cases harmed
    refine ⟨(update_of_ne hxe ..).trans h.armed, fun hx => ?_⟩
    exact hxe (some.inj hx).symm
  | finish =>
    unfold step at hstep
    dsimp only at hstep
    split at hstep
    · cases hstep
    · cases hstep
      exact ⟨h.armed, nofun⟩

theorem Gone.reaches {x : E} {s₂ : State T E} (hinv : Inv c s) (h : Gone x s)
    (hreach : Reaches (step c) (NotStarted x) s s₂) : Gone x s₂ := by
  have hboth : Inv c s₂ ∧ Gone x s₂ := hreach.invariant (P := fun u => Inv c u ∧ Gone x u) ⟨hinv, h⟩
    fun _ _ _ hu hok hs => ⟨hu.1.keeps hs, Gone.keeps hu.1 hu.2 hok hs⟩
  exact hboth.2

theorem Exclusive.cancels {ev : Event T E} (hinv : Inv c s) (h : Exclusive s)
    (hstep : step c s ev = some s') : Cancels c s ev s' := by
  rintro t x b rfl hret
  have hinv' := hinv.keeps hstep
  have hrun : s.run c t = some s' := hstep
  unfold State.run at hrun
  unfold State.returns at hret
  cases hp : s.phase t with
  | idle | entered e =>
    rw [hp] at hret
    cases hret
  | locking e =>
    rw [hp] at hret hrun
    dsimp only at hret hrun
    split at hret
    · rename_i harmed
      obtain ⟨rfl, rfl⟩ := Prod.mk.inj (some.inj hret)
      rw [if_pos harmed] at hrun
      cases hrun
      have hgone : Gone e ((s.remove c e).goto t .idle) := by
        refine ⟨?_, fun hx => ?_⟩
        · change (s.remove c e).armed e = false
          rw [remove_armed, update_self]
        · change (s.remove c e).handler = some e at hx
          rw [remove_handler] at hx
          rw [h.disarmed e hx] at harmed
          cases harmed
      exact ⟨hgone.handler, fun _ s₂ hreach => (hgone.reaches hinv' hreach).handler⟩
    · cases hret
  | spinning e =>
    rw [hp] at hret hrun
    dsimp only at hret hrun
    split at hret
    · cases hret
    · rename_i hidle
      obtain ⟨rfl, rfl⟩ := Prod.mk.inj (some.inj hret)
      rw [if_neg hidle] at hrun
      cases hrun
      exact ⟨fun hx => hidle ((h.executing e).2 hx), nofun⟩

/-- A timer that is started while its handler runs can be cancelled although the handler
runs. -/
theorem cancel_while_running {t : T} {e : E} (harmed : s.armed e = true) (hrunning : s.handler = some e)
    (hidle : s.phase t = .idle) :
    ∃ s₁ s₂, Reaches (step c) anyStep s s₁ ∧ s₁.returns t = some (e, true) ∧
      step c s₁ (.run t) = some s₂ ∧ s₂.handler = some e := by
  have hself : ∀ (u : State T E) (p : Phase E), (u.goto t p).phase t = p := fun u p =>
    update_self ..
  have hfirst : step c s (.cancel t e) = some (s.goto t (.entered e)) := if_pos hidle
  have hsecond : step c (s.goto t (.entered e)) (.run t) =
      some ((s.goto t (.entered e)).goto t (.locking e)) := by
    rw [step, State.run, hself]
    exact congrArg (fun p => some ((s.goto t (.entered e)).goto t p)) (if_pos harmed)
  refine ⟨_, (((s.goto t (.entered e)).goto t (.locking e)).remove c e).goto t .idle,
    (Reaches.single trivial hfirst).trans (.single trivial hsecond), ?_, ?_, ?_⟩
  · rw [State.returns, hself]
    exact if_pos harmed
  · rw [step, State.run, hself]
    exact congrArg some (if_pos harmed)
  · exact (remove_handler _ e).trans hrunning

/-- If no timer is started while its handler runs, the timers fire in order and when they are due,
and a cancelled timer does not run. As soon as one is, it can be cancelled while its handler runs.
-/
theorem timers_cancel_iff (c : Clock) (unused : E) {s : State T E}
    (hreach : Reaches (step c) NotWhileRunning (init unused) s) :
    Valid c s ∧ (∀ ev s', step c s ev = some s' → PopsFirst s ev s' ∧ Cancels c s ev s') ∧
    ∀ ev s', step c s ev = some s' → ¬ NotWhileRunning s ev → ∀ t, s'.phase t = .idle →
      ∃ s₁ s₂ x, Reaches (step c) anyStep s' s₁ ∧ s₁.returns t = some (x, true) ∧
        step c s₁ (.run t) = some s₂ ∧ s₂.handler = some x := by
  have hboth : Inv c s ∧ Exclusive s := by
    refine hreach.invariant (P := fun u => Inv c u ∧ Exclusive u) ⟨inv_init unused, fun _ => ⟨nofun, nofun⟩, nofun⟩ ?_
    exact fun _ _ _ hu hok hs => ⟨hu.1.keeps hs, hu.2.keeps hok hs⟩
  obtain ⟨hinv, hex⟩ := hboth
  refine ⟨hinv.valid, fun ev s' hs => ⟨hinv.popsFirst hs, hex.cancels hinv hs⟩, ?_⟩
  intro ev s' hs hbad t hidle
  cases ev with
  | start who e d =>
    have hrunning : s.handler = some e := not_not.1 hbad
    obtain ⟨-, rfl⟩ := ite_some_none_eq_some.1 hs
    obtain ⟨s₁, s₂, hr, hret, hstep, hhandler⟩ :=
      cancel_while_running (s := s.timerStart c e d) (update_self ..) hrunning hidle
    exact ⟨s₁, s₂, e, hr, hret, hstep, hhandler⟩
  | _ => exact absurd trivial hbad

end Model

/-! ## A handler that is overtaken -/

def someClock : Clock := ⟨2, 100⟩

/-- Three timers are started, the first one is cancelled, and the next one in time fires. -/
def threeTimers : List (Event Nat Nat) :=
  [.start (some 1) 7 5, .start (some 1) 8 30, .start (some 1) 9 20, .cancel 2 7, .run 2, .run 2,
    .softirq 25]

theorem timers_cancel_three : ∃ s : State Nat Nat,
    Reaches (step someClock) NotWhileRunning (init 0) s ∧ s.handler = some 9 ∧
    s.nextTimerTsc = 160 ∧ Valid someClock s := by
  obtain ⟨s, hreach, hhandler, htsc⟩ : ∃ s, Reaches (step someClock) NotWhileRunning (init 0) s ∧
      s.handler = some 9 ∧ s.nextTimerTsc = 160 :=
    exists_of_runChecked threeTimers (by decide)
  exact ⟨s, hreach, hhandler, htsc, (timers_cancel_iff someClock 0 hreach).1⟩

/-- The handler of timer 7 runs.  Thread 1 starts the timer again and cancels it. -/
def startedAgain : List (Event Nat Nat) :=
  [.start (some 1) 7 5, .softirq 5, .start (some 1) 7 9, .cancel 1 7, .run 1]

theorem cancelled_while_running : ∃ s s' : State Nat Nat,
    Reaches (step someClock) anyStep (init 0) s ∧ step someClock s (.run 1) = some s' ∧
    s.returns 1 = some (7, true) ∧ s'.handler = some 7 ∧ ¬ Cancels someClock s (.run 1) s' := by
  obtain ⟨s, hreach, hret, hnext⟩ : ∃ s, Reaches (step someClock) anyStep (init 0) s ∧
      s.returns 1 = some (7, true) ∧
      (step someClock s (.run 1)).map State.handler = some (some 7) :=
    exists_of_runActions startedAgain (by decide)
  obtain ⟨s', hstep, hhandler⟩ := map_eq_some_iff.1 hnext
  exact ⟨s, s', hreach, hstep, hret, hhandler, fun h => (h 1 7 true rfl hret).1 hhandler⟩

end Svalinn.Runtime.Timer
