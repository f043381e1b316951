/-
  Runtime/Rcu.lean --- read-copy-update.

  Source: `runtime/rcu.c` (`rcu_worker`, `rcu_free`, `synchronize_rcu`), and the places in
  `runtime/sched.c` that change `rcu_gen` (`schedule`, `enter_schedule`,
  `thread_finish_cede`, `schedule_start`).

  Every access of the worker to a generation counter is a step.  `rcu_head` and
  `rcu_worker_th` are only touched with `rcu_lock` held, so each critical section is one
  step.  A reader section is known by the time at which it began and a callback by the time
  at which it was queued; the clock exists in the model only.
-/
import Mathlib.Data.List.Perm.Basic
import Mathlib.Data.List.Nodup
import Svalinn.Lib.Transition

set_option autoImplicit false

namespace Svalinn.Runtime.Rcu

open Svalinn.Lib Function List

/-! ## The generation counters -/

/-- `(gen & 0x1) == 0x1`. -/
def odd (gen : BitVec 32) : Bool := decide (gen &&& 1#32 = 1#32)

theorem odd_iff (gen : BitVec 32) : odd gen = true ↔ gen.toNat % 2 = 1 := by
  unfold odd
  rw [decide_eq_true_eq, ← BitVec.toNat_inj, BitVec.toNat_and]
  change gen.toNat &&& 1 = 1 ↔ _
  rw [Nat.and_one_is_mod]

theorem odd_succ (gen : BitVec 32) : odd (gen + 1#32) = !odd gen := by
  rw [Bool.eq_iff_iff, Bool.not_eq_true', ← Bool.not_eq_true, odd_iff, odd_iff, BitVec.toNat_add]
  change (gen.toNat + 1) % 2 ^ 32 % 2 = 1 ↔ _
  omega

theorem odd_add_two (gen : BitVec 32) : odd (gen + 2#32) = odd gen := by
  rw [show (2#32 : BitVec 32) = 1#32 + 1#32 from rfl, ← BitVec.add_assoc, odd_succ, odd_succ,
    Bool.not_not]

inductive Mode where
  | unattached
  /-- on the way into `schedule` with an odd count but without a thread -/
  | entering
  | sched
  | parked
  | running
  /-- parked in `thread_finish_cede` -/
  | ceded
  deriving DecidableEq

def Mode.odd : Mode → Bool
  | .entering | .running => true
  | _ => false

inductive Switch where
  /-- `schedule_start` after `kthread_wait_to_attach` -/
  | attach
  /-- from there, or from the end of `thread_finish_cede`, into `schedule` -/
  | schedule
  /-- `enter_schedule` to `schedule`, or the end of a thread -/
  | enterSchedule
  | park
  | unpark
  /-- the end of `schedule` -/
  | jmpThread
  /-- the fast path of `enter_schedule` -/
  | jmpThreadDirect
  /-- `thread_finish_cede` up to `kthread_park_now` -/
  | cede
  | uncede
  deriving DecidableEq

def Switch.source : Switch → Mode
  | .attach => .unattached
  | .schedule => .entering
  | .enterSchedule | .jmpThreadDirect | .cede => .running
  | .park | .jmpThread => .sched
  | .unpark => .parked
  | .uncede => .ceded

def Switch.target : Switch → Mode
  | .attach | .uncede => .entering
  | .schedule | .enterSchedule | .unpark => .sched
  | .park => .parked
  | .jmpThread | .jmpThreadDirect => .running
  | .cede => .ceded

/-- What is stored in `rcu_gen`. -/
def Switch.gen (gen : BitVec 32) : Switch → BitVec 32
  | .attach => 1#32
  | .schedule | .enterSchedule | .jmpThread | .cede | .uncede => gen + 1#32
  | .jmpThreadDirect => gen + 2#32
  | .park | .unpark => gen

/-- The count is odd exactly while a thread runs or is about to be left. -/
theorem Switch.odd_gen (w : Switch) {gen : BitVec 32} (h : Rcu.odd gen = w.source.odd) :
    Rcu.odd (w.gen gen) = w.target.odd := by
  cases w with
  | attach => exact (by decide : Rcu.odd 1#32 = true)
  | jmpThreadDirect => exact (odd_add_two gen).trans h
  | park | unpark => exact h
  | _ => exact (odd_succ gen).trans (congrArg (! ·) h)

section Model

variable {A : Type} [DecidableEq A]

/-! ## The worker -/

/-- A call of `rcu_free` or, with a thread that waits, of `synchronize_rcu`. -/
structure Callback (A : Type) where
  queued : Nat
  waiter : Option A
  deriving DecidableEq

inductive Worker where
  | check
  | parked
  | sample (i : Nat)
  | sleep
  | recheck (i : Nat)
  | free
  deriving DecidableEq

/-- A thread that calls `rcu_free` or `synchronize_rcu`. -/
inductive Caller where
  | idle
  /-- `rcu_free` before `thread_ready` -/
  | waking
  /-- `synchronize_rcu`, parked -/
  | waiting (queued : Nat)
  deriving DecidableEq

structure State (A : Type) where
  gen : Nat → BitVec 32
  mode : Nat → Mode
  sections : Nat → List Nat
  clock : Nat
  rcuHead : List (Callback A)
  /-- `rcu_worker_th` is not `NULL` -/
  rcuWorkerTh : Bool
  worker : Worker
  /-- `last_rcu_gen` -/
  lastRcuGen : Nat → BitVec 32
  /-- `head` of the worker -/
  head : List (Callback A)
  taken : Nat
  caller : A → Caller
  queued : List (Callback A)
  ran : List (Callback A)

inductive Event (A : Type) where
  | switch (k : Nat) (w : Switch)
  | readLock (k : Nat)
  | readUnlock (k : Nat)
  | rcuFree (a : A)
  /-- `thread_ready` at the end of `rcu_free` -/
  | threadReady (a : A)
  | synchronizeRcu (a : A)
  | work

def State.switch (maxks : Nat) (s : State A) (k : Nat) (w : Switch) : Option (State A) :=
  if k < maxks ∧ s.mode k = w.source ∧ s.sections k = [] then
    some { s with
      mode := update s.mode k w.target
      gen := update s.gen k (w.gen (s.gen k)) }
  else none

/-- `rcu_read_lock` and `rcu_read_unlock`. -/
def State.readLock (maxks : Nat) (s : State A) (k : Nat) : Option (State A) :=
  if k < maxks ∧ s.mode k = .running then
    some { s with
      sections := update s.sections k (s.clock :: s.sections k)
      clock := s.clock + 1 }
  else none

def State.readUnlock (s : State A) (k : Nat) : Option (State A) :=
  match s.sections k with
  | [] => none
  | _ :: outer => some { s with sections := update s.sections k outer }

/-- The list operation of `rcu_free` and `synchronize_rcu`. -/
def State.push (s : State A) (waiter : Option A) : State A :=
  { s with
    rcuHead := ⟨s.clock, waiter⟩ :: s.rcuHead
    queued := ⟨s.clock, waiter⟩ :: s.queued
    clock := s.clock + 1 }

def State.rcuFree (s : State A) (a : A) : State A :=
  { s.push none with
    rcuWorkerTh := false
    caller := update s.caller a (if s.rcuWorkerTh then .waking else .idle) }

def State.threadReady (s : State A) (a : A) : State A :=
  { s with worker := .check, caller := update s.caller a .idle }

def State.synchronizeRcu (s : State A) (a : A) : State A :=
  { s.push (some a) with
    rcuWorkerTh := false
    worker := if s.rcuWorkerTh then .check else s.worker
    caller := update s.caller a (.waiting s.clock) }

/-- `synchronize_rcu_finish` or the release method of the object. -/
def State.call (s : State A) (c : Callback A) : A → Caller :=
  match c.waiter with
  | none => s.caller
  | some a => update s.caller a .idle

def State.work (maxks : Nat) (s : State A) : Option (State A) :=
  match s.worker with
  | .parked => none
  | .check =>
    if s.rcuHead = [] then some { s with rcuWorkerTh := true, worker := .parked }
    else some { s with head := s.rcuHead, rcuHead := [], taken := s.clock, worker := .sample 0 }
  | .sample i =>
    if i < maxks then
      some { s with lastRcuGen := update s.lastRcuGen i (s.gen i), worker := .sample (i + 1) }
    else some { s with worker := .sleep }
  | .sleep => some { s with worker := .recheck 0 }
  | .recheck i =>
    if i < maxks then
      if odd (s.gen i) = true ∧ s.gen i = s.lastRcuGen i then some { s with worker := .sleep }
      else some { s with worker := .recheck (i + 1) }
    else some { s with worker := .free }
  | .free =>
    match s.head with
    | [] => some { s with worker := .check }
    | c :: next => some { s with head := next, ran := s.ran ++ [c], caller := s.call c }

def step (maxks : Nat) (s : State A) : Event A → Option (State A)
  | .switch k w => s.switch maxks k w
  | .readLock k => s.readLock maxks k
  | .readUnlock k => s.readUnlock k
  | .rcuFree a => if s.caller a = .idle then some (s.rcuFree a) else none
  | .threadReady a => if s.caller a = .waking then some (s.threadReady a) else none
  | .synchronizeRcu a => if s.caller a = .idle then some (s.synchronizeRcu a) else none
  | .work => s.work maxks

def init : State A :=
  ⟨fun _ => 0, fun _ => .unattached, fun _ => [], 0, [], false, .check, fun _ => 0, [], 0,
    fun _ => .idle, [], []⟩

/-! ## The property -/

structure Safe (s : State A) : Prop where
  /-- No section that began before a callback was queued is open once it has started. -/
  grace : ∀ c ∈ s.ran, ∀ k, ∀ began ∈ s.sections k, c.queued < began
  kept : (s.rcuHead ++ s.head ++ s.ran).Perm s.queued
  distinct : s.queued.Nodup
  /-- The worker does not sleep over a callback without somebody to wake it. -/
  awake : s.rcuHead ≠ [] → s.worker = .parked → ∃ a, s.caller a = .waking
  /-- Whoever waits in `synchronize_rcu` has a callback that did not run yet. -/
  waits : ∀ a q, s.caller a = .waiting q → ⟨q, some a⟩ ∈ s.rcuHead ++ s.head

/-! ## One step of the worker -/

inductive Works (maxks : Nat) (s : State A) : State A → Prop
  | park (hw : s.worker = .check) (hempty : s.rcuHead = []) :
      Works maxks s { s with rcuWorkerTh := true, worker := .parked }
  | take (hw : s.worker = .check) (hne : s.rcuHead ≠ []) :
      Works maxks s { s with head := s.rcuHead, rcuHead := [], taken := s.clock, worker := .sample 0 }
  | sample {i : Nat} (hw : s.worker = .sample i) (hi : i < maxks) : Works maxks s { s with
        lastRcuGen := update s.lastRcuGen i (s.gen i), worker := .sample (i + 1) }
  | sampled {i : Nat} (hw : s.worker = .sample i) (hi : maxks ≤ i) :
      Works maxks s { s with worker := .sleep }
  | sleep (hw : s.worker = .sleep) : Works maxks s { s with worker := .recheck 0 }
  | retry {i : Nat} (hw : s.worker = .recheck i) : Works maxks s { s with worker := .sleep }
  | pass {i : Nat} (hw : s.worker = .recheck i) (hi : i < maxks)
      (hmoved : ¬ (odd (s.gen i) = true ∧ s.gen i = s.lastRcuGen i)) :
      Works maxks s { s with worker := .recheck (i + 1) }
  | passed {i : Nat} (hw : s.worker = .recheck i) (hi : maxks ≤ i) :
      Works maxks s { s with worker := .free }
  | call {c : Callback A} {next : List (Callback A)} (hw : s.worker = .free)
      (hhead : s.head = c :: next) :
      Works maxks s { s with head := next, ran := s.ran ++ [c], caller := s.call c }
  | done (hw : s.worker = .free) (hhead : s.head = []) : Works maxks s { s with worker := .check }

variable {maxks : Nat} {s s' : State A}

theorem work_cases (hstep : s.work maxks = some s') : Works maxks s s' := by
  revert hstep
  fun_cases State.work maxks s <;> rintro ⟨⟩
  case case2 hw hempty => exact .park hw hempty
  case case3 hw hne => exact .take hw hne
  case case4 hw hi => exact .sample hw hi
  case case5 hw hi => exact .sampled hw (Nat.le_of_not_lt hi)
  case case6 hw => exact .sleep hw
  case case7 hw _ _ => exact .retry hw
  case case8 hw hi hmoved => exact .pass hw hi hmoved
  case case9 hw hi => exact .passed hw (Nat.le_of_not_lt hi)
  case case10 hw hhead => exact .done hw hhead
  case case11 hw _ _ hhead => exact .call hw hhead

/-! ## Readers and generation counters -/

structure Readers (maxks : Nat) (s : State A) : Prop where
  parity : ∀ k, odd (s.gen k) = (s.mode k).odd
  running : ∀ k, s.sections k ≠ [] → s.mode k = .running ∧ k < maxks
  began : ∀ k, ∀ b ∈ s.sections k, b < s.clock

omit [DecidableEq A] in
theorem Readers.switch {k : Nat} {w : Switch} (h : Readers maxks s) (hmode : s.mode k = w.source)
    (hnone : s.sections k = []) : Readers maxks { s with
      mode := update s.mode k w.target
      gen := update s.gen k (w.gen (s.gen k)) } := by
  refine ⟨fun j => ?_, fun j hj => ?_, h.began⟩
  · change odd (update s.gen k _ j) = (update s.mode k w.target j).odd
    by_cases hjk : j = k
    · subst hjk
      rw [update_self, update_self]
      refine w.odd_gen ?_
      rw [h.parity, hmode]
    · rw [update_of_ne hjk, update_of_ne hjk]
      exact h.parity j
  · have hjk : j ≠ k := by
      rintro rfl
      exact hj hnone
    change update s.mode k w.target j = .running ∧ _
    rw [update_of_ne hjk]
    exact h.running j hj

omit [DecidableEq A] in
theorem Readers.readLock {k : Nat} (h : Readers maxks s) (hk : k < maxks) (hmode : s.mode k = .running) :
    Readers maxks { s with
      sections := update s.sections k (s.clock :: s.sections k)
      clock := s.clock + 1 } := by
  refine ⟨h.parity, fun j hj => ?_, fun j b hb => ?_⟩
  · by_cases hjk : j = k
    · subst hjk
      exact ⟨hmode, hk⟩
    · exact h.running j fun hnil => hj ((update_of_ne hjk _ _).trans hnil)
  · change b ∈ update s.sections k _ j at hb
    rw [update_apply] at hb
    split at hb
    · obtain rfl | hb := mem_cons.1 hb
      · exact Nat.lt_succ_self _
      · exact Nat.lt_succ_of_lt (h.began k b hb)
    · exact Nat.lt_succ_of_lt (h.began j b hb)

omit [DecidableEq A] in
theorem mem_of_outer {k j first b : Nat} {outer : List Nat} (hopen : s.sections k = first :: outer)
    (hb : b ∈ update s.sections k outer j) : b ∈ s.sections j := by
  rw [update_apply] at hb
  split at hb
  · rename_i hj
    rw [hj, hopen]
    exact mem_cons_of_mem _ hb
  · exact hb

omit [DecidableEq A] in
theorem Readers.readUnlock {k first : Nat} {outer : List Nat} (h : Readers maxks s)
    (hopen : s.sections k = first :: outer) :
    Readers maxks { s with sections := update s.sections k outer } := by
  refine ⟨h.parity, fun j hj => ?_, fun j b hb => h.began j b (mem_of_outer hopen hb)⟩
  obtain ⟨b, hb⟩ := exists_mem_of_ne_nil _ hj
  exact h.running j (ne_nil_of_mem (mem_of_outer hopen hb))

theorem Readers.work (h : Readers maxks s) (hworks : Works maxks s s') : Readers maxks s' := by
  cases hworks <;> exact ⟨h.parity, h.running, h.began⟩

/-! ## The grace period -/

/-- The worker has read the counter of `j` for the current batch. -/
def Worker.sampled (maxks j : Nat) : Worker → Prop
  | .sample i => j < i
  | .sleep | .recheck _ | .free => j < maxks
  | .check | .parked => False

/-- And it has found that `j` passed through the scheduler since. -/
def Worker.passed (maxks j : Nat) : Worker → Prop
  | .recheck i => j < i
  | .free => j < maxks
  | _ => False

structure Grace (maxks : Nat) (s : State A) : Prop where
  taken : s.taken ≤ s.clock
  batch : ∀ c ∈ s.head, c.queued < s.taken
  /-- A section from before the batch was taken keeps the counter where it was read. -/
  sampled : ∀ j, s.worker.sampled maxks j → ∀ b ∈ s.sections j, b < s.taken → s.gen j = s.lastRcuGen j
  passed : ∀ j, s.worker.passed maxks j → ∀ b ∈ s.sections j, s.taken ≤ b
  ran : ∀ c ∈ s.ran, ∀ k, ∀ b ∈ s.sections k, c.queued < b

omit [DecidableEq A] in
theorem Grace.switch {k : Nat} {w : Switch} (h : Grace maxks s) (hnone : s.sections k = []) :
    Grace maxks { s with
      mode := update s.mode k w.target
      gen := update s.gen k (w.gen (s.gen k)) } := by
  refine ⟨h.taken, h.batch, fun j hj b hb hold => ?_, h.passed, h.ran⟩
  have hjk : j ≠ k := by
    rintro rfl
    rw [show s.sections j = [] from hnone] at hb
    cases hb
  change update s.gen k _ j = _
  rw [update_of_ne hjk]
  exact h.sampled j hj b hb hold

omit [DecidableEq A] in
/-- A section that begins now is younger than the batch and than every callback that ran. -/
theorem Grace.readLock {k : Nat} (h : Grace maxks s) (hran : ∀ c ∈ s.ran, c.queued < s.clock) :
    Grace maxks { s with
      sections := update s.sections k (s.clock :: s.sections k)
      clock := s.clock + 1 } := by
  have hmem : ∀ {j b : Nat}, b ∈ update s.sections k (s.clock :: s.sections k) j →
      b = s.clock ∨ b ∈ s.sections j := by
    intro j b hb
    rw [update_apply] at hb
    split at hb
    · rename_i hj
      rw [hj]
      exact mem_cons.1 hb
    · exact .inr hb
  refine ⟨Nat.le_succ_of_le h.taken, h.batch, fun j hj b hb hold => ?_, fun j hj b hb => ?_,
    fun c hc j b hb => ?_⟩
  · obtain rfl | hb := hmem hb
    · exact absurd h.taken (Nat.not_le_of_lt hold)
    · exact h.sampled j hj b hb hold
  · obtain rfl | hb := hmem hb
    · exact h.taken
    · exact h.passed j hj b hb
  · obtain rfl | hb := hmem hb
    · exact hran c hc
    · exact h.ran c hc j b hb

omit [DecidableEq A] in
theorem Grace.readUnlock {k first : Nat} {outer : List Nat} (h : Grace maxks s)
    (hopen : s.sections k = first :: outer) :
    Grace maxks { s with sections := update s.sections k outer } :=
  ⟨h.taken, h.batch, fun j hj b hb => h.sampled j hj b (mem_of_outer hopen hb),
    fun j hj b hb => h.passed j hj b (mem_of_outer hopen hb),
    fun c hc j b hb => h.ran c hc j b (mem_of_outer hopen hb)⟩

theorem Grace.work (h : Grace maxks s) (hreaders : Readers maxks s)
    (hqueued : ∀ c ∈ s.rcuHead, c.queued < s.clock) (hworks : Works maxks s s') : Grace maxks s' := by
  have hsampled := h.sampled
  have hpassed := h.passed
  cases hworks with
  | park _ _ | done _ _ =>
    exact ⟨h.taken, h.batch, fun _ => False.elim, fun _ => False.elim, h.ran⟩
  | take hw hne =>
    exact ⟨Nat.le_refl _, hqueued, fun _ hj => absurd hj (Nat.not_lt_zero _), fun _ => False.elim, h.ran⟩
  | @sample i hw hi =>
    rw [hw] at hsampled
    refine ⟨h.taken, h.batch, fun j hj b hb hold => ?_, fun _ => False.elim, h.ran⟩
    change s.gen j = update s.lastRcuGen i (s.gen i) j
    by_cases hji : j = i
    · subst hji
      rw [update_self]
    · rw [update_of_ne hji]
      exact hsampled j (Nat.lt_of_le_of_ne (Nat.le_of_lt_succ hj) hji) b hb hold
  | sampled hw hi =>
    rw [hw] at hsampled
    exact ⟨h.taken, h.batch, fun j hj => hsampled j (Nat.lt_of_lt_of_le hj hi), fun _ => False.elim, h.ran⟩
  | sleep hw =>
    rw [hw] at hsampled
    exact ⟨h.taken, h.batch, hsampled, fun _ hj => absurd hj (Nat.not_lt_zero _), h.ran⟩
  | retry hw =>
    rw [hw] at hsampled
    exact ⟨h.taken, h.batch, hsampled, fun _ => False.elim, h.ran⟩
  | pass hw hi hmoved =>
    rw [hw] at hsampled hpassed
    refine ⟨h.taken, h.batch, hsampled, fun j hj b hb => ?_, h.ran⟩
    obtain rfl | hji := Nat.eq_or_lt_of_le (Nat.le_of_lt_succ hj)
    · -- an old section would have kept the counter odd and where it was
      by_contra hold
      refine hmoved ⟨?_, hsampled j hi b hb (Nat.lt_of_not_le hold)⟩
      rw [hreaders.parity, (hreaders.running j (ne_nil_of_mem hb)).1]
      rfl
    · exact hpassed j hji b hb
  | passed hw hi =>
    rw [hw] at hsampled hpassed
    exact ⟨h.taken, h.batch, hsampled, fun j hj => hpassed j (Nat.lt_of_lt_of_le hj hi), h.ran⟩
  | @call c next hw hhead =>
    have hc : c.queued < s.taken := h.batch c (hhead ▸ mem_cons_self)
    refine ⟨h.taken, fun d hd => h.batch d (hhead ▸ mem_cons_of_mem _ hd), hsampled, hpassed,
      fun d hd k b hb => ?_⟩
    obtain hd | hd := mem_append.1 hd
    · exact h.ran d hd k b hb
    · obtain rfl := mem_singleton.1 hd
      rw [hw] at hpassed
      have hk : k < maxks := (hreaders.running k (ne_nil_of_mem hb)).2
      exact Nat.lt_of_lt_of_le hc (hpassed k hk b hb)

/-! ## The callbacks -/

structure Kept (s : State A) : Prop where
  perm : (s.rcuHead ++ s.head ++ s.ran).Perm s.queued
  distinct : s.queued.Nodup
  stamped : ∀ c ∈ s.queued, c.queued < s.clock
  empty : s.worker = .check ∨ s.worker = .parked → s.head = []

omit [DecidableEq A] in
theorem Kept.queued_of_rcuHead (h : Kept s) : ∀ c ∈ s.rcuHead, c.queued < s.clock := by
  intro c hc
  refine h.stamped c (h.perm.mem_iff.1 ?_)
  exact mem_append_left _ (mem_append_left _ hc)

omit [DecidableEq A] in
theorem Kept.queued_of_ran (h : Kept s) : ∀ c ∈ s.ran, c.queued < s.clock := by
  intro c hc
  exact h.stamped c (h.perm.mem_iff.1 (mem_append_right _ hc))

omit [DecidableEq A] in
theorem Kept.push (h : Kept s) (waiter : Option A) : Kept (s.push waiter) := by
  refine ⟨h.perm.cons _, nodup_cons.2 ⟨fun hin => ?_, h.distinct⟩, fun c hc => ?_, h.empty⟩
  · exact Nat.lt_irrefl _ (h.stamped _ hin)
  · obtain rfl | hc := mem_cons.1 hc
    · exact Nat.lt_succ_self _
    · exact Nat.lt_succ_of_lt (h.stamped c hc)

theorem Kept.work (h : Kept s) (hworks : Works maxks s s') : Kept s' := by
  cases hworks with
  | park hw hempty => exact ⟨h.perm, h.distinct, h.stamped, fun _ => h.empty (.inl hw)⟩
  | take hw hne =>
    refine ⟨?_, h.distinct, h.stamped, nofun⟩
    have hperm := h.perm
    rw [h.empty (.inl hw), append_nil] at hperm
    exact hperm
  | @call c next hw hhead =>
    refine ⟨?_, h.distinct, h.stamped, fun hc => ?_⟩
    · refine List.Perm.trans ?_ h.perm
      rw [hhead, append_assoc, append_assoc]
      refine List.Perm.append_left _ ?_
      exact (List.Perm.append_left next (perm_append_singleton c s.ran)).trans perm_middle
    · change s.worker = .check ∨ s.worker = .parked at hc
      rw [hw] at hc
      obtain hc | hc := hc <;> cases hc
  | done hw hhead => exact ⟨h.perm, h.distinct, h.stamped, fun _ => hhead⟩
  | _ => exact ⟨h.perm, h.distinct, h.stamped, nofun⟩

/-! ## Waking the worker -/

structure Wake (s : State A) : Prop where
  offered : s.rcuWorkerTh = true → s.worker = .parked ∧ s.rcuHead = [] ∧ ∀ a, s.caller a ≠ .waking
  waking : ∀ a, s.caller a = .waking → s.worker = .parked ∧ s.rcuWorkerTh = false
  alone : ∀ a b, s.caller a = .waking → s.caller b = .waking → a = b
  parked : s.worker = .parked → s.rcuWorkerTh = true ∨ ∃ a, s.caller a = .waking
  waits : ∀ a q, s.caller a = .waiting q → ⟨q, some a⟩ ∈ s.rcuHead ++ s.head

theorem Wake.rcuFree {a : A} (h : Wake s) (ha : s.caller a = .idle) : Wake (s.rcuFree a) := by
  have hother : ∀ b, b ≠ a → (s.rcuFree a).caller b = s.caller b := fun b hb =>
    update_of_ne hb _ _
  have hself : (s.rcuFree a).caller a = if s.rcuWorkerTh then .waking else .idle :=
    update_self ..
  have hold : ∀ b, s.caller b = .waking → b ≠ a := by
    rintro b hb rfl
    rw [ha] at hb
    cases hb
  refine ⟨nofun, fun b hb => ?_, fun b d hb hd => ?_, fun hp => .inr ?_, fun b q hb => ?_⟩
  · by_cases hba : b = a
    · subst hba
      rw [hself] at hb
      split at hb
      · rename_i hth
        exact ⟨(h.offered hth).1, rfl⟩
      · cases hb
    · rw [hother b hba] at hb
      exact ⟨(h.waking b hb).1, rfl⟩
  · cases hth : s.rcuWorkerTh with
    | true =>
      have hnone : ∀ e, (s.rcuFree a).caller e = .waking → e = a := by
        intro e he
        by_contra hne
        rw [hother e hne] at he
        exact (h.offered hth).2.2 e he
      exact (hnone b hb).trans (hnone d hd).symm
    | false =>
      rw [hth] at hself
      have hne : ∀ e, (s.rcuFree a).caller e = .waking → e ≠ a := by
        rintro e he rfl
        rw [hself] at he
        cases he
      have hb' := hb
      have hd' := hd
      rw [hother b (hne b hb)] at hb'
      rw [hother d (hne d hd)] at hd'
      exact h.alone b d hb' hd'
  · obtain hth | ⟨b, hb⟩ := h.parked hp
    · exact ⟨a, hself.trans (if_pos hth)⟩
    · exact ⟨b, (hother b (hold b hb)).trans hb⟩
  · have hba : b ≠ a := by
      rintro rfl
      rw [hself] at hb
      split at hb <;> cases hb
    rw [hother b hba] at hb
    exact mem_cons_of_mem _ (h.waits b q hb)

theorem Wake.threadReady {a : A} (h : Wake s) (ha : s.caller a = .waking) :
    Wake (s.threadReady a) := by
  have hnone : ∀ b, (s.threadReady a).caller b ≠ .waking := by
    intro b hb
    by_cases hba : b = a
    · subst hba
      rw [show (s.threadReady b).caller b = .idle from update_self ..] at hb
      cases hb
    · rw [show (s.threadReady a).caller b = s.caller b from update_of_ne hba _ _] at hb
      exact hba (h.alone b a hb ha)
  have hth := (h.waking a ha).2
  refine ⟨fun hc => ?_, fun b hb => absurd hb (hnone b), fun b _ hb => absurd hb (hnone b), nofun,
    fun b q hb => ?_⟩
  · rw [show s.rcuWorkerTh = true from hc] at hth
    cases hth
  · have hba : b ≠ a := by
      rintro rfl
      rw [show (s.threadReady b).caller b = .idle from update_self ..] at hb
      cases hb
    rw [show (s.threadReady a).caller b = s.caller b from update_of_ne hba _ _] at hb
    exact h.waits b q hb

theorem Wake.synchronizeRcu {a : A} (h : Wake s) (ha : s.caller a = .idle) :
    Wake (s.synchronizeRcu a) := by
  have hother : ∀ b, b ≠ a → (s.synchronizeRcu a).caller b = s.caller b := fun b hb =>
    update_of_ne hb _ _
  have hself : (s.synchronizeRcu a).caller a = .waiting s.clock := update_self ..
  have hnew : ∀ b, (s.synchronizeRcu a).caller b = .waking → s.caller b = .waking := by
    intro b hb
    have hba : b ≠ a := by
      rintro rfl
      rw [hself] at hb
      cases hb
    rw [hother b hba] at hb
    exact hb
  refine ⟨nofun, fun b hb => ⟨?_, rfl⟩, fun b d hb hd => h.alone b d (hnew b hb) (hnew d hd),
    fun hp => .inr ?_, fun b q hb => ?_⟩
  · obtain ⟨hp, hth⟩ := h.waking b (hnew b hb)
    change (if s.rcuWorkerTh then Worker.check else s.worker) = .parked
    rw [hth]
    exact hp
  · change (if s.rcuWorkerTh then Worker.check else s.worker) = .parked at hp
    split at hp
    · cases hp
    · rename_i hth
      obtain hc | ⟨b, hb⟩ := h.parked hp
      · exact absurd hc hth
      · refine ⟨b, (hother b ?_).trans hb⟩
        rintro rfl
        rw [ha] at hb
        cases hb
  · by_cases hba : b = a
    · subst hba
      rw [hself] at hb
      cases hb
      exact mem_cons_self
    · rw [hother b hba] at hb
      exact mem_cons_of_mem _ (h.waits b q hb)

theorem caller_of_call {c : Callback A} {a : A} {x : Caller} (hx : x ≠ .idle)
    (h : s.call c a = x) : s.caller a = x ∧ c.waiter ≠ some a := by
  cases hw : c.waiter with
  | none =>
    rw [State.call, hw] at h
    exact ⟨h, nofun⟩
  | some b =>
    rw [State.call, hw] at h
    have hab : a ≠ b := by
      rintro rfl
      exact hx (h.symm.trans (update_self ..))
    refine ⟨(update_of_ne hab _ _).symm.trans h, fun hc => hab ?_⟩
    exact (Option.some.inj hc).symm

omit [DecidableEq A] in
/-- While the worker runs, nobody offers it and nobody has to wake it. -/
theorem Wake.running (h : Wake s) (hne : s.worker ≠ .parked) :
    s.rcuWorkerTh = false ∧ ∀ a, s.caller a ≠ .waking :=
  ⟨Bool.eq_false_iff.2 fun hc => hne (h.offered hc).1, fun a ha => hne (h.waking a ha).1⟩

omit [DecidableEq A] in
theorem Wake.goesOn {w : Worker} {last : Nat → BitVec 32} (h : Wake s) (hne : s.worker ≠ .parked)
    (hw : w ≠ .parked) : Wake { s with worker := w, lastRcuGen := last } := by
  obtain ⟨hth, hnone⟩ := h.running hne
  exact ⟨fun hc => absurd (hth.symm.trans hc) nofun, fun a ha => absurd ha (hnone a), h.alone,
    fun hc => absurd hc hw, h.waits⟩

theorem Works.not_parked (hworks : Works maxks s s') : s.worker ≠ .parked := by
  intro hp
  cases hworks with
  | park hw | take hw | sample hw | sampled hw | sleep hw | retry hw | pass hw | passed hw | call hw
  | done hw => cases hw.symm.trans hp

theorem Wake.work (h : Wake s) (hkept : Kept s) (hworks : Works maxks s s') : Wake s' := by
  have hne := hworks.not_parked
  obtain ⟨hth, hnone⟩ := h.running hne
  cases hworks with
  | park hw hempty =>
    exact ⟨fun _ => ⟨rfl, hempty, hnone⟩, fun a ha => absurd ha (hnone a), h.alone,
      fun _ => .inl rfl, h.waits⟩
  | take hw =>
    refine ⟨fun hc => absurd (hth.symm.trans hc) nofun, fun a ha => absurd ha (hnone a), h.alone,
      nofun, fun a q ha => ?_⟩
    have hin := h.waits a q ha
    rw [hkept.empty (.inl hw), append_nil] at hin
    exact hin
  | @call c next hw hhead =>
    have hstill : ∀ a, s.call c a ≠ .waking := fun a ha =>
      hnone a (caller_of_call (x := .waking) nofun ha).1
    refine ⟨fun hc => absurd (hth.symm.trans hc) nofun, fun a ha => absurd ha (hstill a),
      fun a _ ha => absurd ha (hstill a), fun hc => absurd hc hne, fun a q ha => ?_⟩
    -- the callback that runs is not the one `a` waits for
    obtain ⟨hold, hwaiter⟩ := caller_of_call (x := .waiting q) nofun ha
    have hin := h.waits a q hold
    rw [hhead] at hin
    obtain hin | hin := mem_append.1 hin
    · exact mem_append_left _ hin
    · obtain rfl | hin := mem_cons.1 hin
      · exact absurd rfl hwaiter
      · exact mem_append_right _ hin
  | _ => exact h.goesOn hne nofun

/-! ## Whole runs -/

structure Inv (maxks : Nat) (s : State A) : Prop where
  readers : Readers maxks s
  grace : Grace maxks s
  kept : Kept s
  wake : Wake s

omit [DecidableEq A] in
theorem inv_init : Inv maxks (init : State A) where
  readers := ⟨fun _ => (by decide : odd 0#32 = false), fun _ h => absurd rfl h, nofun⟩
  grace := ⟨Nat.le_refl _, nofun, fun _ => False.elim, fun _ => False.elim, nofun⟩
  kept := ⟨.nil, .nil, nofun, fun _ => rfl⟩
  wake := ⟨nofun, nofun, nofun, nofun, nofun⟩

omit [DecidableEq A] in
theorem Inv.caller_step (h : Inv maxks s) {waiter : Option A} {th : Bool} {w : Worker} {f : A → Caller}
    (hw : w = s.worker ∨ w = .check ∧ s.worker = .parked)
    (hwake : Wake { s.push waiter with rcuWorkerTh := th, worker := w, caller := f }) :
    Inv maxks { s.push waiter with rcuWorkerTh := th, worker := w, caller := f } := by
  have hkept := h.kept.push waiter
  refine ⟨⟨h.readers.parity, h.readers.running, fun k b hb => ?_⟩, ?_, ?_, hwake⟩
  · exact Nat.lt_succ_of_lt (h.readers.began k b hb)
  · obtain rfl | ⟨rfl, -⟩ := hw
    · exact ⟨Nat.le_succ_of_le h.grace.taken, h.grace.batch, h.grace.sampled, h.grace.passed, h.grace.ran⟩
    · exact ⟨Nat.le_succ_of_le h.grace.taken, h.grace.batch, fun _ => False.elim, fun _ => False.elim,
        h.grace.ran⟩
  · refine ⟨hkept.perm, hkept.distinct, hkept.stamped, fun hc => ?_⟩
    obtain rfl | ⟨-, hp⟩ := hw
    · exact h.kept.empty hc
    · exact h.kept.empty (.inr hp)

theorem Inv.keeps {e : Event A} (h : Inv maxks s) (hstep : step maxks s e = some s') : Inv maxks s' := by
  cases e with
  | switch k w =>
    obtain ⟨⟨-, hmode, hnone⟩, rfl⟩ := Option.ite_some_none_eq_some.1 hstep
    exact ⟨h.readers.switch hmode hnone, h.grace.switch hnone,
      ⟨h.kept.perm, h.kept.distinct, h.kept.stamped, h.kept.empty⟩,
      ⟨h.wake.offered, h.wake.waking, h.wake.alone, h.wake.parked, h.wake.waits⟩⟩
  | readLock k =>
    obtain ⟨⟨hk, hmode⟩, rfl⟩ := Option.ite_some_none_eq_some.1 hstep
    refine ⟨h.readers.readLock hk hmode, h.grace.readLock h.kept.queued_of_ran,
      ⟨h.kept.perm, h.kept.distinct, fun c hc => ?_, h.kept.empty⟩,
      ⟨h.wake.offered, h.wake.waking, h.wake.alone, h.wake.parked, h.wake.waits⟩⟩
    exact Nat.lt_succ_of_lt (h.kept.stamped c hc)
  | readUnlock k =>
    unfold step State.readUnlock at hstep
    dsimp only at hstep
    split at hstep
    · cases hstep
    · rename_i first outer hopen
      cases hstep
      exact ⟨h.readers.readUnlock hopen, h.grace.readUnlock hopen,
        ⟨h.kept.perm, h.kept.distinct, h.kept.stamped, h.kept.empty⟩,
        ⟨h.wake.offered, h.wake.waking, h.wake.alone, h.wake.parked, h.wake.waits⟩⟩
  | rcuFree a =>
    obtain ⟨ha, rfl⟩ := Option.ite_some_none_eq_some.1 hstep
    exact h.caller_step (.inl rfl) (h.wake.rcuFree ha)
  | threadReady a =>
    obtain ⟨ha, rfl⟩ := Option.ite_some_none_eq_some.1 hstep
    refine ⟨⟨h.readers.parity, h.readers.running, h.readers.began⟩,
      ⟨h.grace.taken, h.grace.batch, fun _ => False.elim, fun _ => False.elim, h.grace.ran⟩,
      ⟨h.kept.perm, h.kept.distinct, h.kept.stamped, fun _ => ?_⟩, h.wake.threadReady ha⟩
    exact h.kept.empty (.inr (h.wake.waking a ha).1)
  | synchronizeRcu a =>
    obtain ⟨ha, rfl⟩ := Option.ite_some_none_eq_some.1 hstep
    refine h.caller_step ?_ (h.wake.synchronizeRcu ha)
    split
    · rename_i hth
      exact .inr ⟨rfl, (h.wake.offered hth).1⟩
    · exact .inl rfl
  | work =>
    have hworks := work_cases hstep
    exact ⟨h.readers.work hworks, h.grace.work h.readers h.kept.queued_of_rcuHead hworks,
      h.kept.work hworks, h.wake.work h.kept hworks⟩

omit [DecidableEq A] in
theorem Inv.safe (h : Inv maxks s) : Safe s where
  grace := h.grace.ran
  kept := h.kept.perm
  distinct := h.kept.distinct
  awake := by
    intro hne hp
    refine (h.wake.parked hp).resolve_left fun hth => hne ?_
    exact (h.wake.offered hth).2.1
  waits := h.wake.waits

/-! ## Every callback can run -/

theorem readUnlock_all (s : State A) (k : Nat) :
    Reaches (step maxks) anyStep s { s with sections := update s.sections k [] } := by
  generalize hlist : s.sections k = l
  induction l generalizing s with
  | nil =>
    rw [show update s.sections k [] = s.sections from hlist ▸ update_eq_self k _]
    exact .refl
  | cons first outer ih =>
    have hone : step maxks s (.readUnlock k) =
        some { s with sections := update s.sections k outer } := by
      rw [step, State.readUnlock, hlist]
    have hrest := ih { s with sections := update s.sections k outer } (update_self ..)
    rw [update_idem] at hrest
    exact (Reaches.single trivial hone).trans hrest

theorem enters_scheduler {k : Nat} (h : Readers maxks s) (hk : k < maxks) :
    ∃ gen mode sections, Reaches (step maxks) anyStep s { s with gen, mode, sections } ∧
      odd (gen k) = false ∧ ∀ j, j ≠ k → gen j = s.gen j := by
  cases hodd : odd (s.gen k) with
  | false => exact ⟨s.gen, s.mode, s.sections, .refl, hodd, fun _ _ => rfl⟩
  | true =>
    have hswitch : ∀ w : Switch, s.mode k = w.source → w.target.odd = false →
        ∃ gen mode sections, Reaches (step maxks) anyStep s { s with gen, mode, sections } ∧
          odd (gen k) = false ∧ ∀ j, j ≠ k → gen j = s.gen j := by
      intro w hmode htarget
      have hone : step maxks { s with sections := update s.sections k [] } (.switch k w) =
          some { s with
            sections := update s.sections k []
            mode := update s.mode k w.target
            gen := update s.gen k (w.gen (s.gen k)) } :=
        if_pos ⟨hk, hmode, update_self ..⟩
      refine ⟨_, _, _, (readUnlock_all s k).trans (.single trivial hone), ?_, fun j hj => ?_⟩
      · rw [update_self, w.odd_gen (by rw [h.parity, hmode]), htarget]
      · exact update_of_ne hj _ _
    rw [h.parity] at hodd
    cases hmode : s.mode k with
    | running => exact hswitch .enterSchedule hmode rfl
    | entering => exact hswitch .schedule hmode rfl
    | _ =>
      rw [hmode] at hodd
      cases hodd

theorem Inv.reaches {s t : State A} (h : Inv maxks s) (hreach : Reaches (step maxks) anyStep s t) :
    Inv maxks t :=
  hreach.invariant (P := Inv maxks) h fun _ _ _ hu _ hs => hu.keeps hs

theorem all_enter_scheduler (h : Inv maxks s) (n : Nat) (hn : n ≤ maxks) :
    ∃ gen mode sections, Reaches (step maxks) anyStep s { s with gen, mode, sections } ∧
      ∀ k, k < n → odd (gen k) = false := by
  induction n with
  | zero => exact ⟨s.gen, s.mode, s.sections, .refl, nofun⟩
  | succ n ih =>
    obtain ⟨gen, mode, sections, hreach, heven⟩ := ih (Nat.le_of_succ_le hn)
    obtain ⟨gen', mode', sections', hreach', hk, hother⟩ :=
      enters_scheduler (h.reaches hreach).readers hn
    refine ⟨gen', mode', sections', hreach.trans hreach', fun k hkn => ?_⟩
    grind

section Progress

variable (heven : ∀ k, k < maxks → odd (s.gen k) = false)

include heven in
theorem recheck_reaches_free {i : Nat} (n : Nat) (hn : maxks - i ≤ n) :
    Reaches (step maxks) anyStep { s with worker := .recheck i } { s with worker := .free } := by
  induction n generalizing i with
  | zero =>
    refine .single (a := .work) trivial ?_
    exact if_neg (Nat.not_lt_of_le (Nat.le_of_sub_eq_zero (Nat.le_zero.1 hn)))
  | succ n ih =>
    by_cases hi : i < maxks
    · have hone : step maxks { s with worker := .recheck i } .work =
          some { s with worker := .recheck (i + 1) } := by
        refine (if_pos hi).trans (if_neg fun hc => ?_)
        exact absurd ((heven i hi).symm.trans hc.1) nofun
      refine (Reaches.single trivial hone).trans (ih ?_)
      omega
    · exact .single (a := .work) trivial (if_neg hi)

theorem sample_reaches_sleep (maxks : Nat) (s : State A) {i : Nat} (n : Nat) (hn : maxks - i ≤ n) :
    ∃ last, Reaches (step maxks) anyStep { s with worker := .sample i }
      { s with worker := .sleep, lastRcuGen := last } := by
  induction n generalizing s i with
  | zero =>
    refine ⟨s.lastRcuGen, .single (a := .work) trivial ?_⟩
    exact if_neg (Nat.not_lt_of_le (Nat.le_of_sub_eq_zero (Nat.le_zero.1 hn)))
  | succ n ih =>
    by_cases hi : i < maxks
    · have hone : step maxks { s with worker := .sample i } .work = some { s with
            lastRcuGen := update s.lastRcuGen i (s.gen i)
            worker := .sample (i + 1) } := if_pos hi
      obtain ⟨last, hrest⟩ := ih { s with lastRcuGen := update s.lastRcuGen i (s.gen i) }
        (i := i + 1) (by omega)
      exact ⟨last, (Reaches.single trivial hone).trans hrest⟩
    · exact ⟨s.lastRcuGen, .single (a := .work) trivial (if_neg hi)⟩

theorem free_reaches_check (maxks : Nat) (s : State A) {l : List (Callback A)} (hhead : s.head = l) :
    ∃ f, Reaches (step maxks) anyStep { s with worker := .free }
      { s with worker := .check, head := [], ran := s.ran ++ l, caller := f } := by
  induction l generalizing s with
  | nil =>
    refine ⟨s.caller, ?_⟩
    have hone : step maxks { s with worker := .free } .work = some { s with worker := .check } := by
      rw [step, State.work]
      dsimp only
      rw [hhead]
    rw [append_nil, ← hhead]
    exact .single trivial hone
  | cons c next ih =>
    have hone : step maxks { s with worker := .free } .work =
        some { s with worker := .free, head := next, ran := s.ran ++ [c], caller := s.call c } := by
      rw [step, State.work]
      dsimp only
      rw [hhead]
      rfl
    obtain ⟨f, hrest⟩ := ih { s with head := next, ran := s.ran ++ [c], caller := s.call c } rfl
    rw [append_assoc] at hrest
    exact ⟨f, (Reaches.single trivial hone).trans hrest⟩

include heven in
theorem sleep_reaches_check : ∃ f, Reaches (step maxks) anyStep { s with worker := .sleep }
      { s with worker := .check, head := [], ran := s.ran ++ s.head, caller := f } := by
  obtain ⟨f, hfree⟩ := free_reaches_check maxks s rfl
  refine ⟨f, Reaches.trans ?_ hfree⟩
  have hone : step maxks { s with worker := .sleep } .work = some { s with worker := .recheck 0 } := rfl
  exact (Reaches.single trivial hone).trans (recheck_reaches_free heven _ (Nat.le_refl _))

include heven in
theorem batch_runs (hne : s.worker ≠ .parked) (hkept : Kept s) :
    ∃ last f, Reaches (step maxks) anyStep s
      { s with worker := .check, head := [], ran := s.ran ++ s.head, caller := f, lastRcuGen := last } := by
  obtain ⟨gen, mode, sections, clock, rcuHead, th, worker, last, head, taken, caller, queued, ran⟩ := s
  cases worker with
  | parked => exact absurd rfl hne
  | check =>
    obtain rfl : head = [] := hkept.empty (.inl rfl)
    refine ⟨last, caller, ?_⟩
    dsimp only
    rw [append_nil]
    exact .refl
  | sample i =>
    obtain ⟨last', hsleep⟩ := sample_reaches_sleep maxks
      ⟨gen, mode, sections, clock, rcuHead, th, .sleep, last, head, taken, caller, queued, ran⟩
      (i := i) _ (Nat.le_refl _)
    obtain ⟨f, hcheck⟩ := sleep_reaches_check
      (s := ⟨gen, mode, sections, clock, rcuHead, th, .sleep, last', head, taken, caller, queued, ran⟩) heven
    exact ⟨last', f, hsleep.trans hcheck⟩
  | sleep =>
    obtain ⟨f, hcheck⟩ := sleep_reaches_check heven
    exact ⟨last, f, hcheck⟩
  | recheck i =>
    have hfree := recheck_reaches_free (i := i) heven _ (Nat.le_refl _)
    obtain ⟨f, hcheck⟩ := free_reaches_check maxks
      ⟨gen, mode, sections, clock, rcuHead, th, .free, last, head, taken, caller, queued, ran⟩ rfl
    exact ⟨last, f, hfree.trans hcheck⟩
  | free =>
    obtain ⟨f, hcheck⟩ := free_reaches_check maxks
      ⟨gen, mode, sections, clock, rcuHead, th, .free, last, head, taken, caller, queued, ran⟩ rfl
    exact ⟨last, f, hcheck⟩

include heven in
theorem all_run (hne : s.worker ≠ .parked) (hkept : Kept s) :
    ∃ t, Reaches (step maxks) anyStep s t ∧ t.ran = s.ran ++ s.head ++ s.rcuHead := by
  obtain ⟨last, f, hfirst⟩ := batch_runs heven hne hkept
  cases hqueue : s.rcuHead with
  | nil => exact ⟨_, hfirst, (append_nil _).symm⟩
  | cons c rest =>
    have htake : step maxks { s with
          worker := .check, head := [], ran := s.ran ++ s.head, caller := f, lastRcuGen := last } .work =
        some { s with
          worker := .sample 0, head := s.rcuHead, rcuHead := [], taken := s.clock
          ran := s.ran ++ s.head, caller := f, lastRcuGen := last } :=
      if_neg (by rw [hqueue]; nofun)
    obtain ⟨last', hsleep⟩ := sample_reaches_sleep maxks { s with
        head := s.rcuHead, rcuHead := [], taken := s.clock
        ran := s.ran ++ s.head, caller := f, lastRcuGen := last } (i := 0) _ (Nat.le_refl _)
    obtain ⟨f', hcheck⟩ := sleep_reaches_check (s := { s with
        head := s.rcuHead, rcuHead := [], taken := s.clock
        ran := s.ran ++ s.head, caller := f, lastRcuGen := last' }) heven
    exact ⟨_, hfirst.trans ((Reaches.single trivial htake).trans (hsleep.trans hcheck)),
      congrArg _ hqueue⟩

end Progress

theorem Inv.wakes (h : Inv maxks s) : s.rcuHead ++ s.head = [] ∨
    ∃ w f, Reaches (step maxks) anyStep s { s with worker := w, caller := f } ∧ w ≠ .parked := by
  by_cases hp : s.worker = .parked
  · obtain hth | ⟨a, ha⟩ := h.wake.parked hp
    · rw [(h.wake.offered hth).2.1, h.kept.empty (.inr hp)]
      exact .inl rfl
    · exact .inr ⟨.check, _, .single (a := .threadReady a) trivial (if_pos ha), nofun⟩
  · exact .inr ⟨s.worker, s.caller, .refl, hp⟩

theorem Inv.can_run (h : Inv maxks s) {c : Callback A} (hc : c ∈ s.queued) :
    ∃ t, Reaches (step maxks) anyStep s t ∧ c ∈ t.ran := by
  have hin := h.kept.perm.mem_iff.2 hc
  obtain hnone | ⟨w, f, hwake, hne⟩ := h.wakes
  · rw [hnone] at hin
    exact ⟨s, .refl, hin⟩
  · have hawake := h.reaches hwake
    obtain ⟨gen, mode, sections, henter, heven⟩ := all_enter_scheduler hawake maxks (Nat.le_refl _)
    obtain ⟨t, hrun, hran⟩ := all_run heven hne (hawake.reaches henter).kept
    refine ⟨t, hwake.trans (henter.trans hrun), ?_⟩
    rw [hran]
    simp only [mem_append] at hin ⊢
    obtain (hin | hin) | hin := hin
    · exact .inr hin
    · exact .inl (.inr hin)
    · exact .inl (.inl hin)

/-- In every run a callback starts only after the sections that began before it was queued have
ended; it is in one place, starts at most once, and can still start if it has not. -/
theorem rcu_safe (maxks : Nat) {s : State A} (hreach : Reaches (step maxks) anyStep init s) :
    Safe s ∧ ∀ c ∈ s.queued, ∃ t, Reaches (step maxks) anyStep s t ∧ c ∈ t.ran := by
  have hinv : Inv maxks s := inv_init.reaches hreach
  exact ⟨hinv.safe, fun c hc => hinv.can_run hc⟩

end Model

/-! ## A grace period -/

def startThread (k : Nat) : List (Event Nat) :=
  [.switch k .attach, .switch k .schedule, .switch k .jmpThread]

/-- Kthread 0 reads while thread 7 queues a callback.  The worker's first pass fails; after kthread 0
has gone through the scheduler and kthread 1 has begun to read, the second one succeeds. -/
def gracePeriod : List (Event Nat) :=
  startThread 0 ++ startThread 1 ++ [.readLock 0, .rcuFree 7] ++ List.replicate 6 .work ++
    [.readUnlock 0, .switch 0 .jmpThreadDirect, .switch 1 .jmpThreadDirect, .readLock 1] ++
    List.replicate 5 .work

theorem rcu_safe_after_grace : ∃ s : State Nat, Reaches (step 2) anyStep init s ∧
    s.ran = [⟨1, none⟩] ∧ s.sections 1 = [2] ∧ Safe s := by
  obtain ⟨s, hreach, hran, hreading⟩ : ∃ s, Reaches (step 2) anyStep init s ∧
      s.ran = [⟨1, none⟩] ∧ s.sections 1 = [2] :=
    exists_of_runActions gracePeriod (by decide)
  exact ⟨s, hreach, hran, hreading, (rcu_safe 2 hreach).1⟩

end Svalinn.Runtime.Rcu
