/-
  Iokernel/Slots.lean --- every kthread is idle or in one slot of one core.

  A core has three slots: the kthread that runs, the one that waits for a context switch
  to finish, and the one that the switch removes.  `Slots` says that the slots of a core
  hold exactly the active kthreads whose `core` field names it, each in one slot.  Since
  a kthread has one `core` field, it is then held by one core.
-/
import Mathlib.Data.List.Nodup
import Svalinn.Iokernel.Kthreads

set_option autoImplicit false

namespace Svalinn.Iokernel

open Svalinn.Lib

/-! ## Slots -/

inductive Slot where
  | cur
  | pending
  | last
  deriving DecidableEq

def CoreState.slot (st : CoreState) : Slot → Option ThreadPtr
  | .cur => st.curTh
  | .pending => st.pendingTh
  | .last => st.lastTh

def CoreState.Holds (st : CoreState) (th : ThreadPtr) : Prop :=
  st.curTh = some th ∨ st.pendingTh = some th ∨ st.lastTh = some th

def CoreState.Distinct (st : CoreState) : Prop :=
  ∀ th, ¬(st.curTh = some th ∧ st.pendingTh = some th) ∧
    ¬(st.curTh = some th ∧ st.lastTh = some th) ∧
    ¬(st.pendingTh = some th ∧ st.lastTh = some th)

structure CoreState.Settled (st : CoreState) : Prop where
  last : st.wait = false → st.lastTh = none
  noPending : st.wait = false → st.pending = false
  pendingTh : st.pending = false → st.pendingTh = none
  idle : st.idle = true → st.curTh = none
  busy : st.wait = true → st.idle = false

/-- The slots hold the active kthreads, except for one that is on its way to its core. -/
structure Slots (s : Sched) (moving : Option ThreadPtr) : Prop where
  holds : ∀ th c, (s.state c).Holds th ↔
    (s.threads th).active = true ∧ (s.threads th).core = c ∧ moving ≠ some th
  distinct : ∀ c, (s.state c).Distinct
  settled : ∀ c, (s.state c).Settled

theorem Slots.of_core {s s' : Sched} {moving moving' : Option ThreadPtr} {core : Nat}
    (h : Slots s moving) (hstate : ∀ c, c ≠ core → s'.state c = s.state c)
    (hcore : ∀ th, (s'.threads th).core = (s.threads th).core)
    (hactive : ∀ th, (s.threads th).core ≠ core →
      (s'.threads th).active = (s.threads th).active ∧ (moving' ≠ some th ↔ moving ≠ some th))
    (hholds : ∀ th, (s'.state core).Holds th ↔
      (s'.threads th).active = true ∧ (s.threads th).core = core ∧ moving' ≠ some th)
    (hdistinct : (s'.state core).Distinct) (hsettled : (s'.state core).Settled) :
    Slots s' moving' := by
  refine ⟨fun th c => ?_, fun c => ?_, fun c => ?_⟩
  · rw [hcore]
    by_cases hc : c = core
    · subst hc
      exact hholds th
    · rw [hstate c hc, h.holds]
      by_cases hth : (s.threads th).core = c
      · obtain ⟨ha, hm⟩ := hactive th (by rw [hth]; exact hc)
        rw [ha, hm]
      · exact iff_of_false (fun hx => hth hx.2.1) fun hx => hth hx.2.1
  · by_cases hc : c = core
    · subst hc
      exact hdistinct
    · rw [hstate c hc]
      exact h.distinct c
  · by_cases hc : c = core
    · subst hc
      exact hsettled
    · rw [hstate c hc]
      exact h.settled c

/-! ## Effects of enabling and retiring -/

theorem enable_state (s : Sched) (th : ThreadPtr) (core : Nat) :
    (schedEnableKthread (procGet s th.proc) th core).state = s.state :=
  (pollThread_pollOnly _ th).state

theorem enable_threads (s : Sched) (th : ThreadPtr) (core : Nat) (x : ThreadPtr) :
    ((schedEnableKthread (procGet s th.proc) th core).threads x).active =
        (if x = th then true else (s.threads x).active) ∧
      ((schedEnableKthread (procGet s th.proc) th core).threads x).core =
        (if x = th then core else (s.threads x).core) := by
  rw [schedEnableKthread, (pollThread_pollOnly _ th).threads x, markActive_threads]
  split <;> exact ⟨rfl, rfl⟩

theorem retire_frame (s : Sched) (th : ThreadPtr) : PollOnly (markParked s th) (retireKthread s th) :=
  (schedDisableKthread_pollOnly s th).trans (procPut_pollOnly _ th.proc)

theorem retire_state (s : Sched) (th : ThreadPtr) : (retireKthread s th).state = s.state :=
  (retire_frame s th).state.trans (markParked_frame s th).1

theorem retire_threads {s : Sched} (h : Kthreads s) {th : ThreadPtr}
    (hth : (s.threads th).active = true) (x : ThreadPtr) :
    ((retireKthread s th).threads x).active = (if x = th then false else (s.threads x).active) ∧
      ((retireKthread s th).threads x).core = (s.threads x).core := by
  obtain ⟨j, hj⟩ := h.lists.exists_last hth
  rw [(retire_frame s th).threads x, markParked_threads hj]
  exact ⟨rfl, rfl⟩

/-! ## Running on a core -/

structure SchedInv (s : Sched) (moving : Option ThreadPtr) : Prop where
  kthreads : Kthreads s
  slots : Slots s moving

theorem SchedInv.enable {s : Sched} (h : SchedInv s none) {th : ThreadPtr} (core : Nat)
    (hth : th.idx ∈ (s.procs th.proc).idleThreads) :
    SchedInv (schedEnableKthread (procGet s th.proc) th core) (some th) := by
  have hoff := ((h.kthreads.lists.mem_idle th.proc th.idx).1 hth).2
  have heff := enable_threads s th core
  refine ⟨h.kthreads.enable core hth, fun x c => ?_, fun c => ?_, fun c => ?_⟩
  · rw [enable_state, h.slots.holds, (heff x).1, (heff x).2]
    by_cases hx : x = th
    · subst hx
      exact iff_of_false (fun hh => by rw [hoff] at hh; cases hh.1) fun hh => hh.2.2 rfl
    · rw [if_neg hx, if_neg hx]
      have hne : some th ≠ some x := fun heq => hx (Option.some.inj heq).symm
      simp only [ne_eq, reduceCtorEq, not_false_eq_true, and_true, hne]
  · rw [enable_state]
    exact h.slots.distinct c
  · rw [enable_state]
    exact h.slots.settled c

/-- A kthread in a slot is retired and its slot is overwritten.  The kthread on its way,
if there is one, may take a slot of the same core. -/
theorem SchedInv.replace {s : Sched} {moving moving' : Option ThreadPtr} (h : SchedInv s moving)
    {th : ThreadPtr} {core : Nat} (hth : (s.state core).Holds th) (f : CoreState → CoreState)
    (hmoving : ∀ x, (s.threads x).core ≠ core → (moving' ≠ some x ↔ moving ≠ some x))
    (hholds : ∀ x, (f (s.state core)).Holds x ↔
      x ≠ th ∧ (s.threads x).active = true ∧ (s.threads x).core = core ∧ moving' ≠ some x)
    (hdistinct : (f (s.state core)).Distinct) (hsettled : (f (s.state core)).Settled) :
    SchedInv ((retireKthread s th).modCore core f) moving' := by
  obtain ⟨hon, hcore, -⟩ := (h.slots.holds th core).1 hth
  have heff := retire_threads h.kthreads hon
  have hstate : ∀ c, ((retireKthread s th).modCore core f).state c =
      if c = core then f (s.state c) else s.state c := by
    intro c
    rw [modCore_state, retire_state]
  refine ⟨(h.kthreads.retire hon).modCore core f, ?_⟩
  refine h.slots.of_core (fun c hc => ?_) (fun x => (heff x).2) (fun x hx => ⟨?_, hmoving x hx⟩)
    (fun x => ?_) ?_ ?_
  · rw [hstate, if_neg hc]
  · rw [modCore_threads, (heff x).1, if_neg]
    rintro rfl
    exact hx hcore
  · rw [hstate, if_pos rfl, hholds, modCore_threads, (heff x).1]
    grind
  · rw [hstate, if_pos rfl]
    exact hdistinct
  · rw [hstate, if_pos rfl]
    exact hsettled

theorem SchedInv.rearrange {s : Sched} {moving moving' : Option ThreadPtr} (h : SchedInv s moving)
    {core : Nat} (f : CoreState → CoreState)
    (hmoving : ∀ x, (s.threads x).core ≠ core → (moving' ≠ some x ↔ moving ≠ some x))
    (hholds : ∀ x, (f (s.state core)).Holds x ↔
      (s.threads x).active = true ∧ (s.threads x).core = core ∧ moving' ≠ some x)
    (hdistinct : (f (s.state core)).Distinct) (hsettled : (f (s.state core)).Settled) :
    SchedInv (s.modCore core f) moving' := by
  refine ⟨h.kthreads.modCore core f, ?_⟩
  refine h.slots.of_core (fun c hc => ?_) (fun _ => rfl) (fun x hx => ⟨rfl, hmoving x hx⟩)
    (fun x => ?_) ?_ ?_
  · rw [modCore_state, if_neg hc]
  · rw [modCore_state, if_pos rfl, hholds]
    rfl
  · rw [modCore_state, if_pos rfl]
    exact hdistinct
  · rw [modCore_state, if_pos rfl]
    exact hsettled

theorem ne_of_core {s : Sched} {moving : Option ThreadPtr} {core : Nat}
    (hmoving : ∀ th, moving = some th → (s.threads th).core = core) (x : ThreadPtr)
    (hx : (s.threads x).core ≠ core) : (none ≠ some x ↔ moving ≠ some x) :=
  iff_of_true nofun fun heq => hx (hmoving x heq)

theorem SchedInv.run {s : Sched} {moving : Option ThreadPtr} {core : Nat} (h : SchedInv s moving)
    (hmoving : ∀ th, moving = some th → (s.threads th).active = true ∧ (s.threads th).core = core) :
    SchedInv (schedRun s moving core) none := by
  have hne := ne_of_core fun th hth => (hmoving th hth).2
  have hcore := fun x => h.slots.holds x core
  have hdistinct := h.slots.distinct core
  have hsettled := h.slots.settled core
  rw [schedRun]
  by_cases hwait : (s.state core).wait = true
  · rw [if_pos hwait]
    cases hpend : (s.state core).pendingTh with
    | none =>
      refine h.rearrange _ hne (fun x => ?_) ?_ ?_
      · have := hcore x
        have := hmoving x
        simp only [CoreState.Holds] at *
        grind
      · intro x
        have := hcore x
        have := hdistinct x
        simp only [CoreState.Holds] at *
        grind
      · exact ⟨fun hw => by simp [hwait] at hw, fun hw => by simp [hwait] at hw,
          fun hp => by simp at hp, hsettled.idle, hsettled.busy⟩
    | some old =>
      refine h.replace (Or.inr (Or.inl hpend)) _ hne (fun x => ?_) ?_ ?_
      · have := hcore x
        have := hmoving x
        have := hdistinct x
        simp only [CoreState.Holds] at *
        grind
      · intro x
        have := hcore x
        have := hdistinct x
        simp only [CoreState.Holds] at *
        grind
      · exact ⟨fun hw => by simp [hwait] at hw, fun hw => by simp [hwait] at hw,
          fun hp => by simp at hp, hsettled.idle, hsettled.busy⟩
  · have hwait : (s.state core).wait = false := by simpa using hwait
    have hlast := hsettled.last hwait
    have hpend := hsettled.pendingTh (hsettled.noPending hwait)
    rw [if_neg (by simp [hwait])]
    refine h.rearrange _ hne (fun x => ?_) ?_ ?_
    · have := hcore x
      have := hmoving x
      simp only [CoreState.Holds] at *
      grind
    · intro x
      have := hcore x
      simp only [CoreState.Holds] at *
      grind
    · exact ⟨fun hw => by simp at hw, fun hw => by simp at hw, fun _ => hpend,
        fun hi => by simp at hi, fun _ => rfl⟩

theorem schedPickKthread_idle {m : Machine} {s : Sched} {p core : Nat} {th : ThreadPtr}
    (h : schedPickKthread m s p core = some th) :
    th.proc = p ∧ th.idx ∈ (s.procs p).idleThreads := by
  obtain ⟨i, hi, rfl⟩ := Option.map_eq_some_iff.1 h
  refine ⟨rfl, ?_⟩
  rcases Option.or_eq_some_iff.1 hi with hi | ⟨-, hi⟩
  · rcases Option.or_eq_some_iff.1 hi with hi | ⟨-, hi⟩
    · exact List.mem_of_find?_eq_some hi
    · split at hi
      · cases hi
      · exact List.mem_of_find?_eq_some hi
  · exact List.mem_of_getLast? hi

theorem schedRunOnCore_cases {m : Machine} {s s' : Sched} {p core : Nat}
    (h : schedRunOnCore m s p core = some s') :
    core ∈ m.cores ∧ ∃ th, th.proc = p ∧ th.idx ∈ (s.procs p).idleThreads ∧
      s' = schedRun (schedEnableKthread (procGet s p) th core) (some th) core := by
  rw [schedRunOnCore] at h
  split at h
  · cases h
  · rename_i hvalid
    cases hpick : schedPickKthread m s p core with
    | none =>
      rw [hpick] at h
      cases h
    | some th =>
      rw [hpick] at h
      obtain ⟨rfl, hidle⟩ := schedPickKthread_idle hpick
      refine ⟨?_, th, rfl, hidle, (Option.some.inj h).symm⟩
      exact Classical.not_not.1 fun hout => hvalid (Or.inr (Or.inr hout))

theorem SchedInv.runOnCore {m : Machine} {s s' : Sched} {p core : Nat} (h : SchedInv s none)
    (hrun : schedRunOnCore m s p core = some s') : SchedInv s' none := by
  obtain ⟨-, th, rfl, hidle, rfl⟩ := schedRunOnCore_cases hrun
  refine (h.enable core hidle).run fun x hx => ?_
  cases hx
  obtain ⟨hon, hcore⟩ := enable_threads s th core th
  rw [hon, hcore, if_pos rfl, if_pos rfl]
  exact ⟨rfl, rfl⟩

theorem schedIdleOnCore_cases {m : Machine} {s s' : Sched} {core : Nat}
    (h : schedIdleOnCore m s core = some s') : core ∈ m.cores ∧ s' = schedRun s none core := by
  rw [schedIdleOnCore] at h
  split at h
  · cases h
  · rename_i hvalid
    exact ⟨Classical.not_not.1 fun hout => hvalid (Or.inr hout), (Option.some.inj h).symm⟩

theorem SchedInv.idleOnCore {m : Machine} {s s' : Sched} {core : Nat} (h : SchedInv s none)
    (hidle : schedIdleOnCore m s core = some s') : SchedInv s' none := by
  obtain ⟨-, rfl⟩ := schedIdleOnCore_cases hidle
  exact h.run nofun

/-! ## The fast pass -/

theorem SchedInv.switched {s : Sched} (h : SchedInv s none) {core : Nat}
    (hwait : (s.state core).wait = true) (hlast : (s.state core).lastTh = none) :
    SchedInv (s.modCore core CoreState.switched) none := by
  have hcore := fun x => h.slots.holds x core
  have hdistinct := h.slots.distinct core
  have hsettled := h.slots.settled core
  have hbusy := hsettled.busy hwait
  refine h.rearrange _ (fun _ _ => Iff.rfl) (fun x => ?_) ?_ ?_
  · rw [← hcore x, CoreState.switched]
    simp only [CoreState.Holds]
    split <;> grind
  · intro x
    have := hdistinct x
    rw [CoreState.switched]
    split <;> grind
  · rw [CoreState.switched]
    split
    · refine ⟨fun hw => ?_, fun _ => rfl, fun _ => rfl, fun hi => ?_, fun _ => hbusy⟩
      · rw [hwait] at hw
        cases hw
      · rw [hbusy] at hi
        cases hi
    · rename_i hpend
      have hpend : (s.state core).pending = false := by simpa using hpend
      exact ⟨fun _ => hlast, fun _ => hpend, hsettled.pendingTh, hsettled.idle, nofun⟩

theorem SchedInv.finishSwitch {s : Sched} (h : SchedInv s none) (a : Answers) (core : Nat) :
    SchedInv (finishSwitch a s core) none := by
  have hcore := fun x => h.slots.holds x core
  have hdistinct := h.slots.distinct core
  have hsettled := h.slots.settled core
  rw [Iokernel.finishSwitch]
  split
  · rename_i hdone
    cases hlast : (s.state core).lastTh with
    | none => exact h.switched hdone.1 hlast
    | some th =>
      refine SchedInv.switched ?_ ?_ ?_
      · refine h.replace (Or.inr (Or.inr hlast)) _ (fun _ _ => Iff.rfl) (fun x => ?_) ?_ ?_
        · rw [← hcore x]
          have := hdistinct x
          simp only [CoreState.Holds] at *
          grind
        · intro x
          have := hdistinct x
          grind
        · exact ⟨fun _ => rfl, hsettled.noPending, hsettled.pendingTh, hsettled.idle, hsettled.busy⟩
      · rw [modCore_state, if_pos rfl, retire_state]
        exact hdone.1
      · rw [modCore_state, if_pos rfl]
  · exact h

theorem SchedInv.detectIdle {s : Sched} (h : SchedInv s none) (a : Answers) (core : Nat) :
    SchedInv (detectIdle a s core).1 none := by
  have hcore := fun x => h.slots.holds x core
  have hdistinct := h.slots.distinct core
  have hsettled := h.slots.settled core
  rw [Iokernel.detectIdle]
  split
  · rename_i hidle
    obtain ⟨hwait, hbusy, -⟩ := hidle
    have hwait : (s.state core).wait = false := by simpa using hwait
    have hbusy : (s.state core).idle = false := by simpa using hbusy
    have hlast := hsettled.last hwait
    have hpend := hsettled.noPending hwait
    have hpendTh := hsettled.pendingTh hpend
    cases hcur : (s.state core).curTh with
    | none =>
      dsimp only
      refine h.rearrange _ (fun _ _ => Iff.rfl) (fun x => ?_) ?_ ?_
      · rw [← hcore x]
        rfl
      · exact hdistinct
      · refine ⟨hsettled.last, hsettled.noPending, hsettled.pendingTh, fun _ => hcur, fun hw => ?_⟩
        rw [hwait] at hw
        cases hw
    | some th =>
      obtain ⟨-, hth, -⟩ := (hcore th).1 (Or.inl hcur)
      dsimp only
      split
      · dsimp only
        rw [hth]
        refine h.rearrange _ (fun _ _ => Iff.rfl) (fun x => ?_) ?_ ?_
        · rw [← hcore x]
          rfl
        · exact hdistinct
        · exact ⟨nofun, nofun, hsettled.pendingTh, hsettled.idle, fun _ => hbusy⟩
      · dsimp only
        refine h.replace (Or.inl hcur) _ (fun _ _ => Iff.rfl) (fun x => ?_) ?_ ?_
        · rw [← hcore x]
          have := hdistinct x
          simp only [CoreState.Holds] at *
          grind
        · intro x
          have := hdistinct x
          grind
        · refine ⟨hsettled.last, hsettled.noPending, hsettled.pendingTh, fun _ => rfl, fun hw => ?_⟩
          rw [hwait] at hw
          cases hw
  · exact h

theorem SchedInv.fastPass {a : Answers} (cores : List Nat) {s : Sched} (h : SchedInv s none) :
    SchedInv (fastPass a cores s).1 none := by
  induction cores generalizing s with
  | nil => exact h
  | cons core rest ih => exact ih ((h.finishSwitch a core).detectIdle a core)

/-! ## Clients and packets -/

theorem Slots.congr {s s' : Sched} {moving : Option ThreadPtr} (h : Slots s moving)
    (hstate : s'.state = s.state)
    (hthreads : ∀ th, (s'.threads th).active = (s.threads th).active ∧
      (s'.threads th).core = (s.threads th).core) : Slots s' moving := by
  refine ⟨fun th c => ?_, fun c => ?_, fun c => ?_⟩
  · rw [hstate, (hthreads th).1, (hthreads th).2]
    exact h.holds th c
  · rw [hstate]
    exact h.distinct c
  · rw [hstate]
    exact h.settled c

theorem Slots.of_pollOnly {s s' : Sched} {moving : Option ThreadPtr} (h : Slots s moving)
    (hs : PollOnly s s') : Slots s' moving := by
  refine h.congr hs.state fun th => ?_
  rw [hs.threads th]
  exact ⟨rfl, rfl⟩

/-- A process that nothing refers to has no kthread in a slot, so its memory can be used
for another one. -/
theorem Slots.createProc {s : Sched} (h : SchedInv s none) {p : Nat} (hp : (s.procs p).ref = 0)
    (n : Nat) (spec : SchedSpec) : Slots (createProc s p n spec) none := by
  have hnone := (h.kthreads.unreferenced hp).1
  refine ⟨fun th c => ?_, h.slots.distinct, h.slots.settled⟩
  have hstate : (Iokernel.createProc s p n spec).state c = s.state c := rfl
  rw [hstate, h.slots.holds]
  by_cases hq : th.proc = p
  · have hoff : (s.threads th).active ≠ true := by
      intro hon
      have hin := (h.kthreads.lists.mem_active th.proc th.idx).2 hon
      rw [hq, hnone] at hin
      cases hin
    have hinit : (Iokernel.createProc s p n spec).threads th = initThread := if_pos hq
    rw [hinit]
    exact iff_of_false (fun hh => hoff hh.1) fun hh => Bool.noConfusion hh.1
  · have hsame : (Iokernel.createProc s p n spec).threads th = s.threads th := if_neg hq
    rw [hsame]

theorem SchedInv.addClient {m : Machine} {s : Sched} (h : SchedInv s none) {p : Nat}
    (hp : (s.procs p).ref = 0) (n : Nat) (spec : SchedSpec) (ok : Bool) :
    SchedInv (dpClientsAddClient m s p n spec ok) none := by
  refine ⟨h.kthreads.addClient hp n spec ok, ?_⟩
  have hslots := Slots.createProc h hp n spec
  rw [dpClientsAddClient]
  split
  · exact ⟨hslots.holds, hslots.distinct, hslots.settled⟩
  · exact hslots.of_pollOnly (procPut_pollOnly _ p)

theorem SchedInv.txPull {s : Sched} (h : SchedInv s none) (th : ThreadPtr) :
    SchedInv (txPull s th) none := by
  refine ⟨h.kthreads.txPull th, ?_⟩
  rw [Iokernel.txPull]
  split
  · split
    · exact h.slots
    · exact h.slots.of_pollOnly (unpollThread_pollOnly s th)
  · refine h.slots.congr rfl fun x => ?_
    rw [modThread_threads]
    split <;> exact ⟨rfl, rfl⟩

/-! ## Runs -/

theorem schedInv_init : SchedInv schedInit none := by
  refine ⟨⟨⟨fun _ => .nil, fun p i => ?_, fun p i => ?_, fun _ => .nil, nofun⟩, ⟨.nil, fun th => ?_⟩,
    fun p => rfl, .nil, rfl⟩, fun th c => ?_, fun c th => ?_, fun c => ?_⟩
  · exact iff_of_false List.not_mem_nil fun h => absurd h.1 (Nat.not_lt_zero i)
  · exact iff_of_false List.not_mem_nil Bool.false_ne_true
  · exact iff_of_false List.not_mem_nil Bool.false_ne_true
  · refine iff_of_false ?_ fun h => Bool.noConfusion h.1
    rintro (h | h | h) <;> cases h
  · exact ⟨nofun, nofun, nofun⟩
  · exact ⟨fun _ => rfl, fun _ => rfl, fun _ => rfl, nofun, nofun⟩

theorem SchedInv.step {m : Machine} {s s' : Sched} {e : SchedEvent} (h : SchedInv s none)
    (hstep : schedStep m s e = some s') : SchedInv s' none := by
  cases e with
  | addClient p n spec ok =>
    obtain ⟨hfree, rfl⟩ := Option.ite_some_none_eq_some.1 hstep
    exact h.addClient hfree.1 n spec ok
  | removeClient p =>
    obtain ⟨hp, rfl⟩ := Option.ite_some_none_eq_some.1 hstep
    exact ⟨h.kthreads.removeClient hp, h.slots.congr rfl fun _ => ⟨rfl, rfl⟩⟩
  | runOnCore p core =>
    rw [schedStep] at hstep
    split at hstep
    · exact h.runOnCore hstep
    · cases hstep
  | idleOnCore core => exact h.idleOnCore hstep
  | poll a =>
    cases hstep
    exact h.fastPass m.cores
  | txEnqueue th payload =>
    obtain ⟨-, rfl⟩ := Option.ite_some_none_eq_some.1 hstep
    refine ⟨h.kthreads.modTxpktq th (· ++ [payload]), h.slots.congr rfl fun x => ?_⟩
    rw [modThread_threads]
    split <;> exact ⟨rfl, rfl⟩
  | txPull th =>
    obtain ⟨-, rfl⟩ := Option.ite_some_none_eq_some.1 hstep
    exact h.txPull th
  | txPrepare p =>
    cases hstep
    exact ⟨h.kthreads.txPrepare p, h.slots.congr rfl fun _ => ⟨rfl, rfl⟩⟩
  | txComplete p =>
    obtain ⟨hp, rfl⟩ := Option.ite_some_none_eq_some.1 hstep
    exact ⟨h.kthreads.txComplete hp, h.slots.congr rfl fun _ => ⟨rfl, rfl⟩⟩

theorem schedInv_reaches {m : Machine} {s : Sched}
    (h : Reaches (schedStep m) anyStep schedInit s) : SchedInv s none :=
  h.invariant (P := fun t => SchedInv t none) schedInv_init fun _ _ _ hi _ hst => hi.step hst

/-! ## Every kthread has one place -/

theorem CoreState.holds_iff {st : CoreState} {th : ThreadPtr} :
    st.Holds th ↔ ∃ sl, st.slot sl = some th := by
  constructor
  · rintro (h | h | h)
    · exact ⟨.cur, h⟩
    · exact ⟨.pending, h⟩
    · exact ⟨.last, h⟩
  · rintro ⟨sl, h⟩
    cases sl with
    | cur => exact Or.inl h
    | pending => exact Or.inr (Or.inl h)
    | last => exact Or.inr (Or.inr h)

theorem CoreState.Distinct.slot_inj {st : CoreState} (h : st.Distinct) {th : ThreadPtr}
    {sl sl' : Slot} (h₁ : st.slot sl = some th) (h₂ : st.slot sl' = some th) : sl = sl' := by
  obtain ⟨hcp, hcl, hpl⟩ := h th
  cases sl with
  | cur =>
    cases sl' with
    | cur => rfl
    | pending => exact absurd ⟨h₁, h₂⟩ hcp
    | last => exact absurd ⟨h₁, h₂⟩ hcl
  | pending =>
    cases sl' with
    | cur => exact absurd ⟨h₂, h₁⟩ hcp
    | pending => rfl
    | last => exact absurd ⟨h₁, h₂⟩ hpl
  | last =>
    cases sl' with
    | cur => exact absurd ⟨h₂, h₁⟩ hcl
    | pending => exact absurd ⟨h₂, h₁⟩ hpl
    | last => rfl

def InSlot (s : Sched) (th : ThreadPtr) : Prop := ∃ c sl, (s.state c).slot sl = some th

/-- The places of the kthreads of a process, and what they are accounted for with. -/
structure KthreadsPlaced (s : Sched) (p : Nat) : Prop where
  /-- idle once and in no slot, or in exactly one slot of exactly one core and not idle -/
  place : ∀ i < (s.procs p).threadCount, ((s.procs p).idleThreads.count i = 1 ∧ ¬InSlot s ⟨p, i⟩) ∨
      ((s.procs p).idleThreads.count i = 0 ∧
        ∃! at_ : Nat × Slot, (s.state at_.1).slot at_.2 = some ⟨p, i⟩)
  /-- `active_threads` lists the kthreads in slots, without repetition -/
  active : ∀ i, i ∈ (s.procs p).activeThreads ↔ i < (s.procs p).threadCount ∧ InSlot s ⟨p, i⟩
  nodup : (s.procs p).activeThreads.Nodup
  atIdx : ∀ i ∈ (s.procs p).activeThreads,
    (s.procs p).activeThreads[(s.threads ⟨p, i⟩).atIdx]? = some i
  core : ∀ i c sl, (s.state c).slot sl = some ⟨p, i⟩ → (s.threads ⟨p, i⟩).core = c
  /-- one reference of the client table, one of each active kthread, one of each polled
  kthread and one of each packet in flight -/
  ref : (s.procs p).ref = 1 + (s.procs p).activeThreads.length + s.ts.countP (·.proc == p) +
    s.inFlight.count p

theorem SchedInv.inSlot_iff {s : Sched} (h : SchedInv s none) (th : ThreadPtr) :
    InSlot s th ↔ (s.threads th).active = true := by
  constructor
  · rintro ⟨c, sl, hsl⟩
    exact ((h.slots.holds th c).1 (CoreState.holds_iff.2 ⟨sl, hsl⟩)).1
  · intro hon
    have hholds := (h.slots.holds th (s.threads th).core).2 ⟨hon, rfl, nofun⟩
    exact ⟨_, CoreState.holds_iff.1 hholds⟩

theorem SchedInv.core_eq {s : Sched} (h : SchedInv s none) {th : ThreadPtr} {c : Nat} {sl : Slot}
    (hsl : (s.state c).slot sl = some th) : (s.threads th).core = c :=
  ((h.slots.holds th c).1 (CoreState.holds_iff.2 ⟨sl, hsl⟩)).2.1

theorem SchedInv.placed {s : Sched} (h : SchedInv s none) {p : Nat} (hp : p ∈ s.clients) :
    KthreadsPlaced s p := by
  have hl := h.kthreads.lists
  refine ⟨fun i hi => ?_, fun i => ?_, (hl.indexed p).nodup, fun i hi => (hl.indexed p).get hi,
    fun i c sl hsl => h.core_eq hsl, ?_⟩
  · cases hact : (s.threads ⟨p, i⟩).active with
    | false =>
      refine Or.inl ⟨?_, fun hin => ?_⟩
      · exact List.count_eq_one_of_mem (hl.idle_nodup p) ((hl.mem_idle p i).2 ⟨hi, hact⟩)
      · rw [h.inSlot_iff, hact] at hin
        cases hin
    | true =>
      refine Or.inr ⟨List.count_eq_zero.2 fun hin => ?_, ?_⟩
      · have hoff := ((hl.mem_idle p i).1 hin).2
        rw [hact] at hoff
        cases hoff
      · obtain ⟨c, sl, hsl⟩ := (h.inSlot_iff ⟨p, i⟩).2 hact
        refine ⟨(c, sl), hsl, fun y hy => ?_⟩
        have hc : y.1 = c := (h.core_eq hy).symm.trans (h.core_eq hsl)
        refine Prod.ext hc ((h.slots.distinct y.1).slot_inj hy ?_)
        rw [hc]
        exact hsl
  · rw [hl.mem_active, h.inSlot_iff]
    exact (and_iff_right_of_imp (hl.bounded ⟨p, i⟩)).symm
  · have href := h.kthreads.refs p
    simp only [otherRefs, List.count_eq_one_of_mem h.kthreads.clients hp] at href
    omega

/-- In every run, each kthread of an attached process is idle once or in exactly one slot,
`active_threads` and the references account for the latter, and an inactive kthread is
never disabled. -/
theorem kthreads_placed (m : Machine) {s : Sched}
    (hreach : Reaches (schedStep m) anyStep schedInit s) :
    s.disabledInactive = false ∧ ∀ p ∈ s.clients, KthreadsPlaced s p :=
  have h := schedInv_reaches hreach
  ⟨h.kthreads.sound, fun _ hp => h.placed hp⟩

def twoCores : Machine where
  cores := [2, 3]
  siblings := fun c => if c = 2 then 3 else 2
  noht := false
  nodup := by decide
  lt_ncpu := by decide

def lcSpec (guaranteed : Nat) : SchedSpec :=
  ⟨true, guaranteed, 2, 0, 0, 0, 0⟩

def quietAnswers : Answers := ⟨fun _ => false, fun _ => false, fun _ => false⟩

/-- Process 0 runs on core 2, process 1 takes the core, and before the switch is done the
second kthread of process 0 is to run there. -/
def preemptedTwice : List SchedEvent :=
  [.addClient 0 2 (lcSpec 0) true, .addClient 1 1 (lcSpec 2) true, .runOnCore 0 2,
    .poll { quietAnswers with runDone := fun _ => true }, .runOnCore 1 2, .runOnCore 0 2]

theorem kthreads_placed_preempted : ∃ s, Reaches (schedStep twoCores) anyStep schedInit s ∧
      (s.state 2).lastTh = some ⟨0, 0⟩ ∧ (s.state 2).curTh = some ⟨1, 0⟩ ∧
      (s.state 2).pendingTh = some ⟨0, 1⟩ ∧ (s.procs 0).activeThreads = [0, 1] ∧
      KthreadsPlaced s 0 := by
  obtain ⟨s, hreach, hlast, hcur, hpend, hactive, hclient⟩ :
      ∃ s, Reaches (schedStep twoCores) anyStep schedInit s ∧
        (s.state 2).lastTh = some ⟨0, 0⟩ ∧ (s.state 2).curTh = some ⟨1, 0⟩ ∧
        (s.state 2).pendingTh = some ⟨0, 1⟩ ∧ (s.procs 0).activeThreads = [0, 1] ∧
        0 ∈ s.clients :=
    exists_of_runActions preemptedTwice (by decide +kernel)
  exact ⟨s, hreach, hlast, hcur, hpend, hactive, (kthreads_placed twoCores hreach).2 0 hclient⟩

end Svalinn.Iokernel
