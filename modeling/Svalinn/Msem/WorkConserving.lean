/-
  Msem/WorkConserving.lean --- capacity that is left unused while threads wait.

  Source: `TryWait`, `Wait` and `Post` of `MemSemaphoreMabEgImpl` and
  `MemSemaphoreMabTsImpl` (`m-semaphore/src`), as modelled in `Msem/Semaphore.lean`.

  `UpdateCapacity` can raise the capacity inside every call, but only `Wait` gives all of it
  to the threads that are queued: `TryWait` takes one slot for its caller and `Post` hands its
  own slot to one thread.
-/
import Svalinn.Msem.Semaphore

set_option autoImplicit false

namespace Svalinn.Msem

open Svalinn.Lib

section Generic

variable {C F : Type} (u : Update C F)

def WorkConserving (s : Sys C) : Prop := s.sem.waiters ≠ [] → s.sem.cap ≤ s.sem.count

/-- The capacity the call's own update has chosen: with a thread queued `TryWait` finds at most
one free slot, with two queued `Post` finds none. -/
def Conserves (s : Sys C) : Op F → Prop
  | .tryWait _ d => s.sem.waiters = [] ∨ (s.sem.updated u d).cap ≤ s.sem.count + 1
  | .wait _ _ _ => True
  | .post _ d => s.sem.waiters.length ≤ 1 ∨ (s.sem.updated u d).cap ≤ s.sem.count

end Generic

/-! ## The three methods -/

section Methods

variable {C F : Type} {u : Update C F} {s s' : Sys C}

theorem tryWait_conserving_iff (s : Sem C) (d : Draw F) :
    ((s.tryWait u d).1.waiters ≠ [] → (s.tryWait u d).1.cap ≤ (s.tryWait u d).1.count) ↔
      (s.waiters = [] ∨ (s.updated u d).cap ≤ s.count + 1) := by
  unfold Sem.tryWait
  dsimp only
  rw [updated_count]
  by_cases hlt : s.count < (s.updated u d).cap
  · rw [if_pos hlt]
    exact Decidable.imp_iff_not_or.trans (or_congr Decidable.not_not Iff.rfl)
  · rw [if_neg hlt]
    have hle : (s.updated u d).cap ≤ s.count := Nat.le_of_not_lt hlt
    exact iff_of_true (fun _ => hle) (.inr (Nat.le_succ_of_le hle))

theorem wait_conserving (hp : Protocol s) (t tsc : Nat) (d : Draw F) :
    (s.sem.wait u t tsc d).1.waiters ≠ [] →
      (s.sem.wait u t tsc d).1.cap ≤ (s.sem.wait u t tsc d).1.count := by
  have hspec : WakeOlderSpec (s.sem.updated u d).waiters (s.sem.updated u d)
      (Sem.wakeOlder (s.sem.updated u d).waiters (s.sem.updated u d)) :=
    wakeOlder_spec _ _ rfl hp.numWaiters hp.oldest
  unfold Sem.wait
  dsimp only
  generalize Sem.wakeOlder (s.sem.updated u d).waiters (s.sem.updated u d) = r at hspec ⊢
  by_cases hlt : r.1.count < r.1.cap
  · rw [if_pos hlt]
    exact fun hne => absurd (hspec.stop.resolve_left (Nat.not_le_of_lt hlt)) hne
  · rw [if_neg hlt]
    exact fun _ => Nat.le_of_not_lt hlt

theorem post_conserving_iff (s : Sem C) (d : Draw F) :
    ((s.post u d).1.waiters ≠ [] → (s.post u d).1.cap ≤ (s.post u d).1.count) ↔
      (s.waiters.length ≤ 1 ∨ (s.updated u d).cap ≤ s.count) := by
  unfold Sem.post
  dsimp only
  rw [updated_waiters, updated_count]
  cases hw : s.waiters with
  | nil => exact iff_of_true (fun hne => absurd rfl hne) (.inl (Nat.zero_le 1))
  | cons w rest =>
    dsimp only
    by_cases hgt : s.count > (s.updated u d).cap
    · -- one holder fewer, and still at least the capacity
      rw [if_pos hgt]
      exact iff_of_true (fun _ => Nat.le_sub_one_of_lt hgt) (.inr (Nat.le_of_lt hgt))
    · rw [if_neg hgt]
      cases rest with
      | nil => exact iff_of_true (fun hne => absurd rfl hne) (.inl (Nat.le_refl 1))
      | cons w' rest =>
        have hlong : ¬ (w :: w' :: rest).length ≤ 1 := by
          simp only [List.length_cons]
          omega
        rw [or_iff_right hlong]
        exact forall_prop_of_true (List.cons_ne_nil w' rest)

/-- A call leaves the semaphore work conserving exactly if its update meets the condition. -/
theorem step_conserving_iff (hp : Protocol s) {op : Op F} (hs : step u s op = some s') :
    WorkConserving s' ↔ Conserves u s op := by
  obtain ⟨-, hs⟩ := Option.ite_none_left_eq_some.1 hs
  cases op with
  | tryWait t d =>
    cases hs
    exact tryWait_conserving_iff s.sem d
  | wait t tsc d =>
    cases hs
    exact iff_of_true (wait_conserving hp t tsc d) trivial
  | post t d =>
    obtain ⟨-, rfl⟩ := Option.ite_some_none_eq_some.1 hs
    exact post_conserving_iff s.sem d

theorem reaches_conserving (hu : KeepsRange u) (ctl : C) {maxCap : Nat} (hmax : 1 ≤ maxCap)
    (hr : Reaches (step u) (Conserves u) (initSys ctl maxCap) s) : WorkConserving s := by
  have hboth : Protocol s ∧ WorkConserving s := hr.invariant
    (P := fun v => Protocol v ∧ WorkConserving v) ⟨initSys_protocol ctl hmax, fun hne => absurd rfl hne⟩
    fun _ _ _ h hok hs => ⟨(step_keeps hu h.1 hs).1, (step_conserving_iff h.1 hs).2 hok⟩
  exact hboth.2

end Methods

/-! ## The two implementations -/

section Implementations

variable {F : Type}

/-- Both semaphores are work conserving in every run whose updates meet the condition, and a
call whose update does not meet it leaves a thread queued at free capacity. -/
theorem memSemaphore_conserving_iff (A : Arith F) (B : ArithExt F) (maxCap bytes now : Nat)
    (hmax : 1 ≤ maxCap) :
    (∀ s, Reaches (egStep A) anyStep (egInit A maxCap bytes now) s →
      (Reaches (egStep A) (Conserves (EgCtl.updateCapacity A)) (egInit A maxCap bytes now) s →
        WorkConserving s) ∧
      ∀ op s', egStep A s op = some s' →
        (WorkConserving s' ↔ Conserves (EgCtl.updateCapacity A) s op)) ∧
    (∀ s, Reaches (tsStep B) anyStep (tsInit B maxCap bytes now) s →
      (Reaches (tsStep B) (Conserves (TsCtl.updateCapacity B)) (tsInit B maxCap bytes now) s →
        WorkConserving s) ∧
      ∀ op s', tsStep B s op = some s' →
        (WorkConserving s' ↔ Conserves (TsCtl.updateCapacity B) s op)) := by
  constructor
  · intro s hr
    have hu := EgCtl.updateCapacity_keepsRange A
    refine ⟨reaches_conserving hu _ hmax, fun op s' hs => ?_⟩
    exact step_conserving_iff (reaches_protocol hu _ hmax hr) hs
  · intro s hr
    have hu := TsCtl.updateCapacity_keepsRange B
    refine ⟨reaches_conserving hu _ hmax, fun op s' hs => ?_⟩
    exact step_conserving_iff (reaches_protocol hu _ hmax hr) hs

end Implementations

/-- After `shrinkRun` one thread is queued behind two holders at capacity 1. -/
theorem memSemaphore_conserving_shrinkRun : ∃ s,
    Reaches (egStep ratArith.toArith) (Conserves (EgCtl.updateCapacity ratArith.toArith))
      (egInit ratArith.toArith 2 0 0) s ∧
    s.sem.waiters.map Waiter.th = [3] ∧ WorkConserving s := by
  have hrun : (runChecked (egStep ratArith.toArith) (fun _ op => match op with
      | .wait _ _ _ => true | _ => false) (egInit ratArith.toArith 2 0 0) shrinkRun).map
      (fun s => s.sem.waiters.map Waiter.th) = some [3] := by decide +kernel
  obtain ⟨s, hs, hwaiters⟩ := Option.map_eq_some_iff.1 hrun
  have hreach : Reaches (egStep ratArith.toArith) (Conserves (EgCtl.updateCapacity ratArith.toArith))
      (egInit ratArith.toArith 2 0 0) s := by
    refine reaches_of_runChecked (fun s op _ hop => ?_) hs
    cases op with
    | wait t tsc d => trivial
    | tryWait _ _ | post _ _ => nomatch hop
  have hconserving := memSemaphore_conserving_iff ratArith.toArith ratArith 2 0 0 (by decide)
  exact ⟨s, hreach, hwaiters, (hconserving.1 s (hreach.mono fun _ _ _ => trivial)).1 hreach⟩

/-- Two threads are queued behind thread 1, whose `Post` raises the capacity to 2. -/
def growRun (grow : Draw Rat) : List (Op Rat) :=
  [.wait 1 10 (ratDraw 100 0 0 0), .wait 2 20 (ratDraw 100 0 0 0),
   .wait 3 30 (ratDraw 100 0 0 0), .post 1 grow]

/-- In either implementation thread 2 gets the slot of thread 1 and thread 3 stays queued
although one of the two slots is free. -/
theorem post_leaves_capacity_unused :
    (∃ s, runActions (egStep ratArith.toArith) (egInit ratArith.toArith 2 0 0)
        (growRun (ratDraw 1000 4000 0 1)) = some s ∧
      s.sem.waiters.map Waiter.th = [3] ∧ s.sem.count = 1 ∧ s.sem.cap = 2 ∧ ¬ WorkConserving s) ∧
    (∃ s, runActions (tsStep ratArith) (tsInit ratArith 2 0 0)
        (growRun { ratDraw 1000 4000 1000 0 with gauss := fun i => i }) = some s ∧
      s.sem.waiters.map Waiter.th = [3] ∧ s.sem.count = 1 ∧ s.sem.cap = 2 ∧ ¬ WorkConserving s) := by
  have hunused : ∀ {C : Type} {s : Sys C}, s.sem.waiters.map Waiter.th = [3] → s.sem.count = 1 →
      s.sem.cap = 2 → ¬ WorkConserving s := by
    intro C s hwaiters hcount hcap hconserving
    have hle := hconserving fun hnil => by simp [hnil] at hwaiters
    omega
  have heg : (runActions (egStep ratArith.toArith) (egInit ratArith.toArith 2 0 0)
      (growRun (ratDraw 1000 4000 0 1))).map
      (fun s => (s.sem.waiters.map Waiter.th, s.sem.count, s.sem.cap)) = some ([3], 1, 2) := by
    decide +kernel
  have hts : (runActions (tsStep ratArith) (tsInit ratArith 2 0 0)
      (growRun { ratDraw 1000 4000 1000 0 with gauss := fun i => i })).map
      (fun s => (s.sem.waiters.map Waiter.th, s.sem.count, s.sem.cap)) = some ([3], 1, 2) := by
    decide +kernel
  constructor
  · obtain ⟨s, hs, hp⟩ := Option.map_eq_some_iff.1 heg
    obtain ⟨hwaiters, hcount, hcap⟩ := by simpa only [Prod.mk.injEq] using hp
    exact ⟨s, hs, hwaiters, hcount, hcap, hunused hwaiters hcount hcap⟩
  · obtain ⟨s, hs, hp⟩ := Option.map_eq_some_iff.1 hts
    obtain ⟨hwaiters, hcount, hcap⟩ := by simpa only [Prod.mk.injEq] using hp
    exact ⟨s, hs, hwaiters, hcount, hcap, hunused hwaiters hcount hcap⟩

end Svalinn.Msem
