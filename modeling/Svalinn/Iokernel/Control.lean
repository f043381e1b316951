/-
  Iokernel/Control.lean --- the control plane's accounts over its error paths.

  Source: `iokernel/control.c` (`control_setup_directpath`, `control_destroy_proc`,
  `control_add_client`, `control_remove_client`) and `iokernel/directpath/core.c`
  (`alloc_directpath_ctx`, `release_directpath_ctx`).

  Every system call and allocation answers from outside.  `control_destroy_proc` serves
  both the removal of a client and the cleanup of a failed addition; it counts down
  `nr_clients` and releases the directpath context in both cases.
-/
import Mathlib.Algebra.Group.Nat.Defs
import Svalinn.Lib.Transition

set_option autoImplicit false

namespace Svalinn.Iokernel.Control

open Svalinn.Lib Function

def iokernelMaxProc : Nat := 2048

/-- A decrement of an `unsigned int`. -/
def uintPred (n : Nat) : Nat := (n + (2 ^ 32 - 1)) % 2 ^ 32

/-- The answers during one `control_add_client`, in the order in which they are asked for. -/
structure Answers where
  accept : Bool
  getsockopt : Bool
  readKey : Bool
  readLen : Bool
  createProc : Bool
  specMalloc : Bool
  ctxAlloc : Bool
  steeringAttach : Bool
  sendMemfd : Bool
  sendBarfd : Bool
  writeSpec : Bool
  epollAdd : Bool
  lrpcSend : Bool
  deriving DecidableEq

section Model

variable {P : Type} [DecidableEq P]

structure State (P : Type) where
  nrClients : Nat
  live : List P
  /-- every process that `control_create_proc` returned -/
  created : List P
  /-- `p->directpath_data` was set -/
  setUp : P → Bool
  /-- the calls of `release_directpath_ctx` for a process -/
  releases : P → Nat

def releaseDirectpathCtx (s : State P) (p : P) : State P :=
  { s with releases := update s.releases p (s.releases p + 1) }

/-- `alloc_directpath_ctx`: the context belongs to the process before the steering is set up. -/
def allocDirectpathCtx (r : Answers) (s : State P) (p : P) : State P × Bool :=
  if r.ctxAlloc then
    ({ s with setUp := update s.setUp p true }, r.steeringAttach)
  else (s, false)

/-- `control_setup_directpath`: every failure after the first allocation releases the context. -/
def controlSetupDirectpath (r : Answers) (s : State P) (p : P) : State P × Bool :=
  if r.specMalloc then
    let out := allocDirectpathCtx r s p
    if out.2 && r.sendMemfd && r.sendBarfd && r.writeSpec then (out.1, true)
    else (releaseDirectpathCtx out.1 p, false)
  else (s, false)

def controlDestroyProc (vfio : P → Bool) (s : State P) (p : P) : State P :=
  let s := if vfio p then releaseDirectpathCtx s p else s
  { s with nrClients := uintPred s.nrClients }

def controlDirectpath (vfio : P → Bool) (r : Answers) (s : State P) (p : P) : State P × Bool :=
  if vfio p then controlSetupDirectpath r s p else (s, true)

/-- The part of `control_add_client` after the process was created. -/
def controlRegister (vfio : P → Bool) (r : Answers) (s : State P) (p : P) : State P :=
  let out := controlDirectpath vfio r s p
  if out.2 && r.epollAdd && r.lrpcSend then
    { out.1 with nrClients := (out.1.nrClients + 1) % 2 ^ 32, live := p :: out.1.live }
  else controlDestroyProc vfio out.1 p

/-- The tests that come before `control_create_proc`, and its own result. -/
def controlCreates (r : Answers) (s : State P) : Bool :=
  r.accept && s.nrClients < iokernelMaxProc && r.getsockopt && r.readKey && r.readLen && r.createProc

def controlAddClient (vfio : P → Bool) (r : Answers) (s : State P) (p : P) : State P :=
  if controlCreates r s then controlRegister vfio r { s with created := p :: s.created } p else s

/-- `control_remove_client`, after the dataplane gave the process back. -/
def controlRemoveClient (vfio : P → Bool) (s : State P) (p : P) : State P :=
  { controlDestroyProc vfio s p with live := s.live.erase p }

inductive Event (P : Type) where
  | add (p : P) (r : Answers)
  | remove (p : P)

/-- Each addition creates a process of its own, and live processes are removed. -/
def step (vfio : P → Bool) (s : State P) : Event P → Option (State P)
  | .add p r => if p ∈ s.created then none else some (controlAddClient vfio r s p)
  | .remove p => if p ∈ s.live then some (controlRemoveClient vfio s p) else none

def init : State P := ⟨0, [], [], fun _ => false, fun _ => 0⟩

/-! ## The property -/

/-- The counter counts the live processes, and the context of a process that is gone was
released once if there was one. -/
structure Accounted (s : State P) : Prop where
  count : s.nrClients = s.live.length
  releases : ∀ p, s.releases p = if p ∉ s.live ∧ s.setUp p = true then 1 else 0

/-- Everything after `control_create_proc` succeeds. -/
def Registers (vfio : P → Bool) (r : Answers) (p : P) : Prop :=
  (vfio p = true → r.specMalloc = true ∧ r.ctxAlloc = true ∧ r.steeringAttach = true ∧
    r.sendMemfd = true ∧ r.sendBarfd = true ∧ r.writeSpec = true) ∧
  r.epollAdd = true ∧ r.lrpcSend = true

instance (vfio : P → Bool) (r : Answers) (p : P) : Decidable (Registers vfio r p) :=
  inferInstanceAs (Decidable ((_ → _) ∧ _))

def noLateFailure (vfio : P → Bool) (s : State P) : Event P → Prop
  | .add p r => controlCreates r s = true → Registers vfio r p
  | .remove _ => True

instance (vfio : P → Bool) (s : State P) : (e : Event P) → Decidable (noLateFailure vfio s e)
  | .add p r => inferInstanceAs (Decidable (_ → Registers vfio r p))
  | .remove _ => inferInstanceAs (Decidable True)

/-! ## One addition -/

variable {vfio : P → Bool} {s : State P} {p : P} {r : Answers}

theorem controlRegister_ok (h : Registers vfio r p) : controlRegister vfio r s p =
      { s with
        nrClients := (s.nrClients + 1) % 2 ^ 32
        live := p :: s.live
        setUp := if vfio p then update s.setUp p true else s.setUp } := by
  obtain ⟨hdirect, hepoll, hsend⟩ := h
  cases hv : vfio p with
  | false => simp [controlRegister, controlDirectpath, hv, hepoll, hsend]
  | true =>
    obtain ⟨h₁, h₂, h₃, h₄, h₅, h₆⟩ := hdirect hv
    simp [controlRegister, controlDirectpath, controlSetupDirectpath, allocDirectpathCtx, hv, hepoll,
      hsend, h₁, h₂, h₃, h₄, h₅, h₆]

theorem controlSetupDirectpath_frame (r : Answers) (s : State P) (p : P) :
    (controlSetupDirectpath r s p).1.nrClients = s.nrClients ∧
      (controlSetupDirectpath r s p).1.live = s.live := by
  rw [controlSetupDirectpath]
  split
  · have hframe : (allocDirectpathCtx r s p).1.nrClients = s.nrClients ∧
        (allocDirectpathCtx r s p).1.live = s.live := by
      rw [allocDirectpathCtx]
      split <;> exact ⟨rfl, rfl⟩
    dsimp only
    split
    · exact hframe
    · exact hframe
  · exact ⟨rfl, rfl⟩

/-- The directpath part succeeds only if every step of it does. -/
theorem controlSetupDirectpath_ok (h : (controlSetupDirectpath r s p).2 = true) :
    r.specMalloc = true ∧ r.ctxAlloc = true ∧ r.steeringAttach = true ∧ r.sendMemfd = true ∧
      r.sendBarfd = true ∧ r.writeSpec = true := by
  rw [controlSetupDirectpath] at h
  split at h
  · rename_i hmalloc
    dsimp only at h
    split at h
    · rename_i hall
      rw [allocDirectpathCtx] at hall
      split at hall
      · rename_i halloc
        simp only [Bool.and_eq_true] at hall
        exact ⟨hmalloc, halloc, hall.1.1.1, hall.1.1.2, hall.1.2, hall.2⟩
      · simp at hall
    · cases h
  · cases h

theorem controlDirectpath_frame (vfio : P → Bool) (r : Answers) (s : State P) (p : P) :
    (controlDirectpath vfio r s p).1.nrClients = s.nrClients ∧
      (controlDirectpath vfio r s p).1.live = s.live := by
  rw [controlDirectpath]
  split
  · exact controlSetupDirectpath_frame r s p
  · exact ⟨rfl, rfl⟩

theorem controlDestroyProc_frame (vfio : P → Bool) (s : State P) (p : P) :
    (controlDestroyProc vfio s p).nrClients = uintPred s.nrClients ∧
      (controlDestroyProc vfio s p).live = s.live := by
  rw [controlDestroyProc]
  split <;> exact ⟨rfl, rfl⟩

theorem controlRegister_fail (h : ¬Registers vfio r p) :
    (controlRegister vfio r s p).nrClients = uintPred s.nrClients ∧
      (controlRegister vfio r s p).live = s.live := by
  have hfail : ((controlDirectpath vfio r s p).2 && r.epollAdd && r.lrpcSend) ≠ true := by
    intro hall
    simp only [Bool.and_eq_true] at hall
    refine h ⟨fun hv => ?_, hall.1.2, hall.2⟩
    have hout := hall.1.1
    rw [controlDirectpath, if_pos hv] at hout
    exact controlSetupDirectpath_ok hout
  obtain ⟨hnr, hlive⟩ := controlDirectpath_frame vfio r s p
  obtain ⟨hnr', hlive'⟩ := controlDestroyProc_frame vfio (controlDirectpath vfio r s p).1 p
  rw [controlRegister, if_neg hfail, hnr', hlive', hnr, hlive]
  exact ⟨rfl, rfl⟩

/-! ## Runs -/

/-- What a run with the condition keeps besides the accounts. -/
structure Inv (vfio : P → Bool) (s : State P) : Prop where
  accounted : Accounted s
  bounded : s.live.length ≤ iokernelMaxProc
  nodup : s.live.Nodup
  created : ∀ p ∈ s.live, p ∈ s.created
  unknown : ∀ p, p ∉ s.created → s.setUp p = false
  setUp : ∀ p ∈ s.live, s.setUp p = vfio p

theorem inv_init : Inv vfio (init : State P) :=
  ⟨⟨rfl, fun _ => rfl⟩, Nat.zero_le _, .nil, nofun, fun _ _ => rfl, nofun⟩

theorem Inv.add (h : Inv vfio s) (hp : p ∉ s.created) (hcreate : controlCreates r s = true) :
    Inv vfio
      { nrClients := (s.nrClients + 1) % 2 ^ 32
        live := p :: s.live
        created := p :: s.created
        setUp := if vfio p then update s.setUp p true else s.setUp
        releases := s.releases } := by
  have hlimit : s.nrClients < iokernelMaxProc := by
    simp only [controlCreates, Bool.and_eq_true, decide_eq_true_eq] at hcreate
    exact hcreate.1.1.1.1.2
  have hlive : p ∉ s.live := fun hin => hp (h.created p hin)
  have hset : ∀ q, q ≠ p → (if vfio p then update s.setUp p true else s.setUp) q = s.setUp q := by
    intro q hq
    split
    · exact update_of_ne hq ..
    · rfl
  have hself : (if vfio p then update s.setUp p true else s.setUp) p = vfio p := by
    cases hv : vfio p with
    | false => exact h.unknown p hp
    | true => exact update_self ..
  rw [h.accounted.count] at hlimit
  have hmax : iokernelMaxProc = 2048 := rfl
  refine ⟨⟨?_, fun q => ?_⟩, hlimit, List.nodup_cons.2 ⟨hlive, h.nodup⟩, fun q hq => ?_, fun q hq => ?_,
    fun q hq => ?_⟩
  · show (s.nrClients + 1) % 2 ^ 32 = s.live.length + 1
    rw [h.accounted.count]
    omega
  · have hold := h.accounted.releases q
    by_cases hq : q = p
    · subst hq
      rw [h.unknown q hp, if_neg (by simp)] at hold
      exact hold.trans (if_neg fun hh => hh.1 List.mem_cons_self).symm
    · simp only [hset q hq, List.mem_cons, hq, false_or]
      exact hold
  · rcases List.mem_cons.1 hq with rfl | hq
    · exact List.mem_cons_self
    · exact List.mem_cons_of_mem _ (h.created q hq)
  · have hne : q ≠ p := fun heq => hq (heq ▸ List.mem_cons_self)
    show (if vfio p then update s.setUp p true else s.setUp) q = false
    rw [hset q hne]
    exact h.unknown q fun hin => hq (List.mem_cons_of_mem _ hin)
  · show (if vfio p then update s.setUp p true else s.setUp) q = vfio q
    rcases List.mem_cons.1 hq with rfl | hq
    · exact hself
    · rw [hset q fun heq => hlive (heq ▸ hq)]
      exact h.setUp q hq

theorem Inv.remove (h : Inv vfio s) (hp : p ∈ s.live) : Inv vfio (controlRemoveClient vfio s p) := by
  have hpos : 0 < s.live.length := List.length_pos_of_mem hp
  have hmax : iokernelMaxProc = 2048 := rfl
  have hbound := h.bounded
  have hfields : (controlRemoveClient vfio s p).nrClients = uintPred s.nrClients ∧
      (controlRemoveClient vfio s p).live = s.live.erase p ∧
      (controlRemoveClient vfio s p).created = s.created ∧
      (controlRemoveClient vfio s p).setUp = s.setUp := by
    rw [controlRemoveClient, controlDestroyProc]
    split <;> exact ⟨rfl, rfl, rfl, rfl⟩
  have hrel : ∀ q, (controlRemoveClient vfio s p).releases q =
      if q = p ∧ vfio p = true then s.releases q + 1 else s.releases q := by
    intro q
    cases hv : vfio p with
    | false => simp [controlRemoveClient, controlDestroyProc, hv]
    | true =>
      simp only [controlRemoveClient, controlDestroyProc, hv, ↓reduceIte, releaseDirectpathCtx,
        update_apply, and_true]
      split
      · rename_i hq
        rw [hq]
      · rfl
  obtain ⟨hcount, hlive, hcreated, hset⟩ := hfields
  refine ⟨⟨?_, fun q => ?_⟩, ?_, ?_, fun q hq => ?_, fun q hq => ?_, fun q hq => ?_⟩
  · rw [hcount, hlive, List.length_erase_of_mem hp, uintPred, h.accounted.count]
    omega
  · have hold := h.accounted.releases q
    rw [hrel, hlive, hset]
    by_cases hq : q = p
    · subst hq
      rw [if_neg fun hh => hh.1 hp] at hold
      simp [hold, h.setUp q hp, h.nodup.mem_erase_iff]
    · simp only [hq, false_and, ↓reduceIte, h.nodup.mem_erase_iff, ne_eq, not_false_eq_true, true_and]
      exact hold
  · rw [hlive, List.length_erase_of_mem hp]
    omega
  · rw [hlive]
    exact h.nodup.erase p
  · rw [hlive] at hq
    rw [hcreated]
    exact h.created q (List.mem_of_mem_erase hq)
  · rw [hcreated] at hq
    rw [hset]
    exact h.unknown q hq
  · rw [hlive] at hq
    rw [hset]
    exact h.setUp q (List.mem_of_mem_erase hq)

theorem Inv.step {s' : State P} {e : Event P} (h : Inv vfio s) (hok : noLateFailure vfio s e)
    (hstep : Control.step vfio s e = some s') : Inv vfio s' := by
  cases e with
  | add p r =>
    rw [Control.step] at hstep
    split at hstep
    · cases hstep
    · rename_i hp
      cases hstep
      rw [controlAddClient]
      split
      · rename_i hcreate
        rw [controlRegister_ok (hok hcreate)]
        exact h.add hp hcreate
      · exact h
  | remove p =>
    rw [Control.step] at hstep
    split at hstep
    · rename_i hp
      obtain rfl := Option.some.inj hstep
      exact h.remove hp
    · cases hstep

theorem noLateFailure_of_accounted {s' : State P} {e : Event P} (h : Inv vfio s)
    (hstep : Control.step vfio s e = some s') (h' : Accounted s') : noLateFailure vfio s e := by
  cases e with
  | add p r =>
    intro hcreate
    by_contra hfail
    rw [Control.step] at hstep
    split at hstep
    · cases hstep
    · cases hstep
      have hcount := h'.count
      rw [controlAddClient, if_pos hcreate] at hcount
      obtain ⟨hnr, hlive⟩ := controlRegister_fail (s := { s with created := p :: s.created }) hfail
      have hmax : iokernelMaxProc = 2048 := rfl
      have hbound := h.bounded
      have hold := h.accounted.count
      rw [hnr, hlive, uintPred] at hcount
      dsimp only at hcount
      omega
  | remove p => trivial

/-- In every run without a failure after `control_create_proc`, the counter is the number of live
processes and each context is released once; a further step keeps this exactly if none fails so. -/
theorem control_accounted_iff (vfio : P → Bool) {s : State P}
    (hreach : Reaches (Control.step vfio) (noLateFailure vfio) init s) :
    Accounted s ∧ ∀ e s', Control.step vfio s e = some s' →
      (Accounted s' ↔ noLateFailure vfio s e) := by
  have h : Inv vfio s :=
    hreach.invariant (P := Inv vfio) inv_init fun _ _ _ hu hok hst => hu.step hok hst
  exact ⟨h.accounted, fun e s' hst =>
    ⟨noLateFailure_of_accounted h hst, fun hok => (h.step hok hst).accounted⟩⟩

end Model

/-! ## One failed addition -/

def oddVfio (p : Nat) : Bool := p % 2 = 1

def allSucceed : Answers :=
  ⟨true, true, true, true, true, true, true, true, true, true, true, true, true⟩

theorem control_accounted_two :
    ∃ s : State Nat, Reaches (step oddVfio) (noLateFailure oddVfio) init s ∧
      s.nrClients = 1 ∧ s.releases 1 = 1 ∧ Accounted s := by
  obtain ⟨s, hreach, hnr, hrel⟩ : ∃ s, Reaches (step oddVfio) (noLateFailure oddVfio) init s ∧
      s.nrClients = 1 ∧ s.releases 1 = 1 :=
    exists_of_runChecked [.add 1 allSucceed, .add 2 allSucceed, .add 3 { allSucceed with createProc := false },
        .remove 1] (by decide)
  exact ⟨s, hreach, hnr, hrel, (control_accounted_iff oddVfio hreach).1⟩

/-- The descriptor of the first client's context cannot be sent.  The context is released twice,
the counter wraps, and the next client is refused. -/
theorem failed_addition_locks_out : ∃ s s' : State Nat, Reaches (step oddVfio) anyStep init s ∧
      s.live = [] ∧ s.nrClients = 2 ^ 32 - 1 ∧ s.setUp 1 = true ∧ s.releases 1 = 2 ∧
      step oddVfio s (.add 2 allSucceed) = some s' ∧ s'.live = [] := by
  have hrun : (runActions (step oddVfio) init [.add 1 { allSucceed with sendMemfd := false }]).bind
      (fun s => (step oddVfio s (.add 2 allSucceed)).map fun s' =>
        decide (s.live = [] ∧ s.nrClients = 2 ^ 32 - 1 ∧ s.setUp 1 = true ∧ s.releases 1 = 2 ∧
          s'.live = [])) = some true := by
    decide
  obtain ⟨s, hs, hrest⟩ := Option.bind_eq_some_iff.1 hrun
  obtain ⟨s', hs', hfacts⟩ := Option.map_eq_some_iff.1 hrest
  obtain ⟨h₁, h₂, h₃, h₄, h₅⟩ := of_decide_eq_true hfacts
  exact ⟨s, s', reaches_of_runActions hs, h₁, h₂, h₃, h₄, hs', h₅⟩

end Svalinn.Iokernel.Control
