/-
  Pcc/Controller.lean --- the PCC controller state machine.

  Source: `breakwater/src/pcc_server.c`, `srpc_update_credit_pool` with
  `decr_credit_pool`, `incr_credit_pool`, `update_credit_pool` and
  `srpc_pcc_gen_micro_exp_dirs`.

  One call of `srpc_update_credit_pool` that wins `srpc_pcc_lock` is one step.
  Everything it reads from outside is an input of the call (`CallIn`): the
  clock readings, the queueing delay, the memory counter, `rand`, the number of
  sessions, the credits in use, and the content of the local `update_dir`, which
  `SPCC_CTL_STATE_MAKE_DECISION` leaves uninitialised when both experiments saw
  the same load.  The utility comparison is computed in `double`; it is a
  parameter `comp`.

  Each round is meant to measure the pool one step above and one step below
  `srpc_pcc_orig_cp`.  The PREPARE state perturbs the pool it finds, and nothing
  puts the pool back between the two experiments, so the second one is measured
  at the first one's pool minus the first one's step (`Pcc/Rounds.lean`).
-/
import Svalinn.Lib.Transition
import Svalinn.Lib.Machine
import Svalinn.Pcc.Config

set_option autoImplicit false

namespace Svalinn.Pcc

open Svalinn.Lib Function

/-- `enum spcc_ctl_state`. -/
inductive CtlState where
  | prepareMicroExp
  | startMicroExp
  | endMicroExp
  | makeDecision
  deriving DecidableEq

/-- `enum spcc_dir`. -/
inductive Dir where
  | minus
  | stay
  | plus
  deriving DecidableEq

/-- The per-experiment counters and timestamps (one index of the
`srpc_pcc_*` arrays). -/
structure ExpStats where
  inReqs : Nat := 0
  outResps : Nat := 0
  goodOutResps : Nat := 0
  dropReqs : Nat := 0
  startTs : Nat := 0
  endTs : Nat := 0
  qdelay : Nat := 0
  memAccesses : Nat := 0
  deriving DecidableEq

/-- `struct spcc_micro_exp_stats` as MAKE_DECISION fills it. -/
structure MicroExpStats where
  duration : Nat
  inReqs : Nat
  outResps : Nat
  goodOutResps : Nat
  dropReqs : Nat
  qdelay : Nat
  memAccesses : Nat
  deriving DecidableEq

/-- The controller's variables; `stats` and `dirs` are indexed by experiment. -/
structure Ctl where
  creditPool : Int
  lastWakeup : Nat
  nextUpdate : Nat
  state : CtlState
  stats : Nat → ExpStats
  microExpId : Nat
  numMicroExps : Nat
  dirs : Nat → Int
  origCp : Int

/-- What a call reads from outside. -/
structure CallIn where
  /-- the first `microtime()` -/
  now : Nat
  /-- the `microtime()` the next deadline is computed from -/
  branchNow : Nat
  /-- the `microtime()`s of `srpc_pcc_start_ts` and `srpc_pcc_end_ts` -/
  startTs : Nat
  endTs : Nat
  /-- the `microtime()` of the epilogue -/
  exitNow : Nat
  queueUs : Nat
  memAccesses : Nat
  numSess : Int
  creditUsed : Int
  rand : Nat
  /-- what the uninitialised `update_dir` holds; `none` is no enumerator -/
  staleDir : Option Dir
  deriving DecidableEq

section Calls

variable (maxCores : Int) (comp : MicroExpStats → MicroExpStats → Dir)

/-- The two clamps: `MAX(new_cp, runtime_max_cores())`, then
`MIN(new_cp, num_sess << SPCC_MAX_WINDOW_EXP)`. -/
def clampPool (numSess x : Int) : Int := min (max x maxCores) (numSess * 2 ^ maxWindowExp)

/-- `decr_credit_pool`. -/
def decrCreditPool (numSess pool : Int) : Int := clampPool maxCores numSess (pool - epsilon)

/-- `incr_credit_pool`. -/
def incrCreditPool (numSess pool : Int) : Int := clampPool maxCores numSess (pool + epsilon)

/-- `update_credit_pool`. -/
def updateCreditPool (numSess pool dir : Int) : Int :=
  clampPool maxCores numSess (pool + dir * epsilon)

/-- `srpc_pcc_gen_micro_exp_dirs`. -/
def genMicroExpDirs (rand : Nat) (dirs : Nat → Int) : Nat → Int :=
  let d : Int := if rand % 2 = 0 then -1 else 1
  update (update dirs 1 d) 2 (-d)

/-- The statistics of experiment `i` as MAKE_DECISION reads them. -/
def Ctl.readStats (c : Ctl) (i : Nat) : MicroExpStats :=
  let e := c.stats i
  { duration := sub64 e.endTs e.startTs, inReqs := e.inReqs, outResps := e.outResps
    goodOutResps := e.goodOutResps, dropReqs := e.dropReqs, qdelay := e.qdelay
    memAccesses := e.memAccesses }

/-- The direction MAKE_DECISION arrives at; with equal loads it is whatever the
uninitialised variable holds. -/
def updateDir (s₁ s₂ : MicroExpStats) (stale : Option Dir) : Option Dir :=
  if s₁.inReqs = 0 ∨ s₂.inReqs = 0 then some .plus
  else if s₁.inReqs > s₂.inReqs then some (comp s₂ s₁)
  else if s₂.inReqs > s₁.inReqs then some (comp s₁ s₂)
  else stale

/-- The pool that MAKE_DECISION writes. -/
def decidedPool (i : CallIn) (pool : Int) : Option Dir → Int
  | some .minus => decrCreditPool maxCores i.numSess pool
  | some .stay =>
    if i.creditUsed < pool then decrCreditPool maxCores i.numSess pool else pool
  | some .plus =>
    if i.creditUsed ≥ pool then incrCreditPool maxCores i.numSess pool
    else decrCreditPool maxCores i.numSess pool
  | none => pool

/-- `SPCC_CTL_STATE_PREPARE_MICRO_EXP`. -/
def prepareMicroExp (c : Ctl) (i : CallIn) : Ctl :=
  { c with
    creditPool := updateCreditPool maxCores i.numSess c.creditPool (c.dirs (c.numMicroExps + 1))
    state := .startMicroExp
    nextUpdate := add64 i.branchNow preMiUs }

/-- `SPCC_CTL_STATE_START_MICRO_EXP`. -/
def startMicroExp (c : Ctl) (i : CallIn) : Ctl :=
  let id := c.numMicroExps + 1
  { c with
    stats := update c.stats id
      { startTs := i.startTs, endTs := i.endTs, qdelay := i.queueUs, memAccesses := i.memAccesses }
    microExpId := id
    state := .endMicroExp
    nextUpdate := add64 i.branchNow miUs }

/-- `SPCC_CTL_STATE_END_MICRO_EXP`. -/
def endMicroExp (c : Ctl) (i : CallIn) : Ctl :=
  let e := c.stats c.microExpId
  let c' : Ctl :=
    { c with
      stats := update c.stats c.microExpId
        { e with memAccesses := sub64 i.memAccesses e.memAccesses }
      microExpId := 0
      numMicroExps := c.numMicroExps + 1
      nextUpdate := i.branchNow }
  if c'.numMicroExps < maxNumMicroExps then { c' with state := .prepareMicroExp }
  else { c' with creditPool := c.origCp, state := .makeDecision }

/-- `SPCC_CTL_STATE_MAKE_DECISION`. -/
def makeDecision (c : Ctl) (i : CallIn) : Ctl :=
  let dir := updateDir comp (c.readStats 1) (c.readStats 2) i.staleDir
  let newCp := decidedPool maxCores i c.creditPool dir
  { c with
    creditPool := newCp
    numMicroExps := 0
    microExpId := 0
    dirs := genMicroExpDirs i.rand c.dirs
    origCp := newCp
    state := .prepareMicroExp
    nextUpdate := i.branchNow }

/-- The `switch`. -/
def drive (c : Ctl) (i : CallIn) : Ctl :=
  match c.state with
  | .prepareMicroExp => prepareMicroExp maxCores c i
  | .startMicroExp => startMicroExp c i
  | .endMicroExp => endMicroExp c i
  | .makeDecision => makeDecision maxCores comp c i

/-- Whether the branch taken sets `do_wakeup`. -/
def doWakeup (c : Ctl) : Bool :=
  match c.state with
  | .prepareMicroExp => true
  | .startMicroExp => false
  | .endMicroExp => ! decide (c.numMicroExps + 1 < maxNumMicroExps)
  | .makeDecision => true

/-- `srpc_update_credit_pool` once the lock is taken: the new controller and, if
the epilogue wakes sessions up, the argument of `wakeup_drained_session`. -/
def srpcUpdateCreditPool (c : Ctl) (i : CallIn) : Ctl × Option Int :=
  let due := ! decide (i.now < c.nextUpdate)
  let c' := if due then drive maxCores comp c i else c
  if (due && doWakeup c) || decide (sub64 i.exitNow c'.lastWakeup > rttUs) then
    ({ c' with lastWakeup := i.exitNow }, some (c'.creditPool - i.creditUsed))
  else (c', none)

/-- The controller as `srpc_listener` leaves it. -/
def ctlInit (now rand : Nat) : Ctl :=
  { creditPool := maxCores, lastWakeup := now, nextUpdate := now, state := .prepareMicroExp
    stats := fun _ => {}, microExpId := 0, numMicroExps := 0
    dirs := genMicroExpDirs rand (fun _ => 0), origCp := maxCores }

/-- A call at time `t` with one session, four credits in use and `rand` odd. -/
def callAt (t : Nat) : CallIn :=
  { now := t, branchNow := t, startTs := t, endTs := t, exitNow := t, queueUs := 0
    memAccesses := 0, numSess := 1, creditUsed := 4, rand := 1, staleDir := none }

end Calls

/-! ## Phases -/

/-- How far a round is: two experiments at most, and an id while one is measured. -/
def Ctl.Phased (c : Ctl) : Prop :=
  match c.state with
  | .prepareMicroExp | .startMicroExp => c.numMicroExps < maxNumMicroExps ∧ c.microExpId = 0
  | .endMicroExp => c.numMicroExps < maxNumMicroExps ∧ c.microExpId = c.numMicroExps + 1
  | .makeDecision => c.numMicroExps = maxNumMicroExps ∧ c.microExpId = 0

section Phases

variable {maxCores : Int} {comp : MicroExpStats → MicroExpStats → Dir}

theorem ctlInit_phased (now rand : Nat) : (ctlInit maxCores now rand).Phased := by
  exact ⟨Nat.zero_lt_two, rfl⟩

/-- A transition keeps the phases of a round. -/
theorem drive_phased {c : Ctl} (i : CallIn) (h : c.Phased) : (drive maxCores comp c i).Phased := by
  unfold Ctl.Phased at h
  unfold drive
  cases hst : c.state with
  | prepareMicroExp =>
    simp only [hst] at h
    exact h
  | startMicroExp =>
    simp only [hst] at h
    exact ⟨h.1, rfl⟩
  | endMicroExp =>
    simp only [hst] at h
    by_cases hmore : c.numMicroExps + 1 < maxNumMicroExps
    · simp [Ctl.Phased, endMicroExp, hmore]
    · have hlast : c.numMicroExps + 1 = maxNumMicroExps := by omega
      simp [Ctl.Phased, endMicroExp, hlast]
  | makeDecision => exact ⟨Nat.zero_lt_two, rfl⟩

/-- A call changes the controller by at most one transition of the `switch`; the
epilogue only stores the wake-up time. -/
theorem srpcUpdateCreditPool_cases (maxCores : Int) (comp : MicroExpStats → MicroExpStats → Dir)
    (c : Ctl) (i : CallIn) :
    ∃ t, (i.now < c.nextUpdate ∧
        (srpcUpdateCreditPool maxCores comp c i).1 = { c with lastWakeup := t }) ∨
      (c.nextUpdate ≤ i.now ∧ (srpcUpdateCreditPool maxCores comp c i).1 =
        { drive maxCores comp c i with lastWakeup := t }) := by
  unfold srpcUpdateCreditPool
  by_cases hdue : i.now < c.nextUpdate
  · simp only [hdue, decide_true, Bool.not_true, Bool.false_and, Bool.false_or, Bool.false_eq_true,
      if_false]
    split
    · exact ⟨i.exitNow, Or.inl ⟨trivial, rfl⟩⟩
    · exact ⟨c.lastWakeup, Or.inl ⟨trivial, rfl⟩⟩
  · simp only [hdue, decide_false, Bool.not_false, Bool.true_and, if_true]
    split
    · exact ⟨i.exitNow, Or.inr ⟨Nat.le_of_not_lt hdue, rfl⟩⟩
    · exact ⟨(drive maxCores comp c i).lastWakeup, Or.inr ⟨Nat.le_of_not_lt hdue, rfl⟩⟩

end Phases

end Svalinn.Pcc
