/-
  Iokernel/Sched.lean --- kthreads, cores and process references of the iokernel.

  Source: `iokernel/sched.c` (`sched_steer_flows`, `sched_enable_kthread`,
  `sched_disable_kthread`, `sched_pick_kthread`, `__sched_run`, `sched_run_on_core`,
  `sched_idle_on_core`, the fast pass of `sched_poll`, `sched_attach_proc`,
  `sched_detach_proc`), `iokernel/defs.h` (`proc_get`, `proc_put`, `poll_thread`,
  `unpoll_thread`), `iokernel/dp_clients.c` (`dp_clients_add_client`,
  `dp_clients_remove_client`) and the reference taken per packet in `iokernel/tx.c`.

  A kthread is named by its process and its index in `p->threads`.  The kernel module
  answers from outside: whether a context switch is done, whether a core is idle, and
  (through the runtime's shared memory) whether a parked kthread is woken again at once.
-/
import Mathlib.Algebra.Group.Nat.Defs
import Svalinn.Lib.SwapRemove
import Svalinn.Lib.Transition

set_option autoImplicit false

namespace Svalinn.Iokernel

open Svalinn.Lib Function

/-! ## Data -/

def ncpu : Nat := 256

/-- `UINT_MAX`, the core of a kthread that never ran. -/
def uintMax : Nat := 2 ^ 32 - 1

/-- The machine and the command line: `sched_cores_tbl`, `sched_siblings` and `cfg.noht`. -/
structure Machine where
  cores : List Nat
  siblings : Nat → Nat
  noht : Bool
  nodup : cores.Nodup
  lt_ncpu : ∀ c ∈ cores, c < ncpu

/-- A `struct thread *`. -/
structure ThreadPtr where
  proc : Nat
  idx : Nat
  deriving DecidableEq

/-- A message of a kthread's `rxq`. -/
structure RxMsg where
  cmd : Nat
  payload : Nat
  deriving DecidableEq

structure Thread where
  active : Bool
  nextPollTsc : Nat
  core : Nat
  atIdx : Nat
  /-- `none` for `UINT_MAX` -/
  tsIdx : Option Nat
  rxq : List RxMsg
  txpktq : List Nat
  deriving DecidableEq

/-- `struct sched_spec`, what a process asks for. -/
structure SchedSpec where
  isLc : Bool
  guaranteedCores : Nat
  maxCores : Nat
  htPunishUs : Nat
  qdelayUs : Nat
  quantumUs : Nat
  preferredSocket : Nat
  deriving DecidableEq

structure Proc where
  ref : Nat
  kill : Bool
  started : Bool
  nextPollTsc : Nat
  schedCfg : SchedSpec
  flowTbl : List Nat
  threadCount : Nat
  /-- `active_threads[0 .. active_thread_count)` -/
  activeThreads : List Nat
  idleThreads : List Nat
  nextThreadRr : Nat
  deriving DecidableEq

structure CoreState where
  lastTh : Option ThreadPtr
  pendingTh : Option ThreadPtr
  curTh : Option ThreadPtr
  idle : Bool
  pending : Bool
  wait : Bool
  deriving DecidableEq

structure Sched where
  state : Nat → CoreState
  procs : Nat → Proc
  threads : ThreadPtr → Thread
  /-- `ts[0 .. nrts)`, the kthreads whose queues are polled -/
  ts : List ThreadPtr
  /-- `dp.clients` -/
  clients : List Nat
  nrGuaranteed : Nat
  /-- the process of every TX buffer that the device has not completed -/
  inFlight : List Nat
  /-- set when `sched_disable_kthread` was applied to an inactive kthread -/
  disabledInactive : Bool

def Sched.modCore (s : Sched) (c : Nat) (f : CoreState → CoreState) : Sched :=
  { s with state := update s.state c (f (s.state c)) }

def Sched.modProc (s : Sched) (p : Nat) (f : Proc → Proc) : Sched :=
  { s with procs := update s.procs p (f (s.procs p)) }

def Sched.modThread (s : Sched) (th : ThreadPtr) (f : Thread → Thread) : Sched :=
  { s with threads := update s.threads th (f (s.threads th)) }

/-! ## References and the polling set -/

def procGet (s : Sched) (p : Nat) : Sched :=
  s.modProc p fun pr => { pr with ref := pr.ref + 1 }

/-- A process whose count reaches zero is given back to the control plane, which frees it. -/
def procPut (s : Sched) (p : Nat) : Sched :=
  s.modProc p fun pr => { pr with ref := pr.ref - 1 }

def pollThread (s : Sched) (th : ThreadPtr) : Sched :=
  match (s.threads th).tsIdx with
  | some _ => s
  | none =>
    let s := procGet s th.proc
    let n := s.ts.length
    { s.modThread th fun t => { t with tsIdx := some n } with ts := s.ts ++ [th] }

def unpollThread (s : Sched) (th : ThreadPtr) : Sched :=
  match (s.threads th).tsIdx with
  | none => s
  | some i =>
    let moved := s.ts.getLast?
    let s := { s with ts := swapRemove s.ts i }
    let s := match moved with
      | none   => s
      | some b => s.modThread b fun t => { t with tsIdx := some i }
    procPut (s.modThread th fun t => { t with tsIdx := none }) th.proc

/-! ## Enabling and disabling a kthread -/

/-- The second pass of `sched_steer_flows`: the other entries round-robin, from the
`j`-th active kthread on. -/
def steerRest (active : List Nat) : Nat → List Nat → List Nat
  | _, [] => []
  | j, i :: rest =>
    if i ∈ active then i :: steerRest active j rest
    else active.getD (j % active.length) 0 :: steerRest active (j + 1) rest

def schedSteerFlows (p : Proc) : List Nat :=
  if p.activeThreads = [] then p.flowTbl
  else steerRest p.activeThreads 0 (List.range p.threadCount)

/-- The part of `sched_enable_kthread` up to the flow table. -/
def markActive (s : Sched) (th : ThreadPtr) (core : Nat) : Sched :=
  let n := (s.procs th.proc).activeThreads.length
  let s := s.modThread th fun t =>
    { t with nextPollTsc := 0, active := true, core := core, atIdx := n }
  let s := s.modProc th.proc fun p =>
    { p with nextPollTsc := 0, idleThreads := p.idleThreads.erase th.idx,
             activeThreads := p.activeThreads ++ [th.idx], started := true }
  s.modProc th.proc fun p => { p with flowTbl := schedSteerFlows p }

def schedEnableKthread (s : Sched) (th : ThreadPtr) (core : Nat) : Sched :=
  pollThread (markActive s th core) th

/-- The part of `sched_disable_kthread` up to the flow table. -/
def markParked (s : Sched) (th : ThreadPtr) : Sched :=
  let i := (s.threads th).atIdx
  let moved := (s.procs th.proc).activeThreads.getLast?
  let s := { s with disabledInactive := s.disabledInactive || !(s.threads th).active }
  let s := s.modThread th fun t => { t with active := false }
  let s := match moved with
    | none   => s
    | some j => s.modThread ⟨th.proc, j⟩ fun t => { t with atIdx := i }
  let s := s.modProc th.proc fun p =>
    { p with activeThreads := swapRemove p.activeThreads i,
             idleThreads := th.idx :: p.idleThreads }
  s.modProc th.proc fun p => { p with flowTbl := schedSteerFlows p }

def schedDisableKthread (s : Sched) (th : ThreadPtr) : Sched :=
  let s := markParked s th
  if (s.threads th).txpktq = [] then unpollThread s th else s

/-- `sched_disable_kthread` and the `proc_put` that follows it at every call. -/
def retireKthread (s : Sched) (th : ThreadPtr) : Sched :=
  procPut (schedDisableKthread s th) th.proc

/-! ## Running kthreads on cores -/

/-- The kthread that ran on the core last, else on its sibling, else the one that has
been idle longest. -/
def schedPickKthread (m : Machine) (s : Sched) (p core : Nat) : Option ThreadPtr :=
  let idle := (s.procs p).idleThreads
  let ranOn := fun c => idle.find? fun i => (s.threads ⟨p, i⟩).core = c
  let sibling := if m.noht then none else ranOn (m.siblings core)
  (((ranOn core).or sibling).or idle.getLast?).map fun i => ⟨p, i⟩

def schedRun (s : Sched) (th : Option ThreadPtr) (core : Nat) : Sched :=
  let st := s.state core
  if st.wait then
    let s := match st.pendingTh with
      | none => s
      | some old => retireKthread s old
    s.modCore core fun st => { st with pendingTh := th, pending := true }
  else
    s.modCore core fun st =>
      { st with lastTh := st.curTh, curTh := th, wait := true, idle := false }

def schedRunOnCore (m : Machine) (s : Sched) (p core : Nat) : Option Sched :=
  if (s.procs p).idleThreads = [] ∨ ncpu ≤ core ∨ core ∉ m.cores then none
  else
    match schedPickKthread m s p core with
    | none => none
    | some th => some (schedRun (schedEnableKthread (procGet s th.proc) th core) (some th) core)

def schedIdleOnCore (m : Machine) (s : Sched) (core : Nat) : Option Sched :=
  if ncpu ≤ core ∨ core ∉ m.cores then none
  else some (schedRun s none core)

/-! ## The fast pass -/

/-- What the kernel module and the runtimes answer during one pass. -/
structure Answers where
  runDone : Nat → Bool
  pollIdle : Nat → Bool
  /-- `sched_try_fast_rewake` succeeds for the kthread on the core -/
  rewake : Nat → Bool

/-- After a context switch finished: the waiting kthread starts the next one. -/
def CoreState.switched (st : CoreState) : CoreState :=
  if st.pending then
    { st with pendingTh := none, pending := false, lastTh := st.curTh, curTh := st.pendingTh }
  else { st with wait := false }

def finishSwitch (a : Answers) (s : Sched) (core : Nat) : Sched :=
  let st := s.state core
  if st.wait ∧ a.runDone core then
    let s := match st.lastTh with
      | none => s
      | some th => (retireKthread s th).modCore core fun st => { st with lastTh := none }
    s.modCore core CoreState.switched
  else s

/-- The second test: a core that went idle.  The answer says whether the policy is told. -/
def detectIdle (a : Answers) (s : Sched) (core : Nat) : Sched × Bool :=
  let st := s.state core
  if !st.wait ∧ !st.idle ∧ a.pollIdle core then
    match st.curTh with
    | none => (s.modCore core fun st => { st with idle := true }, true)
    | some th =>
      if a.rewake core then
        (s.modCore (s.threads th).core fun st => { st with wait := true }, false)
      else
        ((retireKthread s th).modCore core fun st => { st with curTh := none, idle := true }, true)
  else (s, false)

def fastPass (a : Answers) : List Nat → Sched → Sched × List Nat
  | [], s => (s, [])
  | core :: rest, s =>
    let r := detectIdle a (finishSwitch a s core) core
    let out := fastPass a rest r.1
    (out.1, if r.2 then core :: out.2 else out.2)

/-! ## Clients -/

def initThread : Thread where
  active := false
  nextPollTsc := 0
  core := uintMax
  atIdx := uintMax
  tsIdx := none
  rxq := []
  txpktq := []

/-- A process as the control plane hands it over, after the first part of
`sched_attach_proc`: every kthread was added to the front of the idle list. -/
def createProc (s : Sched) (p n : Nat) (spec : SchedSpec) : Sched :=
  { s with
    procs := update s.procs p
      { ref := 1, kill := false, started := false, nextPollTsc := 0, schedCfg := spec
        flowTbl := List.replicate n 0, threadCount := n, activeThreads := []
        idleThreads := (List.range n).reverse, nextThreadRr := 0 }
    threads := fun th => if th.proc = p then initThread else s.threads th }

/-- `dp_clients_add_client` for the result `ok` of the policy. -/
def dpClientsAddClient (m : Machine) (s : Sched) (p n : Nat) (spec : SchedSpec) (ok : Bool) : Sched :=
  let s' := createProc s p n spec
  if spec.guaranteedCores + s.nrGuaranteed ≤ m.cores.length ∧ ok then
    { s' with clients := s'.clients ++ [p], nrGuaranteed := s'.nrGuaranteed + spec.guaranteedCores }
  else procPut s' p

/-- `dp_clients_remove_client` with `sched_detach_proc`. -/
def dpClientsRemoveClient (s : Sched) (p : Nat) : Sched :=
  let s := { s with clients := s.clients.erase p }
  let s := s.modProc p fun pr => { pr with kill := true }
  let s := { s with nrGuaranteed := s.nrGuaranteed - (s.procs p).schedCfg.guaranteedCores }
  procPut s p

/-! ## Packets -/

/-- One `lrpc_recv` of `tx_drain_queue`: a polled kthread without packets is unpolled if
it is parked. -/
def txPull (s : Sched) (th : ThreadPtr) : Sched :=
  match (s.threads th).txpktq with
  | [] => if (s.threads th).active then s else unpollThread s th
  | _ :: rest => s.modThread th fun t => { t with txpktq := rest }

/-- `tx_prepare_tx_mbuf` takes a reference until the packet's completion. -/
def txPrepare (s : Sched) (p : Nat) : Sched :=
  { procGet s p with inFlight := p :: s.inFlight }

def txComplete (s : Sched) (p : Nat) : Sched :=
  procPut { s with inFlight := s.inFlight.erase p } p

/-! ## The state machine -/

inductive SchedEvent where
  | addClient (p n : Nat) (spec : SchedSpec) (ok : Bool)
  | removeClient (p : Nat)
  | runOnCore (p core : Nat)
  | idleOnCore (core : Nat)
  | poll (a : Answers)
  | txEnqueue (th : ThreadPtr) (payload : Nat)
  | txPull (th : ThreadPtr)
  | txPrepare (p : Nat)
  | txComplete (p : Nat)

/-- One event.  A process is created in memory that no reference keeps, `sched_run_on_core`
is asked for an attached process, and packets are pulled from polled kthreads only. -/
def schedStep (m : Machine) (s : Sched) : SchedEvent → Option Sched
  | .addClient p n spec ok =>
    if (s.procs p).ref = 0 ∧ 0 < n ∧ n ≤ ncpu then some (dpClientsAddClient m s p n spec ok)
    else none
  | .removeClient p => if p ∈ s.clients then some (dpClientsRemoveClient s p) else none
  | .runOnCore p core => if p ∈ s.clients then schedRunOnCore m s p core else none
  | .idleOnCore core => schedIdleOnCore m s core
  | .poll a => some (fastPass a m.cores s).1
  | .txEnqueue th payload =>
    if th.idx < (s.procs th.proc).threadCount then
      some (s.modThread th fun t => { t with txpktq := t.txpktq ++ [payload] })
    else none
  | .txPull th => if th ∈ s.ts then some (txPull s th) else none
  | .txPrepare p => some (txPrepare s p)
  | .txComplete p => if p ∈ s.inFlight then some (txComplete s p) else none

def idleCore : CoreState where
  lastTh := none
  pendingTh := none
  curTh := none
  idle := false
  pending := false
  wait := false

def noProc : Proc where
  ref := 0
  kill := false
  started := false
  nextPollTsc := 0
  schedCfg := ⟨false, 0, 0, 0, 0, 0, 0⟩
  flowTbl := []
  threadCount := 0
  activeThreads := []
  idleThreads := []
  nextThreadRr := 0

/-- The iokernel after `sched_init`: zeroed core states and no client. -/
def schedInit : Sched where
  state := fun _ => idleCore
  procs := fun _ => noProc
  threads := fun _ => initThread
  ts := []
  clients := []
  nrGuaranteed := 0
  inFlight := []
  disabledInactive := false

end Svalinn.Iokernel
