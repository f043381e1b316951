/-
  Iokernel/Refs.lean --- reference counts of processes across the two planes.

  Source: `proc_get`, `proc_put`, `poll_thread`, `unpoll_thread` (`iokernel/defs.h`),
  `proc_release`, `dp_clients_add_client`, `dp_clients_remove_client`
  (`iokernel/dp_clients.c`), `tx_drain_queue`, `tx_burst`, `tx_prepare_tx_mbuf`,
  `tx_send_completion` (`iokernel/tx.c`), `sched_enable_kthread`, `sched_disable_kthread`
  (`iokernel/sched.c`) and the control thread (`iokernel/control.c`).

  The two planes run concurrently and share the two message queues and the word that
  holds the flags of a process.  A write of one flag is a load of that word and a later
  store, so that each plane can store over what the other has written in between.

  A process is named by the number of processes created before it: a pointer that is
  handed out again by `malloc` is a new process.  Its messages come after the messages of
  the old one in the same queue.
-/
import Mathlib.Data.List.Nodup
import Svalinn.Iokernel.Sched

set_option autoImplicit false

namespace Svalinn.Iokernel.Refs

open Svalinn.Lib Function List

/-! ## The model -/

/-- The flags of `struct proc` that are written after its creation; they share a word. -/
structure Flags where
  kill : Bool
  attachFail : Bool
  removed : Bool
  started : Bool
  deriving DecidableEq

/-- The flags after `memset`. -/
def noFlags : Flags := ⟨false, false, false, false⟩

/-- A message of `lrpc_control_to_data`. -/
inductive Command where
  | addClient (p : Nat)
  | removeClient (p : Nat)
  deriving DecidableEq

/-- The writes of the dataplane to the flags of a process, each with the part of its
function that follows. -/
inductive Job where
  /-- `sched_attach_proc` succeeded; `ok` if the rest of `dp_clients_add_client` does -/
  | attach (ok : Bool)
  /-- `sched_attach_proc` failed -/
  | refuse
  /-- a later step of `dp_clients_add_client` failed -/
  | fail
  /-- the end of `dp_clients_remove_client` -/
  | detach
  | start
  deriving DecidableEq

def Job.write : Job → Flags → Flags
  | .attach _, f => { f with kill := false }
  | .refuse, f => { f with attachFail := true }
  | .fail, f => { f with attachFail := true }
  | .detach, f => { f with kill := true }
  | .start, f => { f with started := true }

inductive Dataplane where
  | idle
  | flags (p : Nat) (job : Job) (reg : Option Flags)
  /-- in the first loop of `tx_burst`, with the processes of the packets pulled so far -/
  | pulling (pkts : List Nat)
  /-- in the second loop of `tx_burst` -/
  | preparing (pkts : List Nat)
  deriving DecidableEq

/-- The counts, what follows from them, and whether a count has risen from 0. -/
structure Ledger where
  ref : Nat → Int
  /-- the `CONTROL_PLANE_REMOVE_CLIENT` messages sent for a process -/
  sent : Nat → Nat
  /-- `lrpc_data_to_control` -/
  toControl : List Nat
  /-- the calls of `control_destroy_proc` for a process -/
  destroyed : Nat → Nat
  risen : Nat → Bool

def refInit (L : Ledger) (p : Nat) : Ledger :=
  { L with ref := update L.ref p 1 }

def procGet (L : Ledger) (p : Nat) : Ledger :=
  { L with
    ref := update L.ref p (L.ref p + 1)
    risen := update L.risen p (L.risen p || decide (L.ref p ≤ 0)) }

def procRelease (L : Ledger) (p : Nat) : Ledger :=
  { L with
    toControl := L.toControl ++ [p]
    sent := update L.sent p (L.sent p + 1) }

def procPut (L : Ledger) (p : Nat) : Ledger :=
  let L' := { L with ref := update L.ref p (L.ref p - 1) }
  if L.ref p - 1 = 0 then procRelease L' p else L'

/-- `control_destroy_proc` for the first message of the queue. -/
def controlDestroyProc (L : Ledger) (p : Nat) : Ledger :=
  { L with
    toControl := L.toControl.tail
    destroyed := update L.destroyed p (L.destroyed p + 1) }

structure State where
  nprocs : Nat
  ledger : Ledger
  flags : Nat → Flags
  /-- `dp.clients` -/
  clients : List Nat
  /-- the kthreads with `th->active` -/
  active : List ThreadPtr
  /-- the kthreads polled by `tx_burst` -/
  ts : List ThreadPtr
  /-- the number of packets in the `txpktq` of a kthread -/
  txpktq : ThreadPtr → Nat
  /-- the processes of the mbufs that were prepared and not completed since -/
  inFlight : List Nat
  dp : Dataplane
  /-- `n_pkts - n_bufs` between two calls of `tx_burst` -/
  carried : Nat
  toData : List Command
  /-- the control thread has loaded the flags of a process whose runtime hung up -/
  ctl : Option (Nat × Flags)
  /-- the calls of `close` for the control socket of a process -/
  closed : Nat → Nat

def init : State where
  nprocs := 0
  ledger := ⟨fun _ => 0, fun _ => 0, [], fun _ => 0, fun _ => false⟩
  flags := fun _ => noFlags
  clients := []
  active := []
  ts := []
  txpktq := fun _ => 0
  inFlight := []
  dp := .idle
  carried := 0
  toData := []
  ctl := none
  closed := fun _ => 0

/-! ### The control thread -/

/-- `control_add_client` with its calls succeeding. -/
def controlAddClient (s : State) : State :=
  { s with
    nprocs := s.nprocs + 1
    ledger := refInit s.ledger s.nprocs
    flags := update s.flags s.nprocs noFlags
    toData := s.toData ++ [.addClient s.nprocs] }

/-- `control_instruct_dataplane_to_remove_client` after its load of the flags. -/
def controlInstructDataplaneToRemoveClient (s : State) (p : Nat) (f : Flags) : State :=
  { s with
    flags := update s.flags p { f with removed := true }
    toData := s.toData ++ [.removeClient p]
    closed := update s.closed p (s.closed p + 1)
    ctl := none }

/-- `control_remove_client` for the first message of the queue. -/
def controlRemoveClient (s : State) (p : Nat) : State :=
  { s with
    closed := if (s.flags p).removed then s.closed
      else update s.closed p (s.closed p + 1)
    ledger := controlDestroyProc s.ledger p }

/-! ### The dataplane -/

def pollThread (s : State) (t : ThreadPtr) : State :=
  if t ∈ s.ts then s
  else { s with ledger := procGet s.ledger t.proc, ts := s.ts ++ [t] }

def unpollThread (s : State) (t : ThreadPtr) : State :=
  if t ∈ s.ts then { s with ledger := procPut s.ledger t.proc, ts := s.ts.erase t }
  else s

/-- `dp_clients_remove_client` up to its write of `kill`; a process that is not in the
table is left alone. -/
def dpClientsRemoveClient (s : State) (p : Nat) : State :=
  if p ∈ s.clients then { s with clients := s.clients.erase p, dp := .flags p .detach none }
  else { s with dp := .idle }

/-- The store of a flag, and what the function that writes it does next. -/
def storeFlags (s : State) (p : Nat) (job : Job) (f : Flags) : State :=
  let s := { s with flags := update s.flags p (job.write f) }
  match job with
  | .attach true => { s with clients := s.clients ++ [p], dp := .idle }
  | .attach false => { s with clients := s.clients ++ [p], dp := .flags p .fail none }
  | .refuse => { s with ledger := procPut s.ledger p, dp := .idle }
  | .fail => dpClientsRemoveClient s p
  | .detach => { s with ledger := procPut s.ledger p, dp := .idle }
  | .start => { s with dp := .idle }

/-- `proc_get` and `sched_enable_kthread` of `sched_run_on_core`. -/
def schedEnableKthread (s : State) (t : ThreadPtr) : State :=
  let s := { s with ledger := procGet s.ledger t.proc, active := s.active ++ [t] }
  let s := pollThread s t
  if (s.flags t.proc).started then s else { s with dp := .flags t.proc .start none }

/-- `sched_disable_kthread` and the `proc_put` that follows each of its calls. -/
def schedDisableKthread (s : State) (t : ThreadPtr) : State :=
  let s := { s with active := s.active.erase t }
  let s := if s.txpktq t = 0 then unpollThread s t else s
  { s with ledger := procPut s.ledger t.proc }

/-- One `lrpc_recv` of `tx_drain_queue`. -/
def txDrainQueue (s : State) (pkts : List Nat) (t : ThreadPtr) : State :=
  if s.txpktq t = 0 then
    if t ∈ s.active then s else unpollThread s t
  else { s with
    txpktq := update s.txpktq t (s.txpktq t - 1)
    dp := .pulling (pkts ++ [t.proc]) }

def txPrepareTxMbuf (s : State) (p : Nat) (pkts : List Nat) : State :=
  { s with
    ledger := procGet s.ledger p
    inFlight := s.inFlight ++ [p]
    dp := .preparing pkts }

/-- `tx_send_completion`; `full` if the completion could neither be sent nor queued, in
which case a runtime that is still registered keeps its mbuf. -/
def txSendCompletion (s : State) (p : Nat) (full : Bool) : State :=
  if full ∧ (s.flags p).kill = false then s
  else { s with ledger := procPut s.ledger p, inFlight := s.inFlight.erase p }

/-! ### The steps -/

inductive Event where
  | connect
  /-- the control thread takes the hangup of a runtime and loads its flags -/
  | hangup (p : Nat)
  | instruct
  | removeClient
  /-- whether `sched_attach_proc` succeeds, and whether the steps after it do -/
  | recvAdd (attached ok : Bool)
  | recvRemove
  | load
  | store
  | enable (t : ThreadPtr)
  | disable (t : ThreadPtr)
  | transmit (t : ThreadPtr)
  /-- the entries of `threads` for packets that an earlier call pulled and did not prepare -/
  | beginBurst (junk : List Nat)
  | pull (t : ThreadPtr)
  /-- `rte_mempool_get_bulk` -/
  | allocate (ok : Bool)
  | prepare
  | send
  | complete (p : Nat) (full : Bool)
  deriving DecidableEq

-- Which kthread `tx_burst` pulls from next and how often, and which kthread a policy
-- enables, is left open; a policy only enables kthreads of the clients it is attached to.
def step (s : State) : Event → Option State
  | .connect => if s.ctl = none then some (controlAddClient s) else none
  | .hangup p =>
    if s.ctl = none ∧ p < s.nprocs ∧ s.closed p = 0 then
      some { s with ctl := some (p, s.flags p) }
    else none
  | .instruct =>
    match s.ctl with
    | some (p, f) => some (controlInstructDataplaneToRemoveClient s p f)
    | none => none
  | .removeClient =>
    match s.ctl, s.ledger.toControl with
    | none, p :: _ => some (controlRemoveClient s p)
    | _, _ => none
  | .recvAdd attached ok =>
    match s.dp, s.toData with
    | .idle, .addClient p :: rest =>
      some { s with
        toData := rest
        dp := .flags p (if attached then .attach ok else .refuse) none }
    | _, _ => none
  | .recvRemove =>
    match s.dp, s.toData with
    | .idle, .removeClient p :: rest =>
      some (dpClientsRemoveClient { s with toData := rest } p)
    | _, _ => none
  | .load =>
    match s.dp with
    | .flags p job none => some { s with dp := .flags p job (some (s.flags p)) }
    | _ => none
  | .store =>
    match s.dp with
    | .flags p job (some f) => some (storeFlags s p job f)
    | _ => none
  | .enable t =>
    if s.dp = .idle ∧ t.proc ∈ s.clients ∧ t ∉ s.active then some (schedEnableKthread s t)
    else none
  | .disable t =>
    if s.dp = .idle ∧ t ∈ s.active then some (schedDisableKthread s t) else none
  | .transmit t => some { s with txpktq := update s.txpktq t (s.txpktq t + 1) }
  | .beginBurst junk =>
    if s.dp = .idle ∧ junk.length = s.carried then
      some { s with dp := .pulling junk, carried := 0 }
    else none
  | .pull t =>
    match s.dp with
    | .pulling pkts => if t ∈ s.ts then some (txDrainQueue s pkts t) else none
    | _ => none
  | .allocate ok =>
    match s.dp with
    | .pulling pkts =>
      if ok then some { s with dp := .preparing pkts }
      else some { s with dp := .idle, carried := pkts.length }
    | _ => none
  | .prepare =>
    match s.dp with
    | .preparing (p :: pkts) => some (txPrepareTxMbuf s p pkts)
    | _ => none
  | .send =>
    match s.dp with
    | .preparing [] => some { s with dp := .idle }
    | _ => none
  | .complete p full =>
    if s.dp = .idle ∧ p ∈ s.inFlight then some (txSendCompletion s p full) else none

/-! ## What the counts stand for -/

/-- The kthreads of process `p` in a list. -/
def kthreadsOf (l : List ThreadPtr) (p : Nat) : Nat := l.countP (fun t => decide (t.proc = p))

def Job.keeps : Job → Bool
  | .attach _ => true
  | .refuse => true
  | .fail => false
  | .detach => true
  | .start => false

/-- The dataplane holds the first reference of `p` in the middle of a function. -/
def Dataplane.keeps : Dataplane → Nat → Nat
  | .flags q job _, p => if q = p ∧ job.keeps = true then 1 else 0
  | _, _ => 0

/-- The reference of `ref_init`, dropped when a process is refused or removed. -/
def base (s : State) (p : Nat) : Nat :=
  s.toData.count (.addClient p) + s.clients.count p + s.dp.keeps p

/-- The references of active kthreads, of polled kthreads and of packets in flight. -/
def uses (s : State) (p : Nat) : Nat :=
  kthreadsOf s.active p + kthreadsOf s.ts p + s.inFlight.count p

def Joins (toData : List Command) (clients : List Nat) (dp : Dataplane) (p : Nat) : Prop :=
  .addClient p ∈ toData ∨ p ∈ clients ∨ ∃ ok reg, dp = .flags p (.attach ok) reg

structure Sound (s : State) : Prop where
  noRise : ∀ p, s.ledger.risen p = false
  sentOnce : ∀ p, s.ledger.sent p = if p < s.nprocs ∧ s.ledger.ref p = 0 then 1 else 0
  unheld : ∀ p, p < s.nprocs → base s p = 0 → uses s p = 0 → s.ledger.sent p = 1
  destroyedOnce : ∀ p, s.ledger.destroyed p + s.ledger.toControl.count p = s.ledger.sent p
  closedOnce : ∀ p,
    s.closed p = if (s.flags p).removed = true ∨ s.ledger.destroyed p ≠ 0 then 1 else 0
  hangupSeen : ∀ p, (s.flags p).removed = true →
    .removeClient p ∈ s.toData ∨ ¬ Joins s.toData s.clients s.dp p

/-- The packet about to be prepared is of a process that is referenced. -/
def prepareReferenced (L : Ledger) : Dataplane → Bool
  | .preparing (p :: _) => decide (0 < L.ref p)
  | _ => true

/-- The store of the dataplane does not undo the control thread's write of `removed`. -/
def storeCurrent (flags : Nat → Flags) : Dataplane → Bool
  | .flags p _ (some f) => f.removed == (flags p).removed
  | _ => true

/-- Packets are prepared while their process is referenced, and the dataplane stores the
flags of a process with `removed` as the control thread has written it. -/
def Undisturbed (s : State) : Event → Prop
  | .prepare => prepareReferenced s.ledger s.dp = true
  | .store => storeCurrent s.flags s.dp = true
  | _ => True

instance (s : State) : (e : Event) → Decidable (Undisturbed s e)
  | .prepare => inferInstanceAs (Decidable (prepareReferenced s.ledger s.dp = true))
  | .store => inferInstanceAs (Decidable (storeCurrent s.flags s.dp = true))
  | .connect | .hangup _ | .instruct | .removeClient | .recvAdd _ _ | .recvRemove | .load
  | .enable _ | .disable _ | .transmit _ | .beginBurst _ | .pull _ | .allocate _ | .send
  | .complete _ _ => inferInstanceAs (Decidable True)

/-! ## The ledger -/

section Ledger

variable {n p : Nat} {L : Ledger} {b b' u u' : Nat → Nat}

/-- The counts are those of the references held, first references `b` and others `u`. -/
structure Counted (n : Nat) (L : Ledger) (b u : Nat → Nat) : Prop where
  noRise : ∀ p, L.risen p = false
  sentOnce : ∀ p, L.sent p = if p < n ∧ L.ref p = 0 then 1 else 0
  destroyedOnce : ∀ p, L.destroyed p + L.toControl.count p = L.sent p
  counted : ∀ p, L.ref p = ((b p + u p : Nat) : Int)
  first : ∀ p, b p ≤ 1
  fresh : ∀ p, n ≤ p → b p + u p = 0

theorem Counted.pos_of_base (h : Counted n L b u) (hp : 0 < b p) : 0 < L.ref p := by
  rw [h.counted p]
  omega

theorem Counted.pos_of_uses (h : Counted n L b u) (hp : 0 < u p) : 0 < L.ref p := by
  rw [h.counted p]
  omega

theorem Counted.lt_of_pos (h : Counted n L b u) (hp : 0 < L.ref p) : p < n := by
  by_contra hge
  have h0 := h.fresh p (by omega)
  have hc := h.counted p
  omega

theorem Counted.destroyed_of_pos (h : Counted n L b u) (hp : 0 < L.ref p) : L.destroyed p = 0 := by
  have hs := h.sentOnce p
  rw [if_neg (by omega)] at hs
  have hd := h.destroyedOnce p
  omega

theorem Counted.congr (h : Counted n L b u) (hb : ∀ q, b' q = b q) (hu : ∀ q, u' q = u q) :
    Counted n L b' u' := by
  obtain rfl : b' = b := funext hb
  obtain rfl : u' = u := funext hu
  exact h

theorem Counted.get (h : Counted n L b u) (hp : 0 < L.ref p)
    (hb : ∀ q, b' q = b q) (hu : ∀ q, u' q = u q + if p = q then 1 else 0) :
    Counted n (procGet L p) b' u' := by
  have hlt := h.lt_of_pos hp
  obtain ⟨h₁, h₂, h₃, h₄, h₅, h₆⟩ := h
  refine ⟨?_, ?_, h₃, ?_, ?_, ?_⟩ <;> intro q
  all_goals simp only [procGet, update_apply, hb, hu]
  · grind
  · grind
  · grind
  · exact h₅ q
  · grind

theorem procPut_destroyed : (procPut L p).destroyed = L.destroyed := by
  unfold procPut
  split <;> rfl

theorem procPut_ref : (procPut L p).ref = update L.ref p (L.ref p - 1) := by
  unfold procPut
  split <;> rfl

theorem procPut_risen : (procPut L p).risen = L.risen := by
  unfold procPut
  split <;> rfl

theorem procPut_sent (q : Nat) :
    (procPut L p).sent q = L.sent q + if q = p ∧ L.ref p = 1 then 1 else 0 := by
  unfold procPut procRelease
  split <;> simp only [update_apply] <;> grind

theorem procPut_count (q : Nat) : (procPut L p).toControl.count q =
    L.toControl.count q + if q = p ∧ L.ref p = 1 then 1 else 0 := by
  unfold procPut procRelease
  split
  · rw [count_append, count_singleton]
    grind
  · grind

theorem Counted.put (h : Counted n L b u) (hp : 0 < L.ref p) (hb : ∀ q, b' q ≤ b q)
    (heq : ∀ q, b q + u q = b' q + u' q + if p = q then 1 else 0) :
    Counted n (procPut L p) b' u' := by
  have hlt := h.lt_of_pos hp
  obtain ⟨h₁, h₂, h₃, h₄, h₅, h₆⟩ := h
  refine ⟨?_, ?_, ?_, ?_, ?_, ?_⟩ <;> intro q
  all_goals have he := heq q
  · rw [procPut_risen]
    exact h₁ q
  · rw [procPut_sent, procPut_ref, h₂, update_apply]
    grind
  · rw [procPut_destroyed, procPut_count, procPut_sent, ← h₃ q]
    omega
  · rw [procPut_ref, update_apply]
    grind
  · exact Nat.le_trans (hb q) (h₅ q)
  · grind

theorem Counted.create (h : Counted n L b u) (hb : ∀ q, b' q = b q + if n = q then 1 else 0) :
    Counted (n + 1) (refInit L n) b' u := by
  have h0 := h.fresh n (Nat.le_refl n)
  obtain ⟨h₁, h₂, h₃, h₄, h₅, h₆⟩ := h
  refine ⟨h₁, ?_, h₃, ?_, ?_, ?_⟩ <;> intro q
  all_goals simp only [refInit, update_apply, hb]
  all_goals grind

theorem Counted.destroy {rest : List Nat} (h : Counted n L b u) (hL : L.toControl = p :: rest) :
    Counted n (controlDestroyProc L p) b u := by
  refine ⟨h.noRise, h.sentOnce, ?_, h.counted, h.first, h.fresh⟩
  intro q
  have hq := h.destroyedOnce q
  rw [hL, count_cons] at hq
  simp only [controlDestroyProc, hL, tail_cons, update_apply]
  grind

theorem Counted.destroyed_of_mem {rest : List Nat} (h : Counted n L b u)
    (hL : L.toControl = p :: rest) : L.destroyed p = 0 := by
  have hd := h.destroyedOnce p
  have hs := h.sentOnce p
  rw [hL, count_cons_self] at hd
  split at hs <;> omega

end Ledger

/-! ## Sockets and commands -/

section Planes

variable {n p : Nat} {removed removed' : Nat → Bool} {closed destroyed : Nat → Nat}
  {ctl : Option (Nat × Flags)} {toData rest : List Command} {clients : List Nat} {dp : Dataplane}

structure Sockets (n : Nat) (removed : Nat → Bool) (closed destroyed : Nat → Nat)
    (ctl : Option (Nat × Flags)) : Prop where
  closedOnce : ∀ p, closed p = if removed p = true ∨ destroyed p ≠ 0 then 1 else 0
  fresh : ∀ p, n ≤ p → removed p = false
  /-- the socket of a runtime that hung up is open until the control thread closes it -/
  hung : ∀ p f, ctl = some (p, f) → p < n ∧ closed p = 0

theorem Sockets.instruct {f : Flags} (h : Sockets n removed closed destroyed ctl)
    (hctl : ctl = some (p, f)) (hp : removed' p = true)
    (hne : ∀ q, q ≠ p → removed' q = removed q) :
    Sockets n removed' (update closed p (closed p + 1)) destroyed none := by
  obtain ⟨hlt, h0⟩ := h.hung p f hctl
  refine ⟨?_, ?_, fun _ _ hc => nomatch hc⟩ <;> intro q
  · by_cases hq : q = p
    · subst hq
      rw [update_self, if_pos (.inl hp), h0]
    · rw [update_of_ne hq, hne q hq]
      exact h.closedOnce q
  · intro hge
    rw [hne q (by omega)]
    exact h.fresh q hge

theorem Sockets.destroy (h : Sockets n removed closed destroyed none) (h0 : destroyed p = 0) :
    Sockets n removed (if removed p then closed else update closed p (closed p + 1))
      (update destroyed p (destroyed p + 1)) none := by
  refine ⟨?_, h.fresh, fun _ _ hc => nomatch hc⟩
  intro q
  have hq := h.closedOnce q
  by_cases hqp : q = p
  · subst hqp
    rw [h0] at hq
    have hone : (if removed q then closed else update closed q (closed q + 1)) q = 1 := by
      cases hr : removed q <;> simp [hq, hr]
    rw [hone]
    simp
  · rw [update_of_ne hqp, ← hq]
    split
    · rfl
    · exact update_of_ne hqp ..

structure Commands (n : Nat) (toData : List Command) (clients : List Nat) (dp : Dataplane)
    (removed : Nat → Bool) : Prop where
  fifo : toData.Pairwise (fun m m' => ∀ p, m = .removeClient p → m' ≠ .addClient p)
  fresh : ∀ p, n ≤ p → .removeClient p ∉ toData
  seen : ∀ p, removed p = true → .removeClient p ∈ toData ∨ ¬ Joins toData clients dp p
  /-- the process of a write that does not hold its first reference is a client -/
  client : ∀ p job reg, dp = .flags p job reg → job.keeps = false → p ∈ clients
  /-- `removed` is only ever set -/
  reg : ∀ p job f, dp = .flags p job (some f) → f.removed = true → removed p = true

variable {dp' : Dataplane} {job : Job} {ok : Bool} {reg : Option Flags}

section

variable (h : Commands n toData clients dp removed)

include h

theorem Commands.goto
    (hattach : ∀ p ok reg, dp' = .flags p (.attach ok) reg → ∃ reg, dp = .flags p (.attach ok) reg)
    (hclient : ∀ p job reg, dp' = .flags p job reg → job.keeps = false → p ∈ clients)
    (hreg : ∀ p job f, dp' = .flags p job (some f) → f.removed = true → removed p = true) :
    Commands n toData clients dp' removed := by
  refine ⟨h.fifo, h.fresh, ?_, hclient, hreg⟩
  intro q hq
  refine (h.seen q hq).imp_right (fun hn hj => hn ?_)
  refine hj.imp_right (Or.imp_right ?_)
  rintro ⟨ok, reg, hdp⟩
  exact ⟨ok, hattach q ok reg hdp⟩

theorem Commands.quiet
    (hdp : ∀ p job reg, dp' ≠ .flags p job reg) : Commands n toData clients dp' removed :=
  h.goto (fun p ok reg he => absurd he (hdp p (.attach ok) reg))
    (fun p job reg he => absurd he (hdp p job reg))
    (fun p job f he => absurd he (hdp p job (some f)))

theorem Commands.connect (hn : removed n = false) :
    Commands (n + 1) (toData ++ [.addClient n]) clients dp removed := by
  refine ⟨?_, ?_, ?_, h.client, h.reg⟩
  · refine pairwise_append.2 ⟨h.fifo, pairwise_singleton .., ?_⟩
    intro m hm m' hm' p hp heq
    obtain rfl := mem_singleton.1 hm'
    obtain rfl := Command.addClient.inj heq
    exact h.fresh n (Nat.le_refl n) (hp ▸ hm)
  · intro q hq hmem
    refine h.fresh q (by omega) ?_
    simpa using hmem
  · intro q hq
    refine (h.seen q hq).imp (mem_append_left _) (fun hno hj => hno ?_)
    refine hj.imp_left (fun hmem => ?_)
    rcases mem_append.1 hmem with hold | hnew
    · exact hold
    · obtain rfl := Command.addClient.inj (mem_singleton.1 hnew)
      rw [hn] at hq
      cases hq

theorem Commands.instruct (hp : p < n)
    (hrem : removed' p = true) (hne : ∀ q, q ≠ p → removed' q = removed q) :
    Commands n (toData ++ [.removeClient p]) clients dp removed' := by
  refine ⟨?_, ?_, ?_, h.client, ?_⟩
  · refine pairwise_append.2 ⟨h.fifo, pairwise_singleton .., ?_⟩
    intro m _ m' hm' q _ heq
    rw [mem_singleton.1 hm'] at heq
    cases heq
  · intro q hq hmem
    rcases mem_append.1 hmem with hold | hnew
    · exact h.fresh q hq hold
    · obtain rfl := Command.removeClient.inj (mem_singleton.1 hnew)
      omega
  · intro q hq
    by_cases hqp : q = p
    · exact .inl (mem_append_right _ (mem_singleton.2 (congrArg _ hqp)))
    · rw [hne q hqp] at hq
      refine (h.seen q hq).imp (mem_append_left _) (fun hno hj => hno ?_)
      refine hj.imp_left (fun hmem => ?_)
      simpa using hmem
  · intro q job f hdp hf
    by_cases hqp : q = p
    · rw [hqp]
      exact hrem
    · rw [hne q hqp]
      exact h.reg q job f hdp hf

end

theorem Commands.recvAdd (h : Commands n (.addClient p :: rest) clients .idle removed)
    (hkeeps : job.keeps = true) : Commands n rest clients (.flags p job none) removed := by
  refine ⟨(pairwise_cons.1 h.fifo).2, ?_, ?_, ?_, ?_⟩
  · intro q hq hmem
    exact h.fresh q hq (mem_cons_of_mem _ hmem)
  · intro q hq
    refine (h.seen q hq).imp ?_ (fun hno hj => hno ?_)
    · intro hmem
      simpa using hmem
    · rcases hj with hmem | hmem | ⟨ok, reg, hdp⟩
      · exact .inl (mem_cons_of_mem _ hmem)
      · exact .inr (.inl hmem)
      · obtain ⟨rfl, _, _⟩ := Dataplane.flags.inj hdp
        exact .inl mem_cons_self
  · intro q job' reg hdp hk
    obtain ⟨_, rfl, _⟩ := Dataplane.flags.inj hdp
    rw [hkeeps] at hk
    cases hk
  · intro q job' f hdp
    cases hdp

theorem Commands.not_added (h : Commands n (.removeClient p :: rest) clients dp removed) :
    .addClient p ∉ rest :=
  fun hmem => (pairwise_cons.1 h.fifo).1 _ hmem p rfl rfl

theorem Commands.recvRemove {clients' : List Nat}
    (h : Commands n (.removeClient p :: rest) clients .idle removed)
    (hp : p ∉ clients') (hsub : ∀ q, q ∈ clients' → q ∈ clients)
    (hdp : dp = .idle ∨ dp = .flags p .detach none) :
    Commands n rest clients' dp removed := by
  have hattach : ∀ q ok reg, dp ≠ .flags q (.attach ok) reg := by
    intro q ok reg
    rcases hdp with rfl | rfl <;> nofun
  refine ⟨(pairwise_cons.1 h.fifo).2, ?_, ?_, ?_, ?_⟩
  · intro q hq hmem
    exact h.fresh q hq (mem_cons_of_mem _ hmem)
  · intro q hq
    by_cases hqp : q = p
    · subst hqp
      refine .inr ?_
      rintro (hmem | hmem | ⟨ok, reg, he⟩)
      · exact h.not_added hmem
      · exact hp hmem
      · exact hattach q ok reg he
    · refine (h.seen q hq).imp ?_ (fun hno hj => hno ?_)
      · intro hmem
        simpa [hqp] using hmem
      · rcases hj with hmem | hmem | ⟨ok, reg, he⟩
        · exact .inl (mem_cons_of_mem _ hmem)
        · exact .inr (.inl (hsub q hmem))
        · exact absurd he (hattach q ok reg)
  · intro q job reg he hk
    rcases hdp with rfl | rfl
    · cases he
    · cases he
      cases hk
  · intro q job f he
    rcases hdp with rfl | rfl <;> cases he

theorem Commands.attach (h : Commands n toData clients (.flags p (.attach ok) reg) removed)
    (hdp : dp = .idle ∨ dp = .flags p .fail none) :
    Commands n toData (clients ++ [p]) dp removed := by
  refine ⟨h.fifo, h.fresh, ?_, ?_, ?_⟩
  · intro q hq
    refine (h.seen q hq).imp_right (fun hno hj => hno ?_)
    rcases hj with hmem | hmem | ⟨ok, reg, he⟩
    · exact .inl hmem
    · rcases mem_append.1 hmem with hold | hnew
      · exact .inr (.inl hold)
      · obtain rfl := mem_singleton.1 hnew
        exact .inr (.inr ⟨_, _, rfl⟩)
    · rcases hdp with rfl | rfl <;> cases he
  · intro q job reg he _
    rcases hdp with rfl | rfl
    · cases he
    · cases he
      exact mem_append_right _ mem_cons_self
  · intro q job f he
    rcases hdp with rfl | rfl <;> cases he

theorem Commands.fail (h : Commands n toData clients (.flags p .fail reg) removed) :
    Commands n toData (clients.erase p) (.flags p .detach none) removed := by
  refine ⟨h.fifo, h.fresh, ?_, ?_, ?_⟩
  · intro q hq
    refine (h.seen q hq).imp_right (fun hno hj => hno ?_)
    rcases hj with hmem | hmem | ⟨ok, reg, he⟩
    · exact .inl hmem
    · exact .inr (.inl (mem_of_mem_erase hmem))
    · cases he
  · intro q job reg he hk
    cases he
    cases hk
  · intro q job f he
    cases he

end Planes

/-! ## The steps keep the accounts -/

section Counting

variable {α : Type} [DecidableEq α] {l : List α} {a : α}

theorem count_append_single (q : α) : (l ++ [a]).count q = l.count q + if a = q then 1 else 0 := by
  rw [count_append, count_singleton]
  simp only [beq_iff_eq]

theorem count_cons_ite (q : α) : (a :: l).count q = l.count q + if a = q then 1 else 0 := by
  rw [count_cons]
  simp only [beq_iff_eq]

theorem count_erase_add (h : a ∈ l) (q : α) :
    l.count q = (l.erase a).count q + if a = q then 1 else 0 := by
  rw [(perm_cons_erase h).count_eq q]
  exact count_cons_ite q

theorem kthreadsOf_append (l : List ThreadPtr) (t : ThreadPtr) (q : Nat) :
    kthreadsOf (l ++ [t]) q = kthreadsOf l q + if t.proc = q then 1 else 0 := by
  unfold kthreadsOf
  rw [countP_append, countP_singleton]
  simp only [decide_eq_true_eq]

theorem kthreadsOf_erase {l : List ThreadPtr} {t : ThreadPtr} (h : t ∈ l) (q : Nat) :
    kthreadsOf l q = kthreadsOf (l.erase t) q + if t.proc = q then 1 else 0 := by
  unfold kthreadsOf
  rw [(perm_cons_erase h).countP_eq, countP_cons]
  simp only [decide_eq_true_eq]

end Counting

section Keeps

variable {p : Nat} {job : Job} {reg : Option Flags}

theorem keeps_idle (q : Nat) : Dataplane.idle.keeps q = 0 := rfl

theorem keeps_of_keeps (hjob : job.keeps = true) (q : Nat) :
    (Dataplane.flags p job reg).keeps q = if p = q then 1 else 0 := by
  simp only [Dataplane.keeps, hjob, and_true]

theorem keeps_of_not_keeps (hjob : job.keeps = false) (q : Nat) :
    (Dataplane.flags p job reg).keeps q = 0 :=
  if_neg (fun hk => Bool.false_ne_true (hjob.symm.trans hk.2))

end Keeps

variable {s s' : State} {p : Nat} {t : ThreadPtr}

structure Inv (s : State) : Prop where
  counts : Counted s.nprocs s.ledger (base s) (uses s)
  sockets : Sockets s.nprocs (fun p => (s.flags p).removed) s.closed s.ledger.destroyed s.ctl
  commands : Commands s.nprocs s.toData s.clients s.dp (fun p => (s.flags p).removed)

theorem Inv.sound (h : Inv s) : Sound s where
  noRise := h.counts.noRise
  sentOnce := h.counts.sentOnce
  unheld := by
    intro p hp hb hu
    have hc := h.counts.counted p
    rw [h.counts.sentOnce p, if_pos ⟨hp, by omega⟩]
  destroyedOnce := h.counts.destroyedOnce
  closedOnce := h.sockets.closedOnce
  hangupSeen := h.commands.seen

theorem inv_init : Inv init where
  counts := ⟨fun _ => rfl, fun _ => by simp [init], fun _ => rfl, fun _ => rfl,
    fun _ => Nat.zero_le _, fun _ _ => rfl⟩
  sockets := ⟨fun _ => by simp [init, noFlags], fun _ _ => rfl, nofun⟩
  commands := ⟨List.Pairwise.nil, fun _ _ => not_mem_nil, nofun, nofun, nofun⟩

section

variable (h : Inv s)

include h

theorem Inv.pos_of_client (hp : p ∈ s.clients) : 0 < s.ledger.ref p := by
  refine h.counts.pos_of_base ?_
  have hc := count_pos_iff.2 hp
  unfold base
  omega

theorem Inv.pos_of_writing {job : Job} {reg : Option Flags}
    (hdp : s.dp = .flags p job reg) : 0 < s.ledger.ref p := by
  cases hk : job.keeps with
  | false => exact h.pos_of_client (h.commands.client p job reg hdp hk)
  | true =>
    have hone : s.dp.keeps p = 1 := by
      rw [hdp, keeps_of_keeps hk, if_pos rfl]
    refine h.counts.pos_of_base ?_
    unfold base
    omega

/-! ### The control thread -/

theorem Inv.connect : Inv (controlAddClient s) := by
  have hn : (s.flags s.nprocs).removed = false := h.sockets.fresh _ (Nat.le_refl _)
  have hflags : (fun p => ((controlAddClient s).flags p).removed) =
      fun p => (s.flags p).removed := by
    funext p
    dsimp only [controlAddClient]
    by_cases hp : p = s.nprocs
    · rw [hp, update_self, hn]
      rfl
    · rw [update_of_ne hp]
  refine ⟨?_, ?_, ?_⟩
  · refine h.counts.create ?_
    intro q
    dsimp only [base, controlAddClient]
    rw [count_append_single]
    simp only [Command.addClient.injEq]
    omega
  · rw [hflags]
    refine ⟨h.sockets.closedOnce, ?_, ?_⟩
    · intro p hp
      exact h.sockets.fresh p (Nat.le_of_succ_le hp)
    · intro p f hctl
      obtain ⟨hlt, h0⟩ := h.sockets.hung p f hctl
      exact ⟨Nat.lt_succ_of_lt hlt, h0⟩
  · rw [hflags]
    exact h.commands.connect hn

theorem Inv.hangup (hp : p < s.nprocs) (hopen : s.closed p = 0) :
    Inv { s with ctl := some (p, s.flags p) } := by
  refine ⟨h.counts, ⟨h.sockets.closedOnce, h.sockets.fresh, ?_⟩, h.commands⟩
  intro q f hq
  cases hq
  exact ⟨hp, hopen⟩

theorem Inv.instruct {f : Flags} (hctl : s.ctl = some (p, f)) :
    Inv (controlInstructDataplaneToRemoveClient s p f) := by
  have hself : (update s.flags p { f with removed := true } p).removed = true := by
    rw [update_self]
  have hne : ∀ q, q ≠ p →
      (update s.flags p { f with removed := true } q).removed = (s.flags q).removed := by
    intro q hq
    rw [update_of_ne hq]
  refine ⟨?_, h.sockets.instruct hctl hself hne,
    h.commands.instruct (h.sockets.hung p f hctl).1 hself hne⟩
  refine h.counts.congr ?_ (fun _ => rfl)
  intro q
  dsimp only [base, controlInstructDataplaneToRemoveClient]
  rw [count_append_single, if_neg nofun]
  rfl

theorem Inv.removeClient {rest : List Nat} (hctl : s.ctl = none)
    (hto : s.ledger.toControl = p :: rest) : Inv (controlRemoveClient s p) := by
  have hs := h.sockets
  rw [hctl] at hs
  refine ⟨h.counts.destroy hto, ?_, h.commands⟩
  have hd := hs.destroy (h.counts.destroyed_of_mem hto)
  rw [← hctl] at hd
  exact hd

/-! ### The dataplane -/

theorem Inv.quiet {d : Dataplane} (hkeeps : ∀ q, d.keeps q = s.dp.keeps q)
    (hdp : ∀ p job reg, d ≠ .flags p job reg) (carried : Nat) :
    Inv { s with dp := d, carried := carried } := by
  refine ⟨h.counts.congr ?_ (fun _ => rfl), h.sockets, h.commands.quiet hdp⟩
  intro q
  dsimp only [base]
  rw [hkeeps]

theorem Inv.recvAdd {rest : List Command} {job : Job} (hdp : s.dp = .idle)
    (hto : s.toData = .addClient p :: rest) (hjob : job.keeps = true) :
    Inv { s with toData := rest, dp := .flags p job none } := by
  have hc := h.commands
  rw [hdp, hto] at hc
  refine ⟨?_, h.sockets, hc.recvAdd hjob⟩
  refine h.counts.congr ?_ (fun _ => rfl)
  intro q
  dsimp only [base]
  rw [hdp, hto, count_cons_ite, keeps_of_keeps hjob, keeps_idle]
  simp only [Command.addClient.injEq]
  omega

theorem Inv.recvRemove {rest : List Command} (hdp : s.dp = .idle)
    (hto : s.toData = .removeClient p :: rest) :
    Inv (dpClientsRemoveClient { s with toData := rest } p) := by
  have hc := h.commands
  rw [hdp, hto] at hc
  have hcount : ∀ q, rest.count (.addClient q) = s.toData.count (.addClient q) := by
    intro q
    rw [hto, count_cons_ite, if_neg nofun]
    rfl
  unfold dpClientsRemoveClient
  dsimp only
  by_cases hp : p ∈ s.clients
  · rw [if_pos hp]
    have hfirst : s.clients.count p ≤ 1 := by
      have hb := h.counts.first p
      unfold base at hb
      omega
    have hgone : p ∉ s.clients.erase p := by
      have he := count_erase_add hp p
      rw [if_pos rfl] at he
      rw [← count_eq_zero]
      omega
    refine ⟨?_, h.sockets, hc.recvRemove hgone (fun q => mem_of_mem_erase) (.inr rfl)⟩
    refine h.counts.congr ?_ (fun _ => rfl)
    intro q
    dsimp only [base]
    rw [hcount, count_erase_add hp q, hdp, keeps_of_keeps rfl, keeps_idle]
    omega
  · rw [if_neg hp]
    refine ⟨?_, h.sockets, hc.recvRemove hp (fun q hq => hq) (.inl rfl)⟩
    refine h.counts.congr ?_ (fun _ => rfl)
    intro q
    dsimp only [base]
    rw [hcount, hdp]

theorem Inv.load {job : Job} (hdp : s.dp = .flags p job none) :
    Inv { s with dp := .flags p job (some (s.flags p)) } := by
  refine ⟨?_, h.sockets, h.commands.goto ?_ ?_ ?_⟩
  · refine h.counts.congr ?_ (fun _ => rfl)
    intro q
    dsimp only [base]
    rw [hdp]
    rfl
  · intro q ok reg he
    cases he
    exact ⟨none, hdp⟩
  · intro q job' reg he hk
    cases he
    exact h.commands.client p job none hdp hk
  · intro q job' f he hf
    cases he
    exact hf

theorem Inv.write {f : Flags} (hf : f.removed = (s.flags p).removed) :
    Inv { s with flags := update s.flags p f } := by
  have hflags : (fun q => (update s.flags p f q).removed) = fun q => (s.flags q).removed := by
    funext q
    by_cases hq : q = p
    · rw [hq, update_self, hf]
    · rw [update_of_ne hq]
  refine ⟨h.counts, ?_, ?_⟩ <;> dsimp only
  · rw [hflags]
    exact h.sockets
  · rw [hflags]
    exact h.commands

end

theorem Job.write_removed (job : Job) (f : Flags) : (job.write f).removed = f.removed := by
  cases job <;> rfl

theorem Inv.drop {job : Job} {reg : Option Flags} (h : Inv s) (hdp : s.dp = .flags p job reg)
    (hjob : job.keeps = true) : Inv { s with ledger := procPut s.ledger p, dp := .idle } := by
  refine ⟨?_, ?_, h.commands.quiet nofun⟩
  · refine h.counts.put (h.pos_of_writing hdp) ?_ ?_ <;> intro q
    · dsimp only [base]
      rw [keeps_idle]
      omega
    · dsimp only [base, uses]
      rw [hdp, keeps_of_keeps hjob, keeps_idle]
      omega
  · have hs := h.sockets
    rw [← procPut_destroyed (p := p)] at hs
    exact hs

theorem Inv.attach {ok : Bool} {reg : Option Flags} {dp : Dataplane} (h : Inv s)
    (hdp : s.dp = .flags p (.attach ok) reg) (hnext : dp = .idle ∨ dp = .flags p .fail none) :
    Inv { s with clients := s.clients ++ [p], dp := dp } := by
  have hc := h.commands
  rw [hdp] at hc
  refine ⟨?_, h.sockets, hc.attach hnext⟩
  refine h.counts.congr ?_ (fun _ => rfl)
  intro q
  have hnone : dp.keeps q = 0 := by
    rcases hnext with rfl | rfl
    · rfl
    · exact keeps_of_not_keeps rfl q
  dsimp only [base]
  rw [count_append_single, hnone, hdp, keeps_of_keeps rfl]
  omega

theorem Inv.fail {reg : Option Flags} (h : Inv s) (hdp : s.dp = .flags p .fail reg) :
    Inv (dpClientsRemoveClient s p) := by
  have hp : p ∈ s.clients := h.commands.client p .fail reg hdp rfl
  have hc := h.commands
  rw [hdp] at hc
  unfold dpClientsRemoveClient
  rw [if_pos hp]
  refine ⟨?_, h.sockets, hc.fail⟩
  refine h.counts.congr ?_ (fun _ => rfl)
  intro q
  dsimp only [base]
  rw [count_erase_add hp q, hdp, keeps_of_keeps rfl, keeps_of_not_keeps rfl]
  omega

theorem Inv.store {job : Job} {f : Flags} (h : Inv s) (hdp : s.dp = .flags p job (some f))
    (hf : f.removed = (s.flags p).removed) : Inv (storeFlags s p job f) := by
  have hw := h.write (f := job.write f) ((job.write_removed f).trans hf)
  unfold storeFlags
  cases job with
  | attach ok =>
    cases ok with
    | true => exact hw.attach hdp (.inl rfl)
    | false => exact hw.attach hdp (.inr rfl)
  | refuse | detach => exact hw.drop hdp rfl
  | fail => exact hw.fail hdp
  | start =>
    refine hw.quiet (d := .idle) ?_ (fun _ _ _ he => nomatch he) s.carried
    intro q
    dsimp only
    rw [hdp, keeps_of_not_keeps rfl, keeps_idle]

/-! ### Kthreads and packets -/

theorem Inv.get (h : Inv s) (hp : 0 < s.ledger.ref p) (active ts : List ThreadPtr)
    (inFlight : List Nat)
    (hu : ∀ q, uses { s with active := active, ts := ts, inFlight := inFlight } q =
      uses s q + if p = q then 1 else 0) :
    Inv { s with
      ledger := procGet s.ledger p, active := active, ts := ts, inFlight := inFlight } :=
  ⟨h.counts.get hp (fun _ => rfl) hu, h.sockets, h.commands⟩

theorem Inv.put (h : Inv s) (active ts : List ThreadPtr) (inFlight : List Nat) (hu : ∀ q, uses s q =
      uses { s with active := active, ts := ts, inFlight := inFlight } q + if p = q then 1 else 0) :
    Inv { s with
      ledger := procPut s.ledger p, active := active, ts := ts, inFlight := inFlight } := by
  refine ⟨?_, ?_, h.commands⟩
  · have hp := hu p
    rw [if_pos rfl] at hp
    refine h.counts.put (h.counts.pos_of_uses (by omega)) (fun _ => Nat.le_refl _) ?_
    intro q
    have hq := hu q
    dsimp only [base, uses] at hq ⊢
    omega
  · have hs := h.sockets
    rw [← procPut_destroyed (p := p)] at hs
    exact hs

theorem Inv.poll (h : Inv s) (ht : 0 < s.ledger.ref t.proc) : Inv (pollThread s t) := by
  unfold pollThread
  split
  · exact h
  · refine h.get ht s.active (s.ts ++ [t]) s.inFlight ?_
    intro q
    dsimp only [uses]
    rw [kthreadsOf_append]
    omega

theorem Inv.unpoll (h : Inv s) : Inv (unpollThread s t) := by
  unfold unpollThread
  split
  · rename_i ht
    refine h.put s.active (s.ts.erase t) s.inFlight ?_
    intro q
    dsimp only [uses]
    rw [kthreadsOf_erase ht q]
    omega
  · exact h

theorem pollThread_clients : (pollThread s t).clients = s.clients := by
  unfold pollThread
  split <;> rfl

theorem pollThread_dp : (pollThread s t).dp = s.dp := by
  unfold pollThread
  split <;> rfl

theorem Inv.enable (h : Inv s) (hdp : s.dp = .idle) (ht : t.proc ∈ s.clients) :
    Inv (schedEnableKthread s t) := by
  have hget : Inv { s with ledger := procGet s.ledger t.proc, active := s.active ++ [t] } := by
    refine h.get (h.pos_of_client ht) (s.active ++ [t]) s.ts s.inFlight ?_
    intro q
    dsimp only [uses]
    rw [kthreadsOf_append]
    omega
  have hpoll := hget.poll (t := t) (hget.pos_of_client ht)
  have hclient := pollThread_clients (t := t)
    (s := { s with ledger := procGet s.ledger t.proc, active := s.active ++ [t] })
  have hidle := pollThread_dp (t := t)
    (s := { s with ledger := procGet s.ledger t.proc, active := s.active ++ [t] })
  unfold schedEnableKthread
  dsimp only
  generalize pollThread { s with ledger := procGet s.ledger t.proc, active := s.active ++ [t] } t =
    s₁ at hpoll hclient hidle
  split
  · exact hpoll
  · refine ⟨?_, hpoll.sockets, hpoll.commands.goto ?_ ?_ ?_⟩
    · refine hpoll.counts.congr ?_ (fun _ => rfl)
      intro q
      dsimp only [base]
      rw [hidle, hdp, keeps_of_not_keeps rfl, keeps_idle]
    · intro q ok reg he
      cases he
    · intro q job reg he _
      cases he
      rw [hclient]
      exact ht
    · intro q job f he
      cases he

/-- The two references that `sched_disable_kthread` and its caller drop are of one process,
so that their order does not matter. -/
theorem schedDisableKthread_eq : schedDisableKthread s t =
    let s₁ := { s with ledger := procPut s.ledger t.proc, active := s.active.erase t }
    if s.txpktq t = 0 then unpollThread s₁ t else s₁ := by
  unfold schedDisableKthread unpollThread
  dsimp only
  split
  · split <;> rfl
  · rfl

theorem Inv.disable (h : Inv s) (ht : t ∈ s.active) : Inv (schedDisableKthread s t) := by
  have hput : Inv { s with ledger := procPut s.ledger t.proc, active := s.active.erase t } := by
    refine h.put (s.active.erase t) s.ts s.inFlight ?_
    intro q
    dsimp only [uses]
    rw [kthreadsOf_erase ht q]
    omega
  rw [schedDisableKthread_eq]
  dsimp only
  split
  · exact hput.unpoll
  · exact hput

theorem Inv.pull {pkts : List Nat} (h : Inv s) (hdp : s.dp = .pulling pkts) :
    Inv (txDrainQueue s pkts t) := by
  unfold txDrainQueue
  split
  · split
    · exact h
    · exact h.unpoll
  · refine ⟨?_, h.sockets, h.commands.quiet (fun _ _ _ he => nomatch he)⟩
    refine h.counts.congr ?_ (fun _ => rfl)
    intro q
    dsimp only [base]
    rw [hdp]
    rfl

theorem Inv.prepare {pkts : List Nat} (h : Inv s) (hdp : s.dp = .preparing (p :: pkts))
    (hp : 0 < s.ledger.ref p) : Inv (txPrepareTxMbuf s p pkts) := by
  have hget : Inv { s with ledger := procGet s.ledger p, inFlight := s.inFlight ++ [p] } := by
    refine h.get hp s.active s.ts (s.inFlight ++ [p]) ?_
    intro q
    dsimp only [uses]
    rw [count_append_single]
    omega
  refine hget.quiet (d := .preparing pkts) ?_ (fun _ _ _ he => nomatch he) s.carried
  intro q
  dsimp only
  rw [hdp]
  rfl

theorem Inv.complete {full : Bool} (h : Inv s) (hp : p ∈ s.inFlight) :
    Inv (txSendCompletion s p full) := by
  unfold txSendCompletion
  split
  · exact h
  · refine h.put s.active s.ts (s.inFlight.erase p) ?_
    intro q
    dsimp only [uses]
    rw [count_erase_add hp q]
    omega

/-! ## Every run -/

theorem Inv.keeps {e : Event} (h : Inv s) (hok : Undisturbed s e) (hstep : step s e = some s') :
    Inv s' := by
  revert hstep
  -- the cases without a step go away; the others have their result in place of `s'`
  fun_cases step s e <;> rintro ⟨⟩
  case case1 => exact h.connect
  case case3 hc => exact h.hangup hc.2.1 hc.2.2
  case case5 hctl => exact h.instruct hctl
  case case7 hto hctl => exact h.removeClient hctl hto
  case case9 attached _ _ _ hto hdp =>
    refine h.recvAdd hdp hto ?_
    cases attached <;> rfl
  case case11 hto hdp => exact h.recvRemove hdp hto
  case case13 hdp => exact h.load hdp
  case case15 hdp =>
    refine h.store hdp ?_
    have hcur : storeCurrent s.flags s.dp = true := hok
    rw [hdp] at hcur
    exact eq_of_beq hcur
  case case17 hc => exact h.enable hc.1 hc.2.1
  case case19 hc => exact h.disable hc.2
  case case21 => exact ⟨h.counts, h.sockets, h.commands⟩
  case case22 junk hc =>
    refine h.quiet (d := .pulling junk) ?_ (fun _ _ _ he => nomatch he) 0
    intro q
    rw [hc.1]
    rfl
  case case24 hdp _ => exact h.pull hdp
  case case27 pkts hdp =>
    refine h.quiet (d := .preparing pkts) ?_ (fun _ _ _ he => nomatch he) s.carried
    intro q
    rw [hdp]
    rfl
  case case28 pkts hdp _ =>
    refine h.quiet (d := .idle) ?_ (fun _ _ _ he => nomatch he) pkts.length
    intro q
    rw [hdp]
    rfl
  case case30 hdp =>
    refine h.prepare hdp ?_
    have hcur : prepareReferenced s.ledger s.dp = true := hok
    rw [hdp] at hcur
    exact of_decide_eq_true hcur
  case case32 hdp =>
    refine h.quiet (d := .idle) ?_ (fun _ _ _ he => nomatch he) s.carried
    intro q
    rw [hdp]
    rfl
  case case34 hc => exact h.complete hc.2

/-- A packet prepared for a process without references revives it. -/
theorem not_sound_of_prepare {pkts : List Nat} (hp : s.ledger.ref p ≤ 0) :
    ¬ Sound (txPrepareTxMbuf s p pkts) := by
  intro hs
  have hr := hs.noRise p
  dsimp only [txPrepareTxMbuf, procGet] at hr
  rw [update_self, decide_eq_true hp, Bool.or_true] at hr
  cases hr

theorem storeFlags_frame (s : State) (p : Nat) (job : Job) (f : Flags) :
    (storeFlags s p job f).closed = s.closed ∧
    (storeFlags s p job f).ledger.destroyed = s.ledger.destroyed ∧
    (storeFlags s p job f).flags = update s.flags p (job.write f) := by
  unfold storeFlags dpClientsRemoveClient
  dsimp only
  split
  case h_4 => split <;> exact ⟨rfl, rfl, rfl⟩
  case h_3 => exact ⟨rfl, procPut_destroyed, rfl⟩
  case h_5 => exact ⟨rfl, procPut_destroyed, rfl⟩
  all_goals exact ⟨rfl, rfl, rfl⟩

/-- A store that undoes the write of `removed` leaves the socket to be closed again. -/
theorem Inv.not_sound_of_store {job : Job} {f : Flags} (h : Inv s)
    (hdp : s.dp = .flags p job (some f)) (hf : f.removed ≠ (s.flags p).removed) :
    ¬ Sound (storeFlags s p job f) := by
  intro hs
  have hset : (s.flags p).removed = true ∧ f.removed = false := by
    have hreg := h.commands.reg p job f hdp
    cases hr : f.removed with
    | true => exact absurd (hr.trans (hreg hr).symm) hf
    | false =>
      rw [hr] at hf
      exact ⟨by simpa using hf, rfl⟩
  have h0 := h.counts.destroyed_of_pos (h.pos_of_writing hdp)
  have hbefore := h.sockets.closedOnce p
  have hafter := hs.closedOnce p
  rw [if_pos (.inl hset.1)] at hbefore
  obtain ⟨hclosed, hdestroyed, hflags⟩ := storeFlags_frame s p job f
  rw [hclosed, hdestroyed, hflags, update_self, job.write_removed, hset.2, h0,
    if_neg (by simp), hbefore] at hafter
  cases hafter

theorem Inv.undisturbed {e : Event} (h : Inv s) (hstep : step s e = some s') (hs : Sound s') :
    Undisturbed s e := by
  cases e with
  | prepare =>
    unfold Undisturbed prepareReferenced
    dsimp only
    split
    · rename_i p pkts hdp
      unfold step at hstep
      dsimp only at hstep
      rw [hdp] at hstep
      cases hstep
      by_contra hneg
      refine not_sound_of_prepare ?_ hs
      simpa using hneg
    · rfl
  | store =>
    unfold Undisturbed storeCurrent
    dsimp only
    split
    · rename_i p job f hdp
      unfold step at hstep
      dsimp only at hstep
      rw [hdp] at hstep
      cases hstep
      by_contra hneg
      refine h.not_sound_of_store hdp ?_ hs
      simpa using hneg
    · rfl
  | connect | hangup | instruct | removeClient | recvAdd | recvRemove | load | enable | disable
  | transmit | beginBurst | pull | allocate | send | complete => exact trivial

/-- As long as packets are prepared while their process is referenced and the dataplane's stores
keep `removed`, each process is released, destroyed and closed once; the step that breaks the
condition breaks this. -/
theorem references_sound_iff {s : State} (hreach : Reaches step Undisturbed init s) :
    Sound s ∧ ∀ e s', step s e = some s' → (Sound s' ↔ Undisturbed s e) := by
  have hinv : Inv s :=
    hreach.invariant inv_init (fun _ _ _ hu hok hstep => hu.keeps hok hstep)
  exact ⟨hinv.sound, fun e s' hstep =>
    ⟨hinv.undisturbed hstep, fun hok => (hinv.keeps hok hstep).sound⟩⟩

/-- A runtime that attaches, runs a kthread, sends a packet, exits and parks. -/
def lifetime : List Event :=
  [.connect, .recvAdd true true, .load, .store, .enable ⟨0, 0⟩, .load, .store, .transmit ⟨0, 0⟩,
    .beginBurst [], .pull ⟨0, 0⟩, .allocate true, .prepare, .send, .hangup 0, .instruct,
    .recvRemove, .load, .store, .disable ⟨0, 0⟩, .complete 0 true, .removeClient]

/-- The process of `lifetime` is destroyed and its socket closed once. -/
theorem references_sound_lifetime : ∃ s, Reaches step Undisturbed init s ∧
    (Sound s ∧ ∀ e s', step s e = some s' → (Sound s' ↔ Undisturbed s e)) ∧
    s.ledger.destroyed 0 = 1 ∧ s.closed 0 = 1 := by
  obtain ⟨s, hreach, hp⟩ : ∃ s, Reaches step Undisturbed init s ∧
      s.ledger.destroyed 0 = 1 ∧ s.closed 0 = 1 :=
    exists_of_runChecked lifetime (by decide)
  exact ⟨s, hreach, references_sound_iff hreach, hp⟩

/-- The kthread of a runtime that exited is parked with a packet left. `tx_burst` pulls it and
drops the last reference, and the packet is prepared after that. -/
def latePrepare : List Event :=
  [.connect, .recvAdd true true, .load, .store, .enable ⟨0, 0⟩, .load, .store, .transmit ⟨0, 0⟩,
    .hangup 0, .instruct, .recvRemove, .load, .store, .disable ⟨0, 0⟩,
    .beginBurst [], .pull ⟨0, 0⟩, .pull ⟨0, 0⟩, .removeClient, .allocate true, .prepare, .send,
    .complete 0 false, .removeClient]

/-- A runtime exits while the dataplane attaches it: the store of `kill` undoes the write
of `removed`. -/
def lostRemoved : List Event :=
  [.connect, .recvAdd true true, .load, .hangup 0, .instruct, .store, .recvRemove, .load, .store,
    .removeClient]

/-- In the first run a process is revived, released twice and destroyed twice, in the
second its socket is closed twice. -/
theorem released_process_revived :
    (∃ s, Reaches step anyStep init s ∧ s.ledger.risen 0 = true ∧ s.ledger.sent 0 = 2 ∧
      s.ledger.destroyed 0 = 2) ∧
    ∃ s, Reaches step anyStep init s ∧ s.ledger.destroyed 0 = 1 ∧ s.closed 0 = 2 := by
  refine ⟨?_, ?_⟩
  · exact exists_of_runActions latePrepare (by decide)
  · exact exists_of_runActions lostRemoved (by decide)

end Svalinn.Iokernel.Refs
