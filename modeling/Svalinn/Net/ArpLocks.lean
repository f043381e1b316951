/-
  Net/ArpLocks.lean --- the ARP lock and the locks of TCP connections.

  Source: `runtime/net/arp.c` (`delete_entry`, `arp_age_entry`, `arp_worker`,
  `arp_update`, `arp_lookup`), `runtime/net/tcp.c` (`tcp_conn_err`, `__tcp_dial`,
  `tcp_conn_shutdown_tx`), `runtime/net/tcp_in.c` (SYN processing, `send_rst`) and
  `runtime/net/core.c` (`net_error`, `net_tx_ip`).

  Taking and releasing a lock are steps of their own.  A thread of the TCP layer takes
  a connection's lock and may transmit while it holds it: control segments and resets
  do.  The table is one list of entries; what arrives in an answer (memory, the time,
  whether the transport layer still knows the connection) comes with the step.

  The two layers take the two kinds of locks in opposite orders.  A cycle needs an
  entry that expires with a packet of a connection queued while a thread that holds
  that connection's lock misses in the table.
-/
import Svalinn.Lib.Locks
import Svalinn.Lib.Transition
import Svalinn.Net.ArpEntry

set_option autoImplicit false

namespace Svalinn.Net

open Svalinn.Lib Function

/-- A packet in the queue of an entry: the connection it is of, if it is of one. -/
abbrev Queued := Option Nat

/-- `struct arp_entry`, without the Ethernet address. -/
structure ArpEntry extends ArpAge where
  ip : Nat
  q : List Queued
  deriving DecidableEq

/-- `arp_lock`, and the locks of the connections. -/
inductive Lock where
  | arp
  | conn (c : Nat)
  deriving DecidableEq

/-- What a thread takes `arp_lock` for. -/
inductive ArpJob where
  /-- the cold path of `arp_lookup`, with a new entry if none was found before -/
  | lookup (daddr : Nat) (m : Queued) (newe : Bool)
  | update (daddr : Nat)
  deriving DecidableEq

/-- Program points.  `arp_worker` is between scans, or works on the entry at index `i`;
`q` are the packets `delete_entry` still has to report. -/
inductive Pc where
  | asleep
  | wantsScan (now : BitVec 64) (i : Nat)
  | scan (now : BitVec 64) (i : Nat)
  | flush (now : BitVec 64) (i : Nat) (q : List Queued)
  /-- `tcp_conn_err` spins for the connection's lock -/
  | wantsErr (c : Nat) (now : BitVec 64) (i : Nat) (q : List Queued)
  | failing (c : Nat) (now : BitVec 64) (i : Nat) (q : List Queued)
  | idle
  | wantsConn (c : Nat)
  | inConn (c : Nat)
  | wantsArp (held : Option Nat) (job : ArpJob)
  | inArp (held : Option Nat) (job : ArpJob)
  deriving DecidableEq

/-- The locks that a thread holds at a point. -/
def Pc.holds : Pc → Lock → Bool
  | .scan _ _, l | .flush _ _ _, l | .wantsErr _ _ _ _, l => decide (l = .arp)
  | .failing c _ _ _, l => decide (l = .conn c) || decide (l = .arp)
  | .inConn c, l => decide (l = .conn c)
  | .wantsArp held _, l => held.any fun c => decide (l = .conn c)
  | .inArp held _, l => decide (l = .arp) || held.any fun c => decide (l = .conn c)
  | _, _ => false

/-- The lock that a thread spins for at a point. -/
def Pc.wants : Pc → Option Lock
  | .wantsScan _ _ | .wantsArp _ _ => some .arp
  | .wantsErr c _ _ _ | .wantsConn c => some (.conn c)
  | _ => none

/-- The table, the holders of the locks, and the point of each thread. -/
structure ArpSys where
  table : List ArpEntry
  owner : Lock → Option Nat
  pc : Nat → Pc

/-- The thread `t` goes on at `p`. -/
def ArpSys.move (s : ArpSys) (t : Nat) (p : Pc) : ArpSys :=
  { s with pc := update s.pc t p }

/-- `t` takes a free lock. -/
def ArpSys.acquire (s : ArpSys) (t : Nat) (l : Lock) (p : Pc) : Option ArpSys :=
  if s.owner l = none then
    some { s with owner := update s.owner l (some t), pc := update s.pc t p }
  else none

/-- `t` releases a lock. -/
def ArpSys.release (s : ArpSys) (t : Nat) (l : Lock) (p : Pc) : ArpSys :=
  { s with owner := update s.owner l none, pc := update s.pc t p }

/-- `lookup_entry`. -/
def lookupEntry (table : List ArpEntry) (daddr : Nat) : Option ArpEntry :=
  table.find? fun e => e.ip = daddr

/-- How `arp_lookup` goes on after its look at the table without the lock: the address
is known or there is no memory for an entry (`none`), or it needs the lock, with or
without a new entry. -/
def arpMiss (table : List ArpEntry) (daddr : Nat) (allocOk : Bool) : Option Bool :=
  match lookupEntry table daddr with
  | some e => if e.state = .probing then some false else none
  | none => if allocOk then some true else none

/-- The body of `arp_lookup` under the lock. -/
def lookupBody (table : List ArpEntry) (daddr : Nat) (m : Queued) (newe : Bool)
    (stamp : BitVec 64) : List ArpEntry :=
  match lookupEntry table daddr with
  | some e =>
    if e.state = .probing then
      table.map fun e' => if e' = e then { e with q := e.q ++ [m] } else e'
    else table
  | none => if newe then table ++ [⟨⟨.probing, stamp, arpRetries⟩, daddr, [m]⟩] else table

/-- The body of `arp_update` under the lock; the packets that waited are sent later. -/
def updateBody (table : List ArpEntry) (daddr : Nat) (allocOk : Bool) (stamp : BitVec 64) :
    List ArpEntry :=
  match lookupEntry table daddr with
  | some e =>
    if e.state = .static then table
    else
      table.map fun e' => if e' = e then { e with state := .valid, ts := stamp, q := [] } else e'
  | none => if allocOk then table ++ [⟨⟨.valid, stamp, arpRetries⟩, daddr, []⟩] else table

/-- The section of a thread of the network stack under `arp_lock`. -/
def jobBody (table : List ArpEntry) (job : ArpJob) (allocOk : Bool) (stamp : BitVec 64) :
    List ArpEntry :=
  match job with
  | .lookup daddr m newe => lookupBody table daddr m newe stamp
  | .update daddr => updateBody table daddr allocOk stamp

/-- The steps of a thread. -/
inductive ArpAction where
  /-- `arp_worker` starts a scan -/
  | wake (now : BitVec 64)
  | lockScan
  | age (stamp : BitVec 64)
  /-- `preempt_needed`: the lock is dropped and taken again -/
  | yield
  | done
  /-- `net_error` of the next packet; `found` is the answer of `trans_lookup` -/
  | pop (found : Bool)
  | lockErr
  | fail
  | wantConn (c : Nat)
  | lockConn
  /-- `net_tx_ip` under the lock of a connection -/
  | transmit (daddr : Nat) (allocOk : Bool)
  | unlockConn
  /-- `net_tx_ip` without a lock -/
  | send (daddr : Nat) (m : Queued) (allocOk : Bool)
  /-- a packet arrives for `arp_update` -/
  | update (daddr : Nat)
  | lockArp
  | finishArp (allocOk : Bool) (stamp : BitVec 64)
  deriving DecidableEq

/-- `arp_worker` at the entry with index `i`. -/
def ageStep (s : ArpSys) (t : Nat) (now : BitVec 64) (i : Nat) (stamp : BitVec 64) :
    Option ArpSys :=
  match s.table[i]? with
  | none => none
  | some e =>
    match arpAgeEntry now stamp e.toArpAge with
    | .kept => some (s.move t (.scan now (i + 1)))
    | .probed a =>
      some ({ s with table := s.table.set i { e with toArpAge := a } }.move t (.scan now (i + 1)))
    | .deleted => some ({ s with table := s.table.eraseIdx i }.move t (.flush now i e.q))

/-- `delete_entry` at its next packet. -/
def popStep (s : ArpSys) (t : Nat) (now : BitVec 64) (i : Nat) (q : List Queued) (found : Bool) :
    ArpSys :=
  match q with
  | [] => s.move t (.scan now i)
  | some c :: q => s.move t (if found then .wantsErr c now i q else .flush now i q)
  | none :: q => s.move t (.flush now i q)

/-- One step of a thread; `none` where the action does not belong to its point. -/
def arpStep (s : ArpSys) (e : Nat × ArpAction) : Option ArpSys :=
  let t := e.1
  match s.pc t, e.2 with
  | .asleep, .wake now => some (s.move t (.wantsScan now 0))
  | .wantsScan now i, .lockScan => s.acquire t .arp (.scan now i)
  | .scan now i, .age stamp => ageStep s t now i stamp
  | .scan now i, .yield => some (s.release t .arp (.wantsScan now i))
  | .scan _ i, .done => if s.table.length ≤ i then some (s.release t .arp .asleep) else none
  | .flush now i q, .pop found => some (popStep s t now i q found)
  | .wantsErr c now i q, .lockErr => s.acquire t (.conn c) (.failing c now i q)
  | .failing c now i q, .fail => some (s.release t (.conn c) (.flush now i q))
  | .idle, .wantConn c => some (s.move t (.wantsConn c))
  | .wantsConn c, .lockConn => s.acquire t (.conn c) (.inConn c)
  | .inConn c, .transmit daddr allocOk =>
    match arpMiss s.table daddr allocOk with
    | none => some s
    | some newe => some (s.move t (.wantsArp (some c) (.lookup daddr (some c) newe)))
  | .inConn c, .unlockConn => some (s.release t (.conn c) .idle)
  | .idle, .send daddr m allocOk =>
    match arpMiss s.table daddr allocOk with
    | none => some s
    | some newe => some (s.move t (.wantsArp none (.lookup daddr m newe)))
  | .idle, .update daddr => some (s.move t (.wantsArp none (.update daddr)))
  | .wantsArp held job, .lockArp => s.acquire t .arp (.inArp held job)
  | .inArp held job, .finishArp allocOk stamp =>
    some ({ s with table := jobBody s.table job allocOk stamp }.release t .arp
      (held.elim .idle .inConn))
  | _, _ => none

/-- Thread 0 is `arp_worker`, which sleeps; the others are idle. -/
def arpInit (table : List ArpEntry) : ArpSys where
  table := table
  owner := fun _ => none
  pc := fun t => if t = 0 then .asleep else .idle

/-- Some threads wait for each other in a cycle. -/
def ArpDeadlock (s : ArpSys) : Prop := Deadlocked Pc.wants s.owner s.pc

/-- The thread holds the lock of `c` and spins for the ARP lock. -/
def Pc.inLookup (c : Nat) : Pc → Bool
  | .wantsArp (some c') _ => decide (c' = c)
  | _ => false

/-- The thread holds the ARP lock and spins for the lock of `c`. -/
def Pc.reportsTo (c : Nat) : Pc → Bool
  | .wantsErr c' _ _ _ => decide (c' = c)
  | _ => false

/-- An error is not reported to a connection whose lock is held by a thread in `arp_lookup`, nor
does such a thread miss in the table while one is being reported. -/
def guardAt (s : ArpSys) : Pc → ArpAction → Prop
  | .flush _ _ (some c :: _), .pop true => ∀ u ∈ s.owner (.conn c), (s.pc u).inLookup c = false
  | .inConn c, .transmit daddr allocOk =>
    arpMiss s.table daddr allocOk ≠ none → ∀ u ∈ s.owner .arp, (s.pc u).reportsTo c = false
  | _, _ => True

@[inherit_doc guardAt]
def expiryGuard (s : ArpSys) (e : Nat × ArpAction) : Prop := guardAt s (s.pc e.1) e.2

/-! ## Cycles -/

/-- One thread reports an error to a connection whose lock another one holds in `arp_lookup`. -/
def Crossing (s : ArpSys) : Prop :=
  ∃ t u c, (s.pc t).reportsTo c = true ∧ (s.pc u).inLookup c = true

section Cycle

variable {s s' : ArpSys} {t u : Nat} {c : Nat} {p : Pc} {l k : Lock}

theorem Pc.reportsTo_iff : p.reportsTo c = true ↔ ∃ now i q, p = .wantsErr c now i q := by
  cases p <;> simp [Pc.reportsTo]

theorem Pc.inLookup_iff : p.inLookup c = true ↔ ∃ job, p = .wantsArp (some c) job := by
  constructor
  · intro h
    unfold Pc.inLookup at h
    split at h
    · rename_i c' job
      obtain rfl := of_decide_eq_true h
      exact ⟨job, rfl⟩
    · cases h
  · rintro ⟨job, rfl⟩
    exact decide_eq_true rfl

/-- Only a thread that reports an error or one in `arp_lookup` holds a lock and waits for another,
and they take them in opposite orders. -/
theorem Pc.hold_and_wait (hwants : p.wants = some l) (hholds : p.holds k = true) :
    (∃ c, p.reportsTo c = true ∧ l = .conn c ∧ k = .arp) ∨
    (∃ c, p.inLookup c = true ∧ l = .arp ∧ k = .conn c) := by
  cases p with
  | wantsErr c now i q =>
    exact Or.inl ⟨c, decide_eq_true rfl, (Option.some.inj hwants).symm, of_decide_eq_true hholds⟩
  | wantsArp held job =>
    cases held with
    | none => cases hholds
    | some c =>
      exact Or.inr ⟨c, decide_eq_true rfl, (Option.some.inj hwants).symm, of_decide_eq_true hholds⟩
  | wantsScan _ _ | wantsConn _ => cases hholds
  | asleep | scan _ _ | flush _ _ _ | failing _ _ _ _ | idle | inConn _ | inArp _ _ => cases hwants

theorem crossing_of_report (h : Owned Pc.holds s.owner s.pc)
    (hcyc : Relation.TransGen (WaitsFor Pc.wants s.owner s.pc) t t)
    (hrep : (s.pc t).reportsTo c = true) : Crossing s := by
  obtain ⟨l, u, hwants, hu, hcycu, -⟩ := h.on_cycle hcyc
  obtain ⟨now, i, q, hpc⟩ := Pc.reportsTo_iff.1 hrep
  rw [hpc] at hwants
  obtain rfl : Lock.conn c = l := Option.some.inj hwants
  -- the holder of the connection's lock waits as well
  obtain ⟨l', -, hwants', -⟩ := h.on_cycle hcycu
  rcases Pc.hold_and_wait hwants' hu with ⟨c', -, -, hk⟩ | ⟨c', hlook, -, hk⟩
  · cases hk
  · obtain rfl : c = c' := Lock.conn.inj hk
    exact ⟨t, u, c, hrep, hlook⟩

/-- The only cycles are those of two threads that cross. -/
theorem deadlock_iff_crossing (h : Owned Pc.holds s.owner s.pc) : ArpDeadlock s ↔ Crossing s := by
  constructor
  · rintro ⟨t, hcyc⟩
    obtain ⟨l, u, hwants, hu, hcycu, k, hk⟩ := h.on_cycle hcyc
    rcases Pc.hold_and_wait hwants hk with ⟨c, hrep, -, -⟩ | ⟨c, -, rfl, -⟩
    · exact crossing_of_report h hcyc hrep
    · obtain ⟨l', -, hwants', -⟩ := h.on_cycle hcycu
      rcases Pc.hold_and_wait hwants' hu with ⟨c', hrep, -, -⟩ | ⟨c', -, -, hk'⟩
      · exact crossing_of_report h hcycu hrep
      · cases hk'
  · rintro ⟨t, u, c, hrep, hlook⟩
    obtain ⟨now, i, q, hpc⟩ := Pc.reportsTo_iff.1 hrep
    obtain ⟨job, hpc'⟩ := Pc.inLookup_iff.1 hlook
    exact h.deadlocked_of_pair (l := .conn c) (k := .arp) (by rw [hpc]; rfl)
      (by rw [hpc']; simp [Pc.holds]) (by rw [hpc']; rfl)
      (by rw [hpc]; rfl)

/-! ## Steps -/

/-- The point neither reports an error nor looks an address up under a lock. -/
def Pc.quiet (p : Pc) : Prop := ∀ c, p.reportsTo c = false ∧ p.inLookup c = false

/-- What a step does to the locks: its thread moves on with the same locks, or takes or releases
one. Only `pop` and `transmit` lead to a point where the guard asks for anything. -/
inductive ArpEffect (s : ArpSys) (e : Nat × ArpAction) (s' : ArpSys) : Prop
  | moved (p : Pc) (owner : s'.owner = s.owner) (pc : s'.pc = update s.pc e.1 p)
      (hholds : ∀ l, p.holds l = (s.pc e.1).holds l) (hquiet : p.quiet) (hguard : expiryGuard s e)
  | acquired (l : Lock) (p : Pc) (free : s.owner l = none)
      (owner : s'.owner = update s.owner l (some e.1))
      (pc : s'.pc = update s.pc e.1 p)
      (hholds : ∀ k, p.holds k = (decide (k = l) || (s.pc e.1).holds k)) (hquiet : p.quiet)
      (hguard : expiryGuard s e)
  | released (l : Lock) (p : Pc) (held : (s.pc e.1).holds l = true)
      (owner : s'.owner = update s.owner l none)
      (pc : s'.pc = update s.pc e.1 p)
      (hholds : ∀ k, p.holds k = (! decide (k = l) && (s.pc e.1).holds k)) (hquiet : p.quiet)
      (hguard : expiryGuard s e)
  | kept (eq : s' = s) (hguard : expiryGuard s e)
  | reports (c : Nat) (now : BitVec 64) (i : Nat) (q : List Queued)
      (old : s.pc e.1 = .flush now i (some c :: q)) (owner : s'.owner = s.owner)
      (pc : s'.pc = update s.pc e.1 (.wantsErr c now i q))
      (hguard : expiryGuard s e ↔ ∀ u ∈ s.owner (.conn c), (s.pc u).inLookup c = false)
  | misses (c : Nat) (job : ArpJob) (old : s.pc e.1 = .inConn c) (owner : s'.owner = s.owner)
      (pc : s'.pc = update s.pc e.1 (.wantsArp (some c) job))
      (hguard : expiryGuard s e ↔ ∀ u ∈ s.owner .arp, (s.pc u).reportsTo c = false)

theorem quiet_idle : Pc.idle.quiet := fun _ => ⟨rfl, rfl⟩

theorem quiet_inConn (c : Nat) : (Pc.inConn c).quiet := fun _ => ⟨rfl, rfl⟩

theorem acquire_some {p : Pc} (h : s.acquire t l p = some s') :
    s.owner l = none ∧ s'.owner = update s.owner l (some t) ∧ s'.pc = update s.pc t p := by
  obtain ⟨hfree, rfl⟩ := Option.ite_some_none_eq_some.1 h
  exact ⟨hfree, rfl, rfl⟩

theorem guard_of_pc {a : ArpAction} (hpc : s.pc t = p) (h : guardAt s p a) :
    expiryGuard s (t, a) := by
  unfold expiryGuard
  rw [hpc]
  exact h

section Effects

variable {a : ArpAction} {q : Pc} (hpc : s.pc t = q) (hquiet : p.quiet) (hguard : guardAt s q a)
include hpc hquiet hguard

theorem ArpEffect.of_move (howner : s'.owner = s.owner) (hpc' : s'.pc = update s.pc t p)
    (hholds : ∀ l, p.holds l = q.holds l) : ArpEffect s (t, a) s' :=
  .moved p howner hpc' (by rw [hpc]; exact hholds) hquiet (guard_of_pc hpc hguard)

theorem ArpEffect.of_acquire (h : s.acquire t l p = some s')
    (hholds : ∀ k, p.holds k = (decide (k = l) || q.holds k)) : ArpEffect s (t, a) s' := by
  obtain ⟨hfree, howner, hpc'⟩ := acquire_some h
  exact .acquired l p hfree howner hpc' (by rw [hpc]; exact hholds) hquiet (guard_of_pc hpc hguard)

theorem ArpEffect.of_release (hheld : q.holds l = true) (howner : s'.owner = update s.owner l none)
    (hpc' : s'.pc = update s.pc t p) (hholds : ∀ k, p.holds k = (! decide (k = l) && q.holds k)) :
    ArpEffect s (t, a) s' :=
  .released l p (by rw [hpc]; exact hheld) howner hpc' (by rw [hpc]; exact hholds) hquiet
    (guard_of_pc hpc hguard)

end Effects

/-- Every step has one of the effects. -/
theorem arpStep_effect {e : Nat × ArpAction} (h : arpStep s e = some s') : ArpEffect s e s' := by
  obtain ⟨t, a⟩ := e
  unfold arpStep at h
  dsimp only at h
  split at h
  case h_1 now hpc =>
    cases h
    exact .of_move hpc (fun _ => ⟨rfl, rfl⟩) trivial rfl rfl fun _ => rfl
  case h_2 now i hpc =>
    exact .of_acquire hpc (fun _ => ⟨rfl, rfl⟩) trivial h fun _ => (Bool.or_false _).symm
  case h_3 now i stamp hpc =>
    unfold ageStep at h
    split at h
    · cases h
    split at h
    · cases h
      exact .of_move hpc (fun _ => ⟨rfl, rfl⟩) trivial rfl rfl fun _ => rfl
    · cases h
      exact .of_move hpc (fun _ => ⟨rfl, rfl⟩) trivial rfl rfl fun _ => rfl
    · cases h
      exact .of_move hpc (fun _ => ⟨rfl, rfl⟩) trivial rfl rfl fun _ => rfl
  case h_4 now i hpc =>
    cases h
    exact .of_release hpc (fun _ => ⟨rfl, rfl⟩) trivial rfl rfl rfl
      fun _ => (Bool.not_and_self _).symm
  case h_5 now i hpc =>
    split at h
    · cases h
      exact .of_release hpc (fun _ => ⟨rfl, rfl⟩) trivial rfl rfl rfl
        fun _ => (Bool.not_and_self _).symm
    · cases h
  case h_6 now i q found hpc =>
    cases h
    unfold popStep
    cases q with
    | nil => exact .of_move hpc (fun _ => ⟨rfl, rfl⟩) trivial rfl rfl fun _ => rfl
    | cons m q =>
      cases m with
      | none => exact .of_move hpc (fun _ => ⟨rfl, rfl⟩) trivial rfl rfl fun _ => rfl
      | some c =>
        cases found with
        | false => exact .of_move hpc (fun _ => ⟨rfl, rfl⟩) trivial rfl rfl fun _ => rfl
        | true =>
          refine .reports c now i q hpc rfl rfl ?_
          unfold expiryGuard
          rw [hpc]
          exact Iff.rfl
  case h_7 c now i q hpc =>
    exact .of_acquire hpc (fun _ => ⟨rfl, rfl⟩) trivial h fun _ => rfl
  case h_8 c now i q hpc =>
    cases h
    refine .of_release hpc (fun _ => ⟨rfl, rfl⟩) trivial (by simp [Pc.holds]) rfl rfl fun k => ?_
    cases k <;> simp [Pc.holds]
  case h_9 c hpc =>
    cases h
    exact .of_move hpc (fun _ => ⟨rfl, rfl⟩) trivial rfl rfl fun _ => rfl
  case h_10 c hpc =>
    exact .of_acquire hpc (quiet_inConn c) trivial h fun _ => (Bool.or_false _).symm
  case h_11 c daddr allocOk hpc =>
    split at h
    · rename_i hhit
      cases h
      exact .kept rfl (guard_of_pc hpc fun hmiss => absurd hhit hmiss)
    · rename_i newe hmiss
      cases h
      refine .misses c _ hpc rfl rfl ?_
      unfold expiryGuard
      rw [hpc]
      exact ⟨fun hg => hg (by rw [hmiss]; exact Option.some_ne_none _), fun hg _ => hg⟩
  case h_12 c hpc =>
    cases h
    exact .of_release hpc quiet_idle trivial (decide_eq_true rfl) rfl rfl
      fun _ => (Bool.not_and_self _).symm
  case h_13 daddr m allocOk hpc =>
    split at h
    · cases h
      exact .kept rfl (guard_of_pc hpc trivial)
    · cases h
      exact .of_move hpc (fun _ => ⟨rfl, rfl⟩) trivial rfl rfl fun _ => rfl
  case h_14 daddr hpc =>
    cases h
    exact .of_move hpc (fun _ => ⟨rfl, rfl⟩) trivial rfl rfl fun _ => rfl
  case h_15 held job hpc =>
    exact .of_acquire hpc (fun _ => ⟨rfl, rfl⟩) trivial h fun _ => rfl
  case h_16 held job allocOk stamp hpc =>
    cases h
    cases held with
    | none =>
      refine .of_release hpc quiet_idle trivial rfl rfl rfl fun k => ?_
      cases k <;> simp [Pc.holds]
    | some c =>
      refine .of_release hpc (quiet_inConn c) trivial rfl rfl rfl fun k => ?_
      cases k <;> simp [Pc.holds]
  case h_17 => cases h

/-- Every lock stays with the thread whose point holds it. -/
theorem owned_step {e : Nat × ArpAction} (h : Owned Pc.holds s.owner s.pc)
    (hst : arpStep s e = some s') : Owned Pc.holds s'.owner s'.pc := by
  cases arpStep_effect hst with
  | moved p howner hpc hholds =>
    rw [howner, hpc]
    exact h.move hholds
  | acquired l p hfree howner hpc hholds =>
    rw [howner, hpc]
    exact h.acquire hfree hholds
  | released l p hheld howner hpc hholds =>
    rw [howner, hpc]
    exact h.release ((h l e.1).2 hheld) hholds
  | kept heq =>
    rw [heq]
    exact h
  | reports c now i q hold howner hpc =>
    rw [howner, hpc]
    exact h.move (by rw [hold]; exact fun _ => rfl)
  | misses c job hold howner hpc =>
    rw [howner, hpc]
    exact h.move (by rw [hold]; exact fun _ => rfl)

/-- A thread that goes on at a quiet point crosses no other. -/
theorem not_crossing_of_quiet (h : ¬ Crossing s) (hpc : s'.pc = update s.pc t p)
    (hquiet : p.quiet) : ¬ Crossing s' := by
  rintro ⟨a, b, c, hrep, hlook⟩
  rw [hpc] at hrep hlook
  have ha : a ≠ t := by
    rintro rfl
    rw [update_self, (hquiet c).1] at hrep
    cases hrep
  have hb : b ≠ t := by
    rintro rfl
    rw [update_self, (hquiet c).2] at hlook
    cases hlook
  rw [update_of_ne ha] at hrep
  rw [update_of_ne hb] at hlook
  exact h ⟨a, b, c, hrep, hlook⟩

theorem crossing_reports (h : ¬ Crossing s) {now : BitVec 64} {i : Nat} {q : List Queued}
    (hold : s.pc t = .flush now i (some c :: q))
    (hpc : s'.pc = update s.pc t (.wantsErr c now i q)) :
    Crossing s' ↔ ∃ u, (s.pc u).inLookup c = true := by
  constructor
  · rintro ⟨a, b, c', hrep, hlook⟩
    rw [hpc] at hrep hlook
    have hb : b ≠ t := by
      rintro rfl
      rw [update_self] at hlook
      cases hlook
    rw [update_of_ne hb] at hlook
    by_cases ha : a = t
    · subst ha
      rw [update_self] at hrep
      obtain rfl := of_decide_eq_true hrep
      exact ⟨b, hlook⟩
    · rw [update_of_ne ha] at hrep
      exact absurd ⟨a, b, c', hrep, hlook⟩ h
  · rintro ⟨u, hlook⟩
    have hu : u ≠ t := by
      rintro rfl
      rw [hold] at hlook
      cases hlook
    refine ⟨t, u, c, ?_, ?_⟩
    · rw [hpc, update_self]
      exact decide_eq_true rfl
    · rw [hpc, update_of_ne hu]
      exact hlook

theorem crossing_misses (h : ¬ Crossing s) {job : ArpJob} (hold : s.pc t = .inConn c)
    (hpc : s'.pc = update s.pc t (.wantsArp (some c) job)) :
    Crossing s' ↔ ∃ u, (s.pc u).reportsTo c = true := by
  constructor
  · rintro ⟨a, b, c', hrep, hlook⟩
    rw [hpc] at hrep hlook
    have ha : a ≠ t := by
      rintro rfl
      rw [update_self] at hrep
      cases hrep
    rw [update_of_ne ha] at hrep
    by_cases hb : b = t
    · subst hb
      rw [update_self] at hlook
      obtain rfl := of_decide_eq_true hlook
      exact ⟨a, hrep⟩
    · rw [update_of_ne hb] at hlook
      exact absurd ⟨a, b, c', hrep, hlook⟩ h
  · rintro ⟨u, hrep⟩
    have hu : u ≠ t := by
      rintro rfl
      rw [hold] at hrep
      cases hrep
    refine ⟨u, t, c, ?_, ?_⟩
    · rw [hpc, update_of_ne hu]
      exact hrep
    · rw [hpc, update_self]
      exact decide_eq_true rfl

/-- A step makes two threads cross exactly if it violates the guard. -/
theorem crossing_step {e : Nat × ArpAction} (hown : Owned Pc.holds s.owner s.pc)
    (h : ¬ Crossing s) (hst : arpStep s e = some s') : ¬ Crossing s' ↔ expiryGuard s e := by
  cases arpStep_effect hst with
  | moved p _ hpc _ hquiet hguard =>
    exact ⟨fun _ => hguard, fun _ => not_crossing_of_quiet h hpc hquiet⟩
  | acquired l p _ _ hpc _ hquiet hguard =>
    exact ⟨fun _ => hguard, fun _ => not_crossing_of_quiet h hpc hquiet⟩
  | released l p _ _ hpc _ hquiet hguard =>
    exact ⟨fun _ => hguard, fun _ => not_crossing_of_quiet h hpc hquiet⟩
  | kept heq hguard =>
    rw [heq]
    exact ⟨fun _ => hguard, fun _ => h⟩
  | reports c now i q hold _ hpc hguard =>
    rw [crossing_reports h hold hpc, hguard]
    constructor
    · intro hno u _
      exact Bool.eq_false_iff.2 fun hlook => hno ⟨u, hlook⟩
    · rintro hall ⟨u, hlook⟩
      obtain ⟨job, hpcu⟩ := Pc.inLookup_iff.1 hlook
      have howner : s.owner (.conn c) = some u :=
        (hown _ u).2 (by rw [hpcu]; simp [Pc.holds])
      exact absurd ((hall u howner).symm.trans hlook) Bool.false_ne_true
  | misses c job hold _ hpc hguard =>
    rw [crossing_misses h hold hpc, hguard]
    constructor
    · intro hno u _
      exact Bool.eq_false_iff.2 fun hrep => hno ⟨u, hrep⟩
    · rintro hall ⟨u, hrep⟩
      obtain ⟨now, i, q, hpcu⟩ := Pc.reportsTo_iff.1 hrep
      have howner : s.owner .arp = some u := (hown _ u).2 (by rw [hpcu]; rfl)
      exact absurd ((hall u howner).symm.trans hrep) Bool.false_ne_true

theorem owned_init (table : List ArpEntry) :
    Owned Pc.holds (arpInit table).owner (arpInit table).pc := by
  intro l t
  show none = some t ↔ Pc.holds (if t = 0 then .asleep else .idle) l = true
  split
  · exact ⟨nofun, nofun⟩
  · exact ⟨nofun, nofun⟩

theorem not_crossing_init (table : List ArpEntry) : ¬ Crossing (arpInit table) := by
  rintro ⟨t, u, c, hrep, -⟩
  change Pc.reportsTo c (if t = 0 then .asleep else .idle) = true at hrep
  split at hrep
  · cases hrep
  · cases hrep

end Cycle

/-- In every run whose steps meet the guard no threads wait for each other in a cycle,
and a further step closes a cycle exactly if it violates the guard. -/
theorem arp_deadlock_free_iff {table : List ArpEntry} {s : ArpSys}
    (hreach : Reaches arpStep expiryGuard (arpInit table) s) :
    ¬ ArpDeadlock s ∧ ∀ e s', arpStep s e = some s' → (¬ ArpDeadlock s' ↔ expiryGuard s e) := by
  have h : Owned Pc.holds s.owner s.pc ∧ ¬ Crossing s :=
    hreach.invariant (P := fun s => Owned Pc.holds s.owner s.pc ∧ ¬ Crossing s)
      ⟨owned_init table, not_crossing_init table⟩ fun _ _ _ hu hok hs =>
        ⟨owned_step hu.1 hs, (crossing_step hu.1 hu.2 hs).2 hok⟩
  refine ⟨fun hdead => h.2 ((deadlock_iff_crossing h.1).1 hdead), fun e s' hst => ?_⟩
  rw [deadlock_iff_crossing (owned_step h.1 hst)]
  exact crossing_step h.1 h.2 hst

instance (s : ArpSys) (p : Pc) (a : ArpAction) : Decidable (guardAt s p a) := by
  unfold guardAt
  split
  · exact inferInstanceAs (Decidable (∀ u ∈ _, _))
  · exact inferInstanceAs (Decidable (_ → ∀ u ∈ _, _))
  · exact inferInstanceAs (Decidable True)

instance (s : ArpSys) (e : Nat × ArpAction) : Decidable (expiryGuard s e) :=
  inferInstanceAs (Decidable (guardAt _ _ _))

/-- Thread 1 transmits for connection 5 to an unknown host and leaves its packet in the
table; nobody answers, and four scans of the worker later the entry is deleted. -/
def expiredEntry : List (Nat × ArpAction) :=
  [(1, .wantConn 5), (1, .lockConn), (1, .transmit 9 true), (1, .lockArp), (1, .finishArp true 0),
    (1, .unlockConn)] ++
  ([1000000, 2000000, 3000000].flatMap fun now =>
    [(0, .wake now), (0, .lockScan), (0, .age now), (0, .done)]) ++
  [(0, .wake 4000000), (0, .lockScan), (0, .age 4000000)]

/-- The error is reported while nobody holds the lock of the connection. -/
theorem arp_deadlock_free_expiry :
    ∃ s s', Reaches arpStep expiryGuard (arpInit []) s ∧ ¬ ArpDeadlock s ∧
      arpStep s (0, .pop true) = some s' ∧ s'.pc 0 = .wantsErr 5 4000000 0 [] ∧
      (¬ ArpDeadlock s' ↔ expiryGuard s (0, .pop true)) := by
  have hrun : ((runChecked arpStep (fun s e => decide (expiryGuard s e)) (arpInit [])
      expiredEntry).bind fun s => (arpStep s (0, .pop true)).map fun s' => s'.pc 0) =
      some (.wantsErr 5 4000000 0 []) := by decide
  obtain ⟨s, hs, hnext⟩ := Option.bind_eq_some_iff.1 hrun
  obtain ⟨s', hs', hpc⟩ := Option.map_eq_some_iff.1 hnext
  have hreach := reaches_of_runChecked (fun _ _ _ h => of_decide_eq_true h) hs
  have hall := arp_deadlock_free_iff hreach
  exact ⟨s, s', hreach, hall.1, hs', hpc, hall.2 _ _ hs'⟩

/-- A thread that closes the connection at that moment holds its lock and misses in the
table, which the worker has just taken the entry from. -/
theorem arp_tcp_deadlock : ∃ s, Reaches arpStep anyStep (arpInit []) s ∧ ArpDeadlock s := by
  have hrun : (runActions arpStep (arpInit []) (expiredEntry ++
      [(2, .wantConn 5), (2, .lockConn), (0, .pop true), (2, .transmit 9 true)])).map
      (fun s => (s.pc 0, s.pc 2, s.owner (.conn 5), s.owner .arp)) =
      some (.wantsErr 5 4000000 0 [], .wantsArp (some 5) (.lookup 9 (some 5) true), some 2,
        some 0) := by decide
  obtain ⟨s, hs, hview⟩ := Option.map_eq_some_iff.1 hrun
  obtain ⟨hpc0, hview⟩ := Prod.mk.inj hview
  obtain ⟨hpc2, hview⟩ := Prod.mk.inj hview
  obtain ⟨hconn, harp⟩ := Prod.mk.inj hview
  refine ⟨s, reaches_of_runActions hs, 0,
    .tail (.single (b := 2) ⟨.conn 5, ?_, hconn⟩) ⟨.arp, ?_, harp⟩⟩
  · rw [hpc0]
    rfl
  · rw [hpc2]
    rfl

end Svalinn.Net
