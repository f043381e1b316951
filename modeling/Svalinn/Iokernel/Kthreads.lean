/-
  Iokernel/Kthreads.lean --- what enabling and disabling a kthread keeps.

  `Kthreads` relates the lists of a process to the fields of its kthreads, the polling
  set to the `ts_idx` fields, and the reference count of a process to what refers to it:
  the client table, every active kthread, every polled kthread and every packet in
  flight.  It says nothing about the cores; a kthread is enabled and retired under it.
-/
import Svalinn.Iokernel.Sched

set_option autoImplicit false

namespace Svalinn.Iokernel

open Svalinn.Lib Function List

section Fields

variable (s : Sched) (c p : Nat) (th : ThreadPtr) (f : CoreState → CoreState) (g : Proc → Proc)
  (k : Thread → Thread)

@[simp] theorem modCore_threads : (s.modCore c f).threads = s.threads := rfl
@[simp] theorem modProc_threads : (s.modProc p g).threads = s.threads := rfl
@[simp] theorem modProc_ts : (s.modProc p g).ts = s.ts := rfl
@[simp] theorem modProc_clients : (s.modProc p g).clients = s.clients := rfl
@[simp] theorem modProc_inFlight : (s.modProc p g).inFlight = s.inFlight := rfl
@[simp] theorem modThread_procs : (s.modThread th k).procs = s.procs := rfl
@[simp] theorem modThread_ts : (s.modThread th k).ts = s.ts := rfl
@[simp] theorem modThread_clients : (s.modThread th k).clients = s.clients := rfl
@[simp] theorem modThread_inFlight : (s.modThread th k).inFlight = s.inFlight := rfl

theorem update_at {α β : Type} [DecidableEq α] (f : α → β) (a : α) (g : β → β) (x : α) :
    update f a (g (f a)) x = if x = a then g (f x) else f x := by
  rw [update_apply]
  split
  · rename_i h
    rw [h]
  · rfl

theorem modCore_state (x : Nat) :
    (s.modCore c f).state x = if x = c then f (s.state x) else s.state x :=
  update_at s.state c f x

theorem modProc_procs (x : Nat) :
    (s.modProc p g).procs x = if x = p then g (s.procs x) else s.procs x :=
  update_at s.procs p g x

theorem modThread_threads (x : ThreadPtr) :
    (s.modThread th k).threads x = if x = th then k (s.threads x) else s.threads x :=
  update_at s.threads th k x

end Fields

/-! ## The invariant -/

/-- The two lists of a process against the fields of its kthreads. -/
structure Lists (s : Sched) : Prop where
  idle_nodup : ∀ p, (s.procs p).idleThreads.Nodup
  mem_idle : ∀ p i, i ∈ (s.procs p).idleThreads ↔
    i < (s.procs p).threadCount ∧ (s.threads ⟨p, i⟩).active = false
  mem_active : ∀ p i, i ∈ (s.procs p).activeThreads ↔ (s.threads ⟨p, i⟩).active = true
  indexed : ∀ p, Indexed (s.procs p).activeThreads fun i => (s.threads ⟨p, i⟩).atIdx
  bounded : ∀ th, (s.threads th).active = true → th.idx < (s.procs th.proc).threadCount

/-- The same for one process: a change to a process is checked there. -/
structure ProcLists (p : Proc) (threads : Nat → Thread) : Prop where
  idle_nodup : p.idleThreads.Nodup
  mem_idle : ∀ i, i ∈ p.idleThreads ↔ i < p.threadCount ∧ (threads i).active = false
  mem_active : ∀ i, i ∈ p.activeThreads ↔ (threads i).active = true
  indexed : Indexed p.activeThreads fun i => (threads i).atIdx
  bounded : ∀ i, (threads i).active = true → i < p.threadCount

theorem lists_iff {s : Sched} : Lists s ↔ ∀ p, ProcLists (s.procs p) fun i => s.threads ⟨p, i⟩ := by
  constructor
  · intro h p
    exact ⟨h.idle_nodup p, h.mem_idle p, h.mem_active p, h.indexed p, fun i => h.bounded ⟨p, i⟩⟩
  · intro h
    exact ⟨fun p => (h p).idle_nodup, fun p => (h p).mem_idle, fun p => (h p).mem_active,
      fun p => (h p).indexed, fun th => (h th.proc).bounded th.idx⟩

section ProcLists

variable {p p' : Proc} {threads threads' : Nat → Thread} {j b : Nat} (h : ProcLists p threads)
  (hcount : p'.threadCount = p.threadCount)

include h hcount

theorem ProcLists.congr (hidle : p'.idleThreads = p.idleThreads)
    (hactive : p'.activeThreads = p.activeThreads)
    (hact : ∀ i, (threads' i).active = (threads i).active)
    (hidx : ∀ i, (threads' i).atIdx = (threads i).atIdx) : ProcLists p' threads' := by
  obtain ⟨h₁, h₂, h₃, h₄, h₅⟩ := h
  constructor <;> simp only [hidle, hactive, hcount, hact, hidx] <;> assumption

/-- An idle kthread joins the end of the active ones. -/
theorem ProcLists.activate (hj : j ∈ p.idleThreads) (hidle : p'.idleThreads = p.idleThreads.erase j)
    (hactive : p'.activeThreads = p.activeThreads ++ [j])
    (hact : ∀ i, (threads' i).active = if i = j then true else (threads i).active)
    (hidx : ∀ i, (threads' i).atIdx = if i = j then p.activeThreads.length else (threads i).atIdx) :
    ProcLists p' threads' := by
  obtain ⟨hlt, hoff⟩ := (h.mem_idle j).1 hj
  have hnot : j ∉ p.activeThreads := by simp [h.mem_active, hoff]
  refine ⟨?_, fun i => ?_, fun i => ?_, ?_, fun i hi => ?_⟩
  · rw [hidle]
    exact h.idle_nodup.erase j
  · rw [hidle, hcount, hact, h.idle_nodup.mem_erase_iff, h.mem_idle]
    by_cases hi : i = j <;> simp [hi]
  · rw [hactive, hact, mem_append, mem_singleton, h.mem_active]
    by_cases hi : i = j <;> simp [hi]
  · rw [hactive]
    refine h.indexed.push ?_ fun i hi => ?_
    · rw [hidx, if_pos rfl]
    · rw [hidx, if_neg fun heq : i = j => hnot (heq ▸ hi)]
  · rw [hcount]
    rw [hact] at hi
    split at hi
    · rename_i heq
      exact heq ▸ hlt
    · exact h.bounded i hi

/-- An active kthread becomes idle, and the last active one takes its place. -/
theorem ProcLists.park (hj : (threads j).active = true) (hb : p.activeThreads.getLast? = some b)
    (hidle : p'.idleThreads = j :: p.idleThreads)
    (hactive : p'.activeThreads = Lib.swapRemove p.activeThreads (threads j).atIdx)
    (hact : ∀ i, (threads' i).active = if i = j then false else (threads i).active)
    (hidx : ∀ i, (threads' i).atIdx = if i = b then (threads j).atIdx else (threads i).atIdx) :
    ProcLists p' threads' := by
  have hin : j ∈ p.activeThreads := (h.mem_active j).2 hj
  have hnot : j ∉ p.idleThreads := by simp [h.mem_idle, hj]
  refine ⟨?_, fun i => ?_, fun i => ?_, ?_, fun i hi => ?_⟩
  · rw [hidle]
    exact nodup_cons.2 ⟨hnot, h.idle_nodup⟩
  · rw [hidle, hcount, hact, mem_cons, h.mem_idle]
    by_cases hi : i = j
    · simp [hi, h.bounded j hj]
    · simp [hi]
  · rw [hactive, hact, h.indexed.mem_swapRemove hin, h.mem_active]
    by_cases hi : i = j <;> simp [hi]
  · rw [hactive]
    refine h.indexed.swapRemove hin hb (fun _ => ?_) fun i _ _ hib => ?_
    · rw [hidx, if_pos rfl]
    · rw [hidx, if_neg hib]
  · rw [hcount]
    refine h.bounded i ?_
    rw [hact] at hi
    split at hi
    · cases hi
    · exact hi

end ProcLists

/-- The polling set against the `ts_idx` fields. -/
structure Polled (s : Sched) : Prop where
  indexed : Indexed s.ts fun th => (s.threads th).tsIdx.getD 0
  mem : ∀ th, th ∈ s.ts ↔ (s.threads th).tsIdx.isSome = true

theorem Polled.congr {s s' : Sched} (h : Polled s) (hts : s'.ts = s.ts)
    (hidx : ∀ th, (s'.threads th).tsIdx = (s.threads th).tsIdx) : Polled s' := by
  obtain ⟨h₁, h₂⟩ := h
  constructor <;> simp only [hts, hidx] <;> assumption

def otherRefs (s : Sched) (p : Nat) : Nat :=
  s.clients.count p + s.ts.countP (·.proc == p) + s.inFlight.count p

/-- The count of every process, up to references that are taken and not yet accounted for. -/
def Refs (s : Sched) (owed : Nat → Nat) : Prop :=
  ∀ p, (s.procs p).ref = (s.procs p).activeThreads.length + otherRefs s p + owed p

structure Kthreads (s : Sched) : Prop where
  lists : Lists s
  polled : Polled s
  refs : Refs s fun _ => 0
  clients : s.clients.Nodup
  sound : s.disabledInactive = false

theorem Kthreads.modCore {s : Sched} (h : Kthreads s) (c : Nat) (f : CoreState → CoreState) :
    Kthreads (s.modCore c f) := by
  obtain ⟨⟨h₁, h₂, h₃, h₄, h₅⟩, ⟨h₆, h₇⟩, h₈, h₉, h₁₀⟩ := h
  exact ⟨⟨h₁, h₂, h₃, h₄, h₅⟩, ⟨h₆, h₇⟩, h₈, h₉, h₁₀⟩

/-! ## The polling set -/

structure PollOnly (s s' : Sched) : Prop where
  state : s'.state = s.state
  clients : s'.clients = s.clients
  nrGuaranteed : s'.nrGuaranteed = s.nrGuaranteed
  inFlight : s'.inFlight = s.inFlight
  sound : s'.disabledInactive = s.disabledInactive
  procs : ∀ p, s'.procs p = { s.procs p with ref := (s'.procs p).ref }
  threads : ∀ th, s'.threads th = { s.threads th with tsIdx := (s'.threads th).tsIdx }

theorem PollOnly.activeThreads {s s' : Sched} (h : PollOnly s s') (p : Nat) :
    (s'.procs p).activeThreads = (s.procs p).activeThreads := by
  rw [h.procs p]

theorem procGet_pollOnly (s : Sched) (p : Nat) : PollOnly s (procGet s p) := by
  refine ⟨rfl, rfl, rfl, rfl, rfl, fun q => ?_, fun th => rfl⟩
  rw [procGet, modProc_procs]
  split <;> rfl

theorem procPut_pollOnly (s : Sched) (p : Nat) : PollOnly s (procPut s p) := by
  refine ⟨rfl, rfl, rfl, rfl, rfl, fun q => ?_, fun th => rfl⟩
  rw [procPut, modProc_procs]
  split <;> rfl

theorem PollOnly.trans {s t u : Sched} (h₁ : PollOnly s t) (h₂ : PollOnly t u) : PollOnly s u := by
  refine ⟨h₂.state.trans h₁.state, h₂.clients.trans h₁.clients,
    h₂.nrGuaranteed.trans h₁.nrGuaranteed, h₂.inFlight.trans h₁.inFlight, h₂.sound.trans h₁.sound, fun p => ?_, fun th => ?_⟩
  · rw [h₂.procs p, h₁.procs p]
  · rw [h₂.threads th, h₁.threads th]

theorem PollOnly.refl (s : Sched) : PollOnly s s :=
  ⟨rfl, rfl, rfl, rfl, rfl, fun _ => rfl, fun _ => rfl⟩

theorem modTsIdx_pollOnly (s : Sched) (th : ThreadPtr) (i : Option Nat) :
    PollOnly s (s.modThread th fun t => { t with tsIdx := i }) := by
  refine ⟨rfl, rfl, rfl, rfl, rfl, fun q => rfl, fun x => ?_⟩
  rw [modThread_threads]
  split <;> rfl

theorem modTs_pollOnly (s : Sched) (l : List ThreadPtr) : PollOnly s { s with ts := l } :=
  ⟨rfl, rfl, rfl, rfl, rfl, fun _ => rfl, fun _ => rfl⟩

theorem pollThread_pollOnly (s : Sched) (th : ThreadPtr) : PollOnly s (pollThread s th) := by
  rw [pollThread]
  split
  · exact .refl s
  · exact ((procGet_pollOnly s th.proc).trans (modTsIdx_pollOnly _ th _)).trans (modTs_pollOnly _ _)

theorem unpollThread_pollOnly (s : Sched) (th : ThreadPtr) : PollOnly s (unpollThread s th) := by
  rw [unpollThread]
  split
  · exact .refl s
  · refine PollOnly.trans ?_ (procPut_pollOnly _ _)
    refine PollOnly.trans ?_ (modTsIdx_pollOnly _ th none)
    split
    · exact modTs_pollOnly s _
    · exact (modTs_pollOnly s _).trans (modTsIdx_pollOnly _ _ _)

theorem Lists.of_pollOnly {s s' : Sched} (h : Lists s) (hs : PollOnly s s') : Lists s' := by
  refine lists_iff.2 fun p => (lists_iff.1 h p).congr ?_ ?_ ?_ (fun i => ?_) fun i => ?_
  · rw [hs.procs p]
  · rw [hs.procs p]
  · rw [hs.procs p]
  · rw [hs.threads ⟨p, i⟩]
  · rw [hs.threads ⟨p, i⟩]

theorem pollThread_polled {s : Sched} (h : Polled s) (th : ThreadPtr) : Polled (pollThread s th) := by
  rw [pollThread]
  split
  · exact h
  · rename_i hnone
    have hnot : th ∉ s.ts := by
      rw [h.mem, hnone]
      exact Bool.false_ne_true
    refine ⟨h.indexed.push ?_ ?_, ?_⟩
    · rw [modThread_threads, if_pos rfl]
      rfl
    · intro x hx
      have hne : x ≠ th := fun heq => hnot (heq ▸ hx)
      rw [modThread_threads, if_neg hne]
      rfl
    · intro x
      rw [modThread_threads, mem_append, mem_singleton]
      by_cases hx : x = th
      · rw [if_pos hx]
        exact iff_of_true (Or.inr hx) rfl
      · rw [if_neg hx]
        exact (or_iff_left hx).trans (h.mem x)

theorem pollThread_refs {s : Sched} {owed : Nat → Nat} (h : Refs s owed) (th : ThreadPtr) :
    Refs (pollThread s th) owed := by
  rw [pollThread]
  split
  · exact h
  · intro p
    have hp := h p
    simp only [otherRefs, procGet, modThread_procs, modProc_procs, modProc_ts, modProc_clients,
      modProc_inFlight, modThread_clients, modThread_inFlight, countP_append,
      countP_singleton] at hp ⊢
    split <;> simp_all <;> omega

/-- What `unpoll_thread` writes: the last kthread of the set moves into the place of the
kthread that leaves. -/
theorem unpollThread_threads {s : Sched} {th b : ThreadPtr} {i : Nat}
    (hi : (s.threads th).tsIdx = some i) (hb : s.ts.getLast? = some b) (x : ThreadPtr) :
    ((unpollThread s th).threads x).tsIdx =
      if x = th then none else if x = b then some i else (s.threads x).tsIdx := by
  rw [unpollThread, hi, hb]
  simp only [procPut, modProc_threads, modThread_threads]
  split
  · rfl
  · split <;> rfl

theorem unpollThread_ts {s : Sched} {th : ThreadPtr} {i : Nat} (hi : (s.threads th).tsIdx = some i) :
    (unpollThread s th).ts = swapRemove s.ts i := by
  rw [unpollThread, hi]
  simp only [procPut, modProc_ts, modThread_ts]
  split <;> rfl

theorem unpollThread_ref {s : Sched} {th : ThreadPtr} {i : Nat} (hi : (s.threads th).tsIdx = some i)
    (p : Nat) : ((unpollThread s th).procs p).ref =
      if p = th.proc then (s.procs p).ref - 1 else (s.procs p).ref := by
  rw [unpollThread, hi]
  simp only [procPut, modProc_procs, modThread_procs]
  split
  · split <;> rfl
  · split <;> rfl

theorem exists_last {α : Type} {l : List α} {a : α} (ha : a ∈ l) : ∃ b, l.getLast? = some b := by
  cases hl : l.getLast? with
  | none =>
    rw [List.getLast?_eq_none_iff.1 hl] at ha
    cases ha
  | some b => exact ⟨b, rfl⟩

theorem unpollThread_polled {s : Sched} (h : Polled s) (th : ThreadPtr) :
    Polled (unpollThread s th) := by
  cases hi : (s.threads th).tsIdx with
  | none =>
    rw [unpollThread, hi]
    exact h
  | some i =>
    have hmem : th ∈ s.ts := by
      rw [h.mem, hi]
      rfl
    obtain ⟨b, hb⟩ := exists_last hmem
    have hbmem : b ∈ s.ts := List.mem_of_getLast? hb
    have hpos : (s.threads th).tsIdx.getD 0 = i := by
      rw [hi]
      rfl
    have hwrites := unpollThread_threads hi hb
    refine ⟨?_, fun x => ?_⟩
    · rw [unpollThread_ts hi, ← hpos]
      refine h.indexed.swapRemove hmem hb (fun hne => ?_) fun x _ hxth hxb => ?_
      · rw [hwrites, if_neg hne, if_pos rfl, hpos]
        rfl
      · rw [hwrites, if_neg hxth, if_neg hxb]
    · rw [unpollThread_ts hi, ← hpos, h.indexed.mem_swapRemove hmem, hwrites, h.mem]
      by_cases hxth : x = th
      · rw [if_pos hxth]
        exact iff_of_false (fun hx => hx.2 hxth) Bool.false_ne_true
      · rw [if_neg hxth]
        refine (and_iff_left hxth).trans ?_
        by_cases hxb : x = b
        · rw [if_pos hxb, hxb]
          exact iff_of_true ((h.mem b).1 hbmem) rfl
        · rw [if_neg hxb]

theorem unpollThread_refs {s : Sched} {owed : Nat → Nat} (hp : Polled s) (h : Refs s owed)
    (th : ThreadPtr) : Refs (unpollThread s th) owed := by
  cases hi : (s.threads th).tsIdx with
  | none =>
    rw [unpollThread, hi]
    exact h
  | some i =>
    intro p
    have hframe := unpollThread_pollOnly s th
    have hmem : th ∈ s.ts := by
      rw [hp.mem, hi]
      rfl
    have hpos : (s.threads th).tsIdx.getD 0 = i := by
      rw [hi]
      rfl
    have hcount := (hp.indexed.perm_swapRemove hmem).countP_eq (·.proc == p)
    rw [countP_cons, hpos] at hcount
    have href := h p
    rw [unpollThread_ref hi, hframe.activeThreads p, otherRefs, hframe.clients, hframe.inFlight,
      unpollThread_ts hi]
    rw [otherRefs] at href
    simp only [beq_iff_eq] at hcount
    grind

/-! ## Enabling -/

theorem markActive_threads (s : Sched) (th : ThreadPtr) (core : Nat) (x : ThreadPtr) :
    (markActive s th core).threads x =
      if x = th then
        { s.threads x with
          nextPollTsc := 0, active := true, core := core
          atIdx := (s.procs th.proc).activeThreads.length }
      else s.threads x := by
  simp only [markActive, modProc_threads, modThread_threads]

theorem markActive_procs (s : Sched) (th : ThreadPtr) (core p : Nat) :
    (markActive s th core).procs p =
      if p = th.proc then
        { s.procs p with
          nextPollTsc := 0, started := true
          idleThreads := (s.procs p).idleThreads.erase th.idx
          activeThreads := (s.procs p).activeThreads ++ [th.idx]
          flowTbl := ((markActive s th core).procs p).flowTbl }
      else s.procs p := by
  simp only [markActive, modProc_procs, modThread_procs]
  split <;> rfl

theorem markActive_lists {s : Sched} (h : Lists s) {th : ThreadPtr} {core : Nat}
    (hth : th.idx ∈ (s.procs th.proc).idleThreads) : Lists (markActive s th core) := by
  obtain ⟨q, j⟩ := th
  refine lists_iff.2 fun p => ?_
  have hp := lists_iff.1 h p
  by_cases hpq : p = q
  · subst hpq
    have hself := markActive_procs s ⟨p, j⟩ core p
    rw [if_pos rfl] at hself
    refine hp.activate (by rw [hself]) hth (by rw [hself]) (by rw [hself]) (fun i => ?_) fun i => ?_
    all_goals
      simp only [markActive_threads, ThreadPtr.mk.injEq, true_and]
      split <;> rfl
  · have hother := markActive_procs s ⟨q, j⟩ core p
    rw [if_neg hpq] at hother
    refine hp.congr (by rw [hother]) (by rw [hother]) (by rw [hother]) (fun i => ?_) fun i => ?_
    all_goals simp [markActive_threads, hpq]

theorem markActive_refs {s : Sched} {th : ThreadPtr} {core : Nat}
    (h : Refs s fun p => if p = th.proc then 1 else 0) :
    Refs (markActive s th core) fun _ => 0 := by
  intro p
  have hp := h p
  have hother : otherRefs (markActive s th core) p = otherRefs s p := rfl
  rw [markActive_procs, hother]
  split
  · simp_all
    omega
  · simp_all

theorem markActive_polled {s : Sched} (h : Polled s) (th : ThreadPtr) (core : Nat) :
    Polled (markActive s th core) := by
  refine h.congr rfl fun x => ?_
  rw [markActive_threads]
  split <;> rfl

theorem procGet_refs {s : Sched} (h : Refs s fun _ => 0) (p : Nat) :
    Refs (procGet s p) fun q => if q = p then 1 else 0 := by
  intro q
  have hq := h q
  have hother : otherRefs (procGet s p) q = otherRefs s q := rfl
  have hget := procGet_pollOnly s p
  have href : ((procGet s p).procs q).ref = if q = p then (s.procs q).ref + 1 else (s.procs q).ref := by
    rw [procGet, modProc_procs]
    split <;> rfl
  rw [hget.activeThreads, hother, href]
  grind

theorem Kthreads.enable {s : Sched} (h : Kthreads s) {th : ThreadPtr} (core : Nat)
    (hth : th.idx ∈ (s.procs th.proc).idleThreads) :
    Kthreads (schedEnableKthread (procGet s th.proc) th core) := by
  have hget := procGet_pollOnly s th.proc
  have hpolled : Polled (procGet s th.proc) := ⟨h.polled.indexed, h.polled.mem⟩
  have hidle : th.idx ∈ ((procGet s th.proc).procs th.proc).idleThreads := by
    rw [hget.procs]
    exact hth
  have hpoll := pollThread_pollOnly (markActive (procGet s th.proc) th core) th
  refine ⟨(markActive_lists (h.lists.of_pollOnly hget) hidle).of_pollOnly hpoll,
    pollThread_polled (markActive_polled hpolled th core) th,
    pollThread_refs (markActive_refs (procGet_refs h.refs th.proc)) th, ?_, ?_⟩
  · rw [schedEnableKthread, hpoll.clients]
    exact h.clients
  · rw [schedEnableKthread, hpoll.sound]
    exact h.sound

/-! ## Disabling -/

theorem markParked_procs (s : Sched) (th : ThreadPtr) (p : Nat) : (markParked s th).procs p =
      if p = th.proc then
        { s.procs p with
          activeThreads := swapRemove (s.procs p).activeThreads (s.threads th).atIdx
          idleThreads := th.idx :: (s.procs p).idleThreads
          flowTbl := ((markParked s th).procs p).flowTbl }
      else s.procs p := by
  cases hb : (s.procs th.proc).activeThreads.getLast? with
  | none | some _ =>
    simp only [markParked, modProc_procs, hb, modThread_procs]
    split <;> rfl

theorem markParked_threads {s : Sched} {th : ThreadPtr} {j : Nat}
    (hj : (s.procs th.proc).activeThreads.getLast? = some j) (x : ThreadPtr) :
    (markParked s th).threads x =
      { s.threads x with
        active := if x = th then false else (s.threads x).active
        atIdx := if x = ⟨th.proc, j⟩ then (s.threads th).atIdx else (s.threads x).atIdx } := by
  simp only [markParked, hj, modProc_threads, modThread_threads]
  split
  · split <;> rfl
  · split <;> rfl

theorem markParked_frame (s : Sched) (th : ThreadPtr) :
    (markParked s th).state = s.state ∧ (markParked s th).clients = s.clients ∧
      (markParked s th).ts = s.ts ∧ (markParked s th).inFlight = s.inFlight ∧
      (markParked s th).nrGuaranteed = s.nrGuaranteed ∧
      (markParked s th).disabledInactive = (s.disabledInactive || !(s.threads th).active) := by
  rw [markParked]
  cases (s.procs th.proc).activeThreads.getLast? with
  | none | some _ => exact ⟨rfl, rfl, rfl, rfl, rfl, rfl⟩

theorem Lists.exists_last {s : Sched} (h : Lists s) {th : ThreadPtr}
    (hth : (s.threads th).active = true) :
    ∃ j, (s.procs th.proc).activeThreads.getLast? = some j :=
  Svalinn.Iokernel.exists_last ((h.mem_active th.proc th.idx).2 hth)

theorem markParked_lists {s : Sched} (h : Lists s) {th : ThreadPtr}
    (hth : (s.threads th).active = true) : Lists (markParked s th) := by
  obtain ⟨b, hb⟩ := h.exists_last hth
  have hthreads := markParked_threads hb
  obtain ⟨q, j⟩ := th
  refine lists_iff.2 fun p => ?_
  have hp := lists_iff.1 h p
  by_cases hpq : p = q
  · subst hpq
    have hself := markParked_procs s ⟨p, j⟩ p
    rw [if_pos rfl] at hself
    refine hp.park (by rw [hself]) hth hb (by rw [hself]) (by rw [hself]) (fun i => ?_) fun i => ?_
    all_goals simp [hthreads]
  · have hother := markParked_procs s ⟨q, j⟩ p
    rw [if_neg hpq] at hother
    refine hp.congr (by rw [hother]) (by rw [hother]) (by rw [hother]) (fun i => ?_) fun i => ?_
    all_goals simp [hthreads, hpq]

theorem markParked_refs {s : Sched} (hl : Lists s) (h : Refs s fun _ => 0) {th : ThreadPtr}
    (hth : (s.threads th).active = true) :
    Refs (markParked s th) fun p => if p = th.proc then 1 else 0 := by
  intro p
  have hp := h p
  obtain ⟨-, hclients, hts, hflight, -, -⟩ := markParked_frame s th
  have hother : otherRefs (markParked s th) p = otherRefs s p := by
    rw [otherRefs, hclients, hts, hflight, otherRefs]
  have hpos : 0 < (s.procs th.proc).activeThreads.length :=
    length_pos_of_mem ((hl.mem_active th.proc th.idx).2 hth)
  rw [hother, markParked_procs]
  split
  · simp_all [length_swapRemove]
    omega
  · simp_all

theorem markParked_polled {s : Sched} (hl : Lists s) (h : Polled s) {th : ThreadPtr}
    (hth : (s.threads th).active = true) : Polled (markParked s th) := by
  obtain ⟨j, hj⟩ := hl.exists_last hth
  refine h.congr (markParked_frame s th).2.2.1 fun x => ?_
  rw [markParked_threads hj]

theorem procPut_refs {s : Sched} {p : Nat} (h : Refs s fun q => if q = p then 1 else 0) :
    Refs (procPut s p) fun _ => 0 := by
  intro q
  have hq := h q
  have hother : otherRefs (procPut s p) q = otherRefs s q := rfl
  have href : ((procPut s p).procs q).ref = if q = p then (s.procs q).ref - 1 else (s.procs q).ref := by
    rw [procPut, modProc_procs]
    split <;> rfl
  rw [(procPut_pollOnly s p).activeThreads, hother, href]
  split <;> simp_all

theorem schedDisableKthread_pollOnly (s : Sched) (th : ThreadPtr) :
    PollOnly (markParked s th) (schedDisableKthread s th) := by
  rw [schedDisableKthread]
  split
  · exact unpollThread_pollOnly _ th
  · exact .refl _

theorem Kthreads.retire {s : Sched} (h : Kthreads s) {th : ThreadPtr}
    (hth : (s.threads th).active = true) : Kthreads (retireKthread s th) := by
  have hpolled := markParked_polled h.lists h.polled hth
  have hrefs := markParked_refs h.lists h.refs hth
  have hframe := (schedDisableKthread_pollOnly s th).trans
    (procPut_pollOnly (schedDisableKthread s th) th.proc)
  obtain ⟨-, hclients, -, -, -, hsound⟩ := markParked_frame s th
  refine ⟨(markParked_lists h.lists hth).of_pollOnly hframe, ?_, procPut_refs ?_, ?_, ?_⟩
  · refine Polled.mk ?_ ?_
    all_goals
      rw [retireKthread, procPut, modProc_ts, modProc_threads, schedDisableKthread]
      split
    · exact (unpollThread_polled hpolled th).indexed
    · exact hpolled.indexed
    · exact (unpollThread_polled hpolled th).mem
    · exact hpolled.mem
  · rw [schedDisableKthread]
    split
    · exact unpollThread_refs hpolled hrefs th
    · exact hrefs
  · rw [retireKthread, hframe.clients, hclients]
    exact h.clients
  · rw [retireKthread, hframe.sound, hsound, h.sound, hth]
    rfl

/-! ## Clients and packets -/

theorem Kthreads.unreferenced {s : Sched} (h : Kthreads s) {p : Nat} (hp : (s.procs p).ref = 0) :
    (s.procs p).activeThreads = [] ∧ p ∉ s.clients ∧ (∀ th ∈ s.ts, th.proc ≠ p) ∧
      p ∉ s.inFlight := by
  have href := h.refs p
  rw [hp, otherRefs] at href
  have hlen : (s.procs p).activeThreads.length = 0 := by omega
  have hts : s.ts.countP (·.proc == p) = 0 := by omega
  refine ⟨length_eq_zero_iff.1 hlen, ?_, fun th hth heq => ?_, ?_⟩
  · exact count_eq_zero.1 (by omega)
  · exact absurd (countP_eq_zero.1 hts th hth) (by simp [heq])
  · exact count_eq_zero.1 (by omega)

theorem createProc_lists {s : Sched} (h : Lists s) (p n : Nat) (spec : SchedSpec) :
    Lists (createProc s p n spec) := by
  refine lists_iff.2 fun q => ?_
  by_cases hq : q = p
  · subst hq
    constructor
    · simp only [createProc, update_self]
      exact pairwise_reverse.2 (nodup_range.imp fun h => h.symm)
    · simp [createProc, initThread]
    · simp [createProc, initThread]
    · simpa [createProc] using Indexed.nil
    · simp [createProc, initThread]
  · refine (lists_iff.1 h q).congr ?_ ?_ ?_ (fun i => ?_) fun i => ?_
    all_goals simp [createProc, hq]

theorem createProc_polled {s : Sched} (h : Polled s) {p : Nat} (hp : ∀ th ∈ s.ts, th.proc ≠ p)
    (n : Nat) (spec : SchedSpec) : Polled (createProc s p n spec) := by
  refine ⟨h.indexed.congr fun th hth => ?_, fun th => ?_⟩
  · simp [createProc, hp th hth]
  · by_cases hq : th.proc = p
    · simpa [createProc, hq, initThread] using fun hth => hp th hth hq
    · simpa [createProc, hq] using h.mem th

theorem createProc_refs {s : Sched} (h : Kthreads s) {p : Nat} (hp : (s.procs p).ref = 0) (n : Nat)
    (spec : SchedSpec) : Refs (createProc s p n spec) fun q => if q = p then 1 else 0 := by
  intro q
  have hother : otherRefs (createProc s p n spec) q = otherRefs s q := rfl
  have hq := h.refs q
  rw [hother]
  by_cases heq : q = p
  · subst heq
    simp [createProc]
    omega
  · simpa [createProc, heq] using hq

theorem Kthreads.addClient {m : Machine} {s : Sched} (h : Kthreads s) {p : Nat}
    (hp : (s.procs p).ref = 0) (n : Nat) (spec : SchedSpec) (ok : Bool) :
    Kthreads (dpClientsAddClient m s p n spec ok) := by
  obtain ⟨-, hclient, hts, -⟩ := h.unreferenced hp
  have hl := createProc_lists h.lists p n spec
  have hpolled := createProc_polled h.polled hts n spec
  have hrefs := createProc_refs h hp n spec
  rw [dpClientsAddClient]
  split
  · refine ⟨⟨hl.idle_nodup, hl.mem_idle, hl.mem_active, hl.indexed, hl.bounded⟩,
      ⟨hpolled.indexed, hpolled.mem⟩, fun q => ?_, ?_, h.sound⟩
    · have hq := hrefs q
      simp only [otherRefs, count_append, count_singleton, beq_iff_eq] at hq ⊢
      grind
    · refine nodup_append.2 ⟨h.clients, nodup_cons.2 ⟨not_mem_nil, .nil⟩, fun a ha b hb => ?_⟩
      rintro rfl
      exact hclient (mem_singleton.1 hb ▸ ha)
  · have hput := procPut_pollOnly (createProc s p n spec) p
    exact ⟨hl.of_pollOnly hput, ⟨hpolled.indexed, hpolled.mem⟩, procPut_refs hrefs, h.clients,
      h.sound⟩

theorem Kthreads.removeClient {s : Sched} (h : Kthreads s) {p : Nat} (hp : p ∈ s.clients) :
    Kthreads (dpClientsRemoveClient s p) := by
  have hprocs : ∀ q, (dpClientsRemoveClient s p).procs q =
      if q = p then { s.procs q with ref := (s.procs q).ref - 1, kill := true } else s.procs q := by
    intro q
    simp only [dpClientsRemoveClient, procPut, modProc_procs]
    split <;> rfl
  refine ⟨lists_iff.2 fun q => ?_, h.polled.congr rfl fun _ => rfl, fun q => ?_, h.clients.erase p,
    h.sound⟩
  · refine (lists_iff.1 h.lists q).congr ?_ ?_ ?_ (fun i => rfl) fun i => rfl
    all_goals rw [hprocs]; split <;> rfl
  · have hq := h.refs q
    have hother : otherRefs (dpClientsRemoveClient s p) q =
        (s.clients.erase p).count q + s.ts.countP (·.proc == q) + s.inFlight.count q := rfl
    rw [hother, hprocs, count_erase]
    rw [otherRefs] at hq
    have hpos : 0 < s.clients.count p := count_pos_iff.2 hp
    simp only [beq_iff_eq]
    grind

theorem Kthreads.modTxpktq {s : Sched} (h : Kthreads s) (th : ThreadPtr) (f : List Nat → List Nat) :
    Kthreads (s.modThread th fun t => { t with txpktq := f t.txpktq }) := by
  have hthreads : ∀ x, (s.modThread th fun t => { t with txpktq := f t.txpktq }).threads x =
      { s.threads x with txpktq := if x = th then f (s.threads x).txpktq else (s.threads x).txpktq } := by
    intro x
    rw [modThread_threads]
    split <;> rfl
  refine ⟨lists_iff.2 fun q => ?_, h.polled.congr rfl fun x => ?_, h.refs, h.clients, h.sound⟩
  · refine (lists_iff.1 h.lists q).congr rfl rfl rfl (fun i => ?_) fun i => ?_
    all_goals rw [hthreads]
  · rw [hthreads]

theorem Kthreads.unpoll {s : Sched} (h : Kthreads s) (th : ThreadPtr) :
    Kthreads (unpollThread s th) := by
  have hframe := unpollThread_pollOnly s th
  refine ⟨h.lists.of_pollOnly hframe, unpollThread_polled h.polled th,
    unpollThread_refs h.polled h.refs th, ?_, ?_⟩
  · rw [hframe.clients]
    exact h.clients
  · rw [hframe.sound]
    exact h.sound

theorem Kthreads.txPull {s : Sched} (h : Kthreads s) (th : ThreadPtr) : Kthreads (txPull s th) := by
  rw [Iokernel.txPull]
  split
  · split
    · exact h
    · exact h.unpoll th
  · rename_i rest _
    exact h.modTxpktq th fun _ => rest

theorem Kthreads.txPrepare {s : Sched} (h : Kthreads s) (p : Nat) : Kthreads (txPrepare s p) := by
  have hl := h.lists.of_pollOnly (procGet_pollOnly s p)
  refine ⟨⟨hl.idle_nodup, hl.mem_idle, hl.mem_active, hl.indexed, hl.bounded⟩,
    ⟨h.polled.indexed, h.polled.mem⟩, fun q => ?_, h.clients, h.sound⟩
  have hrefs := procGet_refs h.refs p q
  have hother : otherRefs (procGet s p) q =
      s.clients.count q + s.ts.countP (·.proc == q) + s.inFlight.count q := rfl
  have hother' : otherRefs (Iokernel.txPrepare s p) q =
      s.clients.count q + s.ts.countP (·.proc == q) + (p :: s.inFlight).count q := rfl
  have hprocs : (Iokernel.txPrepare s p).procs = (procGet s p).procs := rfl
  rw [hother] at hrefs
  rw [hother', hprocs, hrefs, count_cons]
  simp only [beq_iff_eq]
  grind

theorem Kthreads.txComplete {s : Sched} (h : Kthreads s) {p : Nat} (hp : p ∈ s.inFlight) :
    Kthreads (txComplete s p) := by
  have hput := procPut_pollOnly { s with inFlight := s.inFlight.erase p } p
  have hl : Lists { s with inFlight := s.inFlight.erase p } :=
    ⟨h.lists.idle_nodup, h.lists.mem_idle, h.lists.mem_active, h.lists.indexed, h.lists.bounded⟩
  refine ⟨hl.of_pollOnly hput, ⟨h.polled.indexed, h.polled.mem⟩, procPut_refs fun q => ?_,
    h.clients, h.sound⟩
  have hq := h.refs q
  have hpos : 0 < s.inFlight.count p := count_pos_iff.2 hp
  simp only [otherRefs, count_erase, beq_iff_eq] at hq ⊢
  grind

end Svalinn.Iokernel
