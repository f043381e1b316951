/-
  Iokernel/FlowTable.lean --- the flow table of a process.

  `steerRest` is the rule by which the iokernel fills a steering table: an active entry
  keeps its own index and the others are dealt round-robin.  The lemmas on it are stated
  for any list of indices; the flow table of a process and the RSS table of a directpath
  context both follow from them.
-/
import Svalinn.Iokernel.Slots
import Mathlib.Data.Int.CardIntervalMod

set_option autoImplicit false

namespace Svalinn.Iokernel

open Svalinn.Lib Function List

/-! ## Steering round-robin -/

section Steering

variable {active : List Nat}

@[simp] theorem length_steerRest (j : Nat) (l : List Nat) :
    (steerRest active j l).length = l.length := by
  induction l generalizing j with
  | nil => rfl
  | cons i rest ih =>
    rw [steerRest]
    split <;> simp [ih]

theorem mem_of_mem_steerRest (hne : active ≠ []) {a : Nat} (l : List Nat) {j : Nat}
    (ha : a ∈ steerRest active j l) : a ∈ active := by
  induction l generalizing j with
  | nil => cases ha
  | cons i rest ih =>
    have hlt : j % active.length < active.length := Nat.mod_lt _ (length_pos_iff.2 hne)
    rw [steerRest] at ha
    split at ha
    · rename_i hi
      obtain rfl | ha := mem_cons.1 ha
      · exact hi
      · exact ih ha
    · obtain rfl | ha := mem_cons.1 ha
      · simp [getD_eq_getElem?_getD, hlt]
      · exact ih ha

/-- An active index keeps its own entry. -/
theorem steerRest_own {a : Nat} (ha : a ∈ active) (l : List Nat) {j k : Nat} (hk : l[k]? = some a) :
    (steerRest active j l)[k]? = some a := by
  induction l generalizing j k with
  | nil => simp at hk
  | cons i rest ih =>
    rw [steerRest]
    cases k with
    | zero =>
      obtain rfl : i = a := by simpa using hk
      simp [ha]
    | succ k =>
      have hrest : rest[k]? = some a := by simpa using hk
      split <;> simpa using ih hrest

/-- The entries dealt to `a` are the turns of `a` among as many turns as there are
inactive indices. -/
theorem countP_steerRest (a : Nat) (l : List Nat) (j : Nat) :
    ((steerRest active j l).zip l).countP (fun e => decide (e.1 = a ∧ e.2 ∉ active)) =
      (range' j (l.countP fun i => decide (i ∉ active))).countP
        fun c => decide (active.getD (c % active.length) 0 = a) := by
  induction l generalizing j with
  | nil => simp [steerRest]
  | cons i rest ih =>
    rw [steerRest]
    by_cases hi : i ∈ active
    · simpa [hi] using ih j
    · simpa [hi, countP_cons, range'_succ] using ih (j + 1)

theorem getD_turn (hnodup : active.Nodup) {p : Nat} (hp : p < active.length) (c : Nat) :
    active.getD (c % active.length) 0 = active[p] ↔ c ≡ p [MOD active.length] := by
  have hc : c % active.length < active.length := Nat.mod_lt _ (by omega)
  rw [Nat.ModEq, Nat.mod_eq_of_lt hp, getD_eq_getElem?_getD, getElem?_eq_getElem hc, Option.getD_some]
  exact hnodup.getElem_inj_iff

/-- No active index is dealt more than one entry more than another. -/
theorem steerRest_even (hnodup : active.Nodup) {a b : Nat} (ha : a ∈ active) (hb : b ∈ active)
    (l : List Nat) :
    ((steerRest active 0 l).zip l).countP (fun e => decide (e.1 = a ∧ e.2 ∉ active)) ≤
      ((steerRest active 0 l).zip l).countP (fun e => decide (e.1 = b ∧ e.2 ∉ active)) + 1 := by
  have hpos : 0 < active.length := length_pos_of_mem ha
  obtain ⟨p, hp, rfl⟩ := mem_iff_getElem.1 ha
  obtain ⟨q, hq, rfl⟩ := mem_iff_getElem.1 hb
  have hturns : ∀ r, (hr : r < active.length) →
      ((steerRest active 0 l).zip l).countP (fun e => decide (e.1 = active[r] ∧ e.2 ∉ active)) =
        Nat.count (· ≡ r [MOD active.length]) (l.countP fun i => decide (i ∉ active)) := by
    intro r hr
    simp only [countP_steerRest, getD_turn hnodup hr]
    rw [Nat.count, range_eq_range']
  rw [hturns p hp, hturns q hq, Nat.count_modEq_card _ hpos, Nat.count_modEq_card _ hpos]
  split <;> split <;> omega

end Steering

/-! ## Activations -/

inductive Activation where
  | enable (th : ThreadPtr) (core : Nat)
  | disable (th : ThreadPtr)

/-- `sched_enable_kthread` is applied to an idle kthread, `sched_disable_kthread` to an
active one. -/
def activationStep (s : Sched) : Activation → Option Sched
  | .enable th core =>
    if th.idx ∈ (s.procs th.proc).idleThreads then some (schedEnableKthread s th core) else none
  | .disable th => if (s.threads th).active = true then some (schedDisableKthread s th) else none

def Steered (p : Proc) : Prop :=
  p.activeThreads ≠ [] → p.flowTbl = steerRest p.activeThreads 0 (range p.threadCount)

theorem schedSteerFlows_steered (p : Proc) : Steered { p with flowTbl := schedSteerFlows p } := by
  intro hne
  have hactive : p.activeThreads ≠ [] := hne
  simp [schedSteerFlows, hactive]

/-- Both functions change the lists of one process and then steer its flows. -/
theorem steered_modProc {s t : Sched} (h : ∀ p, Steered (s.procs p)) (ht : t.procs = s.procs)
    (q : Nat) (f : Proc → Proc) (p : Nat) :
    Steered (((t.modProc q f).modProc q fun p => { p with flowTbl := schedSteerFlows p }).procs p) := by
  simp only [modProc_procs]
  split
  · exact schedSteerFlows_steered _
  · exact ht ▸ h p

theorem steered_of_pollOnly {s s' : Sched} (h : ∀ p, Steered (s.procs p)) (hs : PollOnly s s')
    (p : Nat) : Steered (s'.procs p) := by
  rw [hs.procs p]
  exact h p

structure FlowInv (s : Sched) : Prop where
  lists : Lists s
  steered : ∀ p, Steered (s.procs p)

theorem FlowInv.enable {s : Sched} (h : FlowInv s) {th : ThreadPtr} (core : Nat)
    (hth : th.idx ∈ (s.procs th.proc).idleThreads) : FlowInv (schedEnableKthread s th core) := by
  have hpoll := pollThread_pollOnly (markActive s th core) th
  have hsteered : ∀ p, Steered ((markActive s th core).procs p) := by
    intro p
    apply steered_modProc h.steered
    rfl
  exact ⟨(markActive_lists h.lists hth).of_pollOnly hpoll, steered_of_pollOnly hsteered hpoll⟩

theorem markParked_steered {s : Sched} (h : ∀ p, Steered (s.procs p)) (th : ThreadPtr) (p : Nat) :
    Steered ((markParked s th).procs p) := by
  apply steered_modProc h
  split <;> rfl

theorem FlowInv.disable {s : Sched} (h : FlowInv s) {th : ThreadPtr}
    (hth : (s.threads th).active = true) : FlowInv (schedDisableKthread s th) := by
  have hpoll := schedDisableKthread_pollOnly s th
  exact ⟨(markParked_lists h.lists hth).of_pollOnly hpoll,
    steered_of_pollOnly (markParked_steered h.steered th) hpoll⟩

theorem FlowInv.step {s s' : Sched} (h : FlowInv s) {a : Activation}
    (hstep : activationStep s a = some s') : FlowInv s' := by
  cases a with
  | enable th core =>
    obtain ⟨hth, rfl⟩ := Option.ite_some_none_eq_some.1 hstep
    exact h.enable core hth
  | disable th =>
    obtain ⟨hth, rfl⟩ := Option.ite_some_none_eq_some.1 hstep
    exact h.disable hth

/-! ## The table -/

/-- The entries of the table that are not those of active kthreads and name kthread `a`. -/
def entriesGiven (p : Proc) (a : Nat) : Nat :=
  (p.flowTbl.zip (range p.threadCount)).countP fun e => decide (e.1 = a ∧ e.2 ∉ p.activeThreads)

/-- Whatever kthreads of a process are enabled and disabled, while one is active the flow
table leads to active kthreads only, each active kthread has its own entry, and the other
entries are spread evenly. -/
theorem flow_table_even (q n : Nat) (spec : SchedSpec) {s : Sched}
    (hreach : Reaches activationStep anyStep (createProc schedInit q n spec) s) (p : Nat)
    (hactive : (s.procs p).activeThreads ≠ []) :
    (s.procs p).flowTbl.length = (s.procs p).threadCount ∧
      (∀ a ∈ (s.procs p).flowTbl, (s.threads ⟨p, a⟩).active = true) ∧
      (∀ a, (s.threads ⟨p, a⟩).active = true → (s.procs p).flowTbl[a]? = some a) ∧
      ∀ a b, (s.threads ⟨p, a⟩).active = true → (s.threads ⟨p, b⟩).active = true →
        entriesGiven (s.procs p) a ≤ entriesGiven (s.procs p) b + 1 := by
  have hlists : Lists schedInit := schedInv_init.kthreads.lists
  -- no kthread of a new process is active, so nothing is said of its table yet
  have hinit : FlowInv (createProc schedInit q n spec) := by
    refine ⟨createProc_lists hlists q n spec, fun p hne => ?_⟩
    by_cases hp : p = q <;> simp [createProc, schedInit, noProc, hp] at hne
  have h := hreach.invariant hinit fun _ _ _ hu _ hst => hu.step hst
  have htbl := h.steered p hactive
  simp only [entriesGiven, htbl, ← h.lists.mem_active]
  refine ⟨by simp, fun a ha => mem_of_mem_steerRest hactive _ ha, fun a ha => ?_, fun a b ha hb => ?_⟩
  · have hlt : a < (s.procs p).threadCount := h.lists.bounded ⟨p, a⟩ ((h.lists.mem_active p a).1 ha)
    exact steerRest_own ha _ (by simp [hlt])
  · exact steerRest_even (h.lists.indexed p).nodup ha hb _

/-- The first of three kthreads is disabled: its entry goes to the last one, which the removal
moved to the front of the active list. -/
theorem flow_table_even_two : ∃ s, Reaches activationStep anyStep
    (createProc schedInit 0 3 noProc.schedCfg) s ∧
      (s.procs 0).flowTbl = [2, 1, 2] ∧ (s.threads ⟨0, 2⟩).active = true := by
  have hrun : ∃ s, Reaches activationStep anyStep (createProc schedInit 0 3 noProc.schedCfg) s ∧
      (s.procs 0).flowTbl = [2, 1, 2] ∧ (s.procs 0).activeThreads ≠ [] :=
    exists_of_runActions
      [.enable ⟨0, 0⟩ 1, .enable ⟨0, 1⟩ 2, .enable ⟨0, 2⟩ 3, .disable ⟨0, 0⟩] (by decide +kernel)
  obtain ⟨s, hreach, htbl, hne⟩ := hrun
  have hspec := flow_table_even 0 3 noProc.schedCfg hreach 0 hne
  exact ⟨s, hreach, htbl, hspec.2.1 2 (by simp [htbl])⟩

end Svalinn.Iokernel
