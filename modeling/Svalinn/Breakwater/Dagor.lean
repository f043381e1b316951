/-
  Breakwater/Dagor.lean --- the pending-request counters of the Dagor server (dg_server.c).

  A session has one receiver, one sender and a worker per request.  `s->num_pending` goes up
  when the receiver hands a request to a worker and down when the sender takes the completed
  slots; `srpc_num_pending` follows outside the lock, up right after the first and down once
  the batch is written.  A request above the priority threshold becomes a completed slot
  without being counted, and the sender takes it off both counters all the same.

  The law of every run is `Session.Law` with `Balanced`: the counter of a session is off by
  the drops collected so far.  Without drops both counters are what they stand for.
-/
import Svalinn.Lib.Shares
import Svalinn.Lib.Transition
import Mathlib.Algebra.BigOperators.Fin

set_option autoImplicit false

namespace Svalinn.Breakwater.Dagor

open Svalinn.Lib Function Option

/-! ## The model -/

abbrev sdgMaxWindow : Nat := 64

inductive Slot where
  | avail
  | reading
  /-- in `s->num_pending` and not yet in `srpc_num_pending` -/
  | counted
  | working
  /-- in `completed_slots` -/
  | completed (drop : Bool)
  /-- in the sender's `tmp` -/
  | sending
deriving DecidableEq

namespace Slot

def held : Slot → Bool
  | reading | counted => true
  | _ => false

def handed : Slot → Nat
  | counted | working | completed false => 1
  | _ => 0

def isCounted : Slot → Nat
  | counted => 1
  | _ => 0

def isCompleted : Slot → Nat
  | completed _ => 1
  | _ => 0

def isDropped : Slot → Nat
  | completed true => 1
  | _ => 0

/-- `tmp` gets the completed slots. -/
def collect : Slot → Slot
  | completed _ => sending
  | a => a

end Slot

inductive Stage where
  | absent
  | running
  | closed
deriving DecidableEq

/-- `struct sdg_session`. `nrhdr` is the batch collected and not yet taken off `srpc_num_pending`;
`drops` is a ghost that counts the drops among the collected requests. -/
structure Session where
  stage : Stage := .absent
  numPending : Int := 0
  slots : Fin sdgMaxWindow → Slot := fun _ => .avail
  nrhdr : Nat := 0
  drops : Nat := 0

def Session.tally (x : Session) (w : Slot → Nat) : Nat := ∑ i, w (x.slots i)

def Session.put (x : Session) (i : Fin sdgMaxWindow) (a : Slot) : Session :=
  { x with slots := update x.slots i a }

inductive Event where
  /-- `srpc_server` sets the session up -/
  | accept
  /-- `srpc_get_slot` -/
  | getSlot (i : Fin sdgMaxWindow)
  | readFails (i : Fin sdgMaxWindow)
  /-- the payload is read: the request is dropped or `num_pending++` -/
  | receive (i : Fin sdgMaxWindow) (prio : Nat)
  /-- `atomic_inc(&srpc_num_pending)` and `thread_spawn` -/
  | spawn (i : Fin sdgMaxWindow)
  /-- `srpc_worker` is done -/
  | complete (i : Fin sdgMaxWindow)
  /-- `srpc_sender` takes the completed slots -/
  | collect
  /-- `srpc_put_slot` after the batch is written -/
  | putSlot (i : Fin sdgMaxWindow)
  /-- `atomic_sub_and_fetch(&srpc_num_pending, nrhdr)` -/
  | sent
  | close
  /-- the sender frees the slots, `srpc_server` frees the session -/
  | drain

def Session.Receiving (x : Session) : Prop := ∃ i, (x.slots i).held = true

instance (x : Session) : Decidable x.Receiving := inferInstanceAs (Decidable (∃ _, _))

/-- One step of a session, with what it adds to `srpc_num_pending`. -/
def Session.step (thresh : Nat) (x : Session) : Event → Option (Session × Int)
  | .accept => if x.stage = .absent then some ({ stage := .running }, 0) else none
  | .getSlot i =>
    -- the lowest free slot; without one the request is read and forgotten
    if x.stage = .running ∧ ¬x.Receiving ∧ x.slots i = .avail ∧ ∀ j < i, x.slots j ≠ .avail then
      some (x.put i .reading, 0) else none
  | .readFails i => if x.slots i = .reading then some (x.put i .avail, 0) else none
  | .receive i prio =>
    if x.slots i = .reading then
      if thresh < prio then some (x.put i (.completed true), 0)
      else some ({ x.put i .counted with numPending := x.numPending + 1 }, 0)
    else none
  | .spawn i => if x.slots i = .counted then some (x.put i .working, 1) else none
  | .complete i => if x.slots i = .working then some (x.put i (.completed false), 0) else none
  | .collect =>
    if x.stage = .running ∧ x.nrhdr = 0 ∧ x.tally Slot.isCompleted ≠ 0 then
      some ({ x with
        slots := fun i => (x.slots i).collect
        numPending := x.numPending - x.tally Slot.isCompleted
        nrhdr := x.tally Slot.isCompleted
        drops := x.drops + x.tally Slot.isDropped }, 0)
    else none
  | .putSlot i => if x.slots i = .sending then some (x.put i .avail, 0) else none
  | .sent =>
    if x.nrhdr ≠ 0 ∧ ∀ i, x.slots i ≠ .sending then some ({ x with nrhdr := 0 }, -x.nrhdr) else none
  | .close =>
    if x.stage = .running ∧ ¬x.Receiving then
      some ({ x with stage := .closed, numPending := 0 }, -x.numPending) else none
  | .drain =>
    -- `avail_slots` and `completed_slots` have all the bits
    if x.stage = .closed ∧ x.nrhdr = 0 ∧ ∀ i, x.slots i = .avail ∨ (x.slots i).isCompleted = 1 then
      some ({}, 0) else none

structure Server (K : Type) where
  sess : K → Session := fun _ => {}
  srpcNumPending : Int := 0
  dagorPrioThresh : Nat := 32

inductive Action (K : Type) where
  | session (k : K) (e : Event)
  /-- `dagor_prio_update` writes the threshold -/
  | prioUpdate (thresh : Nat)

section Runs

variable {K : Type} [DecidableEq K]

def step (s : Server K) : Action K → Option (Server K)
  | .session k e => ((s.sess k).step s.dagorPrioThresh e).map fun r =>
      { s with sess := update s.sess k r.1, srpcNumPending := s.srpcNumPending + r.2 }
  | .prioUpdate thresh => some { s with dagorPrioThresh := thresh }

def noDrop (s : Server K) : Action K → Prop
  | .session _ (.receive _ prio) => prio ≤ s.dagorPrioThresh
  | _ => True

instance (s : Server K) (a : Action K) : Decidable (noDrop s a) := by
  cases a with
  | session k e => cases e <;> unfold noDrop <;> infer_instance
  | prioUpdate => exact isTrue trivial

end Runs

/-! ## One session -/

structure Session.Law (x : Session) : Prop where
  running : x.stage = .running → x.numPending + x.drops = x.tally Slot.handed
  shut : x.stage ≠ .running → x.numPending = 0 ∧ ¬x.Receiving
  absent : x.stage = .absent → x.nrhdr = 0

/-- The part of `srpc_num_pending` that stands for this session. -/
def Session.share (x : Session) : Int := x.numPending + x.nrhdr - x.tally Slot.isCounted

section Session

variable {x x' : Session} {i : Fin sdgMaxWindow} {a : Slot} {δ : Int} {thresh : Nat} {e : Event}

theorem tally_put (w : Slot → Nat) : (x.put i a).tally w + w (x.slots i) = x.tally w + w a :=
  sum_update w x.slots i a

theorem tally_isCounted (h : ¬x.Receiving) : x.tally Slot.isCounted = 0 := by
  refine Finset.sum_eq_zero fun i _ => ?_
  cases hslot : x.slots i with
  | counted => exact absurd ⟨i, by rw [hslot]; rfl⟩ h
  | _ => rfl

theorem Session.Law.share_of_shut (h : x.Law) (hstage : x.stage ≠ .running) :
    x.share = x.nrhdr := by
  rw [Session.share, (h.shut hstage).1, tally_isCounted (h.shut hstage).2]
  omega

theorem law_fresh : ({} : Session).Law :=
  ⟨nofun, fun _ => ⟨rfl, by decide⟩, fun _ => rfl⟩

theorem not_receiving_put (h : ¬x.Receiving) (ha : a.held = false) : ¬(x.put i a).Receiving := by
  rintro ⟨j, hj⟩
  change (update x.slots i a j).held = true at hj
  rw [update_apply] at hj
  split at hj
  · exact absurd (ha.symm.trans hj) (by decide)
  · exact h ⟨j, hj⟩

theorem Session.Law.put (h : x.Law) (hheld : a.held = true → x.stage = .running)
    (hhanded : a.handed = (x.slots i).handed) : (x.put i a).Law where
  running := fun hrun => by
    have htally := tally_put (x := x) (i := i) (a := a) Slot.handed
    have hlaw := h.running hrun
    change x.numPending + x.drops = _
    omega
  shut := fun hstage => ⟨(h.shut hstage).1, not_receiving_put (h.shut hstage).2
    (Bool.eq_false_iff.2 fun hh => hstage (hheld hh))⟩
  absent := h.absent

theorem share_put (hcounted : a.isCounted = (x.slots i).isCounted) : (x.put i a).share = x.share := by
  have htally := tally_put (x := x) (i := i) (a := a) Slot.isCounted
  change x.numPending + x.nrhdr - _ = x.numPending + x.nrhdr - _
  omega

theorem Session.Law.running_of_held (h : x.Law) (hslot : (x.slots i).held = true) :
    x.stage = .running := by
  by_contra hstage
  exact (h.shut hstage).2 ⟨i, hslot⟩

theorem tally_collect_handed : ∑ i, (x.slots i).collect.handed + x.tally Slot.isCompleted =
    x.tally Slot.handed + x.tally Slot.isDropped := by
  simp only [Session.tally, ← Finset.sum_add_distrib]
  refine Finset.sum_congr rfl fun i _ => ?_
  rcases x.slots i with _ | _ | _ | _ | (_ | _) | _ <;> rfl

theorem tally_collect_isCounted : ∑ i, (x.slots i).collect.isCounted = x.tally Slot.isCounted :=
  Finset.sum_congr rfl fun i _ => by cases x.slots i <;> rfl

/-- What one step of a session does: the law stays, and its part of the total changes by what
the step adds to `srpc_num_pending`. -/
theorem Session.Law.step (h : x.Law) (hstep : x.step thresh e = some (x', δ)) :
    x'.Law ∧ x'.share = x.share + δ := by
  cases e with
  | accept =>
    obtain ⟨hstage, ⟨⟩⟩ := ite_none_right_eq_some.1 hstep
    rw [h.share_of_shut (by rw [hstage]; nofun), h.absent hstage]
    exact ⟨⟨fun _ => rfl, fun hne => absurd rfl hne, nofun⟩, rfl⟩
  | getSlot i =>
    obtain ⟨⟨hrun, -, hslot, -⟩, ⟨⟩⟩ := ite_none_right_eq_some.1 hstep
    exact ⟨h.put (fun _ => hrun) (hslot ▸ rfl), (share_put (hslot ▸ rfl)).trans (by omega)⟩
  | readFails i | complete i | putSlot i =>
    obtain ⟨hslot, ⟨⟩⟩ := ite_none_right_eq_some.1 hstep
    exact ⟨h.put nofun (hslot ▸ rfl), (share_put (hslot ▸ rfl)).trans (by omega)⟩
  | receive i prio =>
    obtain ⟨hslot, hstep⟩ := ite_none_right_eq_some.1 hstep
    split at hstep
    · obtain ⟨⟩ := hstep
      exact ⟨h.put nofun (hslot ▸ rfl), (share_put (hslot ▸ rfl)).trans (by omega)⟩
    · obtain ⟨⟩ := hstep
      have hrun := h.running_of_held (i := i) (hslot ▸ rfl)
      have hhanded := tally_put (x := x) (i := i) (a := .counted) Slot.handed
      have hcounted := tally_put (x := x) (i := i) (a := .counted) Slot.isCounted
      simp only [hslot, Slot.handed, Slot.isCounted] at hhanded hcounted
      have hlaw := h.running hrun
      refine ⟨⟨fun _ => ?_, fun hne => absurd hrun hne, fun hab => ?_⟩, ?_⟩
      · change x.numPending + 1 + x.drops = ((x.put i .counted).tally Slot.handed : Int)
        omega
      · exact h.absent hab
      · change x.numPending + 1 + x.nrhdr - ((x.put i .counted).tally Slot.isCounted : Int) =
          x.numPending + x.nrhdr - _ + 0
        omega
  | spawn i =>
    obtain ⟨hslot, ⟨⟩⟩ := ite_none_right_eq_some.1 hstep
    have hcounted := tally_put (x := x) (i := i) (a := .working) Slot.isCounted
    simp only [hslot, Slot.isCounted] at hcounted
    refine ⟨h.put nofun (hslot ▸ rfl), ?_⟩
    change x.numPending + x.nrhdr - _ = x.numPending + x.nrhdr - _ + 1
    omega
  | collect =>
    obtain ⟨⟨hrun, hnone, -⟩, ⟨⟩⟩ := ite_none_right_eq_some.1 hstep
    have hhanded := tally_collect_handed (x := x)
    have hlaw := h.running hrun
    refine ⟨⟨fun _ => ?_, fun hne => absurd hrun hne, fun hab => ?_⟩, ?_⟩
    · change x.numPending - x.tally Slot.isCompleted + ((x.drops + x.tally Slot.isDropped : Nat) : Int) =
        ((∑ i, (x.slots i).collect.handed : Nat) : Int)
      omega
    · exact absurd (hrun.symm.trans hab) nofun
    · change x.numPending - x.tally Slot.isCompleted + x.tally Slot.isCompleted -
        ((∑ i, (x.slots i).collect.isCounted : Nat) : Int) = x.numPending + x.nrhdr - _ + 0
      rw [tally_collect_isCounted]
      omega
  | sent =>
    obtain ⟨-, ⟨⟩⟩ := ite_none_right_eq_some.1 hstep
    refine ⟨⟨h.running, h.shut, fun _ => rfl⟩, ?_⟩
    change x.numPending + 0 - (x.tally Slot.isCounted : Int) = x.numPending + x.nrhdr - _ + -x.nrhdr
    omega
  | close =>
    obtain ⟨⟨-, hidle⟩, ⟨⟩⟩ := ite_none_right_eq_some.1 hstep
    refine ⟨⟨nofun, fun _ => ⟨rfl, hidle⟩, nofun⟩, ?_⟩
    change 0 + x.nrhdr - (x.tally Slot.isCounted : Int) = x.numPending + x.nrhdr - _ + -x.numPending
    omega
  | drain =>
    obtain ⟨⟨hclosed, hnone, -⟩, ⟨⟩⟩ := ite_none_right_eq_some.1 hstep
    rw [h.share_of_shut (by rw [hclosed]; nofun), hnone]
    exact ⟨law_fresh, law_fresh.share_of_shut nofun⟩

def Session.Clean (x : Session) : Prop := x.drops = 0 ∧ ∀ i, x.slots i ≠ .completed true

theorem Session.Clean.put (h : x.Clean) (ha : a ≠ .completed true) : (x.put i a).Clean := by
  refine ⟨h.1, fun j => ?_⟩
  change update x.slots i a j ≠ _
  rw [update_apply]
  split
  · exact ha
  · exact h.2 j

theorem Session.Clean.step (h : x.Clean) (hok : ∀ i prio, e = .receive i prio → prio ≤ thresh)
    (hstep : x.step thresh e = some (x', δ)) : x'.Clean := by
  cases e with
  | accept | drain =>
    obtain ⟨-, ⟨⟩⟩ := ite_none_right_eq_some.1 hstep
    exact ⟨rfl, nofun⟩
  | getSlot i | readFails i | spawn i | complete i | putSlot i =>
    obtain ⟨-, ⟨⟩⟩ := ite_none_right_eq_some.1 hstep
    exact h.put nofun
  | receive i prio =>
    obtain ⟨-, hstep⟩ := ite_none_right_eq_some.1 hstep
    rw [if_neg (Nat.not_lt.2 (hok i prio rfl))] at hstep
    obtain ⟨⟩ := hstep
    exact (h.put (a := .counted) nofun :)
  | collect =>
    obtain ⟨-, ⟨⟩⟩ := ite_none_right_eq_some.1 hstep
    have hdropped : x.tally Slot.isDropped = 0 := by
      refine Finset.sum_eq_zero fun i _ => ?_
      have hne := h.2 i
      rcases hslot : x.slots i with _ | _ | _ | _ | (_ | _) | _
      case completed.true => exact absurd hslot hne
      all_goals rfl
    refine ⟨?_, fun i => ?_⟩
    · change x.drops + x.tally Slot.isDropped = 0
      rw [h.1, hdropped]
    · change (x.slots i).collect ≠ _
      cases x.slots i <;> nofun
  | sent | close =>
    obtain ⟨-, ⟨⟩⟩ := ite_none_right_eq_some.1 hstep
    exact h

end Session

/-! ## The server -/

section Server

variable {K : Type} [DecidableEq K] [Fintype K] {s t : Server K}

structure Balanced (s : Server K) : Prop where
  law : ∀ k, (s.sess k).Law
  total : s.srpcNumPending = ∑ k, (s.sess k).share

theorem Balanced.step {a : Action K} (h : Balanced s) (hstep : step s a = some t) : Balanced t := by
  cases a with
  | prioUpdate thresh =>
    obtain ⟨⟩ := hstep
    exact ⟨h.law, h.total⟩
  | session k e =>
    obtain ⟨⟨x, δ⟩, hx, rfl⟩ := map_eq_some_iff.1 hstep
    obtain ⟨hlaw, hshare⟩ := (h.law k).step hx
    refine ⟨fun j => ?_, ?_⟩
    · change (update s.sess k x j).Law
      rw [update_apply]
      split
      · exact hlaw
      · exact h.law j
    · have hsum := sum_update Session.share s.sess k x
      have htotal := h.total
      change s.srpcNumPending + δ = ∑ j, (update s.sess k x j).share
      omega

theorem balanced_of_reaches {ok : Server K → Action K → Prop} (h : Reaches step ok {} s) :
    Balanced s :=
  h.invariant (P := Balanced)
    ⟨fun _ => law_fresh, (Finset.sum_eq_zero fun _ _ => law_fresh.share_of_shut nofun).symm⟩
    fun _ _ _ hb _ hstep => hb.step hstep

omit [Fintype K] in
theorem clean_of_reaches (h : Reaches step noDrop {} s) (k : K) : (s.sess k).Clean := by
  refine h.invariant (P := fun u : Server K => ∀ j, (u.sess j).Clean)
    (fun _ => ⟨rfl, nofun⟩) (fun u a v hu hok hstep j => ?_) k
  cases a with
  | prioUpdate thresh =>
    obtain ⟨⟩ := hstep
    exact hu j
  | session k e =>
    obtain ⟨⟨x, δ⟩, hx, rfl⟩ := map_eq_some_iff.1 hstep
    change (update u.sess k x j).Clean
    rw [update_apply]
    split
    · refine (hu k).step (fun i prio he => ?_) hx
      subst he
      exact hok
    · exact hu j

structure Good (s : Server K) : Prop where
  pending : ∀ k, (s.sess k).stage = .running → (s.sess k).numPending = (s.sess k).tally Slot.handed
  total : (∀ k, (s.sess k).nrhdr = 0) → (∀ k i, (s.sess k).slots i ≠ .counted) →
    s.srpcNumPending = ∑ k with (s.sess k).stage = .running, (s.sess k).numPending
  nonneg : 0 ≤ s.srpcNumPending ∧ ∀ k, 0 ≤ (s.sess k).numPending
  idle : (∀ k, (s.sess k).stage = .absent ∨ (s.sess k).stage = .closed ∧ (s.sess k).nrhdr = 0) →
    s.srpcNumPending = 0

theorem isCounted_le_handed (x : Session) : x.tally Slot.isCounted ≤ x.tally Slot.handed :=
  Finset.sum_le_sum fun i _ => by rcases x.slots i with _ | _ | _ | _ | (_ | _) | _ <;> decide

/-- In every run without priority drops, over any number of sessions, the counters are what
they stand for; without the condition `Balanced` holds. -/
theorem dagor_counters_exact (hreach : Reaches step noDrop {} s) : Good s := by
  have hbal := balanced_of_reaches hreach
  have hpending : ∀ k, (s.sess k).stage = .running →
      (s.sess k).numPending = (s.sess k).tally Slot.handed := fun k hrun => by
    have hlaw := (hbal.law k).running hrun
    rw [(clean_of_reaches hreach k).1] at hlaw
    omega
  have hshare : ∀ k, 0 ≤ (s.sess k).share ∧ 0 ≤ (s.sess k).numPending := fun k => by
    by_cases hrun : (s.sess k).stage = .running
    · have heq := hpending k hrun
      have hle := isCounted_le_handed (s.sess k)
      unfold Session.share
      omega
    · rw [(hbal.law k).share_of_shut hrun, ((hbal.law k).shut hrun).1]
      omega
  refine ⟨hpending, fun hsent hcounted => ?_, ⟨?_, fun k => (hshare k).2⟩, fun hshut => ?_⟩
  · rw [hbal.total, Finset.sum_filter]
    refine Finset.sum_congr rfl fun k _ => ?_
    split
    next hrun =>
      have hzero : (s.sess k).tally Slot.isCounted = 0 :=
        Finset.sum_eq_zero fun i _ => by
          have hne := hcounted k i
          cases hslot : (s.sess k).slots i with
          | counted => exact absurd hslot hne
          | _ => rfl
      rw [Session.share, hsent k, hzero]
      omega
    next hrun => rw [(hbal.law k).share_of_shut hrun, hsent k]; rfl
  · rw [hbal.total]
    exact Finset.sum_nonneg fun k _ => (hshare k).1
  · rw [hbal.total]
    refine Finset.sum_eq_zero fun k _ => ?_
    rcases hshut k with hab | ⟨hclosed, hsent⟩
    · rw [(hbal.law k).share_of_shut (by rw [hab]; nofun), (hbal.law k).absent hab]
      rfl
    · rw [(hbal.law k).share_of_shut (by rw [hclosed]; nofun), hsent]
      rfl

end Server

/-- Two sessions, each with a request handed to a worker; one worker is done. -/
theorem dagor_counters_exact_two : ∃ s : Server (Fin 2), Reaches step noDrop {} s ∧
    s.srpcNumPending = 2 ∧ (s.sess 0).slots 0 = .completed false ∧ Good s := by
  obtain ⟨s, hreach, htwo, hdone⟩ : ∃ s : Server (Fin 2), Reaches step noDrop {} s ∧
      s.srpcNumPending = 2 ∧ (s.sess 0).slots 0 = .completed false :=
    exists_of_runChecked
      [.session 0 .accept, .session 1 .accept, .session 0 (.getSlot 0), .session 0 (.receive 0 7),
        .session 0 (.spawn 0), .session 1 (.getSlot 0), .session 1 (.receive 0 32),
        .session 1 (.spawn 0), .session 0 (.complete 0)] (by decide +kernel)
  exact ⟨s, hreach, htwo, hdone, dagor_counters_exact hreach⟩

/-- One request above the threshold: it is never counted, the sender takes it off, and both
counters stay at minus one with nothing pending and nobody in between. -/
theorem dropped_request_uncounts : ∃ s : Server (Fin 1), Reaches step anyStep {} s ∧
    (s.sess 0).stage = .running ∧ (s.sess 0).numPending = -1 ∧ s.srpcNumPending = -1 ∧
      (s.sess 0).nrhdr = 0 ∧ ∀ i, (s.sess 0).slots i = .avail :=
  exists_of_runActions
    [.session 0 .accept, .session 0 (.getSlot 0), .session 0 (.receive 0 33), .session 0 .collect,
      .session 0 (.putSlot 0), .session 0 .sent] (by decide +kernel)

end Svalinn.Breakwater.Dagor
