/-
  Pcc/ClientTimer.lean --- the expiry thread of a client session.

  Source: `breakwater/src/pcc_client.c` (`crpc_timer`, with the calls that fill and empty
  the queue from `Pcc/ClientQueue.lean`).

  The thread drops the requests that have expired, picks a request under `s->lock`, gives
  the lock up and only then reads the time stamp of the request it picked, so a call of the
  session can come between.  The request it picks is the last one of the queue, not the
  first: it sleeps for the youngest request.
-/
import Svalinn.Pcc.ClientQueue

set_option autoImplicit false

namespace Svalinn.Pcc.ClientTimer

open Svalinn.Lib Svalinn.Pcc.ClientQueue List Option

inductive Phase where
  /-- in front of `condvar_wait`, or about to take the lock -/
  | up
  /-- it has given the lock up with `c = s->qreq[pos]` -/
  | picked (pos : Nat)
  /-- in `timer_sleep_until` -/
  | asleep (wake : Nat)
  deriving DecidableEq

structure Sys where
  session : Session
  phase : Phase

inductive Event where
  /-- a call of the session; the rounds of the timer are `round` -/
  | client (e : ClientQueue.Event)
  | round (now : Nat)
  | sleep
  | wake (now : Nat)

def pick (s : Session) : Nat := ringSlot crpcQlen (s.head - 1)

/-- The argument of `timer_sleep_until`. -/
def wakeTime (c : CrpcCtx) : Nat := add64 c.ts maxClientDelayUs

def step (s : Sys) : Event → Option Sys
  | .client (.timer _) => none
  | .client e => (ClientQueue.step s.session e).map fun t => { s with session := t }
  | .round now =>
    match s.phase with
    | .up =>
      if s.session.head = s.session.tail then none
      else (ClientQueue.step s.session (.timer now)).map fun t =>
        ⟨t, if t.head = t.tail then .up else .picked (pick t)⟩
    | _ => none
  | .sleep =>
    match s.phase with
    | .picked pos => some { s with phase := .asleep (wakeTime (s.session.qreq pos)) }
    | _ => none
  | .wake now =>
    match s.phase with
    | .asleep wake =>
      if wake ≤ now then (s.session.after s.session now now).map fun t => ⟨t, .up⟩ else none
    | _ => none

def init : Sys := ⟨cpccOpen, .up⟩

/-! ## The property and the condition -/

/-- If the thread goes to sleep now, it wakes up no later than the oldest request expires. -/
def Punctual (s : Sys) : Prop :=
  ∀ s' wake, step s .sleep = some s' → s'.phase = .asleep wake → s.session.head ≠ s.session.tail →
    wake ≤ s.session.first.ts + maxClientDelayUs

def SameStamps (s : Session) : Prop := ∀ c ∈ s.queue, c.ts = s.first.ts

instance (s : Session) : Decidable (SameStamps s) := List.decidableBAll _ _

/-- The requests left after a round have one time stamp, and no call refills the slot that was
picked before its time stamp is read. -/
def Guard (s : Sys) : Event → Prop
  | .round now => SameStamps (s.session.crpcTimer now)
  | .client e => ∀ pos t, s.phase = .picked pos → ClientQueue.step s.session e = some t →
      t.qreq pos = s.session.qreq pos
  | _ => True

theorem punctual_iff {s : Sys} : Punctual s ↔ ∀ pos, s.phase = .picked pos →
    s.session.head ≠ s.session.tail →
      wakeTime (s.session.qreq pos) ≤ s.session.first.ts + maxClientDelayUs := by
  constructor
  · intro h pos hpos hne
    refine h { s with phase := .asleep (wakeTime (s.session.qreq pos)) } _ ?_ rfl hne
    simp only [step, hpos]
  · intro h s' wake hstep hwake hne
    cases hphase : s.phase with
    | picked pos =>
      simp only [step, hphase, Option.some.injEq] at hstep
      subst hstep
      obtain rfl := Phase.asleep.inj hwake
      exact h pos hphase hne
    | up | asleep _ => simp [step, hphase] at hstep

/-! ## What the calls do to the queue -/

section Calls

variable {s : Session} {now : Nat}

/-- Every request of the later queue was queued before, or has come at `now`. -/
def Admits (now : Nat) (s t : Session) : Prop := ∀ c ∈ t.queue, c ∈ s.queue ∨ c.ts = now

theorem Admits.refl (s : Session) : Admits now s s := fun _ hc => .inl hc

theorem Admits.trans {t u : Session} (hst : Admits now s t) (htu : Admits now t u) : Admits now s u := by
  intro c hc
  obtain hc | hc := htu c hc
  · exact hst c hc
  · exact .inr hc

theorem admits_pop (hne : s.head ≠ s.tail) (d : Departure) : Admits now s (s.pop d) := by
  intro c hc
  rw [queue_pop hne]
  exact .inl (mem_cons_of_mem _ hc)

theorem admits_sendLoop (i drain n : Nat) (s : Session) : Admits now s (sendLoop i drain n s) := by
  induction n generalizing s with
  | zero => exact .refl s
  | succ n ih =>
    unfold sendLoop
    split
    · rename_i hgo
      have hsent : Admits now s (s.sendFirst i drain) := admits_pop hgo.1 (.dropped 0)
      exact hsent.trans (ih _)
    · exact .refl s

theorem admits_dropLoop (keep : CrpcCtx → Bool) (n : Nat) (s : Session) :
    Admits now s (dropLoop keep n s) := by
  induction n generalizing s with
  | zero => exact .refl s
  | succ n ih =>
    unfold dropLoop
    split
    · exact .refl s
    · rename_i hne
      split
      · exact .refl s
      · have hdropped : Admits now s s.dropFirst := admits_pop hne (.dropped 0)
        exact hdropped.trans (ih _)

theorem admits_crpcSendRequestVector (i drain : Nat) (s : Session) :
    Admits now s (s.crpcSendRequestVector i drain) := by
  unfold Session.crpcSendRequestVector
  split
  · exact .refl s
  · have hloop : Admits now s (sendLoop i drain s.demand s) := admits_sendLoop i drain _ s
    dsimp only
    split
    · rename_i hempty
      intro c hc
      rw [queue_of_empty rfl] at hc
      nomatch hc
    · exact hloop

theorem admits_crpcDrainQueue (drain : Nat) (s : Session) : Admits now s (s.crpcDrainQueue drain) := by
  unfold Session.crpcDrainQueue
  split
  · exact .refl s
  · have hloop : Admits now s (dropLoop (keepInDrain drain) s.demand s) := admits_dropLoop _ _ s
    dsimp only
    split
    · exact hloop
    · rename_i i _
      exact hloop.trans (admits_crpcSendRequestVector i drain _)

theorem admits_crpcEnqueueOne (h : Inv now s) (len : Nat) : Admits now s (s.crpcEnqueueOne now len) := by
  obtain ⟨s₁, hs₁, hcases, hroom⟩ := h.room
  have hadmits : Admits now s s₁ := by
    obtain rfl | ⟨hne, rfl⟩ := hcases
    · exact .refl _
    · exact admits_pop hne (.dropped 0)
  have hpush : Admits now s (s₁.push now len) := by
    intro c hc
    rw [queue_push len hroom] at hc
    obtain hc | hc := mem_append.1 hc
    · exact hadmits c hc
    · rw [mem_singleton.1 hc]
      exact .inr rfl
  unfold Session.crpcEnqueueOne
  dsimp only
  rw [← hs₁]
  split
  · exact hpush
  · exact hpush

theorem admits_cpccSendOne {drain len : Nat} (h : Inv now s) :
    Admits now s (s.cpccSendOne now drain len) := by
  unfold Session.cpccSendOne
  split
  · exact .refl s
  split
  · exact .refl s
  · exact (admits_crpcEnqueueOne h len).trans (admits_crpcDrainQueue drain _)

theorem admits_cpccRecvOne (i : Nat) (m : ServerMsg) (time : Nat) :
    Admits now s (s.cpccRecvOne i m time) := by
  unfold Session.cpccRecvOne
  dsimp only
  split
  · exact admits_crpcDrainQueue time { s with conns := Function.update s.conns i ((s.conns i).credited m) }
  · exact .refl s

/-- A call admits only requests that come after everything that has happened, and the clock
does not go back. -/
theorem call_admits {t : Session} {e : ClientQueue.Event} (h : Inv s.clock s)
    (hstep : ClientQueue.step s e = some t) :
    s.clock ≤ t.clock ∧ ∀ c ∈ t.queue, c ∈ s.queue ∨ s.clock ≤ c.ts := by
  have hafter : ∀ {s' start stop}, s.after s' start stop = some t → (s.clock ≤ start → Admits start s s') →
      s.clock ≤ t.clock ∧ ∀ c ∈ t.queue, c ∈ s.queue ∨ s.clock ≤ c.ts := by
    intro s' start stop hs' hadmits
    obtain ⟨⟨hstart, hstop, -⟩, rfl⟩ := ite_some_none_eq_some.1 hs'
    refine ⟨hstart.trans hstop, fun c hc => ?_⟩
    obtain hc | hc := hadmits hstart c hc
    · exact .inl hc
    · exact .inr (hc ▸ hstart)
  cases e with
  | send now drain len => exact hafter hstep fun hstart => admits_cpccSendOne (h.mono hstart)
  | recv i m now =>
    obtain ⟨-, hstep⟩ := ite_none_right_eq_some.1 hstep
    exact hafter hstep fun _ => admits_cpccRecvOne i m now
  | drain now => exact hafter hstep fun _ => admits_crpcDrainQueue now s
  | timer now => exact hafter hstep fun _ => admits_dropLoop _ _ s
  | addConnection =>
    cases hstep
    exact ⟨Nat.le_refl _, fun c hc => .inl hc⟩

end Calls

/-! ## The steps -/

theorem step_cases {s s' : Sys} {ev : Event} (hstep : step s ev = some s') :
    (∃ e, ev = .client e ∧ ClientQueue.step s.session e = some s'.session ∧ s'.phase = s.phase) ∨
    (∃ now, ev = .round now ∧ ClientQueue.step s.session (.timer now) = some s'.session ∧
      s'.phase = if s'.session.head = s'.session.tail then .up else .picked (pick s'.session)) ∨
    ((∀ now, ev ≠ .round now) ∧ (∀ pos, s'.phase ≠ .picked pos) ∧ (s'.session = s.session ∨
      ∃ now, s.session.after s.session now now = some s'.session)) := by
  cases ev with
  | client e =>
    refine .inl ⟨e, rfl, ?_⟩
    cases e with
    | timer now => nomatch hstep
    | send _ _ _ | recv _ _ _ | drain _ =>
      obtain ⟨t, ht, rfl⟩ := map_eq_some_iff.1 hstep
      exact ⟨ht, rfl⟩
    | addConnection =>
      cases hstep
      exact ⟨rfl, rfl⟩
  | round now =>
    cases hphase : s.phase with
    | up =>
      simp only [step, hphase] at hstep
      obtain ⟨-, hstep⟩ := ite_none_left_eq_some.1 hstep
      obtain ⟨t, ht, rfl⟩ := map_eq_some_iff.1 hstep
      exact .inr (.inl ⟨now, rfl, ht, rfl⟩)
    | picked _ | asleep _ => simp [step, hphase] at hstep
  | sleep =>
    cases hphase : s.phase with
    | picked pos =>
      simp only [step, hphase, Option.some.injEq] at hstep
      subst hstep
      exact .inr (.inr ⟨nofun, nofun, .inl rfl⟩)
    | up | asleep _ => simp [step, hphase] at hstep
  | wake now =>
    cases hphase : s.phase with
    | asleep wake =>
      simp only [step, hphase] at hstep
      obtain ⟨-, hstep⟩ := ite_none_right_eq_some.1 hstep
      obtain ⟨t, ht, rfl⟩ := map_eq_some_iff.1 hstep
      exact .inr (.inr ⟨nofun, nofun, .inr ⟨now, ht⟩⟩)
    | up | picked _ => simp [step, hphase] at hstep

theorem step_inv {s s' : Sys} {ev : Event} (h : Inv s.session.clock s.session) (hstep : step s ev = some s') :
    Inv s'.session.clock s'.session := by
  obtain ⟨e, -, hs, -⟩ | ⟨now, -, hs, -⟩ | ⟨-, -, hs | ⟨now, hs⟩⟩ := step_cases hstep
  · exact h.keeps hs
  · exact h.keeps hs
  · exact hs ▸ h
  · exact Inv.after hs fun hstart _ _ => h.mono hstart

theorem session_inv {s : Sys} (hreach : Reaches step anyStep init s) : Inv s.session.clock s.session :=
  hreach.invariant (P := fun u => Inv u.session.clock u.session) inv_cpccOpen
    fun _ _ _ h _ hs => step_inv h hs

/-! ## The request that is picked -/

theorem queue_pick {s : Session} {now : Nat} (h : Inv now s) (hne : s.head ≠ s.tail) :
    ∃ older, s.queue = older ++ [s.qreq (pick s)] := by
  have hlast : s.head - 1 - s.tail = s.head - (s.tail + 1) := by ring
  have hroom : (s.head - 1 - s.tail).toNat < crpcQlen := by
    have hdemand := demand_pop hne
    have hbound : s.demand ≤ crpcQlen := h.bounded
    rw [hlast]
    omega
  refine ⟨ringElems crpcQlen s.qreq (s.head - 1) s.tail, ?_⟩
  rw [pick, ← ringSize.elems_publish hroom, BitVec.sub_add_cancel]
  rfl

theorem le_pick {s : Session} {now : Nat} (h : Inv now s) (hne : s.head ≠ s.tail) {c : CrpcCtx}
    (hc : c ∈ s.queue) : c.ts ≤ (s.qreq (pick s)).ts := by
  obtain ⟨older, hqueue⟩ := queue_pick h hne
  have hordered := h.ordered
  rw [hqueue] at hordered hc
  obtain hc | hc := mem_append.1 hc
  · exact (pairwise_append.1 hordered).2.2 c hc _ mem_cons_self
  · rw [mem_singleton.1 hc]

theorem pick_mem {s : Session} {now : Nat} (h : Inv now s) (hne : s.head ≠ s.tail) :
    s.qreq (pick s) ∈ s.queue := by
  obtain ⟨older, hqueue⟩ := queue_pick h hne
  rw [hqueue]
  exact mem_append_right _ mem_cons_self

/-- The oldest request is at most as old as the youngest exactly if all have one time stamp. -/
theorem pick_le_first_iff {s : Session} {now : Nat} (h : Inv now s) (hne : s.head ≠ s.tail) :
    (s.qreq (pick s)).ts ≤ s.first.ts ↔ SameStamps s := by
  constructor
  · intro hle c hc
    exact Nat.le_antisymm ((le_pick h hne hc).trans hle) (h.first_le hne hc)
  · intro hsame
    exact Nat.le_of_eq (hsame _ (pick_mem h hne))

/-! ## Runs that meet the condition -/

/-- The request in the slot that was picked is at most as young as every request queued, and
is not from the future. -/
structure Early (s : Sys) : Prop where
  session : Inv s.session.clock s.session
  oldest : ∀ pos, s.phase = .picked pos → ∀ c ∈ s.session.queue, (s.session.qreq pos).ts ≤ c.ts
  past : ∀ pos, s.phase = .picked pos → (s.session.qreq pos).ts ≤ s.session.clock

theorem timer_eq {s t : Session} {now : Nat} (hstep : ClientQueue.step s (.timer now) = some t) :
    t = { s.crpcTimer now with clock := now } :=
  ((ite_some_none_eq_some.1 hstep).2).symm

theorem Early.keeps {s s' : Sys} {ev : Event} (h : Early s) (hguard : Guard s ev)
    (hstep : step s ev = some s') : Early s' := by
  have hsession := step_inv h.session hstep
  obtain ⟨e, rfl, hs, hphase⟩ | ⟨now, rfl, hs, hphase⟩ | ⟨-, hphase, -⟩ := step_cases hstep
  · obtain ⟨hclock, hadmits⟩ := call_admits h.session hs
    refine ⟨hsession, fun pos hpos c hc => ?_, fun pos hpos => ?_⟩
    · rw [hphase] at hpos
      rw [hguard pos _ hpos hs]
      obtain hc | hc := hadmits c hc
      · exact h.oldest pos hpos c hc
      · exact (h.past pos hpos).trans hc
    · rw [hphase] at hpos
      rw [hguard pos _ hpos hs]
      exact (h.past pos hpos).trans hclock
  · have hsame : SameStamps s'.session := timer_eq hs ▸ hguard
    by_cases hne : s'.session.head = s'.session.tail
    · rw [if_pos hne] at hphase
      refine ⟨hsession, fun pos hpos => ?_, fun pos hpos => ?_⟩
      · exact absurd (hphase.symm.trans hpos) nofun
      · exact absurd (hphase.symm.trans hpos) nofun
    · rw [if_neg hne] at hphase
      have hpick := (pick_le_first_iff hsession hne).2 hsame
      refine ⟨hsession, fun pos hpos c hc => ?_, fun pos hpos => ?_⟩
      · obtain rfl := Phase.picked.inj (hphase.symm.trans hpos)
        exact hpick.trans (hsession.first_le hne hc)
      · obtain rfl := Phase.picked.inj (hphase.symm.trans hpos)
        exact hsession.stamped _ (pick_mem hsession hne)
  · exact ⟨hsession, fun pos hpos => absurd hpos (hphase pos), fun pos hpos => absurd hpos (hphase pos)⟩

theorem Early.punctual {s : Sys} (h : Early s) : Punctual s := by
  refine punctual_iff.2 fun pos hpos hne => ?_
  have hle := h.oldest pos hpos _ (first_mem hne)
  unfold wakeTime add64
  exact (Nat.mod_le _ _).trans (Nat.add_le_add_right hle _)

theorem early_init : Early init := ⟨inv_cpccOpen, nofun, nofun⟩

/-- After a round that leaves requests in the queue the thread is about to sleep until the
youngest expires, which is in time for the oldest exactly if all have one time stamp. -/
theorem round_punctual_iff {s s' : Sys} {now : Nat} (h : Inv s.session.clock s.session)
    (hstep : step s (.round now) = some s') (hnow : now + maxClientDelayUs < 2 ^ 64) :
    Punctual s' ↔ Guard s (.round now) := by
  have hsession := step_inv h hstep
  obtain ⟨e, ⟨⟩, -, -⟩ | ⟨_, ⟨⟩, hs, hphase⟩ | ⟨hround, -, -⟩ := step_cases hstep
  · have hs' := timer_eq hs
    have hguard : Guard s (.round now) ↔ SameStamps s'.session := by
      rw [hs']
      exact Iff.rfl
    rw [hguard, punctual_iff]
    by_cases hne : s'.session.head = s'.session.tail
    · refine ⟨fun _ c hc => ?_, fun _ _ _ hsome => absurd hne hsome⟩
      rw [queue_of_empty hne] at hc
      nomatch hc
    · rw [if_neg hne] at hphase
      have hclock : s'.session.clock = now := by rw [hs']
      have hstamped := hsession.stamped _ (pick_mem hsession hne)
      -- the sum does not wrap: the time stamp is at most `now`
      have hwake : wakeTime (s'.session.qreq (pick s'.session)) =
          (s'.session.qreq (pick s'.session)).ts + maxClientDelayUs := by
        unfold wakeTime add64
        omega
      rw [← pick_le_first_iff hsession hne]
      constructor
      · intro hwakes
        have hle := hwakes _ hphase hne
        rw [hwake] at hle
        exact Nat.le_of_add_le_add_right hle
      · intro hle pos hpos _
        obtain rfl := Phase.picked.inj (hphase.symm.trans hpos)
        rw [hwake]
        exact Nat.add_le_add_right hle _
  · exact absurd rfl (hround now)

/-- In a run whose rounds leave requests of one time stamp, none replaced before it is read, the
thread sleeps until the oldest request expires at most. Otherwise it sleeps for too long. -/
theorem timer_wakes_iff {s : Sys} (hreach : Reaches step anyStep init s) :
    (Reaches step Guard init s → Punctual s) ∧
    ∀ s' now, step s (.round now) = some s' → now + maxClientDelayUs < 2 ^ 64 →
      (Punctual s' ↔ SameStamps (s.session.crpcTimer now)) := by
  refine ⟨fun hguarded => ?_, fun s' now hstep hnow => round_punctual_iff (session_inv hreach) hstep hnow⟩
  have hearly : Early s := hguarded.invariant early_init fun _ _ _ h hok hs => h.keeps hok hs
  exact hearly.punctual

def guardedStep (s : Sys) : Event → Bool
  | .round now => decide (SameStamps (s.session.crpcTimer now))
  | .client _ => decide (s.phase = .up)
  | _ => true

theorem guard_of_guardedStep (s : Sys) (ev : Event) (h : guardedStep s ev = true) : Guard s ev := by
  cases ev with
  | round now => exact of_decide_eq_true (p := SameStamps (s.session.crpcTimer now)) h
  | client e =>
    intro pos t hpos _
    exact absurd ((of_decide_eq_true h).symm.trans hpos) nofun
  | sleep | wake _ => trivial

/-- One request waits for a credit and the thread goes to sleep until it expires. -/
theorem timer_wakes_for_one : ∃ s : Sys, Reaches step Guard init s ∧ s.phase = .picked 0 ∧
    s.session.queue = [⟨1, 8, 5⟩] ∧ Punctual s := by
  have hrun : (runChecked step guardedStep init [.client (.send 5 5 8), .round 10]).map
      (fun s => decide (s.phase = .picked 0 ∧ s.session.queue = [⟨1, 8, 5⟩])) = some true := by
    decide
  obtain ⟨s, hs, hp⟩ := map_eq_some_iff.1 hrun
  obtain ⟨hphase, hqueue⟩ := of_decide_eq_true hp
  have hreach := reaches_of_runChecked (fun u e _ => guard_of_guardedStep u e) hs
  have hany := hreach.mono fun _ _ _ => trivial
  exact ⟨s, hreach, hphase, hqueue, (timer_wakes_iff hany).1 hreach⟩

/-- Of two requests the first expires at 40; the thread sleeps until 70. -/
theorem timer_sleeps_for_youngest : ∃ s s' : Sys, Reaches step anyStep init s ∧
    s.session.queue = [⟨1, 8, 0⟩, ⟨2, 8, 30⟩] ∧ step s .sleep = some s' ∧ s'.phase = .asleep 70 ∧
    ¬ Punctual s := by
  obtain ⟨s, hreach, hp⟩ : ∃ s, Reaches step anyStep init s ∧
      s.phase = .picked 1 ∧ s.session.queue = [⟨1, 8, 0⟩, ⟨2, 8, 30⟩] ∧
      s.session.qreq 1 = ⟨2, 8, 30⟩ ∧ s.session.first = ⟨1, 8, 0⟩ ∧
      s.session.head ≠ s.session.tail :=
    exists_of_runActions [.client (.send 0 0 8), .client (.send 30 30 8), .round 35] (by decide)
  obtain ⟨hphase, hqueue, hpicked, hfirst, hne⟩ := hp
  have hsleep : step s .sleep = some { s with phase := .asleep 70 } := by
    simp only [step, hphase, hpicked]
    rfl
  refine ⟨s, _, hreach, hqueue, hsleep, rfl, fun h => ?_⟩
  have hle := h _ 70 hsleep rfl hne
  rw [hfirst] at hle
  exact absurd hle (by decide)

end Svalinn.Pcc.ClientTimer
