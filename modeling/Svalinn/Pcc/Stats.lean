/-
  Pcc/Stats.lean --- which requests the counters of a micro-experiment count.

  Source: `breakwater/src/pcc_server.c`, the statistics parts of `srpc_recv_one`
  and `srpc_worker`, with the controller of `Pcc/Controller.lean`.

  A request reads `srpc_pcc_micro_exp_id` once, when its header is parsed, and
  carries this label for its whole life.  It counts itself in and later out (or
  dropped) if the running experiment then has the same id.  The comparison and
  the increment are separate steps, so the controller may move between them.

  The ids 1 and 2 are used again in every round.  `starts i` is the number of
  times experiment `i` was started and `Req.run` the number of the run a request
  was received in; both are ghosts, as are the logs of the requests that made
  each counter's increments since it was cleared.
-/
import Svalinn.Pcc.Controller
import Mathlib.Data.List.Perm.Subperm

set_option autoImplicit false

namespace Svalinn.Pcc

open Svalinn.Lib Function List

/-- The four counters of an experiment. -/
inductive Counter where
  | inReqs
  | outResps
  | goodOutResps
  | dropReqs
  deriving DecidableEq

/-- The value of a counter. -/
def ExpStats.get (e : ExpStats) : Counter → Nat
  | .inReqs => e.inReqs
  | .outResps => e.outResps
  | .goodOutResps => e.goodOutResps
  | .dropReqs => e.dropReqs

/-- `atomic64_inc`. -/
def ExpStats.inc (e : ExpStats) : Counter → ExpStats
  | .inReqs => { e with inReqs := e.inReqs + 1 }
  | .outResps => { e with outResps := e.outResps + 1 }
  | .goodOutResps => { e with goodOutResps := e.goodOutResps + 1 }
  | .dropReqs => { e with dropReqs := e.dropReqs + 1 }

/-- The updates of `srpc_pcc_end_ts` and of the largest queueing delay. -/
def ExpStats.stamp (e : ExpStats) (now qdelay : Nat) : ExpStats :=
  { e with endTs := now, qdelay := if qdelay > e.qdelay then qdelay else e.qdelay }

/-- Where a request is in `srpc_recv_one` and `srpc_worker`. -/
inductive ReqPc where
  | labelled
  /-- the comparison before `srpc_pcc_in_reqs` succeeded -/
  | counting
  | busy
  | finishing (drop : Bool)
  | judging
  /-- `srpc_pcc_end_ts` and `srpc_pcc_qdelay` are next -/
  | stamping
  | done
  deriving DecidableEq

/-- `c->opaque`, with the ghosts of the run and the round it was received in. -/
structure Req where
  label : Nat
  run : Nat
  round : Nat
  pc : ReqPc
  deriving DecidableEq

/-- What a step of a request does to the statistics. -/
inductive Effect where
  | nothing
  | inc (k : Counter)
  | stamp (now qdelay : Nat)
  deriving DecidableEq

/-- The statistics after the effect. -/
def Effect.apply (e : ExpStats) : Effect → ExpStats
  | .nothing => e
  | .inc k => e.inc k
  | .stamp now qdelay => e.stamp now qdelay

/-- What the steps of a request read: `c->cmn.drop` (set by the handler, by the
AQM or because no slot was free), `get_acc_qdel_us`, the clock and the queueing
delay. -/
structure ReqIn where
  drop : Bool := false
  accQdelUs : Nat := 0
  now : Nat := 0
  queueUs : Nat := 0
  deriving DecidableEq

/-- One step of a request of label `label` while experiment `id` is running. -/
def advance (id label : Nat) (inp : ReqIn) : ReqPc → Option (ReqPc × Effect)
  | .labelled => some (if id = label then .counting else .busy, .nothing)
  | .counting => some (.busy, .inc .inReqs)
  | .busy => some (if id = label then .finishing inp.drop else .done, .nothing)
  | .finishing false => some (.judging, .inc .outResps)
  | .finishing true => some (.stamping, .inc .dropReqs)
  | .judging =>
    some (.stamping, if inp.accQdelUs < qdelayBudget then .inc .goodOutResps else .nothing)
  | .stamping => some (.done, .stamp inp.now inp.queueUs)
  | .done => none

/-- The controller, the requests ever received, and the ghosts. -/
structure StatSys where
  ctl : Ctl
  reqs : List Req
  round : Nat
  starts : Nat → Nat
  log : Nat → Counter → List Nat

/-- The steps of the controller and of the requests. -/
inductive StatEvent where
  /-- a call of `srpc_update_credit_pool` that takes the lock -/
  | control (i : CallIn)
  | arrive
  /-- request `r` makes its next step -/
  | request (r : Nat) (inp : ReqIn)
  deriving DecidableEq

section Steps

variable (maxCores : Int) (comp : MicroExpStats → MicroExpStats → Dir)

/-- A controller call: the START transition clears the counters of the experiment
it starts, and the decision ends the round. -/
def controlStep (s : StatSys) (i : CallIn) : StatSys :=
  let c' := (srpcUpdateCreditPool maxCores comp s.ctl i).1
  let id := s.ctl.numMicroExps + 1
  if i.now < s.ctl.nextUpdate then { s with ctl := c' }
  else
    match s.ctl.state with
    | .startMicroExp =>
      { s with ctl := c', starts := update s.starts id (s.starts id + 1)
               log := update s.log id fun _ => [] }
    | .makeDecision => { s with ctl := c', round := s.round + 1 }
    | _ => { s with ctl := c' }

/-- The log after request `r` made `eff` on the statistics of index `i`. -/
def logEffect (log : Nat → Counter → List Nat) (i r : Nat) (eff : Effect) (j : Nat) (k : Counter) :
    List Nat :=
  if j = i ∧ eff = .inc k then r :: log j k else log j k

/-- Request `r` makes its next step. -/
def requestStep (s : StatSys) (r : Nat) (inp : ReqIn) : Option StatSys :=
  match s.reqs[r]? with
  | none => none
  | some q =>
    match advance s.ctl.microExpId q.label inp q.pc with
    | none => none
    | some (pc, eff) =>
      some { s with
        ctl := { s.ctl with
          stats := update s.ctl.stats q.label (eff.apply (s.ctl.stats q.label)) }
        reqs := s.reqs.set r { q with pc := pc }
        log := logEffect s.log q.label r eff }

/-- One step of the system. -/
def statStep (s : StatSys) : StatEvent → Option StatSys
  | .control i => some (controlStep maxCores comp s i)
  | .arrive =>
    let id := s.ctl.microExpId
    some { s with reqs := s.reqs ++ [⟨id, s.starts id, s.round, .labelled⟩] }
  | .request r inp => requestStep s r inp

/-- No request was received yet. -/
def statInit (now rand : Nat) : StatSys :=
  { ctl := ctlInit maxCores now rand, reqs := [], round := 0, starts := fun _ => 0
    log := fun _ _ => [] }

end Steps

/-- The counters of experiment `i` count distinct requests, each of them received
while `i` was running in the current round, and no more leave than came. -/
structure Attributed (s : StatSys) (i : Nat) : Prop where
  counts : ∀ k, (s.ctl.stats i).get k = (s.log i k).length
  nodup : ∀ k, (s.log i k).Nodup
  received : ∀ k, ∀ r ∈ s.log i k, ∃ q, s.reqs[r]? = some q ∧ q.label = i ∧ q.round = s.round
  balance : (s.ctl.readStats i).outResps + (s.ctl.readStats i).dropReqs ≤
    (s.ctl.readStats i).inReqs

/-- `pc` is before the increment of counter `k`. -/
def ReqPc.before : ReqPc → Counter → Bool
  | .labelled, _ | .counting, _ => true
  | .busy, k | .finishing _, k => k ≠ .inReqs
  | .judging, k => k = .goodOutResps
  | .stamping, _ | .done, _ => false

/-- The request may still change a counter; `srpc_pcc_good_out_resps` is the last. -/
def ReqPc.outstanding (pc : ReqPc) : Bool := pc.before .goodOutResps

/-- An experiment is started only when no request of an earlier run of it is outstanding. -/
def startsClear (s : StatSys) : StatEvent → Prop
  | .control i => s.ctl.nextUpdate ≤ i.now → s.ctl.state = .startMicroExp →
      ∀ q ∈ s.reqs, q.label = s.ctl.numMicroExps + 1 → q.pc.outstanding = false
  | _ => True

instance (s : StatSys) : (e : StatEvent) → Decidable (startsClear s e)
  | .control _ => inferInstanceAs (Decidable (_ → _ → ∀ q ∈ s.reqs, _ → _ = false))
  | .arrive | .request _ _ => inferInstanceAs (Decidable True)

/-! ## What one step of a request can do -/

/-- At `pc` a request of the current run must have been counted in; `running`
says whether its experiment is still the running one. -/
def ReqPc.needsIn : ReqPc → (running : Bool) → Bool
  | .busy, running => running
  | .finishing _, _ => true
  | _, _ => false

section Advance

variable {id label : Nat} {inp : ReqIn} {pc pc' : ReqPc} {eff : Effect}

/-- A request increments a counter only at a point before that increment. -/
theorem advance_inc_before {k : Counter} (h : advance id label inp pc = some (pc', .inc k)) :
    pc.before k = true := by
  cases pc with
  | labelled | counting => rfl
  | busy | stamping | done => simp [advance] at h
  | finishing drop =>
    cases drop with
    | false | true =>
      obtain ⟨-, rfl⟩ := by simpa [advance] using h
      rfl
  | judging =>
    simp only [advance, Option.some.injEq, Prod.mk.injEq] at h
    obtain ⟨-, heff⟩ := h
    split at heff
    · cases heff
      rfl
    · cases heff

/-- What is still to be counted after a step was so before it, and the step did not count it. -/
theorem advance_before {k : Counter} (h : advance id label inp pc = some (pc', eff))
    (hb : pc'.before k = true) : pc.before k = true ∧ eff ≠ .inc k := by
  cases pc with
  | labelled =>
    obtain ⟨rfl, rfl⟩ := by simpa [advance] using h
    exact ⟨rfl, nofun⟩
  | counting =>
    obtain ⟨rfl, rfl⟩ := by simpa [advance] using h
    refine ⟨rfl, ?_⟩
    rintro ⟨⟩
    exact absurd hb (by decide)
  | busy =>
    obtain ⟨rfl, rfl⟩ := by simpa [advance] using h
    refine ⟨?_, nofun⟩
    split at hb
    · exact hb
    · cases hb
  | finishing drop =>
    cases drop with
    | false =>
      obtain ⟨rfl, rfl⟩ := by simpa [advance] using h
      cases k <;> simp_all [ReqPc.before]
    | true =>
      obtain ⟨rfl, rfl⟩ := by simpa [advance] using h
      cases hb
  | judging | stamping =>
    obtain ⟨rfl, rfl⟩ := by simpa [advance] using h
    cases hb
  | done => simp [advance] at h

/-- A request passes its second comparison in its own run only after it was counted in. -/
theorem advance_needsIn (h : advance id label inp pc = some (pc', eff))
    (hn : pc'.needsIn (id = label) = true) :
    pc.needsIn (id = label) = true ∨ eff = .inc .inReqs := by
  cases pc with
  | labelled =>
    obtain ⟨rfl, rfl⟩ := by simpa [advance] using h
    by_cases hid : id = label <;> simp [hid, ReqPc.needsIn] at hn
  | counting =>
    obtain ⟨rfl, rfl⟩ := by simpa [advance] using h
    exact Or.inr rfl
  | busy =>
    obtain ⟨rfl, rfl⟩ := by simpa [advance] using h
    by_cases hid : id = label
    · exact Or.inl (by simp [hid, ReqPc.needsIn])
    · simp [hid, ReqPc.needsIn] at hn
  | finishing drop => exact Or.inl rfl
  | judging | stamping =>
    obtain ⟨rfl, rfl⟩ := by simpa [advance] using h
    cases hn
  | done => simp [advance] at h

theorem advance_outstanding {k : Counter} (h : advance id label inp pc = some (pc', .inc k)) :
    pc.outstanding = true := by
  have hbefore := advance_inc_before h
  cases pc with
  | labelled | counting | busy | finishing _ | judging => rfl
  | stamping | done => cases hbefore

/-- Only a request that passed its last comparison counts itself out or dropped. -/
theorem advance_out {k : Counter} (h : advance id label inp pc = some (pc', .inc k))
    (hk : k = .outResps ∨ k = .dropReqs) :
    pc.needsIn (id = label) = true ∧ pc.before .outResps = true ∧ pc.before .dropReqs = true := by
  cases pc with
  | labelled | busy | stamping | done => simp [advance] at h
  | counting =>
    simp only [advance, Option.some.injEq, Prod.mk.injEq, Effect.inc.injEq] at h
    obtain ⟨-, rfl⟩ := h
    rcases hk with hk | hk <;> cases hk
  | finishing drop => exact ⟨rfl, rfl, rfl⟩
  | judging =>
    simp only [advance, Option.some.injEq, Prod.mk.injEq] at h
    obtain ⟨-, heff⟩ := h
    split at heff
    · cases heff
      rcases hk with hk | hk <;> cases hk
    · cases heff

end Advance

/-! ## The invariant -/

/-- Experiment `i` was started in the current round. -/
def Ctl.started (c : Ctl) (i : Nat) : Prop := i ≤ c.numMicroExps ∨ c.microExpId = i

instance (c : Ctl) (i : Nat) : Decidable (c.started i) := inferInstanceAs (Decidable (_ ∨ _))

/-- A request carries a label of the controller and the run and the round of its arrival. -/
structure ReqOk (s : StatSys) (q : Req) : Prop where
  label_le : q.label ≤ maxNumMicroExps
  run_le : q.run ≤ s.starts q.label
  run_round : q.label ≠ 0 → q.run = q.round + 1

/-- What holds in every run whose experiments start clear. -/
structure StatInv (s : StatSys) : Prop where
  phased : s.ctl.Phased
  starts : ∀ i, i ≠ 0 → i ≤ maxNumMicroExps →
    s.starts i = s.round + if s.ctl.started i then 1 else 0
  reqs : ∀ (r : Nat) q, s.reqs[r]? = some q → ReqOk s q
  outstanding : ∀ (r : Nat) q, s.reqs[r]? = some q → q.label ≠ 0 → q.pc.outstanding = true →
    q.run = s.starts q.label
  counts : ∀ i k, (s.ctl.stats i).get k = (s.log i k).length
  logged : ∀ i k, i ≠ 0 → ∀ r ∈ s.log i k,
    ∃ q, s.reqs[r]? = some q ∧ q.label = i ∧ q.run = s.starts i
  before : ∀ (r : Nat) q, s.reqs[r]? = some q → ∀ k, q.pc.before k = true →
    ∀ i, i ≠ 0 → r ∉ s.log i k
  nodup : ∀ i k, i ≠ 0 → (s.log i k).Nodup
  disjoint : ∀ i, i ≠ 0 → ∀ r ∈ s.log i .outResps, r ∉ s.log i .dropReqs
  countedIn : ∀ (r : Nat) q, s.reqs[r]? = some q → q.label ≠ 0 → q.run = s.starts q.label →
    q.pc.needsIn (s.ctl.microExpId = q.label) = true → r ∈ s.log q.label .inReqs
  outIn : ∀ i, i ≠ 0 → ∀ r, r ∈ s.log i .outResps ∨ r ∈ s.log i .dropReqs → r ∈ s.log i .inReqs

theorem mem_logEffect {log : Nat → Counter → List Nat} {i r : Nat} {eff : Effect} {j x : Nat}
    {k : Counter} :
    x ∈ logEffect log i r eff j k ↔ x ∈ log j k ∨ (x = r ∧ j = i ∧ eff = .inc k) := by
  unfold logEffect
  split
  · rename_i h
    simp [h, or_comm]
  · rename_i h
    constructor
    · exact Or.inl
    · rintro (hx | ⟨-, hji⟩)
      · exact hx
      · exact absurd hji h

theorem ExpStats.get_memAccesses (e : ExpStats) (m : Nat) (k : Counter) :
    ({ e with memAccesses := m } : ExpStats).get k = e.get k := by
  cases k <;> rfl

@[simp] theorem ExpStats.get_inc (e : ExpStats) (k l : Counter) :
    (e.inc k).get l = e.get l + if k = l then 1 else 0 := by
  cases k <;> cases l <;> rfl

theorem Effect.get_apply (e : ExpStats) (eff : Effect) (k : Counter) :
    (eff.apply e).get k = e.get k + if eff = .inc k then 1 else 0 := by
  cases eff with
  | nothing | inc _ => simp [Effect.apply]
  | stamp now qdelay => cases k <;> simp [Effect.apply, ExpStats.stamp, ExpStats.get]

theorem length_logEffect (log : Nat → Counter → List Nat) (i r : Nat) (eff : Effect) (k : Counter) :
    (logEffect log i r eff i k).length = (log i k).length + if eff = .inc k then 1 else 0 := by
  unfold logEffect
  by_cases h : eff = .inc k <;> simp [h]

theorem Ctl.Phased.id_le {c : Ctl} (h : c.Phased) : c.microExpId ≤ maxNumMicroExps := by
  unfold Ctl.Phased at h
  split at h
  · rw [h.2]
    exact Nat.zero_le _
  · rw [h.2]
    exact Nat.zero_le _
  · rw [h.2]
    exact h.1
  · rw [h.2]
    exact Nat.zero_le _

/-! ### Requests -/

/-- A request arrives. -/
theorem arrive_inv {s : StatSys} (h : StatInv s) : StatInv { s with
      reqs := s.reqs ++ [⟨s.ctl.microExpId, s.starts s.ctl.microExpId, s.round, .labelled⟩] } := by
  -- the new request has the next index, which no log mentions yet
  have hnew : ∀ i k, i ≠ 0 → s.reqs.length ∉ s.log i k := by
    intro i k hi hmem
    obtain ⟨q, hq, -⟩ := h.logged i k hi _ hmem
    simp at hq
  have hcases : ∀ (r : Nat) q,
      (s.reqs ++ [⟨s.ctl.microExpId, s.starts s.ctl.microExpId, s.round, .labelled⟩])[r]? = some q →
        s.reqs[r]? = some q ∨ (r = s.reqs.length ∧
          q = ⟨s.ctl.microExpId, s.starts s.ctl.microExpId, s.round, .labelled⟩) := by
    intro r q hq
    rcases Nat.lt_trichotomy r s.reqs.length with hr | rfl | hr
    · rw [List.getElem?_append_left hr] at hq
      exact Or.inl hq
    · simp at hq
      exact Or.inr ⟨rfl, hq.symm⟩
    · rw [List.getElem?_eq_none (by simp; omega)] at hq
      cases hq
  refine
    { phased := h.phased, starts := h.starts, counts := h.counts, nodup := h.nodup
      disjoint := h.disjoint, outIn := h.outIn, reqs := ?_, outstanding := ?_, logged := ?_
      before := ?_, countedIn := ?_ }
  · intro r q hq
    rcases hcases r q hq with hold | ⟨rfl, rfl⟩
    · exact ⟨(h.reqs r q hold).label_le, (h.reqs r q hold).run_le, (h.reqs r q hold).run_round⟩
    · refine ⟨h.phased.id_le, Nat.le_refl _, fun hne => ?_⟩
      have hstarted : s.ctl.started s.ctl.microExpId := Or.inr rfl
      have hrun := h.starts s.ctl.microExpId hne h.phased.id_le
      rw [if_pos hstarted] at hrun
      exact hrun
  · intro r q hq hne hout
    rcases hcases r q hq with hold | ⟨rfl, rfl⟩
    · exact h.outstanding r q hold hne hout
    · rfl
  · intro i k hi r hr
    obtain ⟨q, hq, hl⟩ := h.logged i k hi r hr
    have hlt : r < s.reqs.length := (List.getElem?_eq_some_iff.1 hq).1
    exact ⟨q, by rw [List.getElem?_append_left hlt]; exact hq, hl⟩
  · intro r q hq k hb i hi
    rcases hcases r q hq with hold | ⟨rfl, rfl⟩
    · exact h.before r q hold k hb i hi
    · exact hnew i k hi
  · intro r q hq hne hrun hn
    rcases hcases r q hq with hold | ⟨rfl, rfl⟩
    · exact h.countedIn r q hold hne hrun hn
    · cases hn

/-- A step of a request. -/
theorem requestStep_inv {s t : StatSys} {r : Nat} {inp : ReqIn} (h : StatInv s)
    (hs : requestStep s r inp = some t) : StatInv t := by
  unfold requestStep at hs
  split at hs
  · cases hs
  rename_i q hq
  split at hs
  · cases hs
  rename_i pc eff hadv
  cases hs
  have hlt : r < s.reqs.length := (List.getElem?_eq_some_iff.1 hq).1
  -- every other request is as it was, and `r` has only moved
  have hcases : ∀ (x : Nat) p, (s.reqs.set r { q with pc := pc })[x]? = some p →
      (x ≠ r ∧ s.reqs[x]? = some p) ∨ (x = r ∧ p = { q with pc := pc }) := by
    intro x p hx
    grind
  have hown' : ∀ k, eff = .inc k → q.label ≠ 0 → q.run = s.starts q.label := by
    rintro k rfl hne
    exact h.outstanding r q hq hne (advance_outstanding hadv)
  refine
    { phased := h.phased, starts := h.starts, reqs := ?_, outstanding := ?_, counts := ?_
      logged := ?_, before := ?_, nodup := ?_, disjoint := ?_, countedIn := ?_, outIn := ?_ }
  · intro x p hx
    rcases hcases x p hx with ⟨-, hx⟩ | ⟨rfl, rfl⟩
    · exact ⟨(h.reqs x p hx).label_le, (h.reqs x p hx).run_le, (h.reqs x p hx).run_round⟩
    · exact ⟨(h.reqs x q hq).label_le, (h.reqs x q hq).run_le, (h.reqs x q hq).run_round⟩
  · intro x p hx hne hout
    rcases hcases x p hx with ⟨-, hx⟩ | ⟨rfl, rfl⟩
    · exact h.outstanding x p hx hne hout
    · exact h.outstanding x q hq hne (advance_before hadv hout).1
  · intro i k
    by_cases hi : i = q.label
    · subst hi
      simp only [update_self]
      rw [Effect.get_apply, length_logEffect, h.counts]
    · simp only [update_of_ne hi]
      rw [h.counts]
      simp [logEffect, hi]
  · intro i k hi x hx
    rcases mem_logEffect.1 hx with hx | ⟨rfl, rfl, heff⟩
    · obtain ⟨p, hp, hl, hrun⟩ := h.logged i k hi x hx
      by_cases hxr : r = x
      · subst hxr
        obtain rfl : q = p := Option.some.inj (hq.symm.trans hp)
        exact ⟨{ q with pc := pc }, List.getElem?_set_self hlt, hl, hrun⟩
      · exact ⟨p, by rw [List.getElem?_set_ne hxr]; exact hp, hl, hrun⟩
    · exact ⟨{ q with pc := pc }, List.getElem?_set_self hlt, rfl, hown' k heff hi⟩
  · intro x p hx k hb i hi hmem
    rcases hcases x p hx with ⟨hne, hx⟩ | ⟨rfl, rfl⟩
    · rcases mem_logEffect.1 hmem with hmem | ⟨hxr, -⟩
      · exact h.before x p hx k hb i hi hmem
      · exact hne hxr
    · obtain ⟨hb', hne⟩ := advance_before hadv hb
      rcases mem_logEffect.1 hmem with hmem | ⟨-, -, heff⟩
      · exact h.before x q hq k hb' i hi hmem
      · exact hne heff
  · intro i k hi
    change (logEffect s.log q.label r eff i k).Nodup
    unfold logEffect
    split
    · rename_i hinc
      obtain ⟨-, rfl⟩ := hinc
      exact nodup_cons.2 ⟨h.before r q hq k (advance_inc_before hadv) i hi, h.nodup i k hi⟩
    · exact h.nodup i k hi
  · intro i hi x hx hx'
    rcases mem_logEffect.1 hx with hout | ⟨rfl, rfl, rfl⟩
    · rcases mem_logEffect.1 hx' with hdrop | ⟨rfl, rfl, rfl⟩
      · exact h.disjoint i hi x hout hdrop
      · exact h.before x q hq _ (advance_out hadv (Or.inr rfl)).2.1 _ hi hout
    · rcases mem_logEffect.1 hx' with hdrop | ⟨-, -, heff⟩
      · exact h.before x q hq _ (advance_out hadv (Or.inl rfl)).2.2 _ hi hdrop
      · cases heff
  · intro x p hx hne hrun hn
    rcases hcases x p hx with ⟨-, hx⟩ | ⟨rfl, rfl⟩
    · exact mem_logEffect.2 (Or.inl (h.countedIn x p hx hne hrun hn))
    · rcases advance_needsIn hadv hn with hn' | heff
      · exact mem_logEffect.2 (Or.inl (h.countedIn x q hq hne hrun hn'))
      · exact mem_logEffect.2 (Or.inr ⟨rfl, rfl, heff⟩)
  · intro i hi x hx
    have hold : x ∈ s.log i .outResps ∨ x ∈ s.log i .dropReqs →
        x ∈ logEffect s.log q.label r eff i .inReqs :=
      fun hx => mem_logEffect.2 (Or.inl (h.outIn i hi x hx))
    -- a request that leaves passed its comparison in its own run, so it was counted in
    have hnew : ∀ k, k = .outResps ∨ k = .dropReqs → x = r ∧ i = q.label ∧ eff = .inc k →
        x ∈ logEffect s.log q.label r eff i .inReqs := by
      rintro k hk ⟨rfl, rfl, rfl⟩
      obtain ⟨hn, -, -⟩ := advance_out hadv hk
      exact mem_logEffect.2 (Or.inl (h.countedIn x q hq hi (hown' k rfl hi) hn))
    rcases hx with hx | hx
    · rcases mem_logEffect.1 hx with hx | hx
      · exact hold (Or.inl hx)
      · exact hnew _ (Or.inl rfl) hx
    · rcases mem_logEffect.1 hx with hx | hx
      · exact hold (Or.inr hx)
      · exact hnew _ (Or.inr rfl) hx

/-! ### The controller -/

theorem ReqPc.needsIn_mono {pc : ReqPc} {b b' : Bool} (h : pc.needsIn b = true)
    (hb : b = true → b' = true) : pc.needsIn b' = true := by
  cases pc with
  | busy => exact hb h
  | finishing drop => rfl
  | labelled | counting | judging | stamping | done => cases h

/-- A call of the controller that starts no experiment. -/
theorem StatInv.control {s : StatSys} (h : StatInv s) {c : Ctl} {round : Nat} (hphased : c.Phased)
    (hget : ∀ i k, (c.stats i).get k = (s.ctl.stats i).get k)
    (hstarts : ∀ i, i ≠ 0 → i ≤ maxNumMicroExps →
      s.starts i = round + if c.started i then 1 else 0)
    (hid : c.microExpId = s.ctl.microExpId ∨ c.microExpId = 0) :
    StatInv { s with ctl := c, round := round } := by
  refine
    { phased := hphased, starts := hstarts, outstanding := h.outstanding, counts := ?_
      logged := h.logged, before := h.before, nodup := h.nodup, disjoint := h.disjoint
      outIn := h.outIn, reqs := ?_, countedIn := ?_ }
  · intro r q hq
    exact ⟨(h.reqs r q hq).label_le, (h.reqs r q hq).run_le, (h.reqs r q hq).run_round⟩
  · intro i k
    rw [hget]
    exact h.counts i k
  · intro r q hq hne hrun hn
    refine h.countedIn r q hq hne hrun (ReqPc.needsIn_mono hn ?_)
    intro hrunning
    have heq : c.microExpId = q.label := of_decide_eq_true hrunning
    rcases hid with hid | hid
    · exact decide_eq_true (hid ▸ heq)
    · exact absurd (heq.symm.trans hid) hne

theorem StatInv.control_same {s : StatSys} (h : StatInv s) {c : Ctl} (hphased : c.Phased)
    (hstats : c.stats = s.ctl.stats) (hnum : c.numMicroExps = s.ctl.numMicroExps)
    (hid : c.microExpId = s.ctl.microExpId) : StatInv { s with ctl := c } := by
  refine h.control hphased (fun i k => by rw [hstats]) ?_ (Or.inl hid)
  intro i hi hle
  have hstarts := h.starts i hi hle
  simp only [Ctl.started, hnum, hid] at hstarts ⊢
  exact hstarts

/-- START: the counters and the logs of the experiment are cleared together, and
every request labelled with it becomes one of an earlier run. -/
theorem StatInv.start {s : StatSys} (h : StatInv s) (i : CallIn)
    (hst : s.ctl.state = .startMicroExp)
    (hclear : ∀ q ∈ s.reqs, q.label = s.ctl.numMicroExps + 1 → q.pc.outstanding = false)
    (w : Nat) :
    StatInv { s with
      ctl := { startMicroExp s.ctl i with lastWakeup := w }
      starts := update s.starts (s.ctl.numMicroExps + 1) (s.starts (s.ctl.numMicroExps + 1) + 1)
      log := update s.log (s.ctl.numMicroExps + 1) fun _ => [] } := by
  have hphased := h.phased
  simp only [Ctl.Phased, hst] at hphased
  obtain ⟨hnum, hid⟩ := hphased
  generalize hn : s.ctl.numMicroExps + 1 = n at *
  -- outside index `n` nothing changes
  have hlog : ∀ j k, j ≠ n → update s.log n (fun _ => []) j k = s.log j k := by
    intro j k hj
    rw [update_of_ne hj]
  have hmem : ∀ {j k r}, r ∈ update s.log n (fun _ => []) j k → j ≠ n ∧ r ∈ s.log j k := by
    grind
  have hrunne : ∀ (r : Nat) q, s.reqs[r]? = some q →
      q.run = update s.starts n (s.starts n + 1) q.label → q.label ≠ n := by
    rintro r q hq hrun hl
    have hle := (h.reqs r q hq).run_le
    rw [hl] at hle hrun
    rw [update_self] at hrun
    omega
  refine
    { phased := ?_, starts := ?_, outstanding := ?_, counts := ?_, logged := ?_, before := ?_
      nodup := ?_, disjoint := ?_, outIn := ?_, reqs := ?_, countedIn := ?_ }
  · exact ⟨by change s.ctl.numMicroExps < _; omega, rfl⟩
  · intro j hj hle
    have hold := h.starts j hj hle
    simp only [Ctl.started, hid, startMicroExp, hn] at hold ⊢
    by_cases hjn : j = n
    · subst hjn
      rw [if_neg (by omega)] at hold
      rw [update_self, if_pos (Or.inr rfl), hold]
    · rw [update_of_ne hjn, hold]
      congr 1
      apply if_congr _ rfl rfl
      omega
  · intro r q hq
    refine ⟨(h.reqs r q hq).label_le, ?_, (h.reqs r q hq).run_round⟩
    have hle := (h.reqs r q hq).run_le
    grind
  · intro r q hq hne hout
    have hl : q.label ≠ n := fun hl =>
      absurd ((hclear q (List.mem_of_getElem? hq) hl).symm.trans hout) Bool.false_ne_true
    exact (h.outstanding r q hq hne hout).trans (update_of_ne hl _ _).symm
  · intro j k
    by_cases hj : j = n
    · subst hj
      simp only [startMicroExp, hn, update_self]
      cases k <;> rfl
    · simp only [startMicroExp, hn, update_of_ne hj]
      exact h.counts j k
  · intro j k hj r hr
    obtain ⟨hjn, hr⟩ := hmem hr
    obtain ⟨q, hq, hl, hrun⟩ := h.logged j k hj r hr
    refine ⟨q, hq, hl, ?_⟩
    simp only [update_of_ne hjn]
    exact hrun
  · intro r q hq k hb j hj hr
    exact h.before r q hq k hb j hj (hmem hr).2
  · intro j k hj
    by_cases hjn : j = n
    · subst hjn
      simp only [update_self, nodup_nil]
    · simp only [hlog j k hjn]
      exact h.nodup j k hj
  · intro j hj r hr hr'
    exact h.disjoint j hj r (hmem hr).2 (hmem hr').2
  · intro r q hq hne hrun hneed
    have hl := hrunne r q hq hrun
    simp only [hlog _ _ hl]
    simp only [update_of_ne hl] at hrun
    refine h.countedIn r q hq hne hrun (ReqPc.needsIn_mono hneed ?_)
    intro hrunning
    have heq : s.ctl.numMicroExps + 1 = q.label := of_decide_eq_true hrunning
    exact absurd (heq.symm.trans hn) hl
  · intro j hj r hr
    have hjn : j ≠ n := hr.elim (fun hr => (hmem hr).1) fun hr => (hmem hr).1
    simp only [hlog j _ hjn] at hr ⊢
    exact h.outIn j hj r hr

section Runs

variable {maxCores : Int} {comp : MicroExpStats → MicroExpStats → Dir}

/-- A call of the controller that is in time. -/
theorem controlStep_inv {s : StatSys} (h : StatInv s) {i : CallIn}
    (hclear : startsClear s (.control i)) : StatInv (controlStep maxCores comp s i) := by
  unfold controlStep
  obtain ⟨w, ⟨hlt, hctl⟩ | ⟨hdue, hctl⟩⟩ :=
    srpcUpdateCreditPool_cases maxCores comp s.ctl i
  · simp only [hlt, if_true, hctl]
    exact h.control_same h.phased rfl rfl rfl
  simp only [Nat.not_lt_of_le hdue, if_false, hctl]
  have hphased : ({ drive maxCores comp s.ctl i with lastWakeup := w } : Ctl).Phased :=
    drive_phased i h.phased
  have hold := h.phased
  unfold Ctl.Phased at hold
  unfold drive at hphased ⊢
  cases hst : s.ctl.state with
  | prepareMicroExp =>
    simp only [hst] at hphased ⊢
    exact h.control_same hphased rfl rfl rfl
  | startMicroExp =>
    simp only [] at hphased ⊢
    exact h.start i hst (hclear hdue hst) w
  | endMicroExp =>
    simp only [hst] at hold hphased ⊢
    have hget : ∀ j k, ((endMicroExp s.ctl i).stats j).get k = (s.ctl.stats j).get k := by
      intro j k
      have hstats : (endMicroExp s.ctl i).stats = update s.ctl.stats s.ctl.microExpId
          { s.ctl.stats s.ctl.microExpId with
            memAccesses := sub64 i.memAccesses (s.ctl.stats s.ctl.microExpId).memAccesses } := by
        unfold endMicroExp
        dsimp only
        split <;> rfl
      rw [hstats]
      by_cases hj : j = s.ctl.microExpId
      · subst hj
        rw [update_self, ExpStats.get_memAccesses]
      · rw [update_of_ne hj]
    have hid : (endMicroExp s.ctl i).microExpId = 0 := by
      unfold endMicroExp
      dsimp only
      split <;> rfl
    have hnum : (endMicroExp s.ctl i).numMicroExps = s.ctl.numMicroExps + 1 := by
      unfold endMicroExp
      dsimp only
      split <;> rfl
    refine h.control hphased hget ?_ (Or.inr hid)
    intro j hj hle
    rw [h.starts j hj hle]
    congr 1
    apply if_congr _ rfl rfl
    simp only [Ctl.started, hid, hnum, hold.2]
    omega
  | makeDecision =>
    simp only [hst] at hold hphased ⊢
    refine h.control hphased (fun _ _ => rfl) ?_ (Or.inr rfl)
    intro j hj hle
    have hstarted : s.ctl.started j := Or.inl (hold.1 ▸ hle)
    have hnot :
        ¬ ({ makeDecision maxCores comp s.ctl i with lastWakeup := w } : Ctl).started j := by
      simp only [Ctl.started, makeDecision]
      omega
    rw [h.starts j hj hle, if_pos hstarted, if_neg hnot]

theorem statStep_inv {s t : StatSys} {e : StatEvent} (h : StatInv s) (hclear : startsClear s e)
    (hs : statStep maxCores comp s e = some t) : StatInv t := by
  cases e with
  | control i =>
    cases hs
    exact controlStep_inv h hclear
  | arrive =>
    cases hs
    exact arrive_inv h
  | request r inp => exact requestStep_inv h hs

theorem statInit_inv (now rand : Nat) : StatInv (statInit maxCores now rand) where
  phased := ctlInit_phased now rand
  starts i hi _ := by
    have hnot : ¬ (statInit maxCores now rand).ctl.started i := by
      simp only [Ctl.started, statInit, ctlInit]
      omega
    rw [if_neg hnot]
    rfl
  reqs r q hq := by simp [statInit] at hq
  outstanding r q hq := by simp [statInit] at hq
  counts i k := by cases k <;> rfl
  logged i k _ r hr := by simp [statInit] at hr
  before r q hq := by simp [statInit] at hq
  nodup i k _ := by simp [statInit]
  disjoint i _ r hr := by simp [statInit] at hr
  countedIn r q hq := by simp [statInit] at hq
  outIn i _ r hr := by simp [statInit] at hr

/-- Who leaves was counted in, and leaves once. -/
theorem StatInv.balance {s : StatSys} (h : StatInv s) {i : Nat} (hi : i ≠ 0) :
    (s.log i .outResps).length + (s.log i .dropReqs).length ≤ (s.log i .inReqs).length := by
  have hnodup : (s.log i .outResps ++ s.log i .dropReqs).Nodup := by
    refine nodup_append.2 ⟨h.nodup i _ hi, h.nodup i _ hi, ?_⟩
    rintro r hr x hx rfl
    exact h.disjoint i hi r hr hx
  have hsub : s.log i .outResps ++ s.log i .dropReqs ⊆ s.log i .inReqs := by
    intro r hr
    exact h.outIn i hi r (mem_append.1 hr)
  have hle := (subperm_of_subset hnodup hsub).length_le
  rwa [length_append] at hle

/-- In every run whose experiments start clear of the requests of their earlier runs, the
statistics a decision reads are those of this round's experiments. -/
theorem stats_attributed {now rand : Nat} {s : StatSys}
    (hreach : Reaches (statStep maxCores comp) startsClear (statInit maxCores now rand) s)
    (hdecision : s.ctl.state = .makeDecision) {i : Nat} (hi : i = 1 ∨ i = 2) : Attributed s i := by
  have h : StatInv s :=
    hreach.invariant (statInit_inv now rand) fun _ _ _ hu hclear hs => statStep_inv hu hclear hs
  have hne : i ≠ 0 := by omega
  have hle : i ≤ maxNumMicroExps := by
    rcases hi with rfl | rfl <;> decide
  -- at the decision both experiments were started in this round
  have hphased := h.phased
  simp only [Ctl.Phased, hdecision] at hphased
  have hstarts := h.starts i hne hle
  have hstarted : s.ctl.started i := Or.inl (hphased.1 ▸ hle)
  rw [if_pos hstarted] at hstarts
  refine ⟨h.counts i, fun k => h.nodup i k hne, ?_, ?_⟩
  · intro k r hr
    obtain ⟨q, hq, hl, hrun⟩ := h.logged i k hne r hr
    have hround := (h.reqs r q hq).run_round (hl ▸ hne)
    exact ⟨q, hq, hl, by omega⟩
  · have hout := h.counts i .outResps
    have hdrop := h.counts i .dropReqs
    have hin := h.counts i .inReqs
    have hbalance := h.balance hne
    simp only [ExpStats.get] at hout hdrop hin
    simp only [Ctl.readStats]
    omega

end Runs

/-! ## A request in its own run and one that outlives it -/

/-- A request that is received and answered while experiment 1 runs. -/
theorem stats_attributed_prompt_request :
    ∃ t, Reaches (statStep 4 fun _ _ => .plus) startsClear (statInit 4 0 1) t ∧
      t.ctl.state = .makeDecision ∧ (t.ctl.readStats 1).outResps = 1 ∧ Attributed t 1 := by
  obtain ⟨t, hreach, hst, hout⟩ :
      ∃ t, Reaches (statStep 4 fun _ _ => .plus) startsClear (statInit 4 0 1) t ∧
        t.ctl.state = .makeDecision ∧ (t.ctl.readStats 1).outResps = 1 :=
    exists_of_runChecked ([.control (callAt 0), .control (callAt 1000), .arrive] ++
      List.replicate 6 (.request 0 {}) ++ [.control (callAt 2000), .control (callAt 3000),
        .control (callAt 4000), .control (callAt 5000)]) (by decide)
  exact ⟨t, hreach, hst, hout, stats_attributed hreach hst (Or.inl rfl)⟩

/-- A request received in the first round's experiment 1 that completes while the
second round's experiment 1 runs is counted there: one response left and no
request came. -/
theorem late_request_counted_in_next_round :
    ∃ t, Reaches (statStep 4 fun _ _ => .plus) anyStep (statInit 4 0 1) t ∧
      t.ctl.state = .makeDecision ∧ t.round = 1 ∧ t.log 1 .outResps = [0] ∧
      t.reqs.map Req.round = [0] ∧ (t.ctl.readStats 1).inReqs = 0 ∧
      (t.ctl.readStats 1).outResps = 1 ∧ ¬ Attributed t 1 := by
  obtain ⟨t, hreach, hst, hround, hlog, hreqs, hin, hout⟩ :
      ∃ t, Reaches (statStep 4 fun _ _ => .plus) anyStep (statInit 4 0 1) t ∧
        t.ctl.state = .makeDecision ∧ t.round = 1 ∧ t.log 1 .outResps = [0] ∧
        t.reqs.map Req.round = [0] ∧ (t.ctl.readStats 1).inReqs = 0 ∧
        (t.ctl.readStats 1).outResps = 1 :=
    exists_of_runActions [.control (callAt 0), .control (callAt 1000), .arrive, .request 0 {},
      .request 0 {}, .control (callAt 2000), .control (callAt 3000), .control (callAt 4000),
      .control (callAt 5000), .control (callAt 6000), .control (callAt 7000),
      .control (callAt 8000), .request 0 {}, .request 0 {}, .control (callAt 9000),
      .control (callAt 10000), .control (callAt 11000), .control (callAt 12000)] (by decide)
  refine ⟨t, hreach, hst, hround, hlog, hreqs, hin, hout, ?_⟩
  intro h
  have hbalance := h.balance
  omega

end Svalinn.Pcc
