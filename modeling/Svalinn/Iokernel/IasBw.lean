/-
  Iokernel/IasBw.lean --- thread limits under the bandwidth controller.

  Source: `iokernel/ias_bw.c` (`ias_bw_choose_victim`, `ias_bw_throttle_core`,
  `ias_bw_punish`, `ias_bw_relax`) and the limits set by `ias_attach` in `iokernel/ias.c`.

  Miss rates are `float`s; nothing is assumed of their addition and order.  The throttled
  core is handed on or idled by the scheduling events that follow.
-/
import Svalinn.Iokernel.IasReserve

set_option autoImplicit false

namespace Svalinn.Iokernel.IasBw

open Svalinn.Lib Function

/-- `float`, as the controller uses it. -/
structure Floats where
  F : Type
  zero : F
  add : F → F → F
  le : F → F → Bool
  /-- `rate * sched_cores_nr < ias_bw_thresh` -/
  belowThresh : F → Bool

/-- The two samples of the cores: `bw_estimate`, and whether their generations agree. -/
structure Samples (fl : Floats) where
  estimate : Nat → fl.F
  current : Nat → Bool

/-- `struct ias_data`, the fields of the controller. -/
structure Limits where
  threadsMax : Int
  threadsLimit : Int
  isBwlimited : Bool
  isCongested : Bool

structure State where
  ias : Ias.State
  limits : Nat → Limits

def State.modLimits (s : State) (p : Nat) (f : Limits → Limits) : State :=
  { s with limits := update s.limits p (f (s.limits p)) }

section Model

variable (cfg : Ias.Config) (fl : Floats) (s : State) (smp : Samples fl)

/-- `bw_llc_miss_rate` -/
def missRate (p : Nat) : fl.F :=
  cfg.cores.foldl (fun rate core =>
    if s.ias.cores core = some p ∧ smp.current core then fl.add rate (smp.estimate core) else rate)
    fl.zero

/-- The eligible process with the highest rate, with the accumulators `victim` and
`highest_l3miss_rate`. -/
def worstTask : List Nat → Option Nat → fl.F → Option Nat
  | [], victim, _ => victim
  | p :: rest, victim, highest =>
    let rate := missRate cfg fl s smp p
    if (s.limits p).threadsLimit = 0 ∨
        (s.limits p).threadsLimit ≤ (s.ias.data p).threadsGuaranteed then worstTask rest victim highest
    else if fl.belowThresh rate then worstTask rest victim highest
    else if fl.le rate highest then worstTask rest victim highest
    else worstTask rest (some p) rate

def worstCore (victim : Nat) : List Nat → Option Nat → fl.F → Option Nat
  | [], core, _ => core
  | c :: rest, core, highest =>
    if fl.le (smp.estimate c) highest then worstCore victim rest core highest
    else if s.ias.cores c ≠ some victim then worstCore victim rest core highest
    else worstCore victim rest (some c) (smp.estimate c)

def iasBwChooseVictim : Option (Nat × Nat) :=
  (worstTask cfg fl s smp s.ias.allProcs none fl.zero).bind fun victim =>
    (worstCore fl s smp victim cfg.cores none fl.zero).map fun core => (victim, core)

def iasBwThrottleCore (core : Nat) : State :=
  match s.ias.cores core with
  | some p =>
    let active := (s.ias.data p).threadsActive
    s.modLimits p fun l => { l with threadsLimit := max 0 (min (l.threadsLimit - 1) (active - 1)) }
  | none => s

def iasBwPunish : State :=
  match iasBwChooseVictim cfg fl s smp with
  | some (victim, core) =>
    iasBwThrottleCore (s.modLimits victim fun l => { l with isBwlimited := true }) core
  | none => s

/-- The congested process with the highest limit among the limited ones. -/
def bestTask : List Nat → Option Nat → Option Nat
  | [], best => best
  | p :: rest, best =>
    if !(s.limits p).isBwlimited || !(s.limits p).isCongested then bestTask rest best
    else if best.any fun b => (s.limits p).threadsLimit ≤ (s.limits b).threadsLimit then
      bestTask rest best
    else bestTask rest (some p)

def iasBwRelax : State :=
  match bestTask s s.ias.allProcs none with
  | some p => s.modLimits p fun l =>
    { l with
      threadsLimit := l.threadsLimit + 1
      isBwlimited := if l.threadsMax ≤ l.threadsLimit + 1 then false else l.isBwlimited }
  | none => s

inductive Event where
  | attach (p : Nat) (spec : Ias.Spec) (maxCores : BitVec 32) (malloc : Bool)
  | sched (e : Ias.Event)
  | congested (p : Nat) (isCongested : Bool)
  | punish (smp : Samples fl)
  | relax

def step : Event fl → Option State
  | .attach p spec maxCores malloc =>
    (Ias.step cfg s.ias (.attach p spec malloc)).map fun ias =>
      ⟨ias, update s.limits p ⟨maxCores.toInt, maxCores.toInt, false, false⟩⟩
  | .sched (.attach ..) => none
  | .sched e => (Ias.step cfg s.ias e).map fun ias => { s with ias := ias }
  | .congested p b => some (s.modLimits p fun l => { l with isCongested := b })
  | .punish smp => some (iasBwPunish cfg fl s smp)
  | .relax => some (iasBwRelax s)

def init : State := ⟨Ias.init cfg.toMachine, fun _ => ⟨0, 0, false, false⟩⟩

/-- A process attaches with no more guaranteed than maximal cores, both within an `int`, and
a process is throttled only while it runs on more cores than it is guaranteed. -/
def Spared : Event fl → Prop
  | .attach _ spec maxCores _ =>
    spec.guaranteedCores.toNat ≤ maxCores.toNat ∧ maxCores.toNat < 2 ^ 31
  | .punish smp => ∀ victim core, iasBwChooseVictim cfg fl s smp = some (victim, core) →
    (s.ias.data victim).threadsGuaranteed < (s.ias.data victim).threadsActive
  | _ => True

end Model

structure Limits.Lawful (l : Limits) (guaranteed : Int) : Prop where
  guaranteed : guaranteed ≤ l.threadsLimit
  max : l.threadsLimit ≤ l.threadsMax
  limited : l.isBwlimited = true ↔ l.threadsLimit < l.threadsMax

section Runs

variable {cfg : Ias.Config} {fl : Floats} {s s' : State} {smp : Samples fl} {p core : Nat}

theorem worstTask_spec {l : List Nat} {v : Option Nat} {hi : fl.F}
    (h : worstTask cfg fl s smp l v hi = some p) :
    v = some p ∨ (s.ias.data p).threadsGuaranteed < (s.limits p).threadsLimit := by
  fun_induction worstTask with
  | case1 => exact .inl h
  | case2 _ _ _ _ _ ih => exact ih h
  | case3 _ _ _ _ _ _ _ ih => exact ih h
  | case4 _ _ _ _ _ _ _ _ ih => exact ih h
  | case5 q _ _ _ _ hlimit _ _ ih =>
    rcases ih h with heq | hlt
    · cases heq
      exact .inr (by omega)
    · exact .inr hlt

theorem worstCore_spec {victim : Nat} {l : List Nat} {c : Option Nat} {hi : fl.F}
    (hc : ∀ k, c = some k → s.ias.cores k = some victim)
    (h : worstCore fl s smp victim l c hi = some core) : s.ias.cores core = some victim := by
  fun_induction worstCore with
  | case1 => exact hc core h
  | case2 _ _ _ _ _ ih => exact ih hc h
  | case3 _ _ _ _ _ _ ih => exact ih hc h
  | case4 k _ _ _ _ hk ih =>
    refine ih (fun k' hk' => ?_) h
    cases hk'
    exact Classical.not_not.1 hk

theorem bestTask_spec {l : List Nat} {b : Option Nat}
    (hb : ∀ p, b = some p → (s.limits p).isBwlimited = true) (h : bestTask s l b = some p) :
    (s.limits p).isBwlimited = true := by
  fun_induction bestTask with
  | case1 => exact hb p h
  | case2 _ _ _ _ ih => exact ih hb h
  | case3 _ _ _ _ _ ih => exact ih hb h
  | case4 q _ _ hq _ ih =>
    refine ih (fun p' hp' => ?_) h
    cases hp'
    simp_all

def Inv (s : State) : Prop := ∀ p ∈ s.ias.allProcs,
  0 ≤ (s.ias.data p).threadsGuaranteed ∧ (s.limits p).Lawful (s.ias.data p).threadsGuaranteed

theorem Inv.mod (h : Inv s) {f : Limits → Limits}
    (hf : ∀ g : Int, g = (s.ias.data p).threadsGuaranteed → 0 ≤ g → (s.limits p).Lawful g →
      (f (s.limits p)).Lawful g) : Inv (s.modLimits p f) := by
  intro q hq
  obtain ⟨hpos, hlaw⟩ := h q hq
  refine ⟨hpos, ?_⟩
  simp only [State.modLimits, update_apply]
  split
  · rename_i heq
    subst heq
    exact hf _ rfl hpos hlaw
  · exact hlaw

theorem Inv.punish (h : Inv s) (hok : Spared cfg fl s (.punish smp)) :
    Inv (iasBwPunish cfg fl s smp) := by
  unfold iasBwPunish
  cases hchoice : iasBwChooseVictim cfg fl s smp with
  | none => exact h
  | some vc =>
    obtain ⟨v, core⟩ := vc
    have hactive := hok v core hchoice
    obtain ⟨v', hv, hcore⟩ := Option.bind_eq_some_iff.1 hchoice
    obtain ⟨c, hc, heq⟩ := Option.map_eq_some_iff.1 hcore
    cases heq
    have hlimit := (worstTask_spec hv).resolve_left nofun
    have hruns := worstCore_spec (c := none) nofun hc
    simp only [iasBwThrottleCore, State.modLimits, hruns, update_self, update_idem]
    refine h.mod (p := v) (f := fun l => ⟨l.threadsMax, _, true, l.isCongested⟩) ?_
    rintro g rfl hpos ⟨hlow, hhigh, hiff⟩
    refine ⟨?_, ?_, ?_⟩ <;> simp <;> omega

theorem Inv.relax (h : Inv s) : Inv (iasBwRelax s) := by
  unfold iasBwRelax
  cases hbest : bestTask s s.ias.allProcs none with
  | none => exact h
  | some p =>
    have hlim := bestTask_spec (b := none) nofun hbest
    refine h.mod ?_
    rintro g - - ⟨hlow, hhigh, hiff⟩
    refine ⟨?_, ?_, ?_⟩ <;> simp_all <;> omega

theorem Inv.keeps {e : Event fl} (h : Inv s) (hok : Spared cfg fl s e)
    (hstep : step cfg fl s e = some s') : Inv s' := by
  cases e with
  | attach p spec maxCores malloc =>
    obtain ⟨ias, hias, rfl⟩ := Option.map_eq_some_iff.1 hstep
    obtain ⟨hp, rfl⟩ := Option.ite_some_none_eq_some.1 hias
    obtain ⟨hle, hlt⟩ := hok
    have hg : spec.guaranteedCores.toInt = spec.guaranteedCores.toNat :=
      BitVec.toInt_eq_toNat_of_lt (by omega)
    have hm : maxCores.toInt = maxCores.toNat := BitVec.toInt_eq_toNat_of_lt (by omega)
    have hdata : ∀ q ∈ (Ias.schedAttachProc cfg.toMachine s.ias p spec malloc).allProcs,
        (q ∈ s.ias.allProcs ∧ (Ias.schedAttachProc cfg.toMachine s.ias p spec malloc).data q =
          s.ias.data q) ∨
        (q = p ∧ ((Ias.schedAttachProc cfg.toMachine s.ias p spec malloc).data q).threadsGuaranteed =
          spec.guaranteedCores.toNat) := by
      intro q hq
      rcases Ias.schedAttachProc_eq cfg.toMachine s.ias p spec malloc with heq | ⟨n, heq⟩
      all_goals rw [heq] at hq ⊢
      · exact .inl ⟨hq, rfl⟩
      · rcases Ias.iasAttach_cases cfg.toMachine s.ias p spec malloc with
          heq | heq | ⟨-, -, -, hprocs, -, -, -, -, loc, us, hdata⟩
        · simp_all
        · simp_all
        · simp only [hprocs, List.mem_cons, hdata, update_apply] at hq ⊢
          grind
    intro q hq
    rcases hdata q hq with ⟨hold, heq⟩ | ⟨rfl, heq⟩
    · have hne : q ≠ p := fun he => hp (he ▸ hold)
      simp only [heq, update_of_ne hne]
      exact h q hold
    · simp only [heq, update_self, hm]
      exact ⟨Int.natCast_nonneg _, Int.ofNat_le.2 hle, le_rfl, by simp⟩
  | sched e =>
    obtain ⟨ias, rfl, hdata⟩ : ∃ ias, { s with ias := ias } = s' ∧ ∀ q ∈ ias.allProcs,
        q ∈ s.ias.allProcs ∧
        (ias.data q).threadsGuaranteed = (s.ias.data q).threadsGuaranteed := by
      cases e with
      | attach => cases hstep
      | detach p =>
        obtain ⟨ias, hias, rfl⟩ := Option.map_eq_some_iff.1 hstep
        obtain ⟨-, rfl⟩ := Option.ite_some_none_eq_some.1 hias
        exact ⟨_, rfl, fun q hq => ⟨List.mem_of_mem_erase hq, rfl⟩⟩
      | run | idle | placeholder | markIdle | cleanup | htPoll | tick =>
        unfold step at hstep
        obtain ⟨ias, hias, rfl⟩ := Option.map_eq_some_iff.1 hstep
        have hk := Ias.keeps_of_step rfl hias
        exact ⟨_, rfl, fun q hq => ⟨hk.procs ▸ hq, hk.guaranteed q⟩⟩
    intro q hq
    obtain ⟨hold, heq⟩ := hdata q hq
    rw [heq]
    exact h q hold
  | congested p b =>
    cases hstep
    exact h.mod fun _ _ _ hlaw => ⟨hlaw.guaranteed, hlaw.max, hlaw.limited⟩
  | punish smp =>
    cases hstep
    exact h.punish hok
  | relax =>
    cases hstep
    exact h.relax

end Runs

/-- If no process is throttled down to its guarantee, limits stay between the guaranteed and
the maximal number of cores, and a process counts as limited exactly below its maximum. -/
theorem bw_limits_lawful (cfg : Ias.Config) (fl : Floats) (s : State)
    (hreach : Reaches (step cfg fl) (Spared cfg fl) (init cfg) s) (p : Nat)
    (hp : p ∈ s.ias.allProcs) :
    (s.limits p).Lawful (s.ias.data p).threadsGuaranteed :=
  (hreach.invariant (P := Inv) (fun _ hp => nomatch hp) (fun _ _ _ h hok hs => h.keeps hok hs) p hp).2

/-- Rates that count events. -/
def counts : Floats := ⟨Nat, 0, (· + ·), fun a b => a ≤ b, fun _ => false⟩

def busy : Samples counts := ⟨fun _ => (1 : Nat), fun _ => true⟩

/-- A process with a guarantee of two runs on `active` cores and is throttled. -/
def throttled (active : List Nat) : List (Event counts) :=
  .attach 0 ⟨false, 2#32, 0⟩ 4#32 true :: active.map (fun c => .sched (.run 0 c true true)) ++
    [.punish busy]

instance (s : State) : (e : Event counts) → Decidable (Spared Ias.twoPairs counts s e)
  | .attach .. => inferInstanceAs (Decidable (_ ≤ _ ∧ _ < _))
  | .punish smp => decidable_of_iff (∀ vc ∈ iasBwChooseVictim Ias.twoPairs counts s smp,
      (s.ias.data vc.1).threadsGuaranteed < (s.ias.data vc.1).threadsActive)
      ⟨fun h v c hc => h (v, c) hc, fun h vc hvc => h vc.1 vc.2 hvc⟩
  | .sched _ | .congested .. | .relax => inferInstanceAs (Decidable True)

theorem bw_limits_lawful_four : ∃ s,
    Reaches (step Ias.twoPairs counts) (Spared Ias.twoPairs counts) (init Ias.twoPairs) s ∧
    (s.limits 0).threadsLimit = 3 ∧ (s.limits 0).Lawful (s.ias.data 0).threadsGuaranteed := by
  obtain ⟨s, hreach, hp, hlimit⟩ : ∃ s,
      Reaches (step Ias.twoPairs counts) (Spared Ias.twoPairs counts) (init Ias.twoPairs) s ∧
      0 ∈ s.ias.allProcs ∧ (s.limits 0).threadsLimit = 3 :=
    exists_of_runChecked (throttled [0, 1, 2, 3]) (by decide +kernel)
  exact ⟨s, hreach, hlimit, bw_limits_lawful Ias.twoPairs counts s hreach 0 hp⟩

/-- Throttled on its only core, the process is left without any. -/
theorem throttled_below_guarantee : ∃ s,
    Reaches (step Ias.twoPairs counts) anyStep (init Ias.twoPairs) s ∧ 0 ∈ s.ias.allProcs ∧
    (s.ias.data 0).threadsGuaranteed = 2 ∧ (s.limits 0).threadsLimit = 0 :=
  exists_of_runActions (throttled [0]) (by decide +kernel)

end Svalinn.Iokernel.IasBw
