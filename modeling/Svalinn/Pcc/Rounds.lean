/-
  Pcc/Rounds.lean --- the pool in the rounds of the PCC controller.

  A round runs from PREPARE of experiment 1 to MAKE_DECISION.  `RoundPhase` is
  the pool in every state of a round in which the number of sessions does not
  change; it is kept by every call (`drive_roundPhase`).  The second experiment
  is prepared from the first one's pool, so its pool is the clamp of
  `clamp (orig + d) - d` and not of `orig - d`; `secondPool_eq_iff` settles when
  the two agree.
-/
import Svalinn.Pcc.Controller

set_option autoImplicit false

namespace Svalinn.Pcc

open Svalinn.Lib

/-- The controller with the number of sessions it will read. -/
structure CtlSys where
  ctl : Ctl
  numSess : Int

inductive CtlEvent where
  | call (i : CallIn)
  | sessions (n : Int)

section Runs

variable (maxCores : Int) (comp : MicroExpStats → MicroExpStats → Dir)

def ctlStep (s : CtlSys) : CtlEvent → Option CtlSys
  | .call i =>
    some { s with ctl := (srpcUpdateCreditPool maxCores comp s.ctl { i with numSess := s.numSess }).1 }
  | .sessions n => some { s with numSess := n }

def Ctl.atRoundStart (c : Ctl) : Prop := c.state = .prepareMicroExp ∧ c.numMicroExps = 0

instance (c : Ctl) : Decidable c.atRoundStart := inferInstanceAs (Decidable (_ ∧ _))

def constInRound (s : CtlSys) : CtlEvent → Prop
  | .call _ => True
  | .sessions _ => s.ctl.atRoundStart

def beforeDecision (s : CtlSys) : CtlEvent → Prop
  | .call _ => s.ctl.state ≠ .makeDecision
  | .sessions _ => False

def poolHi (numSess : Int) : Int := numSess * 2 ^ maxWindowExp

def poolLo (numSess : Int) : Int := min maxCores (poolHi numSess)

/-- The intended pool of an experiment: the original one moved by `d` steps and
clamped. -/
def intendedPool (numSess o d : Int) : Int :=
  max (poolLo maxCores numSess) (min (o + d * epsilon) (poolHi numSess))

/-- While experiment `i` is measured the pool is the intended one, and at the
decision it is the original one again. -/
def Measured (s : CtlSys) : Prop :=
  (s.ctl.microExpId ≠ 0 → s.ctl.creditPool =
    intendedPool maxCores s.numSess s.ctl.origCp (s.ctl.dirs s.ctl.microExpId)) ∧
  (s.ctl.state = .makeDecision → s.ctl.creditPool = s.ctl.origCp)

/-- When the second experiment is measured where it should be, in terms of the
original pool `o`, the first direction `d` and the bounds of the clamp. -/
def BothDirections (numSess o d : Int) : Prop :=
  let hi := poolHi numSess
  let lo := poolLo maxCores numSess
  lo = hi ∨ (d = 1 ∧ (o ≤ lo ∨ o = hi)) ∨ (d = -1 ∧ (o = lo ∨ hi ≤ o))

instance (numSess o d : Int) : Decidable (BothDirections maxCores numSess o d) :=
  inferInstanceAs (Decidable (_ ∨ _))

/-- The pool in every state of a round: the second experiment is prepared from
the first one's pool. -/
def roundPool (s : CtlSys) : Int :=
  let c := s.ctl
  let p₁ := updateCreditPool maxCores s.numSess c.origCp (c.dirs 1)
  let p₂ := updateCreditPool maxCores s.numSess p₁ (c.dirs 2)
  match c.state with
  | .prepareMicroExp => if c.numMicroExps = 0 then c.origCp else p₁
  | .startMicroExp | .endMicroExp => if c.numMicroExps = 0 then p₁ else p₂
  | .makeDecision => c.origCp

def RoundPhase (s : CtlSys) : Prop := s.ctl.Phased ∧ s.ctl.creditPool = roundPool maxCores s

def OppositeDirs (c : Ctl) : Prop := (c.dirs 1 = 1 ∨ c.dirs 1 = -1) ∧ c.dirs 2 = -c.dirs 1

end Runs

/-! ## The clamps and the directions -/

theorem updateCreditPool_eq_intended (maxCores numSess o d : Int) :
    updateCreditPool maxCores numSess o d = intendedPool maxCores numSess o d := by
  simp only [updateCreditPool, clampPool, intendedPool, poolLo, poolHi]
  omega

/-- Undoing the first step from the clamped pool reaches the intended pool of
the opposite direction exactly in the cases `BothDirections` lists. -/
theorem secondPool_eq_iff {maxCores numSess o d : Int} (hd : d = 1 ∨ d = -1) :
    intendedPool maxCores numSess (intendedPool maxCores numSess o d) (-d) =
      intendedPool maxCores numSess o (-d) ↔ BothDirections maxCores numSess o d := by
  simp only [intendedPool, BothDirections, poolLo, epsilon]
  generalize poolHi numSess = hi
  rcases hd with rfl | rfl
  · omega
  · omega

@[simp] theorem genMicroExpDirs_two (rand : Nat) (dirs : Nat → Int) :
    genMicroExpDirs rand dirs 2 = -genMicroExpDirs rand dirs 1 := by
  simp [genMicroExpDirs]

theorem genMicroExpDirs_one (rand : Nat) (dirs : Nat → Int) :
    genMicroExpDirs rand dirs 1 = 1 ∨ genMicroExpDirs rand dirs 1 = -1 := by
  by_cases h : rand % 2 = 0
  · exact Or.inr (by simp [genMicroExpDirs, h])
  · exact Or.inl (by simp [genMicroExpDirs, h])

section Lemmas

variable {maxCores : Int} {comp : MicroExpStats → MicroExpStats → Dir}

theorem drive_oppositeDirs {c : Ctl} (i : CallIn) (h : OppositeDirs c) :
    OppositeDirs (drive maxCores comp c i) := by
  unfold drive
  split
  · exact h
  · exact h
  · unfold endMicroExp
    dsimp only
    split <;> exact h
  · exact ⟨genMicroExpDirs_one i.rand c.dirs, genMicroExpDirs_two i.rand c.dirs⟩

theorem drive_roundPhase {s : CtlSys} {i : CallIn} (hn : i.numSess = s.numSess)
    (h : RoundPhase maxCores s) :
    RoundPhase maxCores { s with ctl := drive maxCores comp s.ctl i } := by
  obtain ⟨hphased, hpool⟩ := h
  refine ⟨drive_phased i hphased, ?_⟩
  unfold Ctl.Phased at hphased
  unfold drive
  cases hst : s.ctl.state with
  | prepareMicroExp =>
    simp only [hst, maxNumMicroExps] at hphased
    rcases Nat.lt_succ_iff_lt_or_eq.1 hphased.1 with hk | hk
    · have hzero : s.ctl.numMicroExps = 0 := by omega
      simp [roundPool, prepareMicroExp, hst, hzero, hn, hpool]
    · simp [roundPool, prepareMicroExp, hst, hk, hn, hpool]
  | startMicroExp =>
    simp only [roundPool, hst] at hpool
    exact hpool
  | endMicroExp =>
    by_cases hmore : s.ctl.numMicroExps + 1 < maxNumMicroExps
    · have hzero : s.ctl.numMicroExps = 0 := by
        simp only [maxNumMicroExps] at hmore
        omega
      simp [roundPool, endMicroExp, hst, hzero, hpool, maxNumMicroExps]
    · simp [roundPool, endMicroExp, hmore]
  | makeDecision => simp [roundPool, makeDecision]

theorem roundPhase_sessions {s : CtlSys} (hstart : s.ctl.atRoundStart) (n : Int)
    (h : RoundPhase maxCores s) : RoundPhase maxCores { s with numSess := n } := by
  obtain ⟨hst, hk⟩ := hstart
  obtain ⟨hphased, hpool⟩ := h
  refine ⟨hphased, ?_⟩
  simp only [roundPool, hst, hk, if_true] at hpool ⊢
  exact hpool

/-- What every run keeps: the phase of the round and the two directions. -/
def CtlInv (maxCores : Int) (s : CtlSys) : Prop := RoundPhase maxCores s ∧ OppositeDirs s.ctl

theorem ctlStep_call_inv {s t : CtlSys} {i : CallIn} (h : CtlInv maxCores s)
    (hs : ctlStep maxCores comp s (.call i) = some t) :
    CtlInv maxCores t ∧ t.numSess = s.numSess := by
  cases hs
  obtain ⟨w, ⟨-, hcase⟩ | ⟨-, hcase⟩⟩ :=
    srpcUpdateCreditPool_cases maxCores comp s.ctl
      { i with numSess := s.numSess }
  · rw [hcase]
    exact ⟨h, rfl⟩
  · rw [hcase]
    exact ⟨⟨drive_roundPhase (i := { i with numSess := s.numSess }) rfl h.1,
      drive_oppositeDirs _ h.2⟩, rfl⟩

theorem ctlInit_inv (now rand : Nat) (n : Int) : CtlInv maxCores ⟨ctlInit maxCores now rand, n⟩ :=
  ⟨⟨ctlInit_phased now rand, rfl⟩, genMicroExpDirs_one rand fun _ => 0, genMicroExpDirs_two rand fun _ => 0⟩

theorem reaches_ctlInv {now rand : Nat} {n : Int} {s : CtlSys}
    (h : Reaches (ctlStep maxCores comp) constInRound ⟨ctlInit maxCores now rand, n⟩ s) :
    CtlInv maxCores s := by
  refine h.invariant (ctlInit_inv now rand n) ?_
  intro u e v hu hok hs
  cases e with
  | call i => exact (ctlStep_call_inv hu hs).1
  | sessions m =>
    cases hs
    exact ⟨roundPhase_sessions hok m hu.1, hu.2⟩

/-! ## One round -/

/-- Inside a round the sessions, the original pool and the directions stay. -/
structure SameRound (s t : CtlSys) : Prop where
  numSess : t.numSess = s.numSess
  origCp : t.ctl.origCp = s.ctl.origCp
  dirs : t.ctl.dirs = s.ctl.dirs

theorem drive_same (maxCores : Int) (comp : MicroExpStats → MicroExpStats → Dir) {c : Ctl} (i : CallIn) (h : c.state ≠ .makeDecision) :
    (drive maxCores comp c i).origCp = c.origCp ∧ (drive maxCores comp c i).dirs = c.dirs := by
  unfold drive
  split
  · exact ⟨rfl, rfl⟩
  · exact ⟨rfl, rfl⟩
  · unfold endMicroExp
    dsimp only
    split <;> exact ⟨rfl, rfl⟩
  · contradiction

theorem reaches_sameRound {s t : CtlSys} (hs : CtlInv maxCores s)
    (h : Reaches (ctlStep maxCores comp) beforeDecision s t) :
    CtlInv maxCores t ∧ SameRound s t := by
  refine h.invariant (P := fun t => CtlInv maxCores t ∧ SameRound s t) ⟨hs, rfl, rfl, rfl⟩ ?_
  rintro u e v ⟨hinv, hsame⟩ hok hstep
  cases e with
  | sessions m => exact hok.elim
  | call i =>
    obtain ⟨hinv', hn⟩ := ctlStep_call_inv hinv hstep
    cases hstep
    obtain ⟨w, ⟨-, hcase⟩ | ⟨-, hcase⟩⟩ :=
      srpcUpdateCreditPool_cases maxCores comp u.ctl
        { i with numSess := u.numSess }
    · refine ⟨hinv', hsame.numSess, ?_, ?_⟩
      · rw [hcase]
        exact hsame.origCp
      · rw [hcase]
        exact hsame.dirs
    · obtain ⟨horig, hdirs⟩ := drive_same maxCores comp
        { i with numSess := u.numSess } hok
      refine ⟨hinv', hsame.numSess, ?_, ?_⟩
      · rw [hcase]
        exact horig.trans hsame.origCp
      · rw [hcase]
        exact hdirs.trans hsame.dirs

/-- In every phase the pool is the intended one, given that the second
experiment's is. -/
theorem roundPhase_measured {t : CtlSys} (hinv : CtlInv maxCores t)
    (hboth : BothDirections maxCores t.numSess t.ctl.origCp (t.ctl.dirs 1)) :
    Measured maxCores t := by
  obtain ⟨⟨hphased, hpool⟩, hone, htwo⟩ := hinv
  unfold Ctl.Phased at hphased
  simp only [roundPool, updateCreditPool_eq_intended] at hpool
  unfold Measured
  cases hst : t.ctl.state with
  | prepareMicroExp | startMicroExp =>
    simp only [hst] at hphased
    exact ⟨fun h => absurd hphased.2 h, nofun⟩
  | endMicroExp =>
    simp only [hst, maxNumMicroExps] at hphased hpool
    obtain ⟨hnum, hid⟩ := hphased
    refine ⟨fun _ => ?_, nofun⟩
    rcases Nat.lt_succ_iff_lt_or_eq.1 hnum with hk | hk
    · have hzero : t.ctl.numMicroExps = 0 := by omega
      rw [hid, hpool, hzero, if_pos rfl]
    · rw [hid, hpool, hk, if_neg (by decide), htwo]
      exact (secondPool_eq_iff hone).2 hboth
  | makeDecision =>
    simp only [hst] at hphased hpool
    exact ⟨fun h => absurd hphased.2 h, fun _ => hpool⟩

theorem exists_due_call (maxCores : Int) (comp : MicroExpStats → MicroExpStats → Dir) {s : CtlSys} (h : s.ctl.state ≠ .makeDecision) :
    ∃ i t, Reaches (ctlStep maxCores comp) beforeDecision s t ∧
      t.ctl.state = (drive maxCores comp s.ctl i).state ∧
      t.ctl.numMicroExps = (drive maxCores comp s.ctl i).numMicroExps := by
  let i : CallIn :=
    { now := s.ctl.nextUpdate, branchNow := 0, startTs := 0, endTs := 0, exitNow := 0, queueUs := 0
      memAccesses := 0, numSess := s.numSess, creditUsed := 0, rand := 0, staleDir := none }
  obtain ⟨w, ⟨hlt, -⟩ | ⟨-, hw⟩⟩ :=
    srpcUpdateCreditPool_cases maxCores comp s.ctl i
  · exact absurd hlt (Nat.lt_irrefl _)
  have hstep : ctlStep maxCores comp s (.call i) =
      some { s with ctl := { drive maxCores comp s.ctl i with lastWakeup := w } } := by
    rw [← hw]
    rfl
  exact ⟨i, _, Reaches.single (a := .call i) h hstep, rfl, rfl⟩

theorem reaches_second (maxCores : Int) (comp : MicroExpStats → MicroExpStats → Dir) {s : CtlSys} (h : s.ctl.atRoundStart) :
    ∃ t, Reaches (ctlStep maxCores comp) beforeDecision s t ∧
      t.ctl.state = .endMicroExp ∧ t.ctl.numMicroExps = 1 := by
  have prepare : ∀ u : CtlSys, u.ctl.state = .prepareMicroExp →
      ∃ t, Reaches (ctlStep maxCores comp) beforeDecision u t ∧
        t.ctl.state = .endMicroExp ∧ t.ctl.numMicroExps = u.ctl.numMicroExps := by
    intro u hu
    obtain ⟨i, v, huv, hst, hk⟩ := exists_due_call maxCores comp (s := u)
      (by rw [hu]; intro hc; cases hc)
    simp only [drive, hu, prepareMicroExp] at hst hk
    obtain ⟨j, w, hvw, hst', hk'⟩ := exists_due_call maxCores comp (s := v)
      (by rw [hst]; intro hc; cases hc)
    simp only [drive, hst, startMicroExp] at hst' hk'
    exact ⟨w, huv.trans hvw, hst', hk'.trans hk⟩
  obtain ⟨hstart, hzero⟩ := h
  obtain ⟨u, hsu, hu, hku⟩ := prepare s hstart
  obtain ⟨i, v, huv, hv, hkv⟩ := exists_due_call maxCores comp (s := u)
    (by rw [hu]; intro hc; cases hc)
  simp [drive, hu, endMicroExp, hku, hzero, maxNumMicroExps] at hv hkv
  obtain ⟨t, hvt, ht, hkt⟩ := prepare v hv
  exact ⟨t, (hsu.trans huv).trans hvt, ht, hkt.trans hkv⟩

/-- The micro-experiments of a round are measured at the intended pools exactly when the first
direction and the clamps make up for the missing reset between the two. -/
theorem bothDirections_iff {now rand : Nat} {n : Int} {s : CtlSys}
    (hreach : Reaches (ctlStep maxCores comp) constInRound ⟨ctlInit maxCores now rand, n⟩ s)
    (hstart : s.ctl.atRoundStart) :
    (∀ t, Reaches (ctlStep maxCores comp) beforeDecision s t → Measured maxCores t) ↔
      BothDirections maxCores s.numSess s.ctl.origCp (s.ctl.dirs 1) := by
  have hinv : CtlInv maxCores s := reaches_ctlInv hreach
  constructor
  · intro hall
    obtain ⟨t, hst, ht, hkt⟩ := reaches_second maxCores comp hstart
    obtain ⟨⟨⟨hphased, hpool⟩, hone, htwo⟩, hsame⟩ := reaches_sameRound hinv hst
    simp only [Ctl.Phased, ht, hkt] at hphased
    simp [roundPool, ht, hkt, updateCreditPool_eq_intended] at hpool
    have hmeas := (hall t hst).1 (by rw [hphased.2]; decide)
    rw [hphased.2, hpool, htwo] at hmeas
    rw [← hsame.numSess, ← hsame.origCp, ← hsame.dirs]
    exact (secondPool_eq_iff hone).1 hmeas
  · intro hboth t hst
    obtain ⟨hinv', hsame⟩ := reaches_sameRound hinv hst
    apply roundPhase_measured hinv'
    rw [hsame.numSess, hsame.origCp, hsame.dirs]
    exact hboth

end Lemmas

/-! ## A first round that agrees and a second one that does not -/

/-- In the first round the original pool is the lower bound, and both
experiments are measured where they should be. -/
theorem bothDirections_first_round : BothDirections 4 1 4 1 ∧
      ∀ t, Reaches (ctlStep 4 fun _ _ => .plus) beforeDecision ⟨ctlInit 4 0 1, 1⟩ t → Measured 4 t :=
  ⟨by decide, (bothDirections_iff (n := 1) .refl ⟨rfl, rfl⟩).2 (by decide)⟩

/-- The first decision raises the pool to 5.  The second round goes up first, to
6, and measures its other experiment back at 5, not at 4. -/
theorem second_experiment_at_original_pool :
    ∃ t, Reaches (ctlStep 4 fun _ _ => .plus) constInRound ⟨ctlInit 4 0 1, 1⟩ t ∧
      t.ctl.microExpId = 2 ∧ t.ctl.creditPool = 5 ∧
      intendedPool 4 t.numSess t.ctl.origCp (t.ctl.dirs 2) = 4 ∧ ¬ Measured 4 t := by
  have hrun : (runChecked (ctlStep 4 fun _ _ => .plus) (fun _ e => e matches .call _)
      ⟨ctlInit 4 0 1, 1⟩ ((List.range 12).map fun k => .call (callAt (1000 * k)))).map
        (fun t => (t.ctl.microExpId, t.ctl.creditPool, t.numSess, t.ctl.origCp, t.ctl.dirs 2)) =
      some (2, 5, 1, 5, -1) := by decide
  obtain ⟨t, ht, hdata⟩ := Option.map_eq_some_iff.1 hrun
  simp only [Prod.mk.injEq] at hdata
  obtain ⟨hid, hpool, hn, horig, hdir⟩ := hdata
  refine ⟨t, reaches_of_runChecked ?_ ht, hid, hpool, ?_, ?_⟩
  · intro u e _ he
    cases e with
    | call i => trivial
    | sessions m => cases he
  · rw [hn, horig, hdir]
    decide
  · intro hmeas
    have heq := hmeas.1 (by rw [hid]; decide)
    rw [hid, hpool, hn, horig, hdir] at heq
    exact absurd heq (by decide)

end Svalinn.Pcc
