/-
  Pcc/Decision.lean --- the decision at the end of a round.

  Source: `breakwater/src/pcc_server.c`, `SPCC_CTL_STATE_MAKE_DECISION` of
  `srpc_update_credit_pool`, and `breakwater/src/pcc_config.h`, `spcc_comp_util_fn`.

  The utilities are `double`s; their comparison `greater` is a parameter.  Between the calls
  that win `srpc_pcc_lock` the receivers and the workers change the statistics, and
  `srpc_server` resets the pool when the last session has left.
-/
import Svalinn.Pcc.Controller

set_option autoImplicit false

namespace Svalinn.Pcc

open Svalinn.Lib

/-- `spcc_comp_util_fn`; `greater` compares the utilities of two experiments. -/
def spccCompUtilFn (greater : MicroExpStats → MicroExpStats → Bool) (minus plus : MicroExpStats) :
    Dir :=
  if greater plus minus then .plus else .minus

inductive RoundEvent where
  | call (i : CallIn)
  | record (stats : Nat → ExpStats)
  | reset

section Decisions

variable (maxCores : Int) (greater : MicroExpStats → MicroExpStats → Bool)

def roundStep (c : Ctl) : RoundEvent → Option Ctl
  | .call i => some (srpcUpdateCreditPool maxCores (spccCompUtilFn greater) c i).1
  | .record stats => some { c with stats := stats }
  | .reset => some { c with creditPool := maxCores }

def poolMove (i : CallIn) (pool : Int) : Option Dir → Int
  | some .minus => -1
  | some .stay => if i.creditUsed < pool then -1 else 0
  | some .plus => if i.creditUsed ≥ pool then 1 else -1
  | none => 0

/-- The pool after it has been moved by `k` steps; it is clamped if it moves at all. -/
def movedPool (numSess pool k : Int) : Int :=
  if k = 0 then pool else clampPool maxCores numSess (pool + k * epsilon)

/-- One experiment received no request, or the more heavily loaded one had the larger
utility. -/
def LoadPays (s₁ s₂ : MicroExpStats) : Prop :=
  s₁.inReqs = 0 ∨ s₂.inReqs = 0 ∨ (s₁.inReqs > s₂.inReqs ∧ greater s₁ s₂ = true) ∨
    (s₂.inReqs > s₁.inReqs ∧ greater s₂ s₁ = true)

/-- What the decision should guarantee; `staleDir` is the content of the uninitialised
variable. -/
structure SoundDecision (c : Ctl) (i : CallIn) : Prop where
  determined : ∃ dir, ∀ stale,
    updateDir (spccCompUtilFn greater) (c.readStats 1) (c.readStats 2) stale = some dir
  oneStep : ∃ k : Int, (k = -1 ∨ k = 0 ∨ k = 1) ∧
    (drive maxCores (spccCompUtilFn greater) c i).creditPool =
      movedPool maxCores i.numSess c.creditPool k ∧
    (k = 1 → c.creditPool ≤ i.creditUsed ∧ LoadPays greater (c.readStats 1) (c.readStats 2))
  restarts : (drive maxCores (spccCompUtilFn greater) c i).state = .prepareMicroExp ∧
    (drive maxCores (spccCompUtilFn greater) c i).numMicroExps = 0

/-- The loads of the two experiments can be told apart, or one of them is empty. -/
def Distinguished (c : Ctl) : Prop :=
  (c.stats 1).inReqs = 0 ∨ (c.stats 2).inReqs = 0 ∨ (c.stats 1).inReqs ≠ (c.stats 2).inReqs

instance (c : Ctl) : Decidable (Distinguished c) := inferInstanceAs (Decidable (_ ∨ _))

end Decisions

section Lemmas

variable {maxCores : Int} {greater : MicroExpStats → MicroExpStats → Bool}

theorem decidedPool_eq_movedPool (i : CallIn) (pool : Int) (dir : Option Dir) :
    decidedPool maxCores i pool dir = movedPool maxCores i.numSess pool (poolMove i pool dir) := by
  have hminus : decrCreditPool maxCores i.numSess pool = movedPool maxCores i.numSess pool (-1) :=
    congrArg (clampPool maxCores i.numSess) (by omega)
  have hplus : incrCreditPool maxCores i.numSess pool = movedPool maxCores i.numSess pool 1 :=
    congrArg (clampPool maxCores i.numSess) (by omega)
  unfold decidedPool poolMove
  cases dir with
  | none => rfl
  | some dir =>
    cases dir with
    | minus => exact hminus
    | stay =>
      dsimp only
      split
      · exact hminus
      · rfl
    | plus =>
      dsimp only
      split
      · exact hplus
      · exact hminus

theorem poolMove_cases (i : CallIn) (pool : Int) (dir : Option Dir) :
    poolMove i pool dir = -1 ∨ poolMove i pool dir = 0 ∨ poolMove i pool dir = 1 := by
  unfold poolMove
  split
  · exact .inl rfl
  · split
    · exact .inl rfl
    · exact .inr (.inl rfl)
  · split
    · exact .inr (.inr rfl)
    · exact .inl rfl
  · exact .inr (.inl rfl)

/-- Only the direction plus raises the pool, and only if the credits are used up. -/
theorem dir_of_poolMove {i : CallIn} {pool : Int} {dir : Option Dir}
    (h : poolMove i pool dir = 1) : dir = some .plus ∧ pool ≤ i.creditUsed := by
  unfold poolMove at h
  split at h
  · exact absurd h (by decide)
  · split at h <;> exact absurd h (by decide)
  · split at h
    · exact ⟨rfl, ‹_›⟩
    · exact absurd h (by decide)
  · exact absurd h (by decide)

theorem greater_of_plus {s₁ s₂ : MicroExpStats} (h : spccCompUtilFn greater s₁ s₂ = .plus) :
    greater s₂ s₁ = true := by
  unfold spccCompUtilFn at h
  split at h
  · assumption
  · cases h

/-- The direction does not depend on the uninitialised variable exactly if the loads are
distinguished. -/
theorem determined_iff (c : Ctl) : (∃ dir, ∀ stale,
      updateDir (spccCompUtilFn greater) (c.readStats 1) (c.readStats 2) stale = some dir) ↔
    Distinguished c := by
  have h₁ : (c.readStats 1).inReqs = (c.stats 1).inReqs := rfl
  have h₂ : (c.readStats 2).inReqs = (c.stats 2).inReqs := rfl
  unfold updateDir Distinguished
  rw [h₁, h₂]
  constructor
  · rintro ⟨dir, hdir⟩
    by_contra hcon
    rw [not_or, not_or, not_not] at hcon
    obtain ⟨hone, htwo, heq⟩ := hcon
    have hnone := hdir none
    rw [if_neg (not_or.2 ⟨hone, htwo⟩), if_neg (by omega), if_neg (by omega)] at hnone
    cases hnone
  · intro hdist
    by_cases hzero : (c.stats 1).inReqs = 0 ∨ (c.stats 2).inReqs = 0
    · exact ⟨_, fun _ => if_pos hzero⟩
    · by_cases hgt : (c.stats 1).inReqs > (c.stats 2).inReqs
      · exact ⟨_, fun _ => (if_neg hzero).trans (if_pos hgt)⟩
      · have hlt : (c.stats 2).inReqs > (c.stats 1).inReqs := by omega
        exact ⟨_, fun _ => (if_neg hzero).trans ((if_neg hgt).trans (if_pos hlt))⟩

theorem loadPays_of_plus {s₁ s₂ : MicroExpStats} {stale : Option Dir}
    (hdist : s₁.inReqs = 0 ∨ s₂.inReqs = 0 ∨ s₁.inReqs ≠ s₂.inReqs)
    (h : updateDir (spccCompUtilFn greater) s₁ s₂ stale = some .plus) : LoadPays greater s₁ s₂ := by
  unfold updateDir at h
  split at h
  · rename_i hzero
    exact hzero.imp_right Or.inl
  · split at h
    · rename_i hgt
      exact .inr (.inr (.inl ⟨hgt, greater_of_plus (Option.some.inj h)⟩))
    · split at h
      · rename_i hlt
        exact .inr (.inr (.inr ⟨hlt, greater_of_plus (Option.some.inj h)⟩))
      · omega

theorem soundDecision_of_distinguished {c : Ctl} (i : CallIn) (hstate : c.state = .makeDecision)
    (hdist : Distinguished c) : SoundDecision maxCores greater c i := by
  have hdrive : drive maxCores (spccCompUtilFn greater) c i =
      makeDecision maxCores (spccCompUtilFn greater) c i := by
    unfold drive
    rw [hstate]
  refine ⟨(determined_iff c).2 hdist, ?_, ?_⟩
  · rw [hdrive]
    refine ⟨poolMove i c.creditPool _, poolMove_cases _ _ _, decidedPool_eq_movedPool _ _ _, ?_⟩
    intro hup
    obtain ⟨hplus, hused⟩ := dir_of_poolMove hup
    exact ⟨hused, loadPays_of_plus hdist hplus⟩
  · rw [hdrive]
    exact ⟨rfl, rfl⟩

theorem roundStep_phased {c c' : Ctl} {e : RoundEvent} (h : c.Phased)
    (hstep : roundStep maxCores greater c e = some c') : c'.Phased := by
  cases e with
  | call i =>
    cases hstep
    obtain ⟨w, ⟨-, hcase⟩ | ⟨-, hcase⟩⟩ :=
      srpcUpdateCreditPool_cases maxCores (spccCompUtilFn greater) c i
    · rw [hcase]
      exact h
    · rw [hcase]
      exact drive_phased i h
  | record _ | reset =>
    cases hstep
    exact h

/-- In every run the assertions on the number of experiments hold, and a decision is sound exactly
if the loads of the two experiments are distinguished. -/
theorem decision_sound_iff (now rand : Nat) {c : Ctl}
    (hreach : Reaches (roundStep maxCores greater) anyStep (ctlInit maxCores now rand) c) :
    (c.state = .prepareMicroExp ∨ c.state = .startMicroExp → c.numMicroExps < maxNumMicroExps) ∧
    ∀ (d : Ctl) (i : CallIn), d.state = .makeDecision →
      (SoundDecision maxCores greater d i ↔ Distinguished d) := by
  have hphased : c.Phased := hreach.invariant (P := Ctl.Phased) (ctlInit_phased now rand)
    fun _ _ _ h _ hs => roundStep_phased h hs
  refine ⟨?_, fun d i hd => ⟨fun h => (determined_iff d).1 h.determined, ?_⟩⟩
  · intro hstate
    unfold Ctl.Phased at hphased
    rcases hstate with hstate | hstate
    · rw [hstate] at hphased
      exact hphased.1
    · rw [hstate] at hphased
      exact hphased.1
  · exact soundDecision_of_distinguished i hd

end Lemmas

/-- A controller about to decide, with `n` and `m` requests in its two experiments. -/
def decideAfter (n m : Nat) : Ctl :=
  { ctlInit 4 0 0 with
    state := .makeDecision
    numMicroExps := 2
    stats := fun k => { inReqs := if k = 1 then n else m } }

theorem decision_sound_first : Distinguished (decideAfter 3 2) ∧
    SoundDecision 4 (fun _ _ => true) (decideAfter 3 2) (callAt 0) :=
  ⟨by decide, ((decision_sound_iff 0 0 .refl).2 _ _ rfl).2 (by decide)⟩

/-- Both experiments received two requests.  With plus in the uninitialised variable the pool is
raised although neither load paid, and without an enumerator in it the pool stays. -/
theorem equal_loads_undetermined : (drive 4 (spccCompUtilFn fun _ _ => false) (decideAfter 2 2)
      { callAt 0 with staleDir := some .plus }).creditPool = 5 ∧
    (drive 4 (spccCompUtilFn fun _ _ => false) (decideAfter 2 2) (callAt 0)).creditPool = 4 ∧
    ¬ SoundDecision 4 (fun _ _ => false) (decideAfter 2 2) (callAt 0) := by
  refine ⟨by decide, by decide, ?_⟩
  intro h
  exact absurd ((determined_iff _).1 h.determined) (by decide)

end Svalinn.Pcc
