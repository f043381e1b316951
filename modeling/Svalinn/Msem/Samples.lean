/-
  Msem/Samples.lean --- the statistics of the Thompson-sampling semaphore.

  Source: the constructor and `UpdateCapacity` of `MemSemaphoreMabTsImpl`
  (`m-semaphore/src/m_semaphore_mab_ts_impl.cpp`), as modelled in `Msem/Controller.lean`.

  Of every arm the controller keeps the last `WINDOW_SZ` rewards in a circular buffer and
  updates their number, their sum and the posterior of the mean reward with each new one.
  What it keeps is compared here with the whole history of the arm, in exact arithmetic.
-/
import Svalinn.Lib.Window
import Svalinn.Lib.Posterior
import Svalinn.Msem.Reward

set_option autoImplicit false

namespace Svalinn.Msem

open Svalinn.Lib Function

/-! ## Histories -/

/-- The rewards of arm `a` in a history of arms and rewards. -/
def rewardsOf {R : Type} (a : Nat) (history : List (Nat × R)) : List R :=
  (history.filter fun play => play.1 = a).map Prod.snd

theorem rewardsOf_append_self {R : Type} (history : List (Nat × R)) (a : Nat) (r : R) :
    rewardsOf a (history ++ [(a, r)]) = rewardsOf a history ++ [r] := by
  simp [rewardsOf]

theorem rewardsOf_append_of_ne {R : Type} {history : List (Nat × R)} {a cap : Nat} (h : a ≠ cap)
    (r : R) : rewardsOf a (history ++ [(cap, r)]) = rewardsOf a history := by
  simp [rewardsOf, h.symm]

theorem length_rtake {R : Type} (xs : List R) (n : Nat) :
    (xs.rtake n).length = min xs.length n := by
  unfold List.rtake
  rw [List.length_drop]
  omega

/-! ## The statistics of an arm -/

variable {F : Type} [Field F] [LinearOrder F]

/-- Exact arithmetic, with any square root and exponential. -/
def fieldArith (sqrt exp : F → F) : ArithExt F where
  ofNat n := n
  lit a b := a / b
  add := (· + ·)
  sub := (· - ·)
  mul := (· * ·)
  div := (· / ·)
  lt x y := decide (x < y)
  sqrt := sqrt
  exp := exp

namespace TsCtl

variable (sqrt exp : F → F)

@[simp] theorem lit_eq (a : Int) : (fieldArith sqrt exp).lit a 1 = a := by simp [fieldArith]
@[simp] theorem mu0_eq : mu0 (fieldArith sqrt exp) = 80 := by simp [mu0]
@[simp] theorem sigma0Sq_eq : sigma0Sq (fieldArith sqrt exp) = 625 := by simp [sigma0Sq]

/-- A controller after capacity updates with any rewards.  An update also sets the fields that
the statistics do not depend on. -/
inductive Updated : TsCtl F → List (Nat × F) → Prop
  | init (bytes now : Nat) : Updated (TsCtl.init (fieldArith sqrt exp) bytes now) []
  | learn {c : TsCtl F} {history : List (Nat × F)} (cap : Nat) (r peak : F) (probs : Nat → F)
      (bytes now : Nat) : Updated c history →
      Updated { TsCtl.learn (fieldArith sqrt exp) c cap r peak with
        softmaxProbs := probs, lastBytes := bytes, lastTime := now } (history ++ [(cap, r)])

/-- The statistics of arm `a` are those of the rewards `xs`. -/
structure ExactArm (c : TsCtl F) (a : Nat) (xs : List F) : Prop where
  /-- the cells hold the last rewards, and zero where there is none -/
  samples : Circular windowSz 0 (c.samples a) xs
  samplesIdx : c.samplesIdx a = xs.length % windowSz
  counts : c.counts a = min xs.length windowSz
  sums : c.sums a = (xs.rtake windowSz).sum
  posterior : IsPosterior 80 625 25 (xs.rtake windowSz) (c.means a) (c.vars a)

/-- All that is kept of arm `a` is the same. -/
structure SameArm (c c' : TsCtl F) (a : Nat) : Prop where
  samples : c'.samples a = c.samples a
  samplesIdx : c'.samplesIdx a = c.samplesIdx a
  counts : c'.counts a = c.counts a
  sums : c'.sums a = c.sums a
  means : c'.means a = c.means a
  vars : c'.vars a = c.vars a
  stdDevs : c'.stdDevs a = c.stdDevs a

variable {sqrt exp} {c c' : TsCtl F} {history : List (Nat × F)} {cap a : Nat} {r peak : F}
  {xs : List F}

variable (sqrt exp) in
/-- An update of another arm. -/
theorem learn_sameArm (r peak : F) (h : a ≠ cap) :
    SameArm c (TsCtl.learn (fieldArith sqrt exp) c cap r peak) a where
  samples := update_of_ne h ..
  samplesIdx := update_of_ne h ..
  counts := update_of_ne h ..
  sums := update_of_ne h ..
  means := update_of_ne h ..
  vars := update_of_ne h ..
  stdDevs := update_of_ne h ..

theorem ExactArm.of_same (h : ExactArm c a xs) (hs : SameArm c c' a) : ExactArm c' a xs where
  samples := hs.samples ▸ h.samples
  samplesIdx := hs.samplesIdx.trans h.samplesIdx
  counts := hs.counts.trans h.counts
  sums := hs.sums.trans h.sums
  posterior := by
    rw [hs.means, hs.vars]
    exact h.posterior

variable (sqrt exp) in
theorem learn_means_vars (c : TsCtl F) (cap : Nat) (r peak : F) :
    let c' := TsCtl.learn (fieldArith sqrt exp) c cap r peak
    c'.vars cap = 1 / (1 / 625 + (c'.counts cap : F) / 25) ∧
      c'.means cap = c'.vars cap * (80 / 625 + c'.sums cap / 25) := by
  simp [TsCtl.learn, fieldArith, mu0, sigmaSq, sigma0Sq]

variable [IsStrictOrderedRing F]

theorem ExactArm.init (bytes now : Nat) :
    ExactArm (TsCtl.init (fieldArith sqrt exp) bytes now) a [] where
  samples := by
    have hzero : (fieldArith sqrt exp).lit 0 1 = 0 := by simp
    change Circular windowSz 0 (fun _ => (fieldArith sqrt exp).lit 0 1) []
    rw [hzero]
    exact .nil
  samplesIdx := rfl
  counts := rfl
  sums := by simp [TsCtl.init]
  posterior := by
    rw [isPosterior_iff (by norm_num) (by norm_num)]
    norm_num [TsCtl.init]

/-- An update of the arm: the new reward takes the oldest cell. -/
theorem ExactArm.learn (h : ExactArm c cap xs) :
    ExactArm (TsCtl.learn (fieldArith sqrt exp) c cap r peak) cap (xs ++ [r]) := by
  have hcount : (TsCtl.learn (fieldArith sqrt exp) c cap r peak).counts cap =
      min (xs ++ [r]).length windowSz := by
    refine (update_self ..).trans ?_
    rw [h.counts, List.length_append, List.length_singleton]
    change min (min xs.length windowSz + 1) windowSz = min (xs.length + 1) windowSz
    omega
  have hsum : (TsCtl.learn (fieldArith sqrt exp) c cap r peak).sums cap =
      ((xs ++ [r]).rtake windowSz).sum := by
    refine (update_self ..).trans ?_
    rw [h.samplesIdx, h.sums]
    exact (h.samples.push_sum r).symm
  refine ⟨?_, ?_, hcount, hsum, ?_⟩
  · have hcells : (TsCtl.learn (fieldArith sqrt exp) c cap r peak).samples cap =
        update (c.samples cap) (xs.length % windowSz) r := by
      refine (update_self ..).trans ?_
      rw [h.samplesIdx]
    rw [hcells]
    exact h.samples.push
  · refine (update_self ..).trans ?_
    rw [h.samplesIdx, List.length_append, List.length_singleton, Nat.mod_add_mod]
  · obtain ⟨hvar, hmean⟩ := learn_means_vars sqrt exp c cap r peak
    rw [isPosterior_iff (by norm_num) (by norm_num), length_rtake, ← hcount, ← hsum]
    exact ⟨hvar, hmean⟩

/-- The statistics of every arm stay exact from update to update. -/
theorem Updated.exact (h : Updated sqrt exp c history) (a : Nat) :
    ExactArm c a (rewardsOf a history) := by
  induction h with
  | init bytes now => exact .init bytes now
  | @learn c history cap r peak probs bytes now _ ih =>
    by_cases ha : a = cap
    · rw [ha] at ih ⊢
      rw [rewardsOf_append_self]
      have hnext : ExactArm (TsCtl.learn (fieldArith sqrt exp) c cap r peak) cap _ := ih.learn
      exact { hnext with }
    · rw [rewardsOf_append_of_ne ha]
      have hnext := ih.of_same (learn_sameArm sqrt exp r peak ha)
      exact { hnext with }

/-- Whatever the rewards of the updates, the statistics of every arm are those of its last
`WINDOW_SZ` rewards; an update leaves the other arms alone; and the calls of `UpdateCapacity`
are such updates. -/
theorem window_statistics_exact (h : Updated sqrt exp c history) :
    (∀ a, ExactArm c a (rewardsOf a history)) ∧
    (∀ cap r peak a, a ≠ cap → SameArm c (TsCtl.learn (fieldArith sqrt exp) c cap r peak) a) ∧
    ∀ cap maxCap d, (c.gauge.Controls d → Updated sqrt exp
        (TsCtl.updateCapacity (fieldArith sqrt exp) c cap maxCap d).1
        (history ++ [(cap, 100 * reward (fieldArith sqrt exp).toArith
          (c.gauge.measured (fieldArith sqrt exp).toArith d)
          (c.gauge.peak (fieldArith sqrt exp).toArith d) cap maxCap)])) ∧
      (¬ c.gauge.Controls d →
        TsCtl.updateCapacity (fieldArith sqrt exp) c cap maxCap d = (c, cap)) := by
  refine ⟨h.exact, fun cap r peak a ha => learn_sameArm sqrt exp r peak ha,
    fun cap maxCap d => ⟨?_, ?_⟩⟩
  · intro hdue
    obtain ⟨probs, hnext⟩ := TsCtl.updateCapacity_ctl (fieldArith sqrt exp) c cap maxCap d hdue
    have hmagnifyer : (fieldArith sqrt exp).lit 100 1 = 100 := by simp
    rw [hnext, hmagnifyer]
    exact .learn cap _ _ probs d.bytes d.now h
  · exact TsCtl.updateCapacity_early _ c cap maxCap d

omit [IsStrictOrderedRing F] in
/-- Every history is one of some controller. -/
theorem exists_updated (sqrt exp : F → F) (history : List (Nat × F)) :
    ∃ c, Updated sqrt exp c history := by
  induction history using List.reverseRecOn with
  | nil => exact ⟨_, .init 0 0⟩
  | append_singleton history play ih =>
    obtain ⟨c, hc⟩ := ih
    exact ⟨_, .learn play.1 play.2 0 c.softmaxProbs 0 0 hc⟩

/-- Eleven plays of arm 1 with the rewards 1 to 11. -/
def elevenPlays : List (Nat × Rat) := (List.range' 1 11).map fun i => (1, (i : Rat))

/-- The eleventh has taken the cell of the first. -/
theorem window_statistics_eleven : ∃ c : TsCtl Rat, Updated id id c elevenPlays ∧
    c.counts 1 = 10 ∧ c.samples 1 0 = 11 ∧ c.samples 1 1 = 2 ∧ c.sums 1 = 65 := by
  obtain ⟨c, hc⟩ := exists_updated id id elevenPlays
  have harm := (window_statistics_exact hc).1 1
  have hrewards : rewardsOf 1 elevenPlays = [1, 2, 3, 4, 5, 6, 7, 8, 9, 10, 11] := by
    decide +kernel
  rw [hrewards] at harm
  refine ⟨c, hc, harm.counts, ?_, ?_, ?_⟩
  · exact (Option.some.inj (harm.samples.written 10 (by decide) (by decide))).symm
  · exact (Option.some.inj (harm.samples.written 1 (by decide) (by decide))).symm
  · rw [harm.sums]
    decide +kernel

end TsCtl

end Svalinn.Msem
