/-
  Lib/Posterior.lean --- the posterior of an unknown mean with a normal prior.

  The prior of the mean is normal with mean `mu0` and variance `sigma0Sq`; the samples are
  normal around it with the known variance `sigmaSq`.  A normal distribution is the posterior
  if its density is the product of the prior's and the samples' up to a factor that does not
  depend on the unknown mean.  On the exponents, up to the common factor `-1/2`, that is an
  identity of quadratic polynomials, which makes sense over every ordered field.
-/
import Mathlib.Tactic.FieldSimp
import Mathlib.Tactic.Linarith
import Mathlib.Tactic.LinearCombination
import Mathlib.Tactic.Positivity
import Mathlib.Tactic.Ring

set_option autoImplicit false

namespace Svalinn.Lib

section Posterior

variable {F : Type} [Field F] [LinearOrder F] [IsStrictOrderedRing F]

/-- The normal distribution with these `mean` and `var` is the posterior after the samples. -/
structure IsPosterior (mu0 sigma0Sq sigmaSq : F) (samples : List F) (mean var : F) : Prop where
  var_pos : 0 < var
  proportional : ∃ c, ∀ m, (m - mu0) ^ 2 / sigma0Sq + (samples.map fun x => (x - m) ^ 2 / sigmaSq).sum =
    (m - mean) ^ 2 / var + c

variable {mu0 sigma0Sq sigmaSq mean var : F}

theorem likelihood_eq (samples : List F) (m : F) :
    (samples.map fun x => (x - m) ^ 2 / sigmaSq).sum =
      samples.length / sigmaSq * m ^ 2 - 2 * (samples.sum / sigmaSq) * m +
        (samples.map fun x => x ^ 2).sum / sigmaSq := by
  induction samples with
  | nil => simp
  | cons x rest ih =>
    rw [List.map_cons, List.sum_cons, ih, List.sum_cons, List.map_cons, List.sum_cons, List.length_cons,
      Nat.cast_succ]
    ring

/-- The posterior is unique and given by the sums of the precisions and of the weighted means. -/
theorem isPosterior_iff (h0 : 0 < sigma0Sq) (h : 0 < sigmaSq) (samples : List F) :
    IsPosterior mu0 sigma0Sq sigmaSq samples mean var ↔
      var = 1 / (1 / sigma0Sq + samples.length / sigmaSq) ∧
      mean = var * (mu0 / sigma0Sq + samples.sum / sigmaSq) := by
  have hprecision : 0 < 1 / sigma0Sq + samples.length / sigmaSq := by positivity
  constructor
  · rintro ⟨hvar, c, hprop⟩
    -- three values determine the coefficients
    have hone := hprop 1
    have hminus := hprop (-1)
    have hzero := hprop 0
    rw [likelihood_eq] at hone hminus hzero
    have hsquare : 1 / sigma0Sq + samples.length / sigmaSq = 1 / var := by
      linear_combination (hone + hminus - 2 * hzero) / 2
    have hlinear : mu0 / sigma0Sq + samples.sum / sigmaSq = mean / var := by
      linear_combination (hminus - hone) / 4
    rw [hsquare, hlinear]
    exact ⟨(one_div_one_div var).symm, (mul_div_cancel₀ mean hvar.ne').symm⟩
  · rintro ⟨hvar, hmean⟩
    have hpos : 0 < var := hvar ▸ one_div_pos.2 hprecision
    have hsquare : 1 / var = 1 / sigma0Sq + samples.length / sigmaSq := by
      rw [hvar, one_div_one_div]
    have hlinear : mean / var = mu0 / sigma0Sq + samples.sum / sigmaSq := by
      rw [hmean, mul_div_cancel_left₀ _ hpos.ne']
    refine ⟨hpos, mu0 ^ 2 / sigma0Sq + (samples.map fun x => x ^ 2).sum / sigmaSq - mean ^ 2 / var,
      fun m => ?_⟩
    rw [likelihood_eq]
    linear_combination (-m ^ 2) * hsquare + 2 * m * hlinear

end Posterior

end Svalinn.Lib
