/-
  Lib/OnesSum.lean --- sums with end-around carry.

  In one's complement a number stands for every number with the same residue modulo
  `2 ^ w - 1`, with the exception that zero stands for zero alone.  `SameSum` is that relation.
  Adding with the carry brought around keeps it at every width whose `2 ^ w - 1` the modulus
  divides, so a sum may be taken in words of one width and folded to another.
-/
import Mathlib.Data.Nat.ModEq
import Mathlib.Algebra.BigOperators.Group.List.Basic

set_option autoImplicit false

namespace Svalinn.Lib.OnesSum

structure SameSum (m a b : Nat) : Prop where
  modEq : a ≡ b [MOD m]
  zero_iff : a = 0 ↔ b = 0

variable {m a b c d : Nat}

theorem SameSum.refl (m a : Nat) : SameSum m a a := ⟨rfl, Iff.rfl⟩

theorem SameSum.symm (h : SameSum m a b) : SameSum m b a := ⟨h.modEq.symm, h.zero_iff.symm⟩

theorem SameSum.trans (h : SameSum m a b) (h' : SameSum m b c) : SameSum m a c :=
  ⟨h.modEq.trans h'.modEq, h.zero_iff.trans h'.zero_iff⟩

theorem SameSum.add (h : SameSum m a b) (h' : SameSum m c d) : SameSum m (a + c) (b + d) :=
  ⟨h.modEq.add h'.modEq, by rw [Nat.add_eq_zero_iff, Nat.add_eq_zero_iff, h.zero_iff, h'.zero_iff]⟩

theorem sameSum_two_pow_mul {w : Nat} (hm : m ∣ 2 ^ w - 1) (a : Nat) : SameSum m (2 ^ w * a) a := by
  have hpos : 1 ≤ 2 ^ w := Nat.one_le_two_pow
  have hone : 2 ^ w ≡ 1 [MOD m] := ((Nat.modEq_iff_dvd' hpos).2 hm).symm
  refine ⟨by simpa using hone.mul_right a, ?_⟩
  rw [Nat.mul_eq_zero]
  exact ⟨fun h => h.resolve_left (Nat.two_pow_pos w).ne', .inr⟩

/-- The addition of `w`-bit words with the carry brought around. -/
def endAround (w a b : Nat) : Nat := (a + b) % 2 ^ w + (a + b) / 2 ^ w

theorem endAround_lt {w : Nat} (ha : a < 2 ^ w) (hb : b < 2 ^ w) : endAround w a b < 2 ^ w := by
  unfold endAround
  rcases Nat.lt_or_ge (a + b) (2 ^ w) with hlt | hge
  · rw [Nat.mod_eq_of_lt hlt, Nat.div_eq_of_lt hlt]
    exact hlt
  · have hdiv : (a + b) / 2 ^ w = 1 :=
      Nat.div_eq_of_lt_le (by omega) (by omega)
    have hmod := Nat.div_add_mod (a + b) (2 ^ w)
    rw [hdiv] at hmod ⊢
    omega

theorem sameSum_endAround {w : Nat} (hm : m ∣ 2 ^ w - 1) (a b : Nat) :
    SameSum m (endAround w a b) (a + b) := by
  have hsplit := Nat.mod_add_div (a + b) (2 ^ w)
  have h := (SameSum.refl m ((a + b) % 2 ^ w)).add (sameSum_two_pow_mul hm ((a + b) / 2 ^ w)).symm
  rwa [hsplit] at h

theorem sameSum_halves {w : Nat} (hm : m ∣ 2 ^ w - 1) (a : Nat) :
    SameSum m (a / 2 ^ w + a % 2 ^ w) a := by
  have h := (SameSum.refl m (a % 2 ^ w)).add (sameSum_two_pow_mul hm (a / 2 ^ w)).symm
  rwa [Nat.mod_add_div, Nat.add_comm] at h

/-- The words of the width of the modulus tell a sum up to the relation: all ones is the
multiple of the modulus that is not zero. -/
theorem SameSum.eq_max_iff {w : Nat} (hw : 0 < w) (h : SameSum (2 ^ w - 1) a b) (ha : a < 2 ^ w) :
    a = 2 ^ w - 1 ↔ 2 ^ w - 1 ∣ b ∧ b ≠ 0 := by
  have hpow : 1 < 2 ^ w := Nat.one_lt_two_pow hw.ne'
  have hdvd : 2 ^ w - 1 ∣ a ↔ 2 ^ w - 1 ∣ b := h.modEq.dvd_iff dvd_rfl
  rw [← hdvd, ne_eq, ← h.zero_iff]
  constructor
  · intro hmax
    exact ⟨hmax ▸ dvd_rfl, by omega⟩
  · rintro ⟨hd, hne⟩
    exact Nat.le_antisymm (by omega) (Nat.le_of_dvd (Nat.pos_of_ne_zero hne) hd)

/-- A `w`-bit word is the only one for the numbers it stands for. -/
theorem SameSum.eq_of_lt {w : Nat} (h : SameSum (2 ^ w - 1) a b) (ha : a < 2 ^ w) (hb : b < 2 ^ w) :
    a = b := by
  rcases Nat.eq_zero_or_pos a with rfl | hpos
  · exact (h.zero_iff.1 rfl).symm
  · have hbpos : 0 < b := Nat.pos_of_ne_zero (mt h.zero_iff.2 hpos.ne')
    have hpred : a - 1 ≡ b - 1 [MOD 2 ^ w - 1] :=
      Nat.ModEq.add_right_cancel' 1 (by rw [Nat.sub_add_cancel hpos, Nat.sub_add_cancel hbpos]; exact h.modEq)
    have := hpred.eq_of_lt_of_lt (by omega) (by omega)
    omega

/-- The sum of a list of `w`-bit words. -/
def onesSum (w : Nat) (words : List Nat) : Nat := words.foldl (endAround w) 0

theorem sameSum_foldl_endAround {w : Nat} (hm : m ∣ 2 ^ w - 1) (words : List Nat) (a : Nat) :
    SameSum m (words.foldl (endAround w) a) (a + words.sum) := by
  induction words generalizing a with
  | nil => exact SameSum.refl m a
  | cons x rest ih =>
    rw [List.foldl_cons, List.sum_cons, ← Nat.add_assoc]
    exact (ih (endAround w a x)).trans ((sameSum_endAround hm a x).add (SameSum.refl m rest.sum))

theorem foldl_endAround_lt {w : Nat} {words : List Nat} (hwords : ∀ x ∈ words, x < 2 ^ w)
    (ha : a < 2 ^ w) : words.foldl (endAround w) a < 2 ^ w := by
  induction words generalizing a with
  | nil => exact ha
  | cons x rest ih =>
    exact ih (fun y hy => hwords y (List.mem_cons_of_mem _ hy))
      (endAround_lt ha (hwords x List.mem_cons_self))

theorem onesSum_eq_max_iff {w : Nat} (hw : 0 < w) {words : List Nat}
    (hwords : ∀ x ∈ words, x < 2 ^ w) :
    onesSum w words = 2 ^ w - 1 ↔ 2 ^ w - 1 ∣ words.sum ∧ words.sum ≠ 0 := by
  have hsame := sameSum_foldl_endAround (dvd_refl (2 ^ w - 1)) words 0
  rw [Nat.zero_add] at hsame
  exact hsame.eq_max_iff hw (foldl_endAround_lt hwords (Nat.two_pow_pos w))

end Svalinn.Lib.OnesSum
