/-
  Lib/Window.lean --- the last `w` elements of a sequence in a circular buffer.

  Element `k` of the sequence is written to cell `k % w`, so that the buffer holds the last
  `w` elements, and a cell that has not been written yet holds its first value.
-/
import Mathlib.Data.List.DropRight
import Mathlib.Algebra.BigOperators.Group.List.Basic
import Mathlib.Tactic.Abel

set_option autoImplicit false

namespace Svalinn.Lib

open Function

section Window

variable {α : Type} {w : Nat} {blank x : α} {buf : Nat → α} {xs : List α}

/-- The buffer after the elements `xs` have been written. -/
structure Circular (w : Nat) (blank : α) (buf : Nat → α) (xs : List α) : Prop where
  written : ∀ k, xs.length ≤ k + w → k < xs.length → xs[k]? = some (buf (k % w))
  unwritten : ∀ j, xs.length ≤ j → j < w → buf j = blank

theorem Circular.nil : Circular w blank (fun _ => blank) [] :=
  ⟨fun _ _ h => absurd h (Nat.not_lt_zero _), fun _ _ _ => rfl⟩

theorem mod_ne_of_lt {j k : Nat} (hjk : j < k) (hk : k < j + w) : j % w ≠ k % w := by
  intro heq
  have hdvd : w ∣ k - j := Nat.dvd_of_mod_eq_zero (Nat.sub_mod_eq_zero_of_mod_eq heq.symm)
  have hzero := Nat.eq_zero_of_dvd_of_lt hdvd (by omega)
  omega

theorem Circular.push (h : Circular w blank buf xs) :
    Circular w blank (update buf (xs.length % w) x) (xs ++ [x]) := by
  constructor
  · intro k hlate hk
    rw [List.length_append, List.length_singleton] at hlate hk
    by_cases hlast : k = xs.length
    · rw [hlast, update_self, List.getElem?_concat_length]
    · have hlt : k < xs.length := by omega
      rw [update_of_ne (mod_ne_of_lt hlt (by omega)), List.getElem?_append_left hlt]
      exact h.written k (by omega) hlt
  · intro j hlate hj
    rw [List.length_append, List.length_singleton] at hlate
    have hne : j ≠ xs.length % w := by
      rw [Nat.mod_eq_of_lt (by omega)]
      omega
    rw [update_of_ne hne]
    exact h.unwritten j (by omega) hj

/-- The cell that is written next holds the oldest element, or nothing yet. -/
theorem Circular.rtake_sum {G : Type} [AddMonoid G] {buf : Nat → G} {xs : List G} {n : Nat}
    (h : Circular (n + 1) 0 buf xs) :
    (xs.rtake (n + 1)).sum = buf (xs.length % (n + 1)) + (xs.rtake n).sum := by
  by_cases hfull : n + 1 ≤ xs.length
  · have hlt : xs.length - (n + 1) < xs.length := by omega
    have hcell : (xs.length - (n + 1)) % (n + 1) = xs.length % (n + 1) := by
      rw [← Nat.add_mod_right, Nat.sub_add_cancel hfull]
    have hold := h.written (xs.length - (n + 1)) (by omega) hlt
    rw [hcell, List.getElem?_eq_getElem hlt] at hold
    unfold List.rtake
    rw [List.drop_eq_getElem_cons hlt, Option.some.inj hold, List.sum_cons]
    congr 3
    omega
  · have hblank : buf (xs.length % (n + 1)) = 0 := by
      rw [Nat.mod_eq_of_lt (by omega)]
      exact h.unwritten _ (Nat.le_refl _) (by omega)
    have hwhole : xs.length - (n + 1) = xs.length - n := by omega
    unfold List.rtake
    rw [hblank, zero_add, hwhole]

theorem Circular.push_sum {G : Type} [AddCommGroup G] {buf : Nat → G} {xs : List G} {n : Nat}
    (h : Circular (n + 1) 0 buf xs) (x : G) :
    ((xs ++ [x]).rtake (n + 1)).sum = (xs.rtake (n + 1)).sum + x - buf (xs.length % (n + 1)) := by
  rw [List.rtake_concat_succ, List.sum_append, List.sum_singleton, h.rtake_sum]
  abel

end Window

end Svalinn.Lib
