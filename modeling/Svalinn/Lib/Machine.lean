/-
  Lib/Machine.lean --- fixed-width arithmetic on unbounded carriers.

  Machine words are kept as `Nat` and `Int`; the operations below are the ones
  whose width shows.
-/
import Mathlib.Tactic.NormNum
import Mathlib.Tactic.Ring

set_option autoImplicit false

namespace Svalinn.Lib

/-- `uint64_t` addition. -/
def add64 (x y : Nat) : Nat := (x + y) % 2 ^ 64

/-- `uint64_t` subtraction. -/
def sub64 (x y : Nat) : Nat := (x + 2 ^ 64 - y) % 2 ^ 64

/-- Conversion of a signed value to `uint64_t`. -/
def asU64 (x : Int) : Nat := (x % 2 ^ 64).toNat

/-- Conversion to `int`; also the result of `int` arithmetic, which wraps around. -/
def asI32 (x : Int) : Int := x.bmod (2 ^ 32)

theorem asI32_of_range {x : Int} (hlo : -2 ^ 31 ≤ x) (hhi : x < 2 ^ 31) : asI32 x = x := by
  unfold asI32
  exact Int.bmod_eq_of_le (by norm_num; omega) (by norm_num; omega)

theorem asU64_of_nonneg {x : Int} (h : 0 ≤ x) (hlt : x < 2 ^ 64) : asU64 x = x.toNat := by
  unfold asU64
  rw [Int.emod_eq_of_lt h hlt]

end Svalinn.Lib
