/-
  Lib/Serial.lean --- serial numbers: positions of an unbounded stream seen
  modulo a power of two.

  A position `p` of a stream is known to both ends as `base + p` in `w` bits.
  Numbers are compared by the sign of their difference.  The comparison agrees
  with the order of the positions as long as they are less than half the number
  space apart, whatever the base and however often the numbers have wrapped.
-/
import Mathlib.Data.BitVec
import Mathlib.Tactic.Ring

set_option autoImplicit false

namespace Svalinn.Lib

section Serial

variable {w : Nat}

/-- The number of position `p`. -/
def serialAt (base : BitVec w) (p : Nat) : BitVec w := base + BitVec.ofNat w p

/-- `a` is before `b`: the difference is negative. -/
def wrapsLt (a b : BitVec w) : Prop := (a - b).toInt < 0

def wrapsLte (a b : BitVec w) : Prop := (a - b).toInt ≤ 0

def wrapsGt (a b : BitVec w) : Prop := (b - a).toInt < 0

def wrapsGte (a b : BitVec w) : Prop := (b - a).toInt ≤ 0

instance (a b : BitVec w) : Decidable (wrapsLt a b) := inferInstanceAs (Decidable (_ < _))

instance (a b : BitVec w) : Decidable (wrapsLte a b) := inferInstanceAs (Decidable (_ ≤ _))

instance (a b : BitVec w) : Decidable (wrapsGt a b) := inferInstanceAs (Decidable (_ < _))

instance (a b : BitVec w) : Decidable (wrapsGte a b) := inferInstanceAs (Decidable (_ ≤ _))

def Near (w p q : Nat) : Prop := 2 * p < 2 * q + 2 ^ w ∧ 2 * q < 2 * p + 2 ^ w

theorem Near.symm {p q : Nat} (h : Near w p q) : Near w q p := ⟨h.2, h.1⟩

theorem serialAt_sub_toInt (base : BitVec w) {p q : Nat} (h : Near w p q) :
    (serialAt base p - serialAt base q).toInt = (p : Int) - q := by
  have hsub : serialAt base p - serialAt base q = BitVec.ofNat w p - BitVec.ofNat w q := by
    simp only [serialAt]
    exact add_sub_add_left_eq_sub _ _ _
  obtain ⟨h1, h2⟩ := h
  rw [hsub, BitVec.toInt_sub, BitVec.toInt_ofNat', BitVec.toInt_ofNat', Int.bmod_sub_bmod,
    Int.sub_bmod_bmod]
  apply Int.bmod_eq_of_le_mul_two
  · omega
  · omega

theorem wrapsLt_serialAt (base : BitVec w) {p q : Nat} (h : Near w p q) :
    wrapsLt (serialAt base p) (serialAt base q) ↔ p < q := by
  unfold wrapsLt
  rw [serialAt_sub_toInt base h]
  omega

theorem wrapsLte_serialAt (base : BitVec w) {p q : Nat} (h : Near w p q) :
    wrapsLte (serialAt base p) (serialAt base q) ↔ p ≤ q := by
  unfold wrapsLte
  rw [serialAt_sub_toInt base h]
  omega

theorem wrapsGt_serialAt (base : BitVec w) {p q : Nat} (h : Near w p q) :
    wrapsGt (serialAt base p) (serialAt base q) ↔ q < p := by
  unfold wrapsGt
  rw [serialAt_sub_toInt base h.symm]
  omega

theorem serialAt_inj (base : BitVec w) {p q : Nat} (h : Near w p q) :
    serialAt base p = serialAt base q ↔ p = q := by
  constructor
  · intro heq
    have hsub := serialAt_sub_toInt base h
    rw [heq, BitVec.sub_self, BitVec.toInt_zero] at hsub
    omega
  · rintro rfl
    rfl

theorem serialAt_add (base : BitVec w) (p n : Nat) :
    serialAt base p + BitVec.ofNat w n = serialAt base (p + n) := by
  unfold serialAt
  rw [BitVec.add_assoc, BitVec.ofNat_add]

theorem serialAt_sub (base : BitVec w) {p q : Nat} (h : q ≤ p) :
    serialAt base p - serialAt base q = BitVec.ofNat w (p - q) := by
  have hp : serialAt base p = serialAt base q + BitVec.ofNat w (p - q) := by
    rw [serialAt_add, Nat.add_sub_cancel' h]
  rw [hp, BitVec.add_comm, BitVec.add_sub_cancel]

theorem serialAt_sub_toNat (base : BitVec w) {p q : Nat} (h : q ≤ p) (hlt : p - q < 2 ^ w) :
    (serialAt base p - serialAt base q).toNat = p - q := by
  rw [serialAt_sub base h, BitVec.toNat_ofNat, Nat.mod_eq_of_lt hlt]

/-! ### Distances from a reference -/

/-- Where `s` lies seen from `r`. -/
def offsetFrom (r s : BitVec w) : Int := (s - r).toInt

/-- `s` is within a quarter of the number space of `r`. -/
def Close (r s : BitVec w) : Prop := -(2 ^ w : Int) ≤ 4 * offsetFrom r s ∧ 4 * offsetFrom r s < 2 ^ w

instance (r s : BitVec w) : Decidable (Close r s) := inferInstanceAs (Decidable (_ ∧ _))

theorem offsetFrom_self (r : BitVec w) : offsetFrom r r = 0 := by
  unfold offsetFrom
  rw [BitVec.sub_self, BitVec.toInt_zero]

theorem Close.refl (r : BitVec w) : Close r r := by
  unfold Close
  rw [offsetFrom_self]
  have hpos : (0 : Int) < 2 ^ w := Int.pow_pos (by decide)
  constructor
  · omega
  · omega

variable {r s t : BitVec w}

theorem Close.sub_toInt (hs : Close r s) (ht : Close r t) :
    (s - t).toInt = offsetFrom r s - offsetFrom r t := by
  obtain ⟨hs₁, hs₂⟩ := hs
  obtain ⟨ht₁, ht₂⟩ := ht
  have hsub : s - t = (s - r) - (t - r) := by
    rw [sub_sub_sub_cancel_right]
  unfold offsetFrom at *
  rw [hsub, BitVec.toInt_sub]
  apply Int.bmod_eq_of_le_mul_two
  · push_cast
    omega
  · push_cast
    omega

theorem Close.wrapsLt_iff (hs : Close r s) (ht : Close r t) :
    wrapsLt s t ↔ offsetFrom r s < offsetFrom r t := by
  unfold wrapsLt
  rw [hs.sub_toInt ht]
  omega

theorem Close.wrapsLte_iff (hs : Close r s) (ht : Close r t) :
    wrapsLte s t ↔ offsetFrom r s ≤ offsetFrom r t := by
  unfold wrapsLte
  rw [hs.sub_toInt ht]
  omega

theorem Close.wrapsGt_iff (hs : Close r s) (ht : Close r t) :
    wrapsGt s t ↔ offsetFrom r t < offsetFrom r s := ht.wrapsLt_iff hs

theorem Close.wrapsGte_iff (hs : Close r s) (ht : Close r t) :
    wrapsGte s t ↔ offsetFrom r t ≤ offsetFrom r s := ht.wrapsLte_iff hs

theorem Close.eq_of_offsetFrom_eq (h : offsetFrom r s = offsetFrom r t) : s = t :=
  sub_left_injective (BitVec.eq_of_toInt_eq h)

end Serial

end Svalinn.Lib
