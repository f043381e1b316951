/-
  Lib/Ring.lean --- the elements of a ring buffer between two free-running counters.

  Entry `i` of the buffer is the one at slot `i % size`.  The counters are words of `w`
  bits that wrap; the size divides `2 ^ w`, so that a slot does not depend on how often
  its counter has wrapped, and the elements held are those from `tail` up to `head`.
-/
import Mathlib.Data.BitVec
import Mathlib.Tactic.Ring

set_option autoImplicit false

namespace Svalinn.Lib

open Function

section Ring

variable {α : Type} {w : Nat}

def ringSlot (size : Nat) (i : BitVec w) : Nat := i.toNat % size

/-- The `n` entries from counter `i` on. -/
def ringWindow (size : Nat) (b : Nat → α) : BitVec w → Nat → List α
  | _, 0 => []
  | i, n + 1 => b (ringSlot size i) :: ringWindow size b (i + 1) n

def ringElems (size : Nat) (b : Nat → α) (head tail : BitVec w) : List α :=
  ringWindow size b tail (head - tail).toNat

variable {size n m : Nat} {b b' : Nat → α} {i head tail : BitVec w} {x : α}

theorem ringElems_self : ringElems size b head head = [] := by
  unfold ringElems
  rw [BitVec.sub_self]
  rfl

theorem ringSlot_add (hsize : size ∣ 2 ^ w) (n : Nat) :
    ringSlot size (i + BitVec.ofNat w n) = (i.toNat + n) % size := by
  unfold ringSlot
  rw [BitVec.toNat_add, BitVec.toNat_ofNat, Nat.add_mod_mod, Nat.mod_mod_of_dvd _ hsize]

theorem ringSlot_ne (hsize : size ∣ 2 ^ w) (hnm : n < m) (hm : m < n + size) :
    ringSlot size (i + BitVec.ofNat w n) ≠ ringSlot size (i + BitVec.ofNat w m) := by
  rw [ringSlot_add hsize, ringSlot_add hsize]
  intro heq
  have hdvd : size ∣ (i.toNat + m) - (i.toNat + n) :=
    Nat.dvd_of_mod_eq_zero (Nat.sub_mod_eq_zero_of_mod_eq heq.symm)
  have hzero := Nat.eq_zero_of_dvd_of_lt hdvd (by omega)
  omega

theorem add_one_add_ofNat (i : BitVec w) (n : Nat) :
    i + 1 + BitVec.ofNat w n = i + BitVec.ofNat w (n + 1) := by
  rw [BitVec.add_assoc]
  congr 1
  apply BitVec.eq_of_toNat_eq
  simp [BitVec.toNat_add, Nat.add_comm]

theorem ringWindow_congr (h : ∀ m, m < n → b' (ringSlot size (i + BitVec.ofNat w m)) =
      b (ringSlot size (i + BitVec.ofNat w m))) :
    ringWindow size b' i n = ringWindow size b i n := by
  induction n generalizing i with
  | zero => rfl
  | succ n ih =>
    have h0 := h 0 (Nat.succ_pos n)
    rw [BitVec.add_zero] at h0
    rw [ringWindow, ringWindow, h0, ih]
    intro m hm
    rw [add_one_add_ofNat]
    exact h (m + 1) (Nat.succ_lt_succ hm)

theorem ringWindow_snoc :
    ringWindow size b i (n + 1) =
      ringWindow size b i n ++ [b (ringSlot size (i + BitVec.ofNat w n))] := by
  induction n generalizing i with
  | zero =>
    rw [BitVec.add_zero]
    rfl
  | succ n ih =>
    rw [ringWindow, ih, add_one_add_ofNat, ringWindow, List.cons_append]

theorem ringWindow_write (hsize : size ∣ 2 ^ w) (hnm : n ≤ m) (hm : m < size) :
    ringWindow size (update b (ringSlot size (i + BitVec.ofNat w m)) x) i n =
      ringWindow size b i n := by
  refine ringWindow_congr ?_
  intro k hk
  exact update_of_ne (ringSlot_ne hsize (by omega) (by omega)) ..

theorem add_ofNat_sub (head tail : BitVec w) :
    tail + BitVec.ofNat w (head - tail).toNat = head := by
  rw [BitVec.ofNat_toNat, BitVec.setWidth_eq, BitVec.add_comm, BitVec.sub_add_cancel]

/-! ## The operations at the two ends -/

/-- A size for counters of `w` bits. -/
structure RingSize (w size : Nat) : Prop where
  dvd : size ∣ 2 ^ w
  lt : size < 2 ^ w
  pos : 0 < size

variable (hs : RingSize w size)
include hs

theorem RingSize.toNat_one : (1 : BitVec w).toNat = 1 := by
  have hlt := hs.lt
  have hpos := hs.pos
  have h1 : 1 < 2 ^ w := by omega
  rw [BitVec.ofNat_eq_ofNat, BitVec.toNat_ofNat]
  exact Nat.mod_eq_of_lt h1

theorem RingSize.head_succ (hn : (head - tail).toNat < size) :
    (head + 1 - tail).toNat = (head - tail).toNat + 1 := by
  have hlt := hs.lt
  have heq : head + 1 - tail = head - tail + 1 := by ring
  rw [heq, BitVec.toNat_add, hs.toNat_one, Nat.mod_eq_of_lt (by omega)]

theorem RingSize.tail_pred : (head - (tail - 1)).toNat = ((head - tail).toNat + 1) % 2 ^ w := by
  have heq : head - (tail - 1) = head - tail + 1 := by ring
  rw [heq, BitVec.toNat_add, hs.toNat_one]

theorem RingSize.tail_succ (hne : head ≠ tail) :
    (head - tail).toNat = (head - (tail + 1)).toNat + 1 := by
  have hpos : (head - tail).toNat ≠ 0 := by
    intro h0
    have hzero : head - tail = 0 := BitVec.eq_of_toNat_eq (by rw [h0]; simp)
    exact hne (sub_eq_zero.1 hzero)
  have heq : head - (tail + 1) = head - tail - 1 := by ring
  have hone : (1 : BitVec w).toNat = 1 := hs.toNat_one
  have hle : (1 : BitVec w) ≤ head - tail := by
    rw [BitVec.le_def, hone]
    omega
  have hsub := BitVec.toNat_sub_of_le hle
  rw [← heq, hone] at hsub
  omega

theorem RingSize.elems_write (hn : (head - tail).toNat < size) :
    ringElems size (update b (ringSlot size head) x) head tail =
      ringElems size b head tail := by
  unfold ringElems
  have hw := ringWindow_write (b := b) (i := tail) (x := x) hs.dvd (Nat.le_refl _) hn
  rw [add_ofNat_sub] at hw
  exact hw

theorem RingSize.elems_publish (hn : (head - tail).toNat < size) :
    ringElems size b (head + 1) tail =
      ringElems size b head tail ++ [b (ringSlot size head)] := by
  unfold ringElems
  rw [hs.head_succ hn, ringWindow_snoc, add_ofNat_sub]

theorem RingSize.elems_push (hn : (head - tail).toNat < size) :
    ringElems size (update b (ringSlot size head) x) (head + 1) tail =
      ringElems size b head tail ++ [x] := by
  rw [hs.elems_publish hn, hs.elems_write hn, update_self]

theorem RingSize.elems_pop (hne : head ≠ tail) :
    ringElems size b head tail = b (ringSlot size tail) :: ringElems size b head (tail + 1) := by
  unfold ringElems
  rw [hs.tail_succ hne, ringWindow]

theorem RingSize.slot_pred (tail : BitVec w) :
    ringSlot size (tail - 1) = ringSlot size (tail + BitVec.ofNat w (size - 1)) := by
  have hpos := hs.pos
  have hlt := hs.lt
  rw [ringSlot_add hs.dvd]
  unfold ringSlot
  rw [BitVec.toNat_sub, hs.toNat_one, Nat.mod_mod_of_dvd _ hs.dvd]
  obtain ⟨c, hc⟩ := hs.dvd
  have hc0 : 0 < c := by
    rcases Nat.eq_zero_or_pos c with h0 | h0
    · rw [h0, Nat.mul_zero] at hc
      omega
    · exact h0
  have hsplit : 2 ^ w - 1 + tail.toNat = tail.toNat + (size - 1) + size * (c - 1) := by
    have hmul : size * c = size * (c - 1) + size := by
      rw [← Nat.mul_succ, Nat.succ_eq_add_one, Nat.sub_add_cancel hc0]
    omega
  rw [hsplit, Nat.add_mul_mod_self_left]

theorem RingSize.elems_cons (hn : (head - tail).toNat < size) :
    ringElems size (update b (ringSlot size (tail - 1)) x) head (tail - 1) =
      x :: ringElems size b head tail := by
  have hlt := hs.lt
  unfold ringElems
  rw [hs.tail_pred, Nat.mod_eq_of_lt (by omega), ringWindow, update_self,
    BitVec.sub_add_cancel, hs.slot_pred, ringWindow_write hs.dvd (by omega) (by omega)]

/-- An entry put before the tail of a full ring takes the place of the newest one. -/
theorem RingSize.elems_displace (hn : (head - tail).toNat = size) :
    ringElems size (update b (ringSlot size (tail - 1)) x) (head - 1) (tail - 1) ++
        [b (ringSlot size (tail - 1))] =
      x :: ringElems size b head tail := by
  have hpos := hs.pos
  have hlen : head - 1 - (tail - 1) = head - tail := by ring
  obtain ⟨m, rfl⟩ : ∃ m, size = m + 1 := ⟨size - 1, by omega⟩
  unfold ringElems
  rw [hlen, hn, ringWindow, update_self, BitVec.sub_add_cancel, hs.slot_pred,
    Nat.add_sub_cancel, ringWindow_write hs.dvd (Nat.le_refl _) (Nat.lt_succ_self _),
    ringWindow_snoc, List.cons_append]

end Ring

end Svalinn.Lib
