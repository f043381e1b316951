/-
  Lib/DaryHeap.lean --- a `D`-ary heap in an array whose elements know where they are.

  The parent of position `i` is `(i - 1) / D`.  Elements move by swaps, and each swap also
  writes the new positions of the two elements.  What a sift needs of the array around the
  position it starts from is `UpOrdered` or `DownOrdered`; a position whose element was
  replaced is `Hole`, and a sift up followed by a sift down from there repairs it.
-/
import Mathlib.Algebra.Order.Group.Nat
import Mathlib.Tactic.Common

set_option autoImplicit false

namespace Svalinn.Lib

open Function

/-- An array of elements and the position of each identity. -/
structure HeapArray (α E : Type) where
  slot : Nat → α
  pos : E → Nat

def heapParent (D i : Nat) : Nat := (i - 1) / D

section Parent

variable {D i j : Nat}

theorem heapParent_lt (hi : 0 < i) : heapParent D i < i := by
  unfold heapParent
  exact Nat.lt_of_le_of_lt (Nat.div_le_self _ _) (by omega)

/-- The children of `i` are the positions from `i * D + 1` to `i * D + D`. -/
theorem heapParent_eq_iff (hD : 0 < D) (hj : 0 < j) :
    heapParent D j = i ↔ i * D + 1 ≤ j ∧ j ≤ i * D + D := by
  unfold heapParent
  rw [Nat.div_eq_iff hD]
  constructor
  · rintro ⟨h1, h2⟩
    have := Nat.succ_mul i D
    constructor <;> omega
  · rintro ⟨h1, h2⟩
    have := Nat.succ_mul i D
    constructor <;> omega

end Parent

section Heap

variable {α E κ : Type} [DecidableEq E] [LinearOrder κ]

def HeapArray.swap (ident : α → E) (b : HeapArray α E) (i j : Nat) : HeapArray α E where
  slot := update (update b.slot i (b.slot j)) j (b.slot i)
  pos := update (update b.pos (ident (b.slot j)) i) (ident (b.slot i)) j

/-- The loop that moves an element up, at most `fuel` times. -/
def siftUp (D : Nat) (key : α → κ) (ident : α → E) : Nat → HeapArray α E → Nat → HeapArray α E
  | 0, b, _ => b
  | fuel + 1, b, i =>
    if 0 < i ∧ key (b.slot i) < key (b.slot (heapParent D i)) then
      siftUp D key ident fuel (b.swap ident i (heapParent D i)) (heapParent D i)
    else b

/-- The loop over the children of a position, from `j` on: the first one with the least key
among those below `n` whose key is less than `w`. -/
def leastChild (key : α → κ) (slot : Nat → α) (n : Nat) : Nat → Nat → κ → Option Nat → Option Nat
  | 0, _, _, c => c
  | k + 1, j, w, c =>
    if j ≥ n then c
    else if key (slot j) < w then leastChild key slot n k (j + 1) (key (slot j)) (some j)
    else leastChild key slot n k (j + 1) w c

/-- The loop that moves an element down, at most `fuel` times. -/
def siftDown (D : Nat) (key : α → κ) (ident : α → E) (n : Nat) :
    Nat → HeapArray α E → Nat → HeapArray α E
  | 0, b, _ => b
  | fuel + 1, b, i =>
    match leastChild key b.slot n D (i * D + 1) (key (b.slot i)) none with
    | none => b
    | some c => siftDown D key ident n fuel (b.swap ident i c) c

variable {D n i j : Nat} {key : α → κ} {ident : α → E} {b : HeapArray α E}

/-! ## The elements -/

/-- Each of the first `n` elements knows its position. -/
def Linked (ident : α → E) (n : Nat) (b : HeapArray α E) : Prop :=
  ∀ k, k < n → b.pos (ident (b.slot k)) = k

/-- The first `n` elements. -/
def Holds (n : Nat) (b : HeapArray α E) (a : α) : Prop := ∃ k, k < n ∧ b.slot k = a

omit [DecidableEq E] in
theorem Linked.eq (h : Linked ident n b) (hi : i < n) (hj : j < n)
    (hid : ident (b.slot i) = ident (b.slot j)) : i = j := by
  rw [← h i hi, hid, h j hj]

theorem swap_slot_left (hij : i ≠ j) : (b.swap ident i j).slot i = b.slot j := by
  change update (update b.slot i (b.slot j)) j (b.slot i) i = _
  rw [update_of_ne hij, update_self]

theorem swap_slot_right : (b.swap ident i j).slot j = b.slot i := update_self ..

theorem swap_slot_other {k : Nat} (hi : k ≠ i) (hj : k ≠ j) :
    (b.swap ident i j).slot k = b.slot k := by
  change update (update b.slot i (b.slot j)) j (b.slot i) k = _
  rw [update_of_ne hj, update_of_ne hi]

theorem Linked.swap (h : Linked ident n b) (hi : i < n) (hj : j < n) (hij : i ≠ j) :
    Linked ident n (b.swap ident i j) := by
  have hne : ident (b.slot j) ≠ ident (b.slot i) := fun hid => hij (h.eq hi hj hid.symm)
  intro k hk
  change update (update b.pos (ident (b.slot j)) i) (ident (b.slot i)) j
    (ident ((b.swap ident i j).slot k)) = k
  by_cases hkj : k = j
  · subst hkj
    rw [swap_slot_right, update_self]
  · by_cases hki : k = i
    · subst hki
      rw [swap_slot_left hij, update_of_ne hne, update_self]
    · rw [swap_slot_other hki hkj]
      have hnot : ∀ m, m < n → k ≠ m → ident (b.slot k) ≠ ident (b.slot m) := fun m hm hkm hid =>
        hkm (h.eq hk hm hid)
      rw [update_of_ne (hnot i hi hki), update_of_ne (hnot j hj hkj)]
      exact h k hk

theorem holds_swap (hi : i < n) (hj : j < n) (hij : i ≠ j) (a : α) :
    Holds n (b.swap ident i j) a ↔ Holds n b a := by
  constructor
  · rintro ⟨k, hk, rfl⟩
    by_cases hkj : k = j
    · subst hkj
      exact ⟨i, hi, swap_slot_right.symm⟩
    · by_cases hki : k = i
      · subst hki
        exact ⟨j, hj, (swap_slot_left hij).symm⟩
      · exact ⟨k, hk, (swap_slot_other hki hkj).symm⟩
  · rintro ⟨k, hk, rfl⟩
    by_cases hkj : k = j
    · subst hkj
      exact ⟨i, hi, swap_slot_left hij⟩
    · by_cases hki : k = i
      · subst hki
        exact ⟨j, hj, swap_slot_right⟩
      · exact ⟨k, hk, swap_slot_other hki hkj⟩

/-! ## The order -/

def HeapOrdered (D : Nat) (key : α → κ) (n : Nat) (slot : Nat → α) : Prop :=
  ∀ k, 0 < k → k < n → key (slot (heapParent D k)) ≤ key (slot k)

/-- The children of `i` are not before the parent of `i`. -/
def GrandOrdered (D : Nat) (key : α → κ) (n : Nat) (slot : Nat → α) (i : Nat) : Prop :=
  0 < i → ∀ k, 0 < k → k < n → heapParent D k = i → key (slot (heapParent D i)) ≤ key (slot k)

/-- Only the element at `i` may be before its parent. -/
structure UpOrdered (D : Nat) (key : α → κ) (n : Nat) (slot : Nat → α) (i : Nat) : Prop where
  others : ∀ k, 0 < k → k < n → k ≠ i → key (slot (heapParent D k)) ≤ key (slot k)
  grand : GrandOrdered D key n slot i

/-- Only the element at `i` may be after its children. -/
structure DownOrdered (D : Nat) (key : α → κ) (n : Nat) (slot : Nat → α) (i : Nat) : Prop where
  others : ∀ k, 0 < k → k < n → heapParent D k ≠ i → key (slot (heapParent D k)) ≤ key (slot k)
  grand : GrandOrdered D key n slot i

/-- The element at `i` may be out of order with its parent and with its children. -/
structure Hole (D : Nat) (key : α → κ) (n : Nat) (slot : Nat → α) (i : Nat) : Prop where
  others : ∀ k, 0 < k → k < n → k ≠ i → heapParent D k ≠ i →
    key (slot (heapParent D k)) ≤ key (slot k)
  grand : GrandOrdered D key n slot i

theorem HeapOrdered.root_le {slot : Nat → α} (h : HeapOrdered D key n slot) {k : Nat} (hk : k < n) :
    key (slot 0) ≤ key (slot k) := by
  induction k using Nat.strongRecOn with
  | _ k ih =>
    rcases Nat.eq_zero_or_pos k with rfl | hpos
    · exact le_rfl
    · have hlt := heapParent_lt (D := D) hpos
      exact (ih _ hlt (hlt.trans hk)).trans (h k hpos hk)

theorem HeapOrdered.grand {slot : Nat → α} (h : HeapOrdered D key n slot) (hi : i < n) :
    GrandOrdered D key n slot i := by
  intro hpos k hk hkn hparent
  have hstep := h k hk hkn
  rw [hparent] at hstep
  exact (h i hpos hi).trans hstep

theorem HeapOrdered.down {slot : Nat → α} (h : HeapOrdered D key n slot) (hi : i < n) :
    DownOrdered D key n slot i :=
  ⟨fun k hk hkn _ => h k hk hkn, h.grand hi⟩

/-! ## Moving up -/

theorem UpOrdered.finish {slot : Nat → α} (h : UpOrdered D key n slot i)
    (hstop : 0 < i → key (slot (heapParent D i)) ≤ key (slot i)) : HeapOrdered D key n slot := by
  intro k hk hkn
  by_cases hki : k = i
  · subst hki
    exact hstop hk
  · exact h.others k hk hkn hki

theorem UpOrdered.move (h : UpOrdered D key n b.slot i) (hi : 0 < i) (hin : i < n)
    (hlt : key (b.slot i) < key (b.slot (heapParent D i))) :
    UpOrdered D key n (b.swap ident i (heapParent D i)).slot (heapParent D i) := by
  have hpi : heapParent D i < i := heapParent_lt hi
  have hne : i ≠ heapParent D i := hpi.ne'
  refine ⟨fun k hk hkn hkp => ?_, fun hp k hk hkn hparent => ?_⟩
  · by_cases hki : k = i
    · subst hki
      rw [swap_slot_right, swap_slot_left hne]
      exact hlt.le
    · rw [swap_slot_other hki hkp]
      have hold := h.others k hk hkn hki
      by_cases hpk : heapParent D k = i
      · rw [hpk, swap_slot_left hne]
        exact h.grand hi k hk hkn hpk
      · by_cases hpp : heapParent D k = heapParent D i
        · rw [hpp, swap_slot_right]
          rw [hpp] at hold
          exact hlt.le.trans hold
        · rw [swap_slot_other hpk hpp]
          exact hold
  · -- the parent of the parent was before it, and it was before its other children
    have hgrand : heapParent D (heapParent D i) < heapParent D i := heapParent_lt hp
    have habove := h.others _ hp (hpi.trans hin) hpi.ne
    rw [swap_slot_other (hgrand.trans hpi).ne hgrand.ne]
    by_cases hki : k = i
    · subst hki
      rw [swap_slot_left hne]
      exact habove
    · have hkp : k ≠ heapParent D i := by
        rintro rfl
        exact hgrand.ne hparent
      rw [swap_slot_other hki hkp]
      have hold := h.others k hk hkn hki
      rw [hparent] at hold
      exact habove.trans hold

theorem siftUp_spec (fuel : Nat) (hfuel : i ≤ fuel) (hin : i < n) (hlinked : Linked ident n b)
    (h : UpOrdered D key n b.slot i) :
    HeapOrdered D key n (siftUp D key ident fuel b i).slot ∧
      Linked ident n (siftUp D key ident fuel b i) ∧
      ∀ a, Holds n (siftUp D key ident fuel b i) a ↔ Holds n b a := by
  induction fuel generalizing b i with
  | zero => exact ⟨h.finish fun hi => absurd hi (by omega), hlinked, fun _ => Iff.rfl⟩
  | succ fuel ih =>
    unfold siftUp
    split
    · rename_i hgo
      have hlt := heapParent_lt (D := D) hgo.1
      obtain ⟨hord, hlink, hholds⟩ := ih (by omega) (hlt.trans hin)
        (hlinked.swap hin (hlt.trans hin) hlt.ne') (h.move hgo.1 hin hgo.2)
      exact ⟨hord, hlink, fun a => (hholds a).trans (holds_swap hin (hlt.trans hin) hlt.ne' a)⟩
    · rename_i hstop
      refine ⟨h.finish fun hi => ?_, hlinked, fun _ => Iff.rfl⟩
      exact not_lt.1 fun hlt => hstop ⟨hi, hlt⟩

theorem siftUp_of_le (fuel : Nat) (h : 0 < i → key (b.slot (heapParent D i)) ≤ key (b.slot i)) :
    siftUp D key ident fuel b i = b := by
  cases fuel with
  | zero => rfl
  | succ fuel => exact if_neg fun hgo => absurd (h hgo.1) (not_le.2 hgo.2)

/-! ## Moving down -/

theorem leastChild_spec (key : α → κ) (slot : Nat → α) (n k j : Nat) (w : κ) (c : Option Nat) :
    (leastChild key slot n k j w c = c ∧ ∀ m, j ≤ m → m < j + k → m < n → w ≤ key (slot m)) ∨
    ∃ m, leastChild key slot n k j w c = some m ∧ j ≤ m ∧ m < j + k ∧ m < n ∧ key (slot m) < w ∧
      ∀ m', j ≤ m' → m' < j + k → m' < n → key (slot m) ≤ key (slot m') := by
  induction k generalizing j w c with
  | zero => exact .inl ⟨rfl, fun m h1 h2 => absurd h2 (by omega)⟩
  | succ k ih =>
    unfold leastChild
    split
    · exact .inl ⟨rfl, fun m h1 _ h3 => absurd h3 (by omega)⟩
    · rename_i hjn
      split
      · rename_i hlt
        right
        obtain ⟨heq, hall⟩ | ⟨m, heq, h1, h2, h3, hm, hall⟩ := ih (j + 1) (key (slot j)) (some j)
        · refine ⟨j, heq, le_rfl, by omega, by omega, hlt, fun m' h1 h2 h3 => ?_⟩
          rcases Nat.eq_or_lt_of_le h1 with rfl | h1
          · exact le_rfl
          · exact hall m' h1 (by omega) h3
        · refine ⟨m, heq, by omega, by omega, h3, hm.trans hlt, fun m' h1' h2' h3' => ?_⟩
          rcases Nat.eq_or_lt_of_le h1' with rfl | h1'
          · exact hm.le
          · exact hall m' h1' (by omega) h3'
      · rename_i hle
        obtain ⟨heq, hall⟩ | ⟨m, heq, h1, h2, h3, hm, hall⟩ := ih (j + 1) w c
        · refine .inl ⟨heq, fun m' h1 h2 h3 => ?_⟩
          rcases Nat.eq_or_lt_of_le h1 with rfl | h1
          · exact not_lt.1 hle
          · exact hall m' h1 (by omega) h3
        · refine .inr ⟨m, heq, by omega, by omega, h3, hm, fun m' h1' h2' h3' => ?_⟩
          rcases Nat.eq_or_lt_of_le h1' with rfl | h1'
          · exact hm.le.trans (not_lt.1 hle)
          · exact hall m' h1' (by omega) h3'

theorem leastChild_cases (key : α → κ) (slot : Nat → α) (n : Nat) (hD : 0 < D) (i : Nat) :
    (leastChild key slot n D (i * D + 1) (key (slot i)) none = none ∧
      ∀ k, 0 < k → k < n → heapParent D k = i → key (slot i) ≤ key (slot k)) ∨
    ∃ c, leastChild key slot n D (i * D + 1) (key (slot i)) none = some c ∧ 0 < c ∧ c < n ∧
      heapParent D c = i ∧ key (slot c) < key (slot i) ∧
      ∀ k, 0 < k → k < n → heapParent D k = i → key (slot c) ≤ key (slot k) := by
  have hchild : ∀ k, 0 < k → heapParent D k = i → i * D + 1 ≤ k ∧ k < i * D + 1 + D := by
    intro k hk hparent
    have hrange := (heapParent_eq_iff hD hk).1 hparent
    omega
  obtain ⟨heq, hall⟩ | ⟨c, heq, h1, h2, h3, hlt, hall⟩ :=
    leastChild_spec key slot n D (i * D + 1) (key (slot i)) none
  · refine .inl ⟨heq, fun k hk hkn hparent => ?_⟩
    obtain ⟨hlo, hhi⟩ := hchild k hk hparent
    exact hall k hlo hhi hkn
  · have hc : 0 < c := by omega
    refine .inr ⟨c, heq, hc, h3, (heapParent_eq_iff hD hc).2 (by omega), hlt,
      fun k hk hkn hparent => ?_⟩
    obtain ⟨hlo, hhi⟩ := hchild k hk hparent
    exact hall k hlo hhi hkn

theorem DownOrdered.finish {slot : Nat → α} (h : DownOrdered D key n slot i)
    (hstop : ∀ k, 0 < k → k < n → heapParent D k = i → key (slot i) ≤ key (slot k)) :
    HeapOrdered D key n slot := by
  intro k hk hkn
  by_cases hparent : heapParent D k = i
  · rw [hparent]
    exact hstop k hk hkn hparent
  · exact h.others k hk hkn hparent

theorem DownOrdered.move {c : Nat} (h : DownOrdered D key n b.slot i) (hc : 0 < c) (hcn : c < n)
    (hparent : heapParent D c = i) (hlt : key (b.slot c) < key (b.slot i))
    (hleast : ∀ k, 0 < k → k < n → heapParent D k = i → key (b.slot c) ≤ key (b.slot k)) :
    DownOrdered D key n (b.swap ident i c).slot c := by
  have hic : i < c := hparent ▸ heapParent_lt hc
  refine ⟨fun k hk hkn hkc => ?_, fun _ k hk hkn hkp => ?_⟩
  · by_cases hk_c : k = c
    · subst hk_c
      rw [hparent, swap_slot_left hic.ne, swap_slot_right]
      exact hlt.le
    · by_cases hki : k = i
      · subst hki
        have hup := heapParent_lt (D := D) hk
        rw [swap_slot_left hic.ne, swap_slot_other hup.ne (hup.trans hic).ne]
        exact h.grand hk c hc hcn hparent
      · rw [swap_slot_other hki hk_c]
        by_cases hpk : heapParent D k = i
        · rw [hpk, swap_slot_left hic.ne]
          exact hleast k hk hkn hpk
        · rw [swap_slot_other hpk hkc]
          exact h.others k hk hkn hpk
  · -- the children of `c` were not before `c`, which is now their grandparent
    have hck : c < k := hkp ▸ heapParent_lt hk
    rw [hparent, swap_slot_left hic.ne, swap_slot_other (hic.trans hck).ne' hck.ne']
    have hold := h.others k hk hkn (by rw [hkp]; exact hic.ne')
    rw [hkp] at hold
    exact hold

theorem siftDown_spec (hD : 0 < D) (fuel : Nat) (hfuel : n ≤ i + fuel) (hin : i < n)
    (hlinked : Linked ident n b) (h : DownOrdered D key n b.slot i) :
    HeapOrdered D key n (siftDown D key ident n fuel b i).slot ∧
      Linked ident n (siftDown D key ident n fuel b i) ∧
      ∀ a, Holds n (siftDown D key ident n fuel b i) a ↔ Holds n b a := by
  induction fuel generalizing b i with
  | zero => exact absurd hin (by omega)
  | succ fuel ih =>
    unfold siftDown
    obtain ⟨heq, hstop⟩ | ⟨c, heq, hc, hcn, hparent, hlt, hleast⟩ :=
      leastChild_cases key b.slot n hD i
    · rw [heq]
      exact ⟨h.finish hstop, hlinked, fun _ => Iff.rfl⟩
    · rw [heq]
      have hic : i < c := hparent ▸ heapParent_lt hc
      obtain ⟨hord, hlink, hholds⟩ := ih (by omega) hcn (hlinked.swap hin hcn hic.ne)
        (h.move hc hcn hparent hlt hleast)
      exact ⟨hord, hlink, fun a => (hholds a).trans (holds_swap hin hcn hic.ne a)⟩

/-! ## Filling a hole -/

theorem siftDown_siftUp_spec (hD : 0 < D) (up down : Nat) (hup : i ≤ up) (hdown : n ≤ i + down)
    (hin : i < n) (hlinked : Linked ident n b) (h : Hole D key n b.slot i) :
    HeapOrdered D key n (siftDown D key ident n down (siftUp D key ident up b i) i).slot ∧
      Linked ident n (siftDown D key ident n down (siftUp D key ident up b i) i) ∧
      ∀ a, Holds n (siftDown D key ident n down (siftUp D key ident up b i) i) a ↔ Holds n b a := by
  by_cases hlt : 0 < i ∧ key (b.slot i) < key (b.slot (heapParent D i))
  · -- before its parent, so before its children, too
    have hupOrdered : UpOrdered D key n b.slot i := by
      refine ⟨fun k hk hkn hki => ?_, h.grand⟩
      by_cases hparent : heapParent D k = i
      · rw [hparent]
        exact hlt.2.le.trans (h.grand hlt.1 k hk hkn hparent)
      · exact h.others k hk hkn hki hparent
    obtain ⟨hord, hlink, hholds⟩ := siftUp_spec up hup hin hlinked hupOrdered
    obtain ⟨hord', hlink', hholds'⟩ := siftDown_spec hD down hdown hin hlink (hord.down hin)
    exact ⟨hord', hlink', fun a => (hholds' a).trans (hholds a)⟩
  · have hle : 0 < i → key (b.slot (heapParent D i)) ≤ key (b.slot i) := fun hi =>
      not_lt.1 fun hlt' => hlt ⟨hi, hlt'⟩
    rw [siftUp_of_le up hle]
    refine siftDown_spec hD down hdown hin hlinked ⟨fun k hk hkn hparent => ?_, h.grand⟩
    by_cases hki : k = i
    · subst hki
      exact hle hk
    · exact h.others k hk hkn hki hparent

/-! ## Adding and removing an element -/

def HeapArray.write (b : HeapArray α E) (ident : α → E) (n : Nat) (a : α) : HeapArray α E :=
  ⟨update b.slot n a, update b.pos (ident a) n⟩

theorem write_slot_other {a : α} {k : Nat} (hk : k ≠ n) : (b.write ident n a).slot k = b.slot k :=
  update_of_ne hk ..

theorem write_slot_self {a : α} : (b.write ident n a).slot n = a := update_self ..

theorem Linked.append {a : α} (h : Linked ident n b) (hnew : ∀ k, k < n → ident (b.slot k) ≠ ident a) :
    Linked ident (n + 1) (b.write ident n a) := by
  intro k hk
  change update b.pos (ident a) n (ident ((b.write ident n a).slot k)) = k
  by_cases hkn : k = n
  · rw [hkn, write_slot_self, update_self]
  · have hlt : k < n := by omega
    rw [write_slot_other hkn, update_of_ne (hnew k hlt)]
    exact h k hlt

theorem HeapOrdered.append (a : α) (h : HeapOrdered D key n b.slot) :
    UpOrdered D key (n + 1) (b.write ident n a).slot n := by
  refine ⟨fun k hk hkn hne => ?_, fun _ k hk hkn hparent => ?_⟩
  · have hlt := heapParent_lt (D := D) hk
    rw [write_slot_other hne, write_slot_other (by omega)]
    exact h k hk (by omega)
  · have hlt := heapParent_lt (D := D) hk
    omega

theorem holds_append {a c : α} : Holds (n + 1) (b.write ident n a) c ↔ c = a ∨ Holds n b c := by
  constructor
  · rintro ⟨k, hk, rfl⟩
    by_cases hkn : k = n
    · subst hkn
      exact .inl write_slot_self
    · exact .inr ⟨k, by omega, (write_slot_other hkn).symm⟩
  · rintro (rfl | ⟨k, hk, rfl⟩)
    · exact ⟨n, Nat.lt_succ_self n, write_slot_self⟩
    · exact ⟨k, Nat.lt_succ_of_lt hk, write_slot_other hk.ne⟩

omit [DecidableEq E] in
theorem Linked.dropLast (h : Linked ident (n + 1) b) : Linked ident n b :=
  fun k hk => h k (Nat.lt_succ_of_lt hk)

theorem HeapOrdered.dropLast {slot : Nat → α} (h : HeapOrdered D key (n + 1) slot) :
    HeapOrdered D key n slot :=
  fun k hk hkn => h k hk (Nat.lt_succ_of_lt hkn)

omit [DecidableEq E] in
theorem holds_dropLast (h : Linked ident (n + 1) b) (a : α) :
    Holds n b a ↔ Holds (n + 1) b a ∧ ident a ≠ ident (b.slot n) := by
  constructor
  · rintro ⟨k, hk, rfl⟩
    refine ⟨⟨k, Nat.lt_succ_of_lt hk, rfl⟩, fun hid => ?_⟩
    exact hk.ne (h.eq (Nat.lt_succ_of_lt hk) (Nat.lt_succ_self n) hid)
  · rintro ⟨⟨k, hk, rfl⟩, hne⟩
    refine ⟨k, ?_, rfl⟩
    have hkn : k ≠ n := by
      rintro rfl
      exact hne rfl
    omega

theorem Linked.fill (h : Linked ident (n + 1) b) (i : Nat) :
    Linked ident n (b.write ident i (b.slot n)) := by
  intro k hk
  change update b.pos (ident (b.slot n)) i (ident ((b.write ident i (b.slot n)).slot k)) = k
  by_cases hki : k = i
  · rw [hki, write_slot_self, update_self]
  · have hne : ident (b.slot k) ≠ ident (b.slot n) := fun hid =>
      hk.ne (h.eq (Nat.lt_succ_of_lt hk) (Nat.lt_succ_self n) hid)
    rw [write_slot_other hki, update_of_ne hne]
    exact h k (Nat.lt_succ_of_lt hk)

theorem HeapOrdered.fill (a : α) (h : HeapOrdered D key (n + 1) b.slot) (hi : i < n) :
    Hole D key n (b.write ident i a).slot i := by
  refine ⟨fun k hk hkn hki hparent => ?_, fun hpos k hk hkn hparent => ?_⟩
  · rw [write_slot_other hki, write_slot_other hparent]
    exact h k hk (Nat.lt_succ_of_lt hkn)
  · have hik : i < k := hparent ▸ heapParent_lt hk
    rw [write_slot_other hik.ne', write_slot_other (heapParent_lt hpos).ne]
    exact h.grand (Nat.lt_succ_of_lt hi) hpos k hk (Nat.lt_succ_of_lt hkn) hparent

theorem Hole.down {slot : Nat → α} (h : Hole D key n slot 0) : DownOrdered D key n slot 0 :=
  ⟨fun k hk hkn hparent => h.others k hk hkn hk.ne' hparent, h.grand⟩

theorem holds_fill (h : Linked ident (n + 1) b) (hi : i < n) (a : α) :
    Holds n (b.write ident i (b.slot n)) a ↔ Holds (n + 1) b a ∧ ident a ≠ ident (b.slot i) := by
  have hin : i < n + 1 := Nat.lt_succ_of_lt hi
  constructor
  · rintro ⟨k, hk, rfl⟩
    by_cases hki : k = i
    · subst hki
      rw [write_slot_self]
      refine ⟨⟨n, Nat.lt_succ_self n, rfl⟩, fun hid => ?_⟩
      exact hi.ne (h.eq (Nat.lt_succ_self n) hin hid).symm
    · rw [write_slot_other hki]
      refine ⟨⟨k, Nat.lt_succ_of_lt hk, rfl⟩, fun hid => hki ?_⟩
      exact h.eq (Nat.lt_succ_of_lt hk) hin hid
  · rintro ⟨⟨k, hk, rfl⟩, hne⟩
    have hki : k ≠ i := by
      rintro rfl
      exact hne rfl
    by_cases hkn : k = n
    · subst hkn
      exact ⟨i, hi, write_slot_self⟩
    · exact ⟨k, by omega, write_slot_other hki⟩

/-! ## Elements that are not in the heap -/

theorem swap_pos_other {x : E} (hi : x ≠ ident (b.slot i)) (hj : x ≠ ident (b.slot j)) :
    (b.swap ident i j).pos x = b.pos x := by
  change update (update b.pos (ident (b.slot j)) i) (ident (b.slot i)) j x = _
  rw [update_of_ne hi, update_of_ne hj]

theorem siftUp_pos_other {x : E} (fuel : Nat) (hin : i < n) (hx : ∀ a, Holds n b a → ident a ≠ x) :
    (siftUp D key ident fuel b i).pos x = b.pos x := by
  induction fuel generalizing b i with
  | zero => rfl
  | succ fuel ih =>
    unfold siftUp
    split
    · rename_i hgo
      have hlt := heapParent_lt (D := D) hgo.1
      have hpn := hlt.trans hin
      rw [ih hpn fun a ha => hx a ((holds_swap hin hpn hlt.ne' a).1 ha)]
      exact swap_pos_other (hx _ ⟨i, hin, rfl⟩).symm (hx _ ⟨_, hpn, rfl⟩).symm
    · rfl

end Heap

end Svalinn.Lib
