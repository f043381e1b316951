/-
  Lib/Shares.lean --- how many places each owner holds.

  A table gives every place an owner or none.  `share C f p` counts the places of `C` that
  `p` holds; releasing a place and giving it to an owner change the counts by one, and where
  every place is taken the counts add up to all of `C`.
-/
import Mathlib.Algebra.Order.BigOperators.Group.Finset
import Mathlib.Algebra.Order.Ring.Abs
import Mathlib.Tactic.Linarith

set_option autoImplicit false

namespace Svalinn.Lib

open Function

theorem sum_update {ι α M : Type} [DecidableEq ι] [Fintype ι] [AddCommMonoid M] (w : α → M)
    (f : ι → α) (i : ι) (a : α) : ∑ j, w (update f i a j) + w (f i) = ∑ j, w (f j) + w a := by
  rw [← Finset.add_sum_erase _ (fun j => w (f j)) (Finset.mem_univ i),
    ← Finset.add_sum_erase _ (fun j => w (update f i a j)) (Finset.mem_univ i), update_self]
  have hrest : ∑ j ∈ Finset.univ.erase i, w (update f i a j) = ∑ j ∈ Finset.univ.erase i, w (f j) :=
    Finset.sum_congr rfl fun j hj => by rw [update_of_ne (Finset.ne_of_mem_erase hj)]
  rw [hrest, add_comm (w a), add_right_comm, add_comm (w (f i)), add_right_comm]

/-- Moving one unit from the larger to the smaller of two evens out the squares. -/
theorem sum_natAbs_sq_lt {α : Type} [DecidableEq α] {P : Finset α} {f g : α → Int} {p q : α}
    (hp : p ∈ P) (hq : q ∈ P) (hne : p ≠ q) (hgap : f p + 2 ≤ f q) (hgp : g p = f p + 1)
    (hgq : g q = f q - 1) (hrest : ∀ r, r ≠ p → r ≠ q → g r = f r) :
    ∑ r ∈ P, (g r).natAbs ^ 2 < ∑ r ∈ P, (f r).natAbs ^ 2 := by
  have hqe : q ∈ P.erase p := Finset.mem_erase.2 ⟨Ne.symm hne, hq⟩
  have hsame : ∑ r ∈ (P.erase p).erase q, (g r).natAbs ^ 2 =
      ∑ r ∈ (P.erase p).erase q, (f r).natAbs ^ 2 := by
    refine Finset.sum_congr rfl fun r hr => ?_
    rw [hrest r (Finset.ne_of_mem_erase (Finset.mem_of_mem_erase hr)) (Finset.ne_of_mem_erase hr)]
  have hpair : (g p).natAbs ^ 2 + (g q).natAbs ^ 2 < (f p).natAbs ^ 2 + (f q).natAbs ^ 2 := by
    zify
    simp only [sq_abs, hgp, hgq]
    linarith
  rw [← Finset.add_sum_erase P _ hp, ← Finset.add_sum_erase P (fun r => (f r).natAbs ^ 2) hp,
    ← Finset.add_sum_erase _ _ hqe, ← Finset.add_sum_erase _ (fun r => (f r).natAbs ^ 2) hqe]
  omega

section Shares

variable {ι π : Type} [DecidableEq π] {C : Finset ι} {f : ι → Option π}
  {c : ι} {p q : π}

def share (C : Finset ι) (f : ι → Option π) (p : π) : Nat := (C.filter (f · = some p)).card

theorem share_le_of_subset {R : Finset ι} (h : ∀ c ∈ C, f c = some p → c ∈ R) :
    share C f p ≤ R.card :=
  Finset.card_le_card fun c hc => h c (Finset.mem_filter.1 hc).1 (Finset.mem_filter.1 hc).2

theorem share_eq_zero (h : ∀ c ∈ C, f c ≠ some p) : share C f p = 0 :=
  Finset.card_eq_zero.2 (Finset.filter_eq_empty_iff.2 fun _ hc => h _ hc)

theorem share_split [DecidableEq ι] (hc : c ∈ C) :
    share C f p = share (C.erase c) f p + if f c = some p then 1 else 0 := by
  unfold share
  conv_lhs => rw [← Finset.insert_erase hc, Finset.filter_insert]
  split
  · rw [Finset.card_insert_of_notMem]
    exact fun h => Finset.notMem_erase c C (Finset.mem_filter.1 h).1
  · rfl

theorem share_congr {f' : ι → Option π} (h : ∀ c ∈ C, f c = some p ↔ f' c = some p) :
    share C f p = share C f' p :=
  congrArg Finset.card (Finset.filter_congr h)

theorem share_update [DecidableEq ι] (hc : c ∈ C) (o : Option π) :
    share C (update f c o) p + (if f c = some p then 1 else 0) =
      share C f p + if o = some p then 1 else 0 := by
  have hrest : share (C.erase c) (update f c o) p = share (C.erase c) f p := by
    refine share_congr fun x hx => ?_
    rw [update_of_ne (Finset.ne_of_mem_erase hx)]
  rw [share_split hc, share_split (f := f) hc, hrest, update_self]
  omega

theorem sum_share {P : Finset π} (h : ∀ c ∈ C, ∃ p ∈ P, f c = some p) :
    ∑ p ∈ P, share C f p = C.card := by
  have hmaps : (C : Set ι).MapsTo f (P.map Function.Embedding.some) := by
    intro c hc
    obtain ⟨p, hp, hf⟩ := h c hc
    rw [hf]
    exact Finset.mem_map_of_mem _ hp
  rw [Finset.card_eq_sum_card_fiberwise hmaps, Finset.sum_map]
  rfl

/-- If every place is taken and no owner exceeds its entitlement, an owner below its own
leaves the entitlements larger than the number of places. -/
theorem card_lt_sum_of_share {P : Finset π} {g : π → Nat}
    (htaken : ∀ c ∈ C, ∃ p ∈ P, f c = some p) (hle : ∀ p ∈ P, share C f p ≤ g p)
    (hq : q ∈ P) (hlt : share C f q < g q) : C.card < ∑ p ∈ P, g p := by
  rw [← sum_share htaken]
  exact Finset.sum_lt_sum hle ⟨q, hq, hlt⟩

end Shares

end Svalinn.Lib
