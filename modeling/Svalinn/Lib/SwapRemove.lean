/-
  Lib/SwapRemove.lean --- an array without holes whose entries know their index.

  An entry is added at the end and removed by moving the last entry into its
  place.  `Indexed` says that every entry of the array stands where its own
  index field says; both operations keep it, provided that the index field of
  the entry they move is rewritten.
-/
import Mathlib.Data.List.Basic

set_option autoImplicit false

namespace Svalinn.Lib

section SwapRemove

variable {α : Type}

/-- The array after its last entry was moved to index `i`. -/
def swapRemove (l : List α) (i : Nat) : List α :=
  match l.getLast? with
  | none   => l
  | some b => (l.set i b).dropLast

/-- Every entry stands at the index that `pos` gives it. -/
def Indexed (l : List α) (pos : α → Nat) : Prop :=
  ∀ i a, l[i]? = some a → pos a = i

variable {l : List α} {pos pos' : α → Nat} {a b : α}

theorem Indexed.nil : Indexed ([] : List α) pos := by
  intro i a h
  rw [List.getElem?_nil] at h
  cases h

theorem Indexed.congr (h : Indexed l pos) (heq : ∀ a ∈ l, pos' a = pos a) : Indexed l pos' := by
  intro i a ha
  rw [heq a (List.mem_of_getElem? ha)]
  exact h i a ha

theorem Indexed.get (h : Indexed l pos) (ha : a ∈ l) : l[pos a]? = some a := by
  obtain ⟨i, hi⟩ := List.mem_iff_getElem?.1 ha
  rw [h i a hi]
  exact hi

theorem Indexed.lt (h : Indexed l pos) (ha : a ∈ l) : pos a < l.length :=
  (List.getElem?_eq_some_iff.1 (h.get ha)).1

theorem Indexed.nodup (h : Indexed l pos) : l.Nodup := by
  rw [List.Nodup, List.pairwise_iff_getElem]
  intro i j hi hj hij heq
  have hpi := h i _ (List.getElem?_eq_getElem hi)
  have hpj := h j _ (List.getElem?_eq_getElem hj)
  rw [heq] at hpi
  omega

theorem Indexed.push (h : Indexed l pos) (hpos : pos' a = l.length)
    (heq : ∀ x ∈ l, pos' x = pos x) : Indexed (l ++ [a]) pos' := by
  intro i x hx
  rcases Nat.lt_or_ge i l.length with hi | hi
  · rw [List.getElem?_append_left hi] at hx
    rw [heq x (List.mem_of_getElem? hx)]
    exact h i x hx
  · rw [List.getElem?_append_right hi] at hx
    obtain ⟨hlt, rfl⟩ := List.getElem?_eq_some_iff.1 hx
    have hlt : i - l.length < 1 := hlt
    have hzero : i - l.length = 0 := by omega
    simp only [hzero, List.getElem_cons_zero, hpos]
    omega

/-! ## Removing an entry -/

theorem length_swapRemove (i : Nat) : (swapRemove l i).length = l.length - 1 := by
  rw [swapRemove]
  split
  · rename_i hl
    rw [List.getLast?_eq_none_iff.1 hl]
    rfl
  · rw [List.length_dropLast, List.length_set]

theorem swapRemove_eq (hb : l.getLast? = some b) (i : Nat) :
    swapRemove l i = (l.set i b).dropLast := by
  rw [swapRemove, hb]

theorem getElem?_swapRemove (hb : l.getLast? = some b) (i j : Nat) : (swapRemove l i)[j]? =
      if j < l.length - 1 then (if j = i then some b else l[j]?) else none := by
  rw [swapRemove_eq hb, List.getElem?_dropLast, List.length_set]
  split
  · rename_i hj
    rw [List.getElem?_set]
    split
    · rename_i hij
      rw [if_pos hij.symm, if_pos (by omega)]
    · rename_i hij
      rw [if_neg fun h => hij h.symm]
  · rfl

theorem getElem?_last (hb : l.getLast? = some b) : l[l.length - 1]? = some b := by
  rw [← List.getLast?_eq_getElem?]
  exact hb

/-- The last entry's index, once rewritten, is right: so the array stays indexed. -/
theorem Indexed.swapRemove (h : Indexed l pos) (ha : a ∈ l) (hb : l.getLast? = some b)
    (hpos : b ≠ a → pos' b = pos a) (heq : ∀ x ∈ l, x ≠ a → x ≠ b → pos' x = pos x) :
    Indexed (swapRemove l (pos a)) pos' := by
  intro j x hx
  rw [getElem?_swapRemove hb] at hx
  split at hx
  · rename_i hj
    have hlast := h _ _ (getElem?_last hb)
    split at hx
    · rename_i hij
      cases hx
      rw [hij]
      refine hpos ?_
      rintro rfl
      omega
    · rename_i hij
      have hpx := h j x hx
      rw [heq x (List.mem_of_getElem? hx), hpx]
      · rintro rfl
        exact hij hpx.symm
      · rintro rfl
        omega
  · cases hx

theorem Indexed.mem_swapRemove (h : Indexed l pos) (ha : a ∈ l) (x : α) :
    x ∈ Svalinn.Lib.swapRemove l (pos a) ↔ x ∈ l ∧ x ≠ a := by
  obtain ⟨b, hb⟩ : ∃ b, l.getLast? = some b := by
    cases hl : l.getLast? with
    | none => rw [List.getLast?_eq_none_iff.1 hl] at ha; cases ha
    | some b => exact ⟨b, rfl⟩
  have hlast := h _ _ (getElem?_last hb)
  have hlt := h.lt ha
  rw [List.mem_iff_getElem?]
  constructor
  · rintro ⟨j, hj⟩
    rw [getElem?_swapRemove hb] at hj
    split at hj
    · rename_i hjl
      split at hj
      · rename_i hja
        cases hj
        refine ⟨List.mem_of_getElem? (getElem?_last hb), ?_⟩
        rintro rfl
        omega
      · rename_i hja
        refine ⟨List.mem_of_getElem? hj, ?_⟩
        rintro rfl
        exact hja (h j x hj).symm
    · cases hj
  · rintro ⟨hx, hne⟩
    have hget := h.get hx
    have hxlt := h.lt hx
    by_cases hxb : x = b
    · subst hxb
      refine ⟨pos a, ?_⟩
      have hane : pos a ≠ pos x := by
        intro heq
        have hga := h.get ha
        rw [heq, hget] at hga
        exact hne (Option.some.inj hga)
      rw [getElem?_swapRemove hb, if_pos (by omega), if_pos rfl]
    · refine ⟨pos x, ?_⟩
      have hxl : pos x ≠ l.length - 1 := by
        intro heq
        rw [heq, getElem?_last hb] at hget
        exact hxb (Option.some.inj hget).symm
      have hxa : pos x ≠ pos a := by
        intro heq
        have hga := h.get ha
        rw [← heq, hget] at hga
        exact hne (Option.some.inj hga)
      rw [getElem?_swapRemove hb, if_pos (by omega), if_neg hxa]
      exact hget

theorem Indexed.nodup_swapRemove (h : Indexed l pos) (ha : a ∈ l) :
    (Svalinn.Lib.swapRemove l (pos a)).Nodup := by
  classical
  cases hl : l.getLast? with
  | none =>
    rw [List.getLast?_eq_none_iff.1 hl] at ha
    cases ha
  | some b =>
    have hidx := h.swapRemove ha hl
      (fun _ => Function.update_self b (pos a) pos) (fun x _ _ hxb => Function.update_of_ne hxb (pos a) pos)
    exact hidx.nodup

theorem Indexed.perm_swapRemove (h : Indexed l pos) (ha : a ∈ l) :
    (a :: Svalinn.Lib.swapRemove l (pos a)).Perm l := by
  have hmem := h.mem_swapRemove ha
  have hnodup : (a :: Svalinn.Lib.swapRemove l (pos a)).Nodup :=
    List.nodup_cons.2 ⟨fun hin => ((hmem a).1 hin).2 rfl, h.nodup_swapRemove ha⟩
  rw [List.perm_ext_iff_of_nodup hnodup h.nodup]
  intro x
  rw [List.mem_cons, hmem]
  constructor
  · rintro (rfl | ⟨hx, -⟩)
    · exact ha
    · exact hx
  · intro hx
    rcases Classical.em (x = a) with rfl | hne
    · exact Or.inl rfl
    · exact Or.inr ⟨hx, hne⟩

end SwapRemove

end Svalinn.Lib
