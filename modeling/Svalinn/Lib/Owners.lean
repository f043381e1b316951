/-
  Lib/Owners.lean --- things that are each held by one party or by none.

  Every party holds a list of things; `HeldOnce held active` says that a thing that is active
  is in exactly one of the lists and there once, and that the others are in none.  The
  lemmas are the ways in which things change hands.

  `Hop` is one change of hands, between parties for which it is allowed, or a new thing;
  `Hops` is any number of them.
-/
import Mathlib.Data.List.Nodup
import Mathlib.Logic.Relation

set_option autoImplicit false

namespace Svalinn.Lib

open Function List

section Owners

variable {K T : Type} {held held' : K → List T} {active : T → Bool} {k r : K} {a : T}

structure HeldOnce (held : K → List T) (active : T → Bool) : Prop where
  nodup : ∀ k, (held k).Nodup
  disjoint : ∀ k k' x, x ∈ held k → x ∈ held k' → k = k'
  active_iff : ∀ x, active x = true ↔ ∃ k, x ∈ held k

theorem HeldOnce.perm (h : HeldOnce held active) (hp : ∀ k, (held' k).Perm (held k)) :
    HeldOnce held' active where
  nodup := fun k => (hp k).nodup_iff.2 (h.nodup k)
  disjoint := fun k k' x hk hk' =>
    h.disjoint k k' x ((hp k).mem_iff.1 hk) ((hp k').mem_iff.1 hk')
  active_iff := fun x =>
    (h.active_iff x).trans (exists_congr fun k => (hp k).mem_iff.symm)

/-- New things come to `k`. -/
theorem HeldOnce.addAll {active' : T → Bool} {l : List T} (h : HeldOnce held active) (hl : l.Nodup)
    (hr : ∀ x ∈ l, active x = false) (hk : (held' k).Perm (l ++ held k))
    (hne : ∀ j, j ≠ k → held' j = held j)
    (hactive' : ∀ x, active' x = true ↔ active x = true ∨ x ∈ l) : HeldOnce held' active' := by
  have hto : ∀ x, x ∈ held' k ↔ x ∈ l ∨ x ∈ held k := fun x => hk.mem_iff.trans mem_append
  obtain ⟨hnodup, hdisj, hactive⟩ := h
  have hnone : ∀ x ∈ l, ∀ j, x ∉ held j := by
    intro x hx j hj
    simpa [(hactive x).2 ⟨j, hj⟩] using hr x hx
  have hnew : (held' k).Nodup := by
    refine hk.nodup_iff.2 (nodup_append.2 ⟨hl, hnodup k, ?_⟩)
    rintro x hx y hy rfl
    exact hnone x hx k hy
  have hsame : ∀ j, j = k ∨ held' j = held j := fun j => by grind
  refine ⟨fun j => ?_, fun j j' x hj hj' => ?_, fun x => ?_⟩
  · have := hsame j
    grind
  · have := hsame j
    have := hsame j'
    grind
  · grind

/-- Things of `k` are given up. -/
theorem HeldOnce.removeAll {active' : T → Bool} {l : List T} (h : HeldOnce held active)
    (hk : (held k).Perm (l ++ held' k)) (hne : ∀ j, j ≠ k → held' j = held j)
    (hactive' : ∀ x, active' x = true ↔ active x = true ∧ x ∉ l) : HeldOnce held' active' := by
  have hfrom : ∀ x, x ∈ held k ↔ x ∈ l ∨ x ∈ held' k := fun x => hk.mem_iff.trans mem_append
  obtain ⟨hnodup, hdisj, hactive⟩ := h
  obtain ⟨-, hrest, hapart⟩ := nodup_append.1 (hk.nodup_iff.1 (hnodup k))
  have hsame : ∀ j, j = k ∨ held' j = held j := fun j => by grind
  refine ⟨fun j => ?_, fun j j' x hj hj' => ?_, fun x => ?_⟩
  · have := hsame j
    grind
  · have := hsame j
    have := hsame j'
    grind
  · grind

/-- The things of `l` go from `r` to `k`: they are given up and come again. -/
theorem HeldOnce.move {l : List T} (h : HeldOnce held active) (hkr : r ≠ k)
    (hr : (held r).Perm (l ++ held' r)) (hk : (held' k).Perm (l ++ held k))
    (hne : ∀ j, j ≠ k → j ≠ r → held' j = held j) : HeldOnce held' active := by
  classical
  have hgone : HeldOnce (update held r (held' r)) fun x => active x && decide (x ∉ l) :=
    h.removeAll (by rwa [update_self]) (fun j hj => update_of_ne hj _ _) fun x => by simp
  have hl := (nodup_append.1 (hr.nodup_iff.1 (h.nodup r))).1
  refine hgone.addAll hl (fun x hx => by simp [hx]) (by rwa [update_of_ne hkr.symm]) ?_ fun x => ?_
  · intro j hj
    rw [update_apply]
    split
    · rename_i hjr
      rw [hjr]
    · rename_i hjr
      exact hne j hj hjr
  · have hmem : x ∈ l → active x = true := fun hx =>
      (h.active_iff x).2 ⟨r, hr.mem_iff.2 (mem_append_left _ hx)⟩
    by_cases hx : x ∈ l
    · simp [hx, hmem hx]
    · simp [hx]

variable [DecidableEq T]

theorem HeldOnce.add (h : HeldOnce held active) (hr : active a = false)
    (hk : (held' k).Perm (a :: held k)) (hne : ∀ j, j ≠ k → held' j = held j) :
    HeldOnce held' (update active a true) := by
  refine h.addAll (nodup_singleton a) (by simpa using hr) hk hne fun x => ?_
  rw [update_apply]
  grind

theorem HeldOnce.remove (h : HeldOnce held active) (hk : (held k).Perm (a :: held' k))
    (hne : ∀ j, j ≠ k → held' j = held j) : HeldOnce held' (update active a false) := by
  refine h.removeAll (l := [a]) hk hne fun x => ?_
  rw [update_apply]
  grind

end Owners

/-! ## Changes of hands -/

structure Holdings (K T : Type) where
  held : K → List T
  active : T → Bool

section Hops

variable {K T : Type} [DecidableEq T] {allowed : K → K → Prop} {h h' : Holdings K T} {x : T}

inductive Hop (allowed : K → K → Prop) (h h' : Holdings K T) : Prop
  | move (a b : K) (l : List T) (hab : allowed a b) (hne : a ≠ b)
      (hfrom : (h.held a).Perm (l ++ h'.held a)) (hto : (h'.held b).Perm (l ++ h.held b))
      (hother : ∀ j, j ≠ b → j ≠ a → h'.held j = h.held j) (hactive : h'.active = h.active)
  | fresh (b : K) (x : T) (hx : h.active x = false) (hto : (h'.held b).Perm (x :: h.held b))
      (hother : ∀ j, j ≠ b → h'.held j = h.held j)
      (hactive : h'.active = update h.active x true)

def Hops (allowed : K → K → Prop) : Holdings K T → Holdings K T → Prop :=
  Relation.ReflTransGen (Hop allowed)

theorem Hop.heldOnce (hop : Hop allowed h h') (honce : HeldOnce h.held h.active) :
    HeldOnce h'.held h'.active := by
  cases hop with
  | move a b l _ hne hfrom hto hother hactive =>
    rw [hactive]
    exact honce.move hne hfrom hto hother
  | fresh b x hx hto hother hactive =>
    rw [hactive]
    exact honce.add hx hto hother

theorem Hops.heldOnce (hops : Hops allowed h h') (honce : HeldOnce h.held h.active) :
    HeldOnce h'.held h'.active := by
  induction hops with
  | refl => exact honce
  | tail _ hop ih => exact hop.heldOnce ih

/-- A thing with a party of a group that hands things on only within the group stays there. -/
theorem Hop.stays {P : K → Prop} (hP : ∀ a b, allowed a b → P a → P b) (hop : Hop allowed h h')
    (hx : ∃ a, P a ∧ x ∈ h.held a) : ∃ a, P a ∧ x ∈ h'.held a := by
  classical
  obtain ⟨j, hj, hmem⟩ := hx
  cases hop with
  | move a b l hab hne hfrom hto hother _ =>
    by_cases hjb : j = b
    · subst hjb
      exact ⟨j, hj, hto.mem_iff.2 (mem_append_right _ hmem)⟩
    · by_cases hja : j = a
      · subst hja
        rcases mem_append.1 (hfrom.mem_iff.1 hmem) with hl | hrest
        · exact ⟨b, hP j b hab hj, hto.mem_iff.2 (mem_append_left _ hl)⟩
        · exact ⟨j, hj, hrest⟩
      · exact ⟨j, hj, by rw [hother j hjb hja]; exact hmem⟩
  | fresh b y _ hto hother _ =>
    by_cases hjb : j = b
    · subst hjb
      exact ⟨j, hj, hto.mem_iff.2 (mem_cons_of_mem _ hmem)⟩
    · exact ⟨j, hj, by rw [hother j hjb]; exact hmem⟩

theorem Hops.stays {P : K → Prop} (hP : ∀ a b, allowed a b → P a → P b)
    (hops : Hops allowed h h') (hx : ∃ a, P a ∧ x ∈ h.held a) : ∃ a, P a ∧ x ∈ h'.held a := by
  induction hops with
  | refl => exact hx
  | tail _ hop ih => exact hop.stays hP ih

end Hops

end Svalinn.Lib
