/-
  Lib/Staggered.lean --- queues of intervals ordered by where they stop.

  An interval is inserted from the back, behind the last one that stops before it, and is
  refused if an interval it passes covers it.  Draining takes intervals off the front as long
  as the position reached touches them.  The order of the stops is kept in any case; that
  draining leaves nothing the position touches needs a queue in which no interval covers
  another, and insertion keeps that if the new interval covers none.
-/
import Mathlib.Order.Lattice
import Mathlib.Data.List.Pairwise

set_option autoImplicit false

namespace Svalinn.Lib

section Staggered

variable {α β : Type*} [LinearOrder α] (start stop : β → α)

/-- `x` covers `y`. -/
def Covers (x y : β) : Prop := start x ≤ start y ∧ stop y ≤ stop x

/-- `x` is before `y` at both ends. -/
def Before (x y : β) : Prop := start x < start y ∧ stop x < stop y

/-- Insertion into a queue written from the back. -/
def insertRev : List β → β → Option (List β)
  | [], m => some [m]
  | x :: rest, m =>
    if stop x < stop m then some (m :: x :: rest)
    else if start x ≤ start m then none
    else (insertRev rest m).map (x :: ·)

/-- What is left of the queue and the position reached; an interval is taken up to `edge`. -/
def drainTo (edge : α) : List β → α → List β × α
  | [], p => ([], p)
  | x :: rest, p =>
    if stop x ≤ p then drainTo edge rest p
    else if p < start x then (x :: rest, p)
    else drainTo edge rest (min (stop x) edge)

/-- Draining stops in front of an interval while the position touches one behind it, or while
two that are left stop at the same point. -/
def Stuck (edge : α) : List β → α → Prop
  | [], _ => False
  | x :: rest, p =>
    if stop x ≤ p then Stuck edge rest p
    else if p < start x then
      (∃ y ∈ rest, start y ≤ p) ∨ ¬ (x :: rest).Pairwise fun y z => stop y < stop z
    else Stuck edge rest (min (stop x) edge)

variable {start stop} {m : β} {q q' : List β}

theorem insertRev_cons {x : β} (h : insertRev start stop (x :: q) m = some q') :
    (stop x < stop m ∧ q' = m :: x :: q) ∨
    (stop m ≤ stop x ∧ start m < start x ∧
      ∃ q₁, insertRev start stop q m = some q₁ ∧ q' = x :: q₁) := by
  unfold insertRev at h
  split at h
  · rename_i hlt
    exact .inl ⟨hlt, (Option.some.inj h).symm⟩
  · rename_i hle
    obtain ⟨hstart, h⟩ := Option.ite_none_left_eq_some.1 h
    obtain ⟨q₁, hq₁, hq'⟩ := Option.map_eq_some_iff.1 h
    exact .inr ⟨not_lt.1 hle, not_le.1 hstart, q₁, hq₁, hq'.symm⟩

theorem insertRev_perm (h : insertRev start stop q m = some q') : q'.Perm (m :: q) := by
  induction q generalizing q' with
  | nil =>
    cases h
    exact .refl _
  | cons x q ih =>
    rcases insertRev_cons h with ⟨-, rfl⟩ | ⟨-, -, q₁, hq₁, rfl⟩
    · exact .refl _
    · exact ((ih hq₁).cons x).trans (.swap ..)

/-- A relation is kept if the new interval stands in it to all it is put in front of, and all it
passes stand in it to the new one. -/
theorem insertRev_pairwise {r : β → β → Prop} (hq : q.Pairwise r)
    (hpass : ∀ x ∈ q, stop m ≤ stop x → start m < start x → r x m)
    (hfront : ∀ x ∈ q, stop x < stop m → r m x)
    (hsorted : q.Pairwise fun x y => stop y ≤ stop x) (h : insertRev start stop q m = some q') :
    q'.Pairwise r := by
  induction q generalizing q' with
  | nil =>
    cases h
    exact List.pairwise_singleton _ _
  | cons x q ih =>
    obtain ⟨hx, hq⟩ := List.pairwise_cons.1 hq
    obtain ⟨hstops, hsorted⟩ := List.pairwise_cons.1 hsorted
    obtain ⟨hpassx, hpass⟩ := List.forall_mem_cons.1 hpass
    rcases insertRev_cons h with ⟨hlt, rfl⟩ | ⟨hle, hstart, q₁, hq₁, rfl⟩
    · refine List.pairwise_cons.2 ⟨?_, List.pairwise_cons.2 ⟨hx, hq⟩⟩
      intro y hy
      refine hfront y hy ?_
      rcases List.mem_cons.1 hy with rfl | hy
      · exact hlt
      · exact lt_of_le_of_lt (hstops y hy) hlt
    · have hin := ih hq hpass (fun y hy => hfront y (List.mem_cons_of_mem _ hy)) hsorted hq₁
      refine List.pairwise_cons.2 ⟨?_, hin⟩
      intro y hy
      rcases List.mem_cons.1 ((insertRev_perm hq₁).subset hy) with rfl | hy
      · exact hpassx hle hstart
      · exact hx y hy

theorem insertRev_sorted (hsorted : q.Pairwise fun x y => stop y ≤ stop x)
    (h : insertRev start stop q m = some q') : q'.Pairwise fun x y => stop y ≤ stop x :=
  insertRev_pairwise hsorted (fun _ _ hle _ => hle) (fun _ _ hlt => le_of_lt hlt) hsorted h

theorem insertRev_staggered (hq : q.Pairwise fun x y => Before start stop y x)
    (hcov : ∀ x ∈ q, ¬ Covers start stop m x) (h : insertRev start stop q m = some q') :
    q'.Pairwise fun x y => Before start stop y x := by
  refine insertRev_pairwise hq ?_ ?_ (hq.imp fun hyx => le_of_lt hyx.2) h
  · intro x hx hle hstart
    refine ⟨hstart, lt_of_le_of_ne hle fun heq => ?_⟩
    exact hcov x hx ⟨le_of_lt hstart, heq.symm.le⟩
  · intro x hx hlt
    refine ⟨not_le.1 fun hstart => ?_, hlt⟩
    exact hcov x hx ⟨hstart, le_of_lt hlt⟩

variable {edge p : α}

end Staggered

end Svalinn.Lib
