/-
  Lib/Locks.lean --- spin locks, their owners, and cycles of waiting threads.

  Every thread is at a program point; a program point says which locks its thread
  holds and for which lock it spins.  `owner` is what the lock words say.  The two
  agree as long as locks are only taken when free and released by their holder.
-/
import Mathlib.Logic.Relation
import Mathlib.Logic.Function.Basic

set_option autoImplicit false

namespace Svalinn.Lib

open Function

section Locks

variable {T L P : Type} {holds : P → L → Bool} {wants : P → Option L} {owner : L → Option T}
  {pc : T → P}

def Owned (holds : P → L → Bool) (owner : L → Option T) (pc : T → P) : Prop :=
  ∀ l t, owner l = some t ↔ holds (pc t) l = true

/-- `t` spins for a lock that `u` holds. -/
def WaitsFor (wants : P → Option L) (owner : L → Option T) (pc : T → P) (t u : T) : Prop :=
  ∃ l, wants (pc t) = some l ∧ owner l = some u

def Deadlocked (wants : P → Option L) (owner : L → Option T) (pc : T → P) : Prop :=
  ∃ t, Relation.TransGen (WaitsFor wants owner pc) t t

section Ownership

variable [DecidableEq T]

theorem Owned.move (h : Owned holds owner pc) {t : T} {p : P}
    (hp : ∀ l, holds p l = holds (pc t) l) : Owned holds owner (update pc t p) := by
  intro l u
  rw [h l u]
  by_cases hu : u = t
  · subst hu
    rw [update_self, hp]
  · rw [update_of_ne hu]

variable [DecidableEq L]

theorem Owned.acquire (h : Owned holds owner pc) {t : T} {p : P} {l : L} (hfree : owner l = none)
    (hp : ∀ k, holds p k = (decide (k = l) || holds (pc t) k)) :
    Owned holds (update owner l (some t)) (update pc t p) := by
  intro k u
  have hk := h k u
  grind

theorem Owned.release (h : Owned holds owner pc) {t : T} {p : P} {l : L}
    (hown : owner l = some t) (hp : ∀ k, holds p k = (! decide (k = l) && holds (pc t) k)) :
    Owned holds (update owner l none) (update pc t p) := by
  intro k u
  have hk := h k u
  grind

end Ownership

theorem Owned.on_cycle (h : Owned holds owner pc) {t : T}
    (hcyc : Relation.TransGen (WaitsFor wants owner pc) t t) :
    ∃ l u, wants (pc t) = some l ∧ holds (pc u) l = true ∧
      Relation.TransGen (WaitsFor wants owner pc) u u ∧ ∃ k, holds (pc t) k = true := by
  obtain ⟨u, hstep, hrest⟩ := Relation.TransGen.head'_iff.1 hcyc
  obtain ⟨v, -, hlast⟩ := Relation.TransGen.tail'_iff.1 hcyc
  obtain ⟨l, hwants, howner⟩ := hstep
  obtain ⟨k, -, hk⟩ := hlast
  exact ⟨l, u, hwants, (h l u).1 howner, Relation.TransGen.tail' hrest ⟨l, hwants, howner⟩, k,
    (h k t).1 hk⟩

theorem Owned.deadlocked_of_pair (h : Owned holds owner pc) {t u : T} {l k : L}
    (ht : wants (pc t) = some l) (hu : holds (pc u) l = true) (hu' : wants (pc u) = some k)
    (ht' : holds (pc t) k = true) : Deadlocked wants owner pc :=
  ⟨t, .tail (.single ⟨l, ht, (h l u).2 hu⟩) ⟨k, hu', (h k t).2 ht'⟩⟩

end Locks

end Svalinn.Lib
