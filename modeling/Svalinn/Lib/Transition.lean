/-
  Lib/Transition.lean --- executable transition systems and their guarded runs.

  A system is a partial step function `step : σ → α → Option σ`: in state `s`
  the action `a` either is not enabled (`none`) or leads to one state.  All
  nondeterminism (which thread moves, what the clock or the peer answers) is in
  the action.

  Two views of a run are kept side by side.  `runActions` executes a list of
  actions and is what concrete runs are evaluated with.  `Reaches` is the
  relation the invariants are proved about; it carries a guard `ok` on every
  step, so that "every run whose steps all meet a condition" is one notion and
  the unguarded runs are the ones with the trivial guard.
-/
import Mathlib.Logic.Relation
import Mathlib.Data.List.Basic

set_option autoImplicit false

namespace Svalinn.Lib

section Runs

variable {σ α : Type}

/-- Execute a list of actions, stopping at the first one that is not enabled. -/
def runActions (step : σ → α → Option σ) : σ → List α → Option σ
  | s, [] => some s
  | s, a :: rest =>
    match step s a with
    | none => none
    | some s' => runActions step s' rest

/-- `t` is reached from `s` by enabled steps each of which meets the guard in
the state it is taken from. -/
inductive Reaches (step : σ → α → Option σ) (ok : σ → α → Prop) (s : σ) : σ → Prop
  | refl : Reaches step ok s s
  | tail {t u : σ} {a : α} : Reaches step ok s t → ok t a → step t a = some u → Reaches step ok s u

def anyStep (_ : σ) (_ : α) : Prop := True

variable {step : σ → α → Option σ} {ok : σ → α → Prop}

@[simp] theorem runActions_nil (s : σ) : runActions step s [] = some s := rfl

theorem runActions_cons {s s' : σ} {a : α} (rest : List α) (h : step s a = some s') :
    runActions step s (a :: rest) = runActions step s' rest := by
  simp [runActions, h]

/-- The invariant rule: what holds at the start and is kept by every guarded
step holds in every state reached. -/
theorem Reaches.invariant {P : σ → Prop} {s t : σ} (h : Reaches step ok s t) (hinit : P s)
    (hstep : ∀ u a v, P u → ok u a → step u a = some v → P v) : P t := by
  induction h with
  | refl => exact hinit
  | tail _ hok hst ih => exact hstep _ _ _ ih hok hst

theorem Reaches.trans {s t u : σ} (h₁ : Reaches step ok s t) (h₂ : Reaches step ok t u) :
    Reaches step ok s u := by
  induction h₂ with
  | refl => exact h₁
  | tail _ hok hst ih => exact .tail ih hok hst

theorem Reaches.single {s t : σ} {a : α} (hok : ok s a) (hst : step s a = some t) :
    Reaches step ok s t :=
  .tail .refl hok hst

theorem Reaches.mono {ok' : σ → α → Prop} (hweak : ∀ u a, ok u a → ok' u a) {s t : σ}
    (h : Reaches step ok s t) : Reaches step ok' s t := by
  induction h with
  | refl => exact .refl
  | tail _ hok hst ih => exact .tail ih (hweak _ _ hok) hst

theorem reaches_of_runActions {s t : σ} {as : List α} (h : runActions step s as = some t) :
    Reaches step anyStep s t := by
  induction as generalizing s with
  | nil =>
    have hst : s = t := by simpa using h
    exact hst ▸ .refl
  | cons a rest ih =>
    cases hs : step s a with
    | none => simp [runActions, hs] at h
    | some s' =>
      rw [runActions_cons rest hs] at h
      exact (Reaches.single trivial hs).trans (ih h)

def runChecked (step : σ → α → Option σ) (guard : σ → α → Bool) : σ → List α → Option σ
  | s, [] => some s
  | s, a :: rest =>
    match guard s a, step s a with
    | true, some s' => runChecked step guard s' rest
    | _, _ => none

theorem reaches_of_runChecked {guard : σ → α → Bool} {s t : σ} {as : List α}
    (hguard : ∀ u, ∀ a ∈ as, guard u a = true → ok u a)
    (h : runChecked step guard s as = some t) : Reaches step ok s t := by
  induction as generalizing s with
  | nil =>
    have hst : s = t := by simpa [runChecked] using h
    exact hst ▸ .refl
  | cons a rest ih =>
    unfold runChecked at h
    split at h
    · rename_i s' hg hs
      exact (Reaches.single (hguard _ a List.mem_cons_self hg) hs).trans
        (ih (fun u b hb => hguard u b (List.mem_cons_of_mem a hb)) h)
    · exact absurd h (by simp)

theorem exists_of_runActions {P : σ → Prop} [DecidablePred P] {s : σ} (as : List α)
    (h : (runActions step s as).any (fun t => decide (P t)) = true) :
    ∃ t, Reaches step anyStep s t ∧ P t := by
  obtain ⟨t, ht, hp⟩ := (Option.any_eq_true _ _).1 h
  exact ⟨t, reaches_of_runActions ht, of_decide_eq_true hp⟩

theorem exists_of_runChecked [∀ u a, Decidable (ok u a)] {P : σ → Prop} [DecidablePred P] {s : σ}
    (as : List α)
    (h : (runChecked step (fun u a => decide (ok u a)) s as).any (fun t => decide (P t)) = true) :
    ∃ t, Reaches step ok s t ∧ P t := by
  obtain ⟨t, ht, hp⟩ := (Option.any_eq_true _ _).1 h
  exact ⟨t, reaches_of_runChecked (fun _ _ _ hok => of_decide_eq_true hok) ht, of_decide_eq_true hp⟩

end Runs

end Svalinn.Lib
