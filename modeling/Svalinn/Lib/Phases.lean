/-
  Lib/Phases.lean --- threads that each stand at a phase of their code.

  The state of a protocol between threads is a phase per thread and some shared variables.
  Its invariants tie a shared variable to the threads in certain phases: one thread is inside
  a lock, a list holds the threads that wait.  Each tie has one lemma per way in which the
  step of a thread, `update phase t p`, can change it.
-/
import Mathlib.Data.List.Basic

set_option autoImplicit false

namespace Svalinn.Lib

open Function List Option

variable {T P W : Type} [DecidableEq T] {phase : T → P} {t u : T} {p : P}

theorem exists_update {Q : P → Prop} (h : ∃ a, Q (phase a)) (ht : Q (phase t) → Q p) :
    ∃ a, Q (update phase t p a) := by
  obtain ⟨a, ha⟩ := h
  by_cases hat : a = t
  · subst hat
    exact ⟨a, by rw [update_self]; exact ht ha⟩
  · exact ⟨a, by rw [update_of_ne hat]; exact ha⟩

/-! ## A variable that names the one thread in some phases -/

section Holder

/-- `o` names the thread whose phase has the attribute `f`. -/
def Holder (f : P → Bool) (phase : T → P) (o : Option T) : Prop :=
  ∀ t, f (phase t) = true ↔ o = some t

variable {f : P → Bool} {o : Option T}

theorem Holder.keep (h : Holder f phase o) (hp : f p = f (phase t)) :
    Holder f (update phase t p) o := by
  intro u
  rw [update_apply]
  split
  · rename_i hu
    rw [hp, hu]
    exact h t
  · exact h u

theorem Holder.take (h : Holder f phase none) (hp : f p = true) :
    Holder f (update phase t p) (some t) := by
  intro u
  rw [update_apply]
  split
  · rename_i hu
    rw [hp, hu]
    exact ⟨fun _ => rfl, fun _ => rfl⟩
  · rename_i hu
    rw [h u, some_inj]
    exact ⟨nofun, fun htu => absurd htu.symm hu⟩

theorem Holder.give (h : Holder f phase (some t)) (hp : f p = false) :
    Holder f (update phase t p) none := by
  intro u
  rw [update_apply]
  split
  · rw [hp]
    exact ⟨nofun, nofun⟩
  · rename_i hu
    rw [h u, some_inj]
    exact ⟨fun htu => absurd htu.symm hu, nofun⟩

omit [DecidableEq T] in
theorem Holder.eq (h : Holder f phase o) (ht : f (phase t) = true) (hu : f (phase u) = true) :
    u = t :=
  some.inj (((h u).1 hu).symm.trans ((h t).1 ht))

omit [DecidableEq T] in
theorem Holder.eq_some (h : Holder f phase o) (ht : f (phase t) = true) : o = some t := (h t).1 ht

omit [DecidableEq T] in
theorem Holder.not_none (h : Holder f phase none) (t : T) : f (phase t) = false :=
  Bool.eq_false_iff.2 fun ht => absurd (h.eq_some ht) nofun

end Holder

/-! ## A variable that also names what the thread carries -/

section Carrier

/-- `o` names the thread whose phase carries a value, and the value. -/
def Carrier (g : P → Option W) (phase : T → P) (o : Option (T × W)) : Prop :=
  ∀ t w, g (phase t) = some w ↔ o = some (t, w)

variable {g : P → Option W} {o : Option (T × W)} {w : W}

theorem Carrier.keep (h : Carrier g phase o) (hp : g p = g (phase t)) :
    Carrier g (update phase t p) o := by
  intro u v
  rw [update_apply]
  split
  · rename_i hu
    rw [hp, hu]
    exact h t v
  · exact h u v

theorem Carrier.take (h : Carrier g phase none) (hp : g p = some w) :
    Carrier g (update phase t p) (some (t, w)) := by
  intro u v
  rw [update_apply, some_inj, Prod.mk.injEq]
  split
  · rename_i hu
    rw [hp, some_inj]
    exact ⟨fun hwv => ⟨hu.symm, hwv⟩, fun hwv => hwv.2⟩
  · rename_i hu
    rw [h u v]
    exact ⟨nofun, fun htu => absurd htu.1.symm hu⟩

theorem Carrier.give (h : Carrier g phase (some (t, w))) (hp : g p = none) :
    Carrier g (update phase t p) none := by
  intro u v
  rw [update_apply]
  split
  · rw [hp]
    exact ⟨nofun, nofun⟩
  · rename_i hu
    rw [h u v, some_inj, Prod.mk.injEq]
    exact ⟨fun htu => absurd htu.1.symm hu, nofun⟩

theorem Carrier.change {w' : W} (h : Carrier g phase (some (t, w))) (hp : g p = some w') :
    Carrier g (update phase t p) (some (t, w')) := by
  intro u v
  rw [update_apply, some_inj, Prod.mk.injEq]
  split
  · rename_i hu
    rw [hp, some_inj]
    exact ⟨fun hwv => ⟨hu.symm, hwv⟩, fun hwv => hwv.2⟩
  · rename_i hu
    rw [h u v, some_inj, Prod.mk.injEq]
    exact ⟨fun htu => absurd htu.1.symm hu, fun htu => absurd htu.1.symm hu⟩

end Carrier

/-! ## A list of the threads in some phases -/

section Listed

/-- The list holds the threads whose phase has the attribute `f`, each once. -/
structure Listed (f : P → Bool) (phase : T → P) (l : List T) : Prop where
  mem_iff : ∀ t, t ∈ l ↔ f (phase t) = true
  nodup : l.Nodup

variable {f : P → Bool} {l : List T}

theorem Listed.keep (h : Listed f phase l) (hp : f p = f (phase t)) :
    Listed f (update phase t p) l := by
  refine ⟨fun u => ?_, h.nodup⟩
  rw [update_apply]
  split
  · rename_i hu
    rw [hp, hu]
    exact h.mem_iff t
  · exact h.mem_iff u

omit [DecidableEq T] in
theorem Listed.not_mem (h : Listed f phase l) (ht : f (phase t) = false) : t ∉ l := by
  rw [h.mem_iff t, ht]
  nofun

theorem Listed.push (h : Listed f phase l) (ht : f (phase t) = false) (hp : f p = true) :
    Listed f (update phase t p) (l ++ [t]) := by
  refine ⟨fun u => ?_, ?_⟩
  · rw [update_apply, mem_append, mem_singleton, h.mem_iff u]
    split
    · rename_i hu
      exact ⟨fun _ => hp, fun _ => .inr hu⟩
    · rename_i hu
      exact ⟨fun hin => hin.resolve_right hu, .inl⟩
  · refine nodup_append.2 ⟨h.nodup, nodup_cons.2 ⟨not_mem_nil, .nil⟩, ?_⟩
    intro u hu v hv huv
    rw [mem_singleton.1 hv] at huv
    exact h.not_mem ht (huv ▸ hu)

theorem Listed.pop (h : Listed f phase (t :: l)) (hp : f p = false) :
    Listed f (update phase t p) l := by
  obtain ⟨hnot, hnodup⟩ := nodup_cons.1 h.nodup
  refine ⟨fun u => ?_, hnodup⟩
  have hold := h.mem_iff u
  rw [update_apply]
  split
  · rename_i hu
    rw [hp, hu]
    exact ⟨fun hin => absurd hin hnot, nofun⟩
  · rename_i hu
    rw [← hold, mem_cons]
    exact ⟨.inr, fun hin => hin.resolve_left hu⟩

theorem Listed.erase (h : Listed f phase l) (hp : f p = false) :
    Listed f (update phase t p) (l.erase t) := by
  refine ⟨fun u => ?_, h.nodup.erase t⟩
  rw [h.nodup.mem_erase_iff, update_apply]
  split
  · rename_i hu
    rw [hp]
    exact ⟨fun hin => absurd hu hin.1, nofun⟩
  · rename_i hu
    rw [← h.mem_iff u]
    exact ⟨fun hin => hin.2, fun hin => ⟨hu, hin⟩⟩

end Listed

/-! ## A step that moves a whole list of threads -/

section SetAll

def setAll (phase : T → P) (l : List T) (p : P) : T → P := fun t => if t ∈ l then p else phase t

variable {f : P → Bool} {l : List T}

theorem Holder.setAll_keep {o : Option T} (h : Holder f phase o) (hl : ∀ t ∈ l, f (phase t) = f p) :
    Holder f (setAll phase l p) o := by
  intro u
  rw [setAll]
  split
  · rename_i hu
    rw [← hl u hu]
    exact h u
  · exact h u

theorem Carrier.setAll_keep {g : P → Option W} {o : Option (T × W)} (h : Carrier g phase o)
    (hl : ∀ t ∈ l, g (phase t) = g p) : Carrier g (setAll phase l p) o := by
  intro u w
  rw [setAll]
  split
  · rename_i hu
    rw [← hl u hu]
    exact h u w
  · exact h u w

theorem Listed.setAll_keep {l' : List T} (h : Listed f phase l') (hl : ∀ t ∈ l, f (phase t) = f p) :
    Listed f (setAll phase l p) l' := by
  refine ⟨fun u => ?_, h.nodup⟩
  rw [setAll]
  split
  · rename_i hu
    rw [← hl u hu]
    exact h.mem_iff u
  · exact h.mem_iff u

theorem Listed.setAll_fill (h : Listed f phase []) (hp : f p = true) (hl : l.Nodup) :
    Listed f (setAll phase l p) l := by
  refine ⟨fun u => ?_, hl⟩
  rw [setAll]
  split
  · rename_i hu
    exact ⟨fun _ => hp, fun _ => hu⟩
  · rename_i hu
    rw [← h.mem_iff u]
    exact ⟨fun hin => absurd hin hu, nofun⟩

theorem Listed.setAll_clear (h : Listed f phase l) (hp : f p = false) :
    Listed f (setAll phase l p) [] := by
  refine ⟨fun u => ?_, .nil⟩
  rw [setAll]
  split
  · rw [hp]
    exact ⟨nofun, nofun⟩
  · rename_i hu
    rw [← h.mem_iff u]
    exact ⟨nofun, fun hin => absurd hin hu⟩

end SetAll

end Svalinn.Lib
