/-
  Lib/Buckets.lean --- hash tables of chained buckets.

  A table is a function from bucket numbers to chains.  `Hashed` is what its users keep: every
  entry is in the bucket its key hashes to, and no chain has two entries of one key.  From it
  the table is a partial map: a key has at most one entry, and the search of its bucket finds
  that entry, whatever the hash function is.
-/
import Mathlib.Data.List.FinRange

set_option autoImplicit false

namespace Svalinn.Lib.Buckets

open Function List

variable {ι K E : Type}

/-- Every entry is where its key hashes to, and the keys of a chain are distinct. -/
structure Hashed (hash : K → ι) (key : E → K) (tbl : ι → List E) : Prop where
  placed : ∀ i, ∀ k ∈ (tbl i).map key, hash k = i
  nodup : ∀ i, ((tbl i).map key).Nodup

/-- The entry is in the table. -/
def Linked (tbl : ι → List E) (e : E) : Prop := ∃ i, e ∈ tbl i

/-- The search of the bucket that the key hashes to. -/
def find [DecidableEq K] (hash : K → ι) (key : E → K) (tbl : ι → List E) (k : K) : Option E :=
  (tbl (hash k)).find? fun e => key e = k

/-- A new head of a chain. -/
def push [DecidableEq ι] (tbl : ι → List E) (i : ι) (e : E) : ι → List E :=
  update tbl i (e :: tbl i)

variable {hash : K → ι} {key : E → K} {tbl : ι → List E}

/-! ## The table as a partial map -/

theorem hashed_empty : Hashed hash key (fun _ : ι => ([] : List E)) where
  placed := fun _ _ hk => absurd hk not_mem_nil
  nodup := fun _ => nodup_nil

theorem Hashed.mem_bucket (h : Hashed hash key tbl) {e : E} (he : Linked tbl e) :
    e ∈ tbl (hash (key e)) := by
  obtain ⟨i, hi⟩ := he
  rw [h.placed i (key e) (mem_map_of_mem hi)]
  exact hi

/-- A key has at most one entry. -/
theorem Hashed.unique (h : Hashed hash key tbl) {e e' : E} (he : Linked tbl e)
    (he' : Linked tbl e') (hk : key e = key e') : e = e' := by
  have hmem : e' ∈ tbl (hash (key e)) := hk ▸ h.mem_bucket he'
  exact inj_on_of_nodup_map (h.nodup _) (h.mem_bucket he) hmem hk

theorem Hashed.nodup_flatMap (h : Hashed hash key tbl) {is : List ι} (his : is.Nodup) :
    ((is.flatMap tbl).map key).Nodup := by
  rw [map_flatMap, List.nodup_flatMap]
  refine ⟨fun i _ => h.nodup i, his.imp fun {i j} hij => ?_⟩
  intro k hki hkj
  exact hij ((h.placed i k hki).symm.trans (h.placed j k hkj))

theorem mem_flatMap_finRange {n : Nat} {tbl : Fin n → List E} {e : E} :
    e ∈ (List.finRange n).flatMap tbl ↔ Linked tbl e := by
  simp [Linked]

theorem Hashed.of_sublist (h : Hashed hash key tbl) {tbl' : ι → List E}
    (hsub : ∀ i, ((tbl' i).map key).Sublist ((tbl i).map key)) : Hashed hash key tbl' where
  placed := fun i k hk => h.placed i k ((hsub i).mem hk)
  nodup := fun i => (h.nodup i).sublist (hsub i)

/-- A chain that is gone through, entries being changed or taken out, keeps the order of its
keys. -/
theorem map_filterMap_sublist {g : E → Option E} {l : List E}
    (hkey : ∀ e ∈ l, ∀ e', g e = some e' → key e' = key e) :
    ((l.filterMap g).map key).Sublist (l.map key) := by
  induction l with
  | nil => exact .slnil
  | cons e l ih =>
    have hrest := ih fun x hx => hkey x (mem_cons_of_mem _ hx)
    cases hg : g e with
    | none =>
      rw [filterMap_cons_none hg]
      exact hrest.cons _
    | some e' =>
      rw [filterMap_cons_some hg, map_cons, map_cons, hkey e mem_cons_self e' hg]
      exact hrest.cons_cons _

variable [DecidableEq K]

theorem linked_of_find {e : E} {k : K} (hf : find hash key tbl k = some e) :
    Linked tbl e ∧ key e = k :=
  ⟨⟨_, List.mem_of_find?_eq_some hf⟩, by simpa using List.find?_some hf⟩

/-- The search finds every entry of the table. -/
theorem Hashed.find_eq_some (h : Hashed hash key tbl) {e : E} (he : Linked tbl e) :
    find hash key tbl (key e) = some e := by
  cases hf : find hash key tbl (key e) with
  | none => exact absurd (List.find?_eq_none.1 hf e (h.mem_bucket he)) (by simp)
  | some e' =>
    obtain ⟨he', hk⟩ := linked_of_find hf
    rw [h.unique he' he hk]

theorem Hashed.find_eq_none_iff (h : Hashed hash key tbl) {k : K} :
    find hash key tbl k = none ↔ ∀ e, Linked tbl e → key e ≠ k := by
  constructor
  · rintro hf e he rfl
    rw [h.find_eq_some he] at hf
    cases hf
  · intro hno
    cases hf : find hash key tbl k with
    | none => rfl
    | some e => exact absurd (linked_of_find hf).2 (hno e (linked_of_find hf).1)

/-! ## The updates -/

variable [DecidableEq ι]

/-- An entry whose key the search does not find may be pushed. -/
theorem Hashed.push (h : Hashed hash key tbl) {e : E} (hfree : find hash key tbl (key e) = none) :
    Hashed hash key (push tbl (hash (key e)) e) := by
  have hnew : key e ∉ (tbl (hash (key e))).map key := by
    intro hk
    obtain ⟨e', he', hke⟩ := mem_map.1 hk
    exact h.find_eq_none_iff.1 hfree e' ⟨_, he'⟩ hke
  constructor
  · intro i k hk
    by_cases hi : i = hash (key e)
    · subst hi
      rw [Buckets.push, update_self] at hk
      rcases mem_cons.1 hk with rfl | hk
      · rfl
      · exact h.placed _ k hk
    · rw [Buckets.push, update_of_ne hi] at hk
      exact h.placed i k hk
  · intro i
    by_cases hi : i = hash (key e)
    · subst hi
      rw [Buckets.push, update_self]
      exact nodup_cons.2 ⟨hnew, h.nodup _⟩
    · rw [Buckets.push, update_of_ne hi]
      exact h.nodup i

theorem linked_push {i : ι} {e e' : E} : Linked (push tbl i e) e' ↔ e' = e ∨ Linked tbl e' := by
  constructor
  · rintro ⟨j, hj⟩
    by_cases hji : j = i
    · subst hji
      rw [push, update_self] at hj
      exact (mem_cons.1 hj).imp id fun h => ⟨j, h⟩
    · rw [push, update_of_ne hji] at hj
      exact .inr ⟨j, hj⟩
  · rintro (rfl | ⟨j, hj⟩)
    · exact ⟨i, by rw [push, update_self]; exact mem_cons_self⟩
    · by_cases hji : j = i
      · subst hji
        exact ⟨j, by rw [push, update_self]; exact mem_cons_of_mem _ hj⟩
      · exact ⟨j, by rw [push, update_of_ne hji]; exact hj⟩

/-- A push adds its entry to the entries of the table. -/
theorem flatMap_push_perm {i : ι} {e : E} {is : List ι} (his : is.Nodup) (hi : i ∈ is) :
    (is.flatMap (push tbl i e)).Perm (e :: is.flatMap tbl) := by
  induction is with
  | nil => exact absurd hi not_mem_nil
  | cons j is ih =>
    obtain ⟨hj, his⟩ := nodup_cons.1 his
    rw [flatMap_cons, flatMap_cons]
    by_cases hij : i = j
    · subst hij
      have hrest : is.flatMap (push tbl i e) = is.flatMap tbl :=
        flatMap_congr fun k hk => update_of_ne (fun hki : k = i => hj (hki ▸ hk)) _ _
      rw [hrest, push, update_self, cons_append]
    · rw [push, update_of_ne (Ne.symm hij)]
      refine ((ih his ((mem_cons.1 hi).resolve_left hij)).append_left _).trans ?_
      exact perm_middle

theorem linked_update {i : ι} {l : List E} {e : E} :
    Linked (update tbl i l) e ↔ e ∈ l ∨ ∃ j, j ≠ i ∧ e ∈ tbl j := by
  constructor
  · rintro ⟨j, hj⟩
    grind
  · rintro (he | ⟨j, hji, hj⟩)
    · exact ⟨i, by rwa [update_self]⟩
    · exact ⟨j, by rwa [update_of_ne hji]⟩

omit [DecidableEq K] in
theorem Hashed.filterMap {g : E → Option E} (h : Hashed hash key tbl) {i : ι}
    (hkey : ∀ e ∈ tbl i, ∀ e', g e = some e' → key e' = key e) :
    Hashed hash key (update tbl i ((tbl i).filterMap g)) := by
  refine h.of_sublist fun j => ?_
  by_cases hj : j = i
  · subst hj
    rw [update_self]
    exact map_filterMap_sublist hkey
  · rw [update_of_ne hj]

end Svalinn.Lib.Buckets
