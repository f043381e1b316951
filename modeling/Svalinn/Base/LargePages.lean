/-
  Base/LargePages.lean --- the table of 2 MB pages of a NUMA node.

  A node hands out the entries of its table in order and keeps the freed ones in a list.
  `lgpage_alloc_on_node` takes an entry first and maps its memory afterwards; when that
  fails it returns without the entry going anywhere.
-/
import Svalinn.Lib.Transition
import Mathlib.Data.List.Nodup

set_option autoImplicit false

namespace Svalinn.Base.LargePages

open Svalinn.Lib Function List

/-- A `struct lgpage_node` with the `PAGE_FLAG_IN_USE` bits of its table. -/
structure Node where
  idx : Nat
  pages : List Nat
  inUse : Nat → Bool

/-- What `mem_map_anom` and `mem_lookup_page_phys_addr` answer. -/
inductive Mapping where
  | mapFailed
  | lookupFailed
  | mapped
  deriving DecidableEq

/-- `lgpage_create`: the flag is set last, when both calls succeeded. -/
def lgpageCreate (n : Node) (pg : Nat) : Mapping → Node × Bool
  | .mapped => ({ n with inUse := update n.inUse pg true }, true)
  | .mapFailed | .lookupFailed => (n, false)

/-- The critical section of `lgpage_alloc_on_node`; `ents` is `LGPAGE_META_ENTS`. -/
def takeEntry (ents : Nat) (n : Node) : Option (Nat × Node) :=
  match n.pages with
  | pg :: rest => some (pg, { n with pages := rest })
  | [] => if ents ≤ n.idx then none else some (n.idx, { n with idx := n.idx + 1 })

def lgpageAllocOnNode (ents : Nat) (n : Node) (m : Mapping) : Node × Option Nat :=
  match takeEntry ents n with
  | none => (n, none)
  | some (pg, n) =>
    let (n, ok) := lgpageCreate n pg m
    (n, if ok then some pg else none)

def lgpageFree (n : Node) (pg : Nat) : Node :=
  { n with inUse := update n.inUse pg false, pages := pg :: n.pages }

inductive Call where
  | alloc (m : Mapping)
  | free (pg : Nat)
  deriving DecidableEq

/-- A caller frees a page it owns. -/
def step (ents : Nat) (n : Node) : Call → Option Node
  | .alloc m => some (lgpageAllocOnNode ents n m).1
  | .free pg => if n.inUse pg = true then some (lgpageFree n pg) else none

def init : Node where
  idx := 0
  pages := []
  inUse := fun _ => false

/-- Every entry below `idx` is in use or in the free list, and in the list once. -/
structure Accounted (ents : Nat) (n : Node) : Prop where
  nodup : n.pages.Nodup
  free_lt : ∀ i ∈ n.pages, i < n.idx
  used_lt : ∀ i, n.inUse i = true → i < n.idx
  le : n.idx ≤ ents
  used_iff : ∀ i < n.idx, n.inUse i = true ↔ i ∉ n.pages

section Steps

variable {ents : Nat} {n : Node}

theorem Accounted.init : Accounted ents init :=
  ⟨.nil, nofun, nofun, Nat.zero_le ents, nofun⟩

theorem alloc_reused {pg : Nat} {rest : List Nat} (hpages : n.pages = pg :: rest) :
    lgpageAllocOnNode ents n .mapped =
      ({ n with pages := rest, inUse := update n.inUse pg true }, some pg) := by
  simp [lgpageAllocOnNode, takeEntry, hpages, lgpageCreate]

theorem alloc_new (hpages : n.pages = []) (hidx : n.idx < ents) :
    lgpageAllocOnNode ents n .mapped =
      ({ n with idx := n.idx + 1, inUse := update n.inUse n.idx true }, some n.idx) := by
  simp [lgpageAllocOnNode, takeEntry, hpages, lgpageCreate, Nat.not_le.2 hidx]

theorem alloc_exhausted (hpages : n.pages = []) (hidx : ents ≤ n.idx) :
    lgpageAllocOnNode ents n .mapped = (n, none) := by
  simp [lgpageAllocOnNode, takeEntry, hpages, hidx]

/-- The entry taken is put to use: it is not in the list any more. -/
theorem Accounted.alloc (h : Accounted ents n) : Accounted ents (lgpageAllocOnNode ents n .mapped).1 := by
  obtain ⟨hnodup, hfree, hused, hle, hiff⟩ := h
  cases hpages : n.pages with
  | cons pg rest =>
    -- a freed entry comes back
    rw [alloc_reused hpages]
    rw [hpages] at hnodup hfree hiff
    obtain ⟨hnot, hrest⟩ := nodup_cons.1 hnodup
    have hpg := hfree pg mem_cons_self
    refine ⟨hrest, fun i hi => hfree i (mem_cons_of_mem pg hi), fun i hi => ?_, hle, fun i hi => ?_⟩
    all_goals
      simp only [update_apply, mem_cons] at hi hiff ⊢
      grind
  | nil =>
    -- a new entry, or the table is used up
    rcases Nat.lt_or_ge n.idx ents with hidx | hidx
    · rw [alloc_new hpages hidx]
      rw [hpages] at hiff
      refine ⟨hnodup, fun i hi => Nat.lt_succ_of_lt (hfree i hi), fun i hi => ?_, hidx, fun i hi => ?_⟩
      all_goals
        simp only [update_apply, hpages] at hi ⊢
        grind
    · rw [alloc_exhausted hpages hidx]
      exact ⟨hnodup, hfree, hused, hle, hiff⟩

theorem Accounted.free (h : Accounted ents n) {pg : Nat} (hpg : n.inUse pg = true) :
    Accounted ents (lgpageFree n pg) := by
  have hlt := h.used_lt pg hpg
  have hnot : pg ∉ n.pages := (h.used_iff pg hlt).1 hpg
  obtain ⟨hnodup, hfree, hused, hle, hiff⟩ := h
  refine ⟨nodup_cons.2 ⟨hnot, hnodup⟩, fun i hi => ?_, fun i hi => ?_, hle, fun i hi => ?_⟩
  all_goals
    simp only [lgpageFree, update_apply, mem_cons] at *
    grind

/-- While an entry is not in use there is one to take. -/
theorem Accounted.exists_entry (h : Accounted ents n) (hfree : ∃ i < ents, n.inUse i = false) :
    ∃ pg, (lgpageAllocOnNode ents n .mapped).2 = some pg := by
  cases hpages : n.pages with
  | cons pg rest => exact ⟨pg, by rw [alloc_reused hpages]⟩
  | nil =>
    have hidx : n.idx < ents := by
      obtain ⟨i, hi, hoff⟩ := hfree
      by_contra hge
      have hlt : i < n.idx := by omega
      simp [(h.used_iff i hlt).2 (by simp [hpages])] at hoff
    exact ⟨n.idx, by rw [alloc_new hpages hidx]⟩

end Steps

/-- The mapping of an entry that was taken does not fail. -/
def Mapped (_ : Node) (a : Call) : Prop := ∀ m, a = .alloc m → m = .mapped

/-- While no mapping fails, every entry below `idx` is in use or once in the free list, and
an allocation succeeds while fewer than `ents` pages are in use. -/
theorem lgpage_entries_accounted {ents : Nat} {n : Node} (hreach : Reaches (step ents) Mapped init n) :
    (∀ i < n.idx, (n.inUse i = true ∧ n.pages.count i = 0) ∨
        (n.inUse i = false ∧ n.pages.count i = 1)) ∧
      ((range ents).countP n.inUse < ents →
        ∃ pg, (lgpageAllocOnNode ents n .mapped).2 = some pg) := by
  have h : Accounted ents n := by
    refine hreach.invariant .init fun u a v hu hok hstep => ?_
    cases a with
    | alloc m =>
      obtain rfl := hok m rfl
      obtain rfl := Option.some.inj hstep
      exact hu.alloc
    | free pg =>
      obtain ⟨hpg, rfl⟩ := Option.ite_some_none_eq_some.1 hstep
      exact hu.free hpg
  constructor
  · intro i hi
    cases hused : n.inUse i with
    | true => exact .inl ⟨rfl, count_eq_zero.2 ((h.used_iff i hi).1 hused)⟩
    | false =>
      have hmem : i ∈ n.pages := by
        by_contra hnot
        simp [(h.used_iff i hi).2 hnot] at hused
      exact .inr ⟨rfl, count_eq_one_of_mem h.nodup hmem⟩
  · intro hcount
    refine h.exists_entry ?_
    by_contra hall
    have hevery : ∀ i ∈ range ents, n.inUse i = true := by
      intro i hi
      by_contra hoff
      exact hall ⟨i, mem_range.1 hi, by simpa using hoff⟩
    rw [countP_eq_length.2 hevery, length_range] at hcount
    exact absurd hcount (Nat.lt_irrefl ents)

theorem lgpage_entries_accounted_two : ∃ n, Reaches (step 2) Mapped init n ∧ n.pages = [0] ∧
    ∃ pg, (lgpageAllocOnNode 2 n .mapped).2 = some pg := by
  have hrun : ∃ n, Reaches (step 2) Mapped init n ∧ n.pages = [0] ∧
      (range 2).countP n.inUse < 2 := by
    refine ⟨_, ((Reaches.single (a := .alloc .mapped) ?_ rfl).tail (a := .alloc .mapped) ?_ rfl).tail
      (a := .free 0) ?_ rfl, by decide⟩
    all_goals simp [Mapped]
  obtain ⟨n, hreach, hpages, hcount⟩ := hrun
  exact ⟨n, hreach, hpages, (lgpage_entries_accounted hreach).2 hcount⟩

/-- Two failed mappings use up a table of two entries: no page is in use, mapping works
again, and the allocation fails. -/
theorem failed_mapping_loses_entry : ∃ n, Reaches (step 2) anyStep init n ∧
    (n.idx = 2 ∧ n.pages = [] ∧ (range 2).countP n.inUse = 0) ∧
      (lgpageAllocOnNode 2 n .mapped).2 = none :=
  exists_of_runActions [.alloc .mapFailed, .alloc .lookupFailed] (by decide)

end Svalinn.Base.LargePages
