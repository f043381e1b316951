/-
  Iokernel/Rss.lean --- the RSS tables the iokernel declares to the NIC.

  A directpath context has `nr_qs` receive queues, and the NIC spreads flows over the
  entries of a table whose size `u32_round_pow2` computes.  The macro is kept as the source
  composes it: `u32_log` and `u32_round_pow2` each take one off their argument.
-/
import Svalinn.Iokernel.FlowTable

set_option autoImplicit false

namespace Svalinn.Iokernel.Directpath

open Svalinn.Iokernel List

/-! ## The size of a table -/

/-- Subtraction in 32 bits. -/
def sub32 (a b : Nat) : Nat := (2 ^ 32 + a - b) % 2 ^ 32

/-- `__builtin_clz`, which is undefined at zero. -/
def builtinClz (x : Nat) : Option Nat := if x = 0 then none else some (31 - Nat.log2 x)

/-- `u32_log`. -/
def u32Log (val : Nat) : Option Nat := (builtinClz (sub32 val 1)).map (32 - ·)

/-- `u32_round_pow2`; a shift by the width of the type is undefined. -/
def u32RoundPow2 (val : Nat) : Option Nat :=
  match u32Log (sub32 val 1) with
  | none   => none
  | some l => if l < 32 then some (1 <<< l) else none

theorem u32Log_of_log2 {n x : Nat} (hx : sub32 n 1 = x) (hpos : x ≠ 0) (hlog : Nat.log2 x < 32) :
    u32Log n = some (Nat.log2 x + 1) := by
  have hsub : 32 - (31 - Nat.log2 x) = Nat.log2 x + 1 := by omega
  simp [u32Log, builtinClz, hx, hpos, hsub]

theorem u32RoundPow2_of_log {n l : Nat} (hlog : u32Log (sub32 n 1) = some l) (hl : l < 32) :
    u32RoundPow2 n = some (2 ^ l) := by
  unfold u32RoundPow2
  rw [hlog]
  exact (if_pos hl).trans (congrArg some (Nat.one_shiftLeft l))

/-- What the macro computes: the power of two above `n - 2`. -/
theorem u32RoundPow2_eq {n : Nat} (hn : 2 < n) (hlt : n ≤ ncpu) :
    u32RoundPow2 n = some (2 ^ (Nat.log2 (n - 2) + 1)) := by
  unfold ncpu at hlt
  have hsub : sub32 (sub32 n 1) 1 = n - 2 := by
    unfold sub32
    omega
  have hlog : Nat.log2 (n - 2) < 8 := (Nat.log2_lt (by omega)).2 (by omega)
  exact u32RoundPow2_of_log (u32Log_of_log2 hsub (by omega) (by omega)) (by omega)

/-- The size suffices unless the number of queues is one more than a power of two. -/
theorem le_pow_iff {n : Nat} (hn : 2 < n) :
    n ≤ 2 ^ (Nat.log2 (n - 2) + 1) ↔ ∀ k, n ≠ 2 ^ k + 1 := by
  constructor
  · rintro hle k rfl
    have hlog : Nat.log2 (2 ^ k + 1 - 2) < k := (Nat.log2_lt (by omega)).2 (by omega)
    have hpow : 2 ^ (Nat.log2 (2 ^ k + 1 - 2) + 1) ≤ 2 ^ k :=
      Nat.pow_le_pow_right (by decide) hlog
    omega
  · intro hpow
    have hlt : n - 2 < 2 ^ (Nat.log2 (n - 2) + 1) := Nat.lt_log2_self
    have hne := hpow (Nat.log2 (n - 2) + 1)
    omega

/-- For one or two queues the macro is undefined. -/
theorem u32RoundPow2_of_le_two {n : Nat} (hpos : 0 < n) (hle : n ≤ 2) : u32RoundPow2 n = none := by
  obtain rfl | rfl : n = 1 ∨ n = 2 := by omega
  · decide +kernel
  · decide +kernel

/-! ## The tables -/

/-- The queues whose bit is set in `active_rules`, in increasing order. -/
def activeQueues (nrQs : Nat) (active : Nat → Bool) : List Nat := (range nrQs).filter active

/-- The last loop of `command_rss_update`: entry `i` repeats entry `i - nr_qs`. -/
def fillExtra (nrQs : Nat) : Nat → List Nat → List Nat
  | 0, tbl => tbl
  | k + 1, tbl => fillExtra nrQs k (tbl ++ [tbl.getD (tbl.length - nrQs) 0])

/-- The queues whose numbers `command_rss_update` writes into the `nrEntries` entries it
declares. -/
def rssEntries (nrEntries nrQs : Nat) (active : Nat → Bool) : List Nat :=
  (fillExtra nrQs (nrEntries - nrQs)
    (steerRest (activeQueues nrQs active) 0 (range nrQs))).take nrEntries

/-- `command_rss_update`: the entries it declares, if their number is defined. -/
def commandRssUpdate (nrQs : Nat) (active : Nat → Bool) : Option (List Nat) :=
  (u32RoundPow2 nrQs).map fun nrEntries => rssEntries nrEntries nrQs active

/-- The entries of `create_rqt`. -/
def rqtEntries (noActiveRss : Bool) (nrEntries nrQs : Nat) : List Nat :=
  (range nrEntries).map fun i => if noActiveRss then i % nrQs else 0

/-- `create_rqt`. -/
def createRqt (noActiveRss : Bool) (nrQs : Nat) : Option (List Nat) :=
  (u32RoundPow2 nrQs).map fun nrEntries => rqtEntries noActiveRss nrEntries nrQs

/-- The queues that `create_cq` made active before the table is created. -/
def initialActive (noActiveRss : Bool) (q : Nat) : Bool := noActiveRss || q == 0

section Entries

variable {nrQs nrEntries : Nat} {active : Nat → Bool}

theorem mem_activeQueues (q : Nat) :
    q ∈ activeQueues nrQs active ↔ q < nrQs ∧ active q = true := by
  simp [activeQueues]

theorem length_fillExtra (k : Nat) (tbl : List Nat) :
    (fillExtra nrQs k tbl).length = tbl.length + k := by
  induction k generalizing tbl with
  | zero => rfl
  | succ k ih => simp [fillExtra, ih, Nat.add_assoc, Nat.add_comm 1 k]

theorem fillExtra_extends (k : Nat) (tbl : List Nat) :
    ∃ more, fillExtra nrQs k tbl = tbl ++ more := by
  induction k generalizing tbl with
  | zero => exact ⟨[], by simp [fillExtra]⟩
  | succ k ih =>
    obtain ⟨more, h⟩ := ih (tbl ++ [tbl.getD (tbl.length - nrQs) 0])
    exact ⟨_, by rw [fillExtra, h, append_assoc]⟩

/-- The last loop names no other queue. -/
theorem mem_fillExtra {q : Nat} (hpos : 0 < nrQs) (k : Nat) {tbl : List Nat} (hne : tbl ≠ [])
    (hq : q ∈ fillExtra nrQs k tbl) : q ∈ tbl := by
  induction k generalizing tbl with
  | zero => exact hq
  | succ k ih =>
    have hlt : tbl.length - nrQs < tbl.length := by
      have := length_pos_iff.2 hne
      omega
    have hin := ih (by simp) hq
    rw [getD_eq_getElem?_getD, getElem?_eq_getElem hlt, Option.getD_some, mem_append,
      mem_singleton] at hin
    obtain hin | rfl := hin
    · exact hin
    · exact getElem_mem hlt

theorem mem_of_mem_rssEntries {q : Nat} (hne : activeQueues nrQs active ≠ [])
    (hq : q ∈ rssEntries nrEntries nrQs active) : q < nrQs ∧ active q = true := by
  have hpos : 0 < nrQs := by
    obtain ⟨i, hi⟩ := exists_mem_of_ne_nil _ hne
    exact Nat.zero_lt_of_lt ((mem_activeQueues i).1 hi).1
  have htbl : steerRest (activeQueues nrQs active) 0 (range nrQs) ≠ [] :=
    ne_nil_of_length_pos (by simpa using hpos)
  have hfill := mem_fillExtra hpos _ htbl (mem_of_mem_take hq)
  exact (mem_activeQueues q).1 (mem_of_mem_steerRest hne _ hfill)

theorem mem_rssEntries {q : Nat} (hle : nrQs ≤ nrEntries) (hq : q < nrQs)
    (hactive : active q = true) : q ∈ rssEntries nrEntries nrQs active := by
  have hin : q ∈ activeQueues nrQs active := (mem_activeQueues q).2 ⟨hq, hactive⟩
  have hown := steerRest_own hin (range nrQs) (j := 0) (k := q) (by simp [hq])
  obtain ⟨more, hmore⟩ : ∃ more, fillExtra nrQs (nrEntries - nrQs) _ = _ ++ more :=
    fillExtra_extends _ (steerRest (activeQueues nrQs active) 0 (range nrQs))
  refine mem_iff_getElem?.2 ⟨q, ?_⟩
  rw [rssEntries, getElem?_take_of_lt (by omega), hmore,
    getElem?_append_left (by simpa using hq), hown]

theorem length_rssEntries (hle : nrQs ≤ nrEntries) :
    (rssEntries nrEntries nrQs active).length = nrEntries := by
  rw [rssEntries, length_take, length_fillExtra, length_steerRest, length_range]
  omega

theorem mem_of_mem_rqtEntries {noActiveRss : Bool} (hpos : 0 < nrQs) {q : Nat}
    (hq : q ∈ rqtEntries noActiveRss nrEntries nrQs) :
    q < nrQs ∧ initialActive noActiveRss q = true := by
  obtain ⟨i, -, rfl⟩ := mem_map.1 hq
  cases noActiveRss with
  | false => exact ⟨hpos, rfl⟩
  | true => exact ⟨Nat.mod_lt i hpos, rfl⟩

theorem mem_rqtEntries {noActiveRss : Bool} (hle : nrQs ≤ nrEntries) {q : Nat} (hq : q < nrQs)
    (hactive : initialActive noActiveRss q = true) : q ∈ rqtEntries noActiveRss nrEntries nrQs := by
  refine mem_map.2 ⟨q, mem_range.2 (by omega), ?_⟩
  cases noActiveRss with
  | false =>
    obtain rfl : q = 0 := by simpa [initialActive] using hactive
    rfl
  | true => exact Nat.mod_eq_of_lt hq

end Entries

/-- The declared entries are a power of two not smaller than the number of queues, and they name
exactly the active queues: those of `active` once the table is updated, and those `create_cq`
made active when it is created. -/
def TablesReach (n : Nat) (active : Nat → Bool) (noActiveRss : Bool) : Prop :=
  ∃ k update initial, n ≤ 2 ^ k ∧ commandRssUpdate n active = some update ∧
    update.length = 2 ^ k ∧ (∀ q, q ∈ update ↔ q < n ∧ active q = true) ∧
    createRqt noActiveRss n = some initial ∧ initial.length = 2 ^ k ∧
    ∀ q, q ∈ initial ↔ q < n ∧ initialActive noActiveRss q = true

/-- The number of entries is what the macro computes, so a table that reaches all queues has
enough of them. -/
theorem TablesReach.le_size {n : Nat} {active : Nat → Bool} {noActiveRss : Bool}
    (h : TablesReach n active noActiveRss) : ∃ size, u32RoundPow2 n = some size ∧ n ≤ size := by
  obtain ⟨k, update, initial, hle, -, -, -, hcreate, hlength, -⟩ := h
  obtain ⟨size, hsize, rfl⟩ := Option.map_eq_some_iff.1 hcreate
  rw [rqtEntries, length_map, length_range] at hlength
  exact ⟨size, hsize, hlength ▸ hle⟩

/-- The tables reach exactly the active queues if and only if the number of queues is neither
one nor one more than a power of two. -/
theorem rss_tables_reach_active {n : Nat} (hpos : 0 < n) (hle : n ≤ ncpu) {active : Nat → Bool}
    (hactive : ∃ q < n, active q = true) (noActiveRss : Bool) :
    TablesReach n active noActiveRss ↔ n ≠ 1 ∧ ∀ k, n ≠ 2 ^ k + 1 := by
  constructor
  · intro h
    obtain ⟨size, hsize, hfits⟩ := h.le_size
    have htwo : 2 < n := by
      by_contra hsmall
      rw [u32RoundPow2_of_le_two hpos (by omega)] at hsize
      cases hsize
    rw [u32RoundPow2_eq htwo hle] at hsize
    exact ⟨by omega, (le_pow_iff htwo).1 (Option.some.inj hsize ▸ hfits)⟩
  · rintro ⟨hone, hpow⟩
    have htwo : 2 < n := by
      have := hpow 0
      omega
    have hsize := (le_pow_iff htwo).2 hpow
    have hne : activeQueues n active ≠ [] := by
      obtain ⟨q, hq⟩ := hactive
      exact ne_nil_of_mem ((mem_activeQueues q).2 hq)
    exact ⟨_, _, _, hsize, by rw [commandRssUpdate, u32RoundPow2_eq htwo hle, Option.map_some],
      length_rssEntries hsize,
      fun q => ⟨mem_of_mem_rssEntries hne, fun h => mem_rssEntries hsize h.1 h.2⟩,
      by rw [createRqt, u32RoundPow2_eq htwo hle, Option.map_some], by simp [rqtEntries],
      fun q => ⟨mem_of_mem_rqtEntries hpos, fun h => mem_rqtEntries hsize h.1 h.2⟩⟩

/-- Six queues, of which queue 1 is not active. -/
theorem rss_tables_reach_active_six :
    commandRssUpdate 6 (· ≠ 1) = some [0, 0, 2, 3, 4, 5, 0, 0] ∧
      TablesReach 6 (fun q => decide (q ≠ 1)) true := by
  refine ⟨by decide +kernel, (rss_tables_reach_active (by decide) (by decide)
    ⟨0, by decide⟩ true).2 ⟨by decide, fun k => ?_⟩⟩
  cases k with
  | zero => decide
  | succ k =>
    rw [Nat.pow_succ]
    omega

/-- With three queues the table has two entries: the third queue is active and in none. -/
theorem third_queue_left_out : commandRssUpdate 3 (fun _ => true) = some [0, 1] ∧
    createRqt true 3 = some [0, 1] ∧ u32RoundPow2 1 = none ∧ u32RoundPow2 2 = none := by
  decide +kernel

end Svalinn.Iokernel.Directpath
