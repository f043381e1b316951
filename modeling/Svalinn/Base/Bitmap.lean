/-
  Base/Bitmap.lean --- searching a bitmap and iterating over it.

  Source: `base/bitmap.c` (`bitmap_find_next` and its two callers), `inc/base/bitmap.h`
  (`bitmap_set`, `bitmap_clear`, the two `bitmap_for_each` loops).

  The search looks at whole words: the first one is masked below the start, and a bit found
  behind the end is cut off by a minimum.  Its index is an `int`.  In a bitmap whose last word
  ends at `2 ^ 31` a search that finds nothing in that word makes the index negative, and the
  next word is then read far outside.
-/
import Mathlib.Algebra.Group.Nat.Defs
import Mathlib.Data.List.Basic

set_option autoImplicit false

namespace Svalinn.Base.Bitmap

open Function List

/-- The words of a bitmap. -/
abbrev Words : Type := Nat → BitVec 64

/-- `bitmap_test`. -/
def isSet (bits : Words) (pos : Nat) : Bool := (bits (pos / 64)).getLsbD (pos % 64)

/-- `bitmap_set`. -/
def bitmapSet (bits : Words) (pos : Nat) : Words :=
  update bits (pos / 64) (bits (pos / 64) ||| 1#64 <<< (pos % 64))

/-- `bitmap_clear`. -/
def bitmapClear (bits : Words) (pos : Nat) : Words :=
  update bits (pos / 64) (bits (pos / 64) &&& ~~~(1#64 <<< (pos % 64)))

/-- `__builtin_ffsl`: one more than the position of the lowest bit, or zero. -/
def builtinFfsl (val : BitVec 64) : Nat :=
  match (range 64).find? val.getLsbD with
  | some i => i + 1
  | none   => 0

/-- The loop of `bitmap_find_next`. -/
def findNextLoop (bits : Words) (nbits : Nat) (invert : Bool) (idx : Nat) (mask : BitVec 64) :
    Option Nat :=
  if idx < nbits then
    let val := (if invert then ~~~bits (idx / 64) else bits (idx / 64)) &&& mask
    if val ≠ 0 then some (min (idx + builtinFfsl val - 1) nbits)
    -- `idx` wraps to a negative number, and the word it stands for is not in the bitmap
    else if 2 ^ 31 ≤ idx + 64 then none
    else findNextLoop bits nbits invert (idx + 64) (BitVec.allOnes 64)
  else some nbits
termination_by nbits - idx

/-- `bitmap_find_next`. -/
def bitmapFindNext (bits : Words) (nbits pos : Nat) (invert : Bool) : Option Nat :=
  findNextLoop bits nbits invert (pos - pos % 64) (~~~((1#64 <<< (pos % 64)) - 1))

/-- `bitmap_find_next_cleared`. -/
def bitmapFindNextCleared (bits : Words) (nbits pos : Nat) : Option Nat :=
  bitmapFindNext bits nbits pos true

/-- `bitmap_find_next_set`. -/
def bitmapFindNextSet (bits : Words) (nbits pos : Nat) : Option Nat :=
  bitmapFindNext bits nbits pos false

/-- The loop both macros write, with the positions it visits.  `fuel` is the number of
searches it may make. -/
def forEach (find : Words → Nat → Nat → Option Nat) (nbits : Nat) (body : Words → Nat → Words) :
    Nat → Words → Nat → Option (List Nat)
  | 0, _, _ => none
  | fuel + 1, bits, next =>
    match find bits nbits next with
    | none => none
    | some pos =>
      if pos < nbits then (forEach find nbits body fuel (body bits pos) (pos + 1)).map (pos :: ·)
      else some []

/-- `bitmap_for_each_set`: no search returns a position twice, so `nbits + 1` are enough. -/
def bitmapForEachSet (bits : Words) (nbits : Nat) (body : Words → Nat → Words) :
    Option (List Nat) :=
  forEach bitmapFindNextSet nbits body (nbits + 1) bits 0

/-- `bitmap_for_each_cleared`. -/
def bitmapForEachCleared (bits : Words) (nbits : Nat) (body : Words → Nat → Words) :
    Option (List Nat) :=
  forEach bitmapFindNextCleared nbits body (nbits + 1) bits 0

/-! ## Searching -/

/-- `r` is the least position from `lo` on that is below `n` and has `p`, or `n` if there is
none. -/
structure IsNext (p : Nat → Bool) (n lo r : Nat) : Prop where
  le : r ≤ n
  found : r < n → lo ≤ r ∧ p r = true
  least : ∀ i, lo ≤ i → i < r → p i = false

/-- A search from `pos` on ends inside the bitmap: the index behind the last word is an `int`, or
there is a bit with `p` up to the end of the last word. -/
def Stops (p : Nat → Bool) (nbits pos : Nat) : Prop :=
  nbits ≤ 2 ^ 31 - 64 ∨ ∃ i, pos ≤ i ∧ i < 2 ^ 31 ∧ p i = true

/-- What a search from `pos` on returns: the next position, or none if it leaves the bitmap. -/
inductive Search (p : Nat → Bool) (nbits pos : Nat) : Option Nat → Prop
  | ends {r : Nat} (stops : Stops p nbits pos) (next : IsNext p nbits pos r) :
      Search p nbits pos (some r)
  | leaves (runs : ¬ Stops p nbits pos) : Search p nbits pos none

theorem Search.exact_iff {p : Nat → Bool} {nbits pos : Nat} {found : Option Nat}
    (h : Search p nbits pos found) :
    (∃ r, found = some r ∧ IsNext p nbits pos r) ↔ Stops p nbits pos := by
  cases h with
  | ends stops next => exact iff_of_true ⟨_, rfl, next⟩ stops
  | leaves runs => exact iff_of_false (fun ⟨_, hr, _⟩ => absurd hr nofun) runs

section Search

variable {bits : Words} {nbits : Nat} {invert : Bool}

theorem builtinFfsl_spec {val : BitVec 64} (hne : val ≠ 0) :
    ∃ i < 64, builtinFfsl val = i + 1 ∧ val.getLsbD i = true ∧ ∀ j < i, val.getLsbD j = false := by
  unfold builtinFfsl
  cases hfind : (range 64).find? val.getLsbD with
  | none =>
    refine absurd (BitVec.eq_of_getLsbD_eq fun j hj => ?_) hne
    simpa using find?_range_eq_none.1 hfind j hj
  | some i =>
    obtain ⟨hi, hmem, hbelow⟩ := find?_range_eq_some.1 hfind
    exact ⟨i, mem_range.1 hmem, rfl, hi, by simpa using hbelow⟩

/-- The mask of the first word hides the bits below `k`. -/
theorem getLsbD_mask {k j : Nat} (hk : k < 64) (hj : j < 64) :
    (~~~((1#64 <<< k) - 1)).getLsbD j = decide (k ≤ j) := by
  have hpow : 2 ^ k < 2 ^ 64 := Nat.pow_lt_pow_right (by decide) hk
  have hshift : (1#64 <<< k).toNat = 2 ^ k := by
    rw [BitVec.toNat_shiftLeft, Nat.shiftLeft_eq, show (1#64).toNat = 1 from rfl, Nat.one_mul,
      Nat.mod_eq_of_lt hpow]
  have hmask : ((1#64 <<< k) - 1).toNat = 2 ^ k - 1 := by
    rw [BitVec.toNat_sub_of_le (by rw [BitVec.le_def, hshift]; exact Nat.one_le_two_pow), hshift]
    rfl
  rw [BitVec.getLsbD_not, BitVec.getLsbD, hmask, Nat.testBit_two_pow_sub_one]
  by_cases hkj : k ≤ j
  · simp [hj, hkj]
  · simp [hj, hkj, Nat.lt_of_not_le hkj]

/-- What the loop looks at in the word of `idx`. -/
theorem getLsbD_val {idx lo j : Nat} {mask : BitVec 64} (haligned : idx % 64 = 0) (hj : j < 64)
    (hmask : mask.getLsbD j = decide (lo ≤ idx + j)) :
    ((if invert then ~~~bits (idx / 64) else bits (idx / 64)) &&& mask).getLsbD j =
      ((isSet bits (idx + j) ^^ invert) && decide (lo ≤ idx + j)) := by
  have hdiv : (idx + j) / 64 = idx / 64 := by omega
  have hmod : (idx + j) % 64 = j := by omega
  rw [BitVec.getLsbD_and, hmask, isSet, hdiv, hmod]
  cases invert with
  | true => simp [hj]
  | false => simp

/-- The loop at the word of `idx`: everything from `lo` up to there was looked at, and the mask
hides what lies below `lo`. -/
theorem findNextLoop_spec {lo idx : Nat} {mask : BitVec 64} (haligned : idx % 64 = 0)
    (hlo : lo ≤ idx + 64) (hidx : idx + 64 ≤ 2 ^ 31)
    (hmask : ∀ j < 64, mask.getLsbD j = decide (lo ≤ idx + j))
    (hseen : ∀ i, lo ≤ i → i < idx → (isSet bits i ^^ invert) = false) :
    Search (fun i => isSet bits i ^^ invert) nbits lo
      (findNextLoop bits nbits invert idx mask) := by
  fun_induction findNextLoop bits nbits invert idx mask with
  | case1 idx mask hlt val hne =>
    have hval : ∀ j < 64,
        val.getLsbD j = ((isSet bits (idx + j) ^^ invert) && decide (lo ≤ idx + j)) :=
      fun j hj => getLsbD_val haligned hj (hmask j hj)
    obtain ⟨i, hi, hffs, hbit, hbelow⟩ := builtinFfsl_spec hne
    have hfound : (isSet bits (idx + i) ^^ invert) = true ∧ lo ≤ idx + i := by
      simpa using (hval i hi).symm.trans hbit
    refine .ends (.inr ⟨idx + i, hfound.2, by omega, hfound.1⟩)
      ⟨Nat.min_le_right _ _, fun hr => ?_, fun k hk hkr => ?_⟩
    · have hpos : min (idx + builtinFfsl val - 1) nbits = idx + i := by omega
      rw [hpos]
      exact hfound.symm
    · by_cases hki : k < idx
      · exact hseen k hk hki
      · obtain ⟨j, rfl⟩ := Nat.exists_eq_add_of_le (Nat.le_of_not_lt hki)
        simpa [hk] using (hval j (by omega)).symm.trans (hbelow j (by omega))
  | case2 idx mask hlt val hzero hwrap =>
    have hnone : val = 0 := by simpa using hzero
    refine .leaves ?_
    rintro (hsmall | ⟨k, hk, hkend, hbit⟩)
    · omega
    · by_cases hkidx : k < idx
      · exact absurd ((hseen k hk hkidx).symm.trans hbit) Bool.false_ne_true
      · obtain ⟨j, rfl⟩ := Nat.exists_eq_add_of_le (Nat.le_of_not_lt hkidx)
        have hval : val.getLsbD j = _ := getLsbD_val haligned (by omega) (hmask j (by omega))
        exact absurd hbit (by simpa [hk, hnone] using hval.symm)
  | case3 idx mask hlt val hzero hwrap ih =>
    have hnone : val = 0 := by simpa using hzero
    refine ih (by omega) (by omega) (by omega) (fun j hj => ?_) fun k hk hki => ?_
    · rw [BitVec.getLsbD_allOnes, decide_eq_true hj, decide_eq_true (by omega)]
    · by_cases hkidx : k < idx
      · exact hseen k hk hkidx
      · obtain ⟨j, rfl⟩ := Nat.exists_eq_add_of_le (Nat.le_of_not_lt hkidx)
        have hval : val.getLsbD j = _ := getLsbD_val haligned (by omega) (hmask j (by omega))
        simpa [hk, hnone] using hval.symm
  | case4 idx mask hge =>
    exact .ends (.inl (by omega)) ⟨Nat.le_refl nbits, fun h => absurd h (Nat.lt_irrefl nbits),
      fun k hk hkn => hseen k hk (by omega)⟩

theorem bitmapFindNext_spec {pos : Nat} (hpos : pos < 2 ^ 31) :
    Search (fun i => isSet bits i ^^ invert) nbits pos (bitmapFindNext bits nbits pos invert) := by
  have hmod := Nat.mod_lt pos (show 0 < 64 by decide)
  have hle := Nat.mod_le pos 64
  refine findNextLoop_spec (by omega) (by omega) (by omega) (fun j hj => ?_)
    fun i hi hlt => by omega
  rw [getLsbD_mask hmod hj]
  exact decide_eq_decide.2 (by omega)

end Search

/-! ## Iterating -/

section Iterate

variable {n : Nat} {bits : Words}

/-- The positions with `p` from `lo` on are the next one and those behind it. -/
theorem IsNext.filter_eq {p : Nat → Bool} {lo r : Nat} (h : IsNext p n lo r) :
    (range' lo (n - lo)).filter p =
      if r < n then r :: (range' (r + 1) (n - (r + 1))).filter p else [] := by
  split
  · rename_i hr
    obtain ⟨hlo, hp⟩ := h.found hr
    have hsplit : range' lo (n - lo) = range' lo (r - lo) ++ r :: range' (r + 1) (n - (r + 1)) := by
      rw [← range'_succ, show n - (r + 1) + 1 = n - r by omega]
      have happend := range'_append_1 (s := lo) (m := r - lo) (n := n - r)
      rw [Nat.add_sub_cancel' hlo] at happend
      rw [happend, show r - lo + (n - r) = n - lo by omega]
    have hbefore : (range' lo (r - lo)).filter p = [] := by
      refine filter_eq_nil_iff.2 fun i hi => ?_
      have hi := mem_range'_1.1 hi
      simp [h.least i hi.1 (by omega)]
    rw [hsplit, filter_append, hbefore, nil_append, filter_cons_of_pos hp]
  · rename_i hr
    have hle := h.le
    refine filter_eq_nil_iff.2 fun i hi => ?_
    have hi := mem_range'_1.1 hi
    simp [h.least i hi.1 (by omega)]

section Loop

variable {find : Words → Nat → Nat → Option Nat} {body : Words → Nat → Words}
  {q : Words → Nat → Bool}

/-- A body that leaves the bits behind its position alone does not change what the last search
finds. -/
theorem stops_body (hbody : ∀ bits pos i, pos < i → q (body bits pos) i = q bits i) {pos : Nat}
    (hpos : pos < n) : Stops (q (body bits pos)) n n ↔ Stops (q bits) n n := by
  refine or_congr_right (exists_congr fun i => and_congr_right fun hi => ?_)
  rw [hbody bits pos i (by omega)]

/-- Such a loop visits the positions that had the bit when it began, or leaves the bitmap: the
search that ends it starts behind the last of them. -/
theorem forEach_spec (hn : n < 2 ^ 31)
    (hfind : ∀ bits next, next < 2 ^ 31 → Search (q bits) n next (find bits n next))
    (hbody : ∀ bits pos i, pos < i → q (body bits pos) i = q bits i) (fuel next : Nat)
    (hfuel : n - next < fuel) (hnext : next ≤ n) :
    (Stops (q bits) n n ∧
      forEach find n body fuel bits next = some ((range' next (n - next)).filter (q bits))) ∨
    (¬ Stops (q bits) n n ∧ forEach find n body fuel bits next = none) := by
  induction fuel generalizing bits next with
  | zero => omega
  | succ fuel ih =>
    have hsearch := hfind bits next (by omega)
    rw [forEach]
    generalize find bits n next = found at hsearch
    cases hsearch with
    | leaves hruns =>
      refine .inr ⟨fun h => hruns (h.imp_right ?_), rfl⟩
      exact fun ⟨i, hi, hbit⟩ => ⟨i, Nat.le_trans hnext hi, hbit⟩
    | @ends r hstops hisNext =>
      rw [hisNext.filter_eq]
      dsimp only
      split
      · rename_i hlt
        have hlo := (hisNext.found hlt).1
        have hrest : (range' (r + 1) (n - (r + 1))).filter (q (body bits r)) =
            (range' (r + 1) (n - (r + 1))).filter (q bits) :=
          filter_congr fun i hi => hbody bits r i (mem_range'_1.1 hi).1
        have hloop := @ih (body bits r) (r + 1) (by omega) (by omega)
        rw [stops_body hbody hlt, hrest] at hloop
        rcases hloop with ⟨hstops, hloop⟩ | ⟨hruns, hloop⟩
        · exact .inl ⟨hstops, by rw [hloop, Option.map_some]⟩
        · exact .inr ⟨hruns, by rw [hloop, Option.map_none]⟩
      · -- a bit that was found lies behind the end
        rename_i hend
        refine .inl ⟨hstops.imp_right fun ⟨i, hi, hmax, hq⟩ => ⟨i, ?_, hmax, hq⟩, rfl⟩
        by_contra hin
        exact absurd ((hisNext.least i hi (by omega)).symm.trans hq) Bool.false_ne_true

theorem forEach_iff (hn : n < 2 ^ 31)
    (hfind : ∀ bits next, next < 2 ^ 31 → Search (q bits) n next (find bits n next))
    (hbody : ∀ bits pos i, pos < i → q (body bits pos) i = q bits i) (bits : Words) :
    forEach find n body (n + 1) bits 0 = some ((range n).filter (q bits)) ↔
      Stops (q bits) n n := by
  rw [range_eq_range']
  rcases forEach_spec hn hfind hbody (n + 1) 0 (by omega) (Nat.zero_le n) with
    ⟨hstops, hloop⟩ | ⟨hruns, hloop⟩
  · exact iff_of_true hloop hstops
  · exact iff_of_false (fun h => absurd (hloop.symm.trans h) nofun) hruns

end Loop

/-- A word that keeps its other bits. -/
theorem isSet_update {pos i : Nat} {w : BitVec 64} (hne : i ≠ pos)
    (hw : ∀ j < 64, j ≠ pos % 64 → w.getLsbD j = (bits (pos / 64)).getLsbD j) :
    isSet (update bits (pos / 64) w) i = isSet bits i := by
  unfold isSet
  by_cases hword : i / 64 = pos / 64
  · rw [hword, update_self, hw _ (by omega) (by omega)]
  · rw [update_of_ne hword]

theorem isSet_bitmapClear {pos i : Nat} (hne : i ≠ pos) :
    isSet (bitmapClear bits pos) i = isSet bits i := by
  refine isSet_update hne fun j hj hjp => ?_
  rw [← BitVec.twoPow_eq]
  simp [hj, hjp]

theorem isSet_bitmapSet {pos i : Nat} (hne : i ≠ pos) :
    isSet (bitmapSet bits pos) i = isSet bits i := by
  refine isSet_update hne fun j hj hjp => ?_
  rw [← BitVec.twoPow_eq]
  simp [hjp.symm]

end Iterate

/-- Both searches return the least position from the start on, and both loops visit exactly the
positions that had the bit when they began, in increasing order, whichever of them the body
changes, if and only if the search, or the last search of the loop, ends inside the bitmap. -/
theorem bitmap_iteration_exact {nbits : Nat} (hn : nbits < 2 ^ 31) (bits : Words) :
    (∀ pos < 2 ^ 31, (∃ r, bitmapFindNextSet bits nbits pos = some r ∧
      IsNext (isSet bits) nbits pos r) ↔ Stops (isSet bits) nbits pos) ∧
    (∀ pos < 2 ^ 31, (∃ r, bitmapFindNextCleared bits nbits pos = some r ∧
      IsNext (fun i => !isSet bits i) nbits pos r) ↔ Stops (fun i => !isSet bits i) nbits pos) ∧
    (∀ clears : Nat → Bool,
      bitmapForEachSet bits nbits (fun b pos => if clears pos then bitmapClear b pos else b) =
        some ((range nbits).filter (isSet bits)) ↔ Stops (isSet bits) nbits nbits) ∧
    ∀ sets : Nat → Bool,
      bitmapForEachCleared bits nbits (fun b pos => if sets pos then bitmapSet b pos else b) =
        some ((range nbits).filter fun i => !isSet bits i) ↔
        Stops (fun i => !isSet bits i) nbits nbits := by
  have hset : ∀ b pos, pos < 2 ^ 31 →
      Search (isSet b) nbits pos (bitmapFindNextSet b nbits pos) := by
    intro b pos hpos
    have hsearch := @bitmapFindNext_spec b nbits false pos hpos
    simp only [Bool.xor_false] at hsearch
    exact hsearch
  have hcleared : ∀ b pos, pos < 2 ^ 31 →
      Search (fun i => !isSet b i) nbits pos (bitmapFindNextCleared b nbits pos) := by
    intro b pos hpos
    have hsearch := @bitmapFindNext_spec b nbits true pos hpos
    simp only [Bool.xor_true] at hsearch
    exact hsearch
  refine ⟨fun pos hpos => (hset bits pos hpos).exact_iff,
    fun pos hpos => (hcleared bits pos hpos).exact_iff,
    fun clears => forEach_iff hn hset (fun b pos i hi => ?_) bits,
    fun sets => forEach_iff hn hcleared (fun b pos i hi => ?_) bits⟩
  · split
    · exact isSet_bitmapClear (Nat.ne_of_gt hi)
    · rfl
  · split
    · rw [isSet_bitmapSet (Nat.ne_of_gt hi)]
    · rfl

/-- The bits behind the end are set, too, and each bit is cleared when it is visited. -/
theorem bitmap_iteration_sixtySix :
    bitmapForEachSet (fun _ => 5#64) 66 (fun b pos => if true then bitmapClear b pos else b) =
      some [0, 2, 64] :=
  (((bitmap_iteration_exact (by decide) _).2.2.1 fun _ => true).2 (.inl (by decide))).trans
    (by decide)

/-- The search starts in the last word of a bitmap of `2 ^ 31 - 1` cleared bits. -/
theorem search_leaves_bitmap :
    bitmapFindNextSet (fun _ => 0) (2 ^ 31 - 1) (2 ^ 31 - 64) = none := by
  rw [bitmapFindNextSet, bitmapFindNext, findNextLoop]
  simp

end Svalinn.Base.Bitmap
