/-
  Lib/Bytes.lean --- little-endian fields, slices, and streams cut into chunks.

  A stream is received as a list of non-empty chunks.  `readSome` takes what the
  first chunk has, up to the length asked for; `readExactly` repeats it.  The two
  specification lemmas say that how the stream was cut does not show: the bytes
  read are the first ones of the concatenation, and the read is stuck exactly
  when there are too few.
-/
import Mathlib.Data.List.Basic
import Mathlib.Tactic.Ring

set_option autoImplicit false

namespace Svalinn.Lib

/-! ## Little-endian fields -/

/-- The `n` low bytes of `x`, least significant first. -/
def leBytes : Nat → Nat → List UInt8
  | 0, _ => []
  | n + 1, x => UInt8.ofNat (x % 256) :: leBytes n (x / 256)

def leValue : List UInt8 → Nat
  | [] => 0
  | b :: bs => b.toNat + 256 * leValue bs

@[simp] theorem length_leBytes (n x : Nat) : (leBytes n x).length = n := by
  induction n generalizing x with
  | zero => rfl
  | succ n ih => simp [leBytes, ih]

theorem leValue_leBytes (n x : Nat) : leValue (leBytes n x) = x % 256 ^ n := by
  induction n generalizing x with
  | zero => simp [leBytes, leValue, Nat.mod_one]
  | succ n ih =>
    have hbyte : (UInt8.ofNat (x % 256)).toNat = x % 256 := by
      rw [UInt8.toNat_ofNat']
      exact Nat.mod_mod x 256
    rw [leBytes, leValue, ih, hbyte, Nat.pow_succ, Nat.mul_comm (256 ^ n) 256, Nat.mod_mul]

theorem leValue_leBytes_of_lt {n x : Nat} (h : x < 256 ^ n) : leValue (leBytes n x) = x := by
  rw [leValue_leBytes, Nat.mod_eq_of_lt h]

theorem leValue_take_add_drop (n : Nat) (bs : List UInt8) :
    leValue (bs.take n) + 256 ^ n * leValue (bs.drop n) = leValue bs := by
  induction n generalizing bs with
  | zero => simp [leValue]
  | succ n ih =>
    cases bs with
    | nil => simp [leValue]
    | cons b rest =>
      rw [List.take_succ_cons, List.drop_succ_cons, leValue, leValue, ← ih rest]
      ring

theorem leValue_lt (bs : List UInt8) : leValue bs < 256 ^ bs.length := by
  induction bs with
  | nil => decide
  | cons b rest ih =>
    have hb := b.toNat_lt
    rw [leValue, List.length_cons, Nat.pow_succ]
    omega

theorem take_leBytes_append (n x : Nat) (r : List UInt8) :
    (leBytes n x ++ r).take n = leBytes n x := by
  rw [List.take_left' (length_leBytes n x)]

theorem drop_leBytes_append (n x : Nat) (r : List UInt8) : (leBytes n x ++ r).drop n = r := by
  rw [List.drop_left' (length_leBytes n x)]

/-! ## Big-endian fields at an offset -/

def byteAt (bs : List UInt8) (i : Nat) : UInt8 := bs.getD i 0

def be16At (bs : List UInt8) (i : Nat) : Nat :=
  256 * (byteAt bs i).toNat + (byteAt bs (i + 1)).toNat

def be32At (bs : List UInt8) (i : Nat) : Nat := 65536 * be16At bs i + be16At bs (i + 2)

theorem be16At_lt (bs : List UInt8) (i : Nat) : be16At bs i < 65536 := by
  have h₁ := (byteAt bs i).toNat_lt
  have h₂ := (byteAt bs (i + 1)).toNat_lt
  unfold be16At
  omega

theorem byteAt_append_left {a : List UInt8} (b : List UInt8) {i : Nat} (h : i < a.length) :
    byteAt (a ++ b) i = byteAt a i := by
  unfold byteAt
  rw [List.getD_eq_getElem?_getD, List.getD_eq_getElem?_getD, List.getElem?_append_left h]

theorem byteAt_append_right (a b : List UInt8) (i : Nat) :
    byteAt (a ++ b) (a.length + i) = byteAt b i := by
  unfold byteAt
  rw [List.getD_eq_getElem?_getD, List.getD_eq_getElem?_getD,
    List.getElem?_append_right (Nat.le_add_right _ _), Nat.add_sub_cancel_left]

theorem be16At_append_right (a b : List UInt8) (i : Nat) :
    be16At (a ++ b) (a.length + i) = be16At b i := by
  rw [be16At, be16At, byteAt_append_right, Nat.add_assoc, byteAt_append_right]

def be16Bytes (x : Nat) : List UInt8 := [UInt8.ofNat (x / 256), UInt8.ofNat x]

def be32Bytes (x : Nat) : List UInt8 := be16Bytes (x / 65536) ++ be16Bytes x

theorem be16Bytes_value (x : Nat) :
    256 * (UInt8.ofNat (x / 256)).toNat + (UInt8.ofNat x).toNat = x % 65536 := by
  rw [UInt8.toNat_ofNat', UInt8.toNat_ofNat']
  omega

/-! ## Slices -/

section Slices

variable {α : Type} (l : List α)

/-- The elements from position `a` up to position `e`. -/
def slice (a e : Nat) : List α := (l.take e).drop a

theorem length_slice (a e : Nat) : (slice l a e).length = min e l.length - a := by
  rw [slice, List.length_drop, List.length_take]

theorem drop_slice (a e k : Nat) : (slice l a e).drop k = slice l (a + k) e := by
  rw [slice, slice, List.drop_drop]

theorem take_slice {a e k : Nat} (h : a + k ≤ e) : (slice l a e).take k = slice l a (a + k) := by
  rw [slice, slice, List.take_drop, List.take_take, Nat.min_eq_left h]

theorem slice_self (a : Nat) : slice l a a = [] := by
  rw [slice, List.drop_take, Nat.sub_self, List.take_zero]

theorem take_append_slice {p q : Nat} (h : p ≤ q) : l.take p ++ slice l p q = l.take q := by
  have htake : l.take p = (l.take q).take p := by
    rw [List.take_take, Nat.min_eq_left h]
  rw [htake, slice, List.take_append_drop]

theorem slice_append {a b e : Nat} (hab : a ≤ b) (hbe : b ≤ e) :
    slice l a b ++ slice l b e = slice l a e := by
  have hb : slice l a b = (slice l a e).take (b - a) := by
    rw [take_slice l (by omega), Nat.add_sub_cancel' hab]
  have he : slice l b e = (slice l a e).drop (b - a) := by
    rw [drop_slice, Nat.add_sub_cancel' hab]
  rw [hb, he, List.take_append_drop]

end Slices

/-! ## Chunked streams -/

section Chunks

variable {α : Type}

def Chunked (cs : List (List α)) : Prop := ∀ c ∈ cs, c ≠ []

/-- One read of at most `len` elements; `none` blocks. -/
def readSome : List (List α) → Nat → Option (List α × List (List α))
  | [], _ => none
  | c :: cs, len => if c.length ≤ len then some (c, cs) else some (c.take len, c.drop len :: cs)

/-- Read until `buf` holds `len` elements. -/
def readExactly : (fuel : Nat) → (len : Nat) → List α → List (List α) →
    Option (List α × List (List α))
  | 0, _, _, _ => none
  | fuel + 1, len, buf, cs =>
    if buf.length < len then
      match readSome cs (len - buf.length) with
      | none => none
      | some (bs, cs') => readExactly fuel len (buf ++ bs) cs'
    else some (buf, cs)

theorem readSome_spec {cs cs' : List (List α)} {len : Nat} {bs : List α} (hcs : Chunked cs)
    (hlen : 0 < len) (h : readSome cs len = some (bs, cs')) :
    0 < bs.length ∧ bs.length ≤ len ∧ cs.flatten = bs ++ cs'.flatten ∧ Chunked cs' := by
  cases cs with
  | nil => cases h
  | cons c cs =>
    have hc : 0 < c.length := List.length_pos_of_ne_nil (hcs c (List.mem_cons_self ..))
    have hrest : Chunked cs := fun d hd => hcs d (List.mem_cons_of_mem _ hd)
    simp only [readSome] at h
    split at h
    · rename_i hle
      obtain ⟨rfl, rfl⟩ := Prod.mk.inj (Option.some.inj h)
      exact ⟨hc, hle, List.flatten_cons, hrest⟩
    · rename_i hgt
      obtain ⟨rfl, rfl⟩ := Prod.mk.inj (Option.some.inj h)
      refine ⟨?_, ?_, ?_, ?_⟩
      · rw [List.length_take]
        omega
      · exact List.length_take_le _ _
      · rw [List.flatten_cons, List.flatten_cons, ← List.append_assoc, List.take_append_drop]
      · intro d hd
        rcases List.mem_cons.1 hd with rfl | hd
        · intro hnil
          have := congrArg List.length hnil
          rw [List.length_drop, List.length_nil] at this
          omega
        · exact hrest d hd

theorem readSome_isSome {cs : List (List α)} (len : Nat) (h : cs.flatten ≠ []) :
    ∃ bs cs', readSome cs len = some (bs, cs') := by
  cases cs with
  | nil => exact absurd rfl h
  | cons c cs =>
    simp only [readSome]
    split
    · exact ⟨_, _, rfl⟩
    · exact ⟨_, _, rfl⟩

theorem readExactly_of_le {fuel len : Nat} {buf : List α} {cs : List (List α)} (hcs : Chunked cs)
    (hbuf : buf.length ≤ len) (hfuel : len < fuel + buf.length)
    (hlen : len ≤ buf.length + cs.flatten.length) :
    ∃ cs', readExactly fuel len buf cs = some (buf ++ cs.flatten.take (len - buf.length), cs') ∧
      cs'.flatten = cs.flatten.drop (len - buf.length) ∧ Chunked cs' := by
  induction fuel generalizing buf cs with
  | zero => omega
  | succ fuel ih =>
    unfold readExactly
    split
    · rename_i hlt
      have hne : cs.flatten ≠ [] := by
        intro hnil
        rw [hnil, List.length_nil] at hlen
        omega
      obtain ⟨bs, cs', hread⟩ := readSome_isSome (len - buf.length) hne
      obtain ⟨hpos, hle, hflat, hcs'⟩ := readSome_spec hcs (by omega) hread
      rw [hflat, List.length_append] at hlen
      have hsum : (buf ++ bs).length = buf.length + bs.length := List.length_append
      have hrun := @ih (buf ++ bs) cs' hcs' (by omega) (by omega) (by omega)
      obtain ⟨cs'', hrun, hrest, hcs''⟩ := hrun
      refine ⟨cs'', ?_, ?_, hcs''⟩
      · simp only [hread]
        rw [hrun, hflat, List.take_append, List.take_of_length_le hle, List.append_assoc, hsum,
          Nat.sub_sub]
      · rw [hrest, hflat, List.drop_append, List.drop_eq_nil_of_le hle, List.nil_append, hsum,
          Nat.sub_sub]
    · rename_i hge
      have hzero : len - buf.length = 0 := by omega
      exact ⟨cs, by rw [hzero, List.take_zero, List.append_nil], by rw [hzero, List.drop_zero], hcs⟩

theorem readExactly_blocks {fuel len : Nat} {buf : List α} {cs : List (List α)} (hcs : Chunked cs)
    (hlen : buf.length + cs.flatten.length < len) : readExactly fuel len buf cs = none := by
  induction fuel generalizing buf cs with
  | zero => rfl
  | succ fuel ih =>
    unfold readExactly
    rw [if_pos (by omega)]
    cases hread : readSome cs (len - buf.length) with
    | none => rfl
    | some p =>
      obtain ⟨bs, cs'⟩ := p
      obtain ⟨-, -, hflat, hcs'⟩ := readSome_spec hcs (by omega) hread
      rw [hflat, List.length_append] at hlen
      exact ih hcs' (by rw [List.length_append]; omega)

end Chunks

end Svalinn.Lib
