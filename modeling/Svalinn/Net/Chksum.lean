/-
  Net/Chksum.lean --- the checksum of the pseudo header.

  Source: `inc/net/chksum.h` (`__raw_cksum`, `__raw_cksum_reduce`, `raw_cksum`,
  `ipv4_phdr_cksum`).

  The sum is taken over little-endian words of the bytes in network order and reduced to
  16 bits with end-around carry.  Two lengths other than zero never have the same checksum.
-/
import Mathlib.Algebra.Group.Nat.Defs
import Mathlib.Data.List.Basic

set_option autoImplicit false

namespace Svalinn.Net

/-- `hton16` and `hton32` as the bytes in memory. -/
def be16 (x : Nat) : List Nat := [x / 2 ^ 8 % 2 ^ 8, x % 2 ^ 8]

def be32 (x : Nat) : List Nat := be16 (x / 2 ^ 16 % 2 ^ 16) ++ be16 (x % 2 ^ 16)

/-- `__raw_cksum`: the sum of the words, and of the last byte if it is alone. -/
def rawSum : List Nat → Nat
  | a :: b :: rest => a + 2 ^ 8 * b + rawSum rest
  | [a] => a
  | [] => 0

def rawCksumReduce (sum : Nat) : Nat :=
  let sum := sum / 2 ^ 16 + sum % 2 ^ 16
  let sum := sum / 2 ^ 16 + sum % 2 ^ 16
  sum % 2 ^ 16

def rawCksum (buf : List Nat) : Nat := rawCksumReduce (rawSum buf % 2 ^ 32)

def ipv4PhdrCksum (proto saddr daddr l4len : Nat) : Nat :=
  rawCksum (be32 saddr ++ be32 daddr ++ [0, proto % 2 ^ 8] ++ be16 (l4len % 2 ^ 16))

def word (x : Nat) : Nat := x / 2 ^ 8 % 2 ^ 8 + 2 ^ 8 * (x % 2 ^ 8)

theorem word_lt (x : Nat) : word x < 2 ^ 16 := by
  unfold word
  omega

theorem rawSum_be16 (x : Nat) (rest : List Nat) : rawSum (be16 x ++ rest) = word x + rawSum rest :=
  rfl

theorem ipv4PhdrCksum_eq (proto saddr daddr : Nat) : ∃ base, base < 2 ^ 19 ∧
    ∀ l4len, l4len < 2 ^ 16 →
      ipv4PhdrCksum proto saddr daddr l4len = rawCksumReduce (base + word l4len) := by
  have hproto : proto % 2 ^ 8 < 2 ^ 8 := Nat.mod_lt _ (by decide)
  have hs := word_lt (saddr / 2 ^ 16 % 2 ^ 16)
  have hs' := word_lt (saddr % 2 ^ 16)
  have hd := word_lt (daddr / 2 ^ 16 % 2 ^ 16)
  have hd' := word_lt (daddr % 2 ^ 16)
  refine ⟨word (saddr / 2 ^ 16 % 2 ^ 16) + word (saddr % 2 ^ 16) + word (daddr / 2 ^ 16 % 2 ^ 16) +
    word (daddr % 2 ^ 16) + 2 ^ 8 * (proto % 2 ^ 8), by omega, fun l4len hlt => ?_⟩
  have hl := word_lt l4len
  have hsum : rawSum (be32 saddr ++ be32 daddr ++ [0, proto % 2 ^ 8] ++ be16 l4len) =
      word (saddr / 2 ^ 16 % 2 ^ 16) + word (saddr % 2 ^ 16) + word (daddr / 2 ^ 16 % 2 ^ 16) +
        word (daddr % 2 ^ 16) + 2 ^ 8 * (proto % 2 ^ 8) + word l4len := by
    simp only [be32, List.append_assoc, rawSum_be16, List.cons_append, List.nil_append, rawSum]
    have hlast : rawSum (be16 l4len) = word l4len := rfl
    omega
  unfold ipv4PhdrCksum rawCksum
  rw [Nat.mod_eq_of_lt hlt, hsum, Nat.mod_eq_of_lt (by omega)]

/-- End-around carry keeps the residue modulo `2 ^ 16 - 1`. -/
theorem rawCksumReduce_spec {sum : Nat} (hlt : sum < 2 ^ 20) :
    ∃ carry, sum = rawCksumReduce sum + (2 ^ 16 - 1) * carry := by
  refine ⟨sum / 2 ^ 16 + (sum / 2 ^ 16 + sum % 2 ^ 16) / 2 ^ 16, ?_⟩
  simp only [rawCksumReduce]
  omega

theorem ipv4PhdrCksum_inj {proto saddr daddr l l' : Nat} (hl : 0 < l) (hl' : 0 < l')
    (hlt : l < 2 ^ 16) (hlt' : l' < 2 ^ 16)
    (heq : ipv4PhdrCksum proto saddr daddr l = ipv4PhdrCksum proto saddr daddr l') : l = l' := by
  obtain ⟨base, hbase, hsum⟩ := ipv4PhdrCksum_eq proto saddr daddr
  have hword : ∀ n, 0 < n → n < 2 ^ 16 → 0 < word n := by
    intro n hpos hn
    unfold word
    omega
  have hw := hword l hl hlt
  have hw' := hword l' hl' hlt'
  have hwlt := word_lt l
  have hwlt' := word_lt l'
  obtain ⟨carry, hcarry⟩ := rawCksumReduce_spec (show base + word l < 2 ^ 20 by omega)
  obtain ⟨carry', hcarry'⟩ := rawCksumReduce_spec (show base + word l' < 2 ^ 20 by omega)
  rw [hsum l hlt, hsum l' hlt'] at heq
  -- the words are congruent and both lie between 1 and `2 ^ 16 - 1`
  have hwords : word l = word l' := by omega
  unfold word at hwords
  omega

end Svalinn.Net
