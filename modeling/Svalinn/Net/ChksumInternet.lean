/-
  Net/ChksumInternet.lean --- the internet checksum.

  Source: `inc/asm/chksum.h` (`chksum_internet`), `runtime/net/icmp.c`.

  The assembly adds the buffer in words of 64 bits, the last ones in shorter words, and folds
  the sum to 16 bits; all words are read in the byte order of the machine.  The result is the
  complement of the one's complement sum of the words in that order.  It is zero exactly if the
  sum of the words in network byte order is all ones, which is how the checksum of a header is
  defined.
-/
import Svalinn.Lib.Bytes
import Svalinn.Lib.OnesSum

set_option autoImplicit false

namespace Svalinn.Net

open Svalinn.Lib Svalinn.Lib.OnesSum List

/-! ## The assembly -/

/-- `adc` on `w` bits: the sum and the new carry flag. -/
def adc (w a b cf : Nat) : Nat × Nat := ((a + b + cf) % 2 ^ w, (a + b + cf) / 2 ^ w)

def adcQuads : Nat → List UInt8 → Nat × Nat → Nat × Nat
  | 0, _, r => r
  | n + 1, buf, (sum, cf) => adcQuads n (buf.drop 8) (adc 64 sum (leValue (buf.take 8)) cf)

/-- `add` and then `adc $0`. -/
def addCarry (w a b : Nat) : Nat :=
  let r := adc w a b 0
  (adc w r.1 0 r.2).1

/-- A word of `k` bytes, if the length says that one is left. -/
def addChunk (k len : Nat) (r : Nat × List UInt8) : Nat × List UInt8 :=
  if len / k % 2 = 1 then (addCarry 64 r.1 (leValue (r.2.take k)), r.2.drop k) else r

def foldSum (sum : Nat) : Nat :=
  let sum := addCarry 32 (sum / 2 ^ 32) (sum % 2 ^ 32)
  let sum := addCarry 16 (sum / 2 ^ 16) (sum % 2 ^ 16)
  2 ^ 16 - 1 - sum

def chksumInternet (buf : List UInt8) : Nat :=
  let len := buf.length
  let r := adcQuads (len / 8) buf (0, 0)
  let r := ((adc 64 r.1 0 r.2).1, buf.drop (8 * (len / 8)))
  let r := addChunk 1 len (addChunk 2 len (addChunk 4 len r))
  foldSum r.1

/-! ## The sum it computes -/

/-- The words of a buffer in network byte order; a last single byte is padded with zero. -/
def beWords : List UInt8 → List Nat
  | a :: b :: rest => (256 * a.toNat + b.toNat) :: beWords rest
  | [a] => [256 * a.toNat]
  | [] => []

theorem beWords_lt (buf : List UInt8) : ∀ x ∈ beWords buf, x < 2 ^ 16 := by
  induction buf using beWords.induct with
  | case1 a b rest ih =>
    intro x hx
    have ha := a.toNat_lt
    have hb := b.toNat_lt
    rcases mem_cons.1 hx with rfl | hx
    · omega
    · exact ih x hx
  | case2 a =>
    intro x hx
    have ha := a.toNat_lt
    rw [beWords, mem_singleton] at hx
    omega
  | case3 => exact fun x hx => absurd hx not_mem_nil

/-- The byte order does not matter: reading the words in the other order is a shift. -/
theorem sameSum_beWords (buf : List UInt8) :
    SameSum (2 ^ 16 - 1) (2 ^ 8 * (beWords buf).sum) (leValue buf) := by
  induction buf using beWords.induct with
  | case1 a b rest ih =>
    have hrest := ih.trans (sameSum_two_pow_mul (dvd_refl (2 ^ 16 - 1)) (leValue rest)).symm
    have hfirst := (sameSum_two_pow_mul (dvd_refl (2 ^ 16 - 1)) a.toNat).add
      (SameSum.refl (2 ^ 16 - 1) (2 ^ 8 * b.toNat))
    have hsum := hfirst.add hrest
    have hleft : 2 ^ 16 * a.toNat + 2 ^ 8 * b.toNat + 2 ^ 8 * (beWords rest).sum =
        2 ^ 8 * (beWords (a :: b :: rest)).sum := by
      rw [beWords, sum_cons]
      ring
    have hright : a.toNat + 2 ^ 8 * b.toNat + 2 ^ 16 * leValue rest = leValue (a :: b :: rest) := by
      rw [leValue, leValue]
      ring
    rwa [hleft, hright] at hsum
  | case2 a =>
    have h := sameSum_two_pow_mul (dvd_refl (2 ^ 16 - 1)) a.toNat
    have hleft : 2 ^ 16 * a.toNat = 2 ^ 8 * (beWords [a]).sum := by
      rw [beWords, sum_singleton]
      ring
    rwa [hleft] at h
  | case3 => exact SameSum.refl _ _

theorem onesSum_beWords_eq_max_iff (buf : List UInt8) :
    onesSum 16 (beWords buf) = 2 ^ 16 - 1 ↔ 2 ^ 16 - 1 ∣ leValue buf ∧ leValue buf ≠ 0 := by
  have hsame := sameSum_beWords buf
  have hdvd : 2 ^ 16 - 1 ∣ 2 ^ 8 * (beWords buf).sum ↔ 2 ^ 16 - 1 ∣ leValue buf :=
    hsame.modEq.dvd_iff dvd_rfl
  have hcop : Nat.Coprime (2 ^ 16 - 1) (2 ^ 8) := by decide
  rw [onesSum_eq_max_iff (by decide) (beWords_lt buf), ← hdvd, hcop.dvd_mul_left, ne_eq, ne_eq,
    ← hsame.zero_iff, Nat.mul_eq_zero]
  simp

/-! ## The assembly computes it -/

theorem addCarry_eq {w a b : Nat} (ha : a < 2 ^ w) (hb : b < 2 ^ w) :
    addCarry w a b = endAround w a b := by
  have hlt := endAround_lt ha hb
  unfold endAround at hlt ⊢
  simp only [addCarry, adc, Nat.add_zero]
  exact Nat.mod_eq_of_lt hlt

theorem leValue_take_lt {k : Nat} (hk : k ≤ 8) (buf : List UInt8) :
    leValue (buf.take k) < 2 ^ 64 := by
  refine Nat.lt_of_lt_of_le (leValue_lt _) ?_
  calc 256 ^ (buf.take k).length ≤ 256 ^ 8 :=
        Nat.pow_le_pow_right (by decide) ((length_take_le k buf).trans hk)
    _ = 2 ^ 64 := by decide

theorem sameSum_cut {k w : Nat} (hk : 256 ^ k = 2 ^ w) (hw : 2 ^ 16 - 1 ∣ 2 ^ w - 1)
    (buf : List UInt8) :
    SameSum (2 ^ 16 - 1) (leValue (buf.take k) + leValue (buf.drop k)) (leValue buf) := by
  have h := (SameSum.refl (2 ^ 16 - 1) (leValue (buf.take k))).add
    (sameSum_two_pow_mul hw (leValue (buf.drop k))).symm
  rwa [← hk, leValue_take_add_drop] at h

/-- What is kept while the buffer is summed: the sum and the rest make up the buffer. -/
structure Summing (buf : List UInt8) (sum : Nat) (rest : List UInt8) : Prop where
  lt : sum < 2 ^ 64
  same : SameSum (2 ^ 16 - 1) (sum + leValue rest) (leValue buf)

theorem Summing.chunk {buf rest : List UInt8} {sum k : Nat} (h : Summing buf sum rest) (hk : k ≤ 8)
    (hcut : SameSum (2 ^ 16 - 1) (leValue (rest.take k) + leValue (rest.drop k)) (leValue rest)) :
    Summing buf (endAround 64 sum (leValue (rest.take k))) (rest.drop k) := by
  refine ⟨endAround_lt h.lt (leValue_take_lt hk rest), ?_⟩
  have hadd := (sameSum_endAround (show 2 ^ 16 - 1 ∣ 2 ^ 64 - 1 by decide) sum
    (leValue (rest.take k))).add (SameSum.refl (2 ^ 16 - 1) (leValue (rest.drop k)))
  rw [Nat.add_assoc sum] at hadd
  exact hadd.trans (((SameSum.refl _ sum).add hcut).trans h.same)

theorem adcQuads_summing {buf rest : List UInt8} (n : Nat) {sum cf : Nat}
    (h : Summing buf (sum + cf) rest) :
    Summing buf ((adcQuads n rest (sum, cf)).1 + (adcQuads n rest (sum, cf)).2)
      (rest.drop (8 * n)) := by
  induction n generalizing rest sum cf with
  | zero => exact h
  | succ n ih =>
    have hquad := h.chunk le_rfl (sameSum_cut (w := 64) (by decide) (by decide) rest)
    have hadc : endAround 64 (sum + cf) (leValue (rest.take 8)) =
        (adc 64 sum (leValue (rest.take 8)) cf).1 + (adc 64 sum (leValue (rest.take 8)) cf).2 := by
      unfold endAround adc
      rw [Nat.add_right_comm]
    rw [hadc] at hquad
    have hdrop : rest.drop (8 * (n + 1)) = (rest.drop 8).drop (8 * n) := by
      rw [drop_drop]
      congr 1
      omega
    rw [adcQuads, hdrop]
    exact ih hquad

theorem addChunk_summing {buf : List UInt8} {k len : Nat} (hk : k ≤ 8)
    {r : Nat × List UInt8} (h : Summing buf r.1 r.2) (hlen : r.2.length = len % (2 * k))
    (hcut : SameSum (2 ^ 16 - 1) (leValue (r.2.take k) + leValue (r.2.drop k)) (leValue r.2)) :
    Summing buf (addChunk k len r).1 (addChunk k len r).2 ∧
      (addChunk k len r).2.length = len % k := by
  have hmod : len % (2 * k) = len % k + k * (len / k % 2) := by
    rw [Nat.mul_comm 2 k, Nat.mod_mul]
  unfold addChunk
  split
  · rename_i hodd
    refine ⟨?_, ?_⟩
    · rw [addCarry_eq h.lt (leValue_take_lt hk _)]
      exact h.chunk hk hcut
    · rw [length_drop, hlen, hmod, hodd]
      omega
  · rename_i hodd
    have heven : len / k % 2 = 0 := by omega
    refine ⟨h, ?_⟩
    rw [hlen, hmod, heven]
    omega

/-- Folding complements the word that stands for the sum. -/
theorem foldSum_spec {sum : Nat} (hlt : sum < 2 ^ 64) :
    ∃ s < 2 ^ 16, SameSum (2 ^ 16 - 1) s sum ∧ foldSum sum = 2 ^ 16 - 1 - s := by
  have hlt32 := endAround_lt (w := 32) (show sum / 2 ^ 32 < 2 ^ 32 by omega)
    (show sum % 2 ^ 32 < 2 ^ 32 by omega)
  have h32 := (sameSum_endAround (w := 32) (show 2 ^ 16 - 1 ∣ 2 ^ 32 - 1 by decide)
    (sum / 2 ^ 32) (sum % 2 ^ 32)).trans (sameSum_halves (show 2 ^ 16 - 1 ∣ 2 ^ 32 - 1 by decide) sum)
  unfold foldSum
  simp only
  rw [addCarry_eq (w := 32) (by omega) (by omega)]
  generalize endAround 32 (sum / 2 ^ 32) (sum % 2 ^ 32) = s at h32 hlt32
  have h16 := (sameSum_endAround (w := 16) (dvd_refl (2 ^ 16 - 1)) (s / 2 ^ 16) (s % 2 ^ 16)).trans
    ((sameSum_halves (dvd_refl (2 ^ 16 - 1)) s).trans h32)
  have hlt16 := endAround_lt (w := 16) (show s / 2 ^ 16 < 2 ^ 16 by omega)
    (show s % 2 ^ 16 < 2 ^ 16 by omega)
  exact ⟨_, hlt16, h16, by rw [addCarry_eq (w := 16) (by omega) (by omega)]⟩

theorem quads_summing (buf : List UInt8) :
    Summing buf (adc 64 (adcQuads (buf.length / 8) buf (0, 0)).1 0
      (adcQuads (buf.length / 8) buf (0, 0)).2).1 (buf.drop (8 * (buf.length / 8))) := by
  have hstart : Summing buf (0 + 0) buf := by
    refine ⟨by decide, ?_⟩
    rw [Nat.add_zero, Nat.zero_add]
    exact SameSum.refl _ _
  have hquads := adcQuads_summing (buf.length / 8) hstart
  have hcarry : (adc 64 (adcQuads (buf.length / 8) buf (0, 0)).1 0
      (adcQuads (buf.length / 8) buf (0, 0)).2).1 = _ := Nat.mod_eq_of_lt hquads.lt
  rw [hcarry]
  exact hquads

theorem chksumInternet_spec (buf : List UInt8) :
    ∃ s < 2 ^ 16, SameSum (2 ^ 16 - 1) s (leValue buf) ∧ chksumInternet buf = 2 ^ 16 - 1 - s := by
  have hquads := quads_summing buf
  unfold chksumInternet
  simp only
  generalize (adc 64 (adcQuads (buf.length / 8) buf (0, 0)).1 0
    (adcQuads (buf.length / 8) buf (0, 0)).2).1 = sum at hquads ⊢
  have hlen : (buf.drop (8 * (buf.length / 8))).length = buf.length % (2 * 4) := by
    rw [length_drop]
    omega
  generalize buf.drop (8 * (buf.length / 8)) = rest at hquads hlen ⊢
  obtain ⟨h4, hlen4⟩ := addChunk_summing (k := 4) (r := (sum, rest)) (by decide)
    hquads hlen (sameSum_cut (w := 32) (by decide) (by decide) _)
  generalize addChunk 4 buf.length (sum, rest) = r4 at h4 hlen4 ⊢
  obtain ⟨h2, hlen2⟩ := addChunk_summing (k := 2) (by decide)
    h4 hlen4 (sameSum_cut (w := 16) (by decide) (by decide) _)
  generalize addChunk 2 buf.length r4 = r2 at h2 hlen2 ⊢
  -- a byte alone is the last one, so nothing is cut behind it
  have hlast : r2.2.drop 1 = [] := drop_eq_nil_of_le (by omega)
  have hcut : leValue (r2.2.take 1) + leValue (r2.2.drop 1) = leValue r2.2 := by
    rw [← leValue_take_add_drop 1 r2.2, hlast]
    rfl
  obtain ⟨h1, hlen1⟩ := addChunk_summing (k := 1) (by decide) h2 hlen2 (hcut ▸ SameSum.refl _ _)
  have hnil : (addChunk 1 buf.length r2).2 = [] := length_eq_zero_iff.1 (by omega)
  have hsame := h1.same
  rw [hnil] at hsame
  obtain ⟨s, hs, hfold, heq⟩ := foldSum_spec h1.lt
  exact ⟨s, hs, hfold.trans hsame, heq⟩

theorem chksumInternet_eq_zero_iff (buf : List UInt8) :
    chksumInternet buf = 0 ↔ onesSum 16 (beWords buf) = 2 ^ 16 - 1 := by
  obtain ⟨s, hs, hsame, heq⟩ := chksumInternet_spec buf
  rw [onesSum_beWords_eq_max_iff, ← hsame.eq_max_iff (by decide) hs, heq]
  omega

/-! ## Words in the byte order of the machine -/

/-- The little-endian words of a buffer; a last single byte is padded with zero. -/
def leWords : List UInt8 → List Nat
  | a :: b :: rest => (a.toNat + 256 * b.toNat) :: leWords rest
  | [a] => [a.toNat]
  | [] => []

theorem leWords_spec (buf : List UInt8) : (∀ x ∈ leWords buf, x < 2 ^ 16) ∧
    SameSum (2 ^ 16 - 1) (leWords buf).sum (leValue buf) := by
  induction buf using leWords.induct with
  | case1 a b rest ih =>
    have ha := a.toNat_lt
    have hb := b.toNat_lt
    refine ⟨forall_mem_cons.2 ⟨by omega, ih.1⟩, ?_⟩
    have hsum := (SameSum.refl (2 ^ 16 - 1) (a.toNat + 256 * b.toNat)).add
      (ih.2.trans (sameSum_two_pow_mul (dvd_refl (2 ^ 16 - 1)) (leValue rest)).symm)
    have hright : a.toNat + 256 * b.toNat + 2 ^ 16 * leValue rest = leValue (a :: b :: rest) := by
      rw [leValue, leValue]
      ring
    rw [leWords, sum_cons]
    rwa [hright] at hsum
  | case2 a =>
    have ha := a.toNat_lt
    exact ⟨forall_mem_singleton.2 (by omega), SameSum.refl _ _⟩
  | case3 => exact ⟨forall_mem_nil _, SameSum.refl _ _⟩

/-- The checksum of any buffer is the complement of the one's complement sum of its
little-endian words. -/
theorem chksum_internet_exact (buf : List UInt8) :
    chksumInternet buf = 2 ^ 16 - 1 - onesSum 16 (leWords buf) := by
  obtain ⟨s, hs, hsame, heq⟩ := chksumInternet_spec buf
  obtain ⟨hwords, hle⟩ := leWords_spec buf
  have hones : SameSum (2 ^ 16 - 1) (onesSum 16 (leWords buf)) (leWords buf).sum := by
    have := sameSum_foldl_endAround (dvd_refl (2 ^ 16 - 1)) (leWords buf) 0
    rwa [Nat.zero_add] at this
  have hword : s = onesSum 16 (leWords buf) :=
    (hsame.trans (hones.trans hle).symm).eq_of_lt hs (foldl_endAround_lt hwords (by decide))
  rw [heq, hword]

/-! ## A message with its checksum -/

def echoReply (pkt : List UInt8) (chksum : Nat) : List UInt8 :=
  0 :: pkt.getD 1 0 :: (leBytes 2 chksum ++ pkt.drop 4)

/-- The reply `net_rx_icmp_echo` sends. -/
def netRxIcmpEcho (pkt : List UInt8) : List UInt8 :=
  echoReply pkt (chksumInternet (echoReply pkt 0))

/-- The receiver of a reply finds its checksum right. -/
theorem echo_reply_verifies (pkt : List UInt8) :
    onesSum 16 (beWords (netRxIcmpEcho pkt)) = 2 ^ 16 - 1 := by
  obtain ⟨s, hs, hsame, heq⟩ := chksumInternet_spec (echoReply pkt 0)
  have hsum := hsame.add (sameSum_two_pow_mul (dvd_refl (2 ^ 16 - 1)) (2 ^ 16 - 1 - s)).symm
  have hvalue : leValue (echoReply pkt 0) + 2 ^ 16 * (2 ^ 16 - 1 - s) =
      leValue (netRxIcmpEcho pkt) := by
    rw [netRxIcmpEcho, heq]
    simp only [echoReply, leBytes, leValue, cons_append, nil_append, UInt8.toNat_ofNat']
    omega
  rw [Nat.add_sub_cancel' (by omega), hvalue] at hsum
  exact (onesSum_beWords_eq_max_iff _).2 ((hsum.eq_max_iff (by decide) (by decide)).1 rfl)

end Svalinn.Net
