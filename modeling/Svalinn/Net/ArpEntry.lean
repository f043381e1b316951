/-
  Net/ArpEntry.lean --- the ageing of an ARP entry.

  Source: `runtime/net/arp.c` (`struct arp_entry`, `arp_age_entry`).

  The models of the ARP code differ in what else an entry holds; the fields that the ageing
  reads and writes, and the ageing itself, are the same.
-/
import Mathlib.Data.BitVec

set_option autoImplicit false

namespace Svalinn.Net

/-- `ARP_RETRIES`. -/
def arpRetries : Nat := 3

/-- `ARP_RETRY_TIME`, in microseconds. -/
def arpRetryTime : BitVec 64 := 1000000

/-- `ARP_REPROBE_TIME`, in microseconds. -/
def arpReprobeTime : BitVec 64 := 10000000

/-- The `ARP_STATE_` constants. -/
inductive ArpState where
  | probing
  | valid
  | validButReprobing
  | static
  deriving DecidableEq

/-- The fields of `struct arp_entry` that `arp_age_entry` reads. -/
structure ArpAge where
  state : ArpState
  ts : BitVec 64
  triesLeft : Nat
  deriving DecidableEq

/-- What `arp_age_entry` does with an entry: nothing, a new probe, or its deletion. -/
inductive Aged where
  | kept
  | probed (a : ArpAge)
  | deleted
  deriving DecidableEq

/-- `arp_age_entry`; `stamp` is the time after the probe is sent. -/
def arpAgeEntry (now stamp : BitVec 64) (e : ArpAge) : Aged :=
  if now - e.ts < if e.state = .valid then arpReprobeTime else arpRetryTime then .kept
  else
    match e.state with
    | .probing | .validButReprobing =>
      if e.triesLeft = 0 then .deleted
      else .probed { e with triesLeft := e.triesLeft - 1, ts := stamp }
    | .valid =>
      .probed { e with state := .validButReprobing, triesLeft := arpRetries, ts := stamp }
    | .static => .kept

section Ageing

variable {now stamp : BitVec 64} {e a : ArpAge}

/-- Neither the entry that is probed nor the probed one is static, and a probing entry is
probed again. -/
theorem arpAgeEntry_probed (h : arpAgeEntry now stamp e = .probed a) :
    e.state ≠ .static ∧ a.state ≠ .static ∧ (e.state = .probing → a.state = .probing) := by
  unfold arpAgeEntry at h
  generalize (if e.state = .valid then arpReprobeTime else arpRetryTime) = limit at h
  split at h
  · cases h
  · cases hstate : e.state with
    | static =>
      simp only [hstate] at h
      cases h
    | valid =>
      simp only [hstate] at h
      cases h
      exact ⟨nofun, nofun, nofun⟩
    | probing | validButReprobing =>
      simp only [hstate] at h
      split at h
      · cases h
      · cases h
        exact ⟨nofun, nofun, id⟩

theorem arpAgeEntry_deleted (h : arpAgeEntry now stamp e = .deleted) : e.state ≠ .static := by
  intro hstate
  unfold arpAgeEntry at h
  generalize (if e.state = .valid then arpReprobeTime else arpRetryTime) = limit at h
  simp only [hstate, ite_self] at h
  cases h

end Ageing

end Svalinn.Net
