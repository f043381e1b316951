/-
  Pcc/Credit.lean --- the credit arithmetic of a server session.

  Source: `breakwater/src/pcc_server.c`, `srpc_update_credit` and the adjustment
  that `srpc_recv_one` makes when the demand changes.

  `demand` is a `uint64_t` taken from the client's header.  Sums with it are taken
  modulo `2^64`, and `MIN` compares an `int` with such a sum as unsigned numbers;
  the result is converted back to `int`.  `int` arithmetic wraps around.
-/
import Svalinn.Lib.Machine
import Svalinn.Pcc.Config

set_option autoImplicit false

namespace Svalinn.Pcc

open Svalinn.Lib

/-- What `srpc_update_credit` reads of the global state. -/
structure Globals where
  creditPool : Int
  creditDs : Int
  creditUsed : Int
  numSess : Int
  maxCores : Int
  deriving DecidableEq

/-- The fields of `struct spcc_session` that `srpc_update_credit` reads; `drained` is
`drained_core != -1`. -/
structure SessCredit where
  drained : Bool
  credit : Int
  numPending : Int
  demand : Nat
  wakeUp : Bool
  deriving DecidableEq

/-- `s->num_pending + s->demand + x` as a `uint64_t`. -/
def demandSum (numPending : Int) (demand : Nat) (x : Int) : Int := asU64 (numPending + demand + x)

/-- `MIN` of an `int` and a `uint64_t`, stored in an `int`. -/
def minU64 (x sum : Int) : Int :=
  asI32 (if (asU64 x : Int) < sum then asU64 x else sum)

/-- `credit_pool` after the downstream credit has been taken into account. -/
def Globals.pool (g : Globals) : Int :=
  if g.creditDs > 0 then min g.creditPool g.creditDs else g.creditPool

/-- `credit_unused`. -/
def Globals.unused (g : Globals) : Int := asI32 (g.pool - g.creditUsed)

def maxOverprovision (g : Globals) : Int := max (g.unused.tdiv g.numSess) 1

/-- The value of `s->credit` before it is clamped. -/
def wantedCredit (g : Globals) (s : SessCredit) (reqDropped : Bool) : Int :=
  let limit := maxOverprovision g
  let c₁ :=
    if g.creditUsed < g.pool then
      minU64 (asI32 (s.credit + g.unused)) (demandSum s.numPending s.demand limit)
    else if g.creditUsed > g.pool then asI32 (s.credit - 1)
    else s.credit
  let c₂ := if s.wakeUp || decide (g.numSess ≤ g.maxCores) then max c₁ limit else c₁
  -- prioritize the session
  if s.credit > 0 ∧ c₂ = 0 ∧ reqDropped = false then limit else c₂

/-- `srpc_update_credit`: the new value of `s->credit` and what is added to
`srpc_credit_used`. -/
def srpcUpdateCredit (g : Globals) (s : SessCredit) (reqDropped : Bool) : Int × Int :=
  if s.drained then (s.credit, 0)
  else
    -- clamp to supported values
    let c₁ := max (wantedCredit g s reqDropped) s.numPending
    let c₂ := min c₁ (maxWindow - 1)
    let c₃ := minU64 c₂ (demandSum s.numPending s.demand (maxOverprovision g))
    (c₃, asI32 (c₃ - s.credit))

def adjustedCredit (credit numPending : Int) (demand : Nat) : Int :=
  if credit > demandSum numPending demand 0 then demandSum numPending demand 0 else credit

theorem demandSum_nonneg (numPending : Int) (demand : Nat) (x : Int) :
    0 ≤ demandSum numPending demand x := Int.natCast_nonneg _

theorem demandSum_le {numPending x : Int} (demand : Nat) (h : 0 ≤ numPending) (hx : 0 ≤ x) :
    demandSum numPending demand x ≤ numPending + demand + x := by
  unfold demandSum asU64
  omega

theorem minU64_of_range {x sum : Int} (hlo : 0 ≤ x) (hhi : x < 2 ^ 31) (hsum : 0 ≤ sum) :
    minU64 x sum = min x sum := by
  have hx : (asU64 x : Int) = x := by
    rw [asU64_of_nonneg hlo (by omega)]
    omega
  unfold minU64
  rw [hx]
  split
  · rw [asI32_of_range (by omega) hhi]
    omega
  · rw [asI32_of_range (by omega) (by omega)]
    omega

theorem one_le_maxOverprovision (g : Globals) : 1 ≤ maxOverprovision g := le_max_right _ _

section Update

variable (g : Globals) (s : SessCredit) (reqDropped : Bool)

/-- Whatever the credit was wanted to be, the clamps leave it in the window and at the demand. -/
theorem srpcUpdateCredit_eq (hdrained : s.drained = false) (hpend : 0 ≤ s.numPending) :
    (srpcUpdateCredit g s reqDropped).1 =
      min (min (max (wantedCredit g s reqDropped) s.numPending) 63)
        (demandSum s.numPending s.demand (maxOverprovision g)) := by
  have hwin : (maxWindow : Int) - 1 = 63 := rfl
  unfold srpcUpdateCredit
  rw [if_neg (by rw [hdrained]; decide), hwin]
  exact minU64_of_range (by omega) (by omega) (demandSum_nonneg _ _ _)

structure SoundUpdate (c' : Int × Int) : Prop where
  nonneg : 0 ≤ c'.1
  window : c'.1 ≤ maxWindow - 1
  pending : min s.numPending (maxWindow - 1) ≤ c'.1
  demand : c'.1 ≤ s.numPending + s.demand + maxOverprovision g
  used : c'.2 = c'.1 - s.credit

/-- An update is sound exactly if the sum of the pending requests, the demand and the
overprovisioning, taken modulo `2^64`, has not fallen below the pending requests. -/
theorem srpcUpdateCredit_sound_iff (hdrained : s.drained = false)
    (hcredit : 0 ≤ s.credit ∧ s.credit ≤ maxWindow - 1)
    (hpend : 0 ≤ s.numPending) :
    SoundUpdate g s (srpcUpdateCredit g s reqDropped) ↔ min s.numPending (maxWindow - 1) ≤
        demandSum s.numPending s.demand (maxOverprovision g) := by
  have hwin : (maxWindow : Int) - 1 = 63 := rfl
  have heq := srpcUpdateCredit_eq g s reqDropped hdrained hpend
  have hlimit := one_le_maxOverprovision g
  have hsum := demandSum_nonneg s.numPending s.demand (maxOverprovision g)
  have hle := demandSum_le (x := maxOverprovision g) s.demand hpend (by omega)
  have hdiff : (srpcUpdateCredit g s reqDropped).2 =
      asI32 ((srpcUpdateCredit g s reqDropped).1 - s.credit) := by
    unfold srpcUpdateCredit
    rw [if_neg (by rw [hdrained]; decide)]
  constructor
  · intro h
    have hpending := h.pending
    rw [heq] at hpending
    omega
  · intro h
    refine ⟨?_, ?_, ?_, ?_, ?_⟩
    · omega
    · omega
    · omega
    · omega
    · rw [hdiff]
      exact asI32_of_range (by omega) (by omega)

end Update

def smallDemand : SessCredit := ⟨false, 2, 2, 3, false⟩

theorem srpcUpdateCredit_sound_small :
    SoundUpdate ⟨64, 0, 10, 2, 1⟩ smallDemand (srpcUpdateCredit ⟨64, 0, 10, 2, 1⟩ smallDemand false) :=
  (srpcUpdateCredit_sound_iff ⟨64, 0, 10, 2, 1⟩ smallDemand false rfl (by decide) (by decide)).2
    (by decide)

/-- A client that puts `2^64 - 3` into its header takes the credit of its own two pending
requests. -/
theorem srpcUpdateCredit_wraps :
    (srpcUpdateCredit ⟨4, 0, 4, 4, 1⟩ ⟨false, 2, 2, 2 ^ 64 - 3, false⟩ false).1 = 0 ∧
      ¬ SoundUpdate ⟨4, 0, 4, 4, 1⟩ ⟨false, 2, 2, 2 ^ 64 - 3, false⟩
        (srpcUpdateCredit ⟨4, 0, 4, 4, 1⟩ ⟨false, 2, 2, 2 ^ 64 - 3, false⟩ false) := by
  have hzero : (srpcUpdateCredit ⟨4, 0, 4, 4, 1⟩ ⟨false, 2, 2, 2 ^ 64 - 3, false⟩ false).1 = 0 := by
    decide
  refine ⟨hzero, ?_⟩
  intro h
  have hpending := h.pending
  rw [hzero] at hpending
  exact absurd hpending (by decide)

end Svalinn.Pcc
