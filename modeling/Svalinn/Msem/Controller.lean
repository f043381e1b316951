/-
  Msem/Controller.lean --- the capacity controllers of the memory semaphore.

  Source: `m-semaphore/src/m_semaphore_mab_eg_impl.cpp` and
  `m-semaphore/src/m_semaphore_mab_ts_impl.cpp`, `UpdateCapacity`.

  Both controllers are bandits over the arms `1 .. m_max_cap`.  They compute
  with `double`; nothing proved about the semaphore depends on what that
  arithmetic returns, so it is a parameter here (`Arith`, `ArithExt`) and the
  results hold for every way of rounding and comparing, `NaN`s included.  The
  clock, the memory-access counter, `rand` and the Gaussian generator are inputs
  of a call (`Draw`).

  The one fact the protocol needs of a controller is `KeepsRange`: it never
  leaves the arms.
-/
import Svalinn.Lib.Machine
import Mathlib.Data.List.Range

set_option autoImplicit false

namespace Svalinn.Msem

open Svalinn.Lib Function

/-- The `double` operations the epsilon-greedy controller uses. -/
structure Arith (F : Type) where
  ofNat : Nat → F
  /-- a literal `num / den` -/
  lit : Int → Nat → F
  add : F → F → F
  sub : F → F → F
  mul : F → F → F
  div : F → F → F
  /-- the `<` of `double`, false on unordered operands -/
  lt : F → F → Bool

/-- The further operations the Thompson-sampling controller uses. -/
structure ArithExt (F : Type) extends Arith F where
  sqrt : F → F
  exp : F → F

/-- `std::min`. -/
def Arith.min {F : Type} (A : Arith F) (x y : F) : F := if A.lt y x then y else x

/-- What one call of `UpdateCapacity` reads from outside. -/
structure Draw (F : Type) where
  /-- `microtime()` -/
  now : Nat
  /-- `m_mem_pmc.GetMemAccesses()` -/
  bytes : Nat
  /-- the first `rand()` -/
  explr : Nat
  /-- the second `rand()` -/
  pick : Nat
  /-- `m_std_normal(m_gen)` for each arm -/
  gauss : Nat → F

def ctlDelayUs : Nat := 500

/-- `((double)(rand() % 1001)) / 1000.0`. -/
def unitDraw {F : Type} (A : Arith F) (r : Nat) : F := A.div (A.ofNat (r % 1001)) (A.ofNat 1000)

/-- `explr_prob < EXPLR_PROB`. -/
def explores {F : Type} (A : Arith F) (d : Draw F) : Bool := A.lt (unitDraw A d.explr) (A.lit 3 10)

def membw {F : Type} (A : Arith F) (lastBytes lastTime : Nat) (d : Draw F) : F :=
  A.div (A.ofNat (sub64 d.bytes lastBytes)) (A.ofNat (sub64 d.now lastTime))

/-- `ALPHA * norm_membw - (1 - ALPHA) * norm_cap`, with
`TARGET_NORM_MEMBW = 1.0`. -/
def reward {F : Type} (A : Arith F) (bw maxBw : F) (cap maxCap : Nat) : F :=
  let normMembw := A.div (A.min (A.div bw maxBw) (A.lit 1 1)) (A.lit 1 1)
  let normCap := A.div (A.ofNat cap) (A.ofNat maxCap)
  A.sub (A.mul (A.lit 8 10) normMembw) (A.mul (A.sub (A.lit 1 1) (A.lit 8 10)) normCap)

/-- The arms `1 .. n` in loop order. -/
def arms (n : Nat) : List Nat := List.range' 1 n

theorem mem_arms {n i : Nat} : i ∈ arms n ↔ 1 ≤ i ∧ i ≤ n := by
  simp only [arms, List.mem_range'_1]
  omega

/-- A controller: its own state, the current and the maximum capacity and the
inputs of the call give its next state and the next capacity. -/
abbrev Update (C F : Type) : Type := C → Nat → Nat → Draw F → C × Nat

def KeepsRange {C F : Type} (u : Update C F) : Prop :=
  ∀ (c : C) (cap maxCap : Nat) (d : Draw F),
    1 ≤ cap → cap ≤ maxCap → 1 ≤ (u c cap maxCap d).2 ∧ (u c cap maxCap d).2 ≤ maxCap

/-! ## Epsilon greedy -/

/-- Controller fields of `MemSemaphoreMabEgImpl`. -/
structure EgCtl (F : Type) where
  maxMembw : F
  ewmaRewards : Nat → F
  lastBytes : Nat
  lastTime : Nat

namespace EgCtl

variable {F : Type} (A : Arith F)

def init (bytes now : Nat) : EgCtl F :=
  { maxMembw := A.lit 0 1, ewmaRewards := fun _ => A.lit 0 1, lastBytes := bytes, lastTime := now }

def bestCap (rewards : Nat → F) (maxCap : Nat) : Nat :=
  (arms maxCap).foldl (fun best i => if A.lt (rewards best) (rewards i) then i else best) 1

/-- `MemSemaphoreMabEgImpl::UpdateCapacity`. -/
def updateCapacity : Update (EgCtl F) F := fun c cap maxCap d =>
  if sub64 d.now c.lastTime < ctlDelayUs then (c, cap)
  else
    let bw := membw A c.lastBytes c.lastTime d
    let maxBw := if A.lt c.maxMembw bw then bw else c.maxMembw
    let r := reward A bw maxBw cap maxCap
    let rewards := update c.ewmaRewards cap
      (A.add (A.mul (A.sub (A.lit 1 1) (A.lit 8 10)) (c.ewmaRewards cap)) (A.mul (A.lit 8 10) r))
    let best := bestCap A rewards maxCap
    let cap' :=
      if explores A d then
        -- `(int)best_cap + explr_dir` is stored into a `uint32_t` before it is clamped
        let explrDir : Int := if d.pick % 2 = 0 then -1 else 1
        Nat.min (Nat.max ((((best : Int) + explrDir) % 2 ^ 32).toNat) 1) maxCap
      else best
    ({ maxMembw := maxBw, ewmaRewards := rewards, lastBytes := d.bytes, lastTime := d.now }, cap')

theorem foldl_best_range (rewards : Nat → F) (maxCap : Nat) :
    ∀ (l : List Nat) (best : Nat), (∀ i ∈ l, 1 ≤ i ∧ i ≤ maxCap) → 1 ≤ best → best ≤ maxCap →
      1 ≤ l.foldl (fun best i => if A.lt (rewards best) (rewards i) then i else best) best ∧
      l.foldl (fun best i => if A.lt (rewards best) (rewards i) then i else best) best ≤ maxCap := by
  intro l
  induction l with
  | nil => intro best _ h1 h2; exact ⟨h1, h2⟩
  | cons i rest ih =>
    intro best hl h1 h2
    have hrest : ∀ j ∈ rest, 1 ≤ j ∧ j ≤ maxCap := fun j hj => hl j (List.mem_cons_of_mem _ hj)
    have hi := hl i List.mem_cons_self
    rw [List.foldl_cons]
    split
    · exact ih i hrest hi.1 hi.2
    · exact ih best hrest h1 h2

theorem bestCap_range (rewards : Nat → F) {maxCap : Nat} (h : 1 ≤ maxCap) :
    1 ≤ bestCap A rewards maxCap ∧ bestCap A rewards maxCap ≤ maxCap :=
  foldl_best_range A rewards maxCap (arms maxCap) 1 (fun _ hi => mem_arms.mp hi) (Nat.le_refl 1) h

theorem updateCapacity_keepsRange : KeepsRange (updateCapacity A) := by
  intro c cap maxCap d h1 h2
  have hmax : 1 ≤ maxCap := Nat.le_trans h1 h2
  simp only [updateCapacity]
  split
  · exact ⟨h1, h2⟩
  · dsimp only
    split
    · refine ⟨Nat.le_min.mpr ⟨Nat.le_max_right _ _, hmax⟩, Nat.min_le_right _ _⟩
    · exact bestCap_range A _ hmax

end EgCtl

/-! ## Thompson sampling -/

/-- Controller fields of `MemSemaphoreMabTsImpl`. -/
structure TsCtl (F : Type) where
  maxMembw : F
  samples : Nat → Nat → F
  samplesIdx : Nat → Nat
  counts : Nat → Nat
  sums : Nat → F
  means : Nat → F
  vars : Nat → F
  stdDevs : Nat → F
  softmaxProbs : Nat → F
  lastBytes : Nat
  lastTime : Nat

def windowSz : Nat := 10

namespace TsCtl

variable {F : Type} (A : ArithExt F)

def mu0 : F := A.lit 80 1
def sigmaSq : F := A.lit 25 1
def sigma0Sq : F := A.lit 625 1
def tau : F := A.lit 30 1
/-- The `-100000000.0` both searches start from. -/
def minMean : F := A.lit (-100000000) 1

def init (bytes now : Nat) : TsCtl F :=
  { maxMembw := A.lit 0 1, samples := fun _ _ => A.lit 0 1, samplesIdx := fun _ => 0
    counts := fun _ => 0, sums := fun _ => A.lit 0 1, means := fun _ => mu0 A
    vars := fun _ => sigma0Sq A, stdDevs := fun _ => A.sqrt (sigma0Sq A)
    softmaxProbs := fun _ => A.lit 0 1, lastBytes := bytes, lastTime := now }

def learn (c : TsCtl F) (cap : Nat) (r maxBw : F) : TsCtl F :=
  let idx := c.samplesIdx cap
  let oldReward := c.samples cap idx
  let count := Nat.min (c.counts cap + 1) windowSz
  let sum := A.sub (A.add (c.sums cap) r) oldReward
  let var := A.div (A.lit 1 1)
    (A.add (A.div (A.lit 1 1) (sigma0Sq A)) (A.div (A.ofNat count) (sigmaSq A)))
  let mean := A.mul var (A.add (A.div (mu0 A) (sigma0Sq A)) (A.div sum (sigmaSq A)))
  { c with
    maxMembw := maxBw
    samples := update c.samples cap (update (c.samples cap) idx r)
    samplesIdx := update c.samplesIdx cap ((idx + 1) % windowSz)
    counts := update c.counts cap count
    sums := update c.sums cap sum
    vars := update c.vars cap var
    means := update c.means cap mean
    stdDevs := update c.stdDevs cap (A.sqrt var) }

/-- The softmax probabilities of the arms `1 .. cap`. -/
def softmax (means : Nat → F) (cap : Nat) (old : Nat → F) : Nat → F :=
  let maxMean := (arms cap).foldl (fun m i => if A.lt m (means i) then means i else m) (minMean A)
  let weight := fun i => A.exp (A.div (A.sub (means i) maxMean) (tau A))
  let sum := (arms cap).foldl (fun s i => A.add s (weight i)) (A.lit 0 1)
  fun i => if 1 ≤ i ∧ i ≤ cap then A.div (weight i) sum else old i

/-- The loop that samples an arm: the first `i` with `arm_prob < probs[i]`,
`arm_prob` losing the probability of every arm passed over. -/
def sampleArm (probs : Nat → F) : List Nat → F → Option Nat
  | [], _ => none
  | i :: rest, armProb =>
    if A.lt armProb (probs i) then some i
    else sampleArm probs rest (A.sub armProb (probs i))

def bestSample (c : TsCtl F) (gauss : Nat → F) : List Nat → F → Nat → Nat
  | [], _, cap => cap
  | i :: rest, maxMean, cap =>
    let mean := A.add (c.means i) (A.mul (c.stdDevs i) (gauss i))
    if A.lt maxMean mean then bestSample c gauss rest mean i
    else bestSample c gauss rest maxMean cap

/-- `MemSemaphoreMabTsImpl::UpdateCapacity`. -/
def updateCapacity : Update (TsCtl F) F := fun c cap maxCap d =>
  if sub64 d.now c.lastTime < ctlDelayUs then (c, cap)
  else
    let bw := membw A.toArith c.lastBytes c.lastTime d
    let maxBw := if A.lt c.maxMembw bw then bw else c.maxMembw
    -- `MAGNIFYER * reward`
    let r := A.mul (A.lit 100 1) (reward A.toArith bw maxBw cap maxCap)
    let c' := { learn A c cap r maxBw with lastBytes := d.bytes, lastTime := d.now }
    if explores A.toArith d then
      let probs := softmax A c'.means cap c'.softmaxProbs
      let cap' := (sampleArm A probs (arms cap) (unitDraw A.toArith d.pick)).getD cap
      ({ c' with softmaxProbs := probs }, cap')
    else (c', bestSample A c' d.gauss (arms maxCap) (minMean A) cap)

theorem sampleArm_mem (probs : Nat → F) :
    ∀ (l : List Nat) (p : F) (i : Nat), sampleArm A probs l p = some i → i ∈ l := by
  intro l
  induction l with
  | nil => intro p i h; simp [sampleArm] at h
  | cons j rest ih =>
    intro p i h
    unfold sampleArm at h
    split at h
    · have hij : j = i := by simpa using h
      exact hij ▸ List.mem_cons_self
    · exact List.mem_cons_of_mem _ (ih _ _ h)

theorem bestSample_range (c : TsCtl F) (gauss : Nat → F) (maxCap : Nat) :
    ∀ (l : List Nat) (m : F) (cap : Nat), (∀ i ∈ l, 1 ≤ i ∧ i ≤ maxCap) → 1 ≤ cap → cap ≤ maxCap →
      1 ≤ bestSample A c gauss l m cap ∧ bestSample A c gauss l m cap ≤ maxCap := by
  intro l
  induction l with
  | nil => intro m cap _ h1 h2; exact ⟨h1, h2⟩
  | cons i rest ih =>
    intro m cap hl h1 h2
    have hrest : ∀ j ∈ rest, 1 ≤ j ∧ j ≤ maxCap := fun j hj => hl j (List.mem_cons_of_mem _ hj)
    have hi := hl i List.mem_cons_self
    unfold bestSample
    dsimp only
    split
    · exact ih _ i hrest hi.1 hi.2
    · exact ih _ cap hrest h1 h2

theorem updateCapacity_keepsRange : KeepsRange (updateCapacity A) := by
  intro c cap maxCap d h1 h2
  simp only [updateCapacity]
  split
  · exact ⟨h1, h2⟩
  · split
    · -- exploration only ever picks an arm up to the current one
      cases hs : sampleArm A _ (arms cap) (unitDraw A.toArith d.pick) with
      | none => exact ⟨h1, h2⟩
      | some i =>
        have hi := mem_arms.mp (sampleArm_mem A _ _ _ _ hs)
        exact ⟨hi.1, Nat.le_trans hi.2 h2⟩
    · exact bestSample_range A _ _ maxCap _ _ cap (fun _ hi => mem_arms.mp hi) h1 h2

end TsCtl

end Svalinn.Msem
