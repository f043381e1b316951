/-
  Msem/Reward.lean --- when the rewards of the memory semaphore are numbers.

  Source: `UpdateCapacity` of `MemSemaphoreMabEgImpl` and `MemSemaphoreMabTsImpl`
  (`m-semaphore/src`), as modelled in `Msem/Controller.lean`.

  The controllers run here in exact arithmetic over an ordered field in which a quotient by
  zero is no number.  They divide by the time since the last control step, by the largest
  bandwidth seen so far and by the number of arms.  The largest bandwidth starts at zero: if
  the first control step sees no memory access, its reward is zero divided by zero, and that
  stays in the statistics of the arm.
-/
import Svalinn.Msem.Semaphore
import Mathlib.Algebra.Order.Field.Basic

set_option autoImplicit false

namespace Svalinn.Msem

open Svalinn.Lib

section Exact

variable {F : Type} [Field F] [LinearOrder F]

def exactDiv : Option F → Option F → Option F
  | some x, some y => if y = 0 then none else some (x / y)
  | _, _ => none

def exactLt : Option F → Option F → Bool
  | some x, some y => decide (x < y)
  | _, _ => false

/-- Exact arithmetic with `none` for what is no number. -/
def exactArith (sqrt exp : F → F) : ArithExt (Option F) where
  ofNat n := some n
  lit a b := some (a / b)
  add := Option.map₂ (· + ·)
  sub := Option.map₂ (· - ·)
  mul := Option.map₂ (· * ·)
  div := exactDiv
  lt := exactLt
  sqrt := Option.map sqrt
  exp := Option.map exp

variable (sqrt exp : F → F) (x y : Option F)

@[simp] theorem exact_lit (a : Int) (b : Nat) : (exactArith sqrt exp).lit a b = some (a / b : F) := rfl

@[simp] theorem exact_ofNat (n : Nat) : (exactArith sqrt exp).ofNat n = some (n : F) := rfl

@[simp] theorem exact_add_isSome : ((exactArith sqrt exp).add x y).isSome ↔ x.isSome ∧ y.isSome := by
  cases x <;> cases y <;> simp [exactArith]

@[simp] theorem exact_sub_isSome : ((exactArith sqrt exp).sub x y).isSome ↔ x.isSome ∧ y.isSome := by
  cases x <;> cases y <;> simp [exactArith]

@[simp] theorem exact_mul_isSome : ((exactArith sqrt exp).mul x y).isSome ↔ x.isSome ∧ y.isSome := by
  cases x <;> cases y <;> simp [exactArith]

@[simp] theorem exact_div_isSome (z : F) :
    ((exactArith sqrt exp).div x (some z)).isSome ↔ x.isSome ∧ z ≠ 0 := by
  cases x with
  | none => simp [exactArith, exactDiv]
  | some x =>
    by_cases hz : z = 0
    · simp [exactArith, exactDiv, hz]
    · simp [exactArith, exactDiv, hz]

/-- `std::min` returns its first argument unless the second is less. -/
@[simp] theorem exact_min_isSome (z : F) :
    ((exactArith sqrt exp).min x (some z)).isSome ↔ x.isSome := by
  unfold Arith.min
  cases x with
  | none => simp [exactArith, exactLt]
  | some x =>
    split
    · simp
    · simp

end Exact

/-! ## What the controllers measure -/

/-- The fields that both controllers measure the bandwidth with. -/
structure Gauge (F : Type) where
  maxMembw : F
  lastBytes : Nat
  lastTime : Nat

def EgCtl.gauge {F : Type} (c : EgCtl F) : Gauge F := ⟨c.maxMembw, c.lastBytes, c.lastTime⟩

def TsCtl.gauge {F : Type} (c : TsCtl F) : Gauge F := ⟨c.maxMembw, c.lastBytes, c.lastTime⟩

namespace Gauge

section Any

variable {F : Type}

def Controls (g : Gauge F) (d : Draw F) : Prop := ¬ sub64 d.now g.lastTime < ctlDelayUs

/-- Neither the clock nor the counter of memory accesses goes back; both have 64 bits. -/
def Readings (g : Gauge F) (d : Draw F) : Prop :=
  g.lastTime ≤ d.now ∧ d.now < 2 ^ 64 ∧ g.lastBytes ≤ d.bytes ∧ d.bytes < 2 ^ 64

/-- `membw`. -/
def measured (A : Arith F) (g : Gauge F) (d : Draw F) : F := membw A g.lastBytes g.lastTime d

/-- `m_max_membw` after the update. -/
def peak (A : Arith F) (g : Gauge F) (d : Draw F) : F :=
  if A.lt g.maxMembw (g.measured A d) then g.measured A d else g.maxMembw

def divisors (A : Arith F) (g : Gauge F) (maxCap : Nat) (d : Draw F) : List F :=
  [A.ofNat (sub64 d.now g.lastTime), g.peak A d, A.ofNat maxCap]

end Any

variable {F : Type} [Field F] [LinearOrder F]

def Counted (g : Gauge (Option F)) (d : Draw (Option F)) : Prop :=
  g.Controls d → g.lastBytes < d.bytes ∨ g.maxMembw ≠ some 0

def Sound (g : Gauge (Option F)) : Prop := ∃ m : F, 0 ≤ m ∧ g.maxMembw = some m

end Gauge

def Nonzero {F : Type} [Zero F] (divisors : List (Option F)) : Prop :=
  ∀ x ∈ divisors, ∃ y : F, y ≠ 0 ∧ x = some y

section Measure

variable {F : Type} [Field F] [LinearOrder F] [IsStrictOrderedRing F] (sqrt exp : F → F)
  {g : Gauge (Option F)} {d : Draw (Option F)} {m : F}

omit [Field F] [LinearOrder F] [IsStrictOrderedRing F] in
theorem elapsed_pos (hc : g.Controls d) : 0 < sub64 d.now g.lastTime :=
  Nat.lt_of_lt_of_le (by decide) (Nat.le_of_not_lt hc)

theorem measured_eq (hc : g.Controls d) : g.measured (exactArith sqrt exp).toArith d =
    some ((sub64 d.bytes g.lastBytes : F) / (sub64 d.now g.lastTime : F)) :=
  if_neg (Nat.cast_ne_zero.2 (Nat.ne_of_gt (elapsed_pos hc)))

theorem peak_eq (hc : g.Controls d) (hm : g.maxMembw = some m) :
    g.peak (exactArith sqrt exp).toArith d =
      some (max m ((sub64 d.bytes g.lastBytes : F) / (sub64 d.now g.lastTime : F))) := by
  unfold Gauge.peak
  rw [measured_eq sqrt exp hc, hm]
  generalize (sub64 d.bytes g.lastBytes : F) / (sub64 d.now g.lastTime : F) = bw
  have hlt : (exactArith sqrt exp).lt (some m) (some bw) = decide (m < bw) := rfl
  rw [hlt]
  grind

theorem peak_ne_zero_iff (hc : g.Controls d) (hr : g.Readings d) (hm : g.maxMembw = some m)
    (hpos : 0 ≤ m) :
    max m ((sub64 d.bytes g.lastBytes : F) / (sub64 d.now g.lastTime : F)) ≠ 0 ↔ g.Counted d := by
  have helapsed : (0 : F) < (sub64 d.now g.lastTime : F) := Nat.cast_pos.2 (elapsed_pos hc)
  have hbytes : 0 < sub64 d.bytes g.lastBytes ↔ g.lastBytes < d.bytes := by
    obtain ⟨-, -, hle, hlt⟩ := hr
    unfold sub64
    omega
  have hbw : 0 ≤ (sub64 d.bytes g.lastBytes : F) / (sub64 d.now g.lastTime : F) :=
    div_nonneg (Nat.cast_nonneg _) helapsed.le
  have hcounted : g.Counted d ↔ g.lastBytes < d.bytes ∨ m ≠ 0 := by
    unfold Gauge.Counted
    rw [hm, forall_prop_of_true hc, Ne, Option.some.injEq]
  rw [hcounted, ← hbytes, ← (le_max_of_le_left hpos).lt_iff_ne', lt_max_iff, or_comm,
    div_pos_iff_of_pos_right helapsed, Nat.cast_pos, hpos.lt_iff_ne']

theorem divisors_nonzero_iff {maxCap : Nat} (hmax : 1 ≤ maxCap) (hc : g.Controls d) (hr : g.Readings d)
    (hg : g.Sound) :
    Nonzero (g.divisors (exactArith sqrt exp).toArith maxCap d) ↔ g.Counted d := by
  obtain ⟨m, hpos, hm⟩ := hg
  rw [← peak_ne_zero_iff hc hr hm hpos]
  unfold Gauge.divisors
  rw [peak_eq sqrt exp hc hm]
  generalize max m ((sub64 d.bytes g.lastBytes : F) / (sub64 d.now g.lastTime : F)) = peak
  constructor
  · intro h
    obtain ⟨y, hy, heq⟩ := h (some peak) (by simp)
    rwa [Option.some.inj heq]
  · intro hpeak x hx
    simp only [List.mem_cons, List.not_mem_nil, or_false] at hx
    obtain rfl | rfl | rfl := hx
    · exact ⟨_, Nat.cast_ne_zero.2 (Nat.ne_of_gt (elapsed_pos hc)), rfl⟩
    · exact ⟨peak, hpeak, rfl⟩
    · exact ⟨_, Nat.cast_ne_zero.2 (Nat.ne_of_gt hmax), rfl⟩

theorem reward_isSome_iff {maxCap : Nat} (hmax : 1 ≤ maxCap) (bw peak : F) (cap : Nat) :
    (reward (exactArith sqrt exp).toArith (some bw) (some peak) cap maxCap).isSome ↔ peak ≠ 0 := by
  have hcap : maxCap ≠ 0 := Nat.ne_of_gt hmax
  simp [reward, hcap]

/-! ## One control step -/

theorem sound_peak (hc : g.Controls d) (hg : g.Sound) :
    (⟨g.peak (exactArith sqrt exp).toArith d, d.bytes, d.now⟩ : Gauge (Option F)).Sound := by
  obtain ⟨m, hpos, hm⟩ := hg
  exact ⟨_, le_max_of_le_left hpos, peak_eq sqrt exp hc hm⟩

theorem reward_counted_iff {maxCap : Nat} (hmax : 1 ≤ maxCap) (cap : Nat) (hc : g.Controls d)
    (hr : g.Readings d) (hg : g.Sound) :
    (reward (exactArith sqrt exp).toArith (g.measured (exactArith sqrt exp).toArith d)
      (g.peak (exactArith sqrt exp).toArith d) cap maxCap).isSome ↔ g.Counted d := by
  obtain ⟨m, hpos, hm⟩ := hg
  rw [measured_eq sqrt exp hc, peak_eq sqrt exp hc hm, reward_isSome_iff sqrt exp hmax,
    peak_ne_zero_iff hc hr hm hpos]

end Measure

/-! ## The two controllers -/

/-- Calls of `UpdateCapacity` on the controller and the capacity. -/
def updateStep {C F : Type} (u : Update C F) (maxCap : Nat) (s : C × Nat) (d : Draw F) : Option (C × Nat) :=
  some (u s.1 s.2 maxCap d)

section Calls

variable {F : Type}

theorem EgCtl.updateCapacity_ctl (A : Arith F) (c : EgCtl F) (cap maxCap : Nat) (d : Draw F)
    (hc : c.gauge.Controls d) : (EgCtl.updateCapacity A c cap maxCap d).1 =
      { maxMembw := c.gauge.peak A d
        ewmaRewards := Function.update c.ewmaRewards cap
          (A.add (A.mul (A.sub (A.lit 1 1) (A.lit 8 10)) (c.ewmaRewards cap))
            (A.mul (A.lit 8 10) (reward A (c.gauge.measured A d) (c.gauge.peak A d) cap maxCap)))
        lastBytes := d.bytes, lastTime := d.now } := by
  have hdue : ¬ sub64 d.now c.lastTime < ctlDelayUs := hc
  unfold EgCtl.updateCapacity
  rw [if_neg hdue]
  rfl

theorem TsCtl.learn_sample (A : ArithExt F) (c : TsCtl F) (cap : Nat) (r peak : F) :
    (TsCtl.learn A c cap r peak).samples cap (c.samplesIdx cap) = r := by
  simp [TsCtl.learn]

theorem TsCtl.updateCapacity_ctl (A : ArithExt F) (c : TsCtl F) (cap maxCap : Nat) (d : Draw F)
    (hc : c.gauge.Controls d) : ∃ probs, (TsCtl.updateCapacity A c cap maxCap d).1 =
      { TsCtl.learn A c cap (A.mul (A.lit 100 1) (reward A.toArith (c.gauge.measured A.toArith d)
          (c.gauge.peak A.toArith d) cap maxCap)) (c.gauge.peak A.toArith d) with
        lastBytes := d.bytes, lastTime := d.now, softmaxProbs := probs } := by
  have hdue : ¬ sub64 d.now c.lastTime < ctlDelayUs := hc
  unfold TsCtl.updateCapacity
  rw [if_neg hdue]
  dsimp only
  split
  · exact ⟨_, rfl⟩
  · exact ⟨c.softmaxProbs, rfl⟩

theorem EgCtl.updateCapacity_early (A : Arith F) (c : EgCtl F) (cap maxCap : Nat) (d : Draw F)
    (hc : ¬ c.gauge.Controls d) : EgCtl.updateCapacity A c cap maxCap d = (c, cap) :=
  if_pos (Decidable.not_not.1 hc)

theorem TsCtl.updateCapacity_early (A : ArithExt F) (c : TsCtl F) (cap maxCap : Nat) (d : Draw F)
    (hc : ¬ c.gauge.Controls d) : TsCtl.updateCapacity A c cap maxCap d = (c, cap) :=
  if_pos (Decidable.not_not.1 hc)

end Calls

section Controllers

variable {F : Type} [Field F] [LinearOrder F] [IsStrictOrderedRing F] (sqrt exp : F → F)

def EgCtl.Defined (c : EgCtl (Option F)) : Prop := ∀ a, (c.ewmaRewards a).isSome

/-- Every sample is a number, and so is what is computed from the samples. -/
structure TsCtl.Defined (c : TsCtl (Option F)) : Prop where
  samples : ∀ a j, (c.samples a j).isSome
  sums : ∀ a, (c.sums a).isSome
  means : ∀ a, (c.means a).isSome
  vars : ∀ a, (c.vars a).isSome

variable {maxCap : Nat} (hmax : 1 ≤ maxCap) {d : Draw (Option F)}
include hmax

theorem EgCtl.defined_iff {c : EgCtl (Option F)} (cap : Nat) (hc : c.gauge.Sound) (hdef : c.Defined)
    (hr : c.gauge.Readings d) :
    (EgCtl.updateCapacity (exactArith sqrt exp).toArith c cap maxCap d).1.gauge.Sound ∧
    ((EgCtl.updateCapacity (exactArith sqrt exp).toArith c cap maxCap d).1.Defined ↔
      c.gauge.Counted d) := by
  by_cases hdue : c.gauge.Controls d
  · rw [EgCtl.updateCapacity_ctl _ c cap maxCap d hdue, ← reward_counted_iff sqrt exp hmax cap hdue hr hc]
    refine ⟨sound_peak sqrt exp hdue hc, fun h => ?_, fun h a => ?_⟩
    · have hcap := ((Function.forall_update_iff c.ewmaRewards (p := fun _ x => x.isSome)).1 h).1
      rw [exact_add_isSome, exact_mul_isSome, exact_mul_isSome] at hcap
      exact hcap.2.2
    · refine (Function.forall_update_iff c.ewmaRewards (p := fun _ x => x.isSome)).2
        ⟨?_, fun a _ => hdef a⟩ a
      simp [h, hdef cap]
  · rw [EgCtl.updateCapacity_early _ c cap maxCap d hdue]
    exact ⟨hc, iff_of_true hdef fun h => absurd h hdue⟩

omit hmax in
theorem posterior_var_isSome (n : Nat) : ((exactArith sqrt exp).div ((exactArith sqrt exp).lit 1 1)
    ((exactArith sqrt exp).add
      ((exactArith sqrt exp).div ((exactArith sqrt exp).lit 1 1) (TsCtl.sigma0Sq (exactArith sqrt exp)))
      ((exactArith sqrt exp).div ((exactArith sqrt exp).ofNat n)
        (TsCtl.sigmaSq (exactArith sqrt exp))))).isSome := by
  have hpos : (0 : F) < 1 / 625 + (n : F) / 25 := by positivity
  have hsum : (exactArith sqrt exp).add
      ((exactArith sqrt exp).div ((exactArith sqrt exp).lit 1 1) (TsCtl.sigma0Sq (exactArith sqrt exp)))
      ((exactArith sqrt exp).div ((exactArith sqrt exp).ofNat n) (TsCtl.sigmaSq (exactArith sqrt exp))) =
      some (1 / 625 + (n : F) / 25) := by
    simp [TsCtl.sigma0Sq, TsCtl.sigmaSq, exactDiv, exactArith]
  rw [hsum, exact_div_isSome]
  exact ⟨rfl, hpos.ne'⟩

omit hmax in
theorem TsCtl.Defined.learn {c : TsCtl (Option F)} (hdef : c.Defined) (cap : Nat) {r : Option F}
    (hr : r.isSome) (peak : Option F) : (TsCtl.learn (exactArith sqrt exp) c cap r peak).Defined := by
  have hsum : ((exactArith sqrt exp).sub ((exactArith sqrt exp).add (c.sums cap) r)
      (c.samples cap (c.samplesIdx cap))).isSome := by
    simp [hr, hdef.sums cap, hdef.samples cap]
  have hvar := posterior_var_isSome sqrt exp (Nat.min (c.counts cap + 1) windowSz)
  refine ⟨?_, ?_, ?_, ?_⟩
  · refine (Function.forall_update_iff c.samples (p := fun _ w => ∀ j, (w j).isSome)).2
      ⟨?_, fun a _ => hdef.samples a⟩
    exact (Function.forall_update_iff (c.samples cap) (p := fun _ x => x.isSome)).2
      ⟨hr, fun j _ => hdef.samples cap j⟩
  · exact (Function.forall_update_iff c.sums (p := fun _ x => x.isSome)).2
      ⟨hsum, fun a _ => hdef.sums a⟩
  · refine (Function.forall_update_iff c.means (p := fun _ x => x.isSome)).2
      ⟨?_, fun a _ => hdef.means a⟩
    refine (exact_mul_isSome ..).2 ⟨hvar, (exact_add_isSome ..).2 ⟨?_, ?_⟩⟩
    · simp [TsCtl.mu0, TsCtl.sigma0Sq]
    · simp [TsCtl.sigmaSq, hsum]
  · exact (Function.forall_update_iff c.vars (p := fun _ x => x.isSome)).2
      ⟨hvar, fun a _ => hdef.vars a⟩

theorem TsCtl.defined_iff {c : TsCtl (Option F)} (cap : Nat) (hc : c.gauge.Sound) (hdef : c.Defined)
    (hr : c.gauge.Readings d) :
    (TsCtl.updateCapacity (exactArith sqrt exp) c cap maxCap d).1.gauge.Sound ∧
    ((TsCtl.updateCapacity (exactArith sqrt exp) c cap maxCap d).1.Defined ↔ c.gauge.Counted d) := by
  by_cases hdue : c.gauge.Controls d
  · obtain ⟨probs, hnext⟩ := TsCtl.updateCapacity_ctl (exactArith sqrt exp) c cap maxCap d hdue
    rw [hnext, ← reward_counted_iff sqrt exp hmax cap hdue hr hc]
    refine ⟨sound_peak sqrt exp hdue hc, fun h => ?_, fun h => ?_⟩
    · have hsample := h.samples cap (c.samplesIdx cap)
      dsimp only at hsample
      rw [TsCtl.learn_sample, exact_mul_isSome] at hsample
      exact hsample.2
    · have hreward := (exact_mul_isSome sqrt exp ((exactArith sqrt exp).lit 100 1) _).2 ⟨rfl, h⟩
      have hlearned := hdef.learn sqrt exp cap hreward (c.gauge.peak (exactArith sqrt exp).toArith d)
      exact ⟨hlearned.samples, hlearned.sums, hlearned.means, hlearned.vars⟩
  · rw [TsCtl.updateCapacity_early _ c cap maxCap d hdue]
    exact ⟨hc, iff_of_true hdef fun h => absurd h hdue⟩

omit hmax [IsStrictOrderedRing F] in
theorem gauge_sound_init (bytes now : Nat) :
    (⟨(exactArith sqrt exp).lit 0 1, bytes, now⟩ : Gauge (Option F)).Sound :=
  ⟨_, by simp, rfl⟩

theorem runs_defined {C : Type} {u : Update C (Option F)} (gauge : C → Gauge (Option F))
    (Defined : C → Prop)
    (hcall : ∀ c cap d, (gauge c).Sound → Defined c → (gauge c).Readings d →
      (gauge (u c cap maxCap d).1).Sound ∧ (Defined (u c cap maxCap d).1 ↔ (gauge c).Counted d))
    {s₀ s : C × Nat} (hsound : (gauge s₀.1).Sound) (hdef : Defined s₀.1)
    (hreach : Reaches (updateStep u maxCap)
      (fun s d => (gauge s.1).Readings d ∧ (gauge s.1).Counted d) s₀ s) :
    Defined s.1 ∧ ∀ d, (gauge s.1).Readings d → ((gauge s.1).Controls d →
        (Nonzero ((gauge s.1).divisors (exactArith sqrt exp).toArith maxCap d) ↔
          (gauge s.1).Counted d)) ∧
      (Defined (u s.1 s.2 maxCap d).1 ↔ (gauge s.1).Counted d) := by
  have hinv : (gauge s.1).Sound ∧ Defined s.1 := by
    refine hreach.invariant (P := fun s => (gauge s.1).Sound ∧ Defined s.1) ⟨hsound, hdef⟩
      fun v d w h hok hstep => ?_
    cases hstep
    obtain ⟨hnext, hdefined⟩ := hcall v.1 v.2 d h.1 h.2 hok.1
    exact ⟨hnext, hdefined.2 hok.2⟩
  refine ⟨hinv.2, fun d hr => ⟨fun hc => divisors_nonzero_iff sqrt exp hmax hc hr hinv.1, ?_⟩⟩
  exact (hcall s.1 s.2 d hinv.1 hinv.2 hr).2

/-- In every run whose first control step has seen a memory access all rewards are numbers; a
control step divides by zero exactly if there has been no access up to it. -/
theorem rewards_defined_iff (bytes now cap : Nat) :
    (∀ s, Reaches (updateStep (EgCtl.updateCapacity (exactArith sqrt exp).toArith) maxCap)
        (fun s d => s.1.gauge.Readings d ∧ s.1.gauge.Counted d)
        (EgCtl.init (exactArith sqrt exp).toArith bytes now, cap) s →
      s.1.Defined ∧ ∀ d, s.1.gauge.Readings d → (s.1.gauge.Controls d →
          (Nonzero (s.1.gauge.divisors (exactArith sqrt exp).toArith maxCap d) ↔ s.1.gauge.Counted d)) ∧
        ((EgCtl.updateCapacity (exactArith sqrt exp).toArith s.1 s.2 maxCap d).1.Defined ↔
          s.1.gauge.Counted d)) ∧
    (∀ s, Reaches (updateStep (TsCtl.updateCapacity (exactArith sqrt exp)) maxCap)
        (fun s d => s.1.gauge.Readings d ∧ s.1.gauge.Counted d)
        (TsCtl.init (exactArith sqrt exp) bytes now, cap) s →
      s.1.Defined ∧ ∀ d, s.1.gauge.Readings d → (s.1.gauge.Controls d →
          (Nonzero (s.1.gauge.divisors (exactArith sqrt exp).toArith maxCap d) ↔ s.1.gauge.Counted d)) ∧
        ((TsCtl.updateCapacity (exactArith sqrt exp) s.1 s.2 maxCap d).1.Defined ↔
          s.1.gauge.Counted d)) := by
  constructor
  · intro s hreach
    refine runs_defined sqrt exp hmax EgCtl.gauge EgCtl.Defined (fun c cap d hc hdef hr => ?_) ?_ ?_ hreach
    · exact EgCtl.defined_iff sqrt exp hmax cap hc hdef hr
    · exact gauge_sound_init sqrt exp bytes now
    · exact fun _ => rfl
  · intro s hreach
    refine runs_defined sqrt exp hmax TsCtl.gauge TsCtl.Defined (fun c cap d hc hdef hr => ?_) ?_ ?_ hreach
    · exact TsCtl.defined_iff sqrt exp hmax cap hc hdef hr
    · exact gauge_sound_init sqrt exp bytes now
    · exact ⟨fun _ _ => rfl, fun _ => rfl, fun _ => rfl, fun _ => rfl⟩

end Controllers

/-- A control step at time 1000 that has read `bytes`. -/
def atThousand (bytes : Nat) : Draw (Option Rat) := ⟨1000, bytes, 1000, 0, fun _ => some 0⟩

/-- With an access in the first interval both controllers store a number. -/
theorem rewards_defined_busy : 1 ≤ 2 ∧ (EgCtl.updateCapacity (exactArith (F := Rat) id id).toArith
      (EgCtl.init (exactArith id id).toArith 0 0) 1 2 (atThousand 4000)).1.Defined ∧
    (TsCtl.updateCapacity (exactArith (F := Rat) id id)
      (TsCtl.init (exactArith id id) 0 0) 1 2 (atThousand 4000)).1.Defined := by
  have hdefined := rewards_defined_iff (F := Rat) id id (by decide : 1 ≤ 2) 0 0 1
  have hr : ∀ m : Option Rat, (⟨m, 0, 0⟩ : Gauge (Option Rat)).Readings (atThousand 4000) :=
    fun _ => ⟨Nat.zero_le _, by decide, Nat.zero_le _, by decide⟩
  refine ⟨by decide, ?_, ?_⟩
  · exact (((hdefined.1 _ .refl).2 _ (hr _)).2).2 fun _ => .inl (by decide)
  · exact (((hdefined.2 _ .refl).2 _ (hr _)).2).2 fun _ => .inl (by decide)

/-- With an idle first interval both divide by a largest bandwidth of zero and what they store
for arm 1 is no number. -/
theorem idle_interval_divides_by_zero :
    (EgCtl.init (exactArith (F := Rat) id id).toArith 0 0).gauge.peak
      (exactArith id id).toArith (atThousand 0) = some 0 ∧
    (EgCtl.updateCapacity (exactArith (F := Rat) id id).toArith
      (EgCtl.init (exactArith id id).toArith 0 0) 1 2 (atThousand 0)).1.ewmaRewards 1 = none ∧
    (TsCtl.updateCapacity (exactArith (F := Rat) id id)
      (TsCtl.init (exactArith id id) 0 0) 1 2 (atThousand 0)).1.samples 1 0 = none := by
  have hdue : (EgCtl.init (exactArith (F := Rat) id id).toArith 0 0).gauge.Controls (atThousand 0) :=
    (by decide : ¬ sub64 1000 0 < ctlDelayUs)
  have hzero : (exactArith (F := Rat) id id).lit 0 1 = some 0 := by simp
  have hpeak : (EgCtl.init (exactArith (F := Rat) id id).toArith 0 0).gauge.peak
      (exactArith id id).toArith (atThousand 0) = some 0 := by
    refine (peak_eq id id hdue hzero).trans ?_
    simp [atThousand, sub64, EgCtl.gauge, EgCtl.init]
  have hreward : reward (exactArith (F := Rat) id id).toArith
      ((EgCtl.init (exactArith (F := Rat) id id).toArith 0 0).gauge.measured
        (exactArith id id).toArith (atThousand 0)) (some 0) 1 2 = none := by
    rw [measured_eq id id hdue, ← Option.not_isSome_iff_eq_none, reward_isSome_iff id id (by decide)]
    exact not_not.2 rfl
  refine ⟨hpeak, ?_, ?_⟩
  · rw [EgCtl.updateCapacity_ctl _ _ 1 2 _ hdue, hpeak, hreward]
    simp [exactArith]
  · obtain ⟨probs, hnext⟩ := TsCtl.updateCapacity_ctl (exactArith (F := Rat) id id)
      (TsCtl.init (exactArith id id) 0 0) 1 2 (atThousand 0) hdue
    have hgauge : (TsCtl.init (exactArith (F := Rat) id id) 0 0).gauge =
        (EgCtl.init (exactArith id id).toArith 0 0).gauge := rfl
    rw [hnext, hgauge, hpeak, hreward]
    exact TsCtl.learn_sample (exactArith (F := Rat) id id) (TsCtl.init (exactArith id id) 0 0) 1 none (some 0)

end Svalinn.Msem
