/-
  Iokernel/Ias.lean --- guaranteed cores under the interference-aware policy.

  Source: `iokernel/ias.c` (`ias_attach`, `ias_detach`, `ias_cleanup_core`,
  `ias_run_kthread_on_core`, `ias_idle_on_core`, `ias_idle_placeholder_on_core`,
  `ias_can_preempt_core`, `ias_locality_score`, `ias_core_score`, `ias_choose_core`,
  `ias_init`), `iokernel/ias_ht.c` (`ias_ht_poll_one`) and the check of the guarantees in
  `iokernel/sched.c` (`sched_attach_proc`, `sched_detach_proc`).

  The answers of the scheduler below the policy (whether a kthread can be run or a core be
  idled) come with the event.  Scores are computed in floating point: every operation is the
  exact one followed by a rounding, of which only monotonicity is used.
-/
import Mathlib.Algebra.Notation.Lemmas
import Mathlib.Tactic.Positivity
import Mathlib.Data.Prod.Lex
import Svalinn.Iokernel.Sched
import Svalinn.Lib.Machine
import Svalinn.Lib.Shares

set_option autoImplicit false

namespace Svalinn.Iokernel.Ias

open Svalinn.Lib Function

/-! ## The model -/

/-- A rounding mode of a floating-point format, on the values that occur. -/
structure Rounding where
  round : ℚ → ℚ
  mono : Monotone round
  zero : round 0 = 0

structure Config extends Machine where
  /-- `cfg.ias_prefer_selfpair` -/
  preferSelfpair : Bool
  /-- `float` -/
  single : Rounding
  /-- `double` -/
  double : Rounding

/-- `struct ias_data`, the fields that decide which core a process gets. -/
structure IasData where
  isLc : Bool
  reservedCores : Finset Nat
  threadsGuaranteed : Int
  threadsActive : Int
  locLastUs : Nat → Nat
  htPunishUs : Nat

structure State where
  /-- `all_procs` -/
  allProcs : List Nat
  data : Nat → IasData
  /-- `sched_cfg.guaranteed_cores` of each process, an `unsigned int` -/
  guaranteedCores : Nat → BitVec 32
  /-- `ias_idle_cores` -/
  idleCores : Finset Nat
  /-- `ias_reserved_cores` -/
  reservedCores : Finset Nat
  cores : Nat → Option Nat
  nowUs : Nat
  /-- `ias_ht_percore[].budget_used` -/
  budgetUsed : Nat → ℚ
  nrGuaranteed : BitVec 32

def State.modData (s : State) (p : Nat) (f : IasData → IasData) : State :=
  { s with data := update s.data p (f (s.data p)) }

/-- `bitmap_find_next_cleared` from bit 0. -/
def findCleared (bits : Finset Nat) : Nat := ((List.range ncpu).find? (· ∉ bits)).getD ncpu

/-- The loop of `ias_attach`: the cores reserved by the process and by anyone, and whether
there were enough. -/
def reserve (m : Machine) : Nat → Finset Nat → Finset Nat → Finset Nat × Finset Nat × Bool
  | 0, own, all => (own, all, true)
  | 1, own, all =>
    let core := findCleared all
    if core = ncpu then (own, all, false)
    else if m.noht then (insert core own, insert core all, true)
    else
      let sib := m.siblings core
      (insert sib (insert core own), insert sib (insert core all), true)
  | i + 2, own, all =>
    let core := findCleared all
    if core = ncpu then (own, all, false)
    else if m.noht then reserve m (i + 1) (insert core own) (insert core all)
    else
      let sib := m.siblings core
      reserve m i (insert sib (insert core own)) (insert sib (insert core all))

/-- The part of a process's `sched_cfg` that the policy keeps. -/
structure Spec where
  isLc : Bool
  guaranteedCores : BitVec 32
  htPunishUs : Nat

/-- `ias_attach`, and whether it succeeded; `malloc` answers from outside.  The number of
guaranteed cores becomes an `int`, and a negative one reserves nothing. -/
def iasAttach (m : Machine) (s : State) (p : Nat) (spec : Spec) (malloc : Bool) : State × Bool :=
  if !m.noht && spec.guaranteedCores.toNat % 2 != 0 then (s, false)
  else if !malloc then (s, false)
  else
    let r := reserve m spec.guaranteedCores.toInt.toNat ∅ s.reservedCores
    if r.2.2 then
      ({ s with
        allProcs := p :: s.allProcs
        guaranteedCores := update s.guaranteedCores p spec.guaranteedCores
        reservedCores := r.2.1
        data := update s.data p ⟨spec.isLc, r.1, spec.guaranteedCores.toInt, 0, fun _ => 0,
            if spec.isLc then spec.htPunishUs else 0⟩ }, true)
    else ({ s with reservedCores := symmDiff r.2.1 r.1 }, false)

def schedAttachProc (m : Machine) (s : State) (p : Nat) (spec : Spec) (malloc : Bool) : State :=
  if m.cores.length < (spec.guaranteedCores + s.nrGuaranteed).toNat then s
  else
    let r := iasAttach m s p spec malloc
    if r.2 then { r.1 with nrGuaranteed := r.1.nrGuaranteed + spec.guaranteedCores } else r.1

def iasDetach (s : State) (p : Nat) : State :=
  { s with
    allProcs := s.allProcs.erase p
    reservedCores := symmDiff s.reservedCores (s.data p).reservedCores
    cores := fun c => if s.cores c = some p then none else s.cores c }

def schedDetachProc (s : State) (p : Nat) : State :=
  { iasDetach s p with nrGuaranteed := s.nrGuaranteed - s.guaranteedCores p }

def iasCleanupCore (s : State) (core : Nat) : State :=
  let s' := match s.cores core with
    | some p => s.modData p fun d =>
      { d with
        locLastUs := update d.locLastUs core s.nowUs
        threadsActive := d.threadsActive - 1 }
    | none => s
  { s' with cores := update s'.cores core none }

def accountCore (s : State) (p core : Nat) : State :=
  { s.modData p fun d => { d with threadsActive := d.threadsActive + 1 } with
    cores := update s.cores core (some p) }

/-- `ias_run_kthread_on_core`; `avail` is the answer of `sched_threads_avail`, `ran` that of
`sched_run_on_core`, which refuses cores that are not allowed. -/
def iasRunKthreadOnCore (m : Machine) (s : State) (p core : Nat) (avail ran : Bool) : State :=
  if !avail then s
  else if !(ran && decide (core ∈ m.cores)) then s
  else
    let s := accountCore (iasCleanupCore s core) p core
    { s with idleCores := s.idleCores.erase core }

def canIdle (m : Machine) (s : State) (core : Nat) (idled : Bool) : Bool :=
  decide (core ∈ s.idleCores) || (idled && decide (core ∈ m.cores))

/-- `ias_idle_placeholder_on_core`; `idled` is the answer of `sched_idle_on_core`. -/
def iasIdlePlaceholderOnCore (m : Machine) (s : State) (p core : Nat) (idled : Bool) : State :=
  if canIdle m s core idled then
    let s := accountCore (iasCleanupCore s core) p core
    { s with idleCores := insert core s.idleCores }
  else s

def iasIdleOnCore (m : Machine) (s : State) (core : Nat) (idled : Bool) : State :=
  if canIdle m s core idled then
    let s := iasCleanupCore s core
    { s with idleCores := insert core s.idleCores }
  else s

def iasCanPreemptCore (s : State) (p core : Nat) : Bool :=
  match s.cores core with
  | none => true
  | some cur =>
    if p = cur then false
    else if core ∈ (s.data cur).reservedCores then false
    else if (s.data cur).isLc && !(s.data p).isLc then false
    else if (s.data cur).isLc = (s.data p).isLc ∧
        (s.data cur).threadsActive - (s.data cur).threadsGuaranteed ≤
          (s.data p).threadsActive - (s.data p).threadsGuaranteed + 1 then false
    else true

def iasLocEvictedUs : Nat := 100

section Scores

variable (cfg : Config) (s : State) (p core : Nat)

def iasLocalityScore : ℚ :=
  let sib := cfg.siblings core
  if !cfg.noht && s.cores sib == some p then 1
  else
    let loc := (s.data p).locLastUs
    let deltaUs := sub64 s.nowUs (max (loc core) (if cfg.noht then 0 else loc sib))
    if iasLocEvictedUs ≤ deltaUs then 0
    else cfg.single.round (((iasLocEvictedUs - deltaUs : Nat) : ℚ) / iasLocEvictedUs)

def iasCoreScore : ℚ :=
  let score := iasLocalityScore cfg s p core
  let score := if core ∈ (s.data p).reservedCores then cfg.single.round (score + 7) else score
  if cfg.noht then score
  else
    let sib := cfg.siblings core
    let score :=
      if !cfg.preferSelfpair && s.cores sib != some p then
        let score := cfg.single.round (score + 3)
        if s.cores sib = none ∧ s.cores core = none then cfg.single.round (score + 2) else score
      else score
    -- the bias is computed in `double` and added to the `float`
    cfg.single.round (cfg.double.round (score + cfg.double.round (1 - min 1 (s.budgetUsed sib))))

end Scores

/-- The loop of `ias_choose_core` with its accumulators `best_core` and `best_score`. -/
def chooseLoop (cfg : Config) (s : State) (p : Nat) : List Nat → Nat → ℚ → Nat
  | [], bestCore, _ => bestCore
  | core :: rest, bestCore, bestScore =>
    if iasCanPreemptCore s p core then
      let score := iasCoreScore cfg s p core
      if bestScore < score then chooseLoop cfg s p rest core score
      else chooseLoop cfg s p rest bestCore bestScore
    else chooseLoop cfg s p rest bestCore bestScore

def iasChooseCore (cfg : Config) (s : State) (p : Nat) : Nat :=
  chooseLoop cfg s p cfg.cores ncpu (-1)

/-- `ias_ht_poll_one`; `elapsed` is what the kthread on the core reports, if there is one. -/
def iasHtPollOne (cfg : Config) (s : State) (core : Nat) (elapsed : Option Nat) : State :=
  let budget := match s.cores core, elapsed with
    | some p, some us =>
      if 0 < (s.data p).htPunishUs then
        cfg.single.round (cfg.single.round us / cfg.single.round (s.data p).htPunishUs)
      else 0
    | _, _ => 0
  { s with budgetUsed := update s.budgetUsed core budget }

inductive Event where
  | attach (p : Nat) (spec : Spec) (malloc : Bool)
  | detach (p : Nat)
  | run (p core : Nat) (avail ran : Bool)
  | idle (core : Nat) (idled : Bool)
  | placeholder (p core : Nat) (idled : Bool)
  /-- `ias_sched_poll` learns that a core is idle -/
  | markIdle (core : Nat)
  /-- `ias_sched_poll` takes an idle core from its process -/
  | cleanup (core : Nat)
  | htPoll (core : Nat) (elapsed : Option Nat)
  | tick (nowUs : Nat)

def step (cfg : Config) (s : State) : Event → Option State
  | .attach p spec malloc =>
    if p ∉ s.allProcs then some (schedAttachProc cfg.toMachine s p spec malloc) else none
  | .detach p => if p ∈ s.allProcs then some (schedDetachProc s p) else none
  | .run p core avail ran =>
    if p ∈ s.allProcs then some (iasRunKthreadOnCore cfg.toMachine s p core avail ran) else none
  | .idle core idled => some (iasIdleOnCore cfg.toMachine s core idled)
  | .placeholder p core idled =>
    if p ∈ s.allProcs then some (iasIdlePlaceholderOnCore cfg.toMachine s p core idled)
    else none
  | .markIdle core =>
    if core ∈ cfg.cores then some { s with idleCores := insert core s.idleCores } else none
  | .cleanup core => if core ∈ s.idleCores then some (iasCleanupCore s core) else none
  | .htPoll core elapsed => some (iasHtPollOne cfg s core elapsed)
  | .tick nowUs => some { s with nowUs := nowUs }

/-- `ias_init` -/
def init (m : Machine) : State where
  allProcs := []
  data := fun _ => ⟨false, ∅, 0, 0, fun _ => 0, 0⟩
  guaranteedCores := fun _ => 0
  idleCores := ∅
  reservedCores := symmDiff (Finset.range ncpu) m.cores.toFinset
  cores := fun _ => none
  nowUs := 0
  budgetUsed := fun _ => 0
  nrGuaranteed := 0

/-! ## A preemptible core is chosen -/

theorem Rounding.nonneg (r : Rounding) {x : ℚ} (h : 0 ≤ x) : 0 ≤ r.round x := by
  have hmono := r.mono h
  rw [r.zero] at hmono
  exact hmono

section Choose

variable (cfg : Config) (s : State) (p : Nat)

theorem iasLocalityScore_nonneg (core : Nat) : 0 ≤ iasLocalityScore cfg s p core := by
  refine ite_nonneg zero_le_one (ite_nonneg le_rfl (cfg.single.nonneg ?_))
  positivity

theorem iasCoreScore_nonneg (core : Nat) : 0 ≤ iasCoreScore cfg s p core := by
  have hadd : ∀ {x y : ℚ}, 0 ≤ x → 0 ≤ y → 0 ≤ cfg.single.round (x + y) := fun hx hy =>
    cfg.single.nonneg (add_nonneg hx hy)
  have hloc := iasLocalityScore_nonneg cfg s p core
  have hres : 0 ≤ if core ∈ (s.data p).reservedCores then
      cfg.single.round (iasLocalityScore cfg s p core + 7) else iasLocalityScore cfg s p core :=
    ite_nonneg (hadd hloc (by norm_num)) hloc
  have hsib := hadd hres (y := 3) (by norm_num)
  have hbias := sub_nonneg.2 (min_le_left 1 (s.budgetUsed (cfg.siblings core)))
  refine ite_nonneg hres (cfg.single.nonneg (cfg.double.nonneg (add_nonneg ?_ ?_)))
  · exact ite_nonneg (ite_nonneg (hadd hsib (by norm_num)) hsib) hres
  · exact cfg.double.nonneg hbias

theorem chooseLoop_mem (all rest : List Nat) (bestCore : Nat) (bestScore : ℚ)
    (hrest : ∀ c ∈ rest, c ∈ all)
    (hbest : (bestCore ∈ all ∧ 0 ≤ bestScore) ∨
      (bestScore = -1 ∧ ∃ c ∈ rest, iasCanPreemptCore s p c = true)) :
    chooseLoop cfg s p rest bestCore bestScore ∈ all := by
  induction rest generalizing bestCore bestScore with
  | nil =>
    rcases hbest with ⟨hmem, _⟩ | ⟨_, c, hc, _⟩
    · exact hmem
    · cases hc
  | cons core rest ih =>
    have htail : ∀ c ∈ rest, c ∈ all := fun c hc => hrest c (List.mem_cons_of_mem _ hc)
    have hscore := iasCoreScore_nonneg cfg s p core
    unfold chooseLoop
    dsimp only
    split
    · split
      · exact ih core _ htail (.inl ⟨hrest core List.mem_cons_self, hscore⟩)
      · rename_i hle
        refine ih bestCore bestScore htail (.inl ?_)
        rcases hbest with hbest | ⟨hneg, _⟩
        · exact hbest
        · rw [hneg] at hle
          exact absurd (lt_of_lt_of_le (by norm_num) hscore) hle
    · rename_i hno
      refine ih bestCore bestScore htail (hbest.imp_right ?_)
      rintro ⟨hneg, c, hc, hpre⟩
      rcases List.mem_cons.1 hc with rfl | hc
      · exact absurd hpre hno
      · exact ⟨hneg, c, hc, hpre⟩

theorem iasChooseCore_mem (h : ∃ c ∈ cfg.cores, iasCanPreemptCore s p c = true) :
    iasChooseCore cfg s p ∈ cfg.cores :=
  chooseLoop_mem cfg s p cfg.cores cfg.cores ncpu (-1) (fun _ hc => hc) (.inr ⟨rfl, h⟩)

end Choose

/-! ## The invariant of the accounting -/

variable {cfg : Config} {s : State} {p core : Nat}

structure Inv (cfg : Config) (s : State) : Prop where
  nodup : s.allProcs.Nodup
  guaranteed : ∀ p ∈ s.allProcs, (s.data p).threadsGuaranteed = (s.guaranteedCores p).toInt
  reserved : ∀ p ∈ s.allProcs, (s.data p).reservedCores.card ≤ (s.guaranteedCores p).toNat
  attached : ∀ c p, s.cores c = some p → p ∈ s.allProcs
  active : ∀ p ∈ s.allProcs, (s.data p).threadsActive = share cfg.cores.toFinset s.cores p
  idle : ∀ c ∈ s.idleCores, c ∈ cfg.cores

theorem Inv.init : Inv cfg (init cfg.toMachine) := by
  refine ⟨List.nodup_nil, ?_, ?_, ?_, ?_, ?_⟩
  · nofun
  · nofun
  · nofun
  · nofun
  · intro c hc
    exact absurd hc (Finset.notMem_empty c)

/-- The invariant does not see the time, the budgets, or who reserved what overall. -/
theorem Inv.frame {s' : State} (h : Inv cfg s) (hprocs : s'.allProcs = s.allProcs)
    (hdata : s'.data = s.data) (hspec : s'.guaranteedCores = s.guaranteedCores)
    (hcores : s'.cores = s.cores) (hidle : ∀ c ∈ s'.idleCores, c ∈ cfg.cores) : Inv cfg s' where
  nodup := hprocs ▸ h.nodup
  guaranteed := by rw [hprocs, hdata, hspec]; exact h.guaranteed
  reserved := by rw [hprocs, hdata, hspec]; exact h.reserved
  attached := by rw [hprocs, hcores]; exact h.attached
  active := by rw [hprocs, hdata, hcores]; exact h.active
  idle := hidle

/-- What one round of the loop takes. -/
def taken (m : Machine) (core : Nat) : Finset Nat := if m.noht then {core} else {m.siblings core, core}

/-- The loop ends, or does one round and goes on with what is left. -/
theorem reserve_round (m : Machine) (i : Nat) (own all : Finset Nat) :
    reserve m i own all = (own, all, decide (i = 0)) ∨
    findCleared all ≠ ncpu ∧ ∃ j < i, (m.noht = true → j + 1 = i) ∧ (m.noht = false → j = i - 2) ∧
      reserve m i own all =
        reserve m j (own ∪ taken m (findCleared all)) (all ∪ taken m (findCleared all)) := by
  by_cases hcore : findCleared all = ncpu
  · match i with
    | 0 | 1 | i + 2 => exact .inl (by simp [reserve, hcore])
  · match i with
    | 0 => exact .inl rfl
    | 1 =>
      refine .inr ⟨hcore, 0, by omega, fun _ => rfl, fun _ => rfl, ?_⟩
      cases hno : m.noht <;> simp [reserve, taken, hno, hcore]
    | i + 2 =>
      cases hno : m.noht with
      | true =>
        exact .inr ⟨hcore, i + 1, by omega, fun _ => rfl, nofun, by simp [reserve, taken, hno, hcore]⟩
      | false =>
        exact .inr ⟨hcore, i, by omega, nofun, fun _ => rfl, by simp [reserve, taken, hno, hcore]⟩

/-- An odd number of cores is only ever asked for without hyperthreads, so that no more cores
are reserved than were promised. -/
theorem card_reserve (m : Machine) (i : Nat) (own all : Finset Nat)
    (h : m.noht = true ∨ i % 2 = 0) : (reserve m i own all).1.card ≤ own.card + i := by
  induction i using Nat.strong_induction_on generalizing own all with
  | _ i ih =>
    rcases reserve_round m i own all with heq | ⟨-, j, hj, hone, htwo, heq⟩ <;> rw [heq]
    · exact Nat.le_add_right _ _
    · have hleft := ih j hj (own ∪ taken m (findCleared all)) (all ∪ taken m (findCleared all))
        (by cases hno : m.noht <;> grind)
      have hunion := Finset.card_union_le own (taken m (findCleared all))
      have htaken : (taken m (findCleared all)).card ≤ i - j := by
        unfold taken
        split
        · have := hone ‹_›
          rw [Finset.card_singleton]
          omega
        · have := Finset.card_le_two (a := m.siblings (findCleared all)) (b := findCleared all)
          grind
      omega

section Cleanup

theorem iasCleanupCore_allProcs : (iasCleanupCore s core).allProcs = s.allProcs := by
  unfold iasCleanupCore
  cases s.cores core <;> rfl

theorem iasCleanupCore_guaranteedCores :
    (iasCleanupCore s core).guaranteedCores = s.guaranteedCores := by
  unfold iasCleanupCore
  cases s.cores core <;> rfl

theorem iasCleanupCore_idleCores : (iasCleanupCore s core).idleCores = s.idleCores := by
  unfold iasCleanupCore
  cases s.cores core <;> rfl

theorem iasCleanupCore_cores : (iasCleanupCore s core).cores = update s.cores core none := by
  unfold iasCleanupCore
  cases s.cores core <;> rfl

theorem iasCleanupCore_data (p : Nat) :
    ((iasCleanupCore s core).data p).threadsGuaranteed = (s.data p).threadsGuaranteed ∧
    ((iasCleanupCore s core).data p).reservedCores = (s.data p).reservedCores ∧
    ((iasCleanupCore s core).data p).threadsActive =
      (s.data p).threadsActive - if s.cores core = some p then 1 else 0 := by
  unfold iasCleanupCore
  cases hcur : s.cores core with
  | none => simp
  | some q =>
    by_cases hq : p = q
    · subst hq
      simp [State.modData]
    · have hne : ¬ some q = some p := fun he => hq (Option.some.inj he).symm
      simp [State.modData, update_of_ne hq, hne]

theorem iasCleanupCore_isLc (p : Nat) : ((iasCleanupCore s core).data p).isLc = (s.data p).isLc := by
  unfold iasCleanupCore
  cases s.cores core with
  | none => rfl
  | some q =>
    change (update s.data q _ p).isLc = _
    rw [update_apply]
    split <;> simp [*]

theorem accountCore_data (q : Nat) :
    ((accountCore s p core).data q).threadsGuaranteed = (s.data q).threadsGuaranteed ∧
    ((accountCore s p core).data q).reservedCores = (s.data q).reservedCores ∧
    ((accountCore s p core).data q).threadsActive =
      (s.data q).threadsActive + if some p = some q then 1 else 0 := by
  by_cases hq : q = p
  · subst hq
    simp [accountCore, State.modData]
  · have hne : ¬ some p = some q := fun he => hq (Option.some.inj he).symm
    simp [accountCore, State.modData, update_of_ne hq, hne]

theorem accountCore_isLc (q : Nat) : ((accountCore s p core).data q).isLc = (s.data q).isLc := by
  change (update s.data p _ q).isLc = _
  rw [update_apply]
  split <;> simp [*]

end Cleanup

/-- A core changes hands, or is left, and the counts follow. -/
theorem Inv.move {s' : State} {o : Option Nat} (h : Inv cfg s) (hcore : core ∈ cfg.cores)
    (ho : ∀ p, o = some p → p ∈ s.allProcs) (hprocs : s'.allProcs = s.allProcs)
    (hspec : s'.guaranteedCores = s.guaranteedCores) (hidle : s'.idleCores = s.idleCores)
    (hcores : s'.cores = update s.cores core o)
    (hdata : ∀ q, (s'.data q).threadsGuaranteed = (s.data q).threadsGuaranteed ∧
      (s'.data q).reservedCores = (s.data q).reservedCores ∧
      (s'.data q).threadsActive = (s.data q).threadsActive -
        (if s.cores core = some q then 1 else 0) + if o = some q then 1 else 0) : Inv cfg s' := by
  refine ⟨hprocs ▸ h.nodup, ?_, ?_, ?_, ?_, hidle ▸ h.idle⟩ <;> rw [hprocs]
  · intro q hq
    rw [hspec, (hdata q).1]
    exact h.guaranteed q hq
  · intro q hq
    rw [hspec, (hdata q).2.1]
    exact h.reserved q hq
  · intro c q hc
    rw [hcores, update_apply] at hc
    split at hc
    · exact ho q hc
    · exact h.attached c q hc
  · intro q hq
    have hshare := share_update (f := s.cores) (p := q) (List.mem_toFinset.2 hcore) o
    rw [(hdata q).2.2, h.active q hq, hcores]
    split <;> split <;> simp_all; omega

theorem Inv.cleanup (h : Inv cfg s) (hcore : core ∈ cfg.cores) : Inv cfg (iasCleanupCore s core) :=
  h.move (o := none) hcore nofun iasCleanupCore_allProcs iasCleanupCore_guaranteedCores iasCleanupCore_idleCores
    iasCleanupCore_cores fun q => by simpa using iasCleanupCore_data q

theorem Inv.hand (h : Inv cfg s) (hp : p ∈ s.allProcs) (hcore : core ∈ cfg.cores) :
    Inv cfg (accountCore (iasCleanupCore s core) p core) := by
  refine h.move (o := some p) hcore (fun q hq => Option.some.inj hq ▸ hp) iasCleanupCore_allProcs
    iasCleanupCore_guaranteedCores iasCleanupCore_idleCores ?_ fun q => ?_
  · change update (iasCleanupCore s core).cores core (some p) = _
    rw [iasCleanupCore_cores, update_idem]
  · rw [(accountCore_data q).1, (accountCore_data q).2.1, (accountCore_data q).2.2]
    obtain ⟨hg, hr, ha⟩ := @iasCleanupCore_data s core q
    exact ⟨hg, hr, by rw [ha]⟩

theorem Inv.setIdle (h : Inv cfg s) (hcore : core ∈ cfg.cores) :
    Inv cfg { s with idleCores := insert core s.idleCores } := by
  refine h.frame rfl rfl rfl rfl ?_
  intro c hc
  rcases Finset.mem_insert.1 hc with rfl | hc
  · exact hcore
  · exact h.idle c hc

theorem Inv.canIdle_mem (h : Inv cfg s) {idled : Bool}
    (hcan : canIdle cfg.toMachine s core idled = true) : core ∈ cfg.cores := by
  rcases Bool.or_eq_true _ _ ▸ hcan with hidle | hnew
  · exact h.idle core (of_decide_eq_true hidle)
  · exact of_decide_eq_true (Bool.and_eq_true _ _ ▸ hnew).2

theorem Inv.detach (h : Inv cfg s) : Inv cfg (schedDetachProc s p) := by
  have hold : ∀ {q}, q ∈ s.allProcs.erase p → q ∈ s.allProcs ∧ q ≠ p := fun hq =>
    ⟨List.mem_of_mem_erase hq, fun he => h.nodup.not_mem_erase (he ▸ hq)⟩
  refine ⟨h.nodup.erase p, ?_, ?_, ?_, ?_, h.idle⟩
  · intro q hq
    exact h.guaranteed q (hold hq).1
  · intro q hq
    exact h.reserved q (hold hq).1
  · intro c q hc
    change (if s.cores c = some p then none else s.cores c) = some q at hc
    split at hc
    · cases hc
    · rename_i hne
      refine (List.mem_erase_of_ne ?_).2 (h.attached c q hc)
      rintro rfl
      exact hne hc
  · intro q hq
    refine (h.active q (hold hq).1).trans (congrArg Nat.cast (share_congr fun c _ => ?_))
    change s.cores c = some q ↔ (if s.cores c = some p then none else s.cores c) = some q
    split
    · rename_i hcp
      refine iff_of_false (fun hcq => (hold hq).2 ?_) nofun
      exact (Option.some.inj (hcp.symm.trans hcq)).symm
    · exact Iff.rfl

theorem card_reserve_guaranteed (m : Machine) (all : Finset Nat) (g : BitVec 32)
    (h : m.noht = true ∨ g.toNat % 2 = 0) :
    (reserve m g.toInt.toNat ∅ all).1.card ≤ g.toNat := by
  have hlt := g.isLt
  have hint := BitVec.toInt_eq_toNat_cond g
  have hcount : g.toInt.toNat = g.toNat ∨ g.toInt.toNat = 0 := by
    split at hint <;> omega
  have hcard := card_reserve m g.toInt.toNat ∅ all (h.imp_right fun hev => by omega)
  rw [Finset.card_empty] at hcard
  omega

/-- What `ias_attach` does, with the outcome `r` of its loop. -/
theorem iasAttach_cases (m : Machine) (s : State) (p : Nat) (spec : Spec) (malloc : Bool) :
    let r := reserve m spec.guaranteedCores.toInt.toNat ∅ s.reservedCores
    iasAttach m s p spec malloc = (s, false) ∨
    iasAttach m s p spec malloc = ({ s with reservedCores := symmDiff r.2.1 r.1 }, false) ∨
    (r.2.2 = true ∧ (m.noht = true ∨ spec.guaranteedCores.toNat % 2 = 0) ∧
      (iasAttach m s p spec malloc).2 = true ∧
      (iasAttach m s p spec malloc).1.allProcs = p :: s.allProcs ∧
      (iasAttach m s p spec malloc).1.reservedCores = r.2.1 ∧
      (iasAttach m s p spec malloc).1.cores = s.cores ∧
      (iasAttach m s p spec malloc).1.idleCores = s.idleCores ∧
      (iasAttach m s p spec malloc).1.guaranteedCores =
        update s.guaranteedCores p spec.guaranteedCores ∧
      ∃ loc us, (iasAttach m s p spec malloc).1.data =
        update s.data p ⟨spec.isLc, r.1, spec.guaranteedCores.toInt, 0, loc, us⟩) := by
  unfold iasAttach
  split
  · exact .inl rfl
  · rename_i heven
    split
    · exact .inl rfl
    · dsimp only
      split
      · rename_i hroom
        refine .inr (.inr ⟨hroom, ?_, rfl, rfl, rfl, rfl, rfl, rfl, _, _, rfl⟩)
        cases hno : m.noht <;> simp_all
      · exact .inr (.inl rfl)

theorem Inv.iasAttach (h : Inv cfg s) (hp : p ∉ s.allProcs) (spec : Spec) (malloc : Bool) :
    Inv cfg (Ias.iasAttach cfg.toMachine s p spec malloc).1 := by
  rcases iasAttach_cases cfg.toMachine s p spec malloc with
    heq | heq | ⟨-, heven, -, hprocs, -, hcores, hidle, hspec, loc, us, hdata⟩
  · rw [heq]
    exact h
  · rw [heq]
    exact h.frame rfl rfl rfl rfl h.idle
  · have hcard := card_reserve_guaranteed cfg.toMachine s.reservedCores spec.guaranteedCores heven
    -- no core is accounted to a process that was not attached
    have hzero := share_eq_zero (C := cfg.cores.toFinset) fun c _ hc => hp (h.attached c p hc)
    obtain ⟨h₁, h₂, h₃, h₄, h₅, h₆⟩ := h
    constructor <;> simp only [hprocs, hdata, hspec, hcores, hidle, update_apply, List.mem_cons]
    · exact List.nodup_cons.2 ⟨hp, h₁⟩
    · grind
    · grind
    · exact fun c q hc => .inr (h₄ c q hc)
    · grind
    · exact h₆

theorem schedAttachProc_eq (m : Machine) (s : State) (p : Nat) (spec : Spec) (malloc : Bool) :
    schedAttachProc m s p spec malloc = s ∨ ∃ n, schedAttachProc m s p spec malloc =
      { (iasAttach m s p spec malloc).1 with nrGuaranteed := n } := by
  unfold schedAttachProc
  split
  · exact .inl rfl
  · dsimp only
    split <;> exact .inr ⟨_, rfl⟩

theorem Inv.attach (h : Inv cfg s) (hp : p ∉ s.allProcs) (spec : Spec) (malloc : Bool) :
    Inv cfg (schedAttachProc cfg.toMachine s p spec malloc) := by
  have hias := h.iasAttach hp spec malloc
  rcases schedAttachProc_eq cfg.toMachine s p spec malloc with heq | ⟨n, heq⟩ <;> rw [heq]
  · exact h
  · exact hias.frame rfl rfl rfl rfl hias.idle

theorem Inv.run (h : Inv cfg s) (hp : p ∈ s.allProcs) (avail ran : Bool) :
    Inv cfg (iasRunKthreadOnCore cfg.toMachine s p core avail ran) := by
  unfold iasRunKthreadOnCore
  split
  · exact h
  · split
    · exact h
    · rename_i hran
      rw [Bool.not_eq_true', Bool.not_eq_false, Bool.and_eq_true] at hran
      have hcore : core ∈ cfg.cores := of_decide_eq_true hran.2
      have hhand := h.hand hp hcore
      refine hhand.frame rfl rfl rfl rfl ?_
      intro c hc
      exact hhand.idle c (Finset.mem_of_mem_erase hc)

theorem Inv.placeholder (h : Inv cfg s) (hp : p ∈ s.allProcs) (idled : Bool) :
    Inv cfg (iasIdlePlaceholderOnCore cfg.toMachine s p core idled) := by
  unfold iasIdlePlaceholderOnCore
  split
  · rename_i hcan
    have hcore := h.canIdle_mem hcan
    exact (h.hand hp hcore).setIdle hcore
  · exact h

theorem Inv.idleOn (h : Inv cfg s) (idled : Bool) :
    Inv cfg (iasIdleOnCore cfg.toMachine s core idled) := by
  unfold iasIdleOnCore
  split
  · rename_i hcan
    have hcore := h.canIdle_mem hcan
    exact (h.cleanup hcore).setIdle hcore
  · exact h

theorem Inv.keeps {s' : State} {e : Event} (h : Inv cfg s) (hstep : step cfg s e = some s') :
    Inv cfg s' := by
  have hif : ∀ {c : Prop} [Decidable c] {t : State}, (c → Inv cfg t) →
      (if c then some t else none) = some s' → Inv cfg s' := by
    intro c _ t ht hs
    split at hs
    · cases hs
      exact ht ‹c›
    · cases hs
  cases e with
  | attach p spec malloc => exact hif (fun hp => h.attach hp spec malloc) hstep
  | detach p => exact hif (fun _ => h.detach) hstep
  | run p core avail ran => exact hif (fun hp => h.run hp avail ran) hstep
  | idle core idled =>
    cases hstep
    exact h.idleOn idled
  | placeholder p core idled => exact hif (fun hp => h.placeholder hp idled) hstep
  | markIdle core => exact hif (fun hcore => h.setIdle hcore) hstep
  | cleanup core => exact hif (fun hidle => h.cleanup (h.idle core hidle)) hstep
  | htPoll _ _ | tick _ =>
    cases hstep
    exact h.frame rfl rfl rfl rfl h.idle

/-! ## Guaranteed cores -/

def guaranteedSum (s : State) : Nat :=
  ∑ p ∈ s.allProcs.toFinset, (s.guaranteedCores p).toNat

theorem iasCanPreemptCore_of_none (h : s.cores core = none) : iasCanPreemptCore s p core = true := by
  unfold iasCanPreemptCore
  rw [h]

theorem not_iasCanPreemptCore {q : Nat} (hlc : (s.data p).isLc = true) (hcur : s.cores core = some q)
    (hqp : q ≠ p) (hno : iasCanPreemptCore s p core ≠ true) :
    core ∈ (s.data q).reservedCores ∨
    (s.data q).threadsActive - (s.data q).threadsGuaranteed ≤
      (s.data p).threadsActive - (s.data p).threadsGuaranteed + 1 := by
  by_contra hcon
  rw [not_or] at hcon
  refine hno ?_
  unfold iasCanPreemptCore
  rw [hcur]
  dsimp only
  rw [if_neg (Ne.symm hqp), if_neg hcon.1, if_neg (by simp [hlc]), if_neg (fun h => hcon.2 h.2)]

section Counting

variable (h : Inv cfg s) (hsum : guaranteedSum s ≤ cfg.cores.length)

include hsum

theorem guaranteedCores_lt (hp : p ∈ s.allProcs) : (s.guaranteedCores p).toNat ≤ ncpu := by
  have hone : (s.guaranteedCores p).toNat ≤ guaranteedSum s :=
    Finset.single_le_sum (f := fun q => (s.guaranteedCores q).toNat) (fun _ _ => Nat.zero_le _)
      (List.mem_toFinset.2 hp)
  have hcores : cfg.cores.length ≤ ncpu := by
    have hsub : cfg.cores ⊆ List.range ncpu := fun c hc => List.mem_range.2 (cfg.lt_ncpu c hc)
    simpa using (cfg.nodup.subperm hsub).length_le
  omega

include h

theorem threadsGuaranteed_eq (hp : p ∈ s.allProcs) :
    (s.data p).threadsGuaranteed = (s.guaranteedCores p).toNat := by
  have hlt := guaranteedCores_lt hsum hp
  unfold ncpu at hlt
  rw [h.guaranteed p hp]
  exact BitVec.toInt_eq_toNat_of_lt (by omega)

/-- If a latency-critical process below its guarantee can preempt no core of another process,
that process is within its guarantee. -/
theorem share_le_guaranteed {q : Nat} (hlc : (s.data p).isLc = true)
    (hbelow : (s.data p).threadsActive < (s.data p).threadsGuaranteed) (hq : q ∈ s.allProcs)
    (hqp : q ≠ p) (hno : ∀ c ∈ cfg.cores, iasCanPreemptCore s p c ≠ true) :
    share cfg.cores.toFinset s.cores q ≤ (s.guaranteedCores q).toNat := by
  by_cases hall : ∀ c ∈ cfg.cores.toFinset, s.cores c = some q → c ∈ (s.data q).reservedCores
  · exact (share_le_of_subset hall).trans (h.reserved q hq)
  · push Not at hall
    obtain ⟨c, hc, hcq, hres⟩ := hall
    have hburst := (not_iasCanPreemptCore hlc hcq hqp (hno c (List.mem_toFinset.1 hc))).resolve_left
      hres
    have hgq := threadsGuaranteed_eq h hsum hq
    have haq := h.active q hq
    omega

theorem exists_preemptible (hp : p ∈ s.allProcs) (hlc : (s.data p).isLc = true)
    (hbelow : (s.data p).threadsActive < (s.data p).threadsGuaranteed) :
    ∃ c ∈ cfg.cores, iasCanPreemptCore s p c = true := by
  by_contra hcon
  have hno : ∀ c ∈ cfg.cores, iasCanPreemptCore s p c ≠ true := fun c hc hpre =>
    hcon ⟨c, hc, hpre⟩
  have htaken : ∀ c ∈ cfg.cores.toFinset, ∃ q ∈ s.allProcs.toFinset, s.cores c = some q := by
    intro c hc
    cases hcur : s.cores c with
    | none => exact absurd (iasCanPreemptCore_of_none hcur) (hno c (List.mem_toFinset.1 hc))
    | some q => exact ⟨q, List.mem_toFinset.2 (h.attached c q hcur), rfl⟩
  have hlt : share cfg.cores.toFinset s.cores p < (s.guaranteedCores p).toNat := by
    have hg := threadsGuaranteed_eq h hsum hp
    have ha := h.active p hp
    omega
  have hle : ∀ q ∈ s.allProcs.toFinset,
      share cfg.cores.toFinset s.cores q ≤ (s.guaranteedCores q).toNat := by
    intro q hq
    by_cases hqp : q = p
    · subst hqp
      exact le_of_lt hlt
    · exact share_le_guaranteed h hsum hlc hbelow (List.mem_toFinset.1 hq) hqp hno
  have hcount := card_lt_sum_of_share htaken hle (List.mem_toFinset.2 hp) hlt
  rw [List.toFinset_card_of_nodup cfg.nodup] at hcount
  exact absurd hcount (Nat.not_lt.2 hsum)

end Counting

/-- A latency-critical process that holds fewer cores than it is guaranteed is always given an
allowed core: those that it cannot take are within the guarantees of their owners. -/
theorem ias_honours_guarantee (cfg : Config) (s : State) (p : Nat)
    (hreach : Reaches (step cfg) anyStep (init cfg.toMachine) s)
    (hsum : guaranteedSum s ≤ cfg.cores.length) (hp : p ∈ s.allProcs)
    (hlc : (s.data p).isLc = true)
    (hbelow : (s.data p).threadsActive < (s.data p).threadsGuaranteed) :
    iasChooseCore cfg s p ∈ cfg.cores ∧ iasChooseCore cfg s p ≠ ncpu := by
  have hinv : Inv cfg s := hreach.invariant (P := Inv cfg) Inv.init fun _ _ _ h _ hs => h.keeps hs
  have hmem := iasChooseCore_mem cfg s p (exists_preemptible hinv hsum hp hlc hbelow)
  exact ⟨hmem, ne_of_lt (cfg.lt_ncpu _ hmem)⟩

def twoPairs : Config where
  cores := [0, 1, 2, 3]
  siblings := fun c => c ^^^ 1
  noht := false
  nodup := by decide
  lt_ncpu := by decide
  preferSelfpair := false
  single := ⟨id, monotone_id, rfl⟩
  double := ⟨id, monotone_id, rfl⟩

def burst : List Event :=
  [.attach 0 ⟨true, 2#32, 0⟩ true, .attach 1 ⟨true, 2#32, 0⟩ true, .run 0 2 true true,
    .run 0 3 true true, .run 0 0 true true, .run 1 1 true true]

theorem ias_honours_guarantee_burst : ∃ s,
    Reaches (step twoPairs) anyStep (init twoPairs.toMachine) s ∧
    (s.data 0).threadsActive = 3 ∧ (s.data 1).threadsActive = 1 ∧
    iasChooseCore twoPairs s 1 ∈ twoPairs.cores ∧ iasChooseCore twoPairs s 1 ≠ ncpu := by
  obtain ⟨s, hreach, ⟨hzero, hone⟩, hsum, hmem, hlc, hbelow⟩ :
      ∃ s, Reaches (step twoPairs) anyStep (init twoPairs.toMachine) s ∧
        ((s.data 0).threadsActive = 3 ∧ (s.data 1).threadsActive = 1) ∧
        guaranteedSum s ≤ twoPairs.cores.length ∧ 1 ∈ s.allProcs ∧ (s.data 1).isLc = true ∧
        (s.data 1).threadsActive < (s.data 1).threadsGuaranteed :=
    exists_of_runActions burst (by decide +kernel)
  exact ⟨s, hreach, hzero, hone, ias_honours_guarantee twoPairs s 1 hreach hsum hmem hlc hbelow⟩

/-! ## Preemptions come to an end -/

/-- A process takes an occupied core that it may preempt. -/
structure Preempts (m : Machine) (p core : Nat) (s s' : State) : Prop where
  attached : p ∈ s.allProcs
  allowed : core ∈ m.cores
  occupied : s.cores core ≠ none
  permitted : iasCanPreemptCore s p core = true
  ran : s' = iasRunKthreadOnCore m s p core true true

/-- The cores that a process uses beyond its guarantee. -/
def bursting (d : IasData) : Int := d.threadsActive - d.threadsGuaranteed

theorem of_iasCanPreemptCore {q : Nat} (hcur : s.cores core = some q)
    (h : iasCanPreemptCore s p core = true) :
    p ≠ q ∧ (((s.data q).isLc = false ∧ (s.data p).isLc = true) ∨
      ((s.data q).isLc = (s.data p).isLc ∧ bursting (s.data p) + 2 ≤ bursting (s.data q))) := by
  unfold iasCanPreemptCore at h
  rw [hcur] at h
  simp only [Bool.if_false_left, Bool.and_eq_true, Bool.not_eq_true', decide_eq_false_iff_not] at h
  obtain ⟨hne, -, hprio, hgap, -⟩ := h
  refine ⟨hne, ?_⟩
  unfold bursting
  cases hq : (s.data q).isLc <;> cases hp : (s.data p).isLc <;> simp_all <;> omega

section Preempted

variable {m : Machine} {s' : State} {q : Nat} (h : Preempts m p core s s')

include h

theorem Preempts.cores_eq : s'.cores = update s.cores core (some p) := by
  rw [h.ran]
  simp [iasRunKthreadOnCore, h.allowed, accountCore, State.modData, iasCleanupCore_cores]

theorem Preempts.allProcs_eq : s'.allProcs = s.allProcs := by
  rw [h.ran]
  simp [iasRunKthreadOnCore, h.allowed, accountCore, State.modData, iasCleanupCore_allProcs]

theorem Preempts.data_eq : s'.data = (accountCore (iasCleanupCore s core) p core).data := by
  rw [h.ran]
  simp [iasRunKthreadOnCore, h.allowed]

theorem Preempts.isLc_eq (r : Nat) : (s'.data r).isLc = (s.data r).isLc := by
  rw [h.data_eq, accountCore_isLc, iasCleanupCore_isLc]

theorem Preempts.bursting_eq (hcur : s.cores core = some q) (r : Nat) : bursting (s'.data r) =
      bursting (s.data r) - (if q = r then 1 else 0) + if p = r then 1 else 0 := by
  unfold bursting
  rw [h.data_eq, (accountCore_data r).1, (accountCore_data r).2.2, (iasCleanupCore_data r).1,
    (iasCleanupCore_data r).2.2, hcur]
  simp only [Option.some.injEq]
  omega

/-- The process that lost the core is a core further from bursting than the one that took it. -/
theorem Preempts.not_back (hcur : s.cores core = some q) : iasCanPreemptCore s' q core = false := by
  obtain ⟨hne, hwhy⟩ := of_iasCanPreemptCore hcur h.permitted
  by_contra hback
  have htook : s'.cores core = some p := by rw [h.cores_eq, update_self]
  obtain ⟨-, hwhy'⟩ := of_iasCanPreemptCore htook (Bool.not_eq_false _ ▸ hback)
  rw [h.isLc_eq, h.isLc_eq, h.bursting_eq hcur, h.bursting_eq hcur] at hwhy'
  rw [if_pos rfl, if_neg hne, if_neg (Ne.symm hne), if_pos rfl] at hwhy'
  rcases hwhy with ⟨hq, hp⟩ | ⟨hclass, hgap⟩
  · simp [hq, hp] at hwhy'
  · rw [hclass] at hwhy'
    rcases hwhy' with ⟨hp, hp'⟩ | ⟨-, hgap'⟩
    · simp [hp] at hp'
    · omega

end Preempted

def heldByBe (s : State) (core : Nat) : Bool := (s.cores core).any fun q => !(s.data q).isLc

/-- The cores of best-effort processes, then the squares of what the processes burst by. -/
def unrest (m : Machine) (s : State) : Nat ×ₗ Nat :=
  toLex ((m.cores.toFinset.filter (heldByBe s ·)).card,
    ∑ p ∈ s.allProcs.toFinset, (bursting (s.data p)).natAbs ^ 2)

theorem Preempts.unrest_lt {m : Machine} {s' : State} (h : Preempts m p core s s')
    (hattached : ∀ c q, s.cores c = some q → q ∈ s.allProcs) : unrest m s' < unrest m s := by
  obtain ⟨q, hcur⟩ := Option.ne_none_iff_exists'.1 h.occupied
  obtain ⟨hne, hwhy⟩ := of_iasCanPreemptCore hcur h.permitted
  have hheld : ∀ c, heldByBe s' c =
      if c = core then !(s.data p).isLc else heldByBe s c := by
    intro c
    unfold heldByBe
    rw [h.cores_eq, update_apply]
    split
    · simp [h.isLc_eq]
    · simp only [h.isLc_eq]
  have hwas : heldByBe s core = !(s.data q).isLc := by simp [heldByBe, hcur]
  simp only [unrest, Prod.Lex.lt_iff, ofLex_toLex, h.allProcs_eq]
  rcases hwhy with ⟨hq, hp⟩ | ⟨hclass, hgap⟩
  · -- a best-effort process gives way to a latency-critical one
    left
    refine Finset.card_lt_card (Finset.ssubset_iff_of_subset ?_ |>.2 ⟨core, ?_, ?_⟩)
    · intro c hc
      simp only [Finset.mem_filter, hheld, hp] at hc ⊢
      refine ⟨hc.1, ?_⟩
      simpa using (ite_eq_iff.1 hc.2).resolve_left (by simp)|>.2
    · simp [hwas, hq, h.allowed]
    · simp [hheld, hp]
  · -- within a class the core goes to the process that bursts less
    right
    refine ⟨congrArg Finset.card (Finset.filter_congr fun c _ => ?_), ?_⟩
    · rw [hheld]
      split
      · rename_i hc
        rw [hc, hwas, hclass]
      · rfl
    · refine sum_natAbs_sq_lt (List.mem_toFinset.2 h.attached)
        (List.mem_toFinset.2 (hattached core q hcur)) hne hgap ?_ ?_ fun r hrp hrq => ?_
      all_goals rw [h.bursting_eq hcur]
      · simp [Ne.symm hne]
      · simp [hne]
      · simp [Ne.symm hrp, Ne.symm hrq]

/-- Processes that take occupied cores from each other cannot go on for ever, and the one that
lost a core can never take it straight back. -/
theorem preemptions_end (m : Machine) (s : Nat → State)
    (hattached : ∀ c q, (s 0).cores c = some q → q ∈ (s 0).allProcs) :
    (¬ ∀ n, ∃ p core, Preempts m p core (s n) (s (n + 1))) ∧
    ∀ n p core q, Preempts m p core (s n) (s (n + 1)) → (s n).cores core = some q →
      iasCanPreemptCore (s (n + 1)) q core = false := by
  refine ⟨fun hall => ?_, fun n p core q h hcur => h.not_back hcur⟩
  have hkeep : ∀ n c q, (s n).cores c = some q → q ∈ (s n).allProcs := by
    intro n
    induction n with
    | zero => exact hattached
    | succ n ih =>
      obtain ⟨p, core, h⟩ := hall n
      intro c q hc
      rw [h.cores_eq, update_apply] at hc
      rw [h.allProcs_eq]
      split at hc
      · cases hc
        exact h.attached
      · exact ih c q hc
  obtain ⟨n, hn⟩ := WellFounded.not_rel_apply_succ (r := (· < ·)) fun n => unrest m (s n)
  obtain ⟨p, core, h⟩ := hall n
  exact hn (h.unrest_lt (hkeep n))

theorem preemptions_end_burst : ∃ s s', Reaches (step twoPairs) anyStep (init twoPairs.toMachine) s ∧
    Preempts twoPairs.toMachine 1 3 s s' ∧ iasCanPreemptCore s' 0 3 = false := by
  obtain ⟨s, hreach, hmem, hcur, hpre⟩ :
      ∃ s, Reaches (step twoPairs) anyStep (init twoPairs.toMachine) s ∧ 1 ∈ s.allProcs ∧
        s.cores 3 = some 0 ∧ iasCanPreemptCore s 1 3 = true :=
    exists_of_runActions burst (by decide +kernel)
  have hinv : Inv twoPairs s := hreach.invariant (P := Inv twoPairs) Inv.init
    fun _ _ _ h _ hs => h.keeps hs
  have h : Preempts twoPairs.toMachine 1 3 s _ := ⟨hmem, by decide, by simp [hcur], hpre, rfl⟩
  exact ⟨s, _, hreach, h, (preemptions_end twoPairs.toMachine
    (fun | 0 => s | _ => iasRunKthreadOnCore twoPairs.toMachine s 1 3 true true)
    hinv.attached).2 0 1 3 0 h hcur⟩

end Svalinn.Iokernel.Ias
