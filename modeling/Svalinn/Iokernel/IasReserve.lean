/-
  Iokernel/IasReserve.lean --- the cores that processes reserve.

  Source: `ias_attach`, `ias_detach` and `ias_init` in `iokernel/ias.c`.  The loop of
  `ias_attach` sets the bit of a sibling without looking at it, and the rollback and the
  detach toggle bits; both are right where siblings are allowed together.
-/
import Svalinn.Iokernel.Ias

set_option autoImplicit false

namespace Svalinn.Iokernel.Ias

open Svalinn.Lib Function Finset

variable {cfg : Config} {m : Machine} {s s' t u : State} {p core : Nat}

/-! ## What scheduling leaves alone -/

def Event.schedules : Event → Bool
  | .attach .. | .detach _ => false
  | _ => true

structure Keeps (s s' : State) : Prop where
  procs : s'.allProcs = s.allProcs
  all : s'.reservedCores = s.reservedCores
  guaranteed : ∀ p, (s'.data p).threadsGuaranteed = (s.data p).threadsGuaranteed
  reserved : ∀ p, (s'.data p).reservedCores = (s.data p).reservedCores

theorem Keeps.refl (s : State) : Keeps s s :=
  ⟨rfl, rfl, fun _ => rfl, fun _ => rfl⟩

theorem keeps_cleanup : Keeps s (iasCleanupCore s core) where
  procs := iasCleanupCore_allProcs
  all := by
    unfold iasCleanupCore
    cases s.cores core <;> rfl
  guaranteed p := (iasCleanupCore_data p).1
  reserved p := (iasCleanupCore_data p).2.1

theorem Keeps.account (h : Keeps s t) : Keeps s (accountCore t p core) where
  procs := h.procs
  all := h.all
  guaranteed q := (accountCore_data q).1.trans (h.guaranteed q)
  reserved q := (accountCore_data q).2.1.trans (h.reserved q)

theorem Keeps.withIdle (h : Keeps s t) (idle : Finset Nat) : Keeps s { t with idleCores := idle } :=
  ⟨h.procs, h.all, h.guaranteed, h.reserved⟩

theorem keeps_of_step {e : Event} (he : e.schedules = true) (h : step cfg s e = some s') :
    Keeps s s' := by
  have hhand : ∀ p core, Keeps s (accountCore (iasCleanupCore s core) p core) := fun _ _ =>
    keeps_cleanup.account
  cases e with
  | attach _ _ _ | detach _ => cases he
  | run p core avail ran =>
    obtain ⟨-, rfl⟩ := Option.ite_some_none_eq_some.1 h
    unfold iasRunKthreadOnCore
    split
    · exact .refl s
    · split
      · exact .refl s
      · exact (hhand p core).withIdle _
  | idle core idled =>
    cases h
    unfold iasIdleOnCore
    split
    · exact keeps_cleanup.withIdle _
    · exact .refl s
  | placeholder p core idled =>
    obtain ⟨-, rfl⟩ := Option.ite_some_none_eq_some.1 h
    unfold iasIdlePlaceholderOnCore
    split
    · exact (hhand p core).withIdle _
    · exact .refl s
  | markIdle core =>
    obtain ⟨-, rfl⟩ := Option.ite_some_none_eq_some.1 h
    exact (Keeps.refl s).withIdle _
  | cleanup core =>
    obtain ⟨-, rfl⟩ := Option.ite_some_none_eq_some.1 h
    exact keeps_cleanup
  | htPoll _ _ | tick _ =>
    cases h
    exact ⟨rfl, rfl, fun _ => rfl, fun _ => rfl⟩

/-! ## The loop of `ias_attach` -/

/-- No allowed core has its sibling outside the allowed cores, or is its own sibling. -/
def Paired (m : Machine) : Prop :=
  m.noht = true ∨
    ∀ c ∈ m.cores, m.siblings c ∈ m.cores ∧ m.siblings c ≠ c ∧ m.siblings (m.siblings c) = c

instance (m : Machine) : Decidable (Paired m) := inferInstanceAs (Decidable (_ ∨ _))

/-- Sets of allowed cores that hold both siblings or none. -/
def Whole (m : Machine) (cores : Finset Nat) : Prop :=
  ∀ c ∈ cores, c ∈ m.cores ∧ (m.noht = false → m.siblings c ∈ cores)

/-- The cores that may be taken: allowed, and free together with their siblings. -/
structure Open (m : Machine) (all : Finset Nat) : Prop where
  allowed : ∀ c < ncpu, c ∉ all → c ∈ m.cores
  sibling : m.noht = false → ∀ c ∈ m.cores, m.siblings c ∈ all → c ∈ all

theorem findCleared_spec {all : Finset Nat} (h : findCleared all ≠ ncpu) :
    findCleared all < ncpu ∧ findCleared all ∉ all := by
  unfold findCleared at h ⊢
  cases hfind : (List.range ncpu).find? (· ∉ all) with
  | none =>
    rw [hfind] at h
    exact absurd rfl h
  | some c =>
    exact ⟨List.mem_range.1 (List.mem_of_find?_eq_some hfind), by simpa using List.find?_some hfind⟩

theorem taken_spec {all : Finset Nat} (hm : Paired m) (ho : Open m all) (hlt : core < ncpu)
    (hfree : core ∉ all) : Whole m (taken m core) ∧ Disjoint (taken m core) all ∧
      (taken m core).card = if m.noht then 1 else 2 := by
  have hcore := ho.allowed core hlt hfree
  unfold taken
  cases hno : m.noht with
  | true => simpa [Whole, hno, hcore] using hfree
  | false =>
    obtain ⟨hsib, hne, hback⟩ := hm.resolve_left (by simp [hno]) core hcore
    have hsibfree := mt (ho.sibling hno core hcore) hfree
    simp [Whole, hcore, hsib, hback, hfree, hsibfree, card_pair hne]

theorem Open.union {all new : Finset Nat} (hm : Paired m) (h : Open m all) (hnew : Whole m new) :
    Open m (all ∪ new) where
  allowed c hlt hc := h.allowed c hlt fun hall => hc (mem_union_left _ hall)
  sibling hno c hcore hsib := by
    rcases mem_union.1 hsib with hall | hin
    · exact mem_union_left _ (h.sibling hno c hcore hall)
    · have hback := (hnew _ hin).2 hno
      rw [(hm.resolve_left (by simp [hno]) c hcore).2.2] at hback
      exact mem_union_right _ hback

/-- The new cores are one set, disjoint from what was reserved; the loop that succeeds has
taken as many as it was asked for. -/
theorem reserve_spec (hm : Paired m) (i : Nat) (own all : Finset Nat) (ho : Open m all) :
    ∃ new, (reserve m i own all).1 = own ∪ new ∧ (reserve m i own all).2.1 = all ∪ new ∧
      Whole m new ∧ Disjoint new all ∧
      ((reserve m i own all).2.2 = true → m.noht = true ∨ i % 2 = 0 → new.card = i) := by
  induction i using Nat.strong_induction_on generalizing own all with
  | _ i ih =>
    rcases reserve_round m i own all with heq | ⟨hcore, j, hj, hone, htwo, heq⟩
    · rw [heq]
      refine ⟨∅, (union_empty _).symm, (union_empty _).symm, fun c hc => absurd hc (notMem_empty c),
        disjoint_empty_left _, fun hok _ => ?_⟩
      rw [of_decide_eq_true hok, card_empty]
    · obtain ⟨hlt, hfree⟩ := findCleared_spec hcore
      obtain ⟨hwhole, hdisj, hcard⟩ := taken_spec hm ho hlt hfree
      obtain ⟨new, hown, hall, hnew, hdisj', hnum⟩ := ih j hj _ _ (ho.union hm hwhole)
      rw [disjoint_union_right] at hdisj'
      refine ⟨taken m (findCleared all) ∪ new, ?_, ?_, ?_, ?_, fun hok heven => ?_⟩
      · rw [heq, hown, union_assoc]
      · rw [heq, hall, union_assoc]
      · intro c hc
        rcases mem_union.1 hc with hc | hc
        · exact ⟨(hwhole c hc).1, fun hno => mem_union_left _ ((hwhole c hc).2 hno)⟩
        · exact ⟨(hnew c hc).1, fun hno => mem_union_right _ ((hnew c hc).2 hno)⟩
      · exact disjoint_union_left.2 ⟨hdisj, hdisj'.1⟩
      · rw [heq] at hok
        rw [card_union_of_disjoint hdisj'.2.symm, hcard]
        cases hno : m.noht with
        | true =>
          rw [hnum hok (.inl hno)]
          have := hone hno
          simp only [↓reduceIte]
          omega
        | false =>
          have heven' : i % 2 = 0 := heven.resolve_left (by simp [hno])
          have := htwo hno
          rw [hnum hok (.inr (by omega))]
          simp only [Bool.false_eq_true, ↓reduceIte]
          omega

/-! ## Every run -/

/-- The reserved sets of the processes, and what is marked as reserved overall. -/
structure Reserved (m : Machine) (s : State) : Prop where
  nodup : s.allProcs.Nodup
  disjoint : ∀ p ∈ s.allProcs, ∀ q ∈ s.allProcs, p ≠ q →
    Disjoint (s.data p).reservedCores (s.data q).reservedCores
  whole : ∀ p ∈ s.allProcs, Whole m (s.data p).reservedCores
  card : ∀ p ∈ s.allProcs, ((s.data p).reservedCores.card : Int) = (s.data p).threadsGuaranteed
  all : ∀ c, c ∈ s.reservedCores ↔
    (c < ncpu ∧ c ∉ m.cores) ∨ ∃ p ∈ s.allProcs, c ∈ (s.data p).reservedCores

theorem Reserved.congr (h : Reserved m s) (hk : Keeps s t) : Reserved m t := by
  obtain ⟨h₁, h₂, h₃, h₄, h₅⟩ := h
  constructor <;> simpa only [hk.procs, hk.all, hk.guaranteed, hk.reserved]

theorem Reserved.opens (hm : Paired m) (h : Reserved m s) : Open m s.reservedCores where
  allowed c hlt hc := by
    by_contra hno
    exact hc ((h.all c).2 (.inl ⟨hlt, hno⟩))
  sibling hno c hcore hsib := by
    obtain ⟨hin, -, hback⟩ := hm.resolve_left (by simp [hno]) c hcore
    rcases (h.all _).1 hsib with ⟨-, hout⟩ | ⟨p, hp, hres⟩
    · exact absurd hin hout
    · have hc := ((h.whole p hp) _ hres).2 hno
      rw [hback] at hc
      exact (h.all c).2 (.inr ⟨p, hp, hc⟩)

section Attach

variable {spec : Spec} {malloc : Bool}

theorem Reserved.failed (hm : Paired m) (h : Reserved m s)
    (hfail : (iasAttach m s p spec malloc).2 = false) : Keeps s (iasAttach m s p spec malloc).1 := by
  obtain ⟨new, hown, hall, -, hdisj, -⟩ :=
    reserve_spec hm spec.guaranteedCores.toInt.toNat ∅ s.reservedCores (h.opens hm)
  rcases iasAttach_cases m s p spec malloc with heq | heq | ⟨-, -, hok, -⟩
  · rw [heq]
    exact .refl s
  · rw [heq, hown, hall, empty_union, symmDiff_eq_sup_sdiff_inf, sup_eq_union, inf_eq_inter,
      union_assoc, union_self, union_inter_cancel_right, union_sdiff_cancel_right hdisj.symm]
    exact .refl s
  · rw [hok] at hfail
    cases hfail

theorem Reserved.attached (hm : Paired m) (h : Reserved m s) (hp : p ∉ s.allProcs)
    (hsmall : spec.guaranteedCores.toNat < 2 ^ 31) : Reserved m (iasAttach m s p spec malloc).1 := by
  obtain ⟨new, hown, hall, hwhole, hdisj, hcard⟩ :=
    reserve_spec hm spec.guaranteedCores.toInt.toNat ∅ s.reservedCores (h.opens hm)
  have hint : spec.guaranteedCores.toInt = spec.guaranteedCores.toNat :=
    BitVec.toInt_eq_toNat_of_lt (by omega)
  rw [empty_union] at hown
  rcases iasAttach_cases m s p spec malloc with heq | heq | ⟨hroom, heven, -, hprocs, hres, -, -, -, loc, us, hdata⟩
  · exact h.congr (h.failed hm (by rw [heq]))
  · exact h.congr (h.failed hm (by rw [heq]))
  · have hnum : new.card = spec.guaranteedCores.toNat := by
      rw [hint, Int.toNat_natCast] at hcard
      exact hcard (by rw [← Int.toNat_natCast spec.guaranteedCores.toNat, ← hint, hroom]) heven
    have hapart : ∀ q ∈ s.allProcs, Disjoint new (s.data q).reservedCores := fun q hq =>
      hdisj.mono_right fun c hc => (h.all c).2 (.inr ⟨q, hq, hc⟩)
    rw [hown] at hdata
    obtain ⟨h₁, h₂, h₃, h₄, h₅⟩ := h
    constructor <;> simp only [hprocs, hres, hall, hdata, update_apply, List.mem_cons, mem_union]
    · exact List.nodup_cons.2 ⟨hp, h₁⟩
    · intro q hq r hr hne
      have := fun q hq => (hapart q hq).symm
      grind
    · grind
    · grind
    · grind

theorem Reserved.attach (hm : Paired m) (h : Reserved m s) (hp : p ∉ s.allProcs)
    (hsmall : spec.guaranteedCores.toNat < 2 ^ 31) :
    Reserved m (schedAttachProc m s p spec malloc) := by
  have hias : Reserved m (iasAttach m s p spec malloc).1 := h.attached hm hp hsmall
  rcases schedAttachProc_eq m s p spec malloc with heq | ⟨n, heq⟩ <;> rw [heq]
  · exact h
  · exact ⟨hias.nodup, hias.disjoint, hias.whole, hias.card, hias.all⟩

end Attach

theorem Reserved.detached (h : Reserved m s) (hp : p ∈ s.allProcs) :
    (iasDetach s p).reservedCores = s.reservedCores \ (s.data p).reservedCores := by
  have hsub : (s.data p).reservedCores ⊆ s.reservedCores := fun c hc =>
    (h.all c).2 (.inr ⟨p, hp, hc⟩)
  exact symmDiff_of_ge hsub

theorem Reserved.detach (h : Reserved m s) (hp : p ∈ s.allProcs) :
    Reserved m (schedDetachProc s p) := by
  have hold : ∀ {q}, q ∈ s.allProcs.erase p ↔ q ≠ p ∧ q ∈ s.allProcs := h.nodup.mem_erase_iff
  refine ⟨h.nodup.erase p, fun q hq r hr => h.disjoint q (hold.1 hq).2 r (hold.1 hr).2,
    fun q hq => h.whole q (hold.1 hq).2, fun q hq => h.card q (hold.1 hq).2, fun c => ?_⟩
  change c ∈ (iasDetach s p).reservedCores ↔ _ ∨ ∃ q ∈ s.allProcs.erase p, _
  rw [h.detached hp, mem_sdiff, h.all]
  constructor
  · rintro ⟨hout | ⟨q, hq, hc⟩, hnot⟩
    · exact .inl hout
    · exact .inr ⟨q, hold.2 ⟨fun he => hnot (he ▸ hc), hq⟩, hc⟩
  · rintro (hout | ⟨q, hq, hc⟩)
    · exact ⟨.inl hout, fun hc => hout.2 (h.whole p hp c hc).1⟩
    · obtain ⟨hne, hmem⟩ := hold.1 hq
      exact ⟨.inr ⟨q, hmem, hc⟩, disjoint_left.1 (h.disjoint q hmem p hp hne) hc⟩

/-- The count of a process that attaches fits an `int`. -/
def Fits (_ : State) : Event → Prop
  | .attach _ spec _ => spec.guaranteedCores.toNat < 2 ^ 31
  | _ => True

instance (s : State) : (e : Event) → Decidable (Fits s e)
  | .attach _ spec _ => inferInstanceAs (Decidable (spec.guaranteedCores.toNat < 2 ^ 31))
  | .detach _ | .run .. | .idle .. | .placeholder .. | .markIdle _ | .cleanup _ | .htPoll ..
  | .tick _ => inferInstanceAs (Decidable True)

theorem Reserved.init (m : Machine) : Reserved m (init m) where
  nodup := List.nodup_nil
  disjoint := nofun
  whole := nofun
  card := nofun
  all c := by
    have hlt : c ∈ m.cores → c < ncpu := m.lt_ncpu c
    simp only [Ias.init, mem_symmDiff, mem_range, List.mem_toFinset, List.not_mem_nil, false_and,
      exists_false, or_false]
    tauto

theorem Reserved.keeps {e : Event} (hm : Paired cfg.toMachine) (h : Reserved cfg.toMachine s)
    (hfits : Fits s e) (hstep : step cfg s e = some s') : Reserved cfg.toMachine s' := by
  cases e with
  | attach p spec malloc =>
    obtain ⟨hp, rfl⟩ := Option.ite_some_none_eq_some.1 hstep
    exact h.attach hm hp hfits
  | detach p =>
    obtain ⟨hp, rfl⟩ := Option.ite_some_none_eq_some.1 hstep
    exact h.detach hp
  | run | idle | placeholder | markIdle | cleanup | htPoll | tick =>
    exact h.congr (keeps_of_step rfl hstep)

/-- Where siblings are allowed together and counts fit an `int`, in every run the processes
reserve disjoint sets of allowed cores, as many as promised, and a failed attach or a detach
undoes exactly what was reserved. -/
theorem reservations_exact (cfg : Config) (hm : Paired cfg.toMachine) (s : State)
    (hreach : Reaches (step cfg) Fits (init cfg.toMachine) s) :
    Reserved cfg.toMachine s ∧
    (∀ p spec malloc, (iasAttach cfg.toMachine s p spec malloc).2 = false →
      Keeps s (iasAttach cfg.toMachine s p spec malloc).1) ∧
    ∀ p ∈ s.allProcs, (iasDetach s p).reservedCores = s.reservedCores \ (s.data p).reservedCores := by
  have h : Reserved cfg.toMachine s := hreach.invariant (P := Reserved cfg.toMachine) (.init _)
    fun _ _ _ h hfits hstep => h.keeps hm hfits hstep
  exact ⟨h, fun p spec malloc hfail => h.failed hm hfail, fun p hp => h.detached hp⟩

theorem reservations_exact_burst : ∃ s, Reaches (step twoPairs) Fits (init twoPairs.toMachine) s ∧
    (s.data 0).reservedCores = {0, 1} ∧ Reserved twoPairs.toMachine s := by
  obtain ⟨s, hreach, hres⟩ : ∃ s, Reaches (step twoPairs) Fits (init twoPairs.toMachine) s ∧
      (s.data 0).reservedCores = {0, 1} := exists_of_runChecked burst (by decide +kernel)
  exact ⟨s, hreach, hres, (reservations_exact twoPairs (by decide) s hreach).1⟩

/-- Only one core of each pair is allowed. -/
def halfPairs : Config :=
  { twoPairs with cores := [0, 2], nodup := by decide, lt_ncpu := by decide }

/-- A process reserves the sibling that is not allowed, and when it leaves that core counts as
free. -/
theorem split_pair_reserved : (∃ s, Reaches (step halfPairs) Fits (init halfPairs.toMachine) s ∧
      0 ∈ s.allProcs ∧ 1 ∈ (s.data 0).reservedCores ∧ 1 ∉ halfPairs.cores) ∧
    ∃ s, Reaches (step halfPairs) Fits (init halfPairs.toMachine) s ∧
      s.allProcs = [] ∧ 1 ∉ s.reservedCores :=
  ⟨exists_of_runChecked [.attach 0 ⟨true, 2#32, 0⟩ true] (by decide +kernel),
    exists_of_runChecked [.attach 0 ⟨true, 2#32, 0⟩ true, .detach 0] (by decide +kernel)⟩

end Svalinn.Iokernel.Ias
