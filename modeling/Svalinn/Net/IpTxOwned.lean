/-
  Net/IpTxOwned.lean --- every mbuf of IP output and ARP has one owner.

  A step takes mbufs from one place to another along `Allowed`, in one or more hops, and the
  library gives from this that an mbuf stays in one place and that one a caller gave away does
  not come back.  What is left to each step is about the thread that makes it: the headers of
  the mbufs in its frame and, when a call returns, where they went.
-/
import Svalinn.Lib.Transition
import Svalinn.Net.IpTx

set_option autoImplicit false

namespace Svalinn.Net.IpTx

open Svalinn.Lib Function List Option

section Model

variable {T E M K : Type} [DecidableEq T] [DecidableEq E] [DecidableEq M] [DecidableEq K]

/-! ## The invariant -/

structure Pending (s : State T E M K) (c : Call M) : Prop where
  hdr : c.ms.map s.hdr = c.pushed
  room : c.kind ≠ .lookup → ∀ h ∈ c.before, ipHdrLen ≤ h.data

def PhaseOk (s : State T E M K) : Phase E M → Prop
  | .loopback c => Pending s c ∧ c.kind ≠ .lookup ∧ c.ms ≠ []
  | .look c | .found c _ | .cold c => Pending s c
  | .enqueue c newe =>
    Pending s c ∧ ∀ e, newe = some e → s.used e = true ∧ (s.entry e).ip = c.daddr
  | .send c _ rest => c.kind ≠ .lookup ∧ ∀ m ∈ c.ms, m ∈ rest ∨ TakenIn s m
  | .returned c r => c.kept r = true → c.ms.map s.hdr = c.before
  | _ => True

def Phase.fixed : Phase E M → List M
  | .send _ _ _ => []
  | p => p.callMbufs

structure TableOk (cfg : NetCfg) (s : State T E M K) : Prop where
  used : ∀ i e, e ∈ s.tbl i → s.used e = true
  queued : ∀ e m, m ∈ s.q e → e ∈ s.tbl (hashIp cfg (s.entry e).ip)

structure Inv (cfg : NetCfg) (s : State T E M K) : Prop where
  once : HeldOnce s.held s.active
  phases : ∀ t, PhaseOk s (s.phase t)
  table : TableOk cfg s
  given : ∀ m ∈ s.given, TakenIn s m

def State.holdings (s : State T E M K) : Holdings (Place T E K) M := ⟨s.held, s.active⟩

variable {cfg : NetCfg} {s s' : State T E M K} {t : T} {m : M} {e : E} {c : Call M}

/-! ### What a thread keeps while others move -/

omit [DecidableEq T] [DecidableEq E] [DecidableEq K] in
theorem Allowed.taken {a b : Place T E K} (h : Allowed a b) (ha : a.taken = true) :
    b.taken = true := by
  cases a <;> cases b <;>
    first | rfl | exact absurd ha Bool.false_ne_true | exact h.elim

omit [DecidableEq T] [DecidableEq E] [DecidableEq K] in
theorem Place.taken_of_settled {d : Place T E K} (h : d.settled = true) : d.taken = true := by
  cases d <;> first | rfl | cases h

omit [DecidableEq T] [DecidableEq E] [DecidableEq K] in
theorem Place.ne_call_of_settled {d : Place T E K} (h : d.settled = true) (u : T) :
    d ≠ .call u := by
  rintro rfl
  cases h

omit [DecidableEq T] [DecidableEq E] [DecidableEq K] in
theorem Place.ne_drain_of_settled {d : Place T E K} (h : d.settled = true) (u : T) :
    d ≠ .drain u := by
  rintro rfl
  cases h

omit [DecidableEq T] [DecidableEq E] [DecidableEq K] in
theorem allowed_of_settled {d : Place T E K} (h : d.settled = true) : Allowed (.call t) d := by
  cases d <;> first | exact absurd h Bool.false_ne_true | exact ⟨rfl, nofun⟩

omit [DecidableEq T] [DecidableEq E] [DecidableEq K] in
theorem TakenIn.hops (hops : Hops Allowed s.holdings s'.holdings) (h : TakenIn s m) :
    TakenIn s' m :=
  Hops.stays (P := fun p : Place T E K => p.taken = true) (x := m) (fun _ _ => Allowed.taken) hops h

omit [DecidableEq E] [DecidableEq M] in
theorem Phase.fixed_subset {p : Phase E M} (h : m ∈ p.fixed) : m ∈ p.callMbufs := by
  cases p <;> first | exact h | cases h

omit [DecidableEq T] [DecidableEq E] [DecidableEq M] [DecidableEq K] in
theorem Pending.congr (h : Pending s c) (hhdr : ∀ m ∈ c.ms, s'.hdr m = s.hdr m) : Pending s' c :=
  ⟨(map_congr_left hhdr).trans h.hdr, h.room⟩

/-- A step by another thread `t`, or by none. -/
structure Frame (s s' : State T E M K) (t : Option T) : Prop where
  hops : Hops Allowed s.holdings s'.holdings
  phase : ∀ u, t ≠ some u → s'.phase u = s.phase u
  hdr : ∀ u, t ≠ some u → ∀ m ∈ (s.phase u).fixed, s'.hdr m = s.hdr m
  entries : ∀ e, s.used e = true → s'.used e = true ∧ (s'.entry e).ip = (s.entry e).ip

omit [DecidableEq T] [DecidableEq E] [DecidableEq K] in
theorem PhaseOk.frame {p : Phase E M} {t : Option T} (hf : Frame s s' t)
    (hhdr : ∀ m ∈ p.fixed, s'.hdr m = s.hdr m) (h : PhaseOk s p) : PhaseOk s' p := by
  cases p with
  | loopback c => exact ⟨h.1.congr hhdr, h.2⟩
  | look c | found c _ | cold c => exact Pending.congr h hhdr
  | enqueue c newe =>
    refine ⟨h.1.congr hhdr, ?_⟩
    intro e he
    obtain ⟨hused, hip⟩ := h.2 e he
    exact ⟨(hf.entries e hused).1, (hf.entries e hused).2.trans hip⟩
  | send c _ rest => exact ⟨h.1, fun m hm => (h.2 m hm).imp_right (TakenIn.hops hf.hops)⟩
  | returned c r =>
    intro hkept
    refine (map_congr_left ?_).trans (h hkept)
    intro m hm
    refine hhdr m ?_
    change m ∈ if c.kept r then c.ms else []
    rw [if_pos hkept]
    exact hm
  | _ => trivial

omit [DecidableEq E] [DecidableEq K] in
/-- The step rule: what a step has to show is about the table, the thread that makes it and
the mbufs it gives away. -/
theorem Inv.frame {t : Option T} (h : Inv cfg s) (hf : Frame s s' t) (htable : TableOk cfg s')
    (hown : ∀ u, t = some u → PhaseOk s' (s'.phase u))
    (hgiven : ∀ m ∈ s'.given, m ∈ s.given ∨ TakenIn s' m) : Inv cfg s' where
  once := hf.hops.heldOnce h.once
  phases := by
    intro u
    by_cases hu : t = some u
    · exact hown u hu
    · rw [hf.phase u hu]
      exact (h.phases u).frame hf (hf.hdr u hu)
  table := htable
  given := fun m hm => (hgiven m hm).elim (fun hold => (h.given m hold).hops hf.hops) id

omit [DecidableEq T] [DecidableEq E] [DecidableEq M] [DecidableEq K] in
theorem Inv.owned (h : Inv cfg s) : Owned cfg s where
  once := h.once
  queued := h.table.queued
  given := h.given
  returned := by
    intro t c r hphase
    have hok := h.phases t
    rw [hphase] at hok
    exact hok

/-! ### The elementary changes -/

omit [DecidableEq E] [DecidableEq M] [DecidableEq K] in
theorem goto_phase_self {p : Phase E M} : (s.goto t p).phase t = p := by
  simp [State.goto]

omit [DecidableEq E] [DecidableEq M] [DecidableEq K] in
theorem goto_phase_of_ne {p : Phase E M} {u : T} (hu : some t ≠ some u) :
    (s.goto t p).phase u = s.phase u := by
  have hut : u ≠ t := fun h => hu (congrArg some h.symm)
  simp [State.goto, hut]

omit [DecidableEq E] [DecidableEq M] [DecidableEq K] in
theorem held_goto_of_ne {p : Phase E M} {j : Place T E K} (hc : j ≠ .call t) (hd : j ≠ .drain t) :
    (s.goto t p).held j = s.held j := by
  cases j with
  | call u =>
    have hu : some t ≠ some u := fun h => hc (congrArg Place.call (some.inj h).symm)
    exact congrArg Phase.callMbufs (goto_phase_of_ne hu)
  | drain u =>
    have hu : some t ≠ some u := fun h => hd (congrArg Place.drain (some.inj h).symm)
    exact congrArg Phase.drainMbufs (goto_phase_of_ne hu)
  | _ => rfl

omit [DecidableEq E] [DecidableEq M] [DecidableEq K] in
theorem held_goto_call {p : Phase E M} : (s.goto t p).held (.call t) = p.callMbufs :=
  congrArg Phase.callMbufs goto_phase_self

omit [DecidableEq E] [DecidableEq M] [DecidableEq K] in
theorem held_goto_drain {p : Phase E M} : (s.goto t p).held (.drain t) = p.drainMbufs :=
  congrArg Phase.drainMbufs goto_phase_self

/-- `s'` is `s` with the mbufs `l` added at the place `d`, and nothing else changed that the
invariant reads. -/
structure Puts (s s' : State T E M K) (d : Place T E K) (l : List M) : Prop where
  at_dest : (s'.held d).Perm (l ++ s.held d)
  other : ∀ j, j ≠ d → s'.held j = s.held j
  active : s'.active = s.active := by rfl
  phase : s'.phase = s.phase := by rfl
  hdr : s'.hdr = s.hdr := by rfl
  tbl : s'.tbl = s.tbl := by rfl
  used : s'.used = s.used := by rfl
  entry : s'.entry = s.entry := by rfl
  given : s'.given = s.given := by rfl

omit [DecidableEq T] [DecidableEq E] [DecidableEq M] [DecidableEq K] in
theorem puts_mbufFree (s : State T E M K) (l : List M) : Puts s (s.mbufFree l) .freed l where
  at_dest := List.Perm.refl _
  other := fun j hj => by cases j <;> first | rfl | exact absurd rfl hj

omit [DecidableEq T] [DecidableEq E] [DecidableEq M] [DecidableEq K] in
theorem puts_delivered (s : State T E M K) (l : List M) :
    Puts s { s with delivered := l ++ s.delivered } .loopback l where
  at_dest := List.Perm.refl _
  other := fun j hj => by cases j <;> first | rfl | exact absurd rfl hj

omit [DecidableEq T] [DecidableEq E] [DecidableEq M] [DecidableEq K] in
theorem puts_device (s : State T E M K) (m : M) :
    Puts s { s with device := m :: s.device } .device [m] where
  at_dest := List.Perm.refl _
  other := fun j hj => by cases j <;> first | rfl | exact absurd rfl hj

omit [DecidableEq T] [DecidableEq M] [DecidableEq K] in
theorem puts_pushTail (s : State T E M K) (e : E) (l : List M) :
    Puts s (s.pushTail e l) (.queue e) l where
  at_dest := by
    change (update s.q e (s.q e ++ l) e).Perm (l ++ s.q e)
    rw [update_self]
    exact perm_append_comm
  other := by
    intro j hj
    cases j with
    | queue e' => exact update_of_ne (fun h => hj (by rw [h])) _ s.q
    | _ => rfl

omit [DecidableEq T] [DecidableEq E] [DecidableEq M] in
theorem puts_overflow (s : State T E M K) (k : K) (m : M) :
    Puts s { s with overflow := update s.overflow k (s.overflow k ++ [m]) } (.overflow k) [m] where
  at_dest := by
    change (update s.overflow k (s.overflow k ++ [m]) k).Perm ([m] ++ s.overflow k)
    rw [update_self]
    exact perm_append_comm
  other := by
    intro j hj
    cases j with
    | overflow k' => exact update_of_ne (fun h => hj (by rw [h])) _ s.overflow
    | _ => rfl

/-- Where `net_tx_raw` leaves a packet. -/
def Place.wire : Place T E K → Bool
  | .device | .overflow _ => true
  | _ => false

omit [DecidableEq T] [DecidableEq E] [DecidableEq K] in
theorem Place.settled_of_wire {d : Place T E K} (h : d.wire = true) : d.settled = true := by
  cases d <;> first | rfl | cases h

omit [DecidableEq T] [DecidableEq E] [DecidableEq K] in
theorem Place.not_queue_of_wire {d : Place T E K} (h : d.wire = true) {P : E → Prop} :
    ∀ e, d = .queue e → P e := by
  rintro e rfl
  cases h

omit [DecidableEq T] [DecidableEq E] [DecidableEq M] in
theorem puts_txSingle (s : State T E M K) (tx : Tx K) (m : M) :
    ∃ d : Place T E K, d.wire = true ∧ Puts s (s.txSingle tx m) d [m] := by
  unfold State.txSingle
  split
  · exact ⟨.device, rfl, puts_device s m⟩
  · exact ⟨.overflow tx.k, rfl, puts_overflow s tx.k m⟩

omit [DecidableEq T] [DecidableEq E] [DecidableEq M] in
theorem txSingle_active (s : State T E M K) (f : M → Bool) (tx : Tx K) (m : M) :
    State.txSingle { s with active := f } tx m = { s.txSingle tx m with active := f } := by
  simp only [State.txSingle]
  split <;> rfl

omit [DecidableEq T] [DecidableEq E] [DecidableEq M] in
theorem txSingle_phase (s : State T E M K) (tx : Tx K) (m : M) :
    (s.txSingle tx m).phase = s.phase := by
  obtain ⟨_, _, hputs⟩ := puts_txSingle s tx m
  exact hputs.phase

omit [DecidableEq M] in
theorem Puts.table {d : Place T E K} {l : List M} (h : Puts s s' d l) (htable : TableOk cfg s)
    (hd : ∀ e, d = .queue e → e ∈ s.tbl (hashIp cfg (s.entry e).ip)) : TableOk cfg s' where
  used := by
    rw [h.tbl, h.used]
    exact htable.used
  queued := by
    intro e m hm
    rw [h.tbl, h.entry]
    by_cases he : d = .queue e
    · exact hd e he
    · have hsame : s'.q e = s.q e := h.other (.queue e) (fun heq => he heq.symm)
      rw [hsame] at hm
      exact htable.queued e m hm

omit [DecidableEq E] [DecidableEq M] [DecidableEq K] in
theorem TableOk.goto {p : Phase E M} (h : TableOk cfg s) : TableOk cfg (s.goto t p) :=
  ⟨h.used, h.queued⟩

section

variable (h : Inv cfg s)

include h

theorem Inv.handOver {a d : Place T E K} {l : List M} {p : Phase E M}
    (ha : a = .call t ∨ a = .drain t) (had : Allowed a d) (hd : d.settled = true)
    (hputs : Puts s s' d l)
    (hqueue : ∀ e, d = .queue e → e ∈ s.tbl (hashIp cfg (s.entry e).ip))
    (hfrom : s.held a = l ++ (s'.goto t p).held a)
    (hkeep : ∀ j, j = .call t ∨ j = .drain t → j ≠ a → (s'.goto t p).held j = s.held j)
    (hown : Hops Allowed s.holdings (s'.goto t p).holdings → PhaseOk (s'.goto t p) p) :
    Inv cfg (s'.goto t p) := by
  have hdc := Place.ne_call_of_settled hd t
  have hdd := Place.ne_drain_of_settled hd t
  have hda : a ≠ d := by
    rintro rfl
    exact ha.elim hdc hdd
  have hops : Hops Allowed s.holdings (s'.goto t p).holdings := by
    refine .single (.move a d l had hda (by rw [show s.holdings.held a = _ from hfrom]; rfl)
      ?_ ?_ hputs.active)
    · change ((s'.goto t p).held d).Perm (l ++ s.held d)
      rw [held_goto_of_ne hdc hdd]
      exact hputs.at_dest
    · intro j hjd hja
      change (s'.goto t p).held j = s.held j
      by_cases hj : j = .call t ∨ j = .drain t
      · exact hkeep j hj hja
      · rw [held_goto_of_ne (fun hc => hj (.inl hc)) (fun hd => hj (.inr hd))]
        exact hputs.other j hjd
  refine h.frame (t := some t) ⟨hops, ?_, ?_, ?_⟩ (hputs.table h.table hqueue).goto ?_ ?_
  · intro u hu
    rw [goto_phase_of_ne hu, hputs.phase]
  · intro u _ m _
    exact congrFun hputs.hdr m
  · intro e he
    exact ⟨(congrFun hputs.used e).trans he, congrArg Entry.ip (congrFun hputs.entry e)⟩
  · rintro u ⟨⟩
    rw [goto_phase_self]
    exact hown hops
  · intro m hm
    exact .inl (hputs.given ▸ hm)

omit [DecidableEq E] [DecidableEq K] in
theorem Inv.quiet {t : Option T} (hheld : ∀ j, s'.held j = s.held j)
    (hactive : s'.active = s.active) (hphase : ∀ u, t ≠ some u → s'.phase u = s.phase u)
    (hhdr : ∀ u, t ≠ some u → ∀ m ∈ (s.phase u).fixed, s'.hdr m = s.hdr m)
    (hentries : ∀ e, s.used e = true → s'.used e = true ∧ (s'.entry e).ip = (s.entry e).ip)
    (htable : TableOk cfg s') (hown : ∀ u, t = some u → PhaseOk s' (s'.phase u))
    (hgiven : ∀ m ∈ s'.given, m ∈ s.given ∨ TakenIn s' m) : Inv cfg s' := by
  have heq : s'.holdings = s.holdings := by
    unfold State.holdings
    rw [funext hheld, hactive]
  refine h.frame ⟨?_, hphase, hhdr, hentries⟩ htable hown hgiven
  rw [heq]
  exact .refl

theorem Inv.goto {f : M → Extent} {p : Phase E M}
    (hcall : p.callMbufs = (s.phase t).callMbufs) (hdrain : p.drainMbufs = (s.phase t).drainMbufs)
    (hhdr : ∀ u, some t ≠ some u → ∀ m ∈ (s.phase u).fixed, f m = s.hdr m)
    (hown : PhaseOk ({ s with hdr := f }.goto t p) p) : Inv cfg ({ s with hdr := f }.goto t p) := by
  refine h.quiet (t := some t) ?_ rfl (fun u hu => goto_phase_of_ne hu) hhdr
    (fun e he => ⟨he, rfl⟩) ⟨h.table.used, h.table.queued⟩ ?_ (fun m hm => .inl hm)
  · intro j
    by_cases hc : j = .call t
    · subst hc
      exact held_goto_call.trans hcall
    · by_cases hd : j = .drain t
      · subst hd
        exact held_goto_drain.trans hdrain
      · exact held_goto_of_ne hc hd
  · rintro u ⟨⟩
    rw [goto_phase_self]
    exact hown

omit [DecidableEq E] [DecidableEq K] in
theorem Inv.setHdr {f : M → Extent}
    (hhdr : ∀ u, ∀ m ∈ (s.phase u).fixed, f m = s.hdr m) : Inv cfg { s with hdr := f } :=
  h.quiet (t := none) (fun j => by cases j <;> rfl) rfl (fun _ _ => rfl) (fun u _ => hhdr u)
    (fun e he => ⟨he, rfl⟩) ⟨h.table.used, h.table.queued⟩ nofun (fun _ hm => .inl hm)

omit [DecidableEq E] [DecidableEq K] in
theorem Inv.setLock {o : Option T} : Inv cfg { s with lock := o } :=
  h.quiet (t := none) (fun j => by cases j <;> rfl) rfl (fun _ _ => rfl) (fun _ _ _ _ => rfl)
    (fun e he => ⟨he, rfl⟩) ⟨h.table.used, h.table.queued⟩ nofun (fun _ hm => .inl hm)

omit [DecidableEq E] [DecidableEq K] in
theorem Inv.give {l : List M} (hl : ∀ m ∈ l, TakenIn s m) :
    Inv cfg { s with given := l ++ s.given } := by
  refine h.quiet (t := none) (fun j => by cases j <;> rfl) rfl (fun _ _ => rfl)
    (fun _ _ _ _ => rfl) (fun e he => ⟨he, rfl⟩) ⟨h.table.used, h.table.queued⟩ nofun ?_
  intro m hm
  refine (mem_append.1 hm).symm.imp_right ?_
  intro hml
  obtain ⟨j, hj, hmj⟩ := hl m hml
  exact ⟨j, hj, by cases j <;> exact hmj⟩

omit [DecidableEq K] in
theorem Inv.setEntry {a : Entry} (hip : a.ip = (s.entry e).ip) :
    Inv cfg (s.setEntry e a) := by
  have hsame : ∀ e', ((s.setEntry e a).entry e').ip = (s.entry e').ip := by
    intro e'
    by_cases he : e' = e
    · subst he
      simp [State.setEntry, hip]
    · simp [State.setEntry, he]
  refine h.quiet (t := none) (fun j => by cases j <;> rfl) rfl (fun _ _ => rfl)
    (fun _ _ _ _ => rfl) (fun e' he => ⟨he, hsame e'⟩) ⟨h.table.used, ?_⟩ nofun
    (fun _ hm => .inl hm)
  intro e' m hm
  rw [hsame e']
  exact h.table.queued e' m hm

omit [DecidableEq E] [DecidableEq K] in
theorem Inv.insertEntry {i : Nat} (hused : s.used e = true) :
    Inv cfg (s.insertEntry e i) := by
  have hmem : ∀ j e', e' ∈ (s.insertEntry e i).tbl j ↔ e' ∈ s.tbl j ∨ (j = i ∧ e' = e) := by
    intro j e'
    by_cases hj : j = i
    · subst hj
      simp [State.insertEntry, or_comm]
    · simp [State.insertEntry, hj]
  refine h.quiet (t := none) (fun j => by cases j <;> rfl) rfl (fun _ _ => rfl)
    (fun _ _ _ _ => rfl) (fun e' he => ⟨he, rfl⟩) ⟨?_, ?_⟩ nofun (fun _ hm => .inl hm)
  · intro j e' he
    rcases (hmem j e').1 he with hold | ⟨_, rfl⟩
    · exact h.table.used j e' hold
    · exact hused
  · intro e' m hm
    exact (hmem _ e').2 (.inl (h.table.queued e' m hm))

end

omit [DecidableEq T] [DecidableEq E] [DecidableEq M] [DecidableEq K] in
theorem TableOk.q_nil (h : TableOk cfg s) (hused : s.used e = false) : s.q e = [] := by
  refine eq_nil_iff_forall_not_mem.2 ?_
  intro m hm
  have hin := h.used _ e (h.queued e m hm)
  rw [hused] at hin
  cases hin

section

variable (h : Inv cfg s)

include h

omit [DecidableEq K] in
theorem Inv.createEntry {daddr : Ip} {now : BitVec 64}
    (hcreate : s.createEntry e daddr now = some s') :
    Inv cfg s' ∧ s'.phase = s.phase ∧ s'.used e = true ∧ (s'.entry e).ip = daddr ∧
      s'.hdr = s.hdr := by
  obtain ⟨hused, rfl⟩ := ite_some_none_eq_some.1 hcreate
  refine ⟨?_, rfl, by simp, by simp, rfl⟩
  have hne : ∀ e', s.used e' = true → e' ≠ e := by
    rintro e' he' rfl
    rw [hused] at he'
    cases he'
  refine h.quiet (t := none) ?_ rfl (fun _ _ => rfl) (fun _ _ _ _ => rfl) ?_ ⟨?_, ?_⟩ nofun
    (fun _ hm => .inl hm)
  · intro j
    cases j with
    | queue e' =>
      by_cases he : e' = e
      · subst he
        exact (update_self e' [] s.q).trans (h.table.q_nil hused).symm
      · exact update_of_ne he [] s.q
    | _ => rfl
  · intro e' he'
    simp [hne e' he', he']
  · intro i e' he'
    have hold := h.table.used i e' he'
    simp [hne e' hold, hold]
  · intro e' m hm
    by_cases he : e' = e
    · subst he
      simp at hm
    · have hold : m ∈ s.q e' := by simpa [he] using hm
      simpa [he] using h.table.queued e' m hold

omit [DecidableEq K] in
theorem Inv.deleteEntry : Inv cfg (s.deleteEntry cfg e) := by
  have hq : ∀ e', e' ≠ e → (s.deleteEntry cfg e).q e' = s.q e' := by
    intro e' he
    simp [State.deleteEntry, he]
  have hqe : (s.deleteEntry cfg e).q e = [] := by simp [State.deleteEntry]
  have htbl : ∀ i e', e' ∈ (s.deleteEntry cfg e).tbl i → e' ∈ s.tbl i := by
    intro i e' he'
    by_cases hi : i = hashIp cfg (s.entry e).ip
    · subst hi
      simp only [State.deleteEntry, update_self] at he'
      exact mem_of_mem_erase he'
    · simpa [State.deleteEntry, hi] using he'
  have hops : Hops Allowed s.holdings (s.deleteEntry cfg e).holdings := by
    refine .single (.move (.queue e) .freed (s.q e) trivial nofun ?_ (List.Perm.refl _) ?_ rfl)
    · change (s.q e).Perm (s.q e ++ (s.deleteEntry cfg e).q e)
      rw [hqe, append_nil]
    · intro j hjf hjq
      cases j with
      | queue e' => exact hq e' (fun he => hjq (congrArg Place.queue he))
      | freed => exact absurd rfl hjf
      | _ => rfl
  refine h.frame (t := none) ⟨hops, fun _ _ => rfl, fun _ _ _ _ => rfl, fun e' he => ⟨he, rfl⟩⟩
    ⟨fun i e' he' => h.table.used i e' (htbl i e' he'), ?_⟩ nofun (fun _ hm => .inl hm)
  intro e' m hm
  by_cases he : e' = e
  · subst he
    rw [hqe] at hm
    cases hm
  · rw [hq e' he] at hm
    have hold := h.table.queued e' m hm
    change e' ∈ update s.tbl _ _ (hashIp cfg (s.entry e').ip)
    grind

omit [DecidableEq E] in
theorem Inv.netTxDrainOverflow {k : K} {n : Nat} :
    Inv cfg (s.netTxDrainOverflow k n) := by
  have hops : Hops Allowed s.holdings (s.netTxDrainOverflow k n).holdings := by
    refine .single (.move (.overflow k) .device ((s.overflow k).take n) trivial nofun ?_
      (List.Perm.refl _) ?_ rfl)
    · change (s.overflow k).Perm ((s.overflow k).take n ++
        update s.overflow k ((s.overflow k).drop n) k)
      rw [update_self, take_append_drop]
    · intro j hjd hjo
      cases j with
      | overflow k' => exact update_of_ne (fun hk => hjo (congrArg Place.overflow hk)) _ _
      | device => exact absurd rfl hjd
      | _ => rfl
  exact h.frame (t := none) ⟨hops, fun _ _ => rfl, fun _ _ _ _ => rfl, fun e' he => ⟨he, rfl⟩⟩
    ⟨h.table.used, h.table.queued⟩ nofun (fun _ hm => .inl hm)

theorem Inv.fresh {d : Place T E K} (hm : s.active m = false)
    (hputs : Puts s s' d [m])
    (hqueue : ∀ e, d = .queue e → e ∈ s.tbl (hashIp cfg (s.entry e).ip)) :
    Inv cfg { s' with active := update s.active m true } := by
  have hheld : ∀ j, State.held { s' with active := update s.active m true } j = s'.held j := by
    intro j
    cases j <;> rfl
  have hops : Hops Allowed s.holdings
      (State.holdings { s' with active := update s.active m true }) := by
    refine .single (.fresh d m hm ?_ ?_ rfl)
    · change (State.held _ d).Perm (m :: s.held d)
      rw [hheld]
      exact hputs.at_dest
    · intro j hj
      exact (hheld j).trans (hputs.other j hj)
  have htable := hputs.table h.table hqueue
  refine h.frame (t := none) ⟨hops, fun u _ => congrFun hputs.phase u,
    fun u _ m _ => congrFun hputs.hdr m, ?_⟩ ⟨htable.used, htable.queued⟩ nofun
    (fun x hx => .inl (hputs.given ▸ hx))
  intro e he
  exact ⟨(congrFun hputs.used e).trans he, congrArg Entry.ip (congrFun hputs.entry e)⟩

/-! ### Transmission -/

omit [DecidableEq T] [DecidableEq K] [DecidableEq E] [DecidableEq M] in
/-- The header of an mbuf that is somewhere else is none that a thread relies on. -/
theorem Inv.not_fixed {a : Place T E K} {u : T} (ha : a ≠ .call u)
    (hm : m ∈ s.held a) : m ∉ (s.phase u).fixed :=
  fun hfix => ha (h.once.disjoint a (.call u) m hm (Phase.fixed_subset hfix))

omit [DecidableEq T] [DecidableEq K] [DecidableEq E] [DecidableEq M] in
theorem Inv.not_fixed_of_inactive {u : T} (hm : s.active m = false) :
    m ∉ (s.phase u).fixed := by
  intro hfix
  have hact := (h.once.active_iff m).2 ⟨.call u, Phase.fixed_subset hfix⟩
  rw [hm] at hact
  cases hact

omit [DecidableEq E] [DecidableEq K] in
theorem Inv.adjust {ms : List M} {f : Extent → Extent}
    (hms : ∀ u, ∀ m ∈ ms, m ∉ (s.phase u).fixed) : Inv cfg (s.adjust ms f) := by
  refine h.setHdr ?_
  intro u m hm
  exact if_neg (fun hin => hms u m hin hm)

omit [DecidableEq E] [DecidableEq K] in
theorem Inv.setHdrAt {b : Extent} (hm : ∀ u, m ∉ (s.phase u).fixed) :
    Inv cfg { s with hdr := update s.hdr m b } := by
  refine h.setHdr ?_
  intro u x hx
  refine update_of_ne ?_ _ _
  rintro rfl
  exact hm u hx

theorem Inv.netTxEth {a : Place T E K} {tx : Tx K} {p : Phase E M}
    (ha : a = .call t ∨ a = .drain t) (hfix : (s.phase t).fixed = [])
    (htx : s.netTxEth tx m = some s') (hfrom : s.held a = m :: (s'.goto t p).held a)
    (hkeep : ∀ j, j = .call t ∨ j = .drain t → j ≠ a → (s'.goto t p).held j = s.held j)
    (hown : ∀ s₂, Inv cfg s₂ → s₂.phase = s.phase → Hops Allowed s₂.holdings (s'.goto t p).holdings →
      TakenIn (s'.goto t p) m → PhaseOk (s'.goto t p) p) : Inv cfg (s'.goto t p) := by
  obtain ⟨_, rfl⟩ := ite_some_none_eq_some.1 htx
  have hm : m ∈ s.held a := by
    rw [hfrom]
    exact mem_cons_self
  have hadj : Inv cfg (s.adjust [m] (Extent.push ethHdrLen)) := by
    refine h.adjust ?_
    intro u x hx
    rw [mem_singleton.1 hx]
    by_cases hu : a = .call u
    · have hut : u = t := by
        rcases ha with rfl | rfl
        · exact (Place.call.inj hu).symm
        · cases hu
      rw [hut, hfix]
      exact not_mem_nil
    · exact h.not_fixed hu hm
  have hdrained := hadj.netTxDrainOverflow (k := tx.k) (n := tx.n)
  obtain ⟨d, hwire, hputs⟩ := puts_txSingle
    ((s.adjust [m] (Extent.push ethHdrLen)).netTxDrainOverflow tx.k tx.n) tx m
  have hd := Place.settled_of_wire hwire
  have hframe : ∀ j, j = .call t ∨ j = .drain t →
      State.held ((s.adjust [m] (Extent.push ethHdrLen)).netTxDrainOverflow tx.k tx.n) j = s.held j := by
    rintro j (rfl | rfl) <;> rfl
  have hallowed : Allowed a d := by
    rcases ha with rfl | rfl
    · exact allowed_of_settled hd
    · cases d <;> first | exact True.intro | cases hwire
  refine hdrained.handOver ha hallowed hd hputs (Place.not_queue_of_wire hwire) ?_ ?_ ?_
  · rw [hframe a ha]
    exact hfrom
  · intro j hj hja
    rw [hframe j hj]
    exact hkeep j hj hja
  · intro hops
    refine hown _ hdrained rfl hops ⟨d, Place.taken_of_settled hd, ?_⟩
    rw [held_goto_of_ne (Place.ne_call_of_settled hd t) (Place.ne_drain_of_settled hd t)]
    exact hputs.at_dest.mem_iff.2 (mem_append_left _ mem_cons_self)

theorem Inv.arpSend {req : Option M} {tx : Tx K}
    (hsend : s.arpSend req tx = some s') : Inv cfg s' ∧ s'.phase = s.phase := by
  cases req with
  | none =>
    cases hsend
    exact ⟨h, rfl⟩
  | some m =>
    obtain ⟨hm, htx⟩ := ite_none_right_eq_some.1 hsend
    obtain ⟨_, rfl⟩ := ite_some_none_eq_some.1 htx
    have hset : Inv cfg { s with hdr := update s.hdr m arpMbuf } :=
      h.setHdrAt fun _ => h.not_fixed_of_inactive hm
    have hadj : Inv cfg
        (State.adjust { s with hdr := update s.hdr m arpMbuf } [m] (Extent.push ethHdrLen)) := by
      refine hset.adjust ?_
      intro u x hx
      rw [mem_singleton.1 hx]
      exact hset.not_fixed_of_inactive hm
    have hdrained := hadj.netTxDrainOverflow (k := tx.k) (n := tx.n)
    obtain ⟨d, hwire, hputs⟩ := puts_txSingle (State.netTxDrainOverflow
      (State.adjust { s with hdr := update s.hdr m arpMbuf } [m] (Extent.push ethHdrLen))
      tx.k tx.n) tx m
    have hinv := hdrained.fresh hm hputs (Place.not_queue_of_wire hwire)
    rw [← txSingle_active] at hinv
    exact ⟨hinv, (txSingle_phase _ tx m).trans rfl⟩

end

/-! ### Returns -/

omit [DecidableEq E] [DecidableEq M] [DecidableEq K] in
theorem ret_of_kept {r : Ret} (hr : c.kept r = true) : s.ret t c r = s.goto t (.returned c r) := by
  unfold State.ret
  rw [if_pos hr]

omit [DecidableEq E] [DecidableEq M] [DecidableEq K] in
theorem ret_of_not_kept {r : Ret} (hr : c.kept r = false) :
    s.ret t c r = { s.goto t (.returned c r) with given := c.ms ++ s.given } := by
  unfold State.ret
  rw [if_neg (by rw [hr]; exact Bool.false_ne_true)]
  rfl

omit [DecidableEq E] [DecidableEq M] in
theorem callMbufs_of_kept {r : Ret} (hr : c.kept r = true) :
    (Phase.returned c r : Phase E M).callMbufs = c.ms := if_pos hr

omit [DecidableEq E] [DecidableEq M] in
theorem callMbufs_of_not_kept {r : Ret} (hr : c.kept r = false) :
    (Phase.returned c r : Phase E M).callMbufs = [] :=
  if_neg (by rw [hr]; exact Bool.false_ne_true)

theorem Inv.retKept {r : Ret} {f : M → Extent} (h : Inv cfg s) (hr : c.kept r = true)
    (hcall : (s.phase t).callMbufs = c.ms) (hdrain : (s.phase t).drainMbufs = [])
    (hhdr : ∀ m, m ∉ c.ms → f m = s.hdr m) (hf : c.ms.map f = c.before) :
    Inv cfg (State.ret { s with hdr := f } t c r) := by
  rw [ret_of_kept hr]
  refine h.goto ((callMbufs_of_kept hr).trans hcall.symm) hdrain.symm ?_ (fun _ => hf)
  intro u hu m hm
  refine hhdr m ?_
  intro hin
  have hcu : (Place.call u : Place T E K) ≠ .call t :=
    fun heq => hu (congrArg some (Place.call.inj heq).symm)
  refine hcu (h.once.disjoint _ _ m (Phase.fixed_subset hm) ?_)
  change m ∈ (s.phase t).callMbufs
  rw [hcall]
  exact hin

theorem Inv.retGiven {r : Ret} {d : Place T E K} (h : Inv cfg s) (hr : c.kept r = false)
    (hcall : (s.phase t).callMbufs = c.ms) (hdrain : (s.phase t).drainMbufs = [])
    (hputs : Puts s s' d c.ms) (hd : d.settled = true)
    (hqueue : ∀ e, d = .queue e → e ∈ s.tbl (hashIp cfg (s.entry e).ip)) :
    Inv cfg (s'.ret t c r) := by
  rw [ret_of_not_kept hr, hputs.given]
  have hinv : Inv cfg (s'.goto t (.returned c r)) := by
    refine h.handOver (.inl rfl) (allowed_of_settled hd) hd hputs hqueue ?_ ?_ ?_
    · rw [held_goto_call, callMbufs_of_not_kept hr, append_nil]
      exact hcall
    · rintro j (rfl | rfl) hj
      · exact absurd rfl hj
      · rw [held_goto_drain]
        exact hdrain.symm
    · intro _ hkept
      rw [hr] at hkept
      cases hkept
  have hgiven : (s'.goto t (.returned c r)).given = s.given := hputs.given
  rw [← hgiven]
  refine hinv.give ?_
  intro m hm
  refine ⟨d, Place.taken_of_settled hd, ?_⟩
  rw [held_goto_of_ne (Place.ne_call_of_settled hd t) (Place.ne_drain_of_settled hd t)]
  exact hputs.at_dest.mem_iff.2 (mem_append_left _ hm)

theorem pull_push {n : Nat} {b : Extent} (h : n ≤ b.data) : (b.push n).pull n = b := by
  unfold Extent.push Extent.pull
  simp only [Nat.sub_add_cancel h, Nat.add_sub_cancel]

omit [DecidableEq T] [DecidableEq E] [DecidableEq K] in
theorem Pending.pulled (h : Pending s c) (hkind : c.kind ≠ .lookup) :
    c.ms.map (s.adjust c.ms (Extent.pull ipHdrLen)).hdr = c.before := by
  have hadj : c.ms.map (s.adjust c.ms (Extent.pull ipHdrLen)).hdr =
      (c.ms.map s.hdr).map (Extent.pull ipHdrLen) := by
    rw [List.map_map]
    refine map_congr_left ?_
    intro m hm
    exact if_pos hm
  rw [hadj, h.hdr, Call.pushed, if_neg hkind, List.map_map]
  refine (map_congr_left ?_).trans (map_id _)
  intro b hb
  exact pull_push (h.room hkind b hb)

omit [DecidableEq T] [DecidableEq E] [DecidableEq M] [DecidableEq K] in
theorem Pending.lookup_hdr (h : Pending s c) (hkind : c.kind = .lookup) :
    c.ms.map s.hdr = c.before := by
  rw [h.hdr, Call.pushed, if_pos hkind]

theorem Inv.answer {a : Answer} (h : Inv cfg s) (hp : Pending s c)
    (hcall : (s.phase t).callMbufs = c.ms) (hdrain : (s.phase t).drainMbufs = [])
    (ha : a ≠ .inProgress) : Inv cfg (s.answer t c a) := by
  by_cases hkind : c.kind = .lookup
  · have hok : c.kept .ok = true := by simp [Call.kept, hkind]
    have hmem : c.kept .noMem = true := by simp [Call.kept, hkind]
    have hhdr := hp.lookup_hdr hkind
    unfold State.answer
    rw [hkind]
    cases a with
    | dhost _ => exact h.retKept (f := s.hdr) hok hcall hdrain (fun _ _ => rfl) hhdr
    | noMem => exact h.retKept (f := s.hdr) hmem hcall hdrain (fun _ _ => rfl) hhdr
    | inProgress => exact absurd rfl ha
  · cases a with
    | dhost a =>
      have heq : s.answer t c (.dhost a) = s.goto t (.send c a c.ms) := by
        unfold State.answer
        split <;> simp_all
      rw [heq]
      exact h.goto (f := s.hdr) hcall.symm hdrain.symm (fun _ _ _ _ => rfl)
        ⟨hkind, fun _ hm => .inl hm⟩
    | noMem =>
      have heq : s.answer t c .noMem = (s.adjust c.ms (Extent.pull ipHdrLen)).ret t c .noMem := by
        unfold State.answer
        split <;> simp_all
      have hkept : c.kept .noMem = true := by simp [Call.kept, hkind]
      rw [heq]
      exact h.retKept hkept hcall hdrain (fun m hm => if_neg hm) (hp.pulled hkind)
    | inProgress => exact absurd rfl ha

omit [DecidableEq E] [DecidableEq K] in
theorem answer_inProgress (s : State T E M K) (t : T) (c : Call M) :
    ∃ r, c.kept r = false ∧ s.answer t c .inProgress = s.ret t c r := by
  by_cases hkind : c.kind = .lookup
  · refine ⟨.inProgress, by simp [Call.kept, hkind], ?_⟩
    unfold State.answer
    rw [hkind]
  · refine ⟨.ok, by simp [Call.kept, hkind], ?_⟩
    unfold State.answer
    split <;> simp_all

/-! ### The callers -/

omit [DecidableEq T] [DecidableEq E] [DecidableEq K] in
theorem begin_eq (s : State T E M K) (c : Call M) : s.begin c = { s with
      caller := s.caller.filter (· ∉ c.ms)
      hdr := fun m => if c.kind ≠ .lookup ∧ m ∈ c.ms then (s.hdr m).push ipHdrLen else s.hdr m } := by
  unfold State.begin
  by_cases hkind : c.kind = .lookup
  · simp [hkind]
  · simp [hkind, State.adjust]

theorem perm_filter_not_mem {l ms : List M} (hl : l.Nodup) (hms : ms.Nodup)
    (hsub : ∀ m ∈ ms, m ∈ l) : l.Perm (ms ++ l.filter (· ∉ ms)) := by
  refine (perm_ext_iff_of_nodup hl ?_).2 ?_
  · refine nodup_append.2 ⟨hms, hl.filter _, ?_⟩
    rintro x hx y hy rfl
    exact of_decide_eq_true (mem_filter.1 hy).2 hx
  · intro x
    by_cases hx : x ∈ ms
    · simp [hx, hsub x hx]
    · simp [hx]

theorem Inv.call {p : Phase E M} (h : Inv cfg s) (hstart : s.call t c p = some s')
    (hbefore : c.before = c.ms.map s.hdr) (hcall : p.callMbufs = c.ms) (hdrain : p.drainMbufs = [])
    (hown : Pending s' c → PhaseOk s' p) : Inv cfg s' := by
  obtain ⟨⟨hidle, hnodup, hsub, hroom⟩, rfl⟩ := ite_some_none_eq_some.1 hstart
  rw [begin_eq] at hown ⊢
  have hops : Hops Allowed s.holdings (State.holdings (State.goto { s with
      caller := s.caller.filter (· ∉ c.ms)
      hdr := fun m => if c.kind ≠ .lookup ∧ m ∈ c.ms then (s.hdr m).push ipHdrLen else s.hdr m } t p)) := by
    refine .single (.move .caller (.call t) c.ms trivial nofun
      (perm_filter_not_mem (h.once.nodup .caller) hnodup hsub) ?_ ?_ rfl)
    · change ((State.goto _ t p).held (.call t)).Perm (c.ms ++ (s.phase t).callMbufs)
      rw [held_goto_call, hcall, hidle]
      exact .of_eq (append_nil _).symm
    · intro j hjc hjcaller
      by_cases hj : j = .drain t
      · subst hj
        refine held_goto_drain.trans ?_
        change p.drainMbufs = (s.phase t).drainMbufs
        rw [hdrain, hidle]
        rfl
      · refine (held_goto_of_ne hjc hj).trans ?_
        cases j <;> first | rfl | exact absurd rfl hjcaller
  refine h.frame (t := some t) ⟨hops, fun u hu => goto_phase_of_ne hu, ?_, fun e he => ⟨he, rfl⟩⟩
    ⟨h.table.used, h.table.queued⟩ ?_ (fun _ hm => .inl hm)
  · intro u _ m hm
    refine if_neg ?_
    rintro ⟨_, hin⟩
    exact h.not_fixed (a := .caller) nofun (hsub m hin) hm
  · rintro u ⟨⟩
    rw [goto_phase_self]
    refine hown ⟨?_, ?_⟩
    · rw [Call.pushed, hbefore, List.map_map]
      by_cases hkind : c.kind = .lookup
      · rw [if_pos hkind]
        exact map_congr_left fun m _ => if_neg fun hc => hc.1 hkind
      · rw [if_neg hkind]
        exact map_congr_left fun m hm => if_pos ⟨hkind, hm⟩
    · intro hkind b hb
      rw [hbefore] at hb
      obtain ⟨m, hm, rfl⟩ := mem_map.1 hb
      exact hroom m hm hkind

theorem Inv.resume (h : Inv cfg s) (hdrain : (s.phase t).drainMbufs = []) :
    Inv cfg (State.goto { s with caller := (s.phase t).callMbufs ++ s.caller } t .idle) := by
  have hops : Hops Allowed s.holdings (State.holdings
      (State.goto { s with caller := (s.phase t).callMbufs ++ s.caller } t .idle)) := by
    refine .single (.move (.call t) .caller (s.phase t).callMbufs trivial nofun ?_
      (List.Perm.refl _) ?_ rfl)
    · refine .of_eq ?_
      change (s.phase t).callMbufs = (s.phase t).callMbufs ++ (State.goto _ t .idle).held (.call t)
      rw [held_goto_call]
      exact (append_nil _).symm
    · intro j hjcaller hjc
      by_cases hj : j = .drain t
      · subst hj
        exact held_goto_drain.trans hdrain.symm
      · refine (held_goto_of_ne hjc hj).trans ?_
        cases j <;> first | rfl | exact absurd rfl hjcaller
  refine h.frame (t := some t) ⟨hops, fun u hu => goto_phase_of_ne hu, fun _ _ _ _ => rfl,
    fun e he => ⟨he, rfl⟩⟩ ⟨h.table.used, h.table.queued⟩ ?_ (fun _ hm => .inl hm)
  rintro u ⟨⟩
  rw [goto_phase_self]
  trivial

omit [DecidableEq E] [DecidableEq K] in
theorem Inv.callerFree (h : Inv cfg s) (hm : m ∈ s.caller) :
    Inv cfg (State.mbufFree { s with caller := s.caller.erase m } [m]) := by
  have hops : Hops Allowed s.holdings (State.holdings
      (State.mbufFree { s with caller := s.caller.erase m } [m])) := by
    refine .single (.move .caller .freed [m] trivial nofun (perm_cons_erase hm)
      (List.Perm.refl _) ?_ rfl)
    intro j hjf hjc
    cases j <;> first | rfl | exact absurd rfl hjf | exact absurd rfl hjc
  exact h.frame (t := none) ⟨hops, fun _ _ => rfl, fun _ _ _ _ => rfl, fun e he => ⟨he, rfl⟩⟩
    ⟨h.table.used, h.table.queued⟩ nofun (fun _ hm => .inl hm)

theorem Inv.alloc {b : Extent} (h : Inv cfg s) (hm : s.active m = false) : Inv cfg { s with
      active := update s.active m true
      hdr := update s.hdr m b
      caller := m :: s.caller } := by
  have hset : Inv cfg { s with hdr := update s.hdr m b } :=
    h.setHdrAt fun _ => h.not_fixed_of_inactive hm
  have hputs : Puts { s with hdr := update s.hdr m b }
      { s with hdr := update s.hdr m b, caller := m :: s.caller } .caller [m] :=
    { at_dest := List.Perm.refl _
      other := fun j hj => by cases j <;> first | rfl | exact absurd rfl hj }
  exact hset.fresh hm hputs nofun

theorem Inv.merge {dhost : Eth} (h : Inv cfg s) (hcall : (s.phase t).callMbufs = [])
    (hdrain : (s.phase t).drainMbufs = []) :
    Inv cfg (State.goto { s with q := update s.q e [] } t (.drain dhost (s.q e))) := by
  have hops : Hops Allowed s.holdings (State.holdings
      (State.goto { s with q := update s.q e [] } t (.drain dhost (s.q e)))) := by
    refine .single (.move (.queue e) (.drain t) (s.q e) trivial nofun ?_ ?_ ?_ rfl)
    · refine .of_eq ?_
      change s.q e = s.q e ++ update s.q e [] e
      rw [update_self, append_nil]
    · change ((State.goto _ t _).held (.drain t)).Perm (s.q e ++ (s.phase t).drainMbufs)
      rw [held_goto_drain, hdrain, append_nil]
      exact List.Perm.refl _
    · intro j hjd hjq
      by_cases hj : j = .call t
      · subst hj
        exact held_goto_call.trans hcall.symm
      · refine (held_goto_of_ne hj hjd).trans ?_
        cases j with
        | queue e' => exact update_of_ne (fun he => hjq (congrArg Place.queue he)) _ s.q
        | _ => rfl
  refine h.frame (t := some t) ⟨hops, fun u hu => goto_phase_of_ne hu, fun _ _ _ _ => rfl,
    fun e he => ⟨he, rfl⟩⟩ ⟨h.table.used, ?_⟩ ?_ (fun _ hm => .inl hm)
  · intro e' m hm
    change m ∈ update s.q e [] e' at hm
    by_cases he : e' = e
    · subst he
      rw [update_self] at hm
      cases hm
    · rw [update_of_ne he] at hm
      exact h.table.queued e' m hm
  · rintro u ⟨⟩
    rw [goto_phase_self]
    trivial

/-! ### Steps -/

omit [DecidableEq T] [DecidableEq E] [DecidableEq M] [DecidableEq K] in
theorem lookupEntry_some {daddr : Ip} (h : s.lookupEntry cfg daddr = some e) :
    e ∈ s.tbl (hashIp cfg (s.entry e).ip) ∧ (s.entry e).ip = daddr := by
  unfold State.lookupEntry at h
  have hip : (s.entry e).ip = daddr := by simpa using List.find?_some h
  refine ⟨?_, hip⟩
  rw [hip]
  exact List.mem_of_find?_eq_some h

theorem Inv.queueFirst (h : Inv cfg s) (hcall : (s.phase t).callMbufs = c.ms)
    (hdrain : (s.phase t).drainMbufs = []) (hlen : c.ms.length ≤ 1)
    (he : e ∈ s.tbl (hashIp cfg (s.entry e).ip)) : Inv cfg (s.queueFirst t c e) := by
  unfold State.queueFirst
  rw [take_of_length_le hlen]
  obtain ⟨r, hr, heq⟩ := answer_inProgress (s.pushTail e c.ms) t c
  rw [heq]
  refine h.retGiven hr hcall hdrain (puts_pushTail s e c.ms) rfl ?_
  rintro e' ⟨⟩
  exact he

theorem Inv.lookupLocked {newe : Option E} (h : Inv cfg s) (hphase : s.phase t = .enqueue c newe)
    (hcareful : c.ms.length ≤ 1 ∨ ∃ e, s.lookupEntry cfg c.daddr = some e ∧
      (s.entry e).state ≠ .probing) : Inv cfg (s.lookupLocked cfg t c newe) := by
  have hok := h.phases t
  rw [hphase] at hok
  obtain ⟨hpending, hnewe⟩ := hok
  have hcall : (s.phase t).callMbufs = c.ms := by rw [hphase]; rfl
  have hdrain : (s.phase t).drainMbufs = [] := by rw [hphase]; rfl
  unfold State.lookupLocked
  cases hl : s.lookupEntry cfg c.daddr with
  | some e =>
    dsimp only
    split
    · exact h.answer hpending hcall hdrain nofun
    · rename_i hprobing
      have hlen : c.ms.length ≤ 1 := by
        rcases hcareful with hlen | ⟨e', he', hstate⟩
        · exact hlen
        · rw [hl] at he'
          cases he'
          exact absurd hstate hprobing
      exact h.queueFirst hcall hdrain hlen (lookupEntry_some hl).1
  | none =>
    have hlen : c.ms.length ≤ 1 := by
      rcases hcareful with hlen | ⟨e', he', _⟩
      · exact hlen
      · rw [hl] at he'
        cases he'
    cases newe with
    | some e =>
      obtain ⟨hused, hip⟩ := hnewe e rfl
      refine (h.insertEntry hused).queueFirst hcall hdrain hlen ?_
      change e ∈ update s.tbl _ _ (hashIp cfg (s.entry e).ip)
      rw [hip, update_self]
      exact mem_cons_self
    | none =>
      dsimp only
      rw [take_of_length_le hlen]
      obtain ⟨r, hr, heq⟩ := answer_inProgress (s.mbufFree c.ms) t c
      rw [heq]
      exact h.retGiven hr hcall hdrain (puts_mbufFree s c.ms) rfl nofun

theorem Inv.netTxLocalLoopback {proto : BitVec 8} {spawned : Bool} (h : Inv cfg s)
    (hphase : s.phase t = .loopback c) :
    Inv cfg (s.netTxLocalLoopback t c proto true spawned) := by
  have hok := h.phases t
  rw [hphase] at hok
  have hcall : (s.phase t).callMbufs = c.ms := by rw [hphase]; rfl
  have hdrain : (s.phase t).drainMbufs = [] := by rw [hphase]; rfl
  have hr : c.kept .ok = false := by simp [Call.kept, hok.2.1]
  unfold State.netTxLocalLoopback
  rw [if_neg (by decide)]
  split
  · exact h.retGiven hr hcall hdrain (puts_delivered s c.ms) rfl nofun
  · exact h.retGiven hr hcall hdrain (puts_mbufFree s c.ms) rfl nofun

theorem Inv.updateLocked {daddr : Ip} {dhost : Eth} {newe : Option E} {now : BitVec 64}
    (h : Inv cfg s) (hcall : (s.phase t).callMbufs = []) (hdrain : (s.phase t).drainMbufs = [])
    (hstep : s.updateLocked cfg t daddr dhost newe now = some s') : Inv cfg s' := by
  unfold State.updateLocked at hstep
  cases hl : s.lookupEntry cfg daddr with
  | some e =>
    rw [hl] at hstep
    dsimp only at hstep
    split at hstep
    · cases hstep
      exact h.goto (f := s.hdr) hcall.symm hdrain.symm (fun _ _ _ _ => rfl) trivial
    · cases hstep
      exact (h.setLock (o := some t)).goto (f := s.hdr) hcall.symm hdrain.symm
        (fun _ _ _ _ => rfl) trivial
  | none =>
    rw [hl] at hstep
    cases newe with
    | none =>
      cases hstep
      exact h.goto (f := s.hdr) hcall.symm hdrain.symm (fun _ _ _ _ => rfl) trivial
    | some e =>
      obtain ⟨s₁, hcreate, rfl⟩ := map_eq_some_iff.1 hstep
      obtain ⟨hinv, hphase, hused, _, _⟩ := h.createEntry hcreate
      rw [← hphase] at hcall hdrain
      exact ((hinv.insertEntry hused).setLock (o := some t)).goto (f := s₁.hdr) hcall.symm
        hdrain.symm (fun _ _ _ _ => rfl) trivial

theorem Inv.arpAgeEntry {now stamp : BitVec 64} {req : Option M} {tx : Tx K} (h : Inv cfg s)
    (hstep : s.arpAgeEntry cfg e now stamp req tx = some s') : Inv cfg s' := by
  unfold State.arpAgeEntry at hstep
  split at hstep
  · cases hstep
    exact h.deleteEntry
  · cases hstep
    exact h
  · rename_i a _
    have hset := h.setEntry (e := e) (a := { s.entry e with toArpAge := a }) rfl
    exact (hset.arpSend hstep).1

theorem Inv.solicit {req : Option M} {tx : Tx K} {newe : Option E} {now : BitVec 64}
    (h : Inv cfg s) (hphase : s.phase t = .cold c)
    (hstep : ((s.arpSend req tx).bind fun s => match newe with
      | none => some (s.answer t c .noMem)
      | some e => (s.createEntry e c.daddr now).map (·.goto t (.enqueue c (some e)))) = some s') :
    Inv cfg s' := by
  obtain ⟨s₁, hsend, hrest⟩ := bind_eq_some_iff.1 hstep
  obtain ⟨h₁, hphase₁⟩ := h.arpSend hsend
  have hcold : s₁.phase t = .cold c := by rw [hphase₁, hphase]
  cases newe with
  | none =>
    cases hrest
    have hok := h₁.phases t
    rw [hcold] at hok
    exact h₁.answer hok (hcold ▸ rfl) (hcold ▸ rfl) nofun
  | some e =>
    obtain ⟨s₂, hcreate, rfl⟩ := map_eq_some_iff.1 hrest
    obtain ⟨h₂, hphase₂, hused, hip, _⟩ := h₁.createEntry hcreate
    have hcold₂ : s₂.phase t = .cold c := by rw [hphase₂, hcold]
    have hok := h₂.phases t
    rw [hcold₂] at hok
    refine h₂.goto (f := s₂.hdr) (hcold₂ ▸ rfl) (hcold₂ ▸ rfl)
      (fun _ _ _ _ => rfl) ⟨⟨hok.hdr, hok.room⟩, ?_⟩
    rintro e' ⟨⟩
    exact ⟨hused, hip⟩

theorem Inv.transmit {dhost : Eth} {rest : List M} {tx : Tx K} (h : Inv cfg s)
    (hphase : s.phase t = .send c dhost (m :: rest)) {s₁ : State T E M K}
    (htx : s.netTxEth tx m = some s₁) : Inv cfg (s₁.goto t (.send c dhost rest)) := by
  refine h.netTxEth (a := .call t) (.inl rfl) (hphase ▸ rfl) htx ?_ ?_ ?_
  · rw [held_goto_call]
    exact congrArg Phase.callMbufs hphase
  · rintro j (rfl | rfl) hj
    · exact absurd rfl hj
    · rw [held_goto_drain]
      exact (congrArg Phase.drainMbufs hphase).symm
  · intro s₂ h₂ hphase₂ hops htaken
    have hok := h₂.phases t
    rw [hphase₂, hphase] at hok
    refine ⟨hok.1, ?_⟩
    intro x hx
    rcases hok.2 x hx with hin | hold
    · rcases mem_cons.1 hin with rfl | hrest
      · exact .inr htaken
      · exact .inl hrest
    · exact .inr (hold.hops hops)

theorem Inv.sent {dhost : Eth} (h : Inv cfg s) (hphase : s.phase t = .send c dhost []) :
    Inv cfg (s.ret t c .ok) := by
  have hok := h.phases t
  rw [hphase] at hok
  have hr : c.kept .ok = false := by simp [Call.kept, hok.1]
  have hinv : Inv cfg (s.goto t (.returned c .ok)) := by
    refine h.goto (f := s.hdr) ?_ ?_ (fun _ _ _ _ => rfl) ?_
    · rw [callMbufs_of_not_kept hr, hphase]
      rfl
    · rw [hphase]
      rfl
    · intro hkept
      rw [hr] at hkept
      cases hkept
  rw [ret_of_not_kept hr]
  refine hinv.give ?_
  intro m hm
  obtain ⟨j, hj, hmj⟩ := (hok.2 m hm).resolve_left not_mem_nil
  refine ⟨j, hj, ?_⟩
  by_cases hd : j = .drain t
  · subst hd
    have hnil : s.held (.drain t) = [] := congrArg Phase.drainMbufs hphase
    rw [hnil] at hmj
    cases hmj
  · rw [held_goto_of_ne (by rintro rfl; cases hj) hd]
    exact hmj

theorem Inv.drain {dhost : Eth} {q : List M} {tx : Tx K} (h : Inv cfg s)
    (hphase : s.phase t = .drain dhost (m :: q)) {s₁ : State T E M K}
    (htx : s.netTxEth tx m = some s₁) : Inv cfg (s₁.goto t (.drain dhost q)) := by
  refine h.netTxEth (a := .drain t) (.inr rfl) (hphase ▸ rfl) htx ?_ ?_
    (fun _ _ _ _ _ => trivial)
  · rw [held_goto_drain]
    exact congrArg Phase.drainMbufs hphase
  · rintro j (rfl | rfl) hj
    · rw [held_goto_call]
      exact (congrArg Phase.callMbufs hphase).symm
    · exact absurd rfl hj

theorem Inv.gotoPlain {p : Phase E M} (h : Inv cfg s) (hcall : p.callMbufs = (s.phase t).callMbufs)
    (hdrain : p.drainMbufs = (s.phase t).drainMbufs) (hown : PhaseOk (s.goto t p) p) :
    Inv cfg (s.goto t p) :=
  h.goto (f := s.hdr) hcall hdrain (fun _ _ _ _ => rfl) hown

theorem Inv.keeps {ev : Event T E M K} (h : Inv cfg s) (hcareful : Careful cfg s ev)
    (hstep : step cfg s ev = some s') : Inv cfg s' := by
  revert hstep
  fun_cases step cfg s ev
  -- first the steps of functions that may find no step themselves
  case case7 =>
    intro hstep
    exact h.call hstep rfl rfl rfl (fun hp => ⟨hp, nofun, nofun⟩)
  case case8 | case9 | case11 =>
    intro hstep
    exact h.call hstep rfl rfl rfl id
  case case20 hphase =>
    intro hstep
    exact h.solicit hphase hstep
  case case25 hphase =>
    intro hstep
    obtain ⟨s₁, htx, rfl⟩ := map_eq_some_iff.1 hstep
    exact h.transmit hphase htx
  case case32 hphase _ =>
    intro hstep
    exact h.updateLocked (hphase ▸ rfl) (hphase ▸ rfl) hstep
  case case41 hphase =>
    intro hstep
    obtain ⟨s₁, htx, rfl⟩ := map_eq_some_iff.1 hstep
    exact h.drain hphase htx
  case case44 =>
    intro hstep
    exact h.arpAgeEntry hstep
  case case47 e _ eth _ _ =>
    intro hstep
    obtain ⟨s₁, hcreate, rfl⟩ := map_eq_some_iff.1 hstep
    obtain ⟨h₁, _, hused, _, _⟩ := h.createEntry hcreate
    have hset := h₁.setEntry (e := e) (a := { s₁.entry e with eth := eth, state := .static }) rfl
    exact hset.insertEntry hused
  all_goals rintro ⟨⟩
  -- the caller's own mbufs
  case case1 hm => exact h.alloc hm
  case case3 hm => exact h.setHdrAt fun _ => h.not_fixed (a := .caller) nofun hm
  case case5 hm => exact h.callerFree hm
  -- sending
  case case12 copied _ _ _ _ _ hphase =>
    have hcopied : copied = true := by simpa [Careful, State.drops, hphase] using hcareful
    subst hcopied
    exact h.netTxLocalLoopback hphase
  case case14 t _ hphase _ _ | case15 t _ hphase _ =>
    have hok := h.phases t
    rw [hphase] at hok
    exact h.gotoPlain (hphase ▸ rfl) (hphase ▸ rfl) ⟨hok.hdr, hok.room⟩
  case case17 t _ _ hphase _ =>
    have hok := h.phases t
    rw [hphase] at hok
    exact h.answer hok (hphase ▸ rfl) (hphase ▸ rfl) nofun
  case case18 t _ _ hphase _ =>
    have hok := h.phases t
    rw [hphase] at hok
    exact h.gotoPlain (hphase ▸ rfl) (hphase ▸ rfl) ⟨⟨hok.hdr, hok.room⟩, nofun⟩
  case case22 c _ hphase _ =>
    refine h.lookupLocked hphase ?_
    by_cases hlen : c.ms.length ≤ 1
    · exact .inl hlen
    · have htwo : 2 ≤ c.ms.length := by omega
      refine .inr ?_
      cases hl : s.lookupEntry cfg c.daddr with
      | none => simp [Careful, State.drops, hphase, hl, htwo] at hcareful
      | some e =>
        refine ⟨e, rfl, ?_⟩
        simpa [Careful, State.drops, hphase, hl, htwo] using hcareful
  case case26 hphase => exact h.sent hphase
  case case28 hphase => exact h.resume (hphase ▸ rfl)
  -- the table
  case case30 hphase | case42 hphase => exact h.gotoPlain (hphase ▸ rfl) (hphase ▸ rfl) trivial
  case case35 t now e dhost hphase =>
    have hset := h.setEntry (e := e) (a := { s.entry e with eth := dhost, ts := now }) rfl
    have hsame : (s.setEntry e { s.entry e with eth := dhost, ts := now }).phase t = s.phase t := rfl
    exact hset.gotoPlain (by rw [hsame, hphase]; rfl) (by rw [hsame, hphase]; rfl) trivial
  case case37 t e dhost hphase =>
    have hset := h.setEntry (e := e) (a := { s.entry e with state := .valid }) rfl
    have hsame : (s.setEntry e { s.entry e with state := .valid }).phase t = s.phase t := rfl
    exact hset.gotoPlain (by rw [hsame, hphase]; rfl) (by rw [hsame, hphase]; rfl) trivial
  case case39 hphase => exact (h.merge (hphase ▸ rfl) (hphase ▸ rfl)).setLock
  case case46 => exact h.netTxDrainOverflow

omit [DecidableEq T] [DecidableEq E] [DecidableEq M] [DecidableEq K] in
theorem inv_init : Inv cfg (init : State T E M K) where
  once :=
    { nodup := fun j => by cases j <;> exact nodup_nil
      disjoint := fun j _ x hj => by cases j <;> cases hj
      active_iff := fun x => ⟨nofun, fun ⟨j, hj⟩ => by cases j <;> cases hj⟩ }
  phases := fun _ => trivial
  table := ⟨nofun, nofun⟩
  given := nofun

/-! ### What the two steps lose -/

theorem map_push_ne {l : List Extent} (hl : l ≠ []) : l.map (Extent.push ipHdrLen) ≠ l := by
  cases l with
  | nil => exact absurd rfl hl
  | cons b l =>
    intro heq
    have hlen : b.len + ipHdrLen = b.len := congrArg Extent.len (List.cons.inj heq).1
    exact absurd hlen (by unfold ipHdrLen; omega)

omit [DecidableEq E] [DecidableEq M] [DecidableEq K] in
theorem Inv.loopback_failed {proto : BitVec 8} {spawned : Bool} (h : Inv cfg s)
    (hphase : s.phase t = .loopback c) :
    ¬ Owned cfg (s.netTxLocalLoopback t c proto false spawned) := by
  have hok := h.phases t
  rw [hphase] at hok
  obtain ⟨hpending, hkind, hms⟩ := hok
  have hkept : c.kept .noMem = true := by simp [Call.kept, hkind]
  have hpushed : c.ms.map s.hdr = c.before.map (Extent.push ipHdrLen) := by
    rw [hpending.hdr, Call.pushed, if_neg hkind]
  have hbefore : c.before ≠ [] := by
    intro hnil
    rw [hnil, map_nil] at hpushed
    exact hms (map_eq_nil_iff.1 hpushed)
  intro howned
  unfold State.netTxLocalLoopback at howned
  rw [if_pos rfl, ret_of_kept hkept] at howned
  have hhdr := howned.returned t c .noMem goto_phase_self hkept
  exact map_push_ne hbefore (hpushed.symm.trans hhdr)

omit [DecidableEq M] in
/-- Of several mbufs all but the first are in no list any more. -/
theorem Inv.leaks {d : Place T E K} {r : Ret} (h : Inv cfg s)
    (hcall : (s.phase t).callMbufs = c.ms) (hlen : 2 ≤ c.ms.length)
    (hputs : Puts s s' d (c.ms.take 1)) (hr : c.kept r = false) :
    ∃ m ∈ (s'.ret t c r).given, ∀ j, m ∉ (s'.ret t c r).held j := by
  rw [ret_of_not_kept hr]
  match hms : c.ms, hlen with
  | first :: m :: rest, _ =>
    rw [hms] at hcall hputs
    have hheld : s.held (.call t) = first :: m :: rest := hcall
    have hm : m ∈ s.held (.call t) := by
      rw [hheld]
      exact mem_cons_of_mem _ mem_cons_self
    have hnodup := h.once.nodup (.call t)
    rw [hheld] at hnodup
    have hne : m ≠ first := by
      rintro rfl
      exact (nodup_cons.1 hnodup).1 mem_cons_self
    refine ⟨m, mem_append_left _ (mem_cons_of_mem _ mem_cons_self), ?_⟩
    intro j hj
    have hgoto : m ∈ (s'.goto t (.returned c r)).held j := by cases j <;> exact hj
    by_cases hjc : j = .call t
    · subst hjc
      rw [held_goto_call, callMbufs_of_not_kept hr] at hgoto
      cases hgoto
    · by_cases hjd : j = .drain t
      · subst hjd
        rw [held_goto_drain] at hgoto
        cases hgoto
      · rw [held_goto_of_ne hjc hjd] at hgoto
        by_cases hjdest : j = d
        · subst hjdest
          rcases mem_append.1 (hputs.at_dest.mem_iff.1 hgoto) with hfirst | hold
          · exact hne (mem_singleton.1 hfirst)
          · exact hjc (h.once.disjoint _ _ m hold hm)
        · rw [hputs.other j hjdest] at hgoto
          exact hjc (h.once.disjoint _ _ m hgoto hm)

theorem Inv.lookupLocked_leaks {newe : Option E} (h : Inv cfg s)
    (hphase : s.phase t = .enqueue c newe) (hlen : 2 ≤ c.ms.length)
    (hprobing : ∀ e, s.lookupEntry cfg c.daddr = some e → (s.entry e).state = .probing) :
    ∃ m ∈ (s.lookupLocked cfg t c newe).given, ∀ j, m ∉ (s.lookupLocked cfg t c newe).held j := by
  have hok := h.phases t
  rw [hphase] at hok
  have hcall : (s.phase t).callMbufs = c.ms := by rw [hphase]; rfl
  unfold State.lookupLocked
  cases hl : s.lookupEntry cfg c.daddr with
  | some e =>
    dsimp only
    rw [if_neg (fun hne => hne (hprobing e hl))]
    obtain ⟨r, hr, heq⟩ := answer_inProgress (s.pushTail e (c.ms.take 1)) t c
    unfold State.queueFirst
    rw [heq]
    exact h.leaks hcall hlen (puts_pushTail s e _) hr
  | none =>
    cases newe with
    | some e =>
      have hins := h.insertEntry (i := hashIp cfg c.daddr) (hok.2 e rfl).1
      obtain ⟨r, hr, heq⟩ := answer_inProgress
        ((s.insertEntry e (hashIp cfg c.daddr)).pushTail e (c.ms.take 1)) t c
      dsimp only
      unfold State.queueFirst
      rw [heq]
      exact hins.leaks hcall hlen (puts_pushTail _ e _) hr
    | none =>
      obtain ⟨r, hr, heq⟩ := answer_inProgress (s.mbufFree (c.ms.take 1)) t c
      dsimp only
      rw [heq]
      exact h.leaks hcall hlen (puts_mbufFree s _) hr

theorem Inv.drops {ev : Event T E M K} (h : Inv cfg s) (hdrops : ¬ Careful cfg s ev)
    (hstep : step cfg s ev = some s') : ¬ Owned cfg s' := by
  cases ev with
  | loopback t copied spawned =>
    simp only [step] at hstep
    split at hstep
    · rename_i hphase
      have hcopied : copied = false := by simpa [Careful, State.drops, hphase] using hdrops
      subst hcopied
      cases hstep
      exact h.loopback_failed hphase
    · cases hstep
  | lookupLocked t =>
    simp only [step] at hstep
    split at hstep
    · rename_i c newe hphase
      obtain ⟨_, rfl⟩ := ite_some_none_eq_some.1 hstep
      simp only [Careful, State.drops, hphase, Bool.not_eq_false, Bool.and_eq_true,
        decide_eq_true_eq] at hdrops
      obtain ⟨hlen, hall⟩ := hdrops
      have hprobing : ∀ e, s.lookupEntry cfg c.daddr = some e → (s.entry e).state = .probing := by
        intro e hl
        rw [hl] at hall
        exact of_decide_eq_true hall
      obtain ⟨m, hm, hnone⟩ := h.lookupLocked_leaks hphase hlen hprobing
      intro howned
      obtain ⟨j, _, hj⟩ := howned.given m hm
      exact hnone j hj
    · cases hstep
  | _ => exact absurd rfl hdrops

theorem Inv.of_reaches (h : Reaches (step cfg) (Careful cfg) init s) : Inv cfg s :=
  h.invariant (P := Inv cfg) inv_init (fun _ _ _ hu hok hstep => hu.keeps hok hstep)

omit [DecidableEq T] [DecidableEq E] [DecidableEq M] [DecidableEq K] in
theorem Quiescent.settled (hquiet : Quiescent s) {j : Place T E K} (hj : j.taken = true)
    (hm : m ∈ s.held j) : j.settled = true := by
  cases j with
  | drain t =>
    have hrest := hquiet t
    change m ∈ (s.phase t).drainMbufs at hm
    cases hp : s.phase t with
    | drain dhost q =>
      rw [hp] at hrest
      cases hrest
    | _ =>
      rw [hp] at hm
      cases hm
  | caller | call t => cases hj
  | _ => rfl

/-- While no loopback copy fails and `arp_lookup` keeps no mbuf of a longer burst, every mbuf is
in exactly one place, and a caller gets back its mbufs as they were. Every step that breaks the
condition ends this. -/
theorem mbufs_owned_iff (cfg : NetCfg) {s : State T E M K}
    (h : Reaches (step cfg) (Careful cfg) init s) :
    Owned cfg s ∧
    (∀ m, s.active m = true → ∃! p, m ∈ s.held p) ∧
    (Quiescent s → ∀ m ∈ s.given, ∃! p, p.settled = true ∧ m ∈ s.held p) ∧
    ∀ ev s', step cfg s ev = some s' → (Owned cfg s' ↔ Careful cfg s ev) := by
  have hinv := Inv.of_reaches h
  refine ⟨hinv.owned, ?_, ?_, ?_⟩
  · intro m hm
    obtain ⟨p, hp⟩ := (hinv.once.active_iff m).1 hm
    exact ⟨p, hp, fun p' hp' => hinv.once.disjoint p' p m hp' hp⟩
  · intro hquiet m hm
    obtain ⟨p, htaken, hp⟩ := hinv.given m hm
    exact ⟨p, ⟨hquiet.settled htaken hp, hp⟩, fun p' hp' => hinv.once.disjoint p' p m hp'.2 hp⟩
  · intro ev s' hstep
    constructor
    · intro howned
      by_contra hdrops
      exact hinv.drops hdrops hstep howned
    · intro hcareful
      exact (hinv.keeps hcareful hstep).owned

end Model

/-! ## Runs -/

def exampleCfg : NetCfg := ⟨0x0a000001, 0xffffff00, 0x0a0000fe, id⟩

def resolvedRun : List (Event (Fin 2) Unit Nat Unit) :=
  [.alloc 1 ⟨128, 8⟩, .alloc 2 ⟨128, 8⟩, .alloc 3 ⟨128, 8⟩,
   .netTxIpBurst 0 [1] 0x0a000002, .lookup 0, .solicit 0 (some 9) ⟨(), 0, true⟩ (some ()) 5,
   .lookupLocked 0, .resume 0,
   .arpUpdate 1 0x0a000002 7, .updateLocked 1 none 6, .updateEth 1 6, .updateState 1,
   .updateMerge 1, .drain 1 ⟨(), 0, false⟩, .drain 1 ⟨(), 0, true⟩,
   .netTxIpBurst 0 [2, 3] 0x0a000002, .lookup 0, .loadState 0, .transmit 0 ⟨(), 1, true⟩,
   .transmit 0 ⟨(), 0, true⟩, .transmit 0 ⟨(), 0, true⟩]

theorem mbufs_owned_resolved : ∃ s : State (Fin 2) Unit Nat Unit,
    Reaches (step exampleCfg) (Careful exampleCfg) init s ∧ s.device = [3, 2, 1, 9] ∧
      s.given = [2, 3, 1] ∧ Owned exampleCfg s := by
  have hrun : (runChecked (step exampleCfg) (fun s ev => !s.drops exampleCfg ev) init
      resolvedRun).map (fun s => decide (s.device = [3, 2, 1, 9] ∧ s.given = [2, 3, 1])) =
      some true := by decide
  obtain ⟨s, hs, hd⟩ := map_eq_some_iff.1 hrun
  have hreach : Reaches (step exampleCfg) (Careful exampleCfg) init s :=
    reaches_of_runChecked (fun _ _ _ hg => by simpa [Careful] using hg) hs
  obtain ⟨hdevice, hgiven⟩ := of_decide_eq_true hd
  exact ⟨s, hreach, hdevice, hgiven, (mbufs_owned_iff exampleCfg hreach).1⟩

def burstRun : List (Event Unit Unit Nat Unit) :=
  [.alloc 1 ⟨128, 8⟩, .alloc 2 ⟨128, 8⟩, .netTxIpBurst () [1, 2] 0x0a000002, .lookup (),
   .solicit () none ⟨(), 0, true⟩ (some ()) 5, .lookupLocked ()]

def loopbackRun : List (Event Unit Unit Nat Unit) :=
  [.alloc 1 ⟨128, 8⟩, .netTxIp () 1 17 0x0a000001, .loopback () false true]

/-- A burst of two mbufs to an unresolved address returns 0 and leaves the second one to nobody;
`net_tx_ip` to the own address without memory returns with the IP header still in front. -/
theorem burst_leaks_and_header_stays :
    (∃ s : State Unit Unit Nat Unit, Reaches (step exampleCfg) anyStep init s ∧ Quiescent s ∧
      s.active 2 = true ∧ 2 ∈ s.given ∧ ∀ p, 2 ∉ s.held p) ∧
    ∃ s : State Unit Unit Nat Unit, Reaches (step exampleCfg) anyStep init s ∧
      s.phase () = .returned ⟨.ip 17, [1], 0x0a000001, [⟨128, 8⟩]⟩ .noMem ∧
      s.hdr 1 = ⟨108, 28⟩ := by
  constructor
  · obtain ⟨s, hreach, hd⟩ : ∃ s, Reaches (step exampleCfg) anyStep init s ∧
        (s.phase ()).atRest = true ∧ s.active 2 = true ∧ 2 ∈ s.given ∧ 2 ∉ s.caller ∧
        2 ∉ (s.phase ()).callMbufs ∧ 2 ∉ (s.phase ()).drainMbufs ∧ 2 ∉ s.q () ∧
        2 ∉ s.overflow () ∧ 2 ∉ s.device ∧ 2 ∉ s.delivered ∧ 2 ∉ s.freed :=
      exists_of_runActions burstRun (by decide)
    obtain ⟨hrest, hact, hgiven, hcaller, hcall, hdrain, hq, hover, hdev, hdel, hfreed⟩ :=
      hd
    refine ⟨s, hreach, fun _ => hrest, hact, hgiven, ?_⟩
    intro p
    cases p with
    | caller => exact hcaller
    | call _ => exact hcall
    | drain _ => exact hdrain
    | queue _ => exact hq
    | overflow _ => exact hover
    | device => exact hdev
    | loopback => exact hdel
    | freed => exact hfreed
  · exact exists_of_runActions loopbackRun (by decide)

end Svalinn.Net.IpTx
