/-
  Iokernel/Demux.lean --- the client table and the map from addresses to clients.

  Source: `iokernel/dp_clients.c` (`dp_clients_add_client`, `dp_clients_remove_client`)
  and the lookup of `rx_one_pkt` in `iokernel/rx.c`.

  `rte_hash` is a finite map.  The scheduler, the insertion into the map, the memory
  registration and the DMA mapping answer from outside.  A client that fails after the
  scheduler accepted it is taken out again by `dp_clients_remove_client`, which deletes
  the map's entry for the client's address whoever owns it.
-/
import Svalinn.Lib.SwapRemove
import Svalinn.Lib.Transition

set_option autoImplicit false

namespace Svalinn.Iokernel.Demux

open Svalinn.Lib Function

section Model

variable {P I : Type} [DecidableEq P] [DecidableEq I]

/-- What a process brings along: `ip_addr` and `has_directpath`. -/
structure Attrs (P I : Type) where
  ipAddr : P → I
  hasDirectpath : P → Bool

structure Table (P I : Type) where
  /-- `dp.clients[0 .. dp.nr_clients)` -/
  clients : List P
  ipToProc : I → Option P
  /-- the processes whose addition succeeded and that were not removed since -/
  attached : List P

structure Answers where
  schedAttach : Bool
  hashAdd : Bool
  extmemRegister : Bool
  dmaMap : Bool

variable (a : Attrs P I)

/-- `dp_clients_remove_client`: the last client moves into the place of the one that
leaves, and the key of its address is deleted. -/
def dpClientsRemoveClient (t : Table P I) (p : P) : Table P I :=
  if p ∈ t.clients then
    { t with
      clients := swapRemove t.clients (t.clients.idxOf p)
      ipToProc := update t.ipToProc (a.ipAddr p) none }
  else t

/-- The last part of `dp_clients_add_client`: does the client's memory get registered? -/
def memoryReady (r : Answers) (p : P) : Bool :=
  a.hasDirectpath p || (r.extmemRegister && r.dmaMap)

/-- `dp_clients_add_client`, with its success. -/
def dpClientsAddClient (t : Table P I) (p : P) (r : Answers) : Table P I × Bool :=
  if r.schedAttach then
    let t := { t with clients := t.clients ++ [p] }
    if (t.ipToProc (a.ipAddr p)).isSome then (dpClientsRemoveClient a t p, false)
    else if r.hashAdd then
      let t := { t with ipToProc := update t.ipToProc (a.ipAddr p) (some p) }
      if memoryReady a r p then (t, true) else (dpClientsRemoveClient a t p, false)
    else (dpClientsRemoveClient a t p, false)
  else (t, false)

inductive Event (P : Type) where
  | add (p : P) (r : Answers)
  | remove (p : P)

def step (t : Table P I) : Event P → Option (Table P I)
  | .add p r =>
    let out := dpClientsAddClient a t p r
    some (if out.2 then { out.1 with attached := p :: out.1.attached } else out.1)
  | .remove p =>
    some { dpClientsRemoveClient a t p with attached := t.attached.erase p }

def init : Table P I := ⟨[], fun _ => none, []⟩

/-! ## The property -/

/-- The table lists every attached process once, and the map has exactly their addresses. -/
structure Demuxed (t : Table P I) : Prop where
  nodup : t.clients.Nodup
  mem : ∀ p, p ∈ t.clients ↔ p ∈ t.attached
  once : t.attached.Nodup
  map : ∀ i p, t.ipToProc i = some p ↔ p ∈ t.attached ∧ a.ipAddr p = i

def Harmless (t t' : Table P I) : Event P → Prop
  | .add p r => (dpClientsAddClient a t p r).2 = false →
      t'.clients = t.clients ∧ t'.ipToProc = t.ipToProc
  | .remove _ => True

/-- The condition: no process that the scheduler accepts has the address of a client. -/
def freshAddress (t : Table P I) : Event P → Prop
  | .add p r => r.schedAttach = true → ∀ q ∈ t.clients, a.ipAddr q ≠ a.ipAddr p
  | .remove _ => True

instance (t : Table P I) : (e : Event P) → Decidable (freshAddress a t e)
  | .add _ r => inferInstanceAs (Decidable (r.schedAttach = true → ∀ q ∈ t.clients, _))
  | .remove _ => inferInstanceAs (Decidable True)

/-! ## Removal -/

theorem indexed_idxOf {l : List P} (h : l.Nodup) : Indexed l l.idxOf := by
  intro i x hx
  obtain ⟨hi, rfl⟩ := List.getElem?_eq_some_iff.1 hx
  exact List.Nodup.idxOf_getElem h i hi

theorem swapRemove_append {l : List P} {p : P} (hp : p ∉ l) :
    swapRemove (l ++ [p]) ((l ++ [p]).idxOf p) = l := by
  have hlast : (l ++ [p]).getLast? = some p := List.getLast?_concat
  rw [swapRemove_eq hlast, List.idxOf_append_of_notMem hp, List.idxOf_cons_self,
    List.set_append_right _ _ (Nat.le_add_right _ _), Nat.add_sub_cancel_left]
  exact List.dropLast_concat

variable {a}
variable {t : Table P I} {p : P}

theorem Demuxed.remove (h : Demuxed a t) (p : P) :
    Demuxed a { dpClientsRemoveClient a t p with attached := t.attached.erase p } := by
  rw [dpClientsRemoveClient]
  split
  · rename_i hp
    have hidx := indexed_idxOf h.nodup
    refine ⟨hidx.nodup_swapRemove hp, fun q => ?_, h.once.erase p, fun i q => ?_⟩
    · rw [hidx.mem_swapRemove hp, h.mem, h.once.mem_erase_iff]
      exact and_comm
    · show update t.ipToProc (a.ipAddr p) none i = some q ↔ _
      rw [update_apply, h.once.mem_erase_iff]
      split
      · -- the only owner of the address is the process that leaves
        rename_i hi
        refine iff_of_false nofun ?_
        rintro ⟨⟨hne, hq⟩, hqi⟩
        have hown := (h.map i q).2 ⟨hq, hqi⟩
        have hself := (h.map i p).2 ⟨(h.mem p).1 hp, hi.symm⟩
        rw [hown] at hself
        exact hne (Option.some.inj hself)
      · rename_i hi
        rw [h.map]
        constructor
        · rintro ⟨hq, hqi⟩
          refine ⟨⟨?_, hq⟩, hqi⟩
          rintro rfl
          exact hi hqi.symm
        · rintro ⟨⟨-, hq⟩, hqi⟩
          exact ⟨hq, hqi⟩
  · rename_i hp
    have hnot : p ∉ t.attached := fun hin => hp ((h.mem p).2 hin)
    rw [List.erase_of_not_mem hnot]
    exact h

/-! ## Addition -/

omit [DecidableEq P] [DecidableEq I] in
theorem Demuxed.owner (h : Demuxed a t) {q : P} (hq : q ∈ t.clients) :
    t.ipToProc (a.ipAddr q) = some q :=
  (h.map _ q).2 ⟨(h.mem q).1 hq, rfl⟩

/-- A new client is taken out again: the table is as before, and its address is not mapped. -/
theorem remove_added {m : I → Option P} (hp : p ∉ t.clients)
    (hm : update m (a.ipAddr p) none = t.ipToProc) :
    dpClientsRemoveClient a { t with clients := t.clients ++ [p], ipToProc := m } p = t := by
  have hin : p ∈ t.clients ++ [p] := List.mem_append_right _ (List.mem_singleton.2 rfl)
  rw [dpClientsRemoveClient, if_pos hin]
  simp only [swapRemove_append hp, hm]

theorem addClient_fresh (h : Demuxed a t) {r : Answers} (hr : r.schedAttach = true)
    (hfresh : ∀ q ∈ t.clients, a.ipAddr q ≠ a.ipAddr p) :
    dpClientsAddClient a t p r = (t, false) ∨ dpClientsAddClient a t p r = ({ t with
            clients := t.clients ++ [p]
            ipToProc := update t.ipToProc (a.ipAddr p) (some p) }, true) := by
  have hp : p ∉ t.clients := fun hin => hfresh p hin rfl
  have hfree : t.ipToProc (a.ipAddr p) = none := by
    cases hq : t.ipToProc (a.ipAddr p) with
    | none => rfl
    | some q =>
      obtain ⟨hin, hip⟩ := (h.map _ q).1 hq
      exact absurd hip (hfresh q ((h.mem q).2 hin))
  have hnone : (t.ipToProc (a.ipAddr p)).isSome = false := by
    rw [hfree]
    rfl
  have hsame : update t.ipToProc (a.ipAddr p) none = t.ipToProc := by
    rw [← hfree]
    exact update_eq_self _ _
  rw [dpClientsAddClient, if_pos hr]
  simp only [hnone, Bool.false_eq_true, ↓reduceIte]
  split
  · split
    · exact Or.inr rfl
    · left
      have hm : update (update t.ipToProc (a.ipAddr p) (some p)) (a.ipAddr p) none
          = t.ipToProc := by
        rw [update_idem, hsame]
      rw [remove_added hp hm]
  · left
    rw [remove_added hp hsame]

omit [DecidableEq P] in
theorem Demuxed.add (h : Demuxed a t) (hfresh : ∀ q ∈ t.clients, a.ipAddr q ≠ a.ipAddr p) :
    Demuxed a
      { clients := t.clients ++ [p]
        ipToProc := update t.ipToProc (a.ipAddr p) (some p)
        attached := p :: t.attached } := by
  have hp : p ∉ t.clients := fun hin => hfresh p hin rfl
  have hnot : p ∉ t.attached := fun hin => hp ((h.mem p).2 hin)
  refine ⟨?_, fun q => ?_, List.nodup_cons.2 ⟨hnot, h.once⟩, fun i q => ?_⟩
  · refine List.nodup_append.2 ⟨h.nodup, List.nodup_cons.2 ⟨List.not_mem_nil, .nil⟩, ?_⟩
    intro x hx y hy
    rintro rfl
    exact hp (List.mem_singleton.1 hy ▸ hx)
  · rw [List.mem_append, List.mem_singleton, List.mem_cons, h.mem]
    exact or_comm
  · show update t.ipToProc (a.ipAddr p) (some p) i = some q ↔ _
    rw [update_apply, List.mem_cons]
    split
    · rename_i hi
      rw [hi]
      constructor
      · intro heq
        cases heq
        exact ⟨Or.inl rfl, rfl⟩
      · rintro ⟨rfl | hq, hqi⟩
        · rfl
        · exact absurd hqi (hfresh q ((h.mem q).2 hq))
    · rename_i hi
      rw [h.map]
      constructor
      · rintro ⟨hq, hqi⟩
        exact ⟨Or.inr hq, hqi⟩
      · rintro ⟨rfl | hq, hqi⟩
        · exact absurd hqi.symm hi
        · exact ⟨hq, hqi⟩

/-- A process with the address of a client takes that client's entry with it. -/
theorem addClient_duplicate (h : Demuxed a t) {r : Answers} (hr : r.schedAttach = true) {q : P}
    (hq : q ∈ t.clients) (hip : a.ipAddr q = a.ipAddr p) :
    (dpClientsAddClient a t p r).2 = false ∧
      (dpClientsAddClient a t p r).1.ipToProc (a.ipAddr p) = none := by
  have howner := h.owner hq
  rw [hip] at howner
  have hin : p ∈ t.clients ++ [p] := List.mem_append_right _ (List.mem_singleton.2 rfl)
  have hsome : (t.ipToProc (a.ipAddr p)).isSome = true := by
    rw [howner]
    rfl
  simp only [dpClientsAddClient, hr, hsome, ↓reduceIte, dpClientsRemoveClient, hin,
    update_self, and_self]

/-! ## Runs -/

omit [DecidableEq P] [DecidableEq I] in
theorem demuxed_init : Demuxed a (init : Table P I) :=
  ⟨.nil, fun _ => Iff.rfl, .nil, fun _ _ => iff_of_false nofun fun h => List.not_mem_nil h.1⟩

theorem Demuxed.step {t' : Table P I} {e : Event P} (h : Demuxed a t) (hok : freshAddress a t e)
    (hstep : Demux.step a t e = some t') : Demuxed a t' ∧ Harmless a t t' e := by
  cases e with
  | add p r =>
    cases hstep
    cases hr : r.schedAttach with
    | false =>
      have hout : dpClientsAddClient a t p r = (t, false) := by
        rw [dpClientsAddClient, hr]
        rfl
      simp only [Harmless, hout, Bool.false_eq_true, ↓reduceIte]
      exact ⟨h, fun _ => ⟨trivial, trivial⟩⟩
    | true =>
      have hfresh := hok hr
      rcases addClient_fresh h hr hfresh with hout | hout
      · simp only [Harmless, hout, Bool.false_eq_true, ↓reduceIte]
        exact ⟨h, fun _ => ⟨trivial, trivial⟩⟩
      · simp only [Harmless, hout, ↓reduceIte]
        exact ⟨h.add hfresh, nofun⟩
  | remove p =>
    cases hstep
    exact ⟨h.remove p, trivial⟩

theorem fresh_of_harmless {t' : Table P I} {e : Event P} (h : Demuxed a t)
    (hstep : Demux.step a t e = some t') (h' : Harmless a t t' e) : freshAddress a t e := by
  cases e with
  | add p r =>
    intro hr q hq hip
    obtain ⟨hfail, hnone⟩ := addClient_duplicate h hr hq hip
    cases hstep
    have howner := h.owner hq
    have hmap := (h' hfail).2
    rw [hfail] at hmap
    have hmap : (dpClientsAddClient a t p r).1.ipToProc = t.ipToProc := hmap
    rw [hmap, ← hip, howner] at hnone
    cases hnone
  | remove p => trivial

/-- In every run in which no process with the address of a client is added, the client table and
the address map follow the attached processes; a further step keeps this exactly if it adds no
such process. -/
theorem demux_follows_clients_iff (a : Attrs P I) {t : Table P I}
    (hreach : Reaches (Demux.step a) (freshAddress a) init t) :
    Demuxed a t ∧ ∀ e t', Demux.step a t e = some t' →
      (Demuxed a t' ∧ Harmless a t t' e ↔ freshAddress a t e) := by
  have h : Demuxed a t :=
    hreach.invariant (P := Demuxed a) demuxed_init fun _ _ _ hu hok hst => (hu.step hok hst).1
  exact ⟨h, fun e t' hst => ⟨fun h' => fresh_of_harmless h hst h'.2, fun hok => h.step hok hst⟩⟩

end Model

/-! ## Two processes with one address -/

/-- Processes are numbers; the address of `p` is `p / 10`. -/
def decimalAttrs : Attrs Nat Nat := ⟨fun p => p / 10, fun _ => false⟩

def accepting : Answers := ⟨true, true, true, true⟩

theorem demux_follows_two_clients :
    ∃ t : Table Nat Nat, Reaches (step decimalAttrs) (freshAddress decimalAttrs) init t ∧
      t.clients = [23, 31] ∧ t.ipToProc 2 = some 23 ∧ Demuxed decimalAttrs t := by
  obtain ⟨t, hreach, hclients, hmap⟩ :
      ∃ t, Reaches (step decimalAttrs) (freshAddress decimalAttrs) init t ∧
        t.clients = [23, 31] ∧ t.ipToProc 2 = some 23 :=
    exists_of_runChecked [.add 10 accepting, .add 31 { accepting with dmaMap := false }, .add 31 accepting,
        .add 23 accepting, .remove 10] (by decide)
  exact ⟨t, hreach, hclients, hmap, (demux_follows_clients_iff decimalAttrs hreach).1⟩

/-- Process 11 has the address of process 10.  It is rejected, and process 10, which stays
a client, is no longer found under its address. -/
theorem rejected_process_unmaps_client :
    ∃ t t' : Table Nat Nat, Reaches (step decimalAttrs) anyStep init t ∧
      step decimalAttrs t (.add 11 accepting) = some t' ∧
      t.ipToProc 1 = some 10 ∧ (dpClientsAddClient decimalAttrs t 11 accepting).2 = false ∧
      t'.clients = [10] ∧ t'.attached = [10] ∧ t'.ipToProc 1 = none := by
  have hrun : (runActions (step decimalAttrs) init [.add 10 accepting]).bind (fun t =>
      (step decimalAttrs t (.add 11 accepting)).map fun t' =>
        decide (t.ipToProc 1 = some 10 ∧ (dpClientsAddClient decimalAttrs t 11 accepting).2 = false ∧
          t'.clients = [10] ∧ t'.attached = [10] ∧ t'.ipToProc 1 = none)) = some true := by
    decide
  obtain ⟨t, ht, hrest⟩ := Option.bind_eq_some_iff.1 hrun
  obtain ⟨t', ht', hfacts⟩ := Option.map_eq_some_iff.1 hrest
  exact ⟨t, t', reaches_of_runActions ht, ht', of_decide_eq_true hfacts⟩

end Svalinn.Iokernel.Demux
