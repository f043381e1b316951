/-
  Iokernel/TxBurst.lean --- the packets of `tx_burst` from a kthread's queue to the NIC.

  Source: `iokernel/tx.c` (`tx_drain_queue`, `tx_burst`).

  The mbufs that are already built (`bufs`, `n_bufs`), the number of pulled packets
  (`n_pkts`) and the position in the table of kthreads (`pos`) are static and survive a
  call; the headers and kthreads of the packets pulled in a call (`hdrs`, `threads`) are
  arrays on the stack, which start with any content.  The table of polled kthreads changes
  between the calls and, when a parked kthread's queue runs empty, inside one.
-/
import Mathlib.Algebra.Group.Nat.Defs
import Svalinn.Lib.Transition
import Svalinn.Lib.SwapRemove

set_option autoImplicit false

namespace Svalinn.Iokernel.TxBurst

open Svalinn.Lib Function

def iokernelTxBurstSize : Nat := 64

section Model

variable {T H : Type} [DecidableEq T]

structure Tx (T H : Type) where
  /-- `ts[0 .. nrts)` -/
  ts : List T
  active : T → Bool
  txpktq : T → List H
  pos : Nat
  nPkts : Nat
  /-- `bufs[0 .. n_bufs)`: the header and the kthread each mbuf was built from -/
  bufs : List (H × T)
  /-- every packet taken from a queue so far, with the kthread of the queue -/
  pulled : List (H × T)
  sent : List (H × T)

/-- A call under way: the static variables and the arrays on the stack. -/
structure Call (T H : Type) where
  tx : Tx T H
  hdrs : Nat → H
  threads : Nat → T

def unpollThread (s : Tx T H) (t : T) : Tx T H :=
  if t ∈ s.ts then { s with ts := swapRemove s.ts (s.ts.idxOf t) } else s

/-- `tx_drain_queue`, writing to `hdrs` from index `at` on; the second value is the number of
packets. -/
def txDrainQueue (t : T) : Nat → Nat → Call T H → Call T H × Nat
  | 0, _, c => (c, 0)
  | n + 1, dst, c =>
    match c.tx.txpktq t with
    | [] => if c.tx.active t then (c, 0) else ({ c with tx := unpollThread c.tx t }, 0)
    | h :: rest =>
      let tx := { c.tx with
        txpktq := update c.tx.txpktq t rest
        pulled := c.tx.pulled ++ [(h, t)] }
      let out := txDrainQueue t n (dst + 1) ⟨tx, update c.hdrs dst h, c.threads⟩
      (out.1, out.2 + 1)

def pullFrom (c : Call T H) (t : T) : Call T H :=
  let n := c.tx.nPkts
  let out := txDrainQueue t (iokernelTxBurstSize - n) n c
  { tx := { out.1.tx with nPkts := n + out.2 }
    hdrs := out.1.hdrs
    threads := fun j => if n ≤ j ∧ j < n + out.2 then t else out.1.threads j }

/-- The polling loop from index `i` on; the table only shrinks, so its length bounds the
rounds.  The second value tells whether the batch is full. -/
def pullLoop : Nat → Nat → Call T H → Call T H × Bool
  | 0, _, c => (c, false)
  | rounds + 1, i, c =>
    match c.tx.ts[((c.tx.pos + i) % 2 ^ 32) % c.tx.ts.length]? with
    | none => (c, false)
    | some t =>
      if i < c.tx.ts.length then
        let c := pullFrom c t
        if iokernelTxBurstSize ≤ c.tx.nPkts then (c, true) else pullLoop rounds (i + 1) c
      else (c, false)

/-- The end of `tx_burst`, from the allocation of the mbufs on. -/
def transmit (alloc : Bool) (accepted : Nat) (c : Call T H) : Tx T H :=
  let s := c.tx
  if 0 < s.nPkts - s.bufs.length ∧ alloc = false then s
  else
    let built := (List.range' s.bufs.length (s.nPkts - s.bufs.length)).map fun i => (c.hdrs i, c.threads i)
    let bufs := s.bufs ++ built
    { s with
      nPkts := s.nPkts - accepted
      bufs := bufs.drop accepted
      sent := s.sent ++ bufs.take accepted }

/-- `tx_burst`, with the answers of the mempool and of the NIC and the content of the stack. -/
def txBurst (alloc : Bool) (accepted : Nat) (hdrs : Nat → H) (threads : Nat → T) (s : Tx T H) :
    Tx T H :=
  let out := pullLoop s.ts.length 0 ⟨s, hdrs, threads⟩
  if out.2 then transmit alloc accepted out.1
  else if out.1.tx.nPkts = 0 then out.1.tx
  else
    transmit alloc accepted { out.1 with tx := { out.1.tx with pos := (out.1.tx.pos + 1) % 2 ^ 32 } }

inductive Event (T H : Type) where
  | push (t : T) (h : H)
  | sched (ts : List T) (active : T → Bool)
  | burst (alloc : Bool) (accepted : Nat) (hdrs : Nat → H) (threads : Nat → T)

def step (s : Tx T H) : Event T H → Option (Tx T H)
  | .push t h => some { s with txpktq := update s.txpktq t (s.txpktq t ++ [h]) }
  | .sched ts active => some { s with ts, active }
  | .burst alloc accepted hdrs threads => some (txBurst alloc accepted hdrs threads s)

def init : Tx T H := ⟨[], fun _ => false, fun _ => [], 0, 0, [], [], []⟩

/-! ## The property -/

/-- The pulled packets, in their order and each with its own header and kthread, are those
the NIC accepted followed by those that are built and wait for it. -/
def Conserved (s : Tx T H) : Prop := s.pulled = s.sent ++ s.bufs

def batch (hdrs : Nat → H) (threads : Nat → T) (s : Tx T H) : Nat :=
  (pullLoop s.ts.length 0 ⟨s, hdrs, threads⟩).1.tx.nPkts

def allocates (s : Tx T H) : Event T H → Prop
  | .burst alloc _ hdrs threads => s.bufs.length < batch hdrs threads s → alloc = true
  | .push _ _ => True
  | .sched _ _ => True

instance (s : Tx T H) : (e : Event T H) → Decidable (allocates s e)
  | .burst _ _ _ _ => inferInstanceAs (Decidable (_ → _))
  | .push _ _ => inferInstanceAs (Decidable True)
  | .sched _ _ => inferInstanceAs (Decidable True)

/-! ## The polling loop -/

/-- What pulling the packets `new` did to a call: they stand in the arrays from the old
`n_pkts` on, and nothing else that survives the call has changed. -/
structure Pulled (c c' : Call T H) (new : List (H × T)) : Prop where
  pulled : c'.tx.pulled = c.tx.pulled ++ new
  nPkts : c'.tx.nPkts = c.tx.nPkts + new.length
  sent : c'.tx.sent = c.tx.sent
  bufs : c'.tx.bufs = c.tx.bufs
  slots : ∀ k x, new[k]? = some x → (c'.hdrs (c.tx.nPkts + k), c'.threads (c.tx.nPkts + k)) = x
  below : ∀ j, j < c.tx.nPkts → c'.hdrs j = c.hdrs j ∧ c'.threads j = c.threads j

omit [DecidableEq T] in
theorem Pulled.refl (c : Call T H) : Pulled c c [] where
  pulled := (List.append_nil _).symm
  nPkts := rfl
  sent := rfl
  bufs := rfl
  slots := by
    intro k x hx
    rw [List.getElem?_nil] at hx
    cases hx
  below _ _ := ⟨rfl, rfl⟩

omit [DecidableEq T] in
theorem Pulled.trans {c c' c'' : Call T H} {new new' : List (H × T)} (h : Pulled c c' new)
    (h' : Pulled c' c'' new') : Pulled c c'' (new ++ new') where
  pulled := by rw [h'.pulled, h.pulled, List.append_assoc]
  nPkts := by rw [h'.nPkts, h.nPkts, List.length_append, Nat.add_assoc]
  sent := h'.sent.trans h.sent
  bufs := h'.bufs.trans h.bufs
  slots := by
    intro k x hx
    rcases Nat.lt_or_ge k new.length with hk | hk
    · rw [List.getElem?_append_left hk] at hx
      obtain ⟨hh, ht⟩ := h'.below (c.tx.nPkts + k) (by rw [h.nPkts]; omega)
      rw [hh, ht]
      exact h.slots k x hx
    · rw [List.getElem?_append_right hk] at hx
      have hslot := h'.slots (k - new.length) x hx
      rwa [h.nPkts, Nat.add_assoc, Nat.add_sub_cancel' hk] at hslot
  below := by
    intro j hj
    obtain ⟨hh', ht'⟩ := h'.below j (by rw [h.nPkts]; omega)
    obtain ⟨hh, ht⟩ := h.below j hj
    exact ⟨hh'.trans hh, ht'.trans ht⟩

/-- What `tx_drain_queue` does: `n_pkts` and the array of kthreads are the caller's. -/
structure Drained (t : T) (dst : Nat) (c : Call T H) (out : Call T H × Nat) : Prop where
  pulled : ∃ hs : List H, hs.length = out.2 ∧ out.1.tx.pulled = c.tx.pulled ++ hs.map (·, t) ∧
    ∀ k h, hs[k]? = some h → out.1.hdrs (dst + k) = h
  nPkts : out.1.tx.nPkts = c.tx.nPkts
  sent : out.1.tx.sent = c.tx.sent
  bufs : out.1.tx.bufs = c.tx.bufs
  threads : out.1.threads = c.threads
  below : ∀ j, j < dst → out.1.hdrs j = c.hdrs j

theorem unpollThread_fields (s : Tx T H) (t : T) :
    (unpollThread s t).pulled = s.pulled ∧ (unpollThread s t).nPkts = s.nPkts ∧
      (unpollThread s t).sent = s.sent ∧ (unpollThread s t).bufs = s.bufs := by
  rw [unpollThread]
  split <;> exact ⟨rfl, rfl, rfl, rfl⟩

theorem txDrainQueue_spec (t : T) (n dst : Nat) (c : Call T H) :
    Drained t dst c (txDrainQueue t n dst c) := by
  induction n generalizing dst c with
  | zero => exact ⟨⟨[], rfl, (List.append_nil _).symm, nofun⟩, rfl, rfl, rfl, rfl, fun _ _ => rfl⟩
  | succ n ih =>
    rw [txDrainQueue]
    cases hq : c.tx.txpktq t with
    | nil =>
      dsimp only
      split
      · exact ⟨⟨[], rfl, (List.append_nil _).symm, nofun⟩, rfl, rfl, rfl, rfl, fun _ _ => rfl⟩
      · obtain ⟨hpulled, hn, hsent, hbufs⟩ := unpollThread_fields c.tx t
        exact ⟨⟨[], rfl, hpulled.trans (List.append_nil _).symm, nofun⟩, hn, hsent, hbufs, rfl,
          fun _ _ => rfl⟩
    | cons h rest =>
      dsimp only
      obtain ⟨⟨hs, hlen, hpulled, hslots⟩, hn, hsent, hbufs, hthreads, hbelow⟩ := ih (dst + 1)
        ⟨{ c.tx with
            txpktq := update c.tx.txpktq t rest
            pulled := c.tx.pulled ++ [(h, t)] }, update c.hdrs dst h, c.threads⟩
      refine ⟨⟨h :: hs, by rw [List.length_cons, hlen], ?_, ?_⟩, hn, hsent, hbufs, hthreads, ?_⟩
      · rw [hpulled, List.map_cons, List.append_assoc, List.singleton_append]
      · intro k x hx
        cases k with
        | zero =>
          obtain rfl : h = x := Option.some.inj hx
          have hfirst := hbelow dst (Nat.lt_succ_self dst)
          dsimp only at hfirst
          rwa [update_self] at hfirst
        | succ k =>
          rw [List.getElem?_cons_succ] at hx
          have hslot := hslots k x hx
          rwa [Nat.add_assoc, Nat.add_comm 1 k] at hslot
      · intro j hj
        have hold := hbelow j (by omega)
        dsimp only at hold
        rwa [update_of_ne (by omega)] at hold

theorem pullFrom_spec (c : Call T H) (t : T) : ∃ new, Pulled c (pullFrom c t) new := by
  obtain ⟨⟨hs, hlen, hpulled, hslots⟩, hn, hsent, hbufs, hthreads, hbelow⟩ :=
    txDrainQueue_spec t (iokernelTxBurstSize - c.tx.nPkts) c.tx.nPkts c
  refine ⟨hs.map (·, t), hpulled, ?_, hsent, hbufs, ?_, ?_⟩
  · rw [List.length_map, hlen]
    rfl
  · intro k x hx
    obtain ⟨h, hh, rfl⟩ := Option.map_eq_some_iff.1 ((List.getElem?_map ..).symm.trans hx)
    have hk := (List.getElem?_eq_some_iff.1 hh).1
    rw [hlen] at hk
    refine Prod.ext (hslots k h hh) ?_
    exact if_pos ⟨Nat.le_add_right _ _, Nat.add_lt_add_left hk _⟩
  · intro j hj
    refine ⟨hbelow j hj, ?_⟩
    rw [← hthreads]
    exact if_neg fun hle => Nat.not_le.2 hj hle.1

theorem pullLoop_spec (rounds i : Nat) (c : Call T H) : ∃ new, Pulled c (pullLoop rounds i c).1 new := by
  induction rounds generalizing i c with
  | zero => exact ⟨[], .refl c⟩
  | succ rounds ih =>
    rw [pullLoop]
    split
    · exact ⟨[], .refl c⟩
    · rename_i t _
      split
      · obtain ⟨new, hnew⟩ := pullFrom_spec c t
        dsimp only
        split
        · exact ⟨new, hnew⟩
        · obtain ⟨rest, hrest⟩ := ih (i + 1) (pullFrom c t)
          exact ⟨new ++ rest, hnew.trans hrest⟩
      · exact ⟨[], .refl c⟩

/-! ## The transmission -/

omit [DecidableEq T] in
theorem built_eq {c c' : Call T H} {new : List (H × T)} (h : Pulled c c' new)
    (hsync : c.tx.nPkts = c.tx.bufs.length) :
    (List.range' c'.tx.bufs.length (c'.tx.nPkts - c'.tx.bufs.length)).map
      (fun i => (c'.hdrs i, c'.threads i)) = new := by
  have hlen : c'.tx.nPkts - c'.tx.bufs.length = new.length := by
    rw [h.nPkts, h.bufs, hsync, Nat.add_sub_cancel_left]
  rw [hlen, h.bufs, ← hsync]
  refine List.ext_getElem? fun k => ?_
  rw [List.getElem?_map]
  rcases Nat.lt_or_ge k new.length with hk | hk
  · rw [List.getElem?_range' hk, Option.map_some, Nat.one_mul, List.getElem?_eq_getElem hk]
    exact congrArg some (h.slots k _ (List.getElem?_eq_getElem hk))
  · rw [List.getElem?_eq_none (by rw [List.length_range']; exact hk), List.getElem?_eq_none hk,
      Option.map_none]

/-- Between the calls every pulled packet has its mbuf. -/
structure Inv (s : Tx T H) : Prop where
  conserved : Conserved s
  sync : s.nPkts = s.bufs.length

omit [DecidableEq T] in
theorem inv_init : Inv (init : Tx T H) := ⟨rfl, rfl⟩

omit [DecidableEq T] in
theorem inv_transmit {c c' : Call T H} {new : List (H × T)} {alloc : Bool} (h : Inv c.tx)
    (hpull : Pulled c c' new) (halloc : c.tx.bufs.length < c'.tx.nPkts → alloc = true)
    (accepted : Nat) : Inv (transmit alloc accepted c') := by
  have hskip : ¬(0 < c'.tx.nPkts - c'.tx.bufs.length ∧ alloc = false) := by
    rintro ⟨hpos, hfail⟩
    rw [hpull.bufs] at hpos
    rw [halloc (by omega)] at hfail
    cases hfail
  rw [transmit, if_neg hskip, built_eq hpull h.sync, hpull.bufs]
  refine ⟨?_, ?_⟩
  · show c'.tx.pulled = (c'.tx.sent ++ (c.tx.bufs ++ new).take accepted) ++
      (c.tx.bufs ++ new).drop accepted
    rw [List.append_assoc, List.take_append_drop, hpull.pulled, hpull.sent, h.conserved,
      List.append_assoc]
  · show c'.tx.nPkts - accepted = ((c.tx.bufs ++ new).drop accepted).length
    rw [List.length_drop, List.length_append, hpull.nPkts, h.sync]

omit [DecidableEq T] in
/-- A pull that was not followed by an allocation leaves packets without an mbuf. -/
theorem not_conserved_of_lost {c c' : Call T H} {new : List (H × T)} (h : Inv c.tx)
    (hpull : Pulled c c' new) (hlost : c.tx.bufs.length < c'.tx.nPkts) : ¬Conserved c'.tx := by
  intro hcons
  rw [Conserved, hpull.pulled, hpull.sent, hpull.bufs, h.conserved] at hcons
  have hlen := congrArg List.length hcons
  rw [List.length_append] at hlen
  have hn := hpull.nPkts
  rw [h.sync] at hn
  omega

theorem Inv.burst {s : Tx T H} (h : Inv s) (alloc : Bool) (accepted : Nat) (hdrs : Nat → H)
    (threads : Nat → T) :
    (Conserved (txBurst alloc accepted hdrs threads s) →
      s.bufs.length < batch hdrs threads s → alloc = true) ∧
    ((s.bufs.length < batch hdrs threads s → alloc = true) →
      Inv (txBurst alloc accepted hdrs threads s)) := by
  obtain ⟨new, hpull⟩ := pullLoop_spec s.ts.length 0 (⟨s, hdrs, threads⟩ : Call T H)
  rw [batch, txBurst]
  generalize pullLoop s.ts.length 0 (⟨s, hdrs, threads⟩ : Call T H) = out at hpull ⊢
  -- only the position differs between the two ways into the transmission
  have hpos : Pulled ⟨s, hdrs, threads⟩
      { out.1 with tx := { out.1.tx with pos := (out.1.tx.pos + 1) % 2 ^ 32 } } new :=
    ⟨hpull.pulled, hpull.nPkts, hpull.sent, hpull.bufs, hpull.slots, hpull.below⟩
  refine ⟨fun hcons hlost => ?_, fun halloc => ?_⟩
  · cases halloc : alloc with
    | true => rfl
    | false =>
      rw [halloc] at hcons
      have hfail : 0 < out.1.tx.nPkts - out.1.tx.bufs.length ∧ false = false := by
        rw [hpull.bufs]
        exact ⟨Nat.sub_pos_of_lt hlost, rfl⟩
      dsimp only at hcons
      split at hcons
      · rw [transmit, if_pos hfail] at hcons
        exact absurd hcons (not_conserved_of_lost h hpull hlost)
      · split at hcons
        · exact absurd hcons (not_conserved_of_lost h hpull hlost)
        · rw [transmit, if_pos hfail] at hcons
          exact absurd hcons (not_conserved_of_lost h hpos hlost)
  · dsimp only
    split
    · exact inv_transmit h hpull halloc accepted
    · split
      · rename_i hzero
        -- nothing was pulled and nothing was waiting
        have hn := hpull.nPkts
        rw [hzero] at hn
        have hnew : new = [] := List.length_eq_zero_iff.1 (by dsimp only at hn; omega)
        have hsame := hpull.pulled
        rw [hnew, List.append_nil] at hsame
        refine ⟨?_, ?_⟩
        · rw [Conserved, hsame, hpull.sent, hpull.bufs]
          exact h.conserved
        · rw [hzero, hpull.bufs, ← h.sync]
          dsimp only at hn ⊢
          omega
      · exact inv_transmit h hpos halloc accepted

theorem Inv.step {s s' : Tx T H} {e : Event T H} (h : Inv s) (hstep : TxBurst.step s e = some s') :
    (Conserved s' → allocates s e) ∧ (allocates s e → Inv s') := by
  cases e with
  | push _ _ | sched _ _ =>
    cases hstep
    exact ⟨fun _ => trivial, fun _ => ⟨h.conserved, h.sync⟩⟩
  | burst alloc accepted hdrs threads =>
    cases hstep
    exact h.burst alloc accepted hdrs threads

/-- In every run whose calls get their mbufs, the packets the NIC accepted and those that wait for it
are the pulled ones in their order; a further step keeps this exactly if it gets its mbufs. -/
theorem packets_conserved_iff {s : Tx T H} (hreach : Reaches TxBurst.step allocates init s) :
    Conserved s ∧ ∀ e s', TxBurst.step s e = some s' → (Conserved s' ↔ allocates s e) := by
  have h : Inv s := hreach.invariant (P := Inv) inv_init fun _ _ _ hu hok hst => (hu.step hst).2 hok
  exact ⟨h.conserved, fun e s' hst =>
    ⟨(h.step hst).1, fun hok => ((h.step hst).2 hok).conserved⟩⟩

end Model

/-! ## Calls with and without mbufs -/

def twoPolled : List (Event Nat Nat) :=
  [.sched [1, 2] (fun t => t = 1), .push 1 10, .push 2 20, .push 1 11]

theorem packets_conserved_partial :
    ∃ s : Tx Nat Nat, Reaches step allocates init s ∧ s.sent = [(10, 1), (11, 1)] ∧
      s.bufs = [(20, 2)] ∧ s.ts = [1] ∧ Conserved s := by
  obtain ⟨s, hreach, hsent, hbufs, hts⟩ : ∃ s, Reaches step allocates init s ∧
      s.sent = [(10, 1), (11, 1)] ∧ s.bufs = [(20, 2)] ∧ s.ts = [1] :=
    exists_of_runChecked (twoPolled ++ [.burst true 2 (fun _ => 0) (fun _ => 0)]) (by decide)
  exact ⟨s, hreach, hsent, hbufs, hts, (packets_conserved_iff hreach).1⟩

/-- The mempool is empty in the call that pulls the packets.  The next call builds the mbufs
from whatever its stack holds, and the pulled packets are never sent. -/
theorem failed_allocation_sends_junk : ∃ s s' : Tx Nat Nat,
      Reaches step anyStep init s ∧ s.pulled = [(10, 1), (11, 1), (20, 2)] ∧ s.sent = [] ∧ s.bufs = [] ∧
      step s (.burst true 3 (fun _ => 99) (fun _ => 7)) = some s' ∧
      s'.pulled = [(10, 1), (11, 1), (20, 2)] ∧ s'.sent = [(99, 7), (99, 7), (99, 7)] ∧ s'.nPkts = 0 := by
  have hrun : (runActions step init (twoPolled ++ [.burst false 0 (fun _ => 0) (fun _ => 0)])).bind
      (fun s => (step s (.burst true 3 (fun _ => 99) (fun _ => 7))).map fun s' =>
        decide (s.pulled = [(10, 1), (11, 1), (20, 2)] ∧ s.sent = [] ∧ s.bufs = [] ∧
          s'.pulled = [(10, 1), (11, 1), (20, 2)] ∧ s'.sent = [(99, 7), (99, 7), (99, 7)] ∧
          s'.nPkts = 0)) = some true := by decide
  obtain ⟨s, hs, hrest⟩ := Option.bind_eq_some_iff.1 hrun
  obtain ⟨s', hs', hfacts⟩ := Option.map_eq_some_iff.1 hrest
  obtain ⟨h₁, h₂, h₃, h₄, h₅, h₆⟩ := of_decide_eq_true hfacts
  exact ⟨s, s', reaches_of_runActions hs, h₁, h₂, h₃, hs', h₄, h₅, h₆⟩

end Svalinn.Iokernel.TxBurst
