/-
  Net/UdpEgress.lean --- the slots of the egress queue of a UDP socket.

  Source: `runtime/net/udp.c` (`udp_tx_release_mbuf`, `udp_write_to`, `udp_shutdown`,
  `udp_close`, `udp_conn_put`) and `runtime/net/waitq.h`.

  What is done under `outq_lock` is one step.  A write reserves its slot, allocates the buffer
  and sends it in three steps, of which the last two may fail; a completion of the network
  layer is a step of any thread.  The reference that `udp_close` or the last completion drops
  is dropped in a step of its own.
-/
import Mathlib.Data.Fintype.Basic
import Svalinn.Lib.Phases
import Svalinn.Lib.Transition

set_option autoImplicit false

namespace Svalinn.Net.UdpEgress

open Svalinn.Lib Function Option

/-! ## The model -/

def udpOutDefaultCap : Int := 2048

inductive Phase where
  | idle
  /-- `udp_write_to`, before the lock, also after a wake-up -/
  | lock
  /-- on `outq_wq` -/
  | parked
  /-- the slot is reserved, before `net_tx_alloc_mbuf` -/
  | reserved
  /-- in `udp_send_raw` -/
  | sending
  /-- `udp_close`, before it takes the lock -/
  | closing
  /-- `free_conn` is set, before `udp_conn_put` -/
  | putting
  deriving DecidableEq

def Phase.building : Phase → Bool
  | .reserved | .sending => true
  | _ => false

def Phase.isParked : Phase → Bool
  | .parked => true
  | _ => false

def Phase.isPutting : Phase → Bool
  | .putting => true
  | _ => false

structure State (T : Type) where
  shutdown : Bool
  nonblocking : Bool
  outqFree : Bool
  outqCap : Int
  outqLen : Int
  outqWq : List T
  phase : T → Phase
  /-- packets whose completion is `udp_tx_release_mbuf` -/
  inflight : Nat
  /-- `udp_close` has been called -/
  closed : Bool
  /-- calls of `udp_conn_put` -/
  puts : Nat
  failed : Nat

inductive Event (T : Type) where
  /-- `udp_write_to` is called -/
  | write (t : T)
  | enter (t : T)
  | alloc (t : T) (ok : Bool)
  | send (t : T) (ok : Bool)
  /-- `udp_tx_release_mbuf` -/
  | complete (t : T)
  /-- `udp_shutdown` sets the flag -/
  | shutdown
  /-- `waitq_release` of `udp_shutdown` wakes a writer -/
  | release
  /-- `udp_close`, up to the emptying of `inq` -/
  | close (t : T)
  | closeLock (t : T)
  | put (t : T)
  deriving DecidableEq

variable {T : Type} [DecidableEq T]

def State.goto (s : State T) (t : T) (p : Phase) : State T :=
  { s with phase := update s.phase t p }

/-- The body of `udp_write_to` under the lock. -/
def State.writeTo (s : State T) (t : T) : State T :=
  if s.outqLen ≥ s.outqCap ∧ s.shutdown = false then
    if s.nonblocking then s.goto t .idle
    else { s with outqWq := s.outqWq ++ [t] }.goto t .parked
  else if s.shutdown then s.goto t .idle
  else { s with outqLen := s.outqLen + 1 }.goto t .reserved

/-- `list_pop` on the wait queue, and `thread_ready`. -/
def State.wake (s : State T) : State T :=
  match s.outqWq with
  | [] => s
  | th :: rest => { s with outqWq := rest }.goto th .lock

/-- `udp_tx_release_mbuf` under the lock; the thread goes on to `udp_conn_put` or not. -/
def State.txReleaseMbuf (s : State T) (t : T) : State T :=
  let c := { s with inflight := s.inflight - 1, outqLen := s.outqLen - 1 }
  let c := if c.shutdown then c else c.wake
  c.goto t (if c.outqFree && c.outqLen = 0 then .putting else .idle)

def step (s : State T) : Event T → Option (State T)
  | .write t => if s.phase t = .idle then some (s.goto t .lock) else none
  | .enter t => if s.phase t = .lock then some (s.writeTo t) else none
  | .alloc t ok =>
    if s.phase t = .reserved then
      -- the early return does not give the slot back
      some (if ok then s.goto t .sending else { s with failed := s.failed + 1 }.goto t .idle)
    else none
  | .send t ok =>
    if s.phase t = .sending then
      -- `net_tx_release_mbuf` frees the buffer without `udp_tx_release_mbuf`
      some (if ok then { s with inflight := s.inflight + 1 }.goto t .idle
        else { s with failed := s.failed + 1 }.goto t .idle)
    else none
  | .complete t =>
    if s.phase t = .idle ∧ 0 < s.inflight then some (s.txReleaseMbuf t) else none
  | .shutdown => if s.shutdown then none else some { s with shutdown := true }
  | .release => if s.shutdown then some s.wake else none
  | .close t =>
    -- `BUG_ON(!waitq_empty(&c->outq_wq))`; only the last user of the socket may close it
    if s.phase t = .idle ∧ s.closed = false ∧ s.outqWq = [] then
      some ({ s with shutdown := true, closed := true }.goto t .closing)
    else none
  | .closeLock t =>
    if s.phase t = .closing then
      some ({ s with outqFree := true }.goto t (if s.outqLen = 0 then .putting else .idle))
    else none
  | .put t => if s.phase t = .putting then some ({ s with puts := s.puts + 1 }.goto t .idle) else none

/-- `udp_init_conn`. -/
def init (nonblocking : Bool) : State T :=
  { shutdown := false, nonblocking := nonblocking, outqFree := false
    outqCap := udpOutDefaultCap, outqLen := 0, outqWq := [], phase := fun _ => .idle
    inflight := 0, closed := false, puts := 0, failed := 0 }

/-! ## The account -/

/-- `n` threads are in a phase with the attribute `f`. -/
def Counted (f : Phase → Bool) (s : State T) (n : Nat) : Prop :=
  ∃ l, Listed f s.phase l ∧ l.length = n

def Accepts (s : State T) : Prop :=
  ∀ t, s.phase t = .lock → (s.writeTo t).phase t = .reserved

/-- One thread at most is about to take the lock in `udp_close`, before `outq_free` is set. -/
def SoleCloser (phase : T → Phase) (closed free : Bool) : Prop :=
  ∀ t, phase t = .closing → closed = true ∧ free = false ∧ ∀ u, phase u = .closing → u = t

structure Inv (s : State T) (b p : Nat) : Prop where
  building : Counted Phase.building s b
  putting : Counted Phase.isPutting s p
  parked : Listed Phase.isParked s.phase s.outqWq
  cap : s.outqCap = udpOutDefaultCap
  slots : s.outqLen = b + s.inflight + s.failed
  freed : s.outqFree = true → s.closed = true
  closed : s.closed = true → s.shutdown = true
  closing : SoleCloser s.phase s.closed s.outqFree
  puts : s.puts + p = if s.outqFree && s.outqLen = 0 then 1 else 0

section Counting

variable {s : State T} {t : T} {p : Phase} {f : Phase → Bool} {n : Nat}

theorem Counted.keep (h : Counted f s n) (hp : f p = f (s.phase t)) : Counted f (s.goto t p) n := by
  obtain ⟨l, hl, hn⟩ := h
  exact ⟨l, hl.keep hp, hn⟩

theorem Counted.enter (h : Counted f s n) (ht : f (s.phase t) = false) (hp : f p = true) :
    Counted f (s.goto t p) (n + 1) := by
  obtain ⟨l, hl, hn⟩ := h
  exact ⟨l ++ [t], hl.push ht hp, by rw [List.length_append, hn, List.length_singleton]⟩

theorem Counted.leave (h : Counted f s (n + 1)) (ht : f (s.phase t) = true) (hp : f p = false) :
    Counted f (s.goto t p) n := by
  obtain ⟨l, hl, hn⟩ := h
  refine ⟨l.erase t, hl.erase hp, ?_⟩
  rw [List.length_erase_of_mem ((hl.mem_iff t).2 ht), hn]
  rfl

omit [DecidableEq T] in
theorem Counted.pos (h : Counted f s n) (ht : f (s.phase t) = true) : 0 < n := by
  obtain ⟨l, hl, hn⟩ := h
  rw [← hn]
  exact List.length_pos_of_mem ((hl.mem_iff t).2 ht)

end Counting

/-! ## Steps -/

section Steps

variable {s s' : State T} {t : T} {q : Phase} {b n : Nat}

theorem SoleCloser.keep {phase : T → Phase} {closed free : Bool} (h : SoleCloser phase closed free)
    (hq : q ≠ .closing) : SoleCloser (update phase t q) closed free := by
  have hold : ∀ w, update phase t q w = .closing → phase w = .closing := by
    intro w hw
    by_cases hwt : w = t
    · rw [hwt, update_self] at hw
      exact absurd hw hq
    · rwa [update_of_ne hwt] at hw
  intro v hv
  obtain ⟨hclosed, hfree, hunique⟩ := h v (hold v hv)
  exact ⟨hclosed, hfree, fun u hu => hunique u (hold u hu)⟩

theorem Inv.goto (h : Inv s b n) (hb : q.building = (s.phase t).building)
    (hput : q.isPutting = (s.phase t).isPutting) (hpark : q.isParked = (s.phase t).isParked)
    (hq : q ≠ .closing) : Inv (s.goto t q) b n :=
  { h with
    building := h.building.keep hb
    putting := h.putting.keep hput
    parked := h.parked.keep hpark
    closing := h.closing.keep hq }

theorem Inv.leaveSlot {inflight failed : Nat} (h : Inv s b n) (ht : (s.phase t).building = true)
    (hsum : inflight + failed = s.inflight + s.failed + 1) :
    Inv ({ s with inflight := inflight, failed := failed }.goto t .idle) (b - 1) n := by
  have hpos := h.building.pos ht
  have hslots := h.slots
  obtain ⟨b, rfl⟩ := Nat.exists_eq_add_of_le' hpos
  have hput : Phase.idle.isPutting = (s.phase t).isPutting := by
    cases hp : s.phase t <;> rw [hp] at ht <;> first | rfl | cases ht
  have hpark : Phase.idle.isParked = (s.phase t).isParked := by
    cases hp : s.phase t <;> rw [hp] at ht <;> first | rfl | cases ht
  exact
    { h with
      building := h.building.leave ht rfl
      putting := h.putting.keep hput
      parked := h.parked.keep hpark
      slots := by
        show s.outqLen = b + inflight + failed
        omega
      closing := h.closing.keep nofun }

theorem Inv.wake (h : Inv s b n) : Inv s.wake b n := by
  unfold State.wake
  split
  · exact h
  · rename_i th rest hwq
    have hparked := h.parked
    rw [hwq] at hparked
    have hth := (hparked.mem_iff th).1 List.mem_cons_self
    have hb : Phase.lock.building = (s.phase th).building := by
      cases hp : s.phase th <;> rw [hp] at hth <;> first | rfl | cases hth
    have hput : Phase.lock.isPutting = (s.phase th).isPutting := by
      cases hp : s.phase th <;> rw [hp] at hth <;> first | rfl | cases hth
    exact
      { h with
        building := h.building.keep hb
        putting := h.putting.keep hput
        parked := hparked.pop rfl
        closing := h.closing.keep nofun }

theorem Inv.writeTo (h : Inv s b n) (ht : s.phase t = .lock) : ∃ b', Inv (s.writeTo t) b' n := by
  unfold State.writeTo
  have hidle : Inv (s.goto t .idle) b n :=
    h.goto (ht ▸ rfl) (ht ▸ rfl) (ht ▸ rfl) nofun
  split
  · split
    · exact ⟨b, hidle⟩
    · refine ⟨b, { h with
        building := h.building.keep (ht ▸ rfl)
        putting := h.putting.keep (ht ▸ rfl)
        parked := h.parked.push (ht ▸ rfl) rfl
        closing := h.closing.keep nofun }⟩
  · split
    · exact ⟨b, hidle⟩
    · rename_i hshut
      have hfree : s.outqFree = false := Bool.eq_false_iff.2 fun hf => hshut (h.closed (h.freed hf))
      have hslots := h.slots
      have hputs := h.puts
      refine ⟨b + 1, { h with
        building := h.building.enter (ht ▸ rfl) rfl
        putting := h.putting.keep (ht ▸ rfl)
        parked := h.parked.keep (ht ▸ rfl)
        slots := ?_
        closing := h.closing.keep nofun
        puts := ?_ }⟩
      · show s.outqLen + 1 = (b + 1 : Nat) + s.inflight + s.failed
        omega
      · show s.puts + n = if s.outqFree && _ then 1 else 0
        rw [hputs, hfree]
        rfl

theorem putting_goto (free : Bool) (hput : Counted Phase.isPutting s n)
    (ht : (s.phase t).isPutting = false) (hputs : s.puts + n = 0) :
    ∃ n', Counted Phase.isPutting (s.goto t (if free then .putting else .idle)) n' ∧
      s.puts + n' = if free then 1 else 0 := by
  cases free with
  | true => exact ⟨n + 1, hput.enter ht rfl, by rw [← Nat.add_assoc, hputs]; rfl⟩
  | false => exact ⟨n, hput.keep ht.symm, hputs⟩

theorem Inv.settle (h : Inv s b n) (free : Bool) (ht : (s.phase t).building = false)
    (hpark : (s.phase t).isParked = false) (hput : (s.phase t).isPutting = false)
    {inflight : Nat} {outqLen : Int} {outqFree : Bool} (hputs : s.puts + n = 0)
    (hslots : outqLen = b + inflight + s.failed) (hfreed : outqFree = true → s.closed = true)
    (hclosing : SoleCloser (update s.phase t (if free then .putting else .idle)) s.closed outqFree)
    (hfree : free = (outqFree && decide (outqLen = 0))) :
    ∃ n', Inv ({ s with inflight := inflight, outqLen := outqLen, outqFree := outqFree }.goto t
      (if free then .putting else .idle)) b n' := by
  obtain ⟨n', hcount, hsum⟩ := putting_goto free h.putting hput hputs
  refine ⟨n', { h with
    building := h.building.keep ?_
    putting := hcount
    parked := h.parked.keep ?_
    slots := hslots
    freed := hfreed
    closing := hclosing
    puts := ?_ }⟩
  · rw [ht]
    cases free <;> rfl
  · rw [hpark]
    cases free <;> rfl
  · rw [hfree] at hsum
    exact hsum

theorem txReleaseMbuf_eq {c : State T} (hc : c = if s.shutdown then s else s.wake) :
    s.txReleaseMbuf t =
      { c with
        inflight := c.inflight - 1, outqLen := c.outqLen - 1, outqFree := c.outqFree }.goto t
        (if c.outqFree && decide (c.outqLen - 1 = 0) then .putting else .idle) := by
  subst hc
  unfold State.txReleaseMbuf State.wake
  cases hshut : s.shutdown
  · cases hwq : s.outqWq <;> simp [hshut, hwq, State.goto]
  · simp [hshut]

theorem phase_wake (h : Listed Phase.isParked s.phase s.outqWq) (ht : s.phase t = .idle) :
    s.wake.phase t = .idle := by
  unfold State.wake
  split
  · exact ht
  · rename_i th rest hwq
    have hth := (h.mem_iff th).1 (by rw [hwq]; exact List.mem_cons_self)
    have hne : t ≠ th := by
      rintro rfl
      rw [ht] at hth
      cases hth
    exact (update_of_ne hne ..).trans ht

theorem Inv.txReleaseMbuf (h : Inv s b n) (ht : s.phase t = .idle) (hpos : 0 < s.inflight) :
    ∃ n', Inv (s.txReleaseMbuf t) b n' := by
  obtain ⟨c, hc⟩ : ∃ c, c = if s.shutdown then s else s.wake := ⟨_, rfl⟩
  have hinv : Inv c b n := by
    rw [hc]
    split
    · exact h
    · exact h.wake
  have hidle : c.phase t = .idle := by
    rw [hc]
    split
    · exact ht
    · exact phase_wake h.parked ht
  have hinflight : 0 < c.inflight := by
    rw [hc]
    split
    · exact hpos
    · unfold State.wake
      split <;> exact hpos
  have hslots := hinv.slots
  -- a packet is in flight, so the reference has not been dropped
  have hputs : c.puts + n = 0 := by
    rw [hinv.puts, decide_eq_false (by omega), Bool.and_false]
    rfl
  rw [txReleaseMbuf_eq hc]
  refine hinv.settle _ (hidle ▸ rfl) (hidle ▸ rfl) (hidle ▸ rfl) hputs
    (by omega) hinv.freed (hinv.closing.keep ?_) rfl
  split <;> exact nofun

theorem Inv.close (h : Inv s b n) (ht : s.phase t = .idle) (hclosed : s.closed = false) :
    Inv ({ s with shutdown := true, closed := true }.goto t .closing) b n := by
  have hfree : s.outqFree = false := by
    refine Bool.eq_false_iff.2 fun hf => ?_
    rw [h.freed hf] at hclosed
    cases hclosed
  have hnone : ∀ u, s.phase u ≠ .closing := by
    intro u hu
    rw [(h.closing u hu).1] at hclosed
    cases hclosed
  exact
    { h with
      building := h.building.keep (ht ▸ rfl)
      putting := h.putting.keep (ht ▸ rfl)
      parked := h.parked.keep (ht ▸ rfl)
      freed := fun _ => rfl
      closed := fun _ => rfl
      closing := by
        intro v hv
        have hsole : ∀ w, update s.phase t .closing w = .closing → w = t := by
          intro w hw
          by_contra hwt
          rw [update_of_ne hwt] at hw
          exact hnone w hw
        exact ⟨rfl, hfree, fun u hu => (hsole u hu).trans (hsole v hv).symm⟩ }

theorem Inv.closeLock (h : Inv s b n) (ht : s.phase t = .closing) :
    ∃ n', Inv ({ s with outqFree := true }.goto t (if s.outqLen = 0 then .putting else .idle))
      b n' := by
  obtain ⟨hclosed, hfree, hunique⟩ := h.closing t ht
  have hputs : s.puts + n = 0 := by
    rw [h.puts, hfree]
    rfl
  have hgoto : (if s.outqLen = 0 then Phase.putting else .idle) =
      if decide (s.outqLen = 0) then .putting else .idle := by
    simp only [decide_eq_true_eq]
  rw [hgoto]
  refine h.settle _ (ht ▸ rfl) (ht ▸ rfl) (ht ▸ rfl) hputs h.slots
    (fun _ => hclosed) ?_ (Bool.true_and _).symm
  intro v hv
  exfalso
  by_cases hvt : v = t
  · rw [hvt, update_self] at hv
    split at hv <;> cases hv
  · rw [update_of_ne hvt] at hv
    exact hvt (hunique v hv)

theorem Inv.put (h : Inv s b n) (ht : s.phase t = .putting) :
    ∃ n', Inv ({ s with puts := s.puts + 1 }.goto t .idle) b n' := by
  have hpos := h.putting.pos (t := t) (ht ▸ rfl)
  obtain ⟨n, rfl⟩ := Nat.exists_eq_add_of_le' hpos
  have hputs := h.puts
  refine ⟨n, { h with
    building := h.building.keep (ht ▸ rfl)
    putting := h.putting.leave (ht ▸ rfl) rfl
    parked := h.parked.keep (ht ▸ rfl)
    closing := h.closing.keep nofun
    puts := ?_ }⟩
  show s.puts + 1 + n = _
  rw [Nat.add_right_comm]
  exact hputs

theorem Inv.step {e : Event T} (h : Inv s b n) (hs : step s e = some s') :
    ∃ b' n', Inv s' b' n' := by
  cases e with
  | write t =>
    obtain ⟨ht, ⟨⟩⟩ := ite_none_right_eq_some.1 hs
    exact ⟨b, n, h.goto (ht ▸ rfl) (ht ▸ rfl) (ht ▸ rfl) nofun⟩
  | enter t =>
    obtain ⟨ht, ⟨⟩⟩ := ite_none_right_eq_some.1 hs
    obtain ⟨b', h'⟩ := h.writeTo ht
    exact ⟨b', n, h'⟩
  | alloc t ok =>
    obtain ⟨ht, ⟨⟩⟩ := ite_none_right_eq_some.1 hs
    cases ok with
    | true => exact ⟨b, n, h.goto (ht ▸ rfl) (ht ▸ rfl) (ht ▸ rfl) nofun⟩
    | false => exact ⟨b - 1, n, h.leaveSlot (ht ▸ rfl) (by omega)⟩
  | send t ok =>
    obtain ⟨ht, ⟨⟩⟩ := ite_none_right_eq_some.1 hs
    cases ok with
    | true | false => exact ⟨b - 1, n, h.leaveSlot (ht ▸ rfl) (by omega)⟩
  | complete t =>
    obtain ⟨⟨ht, hpos⟩, ⟨⟩⟩ := ite_none_right_eq_some.1 hs
    obtain ⟨n', h'⟩ := h.txReleaseMbuf ht hpos
    exact ⟨b, n', h'⟩
  | shutdown =>
    obtain ⟨-, ⟨⟩⟩ := ite_none_left_eq_some.1 hs
    exact ⟨b, n, { h with closed := fun _ => rfl }⟩
  | release =>
    obtain ⟨-, ⟨⟩⟩ := ite_none_right_eq_some.1 hs
    exact ⟨b, n, h.wake⟩
  | close t =>
    obtain ⟨⟨ht, hclosed, -⟩, ⟨⟩⟩ := ite_none_right_eq_some.1 hs
    exact ⟨b, n, h.close ht hclosed⟩
  | closeLock t =>
    obtain ⟨ht, ⟨⟩⟩ := ite_none_right_eq_some.1 hs
    obtain ⟨n', h'⟩ := h.closeLock ht
    exact ⟨b, n', h'⟩
  | put t =>
    obtain ⟨ht, ⟨⟩⟩ := ite_none_right_eq_some.1 hs
    obtain ⟨n', h'⟩ := h.put ht
    exact ⟨b, n', h'⟩

end Steps

/-! ## Runs -/

def Succeeds (_ : State T) : Event T → Prop
  | .alloc _ ok | .send _ ok => ok = true
  | _ => True

instance (s : State T) (e : Event T) : Decidable (Succeeds s e) :=
  match e with
  | .alloc _ ok | .send _ ok => inferInstanceAs (Decidable (ok = true))
  | .write _ | .enter _ | .complete _ | .shutdown | .release | .close _ | .closeLock _ | .put _ =>
    .isTrue trivial

/-- `outq_len` counts the packets being built and in flight; without any an open socket takes a
write; the reference is dropped once, when the socket is closed and there are none. -/
structure Accounted (s : State T) (b p : Nat) : Prop where
  slots : s.outqLen = b + s.inflight
  accepts : b + s.inflight = 0 → s.shutdown = false → Accepts s
  puts : s.puts + p = if s.outqFree = true ∧ b + s.inflight = 0 then 1 else 0

omit [DecidableEq T] in
theorem init_inv (nonblocking : Bool) : Inv (init nonblocking : State T) 0 0 where
  building := ⟨[], ⟨fun _ => ⟨nofun, nofun⟩, .nil⟩, rfl⟩
  putting := ⟨[], ⟨fun _ => ⟨nofun, nofun⟩, .nil⟩, rfl⟩
  parked := ⟨fun _ => ⟨nofun, nofun⟩, .nil⟩
  cap := rfl
  slots := rfl
  freed := nofun
  closed := nofun
  closing := nofun
  puts := rfl

theorem inv_of_reaches {nonblocking : Bool} {s : State T} {ok : State T → Event T → Prop}
    (h : Reaches step ok (init nonblocking) s) : ∃ b n, Inv s b n :=
  h.invariant (P := fun s => ∃ b n, Inv s b n) ⟨0, 0, init_inv nonblocking⟩
    fun _ _ _ ⟨_, _, hinv⟩ _ hs => hinv.step hs

omit [DecidableEq T] in
theorem Counted.unique {f : Phase → Bool} {s : State T} {n n' : Nat} (h : Counted f s n)
    (h' : Counted f s n') : n = n' := by
  obtain ⟨l, hl, rfl⟩ := h
  obtain ⟨l', hl', rfl⟩ := h'
  refine ((List.perm_ext_iff_of_nodup hl.nodup hl'.nodup).2 fun t => ?_).length_eq
  rw [hl.mem_iff, hl'.mem_iff]

theorem Inv.accounted {s : State T} {b n : Nat} (h : Inv s b n) (hfailed : s.failed = 0) :
    Accounted s b n := by
  have hslots := h.slots
  rw [hfailed] at hslots
  refine ⟨by omega, ?_, ?_⟩
  · intro hnone hshut t ht
    have hcap := h.cap
    unfold udpOutDefaultCap at hcap
    unfold State.writeTo
    rw [if_neg (by omega), if_neg (by rw [hshut]; decide)]
    exact update_self ..
  · rw [h.puts]
    refine if_congr ?_ rfl rfl
    rw [Bool.and_eq_true, decide_eq_true_eq]
    exact and_congr_right fun _ => by omega

theorem failed_wake {s : State T} : s.wake.failed = s.failed := by
  unfold State.wake
  split <;> rfl

theorem failed_writeTo {s : State T} {t : T} : (s.writeTo t).failed = s.failed := by
  unfold State.writeTo
  split
  · split <;> rfl
  · split <;> rfl

theorem failed_txReleaseMbuf {s : State T} {t : T} : (s.txReleaseMbuf t).failed = s.failed := by
  rw [txReleaseMbuf_eq rfl]
  show State.failed (if s.shutdown then s else s.wake) = s.failed
  split
  · rfl
  · exact failed_wake

theorem failed_of_reaches {nonblocking : Bool} {s : State T}
    (h : Reaches step Succeeds (init nonblocking) s) : s.failed = 0 := by
  refine h.invariant (P := fun s => s.failed = 0) rfl ?_
  intro u e v hu hok hs
  cases e with
  | alloc t ok | send t ok =>
    obtain ⟨-, ⟨⟩⟩ := ite_none_right_eq_some.1 hs
    obtain rfl : ok = true := hok
    exact hu
  | enter t =>
    obtain ⟨-, ⟨⟩⟩ := ite_none_right_eq_some.1 hs
    exact failed_writeTo.trans hu
  | complete t =>
    obtain ⟨-, ⟨⟩⟩ := ite_none_right_eq_some.1 hs
    exact failed_txReleaseMbuf.trans hu
  | release =>
    obtain ⟨-, ⟨⟩⟩ := ite_none_right_eq_some.1 hs
    exact failed_wake.trans hu
  | shutdown =>
    obtain ⟨-, ⟨⟩⟩ := ite_none_left_eq_some.1 hs
    exact hu
  | write t | close t | closeLock t | put t =>
    obtain ⟨-, ⟨⟩⟩ := ite_none_right_eq_some.1 hs
    exact hu

/-- In a run in which every reserved packet is sent the socket's account is right. The slots of
writes that failed stay in use, so `outq_len` is right exactly as long as none has failed. -/
theorem egress_slots_accounted (nonblocking : Bool) :
    (∀ s : State T, Reaches step Succeeds (init nonblocking) s →
      ∃ b p, Counted Phase.building s b ∧ Counted Phase.isPutting s p ∧ Accounted s b p) ∧
    ∀ (s : State T) (b : Nat), Reaches step anyStep (init nonblocking) s →
      Counted Phase.building s b →
      (s.outqLen = b + s.inflight ↔ s.failed = 0) := by
  constructor
  · intro s hs
    obtain ⟨b, p, hinv⟩ := inv_of_reaches hs
    exact ⟨b, p, hinv.building, hinv.putting, hinv.accounted (failed_of_reaches hs)⟩
  · intro s b hs hb
    obtain ⟨b', p, hinv⟩ := inv_of_reaches hs
    obtain rfl := hb.unique hinv.building
    have hslots := hinv.slots
    omega

/-- A datagram is in flight when the socket is closed; its completion drops the reference. -/
def closedInFlight : List (Event Bool) :=
  [.write true, .enter true, .alloc true true, .send true true, .close false, .closeLock false,
    .complete true, .put true]

theorem egress_slots_closedInFlight :
    ∃ s : State Bool, Reaches step Succeeds (init false) s ∧ s.outqFree = true ∧ s.puts = 1 ∧
      (∃ b p, Counted Phase.building s b ∧ Counted Phase.isPutting s p ∧ Accounted s b p) ∧
      (s.outqLen = (0 : Nat) + s.inflight ↔ s.failed = 0) := by
  obtain ⟨s, hreach, hfree, hputs, htrue, hfalse⟩ : ∃ s, Reaches step Succeeds (init false) s ∧
      s.outqFree = true ∧ s.puts = 1 ∧ s.phase true = .idle ∧
      s.phase false = .idle :=
    exists_of_runChecked closedInFlight (by decide)
  have hnone : Counted Phase.building s 0 := by
    refine ⟨[], ⟨fun t => ?_, .nil⟩, rfl⟩
    cases t
    · rw [hfalse]
      exact ⟨nofun, nofun⟩
    · rw [htrue]
      exact ⟨nofun, nofun⟩
  exact ⟨s, hreach, hfree, hputs, (egress_slots_accounted false).1 s hreach,
    (egress_slots_accounted false).2 s 0 (hreach.mono fun _ _ _ => trivial) hnone⟩

/-- One write runs out of buffers.  Nothing is being built or in flight, the slot is still in
use, and the closed socket is never freed. -/
theorem slot_lost_without_buffers :
    ∃ s : State Unit, Reaches step anyStep (init false) s ∧ (∀ t, s.phase t = .idle) ∧
      s.inflight = 0 ∧ s.outqLen = 1 ∧ s.outqFree = true ∧ s.puts = 0 := by
  exact exists_of_runActions [.write (), .enter (), .alloc () false, .close (), .closeLock ()] (by decide)

end Svalinn.Net.UdpEgress
