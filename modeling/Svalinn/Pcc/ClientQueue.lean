/-
  Pcc/ClientQueue.lean --- the request queue of a client session with several connections.

  Source: `breakwater/src/pcc_client.c` (`crpc_send_request_vector`, `crpc_send_raw`,
  `crpc_drain_queue`, `crpc_enqueue_one`, `cpcc_add_connection`, `cpcc_send_one`,
  `cpcc_recv_one`, `crpc_timer`, `cpcc_open`).

  Every function runs under `s->lock` and is one step.  The queue is the ring `qreq` with
  its two counters of 32 bits.  A request counts as sent when it is handed to
  `tcp_writev_full`; what that returns changes nothing in the session.  The payloads are
  left out.
-/
import Svalinn.Lib.Machine
import Svalinn.Lib.Ring
import Svalinn.Lib.Transition
import Svalinn.Pcc.Config

set_option autoImplicit false

namespace Svalinn.Pcc

structure CrpcCtx where
  id : Nat
  len : Nat
  ts : Nat
  deriving DecidableEq

/-- `PCC_OP_CALL` and `PCC_OP_CREDIT` from the server; `drop` is `PCC_SFLAG_DROP`. -/
inductive ServerMsg where
  | resp (id credit : Nat) (drop : Bool)
  | ecredit (credit : Nat)
  deriving DecidableEq

end Svalinn.Pcc

namespace Svalinn.Pcc.ClientQueue

open Svalinn.Lib Function List

structure Conn where
  waitingResp : Bool
  credit : BitVec 32
  creditUsed : BitVec 32
  deriving DecidableEq

inductive Departure where
  /-- on a connection, with the credits it had used and those it had; `queued` has the time
  stamp of the request and the time of the drain if it was taken off the queue -/
  | sent (conn id len demand : Nat) (used credit : BitVec 32) (queued : Option (Nat × Nat))
  /-- to `ldrop_handler`, if there is one -/
  | dropped (id : Nat)
  deriving DecidableEq

def Departure.id : Departure → Nat
  | .sent _ id _ _ _ _ _ => id
  | .dropped id => id

def Departure.isDrop : Departure → Bool
  | .sent .. => false
  | .dropped _ => true

structure Session where
  /-- `cmn.c` and `cmn.nconns` -/
  conns : Nat → Conn
  nconns : Nat
  nextConnIdx : Nat
  reqId : Nat
  init : Bool
  head : BitVec 32
  tail : BitVec 32
  qreq : Nat → CrpcCtx
  reqDropped : BitVec 64
  clock : Nat
  log : List Departure
  cupdates : List (Nat × Nat)

def Conn.hasCredit (cc : Conn) : Bool := decide (cc.creditUsed < cc.credit)

/-- `s->head - s->tail`. -/
def Session.demand (s : Session) : Nat := (s.head - s.tail).toNat

/-- The request at `tail`. -/
def Session.first (s : Session) : CrpcCtx := s.qreq (ringSlot crpcQlen s.tail)

def Session.pop (s : Session) (d : Departure) : Session :=
  { s with tail := s.tail + 1, log := s.log ++ [d] }

/-- The request at `tail` is dropped and counted. -/
def Session.dropFirst (s : Session) : Session :=
  { s.pop (.dropped s.first.id) with reqDropped := s.reqDropped + 1 }

def Session.useCredit (s : Session) (i : Nat) : Nat → Conn :=
  update s.conns i { s.conns i with creditUsed := (s.conns i).creditUsed + 1 }

/-- The request at `tail` goes into the vector for connection `i`. -/
def Session.sendFirst (s : Session) (i now : Nat) : Session :=
  { s.pop (.sent i s.first.id s.first.len (s.head - (s.tail + 1)).toNat (s.conns i).creditUsed
      (s.conns i).credit (some (s.first.ts, now))) with
    conns := s.useCredit i }

/-- The loop of `crpc_send_request_vector`, at most once for each request. -/
def sendLoop (i now : Nat) : Nat → Session → Session
  | 0, s => s
  | n + 1, s =>
    if s.head ≠ s.tail ∧ (s.conns i).hasCredit then sendLoop i now n (s.sendFirst i now) else s

def Session.crpcSendRequestVector (s : Session) (i now : Nat) : Session :=
  if s.head = s.tail ∨ (s.conns i).hasCredit = false then s
  else
    let s := sendLoop i now s.demand s
    if s.head = s.tail then { s with head := 0, tail := 0 } else s

/-- The loop that drops requests from `tail` on until one may be kept. -/
def dropLoop (keep : CrpcCtx → Bool) : Nat → Session → Session
  | 0, s => s
  | n + 1, s =>
    if s.head = s.tail then s
    else if keep s.first then s
    else dropLoop keep n s.dropFirst

/-- The tests of `crpc_drain_queue` and of `crpc_timer`. -/
def keepInDrain (now : Nat) (c : CrpcCtx) : Bool :=
  decide (maxClientDelayUs = 0 ∨ sub64 now c.ts ≤ maxClientDelayUs)

def keepInTimer (now : Nat) (c : CrpcCtx) : Bool := decide (sub64 now c.ts ≤ maxClientDelayUs)

/-- The connection that `crpc_drain_queue` sends on. -/
def Session.findConn (s : Session) : Option Nat :=
  ((List.range s.nconns).map fun i => (s.nextConnIdx + i) % s.nconns).find? fun i =>
    !(s.conns i).waitingResp && (s.conns i).hasCredit

def Session.crpcDrainQueue (s : Session) (now : Nat) : Session :=
  if s.head = s.tail then s
  else
    let s := dropLoop (keepInDrain now) s.demand s
    match s.findConn with
    | none => s
    | some i => { s.crpcSendRequestVector i now with nextConnIdx := (i + 1) % s.nconns }

/-- The new request is written at `head`. -/
def Session.push (s : Session) (now len : Nat) : Session :=
  { s with
    qreq := update s.qreq (ringSlot crpcQlen s.head) ⟨s.reqId, len, now⟩
    head := s.head + 1
    reqId := s.reqId + 1 }

def Session.firstMessage (s : Session) : Session :=
  { s with
    conns := fun i => if i < s.nconns then { s.conns i with waitingResp := true } else s.conns i
    cupdates := s.cupdates ++ (List.range s.nconns).map fun i => (i, s.demand)
    init := true }

def Session.crpcEnqueueOne (s : Session) (now len : Nat) : Session :=
  -- if the queue is full, drop tail
  let s := if s.demand ≥ crpcQlen then s.dropFirst else s
  let s := s.push now len
  if s.init then s else s.firstMessage

/-- The hot path of `cpcc_send_one`. -/
def Session.crpcSendRaw (s : Session) (len : Nat) : Session :=
  let cc := s.conns s.nextConnIdx
  { s with
    conns := s.useCredit s.nextConnIdx
    log := s.log ++ [.sent s.nextConnIdx s.reqId len s.demand cc.creditUsed cc.credit none]
    reqId := s.reqId + 1
    nextConnIdx := (s.nextConnIdx + 1) % s.nconns }

/-- `cpcc_send_one`; the two times are those at which `crpc_enqueue_one` and
`crpc_drain_queue` read the clock. -/
def Session.cpccSendOne (s : Session) (now drain len : Nat) : Session :=
  if len > srpcBufSize then s
  else if (s.conns s.nextConnIdx).hasCredit ∧ s.head = s.tail then s.crpcSendRaw len
  else (s.crpcEnqueueOne now len).crpcDrainQueue drain

/-- The credit update of `cpcc_recv_one`. -/
def Conn.credited (cc : Conn) : ServerMsg → Conn
  | .resp _ credit _ => ⟨false, BitVec.ofNat 32 credit, cc.creditUsed - 1⟩
  | .ecredit credit => ⟨false, BitVec.ofNat 32 credit, cc.creditUsed⟩

/-- The critical section of `cpcc_recv_one`. -/
def Session.cpccRecvOne (s : Session) (i : Nat) (m : ServerMsg) (now : Nat) : Session :=
  let s := { s with conns := update s.conns i ((s.conns i).credited m) }
  if 0 < (s.conns i).credit then s.crpcDrainQueue now else s

/-- One round of `crpc_timer`. -/
def Session.crpcTimer (s : Session) (now : Nat) : Session := dropLoop (keepInTimer now) s.demand s

def Session.cpccAddConnection (s : Session) : Session :=
  { s with conns := update s.conns s.nconns ⟨false, 0, 0⟩, nconns := s.nconns + 1 }

inductive Event where
  | send (now drain len : Nat)
  | recv (i : Nat) (m : ServerMsg) (now : Nat)
  | drain (now : Nat)
  | timer (now : Nat)
  | addConnection

/-- `microtime` has 64 bits and does not go back. -/
def Session.after (s s' : Session) (start stop : Nat) : Option Session :=
  if s.clock ≤ start ∧ start ≤ stop ∧ stop < 2 ^ 64 then some { s' with clock := stop } else none

def step (s : Session) : Event → Option Session
  | .send now drain len => s.after (s.cpccSendOne now drain len) now drain
  | .recv i m now => if i < s.nconns then s.after (s.cpccRecvOne i m now) now now else none
  | .drain now => s.after (s.crpcDrainQueue now) now now
  | .timer now => s.after (s.crpcTimer now) now now
  | .addConnection => some s.cpccAddConnection

def cpccOpen : Session :=
  ⟨fun _ => ⟨false, 0, 0⟩, 1, 0, 1, false, 0, 0, fun _ => ⟨0, 0, 0⟩, 0, 0, [], []⟩

def Session.queue (s : Session) : List CrpcCtx := ringElems crpcQlen s.qreq s.head s.tail

/-! ## The property -/

/-- A request is sent with a credit left, and if it waited in the queue then not too long. -/
def Departure.allowed : Departure → Prop
  | .sent _ _ _ _ used credit queued =>
    used < credit ∧ ∀ ts now, queued = some (ts, now) → ts ≤ now ∧ now - ts ≤ maxClientDelayUs
  | .dropped _ => True

structure Correct (s : Session) : Prop where
  bounded : (s.head - s.tail).toNat ≤ crpcQlen
  /-- The requests that have left and those that are queued are all the requests of the
  session, each once and in the order of their ids. -/
  handled : s.log.map Departure.id ++ s.queue.map CrpcCtx.id = List.range' 1 (s.reqId - 1)
  counted : s.reqDropped = BitVec.ofNat 64 (s.log.countP Departure.isDrop)
  allowed : ∀ d ∈ s.log, d.allowed

/-! ## The ring -/

theorem ringSize : RingSize 32 crpcQlen := ⟨⟨2 ^ 28, by decide⟩, by decide, by decide⟩

variable {s : Session} {now : Nat}

theorem queue_of_empty (h : s.head = s.tail) : s.queue = [] := by
  unfold Session.queue
  rw [h]
  exact ringElems_self

theorem queue_pop (hne : s.head ≠ s.tail) :
    s.queue = s.first :: ringElems crpcQlen s.qreq s.head (s.tail + 1) :=
  ringSize.elems_pop hne

theorem queue_push (len : Nat) (hroom : s.demand < crpcQlen) :
    (s.push now len).queue = s.queue ++ [⟨s.reqId, len, now⟩] :=
  ringSize.elems_push hroom

theorem first_mem (hne : s.head ≠ s.tail) : s.first ∈ s.queue := queue_pop hne ▸ mem_cons_self

theorem demand_pop (hne : s.head ≠ s.tail) : s.demand = (s.head - (s.tail + 1)).toNat + 1 :=
  ringSize.tail_succ hne

/-! ## The invariant -/

/-- At time `now`. -/
structure Inv (now : Nat) (s : Session) : Prop extends Correct s where
  started : 1 ≤ s.reqId
  ordered : s.queue.Pairwise fun a b => a.ts ≤ b.ts
  stamped : ∀ c ∈ s.queue, c.ts ≤ now
  indexed : s.nextConnIdx < s.nconns

theorem Inv.mono {later : Nat} (h : Inv now s) (hle : now ≤ later) : Inv later s :=
  { h with stamped := fun c hc => (h.stamped c hc).trans hle }

theorem Inv.first_le (h : Inv now s) (hne : s.head ≠ s.tail) {c : CrpcCtx} (hc : c ∈ s.queue) :
    s.first.ts ≤ c.ts := by
  have hordered := h.ordered
  rw [queue_pop hne] at hordered hc
  obtain rfl | hc := mem_cons.1 hc
  · exact Nat.le_refl _
  · exact (pairwise_cons.1 hordered).1 c hc

theorem Inv.pop {d : Departure} {conns : Nat → Conn} {dropped : BitVec 64} (h : Inv now s)
    (hne : s.head ≠ s.tail) (hid : d.id = s.first.id) (hallowed : d.allowed)
    (hcount : dropped = BitVec.ofNat 64 ((s.log ++ [d]).countP Departure.isDrop)) :
    Inv now { s.pop d with conns := conns, reqDropped := dropped } := by
  have hqueue : s.queue = s.first :: (s.pop d).queue := queue_pop hne
  have hdemand : s.demand = (s.pop d).demand + 1 := demand_pop hne
  have hordered := h.ordered
  have hhandled := h.handled
  rw [hqueue] at hordered hhandled
  refine { bounded := ?_, handled := ?_, counted := hcount, allowed := ?_, started := h.started,
           ordered := (pairwise_cons.1 hordered).2, stamped := ?_, indexed := h.indexed }
  · have hbound := h.bounded
    change s.demand ≤ crpcQlen at hbound
    change (s.pop d).demand ≤ crpcQlen
    omega
  · change (s.log ++ [d]).map Departure.id ++ (s.pop d).queue.map CrpcCtx.id =
      List.range' 1 (s.reqId - 1)
    rw [map_append, append_assoc, ← hhandled, map_cons, map_cons, hid]
    rfl
  · intro e he
    obtain he | he := mem_append.1 he
    · exact h.allowed e he
    · obtain rfl := mem_singleton.1 he
      exact hallowed
  · intro c hc
    exact h.stamped c (hqueue ▸ mem_cons_of_mem _ hc)

theorem Inv.dropFirst (h : Inv now s) (hne : s.head ≠ s.tail) : Inv now s.dropFirst := by
  refine h.pop hne rfl trivial ?_
  rw [h.counted, countP_append]
  exact (BitVec.ofNat_add _ 1).symm

def Fresh (now : Nat) (c : CrpcCtx) : Prop := c.ts ≤ now ∧ now - c.ts ≤ maxClientDelayUs

theorem Inv.sendFirst {i drain : Nat} (h : Inv now s) (hne : s.head ≠ s.tail)
    (hcredit : (s.conns i).hasCredit = true) (hfresh : Fresh drain s.first) :
    Inv now (s.sendFirst i drain) := by
  refine h.pop hne rfl ⟨of_decide_eq_true hcredit, ?_⟩ ?_
  · rintro ts time ⟨⟩
    exact hfresh
  · change s.reqDropped = _
    rw [h.counted, countP_append]
    rfl

/-! ## The loops -/

theorem sendLoop_inv {i drain : Nat} (n : Nat) (h : Inv now s)
    (hfresh : ∀ c ∈ s.queue, Fresh drain c) : Inv now (sendLoop i drain n s) := by
  induction n generalizing s with
  | zero => exact h
  | succ n ih =>
    unfold sendLoop
    split
    · rename_i hgo
      have hqueue : s.queue = s.first :: (s.sendFirst i drain).queue := queue_pop hgo.1
      rw [hqueue] at hfresh
      refine ih (h.sendFirst hgo.1 hgo.2 (hfresh _ mem_cons_self)) fun c hc => ?_
      exact hfresh c (mem_cons_of_mem _ hc)
    · exact h

theorem sendLoop_nconns (i drain n : Nat) (s : Session) : (sendLoop i drain n s).nconns = s.nconns := by
  induction n generalizing s with
  | zero => rfl
  | succ n ih =>
    unfold sendLoop
    split
    · exact ih _
    · rfl

theorem dropLoop_inv {keep : CrpcCtx → Bool} (n : Nat) (h : Inv now s) :
    Inv now (dropLoop keep n s) := by
  induction n generalizing s with
  | zero => exact h
  | succ n ih =>
    unfold dropLoop
    split
    · exact h
    · rename_i hne
      split
      · exact h
      · exact ih (h.dropFirst hne)

theorem dropLoop_exit {keep : CrpcCtx → Bool} {n : Nat} (hn : s.demand ≤ n)
    (hne : (dropLoop keep n s).head ≠ (dropLoop keep n s).tail) :
    keep (dropLoop keep n s).first = true := by
  induction n generalizing s with
  | zero =>
    have hdemand := demand_pop hne
    change s.demand = _ at hdemand
    omega
  | succ n ih =>
    unfold dropLoop at hne ⊢
    split at hne
    · rename_i hempty
      exact absurd hempty hne
    · rename_i hsome
      rw [if_neg hsome]
      split at hne
      · rename_i hkeep
        rw [if_pos hkeep]
        exact hkeep
      · rename_i hold
        rw [if_neg hold]
        refine ih ?_ hne
        have hdemand : s.demand = s.dropFirst.demand + 1 := demand_pop hsome
        omega

/-! ## The functions -/

theorem Inv.reset (h : Inv now s) (hempty : s.head = s.tail) :
    Inv now { s with head := 0, tail := 0 } := by
  have hqueue : ({ s with head := 0, tail := 0 } : Session).queue = s.queue := by
    rw [queue_of_empty hempty, queue_of_empty rfl]
  refine { bounded := (by decide : ((0 : BitVec 32) - 0).toNat ≤ crpcQlen), handled := ?_, counted := h.counted, allowed := h.allowed,
           started := h.started, ordered := ?_, stamped := ?_, indexed := h.indexed }
  · rw [hqueue]
    exact h.handled
  · rw [hqueue]
    exact h.ordered
  · rw [hqueue]
    exact h.stamped

theorem Inv.crpcSendRequestVector {drain : Nat} (h : Inv now s) (i : Nat)
    (hfresh : ∀ c ∈ s.queue, Fresh drain c) : Inv now (s.crpcSendRequestVector i drain) := by
  unfold Session.crpcSendRequestVector
  split
  · exact h
  · dsimp only
    have hloop : Inv now (sendLoop i drain s.demand s) := sendLoop_inv s.demand h hfresh
    split
    · rename_i hempty
      exact hloop.reset hempty
    · exact hloop

theorem crpcSendRequestVector_nconns (s : Session) (i drain : Nat) :
    (s.crpcSendRequestVector i drain).nconns = s.nconns := by
  unfold Session.crpcSendRequestVector
  split
  · rfl
  · dsimp only
    split
    · exact sendLoop_nconns i drain _ s
    · exact sendLoop_nconns i drain _ s

theorem sub64_of_le {x y : Nat} (hle : y ≤ x) (hx : x < 2 ^ 64) : sub64 x y = x - y := by
  unfold sub64
  omega

theorem Inv.fresh_of_first (h : Inv now s) (hnow : now < 2 ^ 64)
    (hfirst : s.head ≠ s.tail → keepInDrain now s.first = true) : ∀ c ∈ s.queue, Fresh now c := by
  by_cases hempty : s.head = s.tail
  · rw [queue_of_empty hempty]
    nofun
  · intro c hc
    have hold := h.first_le hempty hc
    have hkeep := of_decide_eq_true (hfirst hempty)
    rw [sub64_of_le (h.stamped _ (first_mem hempty)) hnow] at hkeep
    have hdelay : now - s.first.ts ≤ maxClientDelayUs := hkeep.resolve_left (by decide)
    refine ⟨h.stamped c hc, ?_⟩
    omega

theorem Inv.crpcDrainQueue (h : Inv now s) (hnow : now < 2 ^ 64) : Inv now (s.crpcDrainQueue now) := by
  unfold Session.crpcDrainQueue
  split
  · exact h
  · have hloop : Inv now (dropLoop (keepInDrain now) s.demand s) := dropLoop_inv s.demand h
    have hfresh := hloop.fresh_of_first hnow (dropLoop_exit (Nat.le_refl _))
    generalize dropLoop (keepInDrain now) s.demand s = s₁ at hloop hfresh ⊢
    dsimp only
    split
    · exact hloop
    · rename_i i hfind
      have hsent := hloop.crpcSendRequestVector i hfresh
      refine { hsent with indexed := ?_ }
      change (i + 1) % s₁.nconns < (s₁.crpcSendRequestVector i now).nconns
      rw [crpcSendRequestVector_nconns]
      exact Nat.mod_lt _ (Nat.zero_lt_of_lt hloop.indexed)

theorem ids_succ {n : Nat} (hn : 1 ≤ n) : List.range' 1 (n - 1) ++ [n] = List.range' 1 (n + 1 - 1) := by
  obtain ⟨m, rfl⟩ := Nat.exists_eq_add_of_le hn
  rw [Nat.add_sub_cancel_left, Nat.add_sub_cancel, Nat.add_comm 1 m, range'_1_concat, Nat.add_comm m 1]

theorem Inv.push (h : Inv now s) (len : Nat) (hroom : s.demand < crpcQlen) :
    Inv now (s.push now len) := by
  have hqueue : (s.push now len).queue = s.queue ++ [⟨s.reqId, len, now⟩] := queue_push len hroom
  have hstarted := h.started
  refine { bounded := ?_, handled := ?_, counted := h.counted, allowed := h.allowed,
           started := Nat.le_succ_of_le hstarted, ordered := ?_, stamped := ?_, indexed := h.indexed }
  · have hdemand : (s.push now len).demand = s.demand + 1 := ringSize.head_succ hroom
    change (s.push now len).demand ≤ crpcQlen
    omega
  · rw [hqueue, map_append, ← append_assoc]
    change s.log.map Departure.id ++ s.queue.map CrpcCtx.id ++ [s.reqId] = List.range' 1 (s.reqId + 1 - 1)
    rw [h.handled]
    exact ids_succ hstarted
  · rw [hqueue, pairwise_append]
    refine ⟨h.ordered, pairwise_singleton _ _, fun a ha b hb => ?_⟩
    rw [mem_singleton.1 hb]
    exact h.stamped a ha
  · intro c hc
    rw [hqueue] at hc
    obtain hc | hc := mem_append.1 hc
    · exact h.stamped c hc
    · rw [mem_singleton.1 hc]

theorem Inv.room (h : Inv now s) : ∃ s₁, s₁ = (if s.demand ≥ crpcQlen then s.dropFirst else s) ∧
    (s₁ = s ∨ s.head ≠ s.tail ∧ s₁ = s.dropFirst) ∧ s₁.demand < crpcQlen := by
  by_cases hfull : s.demand ≥ crpcQlen
  · have hne : s.head ≠ s.tail := by
      intro heq
      have hzero : s.demand = 0 := by
        unfold Session.demand
        rw [heq, BitVec.sub_self]
        rfl
      rw [hzero] at hfull
      exact absurd hfull (by decide)
    refine ⟨_, (if_pos hfull).symm, .inr ⟨hne, rfl⟩, ?_⟩
    have hdemand : s.demand = s.dropFirst.demand + 1 := demand_pop hne
    have hbound : s.demand ≤ crpcQlen := h.bounded
    omega
  · exact ⟨_, (if_neg hfull).symm, .inl rfl, Nat.lt_of_not_le hfull⟩

theorem Inv.crpcEnqueueOne (h : Inv now s) (len : Nat) : Inv now (s.crpcEnqueueOne now len) := by
  obtain ⟨s₁, hs₁, hroom, hdemand⟩ := h.room
  have hinv : Inv now s₁ := by
    obtain rfl | ⟨hne, rfl⟩ := hroom
    · exact h
    · exact h.dropFirst hne
  unfold Session.crpcEnqueueOne
  dsimp only
  rw [← hs₁]
  have hpush := hinv.push len hdemand
  split
  · exact hpush
  · exact { hpush with }

theorem Inv.crpcSendRaw (h : Inv now s) (len : Nat) (hcredit : (s.conns s.nextConnIdx).hasCredit = true)
    (hempty : s.head = s.tail) : Inv now (s.crpcSendRaw len) := by
  have hqueue : (s.crpcSendRaw len).queue = s.queue := rfl
  have hstarted := h.started
  refine { bounded := h.bounded, handled := ?_, counted := ?_, allowed := ?_,
           started := Nat.le_succ_of_le hstarted, ordered := h.ordered, stamped := h.stamped,
           indexed := Nat.mod_lt _ (Nat.zero_lt_of_lt h.indexed) }
  · have hhandled := h.handled
    rw [queue_of_empty hempty, map_nil, append_nil] at hhandled
    rw [hqueue, queue_of_empty hempty, map_nil, append_nil]
    change (s.log ++ [_]).map Departure.id = List.range' 1 (s.reqId + 1 - 1)
    rw [map_append, hhandled]
    exact ids_succ hstarted
  · change s.reqDropped = BitVec.ofNat 64 ((s.log ++ [_]).countP Departure.isDrop)
    rw [h.counted, countP_append]
    rfl
  · intro d hd
    obtain hd | hd := mem_append.1 hd
    · exact h.allowed d hd
    · obtain rfl := mem_singleton.1 hd
      exact ⟨of_decide_eq_true hcredit, nofun⟩

theorem Inv.cpccSendOne {drain : Nat} (h : Inv now s) (hle : now ≤ drain) (hdrain : drain < 2 ^ 64)
    (len : Nat) : Inv drain (s.cpccSendOne now drain len) := by
  unfold Session.cpccSendOne
  split
  · exact h.mono hle
  split
  · rename_i hhot
    exact (h.crpcSendRaw len hhot.1 hhot.2).mono hle
  · exact ((h.crpcEnqueueOne len).mono hle).crpcDrainQueue hdrain

theorem Inv.cpccRecvOne (h : Inv now s) (hnow : now < 2 ^ 64) (i : Nat) (m : ServerMsg) :
    Inv now (s.cpccRecvOne i m now) := by
  have hcredited : Inv now { s with conns := update s.conns i ((s.conns i).credited m) } :=
    { h with }
  unfold Session.cpccRecvOne
  dsimp only
  split
  · exact hcredited.crpcDrainQueue hnow
  · exact hcredited

/-! ## Whole runs -/

theorem Inv.after {s s' : Session} {start stop : Nat} {t : Session} (hstep : s.after s' start stop = some t)
    (h : s.clock ≤ start → start ≤ stop → stop < 2 ^ 64 → Inv stop s') : Inv t.clock t := by
  obtain ⟨⟨hstart, hstop, hlt⟩, rfl⟩ := Option.ite_some_none_eq_some.1 hstep
  exact { h hstart hstop hlt with }

theorem Inv.keeps {s s' : Session} {e : Event} (h : Inv s.clock s) (hstep : step s e = some s') :
    Inv s'.clock s' := by
  cases e with
  | send now drain len =>
    exact Inv.after hstep fun hstart hle hlt => (h.mono hstart).cpccSendOne hle hlt len
  | recv i m now =>
    obtain ⟨-, hstep⟩ := Option.ite_none_right_eq_some.1 hstep
    exact Inv.after hstep fun hstart _ hlt => (h.mono hstart).cpccRecvOne hlt i m
  | drain now => exact Inv.after hstep fun hstart _ hlt => (h.mono hstart).crpcDrainQueue hlt
  | timer now => exact Inv.after hstep fun hstart _ _ => dropLoop_inv _ (h.mono hstart)
  | addConnection =>
    cases hstep
    exact { h with indexed := Nat.lt_succ_of_lt h.indexed }

theorem inv_cpccOpen : Inv cpccOpen.clock cpccOpen where
  bounded := Nat.zero_le _
  handled := rfl
  counted := rfl
  allowed := nofun
  started := Nat.le_refl _
  ordered := .nil
  stamped := nofun
  indexed := Nat.zero_lt_one

/-- In every run the queue is within its bounds, every request is queued, sent or dropped, once
and in order, and is sent only with a credit and while it is fresh. -/
theorem client_queue_correct {s : Session} (hreach : Reaches step anyStep cpccOpen s) : Correct s := by
  have hinv : Inv s.clock s := hreach.invariant (P := fun u => Inv u.clock u) inv_cpccOpen
    fun _ _ _ h _ hs => h.keeps hs
  exact hinv.toCorrect

/-- Three requests wait for a credit.  When one comes, the first request is too old, the second
is sent and the third stays. -/
def lateCredit : List Event :=
  [.send 0 0 8, .send 30 30 8, .send 40 40 8, .recv 0 (.ecredit 1) 60]

theorem client_queue_correct_late : ∃ s : Session, Reaches step anyStep cpccOpen s ∧
    s.log = [.dropped 1, .sent 0 2 8 1 0 1 (some (30, 60))] ∧ s.reqDropped = 1 ∧ Correct s := by
  obtain ⟨s, hreach, hlog, hdropped⟩ : ∃ s, Reaches step anyStep cpccOpen s ∧
      s.log = [.dropped 1, .sent 0 2 8 1 0 1 (some (30, 60))] ∧ s.reqDropped = 1 :=
    exists_of_runActions lateCredit (by decide)
  exact ⟨s, hreach, hlog, hdropped, client_queue_correct hreach⟩

end Svalinn.Pcc.ClientQueue
