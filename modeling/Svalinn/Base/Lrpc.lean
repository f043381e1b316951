/-
  Base/Lrpc.lean --- the shared-memory message ring.

  Source: `base/lrpc.c` (`__lrpc_send`, `lrpc_init_out`, `lrpc_init_in`) and
  `inc/base/lrpc.h` (`lrpc_send`, `lrpc_recv`).

  One sender and one receiver share the message table and the head word.  Each access to
  them is a step; what a side does with its own variables goes with the step before or after
  it.  A message is counted by its position in the stream; the 32-bit counters are the
  numbers of positions, and a slot's parity bit tells the lap of its message.
-/
import Svalinn.Lib.Transition
import Svalinn.Lib.Serial

set_option autoImplicit false

namespace Svalinn.Base.Lrpc

open Svalinn.Lib Function List

def lrpcDoneParity : BitVec 64 := BitVec.twoPow 64 63

def lrpcCmdMask : BitVec 64 := ~~~lrpcDoneParity

structure Msg (P : Type) where
  cmd : BitVec 64
  payload : P

inductive Sender (P : Type) where
  | idle
  | polling (cmd : BitVec 64) (payload : P)
  | writing (cmd : BitVec 64) (payload : P)
  | storing (slot : Nat) (word : BitVec 64) (cmd : BitVec 64) (payload : P)

inductive Receiver where
  | idle
  | reading (slot : Nat) (word : BitVec 64)
  | publishing

section Model

variable {P : Type}

structure Ring (P : Type) where
  tbl : Nat → Msg P
  /-- the word behind `recv_head_wb` -/
  headWord : BitVec 32
  sendHead : BitVec 32
  sendTail : BitVec 32
  sender : Sender P
  recvHead : BitVec 32
  receiver : Receiver
  sent : List (BitVec 64 × P)
  received : List (BitVec 64 × P)
  published : Nat

-- the size of the table is `2 ^ k`
variable (k : Nat)

def size : BitVec 32 := BitVec.twoPow 32 k

def slotOf (head : BitVec 32) : Nat := (head &&& (size k - 1#32)).toNat

def parityOf (head : BitVec 32) : BitVec 64 := if head &&& size k ≠ 0#32 then 0#64 else lrpcDoneParity

/-- The start of `lrpc_send`, up to the test of the cached window. -/
def lrpcSend (s : Ring P) (cmd : BitVec 64) (payload : P) : Ring P :=
  if size k ≤ s.sendHead - s.sendTail then { s with sender := .polling cmd payload }
  else { s with sender := .writing cmd payload }

/-- The next access of `lrpc_send` or `__lrpc_send`. -/
def senderStep (s : Ring P) : Option (Ring P) :=
  match s.sender with
  | .idle => none
  | .polling cmd payload =>
    let s := { s with sendTail := s.headWord }
    -- the channel is full: the call returns false
    if s.sendHead - s.sendTail = size k then some { s with sender := .idle }
    else some { s with sender := .writing cmd payload }
  | .writing cmd payload =>
    let slot := slotOf k s.sendHead
    some { s with
      tbl := update s.tbl slot { s.tbl slot with payload }
      sendHead := s.sendHead + 1#32
      sender := .storing slot (cmd ||| parityOf k s.sendHead) cmd payload }
  | .storing slot word cmd payload =>
    some { s with
      tbl := update s.tbl slot { s.tbl slot with cmd := word }
      sender := .idle
      sent := s.sent ++ [(cmd, payload)] }

/-- The parity test of `lrpc_recv`. -/
def recvReady (s : Ring P) : Prop :=
  (s.tbl (slotOf k s.recvHead)).cmd &&& lrpcDoneParity = parityOf k s.recvHead

instance (s : Ring P) : Decidable (recvReady k s) := inferInstanceAs (Decidable (_ = _))

/-- The next access of `lrpc_recv`. -/
def receiverStep (s : Ring P) : Ring P :=
  match s.receiver with
  | .idle =>
    if recvReady k s then
      { s with
        recvHead := s.recvHead + 1#32
        receiver := .reading (slotOf k s.recvHead) (s.tbl (slotOf k s.recvHead)).cmd }
    else s
  | .reading slot word =>
    { s with
      receiver := .publishing
      received := s.received ++ [(word &&& lrpcCmdMask, (s.tbl slot).payload)] }
  | .publishing =>
    { s with headWord := s.recvHead, receiver := .idle, published := s.published + 1 }

inductive Event (P : Type) where
  /-- a call of `lrpc_send`, whose assertion the caller meets -/
  | send (cmd : BitVec 64) (payload : P)
  | sender
  | receiver

def step (s : Ring P) : Event P → Option (Ring P)
  | .send cmd payload =>
    match s.sender with
    | .idle => if cmd &&& lrpcDoneParity = 0#64 then some (lrpcSend k s cmd payload) else none
    | _ => none
  | .sender => senderStep k s
  | .receiver => some (receiverStep k s)

def init (zero : P) : Ring P :=
  ⟨fun _ => ⟨0#64, zero⟩, 0#32, 0#32, 0#32, .idle, 0#32, .idle, [], [], 0⟩

/-! ## The property -/

def Writes (s : Ring P) (slot : Nat) : Prop :=
  match s.sender with
  | .writing _ _ => slot = slotOf k s.sendHead
  | .storing slot' _ _ _ => slot = slot'
  | .idle | .polling _ _ => False

def SendFails (s : Ring P) : Prop :=
  match s.sender with
  | .polling _ _ => s.sendHead - s.headWord = size k
  | .idle | .writing _ _ | .storing _ _ _ _ => False

def RecvFails (s : Ring P) : Prop := s.receiver = .idle ∧ ¬recvReady k s

structure BoundedFifo (s : Ring P) : Prop where
  order : s.received <+: s.sent
  bounded : s.sent.length ≤ s.received.length + 2 ^ k
  /-- Of the messages of a slot that is written to, all are received. -/
  noOverwrite : ∀ slot, Writes k s slot →
    ∀ j, j < s.sent.length → j % 2 ^ k = slot → j < s.received.length
  recvFails : RecvFails k s → s.sent.length = s.received.length
  sendFails : SendFails k s → s.sent.length = s.published + 2 ^ k

/-! ## Positions and their numbers -/

variable {k}

def num (p : Nat) : BitVec 32 := serialAt 0#32 p

theorem num_eq (p : Nat) : num p = BitVec.ofNat 32 p := by rw [num, serialAt, BitVec.zero_add]

theorem num_succ (p : Nat) : num p + 1#32 = num (p + 1) := serialAt_add 0#32 p 1

theorem num_sub (hk : k < 32) {p q : Nat} (hle : q ≤ p) (hwin : p ≤ q + 2 ^ k) :
    (num p - num q).toNat = p - q := by
  have hpow : 2 ^ k < 2 ^ 32 := Nat.pow_lt_pow_right (by decide) hk
  exact serialAt_sub_toNat 0#32 hle (by omega)

theorem size_toNat (hk : k < 32) : (size k).toNat = 2 ^ k := by
  rw [size, BitVec.toNat_twoPow]
  exact Nat.mod_eq_of_lt (Nat.pow_lt_pow_right (by decide) hk)

theorem slotOf_num (hk : k < 32) (p : Nat) : slotOf k (num p) = p % 2 ^ k := by
  have hpos : 0 < 2 ^ k := Nat.two_pow_pos k
  have hmask : (size k - 1#32).toNat = 2 ^ k - 1 := by
    rw [BitVec.toNat_sub_of_le, size_toNat hk]
    · rfl
    · rw [BitVec.le_def, size_toNat hk]
      exact hpos
  rw [slotOf, BitVec.toNat_and, hmask, num_eq, BitVec.toNat_ofNat, Nat.and_two_pow_sub_one_eq_mod]
  exact Nat.mod_mod_of_dvd p (Nat.pow_dvd_pow 2 (Nat.le_of_lt hk))

def parity (k p : Nat) : BitVec 64 := if p / 2 ^ k % 2 = 1 then 0#64 else lrpcDoneParity

theorem size_ne_zero (hk : k < 32) : size k ≠ 0#32 := by
  intro hzero
  have hnat := congrArg BitVec.toNat hzero
  rw [size_toNat hk] at hnat
  exact absurd hnat (Nat.ne_of_gt (Nat.two_pow_pos k))

theorem parityOf_num (hk : k < 32) (p : Nat) : parityOf k (num p) = parity k p := by
  have hbit : (num p).getLsbD k = decide (p / 2 ^ k % 2 = 1) := by
    rw [num_eq, BitVec.getLsbD_ofNat, decide_eq_true hk, Bool.true_and, Nat.testBit_eq_decide_div_mod_eq]
  have hand : num p &&& size k = if p / 2 ^ k % 2 = 1 then size k else 0#32 := by
    rw [size, BitVec.and_twoPow, hbit]
    simp only [decide_eq_true_eq]
  rw [parityOf, parity, hand]
  by_cases hodd : p / 2 ^ k % 2 = 1
  · rw [if_pos hodd, if_pos hodd, if_pos (size_ne_zero hk)]
  · rw [if_neg hodd, if_neg hodd, if_neg fun hne => hne rfl]

theorem lrpcDoneParity_ne_zero : lrpcDoneParity ≠ 0#64 := by decide

theorem parity_eq_or (p : Nat) : parity k p = 0#64 ∨ parity k p = lrpcDoneParity := by
  rw [parity]
  split
  · exact .inl rfl
  · exact .inr rfl

theorem parity_next_lap (p : Nat) : parity k (p + 2 ^ k) ≠ parity k p := by
  have hlap : (p + 2 ^ k) / 2 ^ k = p / 2 ^ k + 1 := Nat.add_div_right p (Nat.two_pow_pos k)
  have hne := lrpcDoneParity_ne_zero
  rw [parity, parity, hlap]
  rcases Nat.mod_two_eq_zero_or_one (p / 2 ^ k) with hp | hp
  · rw [if_pos (by omega), if_neg (by omega)]
    exact hne.symm
  · rw [if_neg (by omega), if_pos hp]
    exact hne

theorem parity_first_lap {p : Nat} (hp : p < 2 ^ k) : parity k p = lrpcDoneParity := by
  rw [parity, Nat.div_eq_of_lt hp]
  rfl

/-! ## A command word -/

theorem word_parity {c q : BitVec 64} (hc : c &&& lrpcDoneParity = 0#64)
    (hq : q = 0#64 ∨ q = lrpcDoneParity) : (c ||| q) &&& lrpcDoneParity = q := by
  rw [BitVec.and_comm, BitVec.and_or_distrib_left, BitVec.and_comm lrpcDoneParity c, hc]
  rcases hq with rfl | rfl
  · decide
  · decide

theorem word_cmd {c q : BitVec 64} (hc : c &&& lrpcDoneParity = 0#64)
    (hq : q = 0#64 ∨ q = lrpcDoneParity) : (c ||| q) &&& lrpcCmdMask = c := by
  have hmask : c &&& lrpcCmdMask = c := by
    have hall : c &&& (lrpcDoneParity ||| lrpcCmdMask) = c := by
      rw [show lrpcDoneParity ||| lrpcCmdMask = BitVec.allOnes 64 by decide, BitVec.and_allOnes]
    rw [BitVec.and_or_distrib_left, hc, BitVec.zero_or] at hall
    exact hall
  rw [BitVec.and_comm, BitVec.and_or_distrib_left, BitVec.and_comm lrpcCmdMask c, hmask]
  rcases hq with rfl | rfl
  · rw [BitVec.and_zero, BitVec.or_zero]
  · rw [show lrpcCmdMask &&& lrpcDoneParity = 0#64 by decide, BitVec.or_zero]

/-! ## The invariant -/

def Sender.begun : Sender P → Nat
  | .storing _ _ _ _ => 1
  | .idle | .polling _ _ | .writing _ _ => 0

def Receiver.begun : Receiver → Nat
  | .reading _ _ => 1
  | .idle | .publishing => 0

def Receiver.unpublished : Receiver → Nat
  | .publishing => 1
  | .idle | .reading _ _ => 0

/-- The counters, as the numbers of positions; `tail` is the one the sender has cached. -/
structure Counters (k : Nat) (s : Ring P) (tail : Nat) : Prop where
  sendHead : s.sendHead = num (s.sent.length + s.sender.begun)
  sendTail : s.sendTail = num tail
  headWord : s.headWord = num s.published
  recvHead : s.recvHead = num (s.received.length + s.receiver.begun)
  received : s.received.length = s.published + s.receiver.unpublished
  cached : tail ≤ s.published
  window : s.sent.length ≤ tail + 2 ^ k
  available : s.received.length + s.receiver.begun ≤ s.sent.length

/-- The table, as the last messages of the stream left it. -/
structure Table (k : Nat) (tbl : Nat → Msg P) (sent received : List (BitVec 64 × P)) : Prop where
  cmds : ∀ (j : Nat) (x : BitVec 64 × P), sent[j]? = some x → sent.length ≤ j + 2 ^ k →
    (tbl (j % 2 ^ k)).cmd = x.1 ||| parity k j
  payloads : ∀ (j : Nat) (x : BitVec 64 × P), sent[j]? = some x → received.length ≤ j →
    (tbl (j % 2 ^ k)).payload = x.2
  fresh : ∀ i, sent.length ≤ i → i < 2 ^ k → (tbl i).cmd = 0#64
  clean : ∀ (j : Nat) (x : BitVec 64 × P), sent[j]? = some x → x.1 &&& lrpcDoneParity = 0#64

def SenderAt (k : Nat) (tbl : Nat → Msg P) (sent : Nat) (tail : Nat) : Sender P → Prop
  | .idle => True
  | .polling cmd _ => cmd &&& lrpcDoneParity = 0#64
  | .writing cmd _ => cmd &&& lrpcDoneParity = 0#64 ∧ sent < tail + 2 ^ k
  | .storing slot word cmd payload =>
    cmd &&& lrpcDoneParity = 0#64 ∧ sent < tail + 2 ^ k ∧ slot = sent % 2 ^ k ∧
      word = cmd ||| parity k sent ∧ (tbl slot).payload = payload

def ReceiverAt (k : Nat) (sent : List (BitVec 64 × P)) (received : Nat) : Receiver → Prop
  | .reading slot word =>
    slot = received % 2 ^ k ∧ ∃ x, sent[received]? = some x ∧ word = x.1 ||| parity k received
  | .idle | .publishing => True

structure Inv (k : Nat) (s : Ring P) (tail : Nat) : Prop where
  counters : Counters k s tail
  table : Table k s.tbl s.sent s.received
  sender : SenderAt k s.tbl s.sent.length tail s.sender
  receiver : ReceiverAt k s.sent s.received.length s.receiver
  order : s.received = s.sent.take s.received.length

theorem inv_init (zero : P) : Inv k (init zero) 0 where
  counters := ⟨rfl, rfl, rfl, rfl, rfl, Nat.le_refl _, Nat.zero_le _, Nat.le_refl _⟩
  table := ⟨nofun, nofun, fun _ _ _ => rfl, nofun⟩
  sender := trivial
  receiver := trivial
  order := rfl

variable {s : Ring P} {tail : Nat}

theorem eq_of_slot {a b : Nat} (hmod : a % 2 ^ k = b % 2 ^ k) (hle : a ≤ b) (hlt : b < a + 2 ^ k) :
    a = b := by
  have hsub : (b - a) % 2 ^ k = 0 := (Nat.modEq_iff_dvd' hle).1 hmod |> Nat.mod_eq_zero_of_dvd
  rw [Nat.mod_eq_of_lt (by omega)] at hsub
  omega

/-! ## The table -/

section Table

variable {tbl : Nat → Msg P} {sent received : List (BitVec 64 × P)}

theorem Table.write (h : Table k tbl sent received) (hroom : sent.length < received.length + 2 ^ k)
    (payload : P) :
    Table k (update tbl (sent.length % 2 ^ k) ⟨(tbl (sent.length % 2 ^ k)).cmd, payload⟩) sent
      received := by
  have hcmds : ∀ i, (update tbl (sent.length % 2 ^ k)
      ⟨(tbl (sent.length % 2 ^ k)).cmd, payload⟩ i).cmd = (tbl i).cmd := by
    intro i
    rw [update_apply]
    split
    · rename_i hi
      rw [hi]
    · rfl
  refine ⟨fun j x hj hlen => ?_, fun j x hj hle => ?_, fun i hi hlt => ?_, h.clean⟩
  · rw [hcmds]
    exact h.cmds j x hj hlen
  · have hlt := (List.getElem?_eq_some_iff.1 hj).1
    have hslot : j % 2 ^ k ≠ sent.length % 2 ^ k := fun heq =>
      absurd (eq_of_slot heq (Nat.le_of_lt hlt) (by omega)) (Nat.ne_of_lt hlt)
    rw [update_of_ne hslot]
    exact h.payloads j x hj hle
  · rw [hcmds]
    exact h.fresh i hi hlt

theorem getElem?_snoc {j : Nat} {x y : BitVec 64 × P} (h : (sent ++ [y])[j]? = some x) :
    sent[j]? = some x ∧ j < sent.length ∨ j = sent.length ∧ x = y := by
  rcases Nat.lt_trichotomy j sent.length with hlt | heq | hgt
  · rw [List.getElem?_append_left hlt] at h
    exact .inl ⟨h, hlt⟩
  · subst heq
    rw [List.getElem?_append_right (Nat.le_refl _), Nat.sub_self] at h
    exact .inr ⟨rfl, (Option.some.inj h).symm⟩
  · rw [List.getElem?_eq_none (by rw [length_append, length_singleton]; exact hgt)] at h
    cases h

theorem Table.store (h : Table k tbl sent received) {cmd : BitVec 64} {payload : P}
    (hcmd : cmd &&& lrpcDoneParity = 0#64) (hpayload : (tbl (sent.length % 2 ^ k)).payload = payload) :
    Table k (update tbl (sent.length % 2 ^ k)
      ⟨cmd ||| parity k sent.length, (tbl (sent.length % 2 ^ k)).payload⟩) (sent ++ [(cmd, payload)])
      received := by
  have hlen : (sent ++ [(cmd, payload)]).length = sent.length + 1 := by
    rw [length_append, length_singleton]
  have hpayloads : ∀ i, (update tbl (sent.length % 2 ^ k)
      ⟨cmd ||| parity k sent.length, (tbl (sent.length % 2 ^ k)).payload⟩ i).payload =
        (tbl i).payload := by
    intro i
    rw [update_apply]
    split
    · rename_i hi
      rw [hi]
    · rfl
  refine ⟨fun j x hj hwin => ?_, fun j x hj hle => ?_, fun i hi hlt => ?_, fun j x hj => ?_⟩
  · rcases getElem?_snoc hj with ⟨hold, hlt⟩ | ⟨rfl, rfl⟩
    · rw [hlen] at hwin
      have hslot : j % 2 ^ k ≠ sent.length % 2 ^ k := fun heq =>
        absurd (eq_of_slot heq (Nat.le_of_lt hlt) (by omega)) (Nat.ne_of_lt hlt)
      rw [update_of_ne hslot]
      exact h.cmds j x hold (by omega)
    · rw [update_self]
  · rw [hpayloads]
    rcases getElem?_snoc hj with ⟨hold, _⟩ | ⟨rfl, rfl⟩
    · exact h.payloads j x hold hle
    · exact hpayload
  · rw [hlen] at hi
    have hslot : i ≠ sent.length % 2 ^ k := by
      have hmod := Nat.mod_le sent.length (2 ^ k)
      omega
    rw [update_of_ne hslot]
    exact h.fresh i (by omega) hlt
  · rcases getElem?_snoc hj with ⟨hold, _⟩ | ⟨rfl, rfl⟩
    · exact h.clean j x hold
    · exact hcmd

end Table

/-! ## The sender -/

theorem Counters.tail_le (h : Counters k s tail) : tail ≤ s.sent.length := by
  have havail := h.available
  have hcached := h.cached
  have hrec := h.received
  omega

theorem Inv.send (hk : k < 32) (h : Inv k s tail) (hidle : s.sender = .idle) {cmd : BitVec 64} {payload : P}
    (hcmd : cmd &&& lrpcDoneParity = 0#64) : Inv k (lrpcSend k s cmd payload) tail := by
  have hc := h.counters
  have hhead : s.sendHead = num s.sent.length := by
    rw [hc.sendHead, hidle]
    rfl
  rw [lrpcSend]
  split
  · exact ⟨⟨hhead, hc.sendTail, hc.headWord, hc.recvHead, hc.received, hc.cached, hc.window, hc.available⟩,
      h.table, hcmd, h.receiver, h.order⟩
  · rename_i htest
    refine ⟨⟨hhead, hc.sendTail, hc.headWord, hc.recvHead, hc.received, hc.cached, hc.window, hc.available⟩,
      h.table, ⟨hcmd, ?_⟩, h.receiver, h.order⟩
    -- the cached window has room
    have htail := hc.tail_le
    rw [hhead, hc.sendTail, BitVec.le_def, size_toNat hk, num_sub hk htail hc.window] at htest
    dsimp only
    omega

theorem Inv.poll (hk : k < 32) (h : Inv k s tail) {cmd : BitVec 64} {payload : P}
    (hphase : s.sender = .polling cmd payload) {s' : Ring P} (hstep : senderStep k s = some s') :
    Inv k s' s.published := by
  have hc := h.counters
  have hsender := h.sender
  have hhead : s.sendHead = num s.sent.length := by
    rw [hc.sendHead, hphase]
    rfl
  have hwindow : s.sent.length ≤ s.published + 2 ^ k := by
    have hcached := hc.cached
    have hwin := hc.window
    omega
  have hle : s.published ≤ s.sent.length := by
    have havail := hc.available
    have hrec := hc.received
    omega
  rw [hphase] at hsender
  rw [senderStep, hphase] at hstep
  dsimp only at hstep
  split at hstep
  · cases hstep
    exact ⟨⟨hhead, hc.headWord, hc.headWord, hc.recvHead, hc.received, Nat.le_refl _, hwindow, hc.available⟩,
      h.table, trivial, h.receiver, h.order⟩
  · rename_i htest
    cases hstep
    refine ⟨⟨hhead, hc.headWord, hc.headWord, hc.recvHead, hc.received, Nat.le_refl _, hwindow, hc.available⟩,
      h.table, ⟨hsender, ?_⟩, h.receiver, h.order⟩
    refine Nat.lt_of_le_of_ne hwindow fun hfull => htest (BitVec.eq_of_toNat_eq ?_)
    dsimp only at hfull
    rw [hhead, hc.headWord, num_sub hk hle hwindow, size_toNat hk]
    omega

theorem Inv.write (hk : k < 32) (h : Inv k s tail) {cmd : BitVec 64} {payload : P}
    (hphase : s.sender = .writing cmd payload) {s' : Ring P} (hstep : senderStep k s = some s') :
    Inv k s' tail := by
  have hc := h.counters
  obtain ⟨hcmd, hroom⟩ : cmd &&& lrpcDoneParity = 0#64 ∧ s.sent.length < tail + 2 ^ k := by
    have hsender := h.sender
    rwa [hphase] at hsender
  have hhead : s.sendHead = num s.sent.length := by
    rw [hc.sendHead, hphase]
    rfl
  rw [senderStep, hphase] at hstep
  dsimp only at hstep
  cases hstep
  rw [hhead, slotOf_num hk, parityOf_num hk, num_succ]
  have hrec := hc.received
  have hcached := hc.cached
  exact ⟨⟨rfl, hc.sendTail, hc.headWord, hc.recvHead, hc.received, hc.cached, hc.window, hc.available⟩,
    h.table.write (by omega) payload,
    ⟨hcmd, hroom, rfl, rfl, congrArg Msg.payload (update_self (s.sent.length % 2 ^ k) _ s.tbl)⟩, h.receiver, h.order⟩

theorem Inv.store (h : Inv k s tail) {slot : Nat} {word cmd : BitVec 64} {payload : P}
    (hphase : s.sender = .storing slot word cmd payload) {s' : Ring P}
    (hstep : senderStep k s = some s') : Inv k s' tail := by
  have hc := h.counters
  have hsender := h.sender
  rw [hphase] at hsender
  obtain ⟨hcmd, hroom, rfl, rfl, hpayload⟩ := hsender
  rw [senderStep, hphase] at hstep
  dsimp only at hstep
  cases hstep
  have hlen : (s.sent ++ [(cmd, payload)]).length = s.sent.length + 1 := by
    rw [length_append, length_singleton]
  have hhead : s.sendHead = num (s.sent.length + 1) := by
    rw [hc.sendHead, hphase]
    rfl
  have havail := hc.available
  refine ⟨⟨?_, hc.sendTail, hc.headWord, hc.recvHead, hc.received, hc.cached, ?_, ?_⟩,
    h.table.store hcmd hpayload, trivial, ?_, ?_⟩
  · rw [hlen]
    exact hhead
  · rw [hlen]
    exact hroom
  · rw [hlen]
    exact Nat.le_succ_of_le havail
  · have hreceiver := h.receiver
    cases hr : s.receiver with
    | reading slot word =>
      rw [hr] at hreceiver
      obtain ⟨hslot, x, hx, hword⟩ := hreceiver
      exact ⟨hslot, x, (List.getElem?_append_left (List.getElem?_eq_some_iff.1 hx).1).trans hx, hword⟩
    | idle | publishing => trivial
  · show s.received = (s.sent ++ [(cmd, payload)]).take s.received.length
    rw [take_append_of_le_length (by omega)]
    exact h.order

/-! ## The receiver -/

theorem Inv.recvReady_iff (hk : k < 32) (h : Inv k s tail) (hidle : s.receiver = .idle) :
    recvReady k s ↔ s.received.length < s.sent.length := by
  have hc := h.counters
  have hhead : s.recvHead = num s.received.length := by
    rw [hc.recvHead, hidle]
    rfl
  have hpublished : s.received.length = s.published := by
    rw [hc.received, hidle]
    rfl
  have hwindow := hc.window
  have hcached := hc.cached
  have havail := hc.available
  rw [recvReady, hhead, slotOf_num hk, parityOf_num hk]
  refine ⟨fun hready => ?_, fun hlt => ?_⟩
  · refine Nat.lt_of_le_of_ne (by omega) fun heq => ?_
    -- nothing waits: the slot was never written, or holds the message of the lap before
    by_cases hfirst : s.received.length < 2 ^ k
    · rw [Nat.mod_eq_of_lt hfirst, h.table.fresh _ (by omega) hfirst, parity_first_lap hfirst] at hready
      exact absurd hready (by decide)
    · obtain ⟨x, hx⟩ : ∃ x, s.sent[s.received.length - 2 ^ k]? = some x :=
        ⟨_, List.getElem?_eq_getElem (by have := Nat.two_pow_pos k; omega)⟩
      have hmod : s.received.length % 2 ^ k = (s.received.length - 2 ^ k) % 2 ^ k :=
        Nat.mod_eq_sub_mod (Nat.not_lt.1 hfirst)
      rw [hmod, h.table.cmds _ x hx (by omega),
        word_parity (h.table.clean _ x hx) (parity_eq_or _)] at hready
      have hlap := parity_next_lap (k := k) (s.received.length - 2 ^ k)
      rw [Nat.sub_add_cancel (Nat.not_lt.1 hfirst)] at hlap
      exact hlap hready.symm
  · have hx := List.getElem?_eq_getElem hlt
    rw [h.table.cmds _ _ hx (by omega), word_parity (h.table.clean _ _ hx) (parity_eq_or _)]

theorem Inv.receive (hk : k < 32) (h : Inv k s tail) : Inv k (receiverStep k s) tail := by
  have hc := h.counters
  rw [receiverStep]
  cases hr : s.receiver with
  | idle =>
    dsimp only
    split
    · rename_i hready
      have hlt := (h.recvReady_iff hk hr).1 hready
      have hx := List.getElem?_eq_getElem hlt
      have hhead : s.recvHead = num s.received.length := by
        rw [hc.recvHead, hr]
        rfl
      have hpublished : s.received.length = s.published := by
        rw [hc.received, hr]
        rfl
      have hwindow := hc.window
      have hcached := hc.cached
      rw [hhead, slotOf_num hk, num_succ]
      refine ⟨⟨hc.sendHead, hc.sendTail, hc.headWord, rfl, hpublished, hc.cached, hc.window, hlt⟩, h.table,
        h.sender, ⟨rfl, _, hx, ?_⟩, h.order⟩
      exact h.table.cmds _ _ hx (by omega)
    · exact h
  | reading slot word =>
    have hreceiver := h.receiver
    rw [hr] at hreceiver
    obtain ⟨rfl, x, hx, rfl⟩ := hreceiver
    have hlen : (s.received ++ [x]).length = s.received.length + 1 := by
      rw [length_append, length_singleton]
    have hpublished : s.received.length = s.published := by
      rw [hc.received, hr]
      rfl
    have hhead : s.recvHead = num (s.received.length + 1) := by
      rw [hc.recvHead, hr]
      rfl
    have havail : s.received.length + 1 ≤ s.sent.length := by
      have havail := hc.available
      rwa [hr] at havail
    dsimp only
    rw [word_cmd (h.table.clean _ x hx) (parity_eq_or _), h.table.payloads _ x hx (Nat.le_refl _)]
    refine ⟨⟨hc.sendHead, hc.sendTail, hc.headWord, ?_, ?_, hc.cached, hc.window, ?_⟩,
      ⟨h.table.cmds, fun j y hj hle => ?_, h.table.fresh, h.table.clean⟩, h.sender, trivial, ?_⟩
    · rw [hlen]
      exact hhead
    · rw [hlen]
      exact congrArg (· + 1) hpublished
    · rw [hlen]
      exact havail
    · rw [hlen] at hle
      exact h.table.payloads j y hj (by omega)
    · show s.received ++ [x] = s.sent.take (s.received ++ [x]).length
      obtain ⟨hlt, hget⟩ := List.getElem?_eq_some_iff.1 hx
      rw [hlen, take_succ_eq_append_getElem hlt, hget, ← h.order]
  | publishing =>
    have hhead : s.recvHead = num s.received.length := by
      rw [hc.recvHead, hr]
      rfl
    have hpublished : s.received.length = s.published + 1 := by
      rw [hc.received, hr]
      rfl
    have havail : s.received.length ≤ s.sent.length := by
      have havail := hc.available
      rwa [hr] at havail
    exact ⟨⟨hc.sendHead, hc.sendTail, by rw [hhead, hpublished], hhead, hpublished,
      Nat.le_succ_of_le hc.cached, hc.window, havail⟩, h.table, h.sender, trivial, h.order⟩

/-! ## Runs -/

theorem Inv.step (hk : k < 32) (h : Inv k s tail) {e : Event P} {s' : Ring P}
    (hstep : Lrpc.step k s e = some s') : ∃ tail', Inv k s' tail' := by
  cases e with
  | send cmd payload =>
    rw [Lrpc.step] at hstep
    split at hstep
    · rename_i hidle
      split at hstep
      · rename_i hcmd
        cases hstep
        exact ⟨tail, h.send hk hidle hcmd⟩
      · cases hstep
    · cases hstep
  | sender =>
    cases hphase : s.sender with
    | idle =>
      rw [Lrpc.step, senderStep, hphase] at hstep
      cases hstep
    | polling cmd payload => exact ⟨_, h.poll hk hphase hstep⟩
    | writing cmd payload => exact ⟨_, h.write hk hphase hstep⟩
    | storing slot word cmd payload => exact ⟨_, h.store hphase hstep⟩
  | receiver =>
    cases hstep
    exact ⟨tail, h.receive hk⟩

theorem Inv.boundedFifo (hk : k < 32) (h : Inv k s tail) : BoundedFifo k s := by
  have hc := h.counters
  have hwindow := hc.window
  have hcached := hc.cached
  have hrec := hc.received
  refine ⟨?_, by omega, fun slot hwrites j hj hmod => ?_, fun hfails => ?_, fun hfails => ?_⟩
  · rw [h.order]
    exact take_prefix _ _
  · -- the slot is that of the next position, and the window has room for it
    have hslot : slot = s.sent.length % 2 ^ k ∧ s.sent.length < tail + 2 ^ k := by
      have hsender := h.sender
      rw [Writes] at hwrites
      cases hphase : s.sender with
      | idle | polling _ _ => rw [hphase] at hwrites; cases hwrites
      | writing cmd payload =>
        rw [hphase] at hwrites hsender
        have hhead : s.sendHead = num s.sent.length := by
          rw [hc.sendHead, hphase]
          rfl
        rw [hhead, slotOf_num hk] at hwrites
        exact ⟨hwrites, hsender.2⟩
      | storing slot' word cmd payload =>
        rw [hphase] at hwrites hsender
        exact ⟨hwrites.trans hsender.2.2.1, hsender.2.1⟩
    by_contra hnot
    have heq := eq_of_slot (hmod.trans hslot.1) (Nat.le_of_lt hj) (by omega)
    omega
  · obtain ⟨hidle, hready⟩ := hfails
    rw [h.recvReady_iff hk hidle] at hready
    have havail := hc.available
    omega
  · rw [SendFails] at hfails
    cases hphase : s.sender with
    | polling cmd payload =>
      rw [hphase] at hfails
      have hhead : s.sendHead = num s.sent.length := by
        rw [hc.sendHead, hphase]
        rfl
      have havail := hc.available
      have hdiff := congrArg BitVec.toNat hfails
      rw [hhead, hc.headWord, num_sub hk (by omega) (by omega), size_toNat hk] at hdiff
      omega
    | _ => rw [hphase] at hfails; cases hfails

/-- In every interleaving the ring is a bounded queue: what is received is what was sent, in
order, a receive fails only when no message waits, and a send only when the published window is
full. -/
theorem lrpc_bounded_fifo (hk : k < 32) (zero : P) {s : Ring P}
    (hreach : Reaches (Lrpc.step k) anyStep (init zero) s) : BoundedFifo k s := by
  have hinv : ∃ tail, Inv k s tail :=
    hreach.invariant (P := fun s => ∃ tail, Inv k s tail) ⟨0, inv_init zero⟩
      fun _ _ _ ⟨_, hu⟩ _ hst => hu.step hk hst
  obtain ⟨tail, h⟩ := hinv
  exact h.boundedFifo hk

end Model

/-! ## A ring of two slots -/

/-- Two messages are sent, one is received and published, a third is sent in the freed slot, and
the fourth finds the ring full. -/
theorem lrpc_bounded_fifo_two :
    ∃ s : Ring Nat, Reaches (step 1) anyStep (init 0) s ∧ s.received = [(5, 10)] ∧
      s.sent = [(5, 10), (6, 11), (7, 12)] ∧ BoundedFifo 1 s := by
  obtain ⟨s, hreach, hreceived, hsent⟩ : ∃ s, Reaches (step 1) anyStep (init 0) s ∧
      s.received = [(5, 10)] ∧ s.sent = [(5, 10), (6, 11), (7, 12)] :=
    exists_of_runActions [.send 5 10, .sender, .sender, .send 6 11, .sender, .sender, .receiver, .receiver, .receiver,
        .send 7 12, .sender, .sender, .sender, .send 8 13, .sender] (by decide)
  exact ⟨s, hreach, hreceived, hsent, lrpc_bounded_fifo (by decide) 0 hreach⟩

end Svalinn.Base.Lrpc
