/-
  Net/Transport.lean --- the table that hands packets to sockets.

  Source: `runtime/net/transport.c`, `runtime/net/defs.h` (`struct trans_entry`).

  Entries of both kinds, listening (3-tuple) and connected (5-tuple), are in one hash table.
  The hash functions are parameters: nothing below depends on their values.  An entry keeps
  the address of its object, so that two objects with one key are two entries; its fields do
  not change while it is linked.
-/
import Svalinn.Lib.Buckets
import Svalinn.Lib.Bytes
import Svalinn.Lib.Transition

set_option autoImplicit false

namespace Svalinn.Net.Transport

open Svalinn.Lib

/-! ## Entries -/

structure Netaddr where
  ip : UInt32
  port : UInt16
  deriving DecidableEq

/-- `TRANS_MATCH_3TUPLE` and `TRANS_MATCH_5TUPLE` -/
inductive TransMatch where
  | threeTuple
  | fiveTuple
  deriving DecidableEq

structure TransEntry where
  addr : Nat
  kind : TransMatch
  proto : UInt8
  laddr : Netaddr
  raddr : Netaddr
  deriving DecidableEq

def TransEntry.withPort (e : TransEntry) (port : UInt16) : TransEntry :=
  { e with laddr := { e.laddr with port := port } }

inductive Key where
  | threeTuple (proto : UInt8) (laddr : Netaddr)
  | fiveTuple (proto : UInt8) (laddr raddr : Netaddr)
  deriving DecidableEq

def TransEntry.key (e : TransEntry) : Key :=
  match e.kind with
  | .threeTuple => .threeTuple e.proto e.laddr
  | .fiveTuple => .fiveTuple e.proto e.laddr e.raddr

/-- `-EINVAL`, `-EADDRINUSE` and `-EADDRNOTAVAIL` -/
inductive Errno where
  | einval
  | eaddrinuse
  | eaddrnotavail
  deriving DecidableEq

def transTblSize : Nat := 16384

def minEphemeral : Nat := 49152

def maxEphemeral : Nat := 65535

structure Table where
  transTbl : Fin transTblSize → List TransEntry
  ephemeralOffset : UInt32

def Table.init : Table := ⟨fun _ => [], 0⟩

def Table.entries (s : Table) : List TransEntry :=
  (List.finRange transTblSize).flatMap s.transTbl

/-! ## The functions of the source -/

section Functions

structure Hashes where
  transHash3tuple : UInt8 → Netaddr → UInt32
  transHash5tuple : UInt8 → Netaddr → Netaddr → UInt32

variable (H : Hashes)

/-- The hash of the key of an entry, with the branch both `add` functions have. -/
def transHash (e : TransEntry) : UInt32 :=
  match e.kind with
  | .threeTuple => H.transHash3tuple e.proto e.laddr
  | .fiveTuple => H.transHash5tuple e.proto e.laddr e.raddr

def slot (hash : UInt32) : Fin transTblSize :=
  ⟨hash.toNat % transTblSize, Nat.mod_lt _ (by decide)⟩

/-- The body of the loop of `trans_table_add`: `pos` is in the way of `e`. -/
def conflicts (e pos : TransEntry) : Bool :=
  if pos.kind ≠ e.kind then false
  else if e.kind = .threeTuple ∧ e.proto = pos.proto ∧ e.laddr.ip = pos.laddr.ip ∧
      e.laddr.port = pos.laddr.port then true
  else
    decide (e.proto = pos.proto ∧ e.laddr.ip = pos.laddr.ip ∧ e.laddr.port = pos.laddr.port ∧
      e.raddr.ip = pos.raddr.ip ∧ e.raddr.port = pos.raddr.port)

/-- `trans_table_add`; a failed call leaves the table as it is. -/
def transTableAdd (s : Table) (e : TransEntry) : Except Errno Table :=
  if e.laddr.port = 0 then .error .einval
  else
    let idx := slot (transHash H e)
    if (s.transTbl idx).any (conflicts e) then .error .eaddrinuse
    else .ok ⟨Buckets.push s.transTbl idx e, s.ephemeralOffset + 1⟩

/-- `MAX_EPHEMERAL - MIN_EPHEMERAL + 1` in 16 bits -/
def numEphemeral : Nat := (maxEphemeral - minEphemeral + 1) % 2 ^ 16

/-- The port of a probe.  The sum of the two 16-bit counters is an `int` in the source. -/
def ephemeralPort (offset : UInt16) (next : Nat) : UInt16 :=
  UInt16.ofNat (minEphemeral + (next + offset.toNat) % numEphemeral)

/-- The loop of `trans_table_add_with_ephemeral_port`, with the probes left and `next_ephemeral`.
It gives the entry as the caller then has it, and the table. -/
def probe (s : Table) (offset : UInt16) : TransEntry → Nat → Nat → TransEntry × Except Errno Table
  | e, 0, _ => (e, .error .eaddrnotavail)
  | e, n + 1, next =>
    let e' := e.withPort (ephemeralPort offset next)
    match transTableAdd H s e' with
    | .ok s' => (e', .ok s')
    | .error _ => probe s offset e' n (next + 1)

def transTableAddWithEphemeralPort (s : Table) (e : TransEntry) : TransEntry × Except Errno Table :=
  let e := e.withPort 0
  let offset := (transHash H e + s.ephemeralOffset).toUInt16
  probe H s offset e numEphemeral 0

/-- `trans_table_remove`: unlinks an entry, which has to be linked. -/
def transTableRemove (s : Table) (e : TransEntry) : Option Table :=
  let idx := slot (transHash H e)
  if e ∈ s.transTbl idx then
    some { s with
      transTbl := Function.update s.transTbl idx ((s.transTbl idx).filter (· ≠ e)) }
  else none

/-- What `trans_lookup` reads of a packet: fields of the network header, and the bytes from
the transport header on. -/
structure Packet where
  proto : UInt8
  saddr : UInt32
  daddr : UInt32
  data : List UInt8

def ipprotoTcp : UInt8 := 6

def ipprotoUdp : UInt8 := 17

def Packet.addrs (m : Packet) (reverse : Bool) : Option (Netaddr × Netaddr) :=
  if m.proto ≠ ipprotoUdp ∧ m.proto ≠ ipprotoTcp then none
  else if m.data.length < 4 then none
  else
    let laddr : Netaddr := ⟨m.daddr, UInt16.ofNat (be16At m.data 2)⟩
    let raddr : Netaddr := ⟨m.saddr, UInt16.ofNat (be16At m.data 0)⟩
    some (if reverse then (raddr, laddr) else (laddr, raddr))

/-- The test of the first loop of `trans_lookup`. -/
def matches5tuple (proto : UInt8) (laddr raddr : Netaddr) (e : TransEntry) : Bool :=
  decide (e.kind = .fiveTuple ∧ e.proto = proto ∧ e.laddr.ip = laddr.ip ∧
    e.laddr.port = laddr.port ∧ e.raddr.ip = raddr.ip ∧ e.raddr.port = raddr.port)

/-- The test of the second loop of `trans_lookup`. -/
def matches3tuple (proto : UInt8) (laddr : Netaddr) (e : TransEntry) : Bool :=
  decide (e.kind = .threeTuple ∧ e.proto = proto ∧ e.laddr.ip = laddr.ip ∧
    e.laddr.port = laddr.port)

def transLookup (s : Table) (m : Packet) (reverse : Bool) : Option TransEntry :=
  match m.addrs reverse with
  | none => none
  | some (laddr, raddr) =>
    match (s.transTbl (slot (H.transHash5tuple m.proto laddr raddr))).find?
        (matches5tuple m.proto laddr raddr) with
    | some e => some e
    | none =>
      (s.transTbl (slot (H.transHash3tuple m.proto laddr))).find? (matches3tuple m.proto laddr)

/-! ## The calls -/

inductive Call where
  | add (e : TransEntry)
  | addWithEphemeralPort (e : TransEntry)
  | remove (e : TransEntry)
  deriving DecidableEq

/-- The table after a call that returned an error is the table before it. -/
def keepOnError (s : Table) : Except Errno Table → Table
  | .ok s' => s'
  | .error _ => s

def step (s : Table) : Call → Option Table
  | .add e => some (keepOnError s (transTableAdd H s e))
  | .addWithEphemeralPort e =>
    some (keepOnError s (transTableAddWithEphemeralPort H s e).2)
  | .remove e => transTableRemove H s e

end Functions

/-! ## The table as a hash table of keys -/

section Keys

variable {H : Hashes}

def bucketOf (H : Hashes) : Key → Fin transTblSize
  | .threeTuple proto laddr => slot (H.transHash3tuple proto laddr)
  | .fiveTuple proto laddr raddr => slot (H.transHash5tuple proto laddr raddr)

theorem slot_transHash (e : TransEntry) : slot (transHash H e) = bucketOf H e.key := by
  unfold transHash TransEntry.key
  cases e.kind <;> rfl

theorem Netaddr.eq_iff (a b : Netaddr) : a = b ↔ a.ip = b.ip ∧ a.port = b.port := by
  cases a
  cases b
  simp

theorem conflicts_iff (e pos : TransEntry) : conflicts e pos = true ↔ e.key = pos.key := by
  unfold conflicts TransEntry.key
  cases hp : pos.kind <;> cases he : e.kind
  · simp [Netaddr.eq_iff]
    tauto
  · simp
  · simp
  · simp [Netaddr.eq_iff, and_assoc]

theorem matches5tuple_iff (proto : UInt8) (laddr raddr : Netaddr) (e : TransEntry) :
    matches5tuple proto laddr raddr e = true ↔ e.key = .fiveTuple proto laddr raddr := by
  unfold matches5tuple TransEntry.key
  cases e.kind <;> simp [Netaddr.eq_iff, and_assoc]

theorem matches3tuple_iff (proto : UInt8) (laddr : Netaddr) (e : TransEntry) :
    matches3tuple proto laddr e = true ↔ e.key = .threeTuple proto laddr := by
  unfold matches3tuple TransEntry.key
  cases e.kind <;> simp [Netaddr.eq_iff]

theorem any_conflicts_eq_false_iff (s : Table) (e : TransEntry) :
    (s.transTbl (slot (transHash H e))).any (conflicts e) = false ↔
      Buckets.find (bucketOf H) TransEntry.key s.transTbl e.key =
        none := by
  rw [slot_transHash, List.any_eq_false, Buckets.find, List.find?_eq_none]
  refine forall₂_congr fun pos _ => not_congr ?_
  rw [conflicts_iff, decide_eq_true_iff]
  exact eq_comm

abbrev Good (H : Hashes) (s : Table) : Prop :=
  Buckets.Hashed (bucketOf H) TransEntry.key s.transTbl

def Table.Free (s : Table) (k : Key) : Prop := ∀ e ∈ s.entries, e.key ≠ k

theorem mem_entries {s : Table} {e : TransEntry} : e ∈ s.entries ↔ Buckets.Linked s.transTbl e :=
  Buckets.mem_flatMap_finRange

theorem Good.find_eq_none_iff {s : Table} (h : Good H s) {k : Key} :
    Buckets.find (bucketOf H) TransEntry.key s.transTbl k = none ↔ s.Free k := by
  rw [Buckets.Hashed.find_eq_none_iff h]
  exact forall_congr' fun e => by rw [mem_entries]

/-! ## Adding -/

def Table.link (H : Hashes) (s : Table) (e : TransEntry) : Table :=
  ⟨Buckets.push s.transTbl (bucketOf H e.key) e, s.ephemeralOffset + 1⟩

theorem mem_entries_link {s : Table} {e x : TransEntry} :
    x ∈ (s.link H e).entries ↔ x = e ∨ x ∈ s.entries := by
  rw [mem_entries, mem_entries]
  exact Buckets.linked_push

theorem transTableAdd_eq_ok_iff {s s' : Table} (h : Good H s)
    {e : TransEntry} :
    transTableAdd H s e = .ok s' ↔ e.laddr.port ≠ 0 ∧ s.Free e.key ∧ s' = s.link H e := by
  rw [← h.find_eq_none_iff, ← any_conflicts_eq_false_iff, Table.link, ← slot_transHash]
  by_cases hport : e.laddr.port = 0
  · simp [transTableAdd, hport]
  · cases hany : (s.transTbl (slot (transHash H e))).any (conflicts e) with
    | true =>
      simp only [transTableAdd, if_neg hport, hany, if_true]
      exact ⟨fun hc => (nomatch hc), fun hc => (nomatch hc.2.1)⟩
    | false =>
      simp only [transTableAdd, if_neg hport, hany, Bool.false_eq_true, if_false]
      exact ⟨fun hok => ⟨hport, trivial, (Except.ok.inj hok).symm⟩,
        fun hok => congrArg _ hok.2.2.symm⟩

theorem Good.link {s : Table} (h : Good H s) {e : TransEntry} (hfree : s.Free e.key) :
    Good H (s.link H e) :=
  Buckets.Hashed.push h (h.find_eq_none_iff.2 hfree)

theorem Good.keepOnError {s : Table} (h : Good H s)
    {r : Except Errno Table}
    (hr : ∀ s', r = .ok s' → ∃ e, transTableAdd H s e = .ok s') :
    Good H (keepOnError s r) := by
  cases r with
  | error _ => exact h
  | ok s' =>
    obtain ⟨e, he⟩ := hr s' rfl
    obtain ⟨-, hfree, rfl⟩ := (transTableAdd_eq_ok_iff h).1 he
    exact h.link hfree

/-! ## The search for a port -/

@[simp] theorem withPort_withPort (e : TransEntry) (p q : UInt16) :
    (e.withPort p).withPort q = e.withPort q := rfl

/-- The loop stops at the first port that is accepted, or has tried every one. -/
theorem probe_spec (s : Table) (offset : UInt16) (e : TransEntry) (n next : Nat) : (∃ i s', i < n ∧
      transTableAdd H s (e.withPort (ephemeralPort offset (next + i))) = .ok s' ∧
      probe H s offset e n next = (e.withPort (ephemeralPort offset (next + i)), .ok s')) ∨
    ((∀ i < n, ∀ s', transTableAdd H s (e.withPort (ephemeralPort offset (next + i))) ≠ .ok s') ∧
      (probe H s offset e n next).2 = .error .eaddrnotavail) := by
  induction n generalizing e next with
  | zero => exact .inr ⟨fun i hi => absurd hi (Nat.not_lt_zero i), rfl⟩
  | succ n ih =>
    rw [probe]
    cases hadd : transTableAdd H s (e.withPort (ephemeralPort offset next)) with
    | ok s' => exact .inl ⟨0, s', n.succ_pos, hadd, rfl⟩
    | error err =>
      rcases ih (e.withPort (ephemeralPort offset next)) (next + 1) with
        ⟨i, s', hi, hok, heq⟩ | ⟨hall, herr⟩
      · have hnext : next + 1 + i = next + (i + 1) := by omega
        rw [withPort_withPort, hnext] at hok heq
        exact .inl ⟨i + 1, s', Nat.succ_lt_succ hi, hok, heq⟩
      · refine .inr ⟨fun i hi s' => ?_, herr⟩
        cases i with
        | zero =>
          rw [Nat.add_zero, hadd]
          exact fun hc => nomatch hc
        | succ i =>
          have hnext : next + 1 + i = next + (i + 1) := by omega
          have hi' := hall i (Nat.lt_of_succ_lt_succ hi) s'
          rwa [withPort_withPort, hnext] at hi'

theorem numEphemeral_eq : numEphemeral = 16384 := rfl

theorem toNat_ephemeralPort (offset : UInt16) (next : Nat) : (ephemeralPort offset next).toNat =
      minEphemeral + (next + offset.toNat) % numEphemeral := by
  rw [ephemeralPort, UInt16.toNat_ofNat']
  simp only [minEphemeral, numEphemeral_eq]
  omega

theorem exists_ephemeralPort (offset : UInt16) {port : UInt16} (hport : minEphemeral ≤ port.toNat) :
    ∃ i < numEphemeral, ephemeralPort offset i = port := by
  have hlt := port.toNat_lt
  refine ⟨(port.toNat - minEphemeral + (numEphemeral - offset.toNat % numEphemeral)) %
    numEphemeral, Nat.mod_lt _ (by decide), ?_⟩
  rw [← UInt16.toNat_inj, toNat_ephemeralPort]
  simp only [minEphemeral, numEphemeral_eq] at *
  omega

theorem ephemeralPort_range (offset : UInt16) (next : Nat) :
    minEphemeral ≤ (ephemeralPort offset next).toNat ∧
      (ephemeralPort offset next).toNat ≤ maxEphemeral := by
  rw [toNat_ephemeralPort]
  simp only [minEphemeral, maxEphemeral, numEphemeral_eq]
  omega

theorem ephemeralPort_ne_zero (offset : UInt16) (next : Nat) : ephemeralPort offset next ≠ 0 := by
  intro h
  have := (ephemeralPort_range offset next).1
  rw [h] at this
  exact absurd this (by decide)

def Table.PortFree (s : Table) (e : TransEntry) (port : UInt16) : Prop :=
  minEphemeral ≤ port.toNat ∧ port.toNat ≤ maxEphemeral ∧ s.Free (e.withPort port).key

/-- An ephemeral add takes a free port and links the entry under it, or there is none. -/
theorem transTableAddWithEphemeralPort_spec {s : Table} (h : Good H s) (e : TransEntry) :
    (∃ port, s.PortFree e port ∧ transTableAddWithEphemeralPort H s e =
        (e.withPort port, .ok (s.link H (e.withPort port)))) ∨
    ((∀ port, ¬ s.PortFree e port) ∧ (transTableAddWithEphemeralPort H s e).2 =
        .error .eaddrnotavail) := by
  obtain ⟨offset, hoffset⟩ : ∃ offset, transTableAddWithEphemeralPort H s e =
        probe H s offset (e.withPort 0) numEphemeral 0 := ⟨_, rfl⟩
  rw [hoffset]
  rcases probe_spec s offset (e.withPort 0) numEphemeral 0 with ⟨i, s', -, hok, heq⟩ | ⟨hall, herr⟩
  · rw [withPort_withPort, Nat.zero_add] at hok heq
    obtain ⟨-, hfree, rfl⟩ := (transTableAdd_eq_ok_iff h).1 hok
    have hrange := ephemeralPort_range offset i
    exact .inl ⟨ephemeralPort offset i, ⟨hrange.1, hrange.2, hfree⟩, heq⟩
  · refine .inr ⟨?_, herr⟩
    rintro port ⟨hmin, -, hfree⟩
    obtain ⟨i, hi, rfl⟩ := exists_ephemeralPort offset hmin
    refine hall i hi (s.link H (e.withPort (ephemeralPort offset i))) ?_
    rw [withPort_withPort, Nat.zero_add]
    exact (transTableAdd_eq_ok_iff h).2 ⟨ephemeralPort_ne_zero offset i, hfree, rfl⟩

/-! ## Looking up -/

theorem find_matches5tuple (s : Table) (proto : UInt8) (laddr raddr : Netaddr) :
    (s.transTbl (slot (H.transHash5tuple proto laddr raddr))).find?
        (matches5tuple proto laddr raddr) =
      Buckets.find (bucketOf H) TransEntry.key s.transTbl (.fiveTuple proto laddr raddr) := by
  unfold Buckets.find
  congr 1
  funext e
  rw [Bool.eq_iff_iff, matches5tuple_iff, decide_eq_true_iff]

theorem find_matches3tuple (s : Table) (proto : UInt8) (laddr : Netaddr) :
    (s.transTbl (slot (H.transHash3tuple proto laddr))).find? (matches3tuple proto laddr) =
      Buckets.find (bucketOf H) TransEntry.key s.transTbl (.threeTuple proto laddr) := by
  unfold Buckets.find
  congr 1
  funext e
  rw [Bool.eq_iff_iff, matches3tuple_iff, decide_eq_true_iff]

/-- The entry a packet with these addresses belongs to: the connection, else the listener. -/
structure Demuxed (s : Table) (proto : UInt8) (laddr raddr : Netaddr)
    (found : Option TransEntry) : Prop where
  connected : ∀ e ∈ s.entries, e.key = .fiveTuple proto laddr raddr → found = some e
  listening : s.Free (.fiveTuple proto laddr raddr) →
    ∀ e ∈ s.entries, e.key = .threeTuple proto laddr → found = some e
  nobody : s.Free (.fiveTuple proto laddr raddr) → s.Free (.threeTuple proto laddr) → found = none

theorem Good.demuxed {s : Table} (h : Good H s) {m : Packet}
    {reverse : Bool} {laddr raddr : Netaddr} (haddrs : m.addrs reverse = some (laddr, raddr)) :
    Demuxed s m.proto laddr raddr (transLookup H s m reverse) := by
  unfold transLookup
  rw [haddrs]
  simp only
  rw [find_matches5tuple, find_matches3tuple]
  refine ⟨fun e he hk => ?_, fun hfree e he hk => ?_, fun hfree₅ hfree₃ => ?_⟩
  · rw [← hk, Buckets.Hashed.find_eq_some h (mem_entries.1 he)]
  · rw [h.find_eq_none_iff.2 hfree, ← hk]
    exact Buckets.Hashed.find_eq_some h (mem_entries.1 he)
  · rw [h.find_eq_none_iff.2 hfree₅]
    exact h.find_eq_none_iff.2 hfree₃

/-! ## Every run -/

theorem step_good {s s' : Table} {c : Call} (h : Good H s) (hs : step H s c = some s') :
    Good H s' := by
  cases c with
  | add e =>
    cases hs
    exact h.keepOnError fun s' hok => ⟨e, hok⟩
  | addWithEphemeralPort e =>
    cases hs
    rcases transTableAddWithEphemeralPort_spec h e with ⟨port, hfree, heq⟩ | ⟨-, herr⟩
    · rw [heq]
      exact h.link hfree.2.2
    · rw [herr]
      exact h
  | remove e =>
    obtain ⟨-, ⟨⟩⟩ := Option.ite_none_right_eq_some.1 hs
    refine Buckets.Hashed.of_sublist h fun i => List.Sublist.map _ ?_
    by_cases hi : i = slot (transHash H e)
    · subst hi
      simp only [Function.update_self]
      exact List.filter_sublist
    · simp only [Function.update_of_ne hi]
      exact List.Sublist.refl _

end Keys

/-- The keys in the table are distinct; a packet goes to its connection, else to its listener,
else to nobody; an ephemeral add succeeds exactly when a port of the range is free for its key. -/
theorem transport_table_exact (H : Hashes) {s : Table}
    (hs : Reaches (step H) anyStep Table.init s) :
    (s.entries.map TransEntry.key).Nodup ∧
      (∀ (m : Packet) (reverse : Bool), m.addrs reverse = none → transLookup H s m reverse = none) ∧
      (∀ (m : Packet) (reverse : Bool) (laddr raddr : Netaddr),
        m.addrs reverse = some (laddr, raddr) →
        Demuxed s m.proto laddr raddr (transLookup H s m reverse)) ∧
      (∀ e : TransEntry, (∃ s', (transTableAddWithEphemeralPort H s e).2 = .ok s') ↔
          ∃ port, s.PortFree e port) ∧
      (∀ (e e' : TransEntry) (s' : Table), transTableAddWithEphemeralPort H s e = (e', .ok s') →
        ∃ port, s.PortFree e port ∧ e' = e.withPort port ∧
          ∀ x, x ∈ s'.entries ↔ x = e' ∨ x ∈ s.entries) := by
  have hgood : Good H s :=
    hs.invariant (P := Good H) Buckets.hashed_empty fun u c v hu _ hstep => step_good hu hstep
  refine ⟨Buckets.Hashed.nodup_flatMap hgood (List.nodup_finRange _), ?_,
    fun m reverse laddr raddr haddrs => hgood.demuxed haddrs, fun e => ⟨?_, ?_⟩, ?_⟩
  · intro m reverse hnone
    rw [transLookup, hnone]
  · rintro ⟨s', hok⟩
    rcases transTableAddWithEphemeralPort_spec hgood e with ⟨port, hfree, -⟩ | ⟨-, herr⟩
    · exact ⟨port, hfree⟩
    · rw [herr] at hok
      cases hok
  · rintro ⟨port, hfree⟩
    rcases transTableAddWithEphemeralPort_spec hgood e with ⟨port, -, heq⟩ | ⟨hall, -⟩
    · exact ⟨_, by rw [heq]⟩
    · exact absurd hfree (hall port)
  · intro e e' s' hok
    rcases transTableAddWithEphemeralPort_spec hgood e with ⟨port, hfree, heq⟩ | ⟨-, herr⟩
    · rw [heq] at hok
      cases hok
      exact ⟨port, hfree, rfl, fun x => mem_entries_link⟩
    · rw [hok] at herr
      cases herr

/-- A server, a connection of it and two connections to other servers, all in one bucket. -/
def fourEntries : List Call :=
  [.add ⟨1, .threeTuple, 6, ⟨167772161, 80⟩, ⟨0, 0⟩⟩,
    .add ⟨2, .fiveTuple, 6, ⟨167772161, 80⟩, ⟨167772162, 4660⟩⟩,
    .addWithEphemeralPort ⟨3, .fiveTuple, 6, ⟨167772161, 0⟩, ⟨167772162, 80⟩⟩,
    .addWithEphemeralPort ⟨4, .fiveTuple, 6, ⟨167772161, 0⟩, ⟨167772162, 80⟩⟩]

theorem transport_table_listenerAndConn :
    ∃ s, runActions (step ⟨fun _ _ => 5, fun _ _ _ => 5⟩) Table.init fourEntries = some s ∧
      transLookup ⟨fun _ _ => 5, fun _ _ _ => 5⟩ s
        ⟨6, 167772162, 167772161, [18, 52, 0, 80]⟩ false =
          some ⟨2, .fiveTuple, 6, ⟨167772161, 80⟩, ⟨167772162, 4660⟩⟩ := by
  have hrun : (runActions (step ⟨fun _ _ => 5, fun _ _ _ => 5⟩) Table.init fourEntries).map
      (fun s => decide ((⟨2, .fiveTuple, 6, ⟨167772161, 80⟩, ⟨167772162, 4660⟩⟩ : TransEntry) ∈
        s.transTbl (slot 5))) = some true := by decide +kernel
  obtain ⟨s, hs, hmem⟩ := Option.map_eq_some_iff.1 hrun
  refine ⟨s, hs, ?_⟩
  exact ((transport_table_exact _ (reaches_of_runActions hs)).2.2.1
    ⟨6, 167772162, 167772161, [18, 52, 0, 80]⟩ false ⟨167772161, 80⟩ ⟨167772162, 4660⟩
    (by decide)).connected _ (mem_entries.2 ⟨slot 5, of_decide_eq_true hmem⟩) rfl

end Svalinn.Net.Transport
