/-
  Net/IpTx.lean --- who owns an mbuf on its way through IP output and ARP.

  Source: `runtime/net/core.c` (`net_tx_drain_overflow`, `net_tx_raw`, `net_tx_eth`,
  `net_get_ip_route`, `net_tx_local_loopback`, `net_tx_ip`, `net_tx_ip_burst`),
  `runtime/net/arp.c` and `mbuf_push`, `mbuf_pull` of `inc/net/mbuf.h`.

  An mbuf is owned by the list it is in: a caller's, the frame of a call, the queue of an
  ARP entry, an overflow queue of a kthread, or the record of what was given to the device,
  delivered by loopback or freed.  An mbuf in none of them is owned by nobody.

  The read of the table without the lock is two steps, the entry and then its state, and
  `arp_update` shows the entry it inserts before the state is valid; the other sections under
  `arp_lock` change one thing that a reader without the lock can see, and are one step.  The
  worker may age any entry of the table whenever the lock is free.  A `BUG_ON` that fails
  stops the program.  The identity of an mbuf or an entry is that of its allocation.
-/
import Svalinn.Lib.Owners
import Svalinn.Net.ArpEntry
import Svalinn.Net.Mbuf

set_option autoImplicit false

namespace Svalinn.Net.IpTx

open Svalinn.Lib Function

/-! ## The model -/

/-- The mbuf of `arp_send`: `MBUF_DEFAULT_HEADROOM` and the two ARP headers. -/
def arpMbuf : Extent := ⟨128, 28⟩

/-- An IP address. -/
abbrev Ip := BitVec 32

/-- An Ethernet address. -/
abbrev Eth := BitVec 48

/-- `netcfg`, and the hash function of the table. -/
structure NetCfg where
  addr : Ip
  netmask : Ip
  gateway : Ip
  hash : Ip → BitVec 32

/-- `hash_ip`. -/
def hashIp (cfg : NetCfg) (ip : Ip) : Nat := (cfg.hash ip).toNat % 1024

/-- `net_get_ip_route`. -/
def netGetIpRoute (cfg : NetCfg) (daddr : Ip) : Ip :=
  if daddr &&& cfg.netmask ≠ cfg.addr &&& cfg.netmask then cfg.gateway else daddr

/-- `struct arp_entry`, without its queue. -/
structure Entry extends ArpAge where
  ip : Ip
  eth : Eth
  deriving DecidableEq

/-- The function that was called. -/
inductive Kind where
  | ip (proto : BitVec 8)
  | burst
  /-- `arp_lookup` called by itself -/
  | lookup
  deriving DecidableEq

/-- 0, `-ENOMEM` and `-EINPROGRESS`. -/
inductive Ret where
  | ok
  | noMem
  | inProgress
  deriving DecidableEq

/-- A call: its mbufs, the address `arp_lookup` gets, and the mbufs as they were before. -/
structure Call (M : Type) where
  kind : Kind
  ms : List M
  daddr : Ip
  before : List Extent
  deriving DecidableEq

/-- With this result the mbufs of the call stay with the caller. -/
def Call.kept {M : Type} (c : Call M) (r : Ret) : Bool :=
  if c.kind = .lookup then r ≠ .inProgress else r ≠ .ok

/-- The mbufs as `arp_lookup` gets them. -/
def Call.pushed {M : Type} (c : Call M) : List Extent :=
  if c.kind = .lookup then c.before else c.before.map (Extent.push ipHdrLen)

/-- Where a thread is in a call. -/
inductive Phase (E M : Type) where
  | idle
  /-- `net_tx_local_loopback` -/
  | loopback (c : Call M)
  /-- `arp_lookup`: before the look at the table, and with the entry it found -/
  | look (c : Call M)
  | found (c : Call M) (e : E)
  /-- no entry: before `arp_send` and `create_entry` -/
  | cold (c : Call M)
  /-- before `arp_lock` -/
  | enqueue (c : Call M) (newe : Option E)
  | send (c : Call M) (dhost : Eth) (rest : List M)
  | returned (c : Call M) (r : Ret)
  /-- `arp_update`: before the lock, and under it -/
  | update (daddr : Ip) (dhost : Eth)
  | updateEth (e : E) (dhost : Eth)
  | updateState (e : E) (dhost : Eth)
  | updateMerge (e : E) (dhost : Eth)
  | drain (dhost : Eth) (q : List M)
  deriving DecidableEq

/-- The mbufs that are the call's to dispose of. -/
def Phase.callMbufs {E M : Type} : Phase E M → List M
  | .loopback c | .look c | .found c _ | .cold c | .enqueue c _ => c.ms
  | .send _ _ rest => rest
  | .returned c r => if c.kept r then c.ms else []
  | _ => []

/-- The local queue of `arp_update`. -/
def Phase.drainMbufs {E M : Type} : Phase E M → List M
  | .drain _ q => q
  | _ => []

/-- Where an mbuf can be. -/
inductive Place (T E K : Type) where
  | caller
  | call (t : T)
  | drain (t : T)
  | queue (e : E)
  | overflow (k : K)
  | device
  | loopback
  | freed
  deriving DecidableEq

/-- The mbufs with their extents and their places, the threads and the table. -/
structure State (T E M K : Type) where
  hdr : M → Extent
  active : M → Bool
  caller : List M
  phase : T → Phase E M
  lock : Option T
  tbl : Nat → List E
  used : E → Bool
  entry : E → Entry
  q : E → List M
  /-- `txpktq_overflow` -/
  overflow : K → List M
  device : List M
  /-- freed after a copy was handed to a thread that runs `net_rx_trans` -/
  delivered : List M
  freed : List M
  /-- the mbufs of the calls that have returned and did not leave them with the caller -/
  given : List M

/-- The kthread of a transmission, how many packets of its overflow queue `tx_single` takes
before it refuses one, and whether it takes the new packet. -/
structure Tx (K : Type) where
  k : K
  n : Nat
  accept : Bool
  deriving DecidableEq

section Model

variable {T E M K : Type} [DecidableEq T] [DecidableEq E] [DecidableEq M] [DecidableEq K]

/-- The mbufs at a place. -/
def State.held (s : State T E M K) : Place T E K → List M
  | .caller => s.caller
  | .call t => (s.phase t).callMbufs
  | .drain t => (s.phase t).drainMbufs
  | .queue e => s.q e
  | .overflow k => s.overflow k
  | .device => s.device
  | .loopback => s.delivered
  | .freed => s.freed

/-- The thread `t` goes on at `p`. -/
def State.goto (s : State T E M K) (t : T) (p : Phase E M) : State T E M K :=
  { s with phase := update s.phase t p }

/-- A header is pushed on or pulled off each of `ms`. -/
def State.adjust (s : State T E M K) (ms : List M) (f : Extent → Extent) : State T E M K :=
  { s with hdr := fun m => if m ∈ ms then f (s.hdr m) else s.hdr m }

/-- The call returns `r`. -/
def State.ret (s : State T E M K) (t : T) (c : Call M) (r : Ret) : State T E M K :=
  { s with given := if c.kept r then s.given else c.ms ++ s.given }.goto t (.returned c r)

/-- `net_tx_drain_overflow`: the device takes `n` packets of the queue. -/
def State.netTxDrainOverflow (s : State T E M K) (k : K) (n : Nat) : State T E M K :=
  { s with
    overflow := update s.overflow k ((s.overflow k).drop n)
    device := (s.overflow k).take n ++ s.device }

/-- `net_tx_raw` after the overflow queue was drained. -/
def State.txSingle (s : State T E M K) (tx : Tx K) (m : M) : State T E M K :=
  if s.overflow tx.k = [] ∧ tx.accept = true then { s with device := m :: s.device }
  else { s with overflow := update s.overflow tx.k (s.overflow tx.k ++ [m]) }

/-- `net_tx_raw`. -/
def State.netTxRaw (s : State T E M K) (tx : Tx K) (m : M) : State T E M K :=
  (s.netTxDrainOverflow tx.k tx.n).txSingle tx m

/-- `net_tx_eth`, which pushes the Ethernet header. -/
def State.netTxEth (s : State T E M K) (tx : Tx K) (m : M) : Option (State T E M K) :=
  if ethHdrLen ≤ (s.hdr m).data then some ((s.adjust [m] (Extent.push ethHdrLen)).netTxRaw tx m)
  else none

/-- `arp_send`; `req` is the answer of `net_tx_alloc_mbuf`. -/
def State.arpSend (s : State T E M K) (req : Option M) (tx : Tx K) : Option (State T E M K) :=
  match req with
  | none => some s
  | some m =>
    if s.active m = false then
      { s with
        active := update s.active m true
        hdr := update s.hdr m arpMbuf }.netTxEth tx m
    else none

/-- `lookup_entry`. -/
def State.lookupEntry (s : State T E M K) (cfg : NetCfg) (daddr : Ip) : Option E :=
  (s.tbl (hashIp cfg daddr)).find? fun e => (s.entry e).ip = daddr

/-- `create_entry` with the memory at `e`; the Ethernet address is not set yet. -/
def State.createEntry (s : State T E M K) (e : E) (daddr : Ip) (now : BitVec 64) :
    Option (State T E M K) :=
  if s.used e = false then
    some { s with
      used := update s.used e true
      entry := update s.entry e ⟨⟨.probing, now, arpRetries⟩, daddr, (s.entry e).eth⟩
      q := update s.q e [] }
  else none

/-- `insert_entry`, as far as the table goes. -/
def State.insertEntry (s : State T E M K) (e : E) (i : Nat) : State T E M K :=
  { s with tbl := update s.tbl i (e :: s.tbl i) }

/-- The fields of an entry are written. -/
def State.setEntry (s : State T E M K) (e : E) (a : Entry) : State T E M K :=
  { s with entry := update s.entry e a }

/-- `mbufq_push_tail` on the queue of an entry. -/
def State.pushTail (s : State T E M K) (e : E) (ms : List M) : State T E M K :=
  { s with q := update s.q e (s.q e ++ ms) }

/-- `mbuf_free` of each of `ms`. -/
def State.mbufFree (s : State T E M K) (ms : List M) : State T E M K :=
  { s with freed := ms ++ s.freed }

/-- `delete_entry`, which frees what is queued. -/
def State.deleteEntry (s : State T E M K) (cfg : NetCfg) (e : E) : State T E M K :=
  { s with
    tbl := update s.tbl (hashIp cfg (s.entry e).ip) ((s.tbl (hashIp cfg (s.entry e).ip)).erase e)
    q := update s.q e []
    freed := s.q e ++ s.freed }

/-- `arp_age_entry`; `stamp` is the time after the probe is sent. -/
def State.arpAgeEntry (s : State T E M K) (cfg : NetCfg) (e : E) (now stamp : BitVec 64)
    (req : Option M) (tx : Tx K) : Option (State T E M K) :=
  match Net.arpAgeEntry now stamp (s.entry e).toArpAge with
  | .deleted => some (s.deleteEntry cfg e)
  | .kept => some s
  | .probed a => (s.setEntry e { s.entry e with toArpAge := a }).arpSend req tx

/-- What `arp_lookup` answers. -/
inductive Answer where
  | dhost (a : Eth)
  | noMem
  | inProgress
  deriving DecidableEq

/-- The caller of `arp_lookup` with its answer. -/
def State.answer (s : State T E M K) (t : T) (c : Call M) (a : Answer) : State T E M K :=
  match c.kind, a with
  | .lookup, .dhost _ => s.ret t c .ok
  | .lookup, .noMem => s.ret t c .noMem
  | .lookup, .inProgress => s.ret t c .inProgress
  | _, .dhost a => s.goto t (.send c a c.ms)
  | _, .inProgress => s.ret t c .ok
  | _, .noMem => (s.adjust c.ms (Extent.pull ipHdrLen)).ret t c .noMem

/-- The end of `arp_lookup` under the lock: `m`, the first mbuf, is queued on `e`. -/
def State.queueFirst (s : State T E M K) (t : T) (c : Call M) (e : E) : State T E M K :=
  (s.pushTail e (c.ms.take 1)).answer t c .inProgress

/-- `arp_lookup` from `spin_lock_np` on. -/
def State.lookupLocked (s : State T E M K) (cfg : NetCfg) (t : T) (c : Call M)
    (newe : Option E) : State T E M K :=
  match s.lookupEntry cfg c.daddr, newe with
  | some e, _ =>
    if (s.entry e).state ≠ .probing then s.answer t c (.dhost (s.entry e).eth)
    else s.queueFirst t c e
  | none, some e => (s.insertEntry e (hashIp cfg c.daddr)).queueFirst t c e
  | none, none => (s.mbufFree (c.ms.take 1)).answer t c .inProgress

/-- `arp_update` from `spin_lock_np` to the test of the state. -/
def State.updateLocked (s : State T E M K) (cfg : NetCfg) (t : T) (daddr : Ip) (dhost : Eth)
    (newe : Option E) (now : BitVec 64) : Option (State T E M K) :=
  match s.lookupEntry cfg daddr, newe with
  | some e, _ =>
    if (s.entry e).state = .static then some (s.goto t .idle)
    else some ({ s with lock := some t }.goto t (.updateEth e dhost))
  | none, none => some (s.goto t .idle)
  | none, some e =>
    (s.createEntry e daddr now).map fun s =>
      { s.insertEntry e (hashIp cfg daddr) with lock := some t }.goto t (.updateEth e dhost)

/-- `net_tx_local_loopback`: a thread gets a copy, if there is memory for both. -/
def State.netTxLocalLoopback (s : State T E M K) (t : T) (c : Call M) (proto : BitVec 8)
    (copied spawned : Bool) : State T E M K :=
  if copied = false then s.ret t c .noMem
  else if (proto = 17 ∨ proto = 6) ∧ spawned = true then
    { s with delivered := c.ms ++ s.delivered }.ret t c .ok
  else (s.mbufFree c.ms).ret t c .ok

/-- The mbufs go from the caller to a call, which pushes the IP header of each. -/
def State.begin (s : State T E M K) (c : Call M) : State T E M K :=
  let s := { s with caller := s.caller.filter (· ∉ c.ms) }
  if c.kind = .lookup then s else s.adjust c.ms (Extent.push ipHdrLen)

/-- The mbufs are the caller's, and have room for the IP header. -/
def State.CanCall (s : State T E M K) (kind : Kind) (ms : List M) : Prop :=
  ms.Nodup ∧ (∀ m ∈ ms, m ∈ s.caller) ∧ ∀ m ∈ ms, kind ≠ .lookup → ipHdrLen ≤ (s.hdr m).data

instance (s : State T E M K) (kind : Kind) (ms : List M) : Decidable (s.CanCall kind ms) := by
  unfold State.CanCall
  infer_instance

/-- The steps of callers, of calls, and of the worker. -/
inductive Event (T E M K : Type) where
  | alloc (m : M) (h : Extent)
  | edit (m : M) (h : Extent)
  | free (m : M)
  | netTxIp (t : T) (m : M) (proto : BitVec 8) (daddr : Ip)
  | netTxIpBurst (t : T) (ms : List M) (daddr : Ip)
  | arpLookup (t : T) (m : Option M) (daddr : Ip)
  /-- `smalloc` gives the memory for the copy, and `thread_spawn` succeeds -/
  | loopback (t : T) (copied spawned : Bool)
  | lookup (t : T)
  | loadState (t : T)
  | solicit (t : T) (req : Option M) (tx : Tx K) (newe : Option E) (now : BitVec 64)
  | lookupLocked (t : T)
  | transmit (t : T) (tx : Tx K)
  | resume (t : T)
  | arpUpdate (t : T) (daddr : Ip) (dhost : Eth)
  | updateLocked (t : T) (newe : Option E) (now : BitVec 64)
  | updateEth (t : T) (now : BitVec 64)
  | updateState (t : T)
  | updateMerge (t : T)
  | drain (t : T) (tx : Tx K)
  | age (e : E) (now stamp : BitVec 64) (req : Option M) (tx : Tx K)
  | drainOverflow (k : K) (n : Nat)
  /-- `arp_init_late` at a static entry -/
  | initStatic (e : E) (ip : Ip) (eth : Eth) (now : BitVec 64)

/-- An idle thread begins a call. -/
def State.call (s : State T E M K) (t : T) (c : Call M) (p : Phase E M) :
    Option (State T E M K) :=
  if s.phase t = .idle ∧ s.CanCall c.kind c.ms then some ((s.begin c).goto t p) else none

/-- One step; `none` is a step that cannot be taken, or a `BUG_ON`. -/
def step (cfg : NetCfg) (s : State T E M K) : Event T E M K → Option (State T E M K)
  | .alloc m h =>
    if s.active m = false then
      some { s with
        active := update s.active m true
        hdr := update s.hdr m h
        caller := m :: s.caller }
    else none
  | .edit m h => if m ∈ s.caller then some { s with hdr := update s.hdr m h } else none
  | .free m =>
    if m ∈ s.caller then some ({ s with caller := s.caller.erase m }.mbufFree [m]) else none
  | .netTxIp t m proto daddr =>
    -- the packets to the own address do not reach the ARP code
    if daddr = cfg.addr then
      let c : Call M := ⟨.ip proto, [m], daddr, [s.hdr m]⟩
      s.call t c (.loopback c)
    else
      let c : Call M := ⟨.ip proto, [m], netGetIpRoute cfg daddr, [s.hdr m]⟩
      s.call t c (.look c)
  | .netTxIpBurst t ms daddr =>
    let c : Call M := ⟨.burst, ms, netGetIpRoute cfg daddr, ms.map s.hdr⟩
    if ms ≠ [] then s.call t c (.look c) else none
  | .arpLookup t m daddr =>
    let c : Call M := ⟨.lookup, m.toList, daddr, m.toList.map s.hdr⟩
    s.call t c (.look c)
  | .loopback t copied spawned =>
    match s.phase t with
    | .loopback ⟨.ip proto, ms, daddr, before⟩ =>
      some (s.netTxLocalLoopback t ⟨.ip proto, ms, daddr, before⟩ proto copied spawned)
    | _ => none
  | .lookup t =>
    match s.phase t with
    | .look c =>
      match s.lookupEntry cfg c.daddr with
      | some e => some (s.goto t (.found c e))
      | none => some (s.goto t (.cold c))
    | _ => none
  | .loadState t =>
    match s.phase t with
    | .found c e =>
      if (s.entry e).state ≠ .probing then some (s.answer t c (.dhost (s.entry e).eth))
      else some (s.goto t (.enqueue c none))
    | _ => none
  | .solicit t req tx newe now =>
    match s.phase t with
    | .cold c =>
      (s.arpSend req tx).bind fun s =>
        match newe with
        | none => some (s.answer t c .noMem)
        | some e => (s.createEntry e c.daddr now).map (·.goto t (.enqueue c (some e)))
    | _ => none
  | .lookupLocked t =>
    match s.phase t with
    | .enqueue c newe => if s.lock = none then some (s.lookupLocked cfg t c newe) else none
    | _ => none
  | .transmit t tx =>
    match s.phase t with
    | .send c dhost (m :: rest) => (s.netTxEth tx m).map (·.goto t (.send c dhost rest))
    | .send c _ [] => some (s.ret t c .ok)
    | _ => none
  | .resume t =>
    match s.phase t with
    | .returned _ _ =>
      some ({ s with caller := (s.phase t).callMbufs ++ s.caller }.goto t .idle)
    | _ => none
  | .arpUpdate t daddr dhost =>
    if s.phase t = .idle then some (s.goto t (.update daddr dhost)) else none
  | .updateLocked t newe now =>
    match s.phase t with
    | .update daddr dhost =>
      if s.lock = none then s.updateLocked cfg t daddr dhost newe now else none
    | _ => none
  | .updateEth t now =>
    match s.phase t with
    | .updateEth e dhost =>
      some ((s.setEntry e { s.entry e with eth := dhost, ts := now }).goto t (.updateState e dhost))
    | _ => none
  | .updateState t =>
    match s.phase t with
    | .updateState e dhost =>
      some ((s.setEntry e { s.entry e with state := .valid }).goto t (.updateMerge e dhost))
    | _ => none
  | .updateMerge t =>
    match s.phase t with
    | .updateMerge e dhost =>
      some ({ s with q := update s.q e [], lock := none }.goto t (.drain dhost (s.q e)))
    | _ => none
  | .drain t tx =>
    match s.phase t with
    | .drain dhost (m :: q) => (s.netTxEth tx m).map (·.goto t (.drain dhost q))
    | .drain _ [] => some (s.goto t .idle)
    | _ => none
  | .age e now stamp req tx =>
    if s.lock = none ∧ e ∈ s.tbl (hashIp cfg (s.entry e).ip) then
      s.arpAgeEntry cfg e now stamp req tx
    else none
  | .drainOverflow k n => some (s.netTxDrainOverflow k n)
  | .initStatic e ip eth now =>
    if s.lock = none then
      (s.createEntry e ip now).map fun s =>
        (s.setEntry e { s.entry e with eth := eth, state := .static }).insertEntry e (hashIp cfg ip)
    else none

/-- Nothing is allocated and the table is empty. -/
def init : State T E M K where
  hdr := fun _ => ⟨0, 0⟩
  active := fun _ => false
  caller := []
  phase := fun _ => .idle
  lock := none
  tbl := fun _ => []
  used := fun _ => false
  entry := fun _ => ⟨⟨.probing, 0, 0⟩, 0, 0⟩
  q := fun _ => []
  overflow := fun _ => []
  device := []
  delivered := []
  freed := []
  given := []

/-! ## What the calls promise -/

def Place.taken : Place T E K → Bool
  | .caller | .call _ => false
  | _ => true

def Allowed : Place T E K → Place T E K → Prop
  | .caller, .call _ | .caller, .freed | .call _, .caller => True
  | .call _, b => b.taken = true ∧ ∀ u, b ≠ .drain u
  | .queue _, .drain _ | .queue _, .freed => True
  | .drain _, .overflow _ | .drain _, .device => True
  | .overflow _, .device => True
  | _, _ => False

def TakenIn (s : State T E M K) (m : M) : Prop := ∃ p : Place T E K, p.taken = true ∧ m ∈ s.held p

def Phase.atRest : Phase E M → Bool
  | .idle | .returned _ _ => true
  | _ => false

def Quiescent (s : State T E M K) : Prop := ∀ t, (s.phase t).atRest = true

/-- The device has the mbuf (or will, from an overflow queue), loopback has delivered it, it is
freed, or it is queued on an ARP entry. -/
def Place.settled : Place T E K → Bool
  | .caller | .call _ | .drain _ => false
  | _ => true

/-- Who owns the mbufs: each one exactly one list; a queued one an entry of the table; and
those of a call that left them with its caller start where they did before the call. -/
structure Owned (cfg : NetCfg) (s : State T E M K) : Prop where
  once : HeldOnce s.held s.active
  queued : ∀ e m, m ∈ s.q e → e ∈ s.tbl (hashIp cfg (s.entry e).ip)
  given : ∀ m ∈ s.given, TakenIn s m
  returned : ∀ t c r, s.phase t = .returned c r → c.kept r = true → c.ms.map s.hdr = c.before

/-- The two steps with which a call loses track of what it was given: there is no memory for
the copy of a loopback packet, and `arp_lookup` takes the first of several mbufs. -/
def State.drops (s : State T E M K) (cfg : NetCfg) : Event T E M K → Bool
  | .loopback t copied _ =>
    match s.phase t with
    | .loopback _ => !copied
    | _ => false
  | .lookupLocked t =>
    match s.phase t with
    | .enqueue c _ =>
      decide (2 ≤ c.ms.length) &&
        (s.lookupEntry cfg c.daddr).all fun e => decide ((s.entry e).state = .probing)
    | _ => false
  | _ => false

def Careful (cfg : NetCfg) (s : State T E M K) (ev : Event T E M K) : Prop :=
  s.drops cfg ev = false

end Model

end Svalinn.Net.IpTx
