/-
  Pcc/Framing.lean --- requests on the wire.

  Source: `breakwater/src/util.c` (`tcp_read_full`, `pull_iov`,
  `tcp_writev_full`), `pcc_proto.h` (`struct cpcc_hdr`), `pcc_client.c`
  (`crpc_send_raw`, `crpc_send_request_vector`, `crpc_send_cupdate`) and the
  reading part of `srpc_recv_one` in `pcc_server.c`.

  The client hands scatter-gather vectors to `tcp_writev_full`, which repeats
  `tcp_writev` until everything is written; each `tcp_writev` writes any positive
  number of bytes.  The server reads the byte stream back in chunks that were cut
  independently.

  `Call` and `Cupdate` are the messages.  `srpcServer` reads bytes; `expected`
  says on the messages what it does with them (`srpcServer_eq_expected`).  The
  payload read of a request of length 0 returns 0, which `srpc_recv_one` takes
  for a closed connection.
-/
import Svalinn.Lib.Bytes
import Svalinn.Pcc.Config

set_option autoImplicit false

namespace Svalinn.Pcc

open Svalinn.Lib List

/-! ## The header -/

def reqMagic : UInt32 := 0x63727063

def opCall : UInt32 := 0

def opCredit : UInt32 := 1

/-- `struct cpcc_hdr`. -/
structure CpccHdr where
  magic : UInt32
  op : UInt32
  len : UInt64
  id : UInt64
  demand : UInt64
  tsSent : UInt64
  flags : UInt8
  deriving DecidableEq

/-- `sizeof(struct cpcc_hdr)`. -/
def hdrSize : Nat := 48

/-- The 48 bytes of a header; the seven after `flags` are padding and hold
whatever the stack held. -/
def CpccHdr.encode (h : CpccHdr) (pad : Fin 7 → UInt8) : List UInt8 :=
  leBytes 4 h.magic.toNat ++ (leBytes 4 h.op.toNat ++ (leBytes 8 h.len.toNat ++
    (leBytes 8 h.id.toNat ++ (leBytes 8 h.demand.toNat ++ (leBytes 8 h.tsSent.toNat ++
      (h.flags :: List.ofFn pad))))))

def CpccHdr.decode (bs : List UInt8) : CpccHdr :=
  { magic := UInt32.ofNat (leValue (bs.take 4))
    op := UInt32.ofNat (leValue ((bs.drop 4).take 4))
    len := UInt64.ofNat (leValue (((bs.drop 4).drop 4).take 8))
    id := UInt64.ofNat (leValue ((((bs.drop 4).drop 4).drop 8).take 8))
    demand := UInt64.ofNat (leValue (((((bs.drop 4).drop 4).drop 8).drop 8).take 8))
    tsSent := UInt64.ofNat (leValue ((((((bs.drop 4).drop 4).drop 8).drop 8).drop 8).take 8))
    flags := ((((((bs.drop 4).drop 4).drop 8).drop 8).drop 8).drop 8).headD 0 }

theorem CpccHdr.length_encode (h : CpccHdr) (pad : Fin 7 → UInt8) :
    (h.encode pad).length = hdrSize := by
  simp [CpccHdr.encode, hdrSize]

theorem CpccHdr.decode_encode (h : CpccHdr) (pad : Fin 7 → UInt8) :
    CpccHdr.decode (h.encode pad) = h := by
  have h4 : ∀ x : UInt32, UInt32.ofNat (leValue (leBytes 4 x.toNat)) = x := by
    intro x
    rw [leValue_leBytes_of_lt x.toNat_lt]
    exact UInt32.ofNat_toNat
  have h8 : ∀ x : UInt64, UInt64.ofNat (leValue (leBytes 8 x.toNat)) = x := by
    intro x
    rw [leValue_leBytes_of_lt x.toNat_lt]
    exact UInt64.ofNat_toNat
  simp only [CpccHdr.decode, CpccHdr.encode, take_leBytes_append, drop_leBytes_append, h4, h8,
    headD_cons]

/-! ## Writing -/

/-- `pull_iov`: what is left of the vector after `n` bytes, if anything. -/
def pullIov : List (List UInt8) → Nat → Option (List (List UInt8))
  | [], _ => none
  | v :: rest, n => if n < v.length then some (v.drop n :: rest) else pullIov rest (n - v.length)

/-- `tcp_writev_full`: the bytes that reach the connection.  The `k`-th
`tcp_writev` writes `ns[k]` bytes, at least one and at most what is left, and a
last one the remainder. -/
def tcpWritevFull : List Nat → List (List UInt8) → List UInt8
  | [], iov => iov.flatten
  | n :: ns, iov =>
    let k := min (max n 1) iov.flatten.length
    iov.flatten.take k ++
      match pullIov iov k with
      | none => []
      | some iov' => tcpWritevFull ns iov'

theorem pullIov_some {iov iov' : List (List UInt8)} {n : Nat} (h : pullIov iov n = some iov') :
    iov'.flatten = iov.flatten.drop n := by
  induction iov generalizing n with
  | nil => cases h
  | cons v rest ih =>
    simp only [pullIov] at h
    split at h
    · rename_i hlt
      cases h
      simp [drop_append, Nat.sub_eq_zero_of_le (Nat.le_of_lt hlt)]
    · rename_i hge
      have hv : v.drop n = [] := drop_eq_nil_of_le (Nat.le_of_not_lt hge)
      rw [ih h, flatten_cons, drop_append, hv, nil_append]

theorem pullIov_none {iov : List (List UInt8)} {n : Nat} (h : pullIov iov n = none) :
    iov.flatten.length ≤ n := by
  induction iov generalizing n with
  | nil => exact Nat.zero_le _
  | cons v rest ih =>
    simp only [pullIov] at h
    split at h
    · cases h
    · have hle := ih h
      rw [flatten_cons, length_append]
      omega

/-- However `tcp_writev` splits the vector, the bytes arrive once and in order. -/
theorem tcpWritevFull_eq (ns : List Nat) (iov : List (List UInt8)) :
    tcpWritevFull ns iov = iov.flatten := by
  induction ns generalizing iov with
  | nil => rfl
  | cons n ns ih =>
    simp only [tcpWritevFull]
    split
    · rename_i hpull
      rw [append_nil, take_of_length_le (pullIov_none hpull)]
    · rename_i iov' hpull
      rw [ih, pullIov_some hpull, take_append_drop]

/-! ## Messages -/

/-- A request as it is framed: `cpcc_send_one` refuses payloads over
`SRPC_BUF_SIZE`. -/
structure Call where
  id : UInt64
  payload : List UInt8
  demand : UInt64
  tsSent : UInt64
  pad : Fin 7 → UInt8
  length_le : payload.length ≤ srpcBufSize

def Call.hdr (c : Call) : CpccHdr :=
  { magic := reqMagic, op := opCall, len := UInt64.ofNat c.payload.length, id := c.id
    demand := c.demand, tsSent := c.tsSent, flags := 0 }

/-- `crpc_send_cupdate`; `ts_sent` is left uninitialised. -/
structure Cupdate where
  demand : UInt64
  tsSent : UInt64
  pad : Fin 7 → UInt8

def Cupdate.hdr (c : Cupdate) : CpccHdr :=
  { magic := reqMagic, op := opCredit, len := 0, id := 0, demand := c.demand, tsSent := c.tsSent
    flags := 0 }

/-- One call of `tcp_writev_full` by the client. -/
inductive Transmission where
  /-- `crpc_send_raw` -/
  | raw (c : Call)
  /-- `crpc_send_request_vector` with the requests it takes off the queue -/
  | vector (c : Call) (rest : List Call)

def Transmission.calls : Transmission → List Call
  | .raw c => [c]
  | .vector c rest => c :: rest

/-- The scatter-gather vector: the queued path leaves out an empty payload, the
hot path does not. -/
def Transmission.iov : Transmission → List (List UInt8)
  | .raw c => [c.hdr.encode c.pad, c.payload]
  | .vector c rest =>
    (c :: rest).flatMap fun c =>
      c.hdr.encode c.pad :: if c.payload.length > 0 then [c.payload] else []

def Call.wire (c : Call) : List UInt8 := c.hdr.encode c.pad ++ c.payload

def Cupdate.wire (c : Cupdate) : List UInt8 := c.hdr.encode c.pad

/-- Everything the client writes on a fresh connection: perhaps the credit update
of the very first request, then requests; each write is split on its own. -/
def clientBytes (cupdate : Option Cupdate) (sent : List (Transmission × List Nat)) : List UInt8 :=
  (cupdate.elim [] Cupdate.wire) ++ sent.flatMap fun p => tcpWritevFull p.2 p.1.iov

def sentCalls (sent : List (Transmission × List Nat)) : List Call :=
  sent.flatMap fun p => p.1.calls

theorem Transmission.flatten_iov (t : Transmission) : t.iov.flatten = t.calls.flatMap Call.wire := by
  have hvec : ∀ cs : List Call, (cs.flatMap fun c =>
      c.hdr.encode c.pad :: if c.payload.length > 0 then [c.payload] else []).flatten =
        cs.flatMap Call.wire := by
    intro cs
    induction cs with
    | nil => rfl
    | cons c cs ih =>
      rw [flatMap_cons, flatMap_cons, flatten_append, ih]
      congr 1
      cases hp : c.payload with
      | nil | cons _ _ => simp [Call.wire, hp]
  cases t with
  | raw c => simp [Transmission.iov, Transmission.calls, Call.wire]
  | vector c rest => exact hvec (c :: rest)

theorem clientBytes_eq (cupdate : Option Cupdate) (sent : List (Transmission × List Nat)) :
    clientBytes cupdate sent =
      cupdate.elim [] Cupdate.wire ++ (sentCalls sent).flatMap Call.wire := by
  unfold clientBytes sentCalls
  congr 1
  induction sent with
  | nil => rfl
  | cons p sent ih =>
    rw [flatMap_cons, flatMap_cons, flatMap_append, ih, tcpWritevFull_eq, p.1.flatten_iov]

/-! ## Reading -/

/-- `tcp_read_full`: the return value, the buffer and the rest of the stream;
`none` waits for bytes that have not arrived. -/
def tcpReadFull (cs : List (List UInt8)) (len : Nat) :
    Option (Nat × List UInt8 × List (List UInt8)) :=
  (readExactly (len + 1) len [] cs).map fun p => (p.1.length, p)

/-- `srpc_get_slot`: the lowest available one of the 64. -/
def srpcGetSlot (avail : Nat → Bool) : Option Nat := (List.range maxWindow).find? avail

structure Handed where
  slot : Nat
  id : UInt64
  payload : List UInt8
  deriving DecidableEq

inductive Status where
  | running
  /-- blocked in `tcp_read`, session open -/
  | waiting
  /-- `srpc_recv_one` returned `-EIO` -/
  | eio
  /-- `srpc_recv_one` returned `-EINVAL` -/
  | einval
  /-- a `BUG_ON` fired -/
  | bug
  deriving DecidableEq

/-- The receiver: the bytes not read yet, `s->demand`, how many CALL headers were
read, and the requests handed to slots. -/
structure Receiver where
  chunks : List (List UInt8)
  demand : UInt64
  calls : Nat
  handed : List Handed
  status : Status

/-- `srpc_recv_one` from `again:` to the next message.  `avail k` is the bitmap of
available slots when the `k`-th CALL header has been read. -/
def srpcRecvOne (avail : Nat → Nat → Bool) (r : Receiver) : Receiver :=
  match tcpReadFull r.chunks hdrSize with
  | none => { r with status := .waiting }
  | some (_, hdrBytes, cs) =>
    let chdr := CpccHdr.decode hdrBytes
    if chdr.magic ≠ reqMagic then { r with status := .einval }
    else if chdr.len.toNat > srpcBufSize then { r with status := .einval }
    else if chdr.op = opCall then
      match srpcGetSlot (avail r.calls) with
      | none =>
        -- no slot: the payload is read into a scratch buffer and forgotten
        match tcpReadFull cs chdr.len.toNat with
        | none => { r with chunks := cs, status := .waiting }
        | some (_, _, cs') => { r with chunks := cs', calls := r.calls + 1 }
      | some idx =>
        match tcpReadFull cs chdr.len.toNat with
        | none => { r with chunks := cs, status := .waiting }
        | some (ret, payload, cs') =>
          if ret ≤ 0 then { r with chunks := cs', status := .eio }
          else
            { r with chunks := cs', demand := chdr.demand, calls := r.calls + 1
                     handed := r.handed ++ [⟨idx, chdr.id, payload⟩] }
    else if chdr.op = opCredit then
      if chdr.len ≠ 0 then { r with status := .einval }
      else if r.demand > 0 then { r with status := .bug }
      else { r with chunks := cs, demand := chdr.demand }
    else { r with status := .einval }

/-- The receive loop of `srpc_server`. -/
def srpcServer (avail : Nat → Nat → Bool) : (fuel : Nat) → Receiver → Receiver
  | 0, r => r
  | fuel + 1, r =>
    let r' := srpcRecvOne avail r
    if r'.status = .running then srpcServer avail fuel r' else r'

def receiverInit (chunks : List (List UInt8)) : Receiver :=
  { chunks := chunks, demand := 0, calls := 0, handed := [], status := .running }

/-- What the receiver makes of the requests, said on the messages: the requests
handed to slots and the status it ends in. -/
def expected (avail : Nat → Nat → Bool) : Nat → List Call → List Handed × Status
  | _, [] => ([], .waiting)
  | k, c :: cs =>
    match srpcGetSlot (avail k) with
    | none => expected avail (k + 1) cs
    | some idx =>
      if c.payload = [] then ([], .eio)
      else
        let e := expected avail (k + 1) cs
        (⟨idx, c.id, c.payload⟩ :: e.1, e.2)

theorem expected_cons (avail : Nat → Nat → Bool) (k : Nat) (c : Call) (cs : List Call) :
    expected avail k (c :: cs) =
      match srpcGetSlot (avail k) with
      | none => expected avail (k + 1) cs
      | some idx =>
        if c.payload = [] then ([], .eio)
        else
          (⟨idx, c.id, c.payload⟩ :: (expected avail (k + 1) cs).1, (expected avail (k + 1) cs).2) :=
  rfl

theorem tcpReadFull_of_le {cs : List (List UInt8)} {len : Nat} (hcs : Chunked cs)
    (hlen : len ≤ cs.flatten.length) :
    ∃ cs', tcpReadFull cs len = some (len, cs.flatten.take len, cs') ∧
      cs'.flatten = cs.flatten.drop len ∧ Chunked cs' := by
  obtain ⟨cs', hread, hrest, hcs'⟩ :=
    @readExactly_of_le UInt8 (len + 1) len [] cs hcs (Nat.zero_le len) (Nat.lt_succ_self len)
      (by rw [length_nil, Nat.zero_add]; exact hlen)
  refine ⟨cs', ?_, hrest, hcs'⟩
  simp only [tcpReadFull, hread, nil_append, length_nil, Nat.sub_zero, Option.map_some,
    length_take, Nat.min_eq_left hlen]

theorem tcpReadFull_append {cs : List (List UInt8)} {a b : List UInt8} (hcs : Chunked cs)
    (h : cs.flatten = a ++ b) :
    ∃ cs', tcpReadFull cs a.length = some (a.length, a, cs') ∧ cs'.flatten = b ∧ Chunked cs' := by
  obtain ⟨cs', hread, hrest, hcs'⟩ :=
    tcpReadFull_of_le hcs (show a.length ≤ cs.flatten.length by rw [h, length_append]; omega)
  refine ⟨cs', ?_, ?_, hcs'⟩
  · rw [hread, h, take_left]
  · rw [hrest, h, drop_left]

theorem tcpReadFull_blocks {cs : List (List UInt8)} {len : Nat} (hcs : Chunked cs)
    (hlen : cs.flatten.length < len) : tcpReadFull cs len = none := by
  unfold tcpReadFull
  rw [readExactly_blocks hcs (by simpa using hlen)]
  rfl

theorem Call.len_toNat (c : Call) : c.hdr.len.toNat = c.payload.length := by
  have hlt : c.payload.length < 2 ^ 64 := Nat.lt_of_le_of_lt c.length_le (by decide)
  exact UInt64.toNat_ofNat_of_lt' hlt

/-- One request: with a free slot and a payload it is handed over, without a slot
it is forgotten, and without a payload the session ends. -/
theorem srpcRecvOne_call (avail : Nat → Nat → Bool) {r : Receiver} {c : Call} {b : List UInt8}
    (hcs : Chunked r.chunks) (hb : r.chunks.flatten = c.wire ++ b) :
    ∃ cs', cs'.flatten = b ∧ Chunked cs' ∧ srpcRecvOne avail r =
      match srpcGetSlot (avail r.calls) with
      | none => { r with chunks := cs', calls := r.calls + 1 }
      | some idx =>
        if c.payload = [] then { r with chunks := cs', status := .eio }
        else { r with chunks := cs', demand := c.demand, calls := r.calls + 1
                      handed := r.handed ++ [⟨idx, c.id, c.payload⟩] } := by
  have hb' : r.chunks.flatten = c.hdr.encode c.pad ++ (c.payload ++ b) := by
    rw [hb, Call.wire, append_assoc]
  obtain ⟨cs, hread, hrest, hcs⟩ := tcpReadFull_append hcs hb'
  obtain ⟨cs', hread', hrest', hcs'⟩ := tcpReadFull_append hcs hrest
  rw [c.hdr.length_encode] at hread
  have hlen := c.len_toNat
  have hle : ¬ c.payload.length > srpcBufSize := Nat.not_lt_of_le c.length_le
  have hmagic : c.hdr.magic = reqMagic := rfl
  have hop : c.hdr.op = opCall := rfl
  refine ⟨cs', hrest', hcs', ?_⟩
  unfold srpcRecvOne
  simp only [hread, CpccHdr.decode_encode, hmagic, ne_eq, not_true_eq_false, if_false, hle, hop,
    if_true, hlen, hread']
  cases srpcGetSlot (avail r.calls) with
  | none => rfl
  | some idx =>
    by_cases hp : c.payload = []
    · simp [hp]
    · have hpos : ¬ c.payload.length ≤ 0 := by
        intro hz
        exact hp (eq_nil_of_length_eq_zero (Nat.le_zero.1 hz))
      simp only [hpos, hp, if_false]
      rfl

theorem srpcRecvOne_cupdate (avail : Nat → Nat → Bool) {r : Receiver} {c : Cupdate}
    {b : List UInt8} (hcs : Chunked r.chunks) (hb : r.chunks.flatten = c.wire ++ b)
    (hdemand : r.demand = 0) :
    ∃ cs', cs'.flatten = b ∧ Chunked cs' ∧
      srpcRecvOne avail r = { r with chunks := cs', demand := c.demand } := by
  obtain ⟨cs', hread, hrest, hcs'⟩ := tcpReadFull_append hcs hb
  rw [Cupdate.wire, c.hdr.length_encode] at hread
  refine ⟨cs', hrest, hcs', ?_⟩
  have hmagic : c.hdr.magic = reqMagic := rfl
  have hlen : c.hdr.len = 0 := rfl
  have hop : c.hdr.op = opCredit := rfl
  have hne : ¬ opCredit = opCall := by decide
  unfold srpcRecvOne
  simp only [hread, CpccHdr.decode_encode, hmagic, ne_eq, not_true_eq_false, if_false, hlen, hop,
    hne, if_true, hdemand]
  rfl

theorem srpcRecvOne_empty {avail : Nat → Nat → Bool} {r : Receiver} (hcs : Chunked r.chunks)
    (hb : r.chunks.flatten = []) : srpcRecvOne avail r = { r with status := .waiting } := by
  unfold srpcRecvOne
  rw [tcpReadFull_blocks hcs (by rw [hb]; decide)]

/-! ## The session -/

/-- The byte-level receiver does on a stream of requests what `expected` says. -/
theorem srpcServer_eq_expected (avail : Nat → Nat → Bool) {fuel : Nat} {r : Receiver}
    {cs : List Call} (hcs : Chunked r.chunks) (hb : r.chunks.flatten = cs.flatMap Call.wire)
    (hrun : r.status = .running) (hfuel : cs.length < fuel) :
    (srpcServer avail fuel r).handed = r.handed ++ (expected avail r.calls cs).1 ∧
      (srpcServer avail fuel r).status = (expected avail r.calls cs).2 := by
  induction cs generalizing r fuel with
  | nil =>
    obtain ⟨fuel, rfl⟩ : ∃ n, fuel = n + 1 := ⟨fuel - 1, by simp at hfuel; omega⟩
    simp [srpcServer, srpcRecvOne_empty hcs hb, expected]
  | cons c cs ih =>
    obtain ⟨fuel, rfl⟩ : ∃ n, fuel = n + 1 := ⟨fuel - 1, by simp at hfuel; omega⟩
    rw [flatMap_cons] at hb
    have hlt : cs.length < fuel := by simpa using hfuel
    obtain ⟨cs', hrest, hcs', hone⟩ := srpcRecvOne_call avail hcs hb
    rw [srpcServer, expected_cons, hone]
    cases srpcGetSlot (avail r.calls) with
    | none =>
      simp only [hrun, if_true]
      exact ih hcs' hrest rfl hlt
    | some idx =>
      by_cases hp : c.payload = []
      · simp [hp]
      · simp only [hp, if_false, hrun, if_true]
        obtain ⟨hhanded, hstatus⟩ :=
          ih (r := { r with chunks := cs', demand := c.demand, calls := r.calls + 1
                            handed := r.handed ++ [⟨idx, c.id, c.payload⟩] }) hcs' hrest hrun hlt
        refine ⟨?_, ?_⟩
        · rw [hrun] at hhanded
          rw [hhanded, append_assoc]
          rfl
        · rw [hrun] at hstatus
          exact hstatus

def Handed.pair (h : Handed) : UInt64 × List UInt8 := (h.id, h.payload)

def Call.pair (c : Call) : UInt64 × List UInt8 := (c.id, c.payload)

theorem length_expected_le (avail : Nat → Nat → Bool) (k : Nat) (cs : List Call) :
    (expected avail k cs).1.length ≤ cs.length := by
  induction cs generalizing k with
  | nil => exact Nat.le_refl _
  | cons c cs ih =>
    have hrest := ih (k + 1)
    rw [expected_cons]
    cases srpcGetSlot (avail k) with
    | none => exact Nat.le_succ_of_le hrest
    | some idx =>
      by_cases hp : c.payload = []
      · simp [hp]
      · simpa [hp] using hrest

/-- On the messages: everything is handed over and the session stays open exactly
when every request has a payload and finds a slot. -/
theorem expected_complete_iff (avail : Nat → Nat → Bool) (k : Nat) (cs : List Call) :
    ((expected avail k cs).1.map Handed.pair = cs.map Call.pair ∧
        (expected avail k cs).2 = .waiting) ↔
      ∀ j c, cs[j]? = some c → c.payload ≠ [] ∧ (srpcGetSlot (avail (k + j))).isSome := by
  induction cs generalizing k with
  | nil => simp [expected]
  | cons c cs ih =>
    -- the first request, and the others one slot bitmap later
    have hsplit : (∀ j d, (c :: cs)[j]? = some d →
          d.payload ≠ [] ∧ (srpcGetSlot (avail (k + j))).isSome) ↔
        (c.payload ≠ [] ∧ (srpcGetSlot (avail k)).isSome) ∧ ∀ j d, cs[j]? = some d →
            d.payload ≠ [] ∧ (srpcGetSlot (avail (k + 1 + j))).isSome := by
      constructor
      · intro h
        refine ⟨h 0 c rfl, fun j d hd => ?_⟩
        have hj := h (j + 1) d hd
        rwa [show k + (j + 1) = k + 1 + j by omega] at hj
      · rintro ⟨h0, hs⟩ j d hd
        cases j with
        | zero =>
          obtain rfl : c = d := Option.some.inj hd
          exact h0
        | succ j =>
          rw [show k + (j + 1) = k + 1 + j by omega]
          exact hs j d hd
    rw [hsplit, ← ih (k + 1), expected_cons]
    cases hslot : srpcGetSlot (avail k) with
    | none =>
      refine ⟨?_, fun h => absurd h.1.2 (by simp)⟩
      rintro ⟨hpairs, -⟩
      have hlen := congrArg List.length hpairs
      have hle := length_expected_le avail (k + 1) cs
      simp only [length_map, length_cons] at hlen
      omega
    | some idx =>
      by_cases hp : c.payload = []
      · simp [hp]
      · simp [hp, Handed.pair, Call.pair]

/-- However reads and writes are split, the server hands exactly the sent requests to slots, in
order and without ending the session, if and only if every payload is non-empty and a slot is free
for every request. -/
theorem framing_agrees_iff (avail : Nat → Nat → Bool) (cupdate : Option Cupdate)
    (sent : List (Transmission × List Nat)) {chunks : List (List UInt8)} (hcs : Chunked chunks)
    (hwire : chunks.flatten = clientBytes cupdate sent) {fuel : Nat}
    (hfuel : (sentCalls sent).length + 1 < fuel) :
    ((srpcServer avail fuel (receiverInit chunks)).handed.map Handed.pair =
          (sentCalls sent).map Call.pair ∧
        (srpcServer avail fuel (receiverInit chunks)).status = .waiting) ↔
      ∀ k c, (sentCalls sent)[k]? = some c → c.payload ≠ [] ∧ (srpcGetSlot (avail k)).isSome := by
  rw [clientBytes_eq] at hwire
  -- the receiver after the credit update, if there is one
  have hcalls : ∃ r : Receiver, ∃ fuel', (sentCalls sent).length < fuel' ∧ Chunked r.chunks ∧
      r.chunks.flatten = (sentCalls sent).flatMap Call.wire ∧ r.status = .running ∧ r.calls = 0 ∧
      r.handed = [] ∧
      srpcServer avail fuel (receiverInit chunks) = srpcServer avail fuel' r := by
    cases cupdate with
    | none => exact ⟨receiverInit chunks, fuel, by omega, hcs, hwire, rfl, rfl, rfl, rfl⟩
    | some u =>
      obtain ⟨fuel, rfl⟩ : ∃ n, fuel = n + 1 := ⟨fuel - 1, by omega⟩
      obtain ⟨cs', hrest, hcs', hone⟩ :=
        srpcRecvOne_cupdate avail (r := receiverInit chunks) hcs hwire rfl
      refine ⟨{ receiverInit chunks with chunks := cs', demand := u.demand }, fuel, by omega, hcs',
        hrest, rfl, rfl, rfl, ?_⟩
      rw [srpcServer, hone]
      rfl
  obtain ⟨r, fuel', hfuel', hcs', hflat, hrun, hzero, hnil, hsame⟩ := hcalls
  obtain ⟨hhanded, hstatus⟩ := srpcServer_eq_expected avail hcs' hflat hrun hfuel'
  rw [hsame, hhanded, hstatus, hnil, hzero, nil_append, expected_complete_iff]
  simp only [Nat.zero_add]

/-- A request of `payload` with everything else 0. -/
def plainCall (id : UInt64) (payload : List UInt8) (h : payload.length ≤ srpcBufSize) : Call :=
  { id := id, payload := payload, demand := 0, tsSent := 0, pad := fun _ => 0, length_le := h }

/-- Two requests through the queued path, the write split after five bytes. -/
def twoCalls : List (Transmission × List Nat) :=
  [(.vector (plainCall 7 [1, 2] (by decide)) [plainCall 8 [3] (by decide)], [5])]

def twoCallsChunks : List (List UInt8) :=
  let bytes := clientBytes none twoCalls
  [bytes.take 10, (bytes.drop 10).take 50, bytes.drop 60]

theorem framing_agrees_two_calls :
    (srpcServer (fun _ _ => true) 4 (receiverInit twoCallsChunks)).handed.map Handed.pair =
        [(7, [1, 2]), (8, [3])] ∧
      (srpcServer (fun _ _ => true) 4 (receiverInit twoCallsChunks)).status = .waiting := by
  refine (framing_agrees_iff (fun _ _ => true) none twoCalls ?_ ?_ (by decide)).2 ?_
  · unfold Chunked
    decide
  · decide
  · intro k c hc
    match k with
    | 0 =>
      cases hc
      exact ⟨by decide, by decide⟩
    | 1 =>
      cases hc
      exact ⟨by decide, by decide⟩
    | k + 2 => cases hc

def emptyThenOne : List (Transmission × List Nat) :=
  [(.raw (plainCall 7 [] (by decide)), []), (.raw (plainCall 8 [1] (by decide)), [])]

/-- With every slot free, the payload read of the empty request returns 0 and the
session ends with `-EIO`; the request behind it is lost. -/
theorem empty_payload_ends_session :
    (srpcServer (fun _ _ => true) 9 (receiverInit [clientBytes none emptyThenOne])).handed = [] ∧
      (srpcServer (fun _ _ => true) 9 (receiverInit [clientBytes none emptyThenOne])).status =
        .eio := by
  decide

end Svalinn.Pcc
