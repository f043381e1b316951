/-
  Iokernel/Descriptors.lean --- the checks on a runtime's shared-memory descriptors.

  Source: `inc/iokernel/shm.h` (`shmptr_to_ptr`, `shm_init_lrpc_in`, `shm_init_lrpc_out`),
  `base/lrpc.c` (`lrpc_init_in`, `lrpc_init_out`), `iokernel/control.c`
  (`control_init_hwq`, `control_create_proc`) and `iokernel/defs.h` (`hwq_busy`).

  The header and the thread specs are copied out of the region before they are looked at,
  so they are values here; every field is under the runtime's control.  All lengths and
  sums wrap at the width of the type the source computes them in.
-/
import Mathlib.Algebra.Group.Nat.Defs
import Mathlib.Data.List.Basic
import Mathlib.Data.Option.Basic

set_option autoImplicit false

namespace Svalinn.Iokernel.Descriptors

def ncpu : Nat := 256
def controlHdrMagic : UInt32 := 0x696f6b3a
def controlHdrVersion : UInt32 := 10

/-! ## What the runtime writes -/

/-- `struct queue_spec`. -/
structure QueueSpec where
  msgCount : UInt64
  msgBuf : UInt64
  wb : UInt64
  deriving DecidableEq

/-- `struct hardware_queue_spec`. -/
structure HardwareQueueSpec where
  descriptorTable : UInt64
  consumerIdx : UInt64
  descriptorLogSize : UInt32
  nrDescriptors : UInt32
  parityByteOffset : UInt32
  parityBitMask : UInt32
  hwqType : UInt32
  deriving DecidableEq

/-- `struct thread_spec`, without the fields that are only stored. -/
structure ThreadSpec where
  rxq : QueueSpec
  txpktq : QueueSpec
  txcmdq : QueueSpec
  qPtrs : UInt64
  directRxq : HardwareQueueSpec
  storageHwq : HardwareQueueSpec
  deriving DecidableEq

/-- `struct control_hdr`, without `sched_cfg`, which is only stored. -/
structure ControlHdr where
  versionNo : UInt32
  magic : UInt32
  threadCount : UInt32
  requestDirectpathQueues : UInt32
  egressBufCount : UInt64
  runtimeInfo : UInt64
  ipAddr : UInt32
  threadSpecs : UInt64
  deriving DecidableEq

/-- The copied header, and the thread specs at `thread_specs`. -/
structure Shared where
  hdr : ControlHdr
  threads : Nat → ThreadSpec

/-! ## What the iokernel keeps -/

/-- A mapped `struct shm_region`. -/
structure Region where
  base : Nat
  len : Nat
  fits : base + len ≤ 2 ^ 64

/-- The fields of `struct lrpc_chan_in` and `struct lrpc_chan_out` that the specs fill. -/
structure Chan where
  tbl : Nat
  size : Nat
  recvHeadWb : Nat
  deriving DecidableEq

structure Hwq where
  enabled : Bool
  descriptorTable : Nat
  consumerIdx : Nat
  descriptorLogSize : Nat
  nrDescriptors : Nat
  parityByteOffset : Nat
  parityBitMask : Nat
  hwqType : Nat
  deriving DecidableEq

structure Thread where
  rxq : Chan
  txpktq : Chan
  txcmdq : Chan
  qPtrs : Nat
  directpathHwq : Hwq
  storageHwq : Hwq
  deriving DecidableEq

structure Proc where
  ipAddr : Nat
  runtimeInfo : Nat
  hasVfioDirectpath : Bool
  hasDirectpath : Bool
  threads : List Thread
  maxOverflows : Nat
  /-- the bytes that `malloc` gave for `overflow_queue` -/
  overflowBytes : Nat
  deriving DecidableEq

/-! ## The checks -/

/-- `shmptr_to_ptr`; the null pointer is 0. -/
def shmptrToPtr (r : Region) (shmptr len : Nat) : Nat :=
  if 2 ^ 64 - 1 - shmptr < r.len ∨ r.len < (shmptr + len) % 2 ^ 64 then 0
  else (shmptr + r.base) % 2 ^ 64

def isPowerOfTwo (x : Nat) : Bool := x ≠ 0 && x &&& (x - 1) = 0

/-- `lrpc_init_in` and `lrpc_init_out`: the size is an `unsigned int`. -/
def lrpcInit (tbl size wb : Nat) : Option Chan :=
  if isPowerOfTwo (size % 2 ^ 32) then some ⟨tbl, size % 2 ^ 32, wb⟩ else none

/-- The common text of `shm_init_lrpc_in` and `shm_init_lrpc_out`. -/
def shmInitLrpc (r : Region) (s : QueueSpec) : Option Chan :=
  let tbl := shmptrToPtr r s.msgBuf.toNat ((16 * s.msgCount.toNat) % 2 ^ 64)
  if tbl = 0 then none
  else
    let wb := shmptrToPtr r s.wb.toNat 4
    if wb = 0 then none else lrpcInit tbl s.msgCount.toNat wb

def shmInitLrpcIn (r : Region) (s : QueueSpec) : Option Chan := shmInitLrpc r s

def shmInitLrpcOut (r : Region) (s : QueueSpec) : Option Chan := shmInitLrpc r s

section Checks

-- what a shift of an `int` by 32 or more gives; the language leaves it open
variable (wideShift : Nat → Nat)

/-- `1 << log`, converted to `uint32_t`. -/
def shiftOne (log : Nat) : Nat := if log < 32 then 2 ^ log else wideShift log % 2 ^ 32

def disabledHwq : Hwq := ⟨false, 0, 0, 0, 0, 0, 0, 0⟩

def controlInitHwq (r : Region) (hs : HardwareQueueSpec) : Option Hwq :=
  if hs.hwqType = 0 then some disabledHwq
  else
    let log := hs.descriptorLogSize.toNat
    let nr := hs.nrDescriptors.toNat
    let table := shmptrToPtr r hs.descriptorTable.toNat ((shiftOne wideShift log * nr) % 2 ^ 32)
    let consumer := shmptrToPtr r hs.consumerIdx.toNat 4
    if table = 0 ∨ consumer = 0 then none
    else if !isPowerOfTwo nr then none
    else if hs.parityByteOffset.toNat > shiftOne wideShift log then none
    else some ⟨true, table, consumer, log, nr, hs.parityByteOffset.toNat, hs.parityBitMask.toNat,
      hs.hwqType.toNat⟩

/-- One round of the thread loop of `control_create_proc`. -/
def createThread (r : Region) (s : ThreadSpec) : Option Thread :=
  (shmInitLrpcOut r s.rxq).bind fun rxq =>
  (shmInitLrpcIn r s.txpktq).bind fun txpktq =>
  (shmInitLrpcIn r s.txcmdq).bind fun txcmdq =>
  if shmptrToPtr r s.qPtrs.toNat 128 = 0 then none
  else
    (controlInitHwq wideShift r s.directRxq).bind fun direct =>
    (controlInitHwq wideShift r s.storageHwq).bind fun storage =>
    some ⟨rxq, txpktq, txcmdq, shmptrToPtr r s.qPtrs.toNat 128, direct, storage⟩

/-- The answers of the allocator and of the page lookup. -/
structure Answers where
  specsMalloc : Bool
  procMalloc : Bool
  pagesFound : Bool
  queueMalloc : Bool
  deriving DecidableEq

/-- `control_create_proc`, after the region was mapped. -/
def controlCreateProc (a : Answers) (r : Region) (m : Shared) : Option Proc :=
  if r.len < 88 then none
  else if m.hdr.magic ≠ controlHdrMagic ∨ m.hdr.versionNo ≠ controlHdrVersion then none
  else if m.hdr.threadCount.toNat > ncpu ∨ m.hdr.threadCount = 0 then none
  else if shmptrToPtr r m.hdr.threadSpecs.toNat (m.hdr.threadCount.toNat * 168) = 0 then none
  else if !(a.specsMalloc && a.procMalloc) then none
  else if m.hdr.ipAddr = 0 then none
  else
    let info := shmptrToPtr r m.hdr.runtimeInfo.toNat 48
    if info = 0 then none
    else
      ((List.range m.hdr.threadCount.toNat).mapM fun i => createThread wideShift r (m.threads i)).bind
        fun threads =>
      if !(a.pagesFound && a.queueMalloc) then none
      else
        some
          { ipAddr := m.hdr.ipAddr.toNat
            runtimeInfo := info
            hasVfioDirectpath := m.hdr.requestDirectpathQueues ≠ 0
            hasDirectpath := m.hdr.requestDirectpathQueues ≠ 0 ||
              threads.any fun th => th.directpathHwq.enabled
            threads
            maxOverflows := m.hdr.egressBufCount.toNat
            overflowBytes := (8 * m.hdr.egressBufCount.toNat) % 2 ^ 64 }

end Checks

/-! ## The property -/

/-- `len` bytes from an address lie in the region. -/
def Region.Holds (r : Region) (addr len : Nat) : Prop :=
  r.base ≤ addr ∧ addr + len ≤ r.base + r.len

/-- The address that `hwq_busy` reads for an index, in unbounded integers. -/
def Hwq.byteAt (h : Hwq) (index : Nat) : Nat :=
  h.descriptorTable + (index <<< h.descriptorLogSize) + h.parityByteOffset

def Chan.Inside (r : Region) (c : Chan) : Prop := r.Holds c.tbl (16 * c.size)

def Hwq.Inside (r : Region) (h : Hwq) : Prop :=
  h.enabled = true → ∀ index, index < h.nrDescriptors → r.Holds (h.byteAt index) 1

structure Thread.Inside (r : Region) (th : Thread) : Prop where
  rxq : th.rxq.Inside r
  txpktq : th.txpktq.Inside r
  txcmdq : th.txcmdq.Inside r
  directpathHwq : th.directpathHwq.Inside r
  storageHwq : th.storageHwq.Inside r

structure Proc.Validated (r : Region) (p : Proc) : Prop where
  threads : ∀ th ∈ p.threads, th.Inside r
  overflow : 8 * p.maxOverflows ≤ p.overflowBytes

/-! ## The condition: a check wraps, or the parity byte lies behind its descriptor -/

/-- The end of the message array wraps in the check, and the array of the size that is
stored does not end in the region. -/
def QueueSpec.Escapes (r : Region) (s : QueueSpec) : Prop :=
  2 ^ 64 ≤ s.msgBuf.toNat + 16 * s.msgCount.toNat % 2 ^ 64 ∧
    r.len < s.msgBuf.toNat + 16 * (s.msgCount.toNat % 2 ^ 32)

/-- The length or the end of the table wraps in the check, or the parity byte is not one of
its descriptor. -/
def HardwareQueueSpec.Unchecked (hs : HardwareQueueSpec) : Prop :=
  2 ^ 32 ≤ 2 ^ hs.descriptorLogSize.toNat * hs.nrDescriptors.toNat ∨
    2 ^ 64 ≤ hs.descriptorTable.toNat + 2 ^ hs.descriptorLogSize.toNat * hs.nrDescriptors.toNat ∨
    2 ^ hs.descriptorLogSize.toNat ≤ hs.parityByteOffset.toNat

/-- The offset of the last byte that `hwq_busy` reads. -/
def HardwareQueueSpec.lastByte (hs : HardwareQueueSpec) : Nat :=
  hs.descriptorTable.toNat + (hs.nrDescriptors.toNat - 1) * 2 ^ hs.descriptorLogSize.toNat +
    hs.parityByteOffset.toNat

/-- Where the table lies in front of the region, its first or last byte read lies outside;
where it lies behind the start, its last one. -/
def HardwareQueueSpec.ReadsOutside (r : Region) (hs : HardwareQueueSpec) : Prop :=
  if 2 ^ 64 ≤ hs.descriptorTable.toNat + r.base then
    hs.descriptorTable.toNat + hs.parityByteOffset.toNat < 2 ^ 64 ∨ 2 ^ 64 + r.len ≤ hs.lastByte
  else r.len ≤ hs.lastByte

/-- An enabled queue whose table is not checked, and that is read outside the region. -/
def HardwareQueueSpec.Escapes (r : Region) (hs : HardwareQueueSpec) : Prop :=
  hs.hwqType ≠ 0 ∧ hs.Unchecked ∧ hs.ReadsOutside r

/-- One of the queues escapes. -/
def ThreadSpec.Escapes (r : Region) (s : ThreadSpec) : Prop :=
  s.rxq.Escapes r ∨ s.txpktq.Escapes r ∨ s.txcmdq.Escapes r ∨ s.directRxq.Escapes r ∨
    s.storageHwq.Escapes r

/-- A thread spec escapes, or the size of the overflow queue wraps. -/
def Shared.Escapes (r : Region) (m : Shared) : Prop :=
  (∃ i, i < m.hdr.threadCount.toNat ∧ (m.threads i).Escapes r) ∨
    2 ^ 64 ≤ 8 * m.hdr.egressBufCount.toNat

/-! ## One pointer, one queue -/

variable {r : Region}

theorem shmptrToPtr_spec {shmptr len : Nat} (h : shmptrToPtr r shmptr len ≠ 0) :
    shmptrToPtr r shmptr len = (shmptr + r.base) % 2 ^ 64 ∧ r.len ≤ 2 ^ 64 - 1 - shmptr ∧
      (shmptr + len) % 2 ^ 64 ≤ r.len ∧ (shmptr + r.base) % 2 ^ 64 ≠ 0 := by
  rw [shmptrToPtr] at h ⊢
  split at h
  · exact absurd rfl h
  · rename_i htest
    rw [if_neg htest]
    rw [not_or] at htest
    exact ⟨rfl, Nat.le_of_not_lt htest.1, Nat.le_of_not_lt htest.2, h⟩

/-- A queue that is accepted lies inside unless its spec escapes. -/
theorem shmInitLrpc_inside_iff {s : QueueSpec} {c : Chan} (h : shmInitLrpc r s = some c) :
    c.Inside r ↔ ¬ s.Escapes r := by
  rw [shmInitLrpc] at h
  obtain ⟨htbl, h⟩ := Option.ite_none_left_eq_some.1 h
  obtain ⟨-, h⟩ := Option.ite_none_left_eq_some.1 h
  rw [lrpcInit] at h
  obtain ⟨-, rfl⟩ := Option.ite_some_none_eq_some.1 h
  obtain ⟨heq, hlow, hcheck, hne⟩ := shmptrToPtr_spec htbl
  have hfits := r.fits
  have hbuf := s.msgBuf.toNat_lt
  rw [Chan.Inside, Region.Holds, QueueSpec.Escapes]
  dsimp only
  rw [heq]
  generalize s.msgBuf.toNat = buf at *
  generalize s.msgCount.toNat = count at *
  by_cases hwrap : buf + r.base < 2 ^ 64
  · rw [Nat.mod_eq_of_lt hwrap]
    omega
  · -- the array would begin in front of the region
    omega

theorem ne_zero_of_isPowerOfTwo {x : Nat} (h : isPowerOfTwo x = true) : x ≠ 0 := by
  rw [isPowerOfTwo, Bool.and_eq_true] at h
  exact of_decide_eq_true h.1

theorem log_lt_of_product {log nr : Nat} (hpos : nr ≠ 0) (h : 2 ^ log * nr < 2 ^ 32) : log < 32 := by
  have hle : 2 ^ log ≤ 2 ^ log * nr := Nat.le_mul_of_pos_right _ (Nat.pos_of_ne_zero hpos)
  exact (Nat.pow_lt_pow_iff_right (by decide)).1 (Nat.lt_of_le_of_lt hle h)

/-- The bytes that are read lie inside if the first and the last do. -/
theorem Hwq.inside_iff {q : Hwq} (henabled : q.enabled = true) (hnr : q.nrDescriptors ≠ 0) :
    q.Inside r ↔ r.base ≤ q.descriptorTable + q.parityByteOffset ∧
      q.descriptorTable + (q.nrDescriptors - 1) * 2 ^ q.descriptorLogSize + q.parityByteOffset <
        r.base + r.len := by
  constructor
  · intro h
    obtain ⟨hfirst, -⟩ := h henabled 0 (Nat.pos_of_ne_zero hnr)
    obtain ⟨-, hlast⟩ := h henabled (q.nrDescriptors - 1) (by omega)
    rw [Hwq.byteAt, Nat.zero_shiftLeft] at hfirst
    rw [Hwq.byteAt, Nat.shiftLeft_eq] at hlast
    omega
  · rintro ⟨hfirst, hlast⟩ - index hindex
    have hslot : index * 2 ^ q.descriptorLogSize ≤
        (q.nrDescriptors - 1) * 2 ^ q.descriptorLogSize := Nat.mul_le_mul_right _ (by omega)
    rw [Hwq.byteAt, Nat.shiftLeft_eq]
    constructor <;> omega

theorem controlInitHwq_inside_iff {wideShift : Nat → Nat} {hs : HardwareQueueSpec} {q : Hwq}
    (h : controlInitHwq wideShift r hs = some q) : q.Inside r ↔ ¬ hs.Escapes r := by
  rw [controlInitHwq] at h
  split at h
  · rename_i htype
    cases h
    exact ⟨fun _ hesc => hesc.1 htype, fun _ henabled => absurd henabled (by decide)⟩
  · rename_i htype
    obtain ⟨hptr, h⟩ := Option.ite_none_left_eq_some.1 h
    obtain ⟨hpower, h⟩ := Option.ite_none_left_eq_some.1 h
    obtain ⟨-, h⟩ := Option.ite_none_left_eq_some.1 h
    cases h
    have hnr := ne_zero_of_isPowerOfTwo (by simpa using hpower)
    obtain ⟨heq, hlow, hcheck, hne⟩ := shmptrToPtr_spec fun hzero => hptr (.inl hzero)
    have hfits := r.fits
    have htable := hs.descriptorTable.toNat_lt
    rw [Hwq.inside_iff rfl hnr, HardwareQueueSpec.Escapes, and_iff_right htype]
    dsimp only
    rw [heq]
    -- a table that is checked ends in the region
    have hchecked : ¬ hs.Unchecked → ¬ hs.ReadsOutside r := by
      rw [HardwareQueueSpec.Unchecked, HardwareQueueSpec.ReadsOutside, HardwareQueueSpec.lastByte]
      intro hno
      obtain ⟨hproduct, hsum, hoffset⟩ : 2 ^ hs.descriptorLogSize.toNat * hs.nrDescriptors.toNat <
            2 ^ 32 ∧ hs.descriptorTable.toNat + 2 ^ hs.descriptorLogSize.toNat *
            hs.nrDescriptors.toNat < 2 ^ 64 ∧
          hs.parityByteOffset.toNat < 2 ^ hs.descriptorLogSize.toNat := by omega
      rw [shiftOne, if_pos (log_lt_of_product hnr hproduct), Nat.mod_eq_of_lt hproduct,
        Nat.mod_eq_of_lt hsum] at hcheck
      have hlast : (hs.nrDescriptors.toNat - 1) * 2 ^ hs.descriptorLogSize.toNat +
          2 ^ hs.descriptorLogSize.toNat =
          2 ^ hs.descriptorLogSize.toNat * hs.nrDescriptors.toNat := by
        rw [← Nat.succ_mul, Nat.mul_comm, Nat.succ_eq_add_one, Nat.sub_add_cancel (by omega)]
      split
      · -- the pointer would be the end of the address space, where it wraps to null
        omega
      · omega
    have hinside : ¬ (hs.Unchecked ∧ hs.ReadsOutside r) ↔ ¬ hs.ReadsOutside r :=
      ⟨fun hboth hout => hboth ⟨by_contra fun hno => hchecked hno hout, hout⟩,
        fun hin hboth => hin hboth.2⟩
    rw [hinside, HardwareQueueSpec.ReadsOutside, HardwareQueueSpec.lastByte]
    split
    · rename_i hwrap
      have hmod : (hs.descriptorTable.toNat + r.base) % 2 ^ 64 =
          hs.descriptorTable.toNat + r.base - 2 ^ 64 := by omega
      rw [hmod]
      omega
    · rename_i hwrap
      rw [Nat.mod_eq_of_lt (Nat.lt_of_not_le hwrap)]
      omega

/-! ## One thread, one process -/

theorem createThread_inside_iff {wideShift : Nat → Nat} {s : ThreadSpec} {th : Thread}
    (h : createThread wideShift r s = some th) : th.Inside r ↔ ¬ s.Escapes r := by
  rw [createThread] at h
  obtain ⟨rxq, hrxq, h⟩ := Option.bind_eq_some_iff.1 h
  obtain ⟨txpktq, htxpktq, h⟩ := Option.bind_eq_some_iff.1 h
  obtain ⟨txcmdq, htxcmdq, h⟩ := Option.bind_eq_some_iff.1 h
  obtain ⟨-, h⟩ := Option.ite_none_left_eq_some.1 h
  obtain ⟨direct, hdirect, h⟩ := Option.bind_eq_some_iff.1 h
  obtain ⟨storage, hstorage, h⟩ := Option.bind_eq_some_iff.1 h
  cases h
  rw [ThreadSpec.Escapes, not_or, not_or, not_or, not_or, ← shmInitLrpc_inside_iff hrxq,
    ← shmInitLrpc_inside_iff htxpktq, ← shmInitLrpc_inside_iff htxcmdq,
    ← controlInitHwq_inside_iff hdirect, ← controlInitHwq_inside_iff hstorage]
  exact ⟨fun ⟨h₁, h₂, h₃, h₄, h₅⟩ => ⟨h₁, h₂, h₃, h₄, h₅⟩,
    fun ⟨h₁, h₂, h₃, h₄, h₅⟩ => ⟨h₁, h₂, h₃, h₄, h₅⟩⟩

theorem forall₂_of_mapM {α β : Type} {f : α → Option β} {l : List α} {out : List β}
    (h : l.mapM f = some out) : List.Forall₂ (fun a b => f a = some b) l out := by
  induction l generalizing out with
  | nil =>
    obtain rfl : [] = out := by simpa using h
    exact .nil
  | cons a l ih =>
    rw [List.mapM_cons] at h
    obtain ⟨b, hb, h⟩ := Option.bind_eq_some_iff.1 h
    obtain ⟨rest, hrest, h⟩ := Option.bind_eq_some_iff.1 h
    cases h
    exact .cons hb (ih hrest)

theorem controlCreateProc_fields {wideShift : Nat → Nat} {a : Answers} {m : Shared} {p : Proc}
    (h : controlCreateProc wideShift a r m = some p) :
    List.Forall₂ (fun i th => createThread wideShift r (m.threads i) = some th)
        (List.range m.hdr.threadCount.toNat) p.threads ∧
      p.maxOverflows = m.hdr.egressBufCount.toNat ∧
      p.overflowBytes = (8 * m.hdr.egressBufCount.toNat) % 2 ^ 64 := by
  -- each check that fails ends the function
  simp only [controlCreateProc, Option.ite_none_left_eq_some] at h
  obtain ⟨-, -, -, -, -, -, -, h⟩ := h
  obtain ⟨threads, hthreads, h⟩ := Option.bind_eq_some_iff.1 h
  obtain ⟨-, h⟩ := Option.ite_none_left_eq_some.1 h
  cases h
  exact ⟨forall₂_of_mapM hthreads, rfl, rfl⟩

theorem forall_iff_of_forall₂ {α β : Type} {R : α → β → Prop} {P : α → Prop} {Q : β → Prop}
    {l : List α} {out : List β} (h : List.Forall₂ R l out) (hiff : ∀ a b, R a b → (Q b ↔ P a)) :
    (∀ b ∈ out, Q b) ↔ ∀ a ∈ l, P a := by
  induction h with
  | nil => exact ⟨fun _ => nofun, fun _ => nofun⟩
  | cons hab _ ih => rw [List.forall_mem_cons, List.forall_mem_cons, hiff _ _ hab, ih]

/-- A process that was created touches only its region, unless one of its descriptors
escapes. -/
theorem created_proc_validated (wideShift : Nat → Nat) (a : Answers) (r : Region) (m : Shared)
    (p : Proc) (h : controlCreateProc wideShift a r m = some p) :
    p.Validated r ↔ ¬ m.Escapes r := by
  obtain ⟨hthreads, hmax, hbytes⟩ := controlCreateProc_fields h
  have hinside : (∀ th ∈ p.threads, th.Inside r) ↔
      ∀ i ∈ List.range m.hdr.threadCount.toNat, ¬ (m.threads i).Escapes r :=
    forall_iff_of_forall₂ hthreads fun _ _ hcreate => createThread_inside_iff hcreate
  have hroom : 8 * p.maxOverflows ≤ p.overflowBytes ↔
      ¬ 2 ^ 64 ≤ 8 * m.hdr.egressBufCount.toNat := by
    rw [hmax, hbytes]
    omega
  rw [Shared.Escapes, not_or, ← hroom]
  constructor
  · rintro ⟨hall, hover⟩
    refine ⟨?_, hover⟩
    rintro ⟨i, hi, hesc⟩
    exact hinside.1 hall i (List.mem_range.2 hi) hesc
  · rintro ⟨hnone, hover⟩
    exact ⟨hinside.2 fun i hi hesc => hnone ⟨i, List.mem_range.1 hi, hesc⟩, hover⟩

/-! ## Forged descriptors -/

def hugePage : Region := ⟨0x7f0000000000, 2 ^ 21, by decide⟩

def allGranted : Answers := ⟨true, true, true, true⟩

def plainQueue : QueueSpec := ⟨64, 4096, 8192⟩

def noHwq : HardwareQueueSpec := ⟨0, 0, 0, 0, 0, 0, 0⟩

def plainHwq : HardwareQueueSpec := ⟨16384, 8196, 6, 32, 63, 1, 1⟩

def plainThread : ThreadSpec := ⟨plainQueue, plainQueue, plainQueue, 12288, plainHwq, noHwq⟩

def plainHdr : ControlHdr := ⟨controlHdrVersion, controlHdrMagic, 1, 0, 128, 1024, 1, 2048⟩

theorem created_proc_validated_plain :
    ∃ p, controlCreateProc id allGranted hugePage ⟨plainHdr, fun _ => plainThread⟩ = some p ∧
      p.Validated hugePage := by
  have hsome : (controlCreateProc id allGranted hugePage ⟨plainHdr, fun _ => plainThread⟩).isSome =
      true := by decide
  obtain ⟨p, hp⟩ := Option.isSome_iff_exists.1 hsome
  have hqueue : ¬ plainQueue.Escapes hugePage := fun h => absurd h.1 (by decide)
  have hhwq : ¬ plainHwq.Escapes hugePage := fun h => absurd h.2.1 (by
    unfold HardwareQueueSpec.Unchecked
    decide)
  have hnone : ¬ Shared.Escapes hugePage ⟨plainHdr, fun _ => plainThread⟩ := by
    rintro (⟨_, _, h | h | h | h | h⟩ | h)
    · exact hqueue h
    · exact hqueue h
    · exact hqueue h
    · exact hhwq h
    · exact h.1 rfl
    · exact absurd h (by decide)
  exact ⟨p, hp, (created_proc_validated id allGranted hugePage _ p hp).2 hnone⟩

/-- The offset of the message array is 16 MiB below 2^64, and its length takes the sum of the
check to 0; the array itself lies 16 MiB in front of the region. -/
def wrappingQueue : QueueSpec := ⟨0x100000, 0xffffffffff000000, 8192⟩

/-- The length of the table, 2^16 descriptors of 2^16 bytes, is 0 in 32 bits. -/
def wrappingHwq : HardwareQueueSpec := ⟨0, 8196, 16, 0x10000, 0, 1, 1⟩

/-- The table ends with the region, and the parity byte is the one after the descriptor. -/
def trailingHwq : HardwareQueueSpec := ⟨0x1fffc0, 8196, 6, 1, 64, 1, 1⟩

/-- Each part of the property fails for some accepted descriptors; no shift in them is wide. -/
theorem forged_descriptors_accepted : (∃ p, controlCreateProc id allGranted hugePage
        ⟨plainHdr, fun _ => { plainThread with rxq := wrappingQueue }⟩ = some p ∧
      ∃ th ∈ p.threads, ¬th.rxq.Inside hugePage) ∧
    (∃ p, controlCreateProc id allGranted hugePage
        ⟨plainHdr, fun _ => { plainThread with directRxq := wrappingHwq }⟩ = some p ∧
      ∃ th ∈ p.threads, ¬th.directpathHwq.Inside hugePage) ∧
    (∃ p, controlCreateProc id allGranted hugePage
        ⟨plainHdr, fun _ => { plainThread with directRxq := trailingHwq }⟩ = some p ∧
      ∃ th ∈ p.threads, ¬th.directpathHwq.Inside hugePage) ∧
    (∃ p, controlCreateProc id allGranted hugePage
        ⟨{ plainHdr with egressBufCount := 0x2000000000000000 }, fun _ => plainThread⟩ = some p ∧
      p.overflowBytes < 8 * p.maxOverflows) := by
  -- a descriptor of the accepted process whose byte at an index lies behind the region
  have hhwq : ∀ (hs : HardwareQueueSpec) (index : Nat), (controlCreateProc id allGranted hugePage
        ⟨plainHdr, fun _ => { plainThread with directRxq := hs }⟩).any (fun p => p.threads.any fun th =>
          th.directpathHwq.enabled && decide (index < th.directpathHwq.nrDescriptors ∧
            hugePage.base + hugePage.len < th.directpathHwq.byteAt index + 1)) = true →
      ∃ p, controlCreateProc id allGranted hugePage
          ⟨plainHdr, fun _ => { plainThread with directRxq := hs }⟩ = some p ∧
        ∃ th ∈ p.threads, ¬th.directpathHwq.Inside hugePage := by
    intro hs index hrun
    obtain ⟨p, hp, hany⟩ := (Option.any_eq_true _ _).1 hrun
    obtain ⟨th, hth, hfacts⟩ := List.any_eq_true.1 hany
    obtain ⟨henabled, hread⟩ := (Bool.and_eq_true _ _).mp hfacts
    obtain ⟨hindex, hbehind⟩ := of_decide_eq_true hread
    exact ⟨p, hp, th, hth, fun hinside => absurd (hinside henabled index hindex).2 (by omega)⟩
  refine ⟨?_, hhwq _ 0xffff (by decide), hhwq _ 0 (by decide), ?_⟩
  · have hrun : (controlCreateProc id allGranted hugePage
        ⟨plainHdr, fun _ => { plainThread with rxq := wrappingQueue }⟩).any (fun p =>
          p.threads.any fun th => decide (th.rxq.tbl < hugePage.base)) = true := by decide
    obtain ⟨p, hp, hany⟩ := (Option.any_eq_true _ _).1 hrun
    obtain ⟨th, hth, hfacts⟩ := List.any_eq_true.1 hany
    exact ⟨p, hp, th, hth, fun hinside => absurd hinside.1 (Nat.not_le.2 (of_decide_eq_true hfacts))⟩
  · have hrun : (controlCreateProc id allGranted hugePage
        ⟨{ plainHdr with egressBufCount := 0x2000000000000000 }, fun _ => plainThread⟩).any (fun p =>
          decide (p.overflowBytes < 8 * p.maxOverflows)) = true := by decide
    obtain ⟨p, hp, hfacts⟩ := (Option.any_eq_true _ _).1 hrun
    exact ⟨p, hp, of_decide_eq_true hfacts⟩

end Svalinn.Iokernel.Descriptors
