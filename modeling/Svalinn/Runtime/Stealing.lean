/-
  Runtime/Stealing.lean --- kthreads that run, ready and steal uthreads.

  Source: `runtime/sched.c` (`thread_ready`, `thread_ready_head`, their variants under the
  kthread lock, `schedule`, `enter_schedule`, `steal_work`, `merge_runqueues`), without
  directpath and garbage collection.

  A kthread readies uthreads on its own queue without its lock as long as the ring has room
  and the overflow list is empty; a thief holds the victim's lock, but the victim may be
  anywhere in that path.  Each access to shared memory outside a lock is a step of its own.
  What a kthread does under its own lock is one step: no other kthread reads the queue of a
  kthread without its lock, except for `work_available`, whose answer may be wrong.

  While a queue is being drained, the uthreads taken so far still count as its first ones;
  they leave it when the thief stores the tail.
-/
import Svalinn.Lib.Owners
import Svalinn.Lib.Transition
import Svalinn.Runtime.RunQueue

set_option autoImplicit false

namespace Svalinn.Runtime.RunQueue

open Svalinn.Lib Function List

/-! ## The model -/

inductive Phase (K T : Type) where
  | run
  /-- in `thread_ready`, before each access -/
  | loadTail (th : T)
  | check (th : T) (rqTail : BitVec 32)
  | write (th : T)
  | publish (th : T)
  | slow (th : T)
  /-- in `thread_ready_head`, before it takes the lock -/
  | head (th : T)
  /-- before `q_ptrs->rq_head++` -/
  | count
  | sched
  /-- in `steal_work`, under the victim's lock too -/
  | steal (r : K)
  /-- in `drain_threads` on the victim, the size of its own queue having been read -/
  | drain (r : K) (lsize : Nat)
  /-- in `merge_runqueues`, after the victim is unlocked -/
  | merging (lsize : Nat) (ths : List T)
  /-- before `thread_ready = false` in `jmp_thread` -/
  | jump (th : T)

inductive Theft (T : Type) where
  | locked
  | sized (nr : Nat)
  | draining (nr : Nat) (rqHead rqTail : BitVec 32) (ths : List T)

structure Kthread (K T : Type) where
  queue : Queue T
  lock : Option K
  phase : Phase K T
  theft : Option (Theft T)

structure State (K T : Type) where
  ks : K → Kthread K T
  /-- `th->thread_ready` -/
  ready : T → Bool
  readyTsc : T → Nat

inductive Event (K T : Type) where
  /-- `thread_ready` is called and sets `ready_tsc` to `tsc` -/
  | ready (k : K) (th : T) (tsc : Nat)
  | loadTail (k : K)
  | check (k : K)
  | write (k : K)
  | publish (k : K)
  | slow (k : K)
  | readyHead (k : K) (th : T) (tsc : Nat)
  | insert (k : K)
  | count (k : K)
  | enter (k : K)
  | leave (k : K)
  | readyLocked (k : K) (th : T) (tsc : Nat)
  | readyHeadLocked (k : K) (th : T) (tsc : Nat)
  | drainOverflow (k : K)
  | pop (k : K)
  | jump (k : K)
  | steal (k r : K)
  | size (k : K)
  | load (k : K)
  | take (k : K)
  | finish (k : K)
  | merge (k : K)

section Model

variable {K T : Type} [DecidableEq K] [DecidableEq T]

def State.set (s : State K T) (k : K) (kt : Kthread K T) : State K T :=
  { s with ks := update s.ks k kt }

def threadReadyPrepare (s : State K T) (th : T) (tsc : Nat) : State K T :=
  { s with
    ready := update s.ready th true
    readyTsc := update s.readyTsc th tsc }

/-- The `ready_tsc` of a uthread that is put at the head: that of the uthread it is put
before, if the ring is not empty. -/
def headTsc (s : State K T) (q : Queue T) (tsc : Nat) : Nat :=
  if q.rqHead ≠ q.rqTail then s.readyTsc q.next else tsc

/-- The end of `drain_threads` and the unlock of the victim. -/
def storeTail (kt : Kthread K T) (rqTail : BitVec 32) (ths : List T) : Kthread K T :=
  { kt with
    queue := { kt.queue with
      rqTail := rqTail, qTail := kt.queue.qTail + BitVec.ofNat 32 ths.length }
    lock := none
    theft := none }

def step (s : State K T) : Event K T → Option (State K T)
  | .ready k th tsc =>
    match (s.ks k).phase, s.ready th with
    | .run, false =>
      some ((threadReadyPrepare s th tsc).set k { s.ks k with phase := .loadTail th })
    | _, _ => none
  | .loadTail k =>
    match (s.ks k).phase with
    | .loadTail th => some (s.set k { s.ks k with phase := .check th (s.ks k).queue.rqTail })
    | _ => none
  | .check k =>
    match (s.ks k).phase with
    | .check th rqTail =>
      if runtimeRqSize ≤ ((s.ks k).queue.rqHead - rqTail).toNat ∨
          (s.ks k).queue.rqOverflow.isEmpty = false then
        some (s.set k { s.ks k with phase := .slow th })
      else some (s.set k { s.ks k with phase := .write th })
    | _ => none
  | .write k =>
    match (s.ks k).phase with
    | .write th =>
      some (s.set k { s.ks k with queue := (s.ks k).queue.store th, phase := .publish th })
    | _ => none
  | .publish k =>
    match (s.ks k).phase with
    | .publish _ =>
      some (s.set k { s.ks k with queue := (s.ks k).queue.publish, phase := .count })
    | _ => none
  | .slow k =>
    match (s.ks k).phase, (s.ks k).lock with
    | .slow th, none =>
      some (s.set k { s.ks k with
        queue := threadReadySlow (s.ks k).queue th
        phase := .count })
    | _, _ => none
  | .readyHead k th tsc =>
    match (s.ks k).phase, s.ready th with
    | .run, false =>
      some ((threadReadyPrepare s th tsc).set k { s.ks k with phase := .head th })
    | _, _ => none
  | .insert k =>
    match (s.ks k).phase, (s.ks k).lock with
    | .head th, none =>
      let s' := { s with
        readyTsc := update s.readyTsc th (headTsc s (s.ks k).queue (s.readyTsc th)) }
      some (s'.set k { s.ks k with
        queue := insertHead (s.ks k).queue th
        phase := .count })
    | _, _ => none
  | .count k =>
    match (s.ks k).phase with
    | .count =>
      let q := (s.ks k).queue
      some (s.set k { s.ks k with
        queue := { q with qHead := q.qHead + 1 }
        phase := .run })
    | _ => none
  | .enter k =>
    match (s.ks k).phase, (s.ks k).lock with
    | .run, none => some (s.set k { s.ks k with phase := .sched, lock := some k })
    | _, _ => none
  | .leave k =>
    match (s.ks k).phase with
    | .sched => some (s.set k { s.ks k with phase := .run, lock := none })
    | _ => none
  | .readyLocked k th tsc =>
    match (s.ks k).phase, s.ready th with
    | .sched, false =>
      some ((threadReadyPrepare s th tsc).set k { s.ks k with
        queue := threadReadyLocked (s.ks k).queue th })
    | _, _ => none
  | .readyHeadLocked k th tsc =>
    match (s.ks k).phase, s.ready th with
    | .sched, false =>
      some ((threadReadyPrepare s th (headTsc s (s.ks k).queue tsc)).set k { s.ks k with
        queue := threadReadyHeadLocked (s.ks k).queue th })
    | _, _ => none
  | .drainOverflow k =>
    match (s.ks k).phase with
    | .sched => some (s.set k { s.ks k with queue := drainOverflow (s.ks k).queue })
    | _ => none
  | .pop k =>
    match (s.ks k).phase with
    | .sched =>
      if (s.ks k).queue.rqHead ≠ (s.ks k).queue.rqTail then
        some (s.set k { s.ks k with
          queue := popNext (s.ks k).queue
          phase := .jump (s.ks k).queue.next
          lock := none })
      else none
    | _ => none
  | .jump k =>
    match (s.ks k).phase with
    | .jump th =>
      let s' := { s with ready := update s.ready th false }
      some (s'.set k { s.ks k with phase := .run })
    | _ => none
  | .steal k r =>
    match (s.ks k).phase, (s.ks r).lock with
    | .sched, none =>
      if r ≠ k then
        some ((s.set r { s.ks r with lock := some k, theft := some .locked }).set k
          { s.ks k with phase := .steal r })
      else none
    | _, _ => none
  | .size k =>
    match (s.ks k).phase with
    | .steal r =>
      match (s.ks r).theft with
      | some .locked =>
        let lsize := (s.ks k).queue.size
        let nr := numToSteal lsize (s.ks r).queue.size
        if nr = 0 then
          some ((s.set r { s.ks r with lock := none, theft := none }).set k
            { s.ks k with phase := .sched })
        else
          some ((s.set r { s.ks r with theft := some (.sized nr) }).set k
            { s.ks k with phase := .drain r lsize })
      | _ => none
    | _ => none
  | .load k =>
    match (s.ks k).phase with
    | .drain r _ =>
      match (s.ks r).theft with
      | some (.sized nr) =>
        some (s.set r { s.ks r with
          theft := some (.draining nr (s.ks r).queue.rqHead (s.ks r).queue.rqTail []) })
      | _ => none
    | _ => none
  | .take k =>
    match (s.ks k).phase with
    | .drain r _ =>
      match (s.ks r).theft with
      | some (.draining (nr + 1) rqHead rqTail ths) =>
        match drainOne (s.ks r).queue.rq rqHead rqTail (s.ks r).queue.rqOverflow with
        | none => some (s.set r { s.ks r with theft := some (.draining 0 rqHead rqTail ths) })
        | some (th, rqTail', rqOverflow) =>
          let q := (s.ks r).queue
          some (s.set r { s.ks r with
            queue := { q with rqOverflow := rqOverflow }
            theft := some (.draining nr rqHead rqTail' (ths ++ [th])) })
      | _ => none
    | _ => none
  | .finish k =>
    match (s.ks k).phase with
    | .drain r lsize =>
      match (s.ks r).theft with
      | some (.draining 0 _ rqTail ths) =>
        some ((s.set r (storeTail (s.ks r) rqTail ths)).set k
          { s.ks k with phase := .merging lsize ths })
      | _ => none
    | _ => none
  | .merge k =>
    match (s.ks k).phase with
    | .merging lsize ths =>
      some (s.set k { s.ks k with
        queue := mergeRunqueues s.readyTsc (s.ks k).queue lsize ths
        phase := .sched })
    | _ => none

/-- Empty queues and parked uthreads; `rq` is what the rings hold before their first use. -/
def init (rq : K → Nat → T) : State K T where
  ks := fun k => ⟨⟨rq k, 0, 0, [], 0, 0⟩, none, .run, none⟩
  ready := fun _ => false
  readyTsc := fun _ => 0

/-! ## What the states stand for -/

/-- The uthreads taken from the queue by a thief that has not stored the tail yet. -/
def lootOf : Option (Theft T) → List T
  | some (.draining _ _ _ ths) => ths
  | _ => []

def tailOf (q : Queue T) : Option (Theft T) → BitVec 32
  | some (.draining _ _ rqTail _) => rqTail
  | _ => q.rqTail

def Kthread.contents (kt : Kthread K T) : List T :=
  lootOf kt.theft ++ kt.queue.elemsFrom (tailOf kt.queue kt.theft)

def Phase.hand : Phase K T → List T
  | .loadTail th => [th]
  | .check th _ => [th]
  | .write th => [th]
  | .publish th => [th]
  | .slow th => [th]
  | .head th => [th]
  | .jump th => [th]
  | .merging _ ths => ths
  | _ => []

def Phase.victim : Phase K T → Option K
  | .steal r => some r
  | .drain r _ => some r
  | _ => none

def queueOf (s : State K T) (k : K) : List T := (s.ks k).contents

def Kthread.held (kt : Kthread K T) : List T := kt.contents ++ kt.phase.hand

def Kthread.Quiet (kt : Kthread K T) : Prop :=
  (kt.phase = .run ∨ kt.phase = .sched) ∧ kt.theft = none

/-- In the order of `ready_tsc`. -/
def Ordered (readyTsc : T → Nat) (l : List T) : Prop :=
  l.Pairwise (fun a b => readyTsc a ≤ readyTsc b)

def Spec (s s' : State K T) : Event K T → Prop
  | .publish k => ∃ th, (s.ks k).phase.hand = [th] ∧
      queueOf s' = update (queueOf s) k (queueOf s k ++ [th])
  | .slow k => ∃ th, (s.ks k).phase.hand = [th] ∧
      queueOf s' = update (queueOf s) k (queueOf s k ++ [th])
  | .readyLocked k th _ => queueOf s' = update (queueOf s) k (queueOf s k ++ [th])
  | .insert k => ∃ th, (s.ks k).phase.hand = [th] ∧
      queueOf s' = update (queueOf s) k (th :: queueOf s k)
  | .readyHeadLocked k th _ => queueOf s' = update (queueOf s) k (th :: queueOf s k)
  | .pop k => ∃ th rest, queueOf s k = th :: rest ∧ (s'.ks k).phase.hand = [th] ∧
      queueOf s' = update (queueOf s) k rest
  | .finish k => ∃ r rest, (s.ks k).phase.victim = some r ∧
      queueOf s r = (s'.ks k).phase.hand ++ rest ∧
      queueOf s' = update (queueOf s) r rest
  | .merge k =>
    queueOf s' = update (queueOf s) k ((queueOf s k).merge (s.ks k).phase.hand (older s.readyTsc)) ∧
    (Ordered s.readyTsc (queueOf s k) → Ordered s.readyTsc (s.ks k).phase.hand →
      Ordered s.readyTsc (queueOf s' k))
  | _ => queueOf s' = queueOf s

end Model

/-! ## One queue -/

section OneQueue

variable {K T : Type}

def Phase.inSched : Phase K T → Bool
  | .sched => true
  | .steal _ => true
  | .drain _ _ => true
  | .merging _ _ => true
  | _ => false

/-- A uthread is in the queue and not yet counted in `q_ptrs`. -/
def Phase.uncounted : Phase K T → BitVec 32
  | .count => 1
  | _ => 0

def OwnerOk (q : Queue T) : Phase K T → Prop
  | .check _ rqTail =>
    q.used ≤ (q.rqHead - rqTail).toNat ∧ (q.rqHead - rqTail).toNat ≤ runtimeRqSize
  | .write _ => q.used < runtimeRqSize ∧ q.rqOverflow = []
  | .publish th => q.used < runtimeRqSize ∧ q.rqOverflow = [] ∧
      q.rq (ringSlot runtimeRqSize q.rqHead) = th
  | .drain _ lsize => lsize = q.size
  | .merging lsize _ => lsize = q.size
  | _ => True

/-- The thief is inside the ring; the head moves past what it saw only if the overflow list
is empty. -/
def TheftOk (q : Queue T) : Option (Theft T) → Prop
  | some (.draining _ rqHead rqTail _) =>
    (q.rqHead - rqTail).toNat ≤ q.used ∧
    (rqHead - rqTail).toNat ≤ (q.rqHead - rqTail).toNat ∧
    (q.rqOverflow ≠ [] → q.rqHead = rqHead)
  | _ => True

structure Good (k : K) (kt : Kthread K T) : Prop where
  fits : kt.queue.Fits
  owner : OwnerOk kt.queue kt.phase
  thief : TheftOk kt.queue kt.theft
  counted : kt.queue.qHead - kt.queue.qTail =
    BitVec.ofNat 32 kt.contents.length - kt.phase.uncounted
  ownLock : kt.phase.inSched = true → kt.lock = some k
  theftLock : kt.theft ≠ none → ∃ l, l ≠ k ∧ kt.lock = some l

variable {k : K} {kt : Kthread K T} {p : Phase K T} {th : T}

theorem Good.theft_of_free (h : Good k kt) (hlock : kt.lock = none) : kt.theft = none := by
  by_contra hne
  obtain ⟨l, _, hl⟩ := h.theftLock hne
  rw [hlock] at hl
  cases hl

theorem Good.theft_of_inSched (h : Good k kt) (hp : kt.phase.inSched = true) : kt.theft = none := by
  by_contra hne
  obtain ⟨l, hlk, hl⟩ := h.theftLock hne
  rw [h.ownLock hp] at hl
  exact hlk (Option.some.inj hl).symm

theorem contents_of_no_theft (h : kt.theft = none) : kt.contents = kt.queue.elems := by
  unfold Kthread.contents
  rw [h]
  rfl

theorem Good.goto (h : Good k kt) (hown : OwnerOk kt.queue p)
    (hcount : p.uncounted = kt.phase.uncounted) (hlock : p.inSched = true → kt.lock = some k) :
    Good k { kt with phase := p } := by
  refine ⟨h.fits, hown, h.thief, ?_, hlock, h.theftLock⟩
  have hc := h.counted
  rw [← hcount] at hc
  exact hc

/-! ### The owner without the lock -/

theorem Good.loadTail (h : Good k kt) (hp : kt.phase = .loadTail th) :
    Good k { kt with phase := .check th kt.queue.rqTail } := by
  refine h.goto ⟨Nat.le_refl _, h.fits⟩ ?_ (fun hs => nomatch hs)
  rw [hp]
  rfl

theorem Good.check {rqTail : BitVec 32} (h : Good k kt) (hp : kt.phase = .check th rqTail)
    (hroom : ¬ (runtimeRqSize ≤ (kt.queue.rqHead - rqTail).toNat ∨
      kt.queue.rqOverflow.isEmpty = false)) : Good k { kt with phase := .write th } := by
  have hown := h.owner
  rw [hp] at hown
  obtain ⟨hlt, hempty⟩ := not_or.1 hroom
  refine h.goto ⟨?_, ?_⟩ ?_ (fun hs => nomatch hs)
  · exact Nat.lt_of_le_of_lt hown.1 (Nat.lt_of_not_le hlt)
  · simpa using hempty
  · rw [hp]
    rfl

theorem Good.tailOf_le (h : Good k kt) :
    (kt.queue.rqHead - tailOf kt.queue kt.theft).toNat ≤ kt.queue.used := by
  have hth := h.thief
  unfold tailOf
  split
  · rename_i hd
    rw [hd] at hth
    exact hth.1
  · exact Nat.le_refl _

theorem Good.write_contents (h : Good k kt) (hp : kt.phase = .write th) :
    ({ kt with queue := kt.queue.store th, phase := .publish th } : Kthread K T).contents =
      kt.contents := by
  have hown := h.owner
  rw [hp] at hown
  have hlt := Nat.lt_of_le_of_lt h.tailOf_le hown.1
  exact congrArg (lootOf kt.theft ++ ·) (store_elemsFrom th hlt)

theorem Good.write (h : Good k kt) (hp : kt.phase = .write th) :
    Good k { kt with queue := kt.queue.store th, phase := .publish th } := by
  have hown := h.owner
  have hc := h.counted
  rw [hp] at hown hc
  refine ⟨h.fits, ⟨hown.1, hown.2, update_self ..⟩, h.thief, ?_, (fun hs => nomatch hs),
    h.theftLock⟩
  rw [h.write_contents hp]
  exact hc

theorem Good.publish_contents (h : Good k kt) (hp : kt.phase = .publish th) :
    ({ kt with queue := kt.queue.publish, phase := .count } : Kthread K T).contents =
      kt.contents ++ [th] := by
  have hown := h.owner
  rw [hp] at hown
  obtain ⟨hused, hempty, hslot⟩ := hown
  have hlt := Nat.lt_of_le_of_lt h.tailOf_le hused
  have hring := publish_elemsFrom hlt hempty
  rw [hslot] at hring
  exact (congrArg (lootOf kt.theft ++ ·) hring).trans (append_assoc _ _ _).symm

theorem TheftOk.publish {q : Queue T} {o : Option (Theft T)} (h : TheftOk q o)
    (hused : q.used < runtimeRqSize) (hempty : q.rqOverflow = []) : TheftOk q.publish o := by
  match o with
  | none => trivial
  | some .locked => trivial
  | some (.sized _) => trivial
  | some (.draining nr rqHead rqTail ths) =>
    obtain ⟨hle, hsub, _⟩ := h
    have hq : (q.rqHead + 1 - q.rqTail).toNat = q.used + 1 := ringSize.head_succ hused
    have ht : (q.rqHead + 1 - rqTail).toNat = (q.rqHead - rqTail).toNat + 1 :=
      ringSize.head_succ (Nat.lt_of_le_of_lt hle hused)
    refine ⟨?_, ?_, fun hne => absurd hempty hne⟩
    · unfold Queue.used Queue.publish
      dsimp only
      omega
    · unfold Queue.publish
      dsimp only
      omega

theorem Good.publish (h : Good k kt) (hp : kt.phase = .publish th) :
    Good k { kt with queue := kt.queue.publish, phase := .count } := by
  have hown := h.owner
  have hc := h.counted
  rw [hp] at hown hc
  refine ⟨?_, trivial, h.thief.publish hown.1 hown.2.1, ?_, (fun hs => nomatch hs), h.theftLock⟩
  · have hq : (kt.queue.rqHead + 1 - kt.queue.rqTail).toNat = kt.queue.used + 1 :=
      ringSize.head_succ hown.1
    unfold Queue.Fits Queue.used Queue.publish
    dsimp only
    rw [hq]
    exact hown.1
  · rw [h.publish_contents hp, length_append, length_singleton, BitVec.ofNat_add]
    refine hc.trans ?_
    change _ - 0 = _ + 1 - 1
    ring

theorem Good.count (h : Good k kt) (hp : kt.phase = .count) : Good k { kt with
      queue := { kt.queue with qHead := kt.queue.qHead + 1 }, phase := .run } := by
  refine ⟨h.fits, trivial, h.thief, ?_, (fun hs => nomatch hs), h.theftLock⟩
  have hc := h.counted
  rw [hp] at hc
  change kt.queue.qHead + 1 - kt.queue.qTail = BitVec.ofNat 32 kt.contents.length - 0
  change kt.queue.qHead - kt.queue.qTail = BitVec.ofNat 32 kt.contents.length - 1 at hc
  have heq : kt.queue.qHead + 1 - kt.queue.qTail = kt.queue.qHead - kt.queue.qTail + 1 := by ring
  rw [heq, hc]
  ring

/-! ### The owner under its lock -/

/-- What a step of the owner under its lock has to show of the published counters. -/
def CountStep (q q' : Queue T) (p p' : Phase K T) : Prop :=
  q.qHead - q.qTail = BitVec.ofNat 32 q.elems.length - p.uncounted →
    q'.qHead - q'.qTail = BitVec.ofNat 32 q'.elems.length - p'.uncounted

theorem Good.rebuild {q : Queue T} {lock : Option K} (h : Good k kt) (hno : kt.theft = none)
    (hfits : q.Fits) (hown : OwnerOk q p) (hcount : CountStep kt.queue q kt.phase p)
    (hlock : p.inSched = true → lock = some k) :
    Good k { kt with queue := q, phase := p, lock := lock } := by
  have hc := h.counted
  rw [contents_of_no_theft hno] at hc
  have hno' : ({ kt with queue := q, phase := p, lock := lock } : Kthread K T).theft = none := hno
  refine ⟨hfits, hown, ?_, ?_, hlock, fun hne => absurd hno' hne⟩
  · rw [hno']
    trivial
  · rw [contents_of_no_theft hno']
    exact hcount hc

theorem rebuild_contents {q : Queue T} {lock : Option K} (hno : kt.theft = none) :
    ({ kt with queue := q, phase := p, lock := lock } : Kthread K T).contents = q.elems :=
  contents_of_no_theft hno

section CountSteps

variable {q q' : Queue T} {l : List T} {p' : Phase K T}

theorem countStep_succ (hq : q'.Holds l (q.qHead + 1) q.qTail) (hl : l.length = q.elems.length + 1)
    (hp : p'.uncounted = p.uncounted) : CountStep q q' p p' := by
  intro hc
  have heq : q.qHead + 1 - q.qTail = q.qHead - q.qTail + 1 := by ring
  rw [hq.qHead, hq.qTail, hq.elems, hl, heq, hc, hp, BitVec.ofNat_add]
  change _ - _ + (1 : BitVec 32) = _ + 1 - _
  ring

theorem countStep_later (hq : q'.Holds l q.qHead q.qTail) (hl : l.length = q.elems.length + 1)
    (hp : p.uncounted = 0) (hp' : p'.uncounted = 1) : CountStep q q' p p' := by
  intro hc
  rw [hq.qHead, hq.qTail, hq.elems, hl, hc, hp, hp', BitVec.ofNat_add]
  change _ - (0 : BitVec 32) = _ + 1 - 1
  ring

theorem countStep_same (hq : q'.Holds l q.qHead q.qTail) (hl : l.length = q.elems.length)
    (hp : p'.uncounted = p.uncounted) : CountStep q q' p p' := by
  intro hc
  rw [hq.qHead, hq.qTail, hq.elems, hl, hc, hp]

theorem countStep_pop (hq : q'.Holds l q.qHead (q.qTail + 1)) (hl : l.length + 1 = q.elems.length)
    (hp : p'.uncounted = p.uncounted) : CountStep q q' p p' := by
  intro hc
  have heq : q.qHead - (q.qTail + 1) = q.qHead - q.qTail - 1 := by ring
  rw [hq.qHead, hq.qTail, hq.elems, heq, hc, hp, ← hl, BitVec.ofNat_add]
  change _ + (1 : BitVec 32) - _ - 1 = _
  ring

theorem countStep_merge {n : Nat} (hq : q'.Holds l (q.qHead + BitVec.ofNat 32 n) q.qTail)
    (hl : l.length = q.elems.length + n) (hp : p'.uncounted = p.uncounted) :
    CountStep q q' p p' := by
  intro hc
  have heq : q.qHead + BitVec.ofNat 32 n - q.qTail = q.qHead - q.qTail + BitVec.ofNat 32 n := by
    ring
  rw [hq.qHead, hq.qTail, hq.elems, hl, heq, hc, hp, BitVec.ofNat_add]
  ring

end CountSteps

theorem Good.size_eq (h : Good k kt) (hno : kt.theft = none) (hp : kt.phase.uncounted = 0)
    (hfew : kt.queue.elems.length < 2 ^ 32) : kt.queue.size = kt.queue.elems.length := by
  have hc := h.counted
  rw [contents_of_no_theft hno, hp] at hc
  unfold Queue.size
  rw [hc]
  change (BitVec.ofNat 32 kt.queue.elems.length - 0).toNat = _
  rw [sub_zero, BitVec.toNat_ofNat]
  exact Nat.mod_eq_of_lt hfew

/-! ### The thief -/

variable {l : K} {nr : Nat} {rqHead rqTail : BitVec 32} {ths : List T}

theorem Good.not_inSched (h : Good k kt) (hne : kt.lock ≠ some k) : kt.phase.inSched ≠ true :=
  fun hs => hne (h.ownLock hs)

theorem Good.lockedBy (h : Good k kt) (hfree : kt.lock = none) (hl : l ≠ k) :
    Good k { kt with lock := some l, theft := some .locked } := by
  have hno := h.theft_of_free hfree
  have hc := h.counted
  rw [contents_of_no_theft hno] at hc
  refine ⟨h.fits, h.owner, trivial, hc, ?_, fun _ => ⟨l, hl, rfl⟩⟩
  intro hs
  exact absurd hs (h.not_inSched (by rw [hfree]; nofun))

theorem Good.unlocked (h : Good k kt) (hth : kt.theft = some .locked) :
    Good k { kt with lock := none, theft := none } := by
  obtain ⟨l, hl, hlock⟩ := h.theftLock (by rw [hth]; nofun)
  have hc := h.counted
  unfold Kthread.contents at hc
  rw [hth] at hc
  refine ⟨h.fits, h.owner, trivial, hc, ?_, fun hne => absurd rfl hne⟩
  intro hs
  refine absurd hs (h.not_inSched ?_)
  rw [hlock]
  exact fun heq => hl (Option.some.inj heq)

theorem Good.sized (h : Good k kt) (hth : kt.theft = some .locked) :
    Good k { kt with theft := some (.sized nr) } := by
  have hlock := h.theftLock (by rw [hth]; nofun)
  have hc := h.counted
  unfold Kthread.contents at hc
  rw [hth] at hc
  exact ⟨h.fits, h.owner, trivial, hc, h.ownLock, fun _ => hlock⟩

theorem Good.load (h : Good k kt) (hth : kt.theft = some (.sized nr)) :
    Good k { kt with theft := some (.draining nr kt.queue.rqHead kt.queue.rqTail []) } := by
  have hlock := h.theftLock (by rw [hth]; nofun)
  have hc := h.counted
  unfold Kthread.contents at hc
  rw [hth] at hc
  exact ⟨h.fits, h.owner, ⟨Nat.le_refl _, Nat.le_refl _, fun _ => rfl⟩, hc, h.ownLock,
    fun _ => hlock⟩

theorem Good.stop (h : Good k kt) (hth : kt.theft = some (.draining nr rqHead rqTail ths)) :
    Good k { kt with theft := some (.draining 0 rqHead rqTail ths) } := by
  have hlock := h.theftLock (by rw [hth]; nofun)
  have hc := h.counted
  have ht := h.thief
  unfold Kthread.contents at hc
  rw [hth] at hc ht
  exact ⟨h.fits, h.owner, ht, hc, h.ownLock, fun _ => hlock⟩

section Take

variable {rqTail' : BitVec 32} {rqOverflow : List T}

/-- The uthread that the thief takes is the first one that is left, whatever the owner has
added since the thief read the head. -/
theorem Good.take_elems (h : Good k kt) (hth : kt.theft = some (.draining nr rqHead rqTail ths))
    (hd : drainOne kt.queue.rq rqHead rqTail kt.queue.rqOverflow = some (th, rqTail', rqOverflow)) :
    kt.queue.elemsFrom rqTail =
      th :: ({ kt.queue with rqOverflow := rqOverflow } : Queue T).elemsFrom rqTail' ∧
    TheftOk { kt.queue with rqOverflow := rqOverflow }
      (some (.draining (nr - 1) rqHead rqTail' (ths ++ [th]))) := by
  have ht := h.thief
  rw [hth] at ht
  obtain ⟨hin, hsub, hmoved⟩ := ht
  have hsize : (rqHead - rqTail).toNat ≤ runtimeRqSize :=
    Nat.le_trans hsub (Nat.le_trans hin h.fits)
  obtain ⟨_, hcase⟩ := drainOne_some hsize hd
  rcases hcase with ⟨hne, rfl, rfl, rfl⟩ | ⟨heq, rfl, hover⟩
  · -- from the ring, whose head is still ahead
    have hsucc := ringSize.tail_succ hne
    have hneq : kt.queue.rqHead ≠ rqTail := by
      intro heq
      rw [heq, BitVec.sub_self] at hsub
      change (rqHead - rqTail).toNat ≤ 0 at hsub
      omega
    have hsucc' := ringSize.tail_succ hneq
    refine ⟨?_, ?_, ?_, hmoved⟩
    · unfold Queue.elemsFrom
      rw [ringSize.elems_pop hneq]
      rfl
    · change (kt.queue.rqHead - (rqTail + 1)).toNat ≤ kt.queue.used
      omega
    · change (rqHead - (rqTail + 1)).toNat ≤ (kt.queue.rqHead - (rqTail + 1)).toNat
      omega
  · -- from the list; the ring is empty, since the head has not moved
    have hhead : kt.queue.rqHead = rqHead := hmoved (by rw [hover]; nofun)
    refine ⟨?_, hin, hsub, fun _ => hhead⟩
    unfold Queue.elemsFrom
    dsimp only
    rw [hhead, heq, ringElems_self, hover]
    rfl

theorem OwnerOk.shrink {q : Queue T} (h : OwnerOk q p)
    (hempty : q.rqOverflow = [] → rqOverflow = []) : OwnerOk { q with rqOverflow := rqOverflow } p := by
  cases p with
  | write th => exact ⟨h.1, hempty h.2⟩
  | publish th => exact ⟨h.1, hempty h.2.1, h.2.2⟩
  | check _ _ | drain _ _ | merging _ _ => exact h
  | run | loadTail | slow | head | count | sched | steal | jump => trivial

theorem drainOne_empty (hd : drainOne kt.queue.rq rqHead rqTail kt.queue.rqOverflow =
      some (th, rqTail', rqOverflow)) (hempty : kt.queue.rqOverflow = []) : rqOverflow = [] := by
  unfold drainOne at hd
  rw [hempty] at hd
  split at hd
  · cases hd
    rfl
  · cases hd

theorem Good.take (h : Good k kt) (hth : kt.theft = some (.draining (nr + 1) rqHead rqTail ths))
    (hd : drainOne kt.queue.rq rqHead rqTail kt.queue.rqOverflow = some (th, rqTail', rqOverflow)) :
    Good k { kt with
      queue := { kt.queue with rqOverflow := rqOverflow }
      theft := some (.draining nr rqHead rqTail' (ths ++ [th])) } ∧
    ({ kt with
      queue := { kt.queue with rqOverflow := rqOverflow }
      theft := some (.draining nr rqHead rqTail' (ths ++ [th])) } : Kthread K T).contents =
      kt.contents := by
  obtain ⟨helems, htheft⟩ := h.take_elems hth hd
  have hlock := h.theftLock (by rw [hth]; nofun)
  have hcont : ({ kt with
      queue := { kt.queue with rqOverflow := rqOverflow }
      theft := some (.draining nr rqHead rqTail' (ths ++ [th])) } : Kthread K T).contents =
      kt.contents := by
    unfold Kthread.contents
    rw [hth]
    change (ths ++ [th]) ++ _ = ths ++ kt.queue.elemsFrom rqTail
    rw [helems, append_assoc]
    rfl
  refine ⟨⟨h.fits, h.owner.shrink (drainOne_empty hd), htheft, ?_, h.ownLock, fun _ => hlock⟩,
    hcont⟩
  rw [hcont]
  exact h.counted

end Take

theorem Good.finish_contents (hth : kt.theft = some (.draining nr rqHead rqTail ths)) :
    kt.contents = ths ++ (storeTail kt rqTail ths).contents := by
  unfold Kthread.contents
  rw [hth]
  rfl

theorem Good.finish (h : Good k kt) (hth : kt.theft = some (.draining nr rqHead rqTail ths)) :
    Good k (storeTail kt rqTail ths) := by
  have ht := h.thief
  rw [hth] at ht
  obtain ⟨l, hl, hlock⟩ := h.theftLock (by rw [hth]; nofun)
  have hout : kt.phase.inSched ≠ true := by
    refine h.not_inSched ?_
    rw [hlock]
    exact fun heq => hl (Option.some.inj heq)
  refine ⟨Nat.le_trans ht.1 h.fits, ?_, trivial, ?_, fun hs => absurd hs hout,
    fun hne => absurd rfl hne⟩
  · have hown := h.owner
    unfold storeTail
    dsimp only
    cases hp : kt.phase with
    | check th t =>
      rw [hp] at hown
      exact ⟨Nat.le_trans ht.1 hown.1, hown.2⟩
    | write _ | publish _ =>
      rw [hp] at hown
      exact ⟨Nat.lt_of_le_of_lt ht.1 hown.1, hown.2⟩
    | drain _ _ | merging _ _ =>
      rw [hp] at hout
      exact absurd rfl hout
    | run | loadTail | slow | head | count | sched | steal | jump => trivial
  · have hc := h.counted
    rw [Good.finish_contents hth, length_append, BitVec.ofNat_add] at hc
    have heq : kt.queue.qHead - (kt.queue.qTail + BitVec.ofNat 32 ths.length) =
        kt.queue.qHead - kt.queue.qTail - BitVec.ofNat 32 ths.length := by ring
    change kt.queue.qHead - (kt.queue.qTail + BitVec.ofNat 32 ths.length) =
      BitVec.ofNat 32 (storeTail kt rqTail ths).contents.length - kt.phase.uncounted
    rw [heq, hc]
    ring

end OneQueue

/-! ## All kthreads -/

section System

variable {K T : Type} {ks : K → Kthread K T} {ready ready' : T → Bool} {k r : K}
  {kt : Kthread K T}

structure Inv (ks : K → Kthread K T) (ready : T → Bool) : Prop where
  good : ∀ k, Good k (ks k)
  stealing : ∀ l r, (ks l).phase.victim = some r → r ≠ l ∧ (ks r).lock = some l
  owned : HeldOnce (fun k => (ks k).held) ready

theorem Inv.keepLock (h : Inv ks ready) (hlock : kt.lock = (ks k).lock) (l : K) (_ : l ≠ k)
    (hl : (ks l).phase.victim = some k) : kt.lock = some l :=
  hlock.trans (h.stealing l k hl).2

theorem Inv.noThief {o : Option K} (h : Inv ks ready)
    (hlock : (ks k).lock = none ∨ (ks k).lock = some k) (l : K) (hlk : l ≠ k)
    (hl : (ks l).phase.victim = some k) : o = some l := by
  have hl' := (h.stealing l k hl).2
  rcases hlock with hfree | hown
  · rw [hfree] at hl'
    cases hl'
  · rw [hown] at hl'
    exact absurd (Option.some.inj hl').symm hlk

variable [DecidableEq K]

theorem held_update : (fun j => (update ks k kt j).held) =
    update (fun j => (ks j).held) k kt.held := by
  funext j
  by_cases hj : j = k
  · subst hj
    rw [update_self, update_self]
  · rw [update_of_ne hj, update_of_ne hj]

theorem forall_update {P : K → Kthread K T → Prop} (h : ∀ j, P j (ks j)) (hk : P k kt) (j : K) :
    P j (update ks k kt j) := by
  by_cases hj : j = k
  · subst hj
    rw [update_self]
    exact hk
  · rw [update_of_ne hj]
    exact h j

theorem Inv.set (h : Inv ks ready) (hg : Good k kt)
    (hlock : ∀ l, l ≠ k → (ks l).phase.victim = some k → kt.lock = some l)
    (hv : ∀ r, kt.phase.victim = some r → r ≠ k ∧ (ks r).lock = some k)
    (howned : HeldOnce (update (fun j => (ks j).held) k kt.held) ready') :
    Inv (update ks k kt) ready' := by
  refine ⟨forall_update h.good hg, ?_, ?_⟩
  · intro l r hl
    by_cases hlk : l = k
    · subst hlk
      rw [update_self] at hl
      obtain ⟨hne, hlr⟩ := hv r hl
      rw [update_of_ne hne]
      exact ⟨hne, hlr⟩
    · rw [update_of_ne hlk] at hl
      obtain ⟨hne, hlr⟩ := h.stealing l r hl
      refine ⟨hne, ?_⟩
      grind
  · rw [held_update]
    exact howned

theorem Inv.shift (h : Inv ks ready) (hg : Good k kt)
    (hlock : ∀ l, l ≠ k → (ks l).phase.victim = some k → kt.lock = some l)
    (hv : ∀ r, kt.phase.victim = some r → r ≠ k ∧ (ks r).lock = some k)
    (hperm : kt.held.Perm (ks k).held) : Inv (update ks k kt) ready := by
  refine h.set hg hlock hv (h.owned.perm ?_)
  intro j
  by_cases hj : j = k
  · subst hj
    rw [update_self]
    exact hperm
  · rw [update_of_ne hj]

theorem Inv.still (h : Inv ks ready) (hg : Good k kt)
    (hlock : ∀ l, l ≠ k → (ks l).phase.victim = some k → kt.lock = some l)
    (hv : ∀ r, kt.phase.victim = some r → r ≠ k ∧ (ks r).lock = some k)
    (hc : kt.contents = (ks k).contents) (hh : kt.phase.hand = (ks k).phase.hand) :
    Inv (update ks k kt) ready := by
  refine h.shift hg hlock hv ?_
  unfold Kthread.held
  rw [hc, hh]

theorem Inv.gain [DecidableEq T] {th : T} (h : Inv ks ready) (hr : ready th = false)
    (hg : Good k kt) (hlock : ∀ l, l ≠ k → (ks l).phase.victim = some k → kt.lock = some l)
    (hv : kt.phase.victim = none) (hperm : kt.held.Perm (th :: (ks k).held)) :
    Inv (update ks k kt) (update ready th true) := by
  refine h.set hg hlock (fun r hr => nomatch hv.symm.trans hr) (h.owned.add hr (k := k) ?_ ?_)
  · rw [update_self]
    exact hperm
  · intro j hj
    exact update_of_ne hj ..

/-! ### The steps -/

variable [DecidableEq T] {s s' : State K T} {th : T} {tsc : Nat}

omit [DecidableEq T] in
theorem queueOf_set (hks : s'.ks = update s.ks k kt) :
    queueOf s' = update (queueOf s) k kt.contents := by
  funext j
  unfold queueOf
  rw [hks]
  by_cases hj : j = k
  · subst hj
    rw [update_self, update_self]
  · rw [update_of_ne hj, update_of_ne hj]

omit [DecidableEq T] in
theorem queueOf_still (hks : s'.ks = update s.ks k kt)
    (hc : kt.contents = (s.ks k).contents) : queueOf s' = queueOf s := by
  rw [queueOf_set hks, hc]
  exact update_eq_self k (queueOf s)

def StepOk (s s' : State K T) (e : Event K T) : Prop := Inv s'.ks s'.ready ∧ Spec s s' e

omit [DecidableEq K] [DecidableEq T] in
theorem held_of_hand_nil (h : (s.ks k).phase.hand = []) : (s.ks k).held = queueOf s k := by
  unfold Kthread.held queueOf
  rw [h, append_nil]

omit [DecidableEq K] [DecidableEq T] in
theorem held_of_hand (h : (s.ks k).phase.hand = [th]) : (s.ks k).held = queueOf s k ++ [th] := by
  unfold Kthread.held queueOf
  rw [h]

section

variable (h : Inv s.ks s.ready)

include h

theorem gain_ok {p : Phase K T} (hp : (s.ks k).phase = .run)
    (hr : s.ready th = false) (hown : ∀ q : Queue T, OwnerOk q p) (hcount : p.uncounted = 0)
    (hsched : p.inSched = false) (hv : p.victim = none) (hh : p.hand = [th]) :
    Inv ((threadReadyPrepare s th tsc).set k { s.ks k with phase := p }).ks
      ((threadReadyPrepare s th tsc).set k { s.ks k with phase := p }).ready ∧
    queueOf ((threadReadyPrepare s th tsc).set k { s.ks k with phase := p }) = queueOf s := by
  refine ⟨?_, queueOf_still rfl rfl⟩
  refine h.gain hr (k := k) ((h.good k).goto (hown _) ?_ ?_) (h.keepLock rfl) hv ?_
  · rw [hcount, hp]
    rfl
  · rw [hsched]
    nofun
  · have hheld := held_of_hand_nil (s := s) (k := k) (hp ▸ rfl)
    rw [hheld]
    unfold Kthread.held
    dsimp only
    rw [hh]
    exact perm_append_singleton th (queueOf s k)

omit [DecidableEq T] in
theorem goto_ok {p : Phase K T} (hg : Good k { s.ks k with phase := p })
    (hv : ∀ r, p.victim = some r → r ≠ k ∧ (s.ks r).lock = some k)
    (hh : p.hand = (s.ks k).phase.hand) :
    Inv (s.set k { s.ks k with phase := p }).ks (s.set k { s.ks k with phase := p }).ready ∧
    queueOf (s.set k { s.ks k with phase := p }) = queueOf s :=
  ⟨h.still hg (h.keepLock rfl) hv rfl hh, queueOf_still rfl rfl⟩

omit [DecidableEq T] in
theorem loadTail_ok (hp : (s.ks k).phase = .loadTail th) :
    StepOk s (s.set k { s.ks k with phase := .check th (s.ks k).queue.rqTail }) (.loadTail k) :=
  goto_ok h ((h.good k).loadTail hp) nofun (hp ▸ rfl)

omit [DecidableEq T] in
theorem checkSlow_ok {rqTail : BitVec 32}
    (hp : (s.ks k).phase = .check th rqTail) :
    StepOk s (s.set k { s.ks k with phase := .slow th }) (.check k) :=
  goto_ok h ((h.good k).goto trivial (hp ▸ rfl) nofun) nofun (hp ▸ rfl)

omit [DecidableEq T] in
theorem checkFast_ok {rqTail : BitVec 32}
    (hp : (s.ks k).phase = .check th rqTail)
    (hroom : ¬ (runtimeRqSize ≤ ((s.ks k).queue.rqHead - rqTail).toNat ∨
      (s.ks k).queue.rqOverflow.isEmpty = false)) :
    StepOk s (s.set k { s.ks k with phase := .write th }) (.check k) :=
  goto_ok h ((h.good k).check hp hroom) nofun (hp ▸ rfl)

omit [DecidableEq T] in
theorem write_ok (hp : (s.ks k).phase = .write th) :
    StepOk s (s.set k { s.ks k with queue := (s.ks k).queue.store th, phase := .publish th })
      (.write k) := by
  have hc := (h.good k).write_contents hp
  refine ⟨h.still ((h.good k).write hp) (h.keepLock rfl) nofun hc ?_, queueOf_still rfl hc⟩
  rw [hp]
  rfl

omit [DecidableEq T] in
theorem put_ok {l : List T} (hh : (s.ks k).phase.hand = [th])
    (hg : Good k kt) (hlock : ∀ l, l ≠ k → (s.ks l).phase.victim = some k → kt.lock = some l)
    (hp : kt.phase = .count) (hc : kt.contents = l) (hperm : l.Perm (queueOf s k ++ [th])) :
    Inv (s.set k kt).ks (s.set k kt).ready ∧
    queueOf (s.set k kt) = update (queueOf s) k l := by
  refine ⟨h.shift hg hlock ?_ ?_, hc ▸ queueOf_set rfl⟩
  · rw [hp]
    nofun
  · rw [held_of_hand hh]
    unfold Kthread.held
    rw [hp, hc]
    exact (append_nil l).symm ▸ hperm

omit [DecidableEq T] in
theorem publish_ok (hp : (s.ks k).phase = .publish th) :
    StepOk s (s.set k { s.ks k with queue := (s.ks k).queue.publish, phase := .count })
      (.publish k) := by
  have hh : (s.ks k).phase.hand = [th] := by
    rw [hp]
    rfl
  obtain ⟨hinv, hq⟩ := put_ok h hh ((h.good k).publish hp) (h.keepLock rfl) rfl
    ((h.good k).publish_contents hp) (List.Perm.refl _)
  exact ⟨hinv, th, hh, hq⟩

omit [DecidableEq T] in
theorem slow_ok (hp : (s.ks k).phase = .slow th)
    (hfree : (s.ks k).lock = none) :
    StepOk s (s.set k { s.ks k with
      queue := threadReadySlow (s.ks k).queue th, phase := .count }) (.slow k) := by
  have hno := (h.good k).theft_of_free hfree
  have hh : (s.ks k).phase.hand = [th] := by
    rw [hp]
    rfl
  have hq := threadReadySlow_holds th (h.good k).fits
  have hl : (queueOf s k) = (s.ks k).queue.elems := contents_of_no_theft hno
  have hg : Good k { s.ks k with
      queue := threadReadySlow (s.ks k).queue th, phase := .count } := by
    refine (h.good k).rebuild hno hq.fits trivial ?_ nofun
    refine countStep_later hq ?_ (hp ▸ rfl) rfl
    rw [length_append, length_singleton]
  obtain ⟨hinv, hqueue⟩ := put_ok h hh hg (h.keepLock rfl) rfl
    ((rebuild_contents hno).trans hq.elems) (by rw [hl])
  exact ⟨hinv, th, hh, by rw [hqueue, hl]⟩

omit [DecidableEq T] in
theorem insert_ok (hp : (s.ks k).phase = .head th)
    (hfree : (s.ks k).lock = none) (readyTsc : T → Nat) :
    StepOk s (({ s with readyTsc := readyTsc } : State K T).set k { s.ks k with
      queue := insertHead (s.ks k).queue th, phase := .count }) (.insert k) := by
  have hno := (h.good k).theft_of_free hfree
  have hh : (s.ks k).phase.hand = [th] := by
    rw [hp]
    rfl
  have hq := insertHead_holds th (h.good k).fits
  have hl : (queueOf s k) = (s.ks k).queue.elems := contents_of_no_theft hno
  have hg : Good k { s.ks k with
      queue := insertHead (s.ks k).queue th, phase := .count } := by
    refine (h.good k).rebuild hno hq.fits trivial ?_ nofun
    exact countStep_later hq (length_cons ..) (hp ▸ rfl) rfl
  obtain ⟨hinv, hqueue⟩ := put_ok h hh hg (h.keepLock rfl) rfl
    ((rebuild_contents hno).trans hq.elems)
    (by rw [hl]; exact (perm_append_singleton th _).symm)
  refine ⟨hinv, th, hh, ?_⟩
  rw [hl]
  exact hqueue

omit [DecidableEq T] in
theorem count_ok (hp : (s.ks k).phase = .count) :
    StepOk s (s.set k { s.ks k with
      queue := { (s.ks k).queue with qHead := (s.ks k).queue.qHead + 1 }, phase := .run })
      (.count k) := by
  refine ⟨h.still ((h.good k).count hp) (h.keepLock rfl) nofun rfl ?_, queueOf_still rfl rfl⟩
  rw [hp]
  rfl

omit [DecidableEq T] in
theorem enter_ok (hp : (s.ks k).phase = .run)
    (hfree : (s.ks k).lock = none) :
    StepOk s (s.set k { s.ks k with phase := .sched, lock := some k }) (.enter k) := by
  have hno := (h.good k).theft_of_free hfree
  have hg : Good k { s.ks k with phase := .sched, lock := some k } := by
    refine (h.good k).rebuild hno (h.good k).fits trivial ?_ (fun _ => rfl)
    rw [hp]
    exact fun hc => hc
  refine ⟨h.still hg (h.noThief (.inl hfree)) nofun rfl ?_, queueOf_still rfl rfl⟩
  rw [hp]
  rfl

omit [DecidableEq T] in
theorem leave_ok (hp : (s.ks k).phase = .sched) :
    StepOk s (s.set k { s.ks k with phase := .run, lock := none }) (.leave k) := by
  have hs : (s.ks k).phase.inSched = true := by
    rw [hp]
    rfl
  have hno := (h.good k).theft_of_inSched hs
  have hg : Good k { s.ks k with phase := .run, lock := none } := by
    refine (h.good k).rebuild hno (h.good k).fits trivial ?_ nofun
    rw [hp]
    exact fun hc => hc
  refine ⟨h.still hg (h.noThief (.inr ((h.good k).ownLock hs))) nofun rfl ?_, queueOf_still rfl rfl⟩
  rw [hp]
  rfl

theorem add_ok {q : Queue T} {l : List T} (hp : (s.ks k).phase = .sched)
    (hr : s.ready th = false) (hq : q.Holds l ((s.ks k).queue.qHead + 1) (s.ks k).queue.qTail)
    (hperm : l.Perm (th :: queueOf s k)) :
    Inv ((threadReadyPrepare s th tsc).set k { s.ks k with queue := q }).ks
      ((threadReadyPrepare s th tsc).set k { s.ks k with queue := q }).ready ∧
    queueOf ((threadReadyPrepare s th tsc).set k { s.ks k with queue := q }) =
      update (queueOf s) k l := by
  have hs : (s.ks k).phase.inSched = true := by
    rw [hp]
    rfl
  have hno := (h.good k).theft_of_inSched hs
  have hl : (queueOf s k) = (s.ks k).queue.elems := contents_of_no_theft hno
  have hc : ({ s.ks k with queue := q } : Kthread K T).contents = l :=
    (rebuild_contents hno).trans hq.elems
  have hg : Good k { s.ks k with queue := q } := by
    refine (h.good k).rebuild hno hq.fits ?_ ?_ (h.good k).ownLock
    · rw [hp]
      trivial
    · refine countStep_succ hq ?_ rfl
      rw [hperm.length_eq, length_cons, hl]
  refine ⟨h.gain hr hg (h.keepLock rfl) (hp ▸ rfl) ?_, hc ▸ queueOf_set rfl⟩
  have hheld := held_of_hand_nil (s := s) (k := k) (hp ▸ rfl)
  rw [hheld]
  unfold Kthread.held
  rw [hc]
  dsimp only
  rw [hp]
  exact (append_nil l).symm ▸ hperm

theorem readyLocked_ok (hp : (s.ks k).phase = .sched)
    (hr : s.ready th = false) :
    StepOk s ((threadReadyPrepare s th tsc).set k { s.ks k with
      queue := threadReadyLocked (s.ks k).queue th }) (.readyLocked k th tsc) := by
  have hno := (h.good k).theft_of_inSched (hp ▸ rfl)
  have hl : (queueOf s k) = (s.ks k).queue.elems := contents_of_no_theft hno
  have hq := threadReadyLocked_holds th (h.good k).fits
  rw [← hl] at hq
  exact add_ok h hp hr hq (perm_append_singleton th _)

theorem readyHeadLocked_ok (hp : (s.ks k).phase = .sched)
    (hr : s.ready th = false) (tsc' : Nat) :
    StepOk s ((threadReadyPrepare s th tsc').set k { s.ks k with
      queue := threadReadyHeadLocked (s.ks k).queue th }) (.readyHeadLocked k th tsc) := by
  have hno := (h.good k).theft_of_inSched (hp ▸ rfl)
  have hl : (queueOf s k) = (s.ks k).queue.elems := contents_of_no_theft hno
  have hq := threadReadyHeadLocked_holds th (h.good k).fits
  rw [← hl] at hq
  exact add_ok h hp hr hq (List.Perm.refl _)

omit [DecidableEq T] in
theorem drainOverflow_ok (hp : (s.ks k).phase = .sched) :
    StepOk s (s.set k { s.ks k with queue := drainOverflow (s.ks k).queue })
      (.drainOverflow k) := by
  have hno := (h.good k).theft_of_inSched (hp ▸ rfl)
  have hq := drainOverflow_holds (h.good k).fits
  have hc : ({ s.ks k with queue := drainOverflow (s.ks k).queue } : Kthread K T).contents =
      (s.ks k).contents := by
    rw [contents_of_no_theft hno]
    exact (rebuild_contents hno).trans hq.elems
  have hg : Good k { s.ks k with queue := drainOverflow (s.ks k).queue } := by
    refine (h.good k).rebuild hno hq.fits ?_ (countStep_same hq rfl rfl) (h.good k).ownLock
    rw [hp]
    trivial
  refine ⟨h.still hg (h.keepLock rfl) ?_ hc rfl, queueOf_still rfl hc⟩
  dsimp only
  rw [hp]
  nofun

omit [DecidableEq T] in
theorem pop_ok (hp : (s.ks k).phase = .sched)
    (hne : (s.ks k).queue.rqHead ≠ (s.ks k).queue.rqTail) :
    StepOk s (s.set k { s.ks k with
      queue := popNext (s.ks k).queue
      phase := .jump (s.ks k).queue.next
      lock := none }) (.pop k) := by
  have hs : (s.ks k).phase.inSched = true := by
    rw [hp]
    rfl
  have hno := (h.good k).theft_of_inSched hs
  have hq := popNext_holds (h.good k).fits hne
  have hnext := elems_next hne
  have hl : (queueOf s k) = (s.ks k).queue.elems := contents_of_no_theft hno
  have hsplit : queueOf s k = (s.ks k).queue.next :: (s.ks k).queue.elems.tail := by
    rw [hl, hnext, tail_cons]
  have hg : Good k { s.ks k with
      queue := popNext (s.ks k).queue
      phase := .jump (s.ks k).queue.next
      lock := none } := by
    refine (h.good k).rebuild hno hq.fits trivial ?_ nofun
    refine countStep_pop hq ?_ (hp ▸ rfl)
    rw [← hl, hsplit, length_cons, ← hsplit, hl]
  have hc : ({ s.ks k with
      queue := popNext (s.ks k).queue
      phase := .jump (s.ks k).queue.next
      lock := none } : Kthread K T).contents = (s.ks k).queue.elems.tail :=
    (rebuild_contents hno).trans hq.elems
  refine ⟨h.shift hg (h.noThief (.inr ((h.good k).ownLock hs))) nofun ?_, ?_⟩
  · have hheld := held_of_hand_nil (s := s) (k := k) (hp ▸ rfl)
    rw [hheld, hsplit]
    unfold Kthread.held
    rw [hc]
    exact perm_append_singleton _ _
  · refine ⟨(s.ks k).queue.next, (s.ks k).queue.elems.tail, hsplit, ?_, hc ▸ queueOf_set rfl⟩
    unfold State.set
    dsimp only
    rw [update_self]
    rfl

theorem jump_ok (hp : (s.ks k).phase = .jump th) :
    StepOk s (({ s with ready := update s.ready th false } : State K T).set k
      { s.ks k with phase := .run }) (.jump k) := by
  have hh : (s.ks k).phase.hand = [th] := by
    rw [hp]
    rfl
  have hg : Good k { s.ks k with phase := .run } :=
    (h.good k).goto trivial (hp ▸ rfl) nofun
  refine ⟨h.set hg (h.keepLock rfl) nofun (h.owned.remove (k := k) ?_ ?_), queueOf_still rfl rfl⟩
  · dsimp only
    rw [held_of_hand hh, update_self]
    unfold Kthread.held
    dsimp only [Phase.hand]
    rw [append_nil]
    exact perm_append_singleton th _
  · intro j hj
    exact update_of_ne hj ..

/-! ### The steps of a thief -/

omit [DecidableEq T] in
theorem Inv.victim (hg : Good r kt) (hlock : kt.lock = (s.ks r).lock)
    (hp : kt.phase = (s.ks r).phase) (hc : kt.contents = (s.ks r).contents) :
    Inv (update s.ks r kt) s.ready := by
  refine h.still hg (h.keepLock hlock) ?_ hc (by rw [hp])
  rw [hp]
  exact fun q hq => h.stealing r q hq

end

omit [DecidableEq T] in
theorem update_ks_of_ne (hne : r ≠ k) (kr : Kthread K T) :
    update s.ks r kr k = s.ks k := update_of_ne hne.symm ..

omit [DecidableEq T] in
/-- A thief changes the record of its victim and goes on to another phase. -/
theorem thief_ok {x : Kthread K T} {p : Phase K T} (hne : r ≠ k) (hr : Inv (s.set r x).ks s.ready)
    (hc : x.contents = (s.ks r).contents) (hlock : x.lock = some k)
    (hg : Good k { s.ks k with phase := p }) (hv : ∀ q, p.victim = some q → q = r)
    (hh : p.hand = (s.ks k).phase.hand) :
    Inv ((s.set r x).set k { s.ks k with phase := p }).ks s.ready ∧
    queueOf ((s.set r x).set k { s.ks k with phase := p }) = queueOf s := by
  have hk : (s.set r x).ks k = s.ks k := update_ks_of_ne hne _
  rw [← hk] at hg hh ⊢
  have hheld : ((s.set r x).ks r).lock = some k := by
    show (update s.ks r x r).lock = some k
    rw [update_self, hlock]
  obtain ⟨hinv, hqueue⟩ := goto_ok hr hg (fun q hq => by cases hv q hq; exact ⟨hne, hheld⟩) hh
  exact ⟨hinv, hqueue.trans (queueOf_still rfl hc)⟩

section

variable (h : Inv s.ks s.ready)

include h

omit [DecidableEq T] in
theorem steal_ok (hp : (s.ks k).phase = .sched)
    (hfree : (s.ks r).lock = none) (hne : r ≠ k) :
    StepOk s ((s.set r { s.ks r with lock := some k, theft := some .locked }).set k
      { s.ks k with phase := .steal r }) (.steal k r) := by
  have hno := (h.good r).theft_of_free hfree
  have hc : ({ s.ks r with lock := some k, theft := some .locked } : Kthread K T).contents =
      (s.ks r).contents := (contents_of_no_theft hno).symm
  have hr : Inv (s.set r { s.ks r with lock := some k, theft := some .locked }).ks s.ready :=
    h.still ((h.good r).lockedBy hfree hne.symm) (h.noThief (.inl hfree))
      (fun q hq => h.stealing r q hq) hc rfl
  exact thief_ok hne hr hc rfl
    ((h.good k).goto trivial (hp ▸ rfl) fun _ => (h.good k).ownLock (hp ▸ rfl))
    (fun q hq => (Option.some.inj hq).symm) (hp ▸ rfl)

omit [DecidableEq T] in
theorem Inv.release {kr : Kthread K T}
    (hv : (s.ks k).phase.victim = some r) (hgr : Good r kr) (hpr : kr.phase = (s.ks r).phase)
    (hgk : Good k kt) (hvk : kt.phase.victim = none) (hlk : kt.lock = (s.ks k).lock)
    (howned : HeldOnce (fun j => (update (update s.ks r kr) k kt j).held) s.ready) :
    Inv (update (update s.ks r kr) k kt) s.ready := by
  refine ⟨forall_update (forall_update h.good hgr) hgk, ?_, howned⟩
  intro l q hl
  have hlne : l ≠ k := by
    rintro rfl
    rw [update_self, hvk] at hl
    cases hl
  have hold : (s.ks l).phase.victim = some q := by
    rw [update_of_ne hlne] at hl
    grind
  obtain ⟨hne, hlock⟩ := h.stealing l q hold
  refine ⟨hne, ?_⟩
  by_cases hqk : q = k
  · subst hqk
    rw [update_self, hlk]
    exact hlock
  · have hqr : q ≠ r := by
      rintro rfl
      have hk := (h.stealing k q hv).2
      rw [hlock] at hk
      exact hlne (Option.some.inj hk)
    rw [update_of_ne hqk, update_of_ne hqr]
    exact hlock

omit [DecidableEq T] in
theorem sizeNone_ok (hp : (s.ks k).phase = .steal r)
    (hth : (s.ks r).theft = some .locked) :
    StepOk s ((s.set r { s.ks r with lock := none, theft := none }).set k
      { s.ks k with phase := .sched }) (.size k) := by
  have hv : (s.ks k).phase.victim = some r := by
    rw [hp]
    rfl
  obtain ⟨hne, _⟩ := h.stealing k r hv
  have hk : (s.set r { s.ks r with lock := none, theft := none }).ks k = s.ks k :=
    update_ks_of_ne hne _
  have hc : ({ s.ks r with lock := none, theft := none } : Kthread K T).contents =
      (s.ks r).contents := by
    unfold Kthread.contents
    rw [hth]
    rfl
  have hgood : Good k { s.ks k with phase := .sched } :=
    (h.good k).goto trivial (hp ▸ rfl) (fun _ => (h.good k).ownLock (hp ▸ rfl))
  refine ⟨h.release hv ((h.good r).unlocked hth) rfl hgood rfl rfl (h.owned.perm ?_), ?_⟩
  · intro j
    by_cases hjk : j = k
    · subst hjk
      rw [update_self]
      unfold Kthread.held
      dsimp only
      rw [hp]
      exact List.Perm.refl _
    · rw [update_of_ne hjk]
      by_cases hjr : j = r
      · subst hjr
        rw [update_self]
        unfold Kthread.held
        rw [hc]
      · rw [update_of_ne hjr]
  · refine Eq.trans (queueOf_still rfl ?_) (queueOf_still rfl hc)
    rw [hk]
    rfl

omit [DecidableEq T] in
theorem sizeSome_ok {nr : Nat} (hp : (s.ks k).phase = .steal r)
    (hth : (s.ks r).theft = some .locked) :
    StepOk s ((s.set r { s.ks r with theft := some (.sized nr) }).set k
      { s.ks k with phase := .drain r (s.ks k).queue.size }) (.size k) := by
  obtain ⟨hne, hlock⟩ := h.stealing k r (hp ▸ rfl)
  have hc : ({ s.ks r with theft := some (.sized nr) } : Kthread K T).contents =
      (s.ks r).contents := by
    unfold Kthread.contents
    rw [hth]
    rfl
  have hr : Inv (s.set r { s.ks r with theft := some (.sized nr) }).ks s.ready :=
    h.victim ((h.good r).sized hth) rfl rfl hc
  exact thief_ok hne hr hc hlock
    ((h.good k).goto rfl (hp ▸ rfl) fun _ => (h.good k).ownLock (hp ▸ rfl))
    (fun q hq => (Option.some.inj hq).symm) (hp ▸ rfl)

omit [DecidableEq T] in
theorem load_ok {nr : Nat} (hth : (s.ks r).theft = some (.sized nr)) :
    StepOk s (s.set r { s.ks r with
      theft := some (.draining nr (s.ks r).queue.rqHead (s.ks r).queue.rqTail []) }) (.load k) := by
  have hc : ({ s.ks r with
      theft := some (.draining nr (s.ks r).queue.rqHead (s.ks r).queue.rqTail []) } :
        Kthread K T).contents = (s.ks r).contents := by
    unfold Kthread.contents
    rw [hth]
    rfl
  exact ⟨h.victim ((h.good r).load hth) rfl rfl hc, queueOf_still rfl hc⟩

omit [DecidableEq T] in
theorem takeNone_ok {nr : Nat} {rqHead rqTail : BitVec 32} {ths : List T}
    (hth : (s.ks r).theft = some (.draining nr rqHead rqTail ths)) :
    StepOk s (s.set r { s.ks r with theft := some (.draining 0 rqHead rqTail ths) }) (.take k) := by
  have hc : ({ s.ks r with theft := some (.draining 0 rqHead rqTail ths) } :
      Kthread K T).contents = (s.ks r).contents := by
    unfold Kthread.contents
    rw [hth]
    rfl
  exact ⟨h.victim ((h.good r).stop hth) rfl rfl hc, queueOf_still rfl hc⟩

omit [DecidableEq T] in
theorem take_ok {nr : Nat} {rqHead rqTail rqTail' : BitVec 32} {ths rqOverflow : List T}
    (hth : (s.ks r).theft = some (.draining (nr + 1) rqHead rqTail ths))
    (hd : drainOne (s.ks r).queue.rq rqHead rqTail (s.ks r).queue.rqOverflow =
      some (th, rqTail', rqOverflow)) :
    StepOk s (s.set r { s.ks r with
      queue := { (s.ks r).queue with rqOverflow := rqOverflow }
      theft := some (.draining nr rqHead rqTail' (ths ++ [th])) }) (.take k) := by
  obtain ⟨hg, hc⟩ := (h.good r).take hth hd
  exact ⟨h.victim hg rfl rfl hc, queueOf_still rfl hc⟩

omit [DecidableEq T] in
theorem finish_ok {nr lsize : Nat} {rqHead rqTail : BitVec 32} {ths : List T} (hp : (s.ks k).phase = .drain r lsize)
    (hth : (s.ks r).theft = some (.draining nr rqHead rqTail ths)) :
    StepOk s ((s.set r (storeTail (s.ks r) rqTail ths)).set k
      { s.ks k with phase := .merging lsize ths }) (.finish k) := by
  have hv : (s.ks k).phase.victim = some r := by
    rw [hp]
    rfl
  obtain ⟨hne, _⟩ := h.stealing k r hv
  have hown := (h.good k).owner
  rw [hp] at hown
  have hgood : Good k { s.ks k with phase := .merging lsize ths } :=
    (h.good k).goto hown (hp ▸ rfl) (fun _ => (h.good k).ownLock (hp ▸ rfl))
  have hsplit := Good.finish_contents hth
  have hk : (s.set r (storeTail (s.ks r) rqTail ths)).ks k = s.ks k := update_ks_of_ne hne _
  refine ⟨h.release hv ((h.good r).finish hth) rfl hgood rfl rfl
    (h.owned.move (l := ths) hne ?_ ?_ ?_), r, (storeTail (s.ks r) rqTail ths).contents, hv,
    ?_, ?_⟩
  · dsimp only
    rw [update_of_ne hne, update_self]
    unfold Kthread.held
    rw [hsplit, append_assoc]
    rfl
  · dsimp only
    rw [update_self, held_of_hand_nil (hp ▸ rfl)]
    exact perm_append_comm
  · intro j hjk hjr
    dsimp only
    rw [update_of_ne hjk, update_of_ne hjr]
  · refine hsplit.trans ?_
    unfold State.set
    dsimp only
    rw [update_self]
    rfl
  · refine Eq.trans (queueOf_still rfl ?_) (queueOf_set rfl)
    rw [hk]
    rfl

end

omit [DecidableEq T] in
/-- Fewer than `2 ^ 32` uthreads exist, so that the published size is exact. -/
theorem merge_ok {lsize : Nat} {ths : List T} (hfew : ∀ l : List T, l.Nodup → l.length < 2 ^ 32)
    (h : Inv s.ks s.ready) (hp : (s.ks k).phase = .merging lsize ths) :
    StepOk s (s.set k { s.ks k with
      queue := mergeRunqueues s.readyTsc (s.ks k).queue lsize ths, phase := .sched })
      (.merge k) := by
  have hs : (s.ks k).phase.inSched = true := by
    rw [hp]
    rfl
  have hh : (s.ks k).phase.hand = ths := by
    rw [hp]
    rfl
  have hno := (h.good k).theft_of_inSched hs
  have hl : (queueOf s k) = (s.ks k).queue.elems := contents_of_no_theft hno
  have hlsize : lsize = (s.ks k).queue.elems.length := by
    have hown := (h.good k).owner
    rw [hp] at hown
    refine Eq.trans hown ((h.good k).size_eq hno (hp ▸ rfl) (hfew _ ?_))
    have hnd := h.owned.nodup k
    rw [← hl]
    exact (nodup_append.1 hnd).1
  have hq := mergeRunqueues_holds s.readyTsc ths (h.good k).fits hlsize
  have hg : Good k { s.ks k with
      queue := mergeRunqueues s.readyTsc (s.ks k).queue lsize ths, phase := .sched } := by
    refine (h.good k).rebuild hno hq.fits trivial ?_ (fun _ => (h.good k).ownLock hs)
    exact countStep_merge hq (length_merge ..) (hp ▸ rfl)
  have hc : ({ s.ks k with
      queue := mergeRunqueues s.readyTsc (s.ks k).queue lsize ths
      phase := .sched } : Kthread K T).contents =
      (queueOf s k).merge ths (older s.readyTsc) := by
    rw [hl]
    exact (rebuild_contents hno).trans hq.elems
  have hqueue : queueOf (s.set k { s.ks k with
      queue := mergeRunqueues s.readyTsc (s.ks k).queue lsize ths, phase := .sched }) =
      update (queueOf s) k _ := queueOf_set rfl
  rw [hc] at hqueue
  refine ⟨h.shift hg (h.keepLock rfl) nofun ?_, ?_, ?_⟩
  · unfold Kthread.held
    rw [hc, hh]
    exact (append_nil _).symm ▸ merge_perm_append _
  · rw [hh]
    exact hqueue
  · intro hown hstolen
    rw [hh] at hstolen
    rw [hqueue, update_self]
    exact merge_ordered hown hstolen

/-! ## Every run -/

theorem step_ok {e : Event K T} (hfew : ∀ l : List T, l.Nodup → l.length < 2 ^ 32)
    (h : Inv s.ks s.ready) (hstep : step s e = some s') : StepOk s s' e := by
  revert hstep
  -- the cases without a step go away; the others have their result in place of `s'`
  fun_cases step s e <;> rintro ⟨⟩
  case case1 hr hp => exact gain_ok h hp hr (fun _ => trivial) rfl rfl rfl rfl
  case case3 hp => exact loadTail_ok h hp
  case case5 hp _ => exact checkSlow_ok h hp
  case case6 hp hroom => exact checkFast_ok h hp hroom
  case case8 hp => exact write_ok h hp
  case case10 hp => exact publish_ok h hp
  case case12 hfree hp => exact slow_ok h hp hfree
  case case14 hr hp => exact gain_ok h hp hr (fun _ => trivial) rfl rfl rfl rfl
  case case16 hfree hp _ => exact insert_ok h hp hfree _
  case case18 hp _ => exact count_ok h hp
  case case20 hfree hp => exact enter_ok h hp hfree
  case case22 hp => exact leave_ok h hp
  case case24 hr hp => exact readyLocked_ok h hp hr
  case case26 hr hp => exact readyHeadLocked_ok h hp hr _
  case case28 hp => exact drainOverflow_ok h hp
  case case30 hp hne => exact pop_ok h hp hne
  case case33 hp _ => exact jump_ok h hp
  case case35 hfree hp hne => exact steal_ok h hp hfree hne
  case case38 hp hth _ _ _ => exact sizeNone_ok h hp hth
  case case39 hp hth _ _ _ => exact sizeSome_ok h hp hth
  case case42 hth => exact load_ok h hth
  case case45 hth _ => exact takeNone_ok h hth
  case case46 hth _ _ _ hd _ => exact take_ok h hth hd
  case case49 hp _ _ _ hth => exact finish_ok h hp hth
  case case52 hp => exact merge_ok hfew h hp

omit [DecidableEq K] [DecidableEq T] in
theorem inv_init (rq : K → Nat → T) : Inv (init rq).ks (init rq).ready where
  good := by
    intro k
    refine ⟨?_, trivial, trivial, ?_, nofun, fun hne => absurd rfl hne⟩
    · change ((0 : BitVec 32) - 0).toNat ≤ runtimeRqSize
      decide
    · rw [contents_of_no_theft rfl]
      change (0 : BitVec 32) - 0 =
        BitVec.ofNat 32 (ringElems runtimeRqSize (rq k) 0 0 ++ []).length - 0
      rw [ringElems_self]
      rfl
  stealing := nofun
  owned := by
    have hnone : ∀ k, ((init rq).ks k).held = [] := by
      intro k
      unfold Kthread.held
      rw [contents_of_no_theft rfl]
      change (ringElems runtimeRqSize (rq k) 0 0 ++ []) ++ [] = []
      rw [ringElems_self]
      rfl
    refine ⟨?_, ?_, ?_⟩
    · intro k
      rw [hnone]
      exact nodup_nil
    · intro k k' th hk
      rw [hnone] at hk
      cases hk
    · intro th
      refine ⟨nofun, ?_⟩
      rintro ⟨k, hk⟩
      rw [hnone] at hk
      cases hk

/-- In every run each ready uthread is in one place, the queues change as the operations promise,
and a queue with no operation in progress is the ring and the overflow list, with its length
published. -/
theorem run_queue_refines (hfew : ∀ l : List T, l.Nodup → l.length < 2 ^ 32)
    {rq : K → Nat → T} {s : State K T} (hreach : Reaches step anyStep (init rq) s) :
    HeldOnce (fun k => (s.ks k).held) s.ready ∧
    (∀ k, (s.ks k).Quiet → queueOf s k = (s.ks k).queue.elems ∧
      (s.ks k).queue.qHead - (s.ks k).queue.qTail = BitVec.ofNat 32 (queueOf s k).length) ∧
    ∀ e s', step s e = some s' → Spec s s' e := by
  have hinv : Inv s.ks s.ready :=
    hreach.invariant (P := fun s => Inv s.ks s.ready) (inv_init rq)
      (fun _ _ _ hu _ hstep => (step_ok hfew hu hstep).1)
  refine ⟨hinv.owned, ?_, fun e s' hstep => (step_ok hfew hinv hstep).2⟩
  rintro k ⟨hp, hno⟩
  refine ⟨contents_of_no_theft hno, ?_⟩
  have hc := (hinv.good k).counted
  have h0 : (s.ks k).phase.uncounted = 0 := by
    rcases hp with hp | hp <;> rw [hp] <;> rfl
  rw [h0, sub_zero] at hc
  exact hc

end System

/-- The events of one `thread_ready` that finds room. -/
def readyEvents {K T : Type} (k : K) (th : T) (tsc : Nat) : List (Event K T) :=
  [.ready k th tsc, .loadTail k, .check k, .write k, .publish k, .count k]

local instance neZeroTwo : NeZero 2 := ⟨by decide⟩

/-- Kthread 0 readies three uthreads, the last one at the head, below index 0; kthread 1
steals two of them. -/
def stealTwo : List (Event (Fin 2) (Fin 3)) :=
  readyEvents 0 0 10 ++ readyEvents 0 1 20 ++ [.readyHead 0 2 30, .insert 0, .count 0] ++
    [.enter 1, .steal 1 0, .size 1, .load 1, .take 1, .take 1, .finish 1, .merge 1]

/-- After `stealTwo` the thief has the first two uthreads in order. -/
theorem run_queue_refines_steal : ∃ s, Reaches step anyStep (init (fun _ _ => 0)) s ∧
    (HeldOnce (fun k => (s.ks k).held) s.ready ∧ (∀ k, (s.ks k).Quiet →
        queueOf s k = (s.ks k).queue.elems ∧
        (s.ks k).queue.qHead - (s.ks k).queue.qTail = BitVec.ofNat 32 (queueOf s k).length) ∧
      ∀ e s', step s e = some s' → Spec s s' e) ∧
    queueOf s (0 : Fin 2) = [(1 : Fin 3)] ∧ queueOf s 1 = [2, 0] := by
  obtain ⟨s, hreach, hp⟩ : ∃ s, Reaches step anyStep (init (fun _ _ => 0)) s ∧
      queueOf s (0 : Fin 2) = [(1 : Fin 3)] ∧ queueOf s 1 = [2, 0] :=
    exists_of_runActions stealTwo (by decide)
  have hfew : ∀ l : List (Fin 3), l.Nodup → l.length < 2 ^ 32 := by
    intro l hl
    exact Nat.lt_of_le_of_lt hl.length_le_card (by decide)
  exact ⟨s, hreach, run_queue_refines hfew hreach, hp⟩

end Svalinn.Runtime.RunQueue
