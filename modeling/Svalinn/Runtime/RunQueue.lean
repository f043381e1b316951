/-
  Runtime/RunQueue.lean --- the run queue of a kthread.

  Source: `drain_overflow`, `drain_threads`, `merge_runqueues`, `thread_ready_locked`,
  `thread_ready_head_locked`, `thread_ready`, `thread_ready_head` and the pops of `schedule`
  and `enter_schedule` (`runtime/sched.c`), as operations on one queue.  Their interleaving
  is the subject of `Runtime/Stealing.lean`.

  The queue is a ring with a head and a tail counter of 32 bits and a list of the uthreads
  that did not fit; its contents are those of the ring followed by those of the list.  The
  counters in `q_ptrs` are read by thieves and by the iokernel.
-/
import Svalinn.Lib.Ring
import Svalinn.Lib.Serial

set_option autoImplicit false

namespace Svalinn.Runtime.RunQueue

open Svalinn.Lib List

def runtimeRqSize : Nat := 32

theorem ringSize : RingSize 32 runtimeRqSize := ⟨by decide, by decide, by decide⟩

section Model

variable {T : Type}

structure Queue (T : Type) where
  rq : Nat → T
  rqHead : BitVec 32
  rqTail : BitVec 32
  rqOverflow : List T
  /-- `q_ptrs->rq_head` -/
  qHead : BitVec 32
  /-- `q_ptrs->rq_tail` -/
  qTail : BitVec 32

/-- `rq_head - rq_tail` -/
def Queue.used (q : Queue T) : Nat := (q.rqHead - q.rqTail).toNat

def Queue.elemsFrom (q : Queue T) (rqTail : BitVec 32) : List T :=
  ringElems runtimeRqSize q.rq q.rqHead rqTail ++ q.rqOverflow

def Queue.elems (q : Queue T) : List T := q.elemsFrom q.rqTail

/-- `rq[rq_head % RUNTIME_RQ_SIZE] = th` -/
def Queue.store (q : Queue T) (th : T) : Queue T :=
  { q with rq := Function.update q.rq (ringSlot runtimeRqSize q.rqHead) th }

/-- `rq_head++` -/
def Queue.publish (q : Queue T) : Queue T := { q with rqHead := q.rqHead + 1 }

/-- `rq[rq_head++ % RUNTIME_RQ_SIZE] = th` -/
def Queue.push (q : Queue T) (th : T) : Queue T := (q.store th).publish

/-- The loop of `drain_overflow`. -/
def drainLoop : List T → Queue T → Queue T
  | [], q => { q with rqOverflow := [] }
  | th :: rest, q =>
    if q.used < runtimeRqSize then drainLoop rest (q.push th)
    else { q with rqOverflow := th :: rest }

def drainOverflow (q : Queue T) : Queue T := drainLoop q.rqOverflow q

/-- The end of `thread_ready_locked` and of an iteration of `merge_runqueues`. -/
def enqueue (q : Queue T) (th : T) : Queue T :=
  if runtimeRqSize ≤ q.used then { q with rqOverflow := q.rqOverflow ++ [th] } else q.push th

def threadReadyLocked (q : Queue T) (th : T) : Queue T :=
  let q := if q.rqOverflow.isEmpty then q else drainOverflow q
  let q := enqueue q th
  { q with qHead := q.qHead + 1 }

/-- The part of `thread_ready` under the lock. -/
def threadReadySlow (q : Queue T) (th : T) : Queue T :=
  drainOverflow { q with rqOverflow := q.rqOverflow ++ [th] }

/-- The part of `thread_ready_head` under the lock, without the write of `ready_tsc`. -/
def insertHead (q : Queue T) (th : T) : Queue T :=
  let oldestth := q.rq (ringSlot runtimeRqSize (q.rqTail - 1))
  let q := { q with
    rqTail := q.rqTail - 1
    rq := Function.update q.rq (ringSlot runtimeRqSize (q.rqTail - 1)) th }
  if runtimeRqSize < q.used then
    { q with rqOverflow := oldestth :: q.rqOverflow, rqHead := q.rqHead - 1 }
  else q

def threadReadyHeadLocked (q : Queue T) (th : T) : Queue T :=
  let q := insertHead q th
  { q with qHead := q.qHead + 1 }

def Queue.next (q : Queue T) : T := q.rq (ringSlot runtimeRqSize q.rqTail)

/-- The pop of `schedule` and of `enter_schedule`. -/
def popNext (q : Queue T) : Queue T :=
  let q := { q with rqTail := q.rqTail + 1, qTail := q.qTail + 1 }
  if q.rqOverflow.isEmpty then q else drainOverflow q

/-- One iteration of `drain_threads`: the uthread taken, the local tail and the overflow
list after it. -/
def drainOne (rq : Nat → T) (rqHead rqTail : BitVec 32) (rqOverflow : List T) :
    Option (T × BitVec 32 × List T) :=
  if wrapsLt rqTail rqHead then
    some (rq (ringSlot runtimeRqSize rqTail), rqTail + 1, rqOverflow)
  else
    match rqOverflow with
    | [] => none
    | th :: rest => some (th, rqTail, rest)

/-- `drain_threads` on a queue that nobody else touches: the uthreads taken and what is
left of the overflow list. -/
def drainThreads (rq : Nat → T) (rqHead : BitVec 32) : Nat → BitVec 32 → List T → List T × List T
  | 0, _, rqOverflow => ([], rqOverflow)
  | nr + 1, rqTail, rqOverflow =>
    match drainOne rq rqHead rqTail rqOverflow with
    | none => ([], rqOverflow)
    | some (th, rqTail', rqOverflow') =>
      let (ths, left) := drainThreads rq rqHead nr rqTail' rqOverflow'
      (th :: ths, left)

/-- The loop of `merge_runqueues`; the heads of the lists are `cur_l` and `cur_r`. -/
def mergeLoop (readyTsc : T → Nat) : Nat → List T → List T → Queue T → Queue T
  | 0, _, _, q => q
  | n + 1, [], r :: rs, q => mergeLoop readyTsc n [] rs (enqueue q r)
  | n + 1, l :: ls, r :: rs, q =>
    if readyTsc r < readyTsc l then mergeLoop readyTsc n (l :: ls) rs (enqueue q r)
    else mergeLoop readyTsc n ls (r :: rs) (enqueue q l)
  | n + 1, l :: ls, [], q => mergeLoop readyTsc n ls [] (enqueue q l)
  | _ + 1, [], [], q => q

/-- `merge_runqueues` after the victim is unlocked: the thief's own queue of `lsize`
uthreads is rebuilt with the stolen ones. -/
def mergeRunqueues (readyTsc : T → Nat) (q : Queue T) (lsize : Nat) (rThs : List T) : Queue T :=
  let (lThs, left) := drainThreads q.rq q.rqHead lsize q.rqTail q.rqOverflow
  let q := { q with rqOverflow := left, rqHead := 0, rqTail := 0 }
  let q := mergeLoop readyTsc (lThs.length + rThs.length) lThs rThs q
  { q with qHead := q.qHead + BitVec.ofNat 32 rThs.length }

/-- `q_ptrs->rq_head - q_ptrs->rq_tail` -/
def Queue.size (q : Queue T) : Nat := (q.qHead - q.qTail).toNat

/-- `num_to_steal` of `steal_work`, in 32-bit arithmetic. -/
def numToSteal (lsize rsize : Nat) : Nat :=
  if lsize < rsize then min ((rsize - lsize + 1) % 2 ^ 32 / 2) runtimeRqSize else 0

/-! ## The operations on the contents -/

def Queue.Fits (q : Queue T) : Prop := q.used ≤ runtimeRqSize

def Queue.Full (q : Queue T) : Prop := q.rqOverflow ≠ [] → runtimeRqSize ≤ q.used

variable {q : Queue T}

theorem push_fits (th : T) (h : q.used < runtimeRqSize) : (q.push th).Fits := by
  unfold Queue.Fits Queue.used Queue.push Queue.publish Queue.store
  dsimp only
  rw [ringSize.head_succ h]
  exact h

theorem push_elems (th : T) (h : q.used < runtimeRqSize) :
    ringElems runtimeRqSize (q.push th).rq (q.push th).rqHead (q.push th).rqTail =
      ringElems runtimeRqSize q.rq q.rqHead q.rqTail ++ [th] :=
  ringSize.elems_push h

variable {rqTail : BitVec 32}

theorem store_elemsFrom (th : T) (h : (q.rqHead - rqTail).toNat < runtimeRqSize) :
    (q.store th).elemsFrom rqTail = q.elemsFrom rqTail :=
  congrArg (· ++ q.rqOverflow) (ringSize.elems_write h)

theorem publish_elemsFrom (h : (q.rqHead - rqTail).toNat < runtimeRqSize)
    (hempty : q.rqOverflow = []) :
    q.publish.elemsFrom rqTail =
      q.elemsFrom rqTail ++ [q.rq (ringSlot runtimeRqSize q.rqHead)] := by
  unfold Queue.elemsFrom Queue.publish
  dsimp only
  rw [ringSize.elems_publish h, hempty, append_nil, append_nil]

theorem drainLoop_spec (l : List T) (q : Queue T) (hq : q.Fits) : (drainLoop l q).Fits ∧
    (drainLoop l q).elems = ringElems runtimeRqSize q.rq q.rqHead q.rqTail ++ l ∧
    (drainLoop l q).qHead = q.qHead ∧ (drainLoop l q).qTail = q.qTail := by
  induction l generalizing q with
  | nil => exact ⟨hq, rfl, rfl, rfl⟩
  | cons th rest ih =>
    unfold drainLoop
    split
    · rename_i hlt
      obtain ⟨hfits, helems, hqh, hqt⟩ := ih (q.push th) (push_fits th hlt)
      refine ⟨hfits, ?_, hqh, hqt⟩
      rw [helems, push_elems th hlt, append_assoc, singleton_append]
    · exact ⟨hq, rfl, rfl, rfl⟩

/-- What an operation leaves of a queue: it fits, it holds `l`, and the published counters
are `qh` and `qt`. -/
structure Queue.Holds (q : Queue T) (l : List T) (qh qt : BitVec 32) : Prop where
  fits : q.Fits
  elems : q.elems = l
  qHead : q.qHead = qh
  qTail : q.qTail = qt

theorem drainOverflow_holds (hq : q.Fits) : (drainOverflow q).Holds q.elems q.qHead q.qTail := by
  obtain ⟨hfits, helems, hqh, hqt⟩ := drainLoop_spec q.rqOverflow q hq
  exact ⟨hfits, helems, hqh, hqt⟩

theorem drainIfAny_holds (hq : q.Fits) :
    (if q.rqOverflow.isEmpty then q else drainOverflow q).Holds q.elems q.qHead q.qTail := by
  split
  · exact ⟨hq, rfl, rfl, rfl⟩
  · exact drainOverflow_holds hq

theorem drainLoop_full (l : List T) (q : Queue T) (hq : q.Fits) : (drainLoop l q).Full := by
  intro hne
  induction l generalizing q with
  | nil => exact absurd rfl hne
  | cons th rest ih =>
    unfold drainLoop at hne ⊢
    split at hne
    · rename_i hlt
      rw [if_pos hlt]
      exact ih (q.push th) (push_fits th hlt) hne
    · rename_i hge
      rw [if_neg hge]
      exact Nat.le_of_not_lt hge

theorem enqueue_holds (th : T) (hq : q.Fits) (hfull : q.Full) :
    (enqueue q th).Holds (q.elems ++ [th]) q.qHead q.qTail := by
  unfold enqueue
  split
  · refine ⟨hq, ?_, rfl, rfl⟩
    exact (append_assoc _ _ _).symm
  · rename_i hlt
    have hempty : q.rqOverflow = [] := by
      by_contra hne
      exact hlt (hfull hne)
    refine ⟨push_fits th (Nat.lt_of_not_le hlt), ?_, rfl, rfl⟩
    have hpush := push_elems th (Nat.lt_of_not_le hlt)
    unfold Queue.elems Queue.elemsFrom
    rw [hpush, hempty]
    change _ ++ q.rqOverflow = _
    rw [hempty, append_nil, append_nil]

theorem threadReadyLocked_holds (th : T) (hq : q.Fits) :
    (threadReadyLocked q th).Holds (q.elems ++ [th]) (q.qHead + 1) q.qTail := by
  have hd := drainIfAny_holds hq
  have hfull : (if q.rqOverflow.isEmpty then q else drainOverflow q).Full := by
    split
    · rename_i hempty
      intro hne
      exact absurd (isEmpty_iff.1 hempty) hne
    · exact drainLoop_full q.rqOverflow q hq
  have he := enqueue_holds th hd.fits hfull
  unfold threadReadyLocked
  refine ⟨he.fits, ?_, ?_, ?_⟩
  · exact he.elems.trans (by rw [hd.elems])
  · exact congrArg (· + 1) (he.qHead.trans hd.qHead)
  · exact he.qTail.trans hd.qTail

theorem threadReadySlow_holds (th : T) (hq : q.Fits) :
    (threadReadySlow q th).Holds (q.elems ++ [th]) q.qHead q.qTail := by
  have hd := drainOverflow_holds (q := { q with rqOverflow := q.rqOverflow ++ [th] }) hq
  refine ⟨hd.fits, ?_, hd.qHead, hd.qTail⟩
  exact hd.elems.trans (append_assoc _ _ _).symm

theorem insertHead_holds (th : T) (hq : q.Fits) :
    (insertHead q th).Holds (th :: q.elems) q.qHead q.qTail := by
  have hlen : (q.rqHead - (q.rqTail - 1)).toNat = q.used + 1 := by
    have hlt : q.used + 1 < 2 ^ 32 := Nat.lt_of_le_of_lt (Nat.succ_le_succ hq) (by decide)
    rw [ringSize.tail_pred]
    exact Nat.mod_eq_of_lt hlt
  unfold insertHead Queue.used
  dsimp only
  rw [hlen]
  unfold Queue.Fits at hq
  split
  · rename_i hfull
    have hused : (q.rqHead - q.rqTail).toNat = runtimeRqSize :=
      Nat.le_antisymm hq (Nat.le_of_lt_succ hfull)
    refine ⟨?_, ?_, rfl, rfl⟩
    · have hsub : q.rqHead - 1 - (q.rqTail - 1) = q.rqHead - q.rqTail := by ring
      unfold Queue.Fits Queue.used
      dsimp only
      rw [hsub, hused]
    · have hring := ringSize.elems_displace (b := q.rq) (x := th) hused
      unfold Queue.elems Queue.elemsFrom
      dsimp only
      rw [← cons_append, ← hring, append_assoc, singleton_append]
  · rename_i hroom
    have hlt : (q.rqHead - q.rqTail).toNat < runtimeRqSize := Nat.le_of_not_lt hroom
    refine ⟨?_, ?_, rfl, rfl⟩
    · unfold Queue.Fits Queue.used
      dsimp only
      rw [hlen]
      exact hlt
    · unfold Queue.elems Queue.elemsFrom
      dsimp only
      rw [ringSize.elems_cons hlt, cons_append]

theorem threadReadyHeadLocked_holds (th : T) (hq : q.Fits) :
    (threadReadyHeadLocked q th).Holds (th :: q.elems) (q.qHead + 1) q.qTail := by
  have hi := insertHead_holds th hq
  exact ⟨hi.fits, hi.elems, congrArg (· + 1) hi.qHead, hi.qTail⟩

theorem elems_next (hne : q.rqHead ≠ q.rqTail) :
    q.elems = q.next :: ({ q with rqTail := q.rqTail + 1 } : Queue T).elems := by
  unfold Queue.elems Queue.elemsFrom
  rw [ringSize.elems_pop hne]
  rfl

theorem popNext_holds (hq : q.Fits) (hne : q.rqHead ≠ q.rqTail) :
    (popNext q).Holds q.elems.tail q.qHead (q.qTail + 1) := by
  have hfits : ({ q with rqTail := q.rqTail + 1, qTail := q.qTail + 1 } : Queue T).Fits := by
    unfold Queue.Fits Queue.used at hq ⊢
    have htail := ringSize.tail_succ hne
    dsimp only
    omega
  have hd := drainIfAny_holds hfits
  refine ⟨hd.fits, ?_, hd.qHead, hd.qTail⟩
  rw [elems_next hne, tail_cons]
  exact hd.elems

/-! ## Stealing and merging -/

variable {rq : Nat → T} {rqHead : BitVec 32} {rqOverflow : List T}

/-- Within the size of the ring the signed comparison is inequality. -/
theorem wrapsLt_iff_ne (h : (rqHead - rqTail).toNat ≤ runtimeRqSize) :
    wrapsLt rqTail rqHead ↔ rqHead ≠ rqTail := by
  have hsize : runtimeRqSize = 32 := rfl
  have hnear : Near 32 0 (rqHead - rqTail).toNat := by
    unfold Near
    omega
  have htail : serialAt rqTail 0 = rqTail := BitVec.add_zero _
  have hhead : serialAt rqTail (rqHead - rqTail).toNat = rqHead := add_ofNat_sub rqHead rqTail
  have hlt := wrapsLt_serialAt rqTail hnear
  rw [htail, hhead] at hlt
  rw [hlt]
  constructor
  · rintro hpos rfl
    rw [BitVec.sub_self] at hpos
    exact absurd hpos (by decide)
  · intro hne
    have hsucc := ringSize.tail_succ hne
    omega

theorem drainOne_some {th : T} {rqTail' : BitVec 32} {rqOverflow' : List T}
    (h : (rqHead - rqTail).toNat ≤ runtimeRqSize)
    (hd : drainOne rq rqHead rqTail rqOverflow = some (th, rqTail', rqOverflow')) :
    ringElems runtimeRqSize rq rqHead rqTail ++ rqOverflow =
      th :: (ringElems runtimeRqSize rq rqHead rqTail' ++ rqOverflow') ∧
    (rqHead ≠ rqTail ∧ rqTail' = rqTail + 1 ∧ rqOverflow' = rqOverflow ∧
        th = rq (ringSlot runtimeRqSize rqTail) ∨
      rqHead = rqTail ∧ rqTail' = rqTail ∧ rqOverflow = th :: rqOverflow') := by
  unfold drainOne at hd
  split at hd
  · rename_i hlt
    have hne := (wrapsLt_iff_ne h).1 hlt
    cases hd
    rw [ringSize.elems_pop hne]
    exact ⟨rfl, .inl ⟨hne, rfl, rfl, rfl⟩⟩
  · rename_i hge
    have heq : rqHead = rqTail := by
      by_contra hne
      exact hge ((wrapsLt_iff_ne h).2 hne)
    cases rqOverflow with
    | nil => cases hd
    | cons x rest =>
      cases hd
      subst heq
      rw [ringElems_self]
      exact ⟨rfl, .inr ⟨rfl, rfl, rfl⟩⟩

theorem drainOne_none (h : (rqHead - rqTail).toNat ≤ runtimeRqSize)
    (hd : drainOne rq rqHead rqTail rqOverflow = none) :
    ringElems runtimeRqSize rq rqHead rqTail ++ rqOverflow = [] := by
  unfold drainOne at hd
  split at hd
  · cases hd
  · rename_i hge
    have heq : rqHead = rqTail := by
      by_contra hne
      exact hge ((wrapsLt_iff_ne h).2 hne)
    cases rqOverflow with
    | nil =>
      rw [heq, ringElems_self]
      rfl
    | cons x rest =>
      cases hd

theorem drainThreads_all (nr : Nat) (rqTail : BitVec 32) (rqOverflow : List T)
    (h : (rqHead - rqTail).toNat ≤ runtimeRqSize)
    (hnr : nr = (ringElems runtimeRqSize rq rqHead rqTail ++ rqOverflow).length) :
    drainThreads rq rqHead nr rqTail rqOverflow =
      (ringElems runtimeRqSize rq rqHead rqTail ++ rqOverflow, []) := by
  induction nr generalizing rqTail rqOverflow with
  | zero =>
    have hnil := eq_nil_of_length_eq_zero hnr.symm
    rw [hnil]
    unfold drainThreads
    rw [(append_eq_nil_iff.1 hnil).2]
  | succ nr ih =>
    unfold drainThreads
    cases hd : drainOne rq rqHead rqTail rqOverflow with
    | none =>
      rw [drainOne_none h hd] at hnr
      cases hnr
    | some r =>
      obtain ⟨th, rqTail', rqOverflow'⟩ := r
      obtain ⟨helems, hcase⟩ := drainOne_some h hd
      have hle : (rqHead - rqTail').toNat ≤ runtimeRqSize := by
        rcases hcase with ⟨hne, rfl, _, _⟩ | ⟨_, rfl, _⟩
        · have hsucc := ringSize.tail_succ hne
          omega
        · exact h
      rw [helems, length_cons] at hnr
      dsimp only
      rw [ih rqTail' rqOverflow' hle (Nat.succ.inj hnr), helems]

theorem enqueue_full (th : T) (hq : q.Full) : (enqueue q th).Full := by
  unfold enqueue
  split
  · rename_i hfull
    exact fun _ => hfull
  · rename_i hlt
    intro hne
    exact absurd (hq hne) hlt

variable {readyTsc : T → Nat}

def older (readyTsc : T → Nat) (a b : T) : Bool := decide (readyTsc a ≤ readyTsc b)

theorem mergeLoop_holds (readyTsc : T → Nat) (n : Nat) (ls rs : List T) (q : Queue T)
    (hq : q.Fits) (hfull : q.Full) (hn : n = ls.length + rs.length) :
    (mergeLoop readyTsc n ls rs q).Holds (q.elems ++ ls.merge rs (older readyTsc))
      q.qHead q.qTail := by
  induction n generalizing ls rs q with
  | zero =>
    have hls : ls = [] := eq_nil_of_length_eq_zero (by omega)
    have hrs : rs = [] := eq_nil_of_length_eq_zero (by omega)
    subst hls hrs
    rw [nil_merge, append_nil]
    exact ⟨hq, rfl, rfl, rfl⟩
  | succ n ih =>
    -- one uthread is added, the rest is the hypothesis
    have next : ∀ (ls' rs' : List T) (th : T), n = ls'.length + rs'.length →
        (mergeLoop readyTsc n ls' rs' (enqueue q th)).Holds
          (q.elems ++ th :: ls'.merge rs' (older readyTsc)) q.qHead q.qTail := by
      intro ls' rs' th hn'
      have he := enqueue_holds th hq hfull
      have hrest := ih ls' rs' (enqueue q th) he.fits (enqueue_full th hfull) hn'
      rw [he.elems, he.qHead, he.qTail, append_assoc, singleton_append] at hrest
      exact hrest
    cases ls with
    | nil =>
      cases rs with
      | nil => cases hn
      | cons r rs =>
        have hr := next [] rs r (by simpa using hn)
        rw [nil_merge] at hr ⊢
        exact hr
    | cons l ls =>
      cases rs with
      | nil =>
        have hl := next ls [] l (by simpa using hn)
        rw [merge_right] at hl ⊢
        exact hl
      | cons r rs =>
        rw [length_cons, length_cons] at hn
        rw [cons_merge_cons, mergeLoop]
        by_cases hlt : readyTsc r < readyTsc l
        · rw [if_pos hlt, if_neg (by simpa [older] using hlt)]
          exact next (l :: ls) rs r (by rw [length_cons]; omega)
        · rw [if_neg hlt, if_pos (by simpa [older] using hlt)]
          exact next ls (r :: rs) l (by rw [length_cons]; omega)

theorem mergeRunqueues_holds {lsize : Nat} (readyTsc : T → Nat) (rThs : List T) (hq : q.Fits)
    (hlsize : lsize = q.elems.length) :
    (mergeRunqueues readyTsc q lsize rThs).Holds (q.elems.merge rThs (older readyTsc))
      (q.qHead + BitVec.ofNat 32 rThs.length) q.qTail := by
  have hd := drainThreads_all lsize q.rqTail q.rqOverflow hq hlsize
  unfold mergeRunqueues
  rw [hd]
  dsimp only
  have hfits : ({ q with rqOverflow := [], rqHead := 0, rqTail := 0 } : Queue T).Fits := by
    change ((0 : BitVec 32) - 0).toNat ≤ runtimeRqSize
    decide
  have hm := mergeLoop_holds readyTsc (q.elems.length + rThs.length) q.elems rThs
    { q with rqOverflow := [], rqHead := 0, rqTail := 0 } hfits (fun hne => absurd rfl hne) rfl
  refine ⟨hm.fits, ?_, ?_, hm.qTail⟩
  · have hnone : ({ q with rqOverflow := [], rqHead := 0, rqTail := 0 } : Queue T).elems = [] := by
      unfold Queue.elems Queue.elemsFrom
      rw [ringElems_self]
      rfl
    have helems := hm.elems
    rw [hnone, nil_append] at helems
    exact helems
  · exact congrArg (· + BitVec.ofNat 32 rThs.length) hm.qHead

/-- If both are in the order of `ready_tsc`, so is the merge. -/
theorem merge_ordered {l r : List T} (hl : l.Pairwise (fun a b => readyTsc a ≤ readyTsc b))
    (hr : r.Pairwise (fun a b => readyTsc a ≤ readyTsc b)) :
    (l.merge r (older readyTsc)).Pairwise (fun a b => readyTsc a ≤ readyTsc b) := by
  have hle : ∀ a b : T, older readyTsc a b = true ↔ readyTsc a ≤ readyTsc b := by
    intro a b
    exact decide_eq_true_iff
  simp only [← hle] at hl hr ⊢
  refine pairwise_merge ?_ ?_ l r hl hr
  · intro a b c hab hbc
    exact (hle a c).2 (Nat.le_trans ((hle a b).1 hab) ((hle b c).1 hbc))
  · intro a b
    simpa [older] using Nat.le_total (readyTsc a) (readyTsc b)

end Model

end Svalinn.Runtime.RunQueue
