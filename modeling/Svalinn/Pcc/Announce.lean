/-
  Pcc/Announce.lean --- the connections of a client session that their servers know of.

  Source: `breakwater/src/pcc_client.c` (`crpc_enqueue_one`, `cpcc_add_connection`,
  `cpcc_send_one`, `cpcc_recv_one`), as modelled in `Pcc/ClientQueue.lean`.

  A server grants credit to a connection that has sent it a header.  A connection without
  credit sends one only when the session sends its very first message, so a connection that is
  added later is never heard of.
-/
import Svalinn.Pcc.ClientQueue

set_option autoImplicit false

namespace Svalinn.Pcc.Announce

open Svalinn.Lib Svalinn.Pcc.ClientQueue Function List Option

def sentOn : Departure → Option Nat
  | .sent i _ _ _ _ _ _ => some i
  | .dropped _ => none

/-- A header has been sent on connection `i`: `PCC_OP_CREDIT` or `PCC_OP_CALL`. -/
def Announced (s : Session) (i : Nat) : Prop :=
  (∃ m ∈ s.cupdates, m.1 = i) ∨ ∃ d ∈ s.log, sentOn d = some i

instance (s : Session) (i : Nat) : Decidable (Announced s i) := instDecidableOr

/-! ## The property and the condition -/

def AllAnnounced (s : Session) : Prop := s.head ≠ s.tail → ∀ i, i < s.nconns → Announced s i

instance (s : Session) : Decidable (AllAnnounced s) :=
  inferInstanceAs (Decidable (s.head ≠ s.tail → ∀ i, i < s.nconns → Announced s i))

def Guard (s : Session) : Event → Prop
  | .addConnection => s.init = false
  | _ => True

instance (s : Session) (ev : Event) : Decidable (Guard s ev) :=
  match ev with
  | .addConnection => inferInstanceAs (Decidable (s.init = false))
  | .send .. | .recv .. | .drain _ | .timer _ => .isTrue trivial

/-! ## What a call can do -/

/-- From `s` to `t` headers are only added, on connections of the session, and the queue is
filled only once every connection has sent one. -/
structure Follows (s t : Session) : Prop where
  nconns : t.nconns = s.nconns
  kept : ∀ i, Announced s i → Announced t i
  known : ∀ i, Announced t i → Announced s i ∨ i < s.nconns
  init : s.init = true → t.init = true
  queued : t.head ≠ t.tail → s.head ≠ s.tail ∨ t.init = true
  asked : s.init = false → t.init = true → ∀ i, i < t.nconns → Announced t i

section Calls

variable {s t u : Session} {now : Nat}

theorem Follows.same (hnconns : t.nconns = s.nconns) (hcupdates : t.cupdates = s.cupdates)
    (hlog : t.log = s.log) (hinit : t.init = s.init) (hqueued : t.head ≠ t.tail → s.head ≠ s.tail) :
    Follows s t where
  nconns := hnconns
  kept i h := by
    unfold Announced
    rw [hcupdates, hlog]
    exact h
  known i h := by
    unfold Announced at h
    rw [hcupdates, hlog] at h
    exact .inl h
  init h := hinit.trans h
  queued h := .inl (hqueued h)
  asked hs ht := absurd (hs.symm.trans (hinit.symm.trans ht)) Bool.false_ne_true

theorem Follows.refl (s : Session) : Follows s s := .same rfl rfl rfl rfl id

theorem Follows.trans (hst : Follows s t) (htu : Follows t u) : Follows s u where
  nconns := htu.nconns.trans hst.nconns
  kept i h := htu.kept i (hst.kept i h)
  known i h := by
    obtain h | h := htu.known i h
    · exact hst.known i h
    · exact .inr (hst.nconns ▸ h)
  init h := htu.init (hst.init h)
  queued h := by
    obtain h | h := htu.queued h
    · obtain h | h := hst.queued h
      · exact .inl h
      · exact .inr (htu.init h)
    · exact .inr h
  asked hs hu i hi := by
    cases ht : t.init with
    | false => exact htu.asked ht hu i hi
    | true => exact htu.kept i (hst.asked hs ht i (htu.nconns ▸ hi))

theorem Follows.departs (d : Departure) (hd : ∀ i, sentOn d = some i → i < s.nconns)
    (hnconns : t.nconns = s.nconns) (hcupdates : t.cupdates = s.cupdates)
    (hlog : t.log = s.log ++ [d]) (hinit : t.init = s.init)
    (hqueued : t.head ≠ t.tail → s.head ≠ s.tail) : Follows s t where
  nconns := hnconns
  kept i h := by
    obtain ⟨m, hm, hi⟩ | ⟨e, he, hi⟩ := h
    · exact .inl ⟨m, hcupdates ▸ hm, hi⟩
    · exact .inr ⟨e, hlog ▸ mem_append_left _ he, hi⟩
  known i h := by
    obtain ⟨m, hm, hi⟩ | ⟨e, he, hi⟩ := h
    · exact .inl (.inl ⟨m, hcupdates ▸ hm, hi⟩)
    · rw [hlog] at he
      obtain he | he := mem_append.1 he
      · exact .inl (.inr ⟨e, he, hi⟩)
      · rw [mem_singleton.1 he] at hi
        exact .inr (hd i hi)
  init h := hinit.trans h
  queued h := .inl (hqueued h)
  asked hs ht := absurd (hs.symm.trans (hinit.symm.trans ht)) Bool.false_ne_true

theorem follows_dropFirst (hne : s.head ≠ s.tail) : Follows s s.dropFirst :=
  .departs (.dropped s.first.id) nofun rfl rfl rfl rfl fun _ => hne

theorem follows_sendFirst {i drain : Nat} (hne : s.head ≠ s.tail) (hi : i < s.nconns) :
    Follows s (s.sendFirst i drain) := by
  refine .departs _ ?_ rfl rfl rfl rfl fun _ => hne
  rintro j ⟨⟩
  exact hi

theorem follows_sendLoop {i drain : Nat} (n : Nat) (hi : i < s.nconns) :
    Follows s (sendLoop i drain n s) := by
  induction n generalizing s with
  | zero => exact .refl s
  | succ n ih =>
    unfold sendLoop
    split
    · rename_i hgo
      exact (follows_sendFirst hgo.1 hi).trans (ih hi)
    · exact .refl s

theorem follows_dropLoop (keep : CrpcCtx → Bool) (n : Nat) (s : Session) :
    Follows s (dropLoop keep n s) := by
  induction n generalizing s with
  | zero => exact .refl s
  | succ n ih =>
    unfold dropLoop
    split
    · exact .refl s
    · rename_i hne
      split
      · exact .refl s
      · exact (follows_dropFirst hne).trans (ih _)

theorem follows_crpcSendRequestVector {i : Nat} (drain : Nat) (hi : i < s.nconns) :
    Follows s (s.crpcSendRequestVector i drain) := by
  unfold Session.crpcSendRequestVector
  split
  · exact .refl s
  · have hloop : Follows s (sendLoop i drain s.demand s) := follows_sendLoop _ hi
    dsimp only
    split
    · exact hloop.trans (.same rfl rfl rfl rfl fun h => absurd rfl h)
    · exact hloop

theorem mem_candidates {i : Nat} (hpos : 0 < s.nconns)
    (h : i ∈ (List.range s.nconns).map fun j => (s.nextConnIdx + j) % s.nconns) : i < s.nconns := by
  obtain ⟨j, -, rfl⟩ := mem_map.1 h
  exact Nat.mod_lt _ hpos

theorem follows_crpcDrainQueue (hpos : 0 < s.nconns) (drain : Nat) :
    Follows s (s.crpcDrainQueue drain) := by
  unfold Session.crpcDrainQueue
  split
  · exact .refl s
  · have hloop : Follows s (dropLoop (keepInDrain drain) s.demand s) := follows_dropLoop _ _ s
    generalize dropLoop (keepInDrain drain) s.demand s = s₁ at hloop ⊢
    dsimp only
    split
    · exact hloop
    · rename_i i hfind
      have hi : i < s₁.nconns := mem_candidates (hloop.nconns ▸ hpos) (List.mem_of_find?_eq_some hfind)
      have hsent := hloop.trans (follows_crpcSendRequestVector drain hi)
      exact hsent.trans (.same rfl rfl rfl rfl id)

/-- The very first message asks on every connection, whatever the queue holds. -/
theorem Follows.firstMessage (hnconns : t.nconns = s.nconns) (hcupdates : t.cupdates = s.cupdates)
    (hlog : t.log = s.log) : Follows s t.firstMessage where
  nconns := hnconns
  kept i h := by
    obtain ⟨m, hm, hi⟩ | ⟨d, hd, hi⟩ := h
    · exact .inl ⟨m, mem_append_left _ (hcupdates ▸ hm), hi⟩
    · exact .inr ⟨d, hlog ▸ hd, hi⟩
  known i h := by
    obtain ⟨m, hm, hi⟩ | ⟨d, hd, hi⟩ := h
    · obtain hm | hm := mem_append.1 hm
      · exact .inl (.inl ⟨m, hcupdates ▸ hm, hi⟩)
      · obtain ⟨j, hj, rfl⟩ := mem_map.1 hm
        exact .inr (hi ▸ hnconns ▸ mem_range.1 hj)
    · exact .inl (.inr ⟨d, hlog ▸ hd, hi⟩)
  init _ := rfl
  queued _ := .inr rfl
  asked _ _ i hi :=
    .inl ⟨(i, t.demand), mem_append_right _ (mem_map.2 ⟨i, mem_range.2 hi, rfl⟩), rfl⟩

theorem follows_crpcEnqueueOne (h : Inv now s) (len : Nat) : Follows s (s.crpcEnqueueOne now len) := by
  obtain ⟨s₁, hs₁, hcases, -⟩ := h.room
  have hroom : Follows s s₁ := by
    obtain rfl | ⟨hne, rfl⟩ := hcases
    · exact .refl _
    · exact follows_dropFirst hne
  unfold Session.crpcEnqueueOne
  dsimp only
  rw [← hs₁]
  split
  · -- the queue may be filled: the first message has been sent
    rename_i hinit
    exact { hroom with queued := fun _ => .inr hinit }
  · have hfirst : Follows s₁ (s₁.push now len).firstMessage := .firstMessage rfl rfl rfl
    exact hroom.trans hfirst

theorem follows_crpcSendRaw (len : Nat) (hindexed : s.nextConnIdx < s.nconns) :
    Follows s (s.crpcSendRaw len) := by
  refine .departs _ ?_ rfl rfl rfl rfl id
  rintro j ⟨⟩
  exact hindexed

theorem follows_cpccSendOne {drain len : Nat} (h : Inv now s) :
    Follows s (s.cpccSendOne now drain len) := by
  unfold Session.cpccSendOne
  split
  · exact .refl s
  split
  · exact follows_crpcSendRaw len h.indexed
  · have henqueued := follows_crpcEnqueueOne h len
    have hpos := Nat.zero_lt_of_lt h.indexed
    exact henqueued.trans (follows_crpcDrainQueue (henqueued.nconns ▸ hpos) drain)

theorem follows_cpccRecvOne (hpos : 0 < s.nconns) (i : Nat) (m : ServerMsg) (time : Nat) :
    Follows s (s.cpccRecvOne i m time) := by
  unfold Session.cpccRecvOne
  dsimp only
  have hcredited : Follows s { s with conns := update s.conns i ((s.conns i).credited m) } :=
    .same rfl rfl rfl rfl id
  split
  · refine hcredited.trans (follows_crpcDrainQueue ?_ time)
    exact hpos
  · exact hcredited

theorem follows_step {e : Event} (h : Inv s.clock s) (hne : e ≠ .addConnection)
    (hstep : step s e = some t) : Follows s t := by
  have hpos := Nat.zero_lt_of_lt h.indexed
  have hafter : ∀ {s' start stop}, s.after s' start stop = some t →
      (s.clock ≤ start → Follows s s') → Follows s t := by
    intro s' start stop hs' hfollows
    obtain ⟨⟨hstart, -, -⟩, rfl⟩ := ite_some_none_eq_some.1 hs'
    exact (hfollows hstart).trans (.same rfl rfl rfl rfl id)
  cases e with
  | send now drain len => exact hafter hstep fun hstart => follows_cpccSendOne (h.mono hstart)
  | recv i m now =>
    obtain ⟨-, hstep⟩ := ite_none_right_eq_some.1 hstep
    exact hafter hstep fun _ => follows_cpccRecvOne hpos i m now
  | drain now => exact hafter hstep fun _ => follows_crpcDrainQueue hpos now
  | timer now => exact hafter hstep fun _ => follows_dropLoop _ _ s
  | addConnection => exact absurd rfl hne

end Calls

/-! ## Every run -/

/-- What holds in every run, wherever connections are added. -/
structure Sound (s : Session) : Prop where
  session : Inv s.clock s
  clock : s.clock < 2 ^ 64
  known : ∀ i, Announced s i → i < s.nconns
  started : s.head ≠ s.tail → s.init = true

theorem clock_lt {s t : Session} {e : Event} (h : s.clock < 2 ^ 64) (hstep : step s e = some t) :
    t.clock < 2 ^ 64 := by
  have hafter : ∀ {s' start stop}, s.after s' start stop = some t → t.clock < 2 ^ 64 := by
    intro s' start stop hs'
    obtain ⟨⟨-, -, hlt⟩, rfl⟩ := ite_some_none_eq_some.1 hs'
    exact hlt
  cases e with
  | send _ _ _ | drain _ | timer _ => exact hafter hstep
  | recv i m now => exact hafter (ite_none_right_eq_some.1 hstep).2
  | addConnection =>
    cases hstep
    exact h

theorem Sound.keeps {s t : Session} {e : Event} (h : Sound s) (hstep : step s e = some t) : Sound t := by
  have hsession := h.session.keeps hstep
  have hclock := clock_lt h.clock hstep
  by_cases he : e = .addConnection
  · subst he
    cases hstep
    exact ⟨hsession, hclock, fun i hi => Nat.lt_succ_of_lt (h.known i hi), h.started⟩
  · have hfollows := follows_step h.session he hstep
    refine ⟨hsession, hclock, fun i hi => ?_, fun hne => ?_⟩
    · rw [hfollows.nconns]
      obtain hi | hi := hfollows.known i hi
      · exact h.known i hi
      · exact hi
    · obtain hne | hinit := hfollows.queued hne
      · exact hfollows.init (h.started hne)
      · exact hinit

theorem sound_cpccOpen : Sound cpccOpen where
  session := inv_cpccOpen
  clock := by decide
  known i h := by
    obtain ⟨m, hm, -⟩ | ⟨d, hd, -⟩ := h
    · nomatch hm
    · nomatch hd
  started h := absurd rfl h

theorem sound_of_reaches {s : Session} (hreach : Reaches step anyStep cpccOpen s) : Sound s :=
  hreach.invariant sound_cpccOpen fun _ _ _ h _ hs => h.keeps hs

/-! ## Runs that add connections first -/

def Asked (s : Session) : Prop := s.init = true → ∀ i, i < s.nconns → Announced s i

theorem Asked.keeps {s t : Session} {e : Event} (hs : Sound s) (h : Asked s) (hguard : Guard s e)
    (hstep : step s e = some t) : Asked t := by
  by_cases he : e = .addConnection
  · subst he
    cases hstep
    exact fun hinit => absurd (hguard.symm.trans hinit) Bool.false_ne_true
  · have hfollows := follows_step hs.session he hstep
    intro hinit i hi
    cases hbefore : s.init with
    | false => exact hfollows.asked hbefore hinit i hi
    | true => exact hfollows.kept i (h hbefore i (hfollows.nconns ▸ hi))

theorem allAnnounced_of_guarded {s : Session} (hreach : Reaches step Guard cpccOpen s) :
    AllAnnounced s := by
  have hboth : Sound s ∧ Asked s := hreach.invariant (P := fun u => Sound u ∧ Asked u)
    ⟨sound_cpccOpen, nofun⟩ fun _ _ _ h hok hs => ⟨h.1.keeps hs, h.2.keeps h.1 hok hs⟩
  exact fun hne => hboth.2 (hboth.1.started hne)

/-! ## A connection that is added later -/

theorem cpccRecvOne_ecredit_zero (s : Session) (i now : Nat) : s.cpccRecvOne i (.ecredit 0) now =
    { s with conns := update s.conns i ⟨false, 0, (s.conns i).creditUsed⟩ } := by
  simp [Session.cpccRecvOne, Conn.credited]

theorem revoke {s : Session} (hclock : s.clock < 2 ^ 64) (n : Nat) (hn : n ≤ s.nconns) :
    ∃ conns : Nat → Conn, Reaches step anyStep s { s with conns := conns } ∧
      ∀ i, i < n → (conns i).hasCredit = false := by
  induction n with
  | zero => exact ⟨s.conns, .refl, nofun⟩
  | succ n ih =>
    obtain ⟨conns, hreach, hnone⟩ := ih (Nat.le_of_lt hn)
    refine ⟨update conns n ⟨false, 0, (conns n).creditUsed⟩, ?_, fun i hi => ?_⟩
    · refine hreach.tail (a := .recv n (.ecredit 0) s.clock) trivial ?_
      refine (if_pos hn).trans ?_
      rw [cpccRecvOne_ecredit_zero]
      exact if_pos ⟨Nat.le_refl _, Nat.le_refl _, hclock⟩
    · by_cases hin : i = n
      · rw [hin, update_self]
        exact decide_eq_false (Nat.not_lt_zero _)
      · rw [update_of_ne hin]
        exact hnone i (by omega)

theorem head_push_ne_tail {s : Session} {now len : Nat} (hempty : s.head = s.tail) :
    (s.push now len).head ≠ (s.push now len).tail := by
  change s.head + 1 ≠ s.tail
  rw [hempty]
  intro h
  exact absurd (BitVec.add_right_eq_self.1 h) (by decide)

theorem dropLoop_of_keep {keep : CrpcCtx → Bool} {s : Session} (hkeep : keep s.first = true) (n : Nat) :
    dropLoop keep n s = s := by
  cases n with
  | zero => rfl
  | succ n =>
    unfold dropLoop
    rw [if_pos hkeep, ite_self]

theorem send_without_credit {s : Session} (hinit : s.init = true) (hempty : s.head = s.tail)
    (hindexed : s.nextConnIdx < s.nconns) (hnone : ∀ i, i < s.nconns → (s.conns i).hasCredit = false)
    (now : Nat) : s.cpccSendOne now now 0 = s.push now 0 := by
  have hcold : ¬ ((s.conns s.nextConnIdx).hasCredit = true ∧ s.head = s.tail) := by
    rw [hnone _ hindexed]
    exact fun h => Bool.false_ne_true h.1
  have hdemand : s.demand = 0 := by
    unfold Session.demand
    rw [hempty, BitVec.sub_self]
    rfl
  have henqueued : s.crpcEnqueueOne now 0 = s.push now 0 := by
    have hroom : ¬ s.demand ≥ crpcQlen := by
      rw [hdemand]
      decide
    unfold Session.crpcEnqueueOne
    rw [if_neg hroom]
    exact if_pos hinit
  have hnew : (s.push now 0).head ≠ (s.push now 0).tail := head_push_ne_tail hempty
  have hfirst : (s.push now 0).first = ⟨s.reqId, 0, now⟩ := by
    unfold Session.first Session.push
    rw [← hempty]
    exact update_self ..
  have hkept : dropLoop (keepInDrain now) (s.push now 0).demand (s.push now 0) = s.push now 0 := by
    refine dropLoop_of_keep ?_ _
    rw [hfirst]
    refine decide_eq_true (.inr ?_)
    have hnow : sub64 now now = 0 := by
      unfold sub64
      omega
    rw [hnow]
    exact Nat.zero_le _
  have hfind : (s.push now 0).findConn = none := by
    refine List.find?_eq_none.2 fun i hi => ?_
    have hlt : i < s.nconns := mem_candidates (Nat.zero_lt_of_lt hindexed) hi
    change ¬ (!(s.conns i).waitingResp && (s.conns i).hasCredit) = true
    rw [hnone i hlt, Bool.and_false]
    exact Bool.false_ne_true
  unfold Session.cpccSendOne
  rw [if_neg (by decide), if_neg hcold, henqueued]
  unfold Session.crpcDrainQueue
  rw [if_neg hnew, hkept]
  dsimp only
  rw [hfind]

/-- A connection that is added after the first message can be left unheard of while a request
waits. -/
theorem unannounced_of_late {s t : Session} (hs : Sound s) (hinit : s.init = true)
    (hstep : step s .addConnection = some t) :
    ∃ u, Reaches step anyStep t u ∧ ¬ AllAnnounced u := by
  have ht := hs.keeps hstep
  cases hstep
  have hunknown : ¬ Announced s s.nconns := fun h => Nat.lt_irrefl _ (hs.known _ h)
  by_cases hempty : s.head = s.tail
  · obtain ⟨conns, hreach, hnone⟩ := revoke ht.clock s.cpccAddConnection.nconns (Nat.le_refl _)
    refine ⟨_, hreach.tail (a := .send s.clock s.clock 0) trivial
      (if_pos ⟨Nat.le_refl _, Nat.le_refl _, hs.clock⟩), fun hall => ?_⟩
    have hsend := send_without_credit (s := { s.cpccAddConnection with conns := conns }) hinit hempty
      ht.session.indexed hnone s.clock
    rw [hsend] at hall
    exact hunknown (hall (head_push_ne_tail hempty) s.nconns (Nat.lt_succ_self _))
  · exact ⟨_, .refl, fun hall => hunknown (hall hempty s.nconns (Nat.lt_succ_self _))⟩

/-- Where connections are added only before the first message, every connection has sent a header
whenever a request is queued. After a later `cpcc_add_connection` this can fail. -/
theorem connections_announced_iff {s : Session} (hreach : Reaches step anyStep cpccOpen s) :
    (Reaches step Guard cpccOpen s → AllAnnounced s) ∧
    ∀ t, step s .addConnection = some t → ¬ Guard s .addConnection →
      ∃ u, Reaches step anyStep t u ∧ ¬ AllAnnounced u := by
  refine ⟨allAnnounced_of_guarded, fun t hstep hlate => ?_⟩
  exact unannounced_of_late (sound_of_reaches hreach) (Bool.not_eq_false _ ▸ hlate) hstep

/-- Two connections, then a request that waits for credit: both have been announced. -/
theorem connections_announced_two : ∃ s : Session, Reaches step Guard cpccOpen s ∧
    s.nconns = 2 ∧ s.head ≠ s.tail ∧ AllAnnounced s := by
  obtain ⟨s, hreach, hnconns, hne⟩ : ∃ s, Reaches step Guard cpccOpen s ∧
      s.nconns = 2 ∧ s.head ≠ s.tail :=
    exists_of_runChecked [.addConnection, .send 0 0 8] (by decide)
  have hany := hreach.mono fun _ _ _ => trivial
  exact ⟨s, hreach, hnconns, hne, (connections_announced_iff hany).1 hreach⟩

/-- The second connection is added after the first request: nothing is ever sent on it. -/
theorem late_connection_unannounced : ∃ s : Session, Reaches step anyStep cpccOpen s ∧
    s.nconns = 2 ∧ s.head ≠ s.tail ∧ ¬ Announced s 1 ∧ ¬ AllAnnounced s := by
  obtain ⟨s, hreach, hnconns, hne, hunknown⟩ : ∃ s, Reaches step anyStep cpccOpen s ∧
      s.nconns = 2 ∧ s.head ≠ s.tail ∧ ¬ Announced s 1 :=
    exists_of_runActions [.send 0 0 8, .addConnection, .recv 0 (.ecredit 1) 5, .send 10 10 8, .send 20 20 8] (by decide)
  refine ⟨s, hreach, hnconns, hne, hunknown, fun hall => ?_⟩
  exact hunknown (hall hne 1 (by omega))

end Svalinn.Pcc.Announce
