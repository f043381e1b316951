/-
  Tcp/Options.lean --- the parser of the options of a SYN.

  Source: `runtime/net/tcp_in.c` (`tcp_parse_options`), `inc/net/tcp.h`.

  The parser is run on the memory from the first option byte on, so that it may read on into
  what follows the options.  The positions it reads are recorded.  An iteration moves the
  pointer by the length byte of the option and subtracts the same number from the remaining
  length; neither is compared with the other or with what the option is read from.
-/
import Svalinn.Lib.Bytes
import Svalinn.Tcp.Handshake

set_option autoImplicit false

namespace Svalinn.Tcp.Options

open Svalinn.Lib List

/-! ## The parser -/

/-- `TCP_OPT_EOL`. -/
def tcpOptEol : UInt8 := 0

/-- `TCP_OPT_NOP`. -/
def tcpOptNop : UInt8 := 1

/-- `TCP_OPT_MSS`. -/
def tcpOptMss : UInt8 := 2

/-- `TCP_OPT_WSCALE`. -/
def tcpOptWscale : UInt8 := 3

/-- `TCP_OLEN_MSS`. -/
def tcpOlenMss : Nat := 4

/-- `TCP_OLEN_WSCALE`. -/
def tcpOlenWscale : Nat := 3

/-- The variables of the loop, and the positions it has read. -/
structure Parse where
  /-- where `ptr` points, from the first option byte on -/
  pos : Nat
  len : Int
  mss : Nat
  wscale : Nat
  /-- `TCP_OPTION_MSS` and `TCP_OPTION_WSCALE` in `opt_en` -/
  mssOn : Bool
  wscaleOn : Bool
  reads : List Nat
  deriving DecidableEq

/-- Before the first iteration. -/
def Parse.start (len : Nat) : Parse := ⟨0, len, 0, 0, false, false, []⟩

/-- An iteration goes on or ends the loop. -/
inductive Outcome where
  | next (s : Parse)
  | done (s : Parse)
  deriving DecidableEq

/-- The `switch` for an option that has a length byte. -/
def parseOption (mem : Nat → UInt8) (s : Parse) : Parse :=
  let opsize := (mem (s.pos + 1)).toNat
  -- two increments of `ptr`, and then `opsize - 2`
  let s' := { s with
    pos := s.pos + opsize
    len := s.len - opsize
    reads := (s.pos + 1) :: s.pos :: s.reads }
  if mem s.pos = tcpOptMss ∧ opsize = tcpOlenMss then
    { s' with
      mss := 256 * (mem (s.pos + 2)).toNat + (mem (s.pos + 3)).toNat
      mssOn := true
      reads := (s.pos + 3) :: (s.pos + 2) :: s'.reads }
  else if mem s.pos = tcpOptWscale ∧ opsize = tcpOlenWscale then
    { s' with
      wscale := min (mem (s.pos + 2)).toNat 14
      wscaleOn := true
      reads := (s.pos + 2) :: s'.reads }
  else s'

/-- `TCP_OPT_EOL` ends the loop. -/
def parseEol (s : Parse) : Parse := { s with reads := s.pos :: s.reads }

/-- `TCP_OPT_NOP` has no length byte. -/
def parseNop (s : Parse) : Parse :=
  { s with pos := s.pos + 1, len := s.len - 1, reads := s.pos :: s.reads }

/-- The body of the loop. -/
def parseBody (mem : Nat → UInt8) (s : Parse) : Outcome :=
  if mem s.pos = tcpOptEol then .done (parseEol s)
  else if mem s.pos = tcpOptNop then .next (parseNop s)
  else .next (parseOption mem s)

/-- The loop, for at most the given number of iterations; `none` if it has not ended. -/
def parseLoop (mem : Nat → UInt8) : Nat → Parse → Option Parse
  | 0, s => if s.len > 0 then none else some s
  | n + 1, s =>
    if s.len > 0 then
      match parseBody mem s with
      | .done s' => some s'
      | .next s' => parseLoop mem n s'
    else some s

/-- What is then stored in the connection, in the form the handshake takes it. -/
def Parse.options (s : Parse) : TcpOptions where
  mss := if s.mssOn then some s.mss else none
  wscale := if s.wscaleOn then some s.wscale else none

/-! ## Well-formed options -/

/-- The bytes of the option at a position that has a length byte are inside, and it moves on. -/
structure OptionInside (mem : Nat → UInt8) (n pos : Nat) : Prop where
  size : pos + 1 < n
  moves : mem (pos + 1) ≠ 0
  mss : mem pos = tcpOptMss → (mem (pos + 1)).toNat = tcpOlenMss → pos + 3 < n
  wscale : mem pos = tcpOptWscale → (mem (pos + 1)).toNat = tcpOlenWscale → pos + 2 < n

/-- There is an MSS option of the right length at the position. -/
def isMss (mem : Nat → UInt8) (pos : Nat) : Bool :=
  decide (mem pos = tcpOptMss ∧ (mem (pos + 1)).toNat = tcpOlenMss)

/-- From the position on there are options up to the end, each inside the first `n` bytes; the
flag says whether an MSS option is among them. -/
inductive Parsable (mem : Nat → UInt8) (n : Nat) : Nat → Bool → Prop
  | done {pos : Nat} (hpos : n ≤ pos) : Parsable mem n pos false
  | eol {pos : Nat} (hpos : pos < n) (hcode : mem pos = tcpOptEol) : Parsable mem n pos false
  | nop {pos : Nat} {mss : Bool} (hpos : pos < n) (hcode : mem pos = tcpOptNop)
      (rest : Parsable mem n (pos + 1) mss) : Parsable mem n pos mss
  | option {pos : Nat} {mss : Bool} (hpos : pos < n) (heol : mem pos ≠ tcpOptEol)
      (hnop : mem pos ≠ tcpOptNop) (inside : OptionInside mem n pos)
      (rest : Parsable mem n (pos + (mem (pos + 1)).toNat) mss) :
      Parsable mem n pos (isMss mem pos || mss)

/-- The options are well formed, with or without an MSS option. -/
def WellFormed (bs : List UInt8) (mss : Bool) : Prop := Parsable (byteAt bs) bs.length 0 mss

/-- Only the bytes of the options matter. -/
theorem Parsable.congr {mem mem' : Nat → UInt8} {n pos : Nat} {mss : Bool}
    (h : Parsable mem n pos mss) (heq : ∀ i < n, mem i = mem' i) : Parsable mem' n pos mss := by
  induction h with
  | done hpos => exact .done hpos
  | eol hpos hcode => exact .eol hpos ((heq _ hpos).symm.trans hcode)
  | nop hpos hcode _ ih => exact .nop hpos ((heq _ hpos).symm.trans hcode) ih
  | @option pos mss hpos heol hnop inside _ ih =>
    have hcode := heq _ hpos
    have hsize := heq _ inside.size
    have hmss : isMss mem pos = isMss mem' pos := by rw [isMss, isMss, hcode, hsize]
    rw [hcode] at heol hnop
    rw [hsize] at ih
    rw [hmss]
    refine .option hpos heol hnop ⟨inside.size, hsize ▸ inside.moves, ?_, ?_⟩ ih
    · rw [← hcode, ← hsize]
      exact inside.mss
    · rw [← hcode, ← hsize]
      exact inside.wscale

/-! ## The loop -/

/-- The remaining length is counted down as the pointer moves on. -/
def InStep (n : Nat) (s : Parse) : Prop := s.len = (n : Int) - s.pos

theorem parseOption_pos (mem : Nat → UInt8) (s : Parse) :
    (parseOption mem s).pos = s.pos + (mem (s.pos + 1)).toNat := by
  unfold parseOption
  dsimp only
  split
  · rfl
  · split <;> rfl

theorem parseOption_len (mem : Nat → UInt8) (s : Parse) :
    (parseOption mem s).len = s.len - (mem (s.pos + 1)).toNat := by
  unfold parseOption
  dsimp only
  split
  · rfl
  · split <;> rfl

theorem parseOption_mssOn (mem : Nat → UInt8) (s : Parse) :
    (parseOption mem s).mssOn = (s.mssOn || isMss mem s.pos) := by
  unfold parseOption isMss
  dsimp only
  split
  · rename_i hmss
    rw [decide_eq_true hmss, Bool.or_true]
  · rename_i hmss
    rw [decide_eq_false hmss, Bool.or_false]
    split <;> rfl

theorem parseOption_inStep {mem : Nat → UInt8} {n : Nat} {s : Parse} (h : InStep n s) :
    InStep n (parseOption mem s) := by
  unfold InStep at h ⊢
  rw [parseOption_len, parseOption_pos, h]
  omega

/-- The positions that are read for an option. -/
theorem mem_parseOption_reads {mem : Nat → UInt8} {s : Parse} {r : Nat} :
    r ∈ (parseOption mem s).reads ↔ r = s.pos ∨ r = s.pos + 1 ∨
      (mem s.pos = tcpOptMss ∧ (mem (s.pos + 1)).toNat = tcpOlenMss ∧
        (r = s.pos + 2 ∨ r = s.pos + 3)) ∨
      (mem s.pos = tcpOptWscale ∧ (mem (s.pos + 1)).toNat = tcpOlenWscale ∧ r = s.pos + 2) ∨
      r ∈ s.reads := by
  have hne : tcpOptMss ≠ tcpOptWscale := by decide
  unfold parseOption
  dsimp only
  split
  · rename_i hmss
    have hscale : ¬ mem s.pos = tcpOptWscale := hmss.1 ▸ hne
    simp only [mem_cons, hmss, hmss.1 ▸ hscale, true_and, false_and, false_or]
    tauto
  · rename_i hmss
    split
    · rename_i hscale
      simp only [mem_cons]
      tauto
    · rename_i hscale
      simp only [mem_cons]
      tauto

theorem parseLoop_succ {mem : Nat → UInt8} {n : Nat} {s : Parse} (hlen : s.len > 0) :
    parseLoop mem (n + 1) s =
      if mem s.pos = tcpOptEol then some (parseEol s)
      else if mem s.pos = tcpOptNop then parseLoop mem n (parseNop s)
      else parseLoop mem n (parseOption mem s) := by
  rw [parseLoop, if_pos hlen, parseBody]
  split_ifs <;> rfl

theorem parseLoop_end {mem : Nat → UInt8} {n : Nat} {s : Parse} (hlen : ¬ s.len > 0) :
    parseLoop mem n s = some s := by
  cases n with
  | zero | succ _ => exact if_neg hlen

/-- What was read stays recorded. -/
theorem parseLoop_reads {mem : Nat → UInt8} {n : Nat} {s s' : Parse}
    (h : parseLoop mem n s = some s') {r : Nat} (hr : r ∈ s.reads) : r ∈ s'.reads := by
  induction n generalizing s with
  | zero =>
    obtain ⟨-, ⟨⟩⟩ := Option.ite_none_left_eq_some.1 h
    exact hr
  | succ n ih =>
    by_cases hlen : s.len > 0
    · rw [parseLoop_succ hlen] at h
      split_ifs at h
      · cases h
        exact mem_cons_of_mem _ hr
      · exact ih h (mem_cons_of_mem _ hr)
      · exact ih h (mem_parseOption_reads.2 (.inr (.inr (.inr (.inr hr)))))
    · rw [parseLoop_end hlen] at h
      cases h
      exact hr

/-- Well-formed options are parsed in at most as many iterations as there are bytes left, nothing
behind them is read, and an MSS option is noticed. -/
theorem parseLoop_of_parsable {mem : Nat → UInt8} {n pos : Nat} {mss : Bool}
    (h : Parsable mem n pos mss) {fuel : Nat} {s : Parse} (hpos : s.pos = pos) (hstep : InStep n s)
    (hfuel : n - pos ≤ fuel) :
    ∃ s', parseLoop mem fuel s = some s' ∧ s'.mssOn = (s.mssOn || mss) ∧
      ∀ r ∈ s'.reads, r ∈ s.reads ∨ r < n := by
  induction h generalizing fuel s with
  | done hdone =>
    subst hpos
    refine ⟨s, parseLoop_end ?_, (Bool.or_false _).symm, fun r hr => .inl hr⟩
    unfold InStep at hstep
    omega
  | eol hlt hcode =>
    subst hpos
    have hlen : s.len > 0 := by unfold InStep at hstep; omega
    obtain ⟨fuel, rfl⟩ := Nat.exists_eq_succ_of_ne_zero (show fuel ≠ 0 by omega)
    refine ⟨parseEol s, ?_, (Bool.or_false _).symm, fun r hr => ?_⟩
    · rw [parseLoop_succ hlen, if_pos hcode]
    · rcases mem_cons.1 hr with rfl | hr
      · exact .inr hlt
      · exact .inl hr
  | nop hlt hcode _ ih =>
    subst hpos
    have hlen : s.len > 0 := by unfold InStep at hstep; omega
    obtain ⟨fuel, rfl⟩ := Nat.exists_eq_succ_of_ne_zero (show fuel ≠ 0 by omega)
    have hnext : InStep n (parseNop s) := by
      unfold InStep parseNop at *
      simp only
      omega
    obtain ⟨s', hs', hmss, hreads⟩ := @ih fuel (parseNop s) rfl hnext (by omega)
    refine ⟨s', ?_, hmss, fun r hr => ?_⟩
    · rw [parseLoop_succ hlen, if_neg (by rw [hcode]; decide), if_pos hcode]
      exact hs'
    · rcases hreads r hr with hr | hr
      · rcases mem_cons.1 hr with rfl | hr
        · exact .inr hlt
        · exact .inl hr
      · exact .inr hr
  | option hlt heol hnop inside _ ih =>
    subst hpos
    have hlen : s.len > 0 := by unfold InStep at hstep; omega
    have hmoves : (mem (s.pos + 1)).toNat ≠ 0 := fun hzero =>
      inside.moves (UInt8.toNat_inj.1 hzero)
    obtain ⟨fuel, rfl⟩ := Nat.exists_eq_succ_of_ne_zero (show fuel ≠ 0 by omega)
    obtain ⟨s', hs', hmss, hreads⟩ := @ih fuel (parseOption mem s) (parseOption_pos mem s)
      (parseOption_inStep hstep) (by omega)
    refine ⟨s', ?_, ?_, fun r hr => ?_⟩
    · rw [parseLoop_succ hlen, if_neg heol, if_neg hnop]
      exact hs'
    · rw [hmss, parseOption_mssOn, Bool.or_assoc]
    · have hsize := inside.size
      rcases hreads r hr with hr | hr
      · rcases mem_parseOption_reads.1 hr with
          rfl | rfl | ⟨hcode, holen, hr⟩ | ⟨hcode, holen, hr⟩ | hr
        · exact .inr hlt
        · exact .inr hsize
        · have hmss := inside.mss hcode holen
          exact .inr (by omega)
        · have hscale := inside.wscale hcode holen
          exact .inr (by omega)
        · exact .inl hr
      · exact .inr hr

/-- Conversely, what is parsed without reading behind the options is well formed. -/
theorem parsable_of_parseLoop {mem : Nat → UInt8} {n fuel : Nat} {s s' : Parse}
    (hstep : InStep n s) (h : parseLoop mem fuel s = some s') (hreads : ∀ r ∈ s'.reads, r < n) :
    ∃ mss, Parsable mem n s.pos mss := by
  induction fuel generalizing s with
  | zero =>
    obtain ⟨hlen, -⟩ := Option.ite_none_left_eq_some.1 h
    unfold InStep at hstep
    exact ⟨_, .done (by omega)⟩
  | succ fuel ih =>
    by_cases hlen : s.len > 0
    · have hlt : s.pos < n := by unfold InStep at hstep; omega
      rw [parseLoop_succ hlen] at h
      split_ifs at h with heol hnop
      · exact ⟨_, .eol hlt heol⟩
      · have hnext : InStep n (parseNop s) := by
          unfold InStep parseNop at *
          simp only
          omega
        obtain ⟨mss, hrest⟩ := ih hnext h
        exact ⟨mss, .nop hlt hnop hrest⟩
      · have hinside : ∀ r ∈ (parseOption mem s).reads, r < n :=
          fun r hr => hreads r (parseLoop_reads h hr)
        obtain ⟨mss, hrest⟩ := ih (parseOption_inStep hstep) h
        rw [parseOption_pos] at hrest
        by_cases hmoves : mem (s.pos + 1) = 0
        · -- the option does not move, so the rest is this very option again
          rw [hmoves] at hrest
          exact ⟨mss, hrest⟩
        · refine ⟨_, .option hlt heol hnop ⟨?_, hmoves, fun hcode holen => ?_,
            fun hcode holen => ?_⟩ hrest⟩
          · exact hinside _ (mem_parseOption_reads.2 (.inr (.inl rfl)))
          · exact hinside _ (mem_parseOption_reads.2 (.inr (.inr (.inl ⟨hcode, holen, .inr rfl⟩))))
          · exact hinside _ (mem_parseOption_reads.2
              (.inr (.inr (.inr (.inl ⟨hcode, holen, rfl⟩)))))
    · unfold InStep at hstep
      exact ⟨_, .done (by omega)⟩

/-! ## Parsing inside the options -/

theorem start_inStep (n : Nat) : InStep n (.start n) := by
  unfold InStep Parse.start
  simp

/-- The loop ends after at most as many iterations as there are option bytes, reads only those,
and an MSS option gives an MSS in the range; `tail` is what follows the options in memory. -/
def ParsedInside (bs tail : List UInt8) (o : Opening) : Prop :=
  ∃ s', parseLoop (byteAt (bs ++ tail)) bs.length (.start bs.length) = some s' ∧
    (∀ r ∈ s'.reads, r < bs.length) ∧
    (s'.mssOn = true → tcpMinMss ≤ (applyOptions o s'.options).sndMss ∧
      (applyOptions o s'.options).sndMss ≤ o.conn.rcvMss)

theorem applyOptions_sndMss (o : Opening) {s : Parse} (hon : s.mssOn = true) :
    (applyOptions o s.options).sndMss = min (max s.mss tcpMinMss) o.conn.rcvMss := by
  simp only [applyOptions, Parse.options, hon, if_true, Option.elim]

/-- The options are parsed inside their bytes exactly if they are well formed and, where an MSS
option is among them, the own MSS is not below `TCP_MIN_MSS`. -/
theorem options_parsed_inside (bs tail : List UInt8) (o : Opening) :
    ParsedInside bs tail o ↔
      ∃ mss, WellFormed bs mss ∧ (mss = true → tcpMinMss ≤ o.conn.rcvMss) := by
  have hsame : ∀ i < bs.length, byteAt (bs ++ tail) i = byteAt bs i :=
    fun i hi => byteAt_append_left tail hi
  have hparsed : ∀ mss, WellFormed bs mss →
      ∃ s', parseLoop (byteAt (bs ++ tail)) bs.length (.start bs.length) = some s' ∧
        s'.mssOn = mss ∧ ∀ r ∈ s'.reads, r < bs.length := by
    intro mss h
    obtain ⟨s', hs', hmss, hreads⟩ := parseLoop_of_parsable
      (h.congr fun i hi => (hsame i hi).symm) rfl (start_inStep _) (Nat.sub_le _ _)
    exact ⟨s', hs', hmss, fun r hr => (hreads r hr).resolve_left not_mem_nil⟩
  constructor
  · rintro ⟨s', hs', hreads, hrange⟩
    obtain ⟨mss, hparsable⟩ := parsable_of_parseLoop (start_inStep _) hs' hreads
    have hwf : WellFormed bs mss := hparsable.congr hsame
    obtain ⟨s'', hs'', hmss, -⟩ := hparsed mss hwf
    obtain rfl : s' = s'' := Option.some.inj (hs'.symm.trans hs'')
    exact ⟨mss, hwf, fun hon => (hrange (hmss.trans hon)).1.trans (hrange (hmss.trans hon)).2⟩
  · rintro ⟨mss, hwf, hrcv⟩
    obtain ⟨s', hs', hmss, hreads⟩ := hparsed mss hwf
    refine ⟨s', hs', hreads, fun hon => ?_⟩
    have hle := hrcv (hmss.symm.trans hon)
    rw [applyOptions_sndMss o hon]
    omega

/-- An MSS of 1460 bytes, a NOP and a window scale of 7, with some text behind them. -/
theorem options_parsed_mssAndScale :
    WellFormed [2, 4, 5, 180, 1, 3, 3, 7] true ∧
      ParsedInside [2, 4, 5, 180, 1, 3, 3, 7] [9, 9] (dialInit 0 1460) := by
  have hmss : OptionInside (byteAt [2, 4, 5, 180, 1, 3, 3, 7]) 8 0 :=
    ⟨by decide, by decide, fun _ _ => by decide, fun h => absurd h (by decide)⟩
  have hscale : OptionInside (byteAt [2, 4, 5, 180, 1, 3, 3, 7]) 8 5 :=
    ⟨by decide, by decide, fun h => absurd h (by decide), fun _ _ => by decide⟩
  have hwf : WellFormed [2, 4, 5, 180, 1, 3, 3, 7] true :=
    .option (by decide) (by decide) (by decide) hmss (.nop (by decide) (by decide)
        (.option (by decide) (by decide) (by decide) hscale (.done (by decide))))
  exact ⟨hwf, (options_parsed_inside _ _ _).2 ⟨true, hwf, fun _ => by decide⟩⟩

/-- An option of length 0 is parsed again and again. -/
theorem parseLoop_stuck {mem : Nat → UInt8} {s : Parse} (hlen : s.len > 0)
    (heol : mem s.pos ≠ tcpOptEol) (hnop : mem s.pos ≠ tcpOptNop) (hsize : mem (s.pos + 1) = 0)
    (fuel : Nat) : parseLoop mem fuel s = none := by
  induction fuel generalizing s with
  | zero => exact if_pos hlen
  | succ fuel ih =>
    have hpos : (parseOption mem s).pos = s.pos := by
      rw [parseOption_pos, hsize]
      rfl
    have hlen' : (parseOption mem s).len = s.len := by
      rw [parseOption_len, hsize]
      exact Int.sub_zero _
    rw [parseLoop_succ hlen, if_neg heol, if_neg hnop]
    exact ih (by rw [hlen']; exact hlen) (by rwa [hpos]) (by rwa [hpos]) (by rwa [hpos])

/-- On the options 2, 0 the loop runs for ever; on the single byte 3 the length byte is read
behind the options. -/
theorem options_never_parsed : (∀ fuel, parseLoop (byteAt [2, 0]) fuel (.start 2) = none) ∧
      ∃ s', parseLoop (byteAt [3, 7]) 1 (.start 1) = some s' ∧ 1 ∈ s'.reads :=
  ⟨parseLoop_stuck (by decide) (by decide) (by decide) (by decide), _, rfl, by decide⟩

end Svalinn.Tcp.Options
