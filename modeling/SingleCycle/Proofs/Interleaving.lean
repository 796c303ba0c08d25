import SingleCycle.Proofs.History
import SingleCycle.Proofs.WatchedStep

/-!
# Attempts among other requests

Between two phases of an attempt anything may be asked of the core. Whatever that is, the attempt
goes on with its next phase, and ends with the record that its phases have filled; with one
exception. The line of a traced step shows the log of the core, and the core may have lost its log
to a step that is not traced. Then the attempt ends with a fault in place of its record.
-/

namespace SingleCycle

/-! ## What an attempt has gone through -/

/-- Whether a fetch that finds this stops the core. -/
def Stops (found : Option Word) : Prop := ∀ word ∈ found, word ∈ haltWords

theorem fetchOf_cases (found : Option Word) :
    (Stops found ∧ Core.fetchOf found = .halt found) ∨
      ∃ word, found = some word ∧ word ∉ haltWords ∧ Core.fetchOf found = .execute word := by
  cases found with
  | none => exact .inl ⟨nofun, rfl⟩
  | some word =>
    by_cases hhalt : word ∈ haltWords
    · exact .inl ⟨fun w hw => Option.some.inj hw ▸ hhalt, Core.fetchOf_of_halt hhalt⟩
    · exact .inr ⟨word, rfl, hhalt, Core.fetchOf_of_execute hhalt⟩

namespace Attempt

/-- Whether an attempt that is under way is traced. -/
def traced : Attempt → Bool
  | fresh _ => false
  | halting => false
  | fetched trace _ => trace
  | decoded trace _ => trace
  | executed trace _ => trace
  | accessed trace _ => trace
  | written trace _ => trace
  | finished => false

/-- The phases that an attempt has gone through, as it knows them itself. An attempt that is over
does not know them any more. -/
inductive Saw : Attempt → List Progress → Prop
  | fresh (trace : Option Bool) : Saw (.fresh trace) []
  | halting (pc : Int) {found : Option Word} (h : Stops found) : Saw .halting [.fetched pc found]
  | fetched (trace : Bool) {f : Fetched} (h : f.word ∉ haltWords) :
      Saw (.fetched trace f) [.fetched f.pc (some f.word)]
  | decoded (trace : Bool) {d : Decoded} (h : d.word ∉ haltWords) :
      Saw (.decoded trace d) [.fetched d.pc (some d.word), .decoded d]
  | executed (trace : Bool) {e : Executed} (h : e.word ∉ haltWords) :
      Saw (.executed trace e) [.fetched e.pc (some e.word), .decoded e.toDecoded, .executed e]
  | accessed (trace : Bool) {a : Accessed} (h : a.word ∉ haltWords) :
      Saw (.accessed trace a) [.fetched a.pc (some a.word), .decoded a.toDecoded,
        .executed a.toExecuted, .accessed a]
  | written (trace : Bool) (w : Written) : Saw (.written trace w) w.phases

end Attempt

/-- What comes of resuming an attempt on the core `c`, given the phases that it has gone through. -/
inductive Continues (c : Core) (traced : Bool) : List Progress → Outcome → Prop
  /-- An attempt that finds the core halted is over. -/
  | halted (hhalted : c.halted = true) : Continues c traced [] (.done none)
  /-- The first phase fetches what the program counter selects. -/
  | first (hrun : c.halted = false) :
      Continues c traced [] (.phase (.fetched c.pc c.program[(c.pc / 4).toNat]?))
  /-- An attempt that has stopped the core is over. -/
  | stopped (pc : Int) {found : Option Word} (hstops : Stops found) :
      Continues c traced [.fetched pc found] (.done none)
  /-- An attempt with a word to execute goes through the next phase. What was seen before is what is
  left of the new record when later phases are taken out. -/
  | next {seen : List Progress} {p : Progress} (pc : Int) {word : Word}
      (hfirst : seen.head? = some (.fetched pc (some word))) (hword : word ∉ haltWords)
      (hstage : seen.map Progress.stage ++ [p.stage] <+: Stage.all)
      (hkept : ∀ q ∈ seen, q.record = p.record.upTo q.stage) : Continues c traced seen (.phase p)
  /-- An attempt that has gone through all phases ends with their record. -/
  | ended (w : Written) (hlog : traced = true → c.log ≠ none) :
      Continues c traced w.phases (.done (some w))
  /-- A traced attempt cannot end where no log is kept. -/
  | unlogged (w : Written) (htraced : traced = true) (hlog : c.log = none) :
      Continues c traced w.phases (.fault .noLog)

/-! ## One resumption -/

namespace Core

variable {c : Core}

theorem decode_ok (c : Core) (f : Fetched) :
    ∃ d : Decoded, (c.decode f).2 = .ok d ∧ d.toFetched = f := by
  unfold decode
  simp only [Instruction.control_eq_signals]
  exact ⟨_, rfl, rfl⟩

end Core

namespace Attempt.Saw

variable {c : Core} {attempt : Attempt} {seen : List Progress}

/-- An attempt that has not begun begins, unless the core has stopped. -/
theorem resume_fresh (hpc : 0 ≤ c.pc) (trace : Option Bool) :
    Continues c false [] (Attempt.resume c (.fresh trace)).outcome ∧
      ∀ p, (Attempt.resume c (.fresh trace)).outcome = .phase p →
        (Attempt.resume c (.fresh trace)).attempt.Saw [p] := by
  cases hrun : c.halted with
  | true =>
    rw [Core.resume_of_halted hrun]
    exact ⟨.halted hrun, fun _ => Outcome.noConfusion⟩
  | false =>
    have hfetch := Core.fetch_eq hpc
    obtain ⟨hstops, hhalt⟩ | ⟨word, hfound, hword, hexecute⟩ :=
      fetchOf_cases c.program[(c.pc / 4).toNat]?
    · rw [hhalt] at hfetch
      rw [Core.resume_of_halt hrun hfetch]
      refine ⟨.first hrun, fun p hp => ?_⟩
      obtain rfl := Outcome.phase.inj hp
      exact .halting c.pc hstops
    · rw [hexecute] at hfetch
      rw [Core.resume_of_execute hrun hfetch, ← hfound]
      refine ⟨.first hrun, fun p hp => ?_⟩
      obtain rfl := Outcome.phase.inj hp
      rw [hfound]
      exact .fetched (f := ⟨c.pc, word⟩) _ hword

/-- Resuming an attempt, whatever the core has become in the meantime. -/
theorem resume (h : attempt.Saw seen) (hpc : 0 ≤ c.pc) :
    Continues c attempt.traced seen (attempt.resume c).outcome ∧
      ∀ p, (attempt.resume c).outcome = .phase p → (attempt.resume c).attempt.Saw (seen ++ [p]) := by
  cases h with
  | fresh trace => exact resume_fresh hpc trace
  | halting pc hstops => exact ⟨.stopped pc hstops, fun _ => Outcome.noConfusion⟩
  | @fetched trace f hword =>
    -- The word was kept by the attempt: what instruction memory holds by now does not matter.
    obtain ⟨d, hdecode, rfl⟩ := c.decode_ok f
    simp only [Attempt.resume, hdecode]
    refine ⟨.next d.pc rfl hword ⟨_, rfl⟩ ?_, fun p hp => ?_⟩
    · simp only [List.mem_singleton, forall_eq]
      rfl
    · obtain rfl := Outcome.phase.inj hp
      exact .decoded trace hword
  | @decoded trace d hword =>
    refine ⟨.next d.pc rfl hword ⟨_, rfl⟩ ?_, fun p hp => ?_⟩
    · simp only [List.forall_mem_cons]
      exact ⟨rfl, rfl, List.forall_mem_nil _⟩
    · obtain rfl := Outcome.phase.inj hp
      exact .executed (e := d.execute) trace hword
  | @executed trace e hword =>
    simp only [Attempt.resume, Core.access_eq]
    refine ⟨.next e.pc rfl hword ⟨_, rfl⟩ ?_, fun p hp => ?_⟩
    · simp only [List.forall_mem_cons]
      exact ⟨rfl, rfl, rfl, List.forall_mem_nil _⟩
    · obtain rfl := Outcome.phase.inj hp
      exact .accessed (a := { e with access := c.accessOf e }) trace hword
  | @accessed trace a hword =>
    refine ⟨.next a.pc rfl hword ⟨_, rfl⟩ ?_, fun p hp => ?_⟩
    · simp only [List.forall_mem_cons]
      exact ⟨rfl, rfl, rfl, rfl, List.forall_mem_nil _⟩
    · obtain rfl := Outcome.phase.inj hp
      exact .written trace _
  | written trace w =>
    -- The attempt says whether there is a line, but what it shows is the log of the core.
    cases trace with
    | false =>
      refine ⟨.ended w fun htraced => ?_, fun _ => Outcome.noConfusion⟩
      cases htraced
    | true =>
      cases hlog : c.log with
      | none =>
        simp only [Attempt.resume, Core.traceLine, hlog, if_true]
        exact ⟨.unlogged w rfl hlog, fun _ => Outcome.noConfusion⟩
      | some log =>
        simp only [Attempt.resume, Core.traceLine, hlog, if_true]
        exact ⟨.ended w (by simp [hlog]), fun _ => Outcome.noConfusion⟩

end Attempt.Saw

/-! ## Histories -/

namespace System

theorem attempts_perform (s : System) (request : Request) : (s.perform request).attempts =
    match request with
    | .openAttempt trace => s.attempts ++ [.fresh trace]
    | .resume k =>
      match s.attempts[k]? with
      | some attempt => s.attempts.set k (attempt.resume s.core).attempt
      | none => s.attempts
    | .abandon k => s.attempts.set k .finished
    | _ => s.attempts := by
  cases request with
  | resume k =>
    simp only [perform]
    cases s.attempts[k]? <;> rfl
  | edit | setTracing | step | notify | run | openAttempt | abandon => rfl

/-- The outcomes `past` are those of the attempt with the number `k`. Either the attempt has not
been opened, or it knows the phases that it has reported. -/
def Follows (k : Nat) (past : List Outcome) (s : System) : Prop :=
  (s.attempts.length ≤ k ∧ past = []) ∨
    ∃ attempt, s.attempts[k]? = some attempt ∧
      ∀ seen, past = seen.map Outcome.phase → attempt.Saw seen

namespace Follows

variable {k : Nat} {past : List Outcome} {s : System}

/-- A request that is no business of the attempt. -/
theorem other {request : Request} (h : s.Follows k past)
    (hattempts : (s.perform request).attempts[k]? = s.attempts[k]?)
    (houtcome : s.outcome? k request = none) :
    (s.perform request).Follows k (past ++ (s.outcome? k request).toList) := by
  rw [houtcome, Option.toList_none, List.append_nil]
  obtain ⟨hlength, hpast⟩ | ⟨attempt, hattempt, hsaw⟩ := h
  · refine .inl ⟨List.getElem?_eq_none_iff.1 ?_, hpast⟩
    rw [hattempts, List.getElem?_eq_none hlength]
  · exact .inr ⟨attempt, hattempts.trans hattempt, hsaw⟩

/-- The request that opens the attempt, or another one. -/
theorem openAttempt (h : s.Follows k past) (trace : Option Bool) :
    (s.perform (.openAttempt trace)).Follows k past := by
  have hattempts := s.attempts_perform (.openAttempt trace)
  obtain ⟨hlength, hpast⟩ | ⟨attempt, hattempt, hsaw⟩ := h
  · -- The new attempt takes the next number, which may be `k` or still be below it.
    obtain hlt | heq := Nat.lt_or_eq_of_le hlength
    · refine .inl ⟨?_, hpast⟩
      rw [hattempts, List.length_append, List.length_singleton]
      exact hlt
    · refine .inr ⟨.fresh trace, ?_, fun seen hseen => ?_⟩
      · rw [hattempts, ← heq, List.getElem?_concat_length]
      · rw [hpast, List.nil_eq, List.map_eq_nil_iff] at hseen
        rw [hseen]
        exact .fresh trace
  · refine .inr ⟨attempt, ?_, hsaw⟩
    have hlt : k < s.attempts.length := (List.getElem?_eq_some_iff.1 hattempt).1
    rw [hattempts, List.getElem?_append_left hlt, hattempt]

/-- The request that resumes the attempt. -/
theorem resume (h : s.Follows k past) (hpc : 0 ≤ s.core.pc) :
    (s.perform (.resume k)).Follows k (past ++ (s.outcome? k (.resume k)).toList) := by
  have hattempts := s.attempts_perform (.resume k)
  have houtcome : s.outcome? k (.resume k) =
      s.attempts[k]?.map fun attempt => (attempt.resume s.core).outcome := if_pos rfl
  obtain ⟨hlength, hpast⟩ | ⟨attempt, hattempt, hsaw⟩ := h
  · have hnone : s.attempts[k]? = none := List.getElem?_eq_none hlength
    simp only [hnone] at hattempts
    refine .inl ⟨hattempts ▸ hlength, ?_⟩
    rw [houtcome, hnone, hpast]
    rfl
  · have hlt : k < s.attempts.length := (List.getElem?_eq_some_iff.1 hattempt).1
    simp only [hattempt] at hattempts
    rw [houtcome, hattempt]
    refine .inr ⟨(attempt.resume s.core).attempt, ?_, fun seen hseen => ?_⟩
    · rw [hattempts, List.getElem?_set_self hlt]
    · obtain ⟨before, last, rfl, hbefore, hlast⟩ := List.append_eq_map_iff.1 hseen
      obtain ⟨p, rfl, hp⟩ := List.map_eq_singleton_iff.1 hlast
      exact ((hsaw before hbefore.symm).resume hpc).2 p hp.symm

/-- Any request but the one that gives the attempt up. -/
theorem perform (h : s.Follows k past) (hpc : 0 ≤ s.core.pc) {request : Request}
    (hopen : request ≠ .abandon k) :
    (s.perform request).Follows k (past ++ (s.outcome? k request).toList) := by
  have hattempts := congrArg (·[k]?) (s.attempts_perform request)
  cases request with
  | openAttempt trace =>
    rw [show s.outcome? k (.openAttempt trace) = none from rfl, Option.toList_none, List.append_nil]
    exact h.openAttempt trace
  | resume j =>
    by_cases hj : j = k
    · rw [hj]
      exact h.resume hpc
    · refine h.other (hattempts.trans ?_) (if_neg hj)
      show (match s.attempts[j]? with
        | some attempt => s.attempts.set j (attempt.resume s.core).attempt
        | none => s.attempts)[k]? = s.attempts[k]?
      cases s.attempts[j]? with
      | none => rfl
      | some attempt => exact List.getElem?_set_ne hj
  | abandon j =>
    have hj : j ≠ k := fun hj => hopen (hj ▸ rfl)
    exact h.other (hattempts.trans (List.getElem?_set_ne hj)) rfl
  | edit | setTracing | step | notify | run => exact h.other hattempts rfl

/-- Any requests but the one that gives the attempt up. -/
theorem performAll (requests : List Request) : ∀ {past : List Outcome} {s : System},
    s.Follows k past → s.core.Sound s.loaded → .abandon k ∉ requests →
      (s.performAll requests).Follows k (past ++ s.outcomesOf k requests) := by
  induction requests with
  | nil =>
    intro past s h _ _
    rw [outcomesOf, List.append_nil]
    exact h
  | cons request requests ih =>
    intro past s h hsound hopen
    -- What comes of the first request belongs to the past of the others.
    obtain ⟨hne, hrest⟩ := not_or.1 (mt List.mem_cons.2 hopen)
    have hnext := ih (h.perform hsound.pc_nonneg (Ne.symm hne)) (perform_sound hsound request) hrest
    rw [List.append_assoc] at hnext
    exact hnext

end Follows

/-- An attempt that has reported nothing but phases, and was not given up, goes on where it left
off, whatever has been asked of the core in between. It ends with the record that its phases have
filled, unless it is traced and the core keeps no log when it is resumed for the last time. -/
theorem continues_of_history (tracing : Bool) (requests : List Request) (k : Nat)
    (attempt : Attempt) (seen : List Progress)
    (hattempt : ((fresh tracing).performAll requests).attempts[k]? = some attempt)
    (hopen : .abandon k ∉ requests)
    (hseen : (fresh tracing).outcomesOf k requests = seen.map Outcome.phase) :
    Continues ((fresh tracing).performAll requests).core attempt.traced seen
      (attempt.resume ((fresh tracing).performAll requests).core).outcome := by
  have hsound : ((fresh tracing).performAll requests).core.Sound
      ((fresh tracing).performAll requests).loaded :=
    performAll_sound requests (Core.Sound.fresh tracing)
  have hfollows : (fresh tracing).Follows k [] := .inl ⟨Nat.zero_le k, rfl⟩
  obtain ⟨hlength, -⟩ | ⟨attempt', hattempt', hsaw⟩ :=
    hfollows.performAll requests (Core.Sound.fresh tracing) hopen
  · rw [List.getElem?_eq_none hlength] at hattempt
    cases hattempt
  · obtain rfl := Option.some.inj (hattempt.symm.trans hattempt')
    exact ((hsaw seen hseen).resume hsound.pc_nonneg).1

/-- A traced `addi x1, x0, 5`, in phases. Before the second phase another instruction is executed
and the core is reset, and later on a register and a data word are written. -/
def busy : List Request :=
  [.edit (.load (.words [0x00500093])), .openAttempt none, .resume 0, .step none, .edit .reset,
    .resume 0, .edit (.setRegister 1 7), .resume 0, .edit (.store 4 9), .resume 0, .resume 0]

/-- The same instruction. Before the second phase a step is taken that is not traced. -/
def unlogged : List Request :=
  [.edit (.load (.words [0x00500093])), .openAttempt (some true), .resume 0, .step (some false),
    .resume 0, .resume 0, .resume 0, .resume 0]

/-- The record of that instruction. -/
def loadedConstant : Written := (Core.fresh false).written 0x00500093

/-- The last resumption after `busy`. -/
theorem continues_of_busy :
    (fresh true).outcomesOf 0 busy = loadedConstant.phases.map Outcome.phase ∧
      Continues ((fresh true).performAll busy).core true loadedConstant.phases
        (Attempt.resume ((fresh true).performAll busy).core
          (.written true loadedConstant)).outcome := by
  have hseen : (fresh true).outcomesOf 0 busy = loadedConstant.phases.map Outcome.phase := by
    decide +kernel
  exact ⟨hseen, continues_of_history true busy 0 (.written true loadedConstant) _
    (by decide +kernel) (by decide) hseen⟩

/-- After `unlogged` the attempt has gone through all of its phases, and its last resumption ends
with a fault and not with its record. -/
theorem fault_of_unlogged :
    (fresh false).outcomesOf 0 unlogged = loadedConstant.phases.map Outcome.phase ∧
      ((fresh false).performAll unlogged).attempts[0]? = some (.written true loadedConstant) ∧
      (Attempt.resume ((fresh false).performAll unlogged).core
        (.written true loadedConstant)).outcome = .fault .noLog := by
  decide +kernel

end System

end SingleCycle
