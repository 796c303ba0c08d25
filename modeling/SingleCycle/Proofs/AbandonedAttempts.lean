import SingleCycle.Proofs.InstructionEffect
import SingleCycle.Proofs.WatchedStep

/-!
# Attempts that are given up

An attempt can be dropped behind any of its phases. Up to the last phase it has moved neither the
program counter nor a register, and all that it has done to data memory is the store of its own
instruction, so the next attempt finds what the dropped one found: a step that follows any number of
dropped attempts is the step that would have been taken without them. Only the cycle counter tells
how many of them decoded an instruction.
-/

namespace SingleCycle

/-! ## Advancing attempts -/

/-- The phase that an outcome reports. -/
def Outcome.progress? : Outcome → Option Progress
  | .phase progress => some progress
  | .done _ => none
  | .fault _ => none

/-- A core and an attempt on it after some resumptions, and the phases that these went through, in
order. -/
structure Advance where
  core : Core
  attempt : Attempt
  phases : List Progress

/-- Resumes an attempt a number of times. -/
def Attempt.advance : Nat → Core → Attempt → Advance
  | 0, c, attempt => ⟨c, attempt, []⟩
  | n + 1, c, attempt =>
    let resumed := attempt.resume c
    let later := advance n resumed.core resumed.attempt
    { later with phases := resumed.outcome.progress?.toList ++ later.phases }

/-- Whether a phase is over. -/
def Advance.reached (r : Advance) (stage : Stage) : Bool :=
  (r.phases.map Progress.stage).contains stage

/-- An attempt that is given up before its last phase. -/
structure Abandoned where
  /-- Whether the attempt is traced; if it does not say so, the core is asked. -/
  trace : Option Bool
  /-- How often the attempt is resumed. -/
  resumptions : Fin 5

namespace Core

/-- Opens an attempt, resumes it as often as it says and drops it. -/
def abandon (c : Core) (a : Abandoned) : Advance :=
  Attempt.advance a.resumptions c (.fresh a.trace)

/-- Opens attempts and drops them, one after the other. -/
def abandonAll (c : Core) (attempts : List Abandoned) : Core :=
  attempts.foldl (fun c a => (c.abandon a).core) c

/-- The number of attempts, opened and dropped one after the other, that decode an instruction. -/
def decodings (c : Core) : List Abandoned → Nat
  | [] => 0
  | a :: attempts =>
    (if (c.abandon a).reached .decode then 1 else 0) + (c.abandon a).core.decodings attempts

end Core

namespace Attempt

variable {c d : Core} {attempt next : Attempt} {line : Option TraceLine}

theorem advance_of_phase {n : Nat} {progress : Progress}
    (hresume : attempt.resume c = ⟨d, next, line, .phase progress⟩) :
    advance (n + 1) c attempt =
      ⟨(advance n d next).core, (advance n d next).attempt,
        progress :: (advance n d next).phases⟩ := by
  rw [advance, hresume]
  rfl

theorem advance_of_done {n : Nat} {result : Option Written}
    (hresume : attempt.resume c = ⟨d, next, line, .done result⟩) :
    advance (n + 1) c attempt = advance n d next := by
  rw [advance, hresume]
  rfl

theorem advance_finished (n : Nat) : advance n c .finished = ⟨c, .finished, []⟩ := by
  induction n with
  | zero => rfl
  | succ n ih => rw [advance_of_done rfl, ih]

theorem advance_halting (n : Nat) :
    (advance n c .halting).core = c ∧ (advance n c .halting).phases = [] := by
  cases n with
  | zero => exact ⟨rfl, rfl⟩
  | succ n =>
    rw [advance_of_done rfl, advance_finished]
    exact ⟨rfl, rfl⟩

end Attempt

namespace Core

variable {c d : Core} {word : Word}

/-! ## One attempt -/

/-- The core, but for its log, after the first phases of a step that executes a word. -/
theorem advance_fetched (trace : Bool) (word : Word) {n : Nat} (hn : n < 4) :
    (Attempt.advance n c (.fetched trace ⟨c.pc, word⟩)).phases =
        (c.written word).phases.tail.take n ∧
      ∃ log, (Attempt.advance n c (.fetched trace ⟨c.pc, word⟩)).core =
        { c with
          cycle := if 1 ≤ n then c.cycle + 1 else c.cycle
          last := if 1 ≤ n then some ⟨word⟩ else c.last
          memory := if 3 ≤ n then c.storedMemory word else c.memory
          log } := by
  -- There are four points to stop at, and each has a closed form of its own.
  match n, hn with
  | 0, _ => exact ⟨rfl, c.log, rfl⟩
  | 1, _ =>
    rw [Attempt.advance_of_phase (resume_fetched trace)]
    exact ⟨rfl, c.log, rfl⟩
  | 2, _ =>
    rw [Attempt.advance_of_phase (resume_fetched trace),
      Attempt.advance_of_phase (resume_decoded trace _)]
    exact ⟨rfl, c.log, rfl⟩
  | 3, _ =>
    rw [Attempt.advance_of_phase (resume_fetched trace),
      Attempt.advance_of_phase (resume_decoded trace _),
      Attempt.advance_of_phase (resume_executed trace)]
    refine ⟨rfl, (c.afterAccess word).log, ?_⟩
    show c.afterAccess word = _
    unfold afterAccess
    rw [access_eq]
    rfl

theorem advance_of_halted (hhalted : c.halted = true) (trace : Option Bool) (n : Nat) :
    (Attempt.advance n c (.fresh trace)).core = c ∧
      (Attempt.advance n c (.fresh trace)).phases = [] := by
  cases n with
  | zero => exact ⟨rfl, rfl⟩
  | succ n =>
    rw [Attempt.advance_of_done (resume_of_halted hhalted), Attempt.advance_finished]
    exact ⟨rfl, rfl⟩

theorem advance_of_halt {found : Option Word} (hrun : c.halted = false)
    (hfetch : c.fetch = .ok (.halt found)) (trace : Option Bool) (n : Nat) :
    (Attempt.advance n c (.fresh trace)).phases = [Progress.fetched c.pc found].take n ∧
      ∃ log, (Attempt.advance n c (.fresh trace)).core =
        { c with halted := decide (1 ≤ n), log } := by
  cases n with
  | zero =>
    refine ⟨rfl, c.log, ?_⟩
    show c = { c with halted := false }
    rw [← hrun]
  | succ n =>
    obtain ⟨hcore, hphases⟩ :=
      Attempt.advance_halting (c := { c.beginLog (c.traces trace) with halted := true }) n
    rw [Attempt.advance_of_phase (resume_of_halt hrun hfetch), hcore, hphases]
    exact ⟨by rw [List.take_succ_cons, List.take_nil], _, by rw [decide_eq_true (by omega)]; rfl⟩

theorem advance_of_execute (hrun : c.halted = false) (hfetch : c.fetch = .ok (.execute word))
    (trace : Option Bool) {n : Nat} (hn : n < 5) :
    (Attempt.advance n c (.fresh trace)).phases = (c.written word).phases.take n ∧
      ∃ log, (Attempt.advance n c (.fresh trace)).core =
        { c with
          cycle := if 2 ≤ n then c.cycle + 1 else c.cycle
          last := if 2 ≤ n then some ⟨word⟩ else c.last
          memory := if 4 ≤ n then c.storedMemory word else c.memory
          log } := by
  cases n with
  | zero => exact ⟨rfl, c.log, rfl⟩
  | succ n =>
    obtain ⟨hphases, log, hcore⟩ :=
      advance_fetched (c := c.beginLog (c.traces trace)) (c.traces trace) word
        (Nat.lt_of_succ_lt_succ hn)
    rw [Attempt.advance_of_phase (resume_of_execute hrun hfetch)]
    refine ⟨congrArg (_ :: ·) hphases, log, hcore.trans ?_⟩
    simp only [Nat.succ_le_succ_iff]
    rfl

/-- The stages that an attempt goes through before it is given up. -/
def stagesOf (c : Core) (a : Abandoned) : List Stage :=
  if c.halted then []
  else if c.nextWord?.isNone then [Stage.fetch].take a.resumptions
  else Stage.all.take a.resumptions

/-- What an attempt that is given up leaves behind: the log apart, nothing but what its phases are
there for. -/
structure AbandonFrame (c : Core) (a : Abandoned) : Prop where
  /-- As many phases are over as the attempt was resumed, unless the core has stopped. -/
  stages : (c.abandon a).phases.map Progress.stage = c.stagesOf a
  pc : (c.abandon a).core.pc = c.pc
  registers : (c.abandon a).core.registers = c.registers
  program : (c.abandon a).core.program = c.program
  tracing : (c.abandon a).core.tracing = c.tracing
  /-- The core is stopped by a fetch that finds nothing to execute, and by nothing else. -/
  halted : (c.abandon a).core.halted = true ↔
    c.halted = true ∨ c.nextWord? = none ∧ (c.abandon a).reached .fetch = true
  /-- Decoding counts a cycle. -/
  cycle : (c.abandon a).core.cycle = c.cycle + if (c.abandon a).reached .decode then 1 else 0
  /-- Decoding remembers the instruction. -/
  last : (c.abandon a).core.last =
    if (c.abandon a).reached .decode then c.nextWord?.map Instruction.mk else c.last
  /-- Only the access of a store to data memory changes a data word, and only the one at its
  index. -/
  memory : ∀ i : BitVec 5, (c.abandon a).core.memory.get i.toFin ≠ c.memory.get i.toFin →
    ∃ access, .accessed access ∈ (c.abandon a).phases ∧
      access.instruction.opcode? = some .store ∧
      (Record.ofAccessed access).memoryIndex = some i

end Core

theorem Advance.reached_eq {r : Advance} {stages : List Stage}
    (h : r.phases.map Progress.stage = stages) (stage : Stage) :
    r.reached stage = stages.contains stage := congrArg (·.contains stage) h

theorem contains_fetch_take {n : Nat} :
    ([Stage.fetch].take n).contains .fetch = decide (1 ≤ n) := by
  cases n <;> simp

theorem contains_decode_take {n : Nat} : (Stage.all.take n).contains .decode = decide (2 ≤ n) := by
  match n with
  | 0 => rfl
  | 1 => rfl
  | n + 2 => simp [Stage.all]

namespace Core

variable {c d : Core} {word : Word}

theorem memory_of_storedMemory {i : BitVec 5}
    (h : (c.storedMemory word).get i.toFin ≠ c.memory.get i.toFin) :
    Instruction.opcode? ⟨word⟩ = some .store ∧
      (Record.ofAccessed (c.accessed word)).memoryIndex = some i := by
  cases hstore : (Instruction.signals ⟨word⟩).memoryWrite with
  | false =>
    rw [storedMemory_of_no_store hstore] at h
    exact absurd rfl h
  | true =>
    have hopcode : Instruction.opcode? ⟨word⟩ = some .store := Instruction.memoryWrite_iff.1 hstore
    have haccess : (c.accessed word).access = _ := access_of_store hopcode
    have hindex : i = memoryIndex (c.written word).aluResult := by
      by_contra hne
      rw [storedMemory_of_store hstore, get_set_eq, if_neg hne] at h
      exact h rfl
    refine ⟨hopcode, ?_⟩
    show (c.accessed word).access.map _ = some i
    rw [haccess, hindex]
    rfl

theorem abandonFrame_of_halted (hhalted : c.halted = true) (a : Abandoned) : c.AbandonFrame a := by
  obtain ⟨hcore, hphases⟩ := advance_of_halted hhalted a.trace a.resumptions
  have hcore : (c.abandon a).core = c := hcore
  have hphases : (c.abandon a).phases = [] := hphases
  have hreached : ∀ stage, (c.abandon a).reached stage = false := fun stage => by
    rw [Advance.reached, hphases]
    rfl
  exact {
    stages := by
      rw [hphases, stagesOf, if_pos hhalted]
      rfl
    pc := by rw [hcore]
    registers := by rw [hcore]
    program := by rw [hcore]
    tracing := by rw [hcore]
    halted := by simp [hcore, hhalted]
    cycle := by simp [hcore, hreached]
    last := by simp [hcore, hreached]
    memory := by
      intro i hi
      rw [hcore] at hi
      exact absurd rfl hi }

theorem abandonFrame_of_stop (hpc : 0 ≤ c.pc) (hrun : c.halted = false)
    (hword : c.nextWord? = none) (a : Abandoned) : c.AbandonFrame a := by
  obtain ⟨found, hfetch⟩ := fetch_of_no_nextWord hpc hword
  obtain ⟨hphases, log, hcore⟩ := advance_of_halt hrun hfetch a.trace a.resumptions
  have hcore : (c.abandon a).core =
    { c with halted := decide (1 ≤ a.resumptions.val), log } := hcore
  have hstages : (c.abandon a).phases.map Progress.stage = [Stage.fetch].take a.resumptions := by
    show (Attempt.advance a.resumptions c (.fresh a.trace)).phases.map Progress.stage = _
    rw [hphases, List.map_take]
    rfl
  have hdecode : (c.abandon a).reached .decode = false := by
    rw [Advance.reached_eq hstages]
    cases a.resumptions.val <;> simp
  exact {
    stages := by
      rw [hstages, stagesOf, hrun, hword]
      rfl
    pc := by rw [hcore]
    registers := by rw [hcore]
    program := by rw [hcore]
    tracing := by rw [hcore]
    halted := by
      rw [hcore, Advance.reached_eq hstages, contains_fetch_take]
      simp [hrun, hword]
    cycle := by simp [hcore, hdecode]
    last := by simp [hcore, hdecode]
    memory := by
      intro i hi
      rw [hcore] at hi
      exact absurd rfl hi }

theorem abandonFrame_of_word (hpc : 0 ≤ c.pc) (hrun : c.halted = false)
    (hword : c.nextWord? = some word) (a : Abandoned) : c.AbandonFrame a := by
  obtain ⟨hphases, log, hcore⟩ :=
    advance_of_execute hrun (fetch_of_nextWord? hpc hword) a.trace a.resumptions.isLt
  have hphases : (c.abandon a).phases = (c.written word).phases.take a.resumptions := hphases
  have hcore : (c.abandon a).core =
      { c with
        cycle := if 2 ≤ a.resumptions.val then c.cycle + 1 else c.cycle
        last := if 2 ≤ a.resumptions.val then some ⟨word⟩ else c.last
        memory := if 4 ≤ a.resumptions.val then c.storedMemory word else c.memory
        log } := hcore
  have hstages : (c.abandon a).phases.map Progress.stage = Stage.all.take a.resumptions := by
    rw [hphases, List.map_take, Written.stages_phases]
  have hdecode : (c.abandon a).reached .decode = decide (2 ≤ a.resumptions.val) := by
    rw [Advance.reached_eq hstages, contains_decode_take]
  exact {
    stages := by
      rw [hstages, stagesOf, hrun, hword]
      rfl
    pc := by rw [hcore]
    registers := by rw [hcore]
    program := by rw [hcore]
    tracing := by rw [hcore]
    halted := by simp [hcore, hrun, hword]
    cycle := by
      rw [hcore, hdecode]
      by_cases hn : 2 ≤ a.resumptions.val <;> simp [hn]
    last := by
      rw [hcore, hdecode, hword]
      by_cases hn : 2 ≤ a.resumptions.val <;> simp [hn]
    memory := by
      intro i hi
      rw [hcore] at hi
      by_cases hn : 4 ≤ a.resumptions.val
      · rw [if_pos hn] at hi
        obtain ⟨hopcode, hindex⟩ := memory_of_storedMemory hi
        refine ⟨c.accessed word, ?_, hopcode, hindex⟩
        have hfour : a.resumptions.val = 4 := by omega
        rw [hphases, hfour]
        exact List.mem_of_getElem? (i := 3) rfl
      · rw [if_neg hn] at hi
        exact absurd rfl hi }

/-- An attempt on any core whose program counter is not negative. -/
theorem abandonFrame (hpc : 0 ≤ c.pc) (a : Abandoned) : c.AbandonFrame a := by
  cases hrun : c.halted with
  | true => exact abandonFrame_of_halted hrun a
  | false =>
    cases hword : c.nextWord? with
    | none => exact abandonFrame_of_stop hpc hrun hword a
    | some word => exact abandonFrame_of_word hpc hrun hword a

/-- An attempt leaves data memory alone, or stores what its step would store. -/
theorem memory_abandon (hpc : 0 ≤ c.pc) (a : Abandoned) : (c.abandon a).core.memory = c.memory ∨
    ∃ word ∈ c.nextWord?, (c.abandon a).core.memory = c.storedMemory word := by
  cases hrun : c.halted with
  | true => exact .inl (congrArg Core.memory (advance_of_halted hrun a.trace a.resumptions).1)
  | false =>
    cases hword : c.nextWord? with
    | none =>
      obtain ⟨found, hfetch⟩ := fetch_of_no_nextWord hpc hword
      obtain ⟨-, log, hcore⟩ := advance_of_halt hrun hfetch a.trace a.resumptions
      have hmemory := congrArg Core.memory hcore
      exact .inl hmemory
    | some word =>
      obtain ⟨-, log, hcore⟩ :=
        advance_of_execute hrun (fetch_of_nextWord? hpc hword) a.trace a.resumptions.isLt
      have hmemory : (c.abandon a).core.memory =
          if 4 ≤ a.resumptions.val then c.storedMemory word else c.memory :=
        congrArg Core.memory hcore
      rw [hmemory]
      split
      · exact .inr ⟨word, rfl, rfl⟩
      · exact .inl rfl

theorem not_reached_decode (hpc : 0 ≤ c.pc) (hword : c.nextWord? = none) (a : Abandoned) :
    (c.abandon a).reached .decode = false := by
  rw [Advance.reached_eq (abandonFrame hpc a).stages, stagesOf, hword]
  cases c.halted <;> cases a.resumptions.val <;> simp

/-! ## Any number of attempts -/

/-- A step that finds nothing to execute. -/
theorem step_of_stop (hpc : 0 ≤ c.pc) (hword : c.nextWord? = none) (trace : Option Bool) :
    (c.step trace).result = .ok none ∧
      (c.step trace).core = { c with halted := true, log := (c.step trace).core.log } := by
  cases hrun : c.halted with
  | true =>
    rw [step_of_halted hrun]
    refine ⟨rfl, ?_⟩
    rw [← hrun]
  | false =>
    obtain ⟨found, hfetch⟩ := fetch_of_no_nextWord hpc hword
    rw [step_of_halt hrun hfetch]
    exact ⟨rfl, rfl⟩

/-- The core `d` is the core `c` after attempts that were given up, `n` of which decoded an
instruction. -/
structure Retried (c : Core) (n : Nat) (d : Core) : Prop where
  pc : d.pc = c.pc
  registers : d.registers = c.registers
  program : d.program = c.program
  tracing : d.tracing = c.tracing
  /-- Each attempt that decoded an instruction has counted a cycle. -/
  cycle : d.cycle = c.cycle + n
  /-- Data memory holds what it held, or has the store of the instruction in addition. -/
  memory : d.memory = c.memory ∨ ∃ word ∈ c.nextWord?, d.memory = c.storedMemory word
  /-- A core that has a word to execute has not been stopped. -/
  running : c.nextWord? ≠ none → d.halted = false
  /-- A core that has none has not decoded anything. -/
  last : c.nextWord? = none → n = 0 ∧ d.last = c.last

namespace Retried

theorem refl (hrun : c.halted = false) : c.Retried 0 c :=
  ⟨rfl, rfl, rfl, rfl, rfl, .inl rfl, fun _ => hrun, fun _ => ⟨rfl, rfl⟩⟩

variable {n : Nat}

theorem nextWord? (h : c.Retried n d) : d.nextWord? = c.nextWord? := by
  unfold Core.nextWord?
  rw [h.pc, h.program]

theorem decoded (h : c.Retried n d) (word : Word) : d.decoded word = c.decoded word := by
  unfold Core.decoded Core.register
  rw [h.pc, h.registers]

/-- The record of the step does not depend on the attempts before it: a load finds the word that it
would have found, because the instruction that was attempted is that load and not a store. -/
theorem written (h : c.Retried n d) (hword : c.nextWord? = some word) :
    d.written word = c.written word := by
  have haccess : d.accessOf (c.decoded word).execute = c.accessOf (c.decoded word).execute := by
    cases hstore : (Instruction.signals ⟨word⟩).memoryWrite with
    | true => exact (if_pos hstore).trans (if_pos hstore).symm
    | false =>
      have hmemory : d.memory = c.memory := by
        obtain hmemory | ⟨word', hword', hmemory⟩ := h.memory
        · exact hmemory
        · obtain rfl := Option.some.inj (hword.symm.trans hword')
          rw [hmemory, storedMemory_of_no_store hstore]
      unfold accessOf dataAt
      rw [hmemory]
  have haccessed : d.accessed word = c.accessed word := by
    unfold Core.accessed
    rw [h.decoded, haccess]
  unfold Core.written
  rw [haccessed]

/-- Storing a word a second time changes nothing. -/
theorem storedMemory (h : c.Retried n d) (hword : c.nextWord? = some word) :
    d.storedMemory word = c.storedMemory word := by
  cases hstore : (Instruction.signals ⟨word⟩).memoryWrite with
  | true =>
    rw [storedMemory_of_store hstore, storedMemory_of_store hstore, h.written hword]
    obtain hmemory | ⟨word', hword', hmemory⟩ := h.memory
    · rw [hmemory]
    · obtain rfl := Option.some.inj (hword.symm.trans hword')
      rw [hmemory, storedMemory_of_store hstore, Vector.set_set]
  | false =>
    rw [storedMemory_of_no_store hstore, storedMemory_of_no_store hstore]
    obtain hmemory | ⟨word', hword', hmemory⟩ := h.memory
    · exact hmemory
    · obtain rfl := Option.some.inj (hword.symm.trans hword')
      rw [hmemory, storedMemory_of_no_store hstore]

theorem abandon (h : c.Retried n d) (hpc : 0 ≤ c.pc) (a : Abandoned) :
    c.Retried (n + if (d.abandon a).reached .decode then 1 else 0) (d.abandon a).core := by
  have hdpc : 0 ≤ d.pc := h.pc ▸ hpc
  have hframe := abandonFrame hdpc a
  refine ⟨hframe.pc.trans h.pc, hframe.registers.trans h.registers,
    hframe.program.trans h.program, hframe.tracing.trans h.tracing, ?_, ?_, ?_, ?_⟩
  · rw [hframe.cycle, h.cycle, Nat.add_assoc]
  · obtain hmemory | ⟨word, hword, hmemory⟩ := memory_abandon hdpc a
    · rw [hmemory]
      exact h.memory
    · rw [h.nextWord?] at hword
      exact .inr ⟨word, hword, hmemory.trans (h.storedMemory hword)⟩
  · intro hword
    have hdword : d.nextWord? ≠ none := h.nextWord? ▸ hword
    refine eq_false_of_ne_true fun hhalted => ?_
    obtain hd | ⟨hd, -⟩ := hframe.halted.1 hhalted
    · rw [h.running hword] at hd
      cases hd
    · exact hdword hd
  · intro hword
    obtain ⟨hn, hlast⟩ := h.last hword
    have hdecode := not_reached_decode hdpc (h.nextWord?.trans hword) a
    rw [hframe.last, hdecode, hn]
    exact ⟨rfl, hlast⟩

theorem abandonAll (hpc : 0 ≤ c.pc) (attempts : List Abandoned) :
    ∀ {n : Nat} {d : Core}, c.Retried n d →
      c.Retried (n + d.decodings attempts) (d.abandonAll attempts) := by
  induction attempts with
  | nil => exact fun h => h
  | cons a attempts ih =>
    intro n d h
    have hnext := ih (h.abandon hpc a)
    rw [Nat.add_assoc] at hnext
    exact hnext

/-- A step after attempts that were given up is the step without them. -/
theorem step (h : c.Retried n d) (hpc : 0 ≤ c.pc) (hrun : c.halted = false)
    (trace trace' : Option Bool) :
    ∃ result, (c.step trace).result = .ok result ∧ (d.step trace').result = .ok result ∧
      (d.step trace').core =
        { (c.step trace).core with
          cycle := (c.step trace).core.cycle + n
          log := (d.step trace').core.log } := by
  have hdpc : 0 ≤ d.pc := h.pc ▸ hpc
  cases hword : c.nextWord? with
  | none =>
    obtain ⟨hresult, hcore⟩ := step_of_stop hpc hword trace
    obtain ⟨hresult', hcore'⟩ := step_of_stop hdpc (h.nextWord?.trans hword) trace'
    obtain ⟨hn, hlast⟩ := h.last hword
    have hmemory : d.memory = c.memory := by
      obtain hmemory | ⟨word, hword', -⟩ := h.memory
      · exact hmemory
      · rw [hword] at hword'
        cases hword'
    refine ⟨none, hresult, hresult', hcore'.trans ?_⟩
    rw [hcore]
    exact Core.ext h.pc h.cycle rfl h.registers hmemory h.program hlast h.tracing rfl
  | some word =>
    have hrun' : d.halted = false := h.running (by rw [hword]; exact Option.some_ne_none word)
    have hfetch := fetch_of_nextWord? hpc hword
    have hfetch' := fetch_of_nextWord? hdpc (h.nextWord?.trans hword)
    have hmemory : (d.commit (c.written word)).memory = (c.commit (c.written word)).memory := by
      rw [← h.written hword]
      exact (h.storedMemory hword).trans (by rw [h.written hword]; rfl)
    have hregisters :
        (d.commit (c.written word)).registers = (c.commit (c.written word)).registers := by
      unfold commit
      rw [h.registers]
    have hcycle : d.cycle + 1 = c.cycle + 1 + n := by
      rw [h.cycle]
      omega
    rw [step_of_execute hrun hfetch, step_of_execute hrun' hfetch', h.written hword]
    exact ⟨_, rfl, rfl, Core.ext rfl hcycle (hrun'.trans hrun.symm) hregisters hmemory h.program rfl
      h.tracing rfl⟩

end Retried

/-- Attempts that are given up are harmless. Opened one after the other on a running core, each of
them leaves behind no more than its phases are there for, and a step that is taken afterwards ends
with the record, and with the core, of a step that is taken at once; but for the log, and for a
cycle more for each attempt that decoded an instruction. -/
theorem step_after_abandoned (c : Core) (hrun : c.halted = false) (hpc : 0 ≤ c.pc)
    (attempts : List Abandoned) :
    (∀ a, (c.abandonAll attempts).AbandonFrame a) ∧
      ∀ trace trace', ∃ result, (c.step trace).result = .ok result ∧
        ((c.abandonAll attempts).step trace').result = .ok result ∧
        ((c.abandonAll attempts).step trace').core =
          { (c.step trace).core with
            cycle := (c.step trace).core.cycle + c.decodings attempts
            log := ((c.abandonAll attempts).step trace').core.log } := by
  have hretried := Retried.abandonAll hpc attempts (Retried.refl hrun)
  rw [Nat.zero_add] at hretried
  constructor
  · intro a
    exact abandonFrame (hretried.pc ▸ hpc) a
  · intro trace trace'
    exact hretried.step hpc hrun trace trace'

/-- A store that is attempted three times, the first time up to its access to data memory. -/
theorem step_after_abandoned_store :
    let c := { fresh false with program := programOf [0x00702623] }
    let attempts := [⟨some true, 4⟩, ⟨none, 1⟩, ⟨none, 3⟩]
    c.decodings attempts = 2 ∧
      (∀ a, (c.abandonAll attempts).AbandonFrame a) ∧
      ∀ trace trace', ∃ result, (c.step trace).result = .ok result ∧
        ((c.abandonAll attempts).step trace').result = .ok result ∧
        ((c.abandonAll attempts).step trace').core =
          { (c.step trace).core with
            cycle := (c.step trace).core.cycle + c.decodings attempts
            log := ((c.abandonAll attempts).step trace').core.log } :=
  ⟨by decide +kernel, step_after_abandoned _ rfl (by decide) _⟩

end Core

end SingleCycle
