import SingleCycle.Core.System
import SingleCycle.Proofs.InstructionEffect
import SingleCycle.Proofs.Phases

/-!
# What every history preserves

A core is loaded, edited, stepped and run, and phase by phase steps are opened, resumed and given up
in between, in any order. An attempt that was resumed late works with what it found before, so
nothing is assumed of the attempts: whatever one of them holds, resuming it keeps register 0 at
zero, leaves instruction memory alone and moves the program counter to an aligned address only.
-/

namespace SingleCycle

/-! ## The invariant -/

namespace Core

/-- The tables have their sizes, and their entries fit into 32 bits. -/
structure Sized (c : Core) : Prop where
  registers : c.registers.toList.length = 32
  memory : c.memory.toList.length = memorySize
  program : c.program.toList.length = programSize
  entries : ∀ w ∈ c.registers.toList ++ c.memory.toList ++ c.program.toList, w.toNat < 2 ^ 32

/-- What holds of a core between any two requests, where `loaded` are the words of the last load
that succeeded. -/
structure Sound (loaded : List Word) (c : Core) : Prop where
  zero : c.register 0 = 0
  pc_nonneg : 0 ≤ c.pc
  pc_lt : c.pc < 2 ^ 32
  pc_aligned : c.pc % 4 = 0
  program : c.program = programOf loaded

theorem sized (c : Core) : c.Sized where
  registers := c.registers.size_toArray
  memory := c.memory.size_toArray
  program := c.program.size_toArray
  entries := fun w _ => w.isLt

end Core

/-! ## One operation -/

namespace Core.Sound

variable {c d : Core} {loaded : List Word}

/-- The invariant reads register 0, the program counter and instruction memory only. -/
theorem congr (h : c.Sound loaded) (hzero : d.register 0 = c.register 0) (hpc : d.pc = c.pc)
    (hprogram : d.program = c.program) : d.Sound loaded where
  zero := hzero.trans h.zero
  pc_nonneg := hpc ▸ h.pc_nonneg
  pc_lt := hpc ▸ h.pc_lt
  pc_aligned := hpc ▸ h.pc_aligned
  program := hprogram.trans h.program

/-- A core at its start. -/
theorem of_start (hzero : c.register 0 = 0) (hpc : c.pc = 0)
    (hprogram : c.program = programOf loaded) : c.Sound loaded where
  zero := hzero
  pc_nonneg := by omega
  pc_lt := by omega
  pc_aligned := by omega
  program := hprogram

theorem fresh (tracing : Bool) : (Core.fresh tracing).Sound [] := by
  refine of_start rfl rfl ?_
  apply Vector.ext
  intro i hi
  show (Vector.replicate 256 0)[i] = (programOf [])[i]
  rw [Vector.getElem_replicate, programOf, Vector.getElem_ofFn, List.getD_nil]

theorem start (c : Core) (words : List Word) :
    { c.reset with program := programOf words }.Sound words := of_start rfl rfl rfl

theorem reset (h : c.Sound loaded) : c.reset.Sound loaded :=
  of_start rfl rfl (by simp [h.program])

theorem setRegister (h : c.Sound loaded) (r : BitVec 5) (value : Word) :
    (c.setRegister r value).Sound loaded := h.congr (by simp) (by simp) (by simp)

theorem setRegisterAt (h : c.Sound loaded) {index value : Int}
    (hset : c.setRegisterAt index value = .ok d) : d.Sound loaded := by
  unfold Core.setRegisterAt at hset
  cases hindex : registerAt? index with
  | none =>
    rw [hindex] at hset
    cases hset
  | some r =>
    rw [hindex] at hset
    obtain rfl := Except.ok.inj hset
    exact h.setRegister r (wordOf value)

theorem store (h : c.Sound loaded) (address value : Word) : (c.store address value).Sound loaded :=
  h.congr (by simp) (by simp) (by simp)

theorem load (h : c.Sound loaded) (address : Word) : (c.load address).1.Sound loaded :=
  h.congr (by simp) (by simp) (by simp)

theorem beginLog (h : c.Sound loaded) (traced : Bool) : (c.beginLog traced).Sound loaded :=
  h.congr (by simp) (by simp) (by simp)

theorem halt (h : c.Sound loaded) : { c with halted := true }.Sound loaded := h.congr rfl rfl rfl

/-- The end of a step moves the program counter to an aligned address, whatever the step found. -/
theorem moveTo (h : c.Sound loaded) (a : Accessed) :
    { c with pc := (a.target.toNat : Int) }.Sound loaded := by
  have htarget := toNat_target a
  have hlt := a.target.isLt
  have haligned : (a.target.toNat : Int) % 4 = 0 := by omega
  exact {
    zero := h.zero
    pc_nonneg := Int.natCast_nonneg _
    pc_lt := Int.ofNat_lt.2 hlt
    pc_aligned := haligned
    program := h.program }

/-! ## One phase -/

theorem decode (h : c.Sound loaded) (f : Fetched) : (c.decode f).1.Sound loaded := by
  rw [core_decode]
  exact h.congr rfl rfl rfl

theorem access (h : c.Sound loaded) (e : Executed) : (c.access e).1.Sound loaded := by
  unfold Core.access
  split
  · exact h.store _ _
  · split
    · exact h.load _
    · exact h

theorem writeBack (h : c.Sound loaded) (a : Accessed) : (c.writeBack a).1.Sound loaded := by
  unfold Core.writeBack
  cases a.writeBack? with
  | none => exact h.moveTo a
  | some entry => exact (h.setRegister entry.1 entry.2).moveTo a

/-- A fetch is not refused, so an attempt that starts finds a word or stops the core. -/
theorem fetch_ok (h : c.Sound loaded) : ∃ found, c.fetch = .ok found := ⟨_, fetch_eq h.pc_nonneg⟩

theorem startAttempt (h : c.Sound loaded) (trace : Option Bool) :
    (Attempt.start c trace).core.Sound loaded := by
  unfold Attempt.start
  split
  · exact h
  · obtain ⟨found, hfetch⟩ := (h.beginLog (c.traces trace)).fetch_ok
    simp only [hfetch]
    cases found with
    | halt word => exact (h.beginLog _).halt
    | execute word => exact h.beginLog _

/-- Resuming an attempt, whatever it holds. -/
theorem resume (h : c.Sound loaded) (attempt : Attempt) :
    (attempt.resume c).core.Sound loaded := by
  cases attempt with
  | fresh trace => exact h.startAttempt trace
  | halting => exact h
  | fetched trace f =>
    have hdecode := h.decode f
    simp only [Attempt.resume]
    split
    · exact hdecode
    · exact hdecode
  | decoded trace d => exact h
  | executed trace e => exact h.access e
  | accessed trace a => exact h.writeBack a
  | written trace w =>
    simp only [Attempt.resume]
    split
    · exact h
    · exact h
  | finished => exact h

/-! ## Whole steps and runs -/

theorem commit_written (h : c.Sound loaded) (traced : Bool) (word : Word) :
    ((c.beginLog traced).commit (c.written word)).Sound loaded := by
  have hdecode : ((c.beginLog traced).afterDecode word).Sound loaded := h.congr rfl rfl rfl
  have hback : ((c.beginLog traced).afterWriteBack word).Sound loaded :=
    (hdecode.access _).writeBack _
  rw [afterWriteBack_eq] at hback
  exact hback

/-- A whole step keeps the invariant and is not refused. -/
theorem step (h : c.Sound loaded) (trace : Option Bool) :
    (c.step trace).core.Sound loaded ∧ ∃ result, (c.step trace).result = .ok result := by
  rcases step_cases h.pc_nonneg trace with
    ⟨-, hstep⟩ | ⟨-, found, -, hstep⟩ | ⟨-, word, -, hstep⟩
  · rw [hstep]
    exact ⟨h, _, rfl⟩
  · rw [hstep]
    exact ⟨(h.beginLog _).halt, _, rfl⟩
  · rw [hstep]
    exact ⟨h.commit_written _ word, _, rfl⟩

theorem runFrom (limits : RunLimits) (trace : Option Bool) (bound : Nat) :
    ∀ (c : Core) (executed : Nat) (lines : Array TraceLine), c.Sound loaded →
      (Core.runFrom limits trace bound c executed lines).core.Sound loaded := by
  induction bound with
  | zero => exact fun c executed lines h => h
  | succ bound ih =>
    intro c executed lines h
    obtain ⟨hcore, result, hresult⟩ := h.step trace
    unfold Core.runFrom
    by_cases hhalted : c.halted = true
    · rw [if_pos hhalted]
      exact h
    · rw [if_neg hhalted]
      simp only [hresult]
      generalize (if result.isSome = true then executed + 1 else executed) = executed'
      split
      · exact hcore
      · exact ih _ _ _ hcore

/-- A step in phases without interference keeps the invariant and is not refused. -/
theorem notify (h : c.Sound loaded) (trace : Option Bool) :
    (c.drain (.fresh trace)).core.Sound loaded ∧
      ∃ result, (c.drain (.fresh trace)).result = .ok result := by
  obtain ⟨hcore, hresult⟩ := drain_fresh c trace
  rw [hcore, hresult]
  exact h.step trace

end Core.Sound

/-! ## Histories -/

namespace System

theorem load_sound {s : System} (h : s.core.Sound s.loaded) {e : Edit} {reading : Reading}
    (hreading : e.reading? = some reading) : (s.edit e).core.Sound (s.edit e).loaded := by
  cases hwords : Core.wordsToLoad? reading with
  | none =>
    obtain ⟨hcore, error, hresult⟩ := Core.loadReading_of_none s.core hwords
    have hedit : s.edit e = s := by
      simp only [edit, s.core.edit_of_reading hreading, hcore, hresult, Edit.words?,
        Option.getD_none]
    rw [hedit]
    exact h
  | some words =>
    obtain ⟨hcore, hresult⟩ := Core.loadReading_of_some s.core hwords
    obtain ⟨hok, -⟩ := Core.wordsToLoad?_eq_some.1 hwords
    have hedit : s.edit e =
        { s with
          core := { s.core.reset with program := Core.programOf words }
          loaded := words } := by
      simp only [edit, s.core.edit_of_reading hreading, hcore, hresult, Edit.words?, hreading,
        Option.bind_some, hok, Except.toOption, Option.getD_some]
    rw [hedit]
    exact Core.Sound.start s.core words

/-- One edit, whatever it is, keeps the invariant. -/
theorem edit_sound {s : System} (h : s.core.Sound s.loaded) (e : Edit) :
    (s.edit e).core.Sound (s.edit e).loaded := by
  cases e with
  | load program => exact load_sound h rfl
  | loadFile name bytes => exact load_sound h rfl
  | reset => exact h.reset
  | setRegister index value =>
    simp only [edit, Core.edit]
    cases hset : s.core.setRegisterAt index value with
    | error refusal => exact h
    | ok c => exact h.setRegisterAt hset
  | store address value => exact h.store _ _
  | read address => exact h.load _

/-- One request, whatever it asks for, keeps the invariant. -/
theorem perform_sound {s : System} (h : s.core.Sound s.loaded) (request : Request) :
    (s.perform request).core.Sound (s.perform request).loaded := by
  cases request with
  | edit e => exact edit_sound h e
  | setTracing tracing => exact h.congr rfl rfl rfl
  | step trace => exact (h.step trace).1
  | notify trace => exact (h.notify trace).1
  | run limits trace bound => exact Core.Sound.runFrom limits trace bound s.core 0 #[] h
  | openAttempt trace => exact h
  | resume k =>
    simp only [perform]
    cases s.attempts[k]? with
    | none => exact h
    | some attempt => exact h.resume attempt
  | abandon k => exact h

theorem performAll_sound (requests : List Request) :
    ∀ {s : System}, s.core.Sound s.loaded →
      (s.performAll requests).core.Sound (s.performAll requests).loaded := by
  induction requests with
  | nil => exact fun h => h
  | cons request requests ih => exact fun h => ih (perform_sound h request)

end System

/-- A core in use: every history of requests to a fresh core leaves the tables in shape, register 0
at zero, the program counter at an aligned address, and in instruction memory the program that was
loaded last. A step of such a core is not refused: there is something to fetch or nothing, the
control unit knows every word, and the arithmetic unit knows the operation that it selects. -/
theorem System.sound_of_history (tracing : Bool) (requests : List Request) :
    let s := (System.fresh tracing).performAll requests
    s.core.Sized ∧ s.core.Sound s.loaded ∧
      (∃ found, s.core.fetch = .ok found) ∧
      (∀ word ∈ s.core.program, ∃ control, Instruction.control ⟨word⟩ = .ok control ∧
        AluOp.ofCode? control.aluOp.code = some control.aluOp) ∧
      ∀ trace, (∃ result, (s.core.step trace).result = .ok result) ∧
        ∃ result, (s.core.drain (.fresh trace)).result = .ok result := by
  intro s
  have hsound : s.core.Sound s.loaded := performAll_sound requests (Core.Sound.fresh tracing)
  refine ⟨s.core.sized, hsound, hsound.fetch_ok, ?_, ?_⟩
  · intro word _
    refine ⟨_, Instruction.control_eq_signals _, ?_⟩
    cases (Instruction.signals ⟨word⟩).aluOp <;> rfl
  · intro trace
    exact ⟨(hsound.step trace).2, (hsound.notify trace).2⟩

end SingleCycle
