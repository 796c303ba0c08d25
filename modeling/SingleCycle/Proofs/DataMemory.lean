import SingleCycle.Proofs.Interleaving
import SingleCycle.Proofs.Iteration

/-!
# Data memory and its stores

Data memory read at integer addresses. A word reads as the value of the last store to it since the
last reset or load of a program, or else as the word that a reset leaves there. It makes no
difference whether the stores were asked for from outside or were made by instructions, in whole
steps, in runs or in single phases of attempts that overlap with other requests.
-/

namespace SingleCycle

/-! ## Words and addresses -/

theorem memoryIndex_wordOf (address : Int) :
    ((memoryIndex (wordOf address)).toNat : Int) = wordNumber address := by
  have hword : ((wordOf address).toNat : Int) = address % 2 ^ 32 := natCast_wordOf address
  rw [memoryIndex_eq_cell, Machine.cell, BitVec.toNat_ofNat]
  unfold wordNumber
  omega

theorem memoryIndex_eq_iff {a b : Int} :
    memoryIndex (wordOf a) = memoryIndex (wordOf b) ↔ wordNumber a = wordNumber b := by
  have ha := memoryIndex_wordOf a
  have hb := memoryIndex_wordOf b
  constructor
  · intro h
    rw [← ha, ← hb, h]
  · intro h
    apply BitVec.eq_of_toNat_eq
    omega

theorem contentsAt_append (stores : List Store) (s : Store) (address : Int) :
    contentsAt (stores ++ [s]) address =
      if wordNumber s.address = wordNumber address then s.value % 2 ^ 32
      else contentsAt stores address := by
  unfold contentsAt
  rw [List.reverse_append, List.reverse_singleton, List.singleton_append, List.find?_cons]
  by_cases h : wordNumber s.address = wordNumber address
  · simp [h]
  · simp [h]

/-! ## One operation -/

namespace Core

/-- Data memory of the core is what the stores have made of it. -/
def Holds (c : Core) (stores : List Store) : Prop :=
  ∀ address : Int, ((c.dataAt (wordOf address)).toNat : Int) = contentsAt stores address

namespace Holds

variable {c d : Core} {stores : List Store}

theorem congr (h : c.Holds stores) (hmemory : d.memory = c.memory) : d.Holds stores := by
  intro address
  rw [← h address, dataAt, dataAt, hmemory]

theorem seed (hmemory : c.memory = memorySeed) : c.Holds [] := by
  intro address
  have hseed : ∀ i : BitVec 5,
      ((memorySeed.get i.toFin).toNat : Int) = [5, 0xAF, 0xD2, 3].getD i.toNat 0 := by decide
  have hindex : (memoryIndex (wordOf address)).toNat = (wordNumber address).toNat := by
    have hnumber := memoryIndex_wordOf address
    omega
  rw [dataAt, hmemory, hseed, hindex]
  rfl

/-- Reading over a store: the word that was stored to, and every other one. -/
theorem store (h : c.Holds stores) (address value : Int) :
    (c.store (wordOf address) (wordOf value)).Holds (stores ++ [⟨address, value⟩]) := by
  intro other
  rw [dataAt_store, contentsAt_append]
  by_cases hsame : wordNumber address = wordNumber other
  · rw [if_pos (memoryIndex_eq_iff.2 hsame.symm), if_pos hsame, natCast_wordOf]
    rfl
  · rw [if_neg fun hindex => hsame (memoryIndex_eq_iff.1 hindex).symm, if_neg hsame, h other]

end Holds

end Core

/-! ## Instructions -/

/-- The values come from decoding a word and doing its arithmetic. -/
structure Executed.Genuine (e : Executed) : Prop where
  control : e.control = e.instruction.signals
  execute : e = e.toDecoded.execute

namespace Executed.Genuine

variable {e : Executed}

theorem aluResult_of_store (h : e.Genuine) (hopcode : e.instruction.opcode? = some .store) :
    e.aluResult = wordOf (e.rs1Value.toNat + e.instruction.imm) := by
  have hcontrol := h.control
  rw [Instruction.signals_of_store hopcode] at hcontrol
  rw [h.execute, wordOf_add]
  simp only [Decoded.execute, hcontrol]
  rfl

end Executed.Genuine

namespace Core

variable {c d : Core} {stores : List Store}

theorem memory_access (c : Core) (e : Executed) : (c.access e).1.memory =
    if e.control.memoryWrite then
      c.memory.set (memoryIndex e.aluResult).toNat e.rs2Value (memoryIndex e.aluResult).isLt
    else c.memory := by
  rw [access_eq]

namespace Holds

/-- The memory phase of an instruction, or a whole step. -/
theorem access (h : c.Holds stores) {e : Executed} (he : e.Genuine)
    (hmemory : d.memory = (c.access e).1.memory) : d.Holds (stores ++ e.stores) := by
  rw [memory_access, he.control] at hmemory
  unfold Executed.stores
  by_cases hopcode : e.instruction.opcode? = some .store
  · have hstore := h.store (e.rs1Value.toNat + e.instruction.imm) e.rs2Value.toNat
    rw [wordOf_toNat, ← he.aluResult_of_store hopcode] at hstore
    rw [if_pos hopcode]
    refine hstore.congr ?_
    rw [hmemory, if_pos (Instruction.memoryWrite_iff.2 hopcode)]
    rfl
  · rw [if_neg hopcode, List.append_nil]
    refine h.congr ?_
    rw [hmemory, if_neg fun hwrite => hopcode (Instruction.memoryWrite_iff.1 hwrite)]

/-- A step makes the store of the instruction that it executes. -/
theorem step (h : c.Holds stores) (trace : Option Bool) :
    (c.step trace).core.Holds (stores ++ storesOf (c.step trace).result) := by
  have hempty : c.Holds (stores ++ []) := by rwa [List.append_nil]
  rcases c.step_forms trace with
    ⟨-, hstep⟩ | ⟨-, fault, -, hstep⟩ | ⟨-, found, -, hstep⟩ | ⟨-, word, -, hstep⟩
  · rw [hstep]
    exact hempty
  · rw [hstep]
    exact hempty.congr rfl
  · rw [hstep]
    exact hempty.congr rfl
  · rw [hstep]
    refine h.access (e := (c.decoded word).execute) ⟨rfl, rfl⟩ ?_
    rw [memory_access]
    rfl

end Holds

/-! ## Edits -/

namespace Holds

/-- A load that succeeds takes data memory back to its start, one that fails leaves it alone. -/
theorem load (h : c.Holds stores) {e : Edit} {reading : Reading}
    (hreading : e.reading? = some reading) :
    (c.edit e).core.Holds (e.storesAfter stores (c.edit e).reply) := by
  have hstores : ∀ log result, e.storesAfter stores (.loaded log result) =
      match result with
      | .ok _ => []
      | .error _ => stores := by
    intro log result
    cases e with
    | load program => cases result <;> rfl
    | loadFile name bytes => cases result <;> rfl
    | reset | setRegister | store | read => cases hreading
  rw [c.edit_of_reading hreading, hstores]
  cases hwords : wordsToLoad? reading with
  | none =>
    obtain ⟨hcore, error, hresult⟩ := c.loadReading_of_none hwords
    rw [hcore, hresult]
    exact h
  | some words =>
    obtain ⟨hcore, hresult⟩ := c.loadReading_of_some hwords
    rw [hcore, hresult]
    exact .seed rfl

theorem edit (h : c.Holds stores) (e : Edit) :
    (c.edit e).core.Holds (e.storesAfter stores (c.edit e).reply) := by
  cases e with
  | load program => exact h.load rfl
  | loadFile name bytes => exact h.load rfl
  | reset => exact .seed rfl
  | setRegister index value =>
    simp only [Core.edit, setRegisterAt]
    cases registerAt? index with
    | none => exact h
    | some r => exact h.congr (by simp)
  | store address value => exact h.store address value
  | read address => exact h.congr (by simp [Core.edit])

end Holds

/-! ## Runs -/

variable {trace : Option Bool}

/-- A step without an instruction leaves the core stopped. -/
theorem halted_of_no_result (h : (c.step trace).result = .ok none) :
    (c.step trace).core.halted = true := by
  rcases c.step_forms trace with
    ⟨hhalted, hstep⟩ | ⟨-, fault, -, hstep⟩ | ⟨-, found, -, hstep⟩ | ⟨-, word, -, hstep⟩
  · rw [hstep]
    exact hhalted
  · rw [hstep] at h
    cases h
  · rw [hstep]
  · rw [hstep] at h
    cases h

/-- A run makes the stores of its steps. -/
theorem Holds.runFrom (limits : RunLimits) (trace : Option Bool) (bound : Nat) :
    ∀ {c : Core} {stores : List Store} (k : Nat) (lines : Array TraceLine), c.Holds stores →
      ∃ n, (Core.runFrom limits trace bound c k lines).executed = k + n ∧
        (Core.runFrom limits trace bound c k lines).core.Holds (stores ++ c.storesIn trace n) := by
  induction bound with
  | zero =>
    intro c stores k lines h
    refine ⟨0, rfl, ?_⟩
    rw [storesIn, List.append_nil]
    exact h
  | succ bound ih =>
    intro c stores k lines h
    by_cases hhalted : c.halted = true
    · rw [runFrom_of_halted hhalted]
      refine ⟨0, rfl, ?_⟩
      rw [storesIn, List.append_nil]
      exact h
    have hstep := h.step trace
    simp only [Core.runFrom, if_neg hhalted]
    cases hresult : (c.step trace).result with
    | error fault =>
      rw [hresult] at hstep
      exact ⟨0, rfl, hstep⟩
    | ok result =>
      rw [hresult] at hstep
      cases result with
      | none =>
        have hstopped := halted_of_no_result hresult
        simp only [runFrom_of_halted hstopped, ite_self]
        exact ⟨0, rfl, hstep⟩
      | some w =>
        simp only [Option.isSome_some, if_true]
        split
        · refine ⟨1, rfl, ?_⟩
          rw [storesIn, storesIn, hresult, List.append_nil]
          exact hstep
        · obtain ⟨n, hexecuted, hcore⟩ := ih (k + 1) (appendLine lines (c.step trace).line) hstep
          refine ⟨n + 1, by omega, ?_⟩
          rw [storesIn, hresult, ← List.append_assoc]
          exact hcore

theorem Holds.run (h : c.Holds stores) (limits : RunLimits)
    (trace : Option Bool) (bound : Nat) : (c.run limits trace bound).core.Holds
      (stores ++ c.storesIn trace (c.run limits trace bound).executed) := by
  obtain ⟨n, hexecuted, hcore⟩ := Holds.runFrom limits trace bound 0 #[] h
  rw [Nat.zero_add] at hexecuted
  rw [Core.run, hexecuted]
  exact hcore

end Core

/-! ## Attempts -/

/-- What an attempt keeps of its instruction has come from decoding it. -/
inductive Attempt.Genuine : Attempt → Prop
  | fresh (trace : Option Bool) : Genuine (.fresh trace)
  | halting : Genuine .halting
  | fetched (trace : Bool) (f : Fetched) : Genuine (.fetched trace f)
  | decoded (trace : Bool) {d : Decoded} (h : d.control = d.instruction.signals) :
      Genuine (.decoded trace d)
  | executed (trace : Bool) {e : Executed} (h : e.Genuine) : Genuine (.executed trace e)
  | accessed (trace : Bool) (a : Accessed) : Genuine (.accessed trace a)
  | written (trace : Bool) (w : Written) : Genuine (.written trace w)
  | finished : Genuine .finished

namespace Core.Holds

variable {c : Core} {stores : List Store} {attempt : Attempt}

theorem resume_fresh (h : c.Holds stores) (trace : Option Bool) :
    (Attempt.resume c (.fresh trace)).core.Holds stores ∧
      (Attempt.resume c (.fresh trace)).attempt.Genuine := by
  rcases c.step_forms trace with
    ⟨hhalted, -⟩ | ⟨hrun, fault, hfetch, -⟩ | ⟨hrun, found, hfetch, -⟩ | ⟨hrun, word, hfetch, -⟩
  · rw [resume_of_halted hhalted]
    exact ⟨h, .finished⟩
  · rw [resume_of_fault hrun hfetch]
    exact ⟨h.congr rfl, .finished⟩
  · rw [resume_of_halt hrun hfetch]
    exact ⟨h.congr rfl, .halting⟩
  · rw [resume_of_execute hrun hfetch]
    exact ⟨h.congr rfl, .fetched _ _⟩

/-- Resuming an attempt makes a store in its memory phase only, and of the values that the attempt
has read before. -/
theorem resume (h : c.Holds stores) (hattempt : attempt.Genuine) :
    (attempt.resume c).core.Holds (stores ++ attempt.stores) ∧
      (attempt.resume c).attempt.Genuine := by
  have hempty : c.Holds (stores ++ []) := by rwa [List.append_nil]
  cases hattempt with
  | fresh trace => exact hempty.resume_fresh trace
  | halting => exact ⟨hempty, .finished⟩
  | fetched trace f =>
    simp only [Attempt.resume, decode, Instruction.control_eq_signals]
    exact ⟨hempty.congr rfl, .decoded trace rfl⟩
  | decoded trace hcontrol => exact ⟨hempty, .executed trace ⟨hcontrol, rfl⟩⟩
  | executed trace he => exact ⟨h.access he rfl, .accessed _ _⟩
  | accessed trace a =>
    simp only [Attempt.resume, writeBack_eq]
    exact ⟨hempty.congr rfl, .written _ _⟩
  | written trace w =>
    simp only [Attempt.resume]
    split
    · exact ⟨hempty, .finished⟩
    · exact ⟨hempty, .finished⟩
  | finished => exact ⟨hempty, .finished⟩

end Core.Holds

/-! ## Histories -/

namespace System

/-- Data memory is what the stores have made of it, and the attempts are as they should be. -/
structure Holds (s : System) (stores : List Store) : Prop where
  core : s.core.Holds stores
  attempts : ∀ attempt ∈ s.attempts, attempt.Genuine

namespace Holds

variable {s : System} {stores : List Store}

theorem of_fresh (tracing : Bool) : (fresh tracing).Holds [] :=
  ⟨.seed rfl, List.forall_mem_nil _⟩

theorem resume (h : s.Holds stores) (k : Nat) :
    (s.perform (.resume k)).Holds (stores ++ (s.attempts[k]?.map Attempt.stores).getD []) := by
  simp only [perform]
  cases hattempt : s.attempts[k]? with
  | none =>
    rw [Option.map_none, Option.getD_none, List.append_nil]
    exact h
  | some attempt =>
    have hmem : attempt ∈ s.attempts := List.mem_of_getElem? hattempt
    obtain ⟨hcore, hnext⟩ := h.core.resume (h.attempts attempt hmem)
    refine ⟨hcore, fun other hother => ?_⟩
    rcases List.mem_or_eq_of_mem_set hother with hold | rfl
    · exact h.attempts other hold
    · exact hnext

/-- One action, whatever it is. -/
theorem act (h : s.Holds stores) (action : Action) :
    (s.act action).Holds (s.storesAfter stores action) := by
  cases action with
  | setPc pc => exact ⟨h.core.congr rfl, h.attempts⟩
  | request request =>
    cases request with
    | edit e => exact ⟨h.core.edit e, h.attempts⟩
    | setTracing tracing => exact ⟨h.core.congr rfl, h.attempts⟩
    | step trace => exact ⟨h.core.step trace, h.attempts⟩
    | notify trace =>
      obtain ⟨hcore, hresult⟩ := Core.drain_fresh s.core trace
      refine ⟨?_, h.attempts⟩
      show (s.core.drain (.fresh trace)).core.Holds (stores ++ storesOf _)
      rw [hcore, hresult]
      exact h.core.step trace
    | run limits trace bound => exact ⟨h.core.run limits trace bound, h.attempts⟩
    | openAttempt trace =>
      refine ⟨h.core, fun attempt hattempt => ?_⟩
      rcases List.mem_append.1 hattempt with hold | hnew
      · exact h.attempts attempt hold
      · obtain rfl := List.mem_singleton.1 hnew
        exact .fresh trace
    | resume k => exact h.resume k
    | abandon k =>
      refine ⟨h.core, fun attempt hattempt => ?_⟩
      rcases List.mem_or_eq_of_mem_set hattempt with hold | rfl
      · exact h.attempts attempt hold
      · exact .finished

/-- Any actions. -/
theorem actAll (actions : List Action) : ∀ {s : System} {stores : List Store}, s.Holds stores →
    (s.actAll actions).Holds (s.storesSince stores actions) := by
  induction actions with
  | nil => exact fun h => h
  | cons action actions ih => exact fun h => ih (h.act action)

end Holds

/-- Whatever has been done to a core, a load at any address finds the value of the last store to its
data word since the last reset or load of a program, and what a reset leaves there if there is none.
It changes nothing but the log. -/
theorem load_of_history (tracing : Bool) (actions : List Action) (address : Int) :
    let s := (fresh tracing).actAll actions
    ((s.core.load (wordOf address)).2.toNat : Int) =
        contentsAt ((fresh tracing).storesSince [] actions) address ∧
      (s.core.load (wordOf address)).1 =
        { s.core with log := (s.core.load (wordOf address)).1.log } := by
  intro s
  have hholds : s.Holds ((fresh tracing).storesSince [] actions) :=
    (Holds.of_fresh tracing).actAll actions
  exact ⟨hholds.core address, rfl⟩

/-- The store of register 7 at the first address behind data memory, and a negative address. -/
example : (fresh false).storesSince []
    [.request (.edit (.load (.words [0x08702023]))), .request (.step none),
      .request (.edit (.store (-1) 5))] = [⟨128, 7⟩, ⟨-1, 5⟩] := by decide +kernel

end System

end SingleCycle
