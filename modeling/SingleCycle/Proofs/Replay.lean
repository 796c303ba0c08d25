import SingleCycle.Proofs.InstructionEffect

/-!
# Records as a log of effects

The records of steps tell all that the steps have done. Replaying them on the core that the steps
started from, which reads nothing but the records, leads to the core that the steps ended in. What a
record says of write-backs, of data memory and of the next address follows from the opcode of the
word, also where the word is no instruction.
-/

namespace SingleCycle

namespace Core

/-! ## Replaying records -/

/-- Applies the effects that a record tells of. -/
def replay (c : Core) (r : Record) : Core :=
  { c with
    pc := (r.pcAfter.map fun address : Word => (address.toNat : Int)).getD c.pc
    cycle := c.cycle + 1
    last := r.instruction
    memory :=
      match r.control.map Control.memoryWrite, r.memoryIndex, r.rs2Value with
      | some true, some i, some value => c.memory.set i.toNat value (toNat_lt_of_register i)
      | _, _, _ => c.memory
    registers :=
      match r.writeBack with
      | some (rd, value) => c.registers.set rd.toNat value (toNat_lt_of_register rd)
      | none => c.registers }

/-- Steps that lead from the core `c` to the core `d` and end with a record each. -/
inductive Recorded : Core → List Record → Core → Prop
  | nil (c : Core) : Recorded c [] c
  | cons {c d : Core} {records : List Record} {w : Written} (trace : Option Bool)
      (hstep : (c.step trace).result = .ok (some w))
      (hrest : Recorded (c.step trace).core records d) : Recorded c (.ofWritten w :: records) d

/-- The record `r` of a step of the core `c` that executes the instruction `i`, where the arithmetic
comes to `value`. -/
structure Records (c : Core) (i : Instruction) (value : Word) (r : Record) : Prop where
  /-- The word of the instruction is the one that was next. -/
  nextWord : c.nextWord? = some i.data
  word : r.word = some i.data
  instruction : r.instruction = some i
  aluResult : r.aluResult = some value
  /-- The step starts at the program counter. -/
  pcBefore : r.pcBefore = c.pc
  /-- Stores and branches write no register, and nothing writes register 0. Every other instruction
  writes a register: a load the data word that was there before the step, and the rest the result of
  the arithmetic. -/
  writeBack : r.writeBack =
    if i.opcode? = some .store ∨ i.opcode? = some .branch ∨ i.rd = 0 then none
    else some (i.rd, if i.opcode? = some .load then c.dataAt value else value)
  /-- Loads and stores access data memory, and nothing else does. -/
  memoryIndex : r.memoryIndex.isSome ↔ i.opcode? = some .load ∨ i.opcode? = some .store
  /-- What is no branch moves on to the next address. -/
  pcAfter : i.opcode? ≠ some .branch →
    ∃ address, r.pcAfter = some address ∧ (address.toNat : Int) = (c.pc + 4) / 4 * 4 % 2 ^ 32

/-- The records are a complete log of the way from the core `c` to the core `d`. -/
structure CompleteLog (c : Core) (records : List Record) (d : Core) : Prop where
  /-- Replaying them leads from the one core to the other, but for what is traced. -/
  replayed : records.foldl replay c = { d with log := c.log }
  /-- Each of them starts where the one before it has led to. -/
  chained : records.map (fun r => some r.pcBefore) ++ [some d.pc] =
    some c.pc :: records.map fun r => r.pcAfter.map fun address : Word => (address.toNat : Int)
  /-- Each of them is the record of a step of the core that those before it lead to. -/
  explained : ∀ before r after, records = before ++ r :: after →
    ∃ e i value, c.Recorded before e ∧ e.Recorded (r :: after) d ∧ e.Records i value r

variable {c d : Core} {word : Word} {records : List Record}

/-! ## One step -/

/-- What the record of a step says. -/
theorem records_written (hword : c.nextWord? = some word) :
    c.Records ⟨word⟩ (c.accessed word).aluResult (.ofWritten (c.written word)) where
  nextWord := hword
  word := rfl
  instruction := rfl
  aluResult := rfl
  pcBefore := rfl
  writeBack := writeBack_written.trans (by rw [result_accessed])
  memoryIndex := by
    show ((c.accessed word).access.map _).isSome = true ↔ _
    rw [Option.isSome_map, access_accessed]
    by_cases hstore : Instruction.opcode? ⟨word⟩ = some .store
    · simp [hstore]
    · by_cases hload : Instruction.opcode? ⟨word⟩ = some .load
      · simp [hload]
      · simp [hstore, hload]
  pcAfter := by
    intro hbranch
    have htarget := toNat_target (c.accessed word)
    rw [taken_accessed_eq_false hbranch, if_neg Bool.false_ne_true] at htarget
    refine ⟨(c.accessed word).target, rfl, htarget.trans ?_⟩
    -- The bits are cleared after the address has wrapped around, which is all the same.
    show (c.pc + 4) % 2 ^ 32 / 4 * 4 = _
    omega

/-- The store of a step, as its record tells it. -/
theorem memory_replay :
    (c.replay (.ofWritten (c.written word))).memory = c.storedMemory word := by
  show (match some (Instruction.signals ⟨word⟩).memoryWrite,
      (c.accessed word).access.map (fun access => memoryIndex access.address),
      some (c.written word).rs2Value with
    | some true, some i, some value => c.memory.set i.toNat value i.isLt
    | _, _, _ => c.memory) = _
  cases hstore : (Instruction.signals ⟨word⟩).memoryWrite with
  | true =>
    have haccess : (c.accessed word).access = some (.store (c.accessed word).aluResult) :=
      if_pos hstore
    rw [haccess, storedMemory_of_store hstore]
    rfl
  | false =>
    rw [storedMemory_of_no_store hstore]

/-- Replaying the record of a step takes the step, but for what is traced. -/
theorem replay_written (traced : Bool) :
    c.replay (.ofWritten (c.written word)) =
      { (c.beginLog traced).commit (c.written word) with log := c.log } :=
  Core.ext rfl rfl rfl rfl memory_replay rfl rfl rfl rfl

/-! ## Any number of steps -/

/-- Records are replayed without looking at the log. -/
theorem foldl_replay_log (records : List Record) : ∀ (c : Core) (log : Option (List LogEntry)),
    records.foldl replay { c with log } = { records.foldl replay c with log } := by
  induction records with
  | nil => exact fun c log => rfl
  | cons r records ih => exact fun c log => ih (c.replay r) log

namespace Recorded

theorem pc_nonneg (h : c.Recorded records d) (hpc : 0 ≤ c.pc) : 0 ≤ d.pc := by
  induction h with
  | nil c => exact hpc
  | cons trace hstep hrest ih =>
    obtain ⟨-, -, -, -, hnext⟩ := step_of_result hpc hstep
    exact ih hnext

theorem replayed (h : c.Recorded records d) (hpc : 0 ≤ c.pc) :
    records.foldl replay c = { d with log := c.log } := by
  induction h with
  | nil c => rfl
  | @cons c d records w trace hstep hrest ih =>
    obtain ⟨word, -, rfl, hcore, hnext⟩ := step_of_result hpc hstep
    have hreplay : c.replay (.ofWritten (c.written word)) =
        { (c.step trace).core with log := c.log } := by
      rw [hcore]
      exact replay_written _
    -- A record does not tell the log, so the others are replayed with the log of the start.
    rw [List.foldl_cons, hreplay, foldl_replay_log, ih hnext]

theorem chained (h : c.Recorded records d) (hpc : 0 ≤ c.pc) :
    records.map (fun r => some r.pcBefore) ++ [some d.pc] =
      some c.pc :: records.map fun r => r.pcAfter.map fun address : Word => (address.toNat : Int) := by
  induction h with
  | nil c => rfl
  | @cons c d records w trace hstep hrest ih =>
    obtain ⟨word, -, rfl, hcore, hnext⟩ := step_of_result hpc hstep
    have hrest := ih hnext
    rw [List.map_cons, List.cons_append, hrest, hcore]
    rfl

/-- Steps can be cut anywhere. -/
theorem split {before rest : List Record} : ∀ {c : Core}, c.Recorded (before ++ rest) d →
    ∃ e, c.Recorded before e ∧ e.Recorded rest d := by
  induction before with
  | nil => exact fun {c} h => ⟨c, .nil c, h⟩
  | cons r before ih =>
    intro c h
    cases h with
    | cons trace hstep hrest =>
      obtain ⟨e, hbefore, hafter⟩ := ih hrest
      exact ⟨e, .cons trace hstep hbefore, hafter⟩

theorem explained (h : c.Recorded records d) (hpc : 0 ≤ c.pc) {before after : List Record}
    {r : Record} (hrecords : records = before ++ r :: after) :
    ∃ e i value, c.Recorded before e ∧ e.Recorded (r :: after) d ∧ e.Records i value r := by
  rw [hrecords] at h
  obtain ⟨e, hbefore, hafter⟩ := h.split
  have hrecord : ∃ i value, e.Records i value r := by
    cases hafter with
    | cons trace hstep hrest =>
      obtain ⟨word, hword, rfl, -, -⟩ := step_of_result (hbefore.pc_nonneg hpc) hstep
      exact ⟨_, _, records_written hword⟩
  obtain ⟨i, value, hrecord⟩ := hrecord
  exact ⟨e, i, value, hbefore, hafter, hrecord⟩

end Recorded

/-- The records of steps that are taken one after the other are a complete log of what the steps do,
whatever words are executed. -/
theorem completeLog (c d : Core) (records : List Record) (hpc : 0 ≤ c.pc)
    (h : c.Recorded records d) : c.CompleteLog records d where
  replayed := h.replayed hpc
  chained := h.chained hpc
  explained := fun _ _ _ hrecords => h.explained hpc hrecords

/-- A store, a load from the same address and a word that the datapath has no operation for, from an
address that is no multiple of four. -/
theorem completeLog_storeLoad :
    let c := { fresh false with pc := 2, program := programOf [0x00202423, 0x00802203, 0x123454B7] }
    ∃ records d, c.Recorded records d ∧
      records.map Record.memoryIndex = [some 2, some 2, none] ∧ c.CompleteLog records d := by
  intro c
  let c₁ := (c.step none).core
  let c₂ := (c₁.step (some true)).core
  have hrecorded : c.Recorded [.ofWritten (c.written 0x00202423),
      .ofWritten (c₁.written 0x00802203), .ofWritten (c₂.written 0x123454B7)]
      (c₂.step none).core := by
    refine .cons none ?_ (.cons (some true) ?_ (.cons none ?_ (.nil _)))
    · exact result_of_nextWord? rfl (by decide) (by decide +kernel)
    · exact result_of_nextWord? (by decide +kernel) (by decide +kernel) (by decide +kernel)
    · exact result_of_nextWord? (by decide +kernel) (by decide +kernel) (by decide +kernel)
  exact ⟨_, _, hrecorded, by decide +kernel, completeLog _ _ _ (by decide) hrecorded⟩

end Core

end SingleCycle
