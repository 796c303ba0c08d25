import SingleCycle.Proofs.Loading
import SingleCycle.Proofs.WholeStep

/-!
# The effect of a step

A step of the datapath does to registers, data memory and program counter what the instruction set
says of the instruction that is fetched, and touches nothing else. The proof goes through the record
of the step: its operands come from the fields of the word, its result from the arithmetic unit, and
its write-back and its target from the signals.
-/

namespace SingleCycle

/-! ## The core as a machine -/

/-- The registers and the data memory of a core. -/
def Core.machine (c : Core) : Machine := ⟨c.register, fun i => c.memory.get i.toFin⟩

theorem memoryIndex_eq_cell (address : Word) : memoryIndex address = Machine.cell address := by
  apply BitVec.eq_of_toNat_eq
  rw [memoryIndex, toNat_slice, Machine.cell, BitVec.toNat_ofNat]
  omega

namespace Core

variable {c : Core} {w : Word}

/-- Reading a register of a core whose register 0 is zero. -/
theorem read_machine (hzero : c.register 0 = 0) (r : BitVec 5) :
    c.machine.read r = c.register r := by
  by_cases hr : r = 0
  · rw [hr, hzero]
    simp
  · exact if_neg hr

theorem machine_commit (w : Written) : (c.commit w).machine =
    { register := fun q =>
        match w.writeBack with
        | some (r, value) => if q = r then value else c.register q
        | none => c.register q
      memory := fun i =>
        if w.control.memoryWrite then
          if i = Machine.cell w.aluResult then w.rs2Value else c.memory.get i.toFin
        else c.memory.get i.toFin } := by
  apply Machine.ext
  · funext q
    show (commit c w).registers.get q.toFin = _
    unfold commit
    cases w.writeBack with
    | none => rfl
    | some entry => exact get_set_eq _ _ _ _
  · funext i
    show (commit c w).memory.get i.toFin = _
    unfold commit
    by_cases hw : w.control.memoryWrite = true
    · simp only [hw, if_true, get_set_eq, memoryIndex_eq_cell]
    · simp only [hw, Bool.false_eq_true, if_false]

end Core

/-! ## Next addresses -/

/-- Clearing the low two bits of a word. -/
theorem toNat_clear_low (w : Word) : (w &&& ~~~(3 : Word)).toNat = w.toNat / 4 * 4 := by
  have hshift : w &&& ~~~(3 : Word) = (w >>> 2) <<< 2 := by
    ext i hi
    rw [BitVec.getElem_and, BitVec.getElem_shiftLeft, BitVec.getElem_not]
    rcases i with _ | _ | i
    · simp
    · simp
    · have hthree : (3#32)[i + 2] = false := Nat.testBit_lt_two_pow (by
        show 3 < 2 ^ (i + 2)
        rw [Nat.pow_add]
        have := Nat.two_pow_pos i
        omega)
      have hi2 : ¬ i + 2 < 2 := by omega
      simp [hthree, hi2, ← BitVec.getLsbD_eq_getElem, Nat.add_comm 2 i]
  rw [hshift, BitVec.toNat_shiftLeft, BitVec.toNat_ushiftRight, Nat.shiftLeft_eq,
    Nat.shiftRight_eq_div_pow]
  omega

theorem toNat_target (a : Accessed) : (a.target.toNat : Int) =
    (a.pc + if a.taken then a.instruction.imm else 4) % 2 ^ 32 / 4 * 4 := by
  rw [Accessed.target, toNat_clear_low, toNat_wordOf]
  omega

/-! ## Arithmetic -/

theorem wordOf_add (a : Word) (d : Int) : wordOf (a.toNat + d) = a + wordOf d := by
  simp [wordOf, BitVec.ofInt_add]

/-- A shift reads the low five bits of its amount only. -/
theorem ImmediateOp.value_of_shifts {op : ImmediateOp} (hop : op.shifts = true) (a : Word)
    {b b' : Word} (hb : b.toNat % 32 = b'.toNat % 32) :
    op.registerOp.value a b = op.registerOp.value a b' := by
  cases op with
  | slli => simp only [registerOp, RegisterOp.value, hb]
  | srli => simp only [registerOp, RegisterOp.value, hb]
  | srai => simp only [registerOp, RegisterOp.value, hb]
  | addi | slti | sltiu | xori | ori | andi => cases hop

/-- The low five bits of an immediate are where the amount of a shift stands. -/
theorem toNat_wordOf_immediateI (w : Word) :
    (wordOf (immediateI w)).toNat % 32 = (wordOf (w.toNat / 2 ^ 20 % 2 ^ 5)).toNat % 32 := by
  have hbmod : immediateI w % 32 = w.toNat / 2 ^ 20 % 2 ^ 5 := by
    unfold immediateI signed
    rw [Int.bmod_def]
    split <;> omega
  rw [toNat_wordOf, toNat_wordOf]
  omega

/-! ## Effects by opcode -/

namespace Core

variable {c : Core} {w : Word}

theorem access_accessed : (c.accessed w).access =
    if Instruction.opcode? ⟨w⟩ = some .store then some (.store (c.accessed w).aluResult)
    else if Instruction.opcode? ⟨w⟩ = some .load then
      some (.load (c.accessed w).aluResult (c.dataAt (c.accessed w).aluResult))
    else none := by
  have haccess : (c.accessed w).access = c.accessOf (c.accessed w).toExecuted := rfl
  rw [haccess]
  by_cases hstore : Instruction.opcode? ⟨w⟩ = some .store
  · simp [accessOf, hstore]
  by_cases hload : Instruction.opcode? ⟨w⟩ = some .load
  · simp [accessOf, hload]
  · simp [accessOf, hstore, hload]

theorem access_of_store (h : Instruction.opcode? ⟨w⟩ = some .store) :
    (c.accessed w).access = some (.store (c.accessed w).aluResult) := by
  rw [access_accessed, if_pos h]

theorem access_of_load (h : Instruction.opcode? ⟨w⟩ = some .load) :
    (c.accessed w).access =
      some (.load (c.accessed w).aluResult (c.dataAt (c.accessed w).aluResult)) := by
  have hstore : Instruction.opcode? ⟨w⟩ ≠ some .store := by simp [h]
  rw [access_accessed, if_neg hstore, if_pos h]

theorem access_of_neither (hstore : Instruction.opcode? ⟨w⟩ ≠ some .store)
    (hload : Instruction.opcode? ⟨w⟩ ≠ some .load) : (c.accessed w).access = none := by
  rw [access_accessed, if_neg hstore, if_neg hload]

theorem result_accessed : (c.accessed w).result =
    if Instruction.opcode? ⟨w⟩ = some .load then c.dataAt (c.accessed w).aluResult
    else (c.accessed w).aluResult := by
  by_cases hload : Instruction.opcode? ⟨w⟩ = some .load
  · simp [Accessed.result, Accessed.memoryValue, MemoryAccess.value, access_accessed, hload]
  · simp [Accessed.result, hload]

theorem writesRegister_accessed : (c.accessed w).writesRegister = true ↔
    ¬ (Instruction.opcode? ⟨w⟩ = some .store ∨ Instruction.opcode? ⟨w⟩ = some .branch ∨
      Instruction.rd ⟨w⟩ = 0) := by
  simp [Accessed.writesRegister, and_assoc]

/-- The register that a step writes. Stores and branches write none, and nothing writes
register 0. -/
theorem writeBack_written : (c.written w).writeBack =
    if Instruction.opcode? ⟨w⟩ = some .store ∨ Instruction.opcode? ⟨w⟩ = some .branch ∨
      Instruction.rd ⟨w⟩ = 0 then none
    else some (Instruction.rd ⟨w⟩, (c.accessed w).result) := by
  have hback : (c.written w).writeBack = (c.accessed w).writeBack? := rfl
  rw [hback, Accessed.writeBack?, ite_cond_congr (propext writesRegister_accessed), ite_not]
  simp

theorem taken_accessed_eq_false (h : Instruction.opcode? ⟨w⟩ ≠ some .branch) :
    (c.accessed w).taken = false := by
  simp [Accessed.taken, h]

theorem pc_commit : (c.commit (c.written w)).pc =
    (c.pc + if (c.accessed w).taken then Instruction.imm ⟨w⟩ else 4) % 2 ^ 32 / 4 * 4 :=
  toNat_target (c.accessed w)

/-! ## Write-back and stores -/

/-- What is no store changes registers only. -/
theorem machine_commit_of_no_store (hmem : (Instruction.signals ⟨w⟩).memoryWrite = false) :
    (c.commit (c.written w)).machine =
      match (c.written w).writeBack with
      | some (r, value) => c.machine.write r value
      | none => c.machine := by
  rw [machine_commit]
  simp only [toAccessed_written, toDecoded_accessed, control_decoded, hmem, Bool.false_eq_true,
    if_false]
  cases hback : (c.written w).writeBack with
  | none => rfl
  | some entry =>
    obtain ⟨r, value⟩ := entry
    have hr : r ≠ 0 := by
      rw [writeBack_written] at hback
      split at hback
      · cases hback
      · next hne =>
        obtain ⟨rfl, -⟩ := Prod.mk.inj (Option.some.inj hback)
        exact fun hzero => hne (.inr (.inr hzero))
    show _ = c.machine.write r value
    rw [Machine.write, if_neg hr]
    rfl

/-- The instructions that are no stores and no branches write their result to a register. -/
theorem machine_commit_write {m : Mnemonic} (hmnemonic : Instruction.mnemonic? ⟨w⟩ = some m)
    (hstore : m.control.memoryWrite = false) (hbranch : m.opcode ≠ .branch) :
    (c.commit (c.written w)).machine =
      c.machine.write (Instruction.rd ⟨w⟩) (c.accessed w).result := by
  have hmem : (Instruction.signals ⟨w⟩).memoryWrite = false := by
    rw [Instruction.signals_of_mnemonic hmnemonic]
    exact hstore
  have hopcode : Instruction.opcode? ⟨w⟩ ≠ some .store := Instruction.memoryWrite_eq_false_iff.1 hmem
  have hopcode' : Instruction.opcode? ⟨w⟩ ≠ some .branch := by
    rw [Instruction.opcode?_of_mnemonic hmnemonic]
    exact fun h => hbranch (Option.some.inj h)
  rw [machine_commit_of_no_store hmem, writeBack_written]
  simp only [hopcode, hopcode', false_or]
  by_cases hrd : Instruction.rd ⟨w⟩ = 0
  · simp [hrd]
  · rw [if_neg hrd]

theorem machine_commit_store (hmem : (Instruction.signals ⟨w⟩).memoryWrite = true) :
    (c.commit (c.written w)).machine =
      c.machine.store (c.accessed w).aluResult (c.register (Instruction.rs2 ⟨w⟩)) := by
  have hopcode : Instruction.opcode? ⟨w⟩ = some .store := Instruction.memoryWrite_iff.1 hmem
  rw [machine_commit, writeBack_written, if_pos (.inl hopcode)]
  simp only [toAccessed_written, toDecoded_accessed, control_decoded, hmem, if_true]
  rfl

theorem machine_commit_branch (hmem : (Instruction.signals ⟨w⟩).memoryWrite = false)
    (hbranch : Instruction.opcode? ⟨w⟩ = some .branch) :
    (c.commit (c.written w)).machine = c.machine := by
  rw [machine_commit_of_no_store hmem, writeBack_written, if_pos (.inr (.inl hbranch))]

/-! ## Results -/

/-- The result of an instruction that is no load. -/
theorem result_of_not_load {m : Mnemonic} (hmnemonic : Instruction.mnemonic? ⟨w⟩ = some m)
    (hload : m.opcode ≠ .load) : (c.accessed w).result = (c.accessed w).aluResult := by
  have hopcode : Instruction.opcode? ⟨w⟩ ≠ some .load := by
    rw [Instruction.opcode?_of_mnemonic hmnemonic]
    exact fun h => hload (Option.some.inj h)
  rw [result_accessed, if_neg hopcode]

/-- The result of a load. -/
theorem result_of_load (hmnemonic : Instruction.mnemonic? ⟨w⟩ = some .lw) :
    (c.accessed w).result = c.dataAt (c.accessed w).aluResult := by
  have hopcode : Instruction.opcode? ⟨w⟩ = some .load := Instruction.opcode?_of_mnemonic hmnemonic
  rw [result_accessed, if_pos hopcode]

theorem aluResult_of_mnemonic {m : Mnemonic} (hmnemonic : Instruction.mnemonic? ⟨w⟩ = some m) :
    (c.accessed w).aluResult = m.control.aluOp.eval (c.register (Instruction.rs1 ⟨w⟩))
      (if m.control.aluSource then wordOf (Instruction.imm ⟨w⟩)
        else c.register (Instruction.rs2 ⟨w⟩)) := by
  rw [← Instruction.signals_of_mnemonic hmnemonic]
  rfl

/-! ## Operations -/

/-- The immediate of a word as the second operand of its arithmetic. -/
theorem value_immediate {op : ImmediateOp} (a : Word)
    (hmnemonic : Instruction.mnemonic? ⟨w⟩ = some (.immediate op)) :
    op.registerOp.value a (wordOf (Instruction.imm ⟨w⟩)) = op.registerOp.value a
      (wordOf (if op.shifts then w.toNat / 2 ^ 20 % 2 ^ 5 else immediateI w)) := by
  rw [Instruction.imm_of_immediate _ (Instruction.format?_of_mnemonic hmnemonic)]
  by_cases hop : op.shifts = true
  · rw [if_pos hop]
    exact ImmediateOp.value_of_shifts hop a (toNat_wordOf_immediateI w)
  · rw [if_neg hop]

theorem dataAt_eq (address : Word) :
    c.dataAt address = c.machine.memory (Machine.cell address) := by
  rw [dataAt, memoryIndex_eq_cell]
  rfl

/-- A step does to registers and data memory what the operation of its word does. -/
theorem machine_commit_written {m : Mnemonic} {o : Operation} (hzero : c.register 0 = 0)
    (hmnemonic : Instruction.mnemonic? ⟨w⟩ = some m) (ho : Operation.ofWord? w m = some o) :
    (c.commit (c.written w)).machine = o.effect c.machine := by
  have hsignals := Instruction.signals_of_mnemonic hmnemonic
  have hopcode := Instruction.opcode?_of_mnemonic hmnemonic
  have halu := aluResult_of_mnemonic (c := c) hmnemonic
  have hrd := (Operation.registerField_rd w).symm
  have hrs1 := (Operation.registerField_rs1 w).symm
  have hrs2 := (Operation.registerField_rs2 w).symm
  cases m with
  | register op =>
    cases ho
    rw [machine_commit_write hmnemonic rfl nofun, result_of_not_load hmnemonic nofun, halu]
    show c.machine.write _ (op.aluOp.eval _ _) = c.machine.write _ (op.value _ _)
    rw [RegisterOp.eval_aluOp, read_machine hzero, read_machine hzero, hrd, hrs1, hrs2]
    rfl
  | immediate op =>
    cases ho
    rw [machine_commit_write hmnemonic rfl nofun, result_of_not_load hmnemonic nofun, halu]
    show c.machine.write _ (op.registerOp.aluOp.eval _ (wordOf _)) = c.machine.write _ _
    rw [RegisterOp.eval_aluOp, value_immediate _ hmnemonic, read_machine hzero, hrd, hrs1]
  | lw =>
    cases ho
    have himm := Instruction.imm_of_immediate _ (Instruction.format?_of_mnemonic hmnemonic)
    rw [machine_commit_write hmnemonic rfl nofun, result_of_load hmnemonic, halu]
    show c.machine.write _ (c.dataAt (_ + wordOf _)) = c.machine.write _ _
    rw [dataAt_eq, himm, ← wordOf_add, ← read_machine hzero, hrd, hrs1]
    rfl
  | sw =>
    cases ho
    have himm := Instruction.imm_of_store _ (Instruction.format?_of_mnemonic hmnemonic)
    rw [machine_commit_store (by rw [hsignals]; rfl), halu]
    show c.machine.store (_ + wordOf _) _ = c.machine.store _ _
    rw [himm, ← wordOf_add, ← read_machine hzero, ← read_machine hzero, hrs1, hrs2]
    rfl
  | branch op =>
    cases ho
    exact machine_commit_branch (by rw [hsignals]; rfl) hopcode
  | lui => cases ho
  | jal => cases ho

/-- A step branches away when the operation of its word does. -/
theorem taken_accessed {m : Mnemonic} {o : Operation} (hzero : c.register 0 = 0)
    (hmnemonic : Instruction.mnemonic? ⟨w⟩ = some m) (ho : Operation.ofWord? w m = some o) :
    (c.accessed w).taken = o.taken c.machine := by
  have hsignals := Instruction.signals_of_mnemonic hmnemonic
  have halu := aluResult_of_mnemonic (c := c) hmnemonic
  have hrs1 := (Operation.registerField_rs1 w).symm
  have hrs2 := (Operation.registerField_rs2 w).symm
  have htaken : (c.accessed w).taken = (m.control.branch &&
      (c.accessed w).aluResult == (if m.control.branchNegated then 0 else 1)) := by
    rw [← hsignals]
    rfl
  rw [htaken, halu]
  cases m with
  | branch op =>
    cases ho
    show (op.comparison.eval _ _ == if op.negated then 0 else 1) = op.holds _ _
    rw [BranchOp.eval_comparison, read_machine hzero, read_machine hzero, hrs1, hrs2]
    rfl
  | register op => cases ho; rfl
  | immediate op => cases ho; rfl
  | lw => cases ho; rfl
  | sw => cases ho; rfl
  | lui => cases ho
  | jal => cases ho

/-- The program counter after a step: four bytes on, or the offset of a branch that is taken. -/
theorem pc_commit_written {m : Mnemonic} {o : Operation} (hzero : c.register 0 = 0)
    (hmnemonic : Instruction.mnemonic? ⟨w⟩ = some m) (ho : Operation.ofWord? w m = some o) :
    (c.commit (c.written w)).pc =
      (c.pc + if o.taken c.machine then immediateB w else 4) % 2 ^ 32 / 4 * 4 := by
  have himm : o.taken c.machine = true → Instruction.imm ⟨w⟩ = immediateB w := by
    intro ht
    cases m with
    | branch op => exact Instruction.imm_of_branch _ (Instruction.format?_of_mnemonic hmnemonic)
    | register op => cases ho; cases ht
    | immediate op => cases ho; cases ht
    | lw => cases ho; cases ht
    | sw => cases ho; cases ht
    | lui => cases ho
    | jal => cases ho
  rw [pc_commit, taken_accessed hzero hmnemonic ho]
  cases ht : o.taken c.machine with
  | false => simp only [Bool.false_eq_true, if_false]
  | true => rw [himm ht]

/-- The core `d` is the core `c` after the operation `o` of the word `w`. Logs are left open. -/
structure Executes (c : Core) (w : Word) (o : Operation) (d : Core) : Prop where
  /-- Registers and data memory change as the operation says. -/
  machine : d.machine = o.effect c.machine
  /-- The program counter moves on by four bytes, or by the offset of a branch that is taken. -/
  pc : d.pc = (c.pc + if o.taken c.machine then immediateB w else 4) % 2 ^ 32 / 4 * 4
  /-- The cycle counter grows by one. -/
  cycle : d.cycle = c.cycle + 1
  /-- The word is the one that was decoded last. -/
  last : d.last = some ⟨w⟩
  /-- Instruction memory stays. -/
  program : d.program = c.program
  /-- The core goes on. -/
  running : d.halted = false
  /-- The trace setting stays. -/
  tracing : d.tracing = c.tracing

/-- A core that fetches a word with an operation executes it. -/
theorem step_executes {m : Mnemonic} {o : Operation} (trace : Option Bool)
    (hrun : c.halted = false) (hzero : c.register 0 = 0) (hpc : 0 ≤ c.pc)
    (hword : c.program[(c.pc / 4).toNat]? = some w) (hhalt : w ∉ haltWords)
    (hmnemonic : Instruction.mnemonic? ⟨w⟩ = some m) (ho : Operation.ofWord? w m = some o) :
    (c.step trace).result = .ok (some (c.written w)) ∧ c.Executes w o (c.step trace).core := by
  rw [step_of_execute hrun (fetch_of_word hpc hword hhalt)]
  exact ⟨rfl,
    { machine := machine_commit_written (c := c.beginLog _) hzero hmnemonic ho
      pc := pc_commit_written (c := c.beginLog _) hzero hmnemonic ho
      cycle := rfl
      last := rfl
      program := rfl
      running := hrun
      tracing := rfl }⟩

/-- Every word with the name of an instruction that the datapath executes holds an operation, and a
step that fetches it ends with a record and performs that operation: on registers, data memory and
program counter, and on nothing else. -/
theorem step_of_named_word (c : Core) (trace : Option Bool) (w : Word) (m : Mnemonic)
    (hrun : c.halted = false) (hzero : c.register 0 = 0) (hpc : 0 ≤ c.pc)
    (hword : c.program[(c.pc / 4).toNat]? = some w) (hhalt : w ∉ haltWords)
    (hname : Instruction.name ⟨w⟩ = m.name) (hlui : m ≠ .lui) (hjal : m ≠ .jal) :
    ∃ o, Operation.ofWord? w m = some o ∧
      (∃ record, (c.step trace).result = .ok (some record)) ∧
      c.Executes w o (c.step trace).core := by
  have hmnemonic := Instruction.mnemonic?_of_name hname
  obtain ⟨o, ho⟩ : ∃ o, Operation.ofWord? w m = some o := by
    cases m with
    | register op => exact ⟨_, rfl⟩
    | immediate op => exact ⟨_, rfl⟩
    | lw => exact ⟨_, rfl⟩
    | sw => exact ⟨_, rfl⟩
    | branch op => exact ⟨_, rfl⟩
    | lui => exact absurd rfl hlui
    | jal => exact absurd rfl hjal
  obtain ⟨hresult, hexecutes⟩ := step_executes trace hrun hzero hpc hword hhalt hmnemonic ho
  exact ⟨o, ho, ⟨_, hresult⟩, hexecutes⟩

/-- A taken branch backwards, `blt x3, x1, -4`, from an address that is no multiple of four. -/
theorem step_of_named_word_blt :
    let c := { fresh false with pc := 6, program := programOf [0x00000013, 0xFE11CEE3] }
    ∃ o, Operation.ofWord? 0xFE11CEE3 (.branch .blt) = some o ∧
      (∃ record, (c.step none).result = .ok (some record)) ∧
      c.Executes 0xFE11CEE3 o (c.step none).core :=
  step_of_named_word _ none 0xFE11CEE3 (.branch .blt) rfl (by decide) (by decide)
    (getElem?_programOf _ (by decide)) (by decide) (by decide) (by decide) (by decide)

end Core

end SingleCycle
