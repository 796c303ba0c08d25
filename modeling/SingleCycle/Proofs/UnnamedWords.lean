import SingleCycle.Proofs.InstructionEffect

/-!
# Words without a name

The control unit has signals for words that are no instruction. Their step moves on to the next
word, with one exception: a word with the opcode of a branch whose function field selects no
comparison is still a branch. Its arithmetic is an addition, so it is taken where the registers
that it reads add up to 1.
-/

namespace SingleCycle

namespace Instruction

variable {i : Instruction}

theorem mnemonic?_of_not_valid (h : i.valid = false) : i.mnemonic? = none := by
  obtain ⟨-, hname⟩ := Bool.or_eq_false_iff.1 h
  simpa using hname

/-- The control unit has comparisons for those function fields only that have a name. -/
theorem comparison?_eq_none (field : BitVec 3) (h : BranchOp.ofFunct3? field.toNat = none) :
    Control.comparison? field.toNat = none := by
  revert field
  decide

theorem signals_of_unnamed_branch (hopcode : i.opcode? = some .branch)
    (hname : i.mnemonic? = none) : i.signals = { Control.idle with branch := true } := by
  have ho : Opcode.ofCode? i.opcode.toNat = some .branch := hopcode
  have hop : BranchOp.ofFunct3? i.funct3.toNat = none := by
    unfold mnemonic? Mnemonic.ofFields? at hname
    rw [ho] at hname
    exact Option.map_eq_none_iff.1 hname
  have hcontrol : i.control = .ok { Control.idle with branch := true } := by
    unfold control Control.ofFields
    rw [ho, comparison?_eq_none _ hop]
  rw [signals, hcontrol]

end Instruction

namespace Core

variable {c : Core} {word : Word}

/-- A word has the opcode of a branch, and the registers that it reads add up to 1. -/
def Strays (c : Core) (word : Word) : Prop :=
  Instruction.opcode? ⟨word⟩ = some .branch ∧
    c.register (Instruction.rs1 ⟨word⟩) + c.register (Instruction.rs2 ⟨word⟩) = 1

/-- What a step comes to that executes a word without a name. -/
structure PassesOver (c : Core) (trace : Option Bool) (word : Word) : Prop where
  /-- The step ends with a record. -/
  ok : ∃ record, (c.step trace).result = .ok (some record)
  /-- It goes on with the next word. -/
  next : ¬ c.Strays word → (c.step trace).core.pc = (c.pc + 4) / 4 * 4
  /-- It branches away, by an offset that the word has like any branch. -/
  strays : c.Strays word →
    (c.step trace).core.pc = (c.pc + Instruction.imm ⟨word⟩) % 2 ^ 32 / 4 * 4

theorem taken_of_unnamed (hname : Instruction.mnemonic? ⟨word⟩ = none) :
    (c.accessed word).taken = true ↔ c.Strays word := by
  by_cases hopcode : Instruction.opcode? ⟨word⟩ = some .branch
  · have hsignals := Instruction.signals_of_unnamed_branch hopcode hname
    have htaken : (c.accessed word).taken =
        (c.register (Instruction.rs1 ⟨word⟩) + c.register (Instruction.rs2 ⟨word⟩) == 1) := by
      show ((Instruction.signals ⟨word⟩).branch &&
        (Instruction.signals ⟨word⟩).aluOp.eval _ (if (Instruction.signals ⟨word⟩).aluSource
          then _ else _) == if (Instruction.signals ⟨word⟩).branchNegated then 0 else 1) = _
      rw [hsignals]
      rfl
    rw [htaken, beq_iff_eq, Strays]
    exact (and_iff_right hopcode).symm
  · rw [taken_accessed_eq_false hopcode]
    constructor
    · intro h
      cases h
    · intro h
      exact absurd h.1 hopcode

/-- A step executes every word without a name, and goes on with the next word unless the word
strays. -/
theorem step_of_unnamed_word (c : Core) (trace : Option Bool) (word : Word)
    (hrun : c.halted = false) (hpc : 0 ≤ c.pc) (hword : c.program[(c.pc / 4).toNat]? = some word)
    (hhalt : word ∉ haltWords) (hname : Instruction.valid ⟨word⟩ = false) :
    c.PassesOver trace word := by
  have hmnemonic := Instruction.mnemonic?_of_not_valid hname
  have hstep : c.step trace = _ := step_of_execute hrun (fetch_of_word hpc hword hhalt)
  have htarget : (c.step trace).core.pc = (c.pc + if (c.accessed word).taken then
      Instruction.imm ⟨word⟩ else 4) % 2 ^ 32 / 4 * 4 := by
    rw [hstep]
    exact pc_commit
  have hin : (c.pc / 4).toNat < 256 := (Vector.getElem?_eq_some_iff.1 hword).1
  exact {
    ok := by
      rw [hstep]
      exact ⟨_, rfl⟩
    next := by
      intro hstay
      rw [htarget, if_neg (mt (taken_of_unnamed hmnemonic).1 hstay)]
      omega
    strays := by
      intro hstrays
      rw [htarget, if_pos ((taken_of_unnamed hmnemonic).2 hstrays)] }

/-- A load of a byte, which the datapath takes for the load of a word. -/
theorem step_of_unnamed_word_lb :
    let c := { fresh false with pc := 5, program := programOf [0x00000013, 0x00008083] }
    c.PassesOver none 0x00008083 ∧ (c.step none).core.pc = 8 := by
  intro c
  have hpasses : c.PassesOver none 0x00008083 :=
    step_of_unnamed_word c none 0x00008083 rfl (by decide) (getElem?_programOf _ (by decide))
      (by decide) (by decide)
  refine ⟨hpasses, hpasses.next ?_⟩
  intro h
  exact absurd h.1 (by decide)

/-- A branch with the unused function field 2, from the register that holds 1 after a reset. It
skips a word. -/
theorem strays_of_unnamed_branch :
    let c := { fresh false with program := programOf [0x0000A463] }
    Instruction.valid ⟨0x0000A463⟩ = false ∧ (c.step none).core.last = some ⟨0x0000A463⟩ ∧
      (c.step none).core.pc = 8 :=
  ⟨by decide, by decide +kernel, by decide +kernel⟩

end Core

end SingleCycle
