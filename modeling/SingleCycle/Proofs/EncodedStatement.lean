import SingleCycle.Proofs.Selection
import SingleCycle.Proofs.Statements

/-!
# Encoded statements

The word of a statement decodes to the instruction that was written: its fields select the same
name, its registers and its immediate are the ones of the statement, and the offset of a branch or a
jump is the distance to the label.
-/

namespace SingleCycle

/-! ## Names -/

theorem RegisterOp.ofFields?_fields (op : RegisterOp) :
    ofFields? op.funct3.toNat op.funct7.toNat = some op := by
  cases op <;> decide

/-- The upper bits of an immediate select a shift, and nothing else. -/
theorem ImmediateOp.ofFields?_fields (op : ImmediateOp) {funct7 : Int}
    (h : ∀ bits ∈ op.funct7?, funct7 = bits.toNat) :
    ofFields? op.funct3.toNat funct7 = some op := by
  cases op with
  | slli => rw [h 0 rfl]; decide
  | srli => rw [h 0 rfl]; decide
  | srai => rw [h 0x20 rfl]; decide
  | addi | slti | sltiu | xori | ori | andi => rfl

theorem BranchOp.ofFunct3?_funct3 (op : BranchOp) : ofFunct3? op.funct3.toNat = some op := by
  cases op <;> decide

/-- The instructions at which execution stops have no name. -/
theorem Instruction.not_halt_of_mnemonic {w : Word} {m : Mnemonic}
    (h : Instruction.mnemonic? ⟨w⟩ = some m) : w ∉ haltWords := by
  have hnull : Instruction.mnemonic? ⟨0⟩ = none := by decide
  have hecall : Instruction.mnemonic? ⟨ecall⟩ = none := by decide
  have hebreak : Instruction.mnemonic? ⟨ebreak⟩ = none := by decide
  intro hw
  simp only [haltWords, List.mem_cons, List.not_mem_nil, or_false] at hw
  rcases hw with rfl | rfl | rfl
  · rw [hnull] at h
    cases h
  · rw [hecall] at h
    cases h
  · rw [hebreak] at h
    cases h

/-! ## Fields -/

namespace Encoding

section

variable (funct7 : BitVec 7) (rs2 rs1 rd : BitVec 5) (funct3 : BitVec 3) (opcode : BitVec 7)
  (o : Opcode)

@[simp]
theorem opcode?_wordR : Instruction.opcode? ⟨wordR funct7 rs2 rs1 funct3 rd o.bits⟩ = some o := by
  unfold Instruction.opcode?
  rw [opcode_wordR]
  exact Opcode.ofCode?_code o

@[simp]
theorem mnemonic?_wordR : Instruction.mnemonic? ⟨wordR funct7 rs2 rs1 funct3 rd o.bits⟩ =
    Mnemonic.ofFields? o.code funct3.toNat funct7.toNat := by
  unfold Instruction.mnemonic?
  rw [opcode_wordR, funct3_wordR, funct7_wordR]
  rfl

@[simp]
theorem imm_wordB (v : Int) :
    Instruction.imm ⟨wordB (.ofInt 13 v) rs2 rs1 funct3 Opcode.branch.bits⟩ =
      withoutBit0 (signed 13 v) := by
  have hformat : Instruction.format?
      ⟨wordB (.ofInt 13 v) rs2 rs1 funct3 Opcode.branch.bits⟩ = some .branch := by
    unfold Instruction.format?
    rw [wordB_eq_wordR, opcode?_wordR]
  rw [Instruction.imm_of_branch _ hformat, immediateB_ofInt]

@[simp]
theorem jumpOffset_wordJ (v : Int) :
    Instruction.jumpOffset ⟨wordJ (.ofInt 21 v) rd opcode⟩ = withoutBit0 (signed 21 v) := by
  rw [Instruction.jumpOffset_eq, immediateJ_ofInt]

end

end Encoding

/-! ## Operations -/

theorem ImmediateOp.shifts_eq (op : ImmediateOp) : op.shifts = op.funct7?.isSome := by
  cases op <;> rfl

namespace Statement

/-- The operation of a statement, with its immediate cut to the width that it is given. There is
none for the two instructions that the datapath does not execute. -/
def operation? : Statement → Option Operation
  | register op rd rs1 rs2 => some (.register op rd rs1 rs2)
  | immediate op rd rs1 imm =>
    some (.immediate op rd rs1 (if op.shifts then imm else signed 12 imm))
  | lw rd imm rs1 => some (.load rd (signed 12 imm) rs1)
  | sw rs2 imm rs1 => some (.store rs2 (signed 12 imm) rs1)
  | branch op rs1 rs2 _ => some (.branch op rs1 rs2)
  | lui _ _ => none
  | jal _ _ => none

section

variable {op : ImmediateOp} {imm : Int} {rd rs1 : BitVec 5}

theorem immediateBits_of_shift {funct7 : BitVec 7} (hop : op.funct7? = some funct7) :
    immediateBits op imm = funct7 ++ BitVec.ofInt 5 imm := by
  unfold immediateBits
  rw [hop]

theorem immediateBits_of_none (hop : op.funct7? = none) :
    immediateBits op imm = BitVec.ofInt 12 imm := by
  unfold immediateBits
  rw [hop]

theorem range_of_fitsShift {funct7 : BitVec 7} (hop : op.funct7? = some funct7) :
    fitsShift op imm = true ↔ 0 ≤ imm ∧ imm < 32 := by
  unfold fitsShift
  simp [hop]

/-- The word of a shift: the amount stands where another instruction has its second register. -/
theorem immediate_word_of_shift {funct7 : BitVec 7} (hop : op.funct7? = some funct7) :
    Encoding.wordI (immediateBits op imm) rs1 op.funct3 rd Opcode.immediate.bits =
      Encoding.wordR funct7 (.ofInt 5 imm) rs1 op.funct3 rd Opcode.immediate.bits := by
  rw [Encoding.wordI_eq_wordR, immediateBits_of_shift hop, BitVec.extractLsb'_append_eq_left,
    BitVec.extractLsb'_append_eq_right]

theorem mnemonic?_immediate :
    Instruction.mnemonic? ⟨Encoding.wordI (immediateBits op imm) rs1 op.funct3 rd
      Opcode.immediate.bits⟩ = some (.immediate op) := by
  have hfields : ∀ funct7 : BitVec 7, (∀ bits ∈ op.funct7?, (funct7.toNat : Int) = bits.toNat) →
      Mnemonic.ofFields? Opcode.immediate.code op.funct3.toNat funct7.toNat =
        some (.immediate op) := fun funct7 h =>
        congrArg (Option.map Mnemonic.immediate) (op.ofFields?_fields h)
  cases hop : op.funct7? with
  | none =>
    rw [Encoding.wordI_eq_wordR, Encoding.mnemonic?_wordR]
    refine hfields _ ?_
    rw [hop]
    exact nofun
  | some funct7 =>
    rw [immediate_word_of_shift hop, Encoding.mnemonic?_wordR]
    refine hfields _ ?_
    rw [hop]
    rintro bits ⟨⟩
    rfl

theorem ofWord?_immediate (hfits : fitsShift op imm = true) :
    Operation.ofWord? (Encoding.wordI (immediateBits op imm) rs1 op.funct3 rd
      Opcode.immediate.bits) (.immediate op) =
        some (.immediate op rd rs1 (if op.shifts then imm else signed 12 imm)) := by
  unfold Operation.ofWord?
  cases hop : op.funct7? with
  | none =>
    have hshifts : op.shifts = false := by rw [ImmediateOp.shifts_eq, hop]; rfl
    simp only [hshifts, Bool.false_eq_true, if_false]
    rw [Encoding.immediateI_wordI, immediateBits_of_none hop, toInt_ofInt]
    simp [Encoding.wordI_eq_wordR]
  | some funct7 =>
    have hshifts : op.shifts = true := by rw [ImmediateOp.shifts_eq, hop]; rfl
    have hrange := (range_of_fitsShift hop).1 hfits
    have hamount : (((Encoding.wordR funct7 (.ofInt 5 imm) rs1 op.funct3 rd
        Opcode.immediate.bits).toNat / 2 ^ 20 % 2 ^ 5 : Nat) : Int) = imm := by
      rw [← Instruction.toNat_rs2 ⟨_⟩, Encoding.rs2_wordR, BitVec.toNat_ofInt]
      omega
    simp only [hshifts, if_true]
    rw [immediate_word_of_shift hop]
    simpa using hamount

end

/-- The word of a statement has the name of its instruction. -/
theorem mnemonic?_of_encode {m : Mnemonic} {tokens : List (List Char)} {s : Statement}
    {labels : LabelTable} {address : Int} {w : Word} (hreads : Reads m tokens s)
    (hencode : s.encode labels address = .ok w) : Instruction.mnemonic? ⟨w⟩ = some m := by
  cases hreads with
  | @register op a b c rd rs1 rs2 hrd hrs1 hrs2 =>
    cases hencode
    rw [Encoding.mnemonic?_wordR]
    exact congrArg (Option.map Mnemonic.register) op.ofFields?_fields
  | immediate hrd hrs1 himm hfits =>
    cases hencode
    exact mnemonic?_immediate
  | lw hrd himm hrs1 =>
    cases hencode
    rw [Encoding.wordI_eq_wordR, Encoding.mnemonic?_wordR]
    rfl
  | sw hrs2 himm hrs1 =>
    cases hencode
    rw [Encoding.wordS_eq_wordR, Encoding.mnemonic?_wordR]
    rfl
  | @branch op a b label rs1 rs2 hrs1 hrs2 =>
    obtain ⟨d, hd, hw⟩ := bind_eq_ok hencode
    cases hw
    rw [Encoding.wordB_eq_wordR, Encoding.mnemonic?_wordR]
    exact congrArg (Option.map Mnemonic.branch) op.ofFunct3?_funct3
  | lui hrd himm =>
    cases hencode
    rw [Encoding.wordU_eq_wordR]
    exact Encoding.mnemonic?_wordR _ _ _ _ _ .lui
  | jal hrd =>
    obtain ⟨d, hd, hw⟩ := bind_eq_ok hencode
    cases hw
    rw [Encoding.wordJ_eq_wordU, Encoding.wordU_eq_wordR]
    exact Encoding.mnemonic?_wordR _ _ _ _ _ .jal

/-- The word of a statement holds the operation that was written. -/
theorem ofWord?_of_encode {m : Mnemonic} {tokens : List (List Char)} {s : Statement}
    {labels : LabelTable} {address : Int} {w : Word} (hreads : Reads m tokens s)
    (hencode : s.encode labels address = .ok w) : Operation.ofWord? w m = s.operation? := by
  cases hreads with
  | register hrd hrs1 hrs2 =>
    cases hencode
    simp [Operation.ofWord?, operation?]
  | immediate hrd hrs1 himm hfits =>
    cases hencode
    exact ofWord?_immediate hfits
  | lw hrd himm hrs1 =>
    cases hencode
    rw [Operation.ofWord?, Encoding.immediateI_wordI, toInt_ofInt]
    simp [Encoding.wordI_eq_wordR, operation?]
  | sw hrs2 himm hrs1 =>
    cases hencode
    rw [Operation.ofWord?, Encoding.immediateS_wordS, toInt_ofInt]
    simp [Encoding.wordS_eq_wordR, operation?]
  | branch hrs1 hrs2 =>
    obtain ⟨d, hd, hw⟩ := bind_eq_ok hencode
    cases hw
    simp [Operation.ofWord?, Encoding.wordB_eq_wordR, operation?]
  | lui hrd himm => rfl
  | jal hrd => rfl

/-- The word of a branch leads to its label, if label and branch are an even distance apart. -/
theorem imm_of_encode {op : BranchOp} {rs1 rs2 : BitVec 5} {label : List Char}
    {labels : LabelTable} {address : Int} {w : Word}
    (hencode : (branch op rs1 rs2 label).encode labels address = .ok w)
    (heven : ∀ target, labels.address? label = some target → (target - address) % 2 = 0) :
    labels.address? label = some (address + Instruction.imm ⟨w⟩) := by
  obtain ⟨d, hd, hw⟩ := bind_eq_ok hencode
  cases hw
  obtain ⟨htarget, hlow, hhigh⟩ := Operand.offset_eq_ok hd
  have hself : signed 13 d = d := signed_eq_self hlow hhigh
  have hd2 := heven _ htarget
  rw [Encoding.imm_wordB, hself, withoutBit0_of_even (by omega)]
  exact htarget

/-- The word of a jump to a label leads there, if label and jump are an even distance apart. -/
theorem jumpOffset_of_encode {rd : BitVec 5} {label : List Char} {labels : LabelTable}
    {address target : Int} {w : Word} (hencode : (jal rd label).encode labels address = .ok w)
    (htarget : labels.address? label = some target) (heven : (target - address) % 2 = 0) :
    address + Instruction.jumpOffset ⟨w⟩ = target := by
  obtain ⟨d, hd, hw⟩ := bind_eq_ok hencode
  cases hw
  have hoffset : Operand.offset labels address 21 label = .ok d := by
    unfold jumpOffset at hd
    rw [htarget] at hd
    exact hd
  obtain ⟨htarget', hlow, hhigh⟩ := Operand.offset_eq_ok hoffset
  rw [htarget'] at htarget
  have hself : signed 21 d = d := signed_eq_self hlow hhigh
  have hd := Option.some.inj htarget
  rw [Encoding.jumpOffset_wordJ, hself, withoutBit0_of_even (by omega)]
  exact hd

end Statement

end SingleCycle
