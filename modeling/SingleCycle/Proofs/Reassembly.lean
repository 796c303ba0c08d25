import SingleCycle.Proofs.AcceptedProgram
import SingleCycle.Proofs.Printing

/-!
# Reassembly

The text of an instruction with a name assembles to the word of the instruction again. A printed
branch has its offset where the assembler expects a label, so it needs a label of that name at that
distance; all other instructions assemble as they are printed, alone or as the lines of a program.
-/

namespace SingleCycle

/-! ## Immediates -/

/-- An integer that fits a word is read as it is written. -/
theorem Operand.immediate_decimalToken {v : Int} (h : v.natAbs < 2 ^ 32) :
    immediate (decimalToken v) = .ok v := by
  have hten : 2 ^ 32 < 10 ^ 10 := by decide
  have hlimit : 10 ^ 10 ≤ 10 ^ Numeral.decimalLimit :=
    Nat.pow_le_pow_right (by decide) (by decide)
  have hsmall : v.natAbs < 10 ^ Numeral.decimalLimit :=
    Nat.lt_of_lt_of_le (Nat.lt_trans h hten) hlimit
  exact immediate_eq_ok_iff.2 (denotes_decimalToken hsmall)

theorem Operand.immediate_hexToken (n : Nat) : immediate (hexToken n) = .ok n :=
  immediate_eq_ok_iff.2 (.hex (Numeral.spells_toDigits (by decide) n))

/-! ## Statements -/

namespace Instruction

variable {i : Instruction} {m : Mnemonic}

/-- The statement that an instruction prints. -/
def statement (i : Instruction) : Mnemonic → Statement
  | .register op => .register op i.rd i.rs1 i.rs2
  | .immediate op => .immediate op i.rd i.rs1 (i.immediateOperand op)
  | .lw => .lw i.rd i.imm i.rs1
  | .sw => .sw i.rs2 i.imm i.rs1
  | .branch op => .branch op i.rs1 i.rs2 (decimalToken i.imm)
  | .lui => .lui i.rd i.upperImm
  | .jal => .jal i.rd (decimalToken i.jumpOffset)

theorem immediateOperand_of_shift {op : ImmediateOp} {funct7 : BitVec 7}
    (hop : op.funct7? = some funct7) : i.immediateOperand op = i.rs2.toNat := by
  unfold immediateOperand
  rw [op.shifts_eq, hop]
  rfl

theorem immediateOperand_of_none {op : ImmediateOp} (hop : op.funct7? = none) :
    i.immediateOperand op = i.imm := by
  unfold immediateOperand
  rw [op.shifts_eq, hop]
  rfl

theorem fitsShift_immediateOperand (i : Instruction) (op : ImmediateOp) :
    Statement.fitsShift op (i.immediateOperand op) = true := by
  cases hop : op.funct7? with
  | none =>
    unfold Statement.fitsShift
    rw [hop]
    rfl
  | some funct7 =>
    have hlt := i.rs2.isLt
    rw [Statement.range_of_fitsShift hop, immediateOperand_of_shift hop]
    omega

theorem reads_operandTokens (i : Instruction) (m : Mnemonic) :
    Statement.Reads m (i.operandTokens m) (i.statement m) := by
  have hregister := Operand.register?_registerToken
  have hrange := i.imm_range
  have himm : Operand.immediate (decimalToken i.imm) = .ok i.imm :=
    Operand.immediate_decimalToken (by omega)
  cases m with
  | register op => exact .register (hregister _) (hregister _) (hregister _)
  | immediate op =>
    have hsmall : (i.immediateOperand op).natAbs < 2 ^ 32 := by
      have hlt := i.rs2.isLt
      unfold immediateOperand
      split <;> omega
    exact .immediate (hregister _) (hregister _) (Operand.immediate_decimalToken hsmall)
      (i.fitsShift_immediateOperand op)
  | lw => exact .lw (hregister _) himm (hregister _)
  | sw => exact .sw (hregister _) himm (hregister _)
  | branch op => exact .branch (hregister _) (hregister _)
  | lui => exact .lui (hregister _) (Operand.immediate_hexToken _)
  | jal => exact .jal (hregister _)

/-- The labels that a printed instruction needs: its offset is the name of a label at that distance
if it branches, and of no label if it jumps. -/
def Resolves (labels : LabelTable) (address : Int) (i : Instruction) : Mnemonic → Prop
  | .branch _ => labels.address? (decimalToken i.imm) = some (address + i.imm)
  | .jal => labels.address? (decimalToken i.jumpOffset) = none
  | _ => True

/-- The bits of an immediate instruction come back, whether they hold an immediate or the amount of
a shift. -/
theorem wordI_immediateOperand {op : ImmediateOp} (h : i.mnemonic? = some (.immediate op)) :
    Encoding.wordI (Statement.immediateBits op (i.immediateOperand op)) i.rs1 op.funct3 i.rd
      Opcode.immediate.bits = i.data := by
  obtain ⟨hfunct3, hfunct7⟩ := fields_of_mnemonic h
  have hopcode : i.opcode = Opcode.immediate.bits := opcode_of_opcode? (opcode?_of_mnemonic h)
  cases hop : op.funct7? with
  | none =>
    rw [Statement.immediateBits_of_none hop, immediateOperand_of_none hop,
      ← hfunct3 op.funct3 rfl, ← hopcode, Encoding.wordI_imm i (format?_of_mnemonic h)]
  | some funct7 =>
    rw [Statement.immediate_word_of_shift hop, immediateOperand_of_shift hop, ofInt_toNat,
      ← hfunct3 op.funct3 rfl, ← hfunct7 funct7 hop, ← hopcode, Encoding.wordR_fields]

theorem encode_statement {labels : LabelTable} {address : Int} (h : i.mnemonic? = some m)
    (hlabels : Resolves labels address i m) :
    (i.statement m).encode labels address = .ok i.data := by
  obtain ⟨hfunct3, hfunct7⟩ := fields_of_mnemonic h
  have hopcode := opcode_of_opcode? (opcode?_of_mnemonic h)
  have hformat := format?_of_mnemonic h
  cases m with
  | register op =>
    have hword := Encoding.wordR_fields i
    rw [hfunct3 op.funct3 rfl, hfunct7 op.funct7 rfl, hopcode] at hword
    exact congrArg Except.ok hword
  | immediate op => exact congrArg Except.ok (wordI_immediateOperand h)
  | lw =>
    have hword := Encoding.wordI_imm i hformat
    rw [hfunct3 Mnemonic.wordFunct3 rfl, hopcode] at hword
    exact congrArg Except.ok hword
  | sw =>
    have hword := Encoding.wordS_imm i hformat
    rw [hfunct3 Mnemonic.wordFunct3 rfl, hopcode] at hword
    exact congrArg Except.ok hword
  | branch op =>
    have hword := Encoding.wordB_imm i hformat
    have hoffset : Operand.offset labels address 13 (decimalToken i.imm) = .ok i.imm :=
      Operand.offset_of_address? hlabels i.imm_range.1 i.imm_range.2
    rw [hfunct3 op.funct3 rfl, hopcode] at hword
    simp only [statement, Statement.encode, hoffset]
    exact congrArg Except.ok hword
  | lui =>
    have hword := Encoding.wordU_upperImm i
    rw [hopcode] at hword
    exact congrArg Except.ok hword
  | jal =>
    have hword := Encoding.wordJ_jumpOffset i
    have hoffset : Statement.jumpOffset labels address (decimalToken i.jumpOffset) =
        .ok i.jumpOffset := by
      have hrange := i.jumpOffset_range
      exact Statement.jumpOffset_of_immediate hlabels (Operand.immediate_decimalToken (by omega))
    rw [hopcode] at hword
    simp only [statement, Statement.encode, hoffset]
    exact congrArg Except.ok hword

/-! ## Lines -/

/-- The text of an instruction assembles to its word where the labels that it needs are bound. -/
theorem assembleLine_text {labels : LabelTable} {address : Int} (line : Int)
    (h : i.mnemonic? = some m) (hlabels : Resolves labels address i m) :
    assembleLine labels address line i.text.toList = .ok (some i.data) := by
  have hline := line_text h
  have hplain := i.plain_operandTokens m
  have hreads : Statement.Reads m (operandsOf i.text.toList) (i.statement m) := by
    rw [hline.operandsOf_eq hplain]
    exact i.reads_operandTokens m
  exact assembleLine_of_reads (hline.mnemonicOf?_eq hplain) (hline.isMemoryForm hplain) hreads
    (encode_statement h hlabels)

theorem resolves_nil (address : Int) (i : Instruction) (hm : ∀ op, m ≠ .branch op) :
    Resolves [] address i m := by
  cases m with
  | branch op => exact absurd rfl (hm op)
  | jal => rfl
  | register op => trivial
  | immediate op => trivial
  | lw => trivial
  | sw => trivial
  | lui => trivial

theorem resolves_branch (address : Int) (i : Instruction) (op : BranchOp) :
    Resolves [(decimalToken i.imm, address + i.imm)] address i (.branch op) :=
  List.lookup_cons_self

/-- The text of an instruction is one line of a program, with nothing on it that is not code. -/
theorem sourceLine_text (h : i.mnemonic? = some m) :
    SourceLine.ofText i.text.toList = .instruction i.text.toList ∧
      i.text.toList ≠ [] ∧ ∀ c ∈ i.text.toList, Text.isTerminator c = false := by
  have hline := line_text h
  obtain ⟨hinstruction, hterminators⟩ :=
    hline.sourceLine_eq (i.plain_operandTokens m) (i.operandTokens_ne_nil m)
  exact ⟨hinstruction, hline.ne_nil, hterminators⟩

end Instruction

/-! ## Programs -/

/-- A line that holds an instruction and gives a word at every address. -/
def GivesWord (labels : LabelTable) (entry : Nat × SourceLine) (w : Word) : Prop :=
  ∃ code, entry.2 = .instruction code ∧
    ∀ address : Int, assembleLine labels address entry.1 code = .ok (some w)

/-- Lines that are all instructions bind no labels. -/
theorem LabelTable.extend_of_givesWord {table labels : LabelTable}
    {lines : List (Nat × SourceLine)} {ws : List Word}
    (h : List.Forall₂ (GivesWord labels) lines ws) (address : Nat) :
    table.extend address lines = .ok table := by
  induction h generalizing address with
  | nil => rfl
  | @cons entry w lines ws hentry hlines ih =>
    obtain ⟨number, line⟩ := entry
    obtain ⟨code, rfl, -⟩ := hentry
    exact ih (address + 4)

namespace Assembly

theorem rowsFrom_of_givesWord {labels : LabelTable} {lines : List (Nat × SourceLine)}
    {ws : List Word} (h : List.Forall₂ (GivesWord labels) lines ws) (address : Nat) :
    (rowsFrom labels address lines).failure = none ∧
      (rowsFrom labels address lines).rows.map Row.word = ws.map some := by
  -- the lines below a row have other addresses, which is why a line gives its word at all of them
  induction h generalizing address with
  | nil => exact ⟨rfl, rfl⟩
  | @cons entry w lines ws hentry hlines ih =>
    obtain ⟨number, line⟩ := entry
    obtain ⟨code, rfl, hword⟩ := hentry
    obtain ⟨hfailure, hwords⟩ := ih (address + 4)
    unfold rowsFrom
    rw [hword address]
    exact ⟨hfailure, congrArg (some w :: ·) hwords⟩

/-- Rows that have all their words are a program without a warning. -/
theorem words_of_rows {assembly : Assembly} {ws : List Word} (hfailure : assembly.failure = none)
    (hrows : assembly.rows.map Row.word = ws.map some) :
    assembly.words = .ok ws ∧ assembly.skipped = [] := by
  have hword : assembly.rows.filterMap Row.word = ws := by
    have hfilter : (assembly.rows.map Row.word).filterMap id = (ws.map some).filterMap id :=
      congrArg _ hrows
    simpa using hfilter
  refine ⟨?_, List.filter_eq_nil_iff.2 fun row hrow => ?_⟩
  · unfold words result
    rw [hfailure, hword]
  · obtain ⟨w, -, hw⟩ := List.mem_map.1 (hrows ▸ List.mem_map_of_mem hrow)
    rw [← hw]
    exact Bool.false_ne_true

theorem givesWord_texts {ws : List Word}
    (h : ∀ w ∈ ws, ∃ m, (Instruction.mk w).mnemonic? = some m ∧ ∀ op, m ≠ .branch op)
    (first : Nat) :
    List.Forall₂ (GivesWord []) (linesFrom first (ws.map fun w => (Instruction.mk w).text.toList))
      ws := by
  induction ws generalizing first with
  | nil => exact .nil
  | cons w ws ih =>
    obtain ⟨m, hm, hbranch⟩ := h w List.mem_cons_self
    have ih := ih (fun v hv => h v (List.mem_cons_of_mem w hv)) (first + 1)
    obtain ⟨hline, -, -⟩ := Instruction.sourceLine_text hm
    rw [List.map_cons, linesFrom_cons, hline]
    refine .cons ⟨_, rfl, fun address => ?_⟩ ih
    exact Instruction.assembleLine_text _ hm (Instruction.resolves_nil address ⟨w⟩ hbranch)

/-- The texts of the instructions in a list of words, one on each line. -/
def disassembly (ws : List Word) : List Char :=
  ("\n".intercalate (ws.map fun w => (Instruction.mk w).text)).toList

theorem lines_disassembly {ws : List Word}
    (h : ∀ w ∈ ws, ∃ m, (Instruction.mk w).mnemonic? = some m) :
    Text.lines (disassembly ws) = ws.map fun w => (Instruction.mk w).text.toList := by
  have htext : disassembly ws =
      List.intercalate ['\n'] (ws.map fun w => (Instruction.mk w).text.toList) := by
    unfold disassembly
    rw [String.toList_intercalate, List.map_map]
    rfl
  rw [htext]
  refine Text.lines_intercalate fun line hline => ?_
  obtain ⟨w, hw, rfl⟩ := List.mem_map.1 hline
  obtain ⟨m, hm⟩ := h w hw
  exact (Instruction.sourceLine_text hm).2

/-- A disassembly is a program of the same words, as long as nothing in it branches; the text of a
branch assembles where its offset is the name of the label that it leads to. -/
theorem reassembles :
    (∀ ws : List Word,
      (∀ w ∈ ws, ∃ m, (Instruction.mk w).mnemonic? = some m ∧ ∀ op, m ≠ .branch op) →
        (ofText (disassembly ws)).words = .ok ws ∧ (ofText (disassembly ws)).skipped = []) ∧
    ∀ (w : Word) (op : BranchOp) (pc line : Int),
      (Instruction.mk w).mnemonic? = some (.branch op) →
        assembleLine [(decimalToken (Instruction.mk w).imm, pc + (Instruction.mk w).imm)] pc line
          (Instruction.mk w).text.toList = .ok (some w) := by
  constructor
  · intro ws hws
    have hlines : Text.lines (disassembly ws) = ws.map fun w => (Instruction.mk w).text.toList := by
      refine lines_disassembly fun w hw => ?_
      obtain ⟨m, hm, -⟩ := hws w hw
      exact ⟨m, hm⟩
    have hgives := givesWord_texts hws 1
    -- no line defines a label, so the second pass starts from the empty table
    have hlabels : LabelTable.ofLines (sourceLines (Text.lines (disassembly ws))) = .ok [] := by
      rw [hlines, sourceLines_eq]
      exact LabelTable.extend_of_givesWord hgives 0
    have hrows : ofText (disassembly ws) =
        rowsFrom [] 0 (linesFrom 1 (ws.map fun w => (Instruction.mk w).text.toList)) := by
      unfold ofText ofLines
      rw [hlabels, hlines, sourceLines_eq]
    obtain ⟨hfailure, hwords⟩ := rowsFrom_of_givesWord hgives 0
    rw [hrows]
    exact words_of_rows hfailure hwords
  · intro w op pc line hm
    exact Instruction.assembleLine_text line hm (Instruction.resolves_branch pc ⟨w⟩ op)

/-- One instruction of each kind, a shift among them, and a branch backwards. -/
theorem reassembles_kinds :
    (ofText (disassembly [0x003100b3, 0x41f1d413, 0x8000a283, 0xfe512e23, 0xfffff0b7,
        0xffdff06f])).words =
      .ok [0x003100b3, 0x41f1d413, 0x8000a283, 0xfe512e23, 0xfffff0b7, 0xffdff06f] ∧
    assembleLine [("-8".toList, 92)] 100 1 "beq    x1, x2, -8".toList = .ok (some 0xfe208ce3) := by
  constructor
  · refine (reassembles.1 _ ?_).1
    simp only [List.forall_mem_cons]
    exact ⟨⟨.register .add, by decide, nofun⟩, ⟨.immediate .srai, by decide, nofun⟩,
      ⟨.lw, by decide, nofun⟩, ⟨.sw, by decide, nofun⟩, ⟨.lui, by decide, nofun⟩,
      ⟨.jal, by decide, nofun⟩, nofun⟩
  · have hbranch := reassembles.2 0xfe208ce3 .beq 100 1 (by decide)
    exact hbranch

end Assembly

end SingleCycle
