import SingleCycle.Assembly.Operand
import SingleCycle.Isa.Encoding

/-!
# Statements

An instruction as the programmer writes it: the operation, the registers, and an immediate or the
name of a label. `Statement.parse` reads one from the operands of a mnemonic; `Statement.encode`
turns it into a word, for which labels have to be known. Where two operands are wrong, the order of
the reads decides which one is reported.
-/

namespace SingleCycle

/-- An instruction as it is written. -/
inductive Statement where
  /-- Arithmetic between registers. -/
  | register (op : RegisterOp) (rd rs1 rs2 : BitVec 5)
  /-- Arithmetic with an immediate. -/
  | immediate (op : ImmediateOp) (rd rs1 : BitVec 5) (imm : Int)
  /-- Loading a word. -/
  | lw (rd : BitVec 5) (imm : Int) (rs1 : BitVec 5)
  /-- Storing a word. -/
  | sw (rs2 : BitVec 5) (imm : Int) (rs1 : BitVec 5)
  /-- Branching to a label. -/
  | branch (op : BranchOp) (rs1 rs2 : BitVec 5) (label : List Char)
  /-- Loading an upper immediate. -/
  | lui (rd : BitVec 5) (imm : Int)
  /-- Jumping to a label, or by an offset where no label has that name. -/
  | jal (rd : BitVec 5) (target : List Char)
  deriving Repr, DecidableEq

namespace Statement

/-- Whether the operands of an instruction have the form of a memory access. -/
def accessesMemory : Mnemonic → Bool
  | .lw => true
  | .sw => true
  | _ => false

/-- Whether the amount of a shift can be encoded; every other immediate is cut to its width. -/
def fitsShift (op : ImmediateOp) (imm : Int) : Bool :=
  op.funct7?.isNone || (0 ≤ imm && imm < 32)

/-- Reads the operands of an instruction. The whole line is shown if their number is wrong. -/
def parse (mnemonic : Mnemonic) (line operands : List Char) : Except OperandError Statement :=
  if accessesMemory mnemonic && !Operand.isMemoryForm operands then
    .error (.fault (.memoryForm operands))
  else
    match mnemonic, Operand.split operands with
    | .register op, [a, b, c] => do
      let rs2 ← Operand.register c
      let rs1 ← Operand.register b
      let rd ← Operand.register a
      return .register op rd rs1 rs2
    | .immediate op, [a, b, c] => do
      let imm ← Operand.immediate c
      if fitsShift op imm then
        let rs1 ← Operand.register b
        let rd ← Operand.register a
        return .immediate op rd rs1 imm
      else
        throw (.fault (.shiftAmount c))
    | .lw, [a, b, c] => do
      let imm ← Operand.immediate b
      let rs1 ← Operand.register c
      let rd ← Operand.register a
      return .lw rd imm rs1
    | .sw, [a, b, c] => do
      let imm ← Operand.immediate b
      let rs2 ← Operand.register a
      let rs1 ← Operand.register c
      return .sw rs2 imm rs1
    | .branch op, [a, b, c] => do
      let rs1 ← Operand.register a
      let rs2 ← Operand.register b
      return .branch op rs1 rs2 c
    | .lui, [a, b] => do
      let imm ← Operand.immediate b
      let rd ← Operand.register a
      return .lui rd imm
    | .jal, [a, b] => do
      let rd ← Operand.register a
      return .jal rd b
    | _, tokens => .error (.fault (.count tokens.length line operands))

/-- The offset of a jump: the distance to a label, or else the number that is written. -/
def jumpOffset (labels : LabelTable) (address : Int) (target : List Char) :
    Except OperandError Int :=
  if (labels.address? target).isSome || (Operand.immediate? target).isNone then
    Operand.offset labels address 21 target
  else Operand.immediate target

/-- The immediate bits of an operation. The bits that a shift's amount leaves free select the
shift. -/
def immediateBits (op : ImmediateOp) (imm : Int) : BitVec 12 :=
  match op.funct7? with
  | some funct7 => funct7 ++ BitVec.ofInt 5 imm
  | none => BitVec.ofInt 12 imm

/-- The word of a statement at an address. -/
def encode (labels : LabelTable) (address : Int) : Statement → Except OperandError Word
  | register op rd rs1 rs2 =>
    .ok (Encoding.wordR op.funct7 rs2 rs1 op.funct3 rd Opcode.register.bits)
  | immediate op rd rs1 imm =>
    .ok (Encoding.wordI (immediateBits op imm) rs1 op.funct3 rd Opcode.immediate.bits)
  | lw rd imm rs1 =>
    .ok (Encoding.wordI (.ofInt 12 imm) rs1 Mnemonic.wordFunct3 rd Opcode.load.bits)
  | sw rs2 imm rs1 =>
    .ok (Encoding.wordS (.ofInt 12 imm) rs2 rs1 Mnemonic.wordFunct3 Opcode.store.bits)
  | branch op rs1 rs2 label => do
    let offset ← Operand.offset labels address 13 label
    return Encoding.wordB (.ofInt 13 offset) rs2 rs1 op.funct3 Opcode.branch.bits
  | lui rd imm => .ok (Encoding.wordU (.ofInt 20 imm) rd Opcode.lui.bits)
  | jal rd target => do
    let offset ← jumpOffset labels address target
    return Encoding.wordJ (.ofInt 21 offset) rd Opcode.jal.bits

end Statement

end SingleCycle
