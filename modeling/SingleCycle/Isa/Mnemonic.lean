import SingleCycle.Isa.Opcode

/-!
# Mnemonics

The instructions that have a name, grouped by their operands, and the bits that select each one.
`Mnemonic.ofFields?` finds the instruction that the fields of a word select.
-/

namespace SingleCycle

/-- Arithmetic between two registers. -/
inductive RegisterOp where
  | add | sub | sll | slt | sltu | xor | srl | sra | or | and
  deriving Repr, DecidableEq

/-- Arithmetic between a register and an immediate. -/
inductive ImmediateOp where
  | addi | slti | sltiu | xori | ori | andi | slli | srli | srai
  deriving Repr, DecidableEq

/-- Conditional branches. -/
inductive BranchOp where
  | beq | bne | blt | bge | bltu | bgeu
  deriving Repr, DecidableEq

/-- The instructions that have a name and operands. -/
inductive Mnemonic where
  /-- Arithmetic between two registers. -/
  | register (op : RegisterOp)
  /-- Arithmetic between a register and an immediate. -/
  | immediate (op : ImmediateOp)
  /-- Loading a word. -/
  | lw
  /-- Storing a word. -/
  | sw
  /-- Branching on a comparison. -/
  | branch (op : BranchOp)
  /-- Loading an upper immediate. -/
  | lui
  /-- Jumping and linking. -/
  | jal
  deriving Repr, DecidableEq

namespace RegisterOp

/-- All operations between registers. -/
def all : List RegisterOp := [add, sub, sll, slt, sltu, xor, srl, sra, or, and]

/-- The bits 14 to 12 of the instruction. -/
def funct3 : RegisterOp → BitVec 3
  | add => 0
  | sub => 0
  | sll => 1
  | slt => 2
  | sltu => 3
  | xor => 4
  | srl => 5
  | sra => 5
  | or => 6
  | and => 7

/-- The bits 31 to 25 of the instruction. -/
def funct7 : RegisterOp → BitVec 7
  | sub => 0x20
  | sra => 0x20
  | _ => 0

/-- The name in assembly text. -/
def name : RegisterOp → String
  | add => "add"
  | sub => "sub"
  | sll => "sll"
  | slt => "slt"
  | sltu => "sltu"
  | xor => "xor"
  | srl => "srl"
  | sra => "sra"
  | or => "or"
  | and => "and"

/-- The operation that the function fields select. -/
def ofFields? (funct3 funct7 : Int) : Option RegisterOp :=
  all.find? fun op => (op.funct3.toNat : Int) == funct3 && (op.funct7.toNat : Int) == funct7

end RegisterOp

namespace ImmediateOp

/-- All operations with an immediate. -/
def all : List ImmediateOp := [addi, slti, sltiu, xori, ori, andi, slli, srli, srai]

/-- The bits 14 to 12 of the instruction. -/
def funct3 : ImmediateOp → BitVec 3
  | addi => 0
  | slli => 1
  | slti => 2
  | sltiu => 3
  | xori => 4
  | srli => 5
  | srai => 5
  | ori => 6
  | andi => 7

/-- The bits 31 to 25 of a shift, whose amount leaves them free. Every other operation has
immediate bits there. -/
def funct7? : ImmediateOp → Option (BitVec 7)
  | slli => some 0
  | srli => some 0
  | srai => some 0x20
  | _ => none

/-- The name in assembly text. -/
def name : ImmediateOp → String
  | addi => "addi"
  | slti => "slti"
  | sltiu => "sltiu"
  | xori => "xori"
  | ori => "ori"
  | andi => "andi"
  | slli => "slli"
  | srli => "srli"
  | srai => "srai"

/-- The operation that the function fields select. -/
def ofFields? (funct3 funct7 : Int) : Option ImmediateOp :=
  all.find? fun op =>
    (op.funct3.toNat : Int) == funct3 && op.funct7?.all fun bits => (bits.toNat : Int) == funct7

end ImmediateOp

namespace BranchOp

/-- All branches. -/
def all : List BranchOp := [beq, bne, blt, bge, bltu, bgeu]

/-- The bits 14 to 12 of the instruction. -/
def funct3 : BranchOp → BitVec 3
  | beq => 0
  | bne => 1
  | blt => 4
  | bge => 5
  | bltu => 6
  | bgeu => 7

/-- The name in assembly text. -/
def name : BranchOp → String
  | beq => "beq"
  | bne => "bne"
  | blt => "blt"
  | bge => "bge"
  | bltu => "bltu"
  | bgeu => "bgeu"

/-- The branch that a function field selects. -/
def ofFunct3? (funct3 : Int) : Option BranchOp :=
  all.find? fun op => (op.funct3.toNat : Int) == funct3

end BranchOp

namespace Mnemonic

/-- All named instructions. -/
def all : List Mnemonic :=
  RegisterOp.all.map register ++ ImmediateOp.all.map immediate ++ [lw, sw]
    ++ BranchOp.all.map branch ++ [lui, jal]

/-- The name in assembly text. -/
def name : Mnemonic → String
  | register op => op.name
  | immediate op => op.name
  | lw => "lw"
  | sw => "sw"
  | branch op => op.name
  | lui => "lui"
  | jal => "jal"

/-- The number of operands in assembly text. -/
def operandCount : Mnemonic → Nat
  | lui => 2
  | jal => 2
  | _ => 3

/-- The instruction with a name in lower-case letters. -/
def ofName? (name : List Char) : Option Mnemonic :=
  all.find? fun mnemonic => mnemonic.name.toList == name

/-- The `funct3` field of the word load and of the word store. -/
def wordFunct3 : BitVec 3 := 2

/-- The instruction that the fields of a word select. -/
def ofFields? (opcode funct3 funct7 : Int) : Option Mnemonic :=
  match Opcode.ofCode? opcode with
  | some .register => (RegisterOp.ofFields? funct3 funct7).map register
  | some .immediate => (ImmediateOp.ofFields? funct3 funct7).map immediate
  | some .load => if funct3 = wordFunct3.toNat then some lw else none
  | some .store => if funct3 = wordFunct3.toNat then some sw else none
  | some .branch => (BranchOp.ofFunct3? funct3).map branch
  | some .lui => some lui
  | some .jal => some jal
  | some .system => none
  | none => none

/-- How an instruction is called that may have no name. -/
def nameOf : Option Mnemonic → String
  | some mnemonic => mnemonic.name
  | none => "UNKNOWN"

end Mnemonic

end SingleCycle
