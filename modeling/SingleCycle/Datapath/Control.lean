import SingleCycle.Datapath.Alu
import SingleCycle.Isa.Instruction

/-!
# The control unit

The fields of an instruction select the signals that steer the datapath. An opcode that the
datapath does not execute leaves all signals off; a branch whose function field is not used is
still a branch, on the sum of its operands.
-/

namespace SingleCycle

/-- The signals that steer the datapath. -/
structure Control where
  /-- The second operand of the arithmetic unit is the immediate. -/
  aluSource : Bool
  /-- The value written back comes from data memory. -/
  memoryToRegister : Bool
  /-- Data memory is written. -/
  memoryWrite : Bool
  /-- The instruction is a branch. -/
  branch : Bool
  /-- The branch is taken when the comparison gives 0 and not 1. -/
  branchNegated : Bool
  /-- The operation of the arithmetic unit. -/
  aluOp : AluOp
  deriving Repr, DecidableEq

/-- A `funct3` field that selects no arithmetic. -/
structure UnknownFunction where
  /-- The field. -/
  funct3 : Int
  deriving Repr, DecidableEq

/-- The text of the refusal. -/
def UnknownFunction.message (unknown : UnknownFunction) : String := toString unknown.funct3

namespace Control

/-- All signals off. -/
def idle : Control := ⟨false, false, false, false, false, .add⟩

/-- The operation that a `funct3` field selects for arithmetic. -/
def arithmeticOp? : Int → Option AluOp
  | 0 => some .add
  | 1 => some .sll
  | 2 => some .slt
  | 3 => some .sltu
  | 4 => some .xor
  | 5 => some .srl
  | 6 => some .or
  | 7 => some .and
  | _ => none

/-- The `funct7` field that selects the alternate operation. -/
def alternateFunct7 : Int := 0x20

/-- The alternate of an operation between registers: subtraction for addition, the arithmetic
shift for the logical one. -/
def alternate : AluOp → AluOp
  | .add => .sub
  | .srl => .sra
  | op => op

/-- The alternate of an operation with an immediate, whose addition has none: there the `funct7`
field is part of the immediate. -/
def immediateAlternate : AluOp → AluOp
  | .srl => .sra
  | op => op

/-- The comparison that a `funct3` field selects for a branch, and whether it is negated. -/
def comparison? : Int → Option (AluOp × Bool)
  | 0 => some (.beq, false)
  | 1 => some (.beq, true)
  | 4 => some (.blt, false)
  | 5 => some (.blt, true)
  | 6 => some (.bltu, false)
  | 7 => some (.bltu, true)
  | _ => none

/-- The signals that the fields of an instruction select. Only arithmetic looks its `funct3` field
up in a table without gaps, so only there can the field be unknown, and only if it is wider than
three bits. -/
def ofFields (opcode funct3 funct7 : Int) : Except UnknownFunction Control :=
  match Opcode.ofCode? opcode with
  | some .register =>
    match arithmeticOp? funct3 with
    | some op =>
      .ok { idle with aluOp := if funct7 = alternateFunct7 then alternate op else op }
    | none => .error ⟨funct3⟩
  | some .immediate =>
    match arithmeticOp? funct3 with
    | some op =>
      .ok { idle with
        aluSource := true
        aluOp := if funct7 = alternateFunct7 then immediateAlternate op else op }
    | none => .error ⟨funct3⟩
  | some .load => .ok { idle with aluSource := true, memoryToRegister := true }
  | some .store => .ok { idle with aluSource := true, memoryWrite := true }
  | some .branch =>
    match comparison? funct3 with
    | some (op, negated) => .ok { idle with branch := true, branchNegated := negated, aluOp := op }
    | none => .ok { idle with branch := true }
  | _ => .ok idle

end Control

/-- The signals that an instruction selects. -/
def Instruction.control (i : Instruction) : Except UnknownFunction Control :=
  Control.ofFields i.opcode.toNat i.funct3.toNat i.funct7.toNat

end SingleCycle
