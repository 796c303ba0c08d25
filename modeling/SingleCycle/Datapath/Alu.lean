import SingleCycle.Word

/-!
# The arithmetic unit

Fourteen operations on two words. Results wrap, shifts use the low five bits of the second
operand, and comparisons give 0 or 1. Only the operations whose names say so read their operands
in two's complement.
-/

namespace SingleCycle

/-- The operations of the arithmetic unit. The last four compare: `seq` for arithmetic, the others
for branches. -/
inductive AluOp where
  | add | sub | sll | slt | sltu | xor | srl | sra | or | and | seq | beq | blt | bltu
  deriving Repr, DecidableEq

namespace AluOp

/-- All operations, by their codes. -/
def all : List AluOp :=
  [add, sub, sll, slt, sltu, xor, srl, sra, or, and, seq, beq, blt, bltu]

/-- The code of an operation. -/
def code : AluOp → Nat
  | add => 0
  | sub => 1
  | sll => 2
  | slt => 3
  | sltu => 4
  | xor => 5
  | srl => 6
  | sra => 7
  | or => 8
  | and => 9
  | seq => 10
  | beq => 11
  | blt => 12
  | bltu => 13

/-- The name of an operation. -/
def name : AluOp → String
  | add => "ADD"
  | sub => "SUB"
  | sll => "SLL"
  | slt => "SLT"
  | sltu => "SLTU"
  | xor => "XOR"
  | srl => "SRL"
  | sra => "SRA"
  | or => "OR"
  | and => "AND"
  | seq => "SEQ"
  | beq => "BEQ"
  | blt => "BLT"
  | bltu => "BLTU"

/-- The operation with a code. -/
def ofCode? (code : Int) : Option AluOp := all.find? fun op => (op.code : Int) == code

/-- The truth value of a comparison as a word. -/
def flag (b : Bool) : Word := if b then 1 else 0

/-- The amount that an operand shifts by: a shift by the whole width or more does not exist. -/
def shiftAmount (b : Word) : Nat := b.toNat % 32

/-- The result of an operation. -/
def eval (op : AluOp) (a b : Word) : Word :=
  match op with
  | add => a + b
  | sub => a - b
  | sll => a <<< shiftAmount b
  | slt => flag (a.slt b)
  | sltu => flag (a.ult b)
  | xor => a ^^^ b
  | srl => a >>> shiftAmount b
  | sra => a.sshiftRight (shiftAmount b)
  | or => a ||| b
  | and => a &&& b
  | seq => flag (a == b)
  | beq => flag (a == b)
  | blt => flag (a.slt b)
  | bltu => flag (a.ult b)

end AluOp

/-- A code that no operation has. -/
structure UnknownOperation where
  /-- The code. -/
  code : Int
  deriving Repr, DecidableEq

/-- The text of the refusal. -/
def UnknownOperation.message (unknown : UnknownOperation) : String :=
  "invalid ALU operation " ++ toString unknown.code

/-- Evaluates the operation with a code on two integers, of which the low 32 bits count. -/
def alu (a b code : Int) : Except UnknownOperation Word :=
  match AluOp.ofCode? code with
  | some op => .ok (op.eval (wordOf a) (wordOf b))
  | none => .error ⟨code⟩

end SingleCycle
