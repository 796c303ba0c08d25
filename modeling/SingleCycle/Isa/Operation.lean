import Mathlib.Algebra.Group.Int.Defs
import Mathlib.Algebra.Group.Nat.Defs
import SingleCycle.Isa.Mnemonic
import SingleCycle.Word

/-!
# The instruction set

What each named instruction does, written over numbers and without a datapath: there is no control
signal and no arithmetic unit here, and the fields of a word are read by division. An operation is
an instruction with its operands but without the place that a branch goes to, so that a processor,
which branches by an offset, and an interpreter of source text, which branches to a line, can share
it.
-/

namespace SingleCycle

/-! ## Arithmetic -/

/-- The value of an operation between two words. Words are unsigned numbers except where the
operation takes the sign into account, results are taken modulo `2 ^ 32`, and shifts use the low
five bits of the second word. -/
def RegisterOp.value (op : RegisterOp) (a b : Word) : Word :=
  match op with
  | add => wordOf (a.toNat + b.toNat)
  | sub => wordOf (a.toNat - b.toNat)
  | sll => wordOf (a.toNat * 2 ^ (b.toNat % 32))
  | slt => if a.toInt < b.toInt then 1 else 0
  | sltu => if a.toNat < b.toNat then 1 else 0
  | xor => a ^^^ b
  | srl => wordOf (a.toNat / 2 ^ (b.toNat % 32))
  | sra => wordOf (a.toInt / 2 ^ (b.toNat % 32))
  | or => a ||| b
  | and => a &&& b

/-- The operation between words that an operation with an immediate performs. -/
def ImmediateOp.registerOp : ImmediateOp → RegisterOp
  | addi => .add
  | slti => .slt
  | sltiu => .sltu
  | xori => .xor
  | ori => .or
  | andi => .and
  | slli => .sll
  | srli => .srl
  | srai => .sra

/-- Whether an operation shifts. The immediate of a shift is an unsigned number of five bits, every
other one a signed number of twelve bits. -/
def ImmediateOp.shifts : ImmediateOp → Bool
  | slli => true
  | srli => true
  | srai => true
  | _ => false

/-- Whether a branch is taken. -/
def BranchOp.holds (op : BranchOp) (a b : Word) : Bool :=
  match op with
  | beq => a = b
  | bne => a ≠ b
  | blt => a.toInt < b.toInt
  | bge => b.toInt ≤ a.toInt
  | bltu => a.toNat < b.toNat
  | bgeu => b.toNat ≤ a.toNat

/-! ## Registers and data memory -/

/-- Registers and data memory. -/
@[ext]
structure Machine where
  /-- The registers. -/
  register : BitVec 5 → Word
  /-- The data words. -/
  memory : BitVec 5 → Word

namespace Machine

/-- The value of a register. Register 0 is zero whatever it holds. -/
def read (s : Machine) (r : BitVec 5) : Word := if r = 0 then 0 else s.register r

/-- Writes a register. A write to register 0 is dropped. -/
def write (s : Machine) (r : BitVec 5) (value : Word) : Machine :=
  if r = 0 then s else { s with register := fun q => if q = r then value else s.register q }

@[simp]
theorem read_zero (s : Machine) : s.read 0#5 = 0 := if_pos rfl

@[simp]
theorem write_zero (s : Machine) (value : Word) : s.write 0#5 value = s := if_pos rfl

/-- The data word that an address selects; addresses repeat every 32 words. -/
def cell (address : Word) : BitVec 5 := BitVec.ofNat 5 (address.toNat / 4 % 32)

/-- The address at a distance from the one in a register. -/
def address (s : Machine) (base : BitVec 5) (distance : Int) : Word :=
  wordOf ((s.read base).toNat + distance)

/-- Stores a word. -/
def store (s : Machine) (address value : Word) : Machine :=
  { s with memory := fun i => if i = cell address then value else s.memory i }

end Machine

/-! ## Immediates

The pieces of the word, each at its place value, read in two's complement. -/

/-- The immediate of the immediate format. -/
def immediateI (w : Word) : Int := signed 12 (w.toNat / 2 ^ 20 : Nat)

/-- The immediate of the store format. -/
def immediateS (w : Word) : Int :=
  signed 12 (w.toNat / 2 ^ 25 * 2 ^ 5 + w.toNat / 2 ^ 7 % 2 ^ 5 : Nat)

/-- The offset of the branch format. -/
def immediateB (w : Word) : Int :=
  signed 13 (w.toNat / 2 ^ 31 * 2 ^ 12 + w.toNat / 2 ^ 7 % 2 * 2 ^ 11
    + w.toNat / 2 ^ 25 % 2 ^ 6 * 2 ^ 5 + w.toNat / 2 ^ 8 % 2 ^ 4 * 2 : Nat)

/-- The offset of the jump format. -/
def immediateJ (w : Word) : Int :=
  signed 21 (w.toNat / 2 ^ 31 * 2 ^ 20 + w.toNat / 2 ^ 12 % 2 ^ 8 * 2 ^ 12
    + w.toNat / 2 ^ 20 % 2 * 2 ^ 11 + w.toNat / 2 ^ 21 % 2 ^ 10 * 2 : Nat)

/-! ## Operations -/

/-- An instruction with its operands, without the target of a branch. -/
inductive Operation where
  /-- Arithmetic between registers. -/
  | register (op : RegisterOp) (rd rs1 rs2 : BitVec 5)
  /-- Arithmetic with an immediate. -/
  | immediate (op : ImmediateOp) (rd rs1 : BitVec 5) (imm : Int)
  /-- Loading a word. -/
  | load (rd : BitVec 5) (imm : Int) (rs1 : BitVec 5)
  /-- Storing a word. -/
  | store (rs2 : BitVec 5) (imm : Int) (rs1 : BitVec 5)
  /-- Branching. -/
  | branch (op : BranchOp) (rs1 rs2 : BitVec 5)
  deriving DecidableEq

namespace Operation

/-- What an operation does to registers and data memory. -/
def effect (s : Machine) : Operation → Machine
  | register op rd rs1 rs2 => s.write rd (op.value (s.read rs1) (s.read rs2))
  | immediate op rd rs1 imm => s.write rd (op.registerOp.value (s.read rs1) (wordOf imm))
  | load rd imm rs1 => s.write rd (s.memory (Machine.cell (s.address rs1 imm)))
  | store rs2 imm rs1 => s.store (s.address rs1 imm) (s.read rs2)
  | branch _ _ _ => s

/-- Whether an operation branches away. -/
def taken (s : Machine) : Operation → Bool
  | branch op rs1 rs2 => op.holds (s.read rs1) (s.read rs2)
  | _ => false

/-- The register whose number begins at a bit of a word. -/
def registerField (w : Word) (low : Nat) : BitVec 5 := BitVec.ofNat 5 (w.toNat / 2 ^ low)

/-- The operation of a word that holds the given instruction. There is none for the two
instructions that the datapath does not execute. -/
def ofWord? (w : Word) : Mnemonic → Option Operation
  | .register op =>
    some (register op (registerField w 7) (registerField w 15) (registerField w 20))
  | .immediate op =>
    some (immediate op (registerField w 7) (registerField w 15)
      (if op.shifts then w.toNat / 2 ^ 20 % 2 ^ 5 else immediateI w))
  | .lw => some (load (registerField w 7) (immediateI w) (registerField w 15))
  | .sw => some (store (registerField w 20) (immediateS w) (registerField w 15))
  | .branch op => some (branch op (registerField w 15) (registerField w 20))
  | .lui => none
  | .jal => none

end Operation

end SingleCycle
