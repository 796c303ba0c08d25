/-!
# Major opcodes

The low seven bits of an instruction word select its kind. The eight kinds below are the ones
that the instruction set names.
-/

namespace SingleCycle

/-- The kinds of instruction that the major opcode tells apart. -/
inductive Opcode where
  /-- Loads from data memory. -/
  | load
  /-- Arithmetic with an immediate. -/
  | immediate
  /-- Stores to data memory. -/
  | store
  /-- Arithmetic between registers. -/
  | register
  /-- Loading an upper immediate. -/
  | lui
  /-- Conditional branches. -/
  | branch
  /-- Jumping and linking. -/
  | jal
  /-- Traps. -/
  | system
  deriving Repr, DecidableEq

namespace Opcode

/-- The seven bits of an opcode. -/
def bits : Opcode → BitVec 7
  | load => 0x03
  | immediate => 0x13
  | store => 0x23
  | register => 0x33
  | lui => 0x37
  | branch => 0x63
  | jal => 0x6F
  | system => 0x73

/-- The number of an opcode. -/
def code (opcode : Opcode) : Int := opcode.bits.toNat

/-- All opcodes, by their codes. -/
def all : List Opcode := [load, immediate, store, register, lui, branch, jal, system]

/-- The opcode with a code. -/
def ofCode? (code : Int) : Option Opcode := all.find? fun opcode => opcode.code == code

end Opcode

end SingleCycle
