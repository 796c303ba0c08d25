import SingleCycle.Isa.Mnemonic
import SingleCycle.Word

/-!
# Instructions

An instruction is a word that is read by its fields. Every word is an instruction: one whose
fields select nothing has no mnemonic, and its immediate is 0.
-/

namespace SingleCycle

/-- The formats whose immediate the datapath uses. -/
inductive Format where
  | immediate | store | branch
  deriving Repr, DecidableEq

/-- The letter of a format. -/
def Format.letter : Format → String
  | immediate => "I"
  | store => "S"
  | branch => "B"

/-- A word read as an instruction. -/
structure Instruction where
  /-- The word. -/
  data : Word
  deriving Repr, DecidableEq

namespace Instruction

variable (i : Instruction)

/-- The major opcode. -/
def opcode : BitVec 7 := i.data.extractLsb' 0 7

/-- The register that is written. -/
def rd : BitVec 5 := i.data.extractLsb' 7 5

/-- The first function field. -/
def funct3 : BitVec 3 := i.data.extractLsb' 12 3

/-- The first register that is read. -/
def rs1 : BitVec 5 := i.data.extractLsb' 15 5

/-- The second register that is read. -/
def rs2 : BitVec 5 := i.data.extractLsb' 20 5

/-- The second function field. -/
def funct7 : BitVec 7 := i.data.extractLsb' 25 7

/-- The kind of instruction, where the opcode is one of the named ones. -/
def opcode? : Option Opcode := Opcode.ofCode? i.opcode.toNat

/-- The format of the immediate, where the datapath uses one. -/
def format? : Option Format :=
  match i.opcode? with
  | some .load => some .immediate
  | some .immediate => some .immediate
  | some .store => some .store
  | some .branch => some .branch
  | _ => none

/-- The immediate that the datapath uses, and 0 where it uses none. -/
def imm : Int :=
  match i.format? with
  | some .immediate => (i.data.extractLsb' 20 12).toInt
  | some .store => (i.funct7 ++ i.rd).toInt
  | some .branch =>
    (i.data.extractLsb' 31 1 ++ i.data.extractLsb' 7 1 ++ i.data.extractLsb' 25 6
      ++ i.data.extractLsb' 8 4 ++ 0#1).toInt
  | none => 0

/-- The upper immediate. -/
def upperImm : Int := (i.data.extractLsb' 12 20).toNat

/-- The offset of a jump. -/
def jumpOffset : Int :=
  (i.data.extractLsb' 31 1 ++ i.data.extractLsb' 12 8 ++ i.data.extractLsb' 20 1
    ++ i.data.extractLsb' 21 10 ++ 0#1).toInt

/-- The named instruction that the fields select. -/
def mnemonic? : Option Mnemonic :=
  Mnemonic.ofFields? i.opcode.toNat i.funct3.toNat i.funct7.toNat

end Instruction

/-- The trap that asks the environment for a service. -/
def ecall : Word := 0x00000073

/-- The trap that hands control to a debugger. -/
def ebreak : Word := 0x00100073

/-- The words at which execution stops: the null word, which is what follows a loaded program, and
the two traps. -/
def haltWords : List Word := [0, ecall, ebreak]

end SingleCycle
