import SingleCycle.Isa.Instruction

/-!
# Disassembly

The text of an instruction: its name in a column of six, and its operands. Registers are shown by
number, immediates in decimal, upper immediates in base sixteen. A word whose operands are not
known is shown whole.
-/

namespace SingleCycle

/-- Fills a text with spaces up to a least width. -/
def padTo (width : Nat) (s : String) : String := String.ofList (s.toList.rightpad width ' ')

/-- The name of a register by its number. -/
def registerName (r : BitVec 5) : String := "x" ++ toString r.toNat

namespace Instruction

variable (i : Instruction)

/-- The name of a trap. -/
def trapName? : Option String :=
  if i.data = ecall then some "ecall" else if i.data = ebreak then some "ebreak" else none

/-- Whether the word has a name. -/
def valid : Bool := i.trapName?.isSome || i.mnemonic?.isSome

/-- The name of the instruction. -/
def name : String := i.trapName?.getD (Mnemonic.nameOf i.mnemonic?)

/-- Whether the `funct3` field is that of a shift. -/
def hasShiftFunct3 : Bool := i.funct3 = 1 || i.funct3 = 5

/-- The operands of the instruction. They are chosen by the opcode alone, so that an unused
function field does not hide them; only loads and stores need their mnemonic too. -/
def operands : List String :=
  match i.opcode?, i.mnemonic? with
  | some .load, some .lw => [registerName i.rd, toString i.imm ++ "(" ++ registerName i.rs1 ++ ")"]
  | some .store, some .sw =>
    [registerName i.rs2, toString i.imm ++ "(" ++ registerName i.rs1 ++ ")"]
  | some .branch, _ => [registerName i.rs1, registerName i.rs2, toString i.imm]
  | some .register, _ => [registerName i.rd, registerName i.rs1, registerName i.rs2]
  | some .immediate, _ =>
    [registerName i.rd, registerName i.rs1,
      if i.hasShiftFunct3 then toString i.rs2.toNat else toString i.imm]
  | some .lui, _ => [registerName i.rd, "0x" ++ String.ofList (Numeral.hex 1 i.upperImm.toNat)]
  | some .jal, _ => [registerName i.rd, toString i.jumpOffset]
  | _, _ => if i.trapName?.isSome then [] else ["data=0x" ++ hexWord i.data]

/-- The operands, with commas between them. -/
def operandText : String := ", ".intercalate i.operands

/-- The whole text of the instruction. -/
def text : String :=
  if i.operands.isEmpty then i.name else padTo 6 i.name ++ " " ++ i.operandText

end Instruction

end SingleCycle
