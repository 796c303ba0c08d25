import SingleCycle.Assembly.Operand
import SingleCycle.Assembly.SourceLine
import SingleCycle.Isa.Mnemonic

/-!
# Instruction lines

The lines of a text that hold an instruction, the name that the first word of such a line calls for,
and its operands.
-/

namespace SingleCycle

/-- Whether a line holds an instruction: it has code, and the code is no label. -/
def holdsInstruction (raw : List Char) : Bool :=
  !(codePart raw).isEmpty && (labelName? (codePart raw)).isNone

/-- The instruction lines of a text whose lines are numbered from a number on: the number and the
code of each. -/
def instructionLines (first : Nat) (raws : List (List Char)) : List (Nat × List Char) :=
  ((raws.zipIdx first).filter (holdsInstruction ·.1)).map fun entry => (entry.2, codePart entry.1)

/-- The instruction that the first word of a line calls for. -/
def mnemonicOf? (code : List Char) : Option Mnemonic :=
  Mnemonic.ofName? ((Text.splitWord code).1.map Char.toLower)

/-- The operands of a line. -/
def operandsOf (code : List Char) : List (List Char) := Operand.split (Text.splitWord code).2

end SingleCycle
