import SingleCycle.Isa.Mnemonic
import SingleCycle.Text.Quoted

/-!
# Errors of the assembler

What can be wrong with a program text. Nearly every error belongs to a line and to a piece of that
line's code, its token. Three do not: a decimal numeral that is too long to be read, a distance that
is too long to be told, and a line without an instruction where one is asked for.
-/

namespace SingleCycle

/-- What is wrong with the operands of an instruction. -/
inductive OperandFault where
  /-- The operands of a load or store do not have the form of a memory access. -/
  | memoryForm (operands : List Char)
  /-- The number of operands is wrong. -/
  | count (got : Nat) (line operands : List Char)
  /-- A register is expected. -/
  | notRegister (token : List Char)
  /-- An immediate is expected. -/
  | notImmediate (token : List Char)
  /-- The amount of a shift does not lie between 0 and 31. -/
  | shiftAmount (token : List Char)
  /-- No line defines the label. -/
  | undefinedLabel (token : List Char)
  /-- The label is too far away for the instruction. -/
  | labelRange (token : List Char) (offset : Int)
  deriving Repr, DecidableEq

/-- Why an operand is refused. -/
inductive OperandError where
  /-- The operand is wrong. -/
  | fault (fault : OperandFault)
  /-- A decimal numeral has more digits than can be read. -/
  | longNumeral (digits : Nat)
  /-- The distance to a label, which the message would tell, has more digits than can be
  written. -/
  | longDistance
  deriving Repr, DecidableEq

/-- What is wrong with a line. -/
inductive Complaint where
  /-- A colon without a name. -/
  | emptyLabelName
  /-- A label that an earlier line defines. -/
  | duplicateLabel (name : List Char)
  /-- A line of a program in hexadecimal words that is no such word. -/
  | notHexWord (code : List Char)
  /-- The operands of an instruction. -/
  | operand (mnemonic : Mnemonic) (fault : OperandFault)
  deriving Repr, DecidableEq

/-- An error at a line. -/
structure LineError where
  /-- The number of the line. -/
  line : Int
  /-- What is wrong with it. -/
  complaint : Complaint
  deriving Repr, DecidableEq

/-- What ends an assembly. -/
inductive AssemblyError where
  /-- A line is wrong. -/
  | line (error : LineError)
  /-- A decimal numeral has more digits than can be read. -/
  | longNumeral (digits : Nat)
  /-- The distance to a label has more digits than can be written. -/
  | longDistance
  /-- The line to assemble is blank. -/
  | noInstruction
  deriving Repr, DecidableEq

namespace OperandFault

/-- The piece of code that is at fault. -/
def token : OperandFault → List Char
  | memoryForm operands => operands
  | count _ _ operands => operands
  | notRegister token => token
  | notImmediate token => token
  | shiftAmount token => token
  | undefinedLabel token => token
  | labelRange token _ => token

/-- A text as a message shows it. -/
def shown (cs : List Char) : String := String.ofList (Text.quoted cs)

/-- The form that the operands of a load or store have. -/
def expectedForm : Mnemonic → String
  | .lw => "rd, imm(rs1)"
  | _ => "rs2, imm(rs1)"

/-- The text of a fault in the operands of an instruction. -/
def message (mnemonic : Mnemonic) : OperandFault → String
  | memoryForm operands =>
    "invalid format in " ++ mnemonic.name ++ ": expected " ++ expectedForm mnemonic ++ ", got "
      ++ shown operands
  | count got line _ =>
    mnemonic.name ++ " expects " ++ toString mnemonic.operandCount ++ " operands, got "
      ++ toString got ++ ": " ++ shown line
  | notRegister token =>
    "invalid format in " ++ mnemonic.name ++ ": expected register, got " ++ shown token
  | notImmediate token =>
    "invalid format in " ++ mnemonic.name ++ ": expected immediate, got " ++ shown token
  | shiftAmount token =>
    mnemonic.name ++ ": shift amount " ++ shown token ++ " out of range 0..31"
  | undefinedLabel token => "undefined label " ++ shown token
  | labelRange token offset =>
    mnemonic.name ++ ": label " ++ shown token ++ " out of range (offset " ++ toString offset ++ ")"

end OperandFault

namespace Complaint

/-- The instruction that is complained of. -/
def mnemonic? : Complaint → Option Mnemonic
  | operand mnemonic _ => some mnemonic
  | _ => none

/-- The piece of code that is at fault. -/
def token : Complaint → List Char
  | emptyLabelName => [':']
  | duplicateLabel name => name
  | notHexWord code => code
  | operand _ fault => fault.token

/-- The text of a complaint. -/
def message : Complaint → String
  | emptyLabelName => "empty label name"
  | duplicateLabel name => "duplicate label " ++ OperandFault.shown name
  | notHexWord code => "expected a 32-bit hex word, got " ++ OperandFault.shown code
  | operand mnemonic fault => fault.message mnemonic

end Complaint

/-- The text of an error at a line. -/
def LineError.message (error : LineError) : String :=
  "Line " ++ toString error.line ++ ": " ++ error.complaint.message

/-- The complaint about an integer of too many digits, with what is known of their number. -/
def digitLimitMessage (detail : String) : String :=
  "Exceeds the limit (" ++ toString Numeral.decimalLimit ++ " digits) for integer string conversion"
    ++ detail ++ "; use sys.set_int_max_str_digits() to increase the limit"

/-- The text of an error. -/
def AssemblyError.message : AssemblyError → String
  | .line error => error.message
  | .longNumeral digits => digitLimitMessage (": value has " ++ toString digits ++ " digits")
  | .longDistance => digitLimitMessage ""
  | .noInstruction => "not enough values to unpack (expected 2, got 1)"

/-- The error of an operand, at the line and the instruction that it belongs to. -/
def OperandError.at (line : Int) (mnemonic : Mnemonic) : OperandError → AssemblyError
  | .fault found => .line ⟨line, .operand mnemonic found⟩
  | .longNumeral digits => .longNumeral digits
  | .longDistance => .longDistance

end SingleCycle
