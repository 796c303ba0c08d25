import SingleCycle.Isa.Disassembly
import SingleCycle.Isa.Register

/-!
# Traces

What a traced step records: an entry for every write to a register and for every access to data
memory, and one line of text at its end.
-/

namespace SingleCycle

/-- An entry of the log that a traced step keeps. -/
inductive LogEntry where
  /-- A register is written. -/
  | register (r : BitVec 5) (value : Word)
  /-- A word is stored. -/
  | store (address value : Word)
  /-- A word is loaded. -/
  | load (address value : Word)
  deriving Repr, DecidableEq

/-- The text of an entry. -/
def LogEntry.text : LogEntry → String
  | register r value => roleName r ++ "=" ++ hexWord value
  | store address value => hexWord value ++ "->mem[" ++ hexWord address ++ "]"
  | load address value => "mem[" ++ hexWord address ++ "]->" ++ hexWord value

/-- A line that a traced step prints. -/
inductive TraceLine where
  /-- The core stops at an address, on a word or beyond instruction memory. -/
  | halted (pc : Int) (word : Option Word)
  /-- The core has executed an instruction, in a cycle counted from 0. -/
  | executed (pc : Int) (instruction : Instruction) (cycle : Int) (log : List LogEntry)
  deriving Repr, DecidableEq

/-- An address in eight hexadecimal digits. -/
def addressText (address : Int) : String := String.ofList (Numeral.signedHex 8 address)

/-- The text of a line. -/
def TraceLine.text : TraceLine → String
  | halted pc none => addressText pc ++ ": HALT"
  | halted pc (some word) => addressText pc ++ ": HALT (" ++ hexWord word ++ ")"
  | executed pc instruction cycle log =>
    addressText pc ++ ": " ++ padTo 30 instruction.text ++ " # [" ++ toString cycle ++ "] "
      ++ " ".intercalate (log.map LogEntry.text)

end SingleCycle
