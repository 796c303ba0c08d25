import SingleCycle.Assembly.Program

/-!
# Log records

What the assembler and the loader report besides their results.
-/

namespace SingleCycle

/-- A log record. -/
inductive LogRecord where
  /-- The assembler has skipped a line. -/
  | skipped (line : Int) (code : List Char)
  /-- The core has loaded a program. -/
  | loaded (words : Nat)
  deriving Repr, DecidableEq

namespace LogRecord

/-- Whether a record warns, and does not only inform. -/
def isWarning : LogRecord → Bool
  | skipped _ _ => true
  | loaded _ => false

/-- The text of a record. -/
def message : LogRecord → String
  | skipped line code =>
    "line " ++ toString line ++ ": unknown instruction " ++ OperandFault.shown code ++ " skipped"
  | loaded words => "loaded " ++ toString words ++ " instruction words"

/-- The text of a record behind its level and the part of the program that it comes from. -/
def line (record : LogRecord) : String :=
  match record with
  | skipped _ _ => "WARNING rvdatapath.asm: " ++ record.message
  | loaded _ => "INFO rvdatapath.sim: " ++ record.message

/-- The records of assembling a line. -/
def ofLine (line : Int) (code : List Char) : Except AssemblyError (Option Word) → List LogRecord
  | .ok none => [.skipped line code]
  | _ => []

/-- The records of skipped lines. -/
def ofRows (rows : List Row) : List LogRecord :=
  rows.map fun row => .skipped row.line row.code

end LogRecord

end SingleCycle
