import SingleCycle.Assembly.Statement

/-!
# Assembly programs

A program text is assembled in two passes. The first binds the labels, the second turns each
instruction line into a row, at an address four bytes after the row before it. A line whose
mnemonic is not known is skipped, with a row that has no word. The first line that is wrong ends
the assembly; the rows above it stay.
-/

namespace SingleCycle

/-- What an instruction line comes to. -/
structure Row where
  /-- The number of the line. -/
  line : Nat
  /-- The address of the instruction. -/
  address : Nat
  /-- The word of the instruction, unless the line is skipped. -/
  word : Option Word
  /-- The code part of the line. -/
  code : List Char
  deriving Repr, DecidableEq

/-- The rows of a program text, as far as they go, and the error that ends them, if any. -/
structure Assembly where
  /-- The rows. -/
  rows : List Row
  /-- The error. -/
  failure : Option AssemblyError
  deriving Repr, DecidableEq

/-- The word of an instruction line at an address, unless its mnemonic is not known. Mnemonics may
be written in capitals. -/
def assembleLine (labels : LabelTable) (address line : Int) (code : List Char) :
    Except AssemblyError (Option Word) :=
  let (word, operands) := Text.splitWord code
  if word.isEmpty then .error .noInstruction
  else match Mnemonic.ofName? (word.map Char.toLower) with
    | none => .ok none
    | some mnemonic =>
      match Statement.parse mnemonic code operands >>= Statement.encode labels address with
      | .ok encoded => .ok (some encoded)
      | .error error => .error (error.at line mnemonic)

namespace Assembly

/-- The rows of the lines from an address on. A line that is skipped takes its four bytes all the
same, as it did when the labels were bound. -/
def rowsFrom (labels : LabelTable) (address : Nat) : List (Nat × SourceLine) → Assembly
  | [] => ⟨[], none⟩
  | (_, .blank) :: lines => rowsFrom labels address lines
  | (_, .label _) :: lines => rowsFrom labels address lines
  | (number, .instruction code) :: lines =>
    match assembleLine labels address number code with
    | .error error => ⟨[], some error⟩
    | .ok word =>
      let later := rowsFrom labels (address + 4) lines
      ⟨⟨number, address, word, code⟩ :: later.rows, later.failure⟩

/-- The assembly of numbered lines. -/
def ofLines (lines : List (Nat × SourceLine)) : Assembly :=
  match LabelTable.ofLines lines with
  | .error error => ⟨[], some (.line error)⟩
  | .ok labels => rowsFrom labels 0 lines

/-- The assembly of a program text. -/
def ofText (source : List Char) : Assembly := ofLines (sourceLines (Text.lines source))

/-- What an assembly gives, unless it fails. -/
def result {α : Type} (assembly : Assembly) (value : α) : Except AssemblyError α :=
  match assembly.failure with
  | some error => .error error
  | none => .ok value

/-- The words of the program. -/
def words (assembly : Assembly) : Except AssemblyError (List Word) :=
  assembly.result (assembly.rows.filterMap Row.word)

/-- The address, word and code of each line that gives a word. -/
def listing (assembly : Assembly) : Except AssemblyError (List (Nat × Word × List Char)) :=
  assembly.result (assembly.rows.filterMap fun row => row.word.map (row.address, ·, row.code))

/-- The rows of the lines that are skipped. -/
def skipped (assembly : Assembly) : List Row := assembly.rows.filter (·.word.isNone)

end Assembly

/-- The warning that a line is skipped. -/
def Row.warning (row : Row) : String :=
  "line " ++ toString row.line ++ ": unknown instruction " ++ OperandFault.shown row.code

end SingleCycle
