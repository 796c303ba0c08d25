import SingleCycle.Core.Trace
import SingleCycle.Log
import SingleCycle.Program.Source

/-!
# The disassembler as a command

Lists the instructions of a program, one a line, with their addresses and words.
-/

namespace SingleCycle.Disassembler

/-- What a command leaves behind. -/
structure Report where
  /-- The exit status. -/
  status : Nat
  /-- The lines that were put out. -/
  output : List String
  /-- The lines for the log. -/
  log : List String

/-- The last part of a path that names something: not the empty part in front of a slash, and not
the dot for the place itself. -/
def baseName (path : String) : String :=
  let parts := Text.pieces (· = '/') path.toList
  match (parts.filter fun part => !part.isEmpty && part != ['.']).getLast? with
  | some part => String.ofList part
  | none => ""

/-- The line that tells how the command is used. -/
def usage (path : String) : String :=
  "usage " ++ baseName path ++ " (file.bin | file.hex | file.s | hex [hex ...])"

/-- The line of an instruction. -/
def line (address : Int) (instruction : Instruction) : String :=
  addressText address ++ ": " ++ hexWord instruction.data ++ "  " ++ padTo 30 instruction.text
    ++ (if instruction.valid then "" else " # INVALID")

/-- Carries out a command line, of a command at a path. -/
def run (path : String) (files : Files) (args : List String) : Report :=
  if args.isEmpty then ⟨1, [usage path], []⟩
  else
    let source := Source.ofArguments files (args.map .text)
    let log := (LogRecord.ofRows source.skipped).map LogRecord.message
    match source.instructions 0 with
    | .error error => ⟨1, ["error: " ++ error.message], log⟩
    | .ok instructions =>
      ⟨0, instructions.map fun (address, instruction) => line address instruction, log⟩

end SingleCycle.Disassembler
