import SingleCycle.Assembly.HexProgram

/-!
# Program texts

A program text is read as hexadecimal words or as assembly, whichever its first line with code
shows it to be.
-/

namespace SingleCycle

/-- What reading a program text comes to. -/
structure ProgramText where
  /-- The lines that were skipped. -/
  skipped : List Row
  /-- The words of the program. -/
  words : Except AssemblyError (List Word)

/-- Reads a program text. -/
def ProgramText.read (source : List Char) : ProgramText :=
  if HexProgram.recognizes source then
    match HexProgram.words source with
    | .ok words => ⟨[], .ok words⟩
    | .error error => ⟨[], .error (.line error)⟩
  else
    let assembly := Assembly.ofText source
    ⟨assembly.skipped, assembly.words⟩

end SingleCycle
