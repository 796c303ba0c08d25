import SingleCycle.Program.Image
import SingleCycle.Program.Text
import SingleCycle.Text.Utf8

/-!
# Program files

A file whose name ends in `.bin` is an image. Every other file is a program text in UTF-8.
-/

namespace SingleCycle

/-- Why a program cannot be read. -/
inductive ReadError where
  /-- The program text is wrong. -/
  | assembly (error : AssemblyError)
  /-- The file is no text. -/
  | encoding (fault : Utf8.Fault)
  deriving Repr, DecidableEq

/-- The text of an error. -/
def ReadError.message : ReadError → String
  | assembly error => error.message
  | encoding fault => fault.message

/-- What reading a program comes to. -/
structure Reading where
  /-- The lines that were skipped. -/
  skipped : List Row
  /-- The words of the program. -/
  words : Except ReadError (List Word)

namespace Reading

/-- The program in an image. -/
def ofImage (bytes : List UInt8) : Reading := ⟨[], .ok (Image.words bytes)⟩

/-- The program in a text. -/
def ofText (source : List Char) : Reading :=
  let text := ProgramText.read source
  ⟨text.skipped, text.words.mapError .assembly⟩

/-- Whether a file of that name holds an image. -/
def isImageName (name : String) : Bool := ".bin".toList.isSuffixOf name.toList

/-- The program in a file. -/
def ofFile (name : String) (bytes : List UInt8) : Reading :=
  if isImageName name then ofImage bytes
  else match Utf8.decode bytes with
    | .ok source => ofText source
    | .error fault => ⟨[], .error (.encoding fault)⟩

end Reading

end SingleCycle
