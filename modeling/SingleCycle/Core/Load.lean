import SingleCycle.Core.State
import SingleCycle.Log
import SingleCycle.Program.File

/-!
# Loading programs

A program replaces all of instruction memory and resets the core. A program that cannot be read, or
that does not fit, leaves the core as it is.
-/

namespace SingleCycle

/-- Why a program is not loaded. -/
inductive LoadError where
  /-- It cannot be read. -/
  | read (error : ReadError)
  /-- It does not fit into instruction memory. -/
  | tooLong (words : Nat)
  deriving Repr, DecidableEq

/-- The text of an error. -/
def LoadError.message : LoadError → String
  | read error => error.message
  | tooLong words =>
    "program has " ++ toString words ++ " words, instruction memory holds "
      ++ toString programSize

/-- What loading a program comes to. -/
structure Loading where
  /-- The core, with the program or as it was. -/
  core : Core
  /-- What was reported. -/
  log : List LogRecord
  /-- The number of words of the program. -/
  result : Except LoadError Nat

namespace Core

/-- Instruction memory that begins with the given words. -/
def programOf (words : List Word) : Vector Word 256 := Vector.ofFn fun i => words.getD i.val 0

/-- Loads words. -/
def loadWords (c : Core) (words : List Word) : Except LoadError Core :=
  if programSize < words.length then .error (.tooLong words.length)
  else .ok { c.reset with program := programOf words }

/-- Loads a program that was read. -/
def loadReading (c : Core) (reading : Reading) : Loading :=
  let skipped := LogRecord.ofRows reading.skipped
  match reading.words with
  | .error error => ⟨c, skipped, .error (.read error)⟩
  | .ok words =>
    match c.loadWords words with
    | .error error => ⟨c, skipped, .error error⟩
    | .ok loaded => ⟨loaded, skipped ++ [.loaded words.length], .ok words.length⟩

/-- Loads words, and reports it. -/
def loadList (c : Core) (words : List Word) : Loading := c.loadReading ⟨[], .ok words⟩

/-- Loads an image. -/
def loadImage (c : Core) (bytes : List UInt8) : Loading := c.loadReading (.ofImage bytes)

/-- Loads a program text. -/
def loadText (c : Core) (source : List Char) : Loading := c.loadReading (.ofText source)

/-- Loads a program file. -/
def loadFile (c : Core) (name : String) (bytes : List UInt8) : Loading :=
  if Reading.isImageName name then c.loadImage bytes
  else match Utf8.decode bytes with
    | .ok source => c.loadText source
    | .error fault => ⟨c, [], .error (.read (.encoding fault))⟩

end Core

end SingleCycle
