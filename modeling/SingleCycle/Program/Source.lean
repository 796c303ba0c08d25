import SingleCycle.Isa.Disassembly
import SingleCycle.Program.File
import SingleCycle.Text.Integer

/-!
# Programs to disassemble

A program is named by a file or written out as words, each an integer or the text of one in base
sixteen. A single text is a file if there is one of that name. The words stand at consecutive
addresses, and the instructions end in front of the first null word.
-/

namespace SingleCycle

/-- An argument that stands for a word or for a file. -/
inductive Argument where
  /-- A text. -/
  | text (text : String)
  /-- An integer. -/
  | number (n : Int)
  deriving Repr, DecidableEq

/-- The files that there are, by name. -/
abbrev Files := String → Option (List UInt8)

/-- Why arguments are no program. -/
inductive SourceError where
  /-- The file cannot be read. -/
  | file (error : ReadError)
  /-- The text is no integer in base sixteen. -/
  | literal (text : String)
  deriving Repr, DecidableEq

/-- The number of characters of a quoted text that a message shows. -/
def literalShown : Nat := 200

/-- The text of an error. -/
def SourceError.message : SourceError → String
  | file error => error.message
  | literal text =>
    "invalid literal for int() with base 16: "
      ++ String.ofList ((Text.quoted text.toList).take literalShown)

/-- What arguments come to. -/
structure Source where
  /-- The lines that were skipped. -/
  skipped : List Row
  /-- The words of the program. -/
  words : Except SourceError (List Word)

/-- The word that an argument writes. -/
def Argument.word : Argument → Except SourceError Word
  | number n => .ok (wordOf n)
  | text s =>
    match Integer.ofHex? s.toList with
    | some n => .ok (wordOf n)
    | none => .error (.literal s)

namespace Source

/-- The program that is written out. -/
def ofLiterals (args : List Argument) : Source := ⟨[], args.mapM Argument.word⟩

/-- The program of a file. -/
def ofReading (reading : Reading) : Source := ⟨reading.skipped, reading.words.mapError .file⟩

/-- The program that arguments stand for. -/
def ofArguments (files : Files) (args : List Argument) : Source :=
  match args with
  | [.text name] =>
    match files name with
    | some bytes => ofReading (.ofFile name bytes)
    | none => ofLiterals args
  | _ => ofLiterals args

/-- Words at consecutive addresses. -/
def addressed (base : Int) (words : List Word) : List (Int × Word) :=
  words.zipIdx.map fun (word, index) => (base + 4 * (index : Int), word)

/-- The words of a program with their addresses. -/
def split (source : Source) (base : Int) : Except SourceError (List (Int × Word)) :=
  source.words.map (addressed base)

/-- The instructions of a program with their addresses. -/
def instructions (source : Source) (base : Int) :
    Except SourceError (List (Int × Instruction)) :=
  (source.split base).map fun words =>
    (words.takeWhile fun (_, word) => word != 0).map fun (address, word) => (address, ⟨word⟩)

end Source

end SingleCycle
