import SingleCycle.Core.Load

/-!
# Edits

What is done to a core apart from executing instructions: a program is loaded, the core is taken
back to its start, a register or a data word is written, or a data word is read.
-/

namespace SingleCycle

/-- A program that can be handed to a core. -/
inductive Loadable where
  /-- Words, given as integers. -/
  | words (values : List Int)
  /-- The bytes of an image. -/
  | image (bytes : List UInt8)
  /-- A text. -/
  | text (source : List Char)
  deriving Repr, DecidableEq

/-- What reading a program comes to. -/
def Loadable.reading : Loadable → Reading
  | words values => ⟨[], .ok (values.map wordOf)⟩
  | image bytes => .ofImage bytes
  | text source => .ofText source

/-- What can be asked of a core apart from executing instructions. -/
inductive Edit where
  /-- Loads a program. -/
  | load (program : Loadable)
  /-- Loads a program file. -/
  | loadFile (name : String) (bytes : List UInt8)
  /-- Takes the core back to its start. -/
  | reset
  /-- Writes the register with an index. -/
  | setRegister (index value : Int)
  /-- Stores a word. -/
  | store (address value : Int)
  /-- Reads a data word. -/
  | read (address : Int)
  deriving Repr, DecidableEq

/-- What is answered to an edit, or why it is refused. -/
inductive Edit.Reply where
  /-- It is done. -/
  | done
  /-- A load reported this, and came to this. -/
  | loaded (log : List LogRecord) (result : Except LoadError Nat)
  /-- A register was to be written. -/
  | registerSet (result : Except RegisterError Unit)
  /-- A data word. -/
  | value (word : Word)

/-- A core after an edit, and the reply. -/
structure Edited where
  /-- The core. -/
  core : Core
  /-- The reply. -/
  reply : Edit.Reply

namespace Edit

/-- What reading the program comes to that an edit loads. -/
def reading? : Edit → Option Reading
  | load program => some program.reading
  | loadFile name bytes => some (.ofFile name bytes)
  | _ => none

/-- The words that an edit has loaded, if its reply reports success. -/
def words? (e : Edit) : Reply → Option (List Word)
  | .loaded _ (.ok _) => e.reading?.bind fun reading => reading.words.toOption
  | _ => none

end Edit

namespace Core

/-- Loads a program of any form. -/
def loadProgram (c : Core) : Loadable → Loading
  | .words values => c.loadList (values.map wordOf)
  | .image bytes => c.loadImage bytes
  | .text source => c.loadText source

/-- Carries out an edit. One that is refused leaves the core as it is. -/
def edit (c : Core) : Edit → Edited
  | .load program =>
    let loading := c.loadProgram program
    ⟨loading.core, .loaded loading.log loading.result⟩
  | .loadFile name bytes =>
    let loading := c.loadFile name bytes
    ⟨loading.core, .loaded loading.log loading.result⟩
  | .reset => ⟨c.reset, .done⟩
  | .setRegister index value =>
    match c.setRegisterAt index value with
    | .ok written => ⟨written, .registerSet (.ok ())⟩
    | .error error => ⟨c, .registerSet (.error error)⟩
  | .store address value => ⟨c.store (wordOf address) (wordOf value), .done⟩
  | .read address =>
    let (loaded, word) := c.load (wordOf address)
    ⟨loaded, .value word⟩

end Core

end SingleCycle
