import SingleCycle.Simulator.Command
import SingleCycle.Disassembler.Command

/-!
# The program

The first argument chooses the command: `simulate` executes a program file, `disassemble` lists its
instructions. All that happens here is input and output.
-/

namespace SingleCycle

-- Powers of numbers are those of the core library, whatever else a reader of this imports.
attribute [local instance (20000)] instPowNat

/-- More steps than any run takes in practice. -/
def stepBound : Nat := 2 ^ (62 : Nat)

/-- The bytes of a file, if it can be read. -/
def readFile? (name : String) : IO (Option (List UInt8)) := do
  try
    let bytes ← IO.FS.readBinFile name
    return some bytes.toList
  catch _ =>
    return none

/-- The files among the given names. -/
def readFiles (names : List String) : IO Files := do
  let found ← names.filterMapM fun name => do
    return (← readFile? name).map fun bytes => (name, bytes)
  return fun name => found.lookup name

/-- The keys that wait on standard input, each a character. -/
partial def readKeys (input : IO.FS.Stream) : IO (List Simulator.Key) := do
  let line ← input.getLine
  if line.isEmpty then
    return []
  else
    let keys := line.toList.map fun c => Simulator.Key.ofText (String.singleton c)
    return keys ++ (← readKeys input)

/-- Puts out what a session has to say, and waits where it pauses. -/
def emit (pause : Nat) : Simulator.Output → IO Unit
  | .line text => IO.println text
  | .pause => IO.sleep (UInt32.ofNat pause)

/-- The options of a command line; those of an empty one if it makes no sense. -/
def optionsOf (args : List String) : Simulator.Options :=
  match Simulator.Options.read args with
  | .ok options => options
  | .error _ => .default

/-- Simulates a program. -/
def runSimulator (args : List String) : IO UInt32 := do
  let options := optionsOf args
  let files ← readFiles options.program.toList
  let keys ← if options.interactive then readKeys (← IO.getStdin) else pure []
  let report := Simulator.simulate files args .system keys stepBound
  report.log.forM IO.eprintln
  report.output.forM (emit options.delay.thousandths)
  return UInt32.ofNat report.status

/-- Disassembles a program. -/
def runDisassembler (args : List String) : IO UInt32 := do
  let files ← readFiles args
  let report := Disassembler.run "disassemble" files args
  report.log.forM IO.eprintln
  report.output.forM IO.println
  return UInt32.ofNat report.status

/-- Chooses the command. -/
def dispatch : List String → IO UInt32
  | "simulate" :: args => runSimulator args
  | "disassemble" :: args => runDisassembler args
  | _ => do
    IO.eprintln "usage: (simulate | disassemble) argument ..."
    return 2

end SingleCycle

/-- Carries out a command line. -/
def main (args : List String) : IO UInt32 := SingleCycle.dispatch args
