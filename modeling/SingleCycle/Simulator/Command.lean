import SingleCycle.Simulator.Options
import SingleCycle.Simulator.Session
import SingleCycle.Core.Load
import SingleCycle.Core.View
import SingleCycle.Program.Source

/-!
# The simulator as a command

Loads the program that the command line names, executes it as the options say, and shows the state
of the core at the end.
-/

namespace SingleCycle.Simulator

/-- What a command leaves behind. -/
structure Report where
  /-- The exit status. -/
  status : Nat
  /-- What was put out. -/
  output : Array Output
  /-- The lines for the log. -/
  log : List String
  /-- The number of keys that were read. -/
  keysUsed : Nat
  /-- Whether a bound on the number of steps cut the command short. -/
  unfinished : Bool

/-- The exit status of a command line that makes no sense. -/
def usageStatus : Nat := 2

/-- The exit status of a program that cannot be loaded, and of an execution that cannot go on. -/
def failureStatus : Nat := 1

/-- The report of a command that has done nothing. -/
def Report.ofStatus (status : Nat) : Report := ⟨status, #[], [], 0, false⟩

/-- The log records that are shown: all of them, or the warnings alone. -/
def shownLog (verbose : Bool) (log : List LogRecord) : List String :=
  (log.filter fun record => verbose || record.isWarning).map LogRecord.line

/-- The line that tells that a program was loaded. -/
def loadedLine (name : String) (words : Nat) : String :=
  "<<<--- " ++ name ++ ": " ++ toString words ++ " instruction words loaded --->>>"

/-- Executes a loaded program as the options say. -/
def execute (c : Core) (clock : Clock) (options : Options) (keys : List Key) (bound : Nat) :
    Interaction :=
  match Pace.ofDelay clock options.delay none with
  | .error refusal =>
    if options.interactive then refusedInteract c refusal none options.limit keys
    else ⟨refusedRun c refusal none options.limit, 0⟩
  | .ok pace =>
    if options.interactive then interact c pace options.limit keys bound
    else if pace.pausing then ⟨pacedRun c pace options.limit bound, 0⟩
    else ⟨ofRun (c.run ⟨options.limit, []⟩ none bound), 0⟩

/-- The lines that show a core. -/
def shown (c : Core) : Array Output := (c.lines.map Output.line).toArray

/-- Simulates the program in a file. An execution that cannot go on shows no core: what stopped it
is the last line of the log. -/
def simulateFile (name : String) (bytes : List UInt8) (clock : Clock) (options : Options)
    (keys : List Key) (bound : Nat) : Report :=
  let loading := (Core.fresh options.trace).loadFile name bytes
  let log := shownLog options.verbose loading.log
  match loading.result with
  | .error error =>
    ⟨failureStatus, #[.line ("error: " ++ error.message)], log, 0, false⟩
  | .ok words =>
    let interaction := execute loading.core clock options keys bound
    let session := interaction.session
    let output := #[.line (loadedLine name words)] ++ session.output
    match session.ending with
    | .fault fault =>
      ⟨failureStatus, output, log ++ [fault.message], interaction.keysUsed, false⟩
    | ending =>
      ⟨0, output ++ shown session.core, log, interaction.keysUsed, ending == .unfinished⟩

/-- Carries out a command line, with the keys that are pressed meanwhile. Each run has at most
`bound` steps. -/
def simulate (files : Files) (args : List String) (clock : Clock) (keys : List Key) (bound : Nat) :
    Report :=
  match Options.read args with
  | .error .help => Report.ofStatus 0
  | .error .bad => Report.ofStatus usageStatus
  | .ok options =>
    match options.program with
    | none => Report.ofStatus usageStatus
    | some name =>
      match files name with
      | none => Report.ofStatus usageStatus
      | some bytes => simulateFile name bytes clock options keys bound

end SingleCycle.Simulator
