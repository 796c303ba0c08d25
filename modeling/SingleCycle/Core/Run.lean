import SingleCycle.Core.Step

/-!
# Runs

A run steps a core until it stops, reaches a breakpoint or has executed as many instructions as it
may. A run need not end, so it takes a bound on the number of its steps; a run that ends is the same
under every larger bound.
-/

namespace SingleCycle

/-- When a run ends other than by a stopping core. -/
structure RunLimits where
  /-- The number of instructions after which it ends; 0 for no such number. -/
  limit : Int
  /-- The addresses at which it ends. -/
  breakpoints : List Int
  deriving Repr, DecidableEq

/-- How a run ends. -/
inductive Ending where
  /-- It is over. -/
  | finished
  /-- A step could not go on. -/
  | fault (fault : Fault)
  /-- The bound on its steps was reached before it was over. -/
  | unfinished
  deriving Repr, DecidableEq

/-- A run as far as it has come. -/
structure Run where
  /-- The core. -/
  core : Core
  /-- The number of instructions that were executed. -/
  executed : Nat
  /-- The lines that were printed. -/
  lines : Array TraceLine
  /-- How the run ended. -/
  ending : Ending

/-- Whether a limit is set and so many instructions reach it. -/
def limitReached (limit : Int) (executed : Nat) : Bool := limit != 0 && limit ≤ executed

/-- Whether a run ends after a step. -/
def RunLimits.stop (limits : RunLimits) (executed : Nat) (c : Core) : Bool :=
  limitReached limits.limit executed || limits.breakpoints.contains c.pc

/-- Appends the line of a step to those before it. -/
def appendLine (lines : Array TraceLine) : Option TraceLine → Array TraceLine
  | some line => lines.push line
  | none => lines

namespace Core

/-- A run that has come some way already, for at most `bound` more steps. -/
def runFrom (limits : RunLimits) (trace : Option Bool) :
    (bound : Nat) → Core → (executed : Nat) → Array TraceLine → Run
  | 0, c, executed, lines => ⟨c, executed, lines, if c.halted then .finished else .unfinished⟩
  | bound + 1, c, executed, lines =>
    if c.halted then ⟨c, executed, lines, .finished⟩
    else
      let s := c.step trace
      let lines := appendLine lines s.line
      match s.result with
      | .error fault => ⟨s.core, executed, lines, .fault fault⟩
      | .ok result =>
        let executed := if result.isSome then executed + 1 else executed
        if limits.stop executed s.core then ⟨s.core, executed, lines, .finished⟩
        else runFrom limits trace bound s.core executed lines

/-- Runs a core for at most `bound` steps. -/
def run (c : Core) (limits : RunLimits) (trace : Option Bool) (bound : Nat) : Run :=
  runFrom limits trace bound c 0 #[]

end Core

end SingleCycle
