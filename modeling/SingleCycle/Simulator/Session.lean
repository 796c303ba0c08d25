import SingleCycle.Simulator.Stage
import SingleCycle.Core.Attempt
import SingleCycle.Core.Run

/-!
# Sessions at the console

A paced run shows every phase of every instruction and pauses after each. In an interactive session
keys decide how far the core goes. The number of instructions that a session may execute counts over
the whole session. If the clock refuses to pause, the first step that is taken is given up behind its
first phase, and the session with it.
-/

namespace SingleCycle.Simulator

/-- What a session puts out. -/
inductive Output where
  /-- A line of text. -/
  | line (text : String)
  /-- A pause. -/
  | pause
  deriving Repr, DecidableEq

/-- How a session executes instructions, if its pauses are not refused. -/
structure Pace where
  /-- Whether it pauses after each phase. -/
  pausing : Bool
  /-- Whether steps are traced; if it does not say so, the core is asked. -/
  trace : Option Bool
  deriving Repr, DecidableEq

/-- The pace of pauses of some length. -/
def Pace.ofDelay (clock : Clock) (delay : Decimal) (trace : Option Bool) : Except Refusal Pace :=
  match clock.refusal? delay with
  | some refusal => .error refusal
  | none => .ok ⟨!delay.isZero, trace⟩

/-- A session as far as it has come. -/
structure Session where
  /-- The core. -/
  core : Core
  /-- The number of instructions that were executed. -/
  executed : Nat
  /-- What was put out. -/
  output : Array Output
  /-- How the session ended. -/
  ending : Ending

/-- What an event puts out. -/
def Pace.outputs (pace : Pace) : Event → List Output
  | .line line => [.line line.text]
  | .phase progress => .line progress.line :: if pace.pausing then [.pause] else []

/-- A paced run that has come some way already, for at most `bound` more steps. -/
def pacedFrom (pace : Pace) (limit : Int) :
    (bound : Nat) → Core → (executed : Nat) → Array Output → Session
  | 0, c, executed, output =>
    ⟨c, executed, output,
      if c.halted || limitReached limit executed then .finished else .unfinished⟩
  | bound + 1, c, executed, output =>
    if c.halted || limitReached limit executed then ⟨c, executed, output, .finished⟩
    else
      let drained := c.drain (.fresh pace.trace)
      let output := output.appendList (drained.events.flatMap pace.outputs)
      match drained.result with
      | .error fault => ⟨drained.core, executed, output, .fault fault⟩
      | .ok result =>
        pacedFrom pace limit bound drained.core
          (if result.isSome then executed + 1 else executed) output

/-- Runs a core for at most `bound` steps, showing every phase. -/
def pacedRun (c : Core) (pace : Pace) (limit : Int) (bound : Nat) : Session :=
  pacedFrom pace limit bound c 0 #[]

/-- A paced run whose pauses are refused. -/
def refusedRun (c : Core) (refusal : Refusal) (trace : Option Bool) (limit : Int) : Session :=
  if c.halted || limitReached limit 0 then ⟨c, 0, #[], .finished⟩
  else
    let resumed := (Attempt.fresh trace).resume c
    let printed := resumed.line.toList.map fun line => Output.line line.text
    match resumed.outcome with
    | .fault fault => ⟨resumed.core, 0, printed.toArray, .fault fault⟩
    | .done _ => ⟨resumed.core, 0, printed.toArray, .finished⟩
    | .phase progress =>
      ⟨resumed.core, 0, (printed ++ [Output.line progress.line]).toArray, .fault (.pause refusal)⟩

/-- What a key asks for. -/
inductive Key where
  /-- One step. -/
  | step
  /-- A run. -/
  | run
  /-- The end of the session. -/
  | quit
  /-- Nothing. -/
  | other
  deriving Repr, DecidableEq

/-- The meaning of a key. The texts are those by which the terminal of a Unix system reports the
space bar, the two ways to press enter and the letters; how a key is read is no part of this. -/
def Key.ofText (text : String) : Key :=
  if text = " " || text = "\n" || text = "\r" then step
  else if text = "r" then run
  else if text = "q" then quit
  else other

/-- A session, and the number of keys that it has read. -/
structure Interaction where
  /-- The session. -/
  session : Session
  /-- The number of keys. -/
  keysUsed : Nat

/-- The first line of a session. -/
def banner : String := "<<<--- space/enter: step   r: run   q: quit --->>>"

/-- The number of instructions that a limit leaves; 0 if there is no limit. -/
def left (limit : Int) (executed : Nat) : Int := if limit = 0 then 0 else limit - executed

/-- Puts what happened on a key behind what happened before. -/
def Session.followedBy (before after : Session) : Session :=
  ⟨after.core, before.executed + after.executed, before.output ++ after.output, after.ending⟩

@[simp]
theorem Session.executed_followedBy (before after : Session) :
    (before.followedBy after).executed = before.executed + after.executed := rfl

/-- What a run puts out as part of a session. -/
def ofRun (run : Run) : Session :=
  ⟨run.core, run.executed, run.lines.map fun line => .line line.text, run.ending⟩

@[simp]
theorem executed_ofRun (run : Run) : (ofRun run).executed = run.executed := rfl

/-- Carries out what a key asks for. -/
def press (pace : Pace) (limit : Int) (bound : Nat) (session : Session) : Key → Session
  | .step => session.followedBy (pacedRun session.core pace 1 bound)
  | .run =>
    let left := left limit session.executed
    session.followedBy
      (if pace.pausing then pacedRun session.core pace left bound
      else ofRun (session.core.run ⟨left, []⟩ pace.trace bound))
  | .quit => session
  | .other => session

/-- Carries out what a key asks for, if pauses are refused. -/
def pressRefused (refusal : Refusal) (trace : Option Bool) (limit : Int) (session : Session) :
    Key → Session
  | .step => session.followedBy (refusedRun session.core refusal trace 1)
  | .run =>
    session.followedBy (refusedRun session.core refusal trace (left limit session.executed))
  | .quit => session
  | .other => session

/-- Whether a session reads another key. -/
def wantsKey (limit : Int) (session : Session) : Bool :=
  session.ending = .finished && !session.core.halted && !limitReached limit session.executed

/-- Follows keys, each of which does to a session what `press` says. When the keys are used up, the
session ends as if the next one asked for that. -/
def followKeys (press : Session → Key → Session) (limit : Int) :
    List Key → Session → Nat → Interaction
  | [], session, used => ⟨session, used⟩
  | key :: keys, session, used =>
    if wantsKey limit session then
      if key = .quit then ⟨session, used + 1⟩
      else followKeys press limit keys (press session key) (used + 1)
    else ⟨session, used⟩

/-- A session before the first key. -/
def opened (c : Core) : Session := ⟨c, 0, #[.line banner], .finished⟩

/-- An interactive session. Each run that a key asks for has at most `bound` steps. -/
def interact (c : Core) (pace : Pace) (limit : Int) (keys : List Key) (bound : Nat) :
    Interaction :=
  followKeys (press pace limit bound) limit keys (opened c) 0

/-- An interactive session whose pauses are refused. -/
def refusedInteract (c : Core) (refusal : Refusal) (trace : Option Bool) (limit : Int)
    (keys : List Key) : Interaction :=
  followKeys (pressRefused refusal trace limit) limit keys (opened c) 0

end SingleCycle.Simulator
