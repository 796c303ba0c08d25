import SingleCycle.Core.Edit
import SingleCycle.Core.Watch
import SingleCycle.Simulator.Session

/-!
# Calls

Everything that a core can be asked, each time with the two choices about tracing that go with it: a
setting of the core, and what the call says itself.
-/

namespace SingleCycle

namespace Simulator

/-- The number of pauses in what is put out. -/
def pausesIn (output : List Output) : Nat := output.count .pause

/-- The number of pauses in a session. -/
def Session.pauses (session : Session) : Nat := pausesIn session.output.toList

end Simulator

/-- What can be asked of a core from outside, with everything that it is given, the choices apart
that are made about tracing. An observer has notes of its own and cannot reach the core. -/
inductive Call (σ : Type) where
  /-- Edits the core. -/
  | edit (edit : Edit)
  /-- Executes one instruction. -/
  | step
  /-- Executes one instruction under the eyes of an observer with the given notes. -/
  | watch (watch : Watch σ) (notes : σ)
  /-- Runs the core for at most `bound` steps. -/
  | run (limits : RunLimits) (bound : Nat)
  /-- Runs the core for at most `bound` steps, showing every phase. -/
  | pacedRun (pausing : Bool) (limit : Int) (bound : Nat)
  /-- Runs the core, showing every phase, with pauses that the clock refuses. -/
  | refusedRun (refusal : Refusal) (limit : Int)

/-- What is answered to a call, or why it is refused. What is printed is no part of it. -/
inductive Reply (σ : Type) where
  /-- An edit came to this. -/
  | edited (reply : Edit.Reply)
  /-- A step came to this. -/
  | stepped (result : Except Fault (Option Written))
  /-- A step came to this, after so many pauses, and its observer has these notes. -/
  | watched (notes : σ) (pauses : Nat) (result : Except Fault (Option Written))
  /-- A run executed so many instructions, and ended like this. -/
  | ran (executed : Nat) (ending : Ending)
  /-- A paced run executed so many instructions, and ended like this after so many pauses. -/
  | paced (executed : Nat) (ending : Ending) (pauses : Nat)

/-- A call, and the choices that are made about tracing. -/
structure Use (σ : Type) where
  /-- The call. -/
  call : Call σ
  /-- What the core is set to before the call. -/
  setting : Bool
  /-- What the call says itself. -/
  trace : Option Bool

/-- Sets the core, and carries out a call. -/
def Use.answer {σ : Type} (use : Use σ) (c : Core) : Core × Reply σ :=
  let c := { c with tracing := use.setting }
  match use.call with
  | .edit e =>
    let edited := c.edit e
    (edited.core, .edited edited.reply)
  | .step =>
    let step := c.step use.trace
    (step.core, .stepped step.result)
  | .watch watch notes =>
    let watched := c.watch watch use.trace notes
    (watched.core, .watched watched.notes watched.pauses watched.result)
  | .run limits bound =>
    let run := c.run limits use.trace bound
    (run.core, .ran run.executed run.ending)
  | .pacedRun pausing limit bound =>
    let session := Simulator.pacedRun c ⟨pausing, use.trace⟩ limit bound
    (session.core, .paced session.executed session.ending session.pauses)
  | .refusedRun refusal limit =>
    let session := Simulator.refusedRun c refusal use.trace limit
    (session.core, .paced session.executed session.ending session.pauses)

/-- The core after calls one after the other, and what is answered to them. -/
def Core.answerAll {σ : Type} (c : Core) : List (Use σ) → Core × List (Reply σ)
  | [] => (c, [])
  | use :: uses =>
    let answered := use.answer c
    let later := answered.1.answerAll uses
    (later.1, answered.2 :: later.2)

end SingleCycle
