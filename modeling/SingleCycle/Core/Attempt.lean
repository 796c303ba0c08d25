import SingleCycle.Core.Step

/-!
# Steps in phases

An attempt is a step that stops after each phase and can be resumed. Between two phases anything
may happen to the core, and the attempt may be given up: it keeps what it has found so far, and
works on whatever core it is resumed with. `Core.drain` resumes an attempt to its end.
-/

namespace SingleCycle

/-- A step that waits to be resumed, and whether it is traced. -/
inductive Attempt where
  /-- Nothing has been done yet. -/
  | fresh (trace : Option Bool)
  /-- The fetch has stopped the core. -/
  | halting
  /-- A word was fetched. -/
  | fetched (trace : Bool) (f : Fetched)
  /-- An instruction was decoded. -/
  | decoded (trace : Bool) (d : Decoded)
  /-- The arithmetic is done. -/
  | executed (trace : Bool) (e : Executed)
  /-- Data memory was accessed. -/
  | accessed (trace : Bool) (a : Accessed)
  /-- The result was written back. -/
  | written (trace : Bool) (w : Written)
  /-- The step is over. -/
  | finished
  deriving Repr, DecidableEq

/-- What comes of resuming an attempt. -/
inductive Outcome where
  /-- A phase is over. -/
  | phase (progress : Progress)
  /-- The step is over. -/
  | done (result : Option Written)
  /-- The step cannot go on. -/
  | fault (fault : Fault)
  deriving Repr, DecidableEq

/-- A core and an attempt on it after the attempt was resumed. -/
structure Resumption where
  /-- The core. -/
  core : Core
  /-- The attempt. -/
  attempt : Attempt
  /-- The line that was printed. -/
  line : Option TraceLine
  /-- What the attempt has come to. -/
  outcome : Outcome

namespace Attempt

/-- The first phase. -/
def start (c : Core) (trace : Option Bool) : Resumption :=
  if c.halted then ⟨c, .finished, none, .done none⟩
  else
    let traced := c.traces trace
    let c := c.beginLog traced
    match c.fetch with
    | .error fault => ⟨c, .finished, none, .fault fault⟩
    | .ok (.halt word) =>
      ⟨{ c with halted := true }, .halting, c.haltLine traced word, .phase (.fetched c.pc word)⟩
    | .ok (.execute word) =>
      ⟨c, .fetched traced ⟨c.pc, word⟩, none, .phase (.fetched c.pc (some word))⟩

/-- Resumes an attempt up to the end of its next phase. -/
def resume (c : Core) : Attempt → Resumption
  | fresh trace => start c trace
  | halting => ⟨c, .finished, none, .done none⟩
  | fetched trace f =>
    let (c, decoding) := c.decode f
    match decoding with
    | .error fault => ⟨c, .finished, none, .fault fault⟩
    | .ok d => ⟨c, .decoded trace d, none, .phase (.decoded d)⟩
  | decoded trace d => ⟨c, .executed trace d.execute, none, .phase (.executed d.execute)⟩
  | executed trace e =>
    let (c, a) := c.access e
    ⟨c, .accessed trace a, none, .phase (.accessed a)⟩
  | accessed trace a =>
    let (c, w) := c.writeBack a
    ⟨c, .written trace w, none, .phase (.written w)⟩
  | written trace w =>
    match c.traceLine trace w with
    | .error fault => ⟨c, .finished, none, .fault fault⟩
    | .ok line => ⟨c, .finished, line, .done (some w)⟩
  | finished => ⟨c, .finished, none, .done none⟩

/-- The number of times that an attempt can be resumed before it is over. -/
def remaining : Attempt → Nat
  | fresh _ => 6
  | fetched _ _ => 5
  | decoded _ _ => 4
  | executed _ _ => 3
  | accessed _ _ => 2
  | written _ _ => 1
  | halting => 1
  | finished => 1

end Attempt

/-- What an observer of a step sees. -/
inductive Event where
  /-- A line was printed. -/
  | line (line : TraceLine)
  /-- A phase is over. -/
  | phase (progress : Progress)
  deriving Repr, DecidableEq

/-- What comes of resuming an attempt to its end. -/
structure Drain where
  /-- The core at the end. -/
  core : Core
  /-- What was seen on the way, in order. -/
  events : List Event
  /-- The instruction that was executed. -/
  result : Except Fault (Option Written)

namespace Core

/-- Resumes an attempt a number of times, or until it is over. -/
def drainWithin : Nat → Core → Attempt → Drain
  | 0, c, _ => ⟨c, [], .ok none⟩
  | n + 1, c, attempt =>
    let resumed := attempt.resume c
    let printed := resumed.line.toList.map Event.line
    match resumed.outcome with
    | .fault fault => ⟨resumed.core, printed, .error fault⟩
    | .done result => ⟨resumed.core, printed, .ok result⟩
    | .phase progress =>
      let later := drainWithin n resumed.core resumed.attempt
      ⟨later.core, printed ++ .phase progress :: later.events, later.result⟩

/-- Resumes an attempt to its end. -/
def drain (c : Core) (attempt : Attempt) : Drain := drainWithin attempt.remaining c attempt

end Core

end SingleCycle
