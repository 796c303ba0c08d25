import SingleCycle.Core.Record

/-!
# Steps

A step takes one instruction through all of its phases at once.
-/

namespace SingleCycle

/-- What a step comes to. -/
structure Step where
  /-- The core after the step. -/
  core : Core
  /-- The line that the step prints. -/
  line : Option TraceLine
  /-- The instruction that was executed. There is none if the core has stopped. -/
  result : Except Fault (Option Written)

namespace Core

/-- Whether a step is traced: as it says itself, or else as the core is set. -/
def traces (c : Core) (trace : Option Bool) : Bool := trace.getD c.tracing

/-- Executes a word that was fetched. -/
def executeWord (c : Core) (trace : Bool) (word : Word) : Step :=
  let (c, decoded) := c.decode ⟨c.pc, word⟩
  match decoded with
  | .error fault => ⟨c, none, .error fault⟩
  | .ok d =>
    let (c, a) := c.access d.execute
    let (c, w) := c.writeBack a
    match c.traceLine trace w with
    | .error fault => ⟨c, none, .error fault⟩
    | .ok line => ⟨c, line, .ok (some w)⟩

/-- Executes one instruction. A core that has stopped stays as it is. -/
def step (c : Core) (trace : Option Bool) : Step :=
  if c.halted then ⟨c, none, .ok none⟩
  else
    let traced := c.traces trace
    let c := c.beginLog traced
    match c.fetch with
    | .error fault => ⟨c, none, .error fault⟩
    | .ok (.halt word) => ⟨{ c with halted := true }, c.haltLine traced word, .ok none⟩
    | .ok (.execute word) => c.executeWord traced word

end Core

end SingleCycle
