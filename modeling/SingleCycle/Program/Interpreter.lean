import SingleCycle.Assembly.InstructionLine
import SingleCycle.Core.Step
import SingleCycle.Isa.Operation

/-!
# An interpreter of source text

An interpreter of assembly text that knows no words: it holds a place in the list of instruction
lines, the registers and data memory, and reads each instruction off the tokens of its line.
-/

namespace SingleCycle

/-! ## Instructions as they are written -/

/-- The number that a token writes. -/
def integer? (token : List Char) : Option Int := (Operand.immediate token).toOption

/-- The operation that an instruction with the given operands performs. Immediates are cut to twelve
bits in two's complement, and the amount of a shift stays as it stands. The label of a branch is not
looked at here. -/
def Operation.ofTokens? : Mnemonic → List (List Char) → Option Operation
  | .register op, [a, b, c] => do
    let rd ← Operand.register? a
    let rs1 ← Operand.register? b
    let rs2 ← Operand.register? c
    return register op rd rs1 rs2
  | .immediate op, [a, b, c] => do
    let rd ← Operand.register? a
    let rs1 ← Operand.register? b
    let imm ← integer? c
    return immediate op rd rs1 (if op.shifts then imm else signed 12 imm)
  | .lw, [a, b, c] => do
    let rd ← Operand.register? a
    let imm ← integer? b
    let rs1 ← Operand.register? c
    return load rd (signed 12 imm) rs1
  | .sw, [a, b, c] => do
    let rs2 ← Operand.register? a
    let imm ← integer? b
    let rs1 ← Operand.register? c
    return store rs2 (signed 12 imm) rs1
  | .branch op, [a, b, _] => do
    let rs1 ← Operand.register? a
    let rs2 ← Operand.register? b
    return branch op rs1 rs2
  | _, _ => none

/-- The operation on a line. -/
def operationOn? (code : List Char) : Option Operation := do
  let m ← mnemonicOf? code
  Operation.ofTokens? m (operandsOf code)

/-- The place of a label: the number of instruction lines above the line that defines it, which is
the index of the first instruction line below. -/
def labelPosition? (raws : List (List Char)) (name : List Char) : Option Nat :=
  (raws.findIdx? fun raw => labelName? (codePart raw) = some name).map fun k =>
    (raws.take k).countP holdsInstruction

/-- The place that the branch on a line goes to. -/
def targetOn? (raws : List (List Char)) (code : List Char) : Option Nat := do
  let label ← (operandsOf code)[2]?
  labelPosition? raws label

/-! ## The interpreter -/

/-- The interpreter between two steps. -/
structure Interpreter where
  /-- The index of the next instruction line. -/
  position : Nat
  /-- Registers and data memory. -/
  machine : Machine
  /-- Whether the interpreter has stopped. -/
  halted : Bool

namespace Interpreter

/-- The interpreter at the first instruction line. -/
def start : Interpreter :=
  { position := 0
    machine := ⟨fun r => Core.registerSeed.get r.toFin, fun i => Core.memorySeed.get i.toFin⟩
    halted := false }

/-- The index of the line that follows one with the given operation. -/
def next? (raws : List (List Char)) (s : Interpreter) (code : List Char) (o : Operation) :
    Option Nat :=
  if o.taken s.machine then targetOn? raws code else some (s.position + 1)

/-- Interprets the next instruction line; behind the last one the interpreter stops. It is stuck at
a line that it cannot read. -/
def step (raws : List (List Char)) (s : Interpreter) : Option Interpreter :=
  if s.halted then some s
  else match (instructionLines 1 raws)[s.position]? with
    | none => some { s with halted := true }
    | some (_, code) => do
      let o ← operationOn? code
      let position ← s.next? raws code o
      return { s with position, machine := o.effect s.machine }

/-- Interprets a number of instruction lines. -/
def run (raws : List (List Char)) : Nat → Interpreter → Option Interpreter
  | 0, s => some s
  | n + 1, s => do
    let next ← s.step raws
    run raws n next

end Interpreter

/-- Steps a core once for each entry of a list, which says whether the step is traced. -/
def Core.stepAll (c : Core) : List (Option Bool) → Except Fault Core
  | [] => .ok c
  | trace :: traces =>
    match (c.step trace).result with
    | .ok _ => (c.step trace).core.stepAll traces
    | .error fault => .error fault

end SingleCycle
