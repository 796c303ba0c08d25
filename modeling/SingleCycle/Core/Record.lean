import SingleCycle.Core.Phase

/-!
# Step records

How far a step has come, and the record of it: one structure with a place for every value that a
step computes, empty until its phase is over.
-/

namespace SingleCycle

/-- The phases of a step. -/
inductive Stage where
  | fetch | decode | execute | memory | writeBack
  deriving Repr, DecidableEq

namespace Stage

/-- All stages, in order. -/
def all : List Stage := [fetch, decode, execute, memory, writeBack]

/-- The name of a stage. -/
def name : Stage → String
  | fetch => "FETCH"
  | decode => "DECODE"
  | execute => "EXEC"
  | memory => "MEM"
  | writeBack => "WB"

end Stage

/-- What is known of a step after one of its phases. -/
inductive Progress where
  /-- A fetch, of a word or of nothing. -/
  | fetched (pc : Int) (word : Option Word)
  /-- A decoded instruction. -/
  | decoded (d : Decoded)
  /-- The result of the arithmetic. -/
  | executed (e : Executed)
  /-- The access to data memory. -/
  | accessed (a : Accessed)
  /-- The whole step. -/
  | written (w : Written)
  deriving Repr, DecidableEq

/-- The phase that is over. -/
def Progress.stage : Progress → Stage
  | fetched _ _ => .fetch
  | decoded _ => .decode
  | executed _ => .execute
  | accessed _ => .memory
  | written _ => .writeBack

/-- The record of a step. -/
structure Record where
  /-- The word that was fetched. -/
  word : Option Word
  /-- The address that it was fetched from. -/
  pcBefore : Int
  /-- The address of the next instruction. -/
  pcAfter : Option Word
  /-- The instruction. -/
  instruction : Option Instruction
  /-- The signals. -/
  control : Option Control
  /-- The value of the first register. -/
  rs1Value : Option Word
  /-- The value of the second register. -/
  rs2Value : Option Word
  /-- The second operand of the arithmetic. -/
  operandB : Option Word
  /-- The result of the arithmetic. -/
  aluResult : Option Word
  /-- The word that came from data memory, 0 until one did. -/
  memoryValue : Word
  /-- The address of the access to data memory. -/
  memoryAddress : Option Word
  /-- The data word that was accessed. -/
  memoryIndex : Option (BitVec 5)
  /-- The register that was written, and its value. -/
  writeBack : Option (BitVec 5 × Word)
  deriving Repr, DecidableEq

namespace Record

/-- The record of a fetch. -/
def ofFetch (pc : Int) (word : Option Word) : Record :=
  { word
    pcBefore := pc
    pcAfter := none
    instruction := none
    control := none
    rs1Value := none
    rs2Value := none
    operandB := none
    aluResult := none
    memoryValue := 0
    memoryAddress := none
    memoryIndex := none
    writeBack := none }

/-- The record of a decoded instruction. -/
def ofDecoded (d : Decoded) : Record :=
  { ofFetch d.pc (some d.word) with
    instruction := some d.instruction
    control := some d.control
    rs1Value := some d.rs1Value
    rs2Value := some d.rs2Value }

/-- The record of an instruction whose arithmetic is done. -/
def ofExecuted (e : Executed) : Record :=
  { ofDecoded e.toDecoded with
    operandB := some e.operandB
    aluResult := some e.aluResult }

/-- The record of an instruction that has accessed data memory. -/
def ofAccessed (a : Accessed) : Record :=
  { ofExecuted a.toExecuted with
    memoryValue := a.memoryValue
    memoryAddress := a.access.map MemoryAccess.address
    memoryIndex := a.access.map fun access => SingleCycle.memoryIndex access.address }

/-- The record of a whole step. -/
def ofWritten (w : Written) : Record :=
  { ofAccessed w.toAccessed with
    pcAfter := some w.nextPc
    writeBack := w.writeBack }

end Record

/-- The record of a step as far as it has come. -/
def Progress.record : Progress → Record
  | fetched pc word => .ofFetch pc word
  | decoded d => .ofDecoded d
  | executed e => .ofExecuted e
  | accessed a => .ofAccessed a
  | written w => .ofWritten w

end SingleCycle
