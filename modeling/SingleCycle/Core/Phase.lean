import SingleCycle.Clock
import SingleCycle.Core.State
import SingleCycle.Datapath.Control

/-!
# The phases of a step

An instruction goes through five phases: fetch, decode, execute, memory access and write-back.
Each phase adds to what is known of the instruction, so the value it leaves extends the one that it
starts from, and a later phase cannot change what an earlier one found.
-/

namespace SingleCycle

/-- Why a step cannot go on. -/
inductive Fault where
  /-- The program counter lies below everything that instruction memory can be asked for. -/
  | fetch (error : IndexError)
  /-- The control unit does not know the instruction. -/
  | control (unknown : UnknownFunction)
  /-- A traced step ends where no log is kept any more. -/
  | noLog
  /-- The pause behind a phase is refused, which only a watched step asks for. -/
  | pause (refusal : Refusal)
  deriving Repr, DecidableEq

/-- The text of a fault. -/
def Fault.message : Fault → String
  | fetch error => error.message
  | control unknown => unknown.message
  | noLog => "can only join an iterable"
  | pause refusal => refusal.message

/-- What a fetch finds. -/
inductive Fetch where
  /-- Nothing to execute: no word, or one that stops the core. -/
  | halt (word : Option Word)
  /-- A word to execute. -/
  | execute (word : Word)
  deriving Repr, DecidableEq

/-- A word that was fetched to be executed. -/
structure Fetched where
  /-- Where the word is. -/
  pc : Int
  /-- The word. -/
  word : Word
  deriving Repr, DecidableEq

/-- An instruction that was decoded. -/
structure Decoded extends Fetched where
  /-- The signals that it selects. -/
  control : Control
  /-- The value of the first register that it reads. -/
  rs1Value : Word
  /-- The value of the second register that it reads. -/
  rs2Value : Word
  deriving Repr, DecidableEq

/-- An instruction whose arithmetic is done. -/
structure Executed extends Decoded where
  /-- The second operand. -/
  operandB : Word
  /-- The result. -/
  aluResult : Word
  deriving Repr, DecidableEq

/-- An access to data memory. -/
inductive MemoryAccess where
  /-- A word was stored at the address. -/
  | store (address : Word)
  /-- The word at the address was loaded. -/
  | load (address value : Word)
  deriving Repr, DecidableEq

/-- An instruction that has accessed data memory, if it does. -/
structure Accessed extends Executed where
  /-- The access. -/
  access : Option MemoryAccess
  deriving Repr, DecidableEq

/-- An instruction that has been executed to its end. -/
structure Written extends Accessed where
  /-- The address of the next instruction. -/
  nextPc : Word
  /-- The register that was written, and its value. -/
  writeBack : Option (BitVec 5 × Word)
  deriving Repr, DecidableEq

/-- The instruction. -/
def Fetched.instruction (f : Fetched) : Instruction := ⟨f.word⟩

@[simp]
theorem Fetched.instruction_mk (pc : Int) (word : Word) : instruction ⟨pc, word⟩ = ⟨word⟩ := rfl

namespace MemoryAccess

/-- The address of an access. -/
def address : MemoryAccess → Word
  | store address => address
  | load address _ => address

/-- The word that an access has read; 0 for a store. -/
def value : MemoryAccess → Word
  | store _ => 0
  | load _ value => value

end MemoryAccess

/-- The arithmetic of a decoded instruction. -/
def Decoded.execute (d : Decoded) : Executed :=
  let operandB := if d.control.aluSource then wordOf d.instruction.imm else d.rs2Value
  { d with operandB, aluResult := d.control.aluOp.eval d.rs1Value operandB }

namespace Accessed

/-- The word that came from data memory, 0 if none did. -/
def memoryValue (a : Accessed) : Word := (a.access.map MemoryAccess.value).getD 0

/-- Whether the instruction branches away. -/
def taken (a : Accessed) : Bool :=
  a.control.branch && a.aluResult == (if a.control.branchNegated then 0 else 1)

/-- The address of the next instruction. The low two bits are cleared, so it is a multiple of four
even if the branch offset or the address of this instruction is none. -/
def target (a : Accessed) : Word :=
  wordOf (a.pc + if a.taken then a.instruction.imm else 4) &&& ~~~3

/-- Whether the instruction writes a register. Stores and branches have no result; every other
instruction has one, even if its opcode is not executed. -/
def writesRegister (a : Accessed) : Bool :=
  !a.control.memoryWrite && a.instruction.opcode? != some .branch && a.instruction.rd != 0

/-- The value that the instruction writes to a register: what was loaded, or else the result of the
arithmetic. -/
def result (a : Accessed) : Word :=
  if a.instruction.opcode? = some .load && a.control.memoryToRegister then a.memoryValue
  else a.aluResult

/-- The register that the instruction writes, and its value. -/
def writeBack? (a : Accessed) : Option (BitVec 5 × Word) :=
  if a.writesRegister then some (a.instruction.rd, a.result) else none

end Accessed

namespace Core

/-- The core with the log that a step begins with: an empty one if the step is traced, else
none. -/
def beginLog (c : Core) (trace : Bool) : Core :=
  { c with log := if trace then some [] else none }

/-- The word that the program counter selects, of which there is none past the end. A counter
below 0 selects from the end backwards, and is refused where that leaves instruction memory. -/
def wordAtPc (c : Core) : Except Fault (Option Word) :=
  let index := c.pc / 4
  if 256 ≤ index then .ok none
  else if -256 ≤ index then .ok (some (c.program.get (BitVec.ofInt 8 index).toFin))
  else .error (.fetch (.ofIndex index))

/-- What the core fetches. -/
def fetch (c : Core) : Except Fault Fetch :=
  match c.wordAtPc with
  | .error fault => .error fault
  | .ok none => .ok (.halt none)
  | .ok (some word) => .ok (if haltWords.contains word then .halt (some word) else .execute word)

/-- Decodes a word and reads its registers. The word counts as decoded even if the control unit
refuses it. -/
def decode (c : Core) (f : Fetched) : Core × Except Fault Decoded :=
  let instruction := f.instruction
  let c := { c with cycle := c.cycle + 1, last := some instruction }
  match instruction.control with
  | .error unknown => (c, .error (.control unknown))
  | .ok control =>
    (c, .ok { f with
      control
      rs1Value := c.register instruction.rs1
      rs2Value := c.register instruction.rs2 })

/-- Accesses data memory, if the instruction does. -/
def access (c : Core) (e : Executed) : Core × Accessed :=
  if e.control.memoryWrite then
    (c.store e.aluResult e.rs2Value, { e with access := some (.store e.aluResult) })
  else if e.instruction.opcode? = some .load then
    let (c, value) := c.load e.aluResult
    (c, { e with access := some (.load e.aluResult value) })
  else (c, { e with access := none })

/-- Writes the result back and moves the program counter on. -/
def writeBack (c : Core) (a : Accessed) : Core × Written :=
  let writeBack := a.writeBack?
  let nextPc := a.target
  let c :=
    match writeBack with
    | some (r, value) => c.setRegister r value
    | none => c
  ({ c with pc := nextPc.toNat }, { a with nextPc, writeBack })

/-- The line that an executed instruction prints. It shows the cycle counter and the log as they
are when the step ends. -/
def traceLine (c : Core) (trace : Bool) (w : Written) : Except Fault (Option TraceLine) :=
  if trace then
    match c.log with
    | some log => .ok (some (.executed w.pc w.instruction (c.cycle - 1) log))
    | none => .error .noLog
  else .ok none

/-- The line that a stopping core prints. -/
def haltLine (c : Core) (trace : Bool) (word : Option Word) : Option TraceLine :=
  if trace then some (.halted c.pc word) else none

/-! ## Fields after a phase -/

section

variable (c : Core) (trace : Bool) (f : Fetched)

@[simp]
theorem pc_beginLog : (c.beginLog trace).pc = c.pc := rfl

@[simp]
theorem register_beginLog : (c.beginLog trace).register = c.register := rfl

@[simp]
theorem program_beginLog : (c.beginLog trace).program = c.program := rfl

@[simp]
theorem fetch_beginLog : (c.beginLog trace).fetch = c.fetch := rfl

@[simp]
theorem haltLine_beginLog (traced : Bool) (word : Option Word) :
    (c.beginLog trace).haltLine traced word = c.haltLine traced word := rfl

/-- A word counts as decoded whatever the control unit says of it. -/
@[simp]
theorem core_decode : (c.decode f).1 =
    { c with cycle := c.cycle + 1, last := some f.instruction } := by
  simp only [decode]
  split <;> rfl

end

end Core

end SingleCycle
