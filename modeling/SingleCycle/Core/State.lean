import SingleCycle.Core.Trace

/-!
# The state of the core

Registers, data memory, instruction memory and a program counter. Register 0 reads as zero because
nothing writes it. Data memory is 32 words, and an address selects one of them by its bits 2 to 6,
so addresses repeat every 128 bytes. A write is logged while a log is kept.
-/

namespace SingleCycle

/-- The state of a core. -/
structure Core where
  /-- The address of the next instruction. It is any integer that was assigned to it; the core
  itself assigns multiples of four below `2 ^ 32`. -/
  pc : Int
  /-- The number of instructions that were decoded since the last reset. -/
  cycle : Nat
  /-- Whether the core has stopped. -/
  halted : Bool
  /-- The registers. -/
  registers : Vector Word 32
  /-- Data memory. -/
  memory : Vector Word 32
  /-- Instruction memory. -/
  program : Vector Word 256
  /-- The instruction that was decoded last. -/
  last : Option Instruction
  /-- Whether steps are traced that do not say so themselves. -/
  tracing : Bool
  /-- The log of the last traced step, unless an untraced step came after it. -/
  log : Option (List LogEntry)
  deriving Repr, DecidableEq

/-- Why a table has no entry at an index. -/
inductive IndexError where
  /-- The table is too short. -/
  | outside
  /-- No table is long enough: the index takes more than 64 bits in two's complement. -/
  | tooWide
  deriving Repr, DecidableEq

namespace IndexError

-- Powers of numbers are those of the core library, whatever else a reader of this imports.
attribute [local instance (20000)] instPowNat

/-- The error at an index where a table has no entry. -/
def ofIndex (index : Int) : IndexError :=
  if -2 ^ (63 : Nat) ≤ index && index < 2 ^ (63 : Nat) then outside else tooWide

/-- The text of the refusal. -/
def message : IndexError → String
  | outside => "list index out of range"
  | tooWide => "cannot fit \x27int\x27 into an index-sized integer"

end IndexError

/-- A register that does not exist. -/
inductive RegisterError where
  /-- It was to be written. -/
  | write
  /-- It was to be read. -/
  | read (error : IndexError)
  deriving Repr, DecidableEq

/-- The text of the refusal. A write does not tell wide indices from others. -/
def RegisterError.message : RegisterError → String
  | write => "range object index out of range"
  | read error => error.message

/-- The number of instruction words. -/
def programSize : Nat := 256

/-- The number of data words. -/
def memorySize : Nat := 32

/-- The data word that an address selects: the low two bits of an address tell bytes of one word
apart, and the five bits above them count the words. -/
def memoryIndex (address : Word) : BitVec 5 := address.extractLsb' 2 5

/-- A table that is read by bits, after one of its entries was replaced. -/
@[simp]
theorem get_set_eq (v : Vector Word 32) (i j : BitVec 5) (value : Word) :
    (v.set i.toNat value i.isLt).get j.toFin = if j = i then value else v.get j.toFin := by
  show (v.set i.toNat value i.isLt)[j.toNat] = if j = i then value else v[j.toNat]
  rw [Vector.getElem_set]
  by_cases hj : j = i
  · rw [if_pos hj, if_pos (by rw [hj])]
  · have hne : i.toNat ≠ j.toNat := fun h => hj (BitVec.eq_of_toNat_eq h.symm)
    rw [if_neg hj, if_neg hne]

/-- The register with an index. A negative index counts from the end. -/
def registerAt? (index : Int) : Option (BitVec 5) :=
  if -32 ≤ index && index < 32 then some (BitVec.ofInt 5 index) else none

namespace Core

/-- The registers after a reset. -/
def registerSeed : Vector Word 32 :=
  #v[0, 1, 2, 0xFFFFFFFD, 0, 5, 0, 7, 0, 0, 0, 0, 0, 0, 0, 0,
     0, 0, 0, 0, 0, 0, 0, 0, 0, 0, 0, 0, 0, 0, 0, 0]

/-- Data memory after a reset. -/
def memorySeed : Vector Word 32 :=
  #v[0x05, 0xAF, 0xD2, 0x03, 0, 0, 0, 0, 0, 0, 0, 0, 0, 0, 0, 0,
     0, 0, 0, 0, 0, 0, 0, 0, 0, 0, 0, 0, 0, 0, 0, 0]

/-- The core back at its start. Instruction memory, the trace setting and the log stay. -/
def reset (c : Core) : Core :=
  { c with
    pc := 0
    cycle := 0
    halted := false
    registers := registerSeed
    memory := memorySeed
    last := none }

/-- A core with nothing in its instruction memory. -/
def fresh (tracing : Bool) : Core :=
  { pc := 0
    cycle := 0
    halted := false
    registers := registerSeed
    memory := memorySeed
    program := Vector.replicate 256 0
    last := none
    tracing := tracing
    log := none }

/-- Adds an entry to the log, if one is kept. -/
def note (c : Core) (entry : LogEntry) : Core := { c with log := c.log.map (· ++ [entry]) }

/-- The value of a register. -/
def register (c : Core) (r : BitVec 5) : Word := c.registers.get r.toFin

/-- Writes a register. A write to register 0 is dropped. -/
def setRegister (c : Core) (r : BitVec 5) (value : Word) : Core :=
  if r = 0 then c
  else { c.note (.register r value) with registers := c.registers.set r.toNat value r.isLt }

/-- The data word at an address. -/
def dataAt (c : Core) (address : Word) : Word := c.memory.get (memoryIndex address).toFin

/-- Stores a word at an address. -/
def store (c : Core) (address value : Word) : Core :=
  { c.note (.store address value) with
    memory := c.memory.set (memoryIndex address).toNat value (memoryIndex address).isLt }

/-- The core after loading the word at an address, and the word. -/
def load (c : Core) (address : Word) : Core × Word :=
  let value := c.dataAt address
  (c.note (.load address value), value)

/-- Writes the register with an index. -/
def setRegisterAt (c : Core) (index value : Int) : Except RegisterError Core :=
  match registerAt? index with
  | some r => .ok (c.setRegister r (wordOf value))
  | none => .error .write

/-- The value of the register with an index. -/
def registerValueAt (c : Core) (index : Int) : Except RegisterError Word :=
  match registerAt? index with
  | some r => .ok (c.register r)
  | none => .error (.read (.ofIndex index))

/-! ## Fields after an operation -/

section

variable (c : Core) (r : BitVec 5) (address value : Word)

@[simp]
theorem program_reset : c.reset.program = c.program := rfl

@[simp]
theorem pc_setRegister : (c.setRegister r value).pc = c.pc := by
  unfold setRegister
  split <;> rfl

@[simp]
theorem memory_setRegister : (c.setRegister r value).memory = c.memory := by
  unfold setRegister
  split <;> rfl

@[simp]
theorem program_setRegister : (c.setRegister r value).program = c.program := by
  unfold setRegister
  split <;> rfl

/-- Nothing writes register 0. -/
@[simp]
theorem register_zero_setRegister : (c.setRegister r value).register 0#5 = c.register 0#5 := by
  unfold setRegister
  split
  · rfl
  · next hr => exact (get_set_eq _ _ _ _).trans (if_neg (Ne.symm hr))

@[simp]
theorem pc_store : (c.store address value).pc = c.pc := rfl

@[simp]
theorem register_store : (c.store address value).register = c.register := rfl

@[simp]
theorem program_store : (c.store address value).program = c.program := rfl

/-- A store is read back at every address of its data word. -/
@[simp]
theorem dataAt_store (other : Word) : (c.store address value).dataAt other =
    if memoryIndex other = memoryIndex address then value else c.dataAt other :=
  get_set_eq _ _ _ _

@[simp]
theorem pc_load : (c.load address).1.pc = c.pc := rfl

@[simp]
theorem register_load : (c.load address).1.register = c.register := rfl

@[simp]
theorem memory_load : (c.load address).1.memory = c.memory := rfl

@[simp]
theorem program_load : (c.load address).1.program = c.program := rfl

end

end Core

end SingleCycle
