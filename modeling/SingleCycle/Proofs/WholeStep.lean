import SingleCycle.Core.Step
import SingleCycle.Proofs.Selection

/-!
# Whole steps in closed form

A step is written as phases that hand a core on to each other. Here the outcome of a whole step is
given at once: the record of the step is a function of the core that it starts from
(`Core.written`), and the core that it ends in is that record written into the starting core
(`Core.commit`). `Core.step_forms` lists all that a step can do, and `Core.step_cases` what is left
of it where the program counter is not negative.
-/

namespace SingleCycle

attribute [ext] Core

/-- The entry that an access to data memory leaves in a log. -/
def Accessed.entries (a : Accessed) : List LogEntry :=
  match a.access with
  | some (.store address) => [.store address a.rs2Value]
  | some (.load address value) => [.load address value]
  | none => []

/-- What a record says of an access to data memory. -/
theorem Record.ofAccessed_access {a : Accessed} {access : MemoryAccess}
    (h : a.access = some access) :
    (ofAccessed a).memoryAddress = some access.address ∧
      (ofAccessed a).memoryIndex = some (SingleCycle.memoryIndex access.address) ∧
      (ofAccessed a).memoryValue = access.value := by
  simp [ofAccessed, Accessed.memoryValue, h]

/-- The entries that a step leaves in a log, in order. -/
def Written.entries (w : Written) : List LogEntry :=
  w.toAccessed.entries ++
    match w.writeBack with
    | some (r, value) => [.register r value]
    | none => []

theorem toNat_lt_of_register (r : BitVec 5) : r.toNat < 32 := r.isLt

namespace Core

variable (c : Core) (word : Word)

/-- The instruction in a word, with the registers that it reads. -/
def decoded : Decoded :=
  { pc := c.pc
    word
    control := Instruction.signals ⟨word⟩
    rs1Value := c.register (Instruction.rs1 ⟨word⟩)
    rs2Value := c.register (Instruction.rs2 ⟨word⟩) }

/-- The access to data memory of the instruction in a word. -/
def accessOf (e : Executed) : Option MemoryAccess :=
  if e.control.memoryWrite then some (.store e.aluResult)
  else if e.instruction.opcode? = some .load then some (.load e.aluResult (c.dataAt e.aluResult))
  else none

/-- The instruction in a word up to its access to data memory. -/
def accessed : Accessed :=
  { (c.decoded word).execute with access := c.accessOf (c.decoded word).execute }

/-- The record of the step that executes a word. -/
def written : Written :=
  { c.accessed word with
    nextPc := (c.accessed word).target
    writeBack := (c.accessed word).writeBack? }

@[simp]
theorem toFetched_decoded : (c.decoded word).toFetched = ⟨c.pc, word⟩ := rfl

@[simp]
theorem control_decoded : (c.decoded word).control = Instruction.signals ⟨word⟩ := rfl

@[simp]
theorem toDecoded_accessed : (c.accessed word).toDecoded = c.decoded word := rfl

@[simp]
theorem toAccessed_written : (c.written word).toAccessed = c.accessed word := rfl

/-- The core with the effects of a step, as its record tells them. -/
def commit (w : Written) : Core :=
  { c with
    pc := w.nextPc.toNat
    cycle := c.cycle + 1
    last := some w.instruction
    memory :=
      if w.control.memoryWrite then
        c.memory.set (memoryIndex w.aluResult).toNat w.rs2Value (memoryIndex w.aluResult).isLt
      else c.memory
    registers :=
      match w.writeBack with
      | some (r, value) => c.registers.set r.toNat value (toNat_lt_of_register r)
      | none => c.registers
    log := c.log.map (· ++ w.entries) }

/-- Data memory as a step that executes a word leaves it. -/
def storedMemory : Vector Word 32 := (c.commit (c.written word)).memory

/-- The line that a step prints. -/
def lineOf (trace : Bool) (w : Written) : Option TraceLine :=
  if trace then some (.executed w.pc w.instruction c.cycle w.entries) else none

end Core

/-! ## The phases -/

theorem Accessed.rd_ne_zero {a : Accessed} (h : a.writesRegister = true) :
    a.instruction.rd ≠ 0 := by
  simp only [writesRegister, Bool.and_eq_true, bne_iff_ne] at h
  exact h.2

namespace Core

variable {c : Core} {word : Word}

theorem map_append_nil (log : Option (List LogEntry)) : log.map (· ++ []) = log := by
  cases log <;> simp

theorem decode_eq : c.decode ⟨c.pc, word⟩ =
    ({ c with cycle := c.cycle + 1, last := some ⟨word⟩ }, .ok (c.decoded word)) := by
  unfold decode Fetched.instruction
  simp only [Instruction.control_eq_signals]
  rfl

theorem access_eq (e : Executed) : c.access e =
    ({ c with
        memory :=
          if e.control.memoryWrite then
            c.memory.set (memoryIndex e.aluResult).toNat e.rs2Value (memoryIndex e.aluResult).isLt
          else c.memory
        log := c.log.map (· ++ Accessed.entries { e with access := c.accessOf e }) },
      { e with access := c.accessOf e }) := by
  unfold access accessOf
  by_cases hw : e.control.memoryWrite = true
  · simp only [hw, if_true]
    rfl
  · by_cases hl : e.instruction.opcode? = some .load
    · simp only [hw, hl, if_true]
      rfl
    · simp only [hw, hl, Bool.false_eq_true, if_false, Accessed.entries, map_append_nil]

theorem writeBack_eq (a : Accessed) : c.writeBack a =
    ({ c with
        pc := a.target.toNat
        registers :=
          match a.writeBack? with
          | some (r, value) => c.registers.set r.toNat value r.isLt
          | none => c.registers
        log := c.log.map (· ++
          match a.writeBack? with
          | some (r, value) => [.register r value]
          | none => []) },
      { a with nextPc := a.target, writeBack := a.writeBack? }) := by
  unfold writeBack Accessed.writeBack?
  by_cases hw : a.writesRegister = true
  · simp only [hw, if_true, setRegister, Accessed.rd_ne_zero hw, if_false]
    rfl
  · simp only [hw, Bool.false_eq_true, if_false, map_append_nil]

/-! ## Stores -/

theorem storedMemory_of_store (h : (Instruction.signals ⟨word⟩).memoryWrite = true) :
    c.storedMemory word = c.memory.set (memoryIndex (c.written word).aluResult).toNat
      (c.written word).rs2Value (memoryIndex (c.written word).aluResult).isLt := if_pos h

theorem storedMemory_of_no_store (h : (Instruction.signals ⟨word⟩).memoryWrite = false) :
    c.storedMemory word = c.memory := if_neg (ne_true_of_eq_false h)

/-! ## Fetching -/

/-- The word that a program counter selects. A counter below 0 counts from the end. -/
theorem wordAtPc_inside (hlow : -1024 ≤ c.pc) (hhigh : c.pc < 1024) :
    c.wordAtPc = .ok c.program[(c.pc / 4 % 256).toNat]? := by
  have hlt : (c.pc / 4 % 256).toNat < 256 := by omega
  have hindex : (BitVec.ofInt 8 (c.pc / 4)).toFin = ⟨(c.pc / 4 % 256).toNat, hlt⟩ :=
    Fin.ext (BitVec.toNat_ofInt _)
  unfold wordAtPc
  rw [if_neg (by omega), if_pos (by omega), Vector.getElem?_eq_getElem hlt, hindex]
  rfl

theorem wordAtPc_above (h : 1024 ≤ c.pc) : c.wordAtPc = .ok none :=
  if_pos (by omega)

theorem wordAtPc_eq (hpc : 0 ≤ c.pc) : c.wordAtPc = .ok c.program[(c.pc / 4).toNat]? := by
  rcases Int.lt_or_le c.pc 1024 with hin | hout
  · have hmod : c.pc / 4 % 256 = c.pc / 4 := by omega
    rw [wordAtPc_inside (by omega) hin, hmod]
  · rw [wordAtPc_above hout, Vector.getElem?_eq_none (by omega)]

/-- What a fetch finds where there may be a word. -/
def fetchOf : Option Word → Fetch
  | none => .halt none
  | some word => if haltWords.contains word then .halt (some word) else .execute word

theorem fetchOf_of_halt {w : Word} (h : w ∈ haltWords) : fetchOf (some w) = .halt (some w) :=
  if_pos (List.contains_iff_mem.2 h)

theorem fetchOf_of_execute {w : Word} (h : w ∉ haltWords) : fetchOf (some w) = .execute w :=
  if_neg (by rwa [List.contains_iff_mem])

theorem fetch_of_wordAtPc {found : Option Word} (h : c.wordAtPc = .ok found) :
    c.fetch = .ok (fetchOf found) := by
  unfold fetch
  rw [h]
  cases found with
  | none => rfl
  | some word => rfl

theorem fetch_eq (hpc : 0 ≤ c.pc) : c.fetch = .ok (fetchOf c.program[(c.pc / 4).toNat]?) :=
  fetch_of_wordAtPc (wordAtPc_eq hpc)

theorem fetch_of_word {w : Word} (hpc : 0 ≤ c.pc) (hw : c.program[(c.pc / 4).toNat]? = some w)
    (hhalt : w ∉ haltWords) : c.fetch = .ok (.execute w) := by
  rw [fetch_eq hpc, hw, fetchOf_of_execute hhalt]

/-- The word that the core is about to execute. There is none past the end of instruction memory,
and none where the word stops the core. -/
def nextWord? (c : Core) : Option Word :=
  c.program[(c.pc / 4).toNat]?.filter fun word => !haltWords.contains word

theorem fetch_of_nextWord? {w : Word} (hpc : 0 ≤ c.pc) (h : c.nextWord? = some w) :
    c.fetch = .ok (.execute w) := by
  obtain ⟨hword, hhalt⟩ := Option.filter_eq_some_iff.1 h
  exact fetch_of_word hpc hword (by simpa using hhalt)

theorem fetch_of_no_nextWord (hpc : 0 ≤ c.pc) (h : c.nextWord? = none) :
    ∃ found, c.fetch = .ok (.halt found) := by
  rw [fetch_eq hpc]
  cases hword : c.program[(c.pc / 4).toNat]? with
  | none => exact ⟨none, rfl⟩
  | some word =>
    have hhalt : word ∈ haltWords := by
      simpa using Option.filter_eq_none_iff.1 h word hword
    exact ⟨some word, congrArg _ (fetchOf_of_halt hhalt)⟩

/-! ## The whole step -/

theorem executeWord_eq (traced : Bool) (hlog : c.log = if traced then some [] else none) :
    c.executeWord traced word =
      ⟨c.commit (c.written word), c.lineOf traced (c.written word),
        .ok (some (c.written word))⟩ := by
  have hcycle : ((c.cycle + 1 : Nat) : Int) - 1 = c.cycle := by omega
  unfold executeWord
  simp only [decode_eq, access_eq, writeBack_eq]
  cases traced with
  | false =>
    simp only [hlog, Bool.false_eq_true, if_false, traceLine, commit, lineOf]
    rfl
  | true =>
    simp only [hlog, if_true, traceLine, commit, lineOf, Option.map_some, hcycle]
    rfl

variable {trace : Option Bool}

theorem step_of_halted (hhalted : c.halted = true) : c.step trace = ⟨c, none, .ok none⟩ := by
  unfold step
  rw [hhalted]
  rfl

theorem step_of_fault {fault : Fault} (hrun : c.halted = false) (hfetch : c.fetch = .error fault) :
    c.step trace = ⟨c.beginLog (c.traces trace), none, .error fault⟩ := by
  simp [step, hrun, hfetch]

theorem step_of_halt {found : Option Word} (hrun : c.halted = false)
    (hfetch : c.fetch = .ok (.halt found)) :
    c.step trace = ⟨{ c.beginLog (c.traces trace) with halted := true },
      c.haltLine (c.traces trace) found, .ok none⟩ := by
  simp [step, hrun, hfetch]

theorem step_of_execute (hrun : c.halted = false) (hfetch : c.fetch = .ok (.execute word)) :
    c.step trace = ⟨(c.beginLog (c.traces trace)).commit (c.written word),
      c.lineOf (c.traces trace) (c.written word), .ok (some (c.written word))⟩ := by
  unfold step
  simp only [hrun, fetch_beginLog, hfetch, Bool.false_eq_true, if_false]
  exact executeWord_eq (c := c.beginLog (c.traces trace)) _ rfl

/-- All that a step can do. -/
theorem step_forms (c : Core) (trace : Option Bool) :
    (c.halted = true ∧ c.step trace = ⟨c, none, .ok none⟩) ∨
    (c.halted = false ∧ ∃ fault, c.fetch = .error fault ∧
      c.step trace = ⟨c.beginLog (c.traces trace), none, .error fault⟩) ∨
    (c.halted = false ∧ ∃ found, c.fetch = .ok (.halt found) ∧
      c.step trace = ⟨{ c.beginLog (c.traces trace) with halted := true },
        c.haltLine (c.traces trace) found, .ok none⟩) ∨
    (c.halted = false ∧ ∃ word, c.fetch = .ok (.execute word) ∧
      c.step trace = ⟨(c.beginLog (c.traces trace)).commit (c.written word),
        c.lineOf (c.traces trace) (c.written word), .ok (some (c.written word))⟩) := by
  cases hrun : c.halted with
  | true => exact .inl ⟨rfl, step_of_halted hrun⟩
  | false =>
    right
    cases hfetch : c.fetch with
    | error fault => exact .inl ⟨rfl, fault, rfl, step_of_fault hrun hfetch⟩
    | ok fetched =>
      right
      cases fetched with
      | halt found => exact .inl ⟨rfl, found, rfl, step_of_halt hrun hfetch⟩
      | execute word => exact .inr ⟨rfl, word, rfl, step_of_execute hrun hfetch⟩

/-- All that a step can do on a core whose program counter is not negative. -/
theorem step_cases (hpc : 0 ≤ c.pc) (trace : Option Bool) :
    (c.halted = true ∧ c.step trace = ⟨c, none, .ok none⟩) ∨
    (c.halted = false ∧ ∃ found, c.fetch = .ok (.halt found) ∧
      c.step trace = ⟨{ c.beginLog (c.traces trace) with halted := true },
        c.haltLine (c.traces trace) found, .ok none⟩) ∨
    (c.halted = false ∧ ∃ word, c.fetch = .ok (.execute word) ∧
      c.step trace = ⟨(c.beginLog (c.traces trace)).commit (c.written word),
        c.lineOf (c.traces trace) (c.written word), .ok (some (c.written word))⟩) := by
  rcases c.step_forms trace with hhalted | ⟨-, fault, hfetch, -⟩ | hstop | hexecute
  · exact .inl hhalted
  · rw [fetch_eq hpc] at hfetch
    cases hfetch
  · exact .inr (.inl hstop)
  · exact .inr (.inr hexecute)

/-- A step that finds a word ends with a record. -/
theorem result_of_nextWord? (hrun : c.halted = false) (hpc : 0 ≤ c.pc)
    (hword : c.nextWord? = some word) :
    (c.step trace).result = .ok (some (c.written word)) := by
  rw [step_of_execute hrun (fetch_of_nextWord? hpc hword)]

/-- A step that ends with a record has fetched a word to execute, and the record is that of the
word. -/
theorem fetch_of_result {w : Written} (h : (c.step trace).result = .ok (some w)) :
    c.halted = false ∧ ∃ word, c.fetch = .ok (.execute word) ∧ w = c.written word := by
  rcases c.step_forms trace with
    ⟨-, hstep⟩ | ⟨-, fault, -, hstep⟩ | ⟨-, found, -, hstep⟩ | ⟨hrun, word, hfetch, hstep⟩
  · rw [hstep] at h
    cases h
  · rw [hstep] at h
    cases h
  · rw [hstep] at h
    cases h
  · rw [hstep] at h
    exact ⟨hrun, word, hfetch, (Option.some.inj (Except.ok.inj h)).symm⟩

/-- A step that ends with a record has executed the next word. -/
theorem step_of_result {w : Written} (hpc : 0 ≤ c.pc)
    (h : (c.step trace).result = .ok (some w)) :
    ∃ word, c.nextWord? = some word ∧ w = c.written word ∧
      (c.step trace).core = (c.beginLog (c.traces trace)).commit w ∧
      0 ≤ (c.step trace).core.pc := by
  obtain ⟨hrun, word, hfetch, rfl⟩ := fetch_of_result h
  have hword : c.nextWord? = some word := by
    cases hnext : c.nextWord? with
    | none =>
      obtain ⟨found, hhalt⟩ := fetch_of_no_nextWord hpc hnext
      cases hfetch.symm.trans hhalt
    | some next =>
      cases hfetch.symm.trans (fetch_of_nextWord? hpc hnext)
      rfl
  rw [step_of_execute hrun hfetch]
  exact ⟨word, hword, rfl, rfl, Int.natCast_nonneg _⟩

end Core

end SingleCycle
