import SingleCycle.Proofs.AbandonedAttempts
import SingleCycle.Simulator.Stage

/-!
# What the memory phase reports

The record that is shown after the memory phase names the data word that was accessed, its address
and a value. For a load the value is the word that has moved. For a store it is always 0, whatever
was stored: the word that has moved is the value of the second register, and the record of a store
does not show it in this place.
-/

namespace SingleCycle

namespace Core

variable {c : Core} {word : Word}

/-- What the record `r` says of the access that the instruction `i` has made, where `d` is the core
right after the memory phase. -/
structure ReportsAccess (d : Core) (i : Instruction) (r : Record) : Prop where
  /-- Loads and stores access a data word, and nothing else does. -/
  index : r.memoryIndex.isSome ↔ i.opcode? = some .load ∨ i.opcode? = some .store
  load : i.opcode? = some .load → ∀ k ∈ r.memoryIndex, r.memoryValue = d.memory.get k.toFin
  store : i.opcode? = some .store → ∀ k ∈ r.memoryIndex,
    r.memoryValue = 0 ∧ r.rs2Value = some (d.memory.get k.toFin)
  /-- The value is the word that has moved, for loads and where this word is 0. -/
  agrees : ∀ k ∈ r.memoryIndex,
    r.memoryValue = d.memory.get k.toFin ↔ i.opcode? = some .load ∨ d.memory.get k.toFin = 0

/-- The memory phase of a store. -/
theorem reports_store {d : Core} (hopcode : Instruction.opcode? ⟨word⟩ = some .store)
    (hmemory : d.memory = c.storedMemory word) :
    let r := Record.ofAccessed (c.accessed word)
    r.memoryIndex = some (memoryIndex (c.accessed word).aluResult) ∧ r.memoryValue = 0 ∧
      r.rs2Value = some (d.memory.get (memoryIndex (c.accessed word).aluResult).toFin) := by
  have haccess : (c.accessed word).access = _ := access_of_store hopcode
  have hwrite : (Instruction.signals ⟨word⟩).memoryWrite = true :=
    Instruction.memoryWrite_iff.2 hopcode
  have hword : d.memory.get (memoryIndex (c.accessed word).aluResult).toFin =
      (c.written word).rs2Value := by
    rw [hmemory, storedMemory_of_store hwrite]
    exact (get_set_eq _ _ _ _).trans (if_pos rfl)
  obtain ⟨-, hindex, hvalue⟩ := Record.ofAccessed_access haccess
  exact ⟨hindex, hvalue, congrArg some hword.symm⟩

/-- The memory phase of a load. -/
theorem reports_load {d : Core} (hopcode : Instruction.opcode? ⟨word⟩ = some .load)
    (hmemory : d.memory = c.storedMemory word) :
    let r := Record.ofAccessed (c.accessed word)
    r.memoryIndex = some (memoryIndex (c.accessed word).aluResult) ∧
      r.memoryValue = d.memory.get (memoryIndex (c.accessed word).aluResult).toFin := by
  have haccess : (c.accessed word).access = _ := access_of_load hopcode
  have hwrite : (Instruction.signals ⟨word⟩).memoryWrite = false :=
    Instruction.memoryWrite_eq_false_iff.2 (by simp [hopcode])
  obtain ⟨-, hindex, hvalue⟩ := Record.ofAccessed_access haccess
  rw [hmemory, storedMemory_of_no_store hwrite]
  exact ⟨hindex, hvalue⟩

namespace ReportsAccess

variable {d : Core} {i : Instruction} {r : Record} {k : BitVec 5}

theorem of_store (hopcode : i.opcode? = some .store) (hindex : r.memoryIndex = some k)
    (hvalue : r.memoryValue = 0) (hword : r.rs2Value = some (d.memory.get k.toFin)) :
    d.ReportsAccess i r where
  index := by simp [hindex, hopcode]
  load hload := by simp [hopcode] at hload
  store _ j hj := by
    obtain rfl := Option.some.inj (hindex.symm.trans hj)
    exact ⟨hvalue, hword⟩
  agrees j hj := by
    obtain rfl := Option.some.inj (hindex.symm.trans hj)
    simp [hvalue, hopcode, eq_comm]

theorem of_load (hopcode : i.opcode? = some .load) (hindex : r.memoryIndex = some k)
    (hvalue : r.memoryValue = d.memory.get k.toFin) : d.ReportsAccess i r where
  index := by simp [hindex, hopcode]
  load _ j hj := by
    obtain rfl := Option.some.inj (hindex.symm.trans hj)
    exact hvalue
  store hstore := by simp [hopcode] at hstore
  agrees j hj := by
    obtain rfl := Option.some.inj (hindex.symm.trans hj)
    simp [hvalue, hopcode]

theorem of_neither (hstore : i.opcode? ≠ some .store) (hload : i.opcode? ≠ some .load)
    (hindex : r.memoryIndex = none) : d.ReportsAccess i r where
  index := by simp [hindex, hstore, hload]
  load h := absurd h hload
  store h := absurd h hstore
  agrees := by simp [hindex]

end ReportsAccess

theorem reportsAccess_accessed {d : Core} (hmemory : d.memory = c.storedMemory word) :
    d.ReportsAccess ⟨word⟩ (.ofAccessed (c.accessed word)) := by
  by_cases hstore : Instruction.opcode? ⟨word⟩ = some .store
  · obtain ⟨hindex, hvalue, hword⟩ := reports_store hstore hmemory
    exact .of_store hstore hindex hvalue hword
  by_cases hload : Instruction.opcode? ⟨word⟩ = some .load
  · obtain ⟨hindex, hvalue⟩ := reports_load hload hmemory
    exact .of_load hload hindex hvalue
  · have haccess : (c.accessed word).access = none := access_of_neither hstore hload
    exact .of_neither hstore hload (by simp [Record.ofAccessed, haccess])

/-- What the console shows of the memory phase. -/
theorem detail_accessed (a : Accessed) {k : BitVec 5}
    (hk : (Record.ofAccessed a).memoryIndex = some k) :
    ∃ address, (Record.ofAccessed a).memoryAddress = some address ∧
      (Progress.accessed a).detail = "mem[" ++ toString k.toNat ++ "] addr=" ++ hexWord address ++
        " data=" ++ hexWord (Record.ofAccessed a).memoryValue := by
  cases haccess : a.access with
  | none => simp [Record.ofAccessed, haccess] at hk
  | some access =>
    obtain rfl : memoryIndex access.address = k := by simpa [Record.ofAccessed, haccess] using hk
    obtain ⟨haddress, -, hvalue⟩ := Record.ofAccessed_access haccess
    refine ⟨access.address, haddress, ?_⟩
    simp only [Progress.detail, haccess, hvalue]

/-- The memory phase of every step that executes an instruction is the fourth phase, and shows what
the record of the step says of the access. The value is the word that has moved if the instruction
is a load, and 0 if it is a store. -/
theorem reports_access (c : Core) (trace : Option Bool) (w : Written)
    (h : (c.step trace).result = .ok (some w)) :
    let reached := Attempt.advance 4 c (.fresh trace)
    let r := Record.ofAccessed w.toAccessed
    reached.phases.getLast? = some (.accessed w.toAccessed) ∧
      reached.core.ReportsAccess w.instruction r ∧
      ∀ k ∈ r.memoryIndex, ∃ address, r.memoryAddress = some address ∧
        (Progress.accessed w.toAccessed).detail = "mem[" ++ toString k.toNat ++ "] addr=" ++
          hexWord address ++ " data=" ++ hexWord r.memoryValue := by
  intro reached r
  obtain ⟨hrun, word, hfetch, rfl⟩ := fetch_of_result h
  obtain ⟨hphases, log, hcore⟩ := advance_of_execute hrun hfetch trace (n := 4) (by decide)
  refine ⟨?_, ?_, fun k hk => detail_accessed _ hk⟩
  · rw [hphases]
    rfl
  · apply reportsAccess_accessed
    rw [hcore]
    rfl

/-- A load from an address that wraps around, at a program counter that is no multiple of four. -/
theorem reports_access_load :
    let c := { fresh false with pc := 6, program := programOf [0, 0x08402103] }
    let w := c.written 0x08402103
    let reached := Attempt.advance 4 c (.fresh none)
    (c.step none).result = .ok (some w) ∧
      reached.core.ReportsAccess w.instruction (.ofAccessed w.toAccessed) ∧
      (Record.ofAccessed w.toAccessed).memoryIndex = some 1 ∧
      (Record.ofAccessed w.toAccessed).memoryValue = 0xAF := by
  intro c w reached
  have hresult : (c.step none).result = .ok (some w) :=
    result_of_nextWord? rfl (by decide) (by decide +kernel)
  exact ⟨hresult, (reports_access c none w hresult).2.1, by decide +kernel, by decide +kernel⟩

/-- The store of 7 into the fourth data word. The memory phase reports 0. -/
theorem misreports_store :
    let c := { fresh false with program := programOf [0x00702623] }
    let reached := Attempt.advance 4 c (.fresh none)
    (reached.phases.getLast?.map fun p => (p.stage, p.record.memoryIndex, p.record.memoryValue)) =
        some (.memory, some 3, 0) ∧
      reached.core.memory.get 3 = 7 := by
  decide +kernel

end Core

end SingleCycle
