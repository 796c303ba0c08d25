import SingleCycle.Datapath.Control
import SingleCycle.Isa.Disassembly
import SingleCycle.Proofs.Layout

/-!
# What an instruction selects

The name of a word fixes its opcode, its function fields and its control signals, and the arithmetic
unit under these signals computes what the instruction set asks for. The control unit knows the
function field of every word, named or not.
-/

namespace SingleCycle

/-! ## Opcodes -/

namespace Opcode

@[simp]
theorem ofCode?_code (o : Opcode) : ofCode? o.code = some o := by
  cases o <;> decide

end Opcode

/-! ## Names -/

namespace Mnemonic

@[simp]
theorem ofName?_name (m : Mnemonic) : ofName? m.name.toList = some m := by
  cases m with
  | register op => cases op <;> decide
  | immediate op => cases op <;> decide
  | branch op => cases op <;> decide
  | lw => decide
  | sw => decide
  | lui => decide
  | jal => decide

theorem name_injective {m n : Mnemonic} (h : m.name = n.name) : m = n := by
  have hsome : some m = some n := by rw [← ofName?_name m, h, ofName?_name n]
  exact Option.some.inj hsome

/-- No name of an instruction is the text `s`, if no instruction is found under it. -/
theorem name_ne {m : Mnemonic} {s : String} (h : ofName? s.toList = none) : s ≠ m.name := by
  intro hs
  rw [hs, ofName?_name] at h
  exact Option.some_ne_none m h

/-- The opcode of an instruction. -/
def opcode : Mnemonic → Opcode
  | register _ => .register
  | immediate _ => .immediate
  | lw => .load
  | sw => .store
  | branch _ => .branch
  | lui => .lui
  | jal => .jal

/-- The first function field of an instruction, where it has one. -/
def funct3? : Mnemonic → Option (BitVec 3)
  | register op => some op.funct3
  | immediate op => some op.funct3
  | lw => some wordFunct3
  | sw => some wordFunct3
  | branch op => some op.funct3
  | _ => none

/-- The second function field of an instruction, where it has one. -/
def funct7? : Mnemonic → Option (BitVec 7)
  | register op => some op.funct7
  | immediate op => op.funct7?
  | _ => none

/-- The format of the immediate of an instruction. -/
def format? : Mnemonic → Option Format
  | immediate _ => some .immediate
  | lw => some .immediate
  | sw => some .store
  | branch _ => some .branch
  | _ => none

end Mnemonic

/-! ## Signals -/

/-- The operation of the arithmetic unit for an operation between registers. -/
def RegisterOp.aluOp : RegisterOp → AluOp
  | add => .add
  | sub => .sub
  | sll => .sll
  | slt => .slt
  | sltu => .sltu
  | xor => .xor
  | srl => .srl
  | sra => .sra
  | or => .or
  | and => .and

/-- The comparison of a branch. -/
def BranchOp.comparison : BranchOp → AluOp
  | beq => .beq
  | bne => .beq
  | blt => .blt
  | bge => .blt
  | bltu => .bltu
  | bgeu => .bltu

/-- Whether a branch is taken when its comparison fails. -/
def BranchOp.negated : BranchOp → Bool
  | bne => true
  | bge => true
  | bgeu => true
  | _ => false

/-- The signals of an instruction. -/
def Mnemonic.control : Mnemonic → Control
  | register op => { Control.idle with aluOp := op.aluOp }
  | immediate op => { Control.idle with aluSource := true, aluOp := op.registerOp.aluOp }
  | lw => { Control.idle with aluSource := true, memoryToRegister := true }
  | sw => { Control.idle with aluSource := true, memoryWrite := true }
  | branch op =>
    { Control.idle with branch := true, branchNegated := op.negated, aluOp := op.comparison }
  | lui => .idle
  | jal => .idle

theorem flag_eq (p : Prop) [Decidable p] : AluOp.flag (decide p) = if p then 1 else 0 := by
  by_cases hp : p <;> simp [AluOp.flag, hp]

theorem toNat_wordOf (n : Int) : (wordOf n).toNat = (n % 2 ^ 32).toNat :=
  BitVec.toNat_ofInt n

theorem natCast_wordOf (n : Int) : ((wordOf n).toNat : Int) = unsigned 32 n := by
  have hnonneg : 0 ≤ n % 2 ^ 32 := Int.emod_nonneg n (by decide)
  rw [toNat_wordOf, Int.toNat_of_nonneg hnonneg]
  rfl

theorem wordOf_natCast (n : Nat) : wordOf n = BitVec.ofNat 32 n := BitVec.ofInt_natCast 32 n

@[simp]
theorem wordOf_toNat (w : Word) : wordOf w.toNat = w := by
  rw [wordOf_natCast, BitVec.ofNat_toNat, BitVec.setWidth_eq]

/-- The arithmetic unit computes what the instruction set asks for. -/
theorem RegisterOp.eval_aluOp (op : RegisterOp) (a b : Word) :
    op.aluOp.eval a b = op.value a b := by
  cases op with
  | add =>
    apply BitVec.eq_of_toNat_eq
    show (a + b).toNat = (wordOf (a.toNat + b.toNat)).toNat
    rw [BitVec.toNat_add, toNat_wordOf]
    omega
  | sub =>
    apply BitVec.eq_of_toNat_eq
    show (a - b).toNat = (wordOf (a.toNat - b.toNat)).toNat
    rw [BitVec.toNat_sub, toNat_wordOf]
    omega
  | sll =>
    apply BitVec.eq_of_toNat_eq
    show (a <<< (b.toNat % 32)).toNat = (wordOf (a.toNat * 2 ^ (b.toNat % 32))).toNat
    have hcast : (a.toNat * 2 ^ (b.toNat % 32) : Int) = (a.toNat * 2 ^ (b.toNat % 32) : Nat) := by
      rw [Int.natCast_mul, Int.natCast_pow]
      rfl
    rw [hcast, wordOf_natCast, BitVec.toNat_shiftLeft, BitVec.toNat_ofNat, Nat.shiftLeft_eq]
  | slt => exact flag_eq _
  | sltu => exact flag_eq _
  | xor => rfl
  | srl =>
    show a >>> (b.toNat % 32) = wordOf (a.toNat / 2 ^ (b.toNat % 32))
    have hcast : (a.toNat / 2 ^ (b.toNat % 32) : Int) = (a.toNat / 2 ^ (b.toNat % 32) : Nat) := by
      rw [Int.natCast_ediv, Int.natCast_pow]
      rfl
    rw [hcast, ← Nat.shiftRight_eq_div_pow, ← BitVec.toNat_ushiftRight, wordOf_toNat]
  | sra =>
    show a.sshiftRight (b.toNat % 32) = BitVec.ofInt 32 (a.toInt / 2 ^ (b.toNat % 32))
    rw [← BitVec.ofInt_toInt (x := a.sshiftRight (b.toNat % 32)), BitVec.toInt_sshiftRight,
      Int.shiftRight_eq_div_pow, Int.natCast_pow]
    rfl
  | or => rfl
  | and => rfl

theorem flag_beq (b negated : Bool) :
    (AluOp.flag b == if negated then 0 else 1) = (b != negated) := by
  cases b <;> cases negated <;> rfl

/-- A branch is taken when the arithmetic unit gives 1, or 0 if the branch is negated. -/
theorem BranchOp.eval_comparison (op : BranchOp) (a b : Word) :
    (op.comparison.eval a b == if op.negated then 0 else 1) = op.holds a b := by
  cases op with
  | beq => exact (flag_beq (decide (a = b)) false).trans (by simp [holds])
  | bne => exact (flag_beq (decide (a = b)) true).trans (by simp [holds])
  | blt => exact (flag_beq (a.slt b) false).trans (by simp [holds, BitVec.slt_eq_decide])
  | bge =>
    exact (flag_beq (a.slt b) true).trans (by simp [holds, BitVec.slt_eq_decide, ← decide_not])
  | bltu => exact (flag_beq (a.ult b) false).trans (by simp [holds, BitVec.ult_eq_decide])
  | bgeu =>
    exact (flag_beq (a.ult b) true).trans (by simp [holds, BitVec.ult_eq_decide, ← decide_not])

/-! ## Words with a name -/

namespace Instruction

variable {i : Instruction}

theorem mnemonic?_of_name {m : Mnemonic} (h : i.name = m.name) : i.mnemonic? = some m := by
  have hecall : "ecall" ≠ m.name := Mnemonic.name_ne (by decide)
  have hebreak : "ebreak" ≠ m.name := Mnemonic.name_ne (by decide)
  have hunknown : "UNKNOWN" ≠ m.name := Mnemonic.name_ne (by decide)
  unfold name trapName? at h
  split at h
  · exact absurd h hecall
  split at h
  · exact absurd h hebreak
  · cases hm : i.mnemonic? with
    | none => rw [hm] at h; exact absurd h hunknown
    | some n => rw [hm] at h; rw [Mnemonic.name_injective h]

end Instruction

theorem RegisterOp.fields_of_ofFields? {op : RegisterOp} {funct3 funct7 : Int}
    (h : ofFields? funct3 funct7 = some op) :
    funct3 = op.funct3.toNat ∧ funct7 = op.funct7.toNat := by
  have hfound := List.find?_some h
  simp only [Bool.and_eq_true, beq_iff_eq] at hfound
  exact ⟨hfound.1.symm, hfound.2.symm⟩

theorem ImmediateOp.fields_of_ofFields? {op : ImmediateOp} {funct3 funct7 : Int}
    (h : ofFields? funct3 funct7 = some op) :
    funct3 = op.funct3.toNat ∧ ∀ bits ∈ op.funct7?, funct7 = bits.toNat := by
  have hfound := List.find?_some h
  simp only [Bool.and_eq_true, beq_iff_eq] at hfound
  refine ⟨hfound.1.symm, fun bits hbits => ?_⟩
  rw [hbits] at hfound
  exact (eq_of_beq hfound.2).symm

theorem BranchOp.funct3_of_ofFunct3? {op : BranchOp} {funct3 : Int}
    (h : ofFunct3? funct3 = some op) : funct3 = op.funct3.toNat := by
  have hfound := List.find?_some h
  exact (eq_of_beq hfound).symm

namespace Instruction

variable {i : Instruction}

theorem opcode?_of_mnemonic {m : Mnemonic} (h : i.mnemonic? = some m) :
    i.opcode? = some m.opcode := by
  unfold mnemonic? Mnemonic.ofFields? at h
  unfold opcode?
  cases ho : Opcode.ofCode? i.opcode.toNat with
  | none => rw [ho] at h; cases h
  | some o =>
    rw [ho] at h
    cases o with
    | register => obtain ⟨op, -, rfl⟩ := Option.map_eq_some_iff.1 h; rfl
    | immediate => obtain ⟨op, -, rfl⟩ := Option.map_eq_some_iff.1 h; rfl
    | load => obtain ⟨-, hm⟩ := Option.ite_none_right_eq_some.1 h; cases hm; rfl
    | store => obtain ⟨-, hm⟩ := Option.ite_none_right_eq_some.1 h; cases hm; rfl
    | branch => obtain ⟨op, -, rfl⟩ := Option.map_eq_some_iff.1 h; rfl
    | lui => cases h; rfl
    | jal => cases h; rfl
    | system => cases h

theorem format?_of_mnemonic {m : Mnemonic} (h : i.mnemonic? = some m) : i.format? = m.format? := by
  unfold format?
  rw [opcode?_of_mnemonic h]
  cases m <;> rfl

/-- The function fields of a word with a name are those of the name. -/
theorem fields_of_mnemonic {m : Mnemonic} (h : i.mnemonic? = some m) :
    (∀ bits ∈ m.funct3?, i.funct3 = bits) ∧ ∀ bits ∈ m.funct7?, i.funct7 = bits := by
  have ho : Opcode.ofCode? i.opcode.toNat = some m.opcode := opcode?_of_mnemonic h
  have hfield : ∀ {n : Nat} {a b : BitVec n}, (a.toNat : Int) = b.toNat → a = b := fun hab =>
    BitVec.eq_of_toNat_eq (Int.ofNat.inj hab)
  unfold mnemonic? Mnemonic.ofFields? at h
  rw [ho] at h
  cases m with
  | register op =>
    obtain ⟨op', hop, heq⟩ := Option.map_eq_some_iff.1 h
    cases heq
    obtain ⟨h3, h7⟩ := RegisterOp.fields_of_ofFields? hop
    constructor
    · rintro bits ⟨⟩
      exact hfield h3
    · rintro bits ⟨⟩
      exact hfield h7
  | immediate op =>
    obtain ⟨op', hop, heq⟩ := Option.map_eq_some_iff.1 h
    cases heq
    obtain ⟨h3, h7⟩ := ImmediateOp.fields_of_ofFields? hop
    constructor
    · rintro bits ⟨⟩
      exact hfield h3
    · intro bits hbits
      exact hfield (h7 bits hbits)
  | branch op =>
    obtain ⟨op', hop, heq⟩ := Option.map_eq_some_iff.1 h
    cases heq
    refine ⟨?_, nofun⟩
    rintro bits ⟨⟩
    exact hfield (BranchOp.funct3_of_ofFunct3? hop)
  | lw =>
    obtain ⟨h3, -⟩ := Option.ite_none_right_eq_some.1 h
    refine ⟨?_, nofun⟩
    rintro bits ⟨⟩
    exact hfield h3
  | sw =>
    obtain ⟨h3, -⟩ := Option.ite_none_right_eq_some.1 h
    refine ⟨?_, nofun⟩
    rintro bits ⟨⟩
    exact hfield h3
  | lui => exact ⟨nofun, nofun⟩
  | jal => exact ⟨nofun, nofun⟩

theorem control_of_mnemonic {m : Mnemonic} (h : i.mnemonic? = some m) :
    i.control = .ok m.control := by
  have ho : Opcode.ofCode? i.opcode.toNat = some m.opcode := opcode?_of_mnemonic h
  unfold mnemonic? Mnemonic.ofFields? at h
  unfold control Control.ofFields
  rw [ho] at h ⊢
  cases m with
  | register op =>
    obtain ⟨op', hop, heq⟩ := Option.map_eq_some_iff.1 h
    cases heq
    obtain ⟨h3, h7⟩ := RegisterOp.fields_of_ofFields? hop
    rw [h3, h7]
    cases op <;> rfl
  | immediate op =>
    obtain ⟨op', hop, heq⟩ := Option.map_eq_some_iff.1 h
    cases heq
    obtain ⟨h3, h7⟩ := ImmediateOp.fields_of_ofFields? hop
    rw [h3]
    cases op with
    | srli => rw [h7 _ rfl]; rfl
    | srai => rw [h7 _ rfl]; rfl
    | slli => rw [h7 _ rfl]; rfl
    | addi | slti | sltiu | xori | ori | andi =>
      -- these operations are their own alternates, so the immediate bits in `funct7` do not matter
      exact congrArg (fun op => Except.ok { Control.idle with aluSource := true, aluOp := op })
        (ite_self _)
  | branch op =>
    obtain ⟨op', hop, heq⟩ := Option.map_eq_some_iff.1 h
    cases heq
    rw [BranchOp.funct3_of_ofFunct3? hop]
    cases op <;> rfl
  | lw => rfl
  | sw => rfl
  | lui => rfl
  | jal => rfl

/-! ## All words -/

variable (i : Instruction)

theorem arithmeticOp?_of_lt {n : Nat} (hn : n < 8) : ∃ op, Control.arithmeticOp? n = some op := by
  have hall : ∀ k : Fin 8, (Control.arithmeticOp? k.val).isSome := by decide
  exact Option.isSome_iff_exists.1 (hall ⟨n, hn⟩)

/-- The function field of a word has three bits, which the control unit always knows. -/
theorem control_eq_ok : ∃ signals, i.control = .ok signals := by
  obtain ⟨op, hop⟩ := arithmeticOp?_of_lt i.funct3.isLt
  unfold control Control.ofFields
  split
  · exact ⟨_, by rw [hop]⟩
  · exact ⟨_, by rw [hop]⟩
  · exact ⟨_, rfl⟩
  · exact ⟨_, rfl⟩
  · split <;> exact ⟨_, rfl⟩
  · exact ⟨_, rfl⟩

/-- The signals of an instruction. -/
def signals : Control :=
  match i.control with
  | .ok signals => signals
  | .error _ => .idle

@[simp]
theorem control_eq_signals : i.control = .ok i.signals := by
  obtain ⟨c, hc⟩ := i.control_eq_ok
  rw [signals, hc]

/-- The opcode alone fixes what the instruction does with data memory and whether it branches. -/
theorem signals_of_fields {opcode funct3 funct7 : Int} {signals : Control}
    (h : Control.ofFields opcode funct3 funct7 = .ok signals) :
    signals.memoryWrite = (Opcode.ofCode? opcode == some .store) ∧
      signals.memoryToRegister = (Opcode.ofCode? opcode == some .load) ∧
      signals.branch = (Opcode.ofCode? opcode == some .branch) := by
  unfold Control.ofFields at h
  cases ho : Opcode.ofCode? opcode with
  | none => rw [ho] at h; cases h; exact ⟨rfl, rfl, rfl⟩
  | some o =>
    rw [ho] at h
    cases o with
    | register =>
      cases hop : Control.arithmeticOp? funct3 with
      | none => simp only [hop] at h; cases h
      | some op => simp only [hop] at h; cases h; exact ⟨rfl, rfl, rfl⟩
    | immediate =>
      cases hop : Control.arithmeticOp? funct3 with
      | none => simp only [hop] at h; cases h
      | some op => simp only [hop] at h; cases h; exact ⟨rfl, rfl, rfl⟩
    | branch =>
      cases hop : Control.comparison? funct3 with
      | none => simp only [hop] at h; cases h; exact ⟨rfl, rfl, rfl⟩
      | some entry => simp only [hop] at h; cases h; exact ⟨rfl, rfl, rfl⟩
    | load | store | lui | jal | system => cases h; exact ⟨rfl, rfl, rfl⟩

@[simp]
theorem signals_memoryWrite : i.signals.memoryWrite = (i.opcode? == some .store) :=
  (signals_of_fields i.control_eq_signals).1

variable {i} in
theorem memoryWrite_iff : i.signals.memoryWrite = true ↔ i.opcode? = some .store := by
  rw [signals_memoryWrite, beq_iff_eq]

variable {i} in
theorem memoryWrite_eq_false_iff :
    i.signals.memoryWrite = false ↔ i.opcode? ≠ some .store := by
  rw [signals_memoryWrite, beq_eq_false_iff_ne]

@[simp]
theorem signals_memoryToRegister : i.signals.memoryToRegister = (i.opcode? == some .load) :=
  (signals_of_fields i.control_eq_signals).2.1

@[simp]
theorem signals_branch : i.signals.branch = (i.opcode? == some .branch) :=
  (signals_of_fields i.control_eq_signals).2.2

variable {i} in
theorem signals_of_store (h : i.opcode? = some .store) :
    i.signals = { Control.idle with aluSource := true, memoryWrite := true } := by
  have hcode : Opcode.ofCode? i.opcode.toNat = some .store := h
  have hcontrol : i.control = .ok { Control.idle with aluSource := true, memoryWrite := true } := by
    rw [control, Control.ofFields, hcode]
  rw [signals, hcontrol]

variable {i} in
theorem signals_of_mnemonic {m : Mnemonic} (h : i.mnemonic? = some m) : i.signals = m.control := by
  rw [signals, control_of_mnemonic h]

end Instruction

/-! ## Fields -/

namespace Operation

variable (w : Word)

@[simp]
theorem registerField_rd : registerField w 7 = Instruction.rd ⟨w⟩ := by
  apply BitVec.eq_of_toNat_eq
  rw [Instruction.toNat_rd, registerField, BitVec.toNat_ofNat]

@[simp]
theorem registerField_rs1 : registerField w 15 = Instruction.rs1 ⟨w⟩ := by
  apply BitVec.eq_of_toNat_eq
  rw [Instruction.toNat_rs1, registerField, BitVec.toNat_ofNat]

@[simp]
theorem registerField_rs2 : registerField w 20 = Instruction.rs2 ⟨w⟩ := by
  apply BitVec.eq_of_toNat_eq
  rw [Instruction.toNat_rs2, registerField, BitVec.toNat_ofNat]

end Operation

end SingleCycle
