import Mathlib.Algebra.Group.Int.Defs
import Mathlib.Algebra.Group.Nat.Defs
import SingleCycle.Assembly.InstructionLine
import SingleCycle.Assembly.Program

/-!
# Lines that are accepted

What an instruction line has to be for the assembler to give its word: the first word names an
instruction, its operands are read as a statement (`Statement.Reads`), and a label that it refers to
is in reach.
-/

namespace SingleCycle

theorem bind_eq_ok {ε α β : Type} {x : Except ε α} {f : α → Except ε β} {y : β}
    (h : (x >>= f) = .ok y) : ∃ a, x = .ok a ∧ f a = .ok y := by
  cases x with
  | error e => cases h
  | ok a => exact ⟨a, rfl, h⟩

/-! ## Operands -/

namespace Operand

theorem register?_of_ok {token : List Char} {r : BitVec 5} (h : register token = .ok r) :
    register? token = some r := by
  unfold register at h
  cases hr : register? token with
  | none =>
    rw [hr] at h
    cases h
  | some q =>
    rw [hr] at h
    cases h
    rfl

theorem register_of_register? {token : List Char} {r : BitVec 5} (h : register? token = some r) :
    register token = .ok r := by
  unfold register
  rw [h]

/-- A distance that is accepted leads to the label, and has the bits that the instruction has. -/
theorem offset_eq_ok {labels : LabelTable} {address : Int} {bits : Nat} {token : List Char}
    {d : Int} (h : offset labels address bits token = .ok d) :
    labels.address? token = some (address + d) ∧ -(2 ^ (bits - 1)) ≤ d ∧ d < 2 ^ (bits - 1) := by
  unfold offset at h
  cases hlabel : labels.address? token with
  | none =>
    rw [hlabel] at h
    cases h
  | some label =>
    rw [hlabel] at h
    by_cases hrange : -(2 ^ (bits - 1)) ≤ label - address ∧ label - address < 2 ^ (bits - 1)
    · simp only [hrange.1, hrange.2, decide_true, Bool.and_self, if_true, Except.ok.injEq] at h
      subst h
      exact ⟨congrArg some (by omega), hrange⟩
    · have hcond : ¬((decide (-(2 ^ (bits - 1)) ≤ label - address) &&
          decide (label - address < 2 ^ (bits - 1))) = true) := by
        simpa only [Bool.and_eq_true, decide_eq_true_eq] using hrange
      simp only [if_neg hcond] at h
      split at h
      · cases h
      · cases h

theorem offset_of_address? {labels : LabelTable} {address : Int} {bits : Nat} {token : List Char}
    {d : Int} (hlabel : labels.address? token = some (address + d))
    (hlow : -(2 ^ (bits - 1)) ≤ d) (hhigh : d < 2 ^ (bits - 1)) :
    offset labels address bits token = .ok d := by
  have hdistance : address + d - address = d := by omega
  unfold offset
  simp only [hlabel, hdistance, hlow, hhigh, decide_true, Bool.and_self, if_true]

end Operand

/-! ## Statements -/

/-- Why the operands of an instruction are not read. -/
inductive Unreadable (line operands : List Char) : OperandError → Prop where
  | memoryForm : Unreadable line operands (.fault (.memoryForm operands))
  | count (got : Nat) : Unreadable line operands (.fault (.count got line operands))
  | register {token : List Char} {error : OperandError} (hmem : token ∈ Operand.split operands)
      (h : Operand.register token = .error error) : Unreadable line operands error
  | immediate {token : List Char} {error : OperandError} (hmem : token ∈ Operand.split operands)
      (h : Operand.immediate token = .error error) : Unreadable line operands error
  | shiftAmount {token : List Char} (hmem : token ∈ Operand.split operands) :
      Unreadable line operands (.fault (.shiftAmount token))

namespace Statement

/-- The operands of an instruction are read as a statement. -/
inductive Reads : Mnemonic → List (List Char) → Statement → Prop where
  | register {op : RegisterOp} {a b c : List Char} {rd rs1 rs2 : BitVec 5}
      (hrd : Operand.register? a = some rd) (hrs1 : Operand.register? b = some rs1)
      (hrs2 : Operand.register? c = some rs2) :
      Reads (.register op) [a, b, c] (.register op rd rs1 rs2)
  | immediate {op : ImmediateOp} {a b c : List Char} {rd rs1 : BitVec 5} {imm : Int}
      (hrd : Operand.register? a = some rd) (hrs1 : Operand.register? b = some rs1)
      (himm : Operand.immediate c = .ok imm) (hfits : fitsShift op imm = true) :
      Reads (.immediate op) [a, b, c] (.immediate op rd rs1 imm)
  | lw {a b c : List Char} {rd rs1 : BitVec 5} {imm : Int}
      (hrd : Operand.register? a = some rd) (himm : Operand.immediate b = .ok imm)
      (hrs1 : Operand.register? c = some rs1) : Reads .lw [a, b, c] (.lw rd imm rs1)
  | sw {a b c : List Char} {rs2 rs1 : BitVec 5} {imm : Int}
      (hrs2 : Operand.register? a = some rs2) (himm : Operand.immediate b = .ok imm)
      (hrs1 : Operand.register? c = some rs1) : Reads .sw [a, b, c] (.sw rs2 imm rs1)
  | branch {op : BranchOp} {a b label : List Char} {rs1 rs2 : BitVec 5}
      (hrs1 : Operand.register? a = some rs1) (hrs2 : Operand.register? b = some rs2) :
      Reads (.branch op) [a, b, label] (.branch op rs1 rs2 label)
  | lui {a b : List Char} {rd : BitVec 5} {imm : Int}
      (hrd : Operand.register? a = some rd) (himm : Operand.immediate b = .ok imm) :
      Reads .lui [a, b] (.lui rd imm)
  | jal {a target : List Char} {rd : BitVec 5} (hrd : Operand.register? a = some rd) :
      Reads .jal [a, target] (.jal rd target)

/-- What comes of reading the operands of an instruction: a statement, or a reason not to read
them. -/
inductive Parsed (m : Mnemonic) (line operands : List Char) : Except OperandError Statement → Prop
  | ok {s : Statement} (h : Reads m (Operand.split operands) s) : Parsed m line operands (.ok s)
  | error {error : OperandError} (h : Unreadable line operands error) :
      Parsed m line operands (.error error)

namespace Parsed

variable {m : Mnemonic} {line operands token : List Char}

/-- A register is read, and the rest depends on it. -/
theorem register {rest : BitVec 5 → Except OperandError Statement}
    (hmem : token ∈ Operand.split operands)
    (hrest : ∀ r, Operand.register? token = some r → Parsed m line operands (rest r)) :
    Parsed m line operands (Operand.register token >>= rest) := by
  cases htoken : Operand.register token with
  | error error => exact .error (.register hmem htoken)
  | ok r => exact hrest r (Operand.register?_of_ok htoken)

/-- A number is read, and the rest depends on it. -/
theorem immediate {rest : Int → Except OperandError Statement}
    (hmem : token ∈ Operand.split operands)
    (hrest : ∀ imm, Operand.immediate token = .ok imm → Parsed m line operands (rest imm)) :
    Parsed m line operands (Operand.immediate token >>= rest) := by
  cases htoken : Operand.immediate token with
  | error error => exact .error (.immediate hmem htoken)
  | ok imm => exact hrest imm htoken

end Parsed

/-- The operands are read one after the other, and the first one that is refused decides. -/
theorem parsed_parse (m : Mnemonic) (line operands : List Char) :
    Parsed m line operands (parse m line operands) := by
  unfold parse
  split
  · exact .error .memoryForm
  split
  · next op a b c htokens _ =>
    refine .register (by simp [htokens]) fun rs2 hrs2 => ?_
    refine .register (by simp [htokens]) fun rs1 hrs1 => ?_
    refine .register (by simp [htokens]) fun rd hrd => .ok ?_
    rw [htokens]
    exact .register hrd hrs1 hrs2
  · next op a b c htokens _ =>
    refine .immediate (by simp [htokens]) fun imm himm => ?_
    split
    · next hfits =>
      refine .register (by simp [htokens]) fun rs1 hrs1 => ?_
      refine .register (by simp [htokens]) fun rd hrd => .ok ?_
      rw [htokens]
      exact .immediate hrd hrs1 himm hfits
    · exact .error (.shiftAmount (by simp [htokens]))
  · next a b c htokens _ =>
    refine .immediate (by simp [htokens]) fun imm himm => ?_
    refine .register (by simp [htokens]) fun rs1 hrs1 => ?_
    refine .register (by simp [htokens]) fun rd hrd => .ok ?_
    rw [htokens]
    exact .lw hrd himm hrs1
  · next a b c htokens _ =>
    refine .immediate (by simp [htokens]) fun imm himm => ?_
    refine .register (by simp [htokens]) fun rs2 hrs2 => ?_
    refine .register (by simp [htokens]) fun rs1 hrs1 => .ok ?_
    rw [htokens]
    exact .sw hrs2 himm hrs1
  · next op a b c htokens _ =>
    refine .register (by simp [htokens]) fun rs1 hrs1 => ?_
    refine .register (by simp [htokens]) fun rs2 hrs2 => .ok ?_
    rw [htokens]
    exact .branch hrs1 hrs2
  · next a b htokens _ =>
    refine .immediate (by simp [htokens]) fun imm himm => ?_
    refine .register (by simp [htokens]) fun rd hrd => .ok ?_
    rw [htokens]
    exact .lui hrd himm
  · next a b htokens _ =>
    refine .register (by simp [htokens]) fun rd hrd => .ok ?_
    rw [htokens]
    exact .jal hrd
  · exact .error (.count _)

theorem reads_of_parse {m : Mnemonic} {line operands : List Char} {s : Statement}
    (h : parse m line operands = .ok s) : Reads m (Operand.split operands) s := by
  have hparsed := parsed_parse m line operands
  rw [h] at hparsed
  cases hparsed with
  | ok hreads => exact hreads

theorem unreadable_of_parse {m : Mnemonic} {line operands : List Char} {error : OperandError}
    (h : parse m line operands = .error error) : Unreadable line operands error := by
  have hparsed := parsed_parse m line operands
  rw [h] at hparsed
  cases hparsed with
  | error hunreadable => exact hunreadable

theorem isMemoryForm_of_parse {m : Mnemonic} {line operands : List Char} {s : Statement}
    (h : parse m line operands = .ok s) (hm : accessesMemory m = true) :
    Operand.isMemoryForm operands = true := by
  cases hform : Operand.isMemoryForm operands with
  | true => rfl
  | false =>
    unfold parse at h
    simp [hm, hform] at h

theorem parse_of_reads {m : Mnemonic} {line operands : List Char} {s : Statement}
    (hform : accessesMemory m = true → Operand.isMemoryForm operands = true)
    (h : Reads m (Operand.split operands) s) : parse m line operands = .ok s := by
  have hguard : (accessesMemory m && !Operand.isMemoryForm operands) = false := by
    cases hm : accessesMemory m with
    | false => rfl
    | true =>
      rw [hform hm]
      rfl
  unfold parse
  rw [hguard, if_neg Bool.false_ne_true]
  generalize Operand.split operands = tokens at h
  cases h with
  | register hrd hrs1 hrs2 =>
    simp only [Operand.register_of_register? hrd, Operand.register_of_register? hrs1,
      Operand.register_of_register? hrs2]
    rfl
  | immediate hrd hrs1 himm hfits =>
    simp only [Operand.register_of_register? hrd, Operand.register_of_register? hrs1, himm]
    exact if_pos hfits
  | lw hrd himm hrs1 =>
    simp only [Operand.register_of_register? hrd, Operand.register_of_register? hrs1, himm]
    rfl
  | sw hrs2 himm hrs1 =>
    simp only [Operand.register_of_register? hrs1, Operand.register_of_register? hrs2, himm]
    rfl
  | branch hrs1 hrs2 =>
    simp only [Operand.register_of_register? hrs1, Operand.register_of_register? hrs2]
    rfl
  | lui hrd himm =>
    simp only [Operand.register_of_register? hrd, himm]
    rfl
  | jal hrd =>
    simp only [Operand.register_of_register? hrd]
    rfl

/-- A jump goes by a number that is written, unless a label has that name. -/
theorem jumpOffset_of_immediate {labels : LabelTable} {address : Int} {target : List Char} {d : Int}
    (hfree : labels.address? target = none) (hd : Operand.immediate target = .ok d) :
    jumpOffset labels address target = .ok d := by
  have hnumber : (Operand.immediate? target).isNone = false := by
    cases htarget : Operand.immediate? target with
    | none =>
      unfold Operand.immediate at hd
      rw [htarget] at hd
      cases hd
    | some digits => rfl
  unfold jumpOffset
  rw [hfree, hnumber]
  exact hd

end Statement

/-! ## Lines -/

/-- A line that gives a word has operands that are read. -/
theorem parse_of_assembleLine {labels : LabelTable} {address line : Int} {code : List Char}
    {w : Word} (h : assembleLine labels address line code = .ok (some w)) :
    ∃ m s, mnemonicOf? code = some m ∧
      Statement.parse m code (Text.splitWord code).2 = .ok s ∧ s.encode labels address = .ok w := by
  unfold assembleLine at h
  simp only at h
  split at h
  · cases h
  split at h
  · cases h
  · next m hm =>
    split at h
    · next encoded hencoded =>
      cases h
      obtain ⟨s, hs, hw⟩ := bind_eq_ok hencoded
      exact ⟨m, s, hm, hs, hw⟩
    · cases h

/-- A line that gives a word holds a statement, whose word it is. -/
theorem assembleLine_eq_some {labels : LabelTable} {address line : Int} {code : List Char}
    {w : Word} (h : assembleLine labels address line code = .ok (some w)) :
    ∃ m s, mnemonicOf? code = some m ∧ Statement.Reads m (operandsOf code) s ∧
      s.encode labels address = .ok w := by
  obtain ⟨m, s, hm, hs, hw⟩ := parse_of_assembleLine h
  exact ⟨m, s, hm, Statement.reads_of_parse hs, hw⟩

/-- A line that holds a statement gives its word. -/
theorem assembleLine_of_reads {labels : LabelTable} {address line : Int} {code : List Char}
    {m : Mnemonic} {s : Statement} {w : Word} (hm : mnemonicOf? code = some m)
    (hform : Statement.accessesMemory m = true →
      Operand.isMemoryForm (Text.splitWord code).2 = true)
    (hreads : Statement.Reads m (operandsOf code) s) (hencode : s.encode labels address = .ok w) :
    assembleLine labels address line code = .ok (some w) := by
  have hparse : Statement.parse m code (Text.splitWord code).2 = .ok s :=
    Statement.parse_of_reads hform hreads
  have hword : (Text.splitWord code).1.isEmpty = false := by
    cases hname : (Text.splitWord code).1 with
    | nil =>
      have hnone : Mnemonic.ofName? [] = none := by decide
      unfold mnemonicOf? at hm
      rw [hname, List.map_nil, hnone] at hm
      cases hm
    | cons c cs => rfl
  have hencoded :
      Statement.parse m code (Text.splitWord code).2 >>= Statement.encode labels address = .ok w := by
    rw [hparse]
    exact hencode
  unfold mnemonicOf? at hm
  unfold assembleLine
  simp only [hword, hm, hencoded, Bool.false_eq_true, if_false]

end SingleCycle
