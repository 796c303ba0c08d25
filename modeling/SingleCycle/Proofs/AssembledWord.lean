import SingleCycle.Proofs.Codec
import SingleCycle.Proofs.Tokens

/-!
# Assembled words

The word that the assembler makes of a line decodes to what stands on the line: the same name, the
registers that the operands name, each in its place, and the immediate that they write, cut to the
width that the format has for it.
-/

namespace SingleCycle

/-! ## Names -/

theorem Mnemonic.name_of_ofName? {m : Mnemonic} {name : List Char} (h : ofName? name = some m) :
    m.name.toList = name := by
  have hfound := List.find?_some h
  exact eq_of_beq hfound

theorem Instruction.name_of_mnemonic {i : Instruction} {m : Mnemonic} (h : i.mnemonic? = some m) :
    i.name = m.name := by
  have hrun := Instruction.not_halt_of_mnemonic h
  have hecall : i.data ≠ ecall := fun hw => hrun (by simp [haltWords, hw])
  have hebreak : i.data ≠ ebreak := fun hw => hrun (by simp [haltWords, hw])
  unfold name trapName?
  rw [if_neg hecall, if_neg hebreak, h]
  rfl

/-! ## Operands -/

/-- The operands of an instruction as the tokens of its line write them: registers by their names,
immediates cut to their widths, and the distance to a label without its bit 0. -/
inductive Shows (labels : LabelTable) (address : Int) (i : Instruction) :
    Mnemonic → List (List Char) → Prop where
  | register {op : RegisterOp} {a b c : List Char} (hrd : a = registerToken i.rd)
      (hrs1 : b = registerToken i.rs1) (hrs2 : c = registerToken i.rs2) :
      Shows labels address i (.register op) [a, b, c]
  | immediate {op : ImmediateOp} {a b c : List Char} {v : Int} (hop : op.shifts = false)
      (hrd : a = registerToken i.rd) (hrs1 : b = registerToken i.rs1) (hv : Operand.Writes c v)
      (himm : i.imm = signed 12 v) : Shows labels address i (.immediate op) [a, b, c]
  | shift {op : ImmediateOp} {a b c : List Char} {v : Int} (hop : op.shifts = true)
      (hrd : a = registerToken i.rd) (hrs1 : b = registerToken i.rs1) (hv : Operand.Writes c v)
      (himm : unsigned 5 i.imm = v) : Shows labels address i (.immediate op) [a, b, c]
  | lw {a b c : List Char} {v : Int} (hrd : a = registerToken i.rd) (hv : Operand.Writes b v)
      (himm : i.imm = signed 12 v) (hrs1 : c = registerToken i.rs1) :
      Shows labels address i .lw [a, b, c]
  | sw {a b c : List Char} {v : Int} (hrs2 : a = registerToken i.rs2) (hv : Operand.Writes b v)
      (himm : i.imm = signed 12 v) (hrs1 : c = registerToken i.rs1) :
      Shows labels address i .sw [a, b, c]
  | branch {op : BranchOp} {a b label : List Char} {target : Int} (hrs1 : a = registerToken i.rs1)
      (hrs2 : b = registerToken i.rs2) (htarget : labels.address? label = some target)
      (himm : i.imm = withoutBit0 (target - address)) :
      Shows labels address i (.branch op) [a, b, label]
  | lui {a b : List Char} {v : Int} (hrd : a = registerToken i.rd) (hv : Operand.Writes b v)
      (himm : i.upperImm = unsigned 20 v) : Shows labels address i .lui [a, b]
  | jump {a label : List Char} {target : Int} (hrd : a = registerToken i.rd)
      (htarget : labels.address? label = some target)
      (hoffset : i.jumpOffset = withoutBit0 (target - address)) :
      Shows labels address i .jal [a, label]
  | offset {a b : List Char} {v : Int} (hrd : a = registerToken i.rd)
      (hfree : labels.address? b = none) (hv : Operand.Writes b v)
      (hoffset : i.jumpOffset = withoutBit0 (signed 21 v)) : Shows labels address i .jal [a, b]

namespace Encoding

section

variable (imm : BitVec 12) (rs2 rs1 rd : BitVec 5) (funct3 : BitVec 3) (o : Opcode)

@[simp]
theorem format?_wordR (funct7 : BitVec 7) :
    Instruction.format? ⟨wordR funct7 rs2 rs1 funct3 rd o.bits⟩ = o.format? :=
  Instruction.format?_of_opcode? (opcode?_wordR funct7 rs2 rs1 rd funct3 o)

theorem imm_wordI (ho : o.format? = some .immediate) :
    Instruction.imm ⟨wordI imm rs1 funct3 rd o.bits⟩ = imm.toInt := by
  have hformat : Instruction.format? ⟨wordI imm rs1 funct3 rd o.bits⟩ = some .immediate := by
    rw [wordI_eq_wordR, format?_wordR, ho]
  rw [Instruction.imm_of_immediate _ hformat, immediateI_wordI]

@[simp]
theorem imm_wordS :
    Instruction.imm ⟨wordS imm rs2 rs1 funct3 Opcode.store.bits⟩ = imm.toInt := by
  have hformat : Instruction.format? ⟨wordS imm rs2 rs1 funct3 Opcode.store.bits⟩ = some .store :=
    format?_wordR _ _ _ _ .store _
  rw [Instruction.imm_of_store _ hformat, immediateS_wordS]

@[simp]
theorem upperImm_wordU (v : BitVec 20) (opcode : BitVec 7) :
    Instruction.upperImm ⟨wordU v rd opcode⟩ = v.toNat := by
  unfold Instruction.upperImm
  rw [wordU, toNat_slice, toNat_append_eq, toNat_append_eq]
  omega

end

end Encoding

/-! ## Statements -/

namespace Statement

variable {labels : LabelTable} {address : Int}

/-- The immediate of an instruction that does not shift. -/
theorem imm_of_not_shifts {op : ImmediateOp} {rd rs1 : BitVec 5} {v : Int}
    (hop : op.shifts = false) :
    Instruction.imm ⟨Encoding.wordI (immediateBits op v) rs1 op.funct3 rd Opcode.immediate.bits⟩ =
      signed 12 v := by
  have hfunct7 : op.funct7? = none := by
    rw [ImmediateOp.shifts_eq] at hop
    exact Option.isNone_iff_eq_none.1 (by simpa using hop)
  rw [Encoding.imm_wordI _ _ _ _ _ rfl, immediateBits_of_none hfunct7, toInt_ofInt]

/-- The amount of a shift is in the low five bits of the immediate. -/
theorem imm_of_shifts {op : ImmediateOp} {rd rs1 : BitVec 5} {v : Int} (hop : op.shifts = true)
    (hfits : fitsShift op v = true) :
    unsigned 5 (Instruction.imm
      ⟨Encoding.wordI (immediateBits op v) rs1 op.funct3 rd Opcode.immediate.bits⟩) = v := by
  rw [ImmediateOp.shifts_eq] at hop
  obtain ⟨funct7, hfunct7⟩ := Option.isSome_iff_exists.1 hop
  have hrange := (range_of_fitsShift hfunct7).1 hfits
  have hlow : ((BitVec.ofInt 5 v).toNat : Int) = v := by
    rw [toNat_ofInt_eq_unsigned]
    exact Int.emod_eq_of_lt hrange.1 hrange.2
  rw [Encoding.imm_wordI _ _ _ _ _ rfl, immediateBits_of_shift hfunct7, toInt_eq_signed,
    toNat_append_eq]
  unfold signed unsigned
  rw [Int.bmod_def]
  split <;> omega

theorem shows_of_encode {m : Mnemonic} {tokens : List (List Char)} {s : Statement} {w : Word}
    (hreads : Reads m tokens s) (hencode : s.encode labels address = .ok w) :
    Shows labels address ⟨w⟩ m tokens := by
  cases hreads with
  | @register op a b c rd rs1 rs2 hrd hrs1 hrs2 =>
    cases hencode
    refine .register ?_ ?_ ?_
    · simp [Operand.eq_registerToken hrd]
    · simp [Operand.eq_registerToken hrs1]
    · simp [Operand.eq_registerToken hrs2]
  | @immediate op a b c rd rs1 v hrd hrs1 himm hfits =>
    cases hencode
    have hv := Operand.writes_of_immediate himm
    have ha : a = registerToken (Instruction.rd ⟨Encoding.wordI (immediateBits op v) rs1 op.funct3
        rd Opcode.immediate.bits⟩) := by
      simp [Encoding.wordI_eq_wordR, Operand.eq_registerToken hrd]
    have hb : b = registerToken (Instruction.rs1 ⟨Encoding.wordI (immediateBits op v) rs1 op.funct3
        rd Opcode.immediate.bits⟩) := by
      simp [Encoding.wordI_eq_wordR, Operand.eq_registerToken hrs1]
    cases hop : op.shifts with
    | false => exact .immediate hop ha hb hv (imm_of_not_shifts hop)
    | true => exact .shift hop ha hb hv (imm_of_shifts hop hfits)
  | lw hrd himm hrs1 =>
    cases hencode
    refine .lw ?_ (Operand.writes_of_immediate himm) ?_ ?_
    · simp [Encoding.wordI_eq_wordR, Operand.eq_registerToken hrd]
    · rw [Encoding.imm_wordI _ _ _ _ _ rfl, toInt_ofInt]
    · simp [Encoding.wordI_eq_wordR, Operand.eq_registerToken hrs1]
  | sw hrs2 himm hrs1 =>
    cases hencode
    refine .sw ?_ (Operand.writes_of_immediate himm) ?_ ?_
    · simp [Encoding.wordS_eq_wordR, Operand.eq_registerToken hrs2]
    · rw [Encoding.imm_wordS, toInt_ofInt]
    · simp [Encoding.wordS_eq_wordR, Operand.eq_registerToken hrs1]
  | branch hrs1 hrs2 =>
    obtain ⟨d, hd, hw⟩ := bind_eq_ok hencode
    cases hw
    obtain ⟨htarget, hlow, hhigh⟩ := Operand.offset_eq_ok hd
    -- a label in reach is at a distance that its bits hold
    have hself : signed 13 d = d := signed_eq_self hlow hhigh
    refine .branch ?_ ?_ htarget ?_
    · simp [Encoding.wordB_eq_wordR, Operand.eq_registerToken hrs1]
    · simp [Encoding.wordB_eq_wordR, Operand.eq_registerToken hrs2]
    · rw [Encoding.imm_wordB, hself, add_sub_cancel_left]
  | lui hrd himm =>
    cases hencode
    refine .lui ?_ (Operand.writes_of_immediate himm) ?_
    · simp [Encoding.wordU_eq_wordR, Operand.eq_registerToken hrd]
    · rw [Encoding.upperImm_wordU, toNat_ofInt_eq_unsigned]
  | @jal a target rd hrd =>
    obtain ⟨d, hd, hw⟩ := bind_eq_ok hencode
    cases hw
    have ha : a = registerToken (Instruction.rd ⟨Encoding.wordJ (.ofInt 21 d) rd
        Opcode.jal.bits⟩) := by
      simp [Encoding.wordJ_eq_wordU, Encoding.wordU_eq_wordR, Operand.eq_registerToken hrd]
    have hoffset := Encoding.jumpOffset_wordJ rd Opcode.jal.bits d
    unfold jumpOffset at hd
    split at hd
    · obtain ⟨htarget, hlow, hhigh⟩ := Operand.offset_eq_ok hd
      have hself : signed 21 d = d := signed_eq_self hlow hhigh
      refine .jump ha htarget ?_
      rw [hoffset, hself, add_sub_cancel_left]
    · next hfree =>
      simp only [Bool.or_eq_true, not_or, Bool.not_eq_true, Option.isSome_eq_false_iff,
        Option.isNone_iff_eq_none] at hfree
      exact .offset ha hfree.1 (Operand.writes_of_immediate hd) hoffset

end Statement

/-! ## Lines -/

/-- A word decodes to the instruction on a line of code. -/
structure DecodesTo (labels : LabelTable) (address : Int) (code : List Char) (w : Word) :
    Prop where
  /-- The number of the word has 32 bits. -/
  range : w.toNat < 2 ^ 32
  /-- Execution does not stop at the word. -/
  running : w ∉ haltWords
  /-- The name is the first word of the line, in lower case. -/
  name : (Instruction.mk w).name.toList = (Text.splitWord code).1.map Char.toLower
  /-- The operands are those of the line. -/
  operands : ∃ m, (Instruction.mk w).mnemonic? = some m ∧
    Shows labels address ⟨w⟩ m (operandsOf code)

/-- The assembler and the decoder agree on every line that gives a word. -/
theorem decodesTo_of_assembleLine (labels : LabelTable) (address line : Int) (code : List Char)
    (w : Word) (h : assembleLine labels address line code = .ok (some w)) :
    DecodesTo labels address code w := by
  obtain ⟨m, s, hm, hreads, hencode⟩ := assembleLine_eq_some h
  have hmnemonic := Statement.mnemonic?_of_encode hreads hencode
  refine ⟨w.isLt, Instruction.not_halt_of_mnemonic hmnemonic, ?_, m, hmnemonic, ?_⟩
  · rw [Instruction.name_of_mnemonic hmnemonic]
    exact Mnemonic.name_of_ofName? hm
  · exact Statement.shows_of_encode hreads hencode

/-- A shift in capitals, which selects itself by bits of the immediate that its amount leaves. -/
theorem decodesTo_of_assembleLine_srai :
    assembleLine [] 0 1 "SRAI x8, x3, 0x1F".toList = .ok (some 0x41F1D413) ∧
      DecodesTo [] 0 "SRAI x8, x3, 0x1F".toList 0x41F1D413 :=
  ⟨by decide, decodesTo_of_assembleLine [] 0 1 _ _ (by decide)⟩

end SingleCycle
