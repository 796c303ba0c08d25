import SingleCycle.Isa.Encoding
import SingleCycle.Isa.Instruction
import SingleCycle.Isa.Operation

/-!
# Instruction words as numbers

A word is the sum of its fields, each times a power of two, and a field is read back by a division
and a remainder. All formats put bits of their own into the six fields of the register format, so
only that format has to be taken apart; the others say what stands in which field.
-/

namespace SingleCycle

/-- Bits side by side, as a number. -/
theorem toNat_append_eq {m n : Nat} (x : BitVec m) (y : BitVec n) :
    (x ++ y).toNat = x.toNat * 2 ^ n + y.toNat := by
  rw [BitVec.toNat_append, ← Nat.shiftLeft_add_eq_or_of_lt y.isLt, Nat.shiftLeft_eq]

/-- A slice of bits, as a number. -/
theorem toNat_slice {n : Nat} (x : BitVec n) (low width : Nat) :
    (x.extractLsb' low width).toNat = x.toNat / 2 ^ low % 2 ^ width := by
  rw [BitVec.extractLsb'_toNat, Nat.shiftRight_eq_div_pow]

/-- Bits in two's complement, as the signed reading of their number. -/
theorem toInt_eq_signed {n : Nat} (x : BitVec n) : x.toInt = signed n x.toNat :=
  BitVec.toInt_eq_toNat_bmod x

theorem toInt_ofInt (n : Nat) (v : Int) : (BitVec.ofInt n v).toInt = signed n v :=
  BitVec.toInt_ofInt v

theorem toNat_ofInt_eq_unsigned (n : Nat) (v : Int) :
    ((BitVec.ofInt n v).toNat : Int) = unsigned n v := by
  have hpos : (0 : Int) < 2 ^ n := Int.pow_pos (by decide)
  have hnonneg : 0 ≤ v % 2 ^ n := Int.emod_nonneg v (Int.ne_of_gt hpos)
  rw [BitVec.toNat_ofInt, Int.natCast_pow]
  exact Int.toNat_of_nonneg hnonneg

theorem ofInt_toNat {n : Nat} (x : BitVec n) : BitVec.ofInt n x.toNat = x := by
  rw [BitVec.ofInt_natCast, BitVec.ofNat_toNat, BitVec.setWidth_eq]

theorem toInt_range {n : Nat} (x : BitVec (n + 1)) : -(2 ^ n) ≤ x.toInt ∧ x.toInt < 2 ^ n :=
  ⟨BitVec.le_toInt x, BitVec.toInt_lt⟩

theorem signed_eq_self {n : Nat} {v : Int} (hlow : -(2 ^ n) ≤ v) (hhigh : v < 2 ^ n) :
    signed (n + 1) v = v := by
  rw [← toInt_ofInt]
  exact BitVec.toInt_ofInt_eq_self (Nat.succ_pos n) hlow hhigh

/-- An integer with bit 0 cleared. -/
def withoutBit0 (v : Int) : Int := v - v % 2

theorem withoutBit0_of_even {v : Int} (h : v % 2 = 0) : withoutBit0 v = v := by
  unfold withoutBit0
  omega

/-- Clearing bit 0 before the bits are read in two's complement clears it in what is read. One bit
alone would be too few, since its value is the sign. -/
theorem signed_withoutBit0 (n : Nat) (v : Int) :
    signed (n + 2) ((BitVec.ofInt (n + 2) v).toNat / 2 * 2 : Nat) =
      withoutBit0 (signed (n + 2) v) := by
  obtain ⟨k, hk⟩ : ∃ k : Nat, 2 ^ (n + 2) = 4 * k := ⟨2 ^ n, by rw [Nat.pow_add]; omega⟩
  have hlt : (BitVec.ofInt (n + 2) v).toNat < 4 * k := by
    rw [← hk]
    exact (BitVec.ofInt (n + 2) v).isLt
  rw [← toInt_ofInt (n + 2) v, toInt_eq_signed]
  generalize (BitVec.ofInt (n + 2) v).toNat = m at hlt
  unfold signed withoutBit0
  rw [hk, Int.bmod_def, Int.bmod_def, Int.emod_eq_of_lt (by omega) (by omega),
    Int.emod_eq_of_lt (by omega) (by omega)]
  split <;> split <;> omega

/-! ## The fields of a word -/

namespace Instruction

variable (i : Instruction)

theorem toNat_opcode : i.opcode.toNat = i.data.toNat % 2 ^ 7 := by
  rw [opcode, toNat_slice, Nat.pow_zero, Nat.div_one]

theorem toNat_rd : i.rd.toNat = i.data.toNat / 2 ^ 7 % 2 ^ 5 := toNat_slice _ _ _

theorem toNat_funct3 : i.funct3.toNat = i.data.toNat / 2 ^ 12 % 2 ^ 3 := toNat_slice _ _ _

theorem toNat_rs1 : i.rs1.toNat = i.data.toNat / 2 ^ 15 % 2 ^ 5 := toNat_slice _ _ _

theorem toNat_rs2 : i.rs2.toNat = i.data.toNat / 2 ^ 20 % 2 ^ 5 := toNat_slice _ _ _

theorem toNat_funct7 : i.funct7.toNat = i.data.toNat / 2 ^ 25 % 2 ^ 7 := toNat_slice _ _ _

end Instruction

namespace Encoding

section

variable (funct7 : BitVec 7) (rs2 rs1 rd : BitVec 5) (funct3 : BitVec 3) (opcode : BitVec 7)

theorem toNat_wordR : (wordR funct7 rs2 rs1 funct3 rd opcode).toNat =
    funct7.toNat * 2 ^ 25 + rs2.toNat * 2 ^ 20 + rs1.toNat * 2 ^ 15 + funct3.toNat * 2 ^ 12
      + rd.toNat * 2 ^ 7 + opcode.toNat := by
  simp only [wordR, toNat_append_eq]
  omega

@[simp]
theorem opcode_wordR : Instruction.opcode ⟨wordR funct7 rs2 rs1 funct3 rd opcode⟩ = opcode := by
  apply BitVec.eq_of_toNat_eq
  rw [Instruction.toNat_opcode, toNat_wordR]
  omega

@[simp]
theorem rd_wordR : Instruction.rd ⟨wordR funct7 rs2 rs1 funct3 rd opcode⟩ = rd := by
  apply BitVec.eq_of_toNat_eq
  rw [Instruction.toNat_rd, toNat_wordR]
  omega

@[simp]
theorem funct3_wordR : Instruction.funct3 ⟨wordR funct7 rs2 rs1 funct3 rd opcode⟩ = funct3 := by
  apply BitVec.eq_of_toNat_eq
  rw [Instruction.toNat_funct3, toNat_wordR]
  omega

@[simp]
theorem rs1_wordR : Instruction.rs1 ⟨wordR funct7 rs2 rs1 funct3 rd opcode⟩ = rs1 := by
  apply BitVec.eq_of_toNat_eq
  rw [Instruction.toNat_rs1, toNat_wordR]
  omega

@[simp]
theorem rs2_wordR : Instruction.rs2 ⟨wordR funct7 rs2 rs1 funct3 rd opcode⟩ = rs2 := by
  apply BitVec.eq_of_toNat_eq
  rw [Instruction.toNat_rs2, toNat_wordR]
  omega

@[simp]
theorem funct7_wordR : Instruction.funct7 ⟨wordR funct7 rs2 rs1 funct3 rd opcode⟩ = funct7 := by
  apply BitVec.eq_of_toNat_eq
  rw [Instruction.toNat_funct7, toNat_wordR]
  omega

/-! ## Every format in the six fields -/

theorem wordI_eq_wordR (imm : BitVec 12) : wordI imm rs1 funct3 rd opcode =
    wordR (imm.extractLsb' 5 7) (imm.extractLsb' 0 5) rs1 funct3 rd opcode := by
  apply BitVec.eq_of_toNat_eq
  simp only [wordI, wordR, toNat_append_eq, toNat_slice]
  omega

theorem wordS_eq_wordR (imm : BitVec 12) : wordS imm rs2 rs1 funct3 opcode =
    wordR (imm.extractLsb' 5 7) rs2 rs1 funct3 (imm.extractLsb' 0 5) opcode := rfl

theorem wordB_eq_wordR (offset : BitVec 13) : wordB offset rs2 rs1 funct3 opcode =
    wordR (offset.extractLsb' 12 1 ++ offset.extractLsb' 5 6) rs2 rs1 funct3
      (offset.extractLsb' 1 4 ++ offset.extractLsb' 11 1) opcode := by
  apply BitVec.eq_of_toNat_eq
  simp only [wordB, wordR, toNat_append_eq]
  omega

theorem wordU_eq_wordR (imm : BitVec 20) : wordU imm rd opcode =
    wordR (imm.extractLsb' 13 7) (imm.extractLsb' 8 5) (imm.extractLsb' 3 5)
      (imm.extractLsb' 0 3) rd opcode := by
  apply BitVec.eq_of_toNat_eq
  simp only [wordU, wordR, toNat_append_eq, toNat_slice]
  omega

theorem wordJ_eq_wordU (offset : BitVec 21) : wordJ offset rd opcode =
    wordU (offset.extractLsb' 20 1 ++ offset.extractLsb' 1 10 ++ offset.extractLsb' 11 1
      ++ offset.extractLsb' 12 8) rd opcode := rfl

end

end Encoding

/-! ## Immediates -/

namespace Instruction

variable (i : Instruction)

theorem imm_of_immediate (hi : i.format? = some .immediate) : i.imm = immediateI i.data := by
  have himm : i.imm = (i.data.extractLsb' 20 12).toInt := by rw [imm, hi]
  rw [himm, toInt_eq_signed, toNat_slice, immediateI]
  exact congrArg (fun n : Nat => signed 12 n) (by omega)

theorem imm_of_store (hi : i.format? = some .store) : i.imm = immediateS i.data := by
  have himm : i.imm = (i.funct7 ++ i.rd).toInt := by rw [imm, hi]
  rw [himm, toInt_eq_signed, toNat_append_eq, toNat_funct7, toNat_rd, immediateS]
  exact congrArg (fun n : Nat => signed 12 n) (by omega)

theorem imm_of_branch (hi : i.format? = some .branch) : i.imm = immediateB i.data := by
  have himm : i.imm = (i.data.extractLsb' 31 1 ++ i.data.extractLsb' 7 1
      ++ i.data.extractLsb' 25 6 ++ i.data.extractLsb' 8 4 ++ 0#1).toInt := by rw [imm, hi]
  rw [himm, toInt_eq_signed]
  simp only [toNat_append_eq, toNat_slice, immediateB, BitVec.toNat_ofNat]
  exact congrArg (fun n : Nat => signed 13 n) (by omega)

theorem jumpOffset_eq : i.jumpOffset = immediateJ i.data := by
  rw [jumpOffset, toInt_eq_signed]
  simp only [toNat_append_eq, toNat_slice, immediateJ, BitVec.toNat_ofNat]
  exact congrArg (fun n : Nat => signed 21 n) (by omega)

theorem imm_range : -(2 ^ 12) ≤ i.imm ∧ i.imm < 2 ^ 12 := by
  unfold imm
  split
  · have hrange := toInt_range (i.data.extractLsb' 20 12)
    omega
  · have hrange := toInt_range (i.funct7 ++ i.rd)
    omega
  · exact toInt_range _
  · decide

theorem jumpOffset_range : -(2 ^ 20) ≤ i.jumpOffset ∧ i.jumpOffset < 2 ^ 20 :=
  toInt_range _

end Instruction

namespace Encoding

section

variable (rs2 rs1 rd : BitVec 5) (funct3 : BitVec 3) (opcode : BitVec 7)

@[simp]
theorem immediateI_wordI (imm : BitVec 12) :
    immediateI (wordI imm rs1 funct3 rd opcode) = imm.toInt := by
  rw [immediateI, wordI_eq_wordR, toNat_wordR, toInt_eq_signed]
  simp only [toNat_slice]
  exact congrArg (fun n : Nat => signed 12 n) (by omega)

/-- The immediate of a store from its two pieces. -/
theorem immediateS_wordR (high : BitVec 7) (low : BitVec 5) :
    immediateS (wordR high rs2 rs1 funct3 low opcode) =
      signed 12 (high.toNat * 2 ^ 5 + low.toNat : Nat) := by
  rw [immediateS, toNat_wordR]
  exact congrArg (fun n : Nat => signed 12 n) (by omega)

@[simp]
theorem immediateS_wordS (imm : BitVec 12) :
    immediateS (wordS imm rs2 rs1 funct3 opcode) = imm.toInt := by
  rw [wordS_eq_wordR, immediateS_wordR, toInt_eq_signed, toNat_slice, toNat_slice]
  exact congrArg (fun n : Nat => signed 12 n) (by omega)

/-- The offset of a branch from its four pieces. -/
theorem immediateB_wordR (b12 : BitVec 1) (b5 : BitVec 6) (b1 : BitVec 4) (b11 : BitVec 1) :
    immediateB (wordR (b12 ++ b5) rs2 rs1 funct3 (b1 ++ b11) opcode) =
      signed 13
        (b12.toNat * 2 ^ 12 + b11.toNat * 2 ^ 11 + b5.toNat * 2 ^ 5 + b1.toNat * 2 : Nat) := by
  rw [immediateB, toNat_wordR, toNat_append_eq, toNat_append_eq]
  exact congrArg (fun n : Nat => signed 13 n) (by omega)

/-- Bit 0 of a branch offset is lost. -/
@[simp]
theorem immediateB_ofInt (v : Int) :
    immediateB (wordB (.ofInt 13 v) rs2 rs1 funct3 opcode) = withoutBit0 (signed 13 v) := by
  have hbit : signed 13 ((BitVec.ofInt 13 v).toNat / 2 * 2 : Nat) = withoutBit0 (signed 13 v) :=
    signed_withoutBit0 11 v
  rw [wordB_eq_wordR, immediateB_wordR, ← hbit]
  simp only [toNat_slice]
  exact congrArg (fun n : Nat => signed 13 n) (by omega)

/-- The offset of a jump from its four pieces. -/
theorem immediateJ_wordU (b20 : BitVec 1) (b1 : BitVec 10) (b11 : BitVec 1) (b12 : BitVec 8) :
    immediateJ (wordU (b20 ++ b1 ++ b11 ++ b12) rd opcode) =
      signed 21
        (b20.toNat * 2 ^ 20 + b12.toNat * 2 ^ 12 + b11.toNat * 2 ^ 11 + b1.toNat * 2 : Nat) := by
  rw [immediateJ]
  simp only [wordU, toNat_append_eq]
  exact congrArg (fun n : Nat => signed 21 n) (by omega)

/-- Bit 0 of a jump offset is lost. -/
@[simp]
theorem immediateJ_ofInt (v : Int) :
    immediateJ (wordJ (.ofInt 21 v) rd opcode) = withoutBit0 (signed 21 v) := by
  have hbit : signed 21 ((BitVec.ofInt 21 v).toNat / 2 * 2 : Nat) = withoutBit0 (signed 21 v) :=
    signed_withoutBit0 19 v
  rw [wordJ_eq_wordU, immediateJ_wordU, ← hbit]
  simp only [toNat_slice]
  exact congrArg (fun n : Nat => signed 21 n) (by omega)

end

end Encoding

end SingleCycle
