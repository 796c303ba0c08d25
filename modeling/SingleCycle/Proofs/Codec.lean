import SingleCycle.Proofs.EncodedStatement

/-!
# Encoding and decoding

The encoders take integers of any sign and size as fields. Every field is cut to its width before
it is put in its place, so no field reaches into another one: decoding gives each field back modulo
its width, and encoding the fields of a word gives the word back.
-/

namespace SingleCycle

/-! ## Opcodes -/

/-- The format of the immediates that an opcode has. -/
def Opcode.format? : Opcode → Option Format
  | load => some .immediate
  | immediate => some .immediate
  | store => some .store
  | branch => some .branch
  | _ => none

namespace Instruction

variable {i : Instruction} {o : Opcode}

theorem opcode?_of_code (h : (i.opcode.toNat : Int) = o.code) : i.opcode? = some o := by
  simp [opcode?, h]

theorem opcode_of_opcode? (h : i.opcode? = some o) : i.opcode = o.bits := by
  unfold opcode? Opcode.ofCode? at h
  have hfound := List.find?_some h
  have hcode : o.code = i.opcode.toNat := eq_of_beq hfound
  exact (BitVec.eq_of_toNat_eq (Int.ofNat.inj hcode)).symm

theorem opcode?_of_bits (h : i.opcode = o.bits) : i.opcode? = some o := by
  apply opcode?_of_code
  rw [h]
  rfl

theorem format?_of_opcode? (h : i.opcode? = some o) : i.format? = o.format? := by
  unfold format?
  rw [h]
  cases o <;> rfl

/-- The datapath uses an immediate only under four opcodes. -/
theorem format?_eq_none
    (h : ∀ o ∈ [Opcode.immediate, .load, .store, .branch], (i.opcode.toNat : Int) ≠ o.code) :
    i.format? = none := by
  cases ho : i.opcode? with
  | none =>
    unfold format?
    rw [ho]
  | some o =>
    have hother : o ∉ [Opcode.immediate, .load, .store, .branch] := by
      intro hmem
      apply h o hmem
      rw [opcode_of_opcode? ho]
      rfl
    rw [format?_of_opcode? ho]
    cases o with
    | immediate | load | store | branch => exact absurd (by simp) hother
    | register | lui | jal | system => rfl

theorem imm_of_format?_eq_none (h : i.format? = none) : i.imm = 0 := by
  unfold imm
  rw [h]

end Instruction

namespace Encoding

/-! ## Words from their fields -/

section

variable (i : Instruction)

theorem wordR_fields : wordR i.funct7 i.rs2 i.rs1 i.funct3 i.rd i.opcode = i.data := by
  apply BitVec.eq_of_toNat_eq
  rw [toNat_wordR, Instruction.toNat_funct7, Instruction.toNat_rs2, Instruction.toNat_rs1,
    Instruction.toNat_funct3, Instruction.toNat_rd, Instruction.toNat_opcode]
  omega

theorem wordI_fields :
    wordI (i.data.extractLsb' 20 12) i.rs1 i.funct3 i.rd i.opcode = i.data := by
  have hhigh : (i.data.extractLsb' 20 12).extractLsb' 5 7 = i.funct7 := by
    apply BitVec.eq_of_toNat_eq
    rw [toNat_slice, toNat_slice, Instruction.toNat_funct7]
    omega
  have hlow : (i.data.extractLsb' 20 12).extractLsb' 0 5 = i.rs2 := by
    apply BitVec.eq_of_toNat_eq
    rw [toNat_slice, toNat_slice, Instruction.toNat_rs2]
    omega
  rw [wordI_eq_wordR, hhigh, hlow, wordR_fields]

theorem wordS_fields : wordS (i.funct7 ++ i.rd) i.rs2 i.rs1 i.funct3 i.opcode = i.data := by
  rw [wordS_eq_wordR, BitVec.extractLsb'_append_eq_left, BitVec.extractLsb'_append_eq_right,
    wordR_fields]

theorem wordU_fields : wordU (i.data.extractLsb' 12 20) i.rd i.opcode = i.data := by
  apply BitVec.eq_of_toNat_eq
  rw [wordU_eq_wordR, toNat_wordR, Instruction.toNat_rd, Instruction.toNat_opcode]
  simp only [toNat_slice]
  omega

/-- The pieces of a branch offset go to the places that the word has for them. -/
theorem wordB_pieces (b12 b11 : BitVec 1) (b5 : BitVec 6) (b1 : BitVec 4) (rs2 rs1 : BitVec 5)
    (funct3 : BitVec 3) (opcode : BitVec 7) :
    wordB (b12 ++ b11 ++ b5 ++ b1 ++ 0#1) rs2 rs1 funct3 opcode =
      wordR (b12 ++ b5) rs2 rs1 funct3 (b1 ++ b11) opcode := by
  have h12 : (b12 ++ b11 ++ b5 ++ b1 ++ 0#1).extractLsb' 12 1 = b12 := by
    iterate 3 rw [BitVec.extractLsb'_append_eq_of_le (by decide)]
    exact BitVec.extractLsb'_append_eq_left
  have h11 : (b12 ++ b11 ++ b5 ++ b1 ++ 0#1).extractLsb' 11 1 = b11 := by
    iterate 3 rw [BitVec.extractLsb'_append_eq_of_le (by decide)]
    exact BitVec.extractLsb'_append_eq_right
  have h5 : (b12 ++ b11 ++ b5 ++ b1 ++ 0#1).extractLsb' 5 6 = b5 := by
    iterate 2 rw [BitVec.extractLsb'_append_eq_of_le (by decide)]
    exact BitVec.extractLsb'_append_eq_right
  have h1 : (b12 ++ b11 ++ b5 ++ b1 ++ 0#1).extractLsb' 1 4 = b1 := by
    rw [BitVec.extractLsb'_append_eq_of_le (by decide)]
    exact BitVec.extractLsb'_append_eq_right
  rw [wordB_eq_wordR, h12, h11, h5, h1]

theorem wordB_fields :
    wordB (i.data.extractLsb' 31 1 ++ i.data.extractLsb' 7 1 ++ i.data.extractLsb' 25 6
      ++ i.data.extractLsb' 8 4 ++ 0#1) i.rs2 i.rs1 i.funct3 i.opcode = i.data := by
  have hhigh : i.data.extractLsb' 31 1 ++ i.data.extractLsb' 25 6 = i.funct7 := by
    apply BitVec.eq_of_toNat_eq
    rw [toNat_append_eq, toNat_slice, toNat_slice, Instruction.toNat_funct7]
    omega
  have hlow : i.data.extractLsb' 8 4 ++ i.data.extractLsb' 7 1 = i.rd := by
    apply BitVec.eq_of_toNat_eq
    rw [toNat_append_eq, toNat_slice, toNat_slice, Instruction.toNat_rd]
    omega
  rw [wordB_pieces, hhigh, hlow, wordR_fields]

/-- The pieces of a jump offset go to the places that the word has for them. -/
theorem wordJ_pieces (b20 b11 : BitVec 1) (b12 : BitVec 8) (b1 : BitVec 10) (rd : BitVec 5)
    (opcode : BitVec 7) :
    wordJ (b20 ++ b12 ++ b11 ++ b1 ++ 0#1) rd opcode =
      wordU (b20 ++ b1 ++ b11 ++ b12) rd opcode := by
  have h20 : (b20 ++ b12 ++ b11 ++ b1 ++ 0#1).extractLsb' 20 1 = b20 := by
    iterate 3 rw [BitVec.extractLsb'_append_eq_of_le (by decide)]
    exact BitVec.extractLsb'_append_eq_left
  have h12 : (b20 ++ b12 ++ b11 ++ b1 ++ 0#1).extractLsb' 12 8 = b12 := by
    iterate 3 rw [BitVec.extractLsb'_append_eq_of_le (by decide)]
    exact BitVec.extractLsb'_append_eq_right
  have h11 : (b20 ++ b12 ++ b11 ++ b1 ++ 0#1).extractLsb' 11 1 = b11 := by
    iterate 2 rw [BitVec.extractLsb'_append_eq_of_le (by decide)]
    exact BitVec.extractLsb'_append_eq_right
  have h1 : (b20 ++ b12 ++ b11 ++ b1 ++ 0#1).extractLsb' 1 10 = b1 := by
    rw [BitVec.extractLsb'_append_eq_of_le (by decide)]
    exact BitVec.extractLsb'_append_eq_right
  rw [wordJ_eq_wordU, h20, h12, h11, h1]

theorem wordJ_fields :
    wordJ (i.data.extractLsb' 31 1 ++ i.data.extractLsb' 12 8 ++ i.data.extractLsb' 20 1
      ++ i.data.extractLsb' 21 10 ++ 0#1) i.rd i.opcode = i.data := by
  have himm : i.data.extractLsb' 31 1 ++ i.data.extractLsb' 21 10 ++ i.data.extractLsb' 20 1
      ++ i.data.extractLsb' 12 8 = i.data.extractLsb' 12 20 := by
    apply BitVec.eq_of_toNat_eq
    simp only [toNat_append_eq, toNat_slice]
    omega
  rw [wordJ_pieces, himm, wordU_fields]

/-! The decoded immediate has every bit that the word has of it. -/

theorem wordI_imm (hi : i.format? = some .immediate) :
    wordI (.ofInt 12 i.imm) i.rs1 i.funct3 i.rd i.opcode = i.data := by
  have himm : i.imm = (i.data.extractLsb' 20 12).toInt := by rw [Instruction.imm, hi]
  rw [himm, BitVec.ofInt_toInt, wordI_fields]

theorem wordS_imm (hi : i.format? = some .store) :
    wordS (.ofInt 12 i.imm) i.rs2 i.rs1 i.funct3 i.opcode = i.data := by
  have himm : i.imm = (i.funct7 ++ i.rd).toInt := by rw [Instruction.imm, hi]
  rw [himm, BitVec.ofInt_toInt, wordS_fields]

theorem wordB_imm (hi : i.format? = some .branch) :
    wordB (.ofInt 13 i.imm) i.rs2 i.rs1 i.funct3 i.opcode = i.data := by
  have himm : i.imm = (i.data.extractLsb' 31 1 ++ i.data.extractLsb' 7 1
      ++ i.data.extractLsb' 25 6 ++ i.data.extractLsb' 8 4 ++ 0#1).toInt := by
    rw [Instruction.imm, hi]
  rw [himm, BitVec.ofInt_toInt, wordB_fields]

theorem wordU_upperImm : wordU (.ofInt 20 i.upperImm) i.rd i.opcode = i.data := by
  rw [Instruction.upperImm, ofInt_toNat, wordU_fields]

theorem wordJ_jumpOffset : wordJ (.ofInt 21 i.jumpOffset) i.rd i.opcode = i.data := by
  rw [Instruction.jumpOffset, BitVec.ofInt_toInt, wordJ_fields]

/-! ## Encoding what was decoded -/

/-- The encoders give the word of an instruction back from what was decoded. -/
structure Reencodes : Prop where
  /-- Every word has the six fields of the register format. -/
  register : encodeR i.funct7.toNat i.rs2.toNat i.rs1.toNat i.funct3.toNat i.rd.toNat
    i.opcode.toNat = i.data
  /-- The immediate format, of loads too. -/
  immediate : i.opcode = Opcode.immediate.bits ∨ i.opcode = Opcode.load.bits →
    encodeI i.imm i.rs1.toNat i.funct3.toNat i.rd.toNat i.opcode.toNat = i.data
  /-- The store format. -/
  store : i.opcode = Opcode.store.bits →
    encodeS i.imm i.rs2.toNat i.rs1.toNat i.funct3.toNat i.opcode.toNat = i.data
  /-- The branch format. -/
  branch : i.opcode = Opcode.branch.bits →
    encodeB i.imm i.rs2.toNat i.rs1.toNat i.funct3.toNat i.opcode.toNat = i.data
  /-- The upper immediate is read off any word. -/
  upper : encodeU i.upperImm i.rd.toNat i.opcode.toNat = i.data
  /-- So is the offset of a jump. -/
  jump : encodeJ i.jumpOffset i.rd.toNat i.opcode.toNat = i.data

theorem encodeI_fields (hi : i.format? = some .immediate) :
    encodeI i.imm i.rs1.toNat i.funct3.toNat i.rd.toNat i.opcode.toNat = i.data := by
  simp [encodeI, wordI_imm i hi]

theorem encodeS_fields (hi : i.format? = some .store) :
    encodeS i.imm i.rs2.toNat i.rs1.toNat i.funct3.toNat i.opcode.toNat = i.data := by
  simp [encodeS, wordS_imm i hi]

theorem encodeB_fields (hi : i.format? = some .branch) :
    encodeB i.imm i.rs2.toNat i.rs1.toNat i.funct3.toNat i.opcode.toNat = i.data := by
  simp [encodeB, wordB_imm i hi]

theorem encodeU_fields : encodeU i.upperImm i.rd.toNat i.opcode.toNat = i.data := by
  simp [encodeU, wordU_upperImm]

theorem encodeJ_fields : encodeJ i.jumpOffset i.rd.toNat i.opcode.toNat = i.data := by
  simp [encodeJ, wordJ_jumpOffset]

theorem reencodes : Reencodes i where
  register := by simp [encodeR, wordR_fields]
  immediate := by
    rintro (ho | ho)
    · exact encodeI_fields i (Instruction.format?_of_opcode? (Instruction.opcode?_of_bits ho))
    · exact encodeI_fields i (Instruction.format?_of_opcode? (Instruction.opcode?_of_bits ho))
  store ho := encodeS_fields i (Instruction.format?_of_opcode? (Instruction.opcode?_of_bits ho))
  branch ho := encodeB_fields i (Instruction.format?_of_opcode? (Instruction.opcode?_of_bits ho))
  upper := encodeU_fields i
  jump := encodeJ_fields i

end

/-- No bit of a word is lost when it is decoded: its fields encode to the word again. The word is
the integer that was decoded, modulo `2 ^ 32`. -/
theorem encode_decode (n : Int) :
    Reencodes ⟨wordOf n⟩ ∧ ((wordOf n).toNat : Int) = unsigned 32 n :=
  ⟨reencodes ⟨wordOf n⟩, toNat_ofInt_eq_unsigned 32 n⟩

/-- A negative integer whose low bits are a branch backwards. -/
theorem encode_decode_branch : Instruction.opcode ⟨wordOf (-0x1df731d)⟩ = Opcode.branch.bits ∧
    encodeB (-8) 2 1 0 0x63 = wordOf (-0x1df731d) := by
  have hopcode : Instruction.opcode ⟨wordOf (-0x1df731d)⟩ = Opcode.branch.bits := by decide
  have hword := (encode_decode (-0x1df731d)).1.branch hopcode
  exact ⟨hopcode, hword⟩

/-! ## Decoding what was encoded -/

section

variable (i : Instruction) (funct7 rs2 rs1 funct3 rd opcode imm : Int)

/-- The opcode of an instruction that was encoded, and the number of its word, which is the sum of
the fields at their places. The sum does not leave the 32 bits of a word. -/
structure Decodes (number : Int) : Prop where
  opcode_eq : (i.opcode.toNat : Int) = unsigned 7 opcode
  number_eq : (i.data.toNat : Int) = number
  number_range : 0 ≤ number ∧ number < 2 ^ 32

/-- What the register format makes of six integers. -/
structure DecodesR : Prop extends Decodes i opcode
    (unsigned 7 funct7 * 2 ^ 25 + unsigned 5 rs2 * 2 ^ 20 + unsigned 5 rs1 * 2 ^ 15
      + unsigned 3 funct3 * 2 ^ 12 + unsigned 5 rd * 2 ^ 7 + unsigned 7 opcode) where
  funct7_eq : (i.funct7.toNat : Int) = unsigned 7 funct7
  rs2_eq : (i.rs2.toNat : Int) = unsigned 5 rs2
  rs1_eq : (i.rs1.toNat : Int) = unsigned 5 rs1
  funct3_eq : (i.funct3.toNat : Int) = unsigned 3 funct3
  rd_eq : (i.rd.toNat : Int) = unsigned 5 rd
  /-- There is no immediate, unless the opcode is one of another format. -/
  imm_eq : (∀ o ∈ [Opcode.immediate, .load, .store, .branch], unsigned 7 opcode ≠ o.code) →
    i.imm = 0 ∧ i.format? = none

/-- What the immediate format makes of five integers. -/
structure DecodesI : Prop extends Decodes i opcode
    (unsigned 12 imm * 2 ^ 20 + unsigned 5 rs1 * 2 ^ 15 + unsigned 3 funct3 * 2 ^ 12
      + unsigned 5 rd * 2 ^ 7 + unsigned 7 opcode) where
  rs1_eq : (i.rs1.toNat : Int) = unsigned 5 rs1
  funct3_eq : (i.funct3.toNat : Int) = unsigned 3 funct3
  rd_eq : (i.rd.toNat : Int) = unsigned 5 rd
  imm_eq : unsigned 7 opcode = Opcode.immediate.code ∨ unsigned 7 opcode = Opcode.load.code →
    i.imm = signed 12 imm ∧ i.format? = some .immediate

/-- What the store format makes of five integers; the immediate is in two pieces. -/
structure DecodesS : Prop extends Decodes i opcode
    (unsigned 12 imm / 2 ^ 5 * 2 ^ 25 + unsigned 5 rs2 * 2 ^ 20 + unsigned 5 rs1 * 2 ^ 15
      + unsigned 3 funct3 * 2 ^ 12 + unsigned 5 imm * 2 ^ 7 + unsigned 7 opcode) where
  rs2_eq : (i.rs2.toNat : Int) = unsigned 5 rs2
  rs1_eq : (i.rs1.toNat : Int) = unsigned 5 rs1
  funct3_eq : (i.funct3.toNat : Int) = unsigned 3 funct3
  imm_eq : unsigned 7 opcode = Opcode.store.code →
    i.imm = signed 12 imm ∧ i.format? = some .store

/-- What the branch format makes of five integers; the offset is in four pieces, and its bit 0 is
in none of them. -/
structure DecodesB : Prop extends Decodes i opcode
    (unsigned 13 imm / 2 ^ 12 * 2 ^ 31 + unsigned 13 imm / 2 ^ 5 % 2 ^ 6 * 2 ^ 25
      + unsigned 5 rs2 * 2 ^ 20 + unsigned 5 rs1 * 2 ^ 15 + unsigned 3 funct3 * 2 ^ 12
      + unsigned 13 imm / 2 % 2 ^ 4 * 2 ^ 8 + unsigned 13 imm / 2 ^ 11 % 2 * 2 ^ 7
      + unsigned 7 opcode) where
  rs2_eq : (i.rs2.toNat : Int) = unsigned 5 rs2
  rs1_eq : (i.rs1.toNat : Int) = unsigned 5 rs1
  funct3_eq : (i.funct3.toNat : Int) = unsigned 3 funct3
  imm_eq : unsigned 7 opcode = Opcode.branch.code →
    i.imm = withoutBit0 (signed 13 imm) ∧ i.format? = some .branch

/-- What the upper-immediate format makes of three integers. -/
structure DecodesU : Prop extends Decodes i opcode
    (unsigned 20 imm * 2 ^ 12 + unsigned 5 rd * 2 ^ 7 + unsigned 7 opcode) where
  rd_eq : (i.rd.toNat : Int) = unsigned 5 rd
  imm_eq : i.upperImm = unsigned 20 imm

/-- What the jump format makes of three integers; the offset is in four pieces, and its bit 0 is in
none of them. -/
structure DecodesJ : Prop extends Decodes i opcode
    (unsigned 21 imm / 2 ^ 20 * 2 ^ 31 + unsigned 21 imm / 2 % 2 ^ 10 * 2 ^ 21
      + unsigned 21 imm / 2 ^ 11 % 2 * 2 ^ 20 + unsigned 21 imm / 2 ^ 12 % 2 ^ 8 * 2 ^ 12
      + unsigned 5 rd * 2 ^ 7 + unsigned 7 opcode) where
  rd_eq : (i.rd.toNat : Int) = unsigned 5 rd
  imm_eq : i.jumpOffset = withoutBit0 (signed 21 imm)

end

section

variable (funct7 rs2 rs1 funct3 rd opcode imm : Int)

theorem Decodes.of_number {i : Instruction} {opcode number : Int}
    (hopcode : i.opcode = .ofInt 7 opcode) (hnumber : (i.data.toNat : Int) = number) :
    Decodes i opcode number where
  opcode_eq := by rw [hopcode, toNat_ofInt_eq_unsigned]
  number_eq := hnumber
  number_range := by
    have hlt := i.data.isLt
    omega

/-- The immediate is the one of the format that the opcode has. -/
theorem format?_of_ofInt {i : Instruction} {opcode : Int} {o : Opcode}
    (hopcode : i.opcode = .ofInt 7 opcode) (ho : unsigned 7 opcode = o.code) :
    i.format? = o.format? := by
  apply Instruction.format?_of_opcode? (Instruction.opcode?_of_code _)
  rw [hopcode, toNat_ofInt_eq_unsigned, ho]

theorem decodesR_encodeR : DecodesR ⟨encodeR funct7 rs2 rs1 funct3 rd opcode⟩
    funct7 rs2 rs1 funct3 rd opcode where
  toDecodes := by
    refine .of_number (opcode_wordR _ _ _ _ _ _) ?_
    simp only [encodeR, toNat_wordR, ← toNat_ofInt_eq_unsigned]
    omega
  funct7_eq := by simp [encodeR, ← toNat_ofInt_eq_unsigned]
  rs2_eq := by simp [encodeR, ← toNat_ofInt_eq_unsigned]
  rs1_eq := by simp [encodeR, ← toNat_ofInt_eq_unsigned]
  funct3_eq := by simp [encodeR, ← toNat_ofInt_eq_unsigned]
  rd_eq := by simp [encodeR, ← toNat_ofInt_eq_unsigned]
  imm_eq := by
    intro h
    have hnone : Instruction.format? ⟨encodeR funct7 rs2 rs1 funct3 rd opcode⟩ = none := by
      apply Instruction.format?_eq_none
      rw [encodeR, opcode_wordR, toNat_ofInt_eq_unsigned]
      exact h
    exact ⟨Instruction.imm_of_format?_eq_none hnone, hnone⟩

theorem decodesI_encodeI : DecodesI ⟨encodeI imm rs1 funct3 rd opcode⟩
    rs1 funct3 rd opcode imm where
  toDecodes := by
    refine .of_number ?_ ?_
    · simp [encodeI, wordI_eq_wordR]
    · simp only [encodeI, wordI, toNat_append_eq, ← toNat_ofInt_eq_unsigned]
      omega
  rs1_eq := by simp [encodeI, wordI_eq_wordR, ← toNat_ofInt_eq_unsigned]
  funct3_eq := by simp [encodeI, wordI_eq_wordR, ← toNat_ofInt_eq_unsigned]
  rd_eq := by simp [encodeI, wordI_eq_wordR, ← toNat_ofInt_eq_unsigned]
  imm_eq := by
    intro h
    have hopcode : Instruction.opcode ⟨encodeI imm rs1 funct3 rd opcode⟩ = .ofInt 7 opcode := by
      simp [encodeI, wordI_eq_wordR]
    have hformat : Instruction.format? ⟨encodeI imm rs1 funct3 rd opcode⟩ = some .immediate := by
      rcases h with h | h
      · exact format?_of_ofInt hopcode h
      · exact format?_of_ofInt hopcode h
    refine ⟨?_, hformat⟩
    rw [Instruction.imm_of_immediate _ hformat, encodeI, immediateI_wordI, toInt_ofInt]

theorem decodesS_encodeS : DecodesS ⟨encodeS imm rs2 rs1 funct3 opcode⟩
    rs2 rs1 funct3 opcode imm where
  toDecodes := by
    refine .of_number (opcode_wordR _ _ _ _ _ _) ?_
    simp only [encodeS, wordS, toNat_append_eq, toNat_slice, ← toNat_ofInt_eq_unsigned]
    have himm : ((BitVec.ofInt 5 imm).toNat : Int) = (BitVec.ofInt 12 imm).toNat % 2 ^ 5 := by
      rw [toNat_ofInt_eq_unsigned, toNat_ofInt_eq_unsigned]
      unfold unsigned
      omega
    omega
  rs2_eq := by simp [encodeS, wordS_eq_wordR, ← toNat_ofInt_eq_unsigned]
  rs1_eq := by simp [encodeS, wordS_eq_wordR, ← toNat_ofInt_eq_unsigned]
  funct3_eq := by simp [encodeS, wordS_eq_wordR, ← toNat_ofInt_eq_unsigned]
  imm_eq := by
    intro h
    have hformat : Instruction.format? ⟨encodeS imm rs2 rs1 funct3 opcode⟩ = some .store :=
      format?_of_ofInt (opcode_wordR _ _ _ _ _ _) h
    refine ⟨?_, hformat⟩
    rw [Instruction.imm_of_store _ hformat, encodeS, immediateS_wordS, toInt_ofInt]

theorem decodesB_encodeB : DecodesB ⟨encodeB imm rs2 rs1 funct3 opcode⟩
    rs2 rs1 funct3 opcode imm where
  toDecodes := by
    refine .of_number ?_ ?_
    · simp [encodeB, wordB_eq_wordR]
    · simp only [encodeB, wordB, toNat_append_eq, toNat_slice, ← toNat_ofInt_eq_unsigned]
      omega
  rs2_eq := by simp [encodeB, wordB_eq_wordR, ← toNat_ofInt_eq_unsigned]
  rs1_eq := by simp [encodeB, wordB_eq_wordR, ← toNat_ofInt_eq_unsigned]
  funct3_eq := by simp [encodeB, wordB_eq_wordR, ← toNat_ofInt_eq_unsigned]
  imm_eq := by
    intro h
    have hformat : Instruction.format? ⟨encodeB imm rs2 rs1 funct3 opcode⟩ = some .branch := by
      refine format?_of_ofInt ?_ h
      simp [encodeB, wordB_eq_wordR]
    refine ⟨?_, hformat⟩
    rw [Instruction.imm_of_branch _ hformat, encodeB, immediateB_ofInt]

theorem decodesU_encodeU : DecodesU ⟨encodeU imm rd opcode⟩ rd opcode imm where
  toDecodes := by
    refine .of_number ?_ ?_
    · simp [encodeU, wordU_eq_wordR]
    · simp only [encodeU, wordU, toNat_append_eq, ← toNat_ofInt_eq_unsigned]
      omega
  rd_eq := by simp [encodeU, wordU_eq_wordR, ← toNat_ofInt_eq_unsigned]
  imm_eq := by
    rw [Instruction.upperImm, encodeU, wordU, toNat_slice, toNat_append_eq, toNat_append_eq,
      ← toNat_ofInt_eq_unsigned]
    omega

theorem toNat_wordJ (offset : BitVec 21) (rd : BitVec 5) (opcode : BitVec 7) :
    (wordJ offset rd opcode).toNat = offset.toNat / 2 ^ 20 * 2 ^ 31
      + offset.toNat / 2 % 2 ^ 10 * 2 ^ 21 + offset.toNat / 2 ^ 11 % 2 * 2 ^ 20
      + offset.toNat / 2 ^ 12 % 2 ^ 8 * 2 ^ 12 + rd.toNat * 2 ^ 7 + opcode.toNat := by
  simp only [wordJ, toNat_append_eq, toNat_slice, Nat.pow_one]
  omega

theorem decodesJ_encodeJ : DecodesJ ⟨encodeJ imm rd opcode⟩ rd opcode imm where
  toDecodes := by
    refine .of_number ?_ ?_
    · simp [encodeJ, wordJ_eq_wordU, wordU_eq_wordR]
    · simp only [encodeJ, toNat_wordJ, ← toNat_ofInt_eq_unsigned, Int.natCast_add,
        Int.natCast_mul, Int.natCast_ediv, Int.natCast_emod, Int.natCast_pow]
      rfl
  rd_eq := by simp [encodeJ, wordJ_eq_wordU, wordU_eq_wordR, ← toNat_ofInt_eq_unsigned]
  imm_eq := by rw [Instruction.jumpOffset_eq, encodeJ, immediateJ_ofInt]

/-- Every format gives its fields back modulo their widths, whatever integers were encoded. -/
theorem decode_encode :
    DecodesR ⟨encodeR funct7 rs2 rs1 funct3 rd opcode⟩ funct7 rs2 rs1 funct3 rd opcode ∧
      DecodesI ⟨encodeI imm rs1 funct3 rd opcode⟩ rs1 funct3 rd opcode imm ∧
      DecodesS ⟨encodeS imm rs2 rs1 funct3 opcode⟩ rs2 rs1 funct3 opcode imm ∧
      DecodesB ⟨encodeB imm rs2 rs1 funct3 opcode⟩ rs2 rs1 funct3 opcode imm ∧
      DecodesU ⟨encodeU imm rd opcode⟩ rd opcode imm ∧
      DecodesJ ⟨encodeJ imm rd opcode⟩ rd opcode imm :=
  ⟨decodesR_encodeR .., decodesI_encodeI .., decodesS_encodeS .., decodesB_encodeB ..,
    decodesU_encodeU .., decodesJ_encodeJ ..⟩

end

/-- A store and a branch whose fields are all too wide or negative. -/
theorem decode_encode_wide : (Instruction.mk (encodeS (-2049) 33 (-1) 10 0x1a3)).imm = 2047 ∧
    (Instruction.mk (encodeB 4097 33 (-1) 10 0x163)).imm = -4096 := by
  have hstore : unsigned 7 0x1a3 = Opcode.store.code := by decide
  have hbranch : unsigned 7 0x163 = Opcode.branch.code := by decide
  obtain ⟨-, -, hs, -⟩ := decode_encode 0 33 (-1) 10 0 0x1a3 (-2049)
  obtain ⟨-, -, -, hb, -⟩ := decode_encode 0 33 (-1) 10 0 0x163 4097
  obtain ⟨himm, -⟩ := hs.imm_eq hstore
  obtain ⟨hoffset, -⟩ := hb.imm_eq hbranch
  exact ⟨himm.trans (by decide), hoffset.trans (by decide)⟩

end Encoding

end SingleCycle
