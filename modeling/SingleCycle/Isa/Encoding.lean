import SingleCycle.Isa.Opcode
import SingleCycle.Word

/-!
# Instruction formats

Six formats lay the fields of an instruction out in a word. The immediates of stores, branches and
jumps are scattered over bits that are not neighbours, and the offsets of branches and jumps have
no bit 0. The functions on bit fields do the layout; the functions on integers first take each
field modulo its width.
-/

namespace SingleCycle.Encoding

/-- The register format. -/
def wordR (funct7 : BitVec 7) (rs2 rs1 : BitVec 5) (funct3 : BitVec 3) (rd : BitVec 5)
    (opcode : BitVec 7) : Word :=
  funct7 ++ rs2 ++ rs1 ++ funct3 ++ rd ++ opcode

/-- The immediate format. -/
def wordI (imm : BitVec 12) (rs1 : BitVec 5) (funct3 : BitVec 3) (rd : BitVec 5)
    (opcode : BitVec 7) : Word :=
  imm ++ rs1 ++ funct3 ++ rd ++ opcode

/-- The store format: the immediate gives up its low five bits to where `rd` is elsewhere. -/
def wordS (imm : BitVec 12) (rs2 rs1 : BitVec 5) (funct3 : BitVec 3) (opcode : BitVec 7) : Word :=
  imm.extractLsb' 5 7 ++ rs2 ++ rs1 ++ funct3 ++ imm.extractLsb' 0 5 ++ opcode

/-- The branch format, whose offset in bytes has no bit 0. -/
def wordB (offset : BitVec 13) (rs2 rs1 : BitVec 5) (funct3 : BitVec 3) (opcode : BitVec 7) :
    Word :=
  offset.extractLsb' 12 1 ++ offset.extractLsb' 5 6 ++ rs2 ++ rs1 ++ funct3
    ++ offset.extractLsb' 1 4 ++ offset.extractLsb' 11 1 ++ opcode

/-- The upper-immediate format. -/
def wordU (imm : BitVec 20) (rd : BitVec 5) (opcode : BitVec 7) : Word := imm ++ rd ++ opcode

/-- The jump format, whose offset in bytes has no bit 0. -/
def wordJ (offset : BitVec 21) (rd : BitVec 5) (opcode : BitVec 7) : Word :=
  offset.extractLsb' 20 1 ++ offset.extractLsb' 1 10 ++ offset.extractLsb' 11 1
    ++ offset.extractLsb' 12 8 ++ rd ++ opcode

/-- The register format of integers. -/
def encodeR (funct7 rs2 rs1 funct3 rd opcode : Int) : Word :=
  wordR (.ofInt 7 funct7) (.ofInt 5 rs2) (.ofInt 5 rs1) (.ofInt 3 funct3) (.ofInt 5 rd)
    (.ofInt 7 opcode)

/-- The immediate format of integers. -/
def encodeI (imm rs1 funct3 rd opcode : Int) : Word :=
  wordI (.ofInt 12 imm) (.ofInt 5 rs1) (.ofInt 3 funct3) (.ofInt 5 rd) (.ofInt 7 opcode)

/-- The store format of integers. -/
def encodeS (imm rs2 rs1 funct3 opcode : Int) : Word :=
  wordS (.ofInt 12 imm) (.ofInt 5 rs2) (.ofInt 5 rs1) (.ofInt 3 funct3) (.ofInt 7 opcode)

/-- The branch format of integers. -/
def encodeB (offset rs2 rs1 funct3 opcode : Int) : Word :=
  wordB (.ofInt 13 offset) (.ofInt 5 rs2) (.ofInt 5 rs1) (.ofInt 3 funct3) (.ofInt 7 opcode)

/-- The upper-immediate format of integers. -/
def encodeU (imm rd opcode : Int) : Word := wordU (.ofInt 20 imm) (.ofInt 5 rd) (.ofInt 7 opcode)

/-- The jump format of integers. -/
def encodeJ (offset rd opcode : Int) : Word :=
  wordJ (.ofInt 21 offset) (.ofInt 5 rd) (.ofInt 7 opcode)

end SingleCycle.Encoding
