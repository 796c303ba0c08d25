import SingleCycle.Proofs.Selection

/-!
# The arithmetic unit over integers

The arithmetic unit works on words, and it is handed integers of any size. Here its operations are
written over numbers from 0 to `2 ^ 32`, with the addition, multiplication and division of the
integers: an operation that looks at signs reads its operands in two's complement first, and one
that can leave the range reduces its result. The unit computes these functions of the residues of
its operands, for every code that it has.
-/

namespace SingleCycle

namespace AluOp

/-- The number that an operation gives for two numbers from 0 to `2 ^ 32`. Shifts read the second
number modulo 32, and division rounds down. -/
def number (op : AluOp) (a b : Int) : Int :=
  match op with
  | add => unsigned 32 (a + b)
  | sub => unsigned 32 (a - b)
  | sll => unsigned 32 (a * 2 ^ (b % 32).toNat)
  | slt => if signed 32 a < signed 32 b then 1 else 0
  | sltu => if a < b then 1 else 0
  | xor => (a.toNat ^^^ b.toNat : Nat)
  | srl => a / 2 ^ (b % 32).toNat
  | sra => unsigned 32 (signed 32 a / 2 ^ (b % 32).toNat)
  | or => (a.toNat ||| b.toNat : Nat)
  | and => (a.toNat &&& b.toNat : Nat)
  | seq => if a = b then 1 else 0
  | beq => if a = b then 1 else 0
  | blt => if signed 32 a < signed 32 b then 1 else 0
  | bltu => if a < b then 1 else 0

/-- Whether an operation compares. -/
def compares : AluOp → Bool
  | slt => true
  | sltu => true
  | seq => true
  | beq => true
  | blt => true
  | bltu => true
  | _ => false

/-! ## Words as numbers -/

theorem wordOf_congr {a b : Int} (h : a % 2 ^ 32 = b % 2 ^ 32) : wordOf a = wordOf b := by
  apply BitVec.eq_of_toNat_eq
  rw [toNat_wordOf, toNat_wordOf, h]

theorem signed_toNat (x : Word) : signed 32 x.toNat = x.toInt :=
  (BitVec.toInt_eq_toNat_bmod x).symm

/-! ## Operations -/

theorem flag_eq_zero_or_one (b : Bool) : flag b = 0 ∨ flag b = 1 := by
  cases b with
  | false => exact .inl rfl
  | true => exact .inr rfl

theorem eval_of_compares {op : AluOp} (h : op.compares = true) (x y : Word) :
    op.eval x y = 0 ∨ op.eval x y = 1 := by
  cases op with
  | slt | sltu | seq | beq | blt | bltu => exact flag_eq_zero_or_one _
  | add | sub | sll | xor | srl | sra | or | and => cases h

/-- A quotient of a number in range is in range. -/
theorem unsigned_toNat_div (x : Word) (n : Nat) :
    unsigned 32 ((x.toNat : Int) / 2 ^ n) = (x.toNat : Int) / 2 ^ n := by
  have hlt : (x.toNat : Int) < 2 ^ 32 := by
    have hx := x.isLt
    omega
  have hpow : (0 : Int) < 2 ^ n := Int.pow_pos (by decide)
  have hle : (x.toNat : Int) / 2 ^ n ≤ x.toNat := Int.ediv_le_self _ (Int.natCast_nonneg _)
  have hnonneg : 0 ≤ (x.toNat : Int) / 2 ^ n :=
    Int.ediv_nonneg (Int.natCast_nonneg _) (Int.le_of_lt hpow)
  exact Int.emod_eq_of_lt hnonneg (Int.lt_of_le_of_lt hle hlt)

theorem number_register (op : RegisterOp) (x y : Word) :
    ((op.value x y).toNat : Int) = op.aluOp.number x.toNat y.toNat := by
  have hshift : ((y.toNat : Int) % 32).toNat = y.toNat % 32 := by omega
  cases op with
  | add => exact natCast_wordOf _
  | sub => exact natCast_wordOf _
  | sll =>
    show ((wordOf (x.toNat * 2 ^ (y.toNat % 32))).toNat : Int) = unsigned 32 _
    rw [natCast_wordOf, hshift]
  | slt =>
    show (((if x.toInt < y.toInt then 1 else 0 : Word)).toNat : Int) =
      if signed 32 x.toNat < signed 32 y.toNat then 1 else 0
    rw [signed_toNat, signed_toNat]
    split
    · rfl
    · rfl
  | sltu =>
    show (((if x.toNat < y.toNat then 1 else 0 : Word)).toNat : Int) =
      if (x.toNat : Int) < y.toNat then 1 else 0
    simp only [Int.ofNat_lt]
    split
    · rfl
    · rfl
  | xor =>
    show ((x ^^^ y).toNat : Int) = _
    rw [BitVec.toNat_xor]
    rfl
  | srl =>
    show ((wordOf (x.toNat / 2 ^ (y.toNat % 32))).toNat : Int) = x.toNat / 2 ^ _
    rw [natCast_wordOf, hshift, unsigned_toNat_div]
  | sra =>
    show ((wordOf (x.toInt / 2 ^ (y.toNat % 32))).toNat : Int) =
      unsigned 32 (signed 32 x.toNat / 2 ^ _)
    rw [natCast_wordOf, hshift, signed_toNat]
  | or =>
    show ((x ||| y).toNat : Int) = _
    rw [BitVec.toNat_or]
    rfl
  | and =>
    show ((x &&& y).toNat : Int) = _
    rw [BitVec.toNat_and]
    rfl

/-- The result of an operation on words is its number. -/
theorem toNat_eval (op : AluOp) (x y : Word) :
    ((op.eval x y).toNat : Int) = op.number x.toNat y.toNat := by
  have hregister : ∀ op : RegisterOp,
      ((op.aluOp.eval x y).toNat : Int) = op.aluOp.number x.toNat y.toNat := by
    intro op
    rw [RegisterOp.eval_aluOp]
    exact number_register op x y
  have hequal : ((flag (x == y)).toNat : Int) = if (x.toNat : Int) = y.toNat then 1 else 0 := by
    simp only [Int.ofNat_inj, BitVec.toNat_inj]
    by_cases hxy : x = y
    · simp [flag, hxy]
    · simp [flag, hxy]
  cases op with
  | add => exact hregister .add
  | sub => exact hregister .sub
  | sll => exact hregister .sll
  | slt => exact hregister .slt
  | sltu => exact hregister .sltu
  | xor => exact hregister .xor
  | srl => exact hregister .srl
  | sra => exact hregister .sra
  | or => exact hregister .or
  | and => exact hregister .and
  | seq => exact hequal
  | beq => exact hequal
  -- The comparisons of branches are those of the arithmetic instructions.
  | blt => exact hregister .slt
  | bltu => exact hregister .sltu

/-! ## Codes -/

@[simp]
theorem ofCode?_code (op : AluOp) : ofCode? op.code = some op := by
  cases op <;> rfl

theorem exists_code {code : Int} (hlow : 0 ≤ code) (hhigh : code < 14) :
    ∃ op : AluOp, (op.code : Int) = code := by
  have hall : ∀ k : Fin 14, (ofCode? k.val).isSome := by decide
  obtain ⟨n, rfl⟩ := Int.eq_ofNat_of_zero_le hlow
  obtain ⟨op, hop⟩ := Option.isSome_iff_exists.1 (hall ⟨n, by omega⟩)
  have hcode := List.find?_some hop
  exact ⟨op, eq_of_beq hcode⟩

theorem alu_code (op : AluOp) (a b : Int) :
    alu a b op.code = .ok (op.eval (wordOf a) (wordOf b)) := by
  simp [alu]

/-- The word `w` is what the arithmetic unit gives for an operation and two integers. -/
structure Computes (op : AluOp) (a b : Int) (w : Word) : Prop where
  result : alu a b op.code = .ok w
  /-- The operation is carried out on the residues of the integers. -/
  number : (w.toNat : Int) = op.number (a % 2 ^ 32) (b % 2 ^ 32)
  range : 0 ≤ op.number (a % 2 ^ 32) (b % 2 ^ 32) ∧ op.number (a % 2 ^ 32) (b % 2 ^ 32) < 2 ^ 32
  /-- Comparisons give 0 or 1. -/
  comparison : op.compares = true → w = 0 ∨ w = 1
  /-- Other integers with these residues give the same. -/
  residues : ∀ a' b' : Int, a' % 2 ^ 32 = a % 2 ^ 32 → b' % 2 ^ 32 = b % 2 ^ 32 →
    alu a' b' op.code = .ok w

/-- Every code from 0 to 13 has an operation, and the arithmetic unit carries it out on the residues
of any two integers. -/
theorem alu_computes (a b code : Int) (hlow : 0 ≤ code) (hhigh : code < 14) :
    ∃ op w, (op.code : Int) = code ∧ Computes op a b w := by
  obtain ⟨op, hop⟩ := exists_code hlow hhigh
  have hnumber : ((op.eval (wordOf a) (wordOf b)).toNat : Int) =
      op.number (a % 2 ^ 32) (b % 2 ^ 32) := by
    rw [toNat_eval, natCast_wordOf, natCast_wordOf]
    rfl
  have hlt := (op.eval (wordOf a) (wordOf b)).isLt
  refine ⟨op, op.eval (wordOf a) (wordOf b), hop, alu_code op a b, hnumber, ?_, ?_, ?_⟩
  · rw [← hnumber]
    omega
  · intro hcompares
    exact eval_of_compares hcompares _ _
  · intro a' b' ha hb
    rw [alu_code, wordOf_congr ha, wordOf_congr hb]

/-- The arithmetic shift of a negative number with stray high bits by 32 and 31 bits. -/
theorem alu_computes_sra :
    (∃ op w, (op.code : Int) = 7 ∧ Computes op (-2 ^ 40 + 2 ^ 31) (2 ^ 33 + 63) w) ∧
      alu (-2 ^ 40 + 2 ^ 31) (2 ^ 33 + 63) 7 = .ok 0xFFFFFFFF :=
  ⟨alu_computes _ _ 7 (by decide) (by decide), rfl⟩

end AluOp

end SingleCycle
