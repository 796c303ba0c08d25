import Mathlib.Data.Int.Bitwise
import Mathlib.Data.Int.ModEq
import SingleCycle.Proofs.Layout
import SingleCycle.Proofs.Numerals

/-!
# The readings of low bits

The low bits of an integer are read without a sign or in two's complement. Each reading is the one
number of its range with these bits, so either of them can be had from the other. With masks, the
unsigned reading keeps the low bits, and the signed one also sets all bits above a sign bit that is
set. An unsigned reading is written in one hexadecimal digit for every four bits.
-/

namespace SingleCycle

/-! ## Ranges -/

/-- A number of a range has the low `n` bits of an integer. -/
structure ReadsAs (n : Nat) (low high w v : Int) : Prop where
  low_le : low ≤ v
  lt_high : v < high
  congruent : v ≡ w [ZMOD 2 ^ n]

/-- Among `2 ^ n` numbers in a row, only one has the given bits. -/
theorem ReadsAs.unique {n : Nat} {low high w u v : Int} (hrange : high - low ≤ 2 ^ n)
    (hu : ReadsAs n low high w u) (hv : ReadsAs n low high w v) : u = v := by
  have hdvd : (2 : Int) ^ n ∣ u - v := (hv.congruent.trans hu.congruent.symm).dvd
  have hlow := hu.low_le
  have hhigh := hu.lt_high
  have hlow' := hv.low_le
  have hhigh' := hv.lt_high
  have hzero : u - v = 0 := by
    refine Int.eq_zero_of_abs_lt_dvd hdvd ?_
    rw [abs_lt]
    constructor <;> omega
  omega

theorem two_pow_pos (n : Nat) : (0 : Int) < 2 ^ n := Int.pow_pos (by decide)

theorem readsAs_unsigned (n : Nat) (w : Int) : ReadsAs n 0 (2 ^ n) w (unsigned n w) where
  low_le := Int.emod_nonneg w (Int.ne_of_gt (two_pow_pos n))
  lt_high := Int.emod_lt_of_pos w (two_pow_pos n)
  congruent := Int.mod_modEq w (2 ^ n)

/-- The two readings are the same number, unless the sign bit is set. -/
theorem signed_eq (k : Nat) (w : Int) : signed (k + 1) w =
    if 2 ^ k ≤ unsigned (k + 1) w then unsigned (k + 1) w - 2 ^ (k + 1)
    else unsigned (k + 1) w := by
  -- `Int.bmod` cuts at half of the modulus, which it rounds up
  have hhalf : ((2 : Int) ^ (k + 1) + 1) / 2 = 2 ^ k := by
    rw [Int.pow_succ]
    omega
  unfold signed unsigned
  rw [Int.bmod_def, Int.natCast_pow, Int.cast_ofNat_Int, hhalf]
  by_cases h : w % 2 ^ (k + 1) < 2 ^ k
  · rw [if_pos h, if_neg (Int.not_le.2 h)]
  · rw [if_neg h, if_pos (Int.not_lt.1 h)]

theorem readsAs_signed (k : Nat) (w : Int) :
    ReadsAs (k + 1) (-2 ^ k) (2 ^ k) w (signed (k + 1) w) := by
  have hunsigned := readsAs_unsigned (k + 1) w
  have hlow := hunsigned.low_le
  have hhigh := hunsigned.lt_high
  have hpow : (2 : Int) ^ (k + 1) = 2 * 2 ^ k := by rw [Int.pow_succ, Int.mul_comm]
  rw [signed_eq]
  by_cases h : 2 ^ k ≤ unsigned (k + 1) w
  · rw [if_pos h]
    refine ⟨by omega, by omega, ?_⟩
    have hself : unsigned (k + 1) w - 2 ^ (k + 1) ≡ unsigned (k + 1) w [ZMOD 2 ^ (k + 1)] :=
      Int.sub_emod_right _ _
    exact hself.trans hunsigned.congruent
  · rw [if_neg h]
    exact ⟨by omega, by omega, hunsigned.congruent⟩

/-! ## Masks -/

/-- The mask of the low `n` bits. -/
def lowMask (n : Nat) : Int := 2 ^ n - 1

theorem lowMask_eq (n : Nat) : lowMask n = (2 ^ n - 1 : Nat) := by
  have hpos : 1 ≤ 2 ^ n := Nat.one_le_two_pow
  unfold lowMask
  push_cast [hpos]
  rfl

theorem ldiff_two_pow_sub_one (m n : Nat) : Nat.ldiff (2 ^ n - 1) m = 2 ^ n - 1 - m % 2 ^ n := by
  have hlt : m % 2 ^ n < 2 ^ n := Nat.mod_lt m (Nat.two_pow_pos n)
  have hcomplement : 2 ^ n - 1 - m % 2 ^ n = 2 ^ n - (m % 2 ^ n + 1) := by omega
  apply Nat.eq_of_testBit_eq
  intro i
  rw [hcomplement, Nat.testBit_ldiff, Nat.testBit_two_pow_sub_one,
    Nat.testBit_two_pow_sub_succ hlt, Nat.testBit_mod_two_pow]
  by_cases hi : i < n <;> simp [hi]

theorem unsigned_negSucc (n m : Nat) :
    unsigned n (.negSucc m) = (2 ^ n - 1 - m % 2 ^ n : Nat) := by
  have hlt : m % 2 ^ n < 2 ^ n := Nat.mod_lt m (Nat.two_pow_pos n)
  have hcast : ((m % 2 ^ n : Nat) : Int) = m % 2 ^ n := Int.natCast_emod m (2 ^ n)
  have hpow : ((2 ^ n : Nat) : Int) = 2 ^ n := Int.natCast_pow 2 n
  unfold unsigned
  rw [Int.negSucc_emod m (two_pow_pos n), ← hcast, ← hpow]
  omega

/-- The mask keeps the low bits, also those of a negative integer. -/
theorem land_lowMask (n : Nat) (w : Int) : Int.land w (lowMask n) = unsigned n w := by
  rw [lowMask_eq]
  cases w with
  | ofNat m =>
    show ((m &&& (2 ^ n - 1) : Nat) : Int) = _
    rw [Nat.and_two_pow_sub_one_eq_mod]
    exact Int.natCast_emod m (2 ^ n)
  | negSucc m =>
    -- the bits of `-m - 1` are those of `m` complemented
    show ((Nat.ldiff (2 ^ n - 1) m : Nat) : Int) = _
    rw [ldiff_two_pow_sub_one, unsigned_negSucc]

/-- The complement of the mask sets all bits above the low ones. -/
theorem lor_lnot_lowMask (n : Nat) (w : Int) :
    Int.lor w (Int.lnot (lowMask n)) = unsigned n w - 2 ^ n := by
  have hpow : ((2 ^ n : Nat) : Int) = 2 ^ n := Int.natCast_pow 2 n
  rw [lowMask_eq, ← hpow]
  cases w with
  | ofNat m =>
    have hlt : m % 2 ^ n < 2 ^ n := Nat.mod_lt m (Nat.two_pow_pos n)
    have hunsigned : unsigned n (.ofNat m) = (m % 2 ^ n : Nat) := (Int.natCast_emod m (2 ^ n)).symm
    show Int.negSucc (Nat.ldiff (2 ^ n - 1) m) = _
    rw [ldiff_two_pow_sub_one, hunsigned, Int.negSucc_eq]
    omega
  | negSucc m =>
    have hlt : m % 2 ^ n < 2 ^ n := Nat.mod_lt m (Nat.two_pow_pos n)
    show Int.negSucc (m &&& (2 ^ n - 1)) = _
    rw [Nat.and_two_pow_sub_one_eq_mod, unsigned_negSucc, Int.negSucc_eq]
    omega

theorem testBit_iff (m k : Nat) : m.testBit k = true ↔ 2 ^ k ≤ m % 2 ^ (k + 1) := by
  have hlt : m % 2 ^ k < 2 ^ k := Nat.mod_lt m (Nat.two_pow_pos k)
  have hsplit : m % 2 ^ (k + 1) = m % 2 ^ k + 2 ^ k * (m / 2 ^ k % 2) := Nat.mod_pow_succ
  rw [Nat.testBit_eq_decide_div_mod_eq, decide_eq_true_iff, hsplit]
  rcases Nat.mod_two_eq_zero_or_one (m / 2 ^ k) with h | h
  · simp [h]
    omega
  · simp [h]

/-- The sign bit is set in the upper half of the unsigned readings. -/
theorem land_two_pow_ne_zero (k : Nat) (w : Int) :
    Int.land w (2 ^ k) ≠ 0 ↔ 2 ^ k ≤ unsigned (k + 1) w := by
  have hpow : ((2 ^ k : Nat) : Int) = 2 ^ k := Int.natCast_pow 2 k
  have hpos := Nat.two_pow_pos k
  rw [← hpow]
  cases w with
  | ofNat m =>
    have hunsigned : unsigned (k + 1) (.ofNat m) = (m % 2 ^ (k + 1) : Nat) :=
      (Int.natCast_emod m (2 ^ (k + 1))).symm
    show ((m &&& 2 ^ k : Nat) : Int) ≠ 0 ↔ _
    rw [hunsigned, Int.ofNat_le, ← testBit_iff, Nat.and_two_pow]
    cases m.testBit k <;> simp
  | negSucc m =>
    have hlt : m % 2 ^ (k + 1) < 2 ^ (k + 1) := Nat.mod_lt m (Nat.two_pow_pos (k + 1))
    -- `Nat.and_two_pow` has no counterpart for the complement
    have hbit : Nat.ldiff (2 ^ k) m = (!m.testBit k).toNat * 2 ^ k := by
      apply Nat.eq_of_testBit_eq
      intro i
      rw [Nat.testBit_ldiff, Nat.testBit_two_pow]
      by_cases hi : k = i
      · subst hi
        cases m.testBit k <;> simp
      · cases m.testBit k <;> simp [hi]
    have hhalf : 2 ^ k ≤ 2 ^ (k + 1) - 1 - m % 2 ^ (k + 1) ↔ ¬ 2 ^ k ≤ m % 2 ^ (k + 1) := by
      rw [Nat.pow_succ] at hlt ⊢
      omega
    show ((Nat.ldiff (2 ^ k) m : Nat) : Int) ≠ 0 ↔ _
    rw [unsigned_negSucc, Int.ofNat_le, hhalf, ← testBit_iff, hbit]
    cases m.testBit k <;> simp

theorem signed_eq_masked (k : Nat) (w : Int) : signed (k + 1) w =
    if Int.land w (2 ^ k) ≠ 0 then Int.lor w (Int.lnot (lowMask (k + 1)))
    else Int.land w (lowMask (k + 1)) := by
  rw [signed_eq, lor_lnot_lowMask, land_lowMask]
  exact if_congr (land_two_pow_ne_zero k w).symm rfl rfl

/-! ## Hexadecimal text -/

theorem checkedUnsigned_natCast (n : Nat) (w : Int) :
    checkedUnsigned n w = .ok (unsigned n w) := by
  have hn : ¬ (n : Int) < 0 := Int.not_lt.2 (Int.natCast_nonneg n)
  unfold checkedUnsigned
  rw [if_neg hn, Int.toNat_natCast]

theorem checkedSigned_natCast (k : Nat) (w : Int) :
    checkedSigned (k + 1 : Nat) w = .ok (signed (k + 1) w) := by
  have hk : ¬ ((k + 1 : Nat) : Int) < 1 := by omega
  unfold checkedSigned
  rw [if_neg hk, Int.toNat_natCast]

theorem checkedHex_natCast (n : Nat) (w : Int) :
    checkedHex n w = .ok (String.ofList (Numeral.hex (n / 4) (unsigned n w).toNat)) := by
  unfold checkedHex
  rw [checkedUnsigned_natCast, Int.toNat_natCast]
  rfl

/-- Four bits take up one digit. -/
theorem showsHex_unsigned {k : Nat} (hk : 0 < k) (w : Int) :
    ∃ text, checkedHex (4 * k : Nat) w = .ok text ∧
      Numeral.ShowsHex k text (unsigned (4 * k) w).toNat := by
  have hreads := readsAs_unsigned (4 * k) w
  have hlow := hreads.low_le
  have hhigh := hreads.lt_high
  have hdiv : 4 * k / 4 = k := Nat.mul_div_cancel_left k (by decide)
  have hlt : (unsigned (4 * k) w).toNat < 16 ^ k := by
    have hpow : (16 : Nat) ^ k = 2 ^ (4 * k) := (Nat.pow_mul 2 4 k).symm
    have hcast : ((2 ^ (4 * k) : Nat) : Int) = 2 ^ (4 * k) := Int.natCast_pow 2 (4 * k)
    rw [hpow]
    omega
  refine ⟨_, checkedHex_natCast (4 * k) w, ?_⟩
  rw [hdiv]
  exact Numeral.showsHex_hex hk hlt

/-! ## All readings -/

/-- What is read of the low `n` bits of an integer. -/
structure Readings (n : Nat) (w : Int) : Prop where
  unsigned_eq : checkedUnsigned n w = .ok (unsigned n w)
  signed_eq : checkedSigned n w = .ok (signed n w)
  /-- The readings are the only numbers of their ranges with these bits. -/
  unsigned_iff : ∀ v, ReadsAs n 0 (2 ^ n) w v ↔ v = unsigned n w
  signed_iff : ∀ v, ReadsAs n (-2 ^ (n - 1)) (2 ^ (n - 1)) w v ↔ v = signed n w
  /-- Each of them has the bits for the other. -/
  unsigned_of_signed : checkedUnsigned n (signed n w) = .ok (unsigned n w)
  signed_of_unsigned : checkedSigned n (unsigned n w) = .ok (signed n w)
  /-- They are what masks make of the integer. -/
  unsigned_masked : unsigned n w = Int.land w (lowMask n)
  signed_masked : signed n w =
    if Int.land w (2 ^ (n - 1)) ≠ 0 then Int.lor w (Int.lnot (lowMask n))
    else Int.land w (lowMask n)
  /-- Where bits can be written four at a time, there is a digit for each four of them. -/
  hex : 4 ∣ n →
    ∃ text, checkedHex n w = .ok text ∧ Numeral.ShowsHex (n / 4) text (unsigned n w).toNat

/-- Every positive number of bits has its readings, whatever the integer is. -/
theorem readings_of_pos (n : Nat) (w : Int) (hn : 1 ≤ n) : Readings n w := by
  obtain ⟨k, rfl⟩ := Nat.exists_eq_add_of_le' hn
  have hunsigned := readsAs_unsigned (k + 1) w
  have hsigned := readsAs_signed k w
  have hrange : (2 : Int) ^ k - -2 ^ k ≤ 2 ^ (k + 1) := by
    rw [Int.pow_succ]
    omega
  have hunsigned_signed : unsigned (k + 1) (signed (k + 1) w) = unsigned (k + 1) w :=
    hsigned.congruent
  have htwice : unsigned (k + 1) (unsigned (k + 1) w) = unsigned (k + 1) w :=
    hunsigned.congruent
  have hsigned_unsigned : signed (k + 1) (unsigned (k + 1) w) = signed (k + 1) w := by
    rw [signed_eq, signed_eq, htwice]
  exact
    { unsigned_eq := checkedUnsigned_natCast _ _
      signed_eq := checkedSigned_natCast _ _
      unsigned_iff := by
        intro v
        constructor
        · exact fun hv => hv.unique (by omega) hunsigned
        · rintro rfl
          exact hunsigned
      signed_iff := by
        intro v
        constructor
        · exact fun hv => hv.unique hrange hsigned
        · rintro rfl
          exact hsigned
      unsigned_of_signed := by rw [checkedUnsigned_natCast, hunsigned_signed]
      signed_of_unsigned := by rw [checkedSigned_natCast, hsigned_unsigned]
      unsigned_masked := (land_lowMask _ _).symm
      signed_masked := signed_eq_masked k w
      hex := by
        rintro ⟨m, hm⟩
        have hpos : 0 < m := by omega
        have hdiv : 4 * m / 4 = m := Nat.mul_div_cancel_left m (by decide)
        rw [hm, hdiv]
        exact showsHex_unsigned hpos w }

/-- A negative integer with more than twelve bits, whose low twelve bits are those of a positive
one. -/
theorem readings_of_pos_twelve : 1 ≤ 12 ∧ checkedSigned 12 (-2049) = .ok 2047 ∧
    checkedUnsigned 12 2047 = checkedUnsigned 12 (-2049) := by
  have h := readings_of_pos 12 (-2049) (by decide)
  have hsigned : signed 12 (-2049) = 2047 := by decide
  refine ⟨by decide, ?_, ?_⟩
  · rw [← hsigned]
    exact h.signed_eq
  · rw [← hsigned]
    exact h.unsigned_of_signed.trans h.unsigned_eq.symm

end SingleCycle
