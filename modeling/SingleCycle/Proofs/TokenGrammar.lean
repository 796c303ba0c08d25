import SingleCycle.Proofs.Reassembly

/-!
# The grammar of tokens

A register is an `x` and the numeral of a number up to 31, in base ten and without leading zeros. An
immediate is a numeral in base ten, behind a minus sign or not, or in base sixteen behind `0x`. The
readers of the two accept these tokens and no others, and give the numbers that they denote.
-/

namespace SingleCycle

namespace Numeral

/-! ## Leading zeros -/

/-- A numeral in base ten without zeros in front of the number. -/
structure Canonical (cs : List Char) (n : Nat) : Prop where
  spells : Spells 10 cs n
  leading : cs.head? = some '0' → cs = ['0']

theorem map_digitChar_of_isDigit {cs : List Char} {ds : List Nat}
    (h : List.Forall₂ (IsDigit 10) cs ds) : cs = ds.map Nat.digitChar ∧ ∀ d ∈ ds, d < 10 := by
  induction h with
  | nil => exact ⟨rfl, nofun⟩
  | @cons c d cs ds hc hcs ih =>
    obtain ⟨hmap, hlt⟩ := ih
    obtain ⟨hd, hchar⟩ := eq_digitChar_of_decimalDigit? (decimalDigit?_eq_some_iff.2 hc)
    rw [List.map_cons, ← hmap, ← hchar]
    refine ⟨rfl, fun e he => ?_⟩
    rcases List.mem_cons.1 he with rfl | he
    · exact hd
    · exact hlt e he

/-- A canonical numeral is the zero alone, or it has the digits that the number has. -/
theorem Canonical.cases {cs : List Char} {n : Nat} (h : Canonical cs n) :
    cs = ['0'] ∧ n = 0 ∨ cs = (Nat.digits 10 n).reverse.map Nat.digitChar ∧ n ≠ 0 := by
  obtain ⟨hne, ds, hds, hvalue⟩ := h.spells
  obtain ⟨hmap, hlt⟩ := map_digitChar_of_isDigit hds
  cases ds with
  | nil => exact absurd hmap hne
  | cons d ds =>
    by_cases hd : d = 0
    · left
      have hzero : cs = ['0'] := h.leading (by rw [hmap, hd]; rfl)
      have hnil : ds = [] := by
        have hlength := congrArg List.length (hzero.symm.trans hmap)
        simpa using hlength.symm
      subst hd hnil
      exact ⟨hzero, hvalue.symm⟩
    · right
      -- the last digit of the reversed numeral is not zero, so these are all digits of the number
      have hdigits : Nat.digits 10 n = (d :: ds).reverse := by
        rw [← hvalue]
        refine Nat.digits_ofDigits 10 (by decide) _ (fun e he => hlt e (List.mem_reverse.1 he)) ?_
        intro hsome
        rw [List.getLast_reverse]
        exact hd
      rw [hdigits, List.reverse_reverse]
      refine ⟨hmap, fun hn => ?_⟩
      rw [hn, Nat.digits_zero] at hdigits
      simp at hdigits

theorem Canonical.unique {cs ds : List Char} {n : Nat} (hcs : Canonical cs n)
    (hds : Canonical ds n) : cs = ds := by
  rcases hcs.cases with ⟨hc, hn⟩ | ⟨hc, hn⟩
  · rcases hds.cases with ⟨hd, -⟩ | ⟨-, hne⟩
    · rw [hc, hd]
    · exact absurd hn hne
  · rcases hds.cases with ⟨-, hzero⟩ | ⟨hd, -⟩
    · exact absurd hzero hn
    · rw [hc, hd]

theorem head?_toDigits {n : Nat} (hn : 0 < n) : (Nat.toDigits 10 n).head? ≠ some '0' := by
  induction n using Nat.strong_induction_on with
  | _ n ih =>
    by_cases hlt : n < 10
    · have hall : ∀ d : Fin 10, 0 < d.val → d.val.digitChar ≠ '0' := by decide
      rw [Nat.toDigits_of_lt_base hlt]
      intro hzero
      exact hall ⟨n, hlt⟩ hn (Option.some.inj hzero)
    · have hle : 10 ≤ n := Nat.le_of_not_lt hlt
      rw [Nat.toDigits_of_base_le (by decide) hle, List.head?_append_of_ne_nil _ Nat.toDigits_ne_nil]
      exact ih (n / 10) (by omega) (by omega)

/-- What is written in base ten is canonical. -/
theorem canonical_toDigits (n : Nat) : Canonical (Nat.toDigits 10 n) n where
  spells := spells_toDigits (by decide) n
  leading := by
    intro hzero
    by_cases hn : n = 0
    · rw [hn]
      rfl
    · exact absurd hzero (head?_toDigits (Nat.pos_of_ne_zero hn))

end Numeral

namespace Operand

/-! ## Registers -/

/-- A token names the register with a number. -/
def NamesRegister (token : List Char) (n : Nat) : Prop :=
  n ≤ 31 ∧ ∃ cs, token = 'x' :: cs ∧ Numeral.Canonical cs n

theorem register?_eq_some_iff {token : List Char} {r : BitVec 5} :
    register? token = some r ↔ NamesRegister token r.toNat := by
  constructor
  · intro h
    have hlt := r.isLt
    refine ⟨by omega, Nat.toDigits 10 r.toNat, ?_, Numeral.canonical_toDigits r.toNat⟩
    rw [eq_registerToken h, registerToken_eq]
  · rintro ⟨-, cs, rfl, hcs⟩
    rw [hcs.unique (Numeral.canonical_toDigits r.toNat), ← registerToken_eq]
    exact register?_registerToken r

theorem register_eq_ok_iff {token : List Char} {n : Nat} :
    (∃ r, register token = .ok r ∧ r.toNat = n) ↔ NamesRegister token n := by
  constructor
  · rintro ⟨r, hr, rfl⟩
    exact register?_eq_some_iff.1 (register?_of_ok hr)
  · intro h
    have hn : (BitVec.ofNat 5 n).toNat = n := by
      have hle := h.1
      exact Nat.mod_eq_of_lt (by omega)
    refine ⟨BitVec.ofNat 5 n, ?_, hn⟩
    exact register_of_register? (register?_eq_some_iff.2 (by rw [hn]; exact h))

/-! ## Both kinds of tokens -/

/-- The readers accept exactly the names of registers and the numerals of immediates, and an integer
that is written in base ten or sixteen is read back. -/
theorem accepts_tokens :
    (∀ (token : List Char) (n : Nat),
      (∃ r, register token = .ok r ∧ r.toNat = n) ↔ NamesRegister token n) ∧
    (∀ (token : List Char) (v : Int), immediate token = .ok v ↔ Denotes token v) ∧
    (∀ v : Int, v.natAbs < 10 ^ Numeral.decimalLimit → immediate (decimalToken v) = .ok v) ∧
    ∀ n : Nat, immediate (hexToken n) = .ok n := by
  refine ⟨fun token n => register_eq_ok_iff, fun token v => immediate_eq_ok_iff, ?_, ?_⟩
  · intro v hv
    exact immediate_eq_ok_iff.2 (denotes_decimalToken hv)
  · intro n
    exact immediate_hexToken n

theorem accepts_tokens_negative : (-2048 : Int).natAbs < 10 ^ Numeral.decimalLimit ∧
    immediate "-2048".toList = .ok (-2048) := by
  have hten : (-2048 : Int).natAbs < 10 ^ 4 := by decide
  have hsmall : (-2048 : Int).natAbs < 10 ^ Numeral.decimalLimit :=
    Nat.lt_of_lt_of_le hten (Nat.pow_le_pow_right (by decide) (by decide))
  exact ⟨hsmall, accepts_tokens.2.2.1 (-2048) hsmall⟩

/-- Tokens that miss a register or an immediate by a character. -/
example : (["x01", "x32", "X1", "x", "x1 "].all fun token => (register? token.toList).isNone) ∧
    ["+5", "-0x1", "0X10", "0x", "-", "1_0", "\uFF11"].all fun token =>
      (immediate? token.toList).isNone := by decide

end Operand

end SingleCycle
