import SingleCycle.Assembly.Operand
import SingleCycle.Isa.Disassembly
import SingleCycle.Proofs.Numerals

/-!
# What operand tokens write

A register is written by its number, an immediate as a numeral in base ten or sixteen. The reader of
a register accepts its name and nothing else, and the reader of an immediate gives the integer that
the numeral spells.
-/

namespace SingleCycle

/-- The name of a register as a token. -/
def registerToken (r : BitVec 5) : List Char := (registerName r).toList

/-- An integer as a token in base ten. -/
def decimalToken (n : Int) : List Char := (toString n).toList

namespace Operand

/-! ## Registers -/

theorem registerToken_eq (r : BitVec 5) : registerToken r = 'x' :: Nat.toDigits 10 r.toNat := by
  unfold registerToken registerName
  rw [Nat.toString_eq_ofList_toDigits, String.toList_append, String.toList_ofList,
    String.toList_ofList]
  rfl

theorem register?_registerToken (r : BitVec 5) : register? (registerToken r) = some r := by
  rw [registerToken_eq]
  revert r
  decide

theorem eq_registerToken {token : List Char} {r : BitVec 5} (h : register? token = some r) :
    token = registerToken r := by
  unfold register? at h
  split at h
  · next a =>
    obtain ⟨d, hd, rfl⟩ := Option.map_eq_some_iff.1 h
    obtain ⟨hlt, rfl⟩ := Numeral.eq_digitChar_of_decimalDigit? hd
    have hd32 : (BitVec.ofNat 5 d).toNat = d := Nat.mod_eq_of_lt (by omega)
    rw [registerToken_eq, hd32, Nat.toDigits_of_lt_base hlt]
  · next a b =>
    split at h
    · next tens units htens hunits =>
      obtain ⟨ht, rfl⟩ := Numeral.eq_digitChar_of_decimalDigit? htens
      obtain ⟨hu, rfl⟩ := Numeral.eq_digitChar_of_decimalDigit? hunits
      obtain ⟨hrange, hr⟩ := Option.ite_none_right_eq_some.1 h
      simp only [Bool.and_eq_true, decide_eq_true_eq] at hrange
      have hn : r.toNat = 10 * tens + units := by
        rw [← Option.some.inj hr]
        exact Nat.mod_eq_of_lt hrange.2
      have hdiv : (10 * tens + units) / 10 = tens := by omega
      have hmod : (10 * tens + units) % 10 = units := by omega
      rw [registerToken_eq, hn, Nat.toDigits_of_base_le (by decide) hrange.1, hdiv, hmod,
        Nat.toDigits_of_lt_base ht]
      rfl
    · cases h
  · cases h

/-! ## Immediates -/

/-- A token writes an integer: in base ten, behind a minus sign or not, or in base sixteen behind
`0x`. -/
inductive Writes : List Char → Int → Prop where
  | decimal {cs : List Char} {n : Nat} (h : Numeral.Spells 10 cs n) : Writes cs n
  | negative {cs : List Char} {n : Nat} (h : Numeral.Spells 10 cs n) : Writes ('-' :: cs) (-n)
  | hex {cs : List Char} {n : Nat} (h : Numeral.Spells 16 cs n) : Writes ('0' :: 'x' :: cs) n

theorem spells_ten_iff {cs : List Char} {n : Nat} : Numeral.Spells 10 cs n ↔
    ∃ ds, Numeral.digits? Numeral.decimalDigit? cs = some ds ∧ Numeral.value 10 ds = n :=
  Numeral.spells_iff fun _ _ => Numeral.decimalDigit?_eq_some_iff

theorem spells_sixteen_iff {cs : List Char} {n : Nat} : Numeral.Spells 16 cs n ↔
    ∃ ds, Numeral.digits? Numeral.hexDigit? cs = some ds ∧ Numeral.value 16 ds = n :=
  Numeral.spells_iff fun _ _ => Numeral.hexDigit?_eq_some_iff

/-- The value of digits in base ten, of which there may not be too many. -/
theorem value_decimal_eq_ok {negative : Bool} {ds : List Nat} {v : Int} :
    (Immediate.decimal negative ds).value = .ok v ↔ ds.length ≤ Numeral.decimalLimit ∧
      v = if negative then -(Numeral.value 10 ds : Int) else Numeral.value 10 ds := by
  unfold Immediate.value
  by_cases hlong : Numeral.decimalLimit < ds.length
  · simp [hlong]
  · simp [hlong, Nat.not_lt.1 hlong, eq_comm]

/-- The tokens that are accepted as immediates, with their integers. A numeral in base ten may not be
too long, its sign apart; one in base sixteen may have any length. -/
inductive Denotes : List Char → Int → Prop where
  | decimal {cs : List Char} {n : Nat} (h : Numeral.Spells 10 cs n)
      (hlength : cs.length ≤ Numeral.decimalLimit) : Denotes cs n
  | negative {cs : List Char} {n : Nat} (h : Numeral.Spells 10 cs n)
      (hlength : cs.length ≤ Numeral.decimalLimit) : Denotes ('-' :: cs) (-n)
  | hex {cs : List Char} {n : Nat} (h : Numeral.Spells 16 cs n) : Denotes ('0' :: 'x' :: cs) n

theorem Denotes.writes {token : List Char} {v : Int} (h : Denotes token v) : Writes token v := by
  cases h with
  | decimal h _ => exact .decimal h
  | negative h _ => exact .negative h
  | hex h => exact .hex h

theorem denotes_of_immediate {token : List Char} {v : Int} (h : immediate token = .ok v) :
    Denotes token v := by
  unfold immediate at h
  split at h
  · next digits hdigits =>
    unfold immediate? at hdigits
    split at hdigits
    · next cs =>
      obtain ⟨ds, hds, rfl⟩ := Option.map_eq_some_iff.1 hdigits
      cases h
      exact .hex (spells_sixteen_iff.2 ⟨ds, hds, rfl⟩)
    · next cs _ =>
      obtain ⟨ds, hds, rfl⟩ := Option.map_eq_some_iff.1 hdigits
      obtain ⟨hlength, rfl⟩ := value_decimal_eq_ok.1 h
      rw [Numeral.length_of_digits? hds] at hlength
      exact .negative (spells_ten_iff.2 ⟨ds, hds, rfl⟩) hlength
    · obtain ⟨ds, hds, rfl⟩ := Option.map_eq_some_iff.1 hdigits
      obtain ⟨hlength, rfl⟩ := value_decimal_eq_ok.1 h
      rw [Numeral.length_of_digits? hds] at hlength
      exact .decimal (spells_ten_iff.2 ⟨ds, hds, rfl⟩) hlength
  · cases h

/-- What is read as an immediate is the integer that the token writes. -/
theorem writes_of_immediate {token : List Char} {v : Int} (h : immediate token = .ok v) :
    Writes token v :=
  (denotes_of_immediate h).writes

/-- Digits in base ten are neither behind `0x` nor behind a minus sign. -/
theorem immediate?_of_digits? {cs : List Char} {ds : List Nat}
    (h : Numeral.digits? Numeral.decimalDigit? cs = some ds) :
    immediate? cs = some (.decimal false ds) := by
  unfold immediate?
  split
  · simp [Numeral.digits?, Numeral.decimalDigit?, List.mapM_cons] at h
  · simp [Numeral.digits?, Numeral.decimalDigit?, List.mapM_cons] at h
  · rw [h]
    rfl

/-- The reader accepts exactly the tokens of immediates. -/
theorem immediate_eq_ok_iff {token : List Char} {v : Int} :
    immediate token = .ok v ↔ Denotes token v := by
  constructor
  · exact denotes_of_immediate
  · intro h
    cases h with
    | decimal h hlength =>
      obtain ⟨ds, hds, rfl⟩ := spells_ten_iff.1 h
      rw [← Numeral.length_of_digits? hds] at hlength
      unfold immediate
      rw [immediate?_of_digits? hds]
      exact value_decimal_eq_ok.2 ⟨hlength, rfl⟩
    | @negative cs n h hlength =>
      obtain ⟨ds, hds, rfl⟩ := spells_ten_iff.1 h
      have hread : immediate? ('-' :: cs) = some (.decimal true ds) :=
        Option.map_eq_some_iff.2 ⟨ds, hds, rfl⟩
      rw [← Numeral.length_of_digits? hds] at hlength
      unfold immediate
      rw [hread]
      exact value_decimal_eq_ok.2 ⟨hlength, rfl⟩
    | @hex cs n h =>
      obtain ⟨ds, hds, rfl⟩ := spells_sixteen_iff.1 h
      have hread : immediate? ('0' :: 'x' :: cs) = some (.hex ds) :=
        Option.map_eq_some_iff.2 ⟨ds, hds, rfl⟩
      unfold immediate
      rw [hread]
      rfl

/-! ## Tokens that are written -/

theorem decimalToken_natCast (n : Nat) : decimalToken n = Nat.toDigits 10 n := by
  have htext : toString (n : Int) = toString n := rfl
  unfold decimalToken
  rw [htext, Nat.toString_eq_ofList_toDigits, String.toList_ofList]

theorem decimalToken_negSucc (n : Nat) :
    decimalToken (.negSucc n) = '-' :: Nat.toDigits 10 (n + 1) := by
  have htext : toString (Int.negSucc n) = "-" ++ toString (n + 1) := rfl
  unfold decimalToken
  rw [htext, Nat.toString_eq_ofList_toDigits, String.toList_append, String.toList_ofList,
    String.toList_ofList]
  rfl

/-- An integer that is written in base ten is read, as long as it has few enough digits. -/
theorem denotes_decimalToken {v : Int} (h : v.natAbs < 10 ^ Numeral.decimalLimit) :
    Denotes (decimalToken v) v := by
  have hlength : ∀ n, n < 10 ^ Numeral.decimalLimit →
      (Nat.toDigits 10 n).length ≤ Numeral.decimalLimit := fun n hn =>
    (Nat.length_toDigits_le_iff (by decide) (by decide)).2 hn
  cases v with
  | ofNat n =>
    rw [Int.ofNat_eq_natCast, decimalToken_natCast]
    exact .decimal (Numeral.spells_toDigits (by decide) n) (hlength n h)
  | negSucc n =>
    rw [decimalToken_negSucc]
    exact .negative (Numeral.spells_toDigits (by decide) (n + 1)) (hlength (n + 1) h)

end Operand

end SingleCycle
