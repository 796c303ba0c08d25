/-!
# Numerals in ASCII digits

Writing and reading numbers in base ten and base sixteen. What is written has lower-case digits;
a reader takes either case.
-/

namespace SingleCycle.Numeral

-- Powers of numbers are those of the core library, whatever else a reader of this imports.
attribute [local instance (20000)] instPowNat

/-- The number in base sixteen, with lower-case digits, filled with zeros to a least width. -/
def hex (width n : Nat) : List Char := (Nat.toDigits 16 n).leftpad width '0'

/-- The integer in base sixteen. The least width counts the minus sign of a negative number, and
the zeros come after the sign. -/
def signedHex (width : Nat) : Int → List Char
  | .ofNat n => hex width n
  | .negSucc n => '-' :: hex (width - 1) (n + 1)

/-- The value of an ASCII decimal digit. -/
def decimalDigit? (c : Char) : Option Nat := if c.isDigit then some (c.toNat - 48) else none

/-- The value of a hexadecimal digit of either case. -/
def hexDigit? (c : Char) : Option Nat :=
  if c.isDigit then some (c.toNat - 48)
  else if 'a' ≤ c && c ≤ 'f' then some (c.toNat - 87)
  else if 'A' ≤ c && c ≤ 'F' then some (c.toNat - 55)
  else none

/-- The ASCII ranges of the hexadecimal digits. -/
theorem toNat_of_hexDigit {c : Char} {d : Nat} (h : hexDigit? c = some d) :
    48 ≤ c.toNat ∧ c.toNat ≤ 57 ∨ 65 ≤ c.toNat ∧ c.toNat ≤ 70 ∨ 97 ≤ c.toNat ∧ c.toNat ≤ 102 := by
  unfold hexDigit? at h
  split at h
  · next hdigit =>
    simp only [Char.isDigit, Bool.and_eq_true, decide_eq_true_eq] at hdigit
    exact .inl hdigit
  split at h
  · next hlower =>
    simp only [Bool.and_eq_true, decide_eq_true_eq] at hlower
    exact .inr (.inr hlower)
  split at h
  · next hupper =>
    simp only [Bool.and_eq_true, decide_eq_true_eq] at hupper
    exact .inr (.inl hupper)
  · cases h

/-- The digits of a text that is nothing but digits, and not empty. -/
def digits? (digit? : Char → Option Nat) (cs : List Char) : Option (List Nat) :=
  if cs.isEmpty then none else cs.mapM digit?

/-- The number that digits write, the most significant one first. -/
def value (base : Nat) (digits : List Nat) : Nat := digits.foldl (fun n d => base * n + d) 0

/-- A numeral in base ten has at most this many digits, leading zeros among them. -/
def decimalLimit : Nat := 4300

/-- Whether the numeral of an integer in base ten has so few digits. The sign does not count. -/
def fitsDecimal (n : Int) : Bool := n.natAbs < 10 ^ decimalLimit

end SingleCycle.Numeral
