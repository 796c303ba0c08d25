import SingleCycle.Text.Blank
import SingleCycle.Text.Digit
import SingleCycle.Text.Numeral

/-!
# Integers as arguments

How an integer may be written on a command line: with white space around it, one sign, decimal
digits of any script, and single underscores between digits. In base sixteen a `0x` may stand in
front of the digits.
-/

namespace SingleCycle.Integer

/-- A character as a reader of numbers takes it: beyond ASCII, white space counts as a space and a
decimal digit as the ASCII digit of its value. -/
def plainChar (c : Char) : Char :=
  if c.toNat < 128 then c
  else if Text.isBlank c then ' '
  else match Text.digitValue? c with
    | some d => Char.ofNat (48 + d)
    | none => c

/-- The six ASCII characters that may surround a number. -/
def isPadding (c : Char) : Bool := c = ' ' || 9 ≤ c.toNat && c.toNat ≤ 13

/-- The text of a number, in ASCII digits and without the white space around it. -/
def plainText (cs : List Char) : List Char :=
  (((cs.map plainChar).dropWhile isPadding).reverse.dropWhile isPadding).reverse

/-- Digits, with at most one underscore between neighbours. -/
def separatedDigits? (digit? : Char → Option Nat) : List Char → Option (List Nat)
  | [] => none
  | [c] => (digit? c).map ([·])
  | c :: '_' :: cs => do
    let d ← digit? c
    let ds ← separatedDigits? digit? cs
    some (d :: ds)
  | c :: cs => do
    let d ← digit? c
    let ds ← separatedDigits? digit? cs
    some (d :: ds)

/-- A number behind an optional sign. -/
def signed? (magnitude? : List Char → Option Nat) : List Char → Option Int
  | '+' :: cs => (magnitude? cs).map Int.ofNat
  | '-' :: cs => (magnitude? cs).map fun n => -(n : Int)
  | cs => (magnitude? cs).map Int.ofNat

/-- A natural number in base ten, of at most `Numeral.decimalLimit` digits. -/
def decimalMagnitude? (cs : List Char) : Option Nat := do
  let ds ← separatedDigits? Numeral.decimalDigit? cs
  if ds.length ≤ Numeral.decimalLimit then some (Numeral.value 10 ds) else none

/-- The text of a number in base sixteen without the `0x` in front of it, which an underscore may
follow. -/
def withoutBaseMark : List Char → List Char
  | '0' :: 'x' :: '_' :: cs => cs
  | '0' :: 'X' :: '_' :: cs => cs
  | '0' :: 'x' :: cs => cs
  | '0' :: 'X' :: cs => cs
  | cs => cs

/-- A natural number in base sixteen. -/
def hexMagnitude? (cs : List Char) : Option Nat :=
  (separatedDigits? Numeral.hexDigit? (withoutBaseMark cs)).map (Numeral.value 16)

/-- Reads an integer in base ten. -/
def ofDecimal? (cs : List Char) : Option Int := signed? decimalMagnitude? (plainText cs)

/-- Reads an integer in base sixteen. -/
def ofHex? (cs : List Char) : Option Int := signed? hexMagnitude? (plainText cs)

end SingleCycle.Integer
