import SingleCycle.Text.Integer

/-!
# Real numbers as arguments

How a real number may be written on a command line: a sign, digits with a point among them, an
exponent, or the name of an infinity or of no number at all. What counts is the nearest binary
number of 64 bits, and of that only whether it is zero, and how long it is as a time.
-/

namespace SingleCycle

/-- A real number as it is written. -/
inductive Decimal where
  /-- The number `digits * 10 ^ exponent`, or its negative. -/
  | finite (negative : Bool) (digits : Nat) (exponent : Int)
  /-- An infinity. -/
  | infinite (negative : Bool)
  /-- No number. -/
  | undefined
  deriving Repr, DecidableEq

namespace Decimal

-- Powers of numbers are those of the core library, whatever else a reader of this imports.
attribute [local instance (20000)] instPowNat

/-- The number zero. -/
def zero : Decimal := finite false 0 0

/-- The text without its underscores, each of which has to stand between two digits. -/
def withoutUnderscores? (afterDigit : Bool) : List Char → Option (List Char)
  | [] => some []
  | ['_'] => none
  | '_' :: c :: cs =>
    if afterDigit && c.isDigit then (withoutUnderscores? true cs).map (c :: ·) else none
  | c :: cs => (withoutUnderscores? c.isDigit cs).map (c :: ·)

/-- A natural number of any length. -/
def natural? (cs : List Char) : Option Nat :=
  (Numeral.digits? Numeral.decimalDigit? cs).map (Numeral.value 10)

/-- The exponent that a text writes behind its mark; 0 if the text is empty. -/
def exponent? : List Char → Option Int
  | [] => some 0
  | c :: cs => if c = 'e' || c = 'E' then Integer.signed? natural? cs else none

/-- The digits in front of the point, the digits behind it, and the rest of the text. -/
def splitDigits (cs : List Char) : List Char × List Char × List Char :=
  let whole := cs.takeWhile Char.isDigit
  match cs.dropWhile Char.isDigit with
  | '.' :: rest => (whole, rest.takeWhile Char.isDigit, rest.dropWhile Char.isDigit)
  | rest => (whole, [], rest)

/-- A number without a sign. -/
def magnitude? (negative : Bool) (cs : List Char) : Option Decimal :=
  let name := String.ofList (cs.map Char.toLower)
  if name = "inf" || name = "infinity" then some (.infinite negative)
  else if name = "nan" then some .undefined
  else do
    let (whole, fraction, rest) := splitDigits cs
    let digits ← natural? (whole ++ fraction)
    let exponent ← exponent? rest
    some (.finite negative digits (exponent - fraction.length))

/-- Reads a number. -/
def read? (cs : List Char) : Option Decimal := do
  let text ← withoutUnderscores? false (Integer.plainText cs)
  match text with
  | '+' :: rest => magnitude? false rest
  | '-' :: rest => magnitude? true rest
  | rest => magnitude? false rest

/-- The number of decimal digits of a number. -/
def digitCount (n : Nat) : Nat := (Nat.toDigits 10 n).length

/-- Whether the nearest binary number of 64 bits is zero, which it is up to half of the least
positive one, `2 ^ (-1074)`. A number below `10 ^ (-400)` needs no comparison. -/
def isZero : Decimal → Bool
  | finite _ digits exponent =>
    digits = 0
      || exponent < 0 && (digitCount digits + 400 ≤ exponent.natAbs
        || digits * 2 ^ (1075 : Nat) ≤ 10 ^ exponent.natAbs)
  | infinite _ => false
  | undefined => false

/-- The longest time that is told from longer ones. -/
def longest : Nat := 2 ^ (32 : Nat) - 1

/-- The number of whole thousandths in a number, at most `longest`, and 0 for a negative one. -/
def thousandths : Decimal → Nat
  | finite true _ _ => 0
  | finite false digits exponent =>
    if digits = 0 then 0
    else if 10 ≤ exponent then longest
    else if 0 ≤ exponent + 3 then min longest (digits * 10 ^ (exponent + 3).toNat)
    else if digitCount digits ≤ (exponent + 3).natAbs then 0
    else min longest (digits / 10 ^ (exponent + 3).natAbs)
  | infinite negative => if negative then 0 else longest
  | undefined => 0

end Decimal

end SingleCycle
