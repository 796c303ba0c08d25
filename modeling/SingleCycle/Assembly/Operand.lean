import SingleCycle.Assembly.Labels
import SingleCycle.Text.Numeral

/-!
# Operands

How registers, immediates, memory accesses and labels are written. Registers are `x0` to `x31`
without leading zeros. An immediate is decimal, with an optional minus sign, or hexadecimal behind
`0x` and without a sign. Digits are ASCII.
-/

namespace SingleCycle.Operand

-- Powers of numbers are those of the core library, whatever else a reader of this imports.
attribute [local instance (20000)] instPowNat

/-- What separates operands: white space, commas and parentheses. -/
def isSeparator (c : Char) : Bool := Text.isBlank c || c = ',' || c = '(' || c = ')'

/-- The operands in the text behind a mnemonic. -/
def split (cs : List Char) : List (List Char) := Text.tokens isSeparator cs

/-- The register that a token names. -/
def register? : List Char → Option (BitVec 5)
  | ['x', a] => (Numeral.decimalDigit? a).map (BitVec.ofNat 5)
  | ['x', a, b] =>
    match Numeral.decimalDigit? a, Numeral.decimalDigit? b with
    | some tens, some units =>
      let n := 10 * tens + units
      if 10 ≤ n && n < 32 then some (BitVec.ofNat 5 n) else none
    | _, _ => none
  | _ => none

/-- The register that a token names, or what is wrong with the token. -/
def register (token : List Char) : Except OperandError (BitVec 5) :=
  match register? token with
  | some r => .ok r
  | none => .error (.fault (.notRegister token))

/-- The digits of an immediate. -/
inductive Immediate where
  /-- Decimal digits, behind a minus sign or not. -/
  | decimal (negative : Bool) (digits : List Nat)
  /-- Hexadecimal digits. -/
  | hex (digits : List Nat)
  deriving Repr, DecidableEq

/-- The digits of the immediate that a token writes. -/
def immediate? : List Char → Option Immediate
  | '0' :: 'x' :: cs => (Numeral.digits? Numeral.hexDigit? cs).map .hex
  | '-' :: cs => (Numeral.digits? Numeral.decimalDigit? cs).map (.decimal true)
  | cs => (Numeral.digits? Numeral.decimalDigit? cs).map (.decimal false)

/-- The value of an immediate. Only decimal numerals are limited in length. -/
def Immediate.value : Immediate → Except OperandError Int
  | decimal negative digits =>
    if Numeral.decimalLimit < digits.length then .error (.longNumeral digits.length)
    else
      let n : Int := Numeral.value 10 digits
      .ok (if negative then -n else n)
  | hex digits => .ok (Numeral.value 16 digits)

/-- The value of the immediate that a token writes, or what is wrong with the token. -/
def immediate (token : List Char) : Except OperandError Int :=
  match immediate? token with
  | some digits => digits.value
  | none => .error (.fault (.notImmediate token))

/-- The text behind a token at the beginning of a text, and behind the white space around the
token. -/
def afterToken? (cs : List Char) : Option (List Char) :=
  let text := Text.trimStart cs
  if (text.takeWhile fun c => !isSeparator c).isEmpty then none
  else some (Text.trimStart (text.dropWhile fun c => !isSeparator c))

/-- Whether a text is a token between parentheses, with optional white space inside them. -/
def isBase : List Char → Bool
  | '(' :: cs => afterToken? cs == some [')']
  | _ => false

/-- Whether the operands of a load or store have the form of a memory access: something without a
comma, a comma, a token for the offset and a token between parentheses for the base. What stands in
front of the comma has no comma itself, so the first comma is the one to cut at. -/
def isMemoryForm (cs : List Char) : Bool :=
  let first := cs.takeWhile (· ≠ ',')
  !first.isEmpty &&
    match cs.dropWhile (· ≠ ',') with
    | ',' :: access => (afterToken? access).any isBase
    | _ => false

/-- The distance from an address to a label, where an instruction has the given number of bits
for it. A refusal tells the distance, which therefore has to be one that can be written. -/
def offset (labels : LabelTable) (address : Int) (bits : Nat) (token : List Char) :
    Except OperandError Int :=
  match labels.address? token with
  | none => .error (.fault (.undefinedLabel token))
  | some label =>
    let distance := label - address
    if -(2 ^ (bits - 1)) ≤ distance && distance < 2 ^ (bits - 1) then .ok distance
    else if Numeral.fitsDecimal distance then .error (.fault (.labelRange token distance))
    else .error .longDistance

end SingleCycle.Operand
