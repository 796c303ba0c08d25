import SingleCycle.Text.Numeral

/-!
# Words

A word is 32 bits. The readings of an integer's low bits, `unsigned` and `signed`, are given for
every number of bits; the versions that take the number as an integer refuse the ones for which
there is no bit mask.
-/

namespace SingleCycle

-- Powers of numbers are those of the core library, whatever else a reader of this imports.
attribute [local instance (20000)] instPowNat

/-- The contents of a register or of a memory cell. -/
abbrev Word := BitVec 32

/-- The low `n` bits of an integer, read as an unsigned number. -/
def unsigned (n : Nat) (w : Int) : Int := w % 2 ^ n

/-- The low `n` bits of an integer, read as a number in two's complement. -/
def signed (n : Nat) (w : Int) : Int := w.bmod (2 ^ n)

/-- A number of bits for which the reading asked for does not exist. -/
structure BadLength where
  /-- The number of bits. -/
  length : Int
  deriving Repr, DecidableEq

/-- The text of the refusal. -/
def BadLength.message (_ : BadLength) : String := "negative shift count"

/-- The unsigned reading of the low `length` bits; there is none of a negative number of bits. -/
def checkedUnsigned (length w : Int) : Except BadLength Int :=
  if length < 0 then .error ⟨length⟩ else .ok (unsigned length.toNat w)

/-- The two's-complement reading of the low `length` bits, which needs a sign bit. -/
def checkedSigned (length w : Int) : Except BadLength Int :=
  if length < 1 then .error ⟨length⟩ else .ok (signed length.toNat w)

/-- The unsigned reading of the low `length` bits in base sixteen, with the digits that `length`
bits take up. -/
def checkedHex (length w : Int) : Except BadLength String := do
  let n ← checkedUnsigned length w
  .ok (String.ofList (Numeral.hex (length.toNat / 4) n.toNat))

/-- A word in eight hexadecimal digits. -/
def hexWord (w : Word) : String := String.ofList (Numeral.hex 8 w.toNat)

/-- An integer as a word, modulo `2 ^ 32`. -/
def wordOf (n : Int) : Word := BitVec.ofInt 32 n

end SingleCycle
