import SingleCycle.Core.State

/-!
# Views of the core

The register file and data memory as text. Registers stand in eight rows of four, one row below
the other; data memory stands in rows of any width, each behind the address of its first word.
-/

namespace SingleCycle

/-- The last two characters of a text. -/
def lastTwo (s : String) : String := String.ofList (s.toList.drop (s.toList.length - 2))

/-- A number in two decimal digits at least. -/
def twoDigits (n : Nat) : String := String.ofList ((Nat.toDigits 10 n).leftpad 2 '0')

/-- A memory text of no width. -/
inductive WidthError where
  /-- The width is 0. -/
  | zero
  deriving Repr, DecidableEq

/-- The text of the refusal. -/
def WidthError.message : WidthError → String
  | zero => "range() arg 3 must not be zero"

namespace Core

/-- The text of a register. -/
def registerText (c : Core) (r : BitVec 5) : String :=
  "x" ++ twoDigits r.toNat ++ "(" ++ lastTwo (roleName r) ++ ")=" ++ hexWord (c.register r)

/-- The rows of the register file. -/
def registerRows (c : Core) : List String :=
  (List.range 8).map fun row =>
    "  ".intercalate ((List.range 4).map fun column =>
      c.registerText (BitVec.ofNat 5 (8 * column + row)))

/-- The register file as text. -/
def registersText (c : Core) : String := "\n".intercalate c.registerRows

/-- The row of data memory from a word on. -/
def memoryRow (c : Core) (width start : Nat) : String :=
  String.ofList (Numeral.hex 2 (4 * start)) ++ ": "
    ++ " ".intercalate (((c.memory.toList.drop start).take width).map hexWord)

/-- Data memory in rows of a positive width. -/
def memoryRows (c : Core) (width : Nat) : List String :=
  (List.range ((memorySize + width - 1) / width)).map fun row => c.memoryRow width (row * width)

/-- Data memory as text. A negative width has no rows. -/
def memoryText (c : Core) (width : Int) : Except WidthError String :=
  if width = 0 then .error .zero
  else if width < 0 then .ok ""
  else .ok ("\n".intercalate (c.memoryRows width.toNat))

/-- The width of the rows of data memory, unless another is asked for. -/
def defaultWidth : Nat := 8

/-- The whole state as lines of text. -/
def lines (c : Core) : List String :=
  let halted := if c.halted then "True" else "False"
  ("pc=" ++ hexWord (wordOf c.pc) ++ " cycle=" ++ toString c.cycle ++ " halted=" ++ halted)
    :: c.registerRows ++ c.memoryRows defaultWidth

end Core

end SingleCycle
