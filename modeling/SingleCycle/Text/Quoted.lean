import SingleCycle.Text.Numeral
import SingleCycle.Text.Printable

/-!
# Quoted text

How a message shows a piece of text: between quotation marks, with what a reader could mistake or
could not see written as an escape.
-/

namespace SingleCycle.Text

/-- The single quotation mark. -/
def singleQuote : Char := '\x27'

/-- The double quotation mark. -/
def doubleQuote : Char := '\x22'

/-- The backslash, which begins an escape. -/
def backslash : Char := '\x5c'

/-- The mark that a text is quoted with: the single one, unless the text holds it and holds no
double one. -/
def quoteMark (cs : List Char) : Char :=
  if cs.contains singleQuote && !cs.contains doubleQuote then doubleQuote else singleQuote

/-- How a character is written inside the given marks. A character that is not printable is
written by its code point, with the least of two, four and eight digits that hold it. -/
def escape (mark c : Char) : List Char :=
  if c = mark || c = backslash then [backslash, c]
  else if c = '\t' then [backslash, 't']
  else if c = '\n' then [backslash, 'n']
  else if c = '\r' then [backslash, 'r']
  else if isPrintable c then [c]
  else if c.toNat < 0x100 then backslash :: 'x' :: Numeral.hex 2 c.toNat
  else if c.toNat < 0x10000 then backslash :: 'u' :: Numeral.hex 4 c.toNat
  else backslash :: 'U' :: Numeral.hex 8 c.toNat

/-- The text between its quotation marks. -/
def quoted (cs : List Char) : List Char :=
  let mark := quoteMark cs
  mark :: (cs.flatMap (escape mark) ++ [mark])

end SingleCycle.Text
