import SingleCycle.Text.Blank

/-!
# Lines

A text is cut into lines at every line terminator. A carriage return and the line feed after it
are one terminator, and the end of the text ends its last line, so a text that ends with a
terminator has no empty last line.
-/

namespace SingleCycle.Text

/-- The characters that end a line. -/
def terminatorRanges : List (Nat × Nat) :=
  [(0x0A, 0x0D), (0x1C, 0x1E), (0x85, 0x85), (0x2028, 0x2029)]

/-- Whether a character ends a line. -/
def isTerminator (c : Char) : Bool := inRanges terminatorRanges c.toNat

/-- The lines of a text, without their terminators. -/
def lines : List Char → List (List Char)
  | [] => []
  | '\r' :: '\n' :: cs => [] :: lines cs
  | c :: cs => if isTerminator c then [] :: lines cs else consHead c (lines cs)

/-- Lines with their numbers, from 1. -/
def numbered (lines : List (List Char)) : List (Nat × List Char) :=
  lines.zipIdx 1 |>.map fun (line, number) => (number, line)

end SingleCycle.Text
