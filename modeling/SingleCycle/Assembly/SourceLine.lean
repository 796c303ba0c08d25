import SingleCycle.Text.Lines

/-!
# Source lines

A line of assembly text is blank, a label or an instruction. Only its code part counts, which is
what stands in front of a comment, without the white space around it.
-/

namespace SingleCycle

/-- The text in front of the first comment. A comment begins with a number sign or with two
slashes. -/
def beforeComment : List Char → List Char
  | [] => []
  | '#' :: _ => []
  | '/' :: '/' :: _ => []
  | c :: cs => c :: beforeComment cs

/-- The code part of a line. -/
def codePart (raw : List Char) : List Char := Text.trim (beforeComment raw)

/-- The name of the label that a code part defines. A label ends with a colon, and its name may be
empty here. -/
def labelName? (code : List Char) : Option (List Char) :=
  if code.getLast? = some ':' then some (Text.trim code.dropLast) else none

/-- A line of assembly text. -/
inductive SourceLine where
  /-- A line without code. -/
  | blank
  /-- A label. -/
  | label (name : List Char)
  /-- An instruction, known or not. -/
  | instruction (code : List Char)
  deriving Repr, DecidableEq

/-- The line with a code part. -/
def SourceLine.ofCode (code : List Char) : SourceLine :=
  if code.isEmpty then .blank
  else match labelName? code with
    | some name => .label name
    | none => .instruction code

/-- The line with a text. -/
def SourceLine.ofText (raw : List Char) : SourceLine := ofCode (codePart raw)

/-- The lines with the given texts, and their numbers. -/
def sourceLines (raws : List (List Char)) : List (Nat × SourceLine) :=
  (Text.numbered raws).map fun (number, raw) => (number, SourceLine.ofText raw)

end SingleCycle
