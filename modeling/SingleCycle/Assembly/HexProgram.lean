import SingleCycle.Assembly.Program

/-!
# Programs in hexadecimal words

A program text is either assembly or a list of words in base sixteen, one a line, with the same
comments. The first line with code decides which.
-/

namespace SingleCycle.HexProgram

/-- The lines that have code, with their numbers. -/
def codeLines (source : List Char) : List (Nat × List Char) :=
  (Text.numbered (Text.lines source)).map (fun (number, raw) => (number, codePart raw))
    |>.filter fun (_, code) => !code.isEmpty

/-- Whether a code part is nothing but hexadecimal digits. -/
def isHex (code : List Char) : Bool := (Numeral.digits? Numeral.hexDigit? code).isSome

/-- Whether the first line with code is nothing but hexadecimal digits. -/
def recognizes (source : List Char) : Bool :=
  match codeLines source with
  | [] => false
  | (_, code) :: _ => isHex code

/-- The word that a code part writes in one to eight digits. -/
def word? (code : List Char) : Option Word :=
  match Numeral.digits? Numeral.hexDigit? code with
  | some digits =>
    if digits.length ≤ 8 then some (BitVec.ofNat 32 (Numeral.value 16 digits)) else none
  | none => none

/-- The words of numbered code parts. -/
def wordsOf : List (Nat × List Char) → Except LineError (List Word)
  | [] => .ok []
  | (number, code) :: lines =>
    match word? code with
    | none => .error ⟨number, .notHexWord code⟩
    | some word => (wordsOf lines).map (word :: ·)

/-- The words of a program text. -/
def words (source : List Char) : Except LineError (List Word) := wordsOf (codeLines source)

end SingleCycle.HexProgram
