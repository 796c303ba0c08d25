import SingleCycle.Text.CodePoints

/-!
# White space

The characters that separate words, and the functions that cut a text at them: `trim` takes them
off both ends, `splitWord` takes the first word off, and `tokens` lists the runs between
separators of any kind.
-/

namespace SingleCycle.Text

/-- White space: the Unicode property, and the four information separators U+001C to U+001F. -/
def blankRanges : List (Nat × Nat) :=
  [(0x09, 0x0D), (0x1C, 0x20), (0x85, 0x85), (0xA0, 0xA0), (0x1680, 0x1680), (0x2000, 0x200A),
   (0x2028, 0x2029), (0x202F, 0x202F), (0x205F, 0x205F), (0x3000, 0x3000)]

/-- Whether a character is white space. -/
def isBlank (c : Char) : Bool := inRanges blankRanges c.toNat

/-- The text without the white space that it begins with. -/
def trimStart (cs : List Char) : List Char := cs.dropWhile isBlank

/-- The text without the white space that it ends with. -/
def trimEnd (cs : List Char) : List Char := (cs.reverse.dropWhile isBlank).reverse

/-- The text without the white space at its two ends. -/
def trim (cs : List Char) : List Char := trimEnd (trimStart cs)

/-- The first word of a text and what follows it, each without the white space around it. The
word is empty exactly when the text is blank. -/
def splitWord (cs : List Char) : List Char × List Char :=
  let text := trimStart cs
  (text.takeWhile fun c => !isBlank c, trim (text.dropWhile fun c => !isBlank c))

/-- Puts a character in front of the first of several texts. -/
def consHead (c : Char) : List (List Char) → List (List Char)
  | [] => [[c]]
  | piece :: pieces => (c :: piece) :: pieces

/-- Cuts a text at every separator; two neighbouring separators have an empty piece between
them. -/
def pieces (isSeparator : Char → Bool) : List Char → List (List Char)
  | [] => [[]]
  | c :: cs =>
    if isSeparator c then [] :: pieces isSeparator cs else consHead c (pieces isSeparator cs)

/-- The longest runs of characters that are no separators. -/
def tokens (isSeparator : Char → Bool) (cs : List Char) : List (List Char) :=
  (pieces isSeparator cs).filter fun piece => !piece.isEmpty

end SingleCycle.Text
