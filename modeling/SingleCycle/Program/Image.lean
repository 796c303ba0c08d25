import SingleCycle.Word

/-!
# Program images

An image holds the words of a program as bytes, the least significant byte first. Bytes that are
missing from the last word count as zero.
-/

namespace SingleCycle.Image

/-- The word with four bytes, the least significant one first. -/
def word (b0 b1 b2 b3 : UInt8) : Word :=
  b3.toBitVec ++ b2.toBitVec ++ b1.toBitVec ++ b0.toBitVec

/-- The words of an image. -/
def words : List UInt8 → List Word
  | [] => []
  | [b0] => [word b0 0 0 0]
  | [b0, b1] => [word b0 b1 0 0]
  | [b0, b1, b2] => [word b0 b1 b2 0]
  | b0 :: b1 :: b2 :: b3 :: bytes => word b0 b1 b2 b3 :: words bytes

end SingleCycle.Image
