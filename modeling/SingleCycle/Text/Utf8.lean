import SingleCycle.Text.Numeral

/-!
# Decoding UTF-8

Strict decoding, one byte at a time. Overlong forms, surrogates and code points beyond U+10FFFF
are refused at the first byte that no well-formed sequence has in its place. A fault tells where
the sequence began and how many of its bytes were good.
-/

namespace SingleCycle.Utf8

/-- Why bytes are no UTF-8. -/
inductive Reason where
  /-- A byte that begins no sequence. -/
  | badStart
  /-- A byte that does not continue the sequence before it. -/
  | badContinuation
  /-- The bytes end inside a sequence. -/
  | truncated
  deriving Repr, DecidableEq

/-- A place at which bytes are no UTF-8. -/
structure Fault where
  /-- The position of the first byte of the faulty sequence. -/
  start : Nat
  /-- The first byte of the faulty sequence. -/
  first : UInt8
  /-- The number of bytes that the fault covers, at least one. -/
  length : Nat
  /-- What is wrong there. -/
  reason : Reason
  deriving Repr, DecidableEq

/-- The text of a reason. -/
def Reason.text : Reason → String
  | .badStart => "invalid start byte"
  | .badContinuation => "invalid continuation byte"
  | .truncated => "unexpected end of data"

/-- The text of a fault: one byte is shown, several are only located. -/
def Fault.message (fault : Fault) : String :=
  let place :=
    if fault.length = 1 then
      "byte 0x" ++ String.ofList (Numeral.hex 2 fault.first.toNat) ++ " in position "
        ++ toString fault.start
    else
      "bytes in position " ++ toString fault.start ++ "-"
        ++ toString (fault.start + fault.length - 1)
  "\x27utf-8\x27 codec can\x27t decode " ++ place ++ ": " ++ fault.reason.text

/-- A sequence that is not complete. -/
structure Pending where
  /-- The position of its first byte. -/
  start : Nat
  /-- Its first byte. -/
  first : UInt8
  /-- The number of its bytes so far. -/
  taken : Nat
  /-- The bits of the code point so far. -/
  value : Nat
  /-- The least value of the next byte. -/
  low : Nat
  /-- The greatest value of the next byte. -/
  high : Nat
  /-- The number of bytes after the next one. -/
  more : Nat

/-- What a first byte begins. -/
inductive Lead where
  /-- A sequence of one byte. -/
  | single (c : Char)
  /-- A sequence of several bytes. -/
  | several (pending : Pending)

/-- What the byte at a position begins, if it begins anything. The bounds of the second byte rule
out overlong forms, surrogates and code points beyond the last. -/
def lead? (start : Nat) (first : UInt8) : Option Lead :=
  let b := first.toNat
  if b < 0x80 then some (.single (Char.ofNat b))
  else if b < 0xC2 then none
  else if b < 0xE0 then some (.several ⟨start, first, 1, b % 0x20, 0x80, 0xBF, 0⟩)
  else if b = 0xE0 then some (.several ⟨start, first, 1, 0, 0xA0, 0xBF, 1⟩)
  else if b = 0xED then some (.several ⟨start, first, 1, 0xD, 0x80, 0x9F, 1⟩)
  else if b < 0xF0 then some (.several ⟨start, first, 1, b % 0x10, 0x80, 0xBF, 1⟩)
  else if b = 0xF0 then some (.several ⟨start, first, 1, 0, 0x90, 0xBF, 2⟩)
  else if b < 0xF4 then some (.several ⟨start, first, 1, b % 8, 0x80, 0xBF, 2⟩)
  else if b = 0xF4 then some (.several ⟨start, first, 1, 4, 0x80, 0x8F, 2⟩)
  else none

/-- The fault of a sequence that does not go on as it should. -/
def Pending.fault (pending : Pending) (reason : Reason) : Fault :=
  ⟨pending.start, pending.first, pending.taken, reason⟩

/-- The code point bits after one more continuation byte. -/
def Pending.extended (pending : Pending) (byte : UInt8) : Nat :=
  pending.value * 0x40 + byte.toNat % 0x40

/-- Decodes bytes from a position on, where a sequence may be pending. -/
def decodeFrom : Option Pending → Nat → List UInt8 → Except Fault (List Char)
  | none, _, [] => .ok []
  | some pending, _, [] => .error (pending.fault .truncated)
  | none, position, byte :: bytes =>
    match lead? position byte with
    | none => .error ⟨position, byte, 1, .badStart⟩
    | some (.single c) => (decodeFrom none (position + 1) bytes).map (c :: ·)
    | some (.several pending) => decodeFrom (some pending) (position + 1) bytes
  | some pending, position, byte :: bytes =>
    if pending.low ≤ byte.toNat && byte.toNat ≤ pending.high then
      match pending.more with
      | 0 =>
        (decodeFrom none (position + 1) bytes).map (Char.ofNat (pending.extended byte) :: ·)
      | more + 1 =>
        decodeFrom
          (some ⟨pending.start, pending.first, pending.taken + 1, pending.extended byte,
            0x80, 0xBF, more⟩)
          (position + 1) bytes
    else .error (pending.fault .badContinuation)

/-- Decodes bytes that are UTF-8 from end to end. -/
def decode (bytes : List UInt8) : Except Fault (List Char) := decodeFrom none 0 bytes

end SingleCycle.Utf8
