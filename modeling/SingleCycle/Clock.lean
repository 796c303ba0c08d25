import SingleCycle.Text.Decimal

/-!
# Pauses

A pause is asked of the clock of the environment, which makes it or refuses to. A clock stands here
for no more than the lengths that it refuses; there is one that refuses none, and that of the system.
-/

namespace SingleCycle

/-- Why a clock refuses to make a pause. -/
inductive Refusal where
  /-- Its length is below zero. -/
  | negative
  /-- Its length is no number. -/
  | undefined
  /-- Its length is more than the clock can count. -/
  | tooLong
  deriving Repr, DecidableEq

/-- The text of a refusal. -/
def Refusal.message : Refusal → String
  | negative => "sleep length must be non-negative"
  | undefined => "Invalid value NaN (not a number)"
  | tooLong => "timestamp out of range for platform time_t"

/-- A clock, by the lengths of which it makes no pauses. -/
structure Clock where
  /-- Why it refuses a length, if it does. -/
  refusal? : Decimal → Option Refusal
  /-- A pause of length zero is never refused. -/
  zero_made : ∀ length : Decimal, length.isZero = true → refusal? length = none

namespace Clock

-- Powers of numbers are those of the core library, whatever else a reader of this imports.
attribute [local instance (20000)] instPowNat

/-- A length of which a clock makes pauses. -/
structure Delay (clock : Clock) where
  /-- The length. -/
  length : Decimal
  /-- The clock does not refuse it. -/
  made : clock.refusal? length = none

/-- The number of pauses that are made behind a phase: none of length zero is asked for. -/
def pauses (clock : Clock) (length : Decimal) : Except Refusal Nat :=
  match clock.refusal? length with
  | some refusal => .error refusal
  | none => .ok (if length.isZero then 0 else 1)

theorem pauses_of_refused {clock : Clock} {length : Decimal} {refusal : Refusal}
    (h : clock.refusal? length = some refusal) : clock.pauses length = .error refusal := by
  rw [pauses, h]

theorem Delay.pauses_eq {clock : Clock} (delay : clock.Delay) :
    clock.pauses delay.length = .ok (if delay.length.isZero then 0 else 1) := by
  rw [pauses, delay.made]

/-- A clock that makes every pause. -/
def patient : Clock := ⟨fun _ => none, fun _ _ => rfl⟩

/-- Whether a number is too large to be counted in billionths by 63 bits, which is the case from
half a binary place below `2 ^ 63` on. -/
def overflows (digits : Nat) (exponent : Int) : Bool :=
  if 0 ≤ exponent then
    digits != 0 && (20 ≤ exponent || 9671406556917033 < digits * 10 ^ exponent.toNat * 2 ^ (20 : Nat))
  else
    exponent.natAbs < Decimal.digitCount digits
      && 9671406556917033 * 10 ^ exponent.natAbs < digits * 2 ^ (20 : Nat)

/-- The clock of the system. -/
def system : Clock where
  refusal? length :=
    if length.isZero then none
    else match length with
      | .undefined => some .undefined
      | .infinite _ => some .tooLong
      | .finite negative digits exponent =>
        if overflows digits exponent then some .tooLong
        else if negative then some .negative
        else none
  zero_made _ hzero := if_pos hzero

end Clock

end SingleCycle
