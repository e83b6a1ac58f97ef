import BytePack.Word.Bytes

/-!
# Reading integers

An integer is written as an optional sign and one or more ASCII digits, and must fit 64 bits.
Characters are judged from left to right, so that a digit which takes the number out of range wins
over a later character that is no digit.
-/

namespace BytePack

/-- Why a text is no 64-bit integer. -/
inductive IntegerFault where
  | empty
  | invalidDigit
  | tooLarge
  | tooSmall
  deriving DecidableEq, Repr

/-- The wording of a fault. -/
def IntegerFault.message : IntegerFault → String
  | .empty => "cannot parse integer from empty string"
  | .invalidDigit => "invalid digit found in string"
  | .tooLarge => "number too large to fit in target type"
  | .tooSmall => "number too small to fit in target type"

/-- Reads digits that continue a number read so far, up to `limit`. Beyond that is the fault
`excess`. -/
def readDigits (limit : Nat) (excess : IntegerFault) : Nat → List Char → Except IntegerFault Nat
  | value, [] => .ok value
  | value, c :: cs =>
    if c.isDigit then
      let next := 10 * value + (c.toNat - '0'.toNat)
      if limit < next then .error excess else readDigits limit excess next cs
    else .error .invalidDigit

/-- Reads a whole text as an integer from `-2 ^ 63` to `2 ^ 63 - 1`. -/
def readInt : List Char → Except IntegerFault Int
  | [] => .error .empty
  | ['-'] => .error .invalidDigit
  | ['+'] => .error .invalidDigit
  | '-' :: cs => (readDigits signedBound .tooSmall 0 cs).map fun n => -(n : Int)
  | '+' :: cs => (readDigits (signedBound - 1) .tooLarge 0 cs).map fun n => (n : Int)
  | cs => (readDigits (signedBound - 1) .tooLarge 0 cs).map fun n => (n : Int)

end BytePack
