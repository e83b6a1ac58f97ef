import BytePack.Number.Double

/-!
# Reading decimal numbers

A number is written as digits with at most one point among them, an optional exponent and an
optional sign; `inf`, `infinity` and `nan` are read in either case. The value is the double
precision number closest to the written one.
-/

namespace BytePack

/-- Why a text is no floating-point number. -/
inductive FloatFault where
  | empty
  | malformed
  deriving DecidableEq, Repr

/-- The wording of a fault. -/
def FloatFault.message : FloatFault → String
  | .empty => "cannot parse float from empty string"
  | .malformed => "invalid float literal"

/-- The double precision number closest to `± digits * 10 ^ exponent`. Numbers from `10 ^ 310` on
are infinite and those below `10 ^ -330` are zero, so that no power outside these bounds is
computed. -/
def Double.ofDecimal (negative : Bool) (digits : Nat) (exponent : Int) : Double :=
  let size : Int := (Nat.toDigits 10 digits).length + exponent
  if digits = 0 ∨ size < -330 then nearest negative ⟨0, 1⟩
  else if 310 < size then infinite negative
  else nearest negative (.decimal digits exponent)

/-- Takes a sign off the front of a text and says whether it is a minus. -/
def takeSign : List Char → Bool × List Char
  | '-' :: cs => (true, cs)
  | '+' :: cs => (false, cs)
  | cs => (false, cs)

/-- The exponent that stands after the digits of a number: none, or `e` with an integer. -/
def readExponent : List Char → Option Int
  | [] => some 0
  | c :: cs =>
    if c = 'e' ∨ c = 'E' then
      let (negative, ds) := takeSign cs
      if ds.isEmpty || !ds.all Char.isDigit then none
      else
        let size : Int := Nat.ofDigitChars 10 ds 0
        some (if negative then -size else size)
    else none

/-- A number without its sign. -/
def readUnsigned (negative : Bool) (cs : List Char) : Option Double :=
  let whole := cs.takeWhile Char.isDigit
  let rest := cs.dropWhile Char.isDigit
  let (fraction, rest) :=
    match rest with
    | '.' :: cs => (cs.takeWhile Char.isDigit, cs.dropWhile Char.isDigit)
    | _ => ([], rest)
  if whole.isEmpty && fraction.isEmpty then none
  else
    (readExponent rest).map fun exponent =>
      .ofDecimal negative (Nat.ofDigitChars 10 (whole ++ fraction) 0) (exponent - fraction.length)

/-- A word for what has no digits. -/
def readSpecial (negative : Bool) (cs : List Char) : Option Double :=
  let word := cs.map Char.toLower
  if word = ['i', 'n', 'f'] ∨ word = ['i', 'n', 'f', 'i', 'n', 'i', 't', 'y'] then
    some (.infinite negative)
  else if word = ['n', 'a', 'n'] then some (.quietNaN negative)
  else none

/-- Reads a whole text as a number. -/
def Double.read (cs : List Char) : Except FloatFault Double :=
  if cs.isEmpty then .error .empty
  else
    let (negative, body) := takeSign cs
    match (readUnsigned negative body).or (readSpecial negative body) with
    | some x => .ok x
    | none => .error .malformed

end BytePack
