/-!
# Binary floating-point patterns

A pattern has a sign, an exponent field and a fraction field. It denotes `± m * 2 ^ q`, an infinity
or something that is not a number. Everything here is exact arithmetic on the fields: `Magnitude` is
a non-negative rational given as a quotient of naturals, and `BinaryFormat.nearest` is the pattern
closest to such a rational, with ties to the even pattern.
-/

namespace BytePack

/-- A non-negative rational number, the quotient of `num` by `den`. -/
structure Magnitude where
  num : Nat
  den : Nat
  deriving Repr

namespace Magnitude

/-- The number `m * 2 ^ q`. -/
def scaled (m : Nat) (q : Int) : Magnitude :=
  if 0 ≤ q then ⟨m * Nat.pow 2 q.toNat, 1⟩ else ⟨m, Nat.pow 2 (-q).toNat⟩

/-- The number `m * 10 ^ q`. -/
def decimal (m : Nat) (q : Int) : Magnitude :=
  if 0 ≤ q then ⟨m * Nat.pow 10 q.toNat, 1⟩ else ⟨m, Nat.pow 10 (-q).toNat⟩

/-- The whole part. -/
def floor (x : Magnitude) : Nat := x.num / x.den

/-- The nearest natural number; a half goes to the even neighbour. -/
def round (x : Magnitude) : Nat :=
  let whole := x.num / x.den
  let rest := x.num % x.den
  if 2 * rest < x.den ∨ (2 * rest = x.den ∧ whole % 2 = 0) then whole else whole + 1

/-- The product with `2 ^ e`. -/
def shift (x : Magnitude) (e : Int) : Magnitude :=
  if 0 ≤ e then ⟨x.num * Nat.pow 2 e.toNat, x.den⟩ else ⟨x.num, x.den * Nat.pow 2 (-e).toNat⟩

/-- The exponent `e` with `2 ^ e ≤ x < 2 ^ (e + 1)`, for a positive number. -/
def log2 (x : Magnitude) : Int :=
  let e : Int := x.num.log2 - x.den.log2
  let unit := shift ⟨x.den, 1⟩ e
  if unit.num ≤ x.num * unit.den then e else e - 1

end Magnitude

/-- The widths of the fields of a binary format. -/
structure BinaryFormat where
  fractionBits : Nat
  exponentBits : Nat
  deriving Repr

/-- What a pattern denotes. -/
inductive BinaryValue where
  /-- The number `± significand * 2 ^ exponent`. -/
  | finite (negative : Bool) (significand : Nat) (exponent : Int)
  | infinite (negative : Bool)
  /-- Not a number, with whatever the fraction field holds. -/
  | nan (negative : Bool) (fraction : Nat)
  deriving DecidableEq, Repr

namespace BinaryFormat

/-- The largest value of the exponent field, which marks infinities and what is not a number. -/
def topExponent (f : BinaryFormat) : Nat := Nat.pow 2 f.exponentBits - 1

/-- The exponent of the least significant bit of the smallest numbers. -/
def leastExponent (f : BinaryFormat) : Int := 2 - Nat.pow 2 (f.exponentBits - 1) - f.fractionBits

/-- The pattern of positive infinity. -/
def infinity (f : BinaryFormat) : Nat := f.topExponent * Nat.pow 2 f.fractionBits

/-- The sign bit. -/
def signBit (f : BinaryFormat) : Nat := Nat.pow 2 (f.fractionBits + f.exponentBits)

/-- The most significant bit of the fraction, which marks a quiet pattern among those that are not
numbers. -/
def quietBit (f : BinaryFormat) : Nat := Nat.pow 2 (f.fractionBits - 1)

/-- A pattern with its sign. -/
def signed (f : BinaryFormat) (negative : Bool) (magnitude : Nat) : Nat :=
  if negative then f.signBit + magnitude else magnitude

/-- What a pattern denotes. -/
def decode (f : BinaryFormat) (pattern : Nat) : BinaryValue :=
  let negative := f.signBit ≤ pattern
  let fraction := pattern % Nat.pow 2 f.fractionBits
  let exponent := pattern / Nat.pow 2 f.fractionBits % Nat.pow 2 f.exponentBits
  if exponent = f.topExponent then
    if fraction = 0 then .infinite negative else .nan negative fraction
  else if exponent = 0 then
    .finite negative fraction f.leastExponent
  else
    .finite negative (Nat.pow 2 f.fractionBits + fraction) (f.leastExponent + (exponent - 1))

/-- The pattern of the number closest to a rational; a tie goes to the even pattern, and what rounds
past the largest number is infinite. Patterns grow with the numbers they denote, so one carry out of
the fraction is the next exponent. -/
def nearest (f : BinaryFormat) (x : Magnitude) : Nat :=
  if x.num = 0 then 0
  else
    let q := max (x.log2 - f.fractionBits) f.leastExponent
    min ((q - f.leastExponent).toNat * Nat.pow 2 f.fractionBits + (x.shift (-q)).round) f.infinity

/-- Double precision. -/
def double : BinaryFormat := ⟨52, 11⟩

/-- Single precision. -/
def single : BinaryFormat := ⟨23, 8⟩

end BinaryFormat

end BytePack
