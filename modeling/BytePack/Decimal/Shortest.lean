import BytePack.Number.Double

/-!
# The fewest digits of a number

A double precision number stands for all reals that round to it: the interval from halfway to the
number below to halfway to the number above, ends included exactly when the significand is even.
`Double.shortest` tries decimal grids from the coarsest to the finest and takes the first that has a
point in that interval, so no decimal with fewer digits reads back as the number. Of two points on
that grid the closer one is taken, and a tie goes as the caller says.
-/

namespace BytePack

/-- The decimal number `digits * 10 ^ exponent`. -/
structure Decimal where
  digits : Nat
  exponent : Int
  deriving DecidableEq, Repr

/-- Which of two equally close decimals is taken. -/
inductive Tie where
  | up
  | even
  deriving DecidableEq, Repr

namespace Decimal

/-- The same number without zeros at the end of its digits. -/
def normalize (digits : Nat) (exponent : Int) : Decimal :=
  if digits ≠ 0 ∧ digits % 10 = 0 then normalize (digits / 10) (exponent + 1)
  else ⟨digits, exponent⟩
termination_by digits
decreasing_by omega

end Decimal

namespace Magnitude

/-- Whether one number is at most another. -/
def le (x y : Magnitude) : Bool := x.num * y.den ≤ y.num * x.den

/-- Whether one number is below another. -/
def lt (x y : Magnitude) : Bool := x.num * y.den < y.num * x.den

/-- The quotient by `10 ^ e`. -/
def overTen (x : Magnitude) (e : Int) : Magnitude :=
  if 0 ≤ e then ⟨x.num, x.den * Nat.pow 10 e.toNat⟩ else ⟨x.num * Nat.pow 10 (-e).toNat, x.den⟩

/-- The least `k` with `x < 10 ^ k`, for a positive number. -/
def decimalScale (x : Magnitude) : Int :=
  if x.den ≤ x.num then
    ((Nat.toDigits 10 x.floor).length : Int)
  else
    1 - ((Nat.toDigits 10 ((x.den - 1) / x.num)).length : Int)

end Magnitude

/-- The reals that round to a number. -/
structure RoundingInterval where
  low : Magnitude
  high : Magnitude
  closed : Bool

/-- Whether a decimal rounds to the number. -/
def RoundingInterval.contains (interval : RoundingInterval) (d : Magnitude) : Bool :=
  if interval.closed then interval.low.le d && d.le interval.high
  else interval.low.lt d && d.lt interval.high

/-- The reals that round to the positive double precision number `m * 2 ^ q`. Below a power of two
the numbers lie twice as dense. -/
def roundingInterval (m : Nat) (q : Int) : RoundingInterval where
  low :=
    let f := BinaryFormat.double
    if m = Nat.pow 2 f.fractionBits ∧ f.leastExponent < q then .scaled (4 * m - 1) (q - 2)
    else .scaled (2 * m - 1) (q - 1)
  high := .scaled (2 * m + 1) (q - 1)
  closed := m % 2 = 0

/-- The point of the grid of multiples of `10 ^ grid` that reads back as `x` and lies closest to it,
if there is one. -/
def closestOnGrid (tie : Tie) (interval : RoundingInterval) (x : Magnitude) (grid : Int) :
    Option Nat :=
  let scaled := x.overTen grid
  let below := scaled.floor
  let fits (d : Nat) : Bool := interval.contains (.decimal d grid)
  match fits below, fits (below + 1) with
  | false, false => none
  | true, false => some below
  | false, true => some (below + 1)
  | true, true =>
    let twice := 2 * scaled.num
    let middle := (2 * below + 1) * scaled.den
    if twice < middle then some below
    else if middle < twice then some (below + 1)
    else match tie with
      | .up => some (below + 1)
      | .even => some (below + below % 2)

/-- The fewest digits that read back as the positive double precision number `m * 2 ^ q`. Seventeen
always suffice; the exact value stands in where none were found. -/
def shortestDigits (tie : Tie) (m : Nat) (q : Int) : Decimal :=
  let x := Magnitude.scaled m q
  let interval := roundingInterval m q
  let scale := x.decimalScale
  let found := (List.range 17).findSome? fun (i : Nat) =>
    let grid := scale - (i + 1)
    (closestOnGrid tie interval x grid).map fun d => Decimal.normalize d grid
  found.getD (if 0 ≤ q then ⟨m * Nat.pow 2 q.toNat, 0⟩ else ⟨m * Nat.pow 5 (-q).toNat, q⟩)

end BytePack
