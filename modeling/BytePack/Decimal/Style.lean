import BytePack.Decimal.Shortest

/-!
# Writing decimal numbers

A `Style` says how the fewest digits of a number are laid out: between which sizes the point is set
among them, and which of two equally close decimals they are. Outside those sizes one digit stands
before the point and an exponent follows. `Magnitude.fixed` writes a set number of places instead.
-/

namespace BytePack

/-- How a number is laid out. Sizes are counted by the place of the point: the number is
`0.d₁d₂… * 10 ^ point`. -/
structure Style where
  /-- The point is set among the digits when its place is above this, … -/
  abovePoint : Int
  /-- … and at most this. -/
  upToPoint : Int
  /-- Which of two equally close decimals is written. -/
  tie : Tie
  /-- Whether an exponent above zero has a plus sign. -/
  exponentPlus : Bool

/-- The digits of a natural number. -/
def decimalDigits (n : Nat) : List Char := Nat.toDigits 10 n

namespace Style

/-- A decimal number in a style. A whole number ends in `.0` unless it has an exponent. -/
def layOut (style : Style) (d : Decimal) : List Char :=
  if d.digits = 0 then ['0', '.', '0']
  else
    let ds := decimalDigits d.digits
    let point : Int := ds.length + d.exponent
    if style.abovePoint < point ∧ point ≤ style.upToPoint then
      if 0 ≤ d.exponent then ds ++ List.replicate d.exponent.toNat '0' ++ ['.', '0']
      else if 0 < point then ds.take point.toNat ++ '.' :: ds.drop point.toNat
      else '0' :: '.' :: (List.replicate (-point).toNat '0' ++ ds)
    else
      let fraction := if ds.length ≤ 1 then [] else '.' :: ds.drop 1
      let exponent := point - 1
      let sign :=
        if exponent < 0 then ['-'] else if style.exponentPlus ∧ 0 < exponent then ['+'] else []
      ds.take 1 ++ fraction ++ 'e' :: (sign ++ decimalDigits exponent.natAbs)

/-- A finite number in a style. -/
def finite (style : Style) (negative : Bool) (m : Nat) (q : Int) : List Char :=
  let sign := if negative then ['-'] else []
  sign ++ style.layOut (if m = 0 then ⟨0, 0⟩ else shortestDigits style.tie m q)

end Style

/-- A number with a set number of places, rounded from its exact value; a half goes to the even
neighbour. -/
def Magnitude.fixed (x : Magnitude) (places : Nat) : List Char :=
  let unit := Nat.pow 10 places
  let n := Magnitude.round ⟨x.num * unit, x.den⟩
  let fraction := decimalDigits (n % unit)
  decimalDigits (n / unit) ++
    '.' :: (List.replicate (places - fraction.length) '0' ++ fraction)

end BytePack
