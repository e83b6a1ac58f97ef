import BytePack.Number.Binary
import BytePack.Word.Bytes

/-!
# Single and double precision numbers

Numbers are kept as their patterns, so that nothing about them depends on arithmetic that cannot be
computed exactly. Conversions between the two precisions and with integers are defined on what the
patterns denote: `Double.truncate` drops the fraction of a number that fits 64 bits, `Double.narrow`
rounds to single precision and `Single.widen` is exact.
-/

namespace BytePack

/-- A double precision number, by its pattern. -/
structure Double where
  bits : UInt64
  deriving DecidableEq, Repr, Inhabited

/-- A single precision number, by its pattern. -/
structure Single where
  bits : UInt32
  deriving DecidableEq, Repr, Inhabited

namespace Single

/-- What the pattern denotes. -/
def value (x : Single) : BinaryValue := BinaryFormat.single.decode x.bits.toNat

/-- Whether this is not a number. -/
def isNaN (x : Single) : Bool := x.value matches .nan ..

/-- The same number in double precision. What is not a number keeps its sign and the bits of its
fraction, and becomes quiet. -/
def widen (x : Single) : Double :=
  let f := BinaryFormat.double
  match x.value with
  | .finite negative m q => ⟨.ofNat (f.signed negative (f.nearest (.scaled m q)))⟩
  | .infinite negative => ⟨.ofNat (f.signed negative f.infinity)⟩
  | .nan negative fraction =>
    ⟨.ofNat (f.signed negative (f.infinity + (fraction <<< 29 ||| f.quietBit)))⟩

end Single

namespace Double

/-- What the pattern denotes. -/
def value (x : Double) : BinaryValue := BinaryFormat.double.decode x.bits.toNat

/-- Whether this is not a number. -/
def isNaN (x : Double) : Bool := x.value matches .nan ..

/-- The number closest to a signed rational. -/
def nearest (negative : Bool) (x : Magnitude) : Double :=
  ⟨.ofNat (BinaryFormat.double.signed negative (BinaryFormat.double.nearest x))⟩

/-- The number closest to an integer. -/
def ofInt (n : Int) : Double := nearest (n < 0) ⟨n.natAbs, 1⟩

/-- Infinity. -/
def infinite (negative : Bool) : Double :=
  ⟨.ofNat (BinaryFormat.double.signed negative BinaryFormat.double.infinity)⟩

/-- The quiet pattern that is not a number, with an empty fraction otherwise. -/
def quietNaN (negative : Bool) : Double :=
  let f := BinaryFormat.double
  ⟨.ofNat (f.signed negative (f.infinity + f.quietBit))⟩

/-- Zero. -/
def zero : Double := ⟨0⟩

/-- One. -/
def one : Double := ofInt 1

/-- The number without its fraction, if it lies from `-2 ^ 63` up to but excluding `2 ^ 63`, and 0
for all else. -/
def truncate (x : Double) : Int :=
  match x.value with
  | .finite negative m q =>
    let size := Magnitude.scaled m q
    if negative then
      if size.num ≤ signedBound * size.den then -size.floor else 0
    else
      if size.num < signedBound * size.den then size.floor else 0
  | _ => 0

/-- The closest single precision number; what is too large becomes infinite. What is not a number
keeps its sign and the upper bits of its fraction, and becomes quiet. -/
def narrow (x : Double) : Single :=
  let f := BinaryFormat.single
  match x.value with
  | .finite negative m q => ⟨.ofNat (f.signed negative (f.nearest (.scaled m q)))⟩
  | .infinite negative => ⟨.ofNat (f.signed negative f.infinity)⟩
  | .nan negative fraction =>
    ⟨.ofNat (f.signed negative (f.infinity + (fraction >>> 29 ||| f.quietBit)))⟩

/-- Equality of numbers: what is not a number differs from everything, itself included, and the two
zeros are equal. -/
def numEq (x y : Double) : Bool :=
  !x.isNaN && !y.isNaN && (x.bits == y.bits || (x.bits <<< 1 == 0 && y.bits <<< 1 == 0))

end Double

end BytePack
