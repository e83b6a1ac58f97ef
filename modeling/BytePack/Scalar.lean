import BytePack.Decimal.Style
import BytePack.Error
import BytePack.Text.Utf8

/-!
# Arguments

Any scalar can be the argument of any directive. `toInteger`, `toFloat` and `toBytes` say what a
directive sees of it: an integer directive never checks the range of a number, a text must be a
number as a whole where a number is wanted, and an object has nothing but its text.
-/

namespace BytePack

/-- An argument of a directive. -/
inductive Scalar where
  | null
  | bool (value : Bool)
  | int (value : Int64)
  | uint (value : UInt64)
  | float (value : Double)
  | text (value : String)
  | bytes (value : List UInt8)
  /-- A value that only has a text. -/
  | object (shown : String)
  deriving DecidableEq, Repr

namespace Scalar

/-- A single precision number as an argument. -/
def ofSingle (x : Single) : Scalar := .float x.widen

/-- An optional text as an argument. -/
def ofOption : Option String → Scalar
  | none => .null
  | some s => .text s

/-- The name of the kind of an argument. -/
def kind : Scalar → String
  | .null => "null"
  | .bool _ => "bool"
  | .int _ => "int"
  | .uint _ => "uint"
  | .float _ => "float"
  | .text _ => "text"
  | .bytes _ => "bytes"
  | .object _ => "object"

/-- The integer that an argument stands for. -/
def toInteger : Scalar → Except Error Int64
  | .null => .ok 0
  | .bool b => .ok (if b then 1 else 0)
  | .int v => .ok v
  | .uint v => .ok v.toInt64
  | .float v => .ok (.ofInt v.truncate)
  | .text s =>
    match readInt s.toList with
    | .ok v => .ok (.ofInt v)
    | .error fault => .error (.parse (.integer s fault))
  | .bytes b => .ok (if b.isEmpty then 0 else 1)
  | .object s => .error (.unsupportedType (.integer s))

/-- The double precision number that an argument stands for. -/
def toFloat : Scalar → Except Error Double
  | .null => .ok .zero
  | .bool b => .ok (if b then .one else .zero)
  | .int v => .ok (.ofInt v.toInt)
  | .uint v => .ok (.ofInt v.toNat)
  | .float v => .ok v
  | .text s =>
    match Double.read s.toList with
    | .ok v => .ok v
    | .error fault => .error (.parse (.float s fault))
  | .bytes b => .ok (if b.isEmpty then .zero else .one)
  | .object s => .error (.unsupportedType (.float s))

/-- The text of an integer. -/
def integerText (v : Int) : List Char :=
  if v < 0 then '-' :: decimalDigits v.natAbs else decimalDigits v.natAbs

/-- The text of a number with six places. -/
def floatText (x : Double) : List Char :=
  match x.value with
  | .finite negative m q =>
    (if negative then ['-'] else []) ++ (Magnitude.scaled m q).fixed 6
  | .infinite negative => (if negative then '-' else '+') :: ['I', 'n', 'f']
  | .nan .. => ['N', 'a', 'N']

/-- The bytes that an argument stands for. -/
def toBytes : Scalar → List UInt8
  | .null => []
  | .bool b => if b then Utf8.encode ['1'] else []
  | .int v => Utf8.encode (integerText v.toInt)
  | .uint v => Utf8.encode (integerText v.toNat)
  | .float v => Utf8.encode (floatText v)
  | .text s => Utf8.encode s.toList
  | .bytes b => b
  | .object s => Utf8.encode s.toList

/-- How a number is shown: with the fewest digits that read back, positionally from 0.0001 up to but
excluding `10 ^ 16`; of two equally close decimals the larger. -/
def shownStyle : Style where
  abovePoint := -4
  upToPoint := 16
  tie := .up
  exponentPlus := false

/-- A number as it is shown. -/
def shownFloat (x : Double) : String :=
  match x.value with
  | .finite negative m q => .ofList (shownStyle.finite negative m q)
  | .infinite negative => if negative then "-inf" else "inf"
  | .nan .. => "NaN"

/-- An argument as it is shown, with its kind. -/
def shown : Scalar → String
  | .null => "Null"
  | .bool b => if b then "Bool(true)" else "Bool(false)"
  | .int v => "Int(" ++ .ofList (integerText v.toInt) ++ ")"
  | .uint v => "UInt(" ++ .ofList (integerText v.toNat) ++ ")"
  | .float v => "Float(" ++ shownFloat v ++ ")"
  | .text s => "Text(" ++ Text.quoted s ++ ")"
  | .bytes b => "Bytes([" ++ ", ".intercalate (b.map fun c => toString c.toNat) ++ "])"
  | .object s => "Object(" ++ Text.quoted s ++ ")"

end Scalar

end BytePack
