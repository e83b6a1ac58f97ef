import BytePack.Config.Character
import BytePack.Config.Setting
import BytePack.Decimal.Reading

/-!
# The values of YAML scalars

A scalar in the open is an integer, a truth value, a number or nothing at all if it looks like one,
and otherwise a text. A tag may ask for one of these, which the text then has to be.
-/

namespace BytePack.Config.Yaml

/-- Whether a text is a word for nothing. -/
def isNullWord (cs : List Char) : Bool := ["~", "null", "Null", "NULL"].contains (String.ofList cs)

/-- Whether a text is a truth value. -/
def isBool (cs : List Char) : Bool :=
  ["true", "True", "TRUE", "false", "False", "FALSE"].contains (String.ofList cs)

/-- The magnitude of an integer: in base 16, 8 or 2 after a mark, and in base 10 without a leading
zero. -/
def magnitude? : List Char → Option Nat
  | '0' :: 'x' :: cs => number? 16 cs
  | '0' :: 'o' :: cs => number? 8 cs
  | '0' :: 'b' :: cs => number? 2 cs
  | '0' :: _ :: _ => none
  | cs => number? 10 cs

/-- An integer of 128 bits. -/
def integer? (cs : List Char) : Option Int := do
  let (negative, digits) := takeSign cs
  let n ← magnitude? digits
  if n < (if negative then Nat.pow 2 127 + 1 else Nat.pow 2 128) then
    some (if negative then -(n : Int) else n)
  else none

/-- Whether a text is a floating-point number. Infinity and what is not a number have words of their
own. -/
def isFloat (cs : List Char) : Bool :=
  let digits := match cs with
    | '+' :: digits => if (takeSign digits).2 == digits then digits else []
    | _ => cs
  let isFinite := match Double.read digits with
    | .ok x => (x.value matches .finite ..)
    | .error _ => false
  isFinite || [".inf", ".Inf", ".INF"].contains (String.ofList digits) ||
    ["-.inf", "-.Inf", "-.INF", ".nan", ".NaN", ".NAN"].contains (String.ofList cs)

/-- What a scalar without a tag stands for. -/
def setting (isPlain : Bool) (cs : List Char) : Setting :=
  if !isPlain then .text (.ofList cs)
  else if cs.isEmpty || isNullWord cs then .null
  else
    match integer? cs with
    | some n => .integer n
    | none => if isBool cs || isFloat cs then .other else .text (.ofList cs)

/-- What a scalar with a tag of the standard stands for, if it is what the tag asks for. A tag that
is not known leaves a text. -/
def taggedSetting? (tag : List Char) (cs : List Char) : Option Setting :=
  let kind := String.ofList (tag.drop standardTag.length)
  if !standardTag.isPrefixOf tag then some (.text (.ofList cs))
  else if kind = "int" then (integer? cs).map .integer
  else if kind = "bool" then if isBool cs then some .other else none
  else if kind = "float" then if isFloat cs then some .other else none
  else if kind = "null" then if isNullWord cs then some .null else none
  else some (.text (.ofList cs))
where
  /-- What the names of all tags of the standard start with. -/
  standardTag : List Char := "tag:yaml.org,2002:".toList

end BytePack.Config.Yaml
