import BytePack.Config.Setting
import BytePack.Config.Toml.Text
import BytePack.Decimal.Reading
import BytePack.Word.Bytes

/-!
# Settings in environment variables

A variable holds a setting if its name starts with a mark, in any case; the rest of its name, in
lower case, is the name of the setting. A point in it stands between the name of a table and that of
an entry. Its value is trimmed and read as a number, a word or a quoted text where it is one, and as
a text otherwise.
-/

namespace BytePack.Config.Environment

/-- White space: the characters with the Unicode property White_Space. -/
def isSpace (c : Char) : Bool :=
  (0x09 ≤ c.toNat && c.toNat ≤ 0x0D) || c.toNat == 0x20 || c.toNat == 0x85 || c.toNat == 0xA0 ||
    c.toNat == 0x1680 || (0x2000 ≤ c.toNat && c.toNat ≤ 0x200A) || c.toNat == 0x2028 ||
    c.toNat == 0x2029 || c.toNat == 0x202F || c.toNat == 0x205F || c.toNat == 0x3000

/-- A text without white space at either end. -/
def trim (cs : List Char) : List Char :=
  ((cs.dropWhile isSpace).reverse.dropWhile isSpace).reverse

/-- An integer in decimal digits. A plus sign and leading zeros are allowed. -/
def integer? (cs : List Char) : Option Int :=
  let (negative, digits) := takeSign cs
  if digits.isEmpty || !digits.all Char.isDigit then none
  else
    let n : Int := Nat.ofDigitChars 10 digits 0
    let value := if negative then -n else n
    if -signedBound ≤ value ∧ value < UInt64.size then some value else none

/-- The text between double quotes, if that is all there is. It has the escapes of a basic string in
TOML. -/
def quoted? : List Char → Option (List Char)
  | '"' :: rest =>
    match Toml.basicString rest with
    | some (inside, []) => some inside
    | _ => none
  | _ => none

/-- The setting that a value stands for. -/
def setting (value : String) : Setting :=
  let cs := trim value.toList
  if cs = ['t', 'r', 'u', 'e'] ∨ cs = ['f', 'a', 'l', 's', 'e'] then .other
  else
    match quoted? cs with
    | some inside => .text (.ofList inside)
    | none =>
      match integer? cs with
      | some n => .integer n
      | none =>
        if cs.contains '.' && (Double.read cs matches .ok _) then .other
        else if ['[', '\x7b', '\''].contains (cs.headD 'x') then .other
        else .text (.ofList cs)

/-- The name of the setting that a variable holds, if its own name starts with the mark. -/
def settingName? (mark varName : String) : Option String :=
  let cs := varName.toList.map Char.toLower
  let front := mark.toList.map Char.toLower
  if front.isPrefixOf cs then some (.ofList (cs.drop front.length)) else none

/-- The entry that a name and a setting make, if no part of the name is empty. -/
def nested? (name : String) (setting : Setting) : Option (String × Setting) :=
  match name.splitOn "." with
  | [] => none
  | head :: inner =>
    if head.isEmpty || inner.any (·.isEmpty) then none
    else some (head, inner.foldr (fun part below => .table [(part, below)]) setting)

/-- What a variable gives. -/
def given? (mark : String) (var : String × String) : Option (String × Setting) := do
  nested? (← settingName? mark var.1) (setting var.2)

/-- The settings of some variables. -/
def read (mark : String) (vars : List (String × String)) : Source := vars.filterMap (given? mark)

end BytePack.Config.Environment
