import BytePack.Decimal.Style
import BytePack.Record
import BytePack.Scalar

/-!
# Records as JSON

A record is written as a compact JSON object with its keys in order. Bytes are an array of numbers,
and a number that JSON has no form for is `null`.
-/

namespace BytePack.Json

/-- A hexadecimal digit below 16. -/
def lowerDigit (n : Nat) : Char := Nat.digitChar n

/-- How a character is written inside a JSON string: quote, backslash and controls are escaped. -/
def escape (c : Char) : List Char :=
  if c = '"' then ['\\', '"']
  else if c = '\\' then ['\\', '\\']
  else if c = '\n' then ['\\', 'n']
  else if c = '\r' then ['\\', 'r']
  else if c = '\t' then ['\\', 't']
  else if c = '\x08' then ['\\', 'b']
  else if c = '\x0c' then ['\\', 'f']
  else if c.toNat < 0x20 then
    ['\\', 'u', '0', '0', lowerDigit (c.toNat / 16), lowerDigit (c.toNat % 16)]
  else [c]

/-- A JSON string. -/
def string (s : List Char) : List Char := '"' :: (s.flatMap escape ++ ['"'])

/-- Items with commas between them. -/
def commaSeparated : List (List Char) → List Char
  | [] => []
  | [item] => item
  | item :: items => item ++ ',' :: commaSeparated items

/-- How numbers are written: with the fewest digits that read back, positionally from 0.00001 up to
but excluding `10 ^ 16`, and with a signed exponent outside these bounds; of two equally close
decimals the one that ends in an even digit. -/
def numberStyle : Style where
  abovePoint := -5
  upToPoint := 16
  tie := .even
  exponentPlus := true

/-- A number, or `null` for what is infinite or not a number. -/
def number (x : Double) : List Char :=
  match x.value with
  | .finite negative m q => numberStyle.finite negative m q
  | _ => ['n', 'u', 'l', 'l']

/-- How strings, numbers and byte lists are written. -/
structure Writer where
  string : List Char → List Char
  integer : Int → List Char
  bytes : List UInt8 → List Char
  float : Double → List Char

namespace Writer

variable (writer : Writer)

/-- A value, which shows no sign of its kind. -/
def value : Value → List Char
  | .bytes b => writer.bytes b
  | .int v => writer.integer v.toInt
  | .float x => writer.float x

/-- A field. -/
def field (entry : String × Value) : List Char :=
  writer.string entry.1.toList ++ ':' :: writer.value entry.2

/-- The characters of a record. -/
def record (r : Record) : List Char :=
  '\x7b' :: (commaSeparated (r.toList.map writer.field) ++ ['\x7d'])

/-- The JSON text of a record. -/
def text (r : Record) : String := .ofList (writer.record r)

end Writer

/-- How a character may stand in a string: the quote, the backslash and controls are escaped, and
nothing else is. -/
inductive Escapes : Char → List Char → Prop
  | plain {c : Char} : c ≠ '"' → c ≠ '\\' → ¬ c.toNat < 0x20 → Escapes c [c]
  | quote : Escapes '"' ['\\', '"']
  | backslash : Escapes '\\' ['\\', '\\']
  | newline : Escapes '\n' ['\\', 'n']
  | carriageReturn : Escapes '\r' ['\\', 'r']
  | tab : Escapes '\t' ['\\', 't']
  | backspace : Escapes '\x08' ['\\', 'b']
  | formFeed : Escapes '\x0c' ['\\', 'f']
  | control {c : Char} : c.toNat < 0x20 →
      Escapes c ['\\', 'u', '0', '0', lowerDigit (c.toNat / 16), lowerDigit (c.toNat % 16)]

/-- How the characters between the quotes of a string may be written. -/
inductive EscapesAll : List Char → List Char → Prop
  | nil : EscapesAll [] []
  | cons {c : Char} {s part rest : List Char} :
      Escapes c part → EscapesAll s rest → EscapesAll (c :: s) (part ++ rest)

/-- What is relied on of a writer: strings stand in quotes with their characters escaped, integers
are decimal, and byte lists are arrays of numbers. -/
structure Writer.Documented (writer : Writer) : Prop where
  string (s : List Char) :
    ∃ inside, EscapesAll s inside ∧ writer.string s = '"' :: (inside ++ ['"'])
  integer (n : Int) : writer.integer n = Scalar.integerText n
  bytes (b : List UInt8) : writer.bytes b =
    '[' :: (commaSeparated (b.map fun c => writer.integer c.toNat) ++ [']'])

/-- The writer of compact texts. -/
def compact : Writer where
  string := string
  integer := Scalar.integerText
  bytes b := '[' :: (commaSeparated (b.map fun c => decimalDigits c.toNat) ++ [']'])
  float := number

end BytePack.Json

/-- The JSON text of a record. -/
def BytePack.Record.toJson (r : Record) : String := Json.compact.text r
