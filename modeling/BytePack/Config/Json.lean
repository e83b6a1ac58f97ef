import BytePack.Config.Character
import BytePack.Config.Setting
import BytePack.Decimal.Reading
import BytePack.Number.Double
import BytePack.Word.Bytes

/-!
# Settings in JSON

A JSON text is split into tokens, and the tokens make up one object. Nothing may follow it, values
may nest 127 deep, and a number must be one that double precision can hold.
-/

namespace BytePack.Config.Json

/-- A token of a JSON text. -/
inductive Token where
  /-- A bracket, brace, comma or colon. -/
  | mark (c : Char)
  /-- A string. -/
  | string (s : List Char)
  /-- A number, or one of the three words. -/
  | value (setting : Setting)

/-- The number that four hexadecimal digits stand for, and the text after them. -/
def readUnit (cs : List Char) : Option (Nat × List Char) :=
  if (cs.take 4).length = 4 then (number? 16 (cs.take 4)).map (·, cs.drop 4) else none

/-- The character of an escape by numbers, after the `u`. Characters outside the basic plane take
two escapes, and half of such a pair is no character. -/
def readEscapedUnit (cs : List Char) : Option (Char × List Char) := do
  let (high, rest) ← readUnit cs
  if 0xD800 ≤ high ∧ high < 0xDC00 then
    match rest with
    | '\\' :: 'u' :: rest =>
      let (low, rest) ← readUnit rest
      if 0xDC00 ≤ low ∧ low < 0xE000 then
        some (Char.ofNat (0x10000 + (high - 0xD800) * 0x400 + (low - 0xDC00)), rest)
      else none
    | _ => none
  else if 0xDC00 ≤ high ∧ high < 0xE000 then none
  else some (Char.ofNat high, rest)

/-- The rest of a string after its opening quote, and the text after its closing quote. `fuel`
bounds the number of characters. -/
def readString : (fuel : Nat) → List Char → Option (List Char × List Char)
  | 0, _ => none
  | _ + 1, [] => none
  | _ + 1, '"' :: rest => some ([], rest)
  | fuel + 1, '\\' :: 'u' :: rest => do
    let (c, rest) ← readEscapedUnit rest
    let (cs, rest) ← readString fuel rest
    some (c :: cs, rest)
  | fuel + 1, '\\' :: e :: rest => do
    let c ←
      if e = '"' ∨ e = '\\' ∨ e = '/' then some e
      else if e = 'b' then some '\x08'
      else if e = 'f' then some '\x0c'
      else if e = 'n' then some '\n'
      else if e = 'r' then some '\r'
      else if e = 't' then some '\t'
      else none
    let (cs, rest) ← readString fuel rest
    some (c :: cs, rest)
  | fuel + 1, c :: rest =>
    if c.toNat < 0x20 ∨ c = '\\' then none
    else do
      let (cs, rest) ← readString fuel rest
      some (c :: cs, rest)

/-- The setting of a number without fraction and exponent: an integer if it is a 64-bit one. -/
def integerSetting (negative : Bool) (digits : List Char) : Option Setting :=
  let n := Nat.ofDigitChars 10 digits 0
  if negative then
    if 0 < n ∧ n ≤ signedBound then some (.integer (-n))
    else if (Double.ofDecimal true n 0).value matches .finite .. then some .other else none
  else if n < UInt64.size then some (.integer n)
  else if (Double.ofDecimal false n 0).value matches .finite .. then some .other else none

/-- A number at the front of a text, and the text after it. -/
def readNumber (cs : List Char) : Option (Setting × List Char) := do
  let (negative, cs) := match cs with
    | '-' :: rest => (true, rest)
    | _ => (false, cs)
  let whole := cs.takeWhile Char.isDigit
  let rest := cs.dropWhile Char.isDigit
  if whole.isEmpty ∨ (whole.head? = some '0' ∧ 1 < whole.length) then none
  else
    let (fraction, rest, broken) := match rest with
      | '.' :: more =>
        let digits := more.takeWhile Char.isDigit
        (digits, more.dropWhile Char.isDigit, digits.isEmpty)
      | _ => ([], rest, false)
    let (exponent, rest, hasExponent) := match rest with
      | c :: more =>
        if c = 'e' ∨ c = 'E' then
          let (_, body) := takeSign more
          let digits := body.takeWhile Char.isDigit
          let written := more.take (more.length - body.length + digits.length)
          (if digits.isEmpty then none else readExponent (c :: written),
            body.dropWhile Char.isDigit, true)
        else (some 0, rest, false)
      | [] => (some 0, rest, false)
    if broken then none
    else if fraction.isEmpty && !hasExponent then
      (integerSetting negative whole).map (·, rest)
    else
      let size ← exponent
      let x := Double.ofDecimal negative (Nat.ofDigitChars 10 (whole ++ fraction) 0)
        (size - fraction.length)
      if x.value matches .finite .. then some (.other, rest) else none

/-- A word at the front of a text. -/
def readWord (word : List Char) (setting : Setting) (cs : List Char) :
    Option (Setting × List Char) :=
  if word.isPrefixOf cs then some (setting, cs.drop word.length) else none

/-- The tokens of a text. `fuel` bounds their number. -/
def tokens : (fuel : Nat) → List Char → Option (List Token)
  | 0, _ => none
  | _ + 1, [] => some []
  | fuel + 1, c :: cs =>
    if c = ' ' ∨ c = '\n' ∨ c = '\t' ∨ c = '\r' then tokens fuel cs
    else if c = '\x7b' ∨ c = '\x7d' ∨ c = '[' ∨ c = ']' ∨ c = ',' ∨ c = ':' then
      (tokens fuel cs).map (.mark c :: ·)
    else if c = '"' then do
      let (s, rest) ← readString (cs.length + 1) cs
      (tokens fuel rest).map (.string s :: ·)
    else do
      let (setting, rest) ←
        if c = 'n' then readWord ['n', 'u', 'l', 'l'] .null (c :: cs)
        else if c = 't' then readWord ['t', 'r', 'u', 'e'] .other (c :: cs)
        else if c = 'f' then readWord ['f', 'a', 'l', 's', 'e'] .other (c :: cs)
        else readNumber (c :: cs)
      (tokens fuel rest).map (.value setting :: ·)

mutual

/-- A value at the front of some tokens, in which values nest at most `depth` deep. -/
def readValue (depth : Nat) : (fuel : Nat) → List Token → Option (Setting × List Token)
  | 0, _ => none
  | fuel + 1, tokens =>
    match tokens, depth with
    | .string s :: rest, _ => some (.text (.ofList s), rest)
    | .value setting :: rest, _ => some (setting, rest)
    | .mark '[' :: .mark ']' :: rest, _ + 1 => some (.other, rest)
    | .mark '[' :: rest, depth + 1 => (readItems depth fuel rest).map (.other, ·)
    | .mark '\x7b' :: .mark '\x7d' :: rest, _ + 1 => some (.table [], rest)
    | .mark '\x7b' :: rest, depth + 1 =>
      (readFields depth fuel rest).map fun (entries, rest) => (.table entries, rest)
    | _, _ => none

/-- The items of an array after its opening bracket, and the tokens after its closing one. -/
def readItems (depth : Nat) : (fuel : Nat) → List Token → Option (List Token)
  | 0, _ => none
  | fuel + 1, tokens => do
    let (_, rest) ← readValue depth fuel tokens
    match rest with
    | .mark ']' :: rest => some rest
    | .mark ',' :: rest => readItems depth fuel rest
    | _ => none

/-- The fields of an object after its opening brace, and the tokens after its closing one. -/
def readFields (depth : Nat) : (fuel : Nat) → List Token → Option (Source × List Token)
  | 0, _ => none
  | fuel + 1, tokens =>
    match tokens with
    | .string key :: .mark ':' :: rest => do
      let (setting, rest) ← readValue depth fuel rest
      match rest with
      | .mark '\x7d' :: rest => some ([(.ofList key, setting)], rest)
      | .mark ',' :: rest =>
        let (entries, rest) ← readFields depth fuel rest
        some ((.ofList key, setting) :: entries, rest)
      | _ => none
    | _ => none

end

/-- The deepest nesting of values. -/
def maxDepth : Nat := 127

/-- The settings of a JSON text, which must be one object. -/
def read (text : String) : Option Source := do
  let cs := text.toList
  let ts ← tokens (cs.length + 1) cs
  match ← readValue maxDepth (2 * ts.length + 2) ts with
  | (.table entries, []) => some entries
  | _ => none

end BytePack.Config.Json
