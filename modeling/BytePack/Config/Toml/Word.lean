import BytePack.Config.Character
import BytePack.Config.Setting
import BytePack.Decimal.Reading
import BytePack.Word.Bytes

/-!
# Words in TOML

Values without quotes or brackets: integers of 64 bits, floating-point numbers, truth values, and
dates and times. Of these only integers can be of use as a setting.
-/

namespace BytePack.Config.Toml

/-! ## Numbers -/

/-- Digits without the underscores among them, of which one may stand between any two digits. -/
def ungrouped? (base : Nat) : List Char → Option (List Char)
  | [] => none
  | [c] => (digit? base c).map fun _ => [c]
  | c :: '_' :: cs => do
    let _ ← digit? base c
    (ungrouped? base cs).map (c :: ·)
  | c :: cs => do
    let _ ← digit? base c
    (ungrouped? base cs).map (c :: ·)

/-- The whole part of a decimal number: digits without a leading zero. -/
def whole? (cs : List Char) : Option (List Char) := do
  let digits ← ungrouped? 10 cs
  if cs.length = 1 ∨ cs.head? ≠ some '0' then some digits else none

/-- An integer that fits 64 bits. Only decimal ones may have a sign. -/
def integer? (word : List Char) : Option Int := do
  let magnitude (base : Nat) (digits : List Char) : Option Int := do
    (number? base (← ungrouped? base digits)).map Int.ofNat
  let value ← match word with
    | '0' :: 'x' :: digits => magnitude 16 digits
    | '0' :: 'o' :: digits => magnitude 8 digits
    | '0' :: 'b' :: digits => magnitude 2 digits
    | _ =>
      let (negative, cs) := takeSign word
      (number? 10 (← whole? cs)).map fun n => if negative then -(n : Int) else n
  if -signedBound ≤ value ∧ value < signedBound then some value else none

/-- Whether a word is a floating-point number. One that is too large for double precision is none,
unless it is negative. -/
def isFloat (word : List Char) : Bool :=
  let (negative, cs) := takeSign word
  let isExponent (c : Char) : Bool := c == 'e' || c == 'E'
  let number := cs.takeWhile fun c => !isExponent c
  let exponent := cs.dropWhile fun c => !isExponent c
  let fraction := number.dropWhile (· != '.')
  let digits (cs : List Char) : Option (List Char) :=
    if cs.isEmpty then some [] else ungrouped? 10 (cs.drop 1)
  let value : Option Double := do
    let wholeDigits ← whole? (number.takeWhile (· != '.'))
    let fractionDigits ← digits fraction
    let (below, size) := takeSign (exponent.drop 1)
    let exponentDigits ← if exponent.isEmpty then some ['0'] else ungrouped? 10 size
    let power : Int := Nat.ofDigitChars 10 exponentDigits 0
    if fraction.isEmpty && exponent.isEmpty then none
    else
      some (.ofDecimal negative (Nat.ofDigitChars 10 (wholeDigits ++ fractionDigits) 0)
        ((if below then -power else power) - fractionDigits.length))
  cs == ['i', 'n', 'f'] || cs == ['n', 'a', 'n'] ||
    value.any fun x => negative || !(x.value matches .infinite _)

/-! ## Dates and times -/

/-- A number of two digits. -/
def twoDigits? (cs : List Char) : Option Nat := do
  if (cs.take 2).all Char.isDigit ∧ (cs.take 2).length = 2 then number? 10 (cs.take 2) else none

/-- The number of days of a month. Every fourth year has a leap day; of those that end a century
only every fourth has. -/
def daysInMonth (year month : Nat) : Nat :=
  let isLeap := year % 4 == 0 && (year % 100 != 0 || year % 400 == 0)
  if month = 2 then (if isLeap then 29 else 28)
  else if month = 4 ∨ month = 6 ∨ month = 9 ∨ month = 11 then 30
  else 31

/-- What follows the date at the front of a text. -/
def afterDate? : List Char → Option (List Char)
  | a :: b :: c :: d :: '-' :: rest => do
    let century ← twoDigits? [a, b]
    let year := century * 100 + (← twoDigits? [c, d])
    let month ← twoDigits? rest
    match rest.drop 2 with
    | '-' :: rest =>
      let day ← twoDigits? rest
      if 1 ≤ month ∧ month ≤ 12 ∧ 1 ≤ day ∧ day ≤ daysInMonth year month then some (rest.drop 2)
      else none
    | _ => none
  | _ => none

/-- Whether a text is a date. -/
def isDate (cs : List Char) : Bool := afterDate? cs == some []

/-- What follows the hours and minutes at the front of a text. -/
def afterMinutes? (cs : List Char) : Option (List Char) := do
  let hour ← twoDigits? cs
  match cs.drop 2 with
  | ':' :: rest =>
    let minute ← twoDigits? rest
    if hour ≤ 23 ∧ minute ≤ 59 then some (rest.drop 2) else none
  | _ => none

/-- What follows the time at the front of a text. The minute may have a leap second. -/
def afterTime? (cs : List Char) : Option (List Char) := do
  match ← afterMinutes? cs with
  | ':' :: rest =>
    let second ← twoDigits? rest
    if second ≤ 60 then
      match rest.drop 2 with
      | '.' :: fraction =>
        if (fraction.takeWhile Char.isDigit).isEmpty then none
        else some (fraction.dropWhile Char.isDigit)
      | rest => some rest
    else none
  | _ => none

/-- Whether a text is a time. -/
def isTime (cs : List Char) : Bool := afterTime? cs == some []

/-- Whether a text is a time with or without its distance from universal time. -/
def isZonedTime (cs : List Char) : Bool :=
  match afterTime? cs with
  | none => false
  | some [] => true
  | some [c] => c == 'Z' || c == 'z'
  | some (c :: offset) => (c == '+' || c == '-') && afterMinutes? offset == some []

/-- Whether a text is a date with a time after the letter between them. -/
def isDateTime (cs : List Char) : Bool :=
  match afterDate? cs with
  | some (c :: time) => (c == 'T' || c == 't') && isZonedTime time
  | _ => false

/-! ## All of them -/

/-- The setting that a word stands for. -/
def word? (word : List Char) : Option Setting :=
  match integer? word with
  | some n => some (.integer n)
  | none =>
    if word == ['t', 'r', 'u', 'e'] || word == ['f', 'a', 'l', 's', 'e'] || isFloat word ||
        isDate word || isTime word || isDateTime word then
      some .other
    else none

/-- Whether a character ends a word. -/
def endsWord (c : Char) : Bool :=
  [' ', '\t', '\n', '\r', '#', ',', ']', '\x7d'].contains c

/-- A word at the front of a text, and what follows it. A date and its time may have one space
between them. -/
def readWord (cs : List Char) : Option (Setting × List Char) :=
  let word := cs.takeWhile fun c => !endsWord c
  match isDate word, cs.dropWhile fun c => !endsWord c with
  | true, ' ' :: rest =>
    let time := rest.takeWhile fun c => !endsWord c
    if !rest.head?.any Char.isDigit then some (.other, ' ' :: rest)
    else if isZonedTime time then some (.other, rest.drop time.length)
    else none
  | _, rest => (word? word).map (·, rest)

end BytePack.Config.Toml
