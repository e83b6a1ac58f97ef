/-!
# Characters of configuration files

Blanks, digits in bases up to 16, and characters that are named by a number.
-/

namespace BytePack.Config

/-- Whether a character separates words on a line. -/
def isBlank (c : Char) : Bool := c == ' ' || c == '\t'

/-- The value of a digit in a base up to 16. Both cases of letters are digits. -/
def digit? (base : Nat) (c : Char) : Option Nat :=
  let n :=
    if c.isDigit then c.toNat - '0'.toNat
    else if 'a' ≤ c ∧ c ≤ 'f' then c.toNat - 'a'.toNat + 10
    else if 'A' ≤ c ∧ c ≤ 'F' then c.toNat - 'A'.toNat + 10
    else base
  if n < base then some n else none

/-- The number that some digits stand for. -/
def number? (base : Nat) (cs : List Char) : Option Nat :=
  if cs.isEmpty then none
  else (cs.mapM (digit? base)).map fun ds => ds.foldl (fun n d => n * base + d) 0

/-- The character with a number. Halves of surrogate pairs are no characters. -/
def charOfNumber? (n : Nat) : Option Char :=
  if n < 0xD800 ∨ (0xE000 ≤ n ∧ n < 0x110000) then some (Char.ofNat n) else none

/-- The character whose number the first `count` characters of a text write in hexadecimal. -/
def numberedChar? (count : Nat) (cs : List Char) : Option Char := do
  let digits := cs.take count
  if digits.length = count then charOfNumber? (← number? 16 digits) else none

end BytePack.Config
