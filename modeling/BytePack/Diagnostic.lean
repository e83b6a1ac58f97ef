/-!
# Diagnostics

A diagnostic tells of an irregularity that does not end the call: a repeat that is ignored, a seek
that is clamped, arguments that are left over, hexadecimal text that is short or has other
characters in it.
-/

namespace BytePack

/-- An irregularity met while packing or unpacking. -/
inductive Diagnostic where
  /-- `*` on a directive that seeks; it counts as 1. -/
  | greedyIgnored (code : Char)
  /-- Arguments are left over. -/
  | unusedArguments (count : Nat)
  /-- A seek would leave the bytes; the cursor is clamped or stays. -/
  | outsideOfString (code : Char)
  /-- A hexadecimal text is shorter than its repeat. -/
  | notEnoughCharacters (code : Char)
  /-- A character of a hexadecimal text is no digit and packed as 0. -/
  | illegalHexDigit (code : Char) (digit : Char)
  deriving DecidableEq, Repr

namespace Diagnostic

/-- The name under which a diagnostic is recorded. -/
def kind : Diagnostic → String
  | .greedyIgnored _ => "greedy_ignored"
  | .unusedArguments _ => "unused_arguments"
  | .outsideOfString _ => "outside_of_string"
  | .notEnoughCharacters _ => "not_enough_characters"
  | .illegalHexDigit .. => "illegal_hex_digit"

/-- The code that a diagnostic is about. -/
def code? : Diagnostic → Option Char
  | .greedyIgnored code => some code
  | .unusedArguments _ => none
  | .outsideOfString code => some code
  | .notEnoughCharacters code => some code
  | .illegalHexDigit code _ => some code

/-- The wording of a diagnostic. -/
def message : Diagnostic → String
  | .greedyIgnored code => s!"type {code}: '*' ignored"
  | .unusedArguments count => s!"{count} arguments unused"
  | .outsideOfString code => s!"type {code}: outside of string"
  | .notEnoughCharacters code => s!"type {code}: not enough characters in string"
  | .illegalHexDigit code digit => s!"type {code}: illegal hex digit {digit}"

end Diagnostic

end BytePack
