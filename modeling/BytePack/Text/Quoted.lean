import BytePack.Text.GraphemeExtend
import BytePack.Text.Unprintable

/-!
# Quoted text

A text is shown between double quotes. Quotes, backslashes and the usual control characters have a
short escape; every other character that has no visible form of its own is written by its number.
-/

namespace BytePack.Text

/-- The escape of a character by its number, in hexadecimal. -/
def numericEscape (c : Char) : List Char :=
  ['\\', 'u', '\x7b'] ++ Nat.toDigits 16 c.toNat ++ ['\x7d']

/-- How a character is written between quotes. -/
def escape (c : Char) : List Char :=
  if c = '\x00' then ['\\', '0']
  else if c = '\t' then ['\\', 't']
  else if c = '\n' then ['\\', 'n']
  else if c = '\r' then ['\\', 'r']
  else if c = '"' then ['\\', '"']
  else if c = '\\' then ['\\', '\\']
  else if extendsGrapheme c || !isPrintable c then numericEscape c
  else [c]

/-- A text between quotes. -/
def quoted (s : String) : String := .ofList ('"' :: (s.toList.flatMap escape ++ ['"']))

end BytePack.Text
