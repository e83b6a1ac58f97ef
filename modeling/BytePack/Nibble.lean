/-!
# Hexadecimal text

Two hexadecimal digits stand for one byte, and either half of the byte may come first. `nibbleBytes`
turns digits into bytes and `renderNibbles` turns bytes into digits. A byte that is no digit counts
as 0 and is reported by whoever packs it.
-/

namespace BytePack

/-- Which half of a byte comes first in the text. -/
inductive NibbleOrder where
  /-- The low half. -/
  | lowFirst
  /-- The high half. -/
  | highFirst
  deriving DecidableEq, Repr

namespace NibbleOrder

/-- The byte whose halves are given in the order of the text. -/
def join : NibbleOrder → UInt8 → UInt8 → UInt8
  | .lowFirst, first, second => second <<< 4 ||| first
  | .highFirst, first, second => first <<< 4 ||| second

/-- The halves of a byte in the order of the text. -/
def halves : NibbleOrder → UInt8 → List UInt8
  | .lowFirst, b => [b &&& 0x0F, b >>> 4]
  | .highFirst, b => [b >>> 4, b &&& 0x0F]

end NibbleOrder

/-- The value of a hexadecimal digit of either case. -/
def hexValue? (c : UInt8) : Option UInt8 :=
  if 0x30 ≤ c ∧ c ≤ 0x39 then some (c - 0x30)
  else if 0x61 ≤ c ∧ c ≤ 0x66 then some (c - 0x61 + 10)
  else if 0x41 ≤ c ∧ c ≤ 0x46 then some (c - 0x41 + 10)
  else none

/-- Whether a byte is a hexadecimal digit. -/
def isHexDigit (c : UInt8) : Bool := (hexValue? c).isSome

/-- The half byte stored for a digit: its value, or 0 if it is none. -/
def nibble (c : UInt8) : UInt8 := (hexValue? c).getD 0

/-- The lower-case digit of a half byte. -/
def hexDigit (value : UInt8) : UInt8 :=
  if value < 10 then 0x30 + value else 0x61 + (value - 10)

/-- The number of bytes that hold `n` half bytes. -/
def nibbleRoom (n : Nat) : Nat := (n + 1) / 2

/-- The bytes of a text of digits. The half of the last byte that no digit fills is 0. -/
def nibbleBytes (order : NibbleOrder) : List UInt8 → List UInt8
  | [] => []
  | [a] => [order.join (nibble a) 0]
  | a :: b :: rest => order.join (nibble a) (nibble b) :: nibbleBytes order rest

@[simp] theorem length_nibbleBytes (order : NibbleOrder) (text : List UInt8) :
    (nibbleBytes order text).length = nibbleRoom text.length := by
  fun_induction nibbleBytes order text with
  | case1 => rfl
  | case2 a => simp [nibbleRoom]
  | case3 a b rest ih => simp only [List.length_cons, ih, nibbleRoom]; omega

/-- What packing digits into a field does. -/
structure NibblePacking where
  /-- The number of bytes that the digits fill. -/
  used : Nat
  /-- The field afterwards: its first bytes are replaced and the others stay. -/
  field : List UInt8
  /-- The bytes of the text that are no digits, in order. -/
  invalid : List UInt8

/-- The bytes of a text that are no hexadecimal digits. -/
def invalidDigits (text : List UInt8) : List UInt8 := text.filter fun c => !isHexDigit c

/-- Packs digits into the front of a field that has room for them. -/
def packNibbles (text : List UInt8) (order : NibbleOrder) (field : List UInt8) : NibblePacking where
  used := nibbleRoom text.length
  field := nibbleBytes order text ++ field.drop (nibbleRoom text.length)
  invalid := invalidDigits text

/-- The first `count` half bytes of some bytes, as lower-case digits. -/
def renderNibbles (bytes : List UInt8) (count : Nat) (order : NibbleOrder) : List UInt8 :=
  ((bytes.flatMap order.halves).take count).map hexDigit

end BytePack
