import BytePack.Nibble
import BytePack.Word.Order

/-!
# Format codes

A format code is one character. Its layout says what it puts into the bytes, or where it moves the
cursor; the layout in turn fixes how wide one repetition is and how many arguments it takes. `codes`
lists them all.
-/

namespace BytePack

/-- What fills a text that is shorter than its field. -/
inductive Padding where
  /-- NUL bytes. -/
  | nul
  /-- Spaces. -/
  | space
  /-- NUL bytes, the last of which is always there. -/
  | terminated
  deriving DecidableEq, Repr

/-- How a number is stored. -/
inductive Number where
  | integer (width : Width) (order : ByteOrder) (signed : Bool)
  | single (order : ByteOrder)
  | double (order : ByteOrder)
  deriving DecidableEq, Repr

/-- What a format code stands for. -/
inductive Layout where
  /-- A text in a field. -/
  | text (padding : Padding)
  /-- A hexadecimal text, two digits to a byte. -/
  | hex (order : NibbleOrder)
  /-- Numbers. -/
  | number (format : Number)
  /-- NUL bytes. -/
  | nulByte
  /-- The cursor moves back. -/
  | backUp
  /-- The cursor moves to a position. -/
  | absolute
  deriving DecidableEq, Repr

/-- How many arguments a directive takes. -/
inductive ArgumentClass where
  /-- None: it places the cursor. -/
  | none
  /-- One, whose length the repeat sets. -/
  | string
  /-- One for each repetition. -/
  | repetition
  deriving DecidableEq, Repr

/-- The number of bytes of one number. -/
def Number.width : Number → Nat
  | .integer width _ _ => width.bytes
  | .single _ => 4
  | .double _ => 8

theorem Number.width_pos (number : Number) : 0 < number.width := by
  cases number with
  | integer width => exact width.bytes_pos
  | single order => exact Nat.succ_pos 3
  | double order => exact Nat.succ_pos 7

namespace Layout

/-- The number of bytes of one repetition; for a hexadecimal text, of two digits. -/
def width : Layout → Nat
  | .text _ => 1
  | .hex _ => 1
  | .number format => format.width
  | .nulByte => 1
  | .backUp => 1
  | .absolute => 0

/-- How many arguments a directive of this layout takes. -/
def argumentClass : Layout → ArgumentClass
  | .text _ => .string
  | .hex _ => .string
  | .number _ => .repetition
  | .nulByte => .none
  | .backUp => .none
  | .absolute => .none

end Layout

/-- The name of a class of arguments. -/
def ArgumentClass.name : ArgumentClass → String
  | .none => "none"
  | .string => "string"
  | .repetition => "repeat"

/-- A description of how a number is stored. -/
def Number.describe : Number → String
  | .integer width order signed =>
    s!"integer {width.bytes} {order.name} " ++ if signed then "signed" else "unsigned"
  | .single order => s!"float {order.name}"
  | .double order => s!"double {order.name}"

/-- A description of a layout. -/
def Layout.describe : Layout → String
  | .text .nul => "nul-padded"
  | .text .space => "space-padded"
  | .text .terminated => "nul-terminated"
  | .hex .lowFirst => "hex low"
  | .hex .highFirst => "hex high"
  | .number format => format.describe
  | .nulByte => "nul-byte"
  | .backUp => "back-up"
  | .absolute => "absolute"

/-- A format code. -/
structure Code where
  symbol : Char
  layout : Layout
  deriving DecidableEq, Repr

/-- Every format code. -/
def codes : List Code :=
  [ ⟨'a', .text .nul⟩,
    ⟨'A', .text .space⟩,
    ⟨'Z', .text .terminated⟩,
    ⟨'h', .hex .lowFirst⟩,
    ⟨'H', .hex .highFirst⟩,
    ⟨'c', .number (.integer .byte .machine true)⟩,
    ⟨'C', .number (.integer .byte .machine false)⟩,
    ⟨'s', .number (.integer .short .machine true)⟩,
    ⟨'S', .number (.integer .short .machine false)⟩,
    ⟨'n', .number (.integer .short .bigEndian false)⟩,
    ⟨'v', .number (.integer .short .littleEndian false)⟩,
    ⟨'i', .number (.integer .long .machine true)⟩,
    ⟨'I', .number (.integer .long .machine false)⟩,
    ⟨'l', .number (.integer .long .machine true)⟩,
    ⟨'L', .number (.integer .long .machine false)⟩,
    ⟨'N', .number (.integer .long .bigEndian false)⟩,
    ⟨'V', .number (.integer .long .littleEndian false)⟩,
    ⟨'q', .number (.integer .longLong .machine true)⟩,
    ⟨'Q', .number (.integer .longLong .machine false)⟩,
    ⟨'J', .number (.integer .longLong .bigEndian false)⟩,
    ⟨'P', .number (.integer .longLong .littleEndian false)⟩,
    ⟨'f', .number (.single .machine)⟩,
    ⟨'g', .number (.single .littleEndian)⟩,
    ⟨'G', .number (.single .bigEndian)⟩,
    ⟨'d', .number (.double .machine)⟩,
    ⟨'e', .number (.double .littleEndian)⟩,
    ⟨'E', .number (.double .bigEndian)⟩,
    ⟨'x', .nulByte⟩,
    ⟨'X', .backUp⟩,
    ⟨'@', .absolute⟩ ]

/-- The format code of a character. -/
def Code.ofChar? (c : Char) : Option Code := codes.find? fun code => code.symbol == c

theorem Code.symbol_of_ofChar? {c : Char} {code : Code} (h : Code.ofChar? c = some code) :
    code.symbol = c := by
  simpa using List.find?_some h

end BytePack
