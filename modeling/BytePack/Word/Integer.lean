import BytePack.Word.Bytes
import BytePack.Word.Order

/-!
# Integer words

A 64-bit integer is laid out from its eight bytes, least significant first (its image). A word keeps
the low bytes of the image, each where `byteMap` puts it, so a value that is too wide is reduced and
never refused. Reading places the bytes back into an empty image and extends the sign by a shift.
-/

namespace BytePack

/-- The eight bytes of an integer in two's complement, the least significant first. -/
def image (value : Int64) : List UInt8 := digits 8 value.toUInt64.toNat

/-- The word of a value: the bytes of its image that `byteMap` names. -/
def integerWord (value : Int64) (width : Width) (order : ByteOrder) : List UInt8 :=
  (byteMap width order).map fun i => (image value).getD i 0

@[simp] theorem length_integerWord (value : Int64) (width : Width) (order : ByteOrder) :
    (integerWord value width order).length = width.bytes := by
  simp [integerWord]

/-- Stores a word at the front of a field. A field shorter than the word gets its first bytes, and
the rest of a longer one stays. -/
def writeInteger (value : Int64) (width : Width) (order : ByteOrder) (field : List UInt8) :
    List UInt8 :=
  (integerWord value width order).take field.length ++ field.drop width.bytes

/-- The image that stored bytes stand for: each goes where `byteMap` puts it, and the places that no
byte reaches hold 0. -/
def placed (stored : List UInt8) (width : Width) (order : ByteOrder) : List UInt8 :=
  (stored.zip (byteMap width order)).foldl (fun bytes entry => bytes.set entry.2 entry.1)
    (List.replicate 8 0)

/-- Reads a word from the front of some bytes; missing bytes count as 0 at their places and further
ones are ignored. A signed word narrower than 64 bits is moved to the top of the register and back,
which copies its sign bit; a 64-bit word is its two's complement either way. -/
def readInteger (stored : List UInt8) (width : Width) (order : ByteOrder) (signed : Bool) : Int64 :=
  let raw := UInt64.ofNat (ofDigits (placed stored width order))
  let spare := 64 - 8 * width.bytes
  if signed && 0 < spare then
    (raw <<< UInt64.ofNat spare).toInt64 >>> Int64.ofNat spare
  else
    raw.toInt64

end BytePack
