import BytePack.Number.Double
import BytePack.Word.Bytes
import BytePack.Word.Order
import BytePack.Word.Swap

/-!
# Floating-point words

A number is stored as its pattern in the machine's order, after a byte reversal if the word wants
the other one. Patterns pass through unchanged, also those that are not numbers.
-/

namespace BytePack

/-- The bytes of a single precision number. -/
def Single.toBytes (x : Single) (order : ByteOrder) : List UInt8 :=
  let word := if order.needsSwap then swap32 x.bits else x.bits
  digits 4 word.toNat

/-- The single precision number in the first four bytes. -/
def Single.ofBytes (bytes : List UInt8) (order : ByteOrder) : Single :=
  let word := UInt32.ofNat (ofDigits (bytes.take 4))
  ⟨if order.needsSwap then swap32 word else word⟩

/-- The bytes of a double precision number. -/
def Double.toBytes (x : Double) (order : ByteOrder) : List UInt8 :=
  let word := if order.needsSwap then swap64 x.bits else x.bits
  digits 8 word.toNat

/-- The double precision number in the first eight bytes. -/
def Double.ofBytes (bytes : List UInt8) (order : ByteOrder) : Double :=
  let word := UInt64.ofNat (ofDigits (bytes.take 8))
  ⟨if order.needsSwap then swap64 word else word⟩

@[simp] theorem Single.length_toBytes (x : Single) (order : ByteOrder) :
    (x.toBytes order).length = 4 := by simp [Single.toBytes]

@[simp] theorem Double.length_toBytes (x : Double) (order : ByteOrder) :
    (x.toBytes order).length = 8 := by simp [Double.toBytes]

end BytePack
