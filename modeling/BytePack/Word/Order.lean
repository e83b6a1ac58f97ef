/-!
# Byte orders and word widths

A word of 1, 2, 4 or 8 bytes is stored in one of two orders, or in whichever of the two the machine
uses. `byteMap` says, for each place of a stored word, which byte of the number stands there,
counted from the least significant; writing and reading share that table.
-/

namespace BytePack

/-- The order in which the bytes of a word are stored. -/
inductive ByteOrder where
  /-- Whatever the machine uses. -/
  | machine
  /-- Most significant byte first. -/
  | bigEndian
  /-- Least significant byte first. -/
  | littleEndian
  deriving DecidableEq, Repr, Inhabited

namespace ByteOrder

/-- The order of the machine this library is for, on which positions and counts have 64 bits. -/
def host : ByteOrder := .littleEndian

/-- The definite order that stands behind an order. -/
def resolve : ByteOrder → ByteOrder
  | .machine => host
  | order => order

/-- Whether a word in this order is the reverse of the machine's. -/
def needsSwap (order : ByteOrder) : Bool := order.resolve != host

/-- Whether the most significant byte comes first. -/
def isBigEndian (order : ByteOrder) : Bool := order.resolve == .bigEndian

/-- The name under which an order is shown. -/
def name : ByteOrder → String
  | .machine => "machine"
  | .bigEndian => "big-endian"
  | .littleEndian => "little-endian"

/-- On a little-endian machine, a word needs swapping exactly when it is big-endian. -/
theorem needsSwap_eq_isBigEndian (order : ByteOrder) : order.needsSwap = order.isBigEndian := by
  cases order <;> rfl

end ByteOrder

/-- The width of an integer word. -/
inductive Width where
  | byte
  | short
  | long
  | longLong
  deriving DecidableEq, Repr

/-- The number of bytes of a word. -/
def Width.bytes : Width → Nat
  | .byte => 1
  | .short => 2
  | .long => 4
  | .longLong => 8

theorem Width.bytes_pos (width : Width) : 0 < width.bytes := by cases width <;> decide

theorem Width.bytes_le (width : Width) : width.bytes ≤ 8 := by cases width <;> decide

/-- For each place of a stored word, the significance of the byte that stands there. -/
def byteMap (width : Width) (order : ByteOrder) : List Nat :=
  if order.isBigEndian then (List.range width.bytes).reverse else List.range width.bytes

@[simp] theorem length_byteMap (width : Width) (order : ByteOrder) :
    (byteMap width order).length = width.bytes := by
  unfold byteMap; split <;> simp

theorem lt_of_mem_byteMap {width : Width} {order : ByteOrder} {i : Nat}
    (h : i ∈ byteMap width order) : i < width.bytes := by
  unfold byteMap at h; split at h <;> simpa using h

end BytePack
