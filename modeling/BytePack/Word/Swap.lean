/-!
# Byte reversal of machine words

Words of 16, 32 and 64 bits with their bytes in reverse, by shifts and masks. A 64-bit word is
reversed by reversing and exchanging its halves.
-/

namespace BytePack

/-- A 16-bit word with its bytes exchanged. -/
def swap16 (word : UInt16) : UInt16 := word <<< 8 ||| word >>> 8

/-- A 32-bit word with its bytes reversed. -/
def swap32 (word : UInt32) : UInt32 :=
  (word &&& 0xFF) <<< 24 ||| (word &&& 0xFF00) <<< 8 ||| (word >>> 8 &&& (0xFF00 : UInt32)) |||
    word >>> 24

/-- A 64-bit word with its bytes reversed. -/
def swap64 (word : UInt64) : UInt64 :=
  (swap32 word.toUInt32).toUInt64 <<< 32 ||| (swap32 (word >>> 32).toUInt32).toUInt64

end BytePack
