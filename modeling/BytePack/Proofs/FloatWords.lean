import BytePack.Proofs.Lemmas.Words

/-!
# Floating-point words are integer words

A floating-point number is stored by swapping its pattern where the order asks for it, and an integer
by the table of its order. Both come to the same bytes: the swaps reverse the bytes of a word, and so
does the table of the big-endian order. Hence a pattern and its bytes determine each other in every
order, and reading in the machine's order what was stored big-endian gives the pattern reversed.
-/

namespace BytePack

/-! ## Patterns as integers -/

theorem Double.toBytes_eq_integerWord (x : Double) (order : ByteOrder) :
    x.toBytes order = integerWord x.bits.toInt64 .longLong order := by
  rw [toBytes_eq, integerWord_eq]
  rfl

theorem Single.toBytes_eq_integerWord (x : Single) (order : ByteOrder) :
    x.toBytes order = integerWord x.bits.toUInt64.toInt64 .long order := by
  rw [toBytes_eq, integerWord_eq]
  rfl

theorem writeInteger_of_length {value : Int64} {width : Width} {order : ByteOrder}
    {field : List UInt8} (h : field.length = width.bytes) :
    writeInteger value width order field = integerWord value width order := by
  rw [writeInteger, List.take_of_length_le (by rw [length_integerWord, h]),
    List.drop_of_length_le (Nat.le_of_eq h), List.append_nil]

/-! ## Bytes as integers -/

theorem Double.bits_ofBytes {bytes : List UInt8} (h : bytes.length = 8) (order : ByteOrder) :
    (Double.ofBytes bytes order).bits = (readInteger bytes .longLong order false).toUInt64 := by
  generalize hx : Double.ofBytes bytes order = x
  have hbytes : bytes = integerWord x.bits.toInt64 .longLong order := by
    rw [← x.toBytes_eq_integerWord, ← hx, toBytes_ofBytes h]
  -- a word of 64 bits holds every value as it is
  have hkept : Width.longLong.reduce false x.bits.toInt64 = x.bits.toInt64 := by
    have hlow := x.bits.toInt64.le_toInt
    have hhigh := x.bits.toInt64.toInt_lt
    apply Int64.toInt_inj.1
    simp only [Width.reduce, Int64.toInt_ofInt, Width.bytes, Int.bmod, Int64.size, Nat.pow_eq,
      Nat.reducePow, Bool.false_eq_true, if_false]
    omega
  rw [hbytes, readInteger_integerWord, hkept]
  rfl

theorem Single.bits_ofBytes {bytes : List UInt8} (h : bytes.length = 4) (order : ByteOrder) :
    (Single.ofBytes bytes order).bits.toUInt64 =
      (readInteger bytes .long order false).toUInt64 := by
  generalize hx : Single.ofBytes bytes order = x
  have hbytes : bytes = integerWord x.bits.toUInt64.toInt64 .long order := by
    rw [← x.toBytes_eq_integerWord, ← hx, toBytes_ofBytes h]
  have hkept : Width.long.reduce false x.bits.toUInt64.toInt64 = x.bits.toUInt64.toInt64 := by
    have hlt := x.bits.toNat_lt
    apply Int64.toInt_inj.1
    simp only [Width.reduce, Int64.toInt_ofInt, toInt_toInt64, UInt32.toNat_toUInt64, Width.bytes,
      Int.bmod, Int64.size, UInt64.size, Nat.pow_eq, Nat.reducePow, Bool.false_eq_true, if_false]
    omega
  rw [hbytes, readInteger_integerWord, hkept]
  rfl

/-! ## Bytes in the other order -/

theorem Double.ofBytes_swapped (x : Double) :
    Double.ofBytes (x.toBytes .bigEndian) .machine = ⟨swap64 x.bits⟩ := by
  have hbytes : x.toBytes .bigEndian = Double.toBytes ⟨swap64 x.bits⟩ .machine := rfl
  rw [hbytes, ofBytes_toBytes]

theorem Single.ofBytes_swapped (x : Single) :
    Single.ofBytes (x.toBytes .bigEndian) .machine = ⟨swap32 x.bits⟩ := by
  have hbytes : x.toBytes .bigEndian = Single.toBytes ⟨swap32 x.bits⟩ .machine := rfl
  rw [hbytes, ofBytes_toBytes]

/-- In every order, the pattern of a number is stored as the integer of the same bits, and bytes are
read as the pattern with the bits of the integer that they stand for, so storing and reading undo
each other. The swaps reverse the bytes of a word and undo themselves, and what is stored big-endian
and read in the machine's order is the pattern with its bytes reversed. -/
theorem float_words_are_integer_words (order : ByteOrder) :
    (∀ (bits : UInt64) (field : List UInt8), field.length = 8 →
      (Double.mk bits).toBytes order = writeInteger bits.toInt64 .longLong order field) ∧
    (∀ (bits : UInt32) (field : List UInt8), field.length = 4 →
      (Single.mk bits).toBytes order = writeInteger bits.toUInt64.toInt64 .long order field) ∧
    (∀ bytes : List UInt8, bytes.length = 8 →
      (Double.ofBytes bytes order).bits = (readInteger bytes .longLong order false).toUInt64 ∧
      (Double.ofBytes bytes order).toBytes order = bytes) ∧
    (∀ bytes : List UInt8, bytes.length = 4 →
      (Single.ofBytes bytes order).bits.toUInt64 =
        (readInteger bytes .long order false).toUInt64 ∧
      (Single.ofBytes bytes order).toBytes order = bytes) ∧
    (∀ x : Double, Double.ofBytes (x.toBytes order) order = x) ∧
    (∀ x : Single, Single.ofBytes (x.toBytes order) order = x) ∧
    (∀ word : UInt16, digits 2 (swap16 word).toNat = (digits 2 word.toNat).reverse ∧
      swap16 (swap16 word) = word) ∧
    (∀ word : UInt32, digits 4 (swap32 word).toNat = (digits 4 word.toNat).reverse ∧
      swap32 (swap32 word) = word) ∧
    (∀ word : UInt64, digits 8 (swap64 word).toNat = (digits 8 word.toNat).reverse ∧
      swap64 (swap64 word) = word) ∧
    (∀ x : Double, Double.ofBytes (x.toBytes .bigEndian) .machine = ⟨swap64 x.bits⟩) ∧
    ∀ x : Single, Single.ofBytes (x.toBytes .bigEndian) .machine = ⟨swap32 x.bits⟩ := by
  refine ⟨?_, ?_, fun bytes h => ⟨Double.bits_ofBytes h order, Double.toBytes_ofBytes h order⟩,
    fun bytes h => ⟨Single.bits_ofBytes h order, Single.toBytes_ofBytes h order⟩,
    fun x => x.ofBytes_toBytes order, fun x => x.ofBytes_toBytes order,
    fun word => ⟨digits_swap16 word, swap16_swap16 word⟩,
    fun word => ⟨digits_swap32 word, swap32_swap32 word⟩,
    fun word => ⟨digits_swap64 word, swap64_swap64 word⟩,
    Double.ofBytes_swapped, Single.ofBytes_swapped⟩
  · intro bits field hfield
    rw [Double.toBytes_eq_integerWord, writeInteger_of_length hfield]
  · intro bits field hfield
    rw [Single.toBytes_eq_integerWord, writeInteger_of_length hfield]

/-- A pattern with eight different bytes, stored big-endian over other bytes, and bytes of a single
precision number that is not a number. -/
theorem float_words_are_integer_words_distinct :
    (Double.mk 0x0102030405060708).toBytes .bigEndian =
      writeInteger (0x0102030405060708 : UInt64).toInt64 .longLong .bigEndian
        [0xAA, 0xAA, 0xAA, 0xAA, 0xAA, 0xAA, 0xAA, 0xAA] ∧
    (Single.mk 0x7F800001).toBytes .bigEndian =
      writeInteger (0x7F800001 : UInt32).toUInt64.toInt64 .long .bigEndian [0, 0, 0, 0] ∧
    (Double.ofBytes [1, 2, 3, 4, 5, 6, 7, 8] .bigEndian).bits = 0x0102030405060708 ∧
    (Single.ofBytes [0x7F, 0x80, 0, 1] .bigEndian).bits.toUInt64 = 0x7F800001 := by
  obtain ⟨hdouble, hsingle, hreadDouble, hreadSingle, -⟩ :=
    float_words_are_integer_words .bigEndian
  exact ⟨hdouble 0x0102030405060708 _ rfl, hsingle 0x7F800001 _ rfl,
    (hreadDouble [1, 2, 3, 4, 5, 6, 7, 8] rfl).1.trans (by decide +kernel),
    (hreadSingle [0x7F, 0x80, 0, 1] rfl).1.trans (by decide +kernel)⟩

end BytePack
