import BytePack.Proofs.Lemmas.Words
import Mathlib.Algebra.BigOperators.Intervals
import Mathlib.Tactic.Ring

/-!
# Integer words by position

A word stores a number in base 256, and its order says which place counts how much. Writing puts the
bytes of a reduced value at their places as far as the field reaches, and reading adds up what the
places of the source count, missing ones nothing, and extends the sign. So a value that was written
reads back reduced to the range of the word, and bytes that were read are written back as they were.
-/

namespace BytePack

/-- How many bytes of a word are less significant than the one at a place. -/
def Width.significance (width : Width) : ByteOrder → Nat → Nat
  | .bigEndian, place => width.bytes - 1 - place
  | .machine, place | .littleEndian, place => place

/-- The number that stands at the front of a source. A missing byte counts as 0 at its place. -/
def Width.number (width : Width) (order : ByteOrder) (source : List UInt8) : Nat :=
  ∑ place ∈ Finset.range width.bytes,
    (source.getD place 0).toNat * 256 ^ width.significance order place

/-- A number reduced to the range of a word: around 0 if the word is signed or has 64 bits, and from
0 on otherwise. -/
def Width.wrap (width : Width) (signed : Bool) (n : Int) : Int :=
  if signed ∨ width = .longLong then n.bmod (2 ^ (8 * width.bytes)) else n % 2 ^ (8 * width.bytes)

/-! ## Places -/

theorem Width.byteMap_eq (width : Width) (order : ByteOrder) :
    byteMap width order = (List.range width.bytes).map (width.significance order) := by
  cases width <;> cases order <;> rfl

theorem Width.significance_lt {width : Width} (order : ByteOrder) {place : Nat}
    (h : place < width.bytes) : width.significance order place < width.bytes := by
  cases order <;> simp only [significance] <;> omega

theorem Width.significance_inj {width : Width} {order : ByteOrder} {i j : Nat}
    (hi : i < width.bytes) (hj : j < width.bytes)
    (h : width.significance order i = width.significance order j) : i = j := by
  cases order <;> simp only [significance] at h <;> omega

theorem getElem?_ordered (order : ByteOrder) {width : Width} {bytes : List UInt8}
    (h : bytes.length = width.bytes) {place : Nat} (hplace : place < width.bytes) :
    (ordered order bytes)[place]? = bytes[width.significance order place]? := by
  cases order with
  | bigEndian =>
      change bytes.reverse[place]? = bytes[width.bytes - 1 - place]?
      rw [List.getElem?_reverse (h ▸ hplace), h]
  | machine => rfl
  | littleEndian => rfl

/-! ## Words that are written -/

theorem toNat_emod_width (value : Int64) (width : Width) :
    (value.toInt % 2 ^ (8 * width.bytes)).toNat =
      value.toUInt64.toNat % Nat.pow 256 width.bytes := by
  have hvalue := toNat_toUInt64 value
  cases width <;>
    simp only [Width.bytes, Nat.pow_eq, Nat.reducePow, Nat.reduceMul, Int.reducePow] <;> omega

theorem getElem?_integerWord (value : Int64) {width : Width} (order : ByteOrder) {place : Nat}
    (h : place < width.bytes) :
    (integerWord value width order)[place]? =
      some (UInt8.ofNat ((value.toInt % 2 ^ (8 * width.bytes)).toNat /
        256 ^ width.significance order place)) := by
  rw [integerWord_eq, ← digits_mod, ← toNat_emod_width,
    getElem?_ordered order (length_digits _ _) h, getElem?_digits,
    if_pos (width.significance_lt order h), Nat.shiftRight_eq_div_pow, Nat.pow_mul]

theorem getElem?_writeInteger (value : Int64) (width : Width) (order : ByteOrder)
    (field : List UInt8) (place : Nat) :
    (writeInteger value width order field)[place]? =
      if place < min field.length width.bytes then
        some (UInt8.ofNat ((value.toInt % 2 ^ (8 * width.bytes)).toNat /
          256 ^ width.significance order place))
      else field[place]? := by
  have hlen : ((integerWord value width order).take field.length).length =
      min field.length width.bytes := by
    rw [List.length_take, length_integerWord]
  rw [writeInteger]
  split
  · rename_i hplace
    rw [List.getElem?_append_left (hlen ▸ hplace), List.getElem?_take_of_lt (by omega),
      getElem?_integerWord value order (by omega)]
  · rename_i hplace
    rw [List.getElem?_append_right (by omega), hlen, List.getElem?_drop]
    by_cases hfield : width.bytes ≤ field.length
    · congr 1
      omega
    · rw [List.getElem?_eq_none (by omega), List.getElem?_eq_none (by omega)]

/-! ## Words that are read -/

theorem ofDigits_set {bytes : List UInt8} {place : Nat} (h : bytes[place]? = some 0) (b : UInt8) :
    ofDigits (bytes.set place b) = ofDigits bytes + b.toNat * 256 ^ place := by
  induction bytes generalizing place with
  | nil => simp at h
  | cons a bytes ih =>
      cases place with
      | zero =>
          cases h
          simp [ofDigits, Nat.add_comm]
      | succ place =>
          rw [List.set_cons_succ, ofDigits, ofDigits, ih (by simpa using h)]
          ring

/-- Bytes that are stored where zeros stand add what they count at their places. -/
theorem ofDigits_foldl_set {source bytes : List UInt8} {count : Nat} {place : Nat → Nat}
    (hplace : ∀ i < count, ∀ j < count, place i = place j → i = j)
    (hzero : ∀ i < count, bytes[place i]? = some 0) :
    ofDigits ((source.zip ((List.range count).map place)).foldl
        (fun bytes entry => bytes.set entry.2 entry.1) bytes) =
      ofDigits bytes + ∑ i ∈ Finset.range count, (source.getD i 0).toNat * 256 ^ place i := by
  induction source generalizing count place bytes with
  | nil => simp
  | cons b source ih =>
      cases count with
      | zero => simp
      | succ count =>
          -- the places are distinct, so the first byte leaves the other zeros alone
          have hrest : ∀ i < count, (bytes.set (place 0) b)[place (i + 1)]? = some 0 := by
            intro i hi
            have hne : place 0 ≠ place (i + 1) := fun heq =>
              absurd (hplace 0 (by omega) (i + 1) (by omega) heq) (by omega)
            rw [List.getElem?_set_ne hne, hzero (i + 1) (by omega)]
          have hnext : ∀ i < count, ∀ j < count, place (i + 1) = place (j + 1) → i = j := by
            intro i hi j hj heq
            have := hplace (i + 1) (by omega) (j + 1) (by omega) heq
            omega
          rw [List.range_succ_eq_map, List.map_cons, List.map_map, List.zip_cons_cons,
            List.foldl_cons]
          refine (ih hnext hrest).trans ?_
          rw [ofDigits_set (hzero 0 (by omega)), Finset.sum_range_succ']
          simp only [List.getD_cons_succ, List.getD_cons_zero]
          ring

theorem ofDigits_placed (source : List UInt8) (width : Width) (order : ByteOrder) :
    ofDigits (placed source width order) = width.number order source := by
  have hzeros : ofDigits (List.replicate 8 0) = 0 := rfl
  have hbytes := width.bytes_le
  rw [placed, width.byteMap_eq, ofDigits_foldl_set (fun i hi j hj => Width.significance_inj hi hj),
    hzeros, Nat.zero_add, Width.number]
  intro place hplace
  have := width.significance_lt order hplace
  rw [List.getElem?_replicate, if_pos (by omega)]

theorem sum_bytes_lt (byte : Nat → UInt8) (count : Nat) :
    ∑ place ∈ Finset.range count, (byte place).toNat * 256 ^ place < 256 ^ count := by
  induction count with
  | zero => simp
  | succ count ih =>
      have hbyte := (byte count).toNat_lt
      calc ∑ place ∈ Finset.range (count + 1), (byte place).toNat * 256 ^ place
          < 256 ^ count + (byte count).toNat * 256 ^ count := by
            rw [Finset.sum_range_succ]
            exact Nat.add_lt_add_right ih _
        _ = ((byte count).toNat + 1) * 256 ^ count := by ring
        _ ≤ 256 * 256 ^ count := Nat.mul_le_mul_right _ hbyte
        _ = 256 ^ (count + 1) := by ring

theorem Width.number_lt (width : Width) (order : ByteOrder) (source : List UInt8) :
    width.number order source < 2 ^ (8 * width.bytes) := by
  rw [Nat.pow_mul]
  cases order with
  | bigEndian =>
      -- the same sum from its other end
      rw [number, ← Finset.sum_range_reflect]
      refine lt_of_eq_of_lt (Finset.sum_congr rfl fun place hplace => ?_)
        (sum_bytes_lt (fun place => source.getD (width.bytes - 1 - place) 0) width.bytes)
      have hlt := Finset.mem_range.1 hplace
      rw [significance]
      congr 2
      omega
  | machine => exact sum_bytes_lt (fun place => source.getD place 0) width.bytes
  | littleEndian => exact sum_bytes_lt (fun place => source.getD place 0) width.bytes

theorem toInt_readInteger (source : List UInt8) (width : Width) (order : ByteOrder)
    (signed : Bool) :
    (readInteger source width order signed).toInt =
      width.wrap signed (width.number order source) := by
  have hnumber := width.number_lt order source
  have hbytes := width.bytes_le
  have hpow : 2 ^ (8 * width.bytes) ≤ 2 ^ 64 := Nat.pow_le_pow_right (by decide) (by omega)
  have hword : width.number order source < 0x10000000000000000 := Nat.lt_of_lt_of_le hnumber hpow
  unfold readInteger Width.wrap
  rw [ofDigits_placed]
  generalize width.number order source = n at hnumber hword
  by_cases hs : (signed && decide (0 < 64 - 8 * width.bytes)) = true
  · rw [if_pos hs, toInt_shift_back, UInt64.toNat_ofNat_of_lt' hword]
    simp only [Bool.and_eq_true, decide_eq_true_eq] at hs
    rw [if_pos (.inl hs.1), Nat.cast_mul]
    cases width <;> simp [Width.bytes, Int.bmod] at hs ⊢ <;> omega
  · rw [if_neg hs, toInt_toInt64_ofNat hword]
    cases width <;> cases signed <;> simp [Width.bytes] at hs hnumber ⊢ <;>
      simp only [Int.bmod] <;> omega

theorem readInteger_append {word : List UInt8} {width : Width} (h : word.length = width.bytes)
    (rest : List UInt8) (order : ByteOrder) (signed : Bool) :
    readInteger (word ++ rest) width order signed = readInteger word width order signed := by
  have hzip : (word ++ rest).zip (byteMap width order) = word.zip (byteMap width order) := by
    rw [← List.append_nil (byteMap width order), List.zip_append (by rw [h, length_byteMap]),
      List.zip_nil_right, List.append_nil, List.append_nil]
  rw [readInteger, readInteger, placed, placed, hzip]

/-! ## There and back -/

theorem toInt_reduce (width : Width) (signed : Bool) (value : Int64) :
    (width.reduce signed value).toInt =
      width.wrap signed (value.toInt % 2 ^ (8 * width.bytes)) := by
  have hlow := value.le_toInt
  have hhigh := value.toInt_lt
  unfold Width.reduce Width.wrap
  rw [Int64.toInt_ofInt]
  cases width <;> cases signed <;> simp [Width.bytes, Int.bmod, Int64.size] at hlow hhigh ⊢ <;>
    omega

theorem readInteger_writeInteger (value : Int64) {width : Width} (order : ByteOrder)
    {field : List UInt8} (h : width.bytes ≤ field.length) (signed : Bool) :
    (readInteger (writeInteger value width order field) width order signed).toInt =
      width.wrap signed (value.toInt % 2 ^ (8 * width.bytes)) := by
  have hword := length_integerWord value width order
  rw [writeInteger, List.take_of_length_le (by omega), readInteger_append hword,
    readInteger_integerWord, toInt_reduce]

theorem writeInteger_readInteger {source : List UInt8} {width : Width}
    (h : width.bytes ≤ source.length) (order : ByteOrder) (signed : Bool) (field : List UInt8) :
    writeInteger (readInteger source width order signed) width order field =
      (source.take width.bytes).take field.length ++ field.drop width.bytes := by
  have hword : (source.take width.bytes).length = width.bytes := List.length_take_of_le h
  have hread : readInteger source width order signed =
      readInteger (source.take width.bytes) width order signed := by
    rw [← readInteger_append hword (source.drop width.bytes), List.take_append_drop]
  rw [writeInteger, hread, integerWord_readInteger hword]

/-- In every width and order: a value is written as the bytes of what is left of it in the word, each
at its place, as far as the field reaches, and what lies beyond stays; a source is read as the number
that stands at its front, reduced to the range of the word. So what was written reads back as the
value reduced to that range, and what was read from a whole word is written as that word. -/
theorem integer_words_positional (width : Width) (order : ByteOrder) :
    (∀ (value : Int64) (field : List UInt8) (place : Nat),
      (writeInteger value width order field)[place]? =
        if place < min field.length width.bytes then
          some (UInt8.ofNat ((value.toInt % 2 ^ (8 * width.bytes)).toNat /
            256 ^ width.significance order place))
        else field[place]?) ∧
    (∀ (source : List UInt8) (signed : Bool),
      (readInteger source width order signed).toInt =
        width.wrap signed (width.number order source)) ∧
    (∀ (value : Int64) (field : List UInt8) (signed : Bool), width.bytes ≤ field.length →
      (readInteger (writeInteger value width order field) width order signed).toInt =
        width.wrap signed (value.toInt % 2 ^ (8 * width.bytes))) ∧
    ∀ (source field : List UInt8) (signed : Bool), width.bytes ≤ source.length →
      writeInteger (readInteger source width order signed) width order field =
        (source.take width.bytes).take field.length ++ field.drop width.bytes := by
  refine ⟨fun value field place => getElem?_writeInteger value width order field place,
    fun source signed => toInt_readInteger source width order signed, ?_, ?_⟩
  · intro value field signed hfield
    exact readInteger_writeInteger value order hfield signed
  · intro source field signed hsource
    exact writeInteger_readInteger hsource order signed field

/-- A negative number in a field that is longer than its word, and three bytes of four. -/
theorem integer_words_positional_short :
    (writeInteger (-1000) .short .bigEndian [0xAA, 0xBB, 0xCC])[1]? = some 0x18 ∧
    (readInteger [0xFF, 0xFE, 0x01] .long .bigEndian true).toInt = -0x1FF00 ∧
    (readInteger (writeInteger (-1000) .short .bigEndian [0xAA, 0xBB, 0xCC]) .short .bigEndian
      false).toInt = 64536 ∧
    writeInteger (readInteger [0xFF, 0xFE, 0x01] .short .bigEndian true) .short .bigEndian [0xAA] =
      [0xFF] := by
  obtain ⟨hwrite, -, hback, hagain⟩ := integer_words_positional .short .bigEndian
  obtain ⟨-, hread, -, -⟩ := integer_words_positional .long .bigEndian
  exact ⟨(hwrite (-1000) [0xAA, 0xBB, 0xCC] 1).trans (by decide +kernel),
    (hread [0xFF, 0xFE, 0x01] true).trans (by decide +kernel),
    (hback (-1000) [0xAA, 0xBB, 0xCC] false (by decide)).trans (by decide +kernel),
    (hagain [0xFF, 0xFE, 0x01] [0xAA] true (by decide)).trans (by decide +kernel)⟩

end BytePack
