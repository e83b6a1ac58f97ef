import BytePack.Word.Float
import BytePack.Word.Integer
import Mathlib.Tactic.IntervalCases

/-!
# Words read back

A stored integer reads back as its value reduced to the width of the word, with its sign extended if
the word is signed. Swapping a word reverses its bytes, so swapping twice changes nothing, and a
stored pattern reads back bit for bit in every order.
-/

namespace BytePack

/-! ## Digits -/

theorem ofDigits_append_zeros (bs : List UInt8) (k : Nat) :
    ofDigits (bs ++ List.replicate k 0) = ofDigits bs := by
  induction bs with
  | nil =>
      induction k with
      | zero => rfl
      | succ k ih => simp_all [List.replicate_succ, ofDigits]
  | cons b bs ih => simp [ofDigits, ih]

theorem digits_add (v w n : Nat) :
    digits (v + w) n = digits v n ++ digits w (n / Nat.pow 256 v) := by
  induction v generalizing n with
  | zero => simp [digits]
  | succ v ih =>
      have hpow : Nat.pow 256 (v + 1) = 256 * Nat.pow 256 v := Nat.mul_comm (Nat.pow 256 v) 256
      rw [Nat.add_right_comm, digits, ih, digits, hpow, Nat.div_div_eq_div_mul]
      rfl

theorem getElem?_digits (w n k : Nat) :
    (digits w n)[k]? = if k < w then some (UInt8.ofNat (n >>> (8 * k))) else none := by
  induction w generalizing n k with
  | zero => simp [digits]
  | succ w ih =>
      cases k with
      | zero => simp [digits]
      | succ k =>
          have hshift : n >>> (8 * (k + 1)) = (n / 256) >>> (8 * k) := by
            rw [Nat.mul_succ, Nat.add_comm, Nat.shiftRight_add, Nat.shiftRight_eq_div_pow n 8]
          simp only [digits, List.getElem?_cons_succ, ih, hshift, Nat.add_lt_add_iff_right]

theorem digits_eq_reverse {w m n : Nat}
    (h : ∀ k < w, ∀ i < 8, m.testBit (8 * k + i) = n.testBit (8 * (w - 1 - k) + i)) :
    digits w m = (digits w n).reverse := by
  apply List.ext_getElem?
  intro k
  by_cases hk : k < w
  · rw [List.getElem?_reverse (by simpa using hk), getElem?_digits, getElem?_digits, if_pos hk,
      length_digits, if_pos (by omega)]
    congr 1
    apply UInt8.toBitVec_inj.1
    apply BitVec.eq_of_getLsbD_eq
    intro i hi
    have hbit (x : Nat) : (UInt8.ofNat x).toBitVec.getLsbD i = x.testBit i := by
      rw [UInt8.toBitVec_ofNat', BitVec.getLsbD_ofNat, decide_eq_true hi, Bool.true_and]
    rw [hbit, hbit, Nat.testBit_shiftRight, Nat.testBit_shiftRight]
    exact h k hk i hi
  · rw [List.getElem?_eq_none (by simpa using hk), List.getElem?_eq_none (by simpa using hk)]

theorem digits_mod (w n : Nat) : digits w (n % Nat.pow 256 w) = digits w n := by
  have := digits_ofDigits (digits w n)
  rwa [length_digits, ofDigits_digits] at this

theorem digits_inj {w m n : Nat} (hm : m < Nat.pow 256 w) (hn : n < Nat.pow 256 w)
    (h : digits w m = digits w n) : m = n := by
  have := congrArg ofDigits h
  rwa [ofDigits_digits, ofDigits_digits, Nat.mod_eq_of_lt hm, Nat.mod_eq_of_lt hn] at this

/-! ## Swapped words -/

theorem digits_swap16 (word : UInt16) :
    digits 2 (swap16 word).toNat = (digits 2 word.toNat).reverse := by
  apply digits_eq_reverse
  intro k hk i hi
  change (swap16 word).toBitVec.getLsbD _ = word.toBitVec.getLsbD _
  unfold swap16
  interval_cases k <;> interval_cases i <;> simp

theorem swap16_swap16 (word : UInt16) : swap16 (swap16 word) = word := by
  apply UInt16.toNat_inj.1
  apply digits_inj (w := 2) (UInt16.toNat_lt _) (UInt16.toNat_lt _)
  rw [digits_swap16, digits_swap16, List.reverse_reverse]

theorem digits_swap32 (word : UInt32) :
    digits 4 (swap32 word).toNat = (digits 4 word.toNat).reverse := by
  apply digits_eq_reverse
  intro k hk i hi
  change (swap32 word).toBitVec.getLsbD _ = word.toBitVec.getLsbD _
  unfold swap32
  interval_cases k <;> interval_cases i <;> simp

theorem swap32_swap32 (word : UInt32) : swap32 (swap32 word) = word := by
  apply UInt32.toNat_inj.1
  apply digits_inj (w := 4) (UInt32.toNat_lt _) (UInt32.toNat_lt _)
  rw [digits_swap32, digits_swap32, List.reverse_reverse]

theorem toNat_swap64 (word : UInt64) :
    (swap64 word).toNat =
      (swap32 word.toUInt32).toNat * 0x100000000 + (swap32 (word >>> 32).toUInt32).toNat := by
  have hlow := (swap32 (word >>> 32).toUInt32).toNat_lt
  have hhigh := (swap32 word.toUInt32).toNat_lt
  have hshift : ((swap32 word.toUInt32).toUInt64 <<< 32).toNat =
      (swap32 word.toUInt32).toNat <<< 32 := by
    rw [UInt64.toNat_shiftLeft, UInt32.toNat_toUInt64]
    simp only [Nat.shiftLeft_eq, UInt64.toNat_ofNat, Nat.reducePow, Nat.reduceMod]
    omega
  unfold swap64
  rw [UInt64.toNat_or, hshift, UInt32.toNat_toUInt64, ← Nat.shiftLeft_add_eq_or_of_lt hlow,
    Nat.shiftLeft_eq]

theorem digits_swap64 (word : UInt64) :
    digits 8 (swap64 word).toNat = (digits 8 word.toNat).reverse := by
  have hlow := (swap32 (word >>> 32).toUInt32).toNat_lt
  have hmod : digits 4 word.toUInt32.toNat = digits 4 word.toNat := digits_mod 4 word.toNat
  have hdiv : digits 4 (word >>> 32).toUInt32.toNat = digits 4 (word.toNat / Nat.pow 256 4) := by
    rw [← digits_mod 4 (word.toNat / Nat.pow 256 4), UInt64.toNat_toUInt32, UInt64.toNat_shiftRight,
      Nat.shiftRight_eq_div_pow]
    rfl
  have hfirst : digits 4 (swap64 word).toNat = digits 4 (swap32 (word >>> 32).toUInt32).toNat := by
    rw [toNat_swap64, ← digits_mod]
    congr 1
    simp only [Nat.pow_eq, Nat.reducePow]
    omega
  have hsecond : (swap64 word).toNat / Nat.pow 256 4 = (swap32 word.toUInt32).toNat := by
    rw [toNat_swap64]
    simp only [Nat.pow_eq, Nat.reducePow]
    omega
  calc digits (4 + 4) (swap64 word).toNat
      = digits 4 (swap32 (word >>> 32).toUInt32).toNat ++
          digits 4 (swap32 word.toUInt32).toNat := by
        rw [digits_add, hfirst, hsecond]
    _ = (digits 4 (word.toNat / Nat.pow 256 4)).reverse ++ (digits 4 word.toNat).reverse := by
        rw [digits_swap32, digits_swap32, hmod, hdiv]
    _ = (digits (4 + 4) word.toNat).reverse := by rw [digits_add, List.reverse_append]

theorem swap64_swap64 (word : UInt64) : swap64 (swap64 word) = word := by
  apply UInt64.toNat_inj.1
  apply digits_inj (w := 8) (UInt64.toNat_lt _) (UInt64.toNat_lt _)
  rw [digits_swap64, digits_swap64, List.reverse_reverse]

/-! ## Patterns -/

theorem Single.ofBytes_toBytes (x : Single) (order : ByteOrder) :
    Single.ofBytes (x.toBytes order) order = x := by
  have hread (word : UInt32) : UInt32.ofNat (ofDigits ((digits 4 word.toNat).take 4)) = word := by
    rw [List.take_of_length_le (by simp), ofDigits_digits, Nat.mod_eq_of_lt (UInt32.toNat_lt word)]
    exact UInt32.ofNat_toNat
  unfold Single.ofBytes Single.toBytes
  cases order.needsSwap with
  | false => simp only [hread, Bool.false_eq_true, if_false]
  | true => simp only [hread, if_true, swap32_swap32]

theorem Double.ofBytes_toBytes (x : Double) (order : ByteOrder) :
    Double.ofBytes (x.toBytes order) order = x := by
  have hread (word : UInt64) : UInt64.ofNat (ofDigits ((digits 8 word.toNat).take 8)) = word := by
    rw [List.take_of_length_le (by simp), ofDigits_digits, Nat.mod_eq_of_lt (UInt64.toNat_lt word)]
    exact UInt64.ofNat_toNat
  unfold Double.ofBytes Double.toBytes
  cases order.needsSwap with
  | false => simp only [hread, Bool.false_eq_true, if_false]
  | true => simp only [hread, if_true, swap64_swap64]

/-! ## Integers -/

/-- A value reduced to the range of a word: from 0 on, or around 0 if the word is signed. A word of
64 bits holds every value as it is. -/
def Width.reduce (width : Width) (signed : Bool) (value : Int64) : Int64 :=
  .ofInt (if signed then value.toInt.bmod (Nat.pow 256 width.bytes)
    else value.toInt % Nat.pow 256 width.bytes)

theorem placed_integerWord (value : Int64) (width : Width) (order : ByteOrder) :
    placed (integerWord value width order) width order =
      digits width.bytes value.toUInt64.toNat ++ List.replicate (8 - width.bytes) 0 := by
  cases width <;> cases order <;> rfl

theorem toNat_toUInt64 (value : Int64) :
    (value.toUInt64.toNat : Int) = value.toInt % 0x10000000000000000 := by
  have hlt := value.toUInt64.toNat_lt
  have hbmod : value.toInt = (value.toUInt64.toNat : Int).bmod 0x10000000000000000 :=
    BitVec.toInt_eq_toNat_bmod value.toBitVec
  simp only [Int.bmod] at hbmod
  omega

/-- A word moved to the top of the register and back has its sign extended. -/
theorem toInt_shift_back (width : Width) (raw : UInt64) :
    ((raw <<< UInt64.ofNat (64 - 8 * width.bytes)).toInt64 >>>
        Int64.ofNat (64 - 8 * width.bytes)).toInt =
      ((raw.toNat * Nat.pow 2 (64 - 8 * width.bytes) : Nat) : Int).bmod 0x10000000000000000 /
        (Nat.pow 2 (64 - 8 * width.bytes) : Nat) := by
  have hright : ((Int64.ofNat (64 - 8 * width.bytes)).toBitVec.smod 64).toNat =
      64 - 8 * width.bytes := by
    cases width <;> rfl
  have hleft : (raw <<< UInt64.ofNat (64 - 8 * width.bytes)).toBitVec =
      raw.toBitVec <<< (64 - 8 * width.bytes) := by
    cases width <;> rfl
  rw [← Int64.toInt_toBitVec, Int64.toBitVec_shiftRight, BitVec.toInt_sshiftRight', hright,
    UInt64.toBitVec_toInt64, hleft, BitVec.toInt_shiftLeft]
  simp [Int.shiftRight_eq_div_pow, Nat.shiftLeft_eq]

theorem toInt_toInt64_ofNat {n : Nat} (h : n < 0x10000000000000000) :
    (UInt64.ofNat n).toInt64.toInt = (n : Int).bmod 0x10000000000000000 := by
  rw [← Int64.toInt_toBitVec, UInt64.toBitVec_toInt64, BitVec.toInt_eq_toNat_bmod,
    UInt64.toNat_toBitVec, UInt64.toNat_ofNat_of_lt' h]

theorem toInt_toInt64 (u : UInt64) : u.toInt64.toInt = (u.toNat : Int).bmod UInt64.size := by
  have h := toInt_toInt64_ofNat u.toNat_lt
  rwa [UInt64.ofNat_toNat] at h

theorem readInteger_integerWord (value : Int64) (width : Width) (order : ByteOrder)
    (signed : Bool) :
    readInteger (integerWord value width order) width order signed =
      width.reduce signed value := by
  have hvalue := toNat_toUInt64 value
  have hlt := value.toUInt64.toNat_lt
  unfold readInteger Width.reduce
  rw [placed_integerWord, ofDigits_append_zeros, ofDigits_digits]
  generalize value.toUInt64.toNat = n at hvalue hlt
  have hword : n % Nat.pow 256 width.bytes < 0x10000000000000000 :=
    Nat.lt_of_le_of_lt (Nat.mod_le _ _) hlt
  have hreduced : ((n % Nat.pow 256 width.bytes : Nat) : Int) =
      value.toInt % Nat.pow 256 width.bytes := by
    cases width <;> simp only [Width.bytes, Nat.pow_eq, Nat.reducePow] <;> omega
  apply Int64.toInt_inj.1
  rw [Int64.toInt_ofInt]
  by_cases hs : (signed && decide (0 < 64 - 8 * width.bytes)) = true
  · rw [if_pos hs, toInt_shift_back, UInt64.toNat_ofNat_of_lt' hword]
    simp only [Bool.and_eq_true, decide_eq_true_eq] at hs
    rw [if_pos hs.1, Nat.cast_mul, hreduced]
    cases width <;> simp [Width.bytes, Int.bmod, Int64.size] at hs ⊢ <;> omega
  · rw [if_neg hs, toInt_toInt64_ofNat hword, hreduced]
    cases signed with
    | false => rfl
    | true =>
        have hlow := value.le_toInt
        have hhigh := value.toInt_lt
        cases width <;> simp [Width.bytes, Int.bmod, Int64.size] at hs ⊢
        omega

/-! ## Words stored again -/

theorem Single.toBytes_ofBytes {word : List UInt8} (h : word.length = 4) (order : ByteOrder) :
    (Single.ofBytes word order).toBytes order = word := by
  have hstore : digits 4 (UInt32.ofNat (ofDigits (word.take 4))).toNat = word := by
    have hlt := ofDigits_lt word
    rw [h] at hlt
    rw [List.take_of_length_le (Nat.le_of_eq h), UInt32.toNat_ofNat_of_lt' hlt, ← h,
      digits_ofDigits]
  unfold Single.ofBytes Single.toBytes
  cases order.needsSwap with
  | false => simpa only [Bool.false_eq_true, if_false] using hstore
  | true => simpa only [if_true, swap32_swap32] using hstore

theorem Double.toBytes_ofBytes {word : List UInt8} (h : word.length = 8) (order : ByteOrder) :
    (Double.ofBytes word order).toBytes order = word := by
  have hstore : digits 8 (UInt64.ofNat (ofDigits (word.take 8))).toNat = word := by
    have hlt := ofDigits_lt word
    rw [h] at hlt
    rw [List.take_of_length_le (Nat.le_of_eq h), UInt64.toNat_ofNat_of_lt' hlt, ← h,
      digits_ofDigits]
  unfold Double.ofBytes Double.toBytes
  cases order.needsSwap with
  | false => simpa only [Bool.false_eq_true, if_false] using hstore
  | true => simpa only [if_true, swap64_swap64] using hstore

/-- A word in either order, from the digits of its value. -/
def ordered (order : ByteOrder) (bytes : List UInt8) : List UInt8 :=
  if order.isBigEndian then bytes.reverse else bytes

theorem ordered_ordered (order : ByteOrder) (bytes : List UInt8) :
    ordered order (ordered order bytes) = bytes := by
  unfold ordered
  split
  · exact List.reverse_reverse bytes
  · rfl

theorem length_ordered (order : ByteOrder) (bytes : List UInt8) :
    (ordered order bytes).length = bytes.length := by
  unfold ordered
  split
  · exact List.length_reverse
  · rfl

theorem Single.toBytes_eq (x : Single) (order : ByteOrder) :
    x.toBytes order = ordered order (digits 4 x.bits.toNat) := by
  rw [Single.toBytes, ordered, ByteOrder.needsSwap_eq_isBigEndian]
  cases order.isBigEndian with
  | true => exact digits_swap32 x.bits
  | false => rfl

theorem Double.toBytes_eq (x : Double) (order : ByteOrder) :
    x.toBytes order = ordered order (digits 8 x.bits.toNat) := by
  rw [Double.toBytes, ordered, ByteOrder.needsSwap_eq_isBigEndian]
  cases order.isBigEndian with
  | true => exact digits_swap64 x.bits
  | false => rfl

theorem integerWord_eq (value : Int64) (width : Width) (order : ByteOrder) :
    integerWord value width order = ordered order (digits width.bytes value.toUInt64.toNat) := by
  cases width <;> cases order <;> rfl

/-- Only the digits that a word keeps matter to it. -/
theorem integerWord_congr {v v' : Int64} {width : Width} (order : ByteOrder)
    (h : v.toInt % Nat.pow 256 width.bytes = v'.toInt % Nat.pow 256 width.bytes) :
    integerWord v width order = integerWord v' width order := by
  have hdigits : v.toUInt64.toNat % Nat.pow 256 width.bytes =
      v'.toUInt64.toNat % Nat.pow 256 width.bytes := by
    have hv := toNat_toUInt64 v
    have hv' := toNat_toUInt64 v'
    cases width <;> simp only [Width.bytes, Nat.pow_eq, Nat.reducePow] at h ⊢ <;> omega
  rw [integerWord_eq, integerWord_eq, ← digits_mod, hdigits, digits_mod]

theorem toInt_reduce_mod (value : Int64) (width : Width) (signed : Bool) :
    (width.reduce signed value).toInt % Nat.pow 256 width.bytes =
      value.toInt % Nat.pow 256 width.bytes := by
  unfold Width.reduce
  rw [Int64.toInt_ofInt]
  cases width <;> cases signed <;> simp [Width.bytes, Int.bmod, Int64.size] <;> omega

/-- An integer that was read from a word is stored as that word. -/
theorem integerWord_readInteger {word : List UInt8} {width : Width} (h : word.length = width.bytes)
    (order : ByteOrder) (signed : Bool) :
    integerWord (readInteger word width order signed) width order = word := by
  have hordered : (ordered order word).length = width.bytes := by rw [length_ordered, h]
  have hlt : ofDigits (ordered order word) < 0x10000000000000000 := by
    have hword := ofDigits_lt (ordered order word)
    rw [hordered] at hword
    exact Nat.lt_of_lt_of_le hword (Nat.pow_le_pow_right (by decide) width.bytes_le)
  obtain ⟨value, hvalue⟩ : ∃ value : Int64, integerWord value width order = word := by
    refine ⟨(UInt64.ofNat (ofDigits (ordered order word))).toInt64, ?_⟩
    have hbits : (UInt64.ofNat (ofDigits (ordered order word))).toInt64.toUInt64 =
        UInt64.ofNat (ofDigits (ordered order word)) := rfl
    rw [integerWord_eq, hbits, UInt64.toNat_ofNat_of_lt' hlt, ← hordered, digits_ofDigits,
      ordered_ordered]
  rw [← hvalue, readInteger_integerWord]
  exact integerWord_congr order (toInt_reduce_mod value width signed)

end BytePack
