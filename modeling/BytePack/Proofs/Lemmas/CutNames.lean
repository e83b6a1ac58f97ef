import BytePack.Proofs.Lemmas.Printing

/-!
# Names cut to a limit

The limit of a name counts bytes, and the name is text. The characters that fit below the limit as a
whole are kept as they are. If the cut falls into the next one, what is left of its bytes is the
beginning of a character and nothing else, so one U+FFFD stands for it.
-/

namespace BytePack

/-! ## Whole characters -/

/-- The characters at the front of a text that fit into `limit` bytes as a whole. -/
def wholeCharacters : Nat → List Char → List Char
  | _, [] => []
  | limit, c :: cs =>
    if c.utf8Size ≤ limit then c :: wholeCharacters (limit - c.utf8Size) cs else []

/-- Whether a cut after `limit` bytes of a text falls between two of its characters, or behind it. -/
def CutsBetween (limit : Nat) (written : List Char) : Prop :=
  Utf8.size (wholeCharacters limit written) = min limit (Utf8.size written)

instance (limit : Nat) (written : List Char) : Decidable (CutsBetween limit written) :=
  inferInstanceAs (Decidable (_ = _))

/-- The characters of a name that is cut to `limit` bytes. -/
def keptName (limit : Nat) (written : List Char) : List Char :=
  if CutsBetween limit written then wholeCharacters limit written
  else wholeCharacters limit written ++ ['\uFFFD']

theorem wholeCharacters_prefix (limit : Nat) (cs : List Char) :
    wholeCharacters limit cs <+: cs := by
  induction cs generalizing limit with
  | nil => exact List.nil_prefix
  | cons c cs ih =>
      rw [wholeCharacters]
      split
      · exact List.cons_prefix_cons.2 ⟨rfl, ih _⟩
      · exact List.nil_prefix

theorem size_wholeCharacters_le (limit : Nat) (cs : List Char) :
    Utf8.size (wholeCharacters limit cs) ≤ limit := by
  induction cs generalizing limit with
  | nil => exact Nat.zero_le _
  | cons c cs ih =>
      rw [wholeCharacters]
      split
      · have := ih (limit - c.utf8Size)
        rw [Utf8.size]
        omega
      · exact Nat.zero_le _

theorem cutsBetween_cons_of_le {limit : Nat} {c : Char} (h : c.utf8Size ≤ limit) (cs : List Char) :
    CutsBetween limit (c :: cs) ↔ CutsBetween (limit - c.utf8Size) cs := by
  rw [CutsBetween, CutsBetween, wholeCharacters, if_pos h, Utf8.size, Utf8.size]
  omega

theorem cutsBetween_cons_of_lt {limit : Nat} {c : Char} (h : limit < c.utf8Size) (cs : List Char) :
    CutsBetween limit (c :: cs) ↔ limit = 0 := by
  have := c.utf8Size_pos
  rw [CutsBetween, wholeCharacters, if_neg (Nat.not_le.2 h), Utf8.size, Utf8.size]
  omega

/-- A cut that does not fall between two characters falls into one, which starts below the limit and
ends past it. -/
theorem exists_cut_character {limit : Nat} {written : List Char} (h : ¬ CutsBetween limit written) :
    ∃ c cs, written = wholeCharacters limit written ++ c :: cs ∧
      Utf8.size (wholeCharacters limit written) < limit ∧
      limit < Utf8.size (wholeCharacters limit written) + c.utf8Size := by
  induction written generalizing limit with
  | nil => exact absurd (Nat.min_zero limit).symm h
  | cons c cs ih =>
      by_cases hc : c.utf8Size ≤ limit
      · rw [cutsBetween_cons_of_le hc] at h
        obtain ⟨d, ds, hsplit, hstart, hend⟩ := ih h
        rw [wholeCharacters, if_pos hc, Utf8.size]
        exact ⟨d, ds, congrArg (c :: ·) hsplit, by omega, by omega⟩
      · rw [cutsBetween_cons_of_lt (Nat.not_le.1 hc)] at h
        rw [wholeCharacters, if_neg hc]
        exact ⟨c, cs, rfl, Nat.pos_of_ne_zero h, by rw [Utf8.size]; omega⟩

/-! ## Characters cut in two -/

/-- No character stands at the front of some bytes that are the beginning of another one. -/
theorem Utf8.front?_take {c : Char} {k : Nat} (hk : k < c.utf8Size) :
    Utf8.front? ((String.utf8EncodeChar c).take k) = none := by
  have hfour := c.utf8Size_le_four
  rw [Utf8.front?, List.take_take, Nat.min_eq_right (by omega)]
  refine Option.eq_none_iff_forall_ne_some.2 fun d hd => ?_
  -- a character there would still be there with the missing bytes behind it, so it would be `c`
  have hwhole := ByteArray.utf8DecodeChar?_append_eq_some hd
    ((String.utf8EncodeChar c).drop k).toByteArray
  rw [← List.toByteArray_append, List.take_append_drop] at hwhole
  have hc : (String.utf8EncodeChar c).toByteArray.utf8DecodeChar? 0 = some c := by
    simpa using ByteArray.utf8DecodeChar?_utf8EncodeChar_append (b := ByteArray.empty) (c := c)
  obtain rfl : c = d := Option.some.inj (hc.symm.trans hwhole)
  have hsize := ByteArray.le_size_of_utf8DecodeChar?_eq_some hd
  rw [List.size_toByteArray, List.length_take, String.length_utf8EncodeChar] at hsize
  omega

/-- The second byte of a character of three bytes may follow the first one. -/
theorem Utf8.mayFollow_of_three {v : Nat} (h : 0x7FF < v) (hv : v < 0xD800 ∨ 0xDFFF < v)
    (hle : v ≤ 0xFFFF) :
    Utf8.mayFollow (.ofNat (v / 4096 % 16 + 224)) (.ofNat (v / 64 % 64 + 128)) = true := by
  simp only [Utf8.mayFollow, ← UInt8.toNat_inj, UInt8.le_iff_toNat_le, UInt8.toNat_ofNat',
    UInt8.toNat_ofNat, Nat.reducePow]
  split_ifs <;> simp only [Bool.and_eq_true, decide_eq_true_eq] <;> omega

theorem Utf8.mayFollow_of_four {v : Nat} (h : 0xFFFF < v) (hv : v < 0x110000) :
    Utf8.mayFollow (.ofNat (v / 262144 % 8 + 240)) (.ofNat (v / 4096 % 64 + 128)) = true := by
  simp only [Utf8.mayFollow, ← UInt8.toNat_inj, UInt8.le_iff_toNat_le, UInt8.toNat_ofNat',
    UInt8.toNat_ofNat, Nat.reducePow]
  split_ifs <;> simp only [Bool.and_eq_true, decide_eq_true_eq] <;> omega

theorem byte_between (low n high : Nat) (hlow : low ≤ n) (hhigh : n ≤ high) (h : high < 256) :
    UInt8.ofNat low ≤ UInt8.ofNat n ∧ UInt8.ofNat n ≤ UInt8.ofNat high := by
  simp only [UInt8.le_iff_toNat_le, UInt8.toNat_ofNat', Nat.reducePow]
  omega

theorem Utf8.brokenTail_second {first second : UInt8} (hfirst : 0xE0 ≤ first ∧ first ≤ 0xF4)
    (h : Utf8.mayFollow first second = true) : Utf8.brokenTail first [second] = 1 := by
  simp [Utf8.brokenTail, UInt8.not_lt.2 hfirst.1, UInt8.not_lt.2 hfirst.2, h]

theorem Utf8.brokenTail_third {first second third : UInt8} (hfirst : 0xF0 ≤ first ∧ first ≤ 0xF4)
    (h : Utf8.mayFollow first second = true) (hthird : 0x80 ≤ third ∧ third ≤ 0xBF) :
    Utf8.brokenTail first [second, third] = 2 := by
  have hlow : 0xE0 ≤ first := UInt8.le_trans (by decide) hfirst.1
  simp [Utf8.brokenTail, UInt8.not_lt.2 hlow, UInt8.not_lt.2 hfirst.1, UInt8.not_lt.2 hfirst.2, h,
    hthird]

/-- What is left of a character that was cut is one broken sequence. -/
theorem Utf8.length_le_brokenTail {c : Char} {k : Nat} (hk : k < c.utf8Size) {b : UInt8}
    {rest : List UInt8} (h : (String.utf8EncodeChar c).take k = b :: rest) :
    rest.length ≤ Utf8.brokenTail b rest := by
  have hvalid : c.val.toNat < 0xD800 ∨ 0xDFFF < c.val.toNat ∧ c.val.toNat < 0x110000 := c.valid
  rw [← String.length_utf8EncodeChar] at hk
  unfold String.utf8EncodeChar at h hk
  simp only at h hk
  generalize c.val.toNat = v at *
  -- one case for each length of a character, and in it one for each place of the cut
  split_ifs at h hk with hone htwo hthree
  · obtain rfl : k = 0 := by simpa using hk
    cases h
  · obtain rfl | rfl : k = 0 ∨ k = 1 := by simp at hk; omega
    · cases h
    · cases h
      exact Nat.zero_le _
  · have hfirst := byte_between 0xE0 (v / 4096 % 16 + 224) 0xEF
      (by omega) (by omega) (by decide)
    have hmay := Utf8.mayFollow_of_three (by omega) (by omega) hthree
    obtain rfl | rfl | rfl : k = 0 ∨ k = 1 ∨ k = 2 := by simp at hk; omega
    · cases h
    · cases h
      exact Nat.zero_le _
    · cases h
      have htail := Utf8.brokenTail_second ⟨hfirst.1, UInt8.le_trans hfirst.2 (by decide)⟩ hmay
      exact Nat.le_of_eq htail.symm
  · have hfirst := byte_between 0xF0 (v / 262144 % 8 + 240) 0xF4
      (by omega) (by omega) (by decide)
    have hmay := @Utf8.mayFollow_of_four v (by omega) (by omega)
    have hthird := byte_between 0x80 (v / 64 % 64 + 128) 0xBF
      (by omega) (by omega) (by decide)
    obtain rfl | rfl | rfl | rfl : k = 0 ∨ k = 1 ∨ k = 2 ∨ k = 3 := by simp at hk; omega
    · cases h
    · cases h
      exact Nat.zero_le _
    · cases h
      have htail := Utf8.brokenTail_second ⟨UInt8.le_trans (by decide) hfirst.1, hfirst.2⟩ hmay
      exact Nat.le_of_eq htail.symm
    · cases h
      exact Nat.le_of_eq (Utf8.brokenTail_third hfirst hmay hthird).symm

theorem Utf8.decodeLossy_take {c : Char} {k : Nat} (hk : k < c.utf8Size) :
    Utf8.decodeLossy ((String.utf8EncodeChar c).take k) = if k = 0 then [] else ['\uFFFD'] := by
  cases hbytes : (String.utf8EncodeChar c).take k with
  | nil =>
      have hlen := congrArg List.length hbytes
      rw [List.length_take, String.length_utf8EncodeChar, List.length_nil] at hlen
      rw [if_pos (by omega), Utf8.decodeLossy]
  | cons b rest =>
      have hnone := Utf8.front?_take hk
      rw [hbytes] at hnone
      have hpos : k ≠ 0 := by
        rintro rfl
        cases hbytes
      rw [if_neg hpos]
      simp only [Utf8.decodeLossy, hnone,
        List.drop_eq_nil_of_le (Utf8.length_le_brokenTail hk hbytes)]

theorem toList_cutName (limit : Nat) (written : List Char) :
    (cutName limit written).toList = keptName limit written := by
  rw [cutName, String.toList_ofList]
  induction written generalizing limit with
  | nil =>
      have hcut : CutsBetween limit [] := (Nat.min_zero limit).symm
      rw [keptName, if_pos hcut, Utf8.encode, List.flatMap_nil, List.take_nil, Utf8.decodeLossy,
        wholeCharacters]
  | cons c cs ih =>
      rw [Utf8.encode, List.flatMap_cons, List.take_append, String.length_utf8EncodeChar]
      by_cases hc : c.utf8Size ≤ limit
      · have hwhole : keptName limit (c :: cs) = c :: keptName (limit - c.utf8Size) cs := by
          simp only [keptName, cutsBetween_cons_of_le hc, wholeCharacters, if_pos hc]
          split <;> rfl
        rw [List.take_of_length_le (by simpa using hc), Utf8.decodeLossy_append, hwhole]
        exact congrArg (c :: ·) (ih _)
      · have hlt := Nat.not_le.1 hc
        rw [Nat.sub_eq_zero_of_le (Nat.le_of_lt hlt), List.take_zero, List.append_nil,
          Utf8.decodeLossy_take hlt]
        simp only [keptName, cutsBetween_cons_of_lt hlt, wholeCharacters, if_neg hc, List.nil_append]

end BytePack
