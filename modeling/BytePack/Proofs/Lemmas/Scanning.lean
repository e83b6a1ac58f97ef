import BytePack.Plan.Position
import BytePack.Proofs.Lemmas.Printing

/-!
# Scanning bytes

A format can be scanned byte by byte. Then a count is checked to be a 64-bit number at every digit,
and a byte that is no code is shown as the character that starts there; nothing is left of a scan
that finds no character at that byte. On the bytes of a text the scan finds what reading the
characters finds, so it only ever stops at the start of a character.
-/

namespace BytePack

/-! ## The scan -/

/-- Whether a byte is an ASCII digit. -/
def isDigitByte (b : UInt8) : Bool := 0x30 ≤ b && b ≤ 0x39

/-- Continues a count with the digits at the front of some bytes, as long as it is a 64-bit number,
and gives the bytes after them. -/
def scanCount (count : Nat) : List UInt8 → Option (Nat × List UInt8)
  | [] => some (count, [])
  | b :: bs =>
    if isDigitByte b then do
      let tens ← size? (count * 10)
      let next ← size? (tens + (b - 0x30).toNat)
      scanCount next bs
    else some (count, b :: bs)

/-- The repeat at the front of some bytes, and the bytes after it. -/
def scanRepeat : List UInt8 → Option (Repeat × List UInt8)
  | [] => some (.count 1, [])
  | b :: bs =>
    if b = 0x2A then some (.greedy, bs)
    else if isDigitByte b then
      (scanCount 0 (b :: bs)).map fun found => (.count found.1, found.2)
    else some (.count 1, b :: bs)

theorem length_scanCount {bytes rest : List UInt8} {count n : Nat}
    (h : scanCount count bytes = some (n, rest)) : rest.length ≤ bytes.length := by
  induction bytes generalizing count with
  | nil =>
      cases h
      exact Nat.le_refl 0
  | cons b bs ih =>
      rw [scanCount] at h
      split at h
      · simp only [Option.bind_eq_bind, Option.bind_eq_some_iff] at h
        obtain ⟨_, _, _, _, h⟩ := h
        exact Nat.le_succ_of_le (ih h)
      · cases h
        exact Nat.le_refl _

theorem length_scanRepeat {bytes rest : List UInt8} {r : Repeat}
    (h : scanRepeat bytes = some (r, rest)) : rest.length ≤ bytes.length := by
  cases bytes with
  | nil =>
      cases h
      exact Nat.le_refl 0
  | cons b bs =>
      rw [scanRepeat] at h
      split at h
      · cases h
        exact Nat.le_succ _
      · split at h
        · obtain ⟨⟨n, rest'⟩, hcount, hfound⟩ := Option.map_eq_some_iff.1 h
          cases hfound
          exact length_scanCount hcount
        · cases h
          exact Nat.le_refl _

/-- The directives of the bytes of a format, from a position on. -/
def scanDirectives (position : Nat) : List UInt8 → Option (Except Error (List Directive))
  | [] => some (.ok [])
  | b :: bs =>
    match Code.ofChar? (Char.ofUInt8 b) with
    | none => do
      let c ← Utf8.front? (b :: bs)
      some (.error (.format c position .unknownCode))
    | some code =>
      match h : scanRepeat bs with
      | none => some (.error (.format code.symbol position .repeatTooLarge))
      | some (r, rest) =>
        have : rest.length ≤ bs.length := length_scanRepeat h
        (scanDirectives (position + 1 + (bs.length - rest.length)) rest).map fun found =>
          found.map (⟨code, r, position⟩ :: ·)
termination_by bytes => bytes.length

/-- The directive at the front of the bytes from a position on, and the bytes after it. -/
def scanDirective (position : Nat) : List UInt8 → Option (Except Error (Directive × List UInt8))
  | [] => none
  | b :: bs =>
    match Code.ofChar? (Char.ofUInt8 b) with
    | none => do
      let c ← Utf8.front? (b :: bs)
      some (.error (.format c position .unknownCode))
    | some code =>
      match scanRepeat bs with
      | none => some (.error (.format code.symbol position .repeatTooLarge))
      | some (r, rest) => some (.ok (⟨code, r, position⟩, rest))

theorem scanDirectives_of_error {position : Nat} {bytes : List UInt8} {e : Error}
    (h : scanDirective position bytes = some (.error e)) :
    scanDirectives position bytes = some (.error e) := by
  cases bytes with
  | nil => cases h
  | cons b bs =>
      rw [scanDirective] at h
      rw [scanDirectives]
      cases hcode : Code.ofChar? (Char.ofUInt8 b) with
      | none => cases hfront : Utf8.front? (b :: bs) <;> simp_all
      | some code =>
          rw [hcode] at h
          simp only at h ⊢
          split
          · rename_i hr
            simpa [hr] using h
          · rename_i hr
            simp [hr] at h

theorem scanDirectives_of_ok {position : Nat} {b : UInt8} {bs rest : List UInt8} {d : Directive}
    (h : scanDirective position (b :: bs) = some (.ok (d, rest))) :
    scanDirectives position (b :: bs) =
      (scanDirectives (position + 1 + (bs.length - rest.length)) rest).map fun found =>
        found.map (d :: ·) := by
  rw [scanDirective] at h
  rw [scanDirectives]
  cases hcode : Code.ofChar? (Char.ofUInt8 b) with
  | none => cases hfront : Utf8.front? (b :: bs) <;> simp [hcode, hfront] at h
  | some code =>
      rw [hcode] at h
      simp only at h ⊢
      split
      · rename_i hr
        simp [hr] at h
      · rename_i r rest' hr
        simp only [hr, Option.some.injEq, Except.ok.injEq, Prod.mk.injEq] at h
        obtain ⟨rfl, rfl⟩ := h
        rfl

/-! ## Bytes of characters -/

theorem Utf8.encode_cons_ascii {c : Char} (h : c.utf8Size = 1) (cs : List Char) :
    Utf8.encode (c :: cs) = c.val.toUInt8 :: Utf8.encode cs := by
  rw [Utf8.encode, List.flatMap_cons, String.utf8EncodeChar_eq_singleton h]
  rfl

theorem not_le_of_wide {c : Char} (h : c.utf8Size ≠ 1) : ¬ c.val.toNat ≤ 127 := fun hle =>
  h (Char.utf8Size_eq_one_iff.2 (UInt32.le_iff_toNat_le.2 hle))

/-- A character that is not ASCII starts with a byte that no ASCII character has. -/
theorem Utf8.encode_cons_wide {c : Char} (h : c.utf8Size ≠ 1) (cs : List Char) :
    ∃ b bs, Utf8.encode (c :: cs) = b :: bs ∧ 0x80 ≤ b.toNat := by
  have hwide := not_le_of_wide h
  simp only [Utf8.encode, List.flatMap_cons, String.utf8EncodeChar, hwide, if_false]
  split
  · exact ⟨_, _, rfl, by simp; omega⟩
  · split
    · exact ⟨_, _, rfl, by simp; omega⟩
    · exact ⟨_, _, rfl, by simp; omega⟩

theorem toNat_byte_of_ascii {c : Char} (h : c.utf8Size = 1) : c.val.toUInt8.toNat = c.toNat := by
  have hle := UInt32.le_iff_toNat_le.1 (Char.utf8Size_eq_one_iff.1 h)
  have hmod : c.val.toUInt8.toNat = c.val.toNat % 256 := UInt32.toNat_toUInt8 _
  rw [hmod, Nat.mod_eq_of_lt (Nat.lt_of_le_of_lt hle (by decide))]
  rfl

theorem toNat_val_ofUInt8 (b : UInt8) : (Char.ofUInt8 b).val.toNat = b.toNat :=
  UInt8.toNat_toUInt32 b

theorem ofUInt8_of_ascii {c : Char} (h : c.utf8Size = 1) : Char.ofUInt8 c.val.toUInt8 = c := by
  apply Char.ext
  apply UInt32.toNat_inj.1
  exact (toNat_val_ofUInt8 _).trans (toNat_byte_of_ascii h)

theorem ofChar?_ofUInt8_of_wide {b : UInt8} (h : 0x80 ≤ b.toNat) :
    Code.ofChar? (Char.ofUInt8 b) = none := by
  cases hc : Code.ofChar? (Char.ofUInt8 b) with
  | none => rfl
  | some code =>
      have hsize := Code.utf8Size_symbol (Code.mem_of_ofChar? hc)
      rw [Code.symbol_of_ofChar? hc, Char.utf8Size_eq_one_iff, UInt32.le_iff_toNat_le,
        toNat_val_ofUInt8] at hsize
      have hle : b.toNat ≤ 127 := hsize
      omega

/-- Whether a byte is a digit or `*` shows of the first byte of a character as of the character. -/
theorem first_byte_of_rest {c : Char} (cs : List Char) :
    ∃ b bs, Utf8.encode (c :: cs) = b :: bs ∧ isDigitByte b = c.isDigit ∧ (b = 0x2A ↔ c = '*') := by
  by_cases h : c.utf8Size = 1
  · refine ⟨_, _, Utf8.encode_cons_ascii h cs, ?_, ?_⟩
    · have hbyte := toNat_byte_of_ascii h
      simp only [isDigitByte, Char.isDigit, UInt8.le_iff_toNat_le, UInt32.le_iff_toNat_le, hbyte]
      rfl
    · rw [← UInt8.toNat_inj, toNat_byte_of_ascii h]
      exact Char.toNat_inj (d := '*')
  · obtain ⟨b, bs, hencode, hb⟩ := Utf8.encode_cons_wide h cs
    refine ⟨b, bs, hencode, ?_, ?_⟩
    · have hbyte : isDigitByte b = false := by
        simp only [isDigitByte, UInt8.le_iff_toNat_le, Bool.and_eq_false_iff,
          decide_eq_false_iff_not]
        right
        simp
        omega
      have hchar : c.isDigit = false :=
        Bool.eq_false_iff.2 fun hdigit => h (utf8Size_of_isDigit hdigit)
      rw [hbyte, hchar]
    · constructor
      · rintro rfl
        exact absurd hb (by decide)
      · rintro rfl
        exact absurd (by decide) (not_le_of_wide h)

/-! ## Repeats -/

theorem le_ofDigitChars (run : List Char) (n : Nat) : n ≤ Nat.ofDigitChars 10 run n := by
  induction run generalizing n with
  | nil => exact Nat.le_refl n
  | cons c run ih =>
      rw [Nat.ofDigitChars_cons]
      exact Nat.le_trans (by omega) (ih _)

/-- A count that is too large at some digit is too large at the end. -/
theorem scanCount_digits {run rest : List Char} (hrun : ∀ c ∈ run, c.isDigit = true)
    (hrest : ∀ c ∈ rest.head?, c.isDigit = false) {n : Nat} (hn : n ≤ maxCount) :
    scanCount n (Utf8.encode (run ++ rest)) =
      if Nat.ofDigitChars 10 run n ≤ maxCount then
        some (Nat.ofDigitChars 10 run n, Utf8.encode rest) else none := by
  induction run generalizing n with
  | nil =>
      rw [List.nil_append, Nat.ofDigitChars_nil, if_pos hn]
      cases rest with
      | nil => rfl
      | cons c cs =>
          obtain ⟨b, bs, hencode, hdigit, _⟩ := first_byte_of_rest (c := c) cs
          rw [hencode, scanCount, hdigit, hrest c rfl]
          simp
  | cons c run ih =>
      obtain ⟨hc, hrun⟩ := List.forall_mem_cons.1 hrun
      have hsize := utf8Size_of_isDigit hc
      have hdigit : isDigitByte c.val.toUInt8 = true := by
        obtain ⟨b, bs, hencode, hdigit, _⟩ := first_byte_of_rest (c := c) []
        rw [Utf8.encode_cons_ascii hsize] at hencode
        cases hencode
        rw [hdigit, hc]
      have hvalue : (c.val.toUInt8 - 0x30).toNat = c.toNat - '0'.toNat := by
        have hbyte := toNat_byte_of_ascii hsize
        simp only [isDigitByte, Bool.and_eq_true, decide_eq_true_eq] at hdigit
        rw [UInt8.toNat_sub_of_le _ _ hdigit.1, hbyte]
        rfl
      have hmax : maxCount < UInt64.size := by decide
      rw [List.cons_append, Utf8.encode_cons_ascii hsize, scanCount, if_pos hdigit,
        Nat.ofDigitChars_cons, Nat.mul_comm 10 n]
      by_cases hnext : n * 10 + (c.toNat - '0'.toNat) ≤ maxCount
      · rw [size?, if_pos (by omega), Option.bind_eq_bind, Option.bind_some, hvalue, size?,
          if_pos (by omega), Option.bind_some, ih hrun hnext]
      · have hlarge := le_ofDigitChars run (n * 10 + (c.toNat - '0'.toNat))
        rw [if_neg (by omega)]
        have hover : ¬ n * 10 + (c.toNat - '0'.toNat) < UInt64.size := by
          simp only [maxCount] at hnext
          omega
        by_cases htens : n * 10 < UInt64.size
        · rw [size?, if_pos htens, Option.bind_eq_bind, Option.bind_some, hvalue, size?,
            if_neg hover]
          rfl
        · rw [size?, if_neg htens]
          rfl

theorem scanRepeat_digits {run rest : List Char} (hne : run ≠ [])
    (hrun : ∀ c ∈ run, c.isDigit = true) (hrest : ∀ c ∈ rest.head?, c.isDigit = false) :
    scanRepeat (Utf8.encode (run ++ rest)) =
      if Nat.ofDigitChars 10 run 0 ≤ maxCount then
        some (.count (Nat.ofDigitChars 10 run 0), Utf8.encode rest) else none := by
  have hcount := scanCount_digits hrun hrest (Nat.zero_le maxCount)
  have hstar : ∀ c ∈ (run ++ rest).head?, c ≠ '*' := ne_star_of_digits hne hrun
  cases run with
  | nil => exact absurd rfl hne
  | cons c run =>
      obtain ⟨b, bs, hencode, hdigit, hb⟩ := first_byte_of_rest (c := c) (run ++ rest)
      rw [List.cons_append] at hcount hstar ⊢
      rw [hencode] at hcount ⊢
      rw [scanRepeat, if_neg fun h => hstar c rfl (hb.1 h), hdigit,
        if_pos (hrun c List.mem_cons_self), hcount]
      split <;> rfl

theorem Repeat.Spells.scan {r : Repeat} {spelling rest : List Char} (h : r.Spells rest spelling) :
    scanRepeat (Utf8.encode (spelling ++ rest)) = some (r, Utf8.encode rest) := by
  cases h with
  | absent hrest =>
      cases rest with
      | nil => rfl
      | cons c cs =>
          obtain ⟨b, bs, hencode, hdigit, hb⟩ := first_byte_of_rest (c := c) cs
          obtain ⟨hstar, hc⟩ := hrest c rfl
          rw [List.nil_append, hencode, scanRepeat, if_neg fun h => hstar (hb.1 h), hdigit, hc]
          simp
  | star => rfl
  | digits hne hrun hrest hvalue => rw [scanRepeat_digits hne hrun hrest, if_pos hvalue]

/-! ## Directives -/

theorem Code.ofChar?_byte {code : Code} (h : code ∈ codes) :
    Code.ofChar? (Char.ofUInt8 code.symbol.val.toUInt8) = some code := by
  rw [ofUInt8_of_ascii (Code.utf8Size_symbol h), Code.ofChar?_symbol h]

theorem Offends.scan_directive {position : Nat} {cs : List Char} {e : Error}
    (h : Offends position cs e) : scanDirective position (Utf8.encode cs) = some (.error e) := by
  cases h with
  | @unknown c cs hc =>
      have hnone : ∃ b bs, Utf8.encode (c :: cs) = b :: bs ∧
          Code.ofChar? (Char.ofUInt8 b) = none := by
        by_cases hsize : c.utf8Size = 1
        · refine ⟨_, _, Utf8.encode_cons_ascii hsize cs, ?_⟩
          rw [ofUInt8_of_ascii hsize, Code.ofChar?_eq_none.2 hc]
        · obtain ⟨b, bs, hencode, hb⟩ := Utf8.encode_cons_wide hsize cs
          exact ⟨b, bs, hencode, ofChar?_ofUInt8_of_wide hb⟩
      obtain ⟨b, bs, hencode, hcode⟩ := hnone
      have hfront : Utf8.front? (Utf8.encode (c :: cs)) = some c :=
        Utf8.front?_append c (Utf8.encode cs)
      rw [hencode] at hfront ⊢
      rw [scanDirective, hcode]
      simp only [hfront, Option.bind_eq_bind, Option.bind_some]
  | @tooLarge code run rest hcode hrun hrest hvalue =>
      have hne : run ≠ [] := by
        rintro rfl
        exact absurd hvalue (Nat.not_lt_zero _)
      have hrepeat := scanRepeat_digits hne hrun hrest
      rw [if_neg (Nat.not_le.2 hvalue)] at hrepeat
      rw [Utf8.encode_cons_ascii (Code.utf8Size_symbol hcode), scanDirective,
        Code.ofChar?_byte hcode]
      simp only [hrepeat]

theorem Repeat.Spells.scan_directive {code : Code} {r : Repeat} {spelling rest : List Char}
    (hcode : code ∈ codes) (h : r.Spells rest spelling) (position : Nat) :
    scanDirective position (Utf8.encode (code.symbol :: (spelling ++ rest))) =
      some (.ok (⟨code, r, position⟩, Utf8.encode rest)) := by
  rw [Utf8.encode_cons_ascii (Code.utf8Size_symbol hcode), scanDirective,
    Code.ofChar?_byte hcode]
  simp only [h.scan]

theorem Offends.scan {position : Nat} {cs : List Char} {e : Error} (h : Offends position cs e) :
    scanDirectives position (Utf8.encode cs) = some (.error e) :=
  scanDirectives_of_error h.scan_directive

/-- A scan goes through tokens to the bytes of what follows them. -/
theorem Tokens.scan {rest text : List Char} {position : Nat} {ds : List Directive}
    (h : Tokens rest position text ds) :
    scanDirectives position (Utf8.encode (text ++ rest)) =
      (scanDirectives (position + Utf8.size text) (Utf8.encode rest)).map fun found =>
        found.map (ds ++ ·) := by
  induction h with
  | nil =>
      rw [List.nil_append, Utf8.size, Nat.add_zero]
      cases scanDirectives _ (Utf8.encode rest) with
      | none => rfl
      | some found => cases found <;> rfl
  | @cons position code r spelling more ds hcode hr _ ih =>
      have hsize := Code.utf8Size_symbol hcode
      have hlen : (Utf8.encode (spelling ++ (more ++ rest))).length -
          (Utf8.encode (more ++ rest)).length = Utf8.size spelling := by
        rw [Utf8.length_encode, Utf8.length_encode, Utf8.size_append, Nat.add_sub_cancel]
      have hnext : position + 1 + Utf8.size spelling =
          position + Utf8.size (code.symbol :: spelling) := by
        rw [Utf8.size, hsize, Nat.add_assoc]
      have hscan := hr.scan_directive hcode position
      rw [Utf8.encode_cons_ascii hsize] at hscan
      rw [List.cons_append, List.append_assoc, Utf8.encode_cons_ascii hsize,
        scanDirectives_of_ok hscan, hlen, hnext, ih]
      simp only [Utf8.size, Utf8.size_append, Nat.add_assoc, Option.map_map]
      congr 1
      funext found
      cases found <;> rfl

/-- Scanning the bytes of a text finds what reading its characters finds. -/
theorem scanDirectives_encode (position : Nat) (cs : List Char) :
    scanDirectives position (Utf8.encode cs) = some (readDirectives position cs) := by
  obtain ⟨text, ds, rest, rfl, htokens, rfl | ⟨e, he⟩⟩ := exists_tokens position cs
  · rw [htokens.scan, htokens.read, readDirectives]
    simp [Utf8.encode, scanDirectives]
  · rw [htokens.scan, htokens.read, he.scan, he.read]
    rfl

end BytePack
