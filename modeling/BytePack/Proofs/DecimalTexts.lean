import BytePack.Proofs.Lemmas.DecimalIntegers
import BytePack.Proofs.Lemmas.Recasting
import BytePack.Proofs.Lemmas.Words

/-!
# Integers and their texts

An integer in the range of signed words and the text that it is written as stand for the same bytes,
and for the same integer: what is printed reads back exactly, at either end of the range too. So a
format without floating-point numbers packs one as it packs the other, whether it looks at the
characters, at their number or at the value. A text never wraps around: one whose value is out of
range is no integer at all, where an unsigned word of that value is reduced.
-/

namespace BytePack

/-! ## Texts as integers -/

theorem Utf8.encode_inj {cs ds : List Char} (h : Utf8.encode cs = Utf8.encode ds) : cs = ds := by
  rw [← Utf8.decodeLossy_encode cs, h, Utf8.decodeLossy_encode]

namespace Scalar

theorem toInteger_text_of_spells {n : Int} {t : String} (h : SpellsInteger n t.toList)
    (hlow : -(signedBound : Int) ≤ n) (hhigh : n < signedBound) :
    (Scalar.text t).toInteger = .ok (.ofInt n) := by
  rw [toInteger, readInt_eq_ok_iff.2 ⟨h, hlow, hhigh⟩]

theorem toInteger_text_eq_ok_iff {t : String} {v : Int64} :
    (Scalar.text t).toInteger = .ok v ↔ SpellsInteger v.toInt t.toList := by
  constructor
  · intro h
    rw [toInteger] at h
    cases hread : readInt t.toList with
    | error fault =>
        rw [hread] at h
        cases h
    | ok n =>
        obtain ⟨hspells, hlow, hhigh⟩ := readInt_eq_ok_iff.1 hread
        rw [hread] at h
        cases h
        rwa [Int64.toInt_ofInt_of_le hlow hhigh]
  · intro h
    rw [toInteger_text_of_spells h v.le_toInt v.toInt_lt, Int64.ofInt_toInt]

/-- A text is refused, with itself in the error, exactly if it is no integer in the range. -/
theorem toInteger_text_error_iff {t : String} :
    (∃ fault, (Scalar.text t).toInteger = .error (.parse (.integer t fault))) ↔
      ∀ n, SpellsInteger n t.toList → n < -signedBound ∨ signedBound ≤ n := by
  constructor
  · rintro ⟨fault, herror⟩ n hspells
    apply Classical.byContradiction
    intro hrange
    rw [not_or, Int.not_lt, Int.not_le] at hrange
    rw [toInteger_text_of_spells hspells hrange.1 hrange.2] at herror
    cases herror
  · intro hout
    cases hread : readInt t.toList with
    | error fault => exact ⟨fault, by rw [toInteger, hread]⟩
    | ok n =>
        obtain ⟨hspells, hlow, hhigh⟩ := readInt_eq_ok_iff.1 hread
        rcases hout n hspells with h | h
        · exact absurd h (Int.not_lt.2 hlow)
        · exact absurd h (Int.not_le.2 hhigh)

/-! ## Integers as texts -/

/-- Whether an argument stands for another one: itself or, for an integer in the range of signed words,
its decimal text. -/
inductive WrittenAs : Scalar → Scalar → Prop where
  | same (a : Scalar) : WrittenAs a a
  | int {v : Int64} {t : String} (h : Utf8.encode t.toList = (Scalar.int v).toBytes) :
      WrittenAs (.int v) (.text t)
  | uint {u : UInt64} {t : String} (hu : u.toNat < signedBound)
      (h : Utf8.encode t.toList = (Scalar.uint u).toBytes) : WrittenAs (.uint u) (.text t)

/-- An argument with its decimal text in its place if it has one in the range. -/
def writtenOut : Scalar → Scalar
  | .int v => .text (.ofList (integerText v.toInt))
  | .uint u => if u.toNat < signedBound then .text (.ofList (integerText u.toNat)) else .uint u
  | a => a

theorem text_of_encode {t : String} {cs : List Char} (h : Utf8.encode t.toList = Utf8.encode cs) :
    t = .ofList cs := by
  rw [← Utf8.encode_inj h, String.ofList_toList]

theorem WrittenAs.writtenOut_eq {a a' : Scalar} (h : a.WrittenAs a') :
    a'.writtenOut = a.writtenOut := by
  cases h with
  | same => rfl
  | int h => exact congrArg Scalar.text (text_of_encode h)
  | @uint u t hu h =>
      have hwritten : (Scalar.uint u).writtenOut = .text (.ofList (integerText u.toNat)) := if_pos hu
      exact (congrArg Scalar.text (text_of_encode h)).trans hwritten.symm

theorem toBytes_text_ofList (cs : List Char) :
    (Scalar.text (.ofList cs)).toBytes = Utf8.encode cs := by
  rw [toBytes, String.toList_ofList]

theorem toInteger_integerText {n : Int} (hlow : -(signedBound : Int) ≤ n) (hhigh : n < signedBound) :
    (Scalar.text (.ofList (integerText n))).toInteger = .ok (.ofInt n) := by
  refine toInteger_text_of_spells ?_ hlow hhigh
  rw [String.toList_ofList]
  exact spellsInteger_integerText n

end Scalar

theorem recasts_writtenOut : Recasts Scalar.writtenOut where
  toBytes_eq a := by
    cases a with
    | int v => exact Scalar.toBytes_text_ofList _
    | uint u =>
        rw [Scalar.writtenOut]
        split
        · exact Scalar.toBytes_text_ofList _
        · rfl
    | _ => rfl
  toInteger_eq a := by
    cases a with
    | int v =>
        rw [Scalar.writtenOut, Scalar.toInteger_integerText v.le_toInt v.toInt_lt,
          Int64.ofInt_toInt, Scalar.toInteger]
    | uint u =>
        rw [Scalar.writtenOut]
        split
        · rename_i hu
          rw [Scalar.toInteger_integerText (by omega) (by omega), Scalar.toInteger,
            Int64.ofInt_eq_ofNat, ← UInt64.toInt64_ofNat', UInt64.ofNat_toNat]
        · rfl
    | _ => rfl

theorem map_writtenOut {args args' : List Scalar} (h : List.Forall₂ Scalar.WrittenAs args args') :
    args'.map Scalar.writtenOut = args.map Scalar.writtenOut := by
  induction h with
  | nil => rfl
  | cons ha _ ih => rw [List.map_cons, List.map_cons, ha.writtenOut_eq, ih]

/-! ## Words past the range -/

theorem toInteger_text_past_range {u : UInt64} {t : String} (hu : signedBound ≤ u.toNat)
    (h : Utf8.encode t.toList = (Scalar.uint u).toBytes) :
    (Scalar.text t).toInteger = .error (.parse (.integer t .tooLarge)) := by
  have hspells := spellsInteger_integerText u.toNat
  rw [← Utf8.encode_inj h] at hspells
  rw [Scalar.toInteger, hspells.readInt_eq, if_neg (by omega), if_pos (by omega)]

theorem toInt_toInt64_of_le {u : UInt64} (hu : signedBound ≤ u.toNat) :
    u.toInt64.toInt = u.toNat - UInt64.size := by
  have hlt := u.toNat_lt
  rw [toInt_toInt64]
  simp only [signedBound] at hu
  simp only [Int.bmod, UInt64.size]
  omega

/-! ## Packing -/

/-- Integers written out are packed as the integers, with the same reports, by every format without
floating-point numbers. Exactly the texts of integers in the range are integers; the others are
refused, also those of unsigned words past the range, which themselves are reduced. -/
theorem integers_pack_as_texts :
    (∀ room format args args', (∀ c ∈ floatSymbols, c ∉ format.toList) →
      List.Forall₂ Scalar.WrittenAs args args' →
        packFormat room format args' = packFormat room format args) ∧
    (∀ a a' : Scalar, a.WrittenAs a' → a'.toBytes = a.toBytes ∧ a'.toInteger = a.toInteger) ∧
    (∀ t v, (Scalar.text t).toInteger = .ok v ↔ SpellsInteger v.toInt t.toList) ∧
    (∀ t, (∃ fault, (Scalar.text t).toInteger = .error (.parse (.integer t fault))) ↔
      ∀ n, SpellsInteger n t.toList → n < -signedBound ∨ signedBound ≤ n) ∧
    ∀ u t, signedBound ≤ u.toNat → Utf8.encode t.toList = (Scalar.uint u).toBytes →
      (Scalar.text t).toInteger = .error (.parse (.integer t .tooLarge)) ∧
        ∃ v, (Scalar.uint u).toInteger = .ok v ∧ v.toInt = u.toNat - UInt64.size := by
  refine ⟨fun room format args args' hfree hargs => ?_, fun a a' h => ⟨?_, ?_⟩,
    fun t v => Scalar.toInteger_text_eq_ok_iff, fun t => Scalar.toInteger_text_error_iff,
    fun u t hu h => ⟨toInteger_text_past_range hu h, _, rfl, toInt_toInt64_of_le hu⟩⟩
  -- written out, both lists are the same texts
  · calc packFormat room format args'
        = packFormat room format (args'.map Scalar.writtenOut) :=
          (packFormat_recast recasts_writtenOut hfree room args').symm
      _ = packFormat room format (args.map Scalar.writtenOut) := by rw [map_writtenOut hargs]
      _ = packFormat room format args := packFormat_recast recasts_writtenOut hfree room args
  · rw [← recasts_writtenOut.toBytes_eq, h.writtenOut_eq, recasts_writtenOut.toBytes_eq]
  · rw [← recasts_writtenOut.toInteger_eq, h.writtenOut_eq, recasts_writtenOut.toInteger_eq]

/-- The least integer as text, digits and number; and the first word past the range, which as a text
is too large and as a word the least integer. -/
theorem integers_pack_as_texts_least :
    let args : List Scalar := [.int (-7), .uint 123, .int Int64.minValue]
    let args' : List Scalar := [.text "-7", .text "123", .text "-9223372036854775808"]
    List.Forall₂ Scalar.WrittenAs args args' ∧
      packFormat 16 "A*H3J" args' = packFormat 16 "A*H3J" args ∧
      (packFormat 16 "A*H3J" args').outcome =
        .ok [0x2D, 0x37, 0x12, 0x30, 0x80, 0, 0, 0, 0, 0, 0, 0] ∧
      (Scalar.text "9223372036854775808").toInteger =
        .error (.parse (.integer "9223372036854775808" .tooLarge)) ∧
      ∃ v, (Scalar.uint 9223372036854775808).toInteger = .ok v ∧ v.toInt = -9223372036854775808 := by
  intro args args'
  obtain ⟨hpack, -, -, -, hpast⟩ := integers_pack_as_texts
  have hargs : List.Forall₂ Scalar.WrittenAs args args' :=
    .cons (.int (by decide +kernel)) (.cons (.uint (by decide) (by decide +kernel))
      (.cons (.int (by decide +kernel)) .nil))
  have hfree : ∀ c ∈ floatSymbols, c ∉ "A*H3J".toList := by simp [floatSymbols]
  have hsame := hpack 16 "A*H3J" args args' hfree hargs
  obtain ⟨hrefused, v, hv, hreduced⟩ :=
    hpast 9223372036854775808 "9223372036854775808" (by decide) (by decide +kernel)
  exact ⟨hargs, hsame, by decide +kernel, hrefused, v, hv, hreduced⟩

end BytePack
