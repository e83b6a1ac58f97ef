import BytePack.Proofs.Lemmas.Formats
import BytePack.Proofs.Lemmas.Truncating
import BytePack.Proofs.Lemmas.Words

/-!
# Floating-point numbers as integers

A floating-point number that is packed as an integer stands for the exact number that its pattern
denotes, without the fraction, if that number lies in the range of signed words; the range includes
its lower end and excludes its upper one. Every other pattern stands for 0. An integer field keeps
what fits into it.
-/

namespace BytePack

/-! ## One number -/

theorem parseFormat_code {code : Code} (h : code ∈ codes) :
    parseFormat (.ofList [code.symbol]) = .ok [⟨code, .count 1, 0⟩] := by
  rw [parseFormat, String.toList_ofList]
  exact readDirectives_eq_ok_iff.2 (.cons h (.absent (by simp)) .nil)

theorem Number.width_le_maxPosition (number : Number) : number.width ≤ maxPosition := by
  have hwidth : number.width ≤ 8 := by
    cases number with
    | integer width => exact width.bytes_le
    | single order => exact (by decide : 4 ≤ 8)
    | double order => exact Nat.le_refl 8
  exact Nat.le_trans hwidth (by decide)

theorem packFormat_number {code : Code} (hcode : code ∈ codes) {number : Number}
    (hl : code.layout = .number number) {room : Nat} (hroom : number.width ≤ room) {a : Scalar}
    {word : List UInt8} (hword : number.encode a = .ok word) :
    packFormat room (.ofList [code.symbol]) [a] = ⟨[], .ok word⟩ := by
  have hlen := Number.length_encode hword
  have hreach := number.width_le_maxPosition
  let d : Directive := ⟨code, .count 1, 0⟩
  have hd : d.layout = .number number := hl
  -- the plan has one step, which takes the argument and reaches as far as the word is long
  have hdemand : d.demand [a] = .done ⟨1, 1⟩ := by
    simp [Directive.demand, hd, Layout.argumentClass, d]
  have hmove : Step.move ⟨d, 1⟩ 0 = .done number.width := by
    simp [Step.move, Step.layout, hd, Layout.width, advance?_eq, hreach]
  have hsize : measure [⟨d, 1⟩] = .done ⟨number.width, number.width, code.symbol⟩ := by
    have hmoved : Extent.start.moveTo code.symbol number.width =
        ⟨number.width, number.width, code.symbol⟩ := if_pos number.width_pos
    rw [measure, List.foldlM_cons, Step.extend]
    change (Step.move ⟨d, 1⟩ 0 >>= _) >>= _ = _
    rw [hmove]
    exact congrArg Reported.done hmoved
  -- the step writes the word over zeros, from the start to the end
  have hstroke : Step.stroke ⟨d, 1⟩ 0 [a] = .done ⟨word, number.width, []⟩ := by
    simp [Step.stroke, Step.layout, hd, Number.encodeRun, hword, hlen]
  have hwrite : writeSteps [⟨d, 1⟩] number.width [a] = .done ⟨word, number.width, []⟩ := by
    have hover : overlay (List.replicate number.width 0) 0 word = word := by
      simp [overlay, hlen]
    rw [writeSteps, List.foldlM_cons, Step.write]
    change (Step.stroke ⟨d, 1⟩ 0 [a] >>= _) >>= _ = _
    rw [hstroke]
    exact congrArg (fun output => Reported.done (Writer.mk output number.width [])) hover
  have hbuild : Plan.build [d] [a] =
      .done ⟨[⟨d, 1⟩], number.width, code.symbol, 1⟩ := by
    rw [Plan.build, resolve, hdemand]
    change (Reported.report [] >>= fun _ => measure [⟨d, 1⟩] >>= _) = _
    rw [hsize]
    rfl
  rw [packFormat_of_parse (parseFormat_code hcode), packDirectives]
  change Plan.build [d] [a] >>= _ = _
  rw [hbuild]
  change Plan.write _ room [a] = _
  rw [Plan.write, if_neg (Nat.not_lt.2 hroom), hwrite]
  rfl

/-! ## Words -/

theorem ofDigits_integerWord (v : Int64) (width : Width) (order : ByteOrder) :
    (ofDigits (ordered order (integerWord v width order)) : Int) =
      v.toInt % (Nat.pow 256 width.bytes : Nat) := by
  have hv := toNat_toUInt64 v
  rw [integerWord_eq, ordered_ordered, ofDigits_digits]
  cases width <;> simp only [Width.bytes, Nat.pow_eq, Nat.reducePow] <;> omega

theorem toInteger_float (x : Double) : (Scalar.float x).toInteger = .ok (.ofInt x.wholePart) := by
  rw [Scalar.toInteger, Double.truncate_eq_wholePart]

theorem wholePart_least {x : Double} (h : x.number? = some (-0x8000000000000000)) :
    x.wholePart = -0x8000000000000000 := by
  have hrange : (-0x8000000000000000 : ℚ) ≤ -0x8000000000000000 ∧
      (-0x8000000000000000 : ℚ) < 0x8000000000000000 := by norm_num
  simp only [Double.wholePart, h, if_pos hrange]
  rw [towardZero_neg (by norm_num)]
  exact congrArg Neg.neg (Int.floor_natCast 0x8000000000000000)

/-- Every floating-point number has an integer that it stands for, and the conversion step by step
comes to that integer without a cast that saturates; the least integer is one of them. A field of an
integer code holds it up to a multiple of what the field can count. -/
theorem float_stands_for_whole_part (x : Double) :
    ∃ v, (Scalar.float x).toInteger = .ok v ∧ v.toInt = x.wholePart ∧ x.convert? = some v ∧
      (x.number? = some (-0x8000000000000000) → v = Int64.minValue) ∧
      ∀ width order signed, ∃ word,
        (Number.integer width order signed).encode (.float x) = .ok word ∧
        word.length = width.bytes ∧
        (ofDigits (ordered order word) : Int) = x.wholePart % (Nat.pow 256 width.bytes : Nat) ∧
        ∀ code ∈ codes, code.layout = .number (.integer width order signed) →
          ∀ room, width.bytes ≤ room →
            packFormat room (.ofList [code.symbol]) [.float x] = ⟨[], .ok word⟩ := by
  obtain ⟨hlow, hhigh⟩ := x.wholePart_bounds
  have hv : (Int64.ofInt x.wholePart).toInt = x.wholePart := Int64.toInt_ofInt_of_le hlow hhigh
  refine ⟨.ofInt x.wholePart, toInteger_float x, hv, x.convert?_eq, fun hleast => ?_,
    fun width order signed => ?_⟩
  · rw [wholePart_least hleast]
    rfl
  · have hword : (Number.integer width order signed).encode (.float x) =
        .ok (integerWord (.ofInt x.wholePart) width order) := by
      simp only [Number.encode, toInteger_float]
    refine ⟨_, hword, length_integerWord _ width order, ?_, fun code hcode hl room hroom =>
      packFormat_number hcode hl hroom hword⟩
    rw [ofDigits_integerWord, hv]

/-- The number at the lower end of the range is kept, and fills a field of eight bytes. -/
theorem float_stands_for_whole_part_least :
    let x : Double := ⟨0xC3E0000000000000⟩
    x.number? = some (-0x8000000000000000) ∧
      (Scalar.float x).toInteger = .ok Int64.minValue ∧ x.convert? = some Int64.minValue ∧
      packFormat 8 "J" [.float x] = ⟨[], .ok [0x80, 0, 0, 0, 0, 0, 0, 0]⟩ := by
  intro x
  have hnumber : x.number? = some (-0x8000000000000000) := by
    have hvalue : x.value = .finite true 0x10000000000000 11 := by decide
    simp only [Double.number?_eq, hvalue, Double.signFactor]
    norm_num
  obtain ⟨v, hinteger, -, hconvert, hleast, hwords⟩ := float_stands_for_whole_part x
  obtain rfl := hleast hnumber
  obtain ⟨word, hword, -, -, hpack⟩ := hwords .longLong .bigEndian false
  have hbytes : (Number.integer .longLong .bigEndian false).encode (.float x) =
      .ok [0x80, 0, 0, 0, 0, 0, 0, 0] := by decide +kernel
  obtain rfl := Except.ok.inj (hbytes.symm.trans hword)
  exact ⟨hnumber, hinteger, hconvert,
    hpack ⟨'J', .number (.integer .longLong .bigEndian false)⟩ (by decide) rfl 8 (by decide)⟩

end BytePack
