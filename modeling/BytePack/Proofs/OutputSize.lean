import BytePack.Proofs.Lemmas.Formats
import BytePack.Proofs.Lemmas.Writing

/-!
# What decides the size of an output

Settling sees the arguments, but looks at their number and at the lengths of the texts that `*` is
written for, and at nothing else. Two lists that agree in these get one plan, or one error, with the
same reports. What is then written may differ in every byte, also in how far the writer goes, and
still fills an output of the one size.
-/

namespace BytePack

/-! ## The lengths that count -/

/-- Whether a directive is `*` on a text, whose length is then its count. -/
def Directive.IsStarText (d : Directive) : Prop :=
  d.layout.argumentClass = .string ∧ d.repetition = .greedy

instance (d : Directive) : Decidable d.IsStarText := inferInstanceAs (Decidable (_ ∧ _))

/-- Whether one of some directives is `*` on a text and takes the argument at a place out of `n`. -/
def StarTextAt (n : Nat) (ds : List Directive) (place : Nat) : Prop :=
  ∃ before d, before ++ [d] <+: ds ∧ d.IsStarText ∧ place + leftAfter n before = n

/-- Whether two lists have as many arguments, and equal lengths where `*` is written for a text. -/
structure SameSizes (ds : List Directive) (args args' : List Scalar) : Prop where
  length_eq : args.length = args'.length
  toBytes_eq : ∀ place a a', StarTextAt args.length ds place → args[place]? = some a →
    args'[place]? = some a' → a.toBytes.length = a'.toBytes.length

/-- Without `*` on a text it is the number of arguments alone that counts. -/
theorem SameSizes.of_not_isStarText {ds : List Directive} {args args' : List Scalar}
    (h : ∀ d ∈ ds, ¬ d.IsStarText) (hlen : args.length = args'.length) :
    SameSizes ds args args' where
  length_eq := hlen
  toBytes_eq := by
    rintro _ _ _ ⟨before, d, hstands, hd, _⟩
    exact absurd hd (h d (hstands.subset (List.mem_append_right _ List.mem_cons_self)))

theorem SameSizes.cons {d : Directive} {ds : List Directive} {args args' : List Scalar}
    (hlen : args.length = args'.length)
    (hhead : d.IsStarText → (args.headD .null).toBytes.length = (args'.headD .null).toBytes.length)
    (htail : SameSizes ds (args.drop (d.needs args.length)) (args'.drop (d.needs args.length))) :
    SameSizes (d :: ds) args args' where
  length_eq := hlen
  toBytes_eq := by
    rintro place a a' ⟨before, b, hstands, hb, hplace⟩ ha ha'
    cases before with
    | nil =>
        obtain ⟨rfl, _⟩ := List.cons_prefix_cons.1 hstands
        obtain rfl : place = 0 := Nat.add_eq_right.1 hplace
        rw [← List.head?_eq_getElem?] at ha ha'
        simpa [List.headD_eq_head?_getD, ha, ha'] using hhead hb
    | cons c before =>
        obtain ⟨rfl, hrest⟩ := List.cons_prefix_cons.1 hstands
        have hlt : place < args.length := (List.getElem?_eq_some_iff.1 ha).1
        have hle := leftAfter_le (args.length - c.needs args.length) before
        rw [leftAfter] at hplace
        obtain ⟨rest, rfl⟩ := Nat.exists_eq_add_of_le (show c.needs args.length ≤ place by omega)
        refine htail.toBytes_eq rest a a' ⟨before, b, hrest, hb, ?_⟩ ?_ ?_
        · rw [List.length_drop]
          omega
        · rwa [List.getElem?_drop]
        · rwa [List.getElem?_drop]

theorem SameSizes.head {d : Directive} {ds : List Directive} {args args' : List Scalar}
    (h : SameSizes (d :: ds) args args') (hd : d.IsStarText) :
    (args.headD .null).toBytes.length = (args'.headD .null).toBytes.length := by
  obtain ⟨hlen, hbytes⟩ := h
  cases args with
  | nil => rw [List.length_eq_zero_iff.1 hlen.symm]
  | cons a args =>
      cases args' with
      | nil => cases hlen
      | cons a' args' => exact hbytes 0 a a' ⟨[], d, ⟨ds, rfl⟩, hd, Nat.zero_add _⟩ rfl rfl

theorem SameSizes.tail {d : Directive} {ds : List Directive} {args args' : List Scalar}
    (h : SameSizes (d :: ds) args args') :
    SameSizes ds (args.drop (d.needs args.length)) (args'.drop (d.needs args.length)) where
  length_eq := by rw [List.length_drop, List.length_drop, h.length_eq]
  toBytes_eq := by
    rintro place a a' ⟨before, b, hstands, hb, hplace⟩ ha ha'
    rw [List.getElem?_drop] at ha ha'
    have hlt : d.needs args.length + place < args.length := (List.getElem?_eq_some_iff.1 ha).1
    rw [List.length_drop] at hplace
    -- behind `d` places count from the arguments that `d` takes
    refine h.toBytes_eq _ a a' ⟨d :: before, b, List.cons_prefix_cons.2 ⟨rfl, hstands⟩, hb, ?_⟩
      ha ha'
    rw [leftAfter]
    omega

/-! ## Settling -/

theorem Directive.countFor_eq {d : Directive} {args args' : List Scalar}
    (hlen : args.length = args'.length)
    (hhead : d.IsStarText → (args.headD .null).toBytes.length = (args'.headD .null).toBytes.length) :
    d.countFor args = d.countFor args' := by
  unfold Directive.countFor
  cases hr : d.repetition with
  | count n => rfl
  | greedy =>
      unfold Layout.starCount
      cases hl : d.layout with
      | text padding =>
          have hbytes := hhead ⟨by rw [hl]; rfl, hr⟩
          cases padding <;> simp only [hbytes]
      | hex order => exact hhead ⟨by rw [hl]; rfl, hr⟩
      | number format => exact hlen
      | nulByte | backUp | absolute => rfl

theorem SameSizes.settle_eq {ds : List Directive} {args args' : List Scalar}
    (h : SameSizes ds args args') : settle ds args = settle ds args' := by
  induction ds generalizing args args' with
  | nil => rfl
  | cons d ds ih =>
      rw [settle, settle, d.countFor_eq h.length_eq h.head, ih h.tail, h.length_eq]

/-! ## Plans -/

theorem SameSizes.build_eq {ds : List Directive} {args args' : List Scalar}
    (h : SameSizes ds args args') : Plan.build ds args = Plan.build ds args' := by
  by_cases hserved : AllServed args.length ds
  · have hserved' : AllServed args'.length ds := h.length_eq ▸ hserved
    rw [Plan.build_of_served hserved, Plan.build_of_served hserved', h.settle_eq, h.length_eq]
  · obtain ⟨before, d, hfirst⟩ := exists_firstShort hserved
    have hfirst' : FirstShort args'.length ds before d := h.length_eq ▸ hfirst
    rw [hfirst.build_eq, hfirst'.build_eq]

/-- Arguments that agree in their number, and in their lengths where `*` is written for a text, get
one plan with one series of reports, or one error. If both are packed, the outputs have one length:
that of the plan. -/
theorem size_independent_of_values {directives : List Directive} {args args' : List Scalar}
    (h : SameSizes directives args args') :
    Plan.build directives args = Plan.build directives args' ∧
      ∀ format room room' bytes bytes', parseFormat format = .ok directives →
        (packFormat room format args).outcome = .ok bytes →
        (packFormat room' format args').outcome = .ok bytes' → bytes.length = bytes'.length := by
  refine ⟨h.build_eq, fun format room room' bytes bytes' hparse hpack hpack' => ?_⟩
  rw [packFormat_of_parse hparse] at hpack hpack'
  obtain ⟨plan, hbuild, hwrite⟩ := packDirectives_eq_ok.1 hpack
  obtain ⟨plan', hbuild', hwrite'⟩ := packDirectives_eq_ok.1 hpack'
  rw [h.build_eq] at hbuild
  cases hbuild.symm.trans hbuild'
  exact (Plan.length_write hbuild hwrite).trans (Plan.length_write hbuild' hwrite').symm

/-- Three of four digits are missing in one text, two bytes stand for the other, and the numbers that
are left are of other kinds. -/
theorem size_independent_of_values_short_digits :
    let args : List Scalar := [.text "beef", .text "hi", .int 1, .float .one]
    let args' : List Scalar := [.text "f", .bytes [0, 7], .null, .text "12"]
    let bytes : List UInt8 := [0xBE, 0xEF, 0x68, 0x69, 1, 1]
    let bytes' : List UInt8 := [0xF0, 0, 7, 0, 12, 0]
    ∃ directives, parseFormat "H4a*C*" = .ok directives ∧ SameSizes directives args args' ∧
      Plan.build directives args = Plan.build directives args' ∧
      (packFormat 6 "H4a*C*" args).outcome = .ok bytes ∧
      (packFormat 6 "H4a*C*" args').outcome = .ok bytes' ∧ bytes.length = bytes'.length := by
  intro args args' bytes bytes'
  let digits : Directive := ⟨⟨'H', .hex .highFirst⟩, .count 4, 0⟩
  let text : Directive := ⟨⟨'a', .text .nul⟩, .greedy, 2⟩
  let byte : Directive := ⟨⟨'C', .number (.integer .byte .machine false)⟩, .greedy, 4⟩
  have hparse : parseFormat "H4a*C*" = .ok [digits, text, byte] := by decide +kernel
  have hpack : (packFormat 6 "H4a*C*" args).outcome = .ok bytes := by decide +kernel
  have hpack' : (packFormat 6 "H4a*C*" args').outcome = .ok bytes' := by decide +kernel
  have hsizes : SameSizes [digits, text, byte] args args' := by
    have hdigits : ¬ digits.IsStarText := by decide
    have hbyte : ∀ d ∈ [byte], ¬ d.IsStarText := by decide
    have htext : (Scalar.text "hi").toBytes.length = (Scalar.bytes [0, 7]).toBytes.length := by
      decide +kernel
    exact .cons rfl (fun h => absurd h hdigits)
      (.cons rfl (fun _ => htext) (.of_not_isStarText hbyte rfl))
  obtain ⟨hbuild, hlength⟩ := size_independent_of_values hsizes
  exact ⟨_, hparse, hsizes, hbuild, hpack, hpack', hlength _ _ _ _ _ hparse hpack hpack'⟩

end BytePack
