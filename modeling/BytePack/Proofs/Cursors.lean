import BytePack.Codec
import BytePack.Proofs.Lemmas.Reports

/-!
# One cursor

Sizing, writing and reading each move a cursor of their own, with different checks. On the output of
a pack call that was not short of digits they go through the same positions: the furthest position
of sizing is the length of the output, so reading never runs out of input and never jumps past it.
-/

namespace BytePack

variable {format : String} {directives : List Directive} {room : Nat} {args : List Scalar}
  {bytes : List UInt8} {plan : Plan}

/-! ## Reports -/

/-- Of all that a pack call reports, only sizing reports a step back past the start. -/
theorem filter_packDirectives_reports (hparse : parseFormat format = .ok directives)
    (hbuild : (Plan.build directives args).outcome = .ok plan)
    (hpack : (packDirectives room directives args).outcome = .ok bytes) :
    (packDirectives room directives args).diagnostics.filter (· == .outsideOfString 'X') =
      (measure plan.steps).diagnostics := by
  have hsizing : ∀ report ∈ (measure plan.steps).diagnostics, report = .outsideOfString 'X' := by
    intro report hreport
    obtain ⟨s, hs, hl, rfl⟩ := measure_reports hreport
    exact congrArg Diagnostic.outsideOfString
      ((Plan.directive_writable hparse hbuild s hs).symbol_of_backUp hl)
  rw [← filter_isOutside_reports hbuild hpack] at hsizing ⊢
  refine List.filter_congr fun report hreport => ?_
  cases houtside : report.isOutside with
  | true => exact beq_iff_eq.2 (hsizing report (List.mem_filter.2 ⟨hreport, houtside⟩))
  | false =>
      refine Bool.eq_false_iff.2 fun h => ?_
      rw [beq_iff_eq.1 h] at houtside
      cases houtside

/-! ## Positions -/

theorem passes_agree (hbuild : (Plan.build directives args).outcome = .ok plan)
    (hpack : (packDirectives room directives args).outcome = .ok bytes)
    (hshort : ∀ symbol,
      .notEnoughCharacters symbol ∉ (packDirectives room directives args).diagnostics) (k : Nat) :
    ∃ e w, (measure (plan.steps.take k)).outcome = .ok e ∧ e.size ≤ plan.size ∧
      (writeSteps (plan.steps.take k) plan.size args).outcome = .ok w ∧ w.pos = e.pos := by
  obtain ⟨_, w', _, _, hwrite, _⟩ := packDirectives_passes hbuild hpack
  obtain ⟨ds, _, hall⟩ := packDirectives_reports hbuild hpack
  obtain ⟨e, _, he, _, hle, _⟩ :=
    Plan.measure_append hbuild (List.take_append_drop k plan.steps).symm
  rw [← List.take_append_drop k plan.steps] at hwrite
  obtain ⟨w, hw, _⟩ := Reported.run_append_eq_ok.1 hwrite
  refine ⟨e, w, he, hle, hw, ?_⟩
  refine writer_run_in_step Extent.start_sound he hw rfl fun symbol hmem => hshort symbol ?_
  rw [hall, List.mem_append]
  right
  rw [← List.take_append_drop k plan.steps, writeSteps, Reported.diagnostics_run_append hw]
  exact List.mem_append_left _ hmem

/-- Sizing, writing and reading walk the same cursor: a pack call that is not short of digits gives
an output from which the same directives, with their settled counts, read without an error. -/
theorem cursors_agree (codec : Codec) (hparse : parseFormat format = .ok directives)
    (hbuild : (Plan.build directives args).outcome = .ok plan)
    (hpack : (packDirectives room directives args).outcome = .ok bytes)
    (hshort : ∀ symbol,
      .notEnoughCharacters symbol ∉ (packDirectives room directives args).diagnostics)
    {named : List (Step × String)} (hnamed : named.map Prod.fst = plan.steps)
    (hnames : ∀ p ∈ named, NameWritable p.2) :
    ∃ groups record,
      parseGroups (namedFormat named) codec.config.nameLimit = .ok groups ∧
      groups.length = plan.steps.length ∧
      codec.unpack (namedFormat named) bytes 0 =
        ⟨(packDirectives room directives args).diagnostics.filter (· == .outsideOfString 'X'),
          .ok record⟩ ∧
      ∀ k, ∃ e w r,
        (measure (plan.steps.take k)).outcome = .ok e ∧
        (writeSteps (plan.steps.take k) plan.size args).outcome = .ok w ∧
        ((groups.take k).foldlM Group.advance ⟨bytes, 0⟩).outcome = .ok r ∧
        w.pos = e.pos ∧ r.pos = e.pos := by
  obtain ⟨groups, hgroups, hall⟩ :=
    parseGroups_namedFormat hparse hbuild hnamed hnames codec.config.nameLimit
  have hasks : List.Forall₂ Group.Asks groups plan.steps := by
    rw [← hnamed, List.forall₂_map_right_iff]
    exact (hall.imp fun p g h => h.1).flip
  obtain ⟨e', _, hmeasure, hsize, _, _, hlen⟩ := packDirectives_passes hbuild hpack
  -- sizing alone decides where the reader goes; the output is as long as its furthest position
  have hrun := reader_run_eq hasks Extent.start_sound hmeasure
    (Nat.le_of_eq (hsize.trans hlen.symm))
  obtain ⟨fields, hfields⟩ := readFields_of_run (congrArg Reported.outcome hrun)
  refine ⟨groups, Record.ofList fields, hgroups, hasks.length_eq, ?_, fun k => ?_⟩
  · have hread : readFields ⟨bytes, 0⟩ groups = ⟨(measure plan.steps).diagnostics, .ok fields⟩ := by
      rw [hrun] at hfields
      exact hfields
    rw [filter_packDirectives_reports hparse hbuild hpack, Codec.unpack, hgroups,
      Reported.ofExcept_ok, Reported.bind_ok, unpackGroups, if_neg (Nat.not_lt_zero _),
      List.drop_zero, hread]
    simp
  · obtain ⟨e, w, he, hle, hw, hpos⟩ := passes_agree hbuild hpack hshort k
    have hpart := reader_run_eq (List.forall₂_take k hasks) Extent.start_sound he
      (Nat.le_trans hle (Nat.le_of_eq hlen.symm))
    exact ⟨e, w, ⟨bytes, e.pos⟩, he, hw, congrArg Reported.outcome hpart, hpos, rfl⟩

/-- Cleared ahead, clamped at the start and overwritten there. -/
theorem cursors_agree_clamped :
    ∃ record, (Codec.standard.unpack "a2head/@6/X9/H3digits" [0x1A, 0xF0, 0, 0, 0, 0] 0) =
      ⟨[.outsideOfString 'X'], .ok record⟩ := by
  let head : Directive := ⟨⟨'a', .text .nul⟩, .greedy, 0⟩
  let ahead : Directive := ⟨⟨'@', .absolute⟩, .count 6, 2⟩
  let back : Directive := ⟨⟨'X', .backUp⟩, .count 9, 4⟩
  let digits : Directive := ⟨⟨'H', .hex .highFirst⟩, .count 3, 6⟩
  have hparse : parseFormat "a*@6X9H3" = .ok [head, ahead, back, digits] := by decide +kernel
  have hbuild : (Plan.build [head, ahead, back, digits] [.text "hi", .text "1aF"]).outcome =
      .ok ⟨[⟨head, 2⟩, ⟨ahead, 6⟩, ⟨back, 9⟩, ⟨digits, 3⟩], 6, '@', 2⟩ := by decide +kernel
  have hpack : (packDirectives 6 [head, ahead, back, digits] [.text "hi", .text "1aF"]) =
      ⟨[.outsideOfString 'X'], .ok [0x1A, 0xF0, 0, 0, 0, 0]⟩ := by
    apply Reported.ext <;> decide +kernel
  have hformat : namedFormat [(⟨head, 2⟩, "head"), (⟨ahead, 6⟩, ""), (⟨back, 9⟩, ""),
      (⟨digits, 3⟩, "digits")] = "a2head/@6/X9/H3digits" := by decide +kernel
  have hnames : ∀ p ∈ [(Step.mk head 2, "head"), (⟨ahead, 6⟩, ""), (⟨back, 9⟩, ""),
      (⟨digits, 3⟩, "digits")], NameWritable p.2 := by decide
  obtain ⟨_, record, _, _, h, _⟩ := cursors_agree Codec.standard hparse hbuild
    (congrArg Reported.outcome hpack) (by simp [hpack]) rfl hnames
  rw [hpack, hformat] at h
  exact ⟨record, h⟩

end BytePack
