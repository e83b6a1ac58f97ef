import BytePack.Proofs.Lemmas.Stars

/-!
# Plans and their settled formats

A plan is a format without `*`. Written with the counts that its arguments settled, the format says
the same as the plan, to whatever arguments the plan is then given: the texts may be longer or
shorter, or the numbers no numbers. Of the arguments that settled the counts nothing else is left in
the plan.
-/

namespace BytePack

/-- Whether a diagnostic tells of a `*` that is ignored. -/
def Diagnostic.isIgnored : Diagnostic → Bool
  | .greedyIgnored _ => true
  | _ => false

theorem Tokens.star_not_mem {rest text : List Char} {position : Nat} {ds : List Directive}
    (h : Tokens rest position text ds) (hcounted : ∀ d ∈ ds, ∃ n, d.repetition = .count n) :
    '*' ∉ text := by
  induction h with
  | nil => exact List.not_mem_nil
  | @cons position code r spelling more ds hcode hr _ ih =>
      obtain ⟨⟨n, hn⟩, hmore⟩ := List.forall_mem_cons.1 hcounted
      simp only at hn
      subst hn
      have hsymbol := (Code.symbol_not_repeat hcode).1
      simp only [List.mem_cons, List.mem_append, not_or]
      exact ⟨hsymbol.symm, hr.star_not_mem, ih hmore⟩

theorem Directive.Spells.counted {steps : List Step} {ds : List Directive}
    (h : List.Forall₂ (fun s d => d.Spells s) steps ds) :
    ∀ d ∈ ds, ∃ n, d.repetition = .count n := by
  induction h with
  | nil => simp
  | cons hs _ ih => exact List.forall_mem_cons.2 ⟨⟨_, hs.repetition⟩, ih⟩

theorem filter_ignored_of_settling (ds : List Directive) :
    (ds.flatMap Directive.settleReports).filter (fun report => !report.isIgnored) = [] := by
  rw [List.filter_eq_nil_iff]
  intro report h
  obtain ⟨d, _, h⟩ := List.mem_flatMap.1 h
  rw [Directive.mem_settleReports h]
  simp [Diagnostic.isIgnored]

theorem filter_ignored_of_passes (left : Nat) (plan : Plan) (room : Nat) (given : List Scalar) :
    (unusedReports left ++ (measure plan.steps).diagnostics ++
        (plan.write room given).diagnostics).filter (fun report => !report.isIgnored) =
      unusedReports left ++ (measure plan.steps).diagnostics ++
        (plan.write room given).diagnostics := by
  rw [List.filter_eq_self]
  intro report h
  simp only [List.mem_append] at h
  rcases h with (h | h) | h
  · unfold unusedReports at h
    split at h
    · exact absurd h List.not_mem_nil
    · cases List.mem_singleton.1 h
      rfl
  · obtain ⟨s, _, _, rfl⟩ := measure_reports h
    rfl
  · rcases Plan.write_reports h with ⟨symbol, rfl⟩ | ⟨symbol, digit, rfl⟩ <;> rfl

/-- A plan has the size of the format in which each `*` is replaced by the count that the arguments
settled for it, and is written as that format is packed, with any arguments that are enough. With
the arguments at hand both formats pack alike, but for the reports of each `*` that is ignored. -/
theorem plan_of_settled_format {format : String} {directives : List Directive} {args : List Scalar}
    {plan : Plan} (hparse : parseFormat format = .ok directives)
    (hbuild : (Plan.build directives args).outcome = .ok plan) :
    ∃ settled, parseFormat (settledFormat format directives args) = .ok settled ∧
      '*' ∉ (settledFormat format directives args).toList ∧
      List.Forall₂ (fun s d => d.Spells s) plan.steps settled ∧
      (∀ given, plan.consumed ≤ given.length → ∃ other,
        (Plan.build settled given).outcome = .ok other ∧ other.size = plan.size ∧
        other.consumed = plan.consumed ∧
        ∀ room, other.write room given = plan.write room given ∧
          packDirectives room settled given =
            ⟨(Plan.build settled given).diagnostics ++ (plan.write room given).diagnostics,
              (plan.write room given).outcome⟩) ∧
      ∀ room, (packDirectives room settled args).outcome =
          (packDirectives room directives args).outcome ∧
        (packDirectives room settled args).diagnostics =
          (packDirectives room directives args).diagnostics.filter
            (fun report => !report.isIgnored) := by
  obtain ⟨hserved, e, hmeasure, hplan⟩ := Plan.build_eq_ok_settle.1 hbuild
  have hsteps : plan.steps = settle directives args := congrArg Plan.steps hplan
  have hcounts : ∀ s ∈ settle directives args, s.count ≤ maxCount := fun s hs =>
    (Plan.group_writable hparse hbuild (hsteps ▸ hs) "").repetition
  obtain ⟨settled, htokens, hspells⟩ :=
    exists_tokens_replaceStars (readDirectives_eq_ok_iff.1 hparse) hcounts 0
  rw [← hsteps] at hspells
  refine ⟨settled, ?_, ?_, hspells, fun given henough => ?_, fun room => ?_⟩
  · rw [parseFormat, settledFormat, String.toList_ofList]
    exact readDirectives_eq_ok_iff.2 htokens
  · rw [settledFormat, String.toList_ofList]
    exact htokens.star_not_mem (Directive.Spells.counted hspells)
  · obtain ⟨other, hlike, hother⟩ := Plan.build_of_spells hbuild hspells henough
    refine ⟨other, congrArg Reported.outcome hother, hlike.size, hlike.consumed, fun room =>
      ⟨hlike.write room given, ?_⟩⟩
    rw [packDirectives, hother, Reported.bind_ok, hlike.write]
  · obtain ⟨_, hconsumed⟩ := Plan.consumed_eq hbuild
    have henough : plan.consumed ≤ args.length := by omega
    obtain ⟨other, hlike, hother⟩ := Plan.build_of_spells hbuild hspells henough
    have hleft : args.length - plan.consumed = leftAfter args.length directives := by omega
    have hreports : (Plan.build directives args).diagnostics =
        directives.flatMap Directive.settleReports ++
          (unusedReports (args.length - plan.consumed) ++ (measure plan.steps).diagnostics) := by
      rw [Plan.build_of_served hserved, hleft, hsteps]
    rw [packDirectives, packDirectives, hother, Reported.bind_ok, hlike.write,
      Reported.bind_of_ok hbuild, hreports]
    refine ⟨rfl, ?_⟩
    rw [List.append_assoc (directives.flatMap _), List.filter_append, filter_ignored_of_settling,
      filter_ignored_of_passes, List.nil_append]

/-- A text of three bytes, a NUL and two numbers settle the stars of one format. The format with
counts packs a shorter text with the same padding, and reports no ignored `*`. -/
theorem plan_of_settled_format_three_stars :
    ∃ directives settled, parseFormat "A*x*C*" = .ok directives ∧
      parseFormat "A3x1C2" = .ok settled ∧
      (packDirectives 6 directives [.text "abc", .int 1, .int 2]).diagnostics =
        [.greedyIgnored 'x'] ∧
      packDirectives 6 settled [.text "abc", .int 1, .int 2] =
        ⟨[], .ok [0x61, 0x62, 0x63, 0, 1, 2]⟩ ∧
      (packDirectives 6 settled [.text "z", .int 7, .int 8, .null]).outcome =
        .ok [0x7A, 0x20, 0x20, 0, 7, 8] := by
  let text : Directive := ⟨⟨'A', .text .space⟩, .greedy, 0⟩
  let nul : Directive := ⟨⟨'x', .nulByte⟩, .greedy, 2⟩
  let byte : Directive := ⟨⟨'C', .number (.integer .byte .machine false)⟩, .greedy, 4⟩
  have hparse : parseFormat "A*x*C*" = .ok [text, nul, byte] := by decide +kernel
  have hbuild : (Plan.build [text, nul, byte] [.text "abc", .int 1, .int 2]).outcome =
      .ok ⟨[⟨text, 3⟩, ⟨nul, 1⟩, ⟨byte, 2⟩], 6, 'C', 3⟩ := by decide +kernel
  have hpack : packDirectives 6 [text, nul, byte] [.text "abc", .int 1, .int 2] =
      ⟨[.greedyIgnored 'x'], .ok [0x61, 0x62, 0x63, 0, 1, 2]⟩ := by
    apply Reported.ext <;> decide +kernel
  have hformat : settledFormat "A*x*C*" [text, nul, byte] [.text "abc", .int 1, .int 2] =
      "A3x1C2" := by decide +kernel
  have hwrite : ((Plan.mk [⟨text, 3⟩, ⟨nul, 1⟩, ⟨byte, 2⟩] 6 'C' 3).write 6
      [.text "z", .int 7, .int 8, .null]).outcome = .ok [0x7A, 0x20, 0x20, 0, 7, 8] := by
    decide +kernel
  obtain ⟨settled, hsettled, _, _, hgiven, hsame⟩ := plan_of_settled_format hparse hbuild
  obtain ⟨other, _, _, _, hother⟩ :=
    hgiven [.text "z", .int 7, .int 8, .null] (by decide)
  rw [hformat] at hsettled
  refine ⟨_, settled, hparse, hsettled, by rw [hpack], ?_, ?_⟩
  · obtain ⟨houtcome, hreports⟩ := hsame 6
    rw [hpack] at houtcome hreports
    exact Reported.ext hreports houtcome
  · rw [(hother 6).2]
    exact hwrite

end BytePack
