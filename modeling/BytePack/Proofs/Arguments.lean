import BytePack.Proofs.Lemmas.Supply

/-!
# Accounting for arguments

Settling and writing agree on the arguments that a format takes. Whether there are enough of them
depends on their number alone and is decided before the cursor moves. A plan takes the same number
of arguments from whatever it is given: what stands behind them is never looked at, only reported,
and without them nothing is written.
-/

namespace BytePack

/-! ## Enough arguments or not -/

section
variable {directives : List Directive} {args : List Scalar}

theorem Plan.build_error_of_served (h : AllServed args.length directives) (fault : ArgumentFault) :
    (Plan.build directives args).outcome ≠ .error (.argument fault) := by
  rw [Plan.build_of_served h]
  cases hm : (measure (settle directives args)).outcome with
  | ok extent => simp [Except.map]
  | error e =>
      obtain ⟨_, _, _, _, _, _, _, rfl⟩ := measure_eq_error.1 hm
      simp [Except.map]

/-- Settling fails exactly at the first directive that needs more arguments than are left, whatever
sizing would say. -/
theorem Plan.build_argument_error {fault : ArgumentFault} :
    (Plan.build directives args).outcome = .error (.argument fault) ↔
      ∃ before d, FirstShort args.length directives before d ∧ fault = d.shortage := by
  constructor
  · intro h
    have hshort : ¬ AllServed args.length directives := fun hserved =>
      Plan.build_error_of_served hserved fault h
    obtain ⟨before, d, hfirst⟩ := exists_firstShort hshort
    rw [hfirst.build_eq] at h
    cases h
    exact ⟨before, d, hfirst, rfl⟩
  · rintro ⟨before, d, hfirst, rfl⟩
    rw [hfirst.build_eq]

theorem Plan.exists_argument_error :
    (∃ fault, (Plan.build directives args).outcome = .error (.argument fault)) ↔
      ¬ AllServed args.length directives := by
  constructor
  · rintro ⟨fault, h⟩ hserved
    exact Plan.build_error_of_served hserved fault h
  · intro h
    obtain ⟨before, d, hfirst⟩ := exists_firstShort h
    exact ⟨d.shortage, Plan.build_argument_error.2 ⟨before, d, hfirst, rfl⟩⟩

end

/-! ## What a plan takes -/

theorem Plan.write_take {plan : Plan} {given : List Scalar}
    (h : takenBy plan.steps ≤ given.length) (room : Nat) :
    plan.write room given = plan.write room (given.take (takenBy plan.steps)) := by
  have hlen : takenBy plan.steps ≤ (given.take (takenBy plan.steps)).length := by
    rw [List.length_take]
    omega
  have happend := Plan.write_append hlen room (given.drop (takenBy plan.steps))
  rwa [List.take_append_drop] at happend

theorem Plan.write_argument_error {plan : Plan} {given : List Scalar}
    (h : takenBy plan.steps ≤ given.length) (room : Nat) (fault : ArgumentFault) :
    (plan.write room given).outcome ≠ .error (.argument fault) := by
  by_cases hroom : plan.size ≤ room
  · rw [Plan.write_eq hroom, Reported.map_eq]
    cases hw : (writeSteps plan.steps plan.size given).outcome with
    | ok w => simp [Except.map]
    | error e =>
        rintro ⟨⟩
        rcases writer_run_error h hw with he | he <;> cases he
  · simp [Plan.write, Nat.lt_of_not_le hroom]

theorem Plan.write_short {plan : Plan} {given : List Scalar}
    (h : given.length < takenBy plan.steps) (room : Nat) :
    ∃ e, (plan.write room given).outcome = .error e := by
  cases hw : (plan.write room given).outcome with
  | error e => exact ⟨e, rfl⟩
  | ok bytes =>
      obtain ⟨_, w, hrun, _⟩ := Plan.write_eq_ok.1 hw
      exact absurd (writer_run_takes hrun).1 (Nat.not_le.2 h)

/-! ## What is reported of arguments that are left over -/

/-- Whether a diagnostic tells of arguments that are left over. -/
def Diagnostic.isUnused : Diagnostic → Bool
  | .unusedArguments _ => true
  | _ => false

/-- What is reported of the arguments that directives leave over, if they find those they need. -/
def leftoverReports (left : Nat) (ds : List Directive) : List Diagnostic :=
  if AllServed left ds then unusedReports (leftAfter left ds) else []

theorem filter_unusedReports (left : Nat) :
    (unusedReports left).filter Diagnostic.isUnused = unusedReports left ∧
      (unusedReports left).filter (fun report => !report.isUnused) = [] := by
  unfold unusedReports
  split <;> exact ⟨rfl, rfl⟩

theorem not_isUnused_of_settling {ds : List Directive} {report : Diagnostic}
    (h : report ∈ ds.flatMap Directive.settleReports) : report.isUnused = false := by
  obtain ⟨d, _, h⟩ := List.mem_flatMap.1 h
  rw [Directive.mem_settleReports h]
  rfl

theorem not_isUnused_of_measure {steps : List Step} {report : Diagnostic}
    (h : report ∈ (measure steps).diagnostics) : report.isUnused = false := by
  obtain ⟨s, _, _, rfl⟩ := measure_reports h
  rfl

theorem not_isUnused_of_write {plan : Plan} {room : Nat} {report : Diagnostic}
    {given : List Scalar} (h : report ∈ (plan.write room given).diagnostics) :
    report.isUnused = false := by
  rcases Plan.write_reports h with ⟨symbol, rfl⟩ | ⟨symbol, digit, rfl⟩ <;> rfl

theorem filter_isUnused_eq_nil {reports : List Diagnostic}
    (h : ∀ report ∈ reports, report.isUnused = false) :
    reports.filter Diagnostic.isUnused = [] := by
  rw [List.filter_eq_nil_iff]
  intro report hmem
  simp [h report hmem]

theorem Plan.filter_build_reports (directives : List Directive) (args : List Scalar) :
    (Plan.build directives args).diagnostics.filter Diagnostic.isUnused =
      leftoverReports args.length directives := by
  unfold leftoverReports
  by_cases h : AllServed args.length directives
  · rw [if_pos h, Plan.build_of_served h, List.filter_append, List.filter_append,
      filter_isUnused_eq_nil fun _ => not_isUnused_of_settling,
      filter_isUnused_eq_nil fun _ => not_isUnused_of_measure, (filter_unusedReports _).1,
      List.nil_append, List.append_nil]
  · obtain ⟨before, d, hfirst⟩ := exists_firstShort h
    rw [if_neg h, hfirst.build_eq]
    exact filter_isUnused_eq_nil fun _ => not_isUnused_of_settling

theorem filter_packDirectives_unused (room : Nat) (directives : List Directive)
    (args : List Scalar) :
    (packDirectives room directives args).diagnostics.filter Diagnostic.isUnused =
      leftoverReports args.length directives := by
  rw [← Plan.filter_build_reports, packDirectives]
  cases h : (Plan.build directives args).outcome with
  | error e => rw [Reported.bind_of_error h]
  | ok plan =>
      rw [Reported.diagnostics_bind h, List.filter_append,
        filter_isUnused_eq_nil fun _ => not_isUnused_of_write, List.append_nil]

/-! ## More arguments -/

/-- Whether a directive takes all arguments that are left. -/
def Directive.TakesAll (d : Directive) : Prop :=
  d.layout.argumentClass = .repetition ∧ d.repetition = .greedy

theorem Directive.needs_of_not_takesAll {d : Directive} (h : ¬ d.TakesAll) (m n : Nat) :
    d.needs m = d.needs n := by
  unfold Directive.TakesAll at h
  unfold Directive.needs
  cases hclass : d.layout.argumentClass <;> cases hr : d.repetition <;> simp_all

theorem Directive.countFor_append {d : Directive} (h : ¬ d.TakesAll) {args : List Scalar}
    (hneeds : d.needs args.length ≤ args.length) (extra : List Scalar) :
    d.countFor (args ++ extra) = d.countFor args := by
  unfold Directive.TakesAll at h
  unfold Directive.needs at hneeds
  unfold Directive.countFor
  cases hr : d.repetition with
  | count n => rfl
  | greedy =>
      cases args with
      | cons a args =>
          cases hl : d.layout with
          | text padding => cases padding <;> rfl
          | number format => simp [hl, hr, Layout.argumentClass] at h
          | _ => rfl
      | nil =>
          cases hl : d.layout with
          | text padding => simp [hl, Layout.argumentClass] at hneeds
          | hex order => simp [hl, Layout.argumentClass] at hneeds
          | number format => simp [hl, hr, Layout.argumentClass] at h
          | _ => rfl

theorem served_append {ds : List Directive} {args : List Scalar}
    (hbounded : ∀ d ∈ ds, ¬ d.TakesAll) (h : AllServed args.length ds) (extra : List Scalar) :
    AllServed (args ++ extra).length ds ∧
      leftAfter (args ++ extra).length ds = leftAfter args.length ds + extra.length ∧
      settle ds (args ++ extra) = settle ds args := by
  induction ds generalizing args with
  | nil => exact ⟨trivial, List.length_append, rfl⟩
  | cons d ds ih =>
      obtain ⟨hd, hbounded⟩ := List.forall_mem_cons.1 hbounded
      obtain ⟨hneeds, hrest⟩ := h
      have hsame := d.needs_of_not_takesAll hd (args ++ extra).length args.length
      rw [← List.length_drop] at hrest
      obtain ⟨hserved, hleft, hsettle⟩ := ih hbounded hrest
      rw [← List.drop_append_of_le_length hneeds] at hserved hleft hsettle
      rw [List.length_drop] at hserved hleft
      rw [List.length_drop] at hleft
      refine ⟨⟨?_, ?_⟩, ?_, ?_⟩
      · rw [hsame, List.length_append]
        omega
      · rwa [hsame]
      · rw [leftAfter, leftAfter, hsame, hleft]
      · rw [settle, settle, hsame, hsettle, d.countFor_append hd hneeds]

theorem Plan.build_append {directives : List Directive} {args : List Scalar}
    (hbounded : ∀ d ∈ directives, ¬ d.TakesAll) (h : AllServed args.length directives)
    (extra : List Scalar) :
    (Plan.build directives (args ++ extra)).outcome = (Plan.build directives args).outcome ∧
      (Plan.build directives (args ++ extra)).diagnostics.filter (fun report => !report.isUnused) =
        (Plan.build directives args).diagnostics.filter (fun report => !report.isUnused) := by
  obtain ⟨hserved, hleft, hsettle⟩ := served_append hbounded h extra
  have hconsumed : (args ++ extra).length - leftAfter (args ++ extra).length directives =
      args.length - leftAfter args.length directives := by
    rw [hleft, List.length_append]
    omega
  rw [Plan.build_of_served h, Plan.build_of_served hserved, hsettle, hconsumed]
  simp only [List.filter_append, filter_unusedReports, and_self]

/-- Arguments that no directive needs change nothing but the report of them. -/
theorem packDirectives_append {directives : List Directive} {args : List Scalar}
    (hbounded : ∀ d ∈ directives, ¬ d.TakesAll) (h : AllServed args.length directives)
    (extra : List Scalar) (room : Nat) :
    (packDirectives room directives (args ++ extra)).outcome =
        (packDirectives room directives args).outcome ∧
      (packDirectives room directives (args ++ extra)).diagnostics.filter
          (fun report => !report.isUnused) =
        (packDirectives room directives args).diagnostics.filter
          (fun report => !report.isUnused) := by
  obtain ⟨houtcome, hreports⟩ := Plan.build_append hbounded h extra
  unfold packDirectives
  cases hbuild : (Plan.build directives args).outcome with
  | error e =>
      rw [Reported.bind_of_error hbuild, Reported.bind_of_error (houtcome.trans hbuild)]
      exact ⟨rfl, hreports⟩
  | ok plan =>
      have hle : takenBy plan.steps ≤ args.length := by
        obtain ⟨htaken, hconsumed⟩ := Plan.consumed_eq hbuild
        omega
      rw [Reported.bind_of_ok hbuild, Reported.bind_of_ok (houtcome.trans hbuild),
        Plan.write_append hle]
      simp only [List.filter_append, hreports, and_self]

/-! ## Accounting -/

/-- Settling fails for want of arguments exactly at the first directive that needs more than are
left, however far the cursor would go. Otherwise what is left over is reported once. A plan that was
built takes the arguments that the directives need, and no others, from whatever it is given. If no
directive takes all that are left, more arguments change nothing but that report. -/
theorem arguments_accounted (directives : List Directive) (args : List Scalar) :
    (∀ fault, (Plan.build directives args).outcome = .error (.argument fault) ↔
      ∃ before d, FirstShort args.length directives before d ∧ fault = d.shortage) ∧
    ((∃ fault, (Plan.build directives args).outcome = .error (.argument fault)) ↔
      ¬ AllServed args.length directives) ∧
    (∀ plan, (Plan.build directives args).outcome = .ok plan →
      plan.consumed + leftAfter args.length directives = args.length ∧
      ∀ room given,
        (plan.consumed ≤ given.length →
          (∀ fault, (plan.write room given).outcome ≠ .error (.argument fault)) ∧
          plan.write room given = plan.write room (given.take plan.consumed)) ∧
        (given.length < plan.consumed → ∃ e, (plan.write room given).outcome = .error e)) ∧
    (∀ room,
      (Plan.build directives args).diagnostics.filter Diagnostic.isUnused =
        leftoverReports args.length directives ∧
      (packDirectives room directives args).diagnostics.filter Diagnostic.isUnused =
        leftoverReports args.length directives) ∧
    ((∀ d ∈ directives, ¬ d.TakesAll) → AllServed args.length directives → ∀ extra room,
      AllServed (args ++ extra).length directives ∧
      leftAfter (args ++ extra).length directives =
        leftAfter args.length directives + extra.length ∧
      (packDirectives room directives (args ++ extra)).outcome =
        (packDirectives room directives args).outcome ∧
      (packDirectives room directives (args ++ extra)).diagnostics.filter
          (fun report => !report.isUnused) =
        (packDirectives room directives args).diagnostics.filter
          (fun report => !report.isUnused)) := by
  refine ⟨fun fault => Plan.build_argument_error, Plan.exists_argument_error, ?_,
    fun room => ⟨Plan.filter_build_reports directives args,
      filter_packDirectives_unused room directives args⟩, ?_⟩
  · intro plan hbuild
    obtain ⟨htaken, hconsumed⟩ := Plan.consumed_eq hbuild
    refine ⟨hconsumed, fun room given => ⟨fun henough => ?_, fun hshort => ?_⟩⟩
    · rw [htaken] at henough ⊢
      exact ⟨Plan.write_argument_error henough room, Plan.write_take henough room⟩
    · exact Plan.write_short (htaken ▸ hshort) room
  · intro hbounded hserved extra room
    obtain ⟨hmore, hleft, _⟩ := served_append hbounded hserved extra
    exact ⟨hmore, hleft, packDirectives_append hbounded hserved extra room⟩

/-- A number and a text: without the text the format fails, and with two arguments more it packs what
it packs with one more. -/
theorem arguments_accounted_number_text :
    ∃ directives, parseFormat "CA2" = .ok directives ∧
      (Plan.build directives [.int 1]).outcome = .error (.argument (.notEnough 'A')) ∧
      (packDirectives 3 directives [.int 1, .text "abc", .null, .null]).outcome =
        .ok [1, 0x61, 0x62] ∧
      (packDirectives 3 directives [.int 1, .text "abc", .null]).diagnostics.filter
        Diagnostic.isUnused = [.unusedArguments 1] ∧
      ∃ plan, (Plan.build directives [.int 1, .text "abc", .null]).outcome = .ok plan ∧
        plan.consumed = 2 ∧
        plan.write 3 [.int 7, .text "xyz", .null] = plan.write 3 [.int 7, .text "xyz"] ∧
        ∃ e, (plan.write 3 [.int 7]).outcome = .error e := by
  let byte : Directive := ⟨⟨'C', .number (.integer .byte .machine false)⟩, .count 1, 0⟩
  let text : Directive := ⟨⟨'A', .text .space⟩, .count 2, 1⟩
  have hbuild : (Plan.build [byte, text] [.int 1, .text "abc", .null]).outcome =
      .ok ⟨[⟨byte, 1⟩, ⟨text, 2⟩], 3, 'A', 2⟩ := by decide +kernel
  have hpack : (packDirectives 3 [byte, text] [.int 1, .text "abc", .null]).outcome =
      .ok [1, 0x61, 0x62] := by decide +kernel
  obtain ⟨hshort, _, _, _, _⟩ := arguments_accounted [byte, text] [.int 1]
  obtain ⟨_, _, hplan, hreports, hmore⟩ :=
    arguments_accounted [byte, text] [.int 1, .text "abc", .null]
  obtain ⟨_, _, hsame, _⟩ := hmore (by simp [Directive.TakesAll, byte, text])
    (by decide) [.null] 3
  obtain ⟨_, hwrite⟩ := hplan _ hbuild
  refine ⟨[byte, text], by decide +kernel,
    (hshort _).2 ⟨[byte], text, ⟨⟨[], rfl⟩, by decide, by decide⟩, rfl⟩, hsame.trans hpack,
    (hreports 3).2, _, hbuild, rfl, ?_, ?_⟩
  · exact ((hwrite 3 [.int 7, .text "xyz", .null]).1 (by decide)).2
  · exact (hwrite 3 [.int 7]).2 (by decide)

end BytePack
