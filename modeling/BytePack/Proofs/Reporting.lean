import BytePack.Proofs.Lemmas.ExactCursor
import BytePack.Proofs.Lemmas.Formats
import BytePack.Proofs.Lemmas.Refusals

/-!
# All that packing reports

Packing goes over the directives three times and reports as it goes: first the repeats it ignores and
the arguments it has left over, then the steps back past the start, then what is wrong with digits.
Each pass can end the call, at the first directive or step that it cannot serve, and what the passes
have reported by then is all that is reported.
-/

namespace BytePack

/-! ## Sizing -/

/-- What is reported of the steps back past the start, with the cursor at a position. -/
def clampsFrom : Nat → List Step → List Diagnostic
  | _, [] => []
  | pos, s :: steps => s.clampReports pos ++ clampsFrom (s.target pos) steps

theorem extent_run_reports {steps : List Step} {e e' : Extent} (he : e.Sound)
    (h : (steps.foldlM Step.extend e).outcome = .ok e') :
    (steps.foldlM Step.extend e).diagnostics = clampsFrom e.pos steps := by
  induction steps generalizing e with
  | nil => rfl
  | cons s steps ih =>
      have hs := extent_run_cons he h
      rw [List.foldlM_cons, hs.extend, Reported.bind_ok, ih hs.sound hs.run_rest, Extent.after_pos,
        clampsFrom]

theorem measure_of_staysWithin {steps : List Step} (h : StaysWithin maxPosition steps) :
    ∃ e, measure steps = ⟨clampsFrom 0 steps, .ok e⟩ ∧ e.Tracks steps := by
  cases hm : (measure steps).outcome with
  | ok e =>
      have hreports := extent_run_reports Extent.start_sound hm
      exact ⟨e, Reported.ext hreports hm, measure_tracks hm⟩
  | error err =>
      obtain ⟨before, s, hfirst, _⟩ := measure_eq_error_iff.1 hm
      exact absurd hfirst.reaches (Nat.not_le.2 (Nat.lt_succ_of_le (h _ hfirst.stands)))

theorem FirstReaches.measure_eq {steps before : List Step} {s : Step}
    (h : FirstReaches (maxPosition + 1) steps before s) :
    measure steps = ⟨clampsFrom 0 before, .error (.overflow (.position s.symbol))⟩ := by
  obtain ⟨⟨after, rfl⟩, hbefore, hpast⟩ := h
  have hwithin : StaysWithin maxPosition before := fun front hfront =>
    Nat.le_of_lt_succ (hbefore front hfront)
  obtain ⟨e, hmeasure, htracks⟩ := measure_of_staysWithin hwithin
  have he : e.Sound := (extent_run_sound Extent.start_sound (congrArg Reported.outcome hmeasure)).1
  rw [exactCursor_concat, ← htracks.pos] at hpast
  rw [measure, List.append_assoc, List.singleton_append, List.foldlM_append, ← measure, hmeasure,
    Reported.bind_ok, List.foldlM_cons, s.extend_eq he, if_neg (Nat.not_le.2 hpast)]
  exact congrArg (Reported.mk · _) (List.append_nil _)

/-! ## Ends of packing -/

/-- What settling reports: the repeats that are ignored, then the arguments that are left over. -/
def settlingReports (ds : List Directive) (args : List Scalar) : List Diagnostic :=
  ds.flatMap Directive.settleReports ++ unusedReports (leftAfter args.length ds)

/-- How packing ends, and all that it reports until then: at a directive short of arguments, at a step
past the last position, for want of memory, at an argument that is no number, or with an output. -/
inductive PackEnds (room : Nat) (ds : List Directive) (args : List Scalar) :
    List Diagnostic → Except Error Unit → Prop where
  | short {before : List Directive} {d : Directive}
      (hfirst : FirstShort args.length ds before d) :
      PackEnds room ds args (before.flatMap Directive.settleReports)
        (.error (.argument d.shortage))
  | tooFar {before : List Step} {s : Step} (hserved : AllServed args.length ds)
      (hfirst : FirstReaches (maxPosition + 1) (settle ds args) before s) :
      PackEnds room ds args (settlingReports ds args ++ clampsFrom 0 before)
        (.error (.overflow (.position s.symbol)))
  | noRoom {size : Nat} {before : List Step} {s : Step} (hserved : AllServed args.length ds)
      (hsize : size ≤ maxPosition) (hwithin : StaysWithin size (settle ds args))
      (hroom : room < size) (hfirst : FirstReaches size (settle ds args) before s) :
      PackEnds room ds args (settlingReports ds args ++ clampsFrom 0 (settle ds args))
        (.error (.overflow (.position s.symbol)))
  | refused {before : List Step} {s : Step} {e : Error} (hserved : AllServed args.length ds)
      (hwithin : StaysWithin maxPosition (settle ds args))
      (hroom : StaysWithin room (settle ds args))
      (hfirst : FirstRefused (settle ds args) args before s e) :
      PackEnds room ds args
        (settlingReports ds args ++ clampsFrom 0 (settle ds args) ++ digitReports before args)
        (.error e)
  | packed (hserved : AllServed args.length ds) (hwithin : StaysWithin maxPosition (settle ds args))
      (hroom : StaysWithin room (settle ds args)) (hall : AllAccepted (settle ds args) args) :
      PackEnds room ds args
        (settlingReports ds args ++ clampsFrom 0 (settle ds args) ++
          digitReports (settle ds args) args)
        (.ok ())

section
variable {room : Nat} {directives : List Directive} {args : List Scalar}

theorem packDirectives_of_measure (hserved : AllServed args.length directives)
    {clamps : List Diagnostic} {outcome : Except Error Extent}
    (hmeasure : measure (settle directives args) = ⟨clamps, outcome⟩) :
    packDirectives room directives args =
      (Reported.mk (settlingReports directives args ++ clamps) outcome) >>= fun e =>
        Plan.write ⟨settle directives args, e.size, e.furthest,
          args.length - leftAfter args.length directives⟩ room args := by
  rw [packDirectives, Plan.build_of_served hserved, hmeasure, settlingReports, List.append_assoc]
  cases outcome <;> rfl

theorem takenBy_settle_le (hserved : AllServed args.length directives) :
    takenBy (settle directives args) ≤ args.length := by
  have := takenBy_settle hserved
  omega

/-- With memory for the output, packing ends as writing does. -/
theorem packDirectives_of_room (hserved : AllServed args.length directives)
    (hwithin : StaysWithin maxPosition (settle directives args))
    (hroom : StaysWithin room (settle directives args)) :
    ∃ w : Writer, w.unread = args ∧
      packDirectives room directives args =
        Reported.mk (settlingReports directives args ++ clampsFrom 0 (settle directives args))
          (.ok ()) >>= fun _ => Writer.output <$> (settle directives args).foldlM Step.write w := by
  obtain ⟨e, hmeasure, htracks⟩ := measure_of_staysWithin hwithin
  refine ⟨⟨List.replicate e.size 0, 0, args⟩, rfl, ?_⟩
  rw [packDirectives_of_measure hserved hmeasure, Reported.bind_ok, Reported.bind_ok,
    Plan.write_eq (htracks.size_le_iff.2 hroom)]
  rfl

theorem PackEnds.sound {reports : List Diagnostic} {ending : Except Error Unit}
    (h : PackEnds room directives args reports ending) :
    (packDirectives room directives args).diagnostics = reports ∧
      (packDirectives room directives args).outcome.map (fun _ => ()) = ending := by
  cases h with
  | short hfirst =>
      rw [packDirectives, hfirst.build_eq, Reported.bind_error]
      exact ⟨rfl, rfl⟩
  | tooFar hserved hfirst =>
      rw [packDirectives_of_measure hserved hfirst.measure_eq, Reported.bind_error]
      exact ⟨rfl, rfl⟩
  | noRoom hserved hsize hwithin hroom hfirst =>
      obtain ⟨e, hmeasure, htracks⟩ := measure_of_staysWithin fun front hfront =>
        Nat.le_trans (hwithin front hfront) hsize
      -- the step that sizing blames is the one that comes there first, and there is only one
      obtain rfl : e.size = _ := Nat.le_antisymm (htracks.size_le_iff.2 hwithin)
        (Nat.le_trans hfirst.reaches (htracks.le_size _ hfirst.stands))
      obtain ⟨before', s', hfirst', hsymbol⟩ := htracks.furthest (Nat.zero_lt_of_lt hroom)
      obtain ⟨_, rfl⟩ := hfirst.unique hfirst'
      rw [packDirectives_of_measure hserved hmeasure, Reported.bind_ok, Plan.write, if_pos hroom,
        ← hsymbol]
      exact ⟨List.append_nil _, rfl⟩
  | refused hserved hwithin hroom hfirst =>
      obtain ⟨w, rfl, hpack⟩ := packDirectives_of_room hserved hwithin hroom
      rw [hpack, hfirst.run_eq (takenBy_settle_le hserved), Reported.map_eq, Reported.bind_ok]
      exact ⟨rfl, rfl⟩
  | packed hserved hwithin hroom hall =>
      obtain ⟨w, rfl, hpack⟩ := packDirectives_of_room hserved hwithin hroom
      obtain ⟨w', hrun⟩ := writer_run_accepted (takenBy_settle_le hserved) hall
      rw [hpack, hrun, Reported.map_eq, Reported.bind_ok]
      exact ⟨rfl, rfl⟩

theorem exists_packEnds (room : Nat) (directives : List Directive) (args : List Scalar) :
    ∃ reports ending, PackEnds room directives args reports ending := by
  by_cases hserved : AllServed args.length directives
  · by_cases hwithin : StaysWithin maxPosition (settle directives args)
    · by_cases hroom : StaysWithin room (settle directives args)
      · by_cases hall : AllAccepted (settle directives args) args
        · exact ⟨_, _, .packed hserved hwithin hroom hall⟩
        · obtain ⟨before, s, e, hfirst⟩ := exists_firstRefused hall
          exact ⟨_, _, .refused hserved hwithin hroom hfirst⟩
      · obtain ⟨e, _, htracks⟩ := measure_of_staysWithin hwithin
        have hlt : room < e.size := Nat.lt_of_not_le fun hle => hroom (htracks.size_le_iff.1 hle)
        obtain ⟨before, s, hfirst, _⟩ := htracks.furthest (Nat.zero_lt_of_lt hlt)
        exact ⟨_, _, .noRoom hserved (htracks.size_le_iff.2 hwithin)
          (htracks.size_le_iff.1 (Nat.le_refl _)) hlt hfirst⟩
    · obtain ⟨before, s, hfirst⟩ := exists_firstReaches_of_not hwithin
      exact ⟨_, _, .tooFar hserved hfirst⟩
  · obtain ⟨before, d, hfirst⟩ := exists_firstShort hserved
    exact ⟨_, _, .short hfirst⟩

end

/-- Packing ends in exactly one way, with exactly these reports. If there is an output, they are those
of settling, one for each step back past the start, and then, text by text, one if digits are missing
and one for each character that is no digit. -/
theorem packFormat_reports_exactly {format : String} {directives : List Directive}
    (hparse : parseFormat format = .ok directives) (room : Nat) (args : List Scalar) :
    (∀ bytes, (packFormat room format args).outcome = .ok bytes →
      (packFormat room format args).diagnostics =
        settlingReports directives args ++ clampsFrom 0 (settle directives args) ++
          digitReports (settle directives args) args) ∧
    ∀ reports ending, PackEnds room directives args reports ending ↔
      (packFormat room format args).diagnostics = reports ∧
        (packFormat room format args).outcome.map (fun _ => ()) = ending := by
  rw [packFormat_of_parse hparse]
  obtain ⟨_, _, hends⟩ := exists_packEnds room directives args
  obtain ⟨hreports, hending⟩ := hends.sound
  refine ⟨fun bytes hpack => ?_, fun reports ending => ⟨PackEnds.sound, ?_⟩⟩
  · rw [hpack] at hending
    cases hends with
    | packed => exact hreports
    | short | tooFar | noRoom | refused => cases hending
  · rintro ⟨rfl, rfl⟩
    rwa [hreports, hending]

/-- Every kind of report, in order; with too little memory those of digits are missing, and with an
argument that is no number there is an error behind them. -/
theorem packFormat_reports_exactly_all_kinds :
    let digits : Scalar := .bytes [0x66, 0xE9, 0x67]
    let early : List Diagnostic := [.greedyIgnored 'x', .unusedArguments 1, .outsideOfString 'X']
    let late : List Diagnostic :=
      [.notEnoughCharacters 'H', .illegalHexDigit 'H' 'é', .illegalHexDigit 'H' 'g']
    ∃ directives, parseFormat "x*X9H4C" = .ok directives ∧
      (packFormat 3 "x*X9H4C" [digits, .text "7", .null]).outcome = .ok [0xF0, 0, 7] ∧
      (packFormat 3 "x*X9H4C" [digits, .text "7", .null]).diagnostics = early ++ late ∧
      PackEnds 2 directives [digits, .text "7", .null] early (.error (.overflow (.position 'C'))) ∧
      PackEnds 3 directives [digits, .object "o", .null] (early ++ late)
        (.error (.unsupportedType (.integer "o"))) := by
  intro digits early late
  let nul : Directive := ⟨⟨'x', .nulByte⟩, .greedy, 0⟩
  let back : Directive := ⟨⟨'X', .backUp⟩, .count 9, 2⟩
  let text : Directive := ⟨⟨'H', .hex .highFirst⟩, .count 4, 4⟩
  let byte : Directive := ⟨⟨'C', .number (.integer .byte .machine false)⟩, .count 1, 6⟩
  have hparse : parseFormat "x*X9H4C" = .ok [nul, back, text, byte] := by decide +kernel
  have hpack : (packFormat 3 "x*X9H4C" [digits, .text "7", .null]).outcome = .ok [0xF0, 0, 7] := by
    decide +kernel
  obtain ⟨hreports, _⟩ := packFormat_reports_exactly hparse 3 [digits, .text "7", .null]
  obtain ⟨_, hroom⟩ := packFormat_reports_exactly hparse 2 [digits, .text "7", .null]
  obtain ⟨_, hobject⟩ := packFormat_reports_exactly hparse 3 [digits, .object "o", .null]
  refine ⟨_, hparse, hpack, (hreports _ hpack).trans ?_, (hroom _ _).2 ⟨?_, ?_⟩,
    (hobject _ _).2 ⟨?_, ?_⟩⟩ <;> decide +kernel

end BytePack
