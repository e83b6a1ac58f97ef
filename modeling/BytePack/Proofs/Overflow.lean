import BytePack.Proofs.Lemmas.CheckedSizing
import BytePack.Proofs.Lemmas.ExactCursor
import BytePack.Proofs.Lemmas.Settling
import BytePack.Proofs.Lemmas.Supply

/-!
# Overflow

Sizing checks every product and every sum, and the position again. Together the checks find exactly
what a cursor over unbounded numbers shows: the first step that goes past `maxPosition`, and else
how far the steps go and which of them goes there first. That one is named if there is no memory for
the output, before writing looks at an argument.
-/

namespace BytePack

section
variable {format : String} {directives : List Directive} {args : List Scalar} {plan : Plan}

/-! ## Building -/

theorem Plan.build_error_iff (hserved : AllServed args.length directives) {err : Error} :
    (Plan.build directives args).outcome = .error err ↔
      ∃ before s, FirstReaches (maxPosition + 1) (settle directives args) before s ∧
        err = .overflow (.position s.symbol) := by
  rw [Plan.build_of_served hserved, ← measure_eq_error_iff]
  cases (measure (settle directives args)).outcome <;> simp [Except.map]

theorem Plan.exists_overflow_iff (hserved : AllServed args.length directives) :
    (∃ fault, (Plan.build directives args).outcome = .error (.overflow fault)) ↔
      ∃ front, front <+: settle directives args ∧ maxPosition < exactCursor front := by
  constructor
  · rintro ⟨fault, h⟩
    obtain ⟨before, s, hfirst, _⟩ := (Plan.build_error_iff hserved).1 h
    exact ⟨before ++ [s], hfirst.stands, hfirst.reaches⟩
  · rintro ⟨front, hfront, hpast⟩
    obtain ⟨before, s, hfirst⟩ := exists_firstReaches (Nat.succ_pos _) hfront hpast
    exact ⟨_, (Plan.build_error_iff hserved).2 ⟨before, s, hfirst, rfl⟩⟩

/-- The size of a plan is the furthest position of the exact cursor, and the plan remembers the step
that first came there. -/
theorem Plan.tracks (hbuild : (Plan.build directives args).outcome = .ok plan) :
    plan.steps = settle directives args ∧
      ∃ e : Extent, e.Tracks plan.steps ∧ e.size = plan.size ∧ e.furthest = plan.furthest := by
  obtain ⟨_, e, hmeasure, rfl⟩ := Plan.build_eq_ok_settle.1 hbuild
  exact ⟨rfl, e, measure_tracks hmeasure, rfl, rfl⟩

/-! ## Writing -/

theorem Plan.write_overflow_iff (plan : Plan) (room : Nat) (given : List Scalar) :
    (∃ fault, (plan.write room given).outcome = .error (.overflow fault)) ↔ room < plan.size := by
  constructor
  · rintro ⟨fault, h⟩
    refine Nat.lt_of_not_le fun hroom => ?_
    rw [Plan.write_eq hroom, Reported.map_eq] at h
    cases hrun : (writeSteps plan.steps plan.size given).outcome with
    | ok w => simp [hrun, Except.map] at h
    | error err =>
        simp only [hrun, Except.map, Except.error.injEq] at h
        subst h
        obtain ⟨_, s, _, w, _, _, hs⟩ := Reported.run_eq_error.1 hrun
        rcases Step.write_error hs with (h | h) | ⟨_, h⟩ <;> cases h
  · intro hroom
    exact ⟨_, by rw [Plan.write, if_pos hroom, Reported.fail_outcome]⟩

theorem Code.symbol_ne_nul {code : Code} (h : code ∈ codes) : code.symbol ≠ '\x00' := by
  have hall : ∀ code ∈ codes, code.symbol ≠ '\x00' := by decide
  exact hall code h

/-- Without memory for the output it is the first step to reach the size that is named, whatever the
arguments. -/
theorem Plan.write_without_room (hparse : parseFormat format = .ok directives)
    (hbuild : (Plan.build directives args).outcome = .ok plan) {room : Nat}
    (hroom : room < plan.size) :
    ∃ before s, FirstReaches plan.size plan.steps before s ∧ s.symbol ≠ '\x00' ∧
      ∀ given, plan.write room given = ⟨[], .error (.overflow (.position s.symbol))⟩ := by
  obtain ⟨_, e, htracks, hsize, hfurthest⟩ := Plan.tracks hbuild
  obtain ⟨before, s, hfirst, hsymbol⟩ := htracks.furthest (by omega)
  rw [hsize] at hfirst
  have hs : s ∈ plan.steps := hfirst.stands.subset (List.mem_append_right _ List.mem_cons_self)
  have hcode := (Plan.directive_writable hparse hbuild s hs).code
  refine ⟨before, s, hfirst, Code.symbol_ne_nul (Code.mem_of_ofChar? hcode), fun given => ?_⟩
  rw [Plan.write, if_pos hroom, ← hfurthest, hsymbol]
  rfl

/-- A step that is reached is written without an access outside the output and without a sum that is
no 64-bit number, and the arguments before it are a part of those that are given. -/
theorem Plan.write_step_in_bounds (hbuild : (Plan.build directives args).outcome = .ok plan)
    {given : List Scalar} {before after : List Step} {s : Step} {w : Writer}
    (hsplit : plan.steps = before ++ s :: after)
    (hwrite : (writeSteps before plan.size given).outcome = .ok w) :
    s.writeInPlace w = some (Step.write w s) ∧ takenBy before ≤ given.length ∧
      w.unread = given.drop (takenBy before) := by
  obtain ⟨e, e', hmeasure, hsound, hle, hrest, hsize⟩ := Plan.measure_append hbuild hsplit
  obtain ⟨hpos, hlen⟩ := writeSteps_behind hmeasure hwrite hle
  have hs := extent_run_cons hsound hrest
  have hend : s.target w.pos ≤ w.output.length := by
    rw [hlen, ← hsize]
    exact Nat.le_trans (s.target_mono hpos) hs.target_le
  refine ⟨Step.writeInPlace_eq hend ?_, writer_run_takes hwrite⟩
  rw [hlen]
  exact Plan.size_le_maxPosition hbuild

/-! ## Overflow -/

/-- With enough arguments, a format fails to build exactly if the exact cursor goes past
`maxPosition`, and names the first step that takes it there; otherwise the size of the plan is the
furthest that the cursor goes. The plan overflows exactly if there is no memory for this size, and
then names the first step that reached it, whatever it is given and before anything is reported. No
sum, product or difference on the way fails to be a 64-bit number. -/
theorem overflow_exact (hparse : parseFormat format = .ok directives)
    (hserved : AllServed args.length directives) :
    (∀ err, (Plan.build directives args).outcome = .error err ↔
      ∃ before s, FirstReaches (maxPosition + 1) (settle directives args) before s ∧
        err = .overflow (.position s.symbol)) ∧
    ((∃ fault, (Plan.build directives args).outcome = .error (.overflow fault)) ↔
      ∃ front, front <+: settle directives args ∧ maxPosition < exactCursor front) ∧
    (InMemory args → Plan.buildChecked directives args = some (Plan.build directives args)) ∧
    ∀ plan, (Plan.build directives args).outcome = .ok plan →
      plan.steps = settle directives args ∧
      (∃ front, front <+: plan.steps ∧ exactCursor front = plan.size) ∧
      (∀ front, front <+: plan.steps → exactCursor front ≤ plan.size) ∧
      (∀ room given, (∃ fault, (plan.write room given).outcome = .error (.overflow fault)) ↔
        room < plan.size) ∧
      (∀ room, room < plan.size →
        ∃ before s, FirstReaches plan.size plan.steps before s ∧ s.symbol ≠ '\x00' ∧
          ∀ given, plan.write room given = ⟨[], .error (.overflow (.position s.symbol))⟩) ∧
      ∀ given before s after w, plan.steps = before ++ s :: after →
        (writeSteps before plan.size given).outcome = .ok w →
          s.writeInPlace w = some (Step.write w s) ∧ takenBy before ≤ given.length ∧
            w.unread = given.drop (takenBy before) := by
  refine ⟨fun err => Plan.build_error_iff hserved, Plan.exists_overflow_iff hserved,
    fun hargs => Plan.buildChecked_eq
      (fun d hd => (readDirectives_writable hparse d hd).repetition) hargs, ?_⟩
  intro plan hbuild
  obtain ⟨hsteps, e, htracks, hsize, _⟩ := Plan.tracks hbuild
  refine ⟨hsteps, hsize ▸ htracks.exists_size, hsize ▸ htracks.le_size,
    plan.write_overflow_iff, fun room => Plan.write_without_room hparse hbuild, ?_⟩
  intro given before s after w hsplit hwrite
  exact Plan.write_step_in_bounds hbuild hsplit hwrite

end

/-- A byte takes the cursor to 5 first, before a jump goes there and another byte ends there. One more
byte at the last position that there is overflows. -/
theorem overflow_exact_bytes :
    (∃ directives plan, parseFormat "@4C@5XC" = .ok directives ∧
      (Plan.build directives [.int 1, .int 2]).outcome = .ok plan ∧ plan.size = 5 ∧
      Plan.buildChecked directives [.int 1, .int 2] =
        some (Plan.build directives [.int 1, .int 2]) ∧
      ∃ before s, FirstReaches 5 plan.steps before s ∧ s.symbol = 'C' ∧
        plan.write 4 [.object "none"] = ⟨[], .error (.overflow (.position 'C'))⟩) ∧
    ∃ directives fault, parseFormat "@9223372036854775807x" = .ok directives ∧
      (Plan.build directives []).outcome = .error (.overflow fault) := by
  let jump (n position : Nat) : Directive := ⟨⟨'@', .absolute⟩, .count n, position⟩
  let byte (position : Nat) : Directive :=
    ⟨⟨'C', .number (.integer .byte .machine false)⟩, .count 1, position⟩
  let back : Directive := ⟨⟨'X', .backUp⟩, .count 1, 5⟩
  let nul : Directive := ⟨⟨'x', .nulByte⟩, .count 1, 20⟩
  constructor
  · have hparse : parseFormat "@4C@5XC" = .ok [jump 4 0, byte 2, jump 5 3, back, byte 6] := by
      decide +kernel
    have hbuild : (Plan.build [jump 4 0, byte 2, jump 5 3, back, byte 6] [.int 1, .int 2]).outcome =
        .ok ⟨[⟨jump 4 0, 4⟩, ⟨byte 2, 1⟩, ⟨jump 5 3, 5⟩, ⟨back, 1⟩, ⟨byte 6, 1⟩], 5, 'C', 2⟩ := by
      decide +kernel
    have hargs : InMemory [.int 1, .int 2] := ⟨by decide, by decide +kernel⟩
    have hserved : AllServed [Scalar.int 1, .int 2].length
        [jump 4 0, byte 2, jump 5 3, back, byte 6] := by decide
    obtain ⟨_, _, hchecked, hplan⟩ := overflow_exact hparse hserved
    obtain ⟨_, _, _, _, hroom, _⟩ := hplan _ hbuild
    obtain ⟨before, s, hfirst, _, hwrite⟩ := hroom 4 (by decide)
    have hsymbol : s.symbol = 'C' := by
      have h := congrArg Reported.outcome (hwrite [])
      simpa [Plan.write] using h.symm
    refine ⟨_, _, hparse, hbuild, rfl, hchecked hargs, before, s, hfirst, hsymbol, ?_⟩
    rw [hwrite, hsymbol]
  · have hparse : parseFormat "@9223372036854775807x" =
        .ok [jump 9223372036854775807 0, nul] := by
      decide +kernel
    have hserved : AllServed ([] : List Scalar).length [jump 9223372036854775807 0, nul] := by
      decide
    obtain ⟨_, hoverflow, _⟩ := overflow_exact hparse hserved
    obtain ⟨fault, hfault⟩ := hoverflow.2
      ⟨[⟨jump 9223372036854775807 0, 9223372036854775807⟩, ⟨nul, 1⟩], List.prefix_refl _,
        by decide +kernel⟩
    exact ⟨_, fault, hparse, hfault⟩

end BytePack
