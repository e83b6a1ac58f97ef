import BytePack.Plan
import BytePack.Proofs.Lemmas.Run

/-!
# Sizing as arithmetic

Over unbounded numbers a step takes the cursor to its target, and sizing follows the targets as long
as none is past `maxPosition`. The size is the furthest target, so every position that a part of the
steps reaches is at most the size of the whole.
-/

namespace BytePack

/-! ## One step -/

/-- Whether a layout places the cursor instead of putting bytes down. -/
def Layout.seeks : Layout → Bool
  | .backUp => true
  | .absolute => true
  | _ => false

/-- The number of bytes that `n` repetitions of a layout take up. -/
def Layout.span : Layout → Nat → Nat
  | .text _, n => n
  | .hex _, n => nibbleRoom n
  | .number format, n => n * format.width
  | .nulByte, n => n
  | .backUp, _ => 0
  | .absolute, _ => 0

/-- The position after a step, over unbounded numbers. -/
def Step.target (s : Step) (pos : Nat) : Nat :=
  match s.layout with
  | .backUp => pos - s.count
  | .absolute => s.count
  | layout => pos + layout.span s.count

/-- What is reported of a step back past the start. -/
def Step.clampReports (s : Step) (pos : Nat) : List Diagnostic :=
  if s.layout = .backUp ∧ pos < s.count then [.outsideOfString s.symbol] else []

theorem Step.target_mono (s : Step) {p q : Nat} (h : p ≤ q) : s.target p ≤ s.target q := by
  unfold Step.target
  split <;> omega

theorem Step.target_of_not_seeks {s : Step} (h : s.layout.seeks = false) (pos : Nat) :
    s.target pos = pos + s.layout.span s.count := by
  unfold Step.target
  cases hl : s.layout <;> simp_all [Layout.seeks]

theorem Step.clampReports_of_not_seeks {s : Step} (h : s.layout.seeks = false) (pos : Nat) :
    s.clampReports pos = [] := by
  unfold Step.clampReports
  cases hl : s.layout <;> simp_all [Layout.seeks]

theorem Step.move_eq (s : Step) {pos : Nat} (h : pos ≤ maxPosition) :
    s.move pos =
      if s.target pos ≤ maxPosition then ⟨s.clampReports pos, .ok (s.target pos)⟩
      else .fail (.overflow (.position s.symbol)) := by
  unfold Step.move Step.target Step.clampReports
  cases hl : s.layout with
  | text padding =>
      simp only [advance?_eq, Layout.width, Layout.span, Nat.mul_one]
      by_cases hc : pos + s.count ≤ maxPosition <;> simp [hc, Reported.done]
  | hex order =>
      simp only [advance?_eq, Layout.span, Nat.mul_one]
      by_cases hc : pos + nibbleRoom s.count ≤ maxPosition <;> simp [hc, Reported.done]
  | number format =>
      simp only [advance?_eq, Layout.width, Layout.span]
      by_cases hc : pos + s.count * format.width ≤ maxPosition <;> simp [hc, Reported.done]
  | nulByte =>
      simp only [advance?_eq, Layout.width, Layout.span, Nat.mul_one]
      by_cases hc : pos + s.count ≤ maxPosition <;> simp [hc, Reported.done]
  | backUp =>
      have htarget : pos - s.count ≤ maxPosition := by omega
      by_cases hc : s.count ≤ pos
      · simp [hc, htarget, Reported.done, Nat.not_lt.2 hc]
      · have hzero : pos - s.count = 0 := by omega
        simp [hc, hzero, Nat.lt_of_not_le hc]
  | absolute => by_cases hc : s.count ≤ maxPosition <;> simp [hc, Reported.done]

/-! ## The extent -/

/-- The furthest position is at least the present one, and both can be reached. -/
structure Extent.Sound (e : Extent) : Prop where
  pos_le : e.pos ≤ e.size
  size_le : e.size ≤ maxPosition

theorem Extent.start_sound : Extent.start.Sound := ⟨Nat.le_refl 0, Nat.zero_le _⟩

@[simp] theorem Extent.moveTo_pos (e : Extent) (symbol : Char) (pos : Nat) :
    (e.moveTo symbol pos).pos = pos := by
  unfold Extent.moveTo
  split <;> rfl

@[simp] theorem Extent.moveTo_size (e : Extent) (symbol : Char) (pos : Nat) :
    (e.moveTo symbol pos).size = max e.size pos := by
  unfold Extent.moveTo
  split
  · exact (Nat.max_eq_right (Nat.le_of_lt ‹_›)).symm
  · exact (Nat.max_eq_left (Nat.not_lt.1 ‹_›)).symm

theorem Extent.Sound.moveTo {e : Extent} (he : e.Sound) (symbol : Char) {pos : Nat}
    (h : pos ≤ maxPosition) : (e.moveTo symbol pos).Sound where
  pos_le := by rw [Extent.moveTo_pos, Extent.moveTo_size]; exact Nat.le_max_right _ _
  size_le := by rw [Extent.moveTo_size]; exact Nat.max_le.2 ⟨he.size_le, h⟩

/-- The extent after a step whose target can be reached. -/
def Extent.after (e : Extent) (s : Step) : Extent := e.moveTo s.symbol (s.target e.pos)

@[simp] theorem Extent.after_pos (e : Extent) (s : Step) : (e.after s).pos = s.target e.pos :=
  e.moveTo_pos s.symbol _

@[simp] theorem Extent.after_size (e : Extent) (s : Step) :
    (e.after s).size = max e.size (s.target e.pos) :=
  e.moveTo_size s.symbol _

theorem Step.extend_eq (s : Step) {e : Extent} (he : e.Sound) :
    s.extend e =
      if s.target e.pos ≤ maxPosition then ⟨s.clampReports e.pos, .ok (e.after s)⟩
      else .fail (.overflow (.position s.symbol)) := by
  have hpos : e.pos ≤ maxPosition := Nat.le_trans he.pos_le he.size_le
  unfold Step.extend
  rw [s.move_eq hpos]
  split
  · simp [Extent.after]
  · simp [Reported.fail]

theorem Step.extend_eq_ok {s : Step} {e e' : Extent} (he : e.Sound) :
    (s.extend e).outcome = .ok e' ↔ s.target e.pos ≤ maxPosition ∧ e' = e.after s := by
  rw [s.extend_eq he]
  by_cases h : s.target e.pos ≤ maxPosition
  · simp [h, eq_comm]
  · simp [h]

theorem Step.extend_eq_error {s : Step} {e : Extent} {err : Error} (he : e.Sound) :
    (s.extend e).outcome = .error err ↔
      maxPosition < s.target e.pos ∧ err = .overflow (.position s.symbol) := by
  rw [s.extend_eq he]
  by_cases h : s.target e.pos ≤ maxPosition
  · simp [h, Nat.not_lt.2 h]
  · simp [h, Nat.lt_of_not_le h, eq_comm]

/-! ## Some steps -/

theorem extent_run_sound {steps : List Step} {e e' : Extent} (he : e.Sound)
    (h : (steps.foldlM Step.extend e).outcome = .ok e') : e'.Sound ∧ e.size ≤ e'.size := by
  refine Reported.run_invariant (I := fun m => m.Sound ∧ e.size ≤ m.size) ?_ ⟨he, Nat.le_refl _⟩ h
  intro s _ m m' ⟨hm, hle⟩ hs
  obtain ⟨ht, rfl⟩ := (Step.extend_eq_ok hm).1 hs
  refine ⟨hm.moveTo s.symbol ht, Nat.le_trans hle ?_⟩
  rw [Extent.after_size]
  exact Nat.le_max_left _ _

/-- What the first step of a sized run does, and how much of the size the run needs for it. -/
structure SizedStep (s : Step) (rest : List Step) (e e' : Extent) : Prop where
  extend : s.extend e = ⟨s.clampReports e.pos, .ok (e.after s)⟩
  sound : (e.after s).Sound
  run_rest : (rest.foldlM Step.extend (e.after s)).outcome = .ok e'
  pos_le : e.pos ≤ e'.size
  target_le : s.target e.pos ≤ e'.size

theorem extent_run_cons {s : Step} {rest : List Step} {e e' : Extent} (he : e.Sound)
    (h : ((s :: rest).foldlM Step.extend e).outcome = .ok e') : SizedStep s rest e e' := by
  obtain ⟨m, hm, hrest⟩ := Reported.run_cons_eq_ok.1 h
  obtain ⟨ht, rfl⟩ := (Step.extend_eq_ok he).1 hm
  have hsound : (e.after s).Sound := he.moveTo s.symbol ht
  have hreach := (extent_run_sound hsound hrest).2
  have hpos := he.pos_le
  rw [Extent.after_size] at hreach
  exact ⟨by rw [s.extend_eq he, if_pos ht], hsound, hrest, by omega, by omega⟩

theorem measure_append {before after : List Step} {e' : Extent}
    (h : (measure (before ++ after)).outcome = .ok e') :
    ∃ e, (measure before).outcome = .ok e ∧ (after.foldlM Step.extend e).outcome = .ok e' ∧
      e.Sound ∧ e.size ≤ e'.size := by
  obtain ⟨e, hbefore, hafter⟩ := Reported.run_append_eq_ok.1 h
  have he := (extent_run_sound Extent.start_sound hbefore).1
  exact ⟨e, hbefore, hafter, he, (extent_run_sound he hafter).2⟩

/-- Sizing fails at the first step whose target is too far, and blames it. -/
theorem measure_eq_error {steps : List Step} {err : Error} :
    (measure steps).outcome = .error err ↔
      ∃ before s after e, steps = before ++ s :: after ∧ (measure before).outcome = .ok e ∧
        maxPosition < s.target e.pos ∧ err = .overflow (.position s.symbol) := by
  unfold measure
  rw [Reported.run_eq_error]
  constructor
  · rintro ⟨before, s, after, e, rfl, hbefore, hs⟩
    have he := (extent_run_sound Extent.start_sound hbefore).1
    exact ⟨before, s, after, e, rfl, hbefore, (Step.extend_eq_error he).1 hs⟩
  · rintro ⟨before, s, after, e, rfl, hbefore, hs⟩
    have he := (extent_run_sound Extent.start_sound hbefore).1
    exact ⟨before, s, after, e, rfl, hbefore, (Step.extend_eq_error he).2 hs⟩

/-! ## Plans -/

theorem Plan.build_eq_ok {format : List Directive} {args : List Scalar} {plan : Plan} :
    (Plan.build format args).outcome = .ok plan ↔
      ∃ rest e, (resolve format args).outcome = .ok (plan.steps, rest) ∧
        (measure plan.steps).outcome = .ok e ∧
        plan = ⟨plan.steps, e.size, e.furthest, args.length - rest.length⟩ := by
  unfold Plan.build
  simp only [Reported.bind_outcome_eq_ok, Reported.pure_eq]
  constructor
  · rintro ⟨⟨steps, rest⟩, hresolve, _, _, e, hmeasure, h⟩
    cases h
    exact ⟨rest, e, hresolve, hmeasure, rfl⟩
  · rintro ⟨rest, e, hresolve, hmeasure, h⟩
    exact ⟨(plan.steps, rest), hresolve, (), rfl, e, hmeasure, by rw [← h]⟩

section
variable {directives : List Directive} {args : List Scalar} {plan : Plan}

theorem Plan.measure_steps (hbuild : (Plan.build directives args).outcome = .ok plan) :
    ∃ e, (measure plan.steps).outcome = .ok e ∧ e.size = plan.size := by
  obtain ⟨_, e, _, hmeasure, hplan⟩ := Plan.build_eq_ok.1 hbuild
  exact ⟨e, hmeasure, (congrArg Plan.size hplan).symm⟩

theorem Plan.size_le_maxPosition (hbuild : (Plan.build directives args).outcome = .ok plan) :
    plan.size ≤ maxPosition := by
  obtain ⟨e, hmeasure, hsize⟩ := Plan.measure_steps hbuild
  exact hsize ▸ (extent_run_sound Extent.start_sound hmeasure).1.size_le

theorem Plan.measure_append (hbuild : (Plan.build directives args).outcome = .ok plan)
    {before after : List Step} (hsplit : plan.steps = before ++ after) :
    ∃ e e', (measure before).outcome = .ok e ∧ e.Sound ∧ e.size ≤ plan.size ∧
      (after.foldlM Step.extend e).outcome = .ok e' ∧ e'.size = plan.size := by
  obtain ⟨e', hmeasure, hsize⟩ := Plan.measure_steps hbuild
  rw [hsplit] at hmeasure
  obtain ⟨e, hbefore, hafter, hsound, hle⟩ := BytePack.measure_append hmeasure
  exact ⟨e, e', hbefore, hsound, hsize ▸ hle, hafter, hsize⟩

end

theorem Plan.write_eq {plan : Plan} {room : Nat} (h : plan.size ≤ room) (args : List Scalar) :
    plan.write room args = Writer.output <$> writeSteps plan.steps plan.size args := by
  rw [Plan.write, if_neg (Nat.not_lt.2 h)]
  rfl

theorem Plan.write_eq_ok {plan : Plan} {room : Nat} {args : List Scalar} {bytes : List UInt8} :
    (plan.write room args).outcome = .ok bytes ↔
      plan.size ≤ room ∧
        ∃ w, (writeSteps plan.steps plan.size args).outcome = .ok w ∧ bytes = w.output := by
  unfold Plan.write
  split
  · simp only [Reported.fail_outcome]
    constructor
    · intro h; cases h
    · rintro ⟨h, _⟩; omega
  · simp only [Reported.bind_outcome_eq_ok, Reported.pure_eq, Except.ok.injEq]
    constructor
    · rintro ⟨w, hw, rfl⟩
      exact ⟨by omega, w, hw, rfl⟩
    · rintro ⟨_, w, hw, rfl⟩
      exact ⟨w, hw, rfl⟩

theorem packDirectives_eq_ok {room : Nat} {format : List Directive} {args : List Scalar}
    {bytes : List UInt8} :
    (packDirectives room format args).outcome = .ok bytes ↔
      ∃ plan, (Plan.build format args).outcome = .ok plan ∧
        (plan.write room args).outcome = .ok bytes := by
  unfold packDirectives
  rw [Reported.bind_outcome_eq_ok]

end BytePack
