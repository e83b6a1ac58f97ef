import BytePack.Proofs.Lemmas.Writing

/-!
# Where the passes are

Before the step at a place, sizing and writing have each gone through the steps in front of it. Passes
that go through are somewhere before every step, and go from there as the step says.
-/

namespace BytePack

/-- The position of sizing before the step at a place. -/
def sizingCursor (steps : List Step) (k : Nat) : Option Nat :=
  (measure (steps.take k)).outcome.toOption.map Extent.pos

/-- The position of writing before the step at a place. -/
def writingCursor (steps : List Step) (size : Nat) (args : List Scalar) (k : Nat) : Option Nat :=
  (writeSteps (steps.take k) size args).outcome.toOption.map Writer.pos

variable {steps : List Step} {size : Nat} {args : List Scalar} {e e' : Extent} {w w' : Writer}
  {k : Nat}

/-- Where both passes are before the step at a place. -/
structure PassesAt (steps : List Step) (size : Nat) (args : List Scalar) (k : Nat) (e : Extent)
    (w : Writer) : Prop where
  sized : (measure (steps.take k)).outcome = .ok e
  written : (writeSteps (steps.take k) size args).outcome = .ok w

theorem PassesAt.sound (h : PassesAt steps size args k e w) : e.Sound :=
  (extent_run_sound Extent.start_sound h.sized).1

theorem PassesAt.sizingCursor_eq (h : PassesAt steps size args k e w) :
    sizingCursor steps k = some e.pos := by
  rw [sizingCursor, h.sized]
  rfl

theorem PassesAt.writingCursor_eq (h : PassesAt steps size args k e w) :
    writingCursor steps size args k = some w.pos := by
  rw [writingCursor, h.written]
  rfl

/-- Passes that go through are somewhere before each step, writing not further than sizing. -/
theorem exists_passesAt (hmeasure : (measure steps).outcome = .ok e')
    (hwrite : (writeSteps steps size args).outcome = .ok w') (hsize : e'.size ≤ size) (k : Nat) :
    ∃ e w, PassesAt steps size args k e w ∧ w.pos ≤ e.pos := by
  rw [← List.take_append_drop k steps] at hmeasure hwrite
  obtain ⟨e, he, _, _, hle⟩ := measure_append hmeasure
  obtain ⟨w, hw, _⟩ := Reported.run_append_eq_ok.1 hwrite
  exact ⟨e, w, ⟨he, hw⟩, (writeSteps_behind he hw (Nat.le_trans hle hsize)).1⟩

/-- One step further. -/
theorem PassesAt.next (h : PassesAt steps size args k e w)
    (h' : PassesAt steps size args (k + 1) e' w') {s : Step} (hs : steps[k]? = some s) :
    s.target e.pos ≤ maxPosition ∧ e' = e.after s ∧
      ∃ stroke, s.Strikes w.pos w.unread stroke ∧ w' = w.after stroke := by
  have htake : steps.take (k + 1) = steps.take k ++ [s] := by
    rw [List.take_add_one, hs, Option.toList_some]
  obtain ⟨hsized, hwritten⟩ := h'
  rw [htake] at hsized hwritten
  obtain ⟨m, hm, hstep⟩ := Reported.run_append_eq_ok.1 hsized
  cases h.sized.symm.trans hm
  obtain ⟨m, hm, hstrike⟩ := Reported.run_append_eq_ok.1 hwritten
  cases h.written.symm.trans hm
  obtain ⟨_, hstep, hdone⟩ := Reported.run_cons_eq_ok.1 hstep
  rw [Reported.run_nil_eq_ok] at hdone
  subst hdone
  obtain ⟨stroke, hk, _, hdone⟩ := writer_run_cons hstrike
  rw [Reported.run_nil_eq_ok] at hdone
  obtain ⟨htarget, he⟩ := (Step.extend_eq_ok h.sound).1 hstep
  exact ⟨htarget, he, stroke, hk, hdone⟩

end BytePack
