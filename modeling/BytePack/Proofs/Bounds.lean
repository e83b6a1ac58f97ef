import BytePack.Proofs.Lemmas.InPlace

/-!
# Writing stays in bounds

A plan may be written with other arguments than it was built from. A hexadecimal text can then be
shorter than sizing provided for, so the writer falls behind the cursor of sizing, but no step lets
it overtake: both cursors grow with every step that stores, the writer by no more, both go back by
the same amount, and a jump takes both to the same place.
-/

namespace BytePack

variable {directives : List Directive} {args : List Scalar} {plan : Plan}

/-- A plan is written without an access outside the output and without a sum of positions that is no
64-bit number, whatever arguments it is given. Before every step the writer is at most where sizing
was, and what is written has the size of the plan. -/
theorem Plan.write_in_bounds (hbuild : (Plan.build directives args).outcome = .ok plan)
    (room : Nat) (given : List Scalar) :
    plan.writeInPlace room given = some (plan.write room given) ∧
      (∀ before after w, plan.steps = before ++ after →
        (writeSteps before plan.size given).outcome = .ok w →
        ∃ e, (measure before).outcome = .ok e ∧ w.pos ≤ e.pos ∧ e.pos ≤ plan.size) ∧
      ∀ bytes, (plan.write room given).outcome = .ok bytes → bytes.length = plan.size := by
  refine ⟨?_, ?_, fun bytes hwrite => Plan.length_write hbuild hwrite⟩
  · obtain ⟨e, hmeasure, hsize⟩ := Plan.measure_steps hbuild
    have hlen := Plan.size_le_maxPosition hbuild
    have hsteps := writeStepsInPlace_eq (w := ⟨List.replicate plan.size 0, 0, given⟩)
      Extent.start_sound hmeasure (Nat.le_refl 0)
      (by rw [List.length_replicate]; exact Nat.le_of_eq hsize) (by rwa [List.length_replicate])
    unfold Plan.writeInPlace Plan.write
    by_cases hroom : room < plan.size
    · rw [if_pos hroom, if_pos hroom]
    · rw [if_neg hroom, if_neg hroom, hsteps]
      rfl
  · intro before after w hsplit hwrite
    obtain ⟨e, _, he, hsound, hle, _⟩ := Plan.measure_append hbuild hsplit
    have hpos := (writeSteps_behind he hwrite hle).1
    exact ⟨e, he, hpos, Nat.le_trans hsound.pos_le hle⟩

/-- A plan for four digits that is given one. -/
theorem Plan.write_in_bounds_short :
    (Plan.mk [⟨⟨⟨'H', .hex .highFirst⟩, .greedy, 0⟩, 4⟩,
      ⟨⟨⟨'C', .number (.integer .byte .machine false)⟩, .count 1, 2⟩, 1⟩] 3 'C' 2).writeInPlace 3
        [.text "f", .int 7] = some ⟨[.notEnoughCharacters 'H'], .ok [0xF0, 7, 0]⟩ := by
  let digits : Directive := ⟨⟨'H', .hex .highFirst⟩, .greedy, 0⟩
  let byte : Directive := ⟨⟨'C', .number (.integer .byte .machine false)⟩, .count 1, 2⟩
  have hbuild : (Plan.build [digits, byte] [.text "beef", .int 7]).outcome =
      .ok ⟨[⟨digits, 4⟩, ⟨byte, 1⟩], 3, 'C', 2⟩ := by decide +kernel
  have hwrite : (Plan.mk [⟨digits, 4⟩, ⟨byte, 1⟩] 3 'C' 2).write 3 [.text "f", .int 7] =
      ⟨[.notEnoughCharacters 'H'], .ok [0xF0, 7, 0]⟩ := by
    apply Reported.ext <;> decide +kernel
  rw [← hwrite]
  exact (Plan.write_in_bounds hbuild 3 [.text "f", .int 7]).1

end BytePack
