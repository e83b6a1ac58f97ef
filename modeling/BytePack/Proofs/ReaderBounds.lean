import BytePack.Proofs.Lemmas.ReadInPlace
import BytePack.Proofs.Lemmas.Reading

/-!
# Reading stays in bounds

Whatever a format says, a reader does not leave its input: what is taken fits into what is left,
going back stops at the start, and a jump past the end is not made. A group that ends the call has
not moved the cursor any further. So no cut and no access fails, no sum is too large for 64 bits,
and the loop over the repetitions ends, because every repetition takes at least one byte.
-/

namespace BytePack

theorem advance_within {input : List UInt8} {g : Group} {r r' : Reader} (hr : r.Within input)
    (h : (Group.advance r g).outcome = .ok r') : r'.Within input := by
  obtain ⟨reading, hread, hpos⟩ := Reported.bind_outcome_eq_ok.1 h
  cases hpos
  obtain ⟨rfl, hpos⟩ := hr
  rw [Group.read_eq] at hread
  by_cases hfit : g.Fits r.remaining
  · rw [if_pos hfit] at hread
    cases hread
    exact ⟨rfl, hfit.next_le hpos⟩
  · rw [if_neg hfit] at hread
    cases hread

/-- Unpacking by a format that can be read comes to its outcome without an access outside the input,
whatever the input and wherever it starts. Every reader on the way, and every reader between two
groups, is within the input. -/
theorem unpack_in_bounds {format : String} {limit : Nat} {groups : List Group}
    (hparse : parseGroups format limit = .ok groups) {input : List UInt8}
    (hlen : input.length ≤ maxPosition) (offset : Nat) :
    (∃ trail, unpackInPlace groups input offset =
        some (trail, unpackGroups groups input offset) ∧
      ∀ r ∈ trail, r.Within (input.drop offset)) ∧
    ∀ before after r, groups = before ++ after →
      (before.foldlM Group.advance ⟨input.drop offset, 0⟩).outcome = .ok r →
      r.Within (input.drop offset) := by
  refine ⟨?_, ?_⟩
  · unfold unpackInPlace unpackGroups
    by_cases hoffset : input.length < offset
    · rw [if_pos hoffset, if_pos hoffset]
      exact ⟨[], rfl, by simp⟩
    · have hle := Nat.not_lt.1 hoffset
      have hslice : slice? input offset input.length = some (input.drop offset) := by
        rw [slice?_eq input hle (Nat.le_refl _), List.take_length]
      have hshort : (input.drop offset).length ≤ maxPosition := by
        rw [List.length_drop]
        omega
      obtain ⟨passage, hpassage, hresult, htrail⟩ := readGroupsInPlace_eq
        (fun g hg => (readGroups_writable hparse g hg).repetition) hshort (Nat.zero_le _) .empty
      rw [if_neg hoffset, if_neg hoffset, hslice]
      refine ⟨⟨input.drop offset, 0⟩ :: passage.trail, ?_,
        List.forall_mem_cons.2 ⟨⟨rfl, Nat.zero_le _⟩, htrail⟩⟩
      simp only [hpassage, Option.bind_eq_bind, Option.bind_some]
      exact congrArg (fun outcome => some (_ :: passage.trail, outcome)) hresult
  · intro before _ r _ hrun
    exact Reported.run_invariant (I := fun r => r.Within (input.drop offset))
      (fun _ _ _ _ hwithin hstep => advance_within hwithin hstep) ⟨rfl, Nat.zero_le _⟩ hrun

/-- The largest repeat there is fails at the second byte, after a cursor that went back too far. -/
theorem unpack_in_bounds_largest_repeat :
    ∃ groups, parseGroups "X3/C18446744073709551615n" 200 = .ok groups ∧
      ∃ trail, unpackInPlace groups [1, 2] 1 = some (trail, unpackGroups groups [1, 2] 1) ∧
        ∀ r ∈ trail, r.Within [2] := by
  have hparse : parseGroups "X3/C18446744073709551615n" 200 =
      .ok [⟨⟨⟨'X', .backUp⟩, .count 3, 0⟩, ""⟩,
        ⟨⟨⟨'C', .number (.integer .byte .machine false)⟩, .count 18446744073709551615, 3⟩,
          "n"⟩] := by
    decide +kernel
  exact ⟨_, hparse, (unpack_in_bounds hparse (by decide) 1).1⟩

end BytePack
