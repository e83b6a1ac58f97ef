import BytePack.Proofs.Lemmas.Records
import BytePack.Proofs.Lemmas.Taking

/-!
# What unpacking accepts

An offset past the input is refused. Otherwise unpacking succeeds exactly when every group fits into
what is left at its cursor, whatever the cursor did before; the record then collects the fields that
the groups emit. If not, the first group that does not fit ends the call with its shortage.
-/

namespace BytePack

theorem Group.shortage_ne_range (g : Group) (left offset length : Nat) :
    g.shortage left ≠ .range offset length := by
  unfold Group.shortage
  split <;> exact Error.noConfusion

theorem unpackGroups_of_lt {groups : List Group} {input : List UInt8} {offset : Nat}
    (h : input.length < offset) :
    unpackGroups groups input offset = ⟨[], .error (.range offset input.length)⟩ :=
  if_pos h

theorem unpackGroups_of_le {groups : List Group} {input : List UInt8} {offset : Nat}
    (h : offset ≤ input.length) :
    unpackGroups groups input offset =
      readFields ⟨input.drop offset, 0⟩ groups >>= fun fields => pure (Record.ofList fields) :=
  if_neg (Nat.not_lt.2 h)

theorem unpackGroups_of_allFit {groups : List Group} {input : List UInt8} {offset : Nat}
    (hle : offset ≤ input.length) (h : AllFit (input.length - offset) 0 groups) :
    unpackGroups groups input offset =
      ⟨reported (input.length - offset) 0 groups,
        .ok (Record.ofList (emitted (input.drop offset) 0 groups))⟩ := by
  rw [← List.length_drop] at h ⊢
  rw [unpackGroups_of_le hle, readFields_of_allFit h, Reported.bind_ok, Reported.pure_eq,
    List.append_nil]

theorem FirstMisfit.unpackGroups_eq {groups before : List Group} {g : Group} {input : List UInt8}
    {offset : Nat} (hle : offset ≤ input.length)
    (h : FirstMisfit (input.length - offset) 0 groups before g) :
    unpackGroups groups input offset =
      ⟨reported (input.length - offset) 0 (before ++ [g]), .error (g.shortage
        (input.length - offset - cursorAfter (input.length - offset) 0 before))⟩ := by
  rw [← List.length_drop] at h ⊢
  rw [unpackGroups_of_le hle, h.readFields_eq, Reported.bind_error]

/-- Unpacking accepts exactly the offsets within the input and the groups that fit after them. -/
theorem unpackGroups_accepts (groups : List Group) (input : List UInt8) (offset : Nat) :
    ((∃ start length, (unpackGroups groups input offset).outcome = .error (.range start length)) ↔
      input.length < offset) ∧
    (input.length < offset →
      unpackGroups groups input offset = ⟨[], .error (.range offset input.length)⟩) ∧
    (offset ≤ input.length →
      (AllFit (input.length - offset) 0 groups →
        ∃ record, unpackGroups groups input offset =
            ⟨reported (input.length - offset) 0 groups, .ok record⟩ ∧
          record.Collects (emitted (input.drop offset) 0 groups)) ∧
      (¬ AllFit (input.length - offset) 0 groups →
        ∃ before g, FirstMisfit (input.length - offset) 0 groups before g ∧
          unpackGroups groups input offset =
            ⟨reported (input.length - offset) 0 (before ++ [g]), .error (g.shortage
              (input.length - offset - cursorAfter (input.length - offset) 0 before))⟩)) := by
  have hpast : input.length < offset →
      unpackGroups groups input offset = ⟨[], .error (.range offset input.length)⟩ :=
    fun h => if_pos h
  refine ⟨⟨?_, ?_⟩, hpast, fun hle => ⟨?_, ?_⟩⟩
  · rintro ⟨start, length, herror⟩
    apply Classical.byContradiction
    intro hle
    have hle := Nat.not_lt.1 hle
    by_cases hfit : AllFit (input.length - offset) 0 groups
    · rw [unpackGroups_of_allFit hle hfit] at herror
      cases herror
    · obtain ⟨before, g, hmisfit⟩ := exists_firstMisfit hfit
      rw [hmisfit.unpackGroups_eq hle] at herror
      exact g.shortage_ne_range _ _ _ (Except.error.inj herror)
  · intro h
    exact ⟨offset, input.length, congrArg Reported.outcome (hpast h)⟩
  · intro hfit
    exact ⟨_, unpackGroups_of_allFit hle hfit, Record.collects_ofList _⟩
  · intro hmisfit
    obtain ⟨before, g, hfirst⟩ := exists_firstMisfit hmisfit
    exact ⟨before, g, hfirst, hfirst.unpackGroups_eq hle⟩

/-- Two words and a byte that stays unread; then back past the start, and the first byte again under
a key that is taken. -/
theorem unpackGroups_accepts_again :
    ∃ record, unpackGroups
        [⟨⟨⟨'v', .number (.integer .short .littleEndian false)⟩, .greedy, 0⟩, "w"⟩,
          ⟨⟨⟨'X', .backUp⟩, .count 9, 4⟩, ""⟩,
          ⟨⟨⟨'C', .number (.integer .byte .machine false)⟩, .count 1, 7⟩, "w1"⟩]
        [5, 1, 6, 0, 7] 0 = ⟨[.outsideOfString 'X'], .ok record⟩ ∧
      record.keys = ["w1", "w2"] ∧ record.get? "w1" = some (.int 5) ∧
      record.get? "w2" = some (.int 6) := by
  obtain ⟨record, hread, hcollects⟩ := ((unpackGroups_accepts
    [⟨⟨⟨'v', .number (.integer .short .littleEndian false)⟩, .greedy, 0⟩, "w"⟩,
      ⟨⟨⟨'X', .backUp⟩, .count 9, 4⟩, ""⟩,
      ⟨⟨⟨'C', .number (.integer .byte .machine false)⟩, .count 1, 7⟩, "w1"⟩]
    [5, 1, 6, 0, 7] 0).2.2 (by decide)).1 (by decide +kernel)
  refine ⟨record, hread, ?_, ?_, ?_⟩
  · rw [hcollects.keys]
    decide +kernel
  · rw [hcollects.get?]
    decide +kernel
  · rw [hcollects.get?]
    decide +kernel

end BytePack
