import BytePack.Proofs.Acceptance
import BytePack.Proofs.Lemmas.Reading
import BytePack.Proofs.Lemmas.Spots

/-!
# What the bytes of an input decide

Two inputs of equal length take unpacking through the same positions, to the same error or to
records with the same keys and kinds of values. The value under a key depends on the bytes of the
field that was read last under it. A terminator or padding in a text decides how much of the text is
kept, and neither where the next field starts nor what is in it.
-/

namespace BytePack

/-! ## Cursors -/

theorem Group.advance_eq (g : Group) (r : Reader) :
    Group.advance r g = ⟨g.reports r.input.length r.pos,
      if g.Fits r.remaining then .ok ⟨r.input, g.next r.input.length r.pos⟩
      else .error (g.shortage r.remaining)⟩ := by
  rw [Group.advance, Group.read_eq]
  by_cases hfit : g.Fits r.remaining
  · rw [if_pos hfit, if_pos hfit, Reported.bind_ok, Reported.pure_eq, List.append_nil]
  · rw [if_neg hfit, if_neg hfit, Reported.bind_error]

/-- Where a run of groups takes the cursor, what it reports and how it fails depends on the input by
its length. -/
theorem pos_run_advance {input input' : List UInt8} (h : input.length = input'.length)
    (groups : List Group) (pos : Nat) :
    Reader.pos <$> groups.foldlM Group.advance ⟨input, pos⟩ =
      Reader.pos <$> groups.foldlM Group.advance ⟨input', pos⟩ := by
  induction groups generalizing pos with
  | nil => rfl
  | cons g groups ih =>
      rw [List.foldlM_cons, List.foldlM_cons, map_bind, map_bind, Group.advance_eq,
        Group.advance_eq, Reader.remaining, Reader.remaining, ← h]
      by_cases hfit : g.Fits (input.length - pos)
      · rw [if_pos hfit, if_pos hfit, Reported.bind_ok, Reported.bind_ok, ih]
      · rw [if_neg hfit, if_neg hfit, Reported.bind_error]

/-! ## Records -/

theorem collects_spots (input : List UInt8) (offset : Nat) (groups : List Group) :
    (Record.ofList (emitted (input.drop offset) 0 groups)).Collects
      ((spots (input.length - offset) 0 groups).map (Spot.field (input.drop offset))) := by
  rw [← List.length_drop, ← emitted_eq]
  exact Record.collects_ofList _

/-- Two inputs of equal length are read at the same positions and with the same reports, to the same
error or to records with the same keys and kinds of values; a value differs only where the inputs
differ at the spot that is read last under its key. -/
theorem unpackGroups_noninterference (groups : List Group) (offset : Nat)
    {input input' : List UInt8} (h : input.length = input'.length) :
    let places := spots (input.length - offset) 0 groups
    (unpackGroups groups input offset).diagnostics =
      (unpackGroups groups input' offset).diagnostics ∧
    (∀ n, Reader.pos <$> (groups.take n).foldlM Group.advance ⟨input.drop offset, 0⟩ =
      Reader.pos <$> (groups.take n).foldlM Group.advance ⟨input'.drop offset, 0⟩) ∧
    ((∃ e, (unpackGroups groups input offset).outcome = .error e ∧
        (unpackGroups groups input' offset).outcome = .error e) ∨
      ∃ record record',
        (unpackGroups groups input offset).outcome = .ok record ∧
        (unpackGroups groups input' offset).outcome = .ok record' ∧
        record.Collects (places.map (Spot.field (input.drop offset))) ∧
        record'.Collects (places.map (Spot.field (input'.drop offset))) ∧
        List.Forall₂ SameShape record.toList record'.toList ∧
        ∀ key ∈ record.keys, ∃ spot, lastSpot? places key = some spot ∧
          spot.pos + spot.size ≤ input.length - offset ∧
          (spot.Agrees (input.drop offset) (input'.drop offset) →
            record.get? key = record'.get? key)) := by
  intro places
  have hdrop : (input.drop offset).length = (input'.drop offset).length := by
    rw [List.length_drop, List.length_drop, h]
  have hcursors := fun n => pos_run_advance hdrop (groups.take n) 0
  rcases Nat.lt_or_ge input.length offset with hpast | hle
  · have hpast' : input'.length < offset := h ▸ hpast
    rw [unpackGroups_of_lt hpast, unpackGroups_of_lt hpast', ← h]
    exact ⟨rfl, hcursors, .inl ⟨_, rfl, rfl⟩⟩
  have hle' : offset ≤ input'.length := h ▸ hle
  by_cases hfit : AllFit (input.length - offset) 0 groups
  · have hfit' : AllFit (input'.length - offset) 0 groups := h ▸ hfit
    have hcollects := collects_spots input offset groups
    have hcollects' := collects_spots input' offset groups
    rw [← h] at hcollects'
    have hshape : List.Forall₂ SameShape (places.map (Spot.field (input.drop offset)))
        (places.map (Spot.field (input'.drop offset))) := by
      rw [List.forall₂_map_left_iff, List.forall₂_map_right_iff, List.forall₂_same]
      exact fun spot _ => spot.sameShape _ _
    rw [unpackGroups_of_allFit hle hfit, unpackGroups_of_allFit hle' hfit', ← h]
    refine ⟨rfl, hcursors, .inr ⟨_, _, rfl, rfl, hcollects, hcollects', ?_, fun key hkey => ?_⟩⟩
    · rw [emitted_eq, emitted_eq, ← hdrop, List.length_drop]
      exact Record.sameShape_ofList hshape
    · obtain ⟨spot, hspot, hlast⟩ := hcollects.exists_lastSpot hkey
      refine ⟨spot, hlast, hfit.spots_within (Nat.zero_le _) spot hspot, fun hagrees => ?_⟩
      rw [hcollects.get?_eq, hcollects'.get?_eq, hlast, Option.map_some, Option.map_some,
        hagrees.field_eq]
  · obtain ⟨before, g, hfirst⟩ := exists_firstMisfit hfit
    have hfirst' : FirstMisfit (input'.length - offset) 0 groups before g := h ▸ hfirst
    rw [hfirst.unpackGroups_eq hle, hfirst'.unpackGroups_eq hle', ← h]
    exact ⟨rfl, hcursors, .inl ⟨_, rfl, rfl⟩⟩

/-- The terminator stands elsewhere, and the byte after the text is another one; then both inputs
are read again from their start, under a key that is taken. -/
theorem unpackGroups_noninterference_terminator :
    ∃ record record',
      unpackGroups
        [⟨⟨⟨'Z', .text .terminated⟩, .count 3, 0⟩, "s"⟩,
          ⟨⟨⟨'C', .number (.integer .byte .machine false)⟩, .count 1, 4⟩, "n"⟩,
          ⟨⟨⟨'X', .backUp⟩, .count 9, 7⟩, ""⟩,
          ⟨⟨⟨'a', .text .nul⟩, .count 1, 10⟩, "n"⟩]
        [65, 0, 66, 7] 0 = ⟨[.outsideOfString 'X'], .ok record⟩ ∧
      unpackGroups
        [⟨⟨⟨'Z', .text .terminated⟩, .count 3, 0⟩, "s"⟩,
          ⟨⟨⟨'C', .number (.integer .byte .machine false)⟩, .count 1, 4⟩, "n"⟩,
          ⟨⟨⟨'X', .backUp⟩, .count 9, 7⟩, ""⟩,
          ⟨⟨⟨'a', .text .nul⟩, .count 1, 10⟩, "n"⟩]
        [65, 66, 0, 8] 0 = ⟨[.outsideOfString 'X'], .ok record'⟩ ∧
      record.keys = record'.keys ∧
      record.get? "s" = some (.bytes [65]) ∧ record'.get? "s" = some (.bytes [65, 66]) ∧
      record.get? "n" = record'.get? "n" := by
  let groups : List Group :=
    [⟨⟨⟨'Z', .text .terminated⟩, .count 3, 0⟩, "s"⟩,
      ⟨⟨⟨'C', .number (.integer .byte .machine false)⟩, .count 1, 4⟩, "n"⟩,
      ⟨⟨⟨'X', .backUp⟩, .count 9, 7⟩, ""⟩,
      ⟨⟨⟨'a', .text .nul⟩, .count 1, 10⟩, "n"⟩]
  let input : List UInt8 := [65, 0, 66, 7]
  let input' : List UInt8 := [65, 66, 0, 8]
  obtain ⟨hreports, -, hends⟩ :=
    unpackGroups_noninterference groups 0 (show input.length = input'.length from rfl)
  have hread : unpackGroups groups input 0 = ⟨[.outsideOfString 'X'], .ok _⟩ :=
    unpackGroups_of_allFit (by decide) (by decide +kernel)
  rw [hread] at hreports hends
  obtain ⟨e, he, -⟩ | ⟨record, record', hok, hok', hcollects, hcollects', -, hkeys⟩ := hends
  · cases he
  · have hlast : lastSpot? (spots 4 0 groups) "n" = some ⟨"n", 0, 1, .text .nul⟩ := by decide +kernel
    have hn : "n" ∈ record.keys := by
      rw [hcollects.keys]
      decide +kernel
    obtain ⟨spot, hspot, -, hsame⟩ := hkeys "n" hn
    obtain rfl : Spot.mk "n" 0 1 (.text .nul) = spot := Option.some.inj (hlast.symm.trans hspot)
    refine ⟨record, record', ?_, Reported.ext hreports.symm hok', ?_, ?_, ?_, hsame ?_⟩
    · rw [← hok]
      exact hread
    · rw [hcollects.keys, hcollects'.keys]
      decide +kernel
    · rw [hcollects.get?]
      decide +kernel
    · rw [hcollects'.get?]
      decide +kernel
    · intro i _ hi
      obtain rfl : i = 0 := Nat.lt_one_iff.1 hi
      rfl

end BytePack
