import BytePack.Proofs.Lemmas.GroupScanning

/-!
# Groups are pieces

Reading groups from left to right comes to cutting the format at every `/` and reading each piece by
itself. The format is accepted exactly if every piece reads as a group; otherwise the error is that
of the first piece with which something is wrong. Scanning the bytes of the format with an index,
whatever the limit of names, does the same.
-/

namespace BytePack

theorem parseGroups_eq (f : String) (limit : Nat) :
    parseGroups f limit = readGroups limit 0 (['/'].intercalate (f.toList.splitOn '/')) := by
  rw [List.intercalate_splitOn, parseGroups]

/-- A format reads as the groups that its pieces are, or fails at the first piece that is none. -/
theorem parseGroups_pieces (f : String) (limit : Nat) :
    ((∃ groups, parseGroups f limit = .ok groups) ↔
      ∀ piece ∈ formatPieces f, ∃ g, piece.Reads limit g) ∧
    (∀ groups, parseGroups f limit = .ok groups ↔
      List.Forall₂ (Piece.Reads limit) (formatPieces f) groups) ∧
    (∀ e, parseGroups f limit = .error e ↔
      ∃ before piece after, formatPieces f = before ++ piece :: after ∧
        (∀ p ∈ before, ∃ g, p.Reads limit g) ∧ piece.Fails e) ∧
    (f.utf8ByteSize ≤ maxPosition → scanFormat f limit = some (parseGroups f limit)) := by
  have hslash : ∀ text ∈ f.toList.splitOn '/', '/' ∉ text := fun _ => not_mem_of_mem_splitOn
  have hreads : ∀ groups, List.Forall₂ (Piece.Reads limit) (formatPieces f) groups →
      parseGroups f limit = .ok groups := fun groups h => by
    rw [parseGroups_eq]
    exact readGroups_of_reads hslash h
  have hfails : ∀ before piece after groups e, formatPieces f = before ++ piece :: after →
      List.Forall₂ (Piece.Reads limit) before groups → piece.Fails e →
      parseGroups f limit = .error e := fun before piece after groups e hpieces hbefore he => by
    rw [parseGroups_eq]
    exact readGroups_of_fails hslash hpieces hbefore he
  have hok : ∀ groups, parseGroups f limit = .ok groups ↔
      List.Forall₂ (Piece.Reads limit) (formatPieces f) groups := by
    refine fun groups => ⟨fun h => ?_, hreads groups⟩
    rcases exists_groups_or_fails limit (formatPieces f) with
      ⟨groups', hall⟩ | ⟨before, piece, after, groups', e, hpieces, hbefore, he⟩
    · cases h.symm.trans (hreads groups' hall)
      exact hall
    · cases h.symm.trans (hfails before piece after groups' e hpieces hbefore he)
  refine ⟨?_, hok, fun e => ⟨fun h => ?_, ?_⟩, fun hlen => ?_⟩
  · rw [← exists_forall₂_iff]
    exact exists_congr hok
  · rcases exists_groups_or_fails limit (formatPieces f) with
      ⟨groups, hall⟩ | ⟨before, piece, after, groups, e', hpieces, hbefore, he⟩
    · cases h.symm.trans (hreads groups hall)
    · cases h.symm.trans (hfails before piece after groups e' hpieces hbefore he)
      exact ⟨before, piece, after, hpieces, exists_forall₂_iff.1 ⟨groups, hbefore⟩, he⟩
  · rintro ⟨before, piece, after, hpieces, hbefore, he⟩
    obtain ⟨groups, hbefore⟩ := exists_forall₂_iff.2 hbefore
    exact hfails before piece after groups e hpieces hbefore he
  · exact scanFormat_eq hlen

/-- What follows a repeat is a name, also a `*` or a digit; the limit cuts a character in two. -/
theorem parseGroups_pieces_cut :
    scanFormat "C3*x/C*3/H*é/" 1 = some (.ok
      [⟨⟨⟨'C', .number (.integer .byte .machine false)⟩, .count 3, 0⟩, "*"⟩,
        ⟨⟨⟨'C', .number (.integer .byte .machine false)⟩, .greedy, 5⟩, "3"⟩,
        ⟨⟨⟨'H', .hex .highFirst⟩, .greedy, 9⟩, "\uFFFD"⟩]) := by
  obtain ⟨_, _, _, hscan⟩ := parseGroups_pieces "C3*x/C*3/H*é/" 1
  rw [hscan (by decide)]
  decide +kernel

end BytePack
