import BytePack.Proofs.Acceptance
import BytePack.Proofs.Lemmas.CutNames
import BytePack.Proofs.Pieces

/-!
# The limit of names

A name is kept up to the limit where the limit falls between two characters of it, or behind it. Then
it is the beginning of what the format says and has no more bytes than the limit, and so has every key
that is made from it, up to the number at its end. Where the limit falls into a character, the sign
that stands for the rest of that character is longer than the rest, or nothing that was written.
-/

namespace BytePack

/-! ## Written names -/

/-- What a piece says after its code and its repeat. -/
def Piece.written (piece : Piece) : List Char := (Repeat.read (piece.text.drop 1)).2

def writtenNames (format : String) : List (List Char) := (formatPieces format).map Piece.written

/-- Whether a name is the beginning of a written one and has at most `limit` bytes. -/
def WithinLimit (limit : Nat) (written : List Char) (name : String) : Prop :=
  name.utf8ByteSize ≤ limit ∧ name.toList <+: written

/-- What may stand behind a name in a key: nothing, or a number from 1 on. -/
def KeyIndex (index : String) : Prop := index = "" ∨ ∃ n : Nat, index = toString (n + 1)

theorem size_keptName_le (limit : Nat) (written : List Char) :
    Utf8.size (keptName limit written) ≤ limit + 2 := by
  have hwhole := size_wholeCharacters_le limit written
  rw [keptName]
  split
  · omega
  · rename_i hcut
    obtain ⟨-, -, -, hstart, -⟩ := exists_cut_character hcut
    have hsign : Utf8.size ['\uFFFD'] = 3 := rfl
    rw [Utf8.size_append, hsign]
    omega

/-- A name that is cut inside a character is no beginning of it, or too long. -/
theorem withinLimit_iff {limit : Nat} {written : List Char} {name : String}
    (hname : name.toList = keptName limit written) :
    WithinLimit limit written name ↔ CutsBetween limit written := by
  rw [WithinLimit, utf8ByteSize_eq, hname]
  constructor
  · rintro ⟨hsize, hprefix⟩
    apply Classical.byContradiction
    intro hcut
    obtain ⟨c, cs, hsplit, -, hend⟩ := exists_cut_character hcut
    rw [keptName, if_neg hcut] at hsize hprefix
    generalize wholeCharacters limit written = whole at *
    rw [hsplit, List.prefix_append_right_inj, List.cons_prefix_cons] at hprefix
    -- what was written there is the sign itself, and the limit falls into it
    rw [← hprefix.1] at hend
    rw [Utf8.size_append] at hsize
    exact absurd hsize (Nat.not_le.2 hend)
  · intro hcut
    rw [keptName, if_pos hcut]
    exact ⟨size_wholeCharacters_le limit written, wholeCharacters_prefix limit written⟩

/-! ## Names of groups -/

theorem Piece.Reads.name_eq {limit : Nat} {piece : Piece} {g : Group}
    (h : piece.Reads limit g) : g.name.toList = keptName limit piece.written := by
  cases h with
  | @group position code r spelling written hcode hr =>
      rw [Piece.written, List.drop_succ_cons, List.drop_zero, hr.read, ← cutName_eq, toList_cutName]

theorem reads_of_parseGroups {format : String} {limit : Nat} {groups : List Group}
    (h : parseGroups format limit = .ok groups) :
    List.Forall₂ (Piece.Reads limit) (formatPieces format) groups := by
  have hslash : ∀ text ∈ format.toList.splitOn '/', '/' ∉ text := fun _ => not_mem_of_mem_splitOn
  rw [parseGroups_eq] at h
  rcases exists_groups_or_fails limit (formatPieces format) with
    ⟨groups', hall⟩ | ⟨before, piece, after, groups', e, hpieces, hbefore, he⟩
  · cases h.symm.trans (readGroups_of_reads hslash hall)
    exact hall
  · cases h.symm.trans (readGroups_of_fails hslash hpieces hbefore he)

theorem names_of_parseGroups {format : String} {limit : Nat} {groups : List Group}
    (h : parseGroups format limit = .ok groups) :
    List.Forall₂ (fun written g => g.name.toList = keptName limit written) (writtenNames format)
      groups :=
  List.forall₂_map_left_iff.2 ((reads_of_parseGroups h).imp fun _ _ hg => hg.name_eq)

theorem forall₂_withinLimit_iff {limit : Nat} {names : List (List Char)} {groups : List Group}
    (h : List.Forall₂ (fun written g => g.name.toList = keptName limit written) names groups) :
    List.Forall₂ (fun written g => WithinLimit limit written g.name) names groups ↔
      ∀ written ∈ names, CutsBetween limit written := by
  induction h with
  | nil => simp
  | cons hname _ ih => rw [List.forall₂_cons, List.forall_mem_cons, withinLimit_iff hname, ih]

/-! ## Keys -/

theorem fieldKey_eq (name : String) (i : Nat) (single : Bool) :
    ∃ index, KeyIndex index ∧ fieldKey name (i + 1) single = name ++ index := by
  rw [fieldKey]
  split
  · exact ⟨"", .inl rfl, String.append_empty.symm⟩
  · exact ⟨toString (i + 1), .inr ⟨i, rfl⟩, rfl⟩

theorem Group.keys_emits (g : Group) (bytes : List UInt8) :
    ∀ field ∈ g.emits bytes, ∃ index, KeyIndex index ∧ field.1 = g.name ++ index := by
  intro field hfield
  unfold emits at hfield
  cases hl : g.directive.layout with
  | text | hex =>
      simp only [hl, List.mem_singleton] at hfield
      subst hfield
      exact fieldKey_eq g.name 0 true
  | number format =>
      simp only [hl, List.mem_map] at hfield
      obtain ⟨i, -, rfl⟩ := hfield
      exact fieldKey_eq g.name i _
  | nulByte | backUp | absolute => simp [hl] at hfield

theorem keys_emitted {input : List UInt8} {pos : Nat} {groups : List Group} :
    ∀ field ∈ emitted input pos groups, ∃ g ∈ groups, ∃ index, KeyIndex index ∧
      field.1 = g.name ++ index := by
  induction groups generalizing pos with
  | nil => exact fun _ hfield => absurd hfield List.not_mem_nil
  | cons g groups ih =>
      intro field hfield
      rcases List.mem_append.1 hfield with hhere | hlater
      · exact ⟨g, List.mem_cons_self, g.keys_emits _ field hhere⟩
      · obtain ⟨g', hg', hkey⟩ := ih field hlater
        exact ⟨g', List.mem_cons_of_mem _ hg', hkey⟩

theorem collects_of_outcome {groups : List Group} {input : List UInt8} {offset : Nat}
    {record : Record} (h : (unpackGroups groups input offset).outcome = .ok record) :
    record.Collects (emitted (input.drop offset) 0 groups) := by
  rcases Nat.lt_or_ge input.length offset with hlt | hle
  · rw [unpackGroups_of_lt hlt] at h
    cases h
  · by_cases hfit : AllFit (input.length - offset) 0 groups
    · rw [unpackGroups_of_allFit hle hfit] at h
      cases h
      exact Record.collects_ofList _
    · obtain ⟨before, g, hmisfit⟩ := exists_firstMisfit hfit
      rw [hmisfit.unpackGroups_eq hle] at h
      cases h

/-- Every key of a record is the name of a group and an index. -/
theorem keys_of_outcome {groups : List Group} {input : List UInt8} {offset : Nat} {record : Record}
    (h : (unpackGroups groups input offset).outcome = .ok record) :
    ∀ key ∈ record.keys, ∃ g ∈ groups, ∃ index, KeyIndex index ∧ key = g.name ++ index := by
  intro key hkey
  rw [(collects_of_outcome h).keys, List.mem_eraseDups] at hkey
  obtain ⟨field, hfield, rfl⟩ := List.mem_map.1 hkey
  exact keys_emitted field hfield

/-! ## The limit -/

/-- The names that a format says are cut one by one, to the limit and at most two bytes more. They are
beginnings of what was written, within the limit, exactly if it falls between two characters of each;
then every key of a record is such a beginning and an index. -/
theorem names_within_limit_iff {format : String} {limit : Nat} {groups : List Group}
    (hparse : parseGroups format limit = .ok groups) :
    groups.map (fun g => g.name.toList) = (writtenNames format).map (keptName limit) ∧
    (∀ g ∈ groups, g.name.utf8ByteSize ≤ limit + 2) ∧
    (∀ input offset record, (unpackGroups groups input offset).outcome = .ok record →
      ∀ key ∈ record.keys, ∃ g ∈ groups, ∃ index, KeyIndex index ∧ key = g.name ++ index) ∧
    ((List.Forall₂ (fun written g => WithinLimit limit written g.name) (writtenNames format)
          groups ∧
        ∀ input offset record, (unpackGroups groups input offset).outcome = .ok record →
          ∀ key ∈ record.keys, ∃ written ∈ writtenNames format, ∃ name index,
            WithinLimit limit written name ∧ KeyIndex index ∧ key = name ++ index) ↔
      ∀ written ∈ writtenNames format, CutsBetween limit written) := by
  have hnames := names_of_parseGroups hparse
  have hmap : groups.map (fun g => g.name.toList) = (writtenNames format).map (keptName limit) := by
    rw [← List.forall₂_eq_eq_eq, List.forall₂_map_left_iff, List.forall₂_map_right_iff]
    exact hnames.flip
  have hkept : ∀ g ∈ groups, ∃ written ∈ writtenNames format,
      g.name.toList = keptName limit written := by
    intro g hg
    have hmem := List.mem_map_of_mem (f := fun g => g.name.toList) hg
    rw [hmap] at hmem
    obtain ⟨written, hwritten, hname⟩ := List.mem_map.1 hmem
    exact ⟨written, hwritten, hname.symm⟩
  refine ⟨hmap, fun g hg => ?_, fun input offset record h => keys_of_outcome h, ?_, ?_⟩
  · obtain ⟨written, -, hname⟩ := hkept g hg
    rw [utf8ByteSize_eq, hname]
    exact size_keptName_le limit written
  · rintro ⟨hwithin, -⟩
    exact (forall₂_withinLimit_iff hnames).1 hwithin
  · intro hcuts
    refine ⟨(forall₂_withinLimit_iff hnames).2 hcuts, fun input offset record h key hkey => ?_⟩
    obtain ⟨g, hg, index, hindex, rfl⟩ := keys_of_outcome h key hkey
    obtain ⟨written, hwritten, hname⟩ := hkept g hg
    exact ⟨written, hwritten, g.name, index, (withinLimit_iff hname).2 (hcuts written hwritten),
      hindex, rfl⟩

/-- The limit falls into the only character of a name: the sign in its place is longer than the limit,
and nothing of what was written. -/
theorem name_past_limit :
    let groups : List Group :=
      [⟨⟨⟨'C', .number (.integer .byte .machine false)⟩, .count 1, 0⟩, "\uFFFD"⟩]
    parseGroups "Cé" 1 = .ok groups ∧ writtenNames "Cé" = [['é']] ∧
      "\uFFFD".utf8ByteSize = 3 ∧ ¬ "\uFFFD".toList <+: ['é'] ∧
      ∃ record, unpackGroups groups [0x41] 0 = ⟨[], .ok record⟩ ∧ record.keys = ["\uFFFD"] := by
  intro groups
  have hfit : AllFit 1 0 groups := by decide +kernel
  have hcollects := Record.collects_ofList (emitted [0x41] 0 groups)
  refine ⟨by decide +kernel, by decide +kernel, by decide, by decide,
    _, unpackGroups_of_allFit (by decide) hfit, ?_⟩
  rw [List.drop_zero, hcollects.keys]
  decide +kernel

/-- The limit falls behind a character of two bytes in the first name, and behind the second one. -/
theorem names_within_limit_iff_two_names :
    let groups : List Group :=
      [⟨⟨⟨'C', .number (.integer .byte .machine false)⟩, .count 2, 0⟩, "naï"⟩,
        ⟨⟨⟨'a', .text .nul⟩, .greedy, 9⟩, "€x"⟩]
    parseGroups "C2naïve/a*€x" 4 = .ok groups ∧
      List.Forall₂ (fun written g => WithinLimit 4 written g.name) (writtenNames "C2naïve/a*€x")
        groups ∧
      ∃ record, unpackGroups groups [1, 2, 0x41] 0 = ⟨[], .ok record⟩ ∧
        record.keys = ["naï1", "naï2", "€x"] ∧
        ∀ key ∈ record.keys, ∃ written ∈ writtenNames "C2naïve/a*€x", ∃ name index,
          WithinLimit 4 written name ∧ KeyIndex index ∧ key = name ++ index := by
  intro groups
  have hparse : parseGroups "C2naïve/a*€x" 4 = .ok groups := by decide +kernel
  have hcuts : ∀ written ∈ writtenNames "C2naïve/a*€x", CutsBetween 4 written := by decide +kernel
  obtain ⟨-, -, -, hlimit⟩ := names_within_limit_iff hparse
  obtain ⟨hwithin, hkeys⟩ := hlimit.2 hcuts
  have hfit : AllFit 3 0 groups := by decide +kernel
  have hread := @unpackGroups_of_allFit groups [1, 2, 0x41] 0 (Nat.zero_le 3) hfit
  have hcollects := Record.collects_ofList (emitted [1, 2, 0x41] 0 groups)
  refine ⟨hparse, hwithin, _, hread, ?_, hkeys _ _ _ (congrArg Reported.outcome hread)⟩
  rw [List.drop_zero, hcollects.keys]
  decide +kernel

end BytePack
