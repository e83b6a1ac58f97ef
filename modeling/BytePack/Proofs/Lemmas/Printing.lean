import BytePack.Proofs.Lemmas.Pieces

/-!
# Groups written and read back

A group is written as its code, its repeat and its name, and a `/` stands between two groups. What
is written that way reads back as the same groups, with their names cut to the limit, as long as no
name has a `/` in it or looks like more of the repeat.
-/

namespace BytePack

/-! ## Texts -/

theorem Utf8.front?_append (c : Char) (more : List UInt8) :
    Utf8.front? (String.utf8EncodeChar c ++ more) = some c := by
  rw [Utf8.front?, List.take_append, String.length_utf8EncodeChar,
    List.take_of_length_le (by simpa using c.utf8Size_le_four), List.toByteArray_append]
  exact ByteArray.utf8DecodeChar?_utf8EncodeChar_append

/-- The bytes of a character read as that character, whatever comes after them. -/
theorem Utf8.decodeLossy_append (c : Char) (more : List UInt8) :
    Utf8.decodeLossy (String.utf8EncodeChar c ++ more) = c :: Utf8.decodeLossy more := by
  have hfront := Utf8.front?_append c more
  have hrest : (String.utf8EncodeChar c ++ more).drop c.utf8Size = more :=
    List.drop_left' (String.length_utf8EncodeChar c)
  cases hbytes : String.utf8EncodeChar c ++ more with
  | nil => simp [String.utf8EncodeChar_ne_nil] at hbytes
  | cons b rest =>
      rw [hbytes] at hfront hrest
      rw [List.drop_cons c.utf8Size_pos] at hrest
      simp only [Utf8.decodeLossy, hfront, hrest]

theorem Utf8.decodeLossy_encode (cs : List Char) : Utf8.decodeLossy (Utf8.encode cs) = cs := by
  induction cs with
  | nil => simp [Utf8.encode, Utf8.decodeLossy]
  | cons c cs ih =>
      rw [Utf8.encode, List.flatMap_cons, Utf8.decodeLossy_append]
      exact congrArg (c :: ·) ih

theorem cutName_of_size_le {limit : Nat} {written : List Char} (h : Utf8.size written ≤ limit) :
    cutName limit written = .ofList written := by
  rw [cutName, List.take_of_length_le (by simpa using h), Utf8.decodeLossy_encode]

/-! ## Repeats -/

theorem Repeat.writable_of_read {cs rest : List Char} {r : Repeat}
    (h : Repeat.read cs = (some r, rest)) : r.Writable := by
  unfold Repeat.read at h
  split at h
  · cases h
    trivial
  · obtain ⟨hr, -⟩ := Prod.mk.inj h
    rw [Option.ite_none_right_eq_some] at hr
    obtain ⟨hle, hr⟩ := hr
    cases hr
    exact hle

/-! ## Directives -/

/-- Whether a directive can be written so that it reads back. -/
structure Directive.Writable (d : Directive) : Prop where
  code : Code.ofChar? d.symbol = some d.code
  repetition : d.repetition.Writable

theorem Directive.writable_of_read {position : Nat} {c : Char} {cs rest : List Char}
    {d : Directive} (h : Directive.read position c cs = .ok (d, rest)) : d.Writable := by
  unfold Directive.read at h
  cases hc : Code.ofChar? c with
  | none => simp [hc] at h
  | some code =>
      rw [hc] at h
      simp only at h
      split at h
      · cases h
      · rename_i r rest' hr
        cases h
        refine ⟨?_, Repeat.writable_of_read hr⟩
        rw [Directive.symbol, Code.symbol_of_ofChar? hc, hc]

theorem readDirectives_writable {position : Nat} {cs : List Char} {ds : List Directive}
    (h : readDirectives position cs = .ok ds) : ∀ d ∈ ds, d.Writable := by
  fun_induction readDirectives position cs generalizing ds with
  | case1 => cases h; simp
  | case2 => cases h
  | case3 => cases h
  | case4 position c cs d rest hread _ ds' hrest ih =>
      cases h
      intro d' hd'
      rcases List.mem_cons.1 hd' with rfl | hd'
      · exact Directive.writable_of_read hread
      · exact ih hrest d' hd'

/-! ## Groups -/

/-- The text of a group. -/
def Group.text (g : Group) : List Char :=
  g.directive.symbol :: (g.directive.repetition.text.toList ++ g.name.toList)

/-- The format that consists of some groups. -/
def groupFormat (groups : List Group) : String :=
  .ofList (['/'].intercalate (groups.map Group.text))

/-- Whether a name can be written after a repeat. -/
structure NameWritable (name : String) : Prop where
  no_slash : '/' ∉ name.toList
  head : ∀ c ∈ name.toList.head?, c.isDigit = false

theorem nameWritable_iff {name : String} :
    NameWritable name ↔ '/' ∉ name.toList ∧ name.toList.head?.all (fun c => !c.isDigit) = true := by
  rw [Option.all_eq_true]
  constructor
  · rintro ⟨hslash, hhead⟩
    exact ⟨hslash, fun c hc => by rw [hhead c hc]; rfl⟩
  · rintro ⟨hslash, hhead⟩
    exact ⟨hslash, fun c hc => by simpa using hhead c hc⟩

instance (name : String) : Decidable (NameWritable name) :=
  decidable_of_iff' _ nameWritable_iff

/-- Whether a group reads back as another, which may stand elsewhere in the format. -/
structure Group.ReadsAs (limit : Nat) (g g' : Group) : Prop where
  code : g'.directive.code = g.directive.code
  repetition : g'.directive.repetition = g.directive.repetition
  name : g'.name = cutName limit g.name.toList

theorem readGroups_writable {limit position : Nat} {cs : List Char} {groups : List Group}
    (h : readGroups limit position cs = .ok groups) : ∀ g ∈ groups, g.directive.Writable := by
  fun_induction readGroups limit position cs generalizing groups with
  | case1 => cases h; simp
  | case2 => cases h
  | case3 => cases h
  | case4 =>
      rename_i hread _ _ _ _ hrest ih
      cases h
      intro g hg
      rcases List.mem_cons.1 hg with rfl | hg
      · exact Directive.writable_of_read hread
      · exact ih hrest g hg

theorem Repeat.Writable.no_slash {r : Repeat} (hr : r.Writable) : '/' ∉ r.text.toList := by
  have hspells : r.Spells [] r.text.toList := hr.spells (by simp)
  intro hmem
  generalize r.text.toList = spelling at *
  cases hspells with
  | absent => exact absurd hmem List.not_mem_nil
  | star => exact absurd (List.mem_singleton.1 hmem) (by decide)
  | digits _ hrun => exact absurd (hrun '/' hmem) (by decide)

theorem Group.text_no_slash {g : Group} (hd : g.directive.Writable) (hn : NameWritable g.name) :
    '/' ∉ g.text := by
  have hcode : g.directive.symbol ≠ '/' := by
    have hall : ∀ code ∈ codes, code.symbol ≠ '/' := by decide
    exact hall _ (Code.mem_of_ofChar? hd.code)
  intro hmem
  rcases List.mem_cons.1 hmem with hmem | hmem
  · exact hcode hmem.symm
  · rcases List.mem_append.1 hmem with hmem | hmem
    · exact hd.repetition.no_slash hmem
    · exact hn.no_slash hmem

/-- Reading takes the first group off, whether it is the last one or others follow. -/
theorem readGroups_text (limit position : Nat) {g : Group} (hd : g.directive.Writable)
    (hn : NameWritable g.name) {more : List Char} (hmore : PieceEnd more) {groups : List Group}
    (h : ∀ next, ∃ groups', readGroups limit next (more.drop 1) = .ok groups' ∧
      List.Forall₂ (Group.ReadsAs limit) groups groups') :
    ∃ groups', readGroups limit position (g.text ++ more) = .ok groups' ∧
      List.Forall₂ (Group.ReadsAs limit) (g :: groups) groups' := by
  obtain ⟨groups', hgroups, hall⟩ := h (position + Utf8.size g.text + 1)
  have hreads : Piece.Reads limit ⟨position, g.text⟩ _ :=
    .group (Code.mem_of_ofChar? hd.code) (hd.repetition.spells hn.head)
  have hread := hreads.readGroups_eq (Group.text_no_slash hd hn) hmore
  simp only at hread
  rw [hgroups] at hread
  exact ⟨_, hread, .cons ⟨rfl, rfl, (cutName_eq limit g.name.toList).symm⟩ hall⟩

theorem readGroups_intercalate (limit position : Nat) {groups : List Group}
    (h : ∀ g ∈ groups, g.directive.Writable ∧ NameWritable g.name) :
    ∃ groups', readGroups limit position (['/'].intercalate (groups.map Group.text)) =
        .ok groups' ∧ List.Forall₂ (Group.ReadsAs limit) groups groups' := by
  induction groups generalizing position with
  | nil => exact ⟨[], by simp [readGroups], .nil⟩
  | cons g rest ih =>
      obtain ⟨⟨hd, hn⟩, hrest⟩ := List.forall_mem_cons.1 h
      cases rest with
      | nil =>
          have hend : ∀ next, ∃ groups', readGroups limit next (List.drop 1 []) = .ok groups' ∧
              List.Forall₂ (Group.ReadsAs limit) [] groups' :=
            fun next => ⟨[], by simp [readGroups], .nil⟩
          simpa using readGroups_text limit position hd hn (.inl rfl) hend
      | cons g' rest =>
          rw [List.map_cons, List.map_cons, List.intercalate_cons_cons, List.append_assoc]
          exact readGroups_text limit position hd hn (.inr ⟨_, rfl⟩) fun next => ih next hrest

/-- A format that consists of some groups reads back as those groups. -/
theorem parseGroups_groupFormat (limit : Nat) {groups : List Group}
    (h : ∀ g ∈ groups, g.directive.Writable ∧ NameWritable g.name) :
    ∃ groups', parseGroups (groupFormat groups) limit = .ok groups' ∧
      List.Forall₂ (Group.ReadsAs limit) groups groups' := by
  rw [parseGroups, groupFormat, String.toList_ofList]
  exact readGroups_intercalate limit 0 h

end BytePack
