import BytePack.Format.Group
import BytePack.Proofs.Lemmas.Tokens
import Mathlib.Data.List.Forall2

/-!
# Pieces of a format

A format of groups can be cut at every `/` first. A piece reads as a group by itself, or something is
wrong with it, and it does not matter what the other pieces are. Reading goes through the pieces in
order and stops at the first one with which something is wrong.
-/

namespace BytePack

/-! ## Pieces -/

/-- A part of a format and the byte at which it starts. -/
structure Piece where
  position : Nat
  text : List Char
  deriving DecidableEq, Repr

/-- Texts as pieces from a position on, with one byte between two of them. -/
def placePieces : Nat → List (List Char) → List Piece
  | _, [] => []
  | position, text :: more =>
    ⟨position, text⟩ :: placePieces (position + Utf8.size text + 1) more

/-- Some texts without the last one, if that is empty. -/
def dropEmptyEnd (texts : List (List Char)) : List (List Char) :=
  if texts.getLast? = some [] then texts.dropLast else texts

/-- The pieces of a format between its `/`; what is empty after the last `/` is none. -/
def formatPieces (format : String) : List Piece :=
  placePieces 0 (dropEmptyEnd (format.toList.splitOn '/'))

/-- How a piece reads as a group: a code, a repeat, and the name, of which `limit` bytes are kept. -/
inductive Piece.Reads (limit : Nat) : Piece → Group → Prop where
  | group {position : Nat} {code : Code} {r : Repeat} {spelling written : List Char}
      (hcode : code ∈ codes) (hr : r.Spells written spelling) :
      Piece.Reads limit ⟨position, code.symbol :: (spelling ++ written)⟩
        ⟨⟨code, r, position⟩,
          .ofList (Utf8.decodeLossy
            ((Utf8.encode written).take (min (Utf8.size written) limit)))⟩

/-- What is wrong with a piece. Where nothing stands, the next `/` is taken for a code. -/
inductive Piece.Fails : Piece → Error → Prop where
  | empty {position : Nat} : Piece.Fails ⟨position, []⟩ (.format '/' position .unknownCode)
  | offends {position : Nat} {text : List Char} {e : Error} (h : Offends position text e) :
      Piece.Fails ⟨position, text⟩ e

theorem not_mem_of_mem_splitOn {text piece : List Char} (h : piece ∈ text.splitOn '/') :
    '/' ∉ piece := by
  induction text generalizing piece with
  | nil => simp_all
  | cons c text ih =>
      rw [List.splitOn_cons_eq_if_modifyHead] at h
      split at h
      · rcases List.mem_cons.1 h with rfl | h
        · exact List.not_mem_nil
        · exact ih h
      · rename_i hc
        obtain ⟨first, more, hsplit⟩ := List.exists_cons_of_ne_nil (List.splitOn_ne_nil '/' text)
        rw [hsplit, List.modifyHead_cons] at h
        rw [hsplit] at ih
        rcases List.mem_cons.1 h with rfl | h
        · intro hmem
          rcases List.mem_cons.1 hmem with rfl | hmem
          · exact hc rfl
          · exact ih List.mem_cons_self hmem
        · exact ih (List.mem_cons_of_mem _ h)

theorem dropEmptyEnd_cons (text : List Char) (texts : List (List Char)) :
    dropEmptyEnd (text :: texts) =
      if text = [] ∧ texts = [] then [] else text :: dropEmptyEnd texts := by
  unfold dropEmptyEnd
  cases texts with
  | nil => by_cases h : text = [] <;> simp [h]
  | cons next texts =>
      have hne : ¬ (text = [] ∧ next :: texts = []) := fun h => by cases h.2
      rw [List.getLast?_cons_cons, if_neg hne, List.dropLast_cons_cons]
      split <;> rfl

/-- A piece reads as a group, or something is wrong with it. -/
theorem Piece.reads_or_fails (limit : Nat) (piece : Piece) :
    (∃ g, piece.Reads limit g) ∨ ∃ e, piece.Fails e := by
  obtain ⟨position, text⟩ := piece
  cases text with
  | nil => exact .inr ⟨_, .empty⟩
  | cons c cs =>
      cases hc : Code.ofChar? c with
      | none => exact .inr ⟨_, .offends (.unknown (Code.ofChar?_eq_none.1 hc))⟩
      | some code =>
          have hcode := Code.mem_of_ofChar? hc
          have hsymbol := Code.symbol_of_ofChar? hc
          subst hsymbol
          rcases Repeat.exists_spelling cs with ⟨r, spelling, written, rfl, hr⟩ | h
          · exact .inl ⟨_, .group hcode hr⟩
          · obtain ⟨run, rest, rfl, hrun, hrest, hvalue⟩ := h
            exact .inr ⟨_, .offends (.tooLarge hcode hrun hrest hvalue)⟩

theorem Piece.Reads.text_ne_nil {limit : Nat} {piece : Piece} {g : Group}
    (h : piece.Reads limit g) : piece.text ≠ [] := by
  cases h with
  | group => exact List.cons_ne_nil _ _

/-- Pieces all read as groups, or there is a first one with which something is wrong. -/
theorem exists_groups_or_fails (limit : Nat) (pieces : List Piece) :
    (∃ groups, List.Forall₂ (Piece.Reads limit) pieces groups) ∨
      ∃ before piece after groups e, pieces = before ++ piece :: after ∧
        List.Forall₂ (Piece.Reads limit) before groups ∧ piece.Fails e := by
  induction pieces with
  | nil => exact .inl ⟨[], .nil⟩
  | cons piece pieces ih =>
      rcases piece.reads_or_fails limit with ⟨g, hg⟩ | ⟨e, he⟩
      · rcases ih with ⟨groups, hall⟩ | ⟨before, bad, after, groups, e, rfl, hall, he⟩
        · exact .inl ⟨g :: groups, .cons hg hall⟩
        · exact .inr ⟨piece :: before, bad, after, g :: groups, e, rfl, .cons hg hall, he⟩
      · exact .inr ⟨[], piece, pieces, [], e, rfl, .nil, he⟩

theorem exists_forall₂_iff {α β : Type} {R : α → β → Prop} {as : List α} :
    (∃ bs, List.Forall₂ R as bs) ↔ ∀ a ∈ as, ∃ b, R a b := by
  induction as with
  | nil => simp
  | cons a as ih =>
      rw [List.forall_mem_cons, ← ih]
      constructor
      · rintro ⟨bs, h⟩
        cases h with
        | cons hb hbs => exact ⟨⟨_, hb⟩, _, hbs⟩
      · rintro ⟨⟨b, hb⟩, bs, hbs⟩
        exact ⟨b :: bs, .cons hb hbs⟩

/-! ## Reading -/

theorem readGroups_cons_ok {limit position : Nat} {c : Char} {cs rest : List Char} {d : Directive}
    (h : Directive.read position c cs = .ok (d, rest)) :
    readGroups limit position (c :: cs) =
      (readGroups limit
        (position + 1 + (cs.length - rest.length) + Utf8.size (rest.takeWhile (· != '/')) + 1)
        (rest.drop ((rest.takeWhile (· != '/')).length + 1))).map
          (⟨d, cutName limit (rest.takeWhile (· != '/'))⟩ :: ·) := by
  rw [readGroups]
  split
  · rename_i e he
    cases h.symm.trans he
  · rename_i d' rest' hd
    cases h.symm.trans hd
    simp only
    cases readGroups limit _ _ <;> rfl

theorem readGroups_cons_error {limit position : Nat} {c : Char} {cs : List Char} {e : Error}
    (h : Directive.read position c cs = .error e) :
    readGroups limit position (c :: cs) = .error e := by
  rw [readGroups]
  split
  · rename_i e' he
    cases h.symm.trans he
    rfl
  · rename_i d rest hd
    cases h.symm.trans hd

/-- What can stand after a piece: nothing, or a `/` and more pieces. -/
def PieceEnd (more : List Char) : Prop := more = [] ∨ ∃ cs, more = '/' :: cs

theorem PieceEnd.head? {more : List Char} (h : PieceEnd more) :
    ∀ c ∈ more.head?, c ≠ '*' ∧ c.isDigit = false := by
  rcases h with rfl | ⟨cs, rfl⟩
  · simp
  · intro c hc
    cases hc
    decide

theorem takeWhile_not_slash {written more : List Char} (h : '/' ∉ written) (hmore : PieceEnd more) :
    (written ++ more).takeWhile (· != '/') = written := by
  have hall : ∀ c ∈ written, (c != '/') = true := by
    intro c hc
    have hne : c ≠ '/' := by
      rintro rfl
      exact h hc
    simpa using hne
  rw [List.takeWhile_append_of_pos hall]
  rcases hmore with rfl | ⟨cs, rfl⟩ <;> simp

theorem exists_piece (cs : List Char) :
    ∃ text more, cs = text ++ more ∧ '/' ∉ text ∧ PieceEnd more := by
  induction cs with
  | nil => exact ⟨[], [], rfl, List.not_mem_nil, .inl rfl⟩
  | cons c cs ih =>
      by_cases hc : c = '/'
      · subst hc
        exact ⟨[], '/' :: cs, rfl, List.not_mem_nil, .inr ⟨cs, rfl⟩⟩
      · obtain ⟨text, more, rfl, htext, hmore⟩ := ih
        refine ⟨c :: text, more, rfl, fun hmem => ?_, hmore⟩
        rcases List.mem_cons.1 hmem with rfl | hmem
        · exact hc rfl
        · exact htext hmem

theorem cutName_eq (limit : Nat) (written : List Char) :
    cutName limit written =
      .ofList (Utf8.decodeLossy ((Utf8.encode written).take (min (Utf8.size written) limit))) := by
  rw [cutName, ← Utf8.length_encode, Nat.min_comm, ← List.take_eq_take_min]

/-- Reading takes a piece off that reads as a group, and the `/` after it. -/
theorem Piece.Reads.readGroups_eq {limit : Nat} {piece : Piece} {g : Group}
    (h : piece.Reads limit g) (hslash : '/' ∉ piece.text) {more : List Char}
    (hmore : PieceEnd more) :
    readGroups limit piece.position (piece.text ++ more) =
      (readGroups limit (piece.position + Utf8.size piece.text + 1) (more.drop 1)).map (g :: ·) := by
  cases h with
  | @group position code r spelling written hcode hr =>
      have hread := (hr.followed hmore.head?).read_directive hcode position
      have hwritten : '/' ∉ written := by simp_all
      have hname := takeWhile_not_slash hwritten hmore
      have hlen : (spelling ++ (written ++ more)).length - (written ++ more).length =
          spelling.length := by
        rw [List.length_append, Nat.add_sub_cancel]
      have hdrop : (written ++ more).drop (written.length + 1) = more.drop 1 := by
        rw [← List.drop_drop, List.drop_left]
      have hnext : position + 1 + spelling.length + Utf8.size written + 1 =
          position + Utf8.size (code.symbol :: (spelling ++ written)) + 1 := by
        rw [Utf8.size, Utf8.size_append, hr.size_eq, Code.utf8Size_symbol hcode]
        omega
      rw [List.cons_append, List.append_assoc, readGroups_cons_ok hread, hname, hlen, hdrop, hnext,
        cutName_eq]

theorem Offends.followed {position : Nat} {cs more : List Char} {e : Error}
    (h : Offends position cs e) (hmore : PieceEnd more) : Offends position (cs ++ more) e := by
  cases h with
  | unknown hc => exact .unknown hc
  | @tooLarge code run rest hcode hrun hrest hvalue =>
      rw [List.cons_append, List.append_assoc]
      refine .tooLarge hcode hrun (fun c hc => ?_) hvalue
      cases rest with
      | nil => exact (hmore.head? c hc).2
      | cons c' cs => exact hrest c hc

/-- What is wrong with a piece is wrong with a text that starts with it. -/
theorem Piece.Fails.followed {piece : Piece} {e : Error} (h : piece.Fails e) {more : List Char}
    (hmore : PieceEnd more) (hne : piece.text ≠ [] ∨ more ≠ []) :
    Offends piece.position (piece.text ++ more) e := by
  cases h with
  | empty =>
      rcases hmore with rfl | ⟨cs, rfl⟩
      · simp at hne
      · exact .unknown (by decide)
  | offends h => exact h.followed hmore

theorem Offends.readGroups_eq {limit position : Nat} {cs : List Char} {e : Error}
    (h : Offends position cs e) : readGroups limit position cs = .error e := by
  cases cs with
  | nil => cases h
  | cons c cs => exact readGroups_cons_error h.directive_read

/-! ## Formats -/

/-- The first of some texts with `/` between them, and what stands after it. -/
theorem exists_pieceEnd (text : List Char) (texts : List (List Char)) :
    ∃ more, PieceEnd more ∧ ['/'].intercalate (text :: texts) = text ++ more ∧
      more.drop 1 = ['/'].intercalate texts ∧ (texts ≠ [] → more ≠ []) := by
  cases texts with
  | nil => exact ⟨[], .inl rfl, by simp, by simp, by simp⟩
  | cons next texts =>
      exact ⟨'/' :: ['/'].intercalate (next :: texts), .inr ⟨_, rfl⟩,
        by simp [List.intercalate_cons_cons], rfl, by simp⟩

/-- Reading goes through pieces that read as groups. -/
theorem readGroups_of_reads {limit position : Nat} {texts : List (List Char)} {groups : List Group}
    (hslash : ∀ text ∈ texts, '/' ∉ text)
    (h : List.Forall₂ (Piece.Reads limit) (placePieces position (dropEmptyEnd texts)) groups) :
    readGroups limit position (['/'].intercalate texts) = .ok groups := by
  induction texts generalizing position groups with
  | nil =>
      cases h
      simp [readGroups]
  | cons text texts ih =>
      obtain ⟨htext, htexts⟩ := List.forall_mem_cons.1 hslash
      rw [dropEmptyEnd_cons] at h
      by_cases hempty : text = [] ∧ texts = []
      · obtain ⟨rfl, rfl⟩ := hempty
        cases h
        simp [readGroups]
      · rw [if_neg hempty] at h
        obtain ⟨more, hend, hjoin, hdrop, -⟩ := exists_pieceEnd text texts
        cases h with
        | cons hg hrest =>
            have hread := hg.readGroups_eq htext hend
            rw [hdrop, ih htexts hrest] at hread
            rw [hjoin]
            exact hread

/-- Reading stops at the first piece with which something is wrong. -/
theorem readGroups_of_fails {limit position : Nat} {texts : List (List Char)}
    {before after : List Piece} {piece : Piece} {groups : List Group} {e : Error}
    (hslash : ∀ text ∈ texts, '/' ∉ text)
    (hpieces : placePieces position (dropEmptyEnd texts) = before ++ piece :: after)
    (hbefore : List.Forall₂ (Piece.Reads limit) before groups) (hpiece : piece.Fails e) :
    readGroups limit position (['/'].intercalate texts) = .error e := by
  induction texts generalizing position before groups with
  | nil => cases before <;> cases hpieces
  | cons text texts ih =>
      obtain ⟨htext, htexts⟩ := List.forall_mem_cons.1 hslash
      rw [dropEmptyEnd_cons] at hpieces
      by_cases hempty : text = [] ∧ texts = []
      · rw [if_pos hempty] at hpieces
        cases before <;> cases hpieces
      · rw [if_neg hempty] at hpieces
        obtain ⟨more, hend, hjoin, hdrop, hmore⟩ := exists_pieceEnd text texts
        rw [hjoin]
        cases before with
        | nil =>
            cases hpieces
            refine (hpiece.followed hend ?_).readGroups_eq
            by_cases htext : text = []
            · exact .inr (hmore fun htexts => hempty ⟨htext, htexts⟩)
            · exact .inl htext
        | cons first before =>
            obtain ⟨hfirst, hrest⟩ := List.cons.inj hpieces
            cases hbefore with
            | cons hg hbefore =>
                rw [← hfirst] at hg
                have hread := hg.readGroups_eq htext hend
                rw [hdrop, ih htexts hrest hbefore] at hread
                exact hread

end BytePack
