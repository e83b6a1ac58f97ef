import BytePack.Proofs.Lemmas.Scanning

/-!
# The grammar of formats

A format is accepted exactly if it is a sequence of tokens, and then read as their directives, each
at its byte. Otherwise the error is about the leftmost place where no token stands: the character
there is no code, or the number after it is too large. So directives can be printed and read back,
and two formats one after the other read as the directives of both.
-/

namespace BytePack

/-! ## Printing -/

/-- The text of a directive. -/
def Directive.text (d : Directive) : List Char := d.symbol :: d.repetition.text.toList

/-- The format that consists of some directives. -/
def directiveFormat (ds : List Directive) : String := .ofList (ds.flatMap Directive.text)

/-- Whether two directives are the same but for where they stand. -/
structure Directive.SameAs (d d' : Directive) : Prop where
  code : d'.code = d.code
  repetition : d'.repetition = d.repetition

theorem Directive.Writable.mem_codes {d : Directive} (hd : d.Writable) : d.code ∈ codes :=
  Code.mem_of_ofChar? hd.code

theorem head?_flatMap_text {ds : List Directive} (h : ∀ d ∈ ds, d.Writable) :
    ∀ c ∈ (ds.flatMap Directive.text).head?, c.isDigit = false := by
  cases ds with
  | nil => simp
  | cons d ds =>
      intro c hc
      cases hc
      exact (Code.symbol_not_repeat (h d List.mem_cons_self).mem_codes).2

theorem tokens_flatMap_text {ds : List Directive} (h : ∀ d ∈ ds, d.Writable) (position : Nat) :
    ∃ ds', Tokens [] position (ds.flatMap Directive.text) ds' ∧
      List.Forall₂ Directive.SameAs ds ds' := by
  induction ds generalizing position with
  | nil => exact ⟨[], .nil, .nil⟩
  | cons d ds ih =>
      obtain ⟨hd, hds⟩ := List.forall_mem_cons.1 h
      obtain ⟨ds', htokens, hsame⟩ := ih hds (position + Utf8.size d.text)
      have hspells := hd.repetition.spells (head?_flatMap_text hds)
      rw [← List.append_nil (ds.flatMap Directive.text)] at hspells
      exact ⟨_, .cons hd.mem_codes hspells htokens, .cons ⟨rfl, rfl⟩ hsame⟩

/-! ## Concatenation -/

/-- A directive that stands further behind. -/
def Directive.shift (k : Nat) (d : Directive) : Directive := { d with position := k + d.position }

theorem Tokens.shift {rest text : List Char} {position : Nat} {ds : List Directive}
    (h : Tokens rest position text ds) (k : Nat) :
    Tokens rest (k + position) text (ds.map (Directive.shift k)) := by
  induction h with
  | nil => exact .nil
  | cons hcode hr _ ih =>
      rw [← Nat.add_assoc] at ih
      exact .cons hcode hr ih

/-- Tokens stay tokens where something follows that is no part of a repeat. -/
theorem Tokens.followed {text after : List Char} {position : Nat} {ds : List Directive}
    (h : Tokens [] position text ds) (hafter : ∀ c ∈ after.head?, c ≠ '*' ∧ c.isDigit = false) :
    Tokens after position text ds := by
  induction h with
  | nil => exact .nil
  | cons hcode hr _ ih =>
      have hfollowed := hr.followed hafter
      rw [List.append_nil] at hfollowed
      exact .cons hcode hfollowed ih

theorem parseFormat_append {f g : String} {ds es : List Directive}
    (hf : parseFormat f = .ok ds) (hg : parseFormat g = .ok es) :
    parseFormat (f ++ g) = .ok (ds ++ es.map (Directive.shift f.utf8ByteSize)) := by
  have hfirst := readDirectives_eq_ok_iff.1 hf
  have hsecond := readDirectives_eq_ok_iff.1 hg
  have hshifted := readDirectives_eq_ok_iff.2 (hsecond.shift f.utf8ByteSize)
  rw [parseFormat, String.toList_append, (hfirst.followed hsecond.head?).read, Nat.zero_add,
    ← utf8ByteSize_eq, ← Nat.add_zero f.utf8ByteSize, hshifted]
  rfl

/-! ## Acceptance -/

/-- A format is read as the directives of its tokens, or fails at the leftmost place where no token
stands. Scanning its bytes comes to the same, so an unknown code is shown as the whole character
that starts at its byte. What is printed reads back, and formats can be put together. -/
theorem parseFormat_grammar (f : String) :
    (∀ ds, parseFormat f = .ok ds ↔ Tokens [] 0 f.toList ds) ∧
      (∀ e, parseFormat f = .error e ↔
        ∃ text ds rest, f.toList = text ++ rest ∧ Tokens rest 0 text ds ∧
          Offends (Utf8.size text) rest e) ∧
      scanDirectives 0 (Utf8.encode f.toList) = some (parseFormat f) ∧
      (∀ ds : List Directive, (∀ d ∈ ds, d.Writable) →
        ∃ ds', parseFormat (directiveFormat ds) = .ok ds' ∧
          List.Forall₂ Directive.SameAs ds ds') ∧
      ∀ g ds es, parseFormat f = .ok ds → parseFormat g = .ok es →
        parseFormat (f ++ g) = .ok (ds ++ es.map (Directive.shift f.utf8ByteSize)) := by
  refine ⟨fun ds => readDirectives_eq_ok_iff, fun e => ?_, scanDirectives_encode 0 f.toList,
    fun ds hds => ?_, fun g ds es => parseFormat_append⟩
  · rw [parseFormat, readDirectives_eq_error_iff]
    simp only [Nat.zero_add]
  · obtain ⟨ds', htokens, hsame⟩ := tokens_flatMap_text hds 0
    refine ⟨ds', ?_, hsame⟩
    rw [parseFormat, directiveFormat, String.toList_ofList]
    exact readDirectives_eq_ok_iff.2 htokens

/-- A count is printed without the zeros it was written with; what follows stands at its byte. -/
theorem parseFormat_grammar_zeros :
    let greedy : Directive := ⟨⟨'C', .number (.integer .byte .machine false)⟩, .greedy, 0⟩
    let two : Directive := ⟨⟨'n', .number (.integer .short .bigEndian false)⟩, .count 2, 2⟩
    parseFormat ("C*n02" ++ "x") = .ok [greedy, two, ⟨⟨'x', .nulByte⟩, .count 1, 5⟩] ∧
      ∃ ds', parseFormat "C*n2" = .ok ds' ∧ List.Forall₂ Directive.SameAs [greedy, two] ds' := by
  intro greedy two
  have hf : parseFormat "C*n02" = .ok [greedy, two] := by decide +kernel
  have hg : parseFormat "x" = .ok [⟨⟨'x', .nulByte⟩, .count 1, 0⟩] := by decide +kernel
  have hwritable : ∀ d ∈ [greedy, two], d.Writable := by
    have hcount : (2 : Nat) ≤ maxCount := by decide
    simpa using ⟨⟨by decide, trivial⟩, ⟨by decide, hcount⟩⟩
  have hprinted : directiveFormat [greedy, two] = "C*n2" := by decide +kernel
  obtain ⟨_, _, _, hprint, happend⟩ := parseFormat_grammar "C*n02"
  exact ⟨happend "x" _ _ hf hg, hprinted ▸ hprint [greedy, two] hwritable⟩

end BytePack
