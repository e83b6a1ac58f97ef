import BytePack.Format.Directive
import BytePack.Text.Utf8

/-!
# Tokens of a format

A format is read as tokens: a code character and the spelling of its repeat. A text is judged with
the characters that follow it, so that no run of digits is cut in two. Reading goes through tokens
one by one, and stops where the next characters make no token.
-/

namespace BytePack

/-! ## The grammar -/

/-- Whether a text spells a repeat where `rest` follows it. -/
inductive Repeat.Spells (rest : List Char) : Repeat → List Char → Prop where
  | absent (hrest : ∀ c ∈ rest.head?, c ≠ '*' ∧ c.isDigit = false) : Spells rest (.count 1) []
  | star : Spells rest .greedy ['*']
  | digits {run : List Char} (hne : run ≠ []) (hrun : ∀ c ∈ run, c.isDigit = true)
      (hrest : ∀ c ∈ rest.head?, c.isDigit = false)
      (hvalue : Nat.ofDigitChars 10 run 0 ≤ maxCount) :
      Spells rest (.count (Nat.ofDigitChars 10 run 0)) run

/-- Whether a text that starts at a position is a sequence of tokens, where `rest` follows it, and
which directives they are. Each stands at the byte where its code is. -/
inductive Tokens (rest : List Char) : Nat → List Char → List Directive → Prop where
  | nil {position : Nat} : Tokens rest position [] []
  | cons {position : Nat} {code : Code} {r : Repeat} {spelling more : List Char}
      {ds : List Directive} (hcode : code ∈ codes) (hr : r.Spells (more ++ rest) spelling)
      (hmore : Tokens rest (position + Utf8.size (code.symbol :: spelling)) more ds) :
      Tokens rest position (code.symbol :: (spelling ++ more)) (⟨code, r, position⟩ :: ds)

/-- Whether no token stands at the front of a text that starts at a position, and what is wrong with
what stands there. -/
inductive Offends (position : Nat) : List Char → Error → Prop where
  | unknown {c : Char} {cs : List Char} (hc : ∀ code ∈ codes, code.symbol ≠ c) :
      Offends position (c :: cs) (.format c position .unknownCode)
  | tooLarge {code : Code} {run rest : List Char} (hcode : code ∈ codes)
      (hrun : ∀ c ∈ run, c.isDigit = true) (hrest : ∀ c ∈ rest.head?, c.isDigit = false)
      (hvalue : maxCount < Nat.ofDigitChars 10 run 0) :
      Offends position (code.symbol :: (run ++ rest))
        (.format code.symbol position .repeatTooLarge)

/-! ## Codes -/

theorem Code.ofChar?_symbol {code : Code} (h : code ∈ codes) :
    Code.ofChar? code.symbol = some code := by
  have hall : ∀ code ∈ codes, Code.ofChar? code.symbol = some code := by decide
  exact hall code h

theorem Code.ofChar?_eq_none {c : Char} :
    Code.ofChar? c = none ↔ ∀ code ∈ codes, code.symbol ≠ c := by
  simp [Code.ofChar?, List.find?_eq_none]

theorem Code.mem_of_ofChar? {c : Char} {code : Code} (h : Code.ofChar? c = some code) :
    code ∈ codes :=
  List.mem_of_find?_eq_some h

theorem Code.symbol_not_repeat {code : Code} (h : code ∈ codes) :
    code.symbol ≠ '*' ∧ code.symbol.isDigit = false := by
  have hall : ∀ code ∈ codes, code.symbol ≠ '*' ∧ code.symbol.isDigit = false := by decide
  exact hall code h

theorem Code.utf8Size_symbol {code : Code} (h : code ∈ codes) : code.symbol.utf8Size = 1 := by
  have hall : ∀ code ∈ codes, code.symbol.utf8Size = 1 := by decide
  exact hall code h

/-! ## Sizes -/

theorem utf8ByteSize_eq (f : String) : f.utf8ByteSize = Utf8.size f.toList := by
  calc f.utf8ByteSize = (String.ofList f.toList).utf8ByteSize := by rw [String.ofList_toList]
    _ = (Utf8.encode f.toList).length := by
        rw [String.utf8ByteSize, String.toByteArray_ofList, List.utf8Encode, List.size_toByteArray]
        rfl
    _ = Utf8.size f.toList := Utf8.length_encode f.toList

/-! ## Repeats -/

theorem utf8Size_of_isDigit {c : Char} (h : c.isDigit = true) : c.utf8Size = 1 := by
  simp only [Char.isDigit, Bool.and_eq_true, decide_eq_true_eq] at h
  simp only [Char.utf8Size]
  rw [if_pos (UInt32.le_trans h.2 (by decide))]

theorem Utf8.size_of_digits {run : List Char} (h : ∀ c ∈ run, c.isDigit = true) :
    Utf8.size run = run.length := by
  induction run with
  | nil => rfl
  | cons c run ih =>
      obtain ⟨hc, hrun⟩ := List.forall_mem_cons.1 h
      rw [Utf8.size, ih hrun, utf8Size_of_isDigit hc, List.length_cons, Nat.add_comm]

theorem Repeat.Spells.size_eq {r : Repeat} {spelling rest : List Char}
    (h : r.Spells rest spelling) : Utf8.size spelling = spelling.length := by
  cases h with
  | absent => rfl
  | star => rfl
  | digits _ hrun => exact Utf8.size_of_digits hrun

theorem takeWhile_isDigit {run rest : List Char} (hrun : ∀ c ∈ run, c.isDigit = true)
    (hrest : ∀ c ∈ rest.head?, c.isDigit = false) :
    (run ++ rest).takeWhile Char.isDigit = run ∧ (run ++ rest).dropWhile Char.isDigit = rest := by
  rw [List.takeWhile_append_of_pos hrun, List.dropWhile_append_of_pos hrun]
  cases rest with
  | nil => simp
  | cons c cs => simp [hrest c rfl]

/-- A text splits into its digits at the front and a rest without. -/
theorem exists_digits (cs : List Char) :
    ∃ run rest, cs = run ++ rest ∧ (∀ c ∈ run, c.isDigit = true) ∧
      ∀ c ∈ rest.head?, c.isDigit = false := by
  refine ⟨cs.takeWhile Char.isDigit, cs.dropWhile Char.isDigit,
    List.takeWhile_append_dropWhile.symm, List.all_eq_true.1 List.all_takeWhile, fun c hc => ?_⟩
  have h := List.head?_dropWhile_not Char.isDigit cs
  rwa [Option.mem_def.1 hc] at h

theorem Repeat.read_digits {run rest : List Char} (hstar : ∀ c ∈ (run ++ rest).head?, c ≠ '*')
    (hrun : ∀ c ∈ run, c.isDigit = true) (hrest : ∀ c ∈ rest.head?, c.isDigit = false) :
    Repeat.read (run ++ rest) =
      (if (if run.isEmpty then 1 else Nat.ofDigitChars 10 run 0) ≤ maxCount then
        some (.count (if run.isEmpty then 1 else Nat.ofDigitChars 10 run 0)) else none, rest) := by
  obtain ⟨htake, hdrop⟩ := takeWhile_isDigit hrun hrest
  unfold Repeat.read
  split
  · rename_i cs heq
    exact absurd rfl (hstar '*' (by rw [heq]; rfl))
  · rw [htake, hdrop]

theorem ne_star_of_digits {run rest : List Char} (hne : run ≠ [])
    (hrun : ∀ c ∈ run, c.isDigit = true) : ∀ c ∈ (run ++ rest).head?, c ≠ '*' := by
  cases run with
  | nil => exact absurd rfl hne
  | cons d run =>
      rintro c hc rfl
      cases hc
      exact absurd (hrun '*' List.mem_cons_self) (by decide)

theorem Repeat.Spells.read {r : Repeat} {spelling rest : List Char} (h : r.Spells rest spelling) :
    Repeat.read (spelling ++ rest) = (some r, rest) := by
  cases h with
  | absent hrest =>
      have hstar : ∀ c ∈ ([] ++ rest).head?, c ≠ '*' := fun c hc => (hrest c hc).1
      rw [Repeat.read_digits hstar (by simp) fun c hc => (hrest c hc).2]
      simp [maxCount, UInt64.size]
  | star => rfl
  | digits hne hrun hrest hvalue =>
      rw [Repeat.read_digits (ne_star_of_digits hne hrun) hrun hrest]
      simp [hne, hvalue]

theorem Repeat.read_tooLarge {run rest : List Char} (hrun : ∀ c ∈ run, c.isDigit = true)
    (hrest : ∀ c ∈ rest.head?, c.isDigit = false)
    (hvalue : maxCount < Nat.ofDigitChars 10 run 0) :
    Repeat.read (run ++ rest) = (none, rest) := by
  have hne : run ≠ [] := by
    rintro rfl
    exact absurd hvalue (Nat.not_lt_zero _)
  rw [Repeat.read_digits (ne_star_of_digits hne hrun) hrun hrest]
  simp [hne, Nat.not_le.2 hvalue]

/-- Whether a repeat can be written. -/
def Repeat.Writable : Repeat → Prop
  | .greedy => True
  | .count n => n ≤ maxCount

theorem Repeat.Writable.spells {r : Repeat} (hr : r.Writable) {rest : List Char}
    (hrest : ∀ c ∈ rest.head?, c.isDigit = false) : r.Spells rest r.text.toList := by
  cases r with
  | greedy => exact .star
  | count n =>
      have htext : (Repeat.count n).text.toList = Nat.toDigits 10 n := by simp [Repeat.text]
      have hdigits : ∀ c ∈ Nat.toDigits 10 n, c.isDigit = true := fun c hc =>
        Nat.isDigit_of_mem_toDigits (by decide) (by decide) hc
      have hvalue : Nat.ofDigitChars 10 (Nat.toDigits 10 n) 0 = n := Nat.ofDigitChars_ten_toDigits
      have hspells := Repeat.Spells.digits Nat.toDigits_ne_nil hdigits hrest (hvalue.symm ▸ hr)
      rwa [hvalue, ← htext] at hspells

/-- Every text starts with the spelling of a repeat, unless its digits stand for too much. -/
theorem Repeat.exists_spelling (cs : List Char) :
    (∃ r spelling rest, cs = spelling ++ rest ∧ Repeat.Spells rest r spelling) ∨
      ∃ run rest, cs = run ++ rest ∧ (∀ c ∈ run, c.isDigit = true) ∧
        (∀ c ∈ rest.head?, c.isDigit = false) ∧ maxCount < Nat.ofDigitChars 10 run 0 := by
  obtain ⟨run, rest, rfl, hrun, hrest⟩ := exists_digits cs
  by_cases hne : run = []
  · subst hne
    left
    cases rest with
    | nil => exact ⟨_, _, _, rfl, .absent (by simp)⟩
    | cons c cs =>
        by_cases hc : c = '*'
        · subst hc
          exact ⟨.greedy, ['*'], cs, rfl, .star⟩
        · refine ⟨_, _, _, rfl, .absent fun c' hc' => ⟨?_, hrest c' hc'⟩⟩
          cases hc'
          exact hc
  · by_cases hvalue : Nat.ofDigitChars 10 run 0 ≤ maxCount
    · exact .inl ⟨_, _, _, rfl, .digits hne hrun hrest hvalue⟩
    · exact .inr ⟨run, rest, rfl, hrun, hrest, Nat.lt_of_not_le hvalue⟩

/-! ## What follows -/

theorem Repeat.Spells.followed {r : Repeat} {spelling rest after : List Char}
    (h : r.Spells rest spelling) (hafter : ∀ c ∈ after.head?, c ≠ '*' ∧ c.isDigit = false) :
    r.Spells (rest ++ after) spelling := by
  cases rest with
  | nil =>
      cases h with
      | absent => exact .absent hafter
      | star => exact .star
      | digits hne hrun _ hvalue => exact .digits hne hrun (fun c hc => (hafter c hc).2) hvalue
  | cons c cs =>
      cases h with
      | absent hrest => exact .absent hrest
      | star => exact .star
      | digits hne hrun hrest hvalue => exact .digits hne hrun hrest hvalue

theorem Tokens.head? {rest text : List Char} {position : Nat} {ds : List Directive}
    (h : Tokens rest position text ds) : ∀ c ∈ text.head?, c ≠ '*' ∧ c.isDigit = false := by
  cases h with
  | nil => simp
  | cons hcode =>
      intro c hc
      cases hc
      exact Code.symbol_not_repeat hcode

/-! ## Reading -/

theorem readDirectives_cons_ok {position : Nat} {c : Char} {cs rest : List Char} {d : Directive}
    (h : Directive.read position c cs = .ok (d, rest)) :
    readDirectives position (c :: cs) =
      (readDirectives (position + 1 + (cs.length - rest.length)) rest).map (d :: ·) := by
  rw [readDirectives]
  split
  · rename_i e he
    cases h.symm.trans he
  · rename_i d' rest' hd
    cases h.symm.trans hd
    cases readDirectives (position + 1 + (cs.length - rest.length)) rest <;> rfl

theorem readDirectives_cons_error {position : Nat} {c : Char} {cs : List Char} {e : Error}
    (h : Directive.read position c cs = .error e) :
    readDirectives position (c :: cs) = .error e := by
  rw [readDirectives]
  split
  · rename_i e' he
    cases h.symm.trans he
    rfl
  · rename_i d rest hd
    cases h.symm.trans hd

theorem Repeat.Spells.read_directive {code : Code} {r : Repeat} {spelling rest : List Char}
    (hcode : code ∈ codes) (h : r.Spells rest spelling) (position : Nat) :
    Directive.read position code.symbol (spelling ++ rest) = .ok (⟨code, r, position⟩, rest) := by
  simp [Directive.read, Code.ofChar?_symbol hcode, h.read]

theorem Offends.directive_read {position : Nat} {c : Char} {cs : List Char} {e : Error}
    (h : Offends position (c :: cs) e) : Directive.read position c cs = .error e := by
  cases h with
  | unknown hc => simp [Directive.read, Code.ofChar?_eq_none.2 hc]
  | tooLarge hcode hrun hrest hvalue =>
      simp [Directive.read, Code.ofChar?_symbol hcode, Repeat.read_tooLarge hrun hrest hvalue]

theorem Offends.read {position : Nat} {cs : List Char} {e : Error} (h : Offends position cs e) :
    readDirectives position cs = .error e := by
  cases cs with
  | nil => cases h
  | cons c cs => exact readDirectives_cons_error h.directive_read

/-- Reading goes through tokens to what follows them. -/
theorem Tokens.read {rest text : List Char} {position : Nat} {ds : List Directive}
    (h : Tokens rest position text ds) :
    readDirectives position (text ++ rest) =
      (readDirectives (position + Utf8.size text) rest).map (ds ++ ·) := by
  induction h with
  | nil =>
      simp only [List.nil_append, Utf8.size, Nat.add_zero]
      cases readDirectives _ rest <;> rfl
  | @cons position code r spelling more ds hcode hr _ ih =>
      have hlen : (spelling ++ (more ++ rest)).length - (more ++ rest).length =
          spelling.length := by
        rw [List.length_append, Nat.add_sub_cancel]
      have hnext : position + 1 + spelling.length =
          position + Utf8.size (code.symbol :: spelling) := by
        rw [Utf8.size, hr.size_eq, Code.utf8Size_symbol hcode, Nat.add_assoc]
      rw [List.cons_append, List.append_assoc,
        readDirectives_cons_ok (hr.read_directive hcode position), hlen, hnext, ih]
      have hsize : position + Utf8.size (code.symbol :: spelling) + Utf8.size more =
          position + Utf8.size (code.symbol :: (spelling ++ more)) := by
        simp only [Utf8.size, Utf8.size_append]
        omega
      rw [hsize]
      cases readDirectives _ rest <;> rfl

/-- Every text has tokens at the front, up to its end or up to where it offends. -/
theorem exists_tokens (position : Nat) (cs : List Char) :
    ∃ text ds rest, cs = text ++ rest ∧ Tokens rest position text ds ∧
      (rest = [] ∨ ∃ e, Offends (position + Utf8.size text) rest e) := by
  induction hn : cs.length using Nat.strongRecOn generalizing position cs with
  | _ n ih =>
    cases cs with
    | nil => exact ⟨[], [], [], rfl, .nil, .inl rfl⟩
    | cons c cs =>
        cases hc : Code.ofChar? c with
        | none =>
            exact ⟨[], [], c :: cs, rfl, .nil, .inr ⟨_, .unknown (Code.ofChar?_eq_none.1 hc)⟩⟩
        | some code =>
            have hcode := Code.mem_of_ofChar? hc
            have hsymbol := Code.symbol_of_ofChar? hc
            subst hsymbol
            rcases Repeat.exists_spelling cs with ⟨r, spelling, rest, rfl, hr⟩ | h
            · have hless : rest.length < n := by
                rw [← hn, List.length_cons, List.length_append]
                omega
              obtain ⟨text, ds, rest, rfl, htokens, hrest⟩ :=
                ih _ hless (position + Utf8.size (code.symbol :: spelling)) rest rfl
              refine ⟨code.symbol :: (spelling ++ text), _, rest, by simp,
                .cons hcode hr htokens, ?_⟩
              have hsize : position + Utf8.size (code.symbol :: (spelling ++ text)) =
                  position + Utf8.size (code.symbol :: spelling) + Utf8.size text := by
                simp only [Utf8.size, Utf8.size_append]
                omega
              rwa [hsize]
            · obtain ⟨run, rest, rfl, hrun, hrest, hvalue⟩ := h
              exact ⟨[], [], _, rfl, .nil, .inr ⟨_, .tooLarge hcode hrun hrest hvalue⟩⟩

theorem readDirectives_eq_ok_iff {position : Nat} {cs : List Char} {ds : List Directive} :
    readDirectives position cs = .ok ds ↔ Tokens [] position cs ds := by
  constructor
  · intro h
    obtain ⟨text, ds', rest, rfl, htokens, rfl | ⟨e, he⟩⟩ := exists_tokens position cs
    · rw [htokens.read, readDirectives] at h
      cases h
      simpa using htokens
    · rw [htokens.read, he.read] at h
      cases h
  · intro h
    have hread := h.read
    rw [List.append_nil, readDirectives] at hread
    rw [hread]
    simp [Except.map]

theorem readDirectives_eq_error_iff {position : Nat} {cs : List Char} {e : Error} :
    readDirectives position cs = .error e ↔
      ∃ text ds rest, cs = text ++ rest ∧ Tokens rest position text ds ∧
        Offends (position + Utf8.size text) rest e := by
  constructor
  · intro h
    obtain ⟨text, ds, rest, rfl, htokens, rfl | ⟨e', he⟩⟩ := exists_tokens position cs
    · rw [htokens.read, readDirectives] at h
      cases h
    · rw [htokens.read, he.read] at h
      cases h
      exact ⟨text, ds, rest, rfl, htokens, he⟩
  · rintro ⟨text, ds, rest, rfl, htokens, he⟩
    rw [htokens.read, he.read]
    rfl

end BytePack
