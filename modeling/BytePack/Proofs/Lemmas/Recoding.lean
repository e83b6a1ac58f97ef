import BytePack.Proofs.Lemmas.Matching
import BytePack.Proofs.Lemmas.Tokens

/-!
# Codes in place of codes

Where each code of a text is replaced by another one and everything else stays, the text reads as the
same directives with the other codes, or offends at the same place: a code is never part of a repeat.
-/

namespace BytePack

/-- Whether a character replaces another: a code by a code whose layout is related, anything else by
itself. -/
inductive Recodes (R : Layout → Layout → Prop) : Char → Char → Prop where
  | code {c c' : Char} {code code' : Code} (hcode : Code.ofChar? c = some code)
      (hcode' : Code.ofChar? c' = some code') (h : R code.layout code'.layout) : Recodes R c c'
  | other {c : Char} (h : Code.ofChar? c = none) : Recodes R c c

/-- Whether two directives have related layouts and the same repeat. -/
structure Directive.Recoded (R : Layout → Layout → Prop) (d d' : Directive) : Prop where
  layout : R d.layout d'.layout
  repetition : d'.repetition = d.repetition

variable {R : Layout → Layout → Prop}

/-! ## Repeats -/

theorem Code.ofChar?_not_repeat {c : Char} {code : Code} (h : Code.ofChar? c = some code) :
    c ≠ '*' ∧ c.isDigit = false := by
  have hcode := Code.symbol_not_repeat (Code.mem_of_ofChar? h)
  rwa [Code.symbol_of_ofChar? h] at hcode

/-- What is replaced by something else is no part of a repeat, and neither is what replaces it. -/
theorem Recodes.eq_or_not_repeat {c c' : Char} (h : Recodes R c c') :
    c' = c ∨ (c ≠ '*' ∧ c.isDigit = false) ∧ c' ≠ '*' ∧ c'.isDigit = false := by
  cases h with
  | code hcode hcode' _ =>
      exact .inr ⟨Code.ofChar?_not_repeat hcode, Code.ofChar?_not_repeat hcode'⟩
  | other _ => exact .inl rfl

theorem Recodes.isDigit_eq {c c' : Char} (h : Recodes R c c') : c'.isDigit = c.isDigit := by
  rcases h.eq_or_not_repeat with rfl | ⟨⟨_, hc⟩, _, hc'⟩
  · rfl
  · rw [hc, hc']

/-- The digits at the front of both texts are the same. -/
theorem exists_digits_recoded {cs cs' : List Char} (h : List.Forall₂ (Recodes R) cs cs') :
    ∃ run rest rest', cs = run ++ rest ∧ cs' = run ++ rest' ∧ (∀ c ∈ run, c.isDigit = true) ∧
      (∀ c ∈ rest.head?, c.isDigit = false) ∧ (∀ c ∈ rest'.head?, c.isDigit = false) ∧
      List.Forall₂ (Recodes R) rest rest' := by
  induction h with
  | nil => exact ⟨[], [], [], rfl, rfl, by simp, by simp, by simp, .nil⟩
  | @cons c c' cs cs' hc hcs ih =>
      cases hdigit : c.isDigit with
      | true =>
          rcases hc.eq_or_not_repeat with rfl | ⟨⟨_, hno⟩, _⟩
          · obtain ⟨run, rest, rest', rfl, rfl, hrun, hends⟩ := ih
            exact ⟨c' :: run, rest, rest', rfl, rfl, List.forall_mem_cons.2 ⟨hdigit, hrun⟩, hends⟩
          · exact absurd (hno.symm.trans hdigit) Bool.false_ne_true
      | false =>
          refine ⟨[], c :: cs, c' :: cs', rfl, rfl, by simp, ?_, ?_, .cons hc hcs⟩
          · rintro _ ⟨⟩
            exact hdigit
          · rintro _ ⟨⟩
            rw [hc.isDigit_eq, hdigit]

theorem Recodes.star_head? {cs cs' : List Char} (h : List.Forall₂ (Recodes R) cs cs')
    (hstar : ∀ c ∈ cs.head?, c ≠ '*') : ∀ c ∈ cs'.head?, c ≠ '*' := by
  cases h with
  | nil => exact hstar
  | cons hc _ =>
      rintro _ ⟨⟩
      rcases hc.eq_or_not_repeat with rfl | ⟨_, hno, _⟩
      · exact hstar _ rfl
      · exact hno

theorem Repeat.read_recoded {cs cs' : List Char} (h : List.Forall₂ (Recodes R) cs cs') :
    (Repeat.read cs').1 = (Repeat.read cs).1 ∧
      List.Forall₂ (Recodes R) (Repeat.read cs).2 (Repeat.read cs').2 := by
  by_cases hstar : ∀ c ∈ cs.head?, c ≠ '*'
  · have hstar' := Recodes.star_head? h hstar
    obtain ⟨run, rest, rest', rfl, rfl, hrun, hrest, hrest', hall⟩ := exists_digits_recoded h
    rw [Repeat.read_digits hstar hrun hrest, Repeat.read_digits hstar' hrun hrest']
    exact ⟨rfl, hall⟩
  · cases h with
    | nil => exact absurd (by simp) hstar
    | @cons c c' cs cs' hc hcs =>
        have hc₀ : c = '*' := by simpa using hstar
        subst hc₀
        rcases hc.eq_or_not_repeat with rfl | ⟨⟨hno, _⟩, _⟩
        · exact ⟨rfl, hcs⟩
        · exact absurd rfl hno

/-! ## Directives -/

theorem Directive.read_recoded {c c' : Char} {cs cs' : List Char} (hc : Recodes R c c')
    (hcs : List.Forall₂ (Recodes R) cs cs') (position position' : Nat) :
    Matches (fun found found' => found.1.Recoded R found'.1 ∧
        List.Forall₂ (Recodes R) found.2 found'.2)
      (Directive.read position c cs) (Directive.read position' c' cs') := by
  obtain ⟨hrepeat, hrest⟩ := Repeat.read_recoded hcs
  rw [Directive.read, Directive.read]
  cases hc with
  | other h =>
      rw [h]
      exact .error rfl
  | code hcode hcode' hlayout =>
      rw [hcode, hcode']
      generalize Repeat.read cs = found at hrepeat hrest ⊢
      generalize Repeat.read cs' = found' at hrepeat hrest ⊢
      obtain ⟨r, rest⟩ := found
      obtain ⟨r', rest'⟩ := found'
      simp only at hrepeat
      subst hrepeat
      cases r' with
      | none => exact .error rfl
      | some r => exact .ok ⟨⟨hlayout, rfl⟩, hrest⟩

theorem readDirectives_recoded {cs cs' : List Char} (h : List.Forall₂ (Recodes R) cs cs')
    (position position' : Nat) :
    Matches (List.Forall₂ (Directive.Recoded R)) (readDirectives position cs)
      (readDirectives position' cs') := by
  induction hn : cs.length using Nat.strongRecOn generalizing cs cs' position position' with
  | _ n ih =>
    cases h with
    | nil =>
        rw [readDirectives, readDirectives]
        exact .ok .nil
    | @cons c c' cs cs' hc hcs =>
        have hread := Directive.read_recoded hc hcs position position'
        cases hfound : Directive.read position c cs with
        | error e =>
            rw [hfound] at hread
            cases hfound' : Directive.read position' c' cs' with
            | ok found' =>
                rw [hfound'] at hread
                cases hread
            | error e' =>
                rw [hfound'] at hread
                rw [readDirectives_cons_error hfound, readDirectives_cons_error hfound']
                cases hread with
                | error hkind => exact .error hkind
        | ok found =>
            rw [hfound] at hread
            cases hfound' : Directive.read position' c' cs' with
            | error e' =>
                rw [hfound'] at hread
                cases hread
            | ok found' =>
                rw [hfound'] at hread
                cases hread with
                | ok hpair =>
                    have hless := Directive.length_read_le hfound
                    rw [readDirectives_cons_ok hfound, readDirectives_cons_ok hfound']
                    refine (ih _ ?_ hpair.2 _ _ rfl).map fun ds ds' hds => .cons hpair.1 hds
                    rw [← hn, List.length_cons]
                    exact Nat.lt_succ_of_le hless

/-- A text with other codes reads as the same directives with these codes. -/
theorem parseFormat_recoded {f f' : String} (h : List.Forall₂ (Recodes R) f.toList f'.toList) :
    Matches (List.Forall₂ (Directive.Recoded R)) (parseFormat f) (parseFormat f') :=
  readDirectives_recoded h 0 0

end BytePack
