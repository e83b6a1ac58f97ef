import BytePack.Proofs.Lemmas.Scanning
import BytePack.Scalar

/-!
# Decimal integers

A text is an integer if it is a run of digits with at most a sign in front. Reading judges a text from
left to right and stops where the number leaves the range, yet it accepts exactly the texts whose
value lies in the range, and gives that value. An integer as it is written reads back as itself.
-/

namespace BytePack

/-- How an integer can be written: digits, with a sign or without. -/
inductive SpellsInteger : Int → List Char → Prop where
  | plain {run : List Char} (hne : run ≠ []) (hrun : ∀ c ∈ run, c.isDigit = true) :
      SpellsInteger (Nat.ofDigitChars 10 run 0) run
  | plus {run : List Char} (hne : run ≠ []) (hrun : ∀ c ∈ run, c.isDigit = true) :
      SpellsInteger (Nat.ofDigitChars 10 run 0) ('+' :: run)
  | minus {run : List Char} (hne : run ≠ []) (hrun : ∀ c ∈ run, c.isDigit = true) :
      SpellsInteger (-(Nat.ofDigitChars 10 run 0 : Int)) ('-' :: run)

/-! ## Digits -/

/-- Digits that leave the range at some point are out of range at the end. -/
theorem readDigits_eq {limit value : Nat} (excess : IntegerFault) {run : List Char}
    (hrun : ∀ c ∈ run, c.isDigit = true) (hvalue : value ≤ limit) :
    readDigits limit excess value run =
      if Nat.ofDigitChars 10 run value ≤ limit then .ok (Nat.ofDigitChars 10 run value)
      else .error excess := by
  induction run generalizing value with
  | nil => rw [Nat.ofDigitChars_nil, if_pos hvalue, readDigits]
  | cons c run ih =>
      obtain ⟨hc, hrun⟩ := List.forall_mem_cons.1 hrun
      rw [readDigits, if_pos hc, Nat.ofDigitChars_cons]
      -- digits to come make the value no smaller, so it stays past the limit
      by_cases hnext : limit < 10 * value + (c.toNat - '0'.toNat)
      · have hlarge := le_ofDigitChars run (10 * value + (c.toNat - '0'.toNat))
        rw [if_pos hnext, if_neg (Nat.not_le.2 (Nat.lt_of_lt_of_le hnext hlarge))]
      · rw [if_neg hnext, ih hrun (Nat.not_lt.1 hnext)]

theorem isDigit_of_readDigits {limit value n : Nat} {excess : IntegerFault} {cs : List Char}
    (h : readDigits limit excess value cs = .ok n) : ∀ c ∈ cs, c.isDigit = true := by
  induction cs generalizing value with
  | nil => exact fun _ hc => absurd hc List.not_mem_nil
  | cons c cs ih =>
      simp only [readDigits] at h
      split at h
      · rename_i hc
        split at h
        · cases h
        · exact List.forall_mem_cons.2 ⟨hc, ih h⟩
      · cases h

theorem readDigits_unsigned {run : List Char} (hrun : ∀ c ∈ run, c.isDigit = true) :
    (readDigits (signedBound - 1) .tooLarge 0 run).map (fun (n : Nat) => (n : Int)) =
      if (Nat.ofDigitChars 10 run 0 : Int) < -signedBound then .error .tooSmall
      else if (signedBound : Int) ≤ Nat.ofDigitChars 10 run 0 then .error .tooLarge
      else .ok (Nat.ofDigitChars 10 run 0 : Int) := by
  have hbound : (0 : Int) < signedBound := by decide
  have hlow : ¬ (Nat.ofDigitChars 10 run 0 : Int) < -signedBound := by omega
  rw [readDigits_eq .tooLarge hrun (Nat.zero_le _), if_neg hlow]
  by_cases hle : Nat.ofDigitChars 10 run 0 ≤ signedBound - 1
  · rw [if_pos hle, if_neg (by omega)]
    rfl
  · rw [if_neg hle, if_pos (by omega)]
    rfl

theorem readDigits_negative {run : List Char} (hrun : ∀ c ∈ run, c.isDigit = true) :
    (readDigits signedBound .tooSmall 0 run).map (fun (n : Nat) => -(n : Int)) =
      if -(Nat.ofDigitChars 10 run 0 : Int) < -signedBound then .error .tooSmall
      else if (signedBound : Int) ≤ -(Nat.ofDigitChars 10 run 0 : Int) then .error .tooLarge
      else .ok (-(Nat.ofDigitChars 10 run 0 : Int)) := by
  have hbound : (0 : Int) < signedBound := by decide
  rw [readDigits_eq .tooSmall hrun (Nat.zero_le _)]
  by_cases hle : Nat.ofDigitChars 10 run 0 ≤ signedBound
  · rw [if_pos hle, if_neg (by omega), if_neg (by omega)]
    rfl
  · rw [if_neg hle, if_pos (by omega)]
    rfl

/-- What is read and then signed was digits, and the sign is that of their value. -/
theorem digits_of_map_readDigits {limit : Nat} {excess : IntegerFault} {run : List Char}
    {sign : Nat → Int} {n : Int} (h : (readDigits limit excess 0 run).map sign = .ok n) :
    (∀ c ∈ run, c.isDigit = true) ∧ n = sign (Nat.ofDigitChars 10 run 0) := by
  cases hdigits : readDigits limit excess 0 run with
  | error fault => simp [hdigits, Except.map] at h
  | ok m =>
      have hrun := isDigit_of_readDigits hdigits
      rw [readDigits_eq excess hrun (Nat.zero_le _)] at h
      split at h
      · exact ⟨hrun, (Except.ok.inj h).symm⟩
      · cases h

/-! ## Integers -/

theorem readInt_minus {run : List Char} (hne : run ≠ []) :
    readInt ('-' :: run) =
      (readDigits signedBound .tooSmall 0 run).map fun (n : Nat) => -(n : Int) := by
  obtain ⟨c, cs, rfl⟩ := List.exists_cons_of_ne_nil hne
  change Except.map _ (readDigits signedBound .tooSmall 0 (c :: cs) >>= _) = _
  cases readDigits signedBound .tooSmall 0 (c :: cs) <;> rfl

theorem readInt_plus {run : List Char} (hne : run ≠ []) :
    readInt ('+' :: run) =
      (readDigits (signedBound - 1) .tooLarge 0 run).map fun (n : Nat) => (n : Int) := by
  obtain ⟨c, cs, rfl⟩ := List.exists_cons_of_ne_nil hne
  change Except.map _ (readDigits (signedBound - 1) .tooLarge 0 (c :: cs) >>= _) = _
  cases readDigits (signedBound - 1) .tooLarge 0 (c :: cs) <;> rfl

theorem readInt_unsigned {c : Char} (hminus : c ≠ '-') (hplus : c ≠ '+') (cs : List Char) :
    readInt (c :: cs) =
      (readDigits (signedBound - 1) .tooLarge 0 (c :: cs)).map fun (n : Nat) => (n : Int) := by
  unfold readInt
  split
  case h_6 => cases readDigits (signedBound - 1) .tooLarge 0 (c :: cs) <;> rfl
  all_goals simp_all

/-- A text that is an integer reads as that integer, unless it is out of range at one end. -/
theorem SpellsInteger.readInt_eq {n : Int} {cs : List Char} (h : SpellsInteger n cs) :
    readInt cs =
      if n < -signedBound then .error .tooSmall
      else if signedBound ≤ n then .error .tooLarge
      else .ok n := by
  cases h with
  | @plain run hne hrun =>
      obtain ⟨c, cs, rfl⟩ := List.exists_cons_of_ne_nil hne
      have hc := hrun c List.mem_cons_self
      have hminus : c ≠ '-' := by
        rintro rfl
        exact absurd hc (by decide)
      have hplus : c ≠ '+' := by
        rintro rfl
        exact absurd hc (by decide)
      rw [readInt_unsigned hminus hplus, readDigits_unsigned hrun]
  | @plus run hne hrun => rw [readInt_plus hne, readDigits_unsigned hrun]
  | @minus run hne hrun => rw [readInt_minus hne, readDigits_negative hrun]

theorem spellsInteger_of_readInt {n : Int} {cs : List Char} (h : readInt cs = .ok n) :
    SpellsInteger n cs := by
  cases cs with
  | nil => cases h
  | cons c cs =>
      by_cases hminus : c = '-'
      · subst hminus
        -- a sign alone is no integer, so digits follow it
        have hne : cs ≠ [] := by
          rintro rfl
          cases h
        rw [readInt_minus hne] at h
        obtain ⟨hrun, rfl⟩ := digits_of_map_readDigits h
        exact .minus hne hrun
      · by_cases hplus : c = '+'
        · subst hplus
          have hne : cs ≠ [] := by
            rintro rfl
            cases h
          rw [readInt_plus hne] at h
          obtain ⟨hrun, rfl⟩ := digits_of_map_readDigits h
          exact .plus hne hrun
        · rw [readInt_unsigned hminus hplus] at h
          obtain ⟨hrun, rfl⟩ := digits_of_map_readDigits h
          exact .plain (List.cons_ne_nil c cs) hrun

theorem readInt_eq_ok_iff {n : Int} {cs : List Char} :
    readInt cs = .ok n ↔ SpellsInteger n cs ∧ -(signedBound : Int) ≤ n ∧ n < signedBound := by
  constructor
  · intro h
    have hspells := spellsInteger_of_readInt h
    rw [hspells.readInt_eq] at h
    split at h
    · cases h
    · split at h
      · cases h
      · exact ⟨hspells, by omega, by omega⟩
  · rintro ⟨hspells, hlow, hhigh⟩
    rw [hspells.readInt_eq, if_neg (by omega), if_neg (by omega)]

theorem spellsInteger_integerText (n : Int) : SpellsInteger n (Scalar.integerText n) := by
  have hrun : ∀ c ∈ decimalDigits n.natAbs, c.isDigit = true := fun c hc =>
    Nat.isDigit_of_mem_toDigits (by decide) (by decide) hc
  have hne : decimalDigits n.natAbs ≠ [] := Nat.toDigits_ne_nil
  have hvalue : Nat.ofDigitChars 10 (decimalDigits n.natAbs) 0 = n.natAbs :=
    Nat.ofDigitChars_ten_toDigits
  rw [Scalar.integerText]
  split
  · have hspells := SpellsInteger.minus hne hrun
    rwa [hvalue, show -(n.natAbs : Int) = n by omega] at hspells
  · have hspells := SpellsInteger.plain hne hrun
    rwa [hvalue, show (n.natAbs : Int) = n by omega] at hspells

end BytePack
