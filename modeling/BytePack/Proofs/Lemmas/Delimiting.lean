import BytePack.Config.Json
import BytePack.Proofs.Lemmas.Tokens
import BytePack.Record.Json
import Mathlib.Tactic.SplitIfs

/-!
# Where a JSON text ends

A JSON value that is written before something other than a digit shows where it ends: a number by its
last digit, a string by the first quote that is not escaped, and an array or an object by its closing
bracket. So the text determines the value and what follows it, whichever writer wrote it, as long as
the writer is one of JSON. A string reads back as what was written, whichever of its characters are
escaped.
-/

namespace BytePack

/-- Whether a text begins with no digit. -/
def DigitFree (cs : List Char) : Prop := ∀ c ∈ cs.head?, c.isDigit = false

theorem digitFree_cons {c : Char} (h : c.isDigit = false) (cs : List Char) : DigitFree (c :: cs) := by
  intro d hd
  cases hd
  exact h

/-- Whether what is written for certain values determines the value and what follows it, unless that
begins with a digit. -/
def Delimited {α : Type} (valid : α → Prop) (write : α → List Char) : Prop :=
  ∀ ⦃a b : α⦄, valid a → valid b → ∀ ⦃rest rest' : List Char⦄, DigitFree rest → DigitFree rest' →
    write a ++ rest = write b ++ rest' → a = b ∧ rest = rest'

theorem Delimited.comp {α β : Type} {valid : β → Prop} {write : β → List Char}
    (h : Delimited valid write) {f : α → β} (hf : Function.Injective f) :
    Delimited (fun a => valid (f a)) fun a => write (f a) := by
  intro a b ha hb rest rest' hrest hrest' heq
  obtain ⟨hvalue, htail⟩ := h ha hb hrest hrest' heq
  exact ⟨hf hvalue, htail⟩

/-! ## Numbers -/

theorem isDigit_of_mem_decimalDigits {n : Nat} {c : Char} (h : c ∈ decimalDigits n) :
    c.isDigit = true :=
  Nat.isDigit_of_mem_toDigits (by decide) (by decide) h

theorem ofDigitChars_decimalDigits (n : Nat) : Nat.ofDigitChars 10 (decimalDigits n) 0 = n :=
  Nat.ofDigitChars_ten_toDigits

theorem head?_decimalDigits (n : Nat) : ∃ c, (decimalDigits n).head? = some c ∧ c.isDigit = true := by
  have hne : decimalDigits n ≠ [] := Nat.toDigits_ne_nil
  obtain ⟨c, cs, hcs⟩ := List.exists_cons_of_ne_nil hne
  have hmem : c ∈ decimalDigits n := hcs ▸ List.mem_cons_self
  exact ⟨c, by rw [hcs, List.head?_cons], isDigit_of_mem_decimalDigits hmem⟩

theorem delimited_decimalDigits : Delimited (fun _ => True) decimalDigits := by
  intro m n _ _ rest rest' hrest hrest' h
  have hdigits (k : Nat) : ∀ c ∈ decimalDigits k, c.isDigit = true :=
    fun _ => isDigit_of_mem_decimalDigits
  obtain ⟨htake, hdrop⟩ := takeWhile_isDigit (hdigits m) hrest
  obtain ⟨htake', hdrop'⟩ := takeWhile_isDigit (hdigits n) hrest'
  rw [h, htake'] at htake
  rw [h, hdrop'] at hdrop
  have hvalue := congrArg (fun cs => Nat.ofDigitChars 10 cs 0) htake
  simp only [ofDigitChars_decimalDigits] at hvalue
  exact ⟨hvalue.symm, hdrop.symm⟩

theorem integerText_of_neg {n : Int} (h : n < 0) :
    Scalar.integerText n = '-' :: decimalDigits n.natAbs := if_pos h

theorem integerText_of_nonneg {n : Int} (h : ¬ n < 0) :
    Scalar.integerText n = decimalDigits n.natAbs := if_neg h

/-- Whether a character can stand first in an integer. -/
def BeginsInteger (c : Char) : Prop := c = '-' ∨ c.isDigit = true

theorem head?_integerText (n : Int) :
    ∃ c, (Scalar.integerText n).head? = some c ∧ BeginsInteger c := by
  by_cases hn : n < 0
  · rw [integerText_of_neg hn]
    exact ⟨'-', rfl, .inl rfl⟩
  · rw [integerText_of_nonneg hn]
    obtain ⟨c, hc, hdigit⟩ := head?_decimalDigits n.natAbs
    exact ⟨c, hc, .inr hdigit⟩

theorem delimited_integerText : Delimited (fun _ => True) Scalar.integerText := by
  intro m n _ _ rest rest' hrest hrest' h
  -- digits never begin with a minus sign
  have hsign : ∀ (k : Nat) (cs ds : List Char), '-' :: cs ≠ decimalDigits k ++ ds := by
    intro k cs ds heq
    obtain ⟨c, hc, hdigit⟩ := head?_decimalDigits k
    have hhead := congrArg List.head? heq
    rw [List.head?_append, hc] at hhead
    cases hhead
    exact absurd hdigit (by decide)
  by_cases hm : m < 0
  · by_cases hn : n < 0
    · rw [integerText_of_neg hm, integerText_of_neg hn] at h
      obtain ⟨hvalue, htail⟩ := delimited_decimalDigits trivial trivial hrest hrest'
        (List.cons.inj h).2
      exact ⟨by omega, htail⟩
    · rw [integerText_of_neg hm, integerText_of_nonneg hn] at h
      exact absurd h (hsign _ _ _)
  · by_cases hn : n < 0
    · rw [integerText_of_nonneg hm, integerText_of_neg hn] at h
      exact absurd h.symm (hsign _ _ _)
    · rw [integerText_of_nonneg hm, integerText_of_nonneg hn] at h
      obtain ⟨hvalue, htail⟩ := delimited_decimalDigits trivial trivial hrest hrest' h
      exact ⟨by omega, htail⟩

/-! ## Strings -/

theorem number?_control {n : Nat} (h : n < 0x20) :
    Config.number? 16 ['0', '0', Json.lowerDigit (n / 16), Json.lowerDigit (n % 16)] = some n := by
  have hall : ∀ n < 0x20, Config.number? 16
      ['0', '0', Json.lowerDigit (n / 16), Json.lowerDigit (n % 16)] = some n := by decide +kernel
  exact hall n h

theorem readEscapedUnit_control {c : Char} (h : c.toNat < 0x20) (rest : List Char) :
    Config.Json.readEscapedUnit
        ('0' :: '0' :: Json.lowerDigit (c.toNat / 16) :: Json.lowerDigit (c.toNat % 16) :: rest) =
      some (c, rest) := by
  have hunit : Config.Json.readUnit
      ('0' :: '0' :: Json.lowerDigit (c.toNat / 16) :: Json.lowerDigit (c.toNat % 16) :: rest) =
        some (c.toNat, rest) := by
    simp [Config.Json.readUnit, number?_control h]
  have hlow : ¬ (0xD800 ≤ c.toNat ∧ c.toNat < 0xDC00) := by omega
  have hhigh : ¬ (0xDC00 ≤ c.toNat ∧ c.toNat < 0xE000) := by omega
  rw [Config.Json.readEscapedUnit, hunit]
  simp [hlow, hhigh, Char.ofNat_toNat]

/-- Reading undoes an escape and goes on behind it. -/
theorem readString_escapes {c : Char} {part : List Char} (h : Json.Escapes c part) (fuel : Nat)
    (rest : List Char) :
    Config.Json.readString (fuel + 1) (part ++ rest) =
      (Config.Json.readString fuel rest).bind fun read => some (c :: read.1, read.2) := by
  cases h with
  | plain hquote hslash hcontrol => simp [Config.Json.readString, hslash, hcontrol]
  | quote => rfl
  | backslash => rfl
  | newline => rfl
  | carriageReturn => rfl
  | tab => rfl
  | backspace => rfl
  | formFeed => rfl
  | control hcontrol => simp [Config.Json.readString, readEscapedUnit_control hcontrol]

theorem readString_escapesAll {s inside : List Char} (h : Json.EscapesAll s inside) {fuel : Nat}
    (hfuel : s.length < fuel) (rest : List Char) :
    Config.Json.readString fuel (inside ++ '"' :: rest) = some (s, rest) := by
  induction h generalizing fuel with
  | nil =>
      cases fuel with
      | zero => exact absurd hfuel (Nat.not_lt_zero _)
      | succ fuel => rfl
  | cons hpart _ ih =>
      cases fuel with
      | zero => exact absurd hfuel (Nat.not_lt_zero _)
      | succ fuel =>
          rw [List.append_assoc, readString_escapes hpart, ih (Nat.lt_of_succ_lt_succ hfuel)]
          rfl

section
variable {writer : Json.Writer}

theorem delimited_string (documented : writer.Documented) :
    Delimited (fun _ => True) writer.string := by
  intro s t _ _ rest rest' _ _ h
  obtain ⟨inside, hs, hstring⟩ := documented.string s
  obtain ⟨inside', ht, hstring'⟩ := documented.string t
  rw [hstring, hstring'] at h
  simp only [List.cons_append, List.append_assoc, List.cons.injEq, true_and, List.nil_append] at h
  have hread := readString_escapesAll hs (by omega : s.length < s.length + t.length + 1) rest
  rw [h, readString_escapesAll ht (by omega : t.length < s.length + t.length + 1) rest',
    Option.some.injEq, Prod.mk.injEq] at hread
  exact ⟨hread.1.symm, hread.2.symm⟩

theorem delimited_integer (documented : writer.Documented) :
    Delimited (fun _ => True) writer.integer := by
  intro m n hm hn rest rest' hrest hrest' h
  rw [documented.integer, documented.integer] at h
  exact delimited_integerText hm hn hrest hrest' h

end

/-! ## Items -/

theorem commaSeparated_cons (item : List Char) (items : List (List Char)) :
    Json.commaSeparated (item :: items) = item ++ items.flatMap (',' :: ·) := by
  induction items generalizing item with
  | nil => simp [Json.commaSeparated]
  | cons next items ih =>
      rw [Json.commaSeparated, ih, List.flatMap_cons, List.cons_append]
      exact List.cons_ne_nil next items

section

variable {α : Type} {valid : α → Prop} {write : α → List Char} {close : Char}

theorem digitFree_items (hclose : close.isDigit = false) (as : List α) (rest : List Char) :
    DigitFree ((as.map write).flatMap (',' :: ·) ++ close :: rest) := by
  cases as with
  | nil => exact digitFree_cons hclose rest
  | cons a as => exact digitFree_cons (by decide) _

theorem Delimited.items (h : Delimited valid write) (hclose : close.isDigit = false)
    (hcomma : close ≠ ',') {as bs : List α} (has : ∀ a ∈ as, valid a) (hbs : ∀ b ∈ bs, valid b)
    {rest rest' : List Char}
    (heq : (as.map write).flatMap (',' :: ·) ++ close :: rest =
      (bs.map write).flatMap (',' :: ·) ++ close :: rest') :
    as = bs ∧ rest = rest' := by
  induction as generalizing bs with
  | nil =>
      cases bs with
      | nil => exact ⟨rfl, (List.cons.inj heq).2⟩
      | cons b bs => exact absurd (List.cons.inj heq).1 hcomma
  | cons a as ih =>
      cases bs with
      | nil => exact absurd (List.cons.inj heq).1.symm hcomma
      | cons b bs =>
          obtain ⟨ha, has⟩ := List.forall_mem_cons.1 has
          obtain ⟨hb, hbs⟩ := List.forall_mem_cons.1 hbs
          simp only [List.map_cons, List.flatMap_cons, List.cons_append, List.append_assoc,
            List.cons.injEq, true_and] at heq
          obtain ⟨hfirst, hrest⟩ := h ha hb (digitFree_items hclose as rest)
            (digitFree_items hclose bs rest') heq
          obtain ⟨hlater, htail⟩ := ih has hbs hrest
          exact ⟨by rw [hfirst, hlater], htail⟩

/-- Items with commas between them and a closing bracket after them, which begins no item. -/
theorem Delimited.commaSeparated (h : Delimited valid write) (hclose : close.isDigit = false)
    (hcomma : close ≠ ',') (hhead : ∀ a, valid a → ∃ c, (write a).head? = some c ∧ c ≠ close) :
    Delimited (fun as : List α => ∀ a ∈ as, valid a)
      fun as : List α => Json.commaSeparated (as.map write) ++ [close] := by
  -- an item never begins as the bracket does
  have hitem : ∀ (a : α) (cs ds : List Char), valid a → close :: cs ≠ write a ++ ds := by
    intro a cs ds ha heq
    obtain ⟨c, hc, hne⟩ := hhead a ha
    have hfirst := congrArg List.head? heq
    rw [List.head?_append, hc] at hfirst
    exact hne (Option.some.inj hfirst).symm
  intro as bs has hbs rest rest' _ _ heq
  cases as with
  | nil =>
      cases bs with
      | nil => exact ⟨rfl, (List.cons.inj heq).2⟩
      | cons b bs =>
          simp only [List.map_cons, commaSeparated_cons, List.append_assoc] at heq
          exact absurd heq (hitem b _ _ (hbs b List.mem_cons_self))
  | cons a as =>
      cases bs with
      | nil =>
          simp only [List.map_cons, commaSeparated_cons, List.append_assoc] at heq
          exact absurd heq.symm (hitem a _ _ (has a List.mem_cons_self))
      | cons b bs =>
          obtain ⟨ha, has⟩ := List.forall_mem_cons.1 has
          obtain ⟨hb, hbs⟩ := List.forall_mem_cons.1 hbs
          simp only [List.map_cons, commaSeparated_cons, List.append_assoc, List.cons_append,
            List.nil_append] at heq
          obtain ⟨hfirst, hrest⟩ := h ha hb (digitFree_items hclose as rest)
            (digitFree_items hclose bs rest') heq
          obtain ⟨hlater, htail⟩ := h.items hclose hcomma has hbs hrest
          exact ⟨by rw [hfirst, hlater], htail⟩

end

/-! ## Values and fields -/

/-- Whether a value is an integer or bytes. -/
def Value.IsExact : Value → Prop
  | .bytes _ | .int _ => True
  | .float _ => False

instance : DecidablePred Value.IsExact
  | .bytes _ | .int _ => .isTrue trivial
  | .float _ => .isFalse id

section
variable {writer : Json.Writer}

/-- A bracket begins no integer. -/
theorem bracket_ne_integer (documented : writer.Documented) (n : Int) (cs ds : List Char) {c : Char}
    (hc : ¬ BeginsInteger c) : c :: cs ≠ writer.integer n ++ ds := by
  intro h
  obtain ⟨d, hd, hbegins⟩ := head?_integerText n
  have hfirst := congrArg List.head? h
  rw [documented.integer, List.head?_append, hd] at hfirst
  cases hfirst
  exact hc hbegins

theorem delimited_bytes (documented : writer.Documented) :
    Delimited (fun _ => True) writer.bytes := by
  have hbyte : Delimited (fun _ => True) fun c : UInt8 => writer.integer c.toNat :=
    (delimited_integer documented).comp fun _ _ h => UInt8.toNat_inj.1 (Int.ofNat_inj.1 h)
  have hhead : ∀ c : UInt8, True → ∃ d, (writer.integer c.toNat).head? = some d ∧ d ≠ ']' := by
    intro c _
    obtain ⟨d, hd, hbegins⟩ := head?_integerText c.toNat
    refine ⟨d, by rw [documented.integer, hd], ?_⟩
    rintro rfl
    exact absurd hbegins (by unfold BeginsInteger; decide)
  have hitems := hbyte.commaSeparated (by decide : ']'.isDigit = false) (by decide) hhead
  intro a b _ _ rest rest' hrest hrest' h
  rw [documented.bytes, documented.bytes] at h
  exact hitems (fun _ _ => trivial) (fun _ _ => trivial) hrest hrest' (List.cons.inj h).2

theorem delimited_value (documented : writer.Documented) :
    Delimited Value.IsExact writer.value := by
  have hbracket : ¬ BeginsInteger '[' := by unfold BeginsInteger; decide
  intro v w hv hw rest rest' hrest hrest' h
  cases v with
  | float x => exact absurd hv id
  | bytes a =>
      cases w with
      | float x => exact absurd hw id
      | bytes b =>
          obtain ⟨rfl, htail⟩ := delimited_bytes documented trivial trivial hrest hrest' h
          exact ⟨rfl, htail⟩
      | int n =>
          rw [Json.Writer.value, documented.bytes] at h
          exact absurd h (bracket_ne_integer documented _ _ _ hbracket)
  | int m =>
      cases w with
      | float x => exact absurd hw id
      | bytes b =>
          rw [Json.Writer.value, Json.Writer.value, documented.bytes] at h
          exact absurd h.symm (bracket_ne_integer documented _ _ _ hbracket)
      | int n =>
          obtain ⟨hvalue, htail⟩ := delimited_integer documented trivial trivial hrest hrest' h
          exact ⟨congrArg Value.int (Int64.toInt_inj.1 hvalue), htail⟩

theorem delimited_field (documented : writer.Documented) :
    Delimited (fun entry : String × Value => entry.2.IsExact) writer.field := by
  rintro ⟨k, v⟩ ⟨l, w⟩ hv hw rest rest' hrest hrest' h
  simp only [Json.Writer.field, List.append_assoc, List.cons_append] at h
  obtain ⟨hkey, hvalue⟩ := delimited_string documented trivial trivial
    (digitFree_cons (by decide) _) (digitFree_cons (by decide) _) h
  obtain ⟨rfl, htail⟩ := delimited_value documented hv hw hrest hrest' (List.cons.inj hvalue).2
  exact ⟨congrArg (·, v) (String.toList_inj.1 hkey), htail⟩

theorem delimited_record (documented : writer.Documented) :
    Delimited (fun entries : List (String × Value) => ∀ entry ∈ entries, entry.2.IsExact)
      fun entries => Json.commaSeparated (entries.map writer.field) ++ ['\x7d'] := by
  apply (delimited_field documented).commaSeparated (by decide) (by decide)
  intro entry _
  obtain ⟨inside, -, hstring⟩ := documented.string entry.1.toList
  exact ⟨'"', by rw [Json.Writer.field, hstring, List.cons_append, List.head?_cons], by decide⟩

end

/-! ## The compact writer -/

theorem escapes_escape (c : Char) : Json.Escapes c (Json.escape c) := by
  unfold Json.escape
  split_ifs with hquote hslash hnewline hreturn htab hbackspace hformFeed hcontrol
  · exact hquote ▸ .quote
  · exact hslash ▸ .backslash
  · exact hnewline ▸ .newline
  · exact hreturn ▸ .carriageReturn
  · exact htab ▸ .tab
  · exact hbackspace ▸ .backspace
  · exact hformFeed ▸ .formFeed
  · exact .control hcontrol
  · exact .plain hquote hslash hcontrol

theorem escapesAll_escape (s : List Char) : Json.EscapesAll s (s.flatMap Json.escape) := by
  induction s with
  | nil => exact .nil
  | cons c s ih =>
      rw [List.flatMap_cons]
      exact .cons (escapes_escape c) ih

theorem documented_compact : Json.compact.Documented where
  string s := ⟨_, escapesAll_escape s, rfl⟩
  integer _ := rfl
  bytes _ := rfl

end BytePack
