import BytePack.Codec
import BytePack.Proofs.Lemmas.Demands
import BytePack.Proofs.Lemmas.Tokens

/-!
# Packing by a format

Packing by a text reads its directives first, and succeeds exactly if these find their arguments,
can be sized and written. What a text does not contain, none of its directives is: a format without
`X` and without `@` has no directive that places the cursor.
-/

namespace BytePack

section
variable {format : String} {directives : List Directive} {room : Nat} {args : List Scalar}

theorem packFormat_of_parse (h : parseFormat format = .ok directives) :
    packFormat room format args = packDirectives room directives args := by
  rw [packFormat, h, Reported.ofExcept_ok, Reported.bind_ok, List.nil_append]

theorem packFormat_of_error {e : Error} (h : parseFormat format = .error e) :
    packFormat room format args = ⟨[], .error e⟩ := by
  rw [packFormat, h]
  rfl

theorem packFormat_eq_ok {bytes : List UInt8} :
    (packFormat room format args).outcome = .ok bytes ↔
      ∃ ds, parseFormat format = .ok ds ∧ (packDirectives room ds args).outcome = .ok bytes := by
  cases h : parseFormat format with
  | ok ds => simp [packFormat_of_parse h]
  | error e => simp [packFormat_of_error h]

end

/-- Packing is settling, sizing and writing, one after the other. -/
theorem packDirectives_eq_ok_passes {room : Nat} {ds : List Directive} {args : List Scalar}
    {bytes : List UInt8} :
    (packDirectives room ds args).outcome = .ok bytes ↔
      AllServed args.length ds ∧ ∃ e w, (measure (settle ds args)).outcome = .ok e ∧
        e.size ≤ room ∧ (writeSteps (settle ds args) e.size args).outcome = .ok w ∧
        w.output = bytes := by
  rw [packDirectives_eq_ok]
  constructor
  · rintro ⟨plan, hbuild, hwrite⟩
    obtain ⟨hserved, e, hmeasure, rfl⟩ := Plan.build_eq_ok_settle.1 hbuild
    obtain ⟨hroom, w, hw, rfl⟩ := Plan.write_eq_ok.1 hwrite
    exact ⟨hserved, e, w, hmeasure, hroom, hw, rfl⟩
  · rintro ⟨hserved, e, w, hmeasure, hroom, hw, rfl⟩
    exact ⟨_, Plan.build_eq_ok_settle.2 ⟨hserved, e, hmeasure, rfl⟩,
      Plan.write_eq_ok.2 ⟨hroom, w, hw, rfl⟩⟩

/-! ## The codes of a text -/

theorem Tokens.code_mem {rest text : List Char} {position : Nat} {ds : List Directive}
    (h : Tokens rest position text ds) : ∀ d ∈ ds, d.code ∈ codes ∧ d.symbol ∈ text := by
  induction h with
  | nil => exact fun _ hd => absurd hd List.not_mem_nil
  | cons hcode _ _ ih =>
      refine List.forall_mem_cons.2 ⟨⟨hcode, List.mem_cons_self⟩, fun d hd => ?_⟩
      obtain ⟨hmem, hsymbol⟩ := ih d hd
      exact ⟨hmem, List.mem_cons_of_mem _ (List.mem_append_right _ hsymbol)⟩

theorem parseFormat_code_mem {format : String} {ds : List Directive}
    (h : parseFormat format = .ok ds) :
    ∀ d ∈ ds, d.code ∈ codes ∧ d.symbol ∈ format.toList :=
  (readDirectives_eq_ok_iff.1 h).code_mem

/-- The two codes that place the cursor. -/
theorem Code.symbol_of_seeks {code : Code} (h : code ∈ codes) (hseeks : code.layout.seeks = true) :
    code.symbol = 'X' ∨ code.symbol = '@' := by
  have hall : ∀ code ∈ codes, code.layout.seeks = true → code.symbol = 'X' ∨ code.symbol = '@' := by
    decide
  exact hall code h hseeks

theorem parseFormat_seekFree {format : String} {ds : List Directive}
    (h : parseFormat format = .ok ds) (hback : 'X' ∉ format.toList) (hjump : '@' ∉ format.toList) :
    ∀ d ∈ ds, d.layout.seeks = false := by
  intro d hd
  obtain ⟨hmem, hsymbol⟩ := parseFormat_code_mem h d hd
  refine Bool.eq_false_iff.2 fun hseeks => ?_
  rcases Code.symbol_of_seeks hmem hseeks with hx | hx
  · exact hback (hx ▸ hsymbol)
  · exact hjump (hx ▸ hsymbol)

/-! ## The steps of a text -/

theorem settle_directive_mem {ds : List Directive} {args : List Scalar} {s : Step}
    (h : s ∈ settle ds args) : s.directive ∈ ds := by
  induction ds generalizing args with
  | nil => exact absurd h List.not_mem_nil
  | cons d ds ih =>
      rcases List.mem_cons.1 h with rfl | h
      · exact List.mem_cons_self
      · exact List.mem_cons_of_mem _ (ih h)

theorem settle_seekFree {ds : List Directive} (h : ∀ d ∈ ds, d.layout.seeks = false)
    (args : List Scalar) : ∀ s ∈ settle ds args, s.layout.seeks = false :=
  fun _ hs => h _ (settle_directive_mem hs)

end BytePack
