import BytePack.Proofs.Lemmas.Settling
import BytePack.Proofs.Lemmas.Writing

/-!
# What packing reports

Settling reports ignored repeats, sizing reports steps back past the start, and writing reports
hexadecimal texts that are short or have other characters in them. A run of steps that reports no
short text takes the writer exactly where sizing goes.
-/

namespace BytePack

/-! ## Runs -/

namespace Reported

variable {σ ι : Type} {f : σ → ι → Reported σ}

theorem diagnostics_run_cons {i : ι} {rest : List ι} {s m : σ} (h : (f s i).outcome = .ok m) :
    ((i :: rest).foldlM f s).diagnostics =
      (f s i).diagnostics ++ (rest.foldlM f m).diagnostics := by
  rw [List.foldlM_cons, diagnostics_bind h]

theorem diagnostics_run_append {before after : List ι} {s m : σ}
    (h : (before.foldlM f s).outcome = .ok m) :
    ((before ++ after).foldlM f s).diagnostics =
      (before.foldlM f s).diagnostics ++ (after.foldlM f m).diagnostics := by
  rw [List.foldlM_append, diagnostics_bind h]

/-- What a run reports, one of its steps reports. -/
theorem mem_diagnostics_run {steps : List ι} {s : σ} {d : Diagnostic}
    (h : d ∈ (steps.foldlM f s).diagnostics) : ∃ i ∈ steps, ∃ m, d ∈ (f m i).diagnostics := by
  induction steps generalizing s with
  | nil => exact absurd h List.not_mem_nil
  | cons i rest ih =>
      rw [List.foldlM_cons] at h
      cases hm : (f s i).outcome with
      | error e =>
          rw [bind_of_error hm] at h
          exact ⟨i, List.mem_cons_self, s, h⟩
      | ok m =>
          rw [diagnostics_bind hm, List.mem_append] at h
          rcases h with h | h
          · exact ⟨i, List.mem_cons_self, s, h⟩
          · obtain ⟨j, hj, m', h⟩ := ih h
            exact ⟨j, List.mem_cons_of_mem _ hj, m', h⟩

end Reported

/-! ## Settling -/

theorem Directive.demand_reports {d : Directive} {args : List Scalar} {report : Diagnostic}
    (h : report ∈ (d.demand args).diagnostics) : report = .greedyIgnored d.symbol := by
  rw [d.demand_eq] at h
  exact Directive.mem_settleReports h

theorem resolve_reports {format : List Directive} {args : List Scalar} {report : Diagnostic}
    (h : report ∈ (resolve format args).diagnostics) :
    ∃ symbol, report = .greedyIgnored symbol := by
  induction format generalizing args with
  | nil => exact absurd h List.not_mem_nil
  | cons d ds ih =>
      rw [resolve] at h
      cases hd : (d.demand args).outcome with
      | error e =>
          rw [Reported.bind_of_error hd] at h
          exact ⟨d.symbol, Directive.demand_reports h⟩
      | ok demand =>
          rw [Reported.diagnostics_bind hd, List.mem_append] at h
          rcases h with h | h
          · exact ⟨d.symbol, Directive.demand_reports h⟩
          · cases hmore : (resolve ds (args.drop demand.taken)).outcome with
            | error e =>
                rw [Reported.bind_of_error hmore] at h
                exact ih h
            | ok more =>
                rw [Reported.diagnostics_bind hmore] at h
                exact ih (by simpa using h)

/-! ## Sizing -/

theorem Step.move_reports {s : Step} (pos : Nat) {report : Diagnostic}
    (h : report ∈ (s.move pos).diagnostics) :
    s.layout = .backUp ∧ report = .outsideOfString s.symbol := by
  unfold Step.move at h
  cases hl : s.layout with
  | backUp =>
      rw [hl] at h
      simp only at h
      split at h
      · exact absurd h List.not_mem_nil
      · exact ⟨rfl, List.mem_singleton.1 h⟩
  | _ =>
      rw [hl] at h
      simp only at h
      split at h <;> exact absurd h List.not_mem_nil

theorem measure_reports {steps : List Step} {report : Diagnostic}
    (h : report ∈ (measure steps).diagnostics) :
    ∃ s ∈ steps, s.layout = .backUp ∧ report = .outsideOfString s.symbol := by
  obtain ⟨s, hs, e, h⟩ := Reported.mem_diagnostics_run h
  refine ⟨s, hs, Step.move_reports e.pos ?_⟩
  unfold Step.extend at h
  cases hm : (s.move e.pos).outcome with
  | error err => rwa [Reported.bind_of_error hm] at h
  | ok next => simpa [Reported.diagnostics_bind hm] using h

theorem Directive.Writable.symbol_of_backUp {d : Directive} (hd : d.Writable)
    (hl : d.layout = .backUp) : d.symbol = 'X' := by
  have hmem : d.code ∈ codes := List.mem_of_find?_eq_some hd.code
  have hall : ∀ code ∈ codes, code.layout = .backUp → code.symbol = 'X' := by decide
  exact hall d.code hmem hl

/-! ## Writing -/

theorem Step.write_diagnostics (s : Step) (w : Writer) :
    (Step.write w s).diagnostics = (s.stroke w.pos w.unread).diagnostics := by
  unfold Step.write
  cases hk : (s.stroke w.pos w.unread).outcome with
  | error e => rw [Reported.bind_of_error hk]
  | ok k => simp [Reported.diagnostics_bind hk]

theorem Step.stroke_reports {s : Step} {pos : Nat} {args : List Scalar} {report : Diagnostic}
    (h : report ∈ (s.stroke pos args).diagnostics) :
    (∃ symbol, report = .notEnoughCharacters symbol) ∨
      ∃ symbol digit, report = .illegalHexDigit symbol digit := by
  unfold Step.stroke at h
  cases hl : s.layout with
  | hex order =>
      cases args with
      | nil => simp [hl] at h
      | cons a rest =>
          simp only [hl, hexDiagnostics, List.mem_append, List.mem_map] at h
          rcases h with h | ⟨c, -, rfl⟩
          · split at h
            · exact .inl ⟨_, List.mem_singleton.1 h⟩
            · exact absurd h List.not_mem_nil
          · exact .inr ⟨_, _, rfl⟩
  | text padding => cases args <;> simp [hl] at h
  | number format =>
      simp only [hl] at h
      split at h <;> exact absurd h List.not_mem_nil
  | nulByte => simp [hl] at h
  | backUp => simp [hl] at h
  | absolute => simp [hl] at h

theorem Plan.write_reports {plan : Plan} {room : Nat} {given : List Scalar} {report : Diagnostic}
    (h : report ∈ (plan.write room given).diagnostics) :
    (∃ symbol, report = .notEnoughCharacters symbol) ∨
      ∃ symbol digit, report = .illegalHexDigit symbol digit := by
  by_cases hroom : plan.size ≤ room
  · rw [Plan.write_eq hroom, Reported.map_eq] at h
    obtain ⟨s, _, w, hs⟩ := Reported.mem_diagnostics_run h
    rw [Step.write_diagnostics] at hs
    exact Step.stroke_reports hs
  · rw [Plan.write, if_pos (Nat.lt_of_not_le hroom)] at h
    exact absurd h List.not_mem_nil

/-! ## Short texts -/

/-- Whether the text for a hexadecimal step has as many digits as its count asks for. -/
def Step.Supplied (s : Step) (args : List Scalar) : Prop :=
  ∀ order a rest, s.layout = .hex order → args = a :: rest → s.count ≤ a.toBytes.length

theorem Step.supplied_of_reports {s : Step} (pos : Nat) {args : List Scalar}
    (h : .notEnoughCharacters s.symbol ∉ (s.stroke pos args).diagnostics) : s.Supplied args := by
  rintro order a rest hl rfl
  apply Nat.le_of_not_lt
  intro hshort
  apply h
  simp [Step.stroke, hl, hexDiagnostics, hshort]

theorem Step.Strikes.next_eq {s : Step} {pos : Nat} {args : List Scalar} {k : Stroke}
    (h : s.Strikes pos args k) (hs : s.Supplied args) : k.next = s.target pos := by
  unfold Step.target
  cases h with
  | text hl => simp [hl, Layout.span]
  | hex hl => simp [hl, Layout.span, Nat.min_eq_left (hs _ _ _ hl rfl)]
  | number hl => simp [hl, Layout.span]
  | nulByte hl => simp [hl, Layout.span]
  | backUp hl => simp [hl]
  | absolute hl => simp [hl]

theorem supplied_of_run {s : Step} {rest : List Step} {w v : Writer}
    (hv : (Step.write w s).outcome = .ok v)
    (hshort : ∀ symbol,
      .notEnoughCharacters symbol ∉ ((s :: rest).foldlM Step.write w).diagnostics) :
    s.Supplied w.unread ∧
      ∀ symbol, .notEnoughCharacters symbol ∉ (rest.foldlM Step.write v).diagnostics := by
  rw [Reported.diagnostics_run_cons hv] at hshort
  refine ⟨Step.supplied_of_reports w.pos fun hmem => ?_, fun symbol hmem => ?_⟩
  · exact hshort s.symbol (List.mem_append_left _ (by rwa [Step.write_diagnostics]))
  · exact hshort symbol (List.mem_append_right _ hmem)

/-- Without a short text the writer keeps to the cursor of sizing. -/
theorem writer_run_in_step {steps : List Step} {e e' : Extent} {w w' : Writer} (he : e.Sound)
    (hsize : (steps.foldlM Step.extend e).outcome = .ok e')
    (hwrite : (steps.foldlM Step.write w).outcome = .ok w') (hpos : w.pos = e.pos)
    (hshort : ∀ symbol, .notEnoughCharacters symbol ∉ (steps.foldlM Step.write w).diagnostics) :
    w'.pos = e'.pos := by
  induction steps generalizing e w with
  | nil =>
      rw [Reported.run_nil_eq_ok] at hsize hwrite
      rw [hsize, hwrite, hpos]
  | cons s rest ih =>
      have hs := extent_run_cons he hsize
      obtain ⟨k, hk, hstep, hrest⟩ := writer_run_cons hwrite
      obtain ⟨hsupplied, hshort⟩ := supplied_of_run hstep hshort
      have hnext : (w.after k).pos = (e.after s).pos := by
        rw [Extent.after_pos, ← hpos]
        exact hk.next_eq hsupplied
      exact ih hs.sound hs.run_rest hrest hnext hshort

/-! ## A pack call -/

variable {directives : List Directive} {room : Nat} {args : List Scalar} {bytes : List UInt8}
  {plan : Plan}

/-- A pack call is the two passes of one plan, one after the other. -/
theorem packDirectives_passes (hbuild : (Plan.build directives args).outcome = .ok plan)
    (hpack : (packDirectives room directives args).outcome = .ok bytes) :
    ∃ e w, (measure plan.steps).outcome = .ok e ∧ e.size = plan.size ∧
      (writeSteps plan.steps plan.size args).outcome = .ok w ∧ w.output = bytes ∧
      bytes.length = plan.size := by
  obtain ⟨plan', hbuild', hwrite⟩ := packDirectives_eq_ok.1 hpack
  cases hbuild.symm.trans hbuild'
  obtain ⟨e, hmeasure, hsize⟩ := Plan.measure_steps hbuild
  obtain ⟨_, w, hw, rfl⟩ := Plan.write_eq_ok.1 hwrite
  exact ⟨e, w, hmeasure, hsize, hw, rfl, Plan.length_write hbuild hwrite⟩

/-- What a pack call reports: first about repeats and arguments, then from sizing, then from
writing. -/
theorem packDirectives_reports (hbuild : (Plan.build directives args).outcome = .ok plan)
    (hpack : (packDirectives room directives args).outcome = .ok bytes) :
    ∃ ds, (∀ d ∈ ds, (∃ symbol, d = .greedyIgnored symbol) ∨ ∃ n, d = .unusedArguments n) ∧
      (packDirectives room directives args).diagnostics =
        ds ++ (measure plan.steps).diagnostics ++
          (writeSteps plan.steps plan.size args).diagnostics := by
  obtain ⟨rest, e, hresolve, hmeasure, _⟩ := Plan.build_eq_ok.1 hbuild
  obtain ⟨plan', hbuild', hwrite⟩ := packDirectives_eq_ok.1 hpack
  cases hbuild.symm.trans hbuild'
  obtain ⟨hroom, w, hw, _⟩ := Plan.write_eq_ok.1 hwrite
  refine ⟨(resolve directives args).diagnostics ++
    (if rest.isEmpty then [] else [.unusedArguments rest.length]), ?_, ?_⟩
  · intro d hd
    rcases List.mem_append.1 hd with hd | hd
    · exact .inl (resolve_reports hd)
    · split at hd
      · exact absurd hd List.not_mem_nil
      · exact .inr ⟨_, List.mem_singleton.1 hd⟩
  · rw [packDirectives, Reported.diagnostics_bind hbuild, Plan.build,
      Reported.diagnostics_bind hresolve, Plan.write, if_neg (Nat.not_lt.2 hroom)]
    simp only [Reported.report_bind, Reported.diagnostics_bind hmeasure,
      Reported.diagnostics_bind hw, Reported.pure_eq, List.append_nil, List.append_assoc]

/-- Whether a diagnostic tells of a step past the ends of the bytes. -/
def Diagnostic.isOutside : Diagnostic → Bool
  | .outsideOfString _ => true
  | _ => false

/-- Of all that a pack call reports, only sizing reports steps past the ends of the bytes, and nothing
else. -/
theorem filter_isOutside_reports (hbuild : (Plan.build directives args).outcome = .ok plan)
    (hpack : (packDirectives room directives args).outcome = .ok bytes) :
    (packDirectives room directives args).diagnostics.filter Diagnostic.isOutside =
      (measure plan.steps).diagnostics := by
  obtain ⟨ds, hds, hall⟩ := packDirectives_reports hbuild hpack
  have hfirst : ds.filter Diagnostic.isOutside = [] := by
    refine List.filter_eq_nil_iff.2 fun d hd => ?_
    rcases hds d hd with ⟨symbol, rfl⟩ | ⟨n, rfl⟩ <;> simp [Diagnostic.isOutside]
  have hsizing : (measure plan.steps).diagnostics.filter Diagnostic.isOutside =
      (measure plan.steps).diagnostics := by
    refine List.filter_eq_self.2 fun d hd => ?_
    obtain ⟨s, _, _, rfl⟩ := measure_reports hd
    rfl
  have hwriting : (writeSteps plan.steps plan.size args).diagnostics.filter
      Diagnostic.isOutside = [] := by
    refine List.filter_eq_nil_iff.2 fun d hd => ?_
    obtain ⟨s, _, w, hd⟩ := Reported.mem_diagnostics_run hd
    rw [Step.write_diagnostics] at hd
    rcases Step.stroke_reports hd with ⟨symbol, rfl⟩ | ⟨symbol, digit, rfl⟩ <;>
      simp [Diagnostic.isOutside]
  rw [hall, List.filter_append, List.filter_append, hfirst, hsizing, hwriting, List.nil_append,
    List.append_nil]

end BytePack
