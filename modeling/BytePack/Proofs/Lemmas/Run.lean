import BytePack.Reported

/-!
# Runs of calls

A run is a fold of a step over a list, and stops at the first error. A run succeeds exactly when
every part of it does, and what it reported is what its parts reported, in order.
-/

namespace BytePack.Reported

variable {α β σ ι : Type}

/-! ## One call after another -/

theorem bind_of_ok {x : Reported α} {a : α} (h : x.outcome = .ok a) (f : α → Reported β) :
    x >>= f = ⟨x.diagnostics ++ (f a).diagnostics, (f a).outcome⟩ := by
  cases x with
  | mk ds outcome => cases h; rfl

theorem bind_of_error {x : Reported α} {e : Error} (h : x.outcome = .error e)
    (f : α → Reported β) : x >>= f = ⟨x.diagnostics, .error e⟩ := by
  cases x with
  | mk ds outcome => cases h; rfl

theorem bind_outcome_eq_ok {x : Reported α} {f : α → Reported β} {b : β} :
    (x >>= f).outcome = .ok b ↔ ∃ a, x.outcome = .ok a ∧ (f a).outcome = .ok b := by
  cases h : x.outcome with
  | ok a => simp [bind_of_ok h]
  | error e => simp [bind_of_error h]

theorem map_eq (f : α → β) (x : Reported α) :
    f <$> x = ⟨x.diagnostics, x.outcome.map f⟩ := by
  rw [← bind_pure_comp]
  rcases x with ⟨ds, _ | a⟩ <;> simp [Except.map]

/-- Only what follows a value matters. -/
theorem bind_congr_ok {x : Reported α} {f g : α → Reported β}
    (h : ∀ a, x.outcome = .ok a → f a = g a) : x >>= f = x >>= g := by
  cases hx : x.outcome with
  | ok a => rw [bind_of_ok hx, bind_of_ok hx, h a hx]
  | error e => rw [bind_of_error hx, bind_of_error hx]

theorem diagnostics_bind {x : Reported α} {a : α} (h : x.outcome = .ok a) (f : α → Reported β) :
    (x >>= f).diagnostics = x.diagnostics ++ (f a).diagnostics := by
  rw [bind_of_ok h]

@[simp] theorem done_outcome (a : α) : (done a).outcome = .ok a := rfl

@[simp] theorem done_diagnostics (a : α) : (done a).diagnostics = [] := rfl

@[simp] theorem fail_outcome (e : Error) : (fail e : Reported α).outcome = .error e := rfl

@[simp] theorem fail_diagnostics (e : Error) : (fail e : Reported α).diagnostics = [] := rfl

@[simp] theorem report_bind (ds : List Diagnostic) (f : Unit → Reported β) :
    (report ds >>= f) = ⟨ds ++ (f ()).diagnostics, (f ()).outcome⟩ := rfl

@[simp] theorem ofExcept_ok (a : α) : (ofExcept (.ok a) : Reported α) = ⟨[], .ok a⟩ := rfl

/-! ## Runs -/

theorem run_append_eq_ok {f : σ → ι → Reported σ} {before after : List ι} {s t : σ} :
    ((before ++ after).foldlM f s).outcome = .ok t ↔
      ∃ m, (before.foldlM f s).outcome = .ok m ∧ (after.foldlM f m).outcome = .ok t := by
  rw [List.foldlM_append, bind_outcome_eq_ok]

theorem run_cons_eq_ok {f : σ → ι → Reported σ} {i : ι} {rest : List ι} {s t : σ} :
    ((i :: rest).foldlM f s).outcome = .ok t ↔
      ∃ m, (f s i).outcome = .ok m ∧ (rest.foldlM f m).outcome = .ok t := by
  rw [List.foldlM_cons, bind_outcome_eq_ok]

theorem run_nil_eq_ok {f : σ → ι → Reported σ} {s t : σ} :
    (([] : List ι).foldlM f s).outcome = .ok t ↔ t = s := by
  simp [eq_comm]

/-- A run fails where the first of its steps fails. -/
theorem run_eq_error {f : σ → ι → Reported σ} {steps : List ι} {s : σ} {e : Error} :
    (steps.foldlM f s).outcome = .error e ↔
      ∃ before i after m, steps = before ++ i :: after ∧ (before.foldlM f s).outcome = .ok m ∧
        (f m i).outcome = .error e := by
  constructor
  · intro h
    induction steps generalizing s with
    | nil => cases h
    | cons i rest ih =>
        rw [List.foldlM_cons] at h
        cases hi : (f s i).outcome with
        | error e' =>
            rw [bind_of_error hi] at h
            exact ⟨[], i, rest, s, rfl, rfl, hi.trans h⟩
        | ok m =>
            rw [bind_of_ok hi] at h
            obtain ⟨before, j, after, m', rfl, hbefore, hj⟩ := ih h
            exact ⟨i :: before, j, after, m', rfl, run_cons_eq_ok.2 ⟨m, hi, hbefore⟩, hj⟩
  · rintro ⟨before, i, after, m, rfl, hbefore, hi⟩
    rw [List.foldlM_append, bind_of_ok hbefore, List.foldlM_cons, bind_of_error hi]

/-- What every step keeps, a run keeps. -/
theorem run_invariant {f : σ → ι → Reported σ} {I : σ → Prop} {steps : List ι} {s t : σ}
    (hstep : ∀ i ∈ steps, ∀ m m', I m → (f m i).outcome = .ok m' → I m') (hs : I s)
    (h : (steps.foldlM f s).outcome = .ok t) : I t := by
  induction steps generalizing s with
  | nil => rw [run_nil_eq_ok] at h; exact h ▸ hs
  | cons i rest ih =>
      obtain ⟨m, hm, hrest⟩ := run_cons_eq_ok.1 h
      exact ih (fun j hj => hstep j (List.mem_cons_of_mem _ hj))
        (hstep i List.mem_cons_self s m hs hm) hrest

end BytePack.Reported
