import BytePack.Diagnostic
import BytePack.Error

/-!
# Outcomes with diagnostics

A call gives a value or an error, and in both cases the diagnostics it reported until then, in
order. `Reported` is the monad of such calls: what follows an error does not run and reports
nothing.
-/

namespace BytePack

/-- An outcome and what was reported on the way to it. -/
structure Reported (α : Type) where
  diagnostics : List Diagnostic
  outcome : Except Error α

namespace Reported

variable {α β γ : Type}

/-- A value, with nothing reported. -/
def done (a : α) : Reported α := ⟨[], .ok a⟩

/-- An error, with nothing reported. -/
def fail (e : Error) : Reported α := ⟨[], .error e⟩

/-- Reports diagnostics. -/
def report (ds : List Diagnostic) : Reported Unit := ⟨ds, .ok ()⟩

/-- An outcome that reports nothing. -/
def ofExcept (outcome : Except Error α) : Reported α := ⟨[], outcome⟩

/-- Goes on with the value of a call. -/
def andThen (x : Reported α) (f : α → Reported β) : Reported β :=
  match x.outcome with
  | .ok a => ⟨x.diagnostics ++ (f a).diagnostics, (f a).outcome⟩
  | .error e => ⟨x.diagnostics, .error e⟩

instance : Monad Reported where
  pure := done
  bind := andThen

@[ext] theorem ext {x y : Reported α} (hd : x.diagnostics = y.diagnostics)
    (ho : x.outcome = y.outcome) : x = y := by
  cases x; cases y; simp_all

@[simp] theorem pure_eq (a : α) : (pure a : Reported α) = ⟨[], .ok a⟩ := rfl

@[simp] theorem bind_ok (ds : List Diagnostic) (a : α) (f : α → Reported β) :
    (⟨ds, .ok a⟩ : Reported α) >>= f = ⟨ds ++ (f a).diagnostics, (f a).outcome⟩ := rfl

@[simp] theorem bind_error (ds : List Diagnostic) (e : Error) (f : α → Reported β) :
    (⟨ds, .error e⟩ : Reported α) >>= f = ⟨ds, .error e⟩ := rfl

theorem id_map_eq (x : Reported α) : id <$> x = x := by
  rcases x with ⟨ds, _ | a⟩ <;> simp [Functor.map, andThen, done]

theorem bind_assoc_eq (x : Reported α) (f : α → Reported β) (g : β → Reported γ) :
    x >>= f >>= g = x >>= fun a => f a >>= g := by
  rcases x with ⟨ds, _ | a⟩
  · simp
  · rcases h : f a with ⟨es, _ | b⟩ <;> simp [h]

instance : LawfulMonad Reported :=
  LawfulMonad.mk' Reported id_map_eq (fun _ _ => by simp) bind_assoc_eq

end Reported

end BytePack
