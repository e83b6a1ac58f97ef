import BytePack.Proofs.Lemmas.Run
import Mathlib.Data.List.Forall2

/-!
# Calls side by side

Two outcomes match if both are values that are related or both are errors of one kind. Calls that go
on from matching outcomes in a matching way match again, and so do runs whose steps match one by one.
-/

namespace BytePack

variable {α β γ δ σ τ ι κ : Type}

/-- Whether two outcomes are related values or errors of one kind. -/
inductive Matches (R : α → β → Prop) : Except Error α → Except Error β → Prop where
  | ok {a : α} {b : β} (h : R a b) : Matches R (.ok a) (.ok b)
  | error {e e' : Error} (h : e'.kind = e.kind) : Matches R (.error e) (.error e')

namespace Matches

theorem mono {R S : α → β → Prop} (hRS : ∀ a b, R a b → S a b) {x : Except Error α}
    {y : Except Error β} (h : Matches R x y) : Matches S x y := by
  cases h with
  | ok h => exact .ok (hRS _ _ h)
  | error h => exact .error h

theorem exists_ok_iff {R : α → β → Prop} {x : Except Error α} {y : Except Error β}
    (h : Matches R x y) : (∃ a, x = .ok a) ↔ ∃ b, y = .ok b := by
  cases h <;> simp

/-- Outcomes with equal values are equal but for the words of an error. -/
theorem mapError_eq {x y : Except Error α} (h : Matches (fun a b => b = a) x y) :
    y.mapError Error.kind = x.mapError Error.kind := by
  cases h with
  | ok h => rw [h]
  | error h => exact congrArg Except.error h

theorem map {R : α → β → Prop} {S : γ → δ → Prop} {f : α → γ} {g : β → δ}
    (hf : ∀ a b, R a b → S (f a) (g b)) {x : Except Error α} {y : Except Error β}
    (h : Matches R x y) : Matches S (x.map f) (y.map g) := by
  cases h with
  | ok h => exact .ok (hf _ _ h)
  | error h => exact .error h

theorem andThen {R : α → β → Prop} {S : γ → δ → Prop} {x : Except Error α} {y : Except Error β}
    {f : α → Except Error γ} {g : β → Except Error δ} (h : Matches R x y)
    (hf : ∀ a b, R a b → Matches S (f a) (g b)) : Matches S (x.bind f) (y.bind g) := by
  cases h with
  | ok h => exact hf _ _ h
  | error h => exact .error h

theorem bind {R : α → β → Prop} {S : γ → δ → Prop} {x : Reported α} {y : Reported β}
    {f : α → Reported γ} {g : β → Reported δ} (h : Matches R x.outcome y.outcome)
    (hf : ∀ a b, R a b → Matches S (f a).outcome (g b).outcome) :
    Matches S (x >>= f).outcome (y >>= g).outcome := by
  cases x with
  | mk ds outcome =>
    cases y with
    | mk es outcome' =>
      cases h with
      | ok h => exact hf _ _ h
      | error h => exact .error h

/-- Runs match where their steps do. -/
theorem run {R : σ → τ → Prop} {P : ι → κ → Prop} {f : σ → ι → Reported σ}
    {g : τ → κ → Reported τ}
    (hstep : ∀ i j, P i j → ∀ m n, R m n → Matches R (f m i).outcome (g n j).outcome)
    {steps : List ι} {others : List κ} (h : List.Forall₂ P steps others) {m : σ} {n : τ}
    (hm : R m n) : Matches R (steps.foldlM f m).outcome (others.foldlM g n).outcome := by
  induction h generalizing m n with
  | nil => exact .ok hm
  | cons hij _ ih =>
      rw [List.foldlM_cons, List.foldlM_cons]
      exact bind (hstep _ _ hij m n hm) fun _ _ hnext => ih hnext

end Matches

end BytePack
