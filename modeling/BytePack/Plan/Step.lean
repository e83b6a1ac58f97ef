import BytePack.Format.Directive
import BytePack.Reported
import BytePack.Scalar

/-!
# Steps

A step is a directive whose repeat is settled by the arguments at hand. A directive that takes no
arguments reads `*` as 1, a text takes one argument and reads `*` as its length, and numbers take
one argument each and read `*` as all that are left. Too few arguments end the call at the first
directive that lacks one.
-/

namespace BytePack

/-- A directive with a settled count. -/
structure Step where
  directive : Directive
  count : Nat
  deriving DecidableEq, Repr

/-- The character of a step. -/
def Step.symbol (s : Step) : Char := s.directive.symbol

/-- The layout of a step. -/
def Step.layout (s : Step) : Layout := s.directive.layout

/-- The count that a directive settles on and the number of arguments that it takes. -/
structure Demand where
  count : Nat
  taken : Nat
  deriving DecidableEq, Repr

/-- The count of `*` for a text: its length, with room for the NUL that ends it. -/
def greedyLength (layout : Layout) (argument : Scalar) : Nat :=
  match layout with
  | .text .terminated => argument.toBytes.length + 1
  | _ => argument.toBytes.length

/-- What a directive demands of the arguments that are left. -/
def Directive.demand (d : Directive) (args : List Scalar) : Reported Demand :=
  match d.layout.argumentClass with
  | .none =>
    match d.repetition with
    | .greedy => ⟨[.greedyIgnored d.symbol], .ok ⟨1, 0⟩⟩
    | .count n => .done ⟨n, 0⟩
  | .string =>
    match args with
    | [] => .fail (.argument (.notEnough d.symbol))
    | a :: _ =>
      match d.repetition with
      | .greedy => .done ⟨greedyLength d.layout a, 1⟩
      | .count n => .done ⟨n, 1⟩
  | .repetition =>
    let count := match d.repetition with
      | .greedy => args.length
      | .count n => n
    if args.length < count then .fail (.argument (.tooFew d.symbol))
    else .done ⟨count, count⟩

/-- The steps of some directives and the arguments that they leave over. -/
def resolve : List Directive → List Scalar → Reported (List Step × List Scalar)
  | [], args => pure ([], args)
  | d :: ds, args => do
    let demand ← d.demand args
    let (steps, rest) ← resolve ds (args.drop demand.taken)
    pure (⟨d, demand.count⟩ :: steps, rest)

end BytePack
