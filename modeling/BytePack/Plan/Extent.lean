import BytePack.Plan.Position
import BytePack.Plan.Step

/-!
# Sizing

Sizing moves a cursor over the steps without looking at any argument. The size of the output is the
furthest position that the cursor reaches, and the step that first reached it is remembered, because
it is the one to blame when the output does not fit into memory.
-/

namespace BytePack

/-- A cursor and the furthest it has been. -/
structure Extent where
  pos : Nat
  size : Nat
  /-- The code of the step that first reached `size`; NUL before the first. -/
  furthest : Char
  deriving DecidableEq, Repr

/-- Before the first step. -/
def Extent.start : Extent := ⟨0, 0, '\x00'⟩

/-- The cursor at a new position. -/
def Extent.moveTo (extent : Extent) (symbol : Char) (pos : Nat) : Extent :=
  if extent.size < pos then ⟨pos, pos, symbol⟩ else { extent with pos }

/-- The position after a step, which may not be past `maxPosition`. A step back stops at the start
and is reported. -/
def Step.move (s : Step) (pos : Nat) : Reported Nat :=
  let reach (next : Option Nat) : Reported Nat :=
    match next with
    | some next => .done next
    | none => .fail (.overflow (.position s.symbol))
  match s.layout with
  | .hex _ => reach (advance? pos (nibbleRoom s.count) 1)
  | .backUp =>
    if s.count ≤ pos then .done (pos - s.count) else ⟨[.outsideOfString s.symbol], .ok 0⟩
  | .absolute => reach (if s.count ≤ maxPosition then some s.count else none)
  | layout => reach (advance? pos s.count layout.width)

/-- The cursor after a step. -/
def Step.extend (extent : Extent) (s : Step) : Reported Extent := do
  let next ← s.move extent.pos
  pure (extent.moveTo s.symbol next)

/-- The cursor after some steps. -/
def measure (steps : List Step) : Reported Extent := steps.foldlM Step.extend .start

end BytePack
