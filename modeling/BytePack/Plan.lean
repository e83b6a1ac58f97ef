import BytePack.Plan.Extent
import BytePack.Plan.Writer

/-!
# Plans

Packing has two passes. `Plan.build` settles every repeat against the arguments and sizes the
output; `Plan.write` fills an output of that size. A plan can be written more than once, also with
other arguments than it was built from. How much memory there is for an output is a parameter.
-/

namespace BytePack

/-- A format made ready for its arguments. -/
structure Plan where
  steps : List Step
  /-- The length of the output. -/
  size : Nat
  /-- The code of the step that first reached `size`. -/
  furthest : Char
  /-- The number of arguments that the steps take. -/
  consumed : Nat
  deriving DecidableEq, Repr

namespace Plan

/-- Settles and sizes a format. Arguments that are left over are reported. -/
def build (format : List Directive) (args : List Scalar) : Reported Plan := do
  let (steps, rest) ← resolve format args
  .report (if rest.isEmpty then [] else [.unusedArguments rest.length])
  let extent ← measure steps
  pure ⟨steps, extent.size, extent.furthest, args.length - rest.length⟩

/-- Writes the output, if memory for `room` bytes has room for it. -/
def write (plan : Plan) (room : Nat) (args : List Scalar) : Reported (List UInt8) :=
  if room < plan.size then .fail (.overflow (.position plan.furthest))
  else do
    let writer ← writeSteps plan.steps plan.size args
    pure writer.output

end Plan

/-- The number of bytes that an output may have for want of a better bound. -/
def defaultRoom : Nat := 0x10000000000

/-- Sizes and writes arguments by a format. -/
def packDirectives (room : Nat) (format : List Directive) (args : List Scalar) :
    Reported (List UInt8) := do
  let plan ← Plan.build format args
  plan.write room args

end BytePack
