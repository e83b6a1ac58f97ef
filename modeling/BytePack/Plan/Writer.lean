import BytePack.Plan.Field
import BytePack.Plan.Step
import BytePack.Reported

/-!
# Writing

A writer is an output, a cursor on it and the arguments not yet used. A step stores bytes at the
cursor, over whatever stands there, and moves the cursor: past the bytes it stored, except that
stepping back and jumping back store nothing, and that jumping ahead clears what it passes.
-/

namespace BytePack

/-- An output with a cursor, and the arguments to come. -/
structure Writer where
  output : List UInt8
  pos : Nat
  unread : List Scalar

/-- A sequence with some of its elements replaced, from a position on. -/
def overlay (output : List UInt8) (pos : Nat) (stored : List UInt8) : List UInt8 :=
  output.take pos ++ stored ++ output.drop (pos + stored.length)

/-- What a step does: the bytes it stores, where the cursor goes, and the arguments it leaves. -/
structure Stroke where
  stored : List UInt8
  next : Nat
  unread : List Scalar

/-- What is reported of a hexadecimal text of which `n` digits are wanted. -/
def hexDiagnostics (symbol : Char) (n : Nat) (text : List UInt8) : List Diagnostic :=
  (if text.length < n then [.notEnoughCharacters symbol] else []) ++
    (invalidDigits (text.take n)).map fun c => .illegalHexDigit symbol (Char.ofUInt8 c)

/-- What a step does at a position. -/
def Step.stroke (s : Step) (pos : Nat) (args : List Scalar) : Reported Stroke :=
  match s.layout with
  | .text padding =>
    match args with
    | [] => .fail (.argument (.tooFew s.symbol))
    | a :: rest => .done ⟨padding.field s.count a.toBytes, pos + s.count, rest⟩
  | .hex order =>
    match args with
    | [] => .fail (.argument (.tooFew s.symbol))
    | a :: rest =>
      let text := a.toBytes
      let stored := nibbleBytes order (text.take s.count)
      ⟨hexDiagnostics s.symbol s.count text, .ok ⟨stored, pos + stored.length, rest⟩⟩
  | .number number =>
    match number.encodeRun s.symbol s.count args with
    | .error e => .fail e
    | .ok (stored, rest) => .done ⟨stored, pos + stored.length, rest⟩
  | .nulByte => .done ⟨List.replicate s.count 0, pos + s.count, args⟩
  | .backUp => .done ⟨[], pos - s.count, args⟩
  | .absolute => .done ⟨List.replicate (s.count - pos) 0, s.count, args⟩

/-- The writer after a step. -/
def Step.write (w : Writer) (s : Step) : Reported Writer := do
  let stroke ← s.stroke w.pos w.unread
  pure ⟨overlay w.output w.pos stroke.stored, stroke.next, stroke.unread⟩

/-- The writer after some steps, on an output of `size` NUL bytes. -/
def writeSteps (steps : List Step) (size : Nat) (args : List Scalar) : Reported Writer :=
  steps.foldlM Step.write ⟨List.replicate size 0, 0, args⟩

end BytePack
