import BytePack.Code
import BytePack.Scalar
import BytePack.Word.Float
import BytePack.Word.Integer

/-!
# What one directive stores

The bytes of a text in its field, of a run of numbers, and of a hexadecimal text are functions of
the arguments alone: nothing here depends on where the bytes go or what was there before.
-/

namespace BytePack

/-- The byte that fills the rest of a field. -/
def Padding.fill : Padding → UInt8
  | .space => 0x20
  | _ => 0

/-- The number of bytes of a text that a field of `n` bytes keeps. -/
def Padding.capacity : Padding → Nat → Nat
  | .terminated, n => n - 1
  | _, n => n

/-- A text in a field of `n` bytes: cut to what the field keeps, then filled up. -/
def Padding.field (padding : Padding) (n : Nat) (text : List UInt8) : List UInt8 :=
  let kept := text.take (padding.capacity n)
  kept ++ List.replicate (n - kept.length) padding.fill

@[simp] theorem Padding.length_field (padding : Padding) (n : Nat) (text : List UInt8) :
    (padding.field n text).length = n := by
  have : padding.capacity n ≤ n := by cases padding <;> simp [Padding.capacity]
  simp only [Padding.field, List.length_append, List.length_take, List.length_replicate]
  omega

/-- The bytes of an argument as a number. -/
def Number.encode (number : Number) (argument : Scalar) : Except Error (List UInt8) :=
  match number with
  | .integer width order _ =>
    match argument.toInteger with
    | .ok v => .ok (integerWord v width order)
    | .error e => .error e
  | .single order =>
    match argument.toFloat with
    | .ok v => .ok (v.narrow.toBytes order)
    | .error e => .error e
  | .double order =>
    match argument.toFloat with
    | .ok v => .ok (v.toBytes order)
    | .error e => .error e

theorem Number.length_encode {number : Number} {argument : Scalar} {word : List UInt8}
    (h : number.encode argument = .ok word) : word.length = number.width := by
  cases number <;> simp only [Number.encode] at h <;> split at h <;> simp at h <;> subst h <;>
    simp [Number.width]

/-- The words of `n` arguments, one after the other, and the arguments after those. The first
argument that is missing or no number ends the run. -/
def Number.encodeRun (number : Number) (symbol : Char) :
    (n : Nat) → List Scalar → Except Error (List UInt8 × List Scalar)
  | 0, args => .ok ([], args)
  | _ + 1, [] => .error (.argument (.tooFew symbol))
  | n + 1, a :: args =>
    match number.encode a with
    | .error e => .error e
    | .ok word =>
      match number.encodeRun symbol n args with
      | .error e => .error e
      | .ok (words, rest) => .ok (word ++ words, rest)

end BytePack
