import BytePack.Format.Group
import BytePack.Record
import BytePack.Reported
import BytePack.Word.Float
import BytePack.Word.Integer

/-!
# Reading

A reader is an input with a cursor on it. Each group reads fields at the cursor and moves it past
them, or moves it without reading. Bytes that a group needs and the input lacks are an error, except
that a greedy run of numbers just ends there. The fields of all groups, in order, make up a record.
-/

namespace BytePack

/-- An input with a cursor. -/
structure Reader where
  input : List UInt8
  pos : Nat
  deriving DecidableEq, Repr

/-- The bytes from the cursor on. -/
def Reader.rest (r : Reader) : List UInt8 := r.input.drop r.pos

/-- The number of bytes from the cursor on. -/
def Reader.remaining (r : Reader) : Nat := r.input.length - r.pos

/-- Whether a byte is dropped at the end of a space-padded text: NUL, space, tab or a line end. -/
def isPadding (b : UInt8) : Bool :=
  b == 0 || b == 0x20 || b == 0x09 || b == 0x0D || b == 0x0A

/-- The text in a field. -/
def Padding.strip : Padding → List UInt8 → List UInt8
  | .nul, field => field
  | .space, field => (field.reverse.dropWhile isPadding).reverse
  | .terminated, field => field.takeWhile (· != 0)

/-- The value of the bytes of a number. -/
def Number.decode (number : Number) (bytes : List UInt8) : Value :=
  match number with
  | .integer width order signed => .int (readInteger bytes width order signed)
  | .single order => .float (Single.ofBytes bytes order).widen
  | .double order => .float (Double.ofBytes bytes order)

/-- What follows a whole word is shorter. -/
theorem Number.length_drop_lt (number : Number) {bytes : List UInt8}
    (h : (bytes.take number.width).length = number.width) :
    (bytes.drop number.width).length < bytes.length := by
  have := number.width_pos
  rw [List.length_take] at h
  rw [List.length_drop]
  omega

/-- The words at the front of some bytes: as many as a count asks for, or as many as there are. -/
def Number.words (number : Number) (symbol : Char) (repetition : Repeat) (bytes : List UInt8) :
    Except Error (List (List UInt8)) :=
  match repetition with
  | .count 0 => .ok []
  | .count (n + 1) =>
    let word := bytes.take number.width
    if _h : word.length = number.width then
      match number.words symbol (.count n) (bytes.drop number.width) with
      | .error e => .error e
      | .ok words => .ok (word :: words)
    else .error (.argument (.shortInput symbol number.width bytes.length))
  | .greedy =>
    let word := bytes.take number.width
    if _h : word.length = number.width then
      match number.words symbol .greedy (bytes.drop number.width) with
      | .error e => .error e
      | .ok words => .ok (word :: words)
    else .ok []
termination_by bytes.length
decreasing_by all_goals exact number.length_drop_lt _h

/-- The key of a field: the name alone for a single named one, else the name and a number. -/
def fieldKey (name : String) (index : Nat) (single : Bool) : String :=
  if single && name != "" then name else name ++ toString index

/-- The fields of some values, counted from 1. -/
def numbered (name : String) (single : Bool) (values : List Value) : List (String × Value) :=
  values.zipIdx.map fun (value, i) => (fieldKey name (i + 1) single, value)

/-- The fields that a group reads, and the position after it. -/
structure Reading where
  fields : List (String × Value)
  next : Nat

/-- The count of a directive that moves the cursor; `*` is reported and counts as 1. -/
def Directive.seekCount (d : Directive) : Reported Nat :=
  match d.repetition with
  | .greedy => ⟨[.greedyIgnored d.symbol], .ok 1⟩
  | .count n => .done n

/-- The bytes of a field of `size` bytes at the cursor. -/
def Reader.field (r : Reader) (symbol : Char) (size : Nat) : Reported (List UInt8) :=
  if r.remaining < size then .fail (.argument (.shortInput symbol size r.remaining))
  else .done (r.rest.take size)

/-- What a group reads at the cursor. -/
def Group.read (g : Group) (r : Reader) : Reported Reading :=
  let d := g.directive
  match d.layout with
  | .text padding => do
    let size := match d.repetition with
      | .greedy => r.remaining
      | .count n => n
    let bytes ← r.field d.symbol size
    pure ⟨numbered g.name true [.bytes (padding.strip bytes)], r.pos + size⟩
  | .hex order => do
    let size := match d.repetition with
      | .greedy => r.remaining
      | .count n => nibbleRoom n
    let bytes ← r.field d.symbol size
    let nibbles := match d.repetition with
      | .greedy => size * 2
      | .count n => n
    pure ⟨numbered g.name true [.bytes (renderNibbles bytes nibbles order)], r.pos + size⟩
  | .number number =>
    match number.words d.symbol d.repetition r.rest with
    | .error e => .fail e
    | .ok words =>
      .done ⟨numbered g.name (d.repetition == .count 1) (words.map number.decode),
        r.pos + words.length * number.width⟩
  | .nulByte => do
    let n ← d.seekCount
    let _ ← r.field d.symbol n
    pure ⟨[], r.pos + n⟩
  | .backUp => do
    let n ← d.seekCount
    if n ≤ r.pos then pure ⟨[], r.pos - n⟩
    else ⟨[.outsideOfString d.symbol], .ok ⟨[], 0⟩⟩
  | .absolute => do
    let n ← d.seekCount
    if n ≤ r.input.length then pure ⟨[], n⟩
    else ⟨[.outsideOfString d.symbol], .ok ⟨[], r.pos⟩⟩

/-- The fields that some groups read one after the other. -/
def readFields (r : Reader) : List Group → Reported (List (String × Value))
  | [] => pure []
  | g :: groups => do
    let reading ← g.read r
    let fields ← readFields { r with pos := reading.next } groups
    pure (reading.fields ++ fields)

/-- The record that some groups read from an input, starting at an offset. Positions count from
there. -/
def unpackGroups (groups : List Group) (input : List UInt8) (offset : Nat) : Reported Record :=
  if input.length < offset then .fail (.range offset input.length)
  else do
    let fields ← readFields ⟨input.drop offset, 0⟩ groups
    pure (Record.ofList fields)

end BytePack
