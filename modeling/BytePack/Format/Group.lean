import BytePack.Format.Directive
import BytePack.Text.Utf8

/-!
# Groups

For unpacking, a format is a sequence of groups with `/` between them. A group is a directive and a
name for what it reads: everything from the end of the repeat to the next `/`, cut to a limit of
bytes. A `/` at the very end is ignored, but an empty group elsewhere has no code and is an error.
-/

namespace BytePack

/-- A directive and the name of its fields. -/
structure Group where
  directive : Directive
  name : String
  deriving DecidableEq, Repr

/-- The number of bytes of a name that are kept unless a codec says otherwise. -/
def defaultNameLimit : Nat := 200

/-- A name cut to `limit` bytes. A character that is cut in two shows as U+FFFD. -/
def cutName (limit : Nat) (written : List Char) : String :=
  .ofList (Utf8.decodeLossy ((Utf8.encode written).take limit))

/-- The groups of a text that starts at a position of the format. -/
def readGroups (limit : Nat) (position : Nat) : List Char → Except Error (List Group)
  | [] => .ok []
  | c :: cs =>
    match h : Directive.read position c cs with
    | .error e => .error e
    | .ok (d, rest) =>
      let written := rest.takeWhile (· != '/')
      let next := position + 1 + (cs.length - rest.length) + Utf8.size written + 1
      have : rest.length ≤ cs.length := Directive.length_read_le h
      match readGroups limit next (rest.drop (written.length + 1)) with
      | .error e => .error e
      | .ok groups => .ok (⟨d, cutName limit written⟩ :: groups)
termination_by cs => cs.length
decreasing_by simp only [List.length_drop, List.length_cons]; omega

/-- The groups of a format, with names of at most `limit` bytes. -/
def parseGroups (format : String) (limit : Nat) : Except Error (List Group) :=
  readGroups limit 0 format.toList

end BytePack
