import BytePack.Code
import BytePack.Error

/-!
# Directives

A directive is a format code with a repeat: `*`, a run of ASCII digits, or nothing, which means 1. A
format is a sequence of directives without anything between them. Positions count the bytes of the
format in UTF-8; codes and repeats are ASCII, so a directive has as many bytes as characters.
-/

namespace BytePack

/-- The repeat of a directive. -/
inductive Repeat where
  | count (n : Nat)
  /-- `*`: as much as there is. -/
  | greedy
  deriving DecidableEq, Repr

/-- The largest repeat that can be written. -/
def maxCount : Nat := UInt64.size - 1

/-- Whether a repeat is `*`. -/
def Repeat.isGreedy : Repeat → Bool
  | .greedy => true
  | .count _ => false

/-- The text of a repeat. -/
def Repeat.text : Repeat → String
  | .greedy => "*"
  | .count n => toString n

/-- A format code with its repeat and the position where it stands in the format. -/
structure Directive where
  code : Code
  repetition : Repeat
  position : Nat
  deriving DecidableEq, Repr

/-- The character of a directive. -/
def Directive.symbol (d : Directive) : Char := d.code.symbol

/-- The layout of a directive. -/
def Directive.layout (d : Directive) : Layout := d.code.layout

/-- Reads the repeat at the front of a text, and gives the text after it. The longest run of digits
is taken; there is no repeat if it stands for more than `maxCount`. -/
def Repeat.read : List Char → Option Repeat × List Char
  | '*' :: cs => (some .greedy, cs)
  | cs =>
    let run := cs.takeWhile Char.isDigit
    let count := if run.isEmpty then 1 else Nat.ofDigitChars 10 run 0
    (if count ≤ maxCount then some (.count count) else none, cs.dropWhile Char.isDigit)

theorem Repeat.length_read_le (cs : List Char) : (Repeat.read cs).2.length ≤ cs.length := by
  unfold Repeat.read
  split
  · simp
  · exact (List.dropWhile_sublist _).length_le

/-- Reads the directive that starts with the character `c` at a position, and gives the text after
it. -/
def Directive.read (position : Nat) (c : Char) (cs : List Char) :
    Except Error (Directive × List Char) :=
  match Code.ofChar? c with
  | none => .error (.format c position .unknownCode)
  | some code =>
    match Repeat.read cs with
    | (none, _) => .error (.format code.symbol position .repeatTooLarge)
    | (some repetition, rest) => .ok (⟨code, repetition, position⟩, rest)

theorem Directive.length_read_le {position : Nat} {c : Char} {cs : List Char} {d : Directive}
    {rest : List Char} (h : Directive.read position c cs = .ok (d, rest)) :
    rest.length ≤ cs.length := by
  have hle := Repeat.length_read_le cs
  unfold Directive.read at h
  split at h
  · simp at h
  · split at h
    · simp at h
    · rename_i heq
      simp only [Except.ok.injEq, Prod.mk.injEq] at h
      simpa [heq, h.2] using hle

/-- The directives of a text that starts at a position of the format. -/
def readDirectives (position : Nat) : List Char → Except Error (List Directive)
  | [] => .ok []
  | c :: cs =>
    match h : Directive.read position c cs with
    | .error e => .error e
    | .ok (d, rest) =>
      have : rest.length ≤ cs.length := Directive.length_read_le h
      match readDirectives (position + 1 + (cs.length - rest.length)) rest with
      | .error e => .error e
      | .ok ds => .ok (d :: ds)
termination_by cs => cs.length

/-- The directives of a format. -/
def parseFormat (format : String) : Except Error (List Directive) := readDirectives 0 format.toList

end BytePack
