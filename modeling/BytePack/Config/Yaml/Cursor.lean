import BytePack.Config.Character

/-!
# Places in a YAML text

In YAML a character counts by the column it stands in, so a text is read by a cursor that knows its
place. Besides carriage returns and line feeds three other characters end a line.
-/

namespace BytePack.Config.Yaml

/-! ## Kinds of characters -/

/-- Whether a character may stand in a text at all. -/
def isAllowed (c : Char) : Bool :=
  let n := c.toNat
  n == 0x09 || n == 0x0A || n == 0x0D || (0x20 ≤ n && n ≤ 0x7E) || n == 0x85 ||
    (0xA0 ≤ n && n ≤ 0xFFFD) || 0x10000 ≤ n

/-- Whether a character separates lines or paragraphs. As a line break it stays what it is. -/
def isSeparator (c : Char) : Bool := c == '\u2028' || c == '\u2029'

/-- Whether a character ends a line. -/
def isBreak (c : Char) : Bool := c == '\n' || c == '\r' || c == '\x85' || isSeparator c

/-- Whether a character is a blank or ends a line. -/
def isSpace (c : Char) : Bool := isBlank c || isBreak c

/-- Whether a blank or the end of the line or the text comes first. -/
def endsWord : List Char → Bool
  | [] => true
  | c :: _ => isSpace c

/-- Whether a character may stand in the name of an anchor, a handle or a directive. -/
def isNameCharacter (c : Char) : Bool :=
  c.isDigit || ('a' ≤ c && c ≤ 'z') || ('A' ≤ c && c ≤ 'Z') || c == '-' || c == '_'

/-- Whether a character marks the parts of a collection in brackets or braces. -/
def isFlowMark (c : Char) : Bool := [',', '[', ']', '\x7b', '\x7d'].contains c

/-! ## Cursors -/

/-- A place in a text. -/
structure Cursor where
  /-- What follows the place. -/
  rest : List Char
  /-- The number of characters before it. -/
  index : Nat
  /-- The number of lines before it. -/
  line : Nat
  /-- The number of characters before it on its line. -/
  column : Nat

namespace Cursor

/-- The place before a text. -/
def start (cs : List Char) : Cursor := ⟨cs, 0, 0, 0⟩

/-- Goes over some characters of the line. -/
def skip (n : Nat) (cursor : Cursor) : Cursor :=
  ⟨cursor.rest.drop n, cursor.index + n, cursor.line, cursor.column + n⟩

/-- The characters of a kind that come first, and the place after them. None of them ends the line.
-/
def takeWhile (p : Char → Bool) (cursor : Cursor) : List Char × Cursor :=
  let run := cursor.rest.takeWhile p
  (run, cursor.skip run.length)

/-- Goes over the characters of a kind that come first. None of them ends the line. -/
def skipWhile (p : Char → Bool) (cursor : Cursor) : Cursor := (cursor.takeWhile p).2

/-- The line break that comes first, as it counts in a scalar, and the start of the next line. -/
def readBreak? (cursor : Cursor) : Option (List Char × Cursor) :=
  match cursor.rest with
  | '\r' :: '\n' :: rest => some (['\n'], ⟨rest, cursor.index + 2, cursor.line + 1, 0⟩)
  | c :: rest =>
    if isBreak c then
      some (if isSeparator c then [c] else ['\n'], ⟨rest, cursor.index + 1, cursor.line + 1, 0⟩)
    else none
  | [] => none

/-- Goes over the comment that comes first, up to the end of its line. -/
def skipComment (cursor : Cursor) : Cursor :=
  if cursor.rest.head? = some '#' then cursor.skipWhile fun c => !isBreak c else cursor

/-- Goes to the next line, if there is nothing but blanks and a comment before it. -/
def nextLine? (cursor : Cursor) : Option Cursor :=
  let cursor := (cursor.skipWhile isBlank).skipComment
  if cursor.rest.isEmpty then some cursor else cursor.readBreak?.map Prod.snd

/-- Whether three characters of a kind come first on a line, and nothing right after them: the mark
between documents. -/
def isAtMark (c : Char) (cursor : Cursor) : Bool :=
  cursor.column == 0 && cursor.rest.take 3 == [c, c, c] && endsWord (cursor.rest.drop 3)

/-- Whether the mark of the start or the end of a document comes first. -/
def isAtDocumentMark (cursor : Cursor) : Bool := cursor.isAtMark '-' || cursor.isAtMark '.'

end Cursor

end BytePack.Config.Yaml
