import BytePack.Config.Yaml.Cursor

/-!
# The text of YAML scalars

A scalar stands in the open, between quotes or in a block below its header. Over the ends of lines
its text is folded: one line end counts as a space, and of more than one the first is left out.
Every reader gives the text together with the place after it.
-/

namespace BytePack.Config.Yaml

/-! ## Folding -/

/-- What stands between two words of a scalar. -/
inductive Gap where
  /-- Blanks on one line. -/
  | blanks (text : List Char)
  /-- Line breaks, of which the first counts apart. Blanks beside them do not count. -/
  | breaks (first more : List Char)

/-- What a gap counts for. -/
def Gap.folded : Gap → List Char
  | .blanks text => text
  | .breaks first more =>
    if first = ['\n'] then (if more.isEmpty then [' '] else more) else first ++ more

/-- Whether a gap goes over the end of a line. -/
def Gap.isBroken : Gap → Bool
  | .blanks _ => false
  | .breaks .. => true

/-- Reads on in a gap. On a new line no tab may stand before the column `indent`. `fuel` bounds the
number of characters. -/
def Cursor.readGap (indent : Nat) : (fuel : Nat) → Gap → Cursor → Option (Gap × Cursor)
  | 0, gap, cursor => some (gap, cursor)
  | fuel + 1, gap, cursor =>
    match cursor.readBreak?, gap with
    | some (text, cursor), .blanks _ => cursor.readGap indent fuel (.breaks text [])
    | some (text, cursor), .breaks first more =>
      cursor.readGap indent fuel (.breaks first (more ++ text))
    | none, _ =>
      match cursor.rest, gap with
      | c :: _, .blanks text =>
        if isBlank c then (cursor.skip 1).readGap indent fuel (.blanks (text ++ [c]))
        else some (gap, cursor)
      | c :: _, .breaks .. =>
        if !isBlank c then some (gap, cursor)
        else if c = '\t' ∧ cursor.column < indent then none
        else (cursor.skip 1).readGap indent fuel gap
      | [], _ => some (gap, cursor)

/-! ## Scalars in the open -/

/-- The number of characters that come first and belong to a word in the open. In a collection in
brackets or braces a colon must not stand right before one of its marks. -/
def wordLength? (inFlow : Bool) : List Char → Option Nat
  | [] => some 0
  | c :: cs =>
    if isSpace c then some 0
    else if inFlow && c == ':' && cs.head?.any fun d => d == '?' || isFlowMark d then none
    else if (c == ':' && endsWord cs) || (inFlow && isFlowMark c) then some 0
    else (wordLength? inFlow cs).map (· + 1)

/-- What is left of a scalar in the open after a gap, and whether it ends on a new line. Outside
brackets and braces it goes on only from the column `indent` on. `fuel` exceeds the number of
characters. -/
def Cursor.readPlain (inFlow : Bool) (indent : Nat) :
    (fuel : Nat) → Gap → Cursor → Option (List Char × Bool × Cursor)
  | 0, _, _ => none
  | fuel + 1, gap, cursor =>
    if cursor.isAtDocumentMark || cursor.rest.head? == some '#' then
      some ([], gap.isBroken, cursor)
    else do
      let length ← wordLength? inFlow cursor.rest
      if length = 0 then some ([], gap.isBroken, cursor)
      else
        let text := gap.folded ++ cursor.rest.take length
        let cursor := cursor.skip length
        let (gap, cursor) ← cursor.readGap indent fuel (.blanks [])
        if !inFlow && cursor.column < indent then some (text, gap.isBroken, cursor)
        else
          let (more, isBroken, cursor) ← cursor.readPlain inFlow indent fuel gap
          some (text ++ more, isBroken, cursor)

/-! ## Scalars between quotes -/

/-- The character of an escape, after its backslash, and the number of characters that name it. -/
def escape? : List Char → Option (Char × Nat)
  | '0' :: _ => some ('\x00', 1)
  | 'a' :: _ => some ('\x07', 1)
  | 'b' :: _ => some ('\x08', 1)
  | 't' :: _ => some ('\t', 1)
  | '\t' :: _ => some ('\t', 1)
  | 'n' :: _ => some ('\n', 1)
  | 'v' :: _ => some ('\x0b', 1)
  | 'f' :: _ => some ('\x0c', 1)
  | 'r' :: _ => some ('\r', 1)
  | 'e' :: _ => some ('\x1b', 1)
  | ' ' :: _ => some (' ', 1)
  | '"' :: _ => some ('"', 1)
  | '/' :: _ => some ('/', 1)
  | '\\' :: _ => some ('\\', 1)
  | 'N' :: _ => some ('\x85', 1)
  | '_' :: _ => some ('\xa0', 1)
  | 'L' :: _ => some ('\u2028', 1)
  | 'P' :: _ => some ('\u2029', 1)
  | 'x' :: cs => (numberedChar? 2 cs).map (·, 3)
  | 'u' :: cs => (numberedChar? 4 cs).map (·, 5)
  | 'U' :: cs => (numberedChar? 8 cs).map (·, 9)
  | _ => none

/-- A scalar between quotes, after the opening one. In single quotes such a quote is written twice;
in double quotes a backslash escapes, and before the end of a line it takes the line end away.
`fuel` exceeds the number of characters. -/
def Cursor.readQuoted (quote : Char) : (fuel : Nat) → Cursor → Option (List Char × Cursor)
  | 0, _ => none
  | fuel + 1, cursor =>
    let goOn (text : List Char) (cursor : Cursor) : Option (List Char × Cursor) :=
      (cursor.readQuoted quote fuel).map fun (more, cursor) => (text ++ more, cursor)
    if cursor.isAtDocumentMark then none
    else
      match cursor.rest with
      | [] => none
      | c :: cs =>
        if c = quote then
          if quote = '\'' ∧ cs.head? = some '\'' then goOn ['\''] (cursor.skip 2)
          else some ([], cursor.skip 1)
        else if c = '\\' ∧ quote = '"' then
          match (cursor.skip 1).readBreak? with
          | some (_, cursor) => do
            let (gap, cursor) ← cursor.readGap 0 fuel (.breaks [] [])
            goOn gap.folded cursor
          | none => do
            let (escaped, length) ← escape? cs
            goOn [escaped] (cursor.skip (length + 1))
        else if isSpace c then do
          let (gap, cursor) ← cursor.readGap 0 fuel (.blanks [])
          goOn gap.folded cursor
        else goOn [c] (cursor.skip 1)

/-! ## Scalars in a block -/

/-- What becomes of the line ends after the last line of a block. -/
inductive Chomping where
  /-- All of them are left out. -/
  | strip
  /-- The first one counts. -/
  | clip
  /-- All of them count. -/
  | keep
  deriving DecidableEq, Repr

/-- The sign that asks for a chomping. -/
def Chomping.ofSign? : Char → Option Chomping
  | '-' => some .strip
  | '+' => some .keep
  | _ => none

/-- The header of a block after its mark: the chomping and the number of columns by which the block
is indented, if it says so. Both may stand in either order. -/
def Cursor.readBlockHeader (cursor : Cursor) : Option (Chomping × Option Nat × Cursor) :=
  let columns? (c : Char) : Option Nat := if c = '0' then none else digit? 10 c
  match cursor.rest with
  | [] => some (.clip, none, cursor)
  | c :: rest =>
    match Chomping.ofSign? c with
    | some chomping =>
      if !(rest.headD ' ').isDigit then some (chomping, none, cursor.skip 1)
      else (columns? (rest.headD ' ')).map fun n => (chomping, some n, cursor.skip 2)
    | none =>
      if !c.isDigit then some (.clip, none, cursor)
      else
        (columns? c).map fun n =>
          match Chomping.ofSign? (rest.headD ' ') with
          | some chomping => (chomping, some n, cursor.skip 2)
          | none => (.clip, some n, cursor.skip 1)

/-- The line breaks of the empty lines that come first, the column of the deepest indentation among
them, and the place of the next character that counts: the one in the column `indent`, if this is
known, and otherwise the first that is no space. No tab may stand before it. `fuel` bounds the
number of lines. -/
def Cursor.readEmptyLines (indent : Option Nat) :
    (fuel : Nat) → Cursor → Option (List Char × Nat × Cursor)
  | 0, _ => none
  | fuel + 1, cursor =>
    let spaces := (cursor.rest.takeWhile (· == ' ')).length
    let cursor :=
      cursor.skip (match indent with | none => spaces | some n => min spaces (n - cursor.column))
    if cursor.rest.head? = some '\t' ∧ indent.all (cursor.column < ·) then none
    else
      match cursor.readBreak? with
      | none => some ([], cursor.column, cursor)
      | some (text, next) => do
        let (more, deepest, next) ← next.readEmptyLines indent fuel
        some (text ++ more, max cursor.column deepest, next)

/-- The lines of a block from the one that comes first on, which is indented to the column `indent`.
Before it stand the line break `before`, if it is not the first line, and the `breaks` of empty
lines; `wasBlank` says whether the line before starts with a blank. Of the line ends in a folded
block only those between two lines that start with no blank are folded. `fuel` exceeds the number of
characters. -/
def Cursor.readBlockLines (folded : Bool) (chomping : Chomping) (indent : Nat) :
    (fuel : Nat) → (before breaks : List Char) → (wasBlank : Bool) → Cursor →
    Option (List Char × Cursor)
  | 0, _, _, _, _ => none
  | fuel + 1, before, breaks, wasBlank, cursor =>
    if cursor.column ≠ indent ∨ cursor.rest.isEmpty then
      let first := if chomping = .strip then [] else before
      let more := if chomping = .keep then breaks else []
      some (first ++ more, cursor)
    else do
      let isBlankLine := cursor.rest.head?.any isBlank
      let first :=
        if folded && before == ['\n'] && !wasBlank && !isBlankLine then
          if breaks.isEmpty then [' '] else []
        else before
      let (line, cursor) := cursor.takeWhile fun c => !isBreak c
      let (before, cursor) := cursor.readBreak?.getD ([], cursor)
      let (newBreaks, _, cursor) ← cursor.readEmptyLines (some indent) fuel
      let (more, cursor) ←
        cursor.readBlockLines folded chomping indent fuel before newBreaks isBlankLine
      some (first ++ breaks ++ line ++ more, cursor)

/-- A scalar in a block after its mark, inside a collection that is indented to the column `outer`.
The first line that is not empty says how deep the block is indented, if the header does not. -/
def Cursor.readBlock (folded : Bool) (outer : Option Nat) (cursor : Cursor) :
    Option (List Char × Cursor) := do
  let (chomping, deeper, cursor) ← cursor.readBlockHeader
  let cursor ← cursor.nextLine?
  let known := deeper.map (outer.getD 0 + ·)
  let fuel := cursor.rest.length + 1
  let (breaks, deepest, cursor) ← cursor.readEmptyLines known fuel
  let least := max 1 ((outer.map (· + 1)).getD 0)
  cursor.readBlockLines folded chomping (known.getD (max deepest least)) fuel [] breaks false

end BytePack.Config.Yaml
