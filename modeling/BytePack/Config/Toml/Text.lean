import BytePack.Config.Character

/-!
# Text in TOML

Blanks, line ends, comments and the four kinds of strings: basic ones with escapes and literal ones
without, each on one line or on many. Every reader gives what it has read together with the text
that follows it.
-/

namespace BytePack.Config.Toml

/-! ## Between the values -/

/-- A text without blanks at its front. -/
def dropBlanks (cs : List Char) : List Char := cs.dropWhile isBlank

/-- Whether a character may stand in a comment: any but the controls, of which only the tab may. -/
def isPlainCharacter (c : Char) : Bool := c == '\t' || (0x20 ≤ c.toNat && c.toNat != 0x7F)

/-- The text after a line end. A carriage return alone ends no line. -/
def afterNewline? : List Char → Option (List Char)
  | '\n' :: rest => some rest
  | '\r' :: '\n' :: rest => some rest
  | _ => none

/-- A text without the comment at its front. -/
def dropComment : List Char → List Char
  | '#' :: rest => rest.dropWhile isPlainCharacter
  | cs => cs

/-- The next line, if there is nothing but blanks and a comment before it. -/
def nextLine? (cs : List Char) : Option (List Char) :=
  match dropComment (dropBlanks cs) with
  | [] => some []
  | rest => afterNewline? rest

/-! ## Strings on one line -/

/-- The character of an escape, after its backslash, and the number of characters that name it. -/
def escape? : List Char → Option (Char × Nat)
  | 'b' :: _ => some ('\x08', 1)
  | 't' :: _ => some ('\t', 1)
  | 'n' :: _ => some ('\n', 1)
  | 'f' :: _ => some ('\x0c', 1)
  | 'r' :: _ => some ('\r', 1)
  | '"' :: _ => some ('"', 1)
  | '\\' :: _ => some ('\\', 1)
  | 'u' :: cs => (numberedChar? 4 cs).map (·, 5)
  | 'U' :: cs => (numberedChar? 8 cs).map (·, 9)
  | _ => none

/-- A string in double quotes, after the opening one. -/
def basicString : List Char → Option (List Char × List Char)
  | [] => none
  | '"' :: rest => some ([], rest)
  | '\\' :: rest => do
    let (c, length) ← escape? rest
    let (cs, rest) ← basicString (rest.drop length)
    some (c :: cs, rest)
  | c :: rest =>
    if !isPlainCharacter c then none
    else do
      let (cs, rest) ← basicString rest
      some (c :: cs, rest)
termination_by cs => cs.length
decreasing_by all_goals simp only [List.length_drop, List.length_cons]; omega

/-- A string in single quotes, after the opening one. -/
def literalString : List Char → Option (List Char × List Char)
  | [] => none
  | c :: rest =>
    if c = '\'' then some ([], rest)
    else if !isPlainCharacter c then none
    else do
      let (cs, rest) ← literalString rest
      some (c :: cs, rest)

/-! ## Strings on many lines

Three quotes end such a string. Up to two more right before them belong to it. -/

/-- The end of a string, after the three quotes that close it at the earliest: the quotes that
belong to it, and what follows it. -/
def closing (quote : Char) (cs : List Char) : List Char × List Char :=
  let quotes := (cs.take 2).takeWhile (· == quote)
  (quotes, cs.drop quotes.length)

/-- Whether nothing but blanks stands before the end of the line. -/
def endsLine (cs : List Char) : Bool := (afterNewline? (dropBlanks cs)).isSome

/-- A string in three double quotes, after the opening ones and the line end that may follow them. A
backslash at the end of a line takes away the blanks and line ends after it, which is what
`skipping` says. -/
def basicLines : (skipping : Bool) → List Char → Option (List Char × List Char)
  | _, [] => none
  | _, '"' :: '"' :: '"' :: rest => some (closing '"' rest)
  | skipping, '\r' :: '\n' :: rest =>
    if skipping then basicLines true rest
    else do
      let (cs, rest) ← basicLines false rest
      some ('\n' :: cs, rest)
  | skipping, '\n' :: rest =>
    if skipping then basicLines true rest
    else do
      let (cs, rest) ← basicLines false rest
      some ('\n' :: cs, rest)
  | _, '\\' :: rest =>
    if endsLine rest then basicLines true rest
    else do
      let (c, length) ← escape? rest
      let (cs, rest) ← basicLines false (rest.drop length)
      some (c :: cs, rest)
  | skipping, c :: rest =>
    if !isPlainCharacter c then none
    else if skipping && isBlank c then basicLines true rest
    else do
      let (cs, rest) ← basicLines false rest
      some (c :: cs, rest)
termination_by _ cs => cs.length
decreasing_by all_goals simp only [List.length_drop, List.length_cons]; omega

/-- A string in three single quotes, after the opening ones and the line end that may follow them.
-/
def literalLines : List Char → Option (List Char × List Char)
  | [] => none
  | '\'' :: '\'' :: '\'' :: rest => some (closing '\'' rest)
  | '\r' :: '\n' :: rest => do
    let (cs, rest) ← literalLines rest
    some ('\n' :: cs, rest)
  | c :: rest =>
    if c ≠ '\n' ∧ !isPlainCharacter c then none
    else do
      let (cs, rest) ← literalLines rest
      some (c :: cs, rest)

/-- A text without the line end at its front. -/
def dropNewline (cs : List Char) : List Char := (afterNewline? cs).getD cs

/-- A string of any kind; nothing if no quote stands at the front. -/
def string? : List Char → Option (List Char × List Char)
  | '"' :: '"' :: '"' :: rest => basicLines false (dropNewline rest)
  | '"' :: rest => basicString rest
  | '\'' :: '\'' :: '\'' :: rest => literalLines (dropNewline rest)
  | '\'' :: rest => literalString rest
  | _ => none

end BytePack.Config.Toml
