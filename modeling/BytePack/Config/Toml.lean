import BytePack.Config.Setting
import BytePack.Config.Toml.Table
import BytePack.Config.Toml.Text
import BytePack.Config.Toml.Word

/-!
# Settings in TOML

Each line holds `key = value`, the header of a table in brackets, or nothing but a comment. Only
arrays and strings in three quotes go on beyond their line. The settings are the outermost entries,
but the whole text has to be well formed.
-/

namespace BytePack.Config.Toml

/-! ## Keys -/

/-- Whether a character may stand in a key without quotes. -/
def isKeyCharacter (c : Char) : Bool :=
  c.isDigit || ('a' ≤ c && c ≤ 'z') || ('A' ≤ c && c ≤ 'Z') || c == '-' || c == '_'

/-- A part of a key, and what follows it. -/
def readKeyPart : List Char → Option (List Char × List Char)
  | '"' :: rest => basicString rest
  | '\'' :: rest => literalString rest
  | cs =>
    let part := cs.takeWhile isKeyCharacter
    if part.isEmpty then none else some (part, cs.dropWhile isKeyCharacter)

/-- The parts of a key, of which there may be `most`, with points between them, and what follows
them and the blanks around them. -/
def readKeyParts : (most : Nat) → List Char → Option (List String × List Char)
  | 0, _ => none
  | most + 1, cs => do
    let (part, rest) ← readKeyPart (dropBlanks cs)
    match dropBlanks rest with
    | '.' :: rest =>
      let (parts, rest) ← readKeyParts most rest
      some (.ofList part :: parts, rest)
    | rest => some ([.ofList part], rest)

/-- The most parts of a key. -/
def maxKeyParts : Nat := 79

/-- A key, by its path and its last part, and what follows it. -/
def readKey (cs : List Char) : Option (List String × String × List Char) := do
  let (parts, rest) ← readKeyParts maxKeyParts cs
  some (parts.dropLast, ← parts.getLast?, rest)

/-! ## Values -/

/-- A text without the blanks, line ends and comments at its front. -/
def dropSpace : (inComment : Bool) → List Char → List Char
  | _, [] => []
  | _, '\n' :: cs => dropSpace false cs
  | _, '\r' :: '\n' :: cs => dropSpace false cs
  | true, c :: cs => if isPlainCharacter c then dropSpace true cs else c :: cs
  | false, c :: cs =>
    if c = '#' then dropSpace true cs else if isBlank c then dropSpace false cs else c :: cs

mutual

/-- A value at the front of a text, and what follows it. Arrays and tables nest at most `depth`
deep, and `fuel` bounds their number. -/
def readValue (depth : Nat) : (fuel : Nat) → List Char → Option (Setting × List Char)
  | 0, _ => none
  | fuel + 1, cs =>
    match cs, depth with
    | '[' :: rest, depth + 1 => (readItems depth fuel rest).map (.other, ·)
    | '\x7b' :: rest, depth + 1 =>
      match dropBlanks rest with
      | '\x7d' :: rest => some (.table [], rest)
      | rest => do
        let (entries, rest) ← readFields depth fuel [] rest
        some (.table entries.source, rest)
    | '"' :: _, _ => (string? cs).map fun (s, rest) => (.text (.ofList s), rest)
    | '\'' :: _, _ => (string? cs).map fun (s, rest) => (.text (.ofList s), rest)
    | _, _ => readWord cs

/-- What follows an array, after its opening bracket or a comma in it. -/
def readItems (depth : Nat) : (fuel : Nat) → List Char → Option (List Char)
  | 0, _ => none
  | fuel + 1, cs =>
    match dropSpace false cs with
    | ']' :: rest => some rest
    | cs => do
      let (_, rest) ← readValue depth fuel cs
      match dropSpace false rest with
      | ']' :: rest => some rest
      | ',' :: rest => readItems depth fuel rest
      | _ => none

/-- The entries of a table in braces that follow some others, and what follows the table. All of
them stand on one line, and no comma stands before the closing brace. -/
def readFields (depth : Nat) : (fuel : Nat) → Entries → List Char → Option (Entries × List Char)
  | 0, _, _ => none
  | fuel + 1, entries, cs => do
    match ← readKey cs with
    | (path, name, '=' :: rest) =>
      let (setting, rest) ← readValue depth fuel (dropBlanks rest)
      let entries ← entries.insert path name setting
      match dropBlanks rest with
      | '\x7d' :: rest => some (entries, rest)
      | ',' :: rest => readFields depth fuel entries rest
      | _ => none
    | _ => none

end

/-- The deepest nesting of arrays and tables in a value. -/
def maxDepth : Nat := 79

/-! ## Lines -/

/-- What has been read of a text. -/
structure Document where
  /-- The outermost entries. -/
  entries : Entries
  /-- The table that the next entry goes to, by its header. -/
  table : List String

namespace Document

/-- Reads the header of a table after its opening bracket. -/
def readHeader (document : Document) (cs : List Char) : Option (Document × List Char) := do
  match cs with
  | '[' :: cs =>
    match ← readKey cs with
    | (path, name, ']' :: ']' :: rest) =>
      some (⟨← document.entries.addToTables path name, path ++ [name]⟩, ← nextLine? rest)
    | _ => none
  | _ =>
    match ← readKey cs with
    | (path, name, ']' :: rest) =>
      some (⟨← document.entries.addTable path name, path ++ [name]⟩, ← nextLine? rest)
    | _ => none

/-- Reads an entry. -/
def readEntry (document : Document) (cs : List Char) : Option (Document × List Char) := do
  match ← readKey cs with
  | (path, name, '=' :: rest) =>
    let (setting, rest) ← readValue maxDepth (2 * rest.length + 2) (dropBlanks rest)
    let entries ← document.entries.insertBelow document.table path name setting
    some (⟨entries, document.table⟩, ← nextLine? rest)
  | _ => none

/-- Reads the lines of a text. `fuel` bounds the number of those that hold something. -/
def readLines : (fuel : Nat) → Document → List Char → Option Document
  | 0, _, _ => none
  | fuel + 1, document, cs => do
    match dropBlanks cs with
    | [] => some document
    | '[' :: rest =>
      let (document, rest) ← document.readHeader rest
      document.readLines fuel rest
    | cs =>
      match nextLine? cs with
      | some rest => document.readLines fuel rest
      | none =>
        let (document, rest) ← document.readEntry cs
        document.readLines fuel rest

end Document

/-- The settings of a TOML text. A byte order mark may stand at its front. -/
def read (text : String) : Option Source := do
  let cs := match text.toList with
    | '\uFEFF' :: cs => cs
    | cs => cs
  let document ← Document.readLines (cs.length + 1) ⟨[], []⟩ cs
  some document.entries.source

end BytePack.Config.Toml
