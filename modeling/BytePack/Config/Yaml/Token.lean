import BytePack.Config.Yaml.Scalar
import BytePack.Config.Yaml.Tag

/-!
# YAML tokens

A text is split into marks, scalars and what stands before a node. Indentation becomes tokens too: a
block collection is opened where a column is reached that lies deeper than all open ones, and closed
where the text comes back in front of it. That a scalar is a key shows only at the colon after it,
so the place of every scalar that may be one is kept, and the token of the key is put there later.
-/

namespace BytePack.Config.Yaml

/-- A token of a YAML text. -/
inductive Token where
  /-- The version that a directive asks for. -/
  | version (major minor : Nat)
  /-- What a handle stands for, as a directive says. -/
  | handle (name expansion : List Char)
  | documentStart
  | documentEnd
  | blockSequence
  | blockMapping
  | blockEnd
  | openSequence
  | closeSequence
  | openMapping
  | closeMapping
  /-- The dash before an item. -/
  | item
  /-- The comma between items. -/
  | separator
  | key
  | value
  | reference (name : List Char)
  | anchor (name : List Char)
  | tag (tag : Tag)
  | scalar (isPlain : Bool) (text : List Char)
  deriving DecidableEq, Repr

/-! ## Tokens that take one look at the text -/

namespace Token

/-- A number of a version, which has up to nine digits. -/
def readVersionNumber (cursor : Cursor) : Option (Nat × Cursor) := do
  let (digits, cursor) := cursor.takeWhile Char.isDigit
  if digits.length ≤ 9 then some (← number? 10 digits, cursor) else none

/-- The version that a directive asks for. -/
def readVersion (cursor : Cursor) : Option (Token × Cursor) := do
  let (major, cursor) ← readVersionNumber (cursor.skipWhile isBlank)
  if cursor.rest.head? = some '.' then
    let (minor, cursor) ← readVersionNumber (cursor.skip 1)
    some (.version major minor, cursor)
  else none

/-- A handle and what it stands for. -/
def readExpansion (cursor : Cursor) : Option (Token × Cursor) := do
  let cursor := cursor.skipWhile isBlank
  if cursor.rest.head? ≠ some '!' then none
  else
    let (name, cursor) := Tag.readHandle cursor
    if name.getLast? ≠ some '!' || !cursor.rest.head?.any isBlank then none
    else
      let (expansion, cursor) ← Tag.readSomeSuffix true (cursor.skipWhile isBlank)
      if endsWord cursor.rest then some (.handle name expansion, cursor) else none

/-- A directive after its percent sign. It has a line of its own. -/
def readDirective (cursor : Cursor) : Option (Token × Cursor) := do
  let (name, cursor) := cursor.takeWhile isNameCharacter
  if !endsWord cursor.rest then none
  else
    let (token, cursor) ←
      if name = "YAML".toList then readVersion cursor
      else if name = "TAG".toList then readExpansion cursor
      else none
    some (token, ← cursor.nextLine?)

/-- The name of an anchor after its mark. -/
def readName (cursor : Cursor) : Option (List Char × Cursor) :=
  let (name, cursor) := cursor.takeWhile isNameCharacter
  let isEnd (c : Char) : Bool := ['?', ':', ',', ']', '\x7d', '%', '@', '\x60'].contains c
  if name.isEmpty || !(endsWord cursor.rest || cursor.rest.head?.any isEnd) then none
  else some (name, cursor)

/-- Whether a text starts with what may start a scalar in the open: no mark, or one of the three
marks that need a blank after them, without it. -/
def startsPlain (inFlow : Bool) : List Char → Bool
  | [] => false
  | c :: cs =>
    if c = '-' then !cs.head?.any isBlank
    else if c = '?' ∨ c = ':' then !inFlow && !endsWord cs
    else
      !isSpace c && !isFlowMark c && !"#&*!|>'\"%@".toList.contains c && c != '\x60'

end Token

/-! ## Indentation and keys -/

/-- A place where a key may start. -/
structure KeyPlace where
  /-- Whether something else than a key would break the indentation there. -/
  isRequired : Bool
  /-- The number of tokens before it. -/
  tokenCount : Nat
  /-- Where it is. -/
  place : Cursor

/-- What has been read of a text. -/
structure Reader where
  cursor : Cursor
  /-- The tokens, the last one first. -/
  tokens : List Token
  /-- The columns of the open block collections, the innermost one first. -/
  indents : List Nat
  /-- Whether a key may start here. -/
  keyAllowed : Bool
  /-- Where the key may have started that a colon here would end. -/
  keyPlace : Option KeyPlace
  /-- The same for the collections around the innermost one in brackets or braces. -/
  outerPlaces : List (Option KeyPlace)

namespace Reader

/-- The start of a text. -/
def start (cs : List Char) : Reader := ⟨.start cs, [], [], true, none, []⟩

/-- Whether brackets or braces are open. -/
def inFlow (r : Reader) : Bool := !r.outerPlaces.isEmpty

/-- Adds a token. -/
def add (token : Token) (r : Reader) : Reader := { r with tokens := token :: r.tokens }

/-- Adds a token behind the first `count` ones. -/
def addAt (count : Nat) (token : Token) (r : Reader) : Reader :=
  { r with tokens := r.tokens.insertIdx (r.tokens.length - count) token }

/-- Closes the block collections that lie deeper than a column, or all of them. -/
def closeTo (column : Option Nat) (r : Reader) : Reader :=
  if r.inFlow then r
  else
    let closed := r.indents.takeWhile fun indent => column.all (· < indent)
    { r with
      indents := r.indents.drop closed.length
      tokens := closed.map (fun _ => Token.blockEnd) ++ r.tokens }

/-- Opens a block collection at a column, behind the first `count` tokens, if this column lies
deeper than those of all open ones. -/
def openAt (column count : Nat) (token : Token) (r : Reader) : Reader :=
  if r.inFlow || r.indents.head?.any (column ≤ ·) then r
  else { r with indents := column :: r.indents }.addAt count token

/-- Opens a block collection here. -/
def openHere (token : Token) (r : Reader) : Reader :=
  r.openAt r.cursor.column r.tokens.length token

/-- Gives up the place of a key, which must not have been required. -/
def dropKey (r : Reader) : Option Reader :=
  if r.keyPlace.any (·.isRequired) then none else some { r with keyPlace := none }

/-- Keeps this place as that of a key, if one may start here. -/
def keepKey (r : Reader) : Option Reader :=
  if !r.keyAllowed then some r
  else do
    let isRequired := !r.inFlow && r.indents.head? == some r.cursor.column
    let r ← r.dropKey
    some { r with keyPlace := some ⟨isRequired, r.tokens.length, r.cursor⟩ }

/-- Whether the place of a key is out of reach: on another line, or more than 1024 characters away.
-/
def isStale (r : Reader) (key : KeyPlace) : Bool :=
  key.place.line < r.cursor.line || key.place.index + 1024 < r.cursor.index

/-- Gives up the places of keys that are out of reach. -/
def dropStaleKeys (r : Reader) : Option Reader :=
  let isStale (key : Option KeyPlace) : Bool := key.any r.isStale
  let isMissed (key : Option KeyPlace) : Bool := key.any fun key => r.isStale key && key.isRequired
  if isMissed r.keyPlace || r.outerPlaces.any isMissed then none
  else
    some { r with
      keyPlace := if isStale r.keyPlace then none else r.keyPlace
      outerPlaces := r.outerPlaces.map fun key => if isStale key then none else key }

/-! ## Reading -/

/-- Goes over blanks, comments and line ends. A tab is a blank only where no key may start. Outside
brackets and braces a key may start on every new line. `fuel` bounds the number of lines. -/
def skipSpace : (fuel : Nat) → Reader → Reader
  | 0, r => r
  | fuel + 1, r =>
    let isMark := r.cursor.column == 0 && r.cursor.rest.head? == some '\uFEFF'
    let cursor := if isMark then r.cursor.skip 1 else r.cursor
    let tabs := r.inFlow || !r.keyAllowed
    let cursor := (cursor.skipWhile fun c => c == ' ' || (tabs && c == '\t')).skipComment
    match cursor.readBreak? with
    | some (_, cursor) =>
      { r with cursor := cursor, keyAllowed := r.keyAllowed || !r.inFlow }.skipSpace fuel
    | none => { r with cursor := cursor }

/-- Reads a token that takes one look at the text, after which a key may start or not. -/
def take (keyAllowed : Bool) (read : Option (Token × Cursor)) (r : Reader) : Option Reader :=
  read.map fun (token, cursor) => { r with cursor := cursor, keyAllowed := keyAllowed }.add token

/-- Reads a mark of some characters. -/
def takeMark (length : Nat) (keyAllowed : Bool) (token : Token) (r : Reader) : Option Reader :=
  r.take keyAllowed (some (token, r.cursor.skip length))

/-- Reads what ends all block collections: a directive or the mark between documents. -/
def takeOutermost (read : Option (Token × Cursor)) (r : Reader) : Option Reader := do
  (← (r.closeTo none).dropKey).take false read

/-- Reads an opening bracket or brace. -/
def takeOpening (token : Token) (r : Reader) : Option Reader := do
  let r ← r.keepKey
  let inside : Reader := { r with keyPlace := none, outerPlaces := r.keyPlace :: r.outerPlaces }
  inside.takeMark 1 true token

/-- Reads a closing bracket or brace. -/
def takeClosing (token : Token) (r : Reader) : Option Reader := do
  let r ← r.dropKey
  match r.outerPlaces with
  | [] => r.takeMark 1 false token
  | key :: outer =>
    let outside : Reader := { r with keyPlace := key, outerPlaces := outer }
    outside.takeMark 1 false token

/-- Reads the dash before an item. -/
def takeItem (r : Reader) : Option Reader := do
  if !r.inFlow && !r.keyAllowed then none
  else (← (r.openHere .blockSequence).dropKey).takeMark 1 true .item

/-- Reads the mark of a key that needs one. -/
def takeKey (r : Reader) : Option Reader := do
  if !r.inFlow && !r.keyAllowed then none
  else (← (r.openHere .blockMapping).dropKey).takeMark 1 (!r.inFlow) .key

/-- Reads the colon before a value. If a key may have started before it, this was one. -/
def takeValue (r : Reader) : Option Reader :=
  match r.keyPlace with
  | some key =>
    let r := (r.addAt key.tokenCount .key).openAt key.place.column key.tokenCount .blockMapping
    { r with keyPlace := none }.takeMark 1 false .value
  | none =>
    if !r.inFlow && !r.keyAllowed then none
    else (r.openHere .blockMapping).takeMark 1 (!r.inFlow) .value

/-- Reads what may be a key or stand before one. -/
def takeProperty (read : Option (Token × Cursor)) (r : Reader) : Option Reader := do
  (← r.keepKey).take false read

/-- Reads a scalar in a block. -/
def takeBlock (folded : Bool) (r : Reader) : Option Reader := do
  let read := (r.cursor.skip 1).readBlock folded r.indents.head?
  (← r.dropKey).take true (read.map fun (text, cursor) => (.scalar false text, cursor))

/-- Reads a scalar in the open. A key may start on the new line after it. -/
def takePlain (r : Reader) : Option Reader := do
  let indent := (r.indents.head?.map (· + 1)).getD 0
  let (text, isBroken, cursor) ←
    r.cursor.readPlain r.inFlow indent (r.cursor.rest.length + 1) (.blanks [])
  (← r.keepKey).take isBroken (some (.scalar true text, cursor))

/-- Reads the token that starts with a character. -/
def takeToken (c : Char) (cs : List Char) (r : Reader) : Option Reader :=
  let named (token : List Char → Token) : Option (Token × Cursor) :=
    (Token.readName (r.cursor.skip 1)).map fun (name, cursor) => (token name, cursor)
  let isAlone := r.inFlow || endsWord cs
  if c = '%' ∧ r.cursor.column = 0 then r.takeOutermost (Token.readDirective (r.cursor.skip 1))
  else if r.cursor.isAtMark '-' then r.takeOutermost (some (.documentStart, r.cursor.skip 3))
  else if r.cursor.isAtMark '.' then r.takeOutermost (some (.documentEnd, r.cursor.skip 3))
  else if c = '[' then r.takeOpening .openSequence
  else if c = '\x7b' then r.takeOpening .openMapping
  else if c = ']' then r.takeClosing .closeSequence
  else if c = '\x7d' then r.takeClosing .closeMapping
  else if c = ',' then do (← r.dropKey).takeMark 1 true .separator
  else if c = '-' ∧ endsWord cs then r.takeItem
  else if c = '?' ∧ isAlone then r.takeKey
  else if c = ':' ∧ isAlone then r.takeValue
  else if c = '*' then r.takeProperty (named .reference)
  else if c = '&' then r.takeProperty (named .anchor)
  else if c = '!' then
    r.takeProperty ((Tag.read r.inFlow r.cursor).map fun (tag, cursor) => (.tag tag, cursor))
  else if (c = '|' ∨ c = '>') ∧ !r.inFlow then r.takeBlock (c == '>')
  else if c = '\'' ∨ c = '"' then
    let read := (r.cursor.skip 1).readQuoted c (cs.length + 1)
    r.takeProperty (read.map fun (text, cursor) => (.scalar false text, cursor))
  else if Token.startsPlain r.inFlow (c :: cs) then r.takePlain
  else none

/-- The tokens of the rest of a text. `fuel` exceeds the number of characters. -/
def readAll : (fuel : Nat) → Reader → Option (List Token)
  | 0, _ => none
  | fuel + 1, r => do
    let r ← (r.skipSpace fuel).dropStaleKeys
    match r.cursor.rest with
    | [] => (← (r.closeTo none).dropKey).tokens.reverse
    | c :: cs => (← (r.closeTo (some r.cursor.column)).takeToken c cs).readAll fuel

end Reader

/-- The tokens of a text. -/
def Token.ofText? (cs : List Char) : Option (List Token) :=
  (Reader.start cs).readAll (cs.length + 1)

end BytePack.Config.Yaml
