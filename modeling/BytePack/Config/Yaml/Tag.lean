import BytePack.Config.Yaml.Cursor
import BytePack.Text.Utf8

/-!
# YAML tags

A tag is a handle with a suffix, or the whole name between angle brackets. What a handle stands for
is said by the directives of the document; `!` and `!!` stand for something without them.
-/

namespace BytePack.Config.Yaml

/-- A tag as it is written. The handle is empty if the suffix is all there is. -/
structure Tag where
  handle : List Char
  suffix : List Char
  deriving DecidableEq, Repr

namespace Tag

/-- What the handles stand for unless a document says otherwise. -/
def standardHandles : List (List Char × List Char) :=
  [(['!'], ['!']), (['!', '!'], "tag:yaml.org,2002:".toList)]

/-- The name of a tag, if its handle is known. -/
def name? (handles : List (List Char × List Char)) (tag : Tag) : Option (List Char) :=
  if tag.handle.isEmpty then some tag.suffix
  else (handles.lookup tag.handle).map (· ++ tag.suffix)

/-! ## Reading -/

/-- Whether a character may stand in a suffix. Commas and brackets may only do so where nothing else
ends there. -/
def isSuffixCharacter (isClosed : Bool) (c : Char) : Bool :=
  isNameCharacter c || ";/?:@&=+$.%!~*'()".toList.contains c ||
    (isClosed && [',', '[', ']'].contains c)

/-- A byte in two hexadecimal digits after a percent sign. -/
def octet? : List Char → Option UInt8
  | '%' :: a :: b :: _ => (number? 16 [a, b]).map UInt8.ofNat
  | _ => none

/-- The number of bytes of a character, by its first byte. -/
def octetCount? (first : UInt8) : Option Nat :=
  if first < 0x80 then some 1
  else if first < 0xC0 then none
  else if first < 0xE0 then some 2
  else if first < 0xF0 then some 3
  else if first < 0xF8 then some 4
  else none

/-- The bytes after the first of an escaped character. -/
def laterOctets? : (count : Nat) → List Char → Option (List UInt8)
  | 0, _ => some []
  | count + 1, cs => do
    let octet ← octet? cs
    if 0x80 ≤ octet ∧ octet < 0xC0 then (laterOctets? count (cs.drop 3)).map (octet :: ·) else none

/-- The bytes of an escaped character. -/
def escapedOctets? (cs : List Char) : Option (List UInt8) := do
  let first ← octet? cs
  (laterOctets? ((← octetCount? first) - 1) (cs.drop 3)).map (first :: ·)

/-- The bytes of a suffix, and the place after it. `fuel` bounds the number of characters. -/
def readOctets (isClosed : Bool) : (fuel : Nat) → Cursor → Option (List UInt8 × Cursor)
  | 0, cursor => some ([], cursor)
  | fuel + 1, cursor =>
    match cursor.rest with
    | [] => some ([], cursor)
    | c :: _ =>
      if !isSuffixCharacter isClosed c then some ([], cursor)
      else do
        let octets ← if c = '%' then escapedOctets? cursor.rest else some (Utf8.encode [c])
        let length := if c = '%' then 3 * octets.length else 1
        let (more, cursor) ← readOctets isClosed fuel (cursor.skip length)
        some (octets ++ more, cursor)

/-- A suffix, which may be empty, and the place after it. -/
def readSuffix (isClosed : Bool) (cursor : Cursor) : Option (List Char × Cursor) :=
  (readOctets isClosed cursor.rest.length cursor).map fun (octets, cursor) =>
    (Utf8.decodeLossy octets, cursor)

/-- A suffix that is not empty, and the place after it. -/
def readSomeSuffix (isClosed : Bool) (cursor : Cursor) : Option (List Char × Cursor) := do
  let (suffix, cursor) ← readSuffix isClosed cursor
  if suffix.isEmpty then none else some (suffix, cursor)

/-- The text from an exclamation mark to the end of what may be a handle, and the place after it. -/
def readHandle (cursor : Cursor) : List Char × Cursor :=
  let (name, cursor) := (cursor.skip 1).takeWhile isNameCharacter
  if cursor.rest.head? = some '!' then ('!' :: name ++ ['!'], cursor.skip 1)
  else ('!' :: name, cursor)

/-- A tag at an exclamation mark, and the place after it. Unless there is a second exclamation mark,
the handle is a single one and all that follows is the suffix. -/
def read (inFlow : Bool) (cursor : Cursor) : Option (Tag × Cursor) := do
  let (tag, cursor) ←
    if (cursor.rest.drop 1).head? = some '<' then do
      let (suffix, cursor) ← readSomeSuffix true (cursor.skip 2)
      if cursor.rest.head? = some '>' then some (⟨[], suffix⟩, cursor.skip 1) else none
    else
      let (handle, after) := readHandle cursor
      if handle.length ≠ 1 ∧ handle.getLast? = some '!' then do
        let (suffix, cursor) ← readSomeSuffix false after
        some (⟨handle, suffix⟩, cursor)
      else do
        let (suffix, cursor) ← readSuffix false (cursor.skip 1)
        some (if suffix.isEmpty then ⟨[], ['!']⟩ else ⟨['!'], suffix⟩, cursor)
  if endsWord cursor.rest || (inFlow && cursor.rest.head? == some ',') then some (tag, cursor)
  else none

end Tag

end BytePack.Config.Yaml
