/-!
# Text as UTF-8 bytes

`Utf8.encode` gives the bytes of a text. `Utf8.decodeLossy` reads any bytes as text: where no
character starts, U+FFFD stands for the longest beginning of a character found there, or for one
byte. On the bytes of a text it is the inverse of `encode`, so only a cut sequence shows the sign.
-/

namespace BytePack.Utf8

/-- The bytes of a text. -/
def encode (cs : List Char) : List UInt8 := cs.flatMap String.utf8EncodeChar

/-- The number of bytes of a text. -/
def size : List Char → Nat
  | [] => 0
  | c :: cs => c.utf8Size + size cs

@[simp] theorem length_encode (cs : List Char) : (encode cs).length = size cs := by
  induction cs with
  | nil => rfl
  | cons c cs ih => simp_all [encode, size]

@[simp] theorem size_append (cs ds : List Char) : size (cs ++ ds) = size cs + size ds := by
  induction cs with
  | nil => simp [size]
  | cons c cs ih => simp [size, ih, Nat.add_assoc]

/-- The character whose bytes stand at the front. -/
def front? (bytes : List UInt8) : Option Char := (bytes.take 4).toByteArray.utf8DecodeChar? 0

/-- Whether a byte may stand second in a sequence that starts with `first`. -/
def mayFollow (first second : UInt8) : Bool :=
  if first = 0xE0 then 0xA0 ≤ second && second ≤ 0xBF
  else if first = 0xED then 0x80 ≤ second && second ≤ 0x9F
  else if first = 0xF0 then 0x90 ≤ second && second ≤ 0xBF
  else if first = 0xF4 then 0x80 ≤ second && second ≤ 0x8F
  else 0x80 ≤ second && second ≤ 0xBF

/-- The number of bytes, after the first, of the longest beginning of a character at the front of
bytes that start none. -/
def brokenTail (first : UInt8) (rest : List UInt8) : Nat :=
  if first < 0xE0 || 0xF4 < first then 0
  else
    match rest with
    | [] => 0
    | second :: more =>
      if !mayFollow first second then 0
      else if first < 0xF0 then 1
      else
        match more with
        | [] => 1
        | third :: _ => if 0x80 ≤ third && third ≤ 0xBF then 2 else 1

/-- The text of some bytes, with U+FFFD for what is no text. -/
def decodeLossy : List UInt8 → List Char
  | [] => []
  | b :: rest =>
    match front? (b :: rest) with
    | some c => c :: decodeLossy (rest.drop (c.utf8Size - 1))
    | none => '\uFFFD' :: decodeLossy (rest.drop (brokenTail b rest))
termination_by bytes => bytes.length
decreasing_by all_goals simp only [List.length_drop, List.length_cons]; omega

end BytePack.Utf8
