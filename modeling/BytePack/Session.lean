import BytePack.Codec

/-!
# Sessions

A session works on one buffer with one codec and keeps all diagnostics. A call that fails leaves the
buffer as it was, but what it reported stays.
-/

namespace BytePack

/-- A codec at work. -/
structure Session where
  codec : Codec
  buffer : List UInt8
  diagnostics : List Diagnostic

namespace Session

/-- A session with an empty buffer. -/
def start (codec : Codec) : Session := ⟨codec, [], []⟩

/-- The session with what a call reported. -/
def keep {α : Type} (s : Session) (call : Reported α) : Session :=
  { s with diagnostics := s.diagnostics ++ call.diagnostics }

/-- Packs, and stores what came of it in a buffer made from the present one. -/
def store (s : Session) (format : String) (args : List Scalar)
    (place : List UInt8 → List UInt8 → List UInt8) : Session × Except Error (List UInt8) :=
  let call := s.codec.pack format args
  match call.outcome with
  | .ok bytes => ({ s.keep call with buffer := place s.buffer bytes }, .ok bytes)
  | .error e => (s.keep call, .error e)

/-- Packs into the buffer, in place of what it held. -/
def pack (s : Session) (format : String) (args : List Scalar) :
    Session × Except Error (List UInt8) :=
  s.store format args fun _ bytes => bytes

/-- Packs to the end of the buffer. -/
def append (s : Session) (format : String) (args : List Scalar) :
    Session × Except Error (List UInt8) :=
  s.store format args fun buffer bytes => buffer ++ bytes

/-- Unpacks the buffer from an offset on. -/
def unpack (s : Session) (format : String) (offset : Nat) : Session × Except Error Record :=
  let call := s.codec.unpack format s.buffer offset
  (s.keep call, call.outcome)

end Session

end BytePack
