import BytePack.Config
import BytePack.Plan
import BytePack.Unpack

/-!
# Codecs

The entry points: packing arguments into bytes and unpacking bytes into a record, both by a format,
under the settings of a codec. Calls share nothing. The outcome comes with its diagnostics, or they
are logged at the level of the codec.
-/

namespace BytePack

/-- Packs arguments by a format into at most `room` bytes. -/
def packFormat (room : Nat) (format : String) (args : List Scalar) : Reported (List UInt8) := do
  let directives ← .ofExcept (parseFormat format)
  packDirectives room directives args

/-- A configuration to pack and unpack under. -/
structure Codec where
  config : Config

namespace Codec

/-- The codec with the default settings. -/
def standard : Codec := ⟨Config.default⟩

/-- Packs arguments by a format. -/
def pack (_ : Codec) (format : String) (args : List Scalar) : Reported (List UInt8) :=
  packFormat defaultRoom format args

/-- Unpacks an input from an offset on by a format. -/
def unpack (codec : Codec) (format : String) (input : List UInt8) (offset : Nat) :
    Reported Record := do
  let groups ← .ofExcept (parseGroups format codec.config.nameLimit)
  unpackGroups groups input offset

/-- What a codec logs of a call whose diagnostics nobody collects. -/
def log {α : Type} (codec : Codec) (call : Reported α) : List LogEvent :=
  codec.config.diagnosticLevel.log call.diagnostics

end Codec

/-- Packs arguments by a format under the default settings. -/
def pack (format : String) (args : List Scalar) : Reported (List UInt8) :=
  Codec.standard.pack format args

/-- Unpacks an input from an offset on by a format under the default settings. -/
def unpack (format : String) (input : List UInt8) (offset : Nat) : Reported Record :=
  Codec.standard.unpack format input offset

end BytePack
