import BytePack.Error
import BytePack.Format.Group
import BytePack.Log

/-!
# Configuration

A codec has two settings: how long names may be and at which level diagnostics are logged. They come
from files in one of three syntaxes, told by the extension, and from the environment.
-/

namespace BytePack

/-- The settings of a codec. -/
structure Config where
  /-- The number of bytes of a name that are kept. -/
  nameLimit : Nat
  /-- The level at which diagnostics are logged. -/
  diagnosticLevel : LogLevel
  deriving DecidableEq, Repr

namespace Config

/-- The settings for want of others. -/
def default : Config := ⟨defaultNameLimit, .standard⟩

/-- Refuses a limit that leaves nothing of any name. -/
def validate (config : Config) : Except Error Config :=
  if config.nameLimit = 0 then .error (.config .zeroNameLimit) else .ok config

/-- What the names of variables that hold settings start with. -/
def environmentMark : String := "VOLTAGE_PACK_"

/-- The syntax of a configuration file. -/
inductive FileSyntax where
  | json
  | yaml
  | toml
  deriving DecidableEq, Repr

/-- The syntax that goes with an extension. -/
def FileSyntax.ofExtension? (extension : String) : Option FileSyntax :=
  if extension = "toml" then some .toml
  else if extension = "yaml" ∨ extension = "yml" then some .yaml
  else if extension = "json" then some .json
  else none

/-- What follows the last point of a file's name. A point at the front starts no extension. -/
def extension? (name : String) : Option String :=
  let reversed := name.toList.reverse
  let extension := (reversed.takeWhile (· != '.')).reverse
  let stem := (reversed.dropWhile (· != '.')).drop 1
  if stem.isEmpty || name == ".." then none else some (.ofList extension)

end Config

end BytePack
