import BytePack.Config.Basic

/-!
# Layered settings

Files and the environment are read, layered and turned into a configuration by a library that is no
part of this one. It is taken as a parameter: what the codec calls, what it says of its sources and
layers, and, as laws, what is relied on. On these, loading a configuration lays the environment over
the YAML file, that one over the TOML file and all of them over the default settings, reads both
fields off the result, and only then looks whether the limit is one.
-/

namespace BytePack.Config

/-- A library that reads and layers settings. -/
structure Library where
  /-- Values of settings. -/
  Value : Type
  /-- Sources of settings. -/
  Source : Type
  /-- Sources on top of each other. -/
  Layers : Type
  /-- A configuration as a source. -/
  ofConfig : Config → Source
  /-- A file as a source, by its text if it exists. -/
  ofFile : FileSyntax → Option String → Source
  /-- The variables whose names start with a mark as a source. -/
  ofVariables : (mark : String) → List (String × String) → Source
  /-- A source on its own. -/
  single : Source → Layers
  /-- Layers with a source over them. -/
  merge : Layers → Source → Layers
  /-- The configuration that layers give, if they can be read as one. -/
  extract? : Layers → Option Config
  /-- The values of a source, by name. A malformed source has none. -/
  settings? : Source → Option (String → Option Value)
  /-- The values of layers, by name. Layers with a malformed source have none. -/
  merged? : Layers → Option (String → Option Value)
  /-- The value that a variable gives, and its name, if the variable's name starts with the mark. -/
  given? : (mark : String) → String × String → Option (String × Value)
  /-- The value that the text of a variable stands for. -/
  parse : String → Value
  /-- What becomes of a value over a weaker one. -/
  onTop : (value weaker : Value) → Value
  /-- A value as a limit. -/
  limit? : Value → Option Nat
  /-- A value as a level. -/
  level? : Value → Option LogLevel

/-- A field takes the value of its setting, which must be of the right type, or what holds otherwise
if it is not set. -/
inductive Decided {Value α : Type} (read : Value → Option α) (otherwise : α) :
    Option Value → α → Prop
  | unset : Decided read otherwise none otherwise
  | set {value : Value} {a : α} : read value = some a → Decided read otherwise (some value) a

namespace Library

variable (lib : Library)

/-- Whether some values, by name, can be read as a configuration, each field on its own. -/
structure Reads (values : String → Option lib.Value) (config : Config) : Prop where
  nameLimit : Decided lib.limit? default.nameLimit (values "name_limit") config.nameLimit
  diagnosticLevel : Decided lib.level? default.diagnosticLevel (values "diagnostic_level")
    config.diagnosticLevel

/-- What the codec relies on. -/
structure Documented : Prop where
  /-- A configuration can be read back from its own settings. -/
  settings_ofConfig (config : Config) : config.nameLimit < UInt64.size →
    ∃ values, lib.settings? (lib.ofConfig config) = some values ∧ lib.Reads values config
  /-- A file that does not exist has no settings, and is not malformed. -/
  settings_ofFile_none (kind : FileSyntax) :
    lib.settings? (lib.ofFile kind none) = some fun _ => none
  /-- Where no two variables have one name, a name has the value of its variable. -/
  settings_ofVariables (mark : String) (vars : List (String × String)) :
    ((vars.filterMap (lib.given? mark)).map Prod.fst).Nodup →
      lib.settings? (lib.ofVariables mark vars) =
        some fun name => (vars.filterMap (lib.given? mark)).lookup name
  /-- The mark counts in any case, and what follows it is a name in lower case. -/
  given_of_mark (mark : String) (var : String × String) (name : String) :
    name ≠ "" → '.' ∉ name.toList →
      var.1.toList.map Char.toLower = mark.toList.map Char.toLower ++ name.toList →
      lib.given? mark var = some (name, lib.parse var.2)
  merged_single (source : lib.Source) : lib.merged? (lib.single source) = lib.settings? source
  /-- A malformed source cannot be covered up. -/
  merged_merge_none (layers : lib.Layers) (source : lib.Source) :
    lib.merged? layers = none ∨ lib.settings? source = none →
      lib.merged? (lib.merge layers source) = none
  /-- A value is put over the weaker one under the same name, if there is one. -/
  merged_merge_some (layers : lib.Layers) (source : lib.Source)
    (below above : String → Option lib.Value) :
    lib.merged? layers = some below → lib.settings? source = some above →
      lib.merged? (lib.merge layers source) =
        some fun name => Option.merge lib.onTop (above name) (below name)
  extract_none (layers : lib.Layers) : lib.merged? layers = none → lib.extract? layers = none
  /-- Other names than those of the fields do not count. -/
  extract_some (layers : lib.Layers) (values : String → Option lib.Value) (config : Config) :
    lib.merged? layers = some values → (lib.extract? layers = some config ↔ lib.Reads values config)

/-- The configuration of some layers, if it is valid. -/
def extract (layers : lib.Layers) : Except Error Config :=
  match lib.extract? layers with
  | some config => config.validate
  | none => .error (.config .unreadable)

/-- The default settings on their own. -/
def defaults : lib.Layers := lib.single (lib.ofConfig default)

/-- The two standard files and the environment, over the default settings. -/
def layers (toml yaml : Option String) (vars : List (String × String)) : lib.Layers :=
  let withToml := lib.merge lib.defaults (lib.ofFile .toml toml)
  let withYaml := lib.merge withToml (lib.ofFile .yaml yaml)
  lib.merge withYaml (lib.ofVariables environmentMark vars)

/-- The configuration of the two standard files, where they exist, and the environment. -/
def load (toml yaml : Option String) (vars : List (String × String)) : Except Error Config :=
  lib.extract (lib.layers toml yaml vars)

/-- The configuration of a file with a name and a text, if it exists. -/
def loadFile (name : String) (text : Option String) : Except Error Config :=
  match extension? name with
  | none => .error (.config .noExtension)
  | some extension =>
    match FileSyntax.ofExtension? extension with
    | none => .error (.config (.unsupportedExtension extension))
    | some kind => lib.extract (lib.merge lib.defaults (lib.ofFile kind text))

end Library

end BytePack.Config
