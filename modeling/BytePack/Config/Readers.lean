import BytePack.Config.Environment
import BytePack.Config.Json
import BytePack.Config.Library
import BytePack.Config.Toml
import BytePack.Config.Yaml

/-!
# Readers for configurations

A library to run with. Its values are those that the readers of the three syntaxes and of the
environment give. How a value is put over a weaker one is left open.
-/

namespace BytePack.Config

namespace Readers

/-- The settings of a text in some syntax. -/
def read : FileSyntax → String → Option Source
  | .json => Json.read
  | .yaml => Yaml.read
  | .toml => Toml.read

/-- A setting as a limit: an integer of 64 bits without a sign. -/
def limit? : Setting → Option Nat
  | .integer n => if 0 ≤ n ∧ n < UInt64.size then some n.toNat else none
  | _ => none

/-- A setting as a level: its name; its number, where the least urgent level has number zero; or a
table in which the first name in order is that of a level, with nothing under it. -/
def level? : Setting → Option LogLevel
  | .text name => LogLevel.ofName? name
  | .integer n => if 0 ≤ n then LogLevel.all[n.toNat]? else none
  | .table entries => do
    let name ← Source.leastName? entries
    match Source.get? entries name with
    | some .null => LogLevel.ofName? name
    | _ => none
  | _ => none

/-- A configuration as settings. -/
def ofConfig (config : Config) : Source :=
  [("name_limit", .integer config.nameLimit), ("diagnostic_level", .text config.diagnosticLevel.name)]

/-- The configuration that some values give: a field that has no value is the default one. -/
def extract? (values : String → Option Setting) : Option Config := do
  let nameLimit ← (values "name_limit").elim (some default.nameLimit) limit?
  let diagnosticLevel ← (values "diagnostic_level").elim (some default.diagnosticLevel) level?
  some ⟨nameLimit, diagnosticLevel⟩

end Readers

/-- The library that reads with these readers and puts one setting over another as it is told. A
source or layers of which one is malformed are `none`. -/
def Library.readers (onTop : (setting weaker : Setting) → Setting) : Library where
  Value := Setting
  Source := Option BytePack.Source
  Layers := Option (String → Option Setting)
  ofConfig config := some (Readers.ofConfig config)
  ofFile kind text := text.elim (some []) (Readers.read kind)
  ofVariables mark vars := some (Environment.read mark vars)
  single source := source.map Source.get?
  merge layers source := do
    let below ← layers
    let above ← source
    some fun name => Option.merge onTop (above.get? name) (below name)
  extract? layers := layers.bind Readers.extract?
  settings? source := source.map Source.get?
  merged? layers := layers
  given? := Environment.given?
  parse := Environment.setting
  onTop := onTop
  limit? := Readers.limit?
  level? := Readers.level?

end BytePack.Config
