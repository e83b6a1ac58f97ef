import BytePack.Config.Readers

/-!
# Loading configurations

Tables in several sources are joined, and any other setting hides the weaker ones.
-/

namespace BytePack.Config

/-- The configuration of a file with a name and a text, if it exists. -/
def ofFile : (name : String) → (text : Option String) → Except Error Config :=
  (Library.readers Setting.onTopOf).loadFile

/-- The configuration of the two standard files, where they exist, and the environment: variables
over the YAML file over the TOML file. -/
def load : (toml yaml : Option String) → (vars : List (String × String)) → Except Error Config :=
  (Library.readers Setting.onTopOf).load

end BytePack.Config
