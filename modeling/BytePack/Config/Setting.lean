/-!
# Settings

A source of configuration, of whatever syntax, gives named settings. Integers and texts can be of
use, and so can a table of names; a setting of any other kind is kept as such, because it still
hides what weaker sources say.
-/

namespace BytePack

/-- A value that a source gives to a name. -/
inductive Setting where
  | integer (n : Int)
  | text (s : String)
  | null
  /-- A table, by its entries. Of two with the same name the last counts. -/
  | table (entries : List (String × Setting))
  /-- Anything else. -/
  | other

/-- The settings of a source, in order. -/
abbrev Source := List (String × Setting)

/-- The setting of a name. The last one counts. -/
def Source.get? (source : Source) (name : String) : Option Setting :=
  (source.reverse.find? fun entry => entry.1 == name).map Prod.snd

/-- The name that comes first in the order of code points. -/
def Source.leastName? (source : Source) : Option String :=
  source.foldl (fun least entry =>
    match least with
    | none => some entry.1
    | some name => if entry.1 < name then some entry.1 else some name) none

/-- A setting on top of a weaker one: it hides the weaker one, but two tables are joined. -/
def Setting.onTopOf (setting weaker : Setting) : Setting :=
  match weaker, setting with
  | .table below, .table above => .table (below ++ above)
  | _, _ => setting

end BytePack
