import BytePack.Config.Setting

/-!
# Tables in TOML

The entries of a text form a tree of tables. What may be added to a table hangs on how it came to
be: by a header of its own, by a header of a table below it, or by a key with points in it. Every
name is given once.
-/

namespace BytePack.Config.Toml

/-- How a table came to be. -/
inductive TableKind where
  /-- It has a header, or is the outermost table, or an item of an array of tables. -/
  | header
  /-- A header names a table below it. -/
  | implied
  /-- A key goes through it. -/
  | dotted
  deriving DecidableEq, Repr

/-- What stands under a name. -/
inductive Item where
  | value (setting : Setting)
  | table (kind : TableKind) (entries : List (String × Item))
  /-- An array of tables, by the entries of the last one, which is the only one that can grow. -/
  | tables (last : List (String × Item))

/-- The entries of a table. -/
abbrev Entries := List (String × Item)

/-- The setting of what stands under a name. -/
def Item.setting : Item → Setting
  | .value setting => setting
  | .table _ entries => .table (entries.map fun entry => (entry.1, .other))
  | .tables _ => .other

namespace Entries

/-- The entries with another item under a name. -/
def put (name : String) (item : Item) : Entries → Entries
  | [] => [(name, item)]
  | entry :: entries =>
    if entry.1 = name then (name, item) :: entries else entry :: put name item entries

/-- Changes the table at the end of a path, which may depend on how that table came to be. Tables
that are missing on the way are made, of the kind `made`. A path of a key, which makes dotted
tables, goes through no table with a header; and no path goes through a value. -/
def change (made : TableKind) (f : TableKind → Entries → Option Entries) :
    (path : List String) → TableKind → Entries → Option Entries
  | [], kind, entries => f kind entries
  | name :: path, _, entries =>
    match entries.lookup name with
    | none => do
      let inner ← change made f path made []
      some (entries.put name (.table made inner))
    | some (.table kind inner) =>
      if made = .dotted ∧ kind = .header then none
      else do
        let inner ← change made f path kind inner
        some (entries.put name (.table kind inner))
    | some (.tables last) => do
      let last ← change made f path .header last
      some (entries.put name (.tables last))
    | some (.value _) => none

/-- Adds a value under a key. A key with points ends in a table that such keys have made, and one
without in a table that is not of this kind. -/
def insert (path : List String) (name : String) (setting : Setting) (entries : Entries) :
    Option Entries :=
  entries.change .dotted (fun kind inner =>
    if (kind == .dotted) == path.isEmpty || (inner.lookup name).isSome then none
    else some (inner.put name (.value setting))) path .header

/-- Adds the table of a header. A table that is there already gets its header only if it was implied
by others. -/
def addTable (path : List String) (name : String) (entries : Entries) : Option Entries :=
  entries.change .implied (fun _ inner =>
    match inner.lookup name with
    | none => some (inner.put name (.table .header []))
    | some (.table .implied below) => some (inner.put name (.table .header below))
    | some _ => none) path .header

/-- Adds an item to the array of tables of a header. -/
def addToTables (path : List String) (name : String) (entries : Entries) : Option Entries :=
  entries.change .implied (fun _ inner =>
    match inner.lookup name with
    | none => some (inner.put name (.tables []))
    | some (.tables _) => some (inner.put name (.tables []))
    | some _ => none) path .header

/-- Adds a value under a key below the header of a table. -/
def insertBelow (table path : List String) (name : String) (setting : Setting) (entries : Entries) :
    Option Entries :=
  entries.change .implied (fun _ inner => inner.insert path name setting) table .header

/-- The settings of the entries. -/
def source (entries : Entries) : Source := entries.map fun entry => (entry.1, entry.2.setting)

end Entries

end BytePack.Config.Toml
