import BytePack.Number.Double
import Std.Data.HashMap

/-!
# Records

A record holds the fields that unpacking reads, in the order in which their keys first came. Setting
a key again replaces its value where it stands. An index from keys to places answers look-ups; the
entries alone decide equality and order.
-/

namespace BytePack

/-- A value that unpacking reads. -/
inductive Value where
  | bytes (value : List UInt8)
  | int (value : Int64)
  | float (value : Double)
  deriving DecidableEq, Repr

namespace Value

/-- The bytes, if that is what the value is. -/
def asBytes? : Value → Option (List UInt8)
  | .bytes b => some b
  | _ => none

/-- The integer, if that is what the value is. -/
def asInt? : Value → Option Int64
  | .int v => some v
  | _ => none

/-- The number, if that is what the value is. -/
def asFloat? : Value → Option Double
  | .float v => some v
  | _ => none

/-- Equality of values, with numbers compared as numbers. -/
def sameAs : Value → Value → Bool
  | .bytes a, .bytes b => a == b
  | .int a, .int b => a == b
  | .float a, .float b => a.numEq b
  | _, _ => false

end Value

/-- Fields in the order of their keys' first insertion. -/
structure Record where
  entries : Array (String × Value)
  /-- The place of each key among the entries. -/
  index : Std.HashMap String Nat

namespace Record

/-- The record without fields. -/
def empty : Record := ⟨#[], ∅⟩

/-- The value under a key. -/
def get? (r : Record) (key : String) : Option Value :=
  match r.index[key]? with
  | some place => r.entries[place]?.map Prod.snd
  | none => none

/-- Whether a key is there. -/
def contains (r : Record) (key : String) : Bool := r.index.contains key

/-- Sets the value under a key, and gives the value that was there. A new key comes last. -/
def insert (r : Record) (key : String) (value : Value) : Record × Option Value :=
  match r.index[key]? with
  | some place =>
    ({ r with entries := r.entries.modify place fun entry => (entry.1, value) },
      r.entries[place]?.map Prod.snd)
  | none =>
    let place := r.entries.size
    (⟨r.entries.push (key, value), r.index.insert key place⟩, none)

/-- The number of fields. -/
def size (r : Record) : Nat := r.entries.size

/-- Whether there are no fields. -/
def isEmpty (r : Record) : Bool := r.entries.isEmpty

/-- The fields in order. -/
def toList (r : Record) : List (String × Value) := r.entries.toList

/-- The keys in order. -/
def keys (r : Record) : List String := r.toList.map Prod.fst

/-- The record of some fields, inserted one after the other. -/
def ofList (fields : List (String × Value)) : Record :=
  fields.foldl (fun r field => (r.insert field.1 field.2).1) empty

/-- Whether two lists of fields are the same, with numbers compared as numbers. -/
def sameFields : List (String × Value) → List (String × Value) → Bool
  | [], [] => true
  | (k, v) :: xs, (l, w) :: ys => k == l && v.sameAs w && sameFields xs ys
  | _, _ => false

/-- Whether two records have the same fields in the same order. -/
def sameAs (r s : Record) : Bool := sameFields r.toList s.toList

end Record

end BytePack
