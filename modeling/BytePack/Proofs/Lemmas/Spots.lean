import BytePack.Proofs.Lemmas.Records
import BytePack.Proofs.Lemmas.Taking
import Mathlib.Data.List.Forall2

/-!
# Where fields lie

Groups and the length of an input decide alone where each field lies, under which key it goes and
how its bytes are to be read. What the input holds gives the value and nothing else: the text before
a terminator may be short, but the spot is as wide as the group says.
-/

namespace BytePack

/-! ## Spots -/

inductive ValueKind where
  | bytes
  | int
  | float
  deriving DecidableEq, Repr

def Value.kind : Value → ValueKind
  | .bytes _ => .bytes
  | .int _ => .int
  | .float _ => .float

/-- How the bytes of a field are read. -/
inductive FieldForm where
  | text (padding : Padding)
  | hex (order : NibbleOrder) (digits : Nat)
  | number (format : Number)
  deriving DecidableEq, Repr

/-- The value of some bytes. -/
def FieldForm.decode : FieldForm → List UInt8 → Value
  | .text padding, bytes => .bytes (padding.strip bytes)
  | .hex order digits, bytes => .bytes (renderNibbles bytes digits order)
  | .number format, bytes => format.decode bytes

/-- Bytes that are read in the same way give the same kind of value. -/
theorem FieldForm.kind_decode (form : FieldForm) (bytes bytes' : List UInt8) :
    (form.decode bytes).kind = (form.decode bytes').kind := by
  cases form with
  | text | hex => rfl
  | number format => cases format <;> simp only [FieldForm.decode, Number.decode, Value.kind]

/-- A field of an input, without what it holds. -/
structure Spot where
  key : String
  pos : Nat
  size : Nat
  form : FieldForm
  deriving DecidableEq, Repr

namespace Spot

/-- The field at a spot of an input. -/
def field (input : List UInt8) (spot : Spot) : String × Value :=
  (spot.key, spot.form.decode ((input.drop spot.pos).take spot.size))

/-- Whether two inputs hold the same bytes at a spot. -/
def Agrees (spot : Spot) (input input' : List UInt8) : Prop :=
  ∀ i, spot.pos ≤ i → i < spot.pos + spot.size → input[i]? = input'[i]?

theorem Agrees.field_eq {spot : Spot} {input input' : List UInt8} (h : spot.Agrees input input') :
    spot.field input = spot.field input' := by
  have hbytes : (input.drop spot.pos).take spot.size = (input'.drop spot.pos).take spot.size := by
    refine List.ext_getElem? fun i => ?_
    rw [List.getElem?_take, List.getElem?_take, List.getElem?_drop, List.getElem?_drop]
    split
    · exact h _ (by omega) (by omega)
    · rfl
  rw [field, field, hbytes]

end Spot

/-- The spots of a group in an input of `length` bytes. -/
def Group.spots (g : Group) (length pos : Nat) : List Spot :=
  let left := length - pos
  match g.directive.layout with
  | .text padding => [⟨fieldKey g.name 1 true, pos, g.room left, .text padding⟩]
  | .hex order => [⟨fieldKey g.name 1 true, pos, g.room left, .hex order (g.digitCount left)⟩]
  | .number format =>
    (List.range (g.wordCount format.width left)).map fun i =>
      ⟨fieldKey g.name (i + 1) (g.directive.repetition == .count 1), pos + i * format.width,
        format.width, .number format⟩
  | _ => []

theorem Group.emits_eq (g : Group) (input : List UInt8) (pos : Nat) :
    g.emits (input.drop pos) = (g.spots input.length pos).map (Spot.field input) := by
  unfold Group.emits Group.spots
  rw [List.length_drop]
  cases g.directive.layout with
  | text | hex => rfl
  | number format =>
      rw [List.map_map]
      refine List.map_congr_left fun i _ => ?_
      rw [Function.comp_apply, Spot.field, List.drop_drop]
      rfl
  | nulByte | backUp | absolute => rfl

/-- A group that fits reads no byte past those it takes. -/
theorem Group.Fits.spots_within {g : Group} {length pos : Nat} (h : g.Fits (length - pos))
    (hpos : pos ≤ length) :
    ∀ spot ∈ g.spots length pos, pos ≤ spot.pos ∧ spot.pos + spot.size ≤ length := by
  intro spot hspot
  unfold Group.Fits at h
  unfold Group.spots at hspot
  cases hl : g.directive.layout with
  | text padding | hex order =>
      simp only [hl, List.mem_singleton] at hspot
      subst hspot
      exact ⟨Nat.le_refl pos, by dsimp only; omega⟩
  | number format =>
      simp only [hl, List.mem_map, List.mem_range] at hspot
      obtain ⟨i, hi, rfl⟩ := hspot
      have hroom : g.room (length - pos) =
          g.wordCount format.width (length - pos) * format.width := by
        simp only [Group.room, hl]
      have hword : (i + 1) * format.width ≤
          g.wordCount format.width (length - pos) * format.width :=
        Nat.mul_le_mul_right _ hi
      rw [Nat.succ_mul] at hword
      exact ⟨Nat.le_add_right _ _, by dsimp only; omega⟩
  | nulByte | backUp | absolute => simp [hl] at hspot

/-- The spots of some groups in an input of `length` bytes, in the order in which they are read. -/
def spots (length : Nat) : Nat → List Group → List Spot
  | _, [] => []
  | pos, g :: groups => g.spots length pos ++ spots length (g.next length pos) groups

theorem emitted_eq (input : List UInt8) (pos : Nat) (groups : List Group) :
    emitted input pos groups = (spots input.length pos groups).map (Spot.field input) := by
  induction groups generalizing pos with
  | nil => rfl
  | cons g groups ih => rw [emitted, spots, List.map_append, g.emits_eq, ih]

theorem AllFit.spots_within {length pos : Nat} {groups : List Group} (h : AllFit length pos groups)
    (hpos : pos ≤ length) : ∀ spot ∈ spots length pos groups, spot.pos + spot.size ≤ length := by
  induction groups generalizing pos with
  | nil => simp [spots]
  | cons g groups ih =>
      obtain ⟨hfit, hrest⟩ := h
      intro spot hspot
      rcases List.mem_append.1 hspot with hhere | hlater
      · exact (hfit.spots_within hpos spot hhere).2
      · exact ih hrest (hfit.next_le hpos) spot hlater

/-! ## Keys -/

/-- The spot that is read last under a key. -/
def lastSpot? (spots : List Spot) (key : String) : Option Spot :=
  spots.findRev? fun spot => spot.key == key

theorem lookup_map_field (input : List UInt8) (places : List Spot) (key : String) :
    (places.map (Spot.field input)).lookup key =
      (places.find? fun spot => spot.key == key).map fun spot => (spot.field input).2 := by
  induction places with
  | nil => rfl
  | cons spot places ih =>
      rw [List.map_cons, lookup_field_cons, List.find?_cons, ih]
      change (if key = spot.key then _ else _) = _
      by_cases h : key = spot.key
      · rw [if_pos h, beq_iff_eq.2 h.symm, Option.map_some]
      · rw [if_neg h, beq_eq_false_iff_ne.2 (Ne.symm h)]

/-- A record that holds the fields of some spots has under each key what the last of them holds. -/
theorem Record.Collects.get?_eq {record : Record} {input : List UInt8} {places : List Spot}
    (h : record.Collects (places.map (Spot.field input))) (key : String) :
    record.get? key = (lastSpot? places key).map fun spot => (spot.field input).2 := by
  rw [h.get?, lastSpot?, List.findRev?_eq_find?_reverse, ← List.map_reverse, lookup_map_field]

theorem Record.Collects.exists_lastSpot {record : Record} {input : List UInt8} {places : List Spot}
    (h : record.Collects (places.map (Spot.field input))) {key : String} (hkey : key ∈ record.keys) :
    ∃ spot ∈ places, lastSpot? places key = some spot := by
  rw [h.keys, List.mem_eraseDups, List.map_map] at hkey
  obtain ⟨spot, hspot, hname⟩ := List.mem_map.1 hkey
  rw [lastSpot?, List.findRev?_eq_find?_reverse]
  cases hlast : places.reverse.find? fun spot => spot.key == key with
  | none =>
      have hother := List.find?_eq_none.1 hlast spot (List.mem_reverse.2 hspot)
      exact absurd (beq_iff_eq.2 hname) hother
  | some last => exact ⟨last, List.mem_reverse.1 (List.mem_of_find?_eq_some hlast), rfl⟩

/-! ## Fields of the same kind -/

/-- Whether two fields have the same key and values of the same kind. -/
structure SameShape (field field' : String × Value) : Prop where
  key : field.1 = field'.1
  kind : field.2.kind = field'.2.kind

theorem Spot.sameShape (spot : Spot) (input input' : List UInt8) :
    SameShape (spot.field input) (spot.field input') :=
  ⟨rfl, spot.form.kind_decode _ _⟩

theorem sameShape_setField {key : String} {value value' : Value}
    {fields fields' : List (String × Value)} (h : List.Forall₂ SameShape fields fields')
    (hkind : value.kind = value'.kind) :
    List.Forall₂ SameShape (setField key value fields) (setField key value' fields') := by
  induction h with
  | nil => exact .cons ⟨rfl, hkind⟩ .nil
  | @cons field field' rest rest' hfield hrest ih =>
      rw [setField, setField, ← hfield.key]
      split
      · exact .cons ⟨rfl, hkind⟩ hrest
      · exact .cons hfield ih

/-- The values that are inserted do not decide which fields a record has, nor in which order. -/
theorem Record.sameShape_ofList {fields fields' : List (String × Value)}
    (h : List.Forall₂ SameShape fields fields') :
    List.Forall₂ SameShape (ofList fields).toList (ofList fields').toList := by
  have hfold : ∀ set set', List.Forall₂ SameShape set set' →
      List.Forall₂ SameShape (fields.foldl (fun set field => setField field.1 field.2 set) set)
        (fields'.foldl (fun set field => setField field.1 field.2 set) set') := by
    induction h with
    | nil => exact fun _ _ hset => hset
    | @cons field field' rest rest' hfield _ ih =>
        intro set set' hset
        rw [List.foldl_cons, List.foldl_cons, ← hfield.key]
        exact ih _ _ (sameShape_setField hset hfield.kind)
  rw [ofList, ofList, (Indexed.empty.foldl_insert fields).2,
    (Indexed.empty.foldl_insert fields').2]
  exact hfold _ _ .nil

end BytePack
