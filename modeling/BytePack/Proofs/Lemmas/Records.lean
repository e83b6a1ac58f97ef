import BytePack.Record
import Mathlib.Data.List.Induction

/-!
# Records and their index

Inserting a field replaces the value of the first field with its key, or puts the field last if the
key is new. The index of a record gives the place of every key throughout. So after many insertions
the keys stand in the order in which they first came, each with the value that came last, and fields
with different keys stay as they were inserted.
-/

namespace BytePack

/-! ## Fields -/

/-- Fields with one of them set: in place of the first with its key, or last if there is none. -/
def setField (key : String) (value : Value) : List (String × Value) → List (String × Value)
  | [] => [(key, value)]
  | field :: rest =>
    if field.1 = key then (key, value) :: rest else field :: setField key value rest

theorem setField_of_new {key : String} {fields : List (String × Value)}
    (h : key ∉ fields.map Prod.fst) (value : Value) :
    setField key value fields = fields ++ [(key, value)] := by
  induction fields with
  | nil => rfl
  | cons field rest ih =>
      rw [List.map_cons, List.mem_cons, not_or] at h
      rw [setField, if_neg (Ne.symm h.1), ih h.2, List.cons_append]

theorem keys_setField (key : String) (value : Value) (fields : List (String × Value)) :
    (setField key value fields).map Prod.fst =
      if key ∈ fields.map Prod.fst then fields.map Prod.fst else fields.map Prod.fst ++ [key] := by
  induction fields with
  | nil => rfl
  | cons field rest ih =>
      by_cases hkey : field.1 = key
      · simp [setField, hkey]
      · simp only [setField, hkey, if_false, List.map_cons, ih, List.mem_cons, Ne.symm hkey,
          false_or]
        split <;> rfl

theorem lookup_field_cons (field : String × Value) (rest : List (String × Value))
    (key : String) :
    (field :: rest).lookup key = if key = field.1 then some field.2 else rest.lookup key := by
  obtain ⟨name, value⟩ := field
  by_cases h : key = name
  · simp [h]
  · rw [List.lookup_cons, beq_eq_false_iff_ne.2 h, if_neg h]

theorem lookup_setField (key : String) (value : Value) (fields : List (String × Value))
    (other : String) :
    (setField key value fields).lookup other =
      if other = key then some value else fields.lookup other := by
  induction fields with
  | nil => exact lookup_field_cons (key, value) [] other
  | cons field rest ih =>
      rw [setField]
      split
      · rename_i hkey
        rw [lookup_field_cons, lookup_field_cons, hkey]
        split <;> rfl
      · rename_i hkey
        rw [lookup_field_cons, lookup_field_cons, ih]
        by_cases h : other = key
        · rw [if_neg (h ▸ Ne.symm hkey), if_pos h, if_pos h]
        · rw [if_neg h, if_neg h]

/-- Changing the value at the place of a key sets the field. -/
theorem modify_eq_setField {key : String} {place : Nat} {fields : List (String × Value)}
    (h : (fields.map Prod.fst).idxOf? key = some place) (value : Value) :
    fields.modify place (fun field => (field.1, value)) = setField key value fields := by
  induction fields generalizing place with
  | nil => simp at h
  | cons field rest ih =>
      rw [List.map_cons, List.idxOf?_cons] at h
      by_cases hkey : field.1 = key
      · rw [if_pos (beq_iff_eq.2 hkey)] at h
        cases h
        simp [setField, hkey]
      · rw [if_neg (by simpa using hkey)] at h
        obtain ⟨next, hnext, rfl⟩ := Option.map_eq_some_iff.1 h
        rw [setField, if_neg hkey, List.modify_succ_cons, ih hnext]

namespace Record

/-! ## The index -/

/-- Whether the index gives the first place of each key. -/
def Indexed (r : Record) : Prop := ∀ key, r.index[key]? = r.keys.idxOf? key

theorem Indexed.empty : Indexed empty := fun key => by simp [Record.empty, keys, toList]

theorem Indexed.toList_insert {r : Record} (hr : r.Indexed) (key : String) (value : Value) :
    (r.insert key value).1.toList = setField key value r.toList := by
  cases hplace : r.index[key]? with
  | none =>
      have hnew : key ∉ r.toList.map Prod.fst := List.idxOf?_eq_none_iff.1 (hr key ▸ hplace)
      rw [setField_of_new hnew]
      simp [insert, hplace, toList]
  | some place =>
      rw [← modify_eq_setField (hr key ▸ hplace) value]
      simp [insert, hplace, toList]

theorem Indexed.keys_insert {r : Record} (hr : r.Indexed) (key : String) (value : Value) :
    (r.insert key value).1.keys = if key ∈ r.keys then r.keys else r.keys ++ [key] := by
  rw [keys, hr.toList_insert, keys_setField]
  rfl

theorem Indexed.insert {r : Record} (hr : r.Indexed) (key : String) (value : Value) :
    (r.insert key value).1.Indexed := by
  intro other
  rw [hr.keys_insert]
  cases hplace : r.index[key]? with
  | none =>
      have hnew : key ∉ r.keys := List.idxOf?_eq_none_iff.1 (hr key ▸ hplace)
      have hsize : r.entries.size = r.keys.length := by simp [keys, toList]
      rw [if_neg hnew]
      simp only [Record.insert, hplace, Std.HashMap.getElem?_insert, hr other, List.idxOf?,
        List.findIdx?_append]
      by_cases hkey : key = other
      · subst hkey
        have hnone : r.keys.findIdx? (· == key) = none := List.idxOf?_eq_none_iff.2 hnew
        simp [hnone, hsize]
      · simp [hkey]
  | some place =>
      have hold : key ∈ r.keys := by
        apply Classical.byContradiction
        intro hnew
        rw [hr key, List.idxOf?_eq_none_iff.2 hnew] at hplace
        cases hplace
      rw [if_pos hold]
      simp only [Record.insert, hplace]
      exact hr other

theorem lookup_eq_getElem? (fields : List (String × Value)) (key : String) :
    fields.lookup key =
      ((fields.map Prod.fst).idxOf? key).bind fun place => fields[place]?.map Prod.snd := by
  induction fields with
  | nil => rfl
  | cons field rest ih =>
      rw [lookup_field_cons, List.map_cons, List.idxOf?_cons]
      by_cases h : key = field.1
      · rw [if_pos h, if_pos (beq_iff_eq.2 h.symm)]
        rfl
      · rw [if_neg h, if_neg (by simpa using Ne.symm h), ih]
        cases (rest.map Prod.fst).idxOf? key <;> rfl

theorem Indexed.get?_eq {r : Record} (hr : r.Indexed) (key : String) :
    r.get? key = r.toList.lookup key := by
  rw [lookup_eq_getElem?, get?, hr key, keys]
  cases (r.toList.map Prod.fst).idxOf? key with
  | none => rfl
  | some place => simp [toList]

/-! ## Many fields -/

theorem Indexed.foldl_insert {r : Record} (hr : r.Indexed) (fields : List (String × Value)) :
    (fields.foldl (fun r field => (r.insert field.1 field.2).1) r).Indexed ∧
      (fields.foldl (fun r field => (r.insert field.1 field.2).1) r).toList =
        fields.foldl (fun set field => setField field.1 field.2 set) r.toList := by
  induction fields generalizing r with
  | nil => exact ⟨hr, rfl⟩
  | cons field rest ih =>
      obtain ⟨hindexed, hlist⟩ := ih (hr.insert field.1 field.2)
      exact ⟨hindexed, by rw [List.foldl_cons, List.foldl_cons, hlist, hr.toList_insert]⟩

/-- Whether a record holds some fields that came one after the other: each key stands where it first
came, with the value that came with it last. -/
structure Collects (r : Record) (fields : List (String × Value)) : Prop where
  keys : r.keys = (fields.map Prod.fst).eraseDups
  lookup : ∀ key, r.toList.lookup key = fields.reverse.lookup key
  get? : ∀ key, r.get? key = fields.reverse.lookup key

theorem keys_foldl_setField (fields : List (String × Value)) :
    (fields.foldl (fun set field => setField field.1 field.2 set) []).map Prod.fst =
      (fields.map Prod.fst).eraseDups := by
  induction fields using List.reverseRecOn with
  | nil => rfl
  | append_singleton fields field ih =>
      rw [List.foldl_append, List.map_append, List.eraseDups_append]
      simp only [List.foldl_cons, List.foldl_nil, keys_setField, ih]
      by_cases h : field.1 ∈ fields.map Prod.fst
      · have hmem := List.mem_eraseDups.2 h
        simp [List.removeAll, h, hmem]
      · have hmem := mt List.mem_eraseDups.1 h
        simp [List.removeAll, h, hmem, List.eraseDups_cons]

theorem lookup_foldl_setField (fields : List (String × Value)) (key : String) :
    (fields.foldl (fun set field => setField field.1 field.2 set) []).lookup key =
      fields.reverse.lookup key := by
  induction fields using List.reverseRecOn with
  | nil => rfl
  | append_singleton fields field ih =>
      rw [List.foldl_append, List.reverse_append, List.reverse_singleton, List.singleton_append,
        lookup_field_cons, List.foldl_cons, List.foldl_nil, lookup_setField, ih]

theorem collects_ofList (fields : List (String × Value)) : (ofList fields).Collects fields := by
  obtain ⟨hindexed, hlist⟩ := Indexed.empty.foldl_insert fields
  have hlookup : ∀ key, (ofList fields).toList.lookup key = fields.reverse.lookup key := by
    intro key
    rw [ofList, hlist]
    exact lookup_foldl_setField fields key
  refine ⟨?_, hlookup, fun key => (Indexed.get?_eq hindexed key).trans (hlookup key)⟩
  rw [Record.keys, ofList, hlist]
  exact keys_foldl_setField fields

/-- Fields with different keys make up the record that lists them. -/
theorem toList_ofList {fields : List (String × Value)} (h : (fields.map Prod.fst).Nodup) :
    (ofList fields).toList = fields := by
  obtain ⟨-, hlist⟩ := Indexed.empty.foldl_insert fields
  rw [ofList, hlist]
  change fields.foldl (fun set field => setField field.1 field.2 set) [] = fields
  induction fields using List.reverseRecOn with
  | nil => rfl
  | append_singleton fields field ih =>
      rw [List.map_append, List.nodup_append] at h
      have hnew : field.1 ∉ fields.map Prod.fst := fun hmem =>
        h.2.2 _ hmem field.1 (by simp) rfl
      rw [List.foldl_append, ih h.1 (Indexed.empty.foldl_insert fields).2]
      exact setField_of_new hnew field.2

end Record

end BytePack
