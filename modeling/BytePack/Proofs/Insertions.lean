import BytePack.Proofs.Lemmas.Records
import Mathlib.Data.Finset.Card
import Mathlib.Data.List.Infix

/-!
# Insertions

A record holds its fields in order and, beside them, an index from keys to places. Insertions keep the
two in step: a key that comes again finds the place that it has, and a new key gets the next one. So
after any insertions the keys stand in the order in which they first came, each with the value that
came with it last, and every insertion gives back what a look-up just before it would have found.
-/

namespace BytePack

namespace Record

variable {r : Record}

/-! ## One insertion -/

/-- Whether the keys are distinct and the index gives the place of each of them, and of no other. -/
structure InStep (r : Record) : Prop where
  nodup : r.keys.Nodup
  index : ∀ (key : String) (place : Nat), r.index[key]? = some place ↔ r.keys[place]? = some key

theorem Indexed.inStep (hr : r.Indexed) (h : r.keys.Nodup) : r.InStep where
  nodup := h
  index key place := by
    rw [hr key, List.idxOf?_eq_some_iff]
    constructor
    · rintro ⟨hlt, hkey, -⟩
      rw [List.getElem?_eq_getElem hlt, hkey]
    · intro hplace
      obtain ⟨hlt, hkey⟩ := List.getElem?_eq_some_iff.1 hplace
      refine ⟨hlt, hkey, fun j hj hagain => ?_⟩
      exact absurd (h.getElem_inj_iff.1 (hagain.trans hkey.symm)) (Nat.ne_of_lt hj)

theorem Indexed.nodup_insert (hr : r.Indexed) (h : r.keys.Nodup) (key : String) (value : Value) :
    (r.insert key value).1.keys.Nodup := by
  rw [hr.keys_insert]
  split
  · exact h
  · rename_i hnew
    refine List.nodup_append.2 ⟨h, List.nodup_singleton key, fun other hother last hlast => ?_⟩
    rintro rfl
    rw [List.mem_singleton.1 hlast] at hother
    exact hnew hother

theorem Indexed.contains_iff (hr : r.Indexed) (key : String) :
    r.contains key = true ↔ key ∈ r.keys := by
  rw [contains, Std.HashMap.contains_eq_isSome_getElem?, hr key, List.isSome_idxOf?]

theorem isSome_lookup_iff (fields : List (String × Value)) (key : String) :
    (fields.lookup key).isSome = true ↔ key ∈ fields.map Prod.fst := by
  rw [List.lookup_isSome_iff, List.mem_map]
  constructor
  · rintro ⟨field, hmem, hkey⟩
    exact ⟨field, hmem, (beq_iff_eq.1 hkey).symm⟩
  · rintro ⟨field, hmem, rfl⟩
    exact ⟨field, hmem, beq_self_eq_true _⟩

theorem Indexed.isSome_get? (hr : r.Indexed) (key : String) :
    (r.get? key).isSome = r.contains key := by
  rw [Bool.eq_iff_iff, hr.contains_iff, hr.get?_eq, isSome_lookup_iff]
  rfl

theorem insert_previous (r : Record) (key : String) (value : Value) :
    (r.insert key value).2 = r.get? key := by
  unfold insert get?
  cases r.index[key]? <;> rfl

/-! ## Many insertions -/

/-- The record after some insertions, and what each of them gives back. -/
def inserting (r : Record) : List (String × Value) → Record × List (Option Value)
  | [] => (r, [])
  | field :: rest =>
    let inserted := r.insert field.1 field.2
    let run := inserted.1.inserting rest
    (run.1, inserted.2 :: run.2)

theorem inserting_record (r : Record) (fields : List (String × Value)) :
    (r.inserting fields).1 = fields.foldl (fun r field => (r.insert field.1 field.2).1) r := by
  induction fields generalizing r with
  | nil => rfl
  | cons field rest ih => exact ih (r.insert field.1 field.2).1

theorem inserting_previous (r : Record) (fields : List (String × Value)) :
    (r.inserting fields).2 =
      List.zipWith (fun earlier field => (r.inserting earlier).1.get? field.1) fields.inits
        fields := by
  induction fields generalizing r with
  | nil => rfl
  | cons field rest ih =>
      rw [List.inits_cons, List.zipWith_cons_cons, List.zipWith_map_left, inserting]
      exact congrArg₂ List.cons (r.insert_previous field.1 field.2) (ih _)

theorem Indexed.inStep_inserting (hr : r.Indexed) (h : r.keys.Nodup)
    (fields : List (String × Value)) :
    (r.inserting fields).1.Indexed ∧ (r.inserting fields).1.InStep := by
  induction fields generalizing r with
  | nil => exact ⟨hr, hr.inStep h⟩
  | cons field rest ih => exact ih (hr.insert _ _) (hr.nodup_insert h _ _)

theorem size_eq_length_keys (r : Record) : r.size = r.keys.length := by
  simp [size, keys, toList]

theorem InStep.size_eq_card (h : r.InStep) {names : List String}
    (hnames : r.keys = names.eraseDups) : r.size = names.toFinset.card := by
  have hsame : r.keys.toFinset = names.toFinset := by
    ext key
    rw [List.mem_toFinset, List.mem_toFinset, hnames, List.mem_eraseDups]
  rw [size_eq_length_keys, ← hsame, List.toFinset_card_of_nodup h.nodup]

theorem InStep.ofList_toList (h : r.InStep) (hr : r.Indexed) :
    (ofList r.toList).toList = r.toList ∧
      ∀ key, (ofList r.toList).index[key]? = r.index[key]? ∧
        (ofList r.toList).get? key = r.get? key := by
  have hfields : (ofList r.toList).toList = r.toList := toList_ofList h.nodup
  have hkeys : (ofList r.toList).keys = r.keys := congrArg (List.map Prod.fst) hfields
  have hindexed : (ofList r.toList).Indexed := (Indexed.empty.foldl_insert r.toList).1
  refine ⟨hfields, fun key => ⟨?_, ?_⟩⟩
  · rw [hindexed key, hr key, hkeys]
  · rw [hindexed.get?_eq, hr.get?_eq, hfields]

end Record

/-! ## Any insertions -/

/-- After any insertions into the empty record, its keys are distinct and stand in the order in which
they first came, the index gives the place of each of them and of no other key, and under each key
is the value that came with it last. Each insertion gave back what was there just before it.
Collecting fields is inserting them one after the other, and the fields of a record make up that
record again. -/
theorem insertions_first_place_last_value (fields : List (String × Value)) :
    let run := Record.empty.inserting fields
    let record := run.1
    record.InStep ∧
    record.keys = (fields.map Prod.fst).eraseDups ∧
    (∀ key, record.get? key = fields.reverse.lookup key) ∧
    (∀ key, record.get? key = none ↔ key ∉ fields.map Prod.fst) ∧
    (∀ key, record.contains key = (record.get? key).isSome) ∧
    record.size = (fields.map Prod.fst).toFinset.card ∧
    run.2 = List.zipWith (fun earlier field => (Record.empty.inserting earlier).1.get? field.1)
      fields.inits fields ∧
    Record.ofList fields = record ∧
    (Record.ofList record.toList).toList = record.toList ∧
    ∀ key : String, (Record.ofList record.toList).index[key]? = record.index[key]? ∧
      (Record.ofList record.toList).get? key = record.get? key := by
  intro run record
  have hcollect : Record.ofList fields = record := (Record.empty.inserting_record fields).symm
  obtain ⟨hindexed, hstep⟩ := Record.Indexed.empty.inStep_inserting List.nodup_nil fields
  obtain ⟨hkeys, -, hget⟩ := Record.collects_ofList fields
  rw [hcollect] at hkeys hget
  obtain ⟨hagain, hsame⟩ := hstep.ofList_toList hindexed
  refine ⟨hstep, hkeys, hget, fun key => ?_, fun key => (hindexed.isSome_get? key).symm,
    hstep.size_eq_card hkeys, Record.empty.inserting_previous fields, hcollect, hagain, hsame⟩
  rw [hget, ← Option.not_isSome_iff_eq_none, Record.isSome_lookup_iff, List.map_reverse,
    List.mem_reverse]

end BytePack
