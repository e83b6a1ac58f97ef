import BytePack.Proofs.Lemmas.Delimiting
import BytePack.Proofs.Lemmas.Records

/-!
# Records and their JSON texts

The JSON text of a record carries no tags, yet for integers and bytes it loses nothing: an integer is
no array, an array shows how many bytes it has, and a key ends at its own quote, whatever characters
it has. So two records of such values with the same text have the same fields in the same order, and
answer every look-up alike.
-/

namespace BytePack

namespace Record

/-- The records that insertions make. -/
inductive Reachable : Record → Prop where
  | empty : Reachable empty
  | insert {r : Record} (h : Reachable r) (key : String) (value : Value) :
      Reachable (r.insert key value).1

theorem Reachable.indexed {r : Record} (h : r.Reachable) : r.Indexed := by
  induction h with
  | empty => exact Indexed.empty
  | insert _ key value ih => exact ih.insert key value

theorem reachable_ofList (fields : List (String × Value)) : (ofList fields).Reachable := by
  induction fields using List.reverseRecOn with
  | nil => exact .empty
  | append_singleton fields field ih =>
      rw [ofList, List.foldl_append]
      exact .insert ih field.1 field.2

/-! ## Equality -/

theorem sameAs_of_isExact {v : Value} (h : v.IsExact) : v.sameAs v = true := by
  cases v with
  | float x => exact absurd h id
  | bytes b => exact beq_self_eq_true b
  | int n => exact beq_self_eq_true n

theorem sameFields_of_isExact {fields : List (String × Value)}
    (h : ∀ field ∈ fields, field.2.IsExact) : sameFields fields fields = true := by
  induction fields with
  | nil => rfl
  | cons field fields ih =>
      obtain ⟨hfirst, hrest⟩ := List.forall_mem_cons.1 h
      simp [sameFields, sameAs_of_isExact hfirst, ih hrest]

theorem toList_eq_of_text {writer : Json.Writer} (documented : writer.Documented) {r s : Record}
    (hr : ∀ field ∈ r.toList, field.2.IsExact) (hs : ∀ field ∈ s.toList, field.2.IsExact)
    (h : writer.text r = writer.text s) : r.toList = s.toList := by
  have hchars : writer.record r = writer.record s := String.ofList_inj.1 h
  have hempty : DigitFree [] := fun _ hc => by cases hc
  have hfields := (List.cons.inj hchars).2
  exact (delimited_record documented hr hs hempty hempty (congrArg (· ++ []) hfields)).1

end Record

/-- Two records that insertions made, of integers and bytes only and with the same JSON text, have
the same fields in the same order. They are equal, and every look-up gives the same for both. -/
theorem record_text_determines_record {writer : Json.Writer} (documented : writer.Documented)
    {r s : Record} (hr : r.Reachable) (hs : s.Reachable)
    (hexact : ∀ field ∈ r.toList, field.2.IsExact) (hexact' : ∀ field ∈ s.toList, field.2.IsExact)
    (h : writer.text r = writer.text s) :
    r.toList = s.toList ∧ r.sameAs s = true ∧
      ∀ key : String, r.get? key = s.get? key ∧ r.index[key]? = s.index[key]? := by
  have hlist := Record.toList_eq_of_text documented hexact hexact' h
  refine ⟨hlist, ?_, fun key => ⟨?_, ?_⟩⟩
  · rw [Record.sameAs, ← hlist]
    exact Record.sameFields_of_isExact hexact
  · rw [hr.indexed.get?_eq, hs.indexed.get?_eq, hlist]
  · rw [hr.indexed key, hs.indexed key, Record.keys, Record.keys, hlist]

/-- A key with a quote, a backslash and a control character, set twice in one of the records. -/
theorem record_text_determines_record_quoted :
    let r := Record.ofList [("\"\\\n,", .int 1), ("\"\\\n,", .bytes []), ("2", .int (-5))]
    let s := Record.ofList [("\"\\\n,", .bytes []), ("2", .int (-5))]
    r.toJson = s.toJson ∧ r.toList = s.toList ∧ r.get? "2" = s.get? "2" := by
  intro r s
  have hr : r.toList = [("\"\\\n,", .bytes []), ("2", .int (-5))] :=
    (Record.Indexed.empty.foldl_insert _).2
  have hs : s.toList = [("\"\\\n,", .bytes []), ("2", .int (-5))] :=
    (Record.Indexed.empty.foldl_insert _).2
  have htext : Json.compact.text r = Json.compact.text s := by
    rw [Json.Writer.text, Json.Writer.text, Json.Writer.record, Json.Writer.record, hr, hs]
  obtain ⟨hlist, -, hget⟩ := record_text_determines_record documented_compact
    (Record.reachable_ofList _) (Record.reachable_ofList _) (by rw [hr]; decide)
    (by rw [hs]; decide) htext
  exact ⟨htext, hlist, (hget "2").1⟩

end BytePack
