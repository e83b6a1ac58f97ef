import BytePack.Proofs.Lemmas.Run
import BytePack.Unpack

/-!
# What groups take

Numbers are read word by word, but a run of words is there exactly if their bytes are. So how many
bytes a group takes is plain arithmetic on how many are left: a counted group takes what its count
asks for, and a greedy one as much as there is, in whole words. A group fits if that many are left.
Groups that fit emit their fields one after the other; the first that does not fit ends the call
with its own error, whatever was read before.
-/

namespace BytePack

/-! ## Words -/

/-- The first `n` pieces of `width` bytes each. -/
def pieces (width : Nat) : Nat → List UInt8 → List (List UInt8)
  | 0, _ => []
  | n + 1, bytes => bytes.take width :: pieces width n (bytes.drop width)

@[simp] theorem length_pieces (width n : Nat) (bytes : List UInt8) :
    (pieces width n bytes).length = n := by
  induction n generalizing bytes with
  | zero => rfl
  | succ n ih => rw [pieces, List.length_cons, ih]

theorem pieces_take (width n : Nat) (bytes : List UInt8) :
    pieces width n (bytes.take (n * width)) = pieces width n bytes := by
  induction n generalizing bytes with
  | zero => rfl
  | succ n ih =>
      have hle : width ≤ (n + 1) * width := by rw [Nat.succ_mul]; omega
      have hsub : (n + 1) * width - width = n * width := by rw [Nat.succ_mul]; omega
      rw [pieces, pieces, List.take_take, Nat.min_eq_left hle, List.drop_take, hsub, ih]

theorem pieces_flatten {width : Nat} {words : List (List UInt8)}
    (h : ∀ word ∈ words, word.length = width) :
    pieces width words.length words.flatten = words := by
  induction words with
  | nil => rfl
  | cons word words ih =>
      obtain ⟨hword, hwords⟩ := List.forall_mem_cons.1 h
      rw [List.length_cons, pieces, List.flatten_cons, List.take_left' hword,
        List.drop_left' hword, ih hwords]

theorem pieces_eq_map (width n : Nat) (bytes : List UInt8) :
    pieces width n bytes = (List.range n).map fun i => (bytes.drop (i * width)).take width := by
  induction n generalizing bytes with
  | zero => rfl
  | succ n ih =>
      rw [pieces, ih, List.range_succ_eq_map, List.map_cons, List.map_map, Nat.zero_mul,
        List.drop_zero]
      congr 2
      funext i
      rw [List.drop_drop, Function.comp_apply, Nat.succ_mul, Nat.add_comm]

/-- Words are taken one by one, so a run that is too long for the bytes fails at the first word that
is not whole, with what is left there. -/
theorem Number.words_count_eq (format : Number) (symbol : Char) (n : Nat) (bytes : List UInt8) :
    format.words symbol (.count n) bytes =
      if n * format.width ≤ bytes.length then .ok (pieces format.width n bytes)
      else .error (.argument (.shortInput symbol format.width
        (bytes.length % format.width))) := by
  induction n generalizing bytes with
  | zero => simp [Number.words, pieces]
  | succ n ih =>
      rw [Number.words, pieces, List.length_take, Nat.succ_mul]
      by_cases hword : format.width ≤ bytes.length
      · simp only [Nat.min_eq_left hword, dite_true, ih, List.length_drop]
        have hmod : (bytes.length - format.width) % format.width = bytes.length % format.width :=
          (Nat.mod_eq_sub_mod hword).symm
        by_cases h : n * format.width ≤ bytes.length - format.width
        · rw [if_pos h, if_pos (by omega)]
        · rw [if_neg h, if_neg (by omega), hmod]
      · have hshort : ¬ min format.width bytes.length = format.width := by omega
        rw [dif_neg hshort, if_neg (by omega), Nat.mod_eq_of_lt (Nat.lt_of_not_le hword)]

/-- A greedy run takes the whole words that are there. -/
theorem Number.words_greedy (format : Number) (symbol : Char) (bytes : List UInt8) :
    format.words symbol .greedy bytes =
      .ok (pieces format.width (bytes.length / format.width) bytes) := by
  induction hlen : bytes.length using Nat.strongRecOn generalizing bytes with
  | ind len ih =>
      subst hlen
      have hpos := format.width_pos
      rw [Number.words, List.length_take]
      by_cases hword : format.width ≤ bytes.length
      · have hrest : (bytes.drop format.width).length < bytes.length := by
          rw [List.length_drop]
          omega
        have hdiv : bytes.length / format.width =
            (bytes.drop format.width).length / format.width + 1 := by
          rw [List.length_drop, Nat.div_eq_sub_div hpos hword]
        simp only [Nat.min_eq_left hword, dite_true, ih _ hrest _ rfl, hdiv, pieces]
      · have hshort : ¬ min format.width bytes.length = format.width := by omega
        rw [dif_neg hshort, Nat.div_eq_of_lt (Nat.lt_of_not_le hword), pieces]

theorem Reader.length_rest (r : Reader) : r.rest.length = r.remaining := List.length_drop

theorem Reader.field_eq (r : Reader) (symbol : Char) (size : Nat) :
    r.field symbol size =
      ⟨[], if size ≤ r.remaining then .ok (r.rest.take size)
        else .error (.argument (.shortInput symbol size r.remaining))⟩ := by
  unfold Reader.field
  by_cases h : size ≤ r.remaining
  · rw [if_neg (Nat.not_lt.2 h), if_pos h]
    rfl
  · rw [if_pos (Nat.lt_of_not_le h), if_neg h]
    rfl

/-! ## One group -/

/-- The count of a directive that moves the cursor. -/
def Directive.distance (d : Directive) : Nat :=
  match d.repetition with
  | .greedy => 1
  | .count n => n

/-- What is reported of a repeat that is ignored. -/
def Directive.ignoredReports (d : Directive) : List Diagnostic :=
  match d.repetition with
  | .greedy => [.greedyIgnored d.symbol]
  | .count _ => []

theorem Directive.seekCount_eq (d : Directive) :
    d.seekCount = ⟨d.ignoredReports, .ok d.distance⟩ := by
  unfold Directive.seekCount Directive.ignoredReports Directive.distance
  cases d.repetition <;> rfl

namespace Group

/-- The number of words that a group takes where some bytes are left. -/
def wordCount (g : Group) (width left : Nat) : Nat :=
  match g.directive.repetition with
  | .greedy => left / width
  | .count n => n

/-- The number of digits that a group shows where some bytes are left. -/
def digitCount (g : Group) (left : Nat) : Nat :=
  match g.directive.repetition with
  | .greedy => 2 * left
  | .count n => n

/-- The number of bytes that a group takes where some are left. -/
def room (g : Group) (left : Nat) : Nat :=
  match g.directive.layout, g.directive.repetition with
  | .text _, .count n => n
  | .text _, .greedy => left
  | .hex _, .count n => nibbleRoom n
  | .hex _, .greedy => left
  | .number format, _ => g.wordCount format.width left * format.width
  | .nulByte, _ => g.directive.distance
  | .backUp, _ => 0
  | .absolute, _ => 0

/-- Whether as many bytes are left as a group takes. -/
def Fits (g : Group) (left : Nat) : Prop := g.room left ≤ left

instance (g : Group) (left : Nat) : Decidable (g.Fits left) :=
  inferInstanceAs (Decidable (_ ≤ _))

/-- The error of a group that does not fit. Numbers are taken one by one, so they lack a word where
less than a word is left. -/
def shortage (g : Group) (left : Nat) : Error :=
  match g.directive.layout with
  | .number format =>
    .argument (.shortInput g.directive.symbol format.width (left % format.width))
  | _ => .argument (.shortInput g.directive.symbol (g.room left) left)

/-- Where the cursor goes in an input of `length` bytes. -/
def next (g : Group) (length pos : Nat) : Nat :=
  match g.directive.layout with
  | .backUp => pos - g.directive.distance
  | .absolute => if g.directive.distance ≤ length then g.directive.distance else pos
  | _ => pos + g.room (length - pos)

/-- What is reported of a group. -/
def reports (g : Group) (length pos : Nat) : List Diagnostic :=
  match g.directive.layout with
  | .nulByte => g.directive.ignoredReports
  | .backUp =>
    g.directive.ignoredReports ++
      if pos < g.directive.distance then [.outsideOfString g.directive.symbol] else []
  | .absolute =>
    g.directive.ignoredReports ++
      if length < g.directive.distance then [.outsideOfString g.directive.symbol] else []
  | _ => []

/-- The fields of a group that fits into the bytes that are left. The words of a number lie one
after the other. -/
def emits (g : Group) (bytes : List UInt8) : List (String × Value) :=
  match g.directive.layout with
  | .text padding =>
    [(fieldKey g.name 1 true, .bytes (padding.strip (bytes.take (g.room bytes.length))))]
  | .hex order =>
    [(fieldKey g.name 1 true, .bytes
      (renderNibbles (bytes.take (g.room bytes.length)) (g.digitCount bytes.length) order))]
  | .number format =>
    (List.range (g.wordCount format.width bytes.length)).map fun i =>
      (fieldKey g.name (i + 1) (g.directive.repetition == .count 1),
        format.decode ((bytes.drop (i * format.width)).take format.width))
  | _ => []

end Group

theorem numbered_singleton (name : String) (value : Value) :
    numbered name true [value] = [(fieldKey name 1 true, value)] := rfl

theorem numbered_map_range (name : String) (single : Bool) (k : Nat) (value : Nat → Value) :
    numbered name single ((List.range k).map value) =
      (List.range k).map fun i => (fieldKey name (i + 1) single, value i) := by
  apply List.ext_getElem
  · simp [numbered]
  · intro i _ _
    simp [numbered]

/-- The words of a group stand one after the other, or are as many as there are. -/
theorem Group.words_eq (g : Group) (format : Number) (bytes : List UInt8) :
    format.words g.directive.symbol g.directive.repetition bytes =
      if g.wordCount format.width bytes.length * format.width ≤ bytes.length then
        .ok ((List.range (g.wordCount format.width bytes.length)).map fun i =>
          (bytes.drop (i * format.width)).take format.width)
      else .error (.argument (.shortInput g.directive.symbol format.width
        (bytes.length % format.width))) := by
  unfold Group.wordCount
  rw [← pieces_eq_map]
  cases g.directive.repetition with
  | greedy => rw [format.words_greedy, if_pos (Nat.div_mul_le_self _ _)]
  | count n => exact format.words_count_eq _ n bytes

/-- A group reads its fields if it fits, and fails with its shortage if not. -/
theorem Group.read_eq (g : Group) (r : Reader) :
    g.read r = ⟨g.reports r.input.length r.pos,
      if g.Fits r.remaining then .ok ⟨g.emits r.rest, g.next r.input.length r.pos⟩
      else .error (g.shortage r.remaining)⟩ := by
  unfold Group.read Group.reports Group.Fits Group.emits Group.next Group.shortage Group.room
  simp only [Directive.seekCount_eq, Reader.field_eq, Group.words_eq, Reader.length_rest]
  cases hl : g.directive.layout with
  | text padding =>
      cases g.directive.repetition with
      | greedy => simp [numbered_singleton, Reader.remaining]
      | count n => by_cases h : n ≤ r.remaining <;> simp [numbered_singleton, h]
  | hex order =>
      unfold Group.digitCount
      cases g.directive.repetition with
      | greedy => simp [numbered_singleton, Reader.remaining, Nat.mul_comm]
      | count n => by_cases h : nibbleRoom n ≤ r.remaining <;> simp [numbered_singleton, h]
  | number format =>
      by_cases h : g.wordCount format.width r.remaining * format.width ≤ r.remaining
      · simp only [if_pos h, List.map_map, numbered_map_range, List.length_map, List.length_range]
        rfl
      · simp only [if_neg h]
        rfl
  | nulByte => by_cases h : g.directive.distance ≤ r.remaining <;> simp [h]
  | backUp =>
      by_cases h : g.directive.distance ≤ r.pos
      · simp [h, Nat.not_lt.2 h]
      · have hzero : r.pos - g.directive.distance = 0 := by omega
        simp [h, Nat.lt_of_not_le h, hzero]
  | absolute =>
      by_cases h : g.directive.distance ≤ r.input.length
      · simp [h, Nat.not_lt.2 h]
      · simp [h, Nat.lt_of_not_le h]

/-- A group that fits keeps the cursor within the input. -/
theorem Group.Fits.next_le {g : Group} {length pos : Nat} (h : g.Fits (length - pos))
    (hpos : pos ≤ length) : g.next length pos ≤ length := by
  have htaken : pos + g.room (length - pos) ≤ length := by
    unfold Group.Fits at h
    omega
  unfold Group.next
  split
  · omega
  · split <;> omega
  · exact htaken

/-! ## Some groups -/

/-- Where the cursor stands after some groups that fit into an input of `length` bytes. -/
def cursorAfter (length : Nat) : Nat → List Group → Nat
  | pos, [] => pos
  | pos, g :: groups => cursorAfter length (g.next length pos) groups

/-- Whether each of some groups fits where it stands. -/
def AllFit (length : Nat) : Nat → List Group → Prop
  | _, [] => True
  | pos, g :: groups => g.Fits (length - pos) ∧ AllFit length (g.next length pos) groups

instance decidableAllFit (length : Nat) :
    (pos : Nat) → (groups : List Group) → Decidable (AllFit length pos groups)
  | _, [] => isTrue trivial
  | pos, g :: groups =>
    have := decidableAllFit length (g.next length pos) groups
    inferInstanceAs (Decidable (_ ∧ _))

/-- The fields of some groups that fit, in order. -/
def emitted (input : List UInt8) : Nat → List Group → List (String × Value)
  | _, [] => []
  | pos, g :: groups =>
    g.emits (input.drop pos) ++ emitted input (g.next input.length pos) groups

/-- What is reported of some groups, in order. -/
def reported (length : Nat) : Nat → List Group → List Diagnostic
  | _, [] => []
  | pos, g :: groups => g.reports length pos ++ reported length (g.next length pos) groups

/-- Whether `g` is the first of some groups that does not fit, with the groups `before` it. -/
structure FirstMisfit (length pos : Nat) (groups before : List Group) (g : Group) : Prop where
  stands : before ++ [g] <+: groups
  before_fit : AllFit length pos before
  misfit : ¬ g.Fits (length - cursorAfter length pos before)

theorem readFields_of_allFit {input : List UInt8} {pos : Nat} {groups : List Group}
    (h : AllFit input.length pos groups) :
    readFields ⟨input, pos⟩ groups =
      ⟨reported input.length pos groups, .ok (emitted input pos groups)⟩ := by
  induction groups generalizing pos with
  | nil => rfl
  | cons g groups ih =>
      obtain ⟨hfit, hrest⟩ := h
      rw [readFields, Group.read_eq, Reader.remaining, if_pos hfit, Reported.bind_ok, ih hrest,
        Reported.bind_ok, Reported.pure_eq, List.append_nil]
      rfl

theorem FirstMisfit.readFields_eq {input : List UInt8} {pos : Nat} {groups before : List Group}
    {g : Group} (h : FirstMisfit input.length pos groups before g) :
    readFields ⟨input, pos⟩ groups =
      ⟨reported input.length pos (before ++ [g]),
        .error (g.shortage (input.length - cursorAfter input.length pos before))⟩ := by
  obtain ⟨⟨after, rfl⟩, hbefore, hmisfit⟩ := h
  rw [List.append_assoc, List.singleton_append]
  induction before generalizing pos with
  | nil =>
      change ¬ g.Fits (input.length - pos) at hmisfit
      rw [List.nil_append, readFields, Group.read_eq, Reader.remaining, if_neg hmisfit,
        Reported.bind_error]
      simp [reported, cursorAfter]
  | cons b before ih =>
      obtain ⟨hfit, hbefore⟩ := hbefore
      rw [List.cons_append, readFields, Group.read_eq, Reader.remaining, if_pos hfit,
        Reported.bind_ok, ih hbefore hmisfit]
      rfl

/-- Groups that do not all fit have a first one that does not. -/
theorem exists_firstMisfit {length pos : Nat} {groups : List Group}
    (h : ¬ AllFit length pos groups) : ∃ before g, FirstMisfit length pos groups before g := by
  induction groups generalizing pos with
  | nil => exact absurd trivial h
  | cons g groups ih =>
      by_cases hfit : g.Fits (length - pos)
      · have hrest : ¬ AllFit length (g.next length pos) groups := fun hrest => h ⟨hfit, hrest⟩
        obtain ⟨before, b, hstands, hbefore, hmisfit⟩ := ih hrest
        exact ⟨g :: before, b, List.cons_prefix_cons.2 ⟨rfl, hstands⟩, ⟨hfit, hbefore⟩, hmisfit⟩
      · exact ⟨[], g, ⟨groups, rfl⟩, trivial, hfit⟩

end BytePack
