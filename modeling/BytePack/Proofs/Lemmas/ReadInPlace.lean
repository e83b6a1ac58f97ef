import BytePack.Proofs.Lemmas.Fields
import BytePack.Proofs.Lemmas.InPlace
import BytePack.Proofs.Lemmas.Printing
import BytePack.Proofs.Lemmas.Taking

/-!
# Reading in place

A reader can move through its input step by step: cut one field out of the input, decode it from
single bytes, put it into the record and go on, number after number. Here every cut and every access
checks its bounds, every sum and product checks that it is a 64-bit number, and a loop has fuel;
nothing is left of a run that fails one check or lacks fuel. The cursors on the way are kept. None
of them is past the end of the input, no check fails, and the run comes to what reading the groups
at once comes to.
-/

namespace BytePack

/-! ## Checked accesses -/

/-- The number of bytes from the cursor on, unless the cursor is past them. -/
def Reader.remaining? (r : Reader) : Option Nat :=
  if r.pos ≤ r.input.length then some (r.input.length - r.pos) else none

/-- A byte shifted to the right by less than its width. -/
def shiftRight? (b : UInt8) (shift : Nat) : Option UInt8 :=
  if shift < 8 then some (b >>> UInt8.ofNat shift) else none

/-- The position of the last byte with a property. -/
def lastIdx? (p : UInt8 → Bool) (bytes : List UInt8) : Option Nat :=
  (bytes.reverse.findIdx? p).map fun i => bytes.length - 1 - i

/-- The text in a field, cut out of it. -/
def Padding.strip? : Padding → List UInt8 → Option (List UInt8)
  | .nul, field => some field
  | .space, field =>
    slice? field 0 (match lastIdx? (fun b => !isPadding b) field with
      | some last => last + 1
      | none => 0)
  | .terminated, field => slice? field 0 ((field.findIdx? (· == 0)).getD field.length)

/-- Digits of a field from the one with number `i` on. -/
def renderDigits (field : List UInt8) : (count i shift : Nat) → Option (List UInt8)
  | 0, _, _ => some []
  | count + 1, i, shift => do
    let b ← field[i / 2]?
    let half ← shiftRight? b shift
    let digits ← renderDigits field count (i + 1) ((shift + 4) &&& 7)
    some (hexDigit (half &&& 0x0F) :: digits)

/-- Bytes put into an image, each at its place. -/
def placeBytes : List (UInt8 × Nat) → List UInt8 → Option (List UInt8)
  | [], bytes => some bytes
  | (b, i) :: entries, bytes =>
    if i < bytes.length then placeBytes entries (bytes.set i b) else none

/-- The integer of a word, whose sign is extended by shifts of less than 64 bits. -/
def readInteger? (stored : List UInt8) (width : Width) (order : ByteOrder) (signed : Bool) :
    Option Int64 := do
  let bytes ← placeBytes (stored.zip (byteMap width order)) (List.replicate 8 0)
  let raw := UInt64.ofNat (ofDigits bytes)
  let spare ← if 8 * width.bytes ≤ 64 then some (64 - 8 * width.bytes) else none
  if signed && 0 < spare then
    if spare < 64 then some ((raw <<< UInt64.ofNat spare).toInt64 >>> Int64.ofNat spare) else none
  else some raw.toInt64

/-- The value of a number in a field. -/
def Number.decode? (number : Number) (field : List UInt8) : Option Value :=
  match number with
  | .integer width order signed => (readInteger? field width order signed).map .int
  | .single order => (slice? field 0 4).map fun word => .float (Single.ofBytes word order).widen
  | .double order => (slice? field 0 8).map fun word => .float (Double.ofBytes word order)

/-! ## Groups -/

/-- The way of a reader: where it went, and what it came to with the record it filled. -/
structure Passage where
  trail : List Reader
  result : Reported (Reader × Record)

/-- The way of a reader that goes to a place. -/
def Passage.to (r : Reader) (reports : List Diagnostic) (record : Record) : Passage :=
  ⟨[r], ⟨reports, .ok (r, record)⟩⟩

/-- Whether a repeat is through after `i` repetitions. -/
def Repeat.reached : Repeat → Nat → Bool
  | .count n, i => n ≤ i
  | .greedy, _ => false

/-- The numbers of a group from the one with number `i` on. -/
def Group.readNumbers (g : Group) (number : Number) :
    (fuel i : Nat) → Reader → Record → Option Passage
  | 0, _, _, _ => none
  | fuel + 1, i, r, record =>
    if g.directive.repetition.reached i then some ⟨[], .done (r, record)⟩
    else do
      let left ← r.remaining?
      if left < number.width then
        some ⟨[], if g.directive.repetition.isGreedy then .done (r, record)
          else .fail (.argument (.shortInput g.directive.symbol number.width left))⟩
      else
        let stop ← size? (r.pos + number.width)
        let field ← slice? r.input r.pos stop
        let index ← size? (i + 1)
        let value ← number.decode? field
        let next : Reader := ⟨r.input, stop⟩
        let passage ← g.readNumbers number fuel index next
          (record.insert (fieldKey g.name index (g.directive.repetition == .count 1)) value).1
        some { passage with trail := next :: passage.trail }

/-- One field of `size` bytes that is shown in some way. -/
def Group.readText (g : Group) (r : Reader) (record : Record) (size : Nat)
    (shown : List UInt8 → Option (List UInt8)) : Option Passage := do
  let left ← r.remaining?
  if left < size then
    some ⟨[], .fail (.argument (.shortInput g.directive.symbol size left))⟩
  else
    let stop ← size? (r.pos + size)
    let field ← slice? r.input r.pos stop
    let text ← shown field
    some (.to ⟨r.input, stop⟩ [] (record.insert (fieldKey g.name 1 true) (.bytes text)).1)

/-- The way of a reader through a group. -/
def Group.readInPlace (g : Group) (r : Reader) (record : Record) : Option Passage :=
  let d := g.directive
  match d.layout with
  | .text padding => do
    let size ← match d.repetition with
      | .greedy => r.remaining?
      | .count n => some n
    g.readText r record size padding.strip?
  | .hex order => do
    let size ← match d.repetition with
      | .greedy => r.remaining?
      | .count n => size? (n / 2 + n % 2)
    g.readText r record size fun field => do
      let nibbles ← match d.repetition with
        | .greedy => size? (size * 2)
        | .count n => some n
      renderDigits field nibbles 0 order.firstShift
  | .number number => g.readNumbers number (r.input.length + 1) 0 r record
  | .nulByte => do
    let left ← r.remaining?
    if left < d.distance then
      some ⟨[], ⟨d.ignoredReports, .error (.argument (.shortInput d.symbol d.distance left))⟩⟩
    else
      let stop ← size? (r.pos + d.distance)
      some (.to ⟨r.input, stop⟩ d.ignoredReports record)
  | .backUp =>
    if d.distance ≤ r.pos then some (.to ⟨r.input, r.pos - d.distance⟩ d.ignoredReports record)
    else some (.to ⟨r.input, 0⟩ (d.ignoredReports ++ [.outsideOfString d.symbol]) record)
  | .absolute =>
    if d.distance ≤ r.input.length then some (.to ⟨r.input, d.distance⟩ d.ignoredReports record)
    else some ⟨[], ⟨d.ignoredReports ++ [.outsideOfString d.symbol], .ok (r, record)⟩⟩

/-- The way of a reader through some groups. -/
def readGroupsInPlace : List Group → Reader → Record → Option Passage
  | [], r, record => some ⟨[], .done (r, record)⟩
  | g :: groups, r, record => do
    let passage ← g.readInPlace r record
    match passage.result.outcome with
    | .error e => some ⟨passage.trail, ⟨passage.result.diagnostics, .error e⟩⟩
    | .ok (next, record) => do
      let onward ← readGroupsInPlace groups next record
      some ⟨passage.trail ++ onward.trail,
        ⟨passage.result.diagnostics ++ onward.result.diagnostics, onward.result.outcome⟩⟩

/-- The cursors of an unpack call, and what it comes to. -/
def unpackInPlace (groups : List Group) (input : List UInt8) (offset : Nat) :
    Option (List Reader × Reported Record) :=
  if input.length < offset then some ([], .fail (.range offset input.length))
  else do
    let slice ← slice? input offset input.length
    let passage ← readGroupsInPlace groups ⟨slice, 0⟩ .empty
    some (⟨slice, 0⟩ :: passage.trail, do
      let (_, record) ← passage.result
      pure record)

/-! ## Texts -/

theorem slice?_take {bytes : List UInt8} {n : Nat} (h : n ≤ bytes.length) :
    slice? bytes 0 n = some (bytes.take n) := by
  rw [slice?_eq bytes (Nat.zero_le n) h, List.drop_zero]

theorem slice?_of_length {bytes : List UInt8} {n : Nat} (h : bytes.length = n) :
    slice? bytes 0 n = some bytes := by
  rw [slice?_take (Nat.le_of_eq h.symm), List.take_of_length_le (Nat.le_of_eq h)]

theorem lastIdx?_eq (p : UInt8 → Bool) (bytes : List UInt8) :
    (match lastIdx? p bytes with
      | some last => last + 1
      | none => 0) = bytes.length - bytes.reverse.findIdx p := by
  unfold lastIdx?
  cases hlast : bytes.reverse.findIdx? p with
  | none =>
      rw [List.findIdx?_eq_none_iff_findIdx_eq, List.length_reverse] at hlast
      rw [hlast, Nat.sub_self]
      rfl
  | some i =>
      obtain ⟨hi, hfirst⟩ := List.findIdx?_eq_some_iff_findIdx_eq.1 hlast
      rw [List.length_reverse] at hi
      rw [hfirst]
      change bytes.length - 1 - i + 1 = bytes.length - i
      omega

theorem Padding.strip?_eq (padding : Padding) (field : List UInt8) :
    padding.strip? field = some (padding.strip field) := by
  cases padding with
  | nul => rfl
  | space =>
      simp only [Padding.strip?, Padding.strip]
      rw [lastIdx?_eq, slice?_take (Nat.sub_le _ _), List.dropWhile_eq_drop_findIdx_not,
        List.drop_reverse, List.reverse_reverse]
  | terminated =>
      simp only [Padding.strip?, Padding.strip]
      rw [← List.findIdx_eq_getD_findIdx?, slice?_take List.findIdx_le_length,
        List.takeWhile_eq_take_findIdx_not]
      simp [bne]

/-! ## Digits -/

/-- The amount by which a byte is shifted for the digit with number `i`. -/
def NibbleOrder.shiftAt (order : NibbleOrder) (i : Nat) : Nat :=
  if i % 2 = 0 then order.firstShift else (order.firstShift + 4) &&& 7

theorem NibbleOrder.shiftAt_lt (order : NibbleOrder) (i : Nat) : order.shiftAt i < 8 := by
  unfold NibbleOrder.shiftAt
  split <;> cases order <;> decide

theorem NibbleOrder.shiftAt_succ (order : NibbleOrder) (i : Nat) :
    order.shiftAt (i + 1) = (order.shiftAt i + 4) &&& 7 := by
  unfold NibbleOrder.shiftAt
  rcases Nat.mod_two_eq_zero_or_one i with h | h
  · rw [if_neg (by omega), if_pos h]
  · rw [if_pos (by omega), if_neg (by omega)]
    cases order <;> rfl

theorem NibbleOrder.halves_eq (order : NibbleOrder) (b : UInt8) :
    order.halves b = [b >>> UInt8.ofNat order.firstShift &&& 0x0F,
      b >>> UInt8.ofNat ((order.firstShift + 4) &&& 7) &&& 0x0F] :=
  forall_byte (P := fun b => order.halves b = [b >>> UInt8.ofNat order.firstShift &&& 0x0F,
    b >>> UInt8.ofNat ((order.firstShift + 4) &&& 7) &&& 0x0F])
    (by cases order <;> decide +kernel) b

theorem getElem?_flatMap_halves (order : NibbleOrder) (bytes : List UInt8) (i : Nat) :
    (bytes.flatMap order.halves)[i]? =
      bytes[i / 2]?.map fun b => b >>> UInt8.ofNat (order.shiftAt i) &&& 0x0F := by
  induction bytes generalizing i with
  | nil => simp
  | cons b bytes ih =>
      rw [List.flatMap_cons, order.halves_eq]
      match i with
      | 0 => rfl
      | 1 => rfl
      | i + 2 =>
          have hdiv : (i + 2) / 2 = i / 2 + 1 := by omega
          have hshift : order.shiftAt (i + 2) = order.shiftAt i := by
            simp [NibbleOrder.shiftAt]
          simp only [List.cons_append, List.nil_append, List.getElem?_cons_succ, hdiv, hshift, ih]

/-- A digit is shown for each half of the bytes in the field, from any half on. -/
theorem renderDigits_eq (order : NibbleOrder) {field : List UInt8} {n i : Nat}
    (h : i + n ≤ 2 * field.length) :
    renderDigits field n i (order.shiftAt i) =
      some ((((field.flatMap order.halves).drop i).take n).map hexDigit) := by
  induction n generalizing i with
  | zero => rfl
  | succ n ih =>
      have hi : i / 2 < field.length := by omega
      have hhalf : i < (field.flatMap order.halves).length := by
        rw [length_flatMap_halves]
        omega
      have hget := getElem?_flatMap_halves order field i
      rw [List.getElem?_eq_getElem hhalf, List.getElem?_eq_getElem hi] at hget
      have hrest := ih (i := i + 1) (by omega)
      rw [order.shiftAt_succ] at hrest
      rw [List.drop_eq_getElem_cons hhalf, List.take_succ_cons, List.map_cons,
        Option.some.inj hget]
      simp only [renderDigits, List.getElem?_eq_getElem hi, shiftRight?,
        if_pos (order.shiftAt_lt i), hrest, Option.bind_eq_bind, Option.bind_some]

theorem renderDigits_first (order : NibbleOrder) (field : List UInt8) (n : Nat)
    (h : n ≤ 2 * field.length) :
    renderDigits field n 0 order.firstShift = some (renderNibbles field n order) :=
  renderDigits_eq order (i := 0) (by omega)

/-! ## Numbers -/

theorem placeBytes_eq {entries : List (UInt8 × Nat)} {bytes : List UInt8}
    (h : ∀ entry ∈ entries, entry.2 < bytes.length) :
    placeBytes entries bytes =
      some (entries.foldl (fun bytes entry => bytes.set entry.2 entry.1) bytes) := by
  induction entries generalizing bytes with
  | nil => rfl
  | cons entry entries ih =>
      obtain ⟨hfirst, hrest⟩ := List.forall_mem_cons.1 h
      rw [placeBytes, if_pos hfirst, ih (by simpa only [List.length_set] using hrest)]
      rfl

theorem readInteger?_eq (stored : List UInt8) (width : Width) (order : ByteOrder)
    (signed : Bool) :
    readInteger? stored width order signed = some (readInteger stored width order signed) := by
  have hplaces : ∀ entry ∈ stored.zip (byteMap width order),
      entry.2 < (List.replicate 8 (0 : UInt8)).length := by
    intro entry hentry
    have hplace := lt_of_mem_byteMap (List.of_mem_zip hentry).2
    exact Nat.lt_of_lt_of_le hplace width.bytes_le
  have hspare : 64 - 8 * width.bytes < 64 := by
    have := width.bytes_pos
    omega
  have hbits : 8 * width.bytes ≤ 64 := by
    have := width.bytes_le
    omega
  simp only [readInteger?, readInteger, placed, placeBytes_eq hplaces, if_pos hbits,
    if_pos hspare, Option.bind_eq_bind, Option.bind_some]
  split <;> rfl

theorem Number.decode?_eq {number : Number} {field : List UInt8}
    (h : field.length = number.width) : number.decode? field = some (number.decode field) := by
  cases number with
  | integer width order signed => simp only [decode?, decode, readInteger?_eq, Option.map_some]
  | single order =>
      have hword : slice? field 0 4 = some field := slice?_of_length h
      simp only [decode?, decode, hword, Option.map_some]
  | double order =>
      have hword : slice? field 0 8 = some field := slice?_of_length h
      simp only [decode?, decode, hword, Option.map_some]

/-- The fields of some values, counted from `i + 1`. -/
def numberedFrom (name : String) (single : Bool) (i : Nat) (values : List Value) :
    List (String × Value) :=
  (values.zipIdx i).map fun (value, i) => (fieldKey name (i + 1) single, value)

/-- A record with some more fields. -/
def Record.insertAll (record : Record) (fields : List (String × Value)) : Record :=
  fields.foldl (fun r field => (r.insert field.1 field.2).1) record

/-- A repeat without its first `i` repetitions. -/
def Repeat.after : Repeat → Nat → Repeat
  | .count n, i => .count (n - i)
  | .greedy, _ => .greedy

theorem Repeat.after_zero (repetition : Repeat) : repetition.after 0 = repetition := by
  cases repetition <;> rfl

/-- Whether a reader is on an input and not past it. -/
structure Reader.Within (r : Reader) (input : List UInt8) : Prop where
  input_eq : r.input = input
  pos_le : r.pos ≤ input.length

theorem remaining?_eq {input : List UInt8} {pos : Nat} (h : pos ≤ input.length) :
    (Reader.mk input pos).remaining? = some (input.length - pos) := if_pos h

theorem slice?_field {input : List UInt8} {pos n : Nat} (h : pos + n ≤ input.length) :
    slice? input pos (pos + n) = some ((input.drop pos).take n) := by
  rw [slice?_eq input (Nat.le_add_right pos n) h, List.drop_take, Nat.add_sub_cancel_left]

theorem Number.words_reached {number : Number} {symbol : Char} {repetition : Repeat} {i : Nat}
    (h : repetition.reached i = true) (bytes : List UInt8) :
    number.words symbol (repetition.after i) bytes = .ok [] := by
  cases repetition with
  | greedy => cases h
  | count n =>
      have hzero : n - i = 0 := Nat.sub_eq_zero_of_le (of_decide_eq_true h)
      rw [Repeat.after, hzero, Number.words]

theorem Number.words_next {number : Number} {symbol : Char} {repetition : Repeat} {i : Nat}
    (h : repetition.reached i = false) (bytes : List UInt8) :
    number.words symbol (repetition.after i) bytes =
      if number.width ≤ bytes.length then
        match number.words symbol (repetition.after (i + 1)) (bytes.drop number.width) with
        | .error e => .error e
        | .ok words => .ok (bytes.take number.width :: words)
      else if repetition.isGreedy then .ok []
      else .error (.argument (.shortInput symbol number.width bytes.length)) := by
  have hwhole : (bytes.take number.width).length = number.width ↔
      number.width ≤ bytes.length := by
    rw [List.length_take]
    omega
  cases repetition with
  | greedy =>
      simp only [Repeat.after, Repeat.isGreedy, if_true]
      rw [Number.words, dite_eq_ite]
      exact if_congr hwhole rfl rfl
  | count n =>
      have hlt : i < n := Nat.lt_of_not_le (of_decide_eq_false h)
      obtain ⟨m, hm⟩ : ∃ m, n - i = m + 1 := ⟨n - i - 1, by omega⟩
      have hnext : n - (i + 1) = m := by omega
      simp only [Repeat.after, Repeat.isGreedy, hm, hnext, Bool.false_eq_true, if_false]
      rw [Number.words, dite_eq_ite]
      exact if_congr hwhole rfl rfl

/-- The loop ends, and comes to what the words that are left come to. -/
theorem Group.readNumbers_eq (g : Group) (number : Number) {input : List UInt8}
    (hlen : input.length ≤ maxPosition) (fuel : Nat) {i pos : Nat} (hpos : pos ≤ input.length)
    (hi : i ≤ pos) (hfuel : input.length - pos < fuel) (record : Record) :
    ∃ trail, g.readNumbers number fuel i ⟨input, pos⟩ record = some ⟨trail,
        match number.words g.directive.symbol (g.directive.repetition.after i)
            (input.drop pos) with
        | .error e => .fail e
        | .ok words => .done (⟨input, pos + words.length * number.width⟩,
            record.insertAll (numberedFrom g.name (g.directive.repetition == .count 1) i
              (words.map number.decode)))⟩ ∧
      ∀ s ∈ trail, s.Within input := by
  have hwidth := number.width_pos
  induction fuel generalizing i pos record with
  | zero => cases hfuel
  | succ fuel ih =>
      unfold Group.readNumbers
      cases hreached : g.directive.repetition.reached i with
      | true =>
          rw [Number.words_reached hreached]
          exact ⟨[], by simp [Record.insertAll, numberedFrom], by simp⟩
      | false =>
          rw [Number.words_next hreached, remaining?_eq hpos, List.length_drop]
          simp only [Bool.false_eq_true, if_false, Option.bind_eq_bind, Option.bind_some]
          by_cases hleft : number.width ≤ input.length - pos
          · have hend : pos + number.width ≤ input.length := by omega
            have hword : ((input.drop pos).take number.width).length = number.width := by
              rw [List.length_take, List.length_drop, Nat.min_eq_left hleft]
            obtain ⟨trail, hrest, htrail⟩ := ih hend (i := i + 1) (by omega) (by omega)
              (record.insert (fieldKey g.name (i + 1) (g.directive.repetition == .count 1))
                (number.decode ((input.drop pos).take number.width))).1
            rw [if_neg (Nat.not_lt.2 hleft), if_pos hleft, List.drop_drop]
            simp only [size?_eq (Nat.le_trans hend hlen),
              size?_eq (show i + 1 ≤ maxPosition by omega), slice?_field hend,
              Number.decode?_eq hword, hrest, Option.bind_some]
            refine ⟨⟨input, pos + number.width⟩ :: trail, ?_,
              List.forall_mem_cons.2 ⟨⟨rfl, hend⟩, htrail⟩⟩
            cases number.words g.directive.symbol (g.directive.repetition.after (i + 1))
                (input.drop (pos + number.width)) with
            | error e => rfl
            | ok words =>
                have hstep : pos + number.width + words.length * number.width =
                    pos + (words.length + 1) * number.width := by
                  rw [Nat.succ_mul]
                  omega
                simp only [hstep, List.length_cons]
                rfl
          · rw [if_pos (Nat.lt_of_not_le hleft), if_neg hleft]
            refine ⟨[], ?_, by simp⟩
            cases g.directive.repetition.isGreedy <;> simp [Record.insertAll, numberedFrom]

/-! ## Groups through the input -/

theorem Group.readText_eq (g : Group) {input : List UInt8} (hlen : input.length ≤ maxPosition)
    {pos : Nat} (hpos : pos ≤ input.length) (record : Record) (size : Nat)
    (shown : List UInt8 → Option (List UInt8)) {text : List UInt8}
    (hshown : size ≤ input.length - pos → shown ((input.drop pos).take size) = some text) :
    ∃ trail, g.readText ⟨input, pos⟩ record size shown = some ⟨trail, ⟨[],
        if size ≤ input.length - pos then
          .ok (⟨input, pos + size⟩, record.insertAll [(fieldKey g.name 1 true, .bytes text)])
        else .error (.argument (.shortInput g.directive.symbol size (input.length - pos)))⟩⟩ ∧
      ∀ s ∈ trail, s.Within input := by
  unfold Group.readText
  simp only [remaining?_eq hpos, Option.bind_eq_bind, Option.bind_some]
  by_cases hsize : size ≤ input.length - pos
  · have hend : pos + size ≤ input.length := by omega
    simp only [if_neg (Nat.not_lt.2 hsize), if_pos hsize, size?_eq (Nat.le_trans hend hlen),
      slice?_field hend, hshown hsize, Option.bind_some]
    exact ⟨[⟨input, pos + size⟩], rfl, List.forall_mem_singleton.2 ⟨rfl, hend⟩⟩
  · simp only [if_pos (Nat.lt_of_not_le hsize), if_neg hsize]
    exact ⟨[], rfl, by simp⟩

/-- A group moves through the input without a failing check, and comes to what it reads at once. -/
theorem Group.readInPlace_eq {g : Group} (hg : g.directive.repetition.Writable)
    {input : List UInt8} (hlen : input.length ≤ maxPosition) {pos : Nat}
    (hpos : pos ≤ input.length) (record : Record) :
    ∃ trail, g.readInPlace ⟨input, pos⟩ record = some ⟨trail, ⟨g.reports input.length pos,
        if g.Fits (input.length - pos) then
          .ok (⟨input, g.next input.length pos⟩, record.insertAll (g.emits (input.drop pos)))
        else .error (g.shortage (input.length - pos))⟩⟩ ∧
      ∀ s ∈ trail, s.Within input := by
  have hrest : (input.drop pos).length = input.length - pos := List.length_drop
  unfold Group.readInPlace
  cases hl : g.directive.layout with
  | text padding =>
      have hread (size : Nat) := g.readText_eq hlen hpos record size padding.strip?
        fun _ => padding.strip?_eq ((input.drop pos).take size)
      cases hr : g.directive.repetition with
      | greedy =>
          simpa [Group.reports, Group.Fits, Group.room, Group.next, Group.emits, Group.shortage, hl,
            hr, remaining?_eq hpos] using hread (input.length - pos)
      | count n =>
          simpa [Group.reports, Group.Fits, Group.room, Group.next, Group.emits, Group.shortage, hl,
            hr] using hread n
  | hex order =>
      have hread (size nibbles : Nat) (hnibbles : nibbles ≤ 2 * size) :=
        g.readText_eq hlen hpos record size
          (fun field => renderDigits field nibbles 0 order.firstShift) fun hsize =>
            renderDigits_first order ((input.drop pos).take size) nibbles
              (by rw [List.length_take, hrest, Nat.min_eq_left hsize]; exact hnibbles)
      cases hr : g.directive.repetition with
      | greedy =>
          have hmax : 2 * maxPosition < UInt64.size := by decide
          have hdouble : size? ((input.length - pos) * 2) = some ((input.length - pos) * 2) :=
            if_pos (by omega)
          simpa [Group.reports, Group.Fits, Group.room, Group.next, Group.emits, Group.shortage, hl,
            hr, remaining?_eq hpos, Group.digitCount, hdouble, Nat.mul_comm] using
              hread (input.length - pos) ((input.length - pos) * 2) (by omega)
      | count n =>
          rw [hr] at hg
          simpa [Group.reports, Group.Fits, Group.room, Group.next, Group.emits, Group.shortage, hl,
            hr, Group.digitCount, size?_nibbleRoom hg] using
              hread (nibbleRoom n) n (by unfold nibbleRoom; omega)
  | number number =>
      obtain ⟨trail, hread, htrail⟩ := g.readNumbers_eq number hlen (input.length + 1) hpos
        (Nat.zero_le pos) (by omega) record
      rw [Repeat.after_zero, Group.words_eq, hrest] at hread
      refine ⟨trail, ?_, htrail⟩
      simp only [Group.reports, Group.Fits, Group.room, Group.next, Group.emits, Group.shortage, hl,
        hrest, hread]
      by_cases hfit : g.wordCount number.width (input.length - pos) * number.width ≤
          input.length - pos
      · simp only [if_pos hfit, List.length_map, List.length_range, List.map_map]
        exact congrArg (fun fields => some (Passage.mk trail
          ⟨[], .ok (_, record.insertAll fields)⟩)) (numbered_map_range _ _ _ _)
      · simp only [if_neg hfit]
        rfl
  | nulByte =>
      simp only [Group.reports, Group.Fits, Group.room, Group.next, Group.emits, Group.shortage, hl,
        remaining?_eq hpos, Option.bind_eq_bind, Option.bind_some]
      by_cases hleft : g.directive.distance ≤ input.length - pos
      · have hend : pos + g.directive.distance ≤ input.length := by omega
        simp only [if_neg (Nat.not_lt.2 hleft), if_pos hleft, size?_eq (Nat.le_trans hend hlen),
          Option.bind_some]
        exact ⟨[⟨input, pos + g.directive.distance⟩], rfl, List.forall_mem_singleton.2 ⟨rfl, hend⟩⟩
      · simp only [if_pos (Nat.lt_of_not_le hleft), if_neg hleft]
        exact ⟨[], rfl, by simp⟩
  | backUp =>
      simp only [Group.reports, Group.Fits, Group.room, Group.next, Group.emits, hl,
        if_pos (Nat.zero_le _)]
      by_cases hback : g.directive.distance ≤ pos
      · have hend : pos - g.directive.distance ≤ input.length := by omega
        simp only [if_pos hback, if_neg (Nat.not_lt.2 hback), List.append_nil]
        exact ⟨[⟨input, pos - g.directive.distance⟩], rfl, List.forall_mem_singleton.2 ⟨rfl, hend⟩⟩
      · have hzero : pos - g.directive.distance = 0 := by omega
        simp only [if_neg hback, if_pos (Nat.lt_of_not_le hback), hzero]
        exact ⟨[⟨input, 0⟩], rfl, List.forall_mem_singleton.2 ⟨rfl, Nat.zero_le _⟩⟩
  | absolute =>
      simp only [Group.reports, Group.Fits, Group.room, Group.next, Group.emits, hl,
        if_pos (Nat.zero_le _)]
      by_cases hin : g.directive.distance ≤ input.length
      · simp only [if_pos hin, if_neg (Nat.not_lt.2 hin), List.append_nil]
        exact ⟨[⟨input, g.directive.distance⟩], rfl, List.forall_mem_singleton.2 ⟨rfl, hin⟩⟩
      · simp only [if_neg hin, if_pos (Nat.lt_of_not_le hin)]
        exact ⟨[], rfl, by simp⟩

theorem Record.insertAll_append (record : Record) (front fields : List (String × Value)) :
    record.insertAll (front ++ fields) = (record.insertAll front).insertAll fields :=
  List.foldl_append

theorem readGroupsInPlace_eq {groups : List Group}
    (hgroups : ∀ g ∈ groups, g.directive.repetition.Writable) {input : List UInt8}
    (hlen : input.length ≤ maxPosition) {pos : Nat} (hpos : pos ≤ input.length)
    (record : Record) :
    ∃ passage, readGroupsInPlace groups ⟨input, pos⟩ record = some passage ∧
      (passage.result >>= fun way => pure way.2) =
        (readFields ⟨input, pos⟩ groups >>= fun fields => pure (record.insertAll fields)) ∧
      ∀ s ∈ passage.trail, s.Within input := by
  induction groups generalizing pos record with
  | nil => exact ⟨_, rfl, rfl, by simp⟩
  | cons g groups ih =>
      obtain ⟨hg, hgroups⟩ := List.forall_mem_cons.1 hgroups
      obtain ⟨trail, hread, htrail⟩ := Group.readInPlace_eq hg hlen hpos record
      rw [readFields, Group.read_eq, Reader.remaining]
      by_cases hfit : g.Fits (input.length - pos)
      · obtain ⟨onward, honward, hresult, hway⟩ := ih hgroups (hfit.next_le hpos)
          (record.insertAll (g.emits (input.drop pos)))
        rw [if_pos hfit] at hread ⊢
        refine ⟨⟨trail ++ onward.trail, ⟨g.reports input.length pos ++ onward.result.diagnostics,
          onward.result.outcome⟩⟩, ?_, ?_, List.forall_mem_append.2 ⟨htrail, hway⟩⟩
        · simp only [readGroupsInPlace, hread, Option.bind_eq_bind, Option.bind_some, honward]
        · calc (Reported.report (g.reports input.length pos) >>= fun _ => onward.result) >>=
                  (fun way => pure way.2)
              = Reported.report (g.reports input.length pos) >>= fun _ =>
                  readFields ⟨input, g.next input.length pos⟩ groups >>= fun fields =>
                    pure ((record.insertAll (g.emits (input.drop pos))).insertAll fields) := by
                rw [bind_assoc, hresult]
            _ = _ := by
                simp only [bind_assoc, pure_bind, Record.insertAll_append]
                rfl
      · rw [if_neg hfit] at hread ⊢
        refine ⟨⟨trail, ⟨g.reports input.length pos,
          .error (g.shortage (input.length - pos))⟩⟩, ?_, rfl, htrail⟩
        simp only [readGroupsInPlace, hread, Option.bind_eq_bind, Option.bind_some]

end BytePack
